import DistributedFileStorage.Encoding.Decimal
import DistributedFileStorage.Nodes.Disk
import DistributedFileStorage.Placement.ConsistentHashRing

/-!
# The CDN gateway

The gateway keeps chunks in a map from their hashes, up to a number of entries. An entry expires
after a day, and is dropped when it is asked for after that. When the map is full, the entry that
was accessed least recently makes room. The chunks that were registered for a version of a file
are dropped when the version is invalidated.

Every reading of the clock is an argument, and so is what the storage node answers when a chunk is
read from it.
-/

set_option autoImplicit false

namespace DistributedFileStorage.Delivery

open Encoding Store Nodes Relational

structure CacheEntry where
  data : Buffer
  expiresAt : Time
  lastAccessed : Time
  deriving DecidableEq

/-- `entry.lastAccessed = now`. -/
def CacheEntry.accessed (now : Time) (entry : CacheEntry) : CacheEntry :=
  { entry with lastAccessed := now }

structure CDNGatewayImpl where
  cache : Table (Prod.fst : ChunkHash × CacheEntry → ChunkHash)
  fileVersionChunks : Table (Prod.fst : String × List ChunkHash → String)
  ttlMs : ℤ := 24 * 60 * 60 * 1000
  maxCacheEntries : ℕ := 10000
  storageNodes : List NodeId

/-- What a read of a chunk from a storage node settles to. -/
abbrev ReadChunk : Type := NodeId → ChunkHash → Except Failure Buffer

/-- The readings of the clock in a call of `getChunk`, one for each place of the code. -/
structure ClockReadings where
  /-- compared with the date of an entry -/
  checkedAt : Time
  /-- the last access of an entry that is found -/
  accessedAt : Time
  /-- a new entry expires so long after -/
  expiresFrom : Time
  /-- the last access of a new entry -/
  storedAt : Time

/-- The key `${fileId}:${version}`. -/
def versionKey (fileId : String) (version : ℤ) : String := s!"{fileId}:{version}"

namespace CDNGatewayImpl

/-- A new gateway, for some number of entries. -/
def new (storageNodes : List NodeId) (maxCacheEntries : ℕ) : CDNGatewayImpl :=
  { cache := .empty _, fileVersionChunks := .empty _, maxCacheEntries := maxCacheEntries,
    storageNodes := storageNodes }

variable (gateway : CDNGatewayImpl)

def getCached (chunkHash : ChunkHash) (clock : ClockReadings) : Option Buffer × CDNGatewayImpl :=
  match gateway.cache.find? chunkHash with
  | none => (none, gateway)
  | some entry =>
      if entry.2.expiresAt < clock.checkedAt then
        (none, { gateway with cache := gateway.cache.delete chunkHash })
      else
        (some entry.2.data,
          { gateway with
            cache := gateway.cache.update chunkHash (Prod.map id (.accessed clock.accessedAt))
              fun _ => rfl })

/-- The variables of the scan for the entry to evict. A time of `none` is later than all
others. -/
structure Scan where
  lruKey : String := ""
  lruTime : Option Time := none
  deriving DecidableEq

/-- One iteration of the scan. -/
def scanEntry (scan : Scan) (entry : ChunkHash × CacheEntry) : Scan :=
  if scan.lruTime.all fun lruTime => entry.2.lastAccessed < lruTime then
    { lruKey := entry.1, lruTime := some entry.2.lastAccessed }
  else scan

/-- The map after an entry has been evicted, when it is full. -/
def evict : Table (Prod.fst : ChunkHash × CacheEntry → ChunkHash) :=
  if gateway.maxCacheEntries ≤ gateway.cache.rows.length then
    let scan := gateway.cache.rows.foldl scanEntry {}
    if scan.lruKey ≠ "" then gateway.cache.delete scan.lruKey else gateway.cache
  else gateway.cache

def putCache (chunkHash : ChunkHash) (data : Buffer) (clock : ClockReadings) : CDNGatewayImpl :=
  { gateway with
    cache := gateway.evict.upsert
      (chunkHash, { data := data, expiresAt := clock.expiresFrom + gateway.ttlMs,
                    lastAccessed := clock.storedAt }) }

def selectNode : Except Failure NodeId :=
  match gateway.storageNodes with
  | [] => .error (.error "No storage nodes available")
  | node :: _ => .ok node

def getChunk (readChunk : ReadChunk) (chunkHash : ChunkHash) (clock : ClockReadings) :
    Except Failure Buffer × CDNGatewayImpl :=
  match gateway.getCached chunkHash clock with
  | (some data, served) => (.ok data, served)
  | (none, missed) =>
      match missed.selectNode >>= fun node => readChunk node chunkHash with
      | .error failure => (.error failure, missed)
      | .ok data => (.ok data, missed.putCache chunkHash data clock)

def registerFileVersion (fileId : String) (version : ℤ) (chunkHashes : List ChunkHash) :
    CDNGatewayImpl :=
  { gateway with
    fileVersionChunks := gateway.fileVersionChunks.upsert
      (versionKey fileId version, chunkHashes) }

def invalidateCache (fileId : String) (version : ℤ) : CDNGatewayImpl :=
  let key := versionKey fileId version
  let hashes := ((gateway.fileVersionChunks.find? key).map Prod.snd).getD []
  { gateway with
    cache := hashes.foldl Table.delete gateway.cache
    fileVersionChunks := gateway.fileVersionChunks.delete key }

end CDNGatewayImpl

/-! ## Keys of versions -/

/-- Distinct versions have distinct keys, whatever the identifiers of their files contain. -/
theorem versionKey_inj {fileId otherId : String} {version other : ℤ}
    (same : versionKey fileId version = versionKey otherId other) :
    fileId = otherId ∧ version = other := by
  have characters := congrArg String.toList same
  simp only [versionKey, String.toList_append, toString] at characters
  have split : fileId.toList = otherId.toList ∧ version.repr.toList = other.repr.toList :=
    Placement.split_at_last_separator (by simpa using characters)
      (not_mem_toList_repr version (by decide) (by decide))
      (not_mem_toList_repr other (by decide) (by decide))
  exact ⟨String.toList_inj.mp split.1, int_repr_injective (String.toList_inj.mp split.2)⟩

end DistributedFileStorage.Delivery
