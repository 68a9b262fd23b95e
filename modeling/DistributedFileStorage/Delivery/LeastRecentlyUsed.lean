import DistributedFileStorage.Caching.LruCache
import DistributedFileStorage.Caching.Recency
import DistributedFileStorage.Delivery.CDNGateway

/-!
# The gateway is a least recently used cache

The gateway stamps each entry with the time of its last access and scans the stamps when it has to
evict. The textbook cache keeps the entries in the order of their accesses and drops the last
one. In every history of calls in which the clock moves on from one call to the next, the two hold
the same chunks and serve the same chunks from the cache (`refines_lruDelivery`).
-/

set_option autoImplicit false

namespace DistributedFileStorage.Delivery

open Store Nodes Relational Caching

/-! ## Histories -/

/-- A call on the gateway. -/
inductive DeliveryCall where
  | getChunk (chunkHash : ChunkHash) (readChunk : ReadChunk) (clock : ClockReadings)
  | registerFileVersion (fileId : String) (version : ℤ) (chunkHashes : List ChunkHash)
  | invalidateCache (fileId : String) (version : ℤ)

namespace DeliveryCall

/-- The readings of the clock in a call. -/
def readings : DeliveryCall → List Time
  | getChunk _ _ clock => [clock.checkedAt, clock.accessedAt, clock.expiresFrom, clock.storedAt]
  | _ => []

/-- The hash that is asked for is not empty. -/
def Named : DeliveryCall → Prop
  | getChunk chunkHash _ _ => chunkHash ≠ ""
  | _ => True

/-- The clock moves on from one call to the next. -/
def Ticking (calls : List DeliveryCall) : Prop :=
  calls.Pairwise fun earlier later => ∀ before ∈ earlier.readings, ∀ after ∈ later.readings,
    before < after

/-- What the calls serve, one after the other, and the state after them. -/
def serveAll {S : Type} (serve : S → DeliveryCall → Option Buffer × S) :
    S → List DeliveryCall → List (Option Buffer) × S
  | state, [] => ([], state)
  | state, call :: calls =>
      ((serve state call).1 :: (serveAll serve (serve state call).2 calls).1,
        (serveAll serve (serve state call).2 calls).2)

end DeliveryCall

/-- What a call serves from the cache, which is nothing on a miss, and the gateway after it. -/
def CDNGatewayImpl.serve (gateway : CDNGatewayImpl) : DeliveryCall → Option Buffer × CDNGatewayImpl
  | .getChunk chunkHash readChunk clock =>
      ((gateway.getCached chunkHash clock).1, (gateway.getChunk readChunk chunkHash clock).2)
  | .registerFileVersion fileId version chunkHashes =>
      (none, gateway.registerFileVersion fileId version chunkHashes)
  | .invalidateCache fileId version => (none, gateway.invalidateCache fileId version)

/-! ## The textbook cache -/

/-- The cache, and the chunks registered for each version of a file. -/
structure LruDelivery (capacity : ℕ) where
  cache : LruCache ChunkHash Buffer Time capacity
  registered : String × ℤ → List ChunkHash

namespace LruDelivery

variable {capacity : ℕ}

/-- Nothing is cached and nothing is registered. -/
def empty : LruDelivery capacity := ⟨.empty, fun _ => []⟩

/-- What a call serves from the cache, and the state after it. A chunk that is not served is read
from its origin, and is inserted when the read succeeds. -/
def serve (room : 0 < capacity) (ttl : ℤ) (origin : ReadChunk → ChunkHash → Except Failure Buffer)
    (state : LruDelivery capacity) : DeliveryCall → Option Buffer × LruDelivery capacity
  | .getChunk chunkHash readChunk clock =>
      match state.cache.access clock.checkedAt chunkHash with
      | (some data, cache) => (some data, { state with cache := cache })
      | (none, cache) =>
          match origin readChunk chunkHash with
          | .error _ => (none, { state with cache := cache })
          | .ok data =>
              (none, { state with
                cache := cache.insert ⟨chunkHash, data, clock.expiresFrom + ttl⟩ room })
  | .registerFileVersion fileId version chunkHashes =>
      (none, { state with
        registered := Function.update state.registered (fileId, version) chunkHashes })
  | .invalidateCache fileId version =>
      (none,
        { cache := state.cache.remove (state.registered (fileId, version))
          registered := Function.update state.registered (fileId, version) [] })

end LruDelivery

/-! ## The simulation -/

/-- The entry of the textbook cache for an entry of the gateway. -/
def lruEntry (row : ChunkHash × CacheEntry) : LruEntry ChunkHash Buffer Time :=
  ⟨row.1, row.2.data, row.2.expiresAt⟩

/-- The time of the last access. -/
def lastAccess (row : ChunkHash × CacheEntry) : Time := row.2.lastAccessed

/-- The map of the gateway, and the textbook cache with its entries by recency. -/
def MirrorsCache {capacity : ℕ} (cache : Table (Prod.fst : ChunkHash × CacheEntry → ChunkHash))
    (lru : LruCache ChunkHash Buffer Time capacity) : Prop :=
  ∃ rows, ByRecency lastAccess cache rows ∧ lru.entries = rows.map lruEntry

namespace MirrorsCache

variable {capacity : ℕ} {cache : Table (Prod.fst : ChunkHash × CacheEntry → ChunkHash)}
  {lru : LruCache ChunkHash Buffer Time capacity} {chunkHash : ChunkHash}

/-- The two hold the same chunks. -/
theorem keys (mirrors : MirrorsCache cache lru) : chunkHash ∈ cache.keys ↔ chunkHash ∈ lru.keys := by
  obtain ⟨rows, recency, same⟩ := mirrors
  have listed : lru.keys = rows.map Prod.fst := by
    rw [LruCache.keys, same, List.map_map]
    rfl
  rw [listed]
  exact ((recency.perm.map Prod.fst).mem_iff).symm

theorem length (mirrors : MirrorsCache cache lru) : cache.rows.length = lru.entries.length := by
  obtain ⟨rows, recency, same⟩ := mirrors
  rw [same, List.length_map, recency.perm.length_eq]

theorem lookup (mirrors : MirrorsCache cache lru) (chunkHash : ChunkHash) :
    lru.lookup chunkHash = (cache.find? chunkHash).map lruEntry := by
  obtain ⟨rows, recency, same⟩ := mirrors
  rw [LruCache.lookup, same, List.find?_map, ← recency.find?_eq]
  rfl

theorem delete (mirrors : MirrorsCache cache lru) (chunkHash : ChunkHash) :
    MirrorsCache (cache.delete chunkHash) (lru.remove [chunkHash]) := by
  obtain ⟨rows, recency, same⟩ := mirrors
  refine ⟨_, recency.delete chunkHash, ?_⟩
  simp only [LruCache.remove, same, List.filter_map, List.mem_singleton]
  rfl

/-- Deleting chunks one after the other is removing them together. -/
theorem foldl_delete (mirrors : MirrorsCache cache lru) (chunkHashes : List ChunkHash) :
    MirrorsCache (chunkHashes.foldl Table.delete cache) (lru.remove chunkHashes) := by
  induction chunkHashes generalizing cache lru with
  | nil =>
      have same : lru.remove [] = lru := by
        ext1
        simp [LruCache.remove]
      rwa [same]
  | cons chunkHash rest ih =>
      have removed := ih (mirrors.delete chunkHash)
      have same : (lru.remove [chunkHash]).remove rest = lru.remove (chunkHash :: rest) := by
        ext1
        simp only [LruCache.remove, List.filter_filter]
        refine List.filter_congr fun entry _ => ?_
        simp [Bool.and_comm]
      rwa [same] at removed

/-- An access stamps the entry with a new time, or moves it to the front. -/
theorem touch (mirrors : MirrorsCache cache lru) {entry : CacheEntry} {now : Time}
    (found : cache.find? chunkHash = some (chunkHash, entry))
    (latest : ∀ row ∈ cache.rows, lastAccess row < now) :
    MirrorsCache (cache.update chunkHash (Prod.map id (.accessed now)) fun _ => rfl)
      (lru.touch chunkHash) := by
  obtain ⟨rows, recency, same⟩ := mirrors
  have member := (Table.find?_eq_some_iff.mp found).1
  refine ⟨(chunkHash, entry.accessed now) :: rows.filter fun row => row.1 ≠ chunkHash,
    recency.update member latest, ?_⟩
  have here : (rows.map lruEntry).filter (fun other => other.key = chunkHash) =
      [lruEntry (chunkHash, entry)] := by
    rw [List.filter_map]
    exact congrArg (List.map lruEntry) (recency.filter_key_eq member)
  simp only [LruCache.touch, same, here, List.filter_map]
  rfl

end MirrorsCache

/-! ## The eviction -/

/-- **The scan finds an entry that was accessed least recently.** -/
theorem foldl_scanEntry (rows : List (ChunkHash × CacheEntry)) :
    rows = [] ∧ rows.foldl CDNGatewayImpl.scanEntry {} = {} ∨
      ∃ row ∈ rows, rows.foldl CDNGatewayImpl.scanEntry {} = ⟨row.1, some (lastAccess row)⟩ ∧
        ∀ other ∈ rows, lastAccess row ≤ lastAccess other := by
  induction rows using List.reverseRecOn with
  | nil => exact .inl ⟨rfl, rfl⟩
  | append_singleton rows last ih =>
      right
      rw [List.foldl_concat]
      rcases ih with ⟨rfl, scanned⟩ | ⟨row, member, scanned, least⟩
      · refine ⟨last, List.mem_singleton_self last, ?_, fun other member => ?_⟩
        · rw [scanned]
          rfl
        · rw [List.mem_singleton.mp member]
      · rw [scanned]
        by_cases earlier : lastAccess last < lastAccess row
        · refine ⟨last, List.mem_append_right _ (List.mem_singleton_self last), ?_, ?_⟩
          · exact if_pos (decide_eq_true earlier)
          · intro other present
            rcases List.mem_append.mp present with before | here
            · exact earlier.le.trans (least other before)
            · rw [List.mem_singleton.mp here]
        · refine ⟨row, List.mem_append_left _ member, ?_, ?_⟩
          · refine if_neg fun later => earlier ?_
            exact of_decide_eq_true later
          · intro other present
            rcases List.mem_append.mp present with before | here
            · exact least other before
            · rw [List.mem_singleton.mp here]
              exact not_lt.mp earlier

/-- A gateway whose entries all have names evicts the last entry when it is full. -/
theorem CDNGatewayImpl.recency_evict {gateway : CDNGatewayImpl}
    {rows : List (ChunkHash × CacheEntry)} (room : 0 < gateway.maxCacheEntries)
    (named : ∀ row ∈ gateway.cache.rows, row.1 ≠ "")
    (recency : ByRecency lastAccess gateway.cache rows) :
    ByRecency lastAccess gateway.evict
      (if gateway.maxCacheEntries ≤ rows.length then rows.dropLast else rows) := by
  rw [CDNGatewayImpl.evict, recency.perm.length_eq]
  split
  · rename_i full
    rcases foldl_scanEntry gateway.cache.rows with ⟨none, _⟩ | ⟨row, member, scanned, least⟩
    · rw [none, List.length_nil] at full
      omega
    · rcases List.eq_nil_or_concat' rows with rfl | ⟨earlier, last, rfl⟩
      · cases recency.perm.mem_iff.mpr member
      · -- the scan has found the last entry, since no two were accessed at one time
        have lastMember := recency.perm.mem_iff.mp
          (List.mem_append_right earlier (List.mem_singleton_self last))
        have found : row = last := by
          by_contra different
          have listed := recency.perm.mem_iff.mpr member
          have before := (List.mem_append.mp listed).resolve_right fun here =>
            different (List.mem_singleton.mp here)
          have apart := (List.pairwise_append.mp recency.descending).2.2 row before last
            (List.mem_singleton_self last)
          exact absurd (least last lastMember) (not_le.mpr apart)
        subst found
        dsimp only
        rw [scanned, if_pos (named row member), List.dropLast_concat]
        exact recency.delete_last rfl
  · exact recency

theorem CDNGatewayImpl.mem_evict {gateway : CDNGatewayImpl} {row : ChunkHash × CacheEntry}
    (member : row ∈ gateway.evict.rows) : row ∈ gateway.cache.rows := by
  unfold evict at member
  dsimp only at member
  split at member
  · split at member
    · exact (Table.mem_delete.mp member).1
    · exact member
  · exact member

/-- A new entry is stamped with a new time, or goes to the front. -/
theorem MirrorsCache.insert {gateway : CDNGatewayImpl}
    {lru : LruCache ChunkHash Buffer Time gateway.maxCacheEntries}
    (mirrors : MirrorsCache gateway.cache lru) (room : 0 < gateway.maxCacheEntries)
    (named : ∀ row ∈ gateway.cache.rows, row.1 ≠ "") {chunkHash : ChunkHash}
    (absent : chunkHash ∉ gateway.cache.keys) {entry : CacheEntry}
    (latest : ∀ row ∈ gateway.cache.rows, lastAccess row < entry.lastAccessed) :
    MirrorsCache (gateway.evict.upsert (chunkHash, entry))
      (lru.insert (lruEntry (chunkHash, entry)) room) := by
  obtain ⟨rows, recency, same⟩ := mirrors
  have evicted := CDNGatewayImpl.recency_evict room named recency
  have free : chunkHash ∉ gateway.evict.keys := by
    intro taken
    obtain ⟨row, member, key⟩ := Table.mem_keys.mp taken
    exact absent (Table.mem_keys.mpr ⟨row, CDNGatewayImpl.mem_evict member, key⟩)
  refine ⟨_, evicted.upsert free fun row member =>
    latest row (CDNGatewayImpl.mem_evict member), ?_⟩
  have others : (lru.remove [chunkHash]).entries = rows.map lruEntry := by
    rw [← same]
    refine List.filter_eq_self.mpr fun other member => ?_
    have kept : other.key ≠ chunkHash := by
      rintro rfl
      exact absent ((MirrorsCache.keys ⟨rows, recency, same⟩).mpr (List.mem_map_of_mem member))
    simpa using kept
  show lruEntry (chunkHash, entry) :: LruCache.trim gateway.maxCacheEntries
    (lru.remove [chunkHash]).entries = _
  rw [others, LruCache.trim, List.length_map]
  split
  · rw [← List.map_dropLast]
    rfl
  · rfl

/-- An entry is found, dropped or moved to the front in the two alike. -/
theorem MirrorsCache.access {gateway : CDNGatewayImpl} {capacity : ℕ}
    {lru : LruCache ChunkHash Buffer Time capacity} (mirrors : MirrorsCache gateway.cache lru)
    (chunkHash : ChunkHash) {clock : ClockReadings}
    (latest : ∀ row ∈ gateway.cache.rows, lastAccess row < clock.accessedAt) :
    (gateway.getCached chunkHash clock).1 = (lru.access clock.checkedAt chunkHash).1 ∧
      MirrorsCache (gateway.getCached chunkHash clock).2.cache
        (lru.access clock.checkedAt chunkHash).2 := by
  rw [CDNGatewayImpl.getCached, LruCache.access, mirrors.lookup chunkHash]
  rcases found : gateway.cache.find? chunkHash with _ | ⟨key, entry⟩
  · exact ⟨rfl, mirrors⟩
  · obtain rfl : key = chunkHash := (Table.find?_eq_some_iff.mp found).2
    by_cases expired : entry.expiresAt < clock.checkedAt
    · simp only [Option.map_some, lruEntry, if_pos expired]
      exact ⟨trivial, mirrors.delete key⟩
    · simp only [Option.map_some, lruEntry, if_neg expired]
      exact ⟨trivial, mirrors.touch found latest⟩

namespace CDNGatewayImpl

variable {gateway : CDNGatewayImpl} {chunkHash : ChunkHash} {clock : ClockReadings}

/-- A chunk that is not served is not in the map, and the other entries stay. -/
theorem absent_of_missed (missed : (gateway.getCached chunkHash clock).1 = none) :
    chunkHash ∉ (gateway.getCached chunkHash clock).2.cache.keys ∧
      ∀ row ∈ (gateway.getCached chunkHash clock).2.cache.rows, row ∈ gateway.cache.rows := by
  unfold getCached at missed ⊢
  split
  · rename_i absent
    exact ⟨Table.find?_eq_none_iff.mp absent, fun _ member => member⟩
  · rename_i entry found
    simp only [found] at missed
    split
    · exact ⟨Table.find?_eq_none_iff.mp Table.find?_delete_self,
        fun _ member => (Table.mem_delete.mp member).1⟩
    · rename_i fresh
      rw [if_neg fresh] at missed
      cases missed

/-- The fields beside the map. -/
def SameSettings (gateway other : CDNGatewayImpl) : Prop :=
  gateway.maxCacheEntries = other.maxCacheEntries ∧ gateway.ttlMs = other.ttlMs ∧
    gateway.storageNodes = other.storageNodes ∧
    gateway.fileVersionChunks = other.fileVersionChunks

theorem sameSettings_getCached (gateway : CDNGatewayImpl) (chunkHash : ChunkHash)
    (clock : ClockReadings) :
    SameSettings (gateway.getCached chunkHash clock).2 gateway := by
  unfold getCached
  split
  · exact ⟨rfl, rfl, rfl, rfl⟩
  · split <;> exact ⟨rfl, rfl, rfl, rfl⟩

/-- The stamps and the keys of a map are taken from the map before or from the call. -/
theorem row_getCached {row : ChunkHash × CacheEntry}
    (member : row ∈ (gateway.getCached chunkHash clock).2.cache.rows) :
    ∃ old ∈ gateway.cache.rows, row.1 = old.1 ∧
      (lastAccess row = lastAccess old ∨ lastAccess row = clock.accessedAt) := by
  unfold getCached at member
  split at member
  · exact ⟨row, member, rfl, .inl rfl⟩
  · split at member
    · exact ⟨row, (Table.mem_delete.mp member).1, rfl, .inl rfl⟩
    · obtain ⟨old, oldMember, rfl⟩ := List.mem_map.mp member
      refine ⟨old, oldMember, ?_⟩
      split
      · exact ⟨rfl, .inr rfl⟩
      · exact ⟨rfl, .inl rfl⟩

end CDNGatewayImpl

/-- The chunks that are registered for a version. -/
def CDNGatewayImpl.registered (gateway : CDNGatewayImpl) (version : String × ℤ) : List ChunkHash :=
  ((gateway.fileVersionChunks.find? (versionKey version.1 version.2)).map Prod.snd).getD []

theorem versionKey_ne {version other : String × ℤ} (different : other ≠ version) :
    versionKey other.1 other.2 ≠ versionKey version.1 version.2 := fun same =>
  different (Prod.ext (versionKey_inj same).1 (versionKey_inj same).2)

theorem CDNGatewayImpl.registered_registerFileVersion (gateway : CDNGatewayImpl) (fileId : String)
    (version : ℤ) (chunkHashes : List ChunkHash) :
    (gateway.registerFileVersion fileId version chunkHashes).registered =
      Function.update gateway.registered (fileId, version) chunkHashes := by
  funext other
  rcases eq_or_ne other (fileId, version) with rfl | different
  · simp [registered, registerFileVersion, Table.find?_upsert_self]
  · have kept : (gateway.fileVersionChunks.upsert (versionKey fileId version, chunkHashes)).find?
        (versionKey other.1 other.2) =
          gateway.fileVersionChunks.find? (versionKey other.1 other.2) :=
      Table.find?_upsert_of_ne (versionKey_ne different)
    rw [Function.update_of_ne different, registered, registerFileVersion, kept]
    rfl

theorem CDNGatewayImpl.registered_invalidateCache (gateway : CDNGatewayImpl) (fileId : String)
    (version : ℤ) :
    (gateway.invalidateCache fileId version).registered =
      Function.update gateway.registered (fileId, version) [] := by
  funext other
  rcases eq_or_ne other (fileId, version) with rfl | different
  · simp [registered, invalidateCache, Table.find?_delete_self]
  · rw [Function.update_of_ne different, registered, invalidateCache,
      Table.find?_delete_of_ne (versionKey_ne different)]
    rfl

/-! ## Runs -/

/-- The gateway for some storage nodes, and the textbook cache of the same capacity. -/
structure Mirrors (storageNodes : List NodeId) {capacity : ℕ} (gateway : CDNGatewayImpl)
    (lru : LruDelivery capacity) : Prop where
  cache : MirrorsCache gateway.cache lru.cache
  named : ∀ row ∈ gateway.cache.rows, row.1 ≠ ""
  registered : gateway.registered = lru.registered
  capacity : gateway.maxCacheEntries = capacity
  ttlMs : gateway.ttlMs = (CDNGatewayImpl.new storageNodes 0).ttlMs
  storageNodes : gateway.storageNodes = storageNodes

/-- The read of a chunk that is not in the cache. -/
def originOf (storageNodes : List NodeId) (readChunk : ReadChunk) (chunkHash : ChunkHash) :
    Except Failure Buffer :=
  (CDNGatewayImpl.new storageNodes 0).selectNode >>= fun node => readChunk node chunkHash

theorem mirrors_new (storageNodes : List NodeId) (capacity : ℕ) :
    Mirrors storageNodes (.new storageNodes capacity) (.empty : LruDelivery capacity) where
  cache := ⟨[], .empty, rfl⟩
  named := fun _ member => nomatch member
  registered := rfl
  capacity := rfl
  ttlMs := rfl
  storageNodes := rfl

/-- The textbook cache that a gateway for some storage nodes is compared with. -/
abbrev lruServe (storageNodes : List NodeId) {capacity : ℕ} (room : 0 < capacity) :
    LruDelivery capacity → DeliveryCall → Option Buffer × LruDelivery capacity :=
  LruDelivery.serve room (CDNGatewayImpl.new storageNodes 0).ttlMs (originOf storageNodes)

namespace Mirrors

variable {storageNodes : List NodeId} {capacity : ℕ} {gateway : CDNGatewayImpl}
  {lru : LruDelivery capacity}

theorem selectNode_eq (mirrors : Mirrors storageNodes gateway lru) :
    gateway.selectNode = (CDNGatewayImpl.new storageNodes 0).selectNode := by
  rw [CDNGatewayImpl.selectNode, mirrors.storageNodes]
  rfl

/-- Looking a chunk up. -/
theorem getCached (mirrors : Mirrors storageNodes gateway lru) (chunkHash : ChunkHash)
    {clock : ClockReadings}
    (latest : ∀ row ∈ gateway.cache.rows, lastAccess row < clock.accessedAt) :
    Mirrors storageNodes (gateway.getCached chunkHash clock).2
      { lru with cache := (lru.cache.access clock.checkedAt chunkHash).2 } := by
  obtain ⟨room, ttlMs, nodes, versions⟩ :=
    gateway.sameSettings_getCached chunkHash clock
  exact
    { cache := (mirrors.cache.access chunkHash latest).2
      named := fun row member => by
        obtain ⟨old, oldMember, key, _⟩ := CDNGatewayImpl.row_getCached member
        rw [key]
        exact mirrors.named old oldMember
      registered := by
        rw [← mirrors.registered]
        funext version
        rw [CDNGatewayImpl.registered, versions]
        rfl
      capacity := room.trans mirrors.capacity
      ttlMs := ttlMs.trans mirrors.ttlMs
      storageNodes := nodes.trans mirrors.storageNodes }

/-- Keeping a chunk that was read from its node. -/
theorem putCache (mirrors : Mirrors storageNodes gateway lru) (room : 0 < capacity)
    {chunkHash : ChunkHash} (hash : chunkHash ≠ "") (absent : chunkHash ∉ gateway.cache.keys)
    (data : Buffer) {clock : ClockReadings}
    (latest : ∀ row ∈ gateway.cache.rows, lastAccess row < clock.storedAt) :
    Mirrors storageNodes (gateway.putCache chunkHash data clock)
      { lru with
        cache := lru.cache.insert
          ⟨chunkHash, data, clock.expiresFrom + (CDNGatewayImpl.new storageNodes 0).ttlMs⟩ room } := by
  obtain ⟨cache, named, registered, rfl, ttlMs, nodes⟩ := mirrors
  rw [← ttlMs]
  refine ⟨cache.insert room named absent latest, fun row member => ?_, registered, rfl, ttlMs, nodes⟩
  rcases Table.mem_upsert.mp member with rfl | ⟨kept, _⟩
  · exact hash
  · exact named row (CDNGatewayImpl.mem_evict kept)

/-- **One call.** -/
theorem serve (mirrors : Mirrors storageNodes gateway lru) (room : 0 < capacity)
    {call : DeliveryCall} (named : call.Named)
    (latest : ∀ row ∈ gateway.cache.rows, ∀ reading ∈ call.readings, lastAccess row < reading) :
    (gateway.serve call).1 = (lruServe storageNodes room lru call).1 ∧
      Mirrors storageNodes (gateway.serve call).2 (lruServe storageNodes room lru call).2 := by
  cases call with
  | getChunk chunkHash readChunk clock =>
      have before : ∀ row ∈ gateway.cache.rows, lastAccess row < clock.accessedAt :=
        fun row member => latest row member clock.accessedAt (by simp [DeliveryCall.readings])
      have agree := (mirrors.cache.access chunkHash before).1
      have looked := mirrors.getCached chunkHash before
      simp only [CDNGatewayImpl.serve, CDNGatewayImpl.getChunk, lruServe, LruDelivery.serve]
      rcases answer : gateway.getCached chunkHash clock with ⟨served, missed⟩
      rcases textbook : lru.cache.access clock.checkedAt chunkHash with ⟨found, cache⟩
      rw [answer, textbook] at agree looked
      cases agree
      cases served with
      | some data => exact ⟨rfl, looked⟩
      | none =>
          have read : (missed.selectNode >>= fun node => readChunk node chunkHash) =
              originOf storageNodes readChunk chunkHash := by
            rw [looked.selectNode_eq]
            rfl
          simp only [read]
          rcases originOf storageNodes readChunk chunkHash with failure | data
          · exact ⟨rfl, looked⟩
          · have absent := CDNGatewayImpl.absent_of_missed (congrArg Prod.fst answer)
            rw [answer] at absent
            refine ⟨rfl, looked.putCache room named absent.1 data fun row member => ?_⟩
            exact latest row (absent.2 row member) clock.storedAt (by simp [DeliveryCall.readings])
  | registerFileVersion fileId version chunkHashes =>
      refine ⟨rfl, { mirrors with registered := ?_ }⟩
      rw [CDNGatewayImpl.serve, CDNGatewayImpl.registered_registerFileVersion, mirrors.registered]
      rfl
  | invalidateCache fileId version =>
      refine ⟨rfl, { mirrors with cache := ?_, named := ?_, registered := ?_ }⟩
      · show MirrorsCache ((gateway.registered (fileId, version)).foldl Table.delete gateway.cache) _
        rw [mirrors.registered]
        exact mirrors.cache.foldl_delete _
      · intro row member
        exact mirrors.named row (Table.mem_foldl_delete.mp member).1
      · rw [CDNGatewayImpl.serve, CDNGatewayImpl.registered_invalidateCache, mirrors.registered]
        rfl

end Mirrors

/-- The time of every last access is from before the call or from the call. -/
theorem CDNGatewayImpl.lastAccess_serve {gateway : CDNGatewayImpl} {call : DeliveryCall}
    {row : ChunkHash × CacheEntry} (member : row ∈ (gateway.serve call).2.cache.rows) :
    (∃ old ∈ gateway.cache.rows, lastAccess row = lastAccess old) ∨
      lastAccess row ∈ call.readings := by
  cases call with
  | getChunk chunkHash readChunk clock =>
      have looked : ∀ row ∈ (gateway.getCached chunkHash clock).2.cache.rows,
          (∃ old ∈ gateway.cache.rows, lastAccess row = lastAccess old) ∨
            lastAccess row ∈ (DeliveryCall.getChunk chunkHash readChunk clock).readings := by
        intro row member
        obtain ⟨old, oldMember, _, same | now⟩ := row_getCached member
        · exact .inl ⟨old, oldMember, same⟩
        · exact .inr (by simp [DeliveryCall.readings, now])
      simp only [serve, getChunk] at member
      split at member
      · rename_i answer
        exact looked row (answer ▸ member)
      · rename_i missed answer
        rw [answer] at looked
        split at member
        · exact looked row member
        · rcases Table.mem_upsert.mp member with rfl | ⟨kept, _⟩
          · exact .inr (by simp [DeliveryCall.readings, lastAccess])
          · exact looked row (mem_evict kept)
  | registerFileVersion fileId version chunkHashes => exact .inl ⟨row, member, rfl⟩
  | invalidateCache fileId version =>
      exact .inl ⟨row, (Table.mem_foldl_delete.mp member).1, rfl⟩

/-- **One call after the other.** -/
theorem Mirrors.serveAll {storageNodes : List NodeId} {capacity : ℕ} (room : 0 < capacity)
    {calls : List DeliveryCall} {gateway : CDNGatewayImpl} {lru : LruDelivery capacity}
    (mirrors : Mirrors storageNodes gateway lru) (named : ∀ call ∈ calls, call.Named)
    (ticking : DeliveryCall.Ticking calls)
    (latest : ∀ row ∈ gateway.cache.rows, ∀ call ∈ calls, ∀ reading ∈ call.readings,
      lastAccess row < reading) :
    (DeliveryCall.serveAll CDNGatewayImpl.serve gateway calls).1 =
        (DeliveryCall.serveAll (lruServe storageNodes room) lru calls).1 ∧
      Mirrors storageNodes (DeliveryCall.serveAll CDNGatewayImpl.serve gateway calls).2
        (DeliveryCall.serveAll (lruServe storageNodes room) lru calls).2 := by
  induction calls generalizing gateway lru with
  | nil => exact ⟨rfl, mirrors⟩
  | cons call calls ih =>
      obtain ⟨here, later⟩ := List.pairwise_cons.mp ticking
      obtain ⟨served, next⟩ := mirrors.serve room (named call List.mem_cons_self)
        fun row member => latest row member call List.mem_cons_self
      have rest := ih next (fun other member => named other (List.mem_cons_of_mem _ member)) later
        fun row member other otherMember reading isReading => by
          rcases CDNGatewayImpl.lastAccess_serve member with ⟨old, oldMember, same⟩ | stamped
          · rw [same]
            exact latest old oldMember other (List.mem_cons_of_mem _ otherMember) reading isReading
          · exact here other otherMember _ stamped reading isReading
      exact ⟨List.cons_eq_cons.mpr ⟨served, rest.1⟩, rest.2⟩

/-- **The gateway is a least recently used cache**: in every history of calls in which the clock
moves on, it serves the same chunks from its map as the textbook cache does, it holds the same
chunks, and never more than there is room for. -/
theorem refines_lruDelivery (storageNodes : List NodeId) {capacity : ℕ} (room : 0 < capacity)
    {calls : List DeliveryCall} (named : ∀ call ∈ calls, call.Named)
    (ticking : DeliveryCall.Ticking calls) :
    let gateway := DeliveryCall.serveAll CDNGatewayImpl.serve (.new storageNodes capacity) calls
    let lru := DeliveryCall.serveAll (lruServe storageNodes room) .empty calls
    gateway.1 = lru.1 ∧ (∀ chunkHash, chunkHash ∈ gateway.2.cache.keys ↔
      chunkHash ∈ lru.2.cache.keys) ∧ gateway.2.cache.rows.length ≤ capacity := by
  obtain ⟨served, mirrors⟩ := (mirrors_new storageNodes capacity).serveAll room named ticking
    fun _ member => nomatch member
  refine ⟨served, fun _ => mirrors.cache.keys, ?_⟩
  rw [mirrors.cache.length]
  exact LruCache.bounded _

/-- With room for one chunk: a second chunk evicts the first, which misses when it is asked for
again. -/
theorem refines_lruDelivery_evicting :
    (DeliveryCall.serveAll CDNGatewayImpl.serve (.new ["node"] 1)
      [.getChunk "a" (fun _ _ => .ok [1]) ⟨0, 0, 0, 0⟩,
        .getChunk "b" (fun _ _ => .ok [2]) ⟨1, 1, 1, 1⟩,
        .getChunk "b" (fun _ _ => .ok [2]) ⟨2, 2, 2, 2⟩,
        .getChunk "a" (fun _ _ => .ok [1]) ⟨3, 3, 3, 3⟩]).1 = [none, none, some [2], none] := by
  refine (refines_lruDelivery ["node"] Nat.zero_lt_one ?named ?ticking).1.trans ?served
  case named => simp [DeliveryCall.Named]
  case ticking => simp [DeliveryCall.Ticking, DeliveryCall.readings]
  case served => decide

end DistributedFileStorage.Delivery
