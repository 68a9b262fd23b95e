import DistributedFileStorage.Delivery.ReadIntegrity

/-!
# How old a served chunk may be

A disk may be overwritten after a chunk has been read from it, and then the gateway serves what is
not on the disk any more. But what a request resolves to has been read from a storage node during the
request, or it was stored in the cache at most a day before the look-up, by a request that had just
read it, and no invalidation has dropped the chunk since (`servesRecent`).

The day is that of the clock readings in the two calls, which may lie anywhere.
-/

set_option autoImplicit false

namespace DistributedFileStorage.Delivery

open Async Store Nodes Services Relational Program

/-! ## The entry of a chunk -/

namespace CDNGatewayImpl

/-- The bytes of the entry of a chunk, and when it expires. -/
def entry (gateway : CDNGatewayImpl) (chunkHash : ChunkHash) : Option (Buffer × Time) :=
  (gateway.cache.find? chunkHash).map fun entry => (entry.2.data, entry.2.expiresAt)

variable {gateway : CDNGatewayImpl} {chunkHash other : ChunkHash} {data bytes : Buffer}
  {expiresAt : Time} {clock : ClockReadings}

theorem entry_eq_some_iff :
    gateway.entry chunkHash = some (data, expiresAt) ↔
      ∃ row ∈ gateway.cache.rows, row.1 = chunkHash ∧ row.2.data = data ∧
        row.2.expiresAt = expiresAt := by
  unfold entry
  rw [Option.map_eq_some_iff]
  simp only [Table.find?_eq_some_iff, and_assoc, Prod.mk.injEq]

theorem entry_of_getCached
    (held : (gateway.getCached other clock).2.entry chunkHash = some (data, expiresAt)) :
    gateway.entry chunkHash = some (data, expiresAt) := by
  obtain ⟨row, member, key, bytes, expires⟩ := entry_eq_some_iff.mp held
  unfold getCached at member
  split at member
  · exact entry_eq_some_iff.mpr ⟨row, member, key, bytes, expires⟩
  · split at member
    · exact entry_eq_some_iff.mpr ⟨row, (Table.mem_delete.mp member).1, key, bytes, expires⟩
    · obtain ⟨old, present, rfl⟩ := List.mem_map.mp member
      -- the access of an entry changes neither its key nor its bytes nor its date
      refine entry_eq_some_iff.mpr ⟨old, present, ?_, ?_, ?_⟩
      · rw [← key]
        split <;> rfl
      · rw [← bytes]
        split <;> rfl
      · rw [← expires]
        split <;> rfl

/-- An entry after a write has been there before, or the write has made it. -/
theorem entry_of_putCache
    (held : (gateway.putCache other bytes clock).entry chunkHash = some (data, expiresAt)) :
    gateway.entry chunkHash = some (data, expiresAt) ∨
      other = chunkHash ∧ bytes = data := by
  obtain ⟨row, member, rfl, rfl, rfl⟩ := entry_eq_some_iff.mp held
  rcases Table.mem_upsert.mp member with rfl | ⟨old, _⟩
  · exact .inr ⟨rfl, rfl⟩
  · exact .inl (entry_eq_some_iff.mpr ⟨row, mem_evict old, rfl, rfl, rfl⟩)

theorem entry_putCache :
    (gateway.putCache chunkHash data clock).entry chunkHash =
      some (data, clock.expiresFrom + gateway.ttlMs) :=
  entry_eq_some_iff.mpr ⟨_, Table.mem_upsert.mpr (.inl rfl), rfl, rfl, rfl⟩

theorem entry_of_invalidateCache {fileId : String} {version : ℤ}
    (held : (gateway.invalidateCache fileId version).entry chunkHash = some (data, expiresAt)) :
    chunkHash ∉ gateway.registered (fileId, version) ∧
      gateway.entry chunkHash = some (data, expiresAt) := by
  obtain ⟨row, member, rfl, rfl, rfl⟩ := entry_eq_some_iff.mp held
  obtain ⟨old, kept⟩ := Table.mem_foldl_delete.mp member
  exact ⟨kept, entry_eq_some_iff.mpr ⟨row, old, rfl, rfl, rfl⟩⟩

/-- What is served is the entry, which has not expired. -/
theorem entry_of_served (served : (gateway.getCached chunkHash clock).1 = some data) :
    ∃ expiresAt, gateway.entry chunkHash = some (data, expiresAt) ∧ clock.checkedAt ≤ expiresAt := by
  unfold getCached at served
  unfold entry
  split at served
  · cases served
  · rename_i row found
    split at served
    · cases served
    · rename_i live
      refine ⟨row.2.expiresAt, ?_, Int.not_lt.mp live⟩
      rw [found]
      exact congrArg (Option.map fun data => (data, row.2.expiresAt)) served

end CDNGatewayImpl

/-! ## One call -/

variable {ι : Type} {chunkHash : ChunkHash} {data : Buffer} {expiresAt : Time}

/-- No call changes how long entries live. -/
theorem ttlMs_step {op : EdgeOp} {before after : Edge} {outcome : Except Failure op.Result}
    (happens : Edge.semantics op before outcome after) :
    after.gateway.ttlMs = before.gateway.ttlMs := by
  cases op with
  | getCached other =>
      obtain ⟨clock, _, rfl⟩ := happens
      dsimp only
      unfold CDNGatewayImpl.getCached
      split
      · rfl
      · split <;> rfl
  | selectNode => exact congrArg (fun edge : Edge => edge.gateway.ttlMs) happens.2
  | readChunk nodeId other => exact congrArg CDNGatewayImpl.ttlMs happens.2
  | putCache other bytes =>
      obtain ⟨clock, _, rfl⟩ := happens
      rfl
  | registerFileVersion fileId version chunkHashes =>
      obtain ⟨_, rfl⟩ := happens
      rfl
  | invalidateCache fileId version =>
      obtain ⟨_, rfl⟩ := happens
      rfl
  | overwrite nodeId disk =>
      obtain ⟨_, rfl⟩ := happens
      rfl

/-- The call makes the entry of the chunk. -/
structure EdgeEvent.Enters (event : EdgeEvent ι) (chunkHash : ChunkHash) (data : Buffer)
    (expiresAt : Time) : Prop where
  stores : event.op = .putCache chunkHash data
  entered : event.after.gateway.entry chunkHash = some (data, expiresAt)

/-- **One call**: an entry has been there before, or the call makes it. -/
theorem entry_step {task : ι} {op : EdgeOp} {before after : Edge}
    {outcome : Except Failure op.Result} (happens : Edge.semantics op before outcome after)
    (held : after.gateway.entry chunkHash = some (data, expiresAt)) :
    before.gateway.entry chunkHash = some (data, expiresAt) ∨
      EdgeEvent.Enters (⟨task, op, outcome, before, after⟩ : EdgeEvent ι) chunkHash data
        expiresAt := by
  cases op with
  | getCached other =>
      obtain ⟨clock, _, rfl⟩ := happens
      exact .inl (CDNGatewayImpl.entry_of_getCached held)
  | selectNode =>
      obtain ⟨_, rfl⟩ := happens
      exact .inl held
  | readChunk nodeId other =>
      obtain ⟨_, same⟩ := happens
      exact .inl (same ▸ held)
  | putCache other bytes =>
      obtain ⟨clock, _, rfl⟩ := happens
      rcases CDNGatewayImpl.entry_of_putCache held with old | ⟨rfl, rfl⟩
      · exact .inl old
      · exact .inr ⟨rfl, held⟩
  | registerFileVersion fileId version chunkHashes =>
      obtain ⟨_, rfl⟩ := happens
      exact .inl held
  | invalidateCache fileId version =>
      obtain ⟨_, rfl⟩ := happens
      exact .inl (CDNGatewayImpl.entry_of_invalidateCache held).2
  | overwrite nodeId disk =>
      obtain ⟨_, rfl⟩ := happens
      exact .inl held

/-- What a look-up finds is the entry, whatever its clock shows that finds it. -/
theorem entry_of_finds {event : EdgeEvent ι}
    (happens : Edge.semantics event.op event.before event.outcome event.after)
    (finds : event.finds = some (chunkHash, data)) :
    ∃ expiresAt, event.before.gateway.entry chunkHash = some (data, expiresAt) ∧
      ∀ clock, (event.before.gateway.getCached chunkHash clock).1 = some data →
        clock.checkedAt ≤ expiresAt := by
  obtain ⟨task, op, outcome, before, after⟩ := event
  dsimp only at happens ⊢
  cases op with
  | getCached asked =>
      obtain ⟨clock, rfl, _⟩ := happens
      cases served : (before.gateway.getCached asked clock).1 with
      | none =>
          rw [served] at finds
          cases finds
      | some bytes =>
          rw [served] at finds
          cases finds
          obtain ⟨expiresAt, held, _⟩ := CDNGatewayImpl.entry_of_served served
          refine ⟨expiresAt, held, fun other serves => ?_⟩
          obtain ⟨again, same, live⟩ := CDNGatewayImpl.entry_of_served serves
          rw [held] at same
          obtain rfl := (Prod.mk.inj (Option.some.inj same)).2
          exact live
  | _ => cases finds

/-! ## Every run -/

variable [DecidableEq ι]

/-- **The task has found a chunk that was stored at most a day before** by a request that had just
read it from a storage node. No invalidation has dropped the chunk since. -/
inductive FoundRecently (chunkHash : ChunkHash) (data : Buffer) (task : ι)
    (history : List (EdgeEvent ι)) : Prop where
  | intro (earlier between later : List (EdgeEvent ι)) (read stored found : EdgeEvent ι)
      (split : history = earlier ++ stored :: (between ++ found :: later))
      (own : found.task = task) (finds : found.finds = some (chunkHash, data))
      (stores : stored.stores = some (chunkHash, data))
      (last : (callsOf stored.task earlier).getLast? = some read)
      (reads : read.reads = some (chunkHash, data))
      (recent : ∀ storing looking : ClockReadings,
        stored.after.gateway = stored.before.gateway.putCache chunkHash data storing →
        (found.before.gateway.getCached chunkHash looking).1 = some data →
          looking.checkedAt ≤ storing.expiresFrom + 24 * 60 * 60 * 1000)
      (undropped : ∀ event ∈ between, ∀ fileId version,
        event.op = .invalidateCache fileId version →
          chunkHash ∉ event.before.gateway.registered (fileId, version))

/-- The bytes that the task resolves to are recent, or a part of such bytes. -/
def EdgeRequest.ResolvesRecently (request : EdgeRequest) (data : Option Buffer) (task : ι)
    (history : List (EdgeEvent ι)) : Prop :=
  let recent (chunkHash : ChunkHash) (bytes : Buffer) : Prop :=
    (∃ read ∈ callsOf task history, EdgeEvent.reads read = some (chunkHash, bytes)) ∨
      FoundRecently chunkHash bytes task history
  match request with
  | .getChunk chunkHash => ∃ bytes, data = some bytes ∧ recent chunkHash bytes
  | .getChunkRange chunkHash startByte endByte =>
      ∃ full, data = some (subarray full startByte (endByte + 1)) ∧ recent chunkHash full
  | _ => True

variable {storageNodes : List NodeId} {maxCacheEntries : ℕ} {world : World}

/-- What has been found was stored recently. -/
theorem foundRecently {moment : Moment edge ι Edge}
    (lawful : LawfulRun Edge.semantics (fun history task => EdgeRule task (callsOf task history))
      ⟨.new storageNodes maxCacheEntries, world⟩ moment)
    {found : EdgeEvent ι} (member : found ∈ moment.history)
    (finds : found.finds = some (chunkHash, data)) :
    FoundRecently chunkHash data found.task moment.history := by
  obtain ⟨past, later, split⟩ := List.append_of_mem member
  obtain ⟨before, earlierRun, same, state, _, happens⟩ := lawful.prior split
  obtain ⟨expiresAt, held, live⟩ := entry_of_finds happens finds
  rw [← state] at held
  obtain ⟨earlier, stored, between, pastSplit, enters, since⟩ := earlierRun.exists_source
    (fun edge => edge.gateway.entry chunkHash = some (data, expiresAt))
    (fun event => EdgeEvent.Enters event chunkHash data expiresAt) nofun
    (fun _ _ _ _ _ _ _ happens held => entry_step happens held) held
  obtain ⟨start, startRun, _, startState, rule, _⟩ := earlierRun.prior pastSplit
  have day : stored.before.gateway.ttlMs = 24 * 60 * 60 * 1000 := by
    rw [← startState]
    exact startRun.invariant (fun edge => edge.gateway.ttlMs = 24 * 60 * 60 * 1000) rfl
      fun _ _ _ _ _ _ _ happens same => (ttlMs_step happens).trans same
  have stores : EdgeEvent.stores stored = some (chunkHash, data) := by
    unfold EdgeEvent.stores
    rw [enters.stores]
  rw [enters.stores] at rule
  cases rule with
  | @putCache read _ _ last reads =>
      refine ⟨earlier, between, later, read, stored, found, ?_, rfl, finds, stores, last, reads, ?_,
        ?_⟩
      · rw [split, ← same, pastSplit, List.append_assoc, List.cons_append]
      · intro storing looking storedAt lookedAt
        have entered := enters.entered
        rw [storedAt, CDNGatewayImpl.entry_putCache, day] at entered
        obtain rfl := (Prod.mk.inj (Option.some.inj entered)).2
        exact live looking lookedAt
      · intro event inBetween fileId version invalidates drops
        have happened := earlierRun.happens_of_mem
          (show event ∈ _ by simp [pastSplit, inBetween])
        have held := since event inBetween
        obtain ⟨other, op, outcome, earlierEdge, laterEdge⟩ := event
        dsimp only at invalidates happened held drops
        subst invalidates
        obtain ⟨_, rfl⟩ := happened
        exact (CDNGatewayImpl.entry_of_invalidateCache held).1 drops

/-- **What the gateway serves is recent.** Any requests run next to each other, while the disks of the
storage nodes are overwritten and reads of them fail. What a request resolves to it has read itself,
or another request had read and stored it at most a day before. -/
theorem servesRecent (requests : ι → EdgeRequest) (storageNodes : List NodeId)
    (maxCacheEntries : ℕ) (world : World) {tasks : Pool edge ι (Option Buffer)}
    {reached : Moment edge ι Edge}
    (run : PoolRuns Edge.semantics (fun task => (requests task).program,
      .start ⟨.new storageNodes maxCacheEntries, world⟩) (tasks, reached))
    {task : ι} {data : Option Buffer} (settled : tasks task = .done (.ok data)) :
    (requests task).ResolvesRecently data task reached.history := by
  obtain ⟨lawful, ends⟩ := Pool.follows (fun task => follows_request task (requests task)) run
  have resolves : (requests task).Resolves data (callsOf task reached.history) :=
    (ends task _ settled).1
  have recent (chunkHash : ChunkHash) (bytes : Buffer)
      (obtained : Obtained (callsOf task reached.history) chunkHash bytes) :
      (∃ read ∈ callsOf task reached.history, EdgeEvent.reads read = some (chunkHash, bytes)) ∨
        FoundRecently chunkHash bytes task reached.history := by
    obtain ⟨event, own, finds | reads⟩ := obtained
    · obtain ⟨member, same⟩ := mem_callsOf.mp own
      exact .inr (same ▸ foundRecently lawful member finds)
    · exact .inl ⟨event, own, reads⟩
  cases request : requests task with
  | getChunk chunkHash =>
      rw [request] at resolves
      obtain ⟨bytes, rfl, obtained⟩ := resolves
      exact ⟨bytes, rfl, recent chunkHash bytes obtained⟩
  | getChunkRange chunkHash startByte endByte =>
      rw [request] at resolves
      obtain ⟨full, rfl, obtained⟩ := resolves
      exact ⟨full, rfl, recent chunkHash full obtained⟩
  | registerFileVersion fileId version chunkHashes => trivial
  | invalidateCache fileId version => trivial
  | overwrite nodeId disk => trivial

/-! ## A chunk that is served after its disk was overwritten -/

/-- The chunk is requested before and after the disk is overwritten. -/
def readOverwriteRead : Fin 3 → EdgeRequest
  | 1 => .overwrite "n1" overwrittenDisk
  | _ => .getChunk (knownDigests.digest [7])

/-- The three requests, in the order of a schedule. -/
def readAgain (schedule : List (Fin 3)) :
    Pool edge (Fin 3) (Option Buffer) × Moment edge (Fin 3) Edge :=
  Pool.runSchedule (Edge.handler ⟨0, 0, 0, 0⟩) schedule
    (fun task => (readOverwriteRead task).program, .start ⟨.new ["n1"] 10000, sevenStored⟩)

theorem servesRecent_overwritten :
    FoundRecently (knownDigests.digest [7]) [7] (2 : Fin 3)
      (readAgain [0, 0, 0, 0, 1, 2]).2.history := by
  have run : PoolRuns Edge.semantics (fun task => (readOverwriteRead task).program,
      .start ⟨.new ["n1"] 10000, sevenStored⟩)
      ((readAgain [0, 0, 0, 0, 1, 2]).1, (readAgain [0, 0, 0, 0, 1, 2]).2) :=
    Pool.runs_runSchedule (Edge.semantics_handler _) _ _
  have settled : (readAgain [0, 0, 0, 0, 1, 2]).1 2 = .done (.ok (some [7])) := rfl
  obtain ⟨bytes, same, recent⟩ := servesRecent readOverwriteRead ["n1"] 10000 sevenStored run settled
  obtain rfl := Option.some.inj same
  refine recent.resolve_left ?_
  rintro ⟨read, own, reads⟩
  have unread : ∀ event ∈ callsOf 2 (readAgain [0, 0, 0, 0, 1, 2]).2.history,
      EdgeEvent.reads event = none := by
    decide +kernel
  rw [unread read own] at reads
  cases reads

end DistributedFileStorage.Delivery
