import DistributedFileStorage.Delivery.EdgeRequests

/-!
# Requests after an invalidation

The invalidation of a version drops the chunks that are registered for it from the cache. A request
that starts afterwards should not resolve to bytes that were read from a storage node before.

A request that has read a chunk before the invalidation, and stores it after, puts the bytes back.
When no request is in between at an invalidation, whatever a later request resolves to has been
read after it (`freshAfterInvalidation`).
-/

set_option autoImplicit false

namespace DistributedFileStorage.Delivery

open Async Store Nodes Services Relational

variable {ι : Type} [DecidableEq ι]

/-- The chunks that the call drops: those that are registered for the version it invalidates. -/
def EdgeEvent.drops (event : EdgeEvent ι) : List ChunkHash :=
  match event.op with
  | .invalidateCache fileId version => event.before.gateway.registered (fileId, version)
  | _ => []

/-- The chunk that the task has read and not stored yet. -/
def awaitsWrite (task : ι) (history : List (EdgeEvent ι)) : Option ChunkHash :=
  ((callsOf task history).getLast?.bind EdgeEvent.reads).map Prod.fst

/-- At no invalidation of a chunk has a request read the chunk and not stored it yet. -/
def NoMissSpans (history : List (EdgeEvent ι)) : Prop :=
  ∀ earlier event later, history = earlier ++ event :: later →
    ∀ chunkHash ∈ EdgeEvent.drops event, ∀ task, awaitsWrite task earlier ≠ some chunkHash

/-- A request that starts after the invalidation of a chunk resolves to bytes that were read after
it. -/
def FreshAfterInvalidation (requests : ι → EdgeRequest) (tasks : Pool edge ι (Option Buffer))
    (history : List (EdgeEvent ι)) : Prop :=
  ∀ earlier event later, history = earlier ++ event :: later →
    ∀ chunkHash ∈ EdgeEvent.drops event,
      ∀ task data, requests task = .getChunk chunkHash → callsOf task earlier = [] →
        tasks task = .done (.ok (some data)) →
          ∃ read ∈ later, EdgeEvent.reads read = some (chunkHash, data)

/-! ## The calls after an invalidation -/

omit [DecidableEq ι] in
/-- An invalidation neither reads nor finds a chunk. -/
theorem EdgeEvent.silent_of_drops {event : EdgeEvent ι} {chunkHash : ChunkHash}
    (drops : chunkHash ∈ event.drops) : event.reads = none ∧ event.finds = none := by
  obtain ⟨task, op, outcome, before, after⟩ := event
  cases op with
  | invalidateCache fileId version => exact ⟨rfl, rfl⟩
  | _ => cases drops

/-- A task that has read a chunk last awaits its write. -/
theorem awaitsWrite_of_last {task : ι} {history : List (EdgeEvent ι)} {event : EdgeEvent ι}
    {chunkHash : ChunkHash} {data : Buffer} (last : (callsOf task history).getLast? = some event)
    (reads : event.reads = some (chunkHash, data)) :
    awaitsWrite task history = some chunkHash := by
  unfold awaitsWrite
  rw [last, Option.bind_some, reads]
  rfl

/-- **After an invalidation**, the entry of the chunk holds what has been read since, and so does
what has been found since. -/
theorem fresh_since {start : Edge} {moment : Moment edge ι Edge}
    (lawful : LawfulRun Edge.semantics (fun history task => EdgeRule task (callsOf task history))
      start moment) {earlier later : List (EdgeEvent ι)} {event : EdgeEvent ι}
    (split : moment.history = earlier ++ event :: later) {chunkHash : ChunkHash}
    (drops : chunkHash ∈ event.drops)
    (settled : ∀ task, awaitsWrite task earlier ≠ some chunkHash) :
    (∀ data, moment.state.gateway.cached chunkHash = some data →
        ∃ read ∈ later, EdgeEvent.reads read = some (chunkHash, data)) ∧
      ∀ found ∈ later, ∀ data, EdgeEvent.finds found = some (chunkHash, data) →
        ∃ read ∈ later, EdgeEvent.reads read = some (chunkHash, data) := by
  induction lawful generalizing later with
  | start => simp [Moment.start] at split
  | @next before task op outcome after earlierRun keeps happens ih =>
      rw [Moment.history_next] at split
      rcases concat_eq_append_cons split with ⟨rfl, _, rfl⟩ | ⟨rest, rfl, same⟩
      · -- the call is the invalidation
        refine ⟨fun data found => ?_, List.forall_mem_nil _⟩
        cases op with
        | invalidateCache fileId version =>
            obtain ⟨_, rfl⟩ := happens
            exact absurd drops (CDNGatewayImpl.cached_of_invalidateCache found).1
        | _ => cases drops
      · obtain ⟨cached, finds⟩ := ih same
        have known : ∀ data, before.state.gateway.cached chunkHash = some data →
            ∃ read ∈ rest ++ [⟨task, op, outcome, before.state, after⟩],
              EdgeEvent.reads read = some (chunkHash, data) := by
          intro data found
          obtain ⟨read, member, reads⟩ := cached data found
          exact ⟨read, List.mem_append_left _ member, reads⟩
        refine ⟨fun data found => ?_, fun other member data found => ?_⟩
        · rcases cached_step happens found with old | rfl
          · exact known data old
          · -- the task has read what it stores, and not before the invalidation
            cases keeps with
            | @putCache read _ _ last reads =>
                rw [same] at last
                rcases getLast?_callsOf_append last with late | early
                · rcases List.mem_cons.mp late with rfl | since
                  · rw [(EdgeEvent.silent_of_drops drops).1] at reads
                    cases reads
                  · exact ⟨read, List.mem_append_left _ since, reads⟩
                · exact absurd (awaitsWrite_of_last early reads) (settled task)
        · rcases List.mem_append.mp member with old | new
          · obtain ⟨read, present, reads⟩ := finds other old data found
            exact ⟨read, List.mem_append_left _ present, reads⟩
          · obtain rfl := List.mem_singleton.mp new
            exact known data (cached_of_finds happens found)

/-- **What is resolved after an invalidation has been read after it**, when no request has read an
invalidated chunk and not stored it yet at the invalidation. -/
theorem freshAfterInvalidation (requests : ι → EdgeRequest) {start : Edge}
    {tasks : Pool edge ι (Option Buffer)} {reached : Moment edge ι Edge}
    (run : PoolRuns Edge.semantics (fun task => (requests task).program, .start start)
      (tasks, reached))
    (noSpans : NoMissSpans reached.history) :
    FreshAfterInvalidation requests tasks reached.history := by
  intro earlier event later split chunkHash drops task data request starts resolved
  obtain ⟨lawful, ends⟩ := Pool.follows (fun task => follows_request task (requests task)) run
  obtain ⟨_, found⟩ := fresh_since lawful split drops
    (noSpans earlier event later split chunkHash drops)
  have ended := (ends task _ resolved).1
  rw [request] at ended
  obtain ⟨bytes, same, other, member, obtained⟩ := ended
  obtain rfl := Option.some.inj same
  -- the task has made all its calls since
  have since : other ∈ event :: later := by
    rw [split, callsOf, List.filter_append, ← callsOf, starts, List.nil_append] at member
    exact (List.mem_filter.mp member).1
  obtain ⟨unread, unfound⟩ := EdgeEvent.silent_of_drops drops
  rcases List.mem_cons.mp since with rfl | late
  · rw [unread, unfound] at obtained
    rcases obtained with nothing | nothing <;> cases nothing
  · rcases obtained with finds | reads
    · exact found other late data finds
    · exact ⟨other, late, reads⟩

/-- To see that no miss spans an invalidation it is enough to look at each call of the run. -/
theorem noMissSpans_of_getElem {history : List (EdgeEvent ι)}
    (settled : ∀ (index : ℕ) (bound : index < history.length),
      ∀ chunkHash ∈ EdgeEvent.drops history[index],
        ∀ task, awaitsWrite task (history.take index) ≠ some chunkHash) : NoMissSpans history := by
  rintro earlier event later rfl chunkHash drops task
  have bound : earlier.length < (earlier ++ event :: later).length := by simp
  have here := settled earlier.length bound chunkHash
  rw [List.getElem_append_right le_rfl, List.take_left'] at here
  · exact here (by simpa using drops) task
  · rfl

/-! ## A miss that spans an invalidation -/

/-- A gateway for this node, with the chunk registered for a version of a file. -/
def registeredSeven : Edge :=
  ⟨(CDNGatewayImpl.new ["n1"] 10000).registerFileVersion "notes" 1 [knownDigests.digest [7]],
    sevenStored⟩

/-- Two requests for the chunk, and an invalidation of the version. -/
def twoReads : Fin 3 → EdgeRequest
  | 0 => .getChunk (knownDigests.digest [7])
  | 1 => .invalidateCache "notes" 1
  | 2 => .getChunk (knownDigests.digest [7])

/-- The calls of the requests in an order, with a clock that stands still. -/
def twoReadsRun (schedule : List (Fin 3)) :
    Pool edge (Fin 3) (Option Buffer) × Moment edge (Fin 3) Edge :=
  Pool.runSchedule (Edge.handler ⟨0, 0, 0, 0⟩) schedule
    (fun task => (twoReads task).program, .start registeredSeven)

theorem runs_twoReadsRun (schedule : List (Fin 3)) :
    PoolRuns Edge.semantics (fun task => (twoReads task).program, .start registeredSeven)
      ((twoReadsRun schedule).1, (twoReadsRun schedule).2) :=
  Pool.runs_runSchedule (Edge.semantics_handler _) _ _

/-- The chunk is requested, invalidated and requested again. -/
theorem freshAfterInvalidation_turns :
    FreshAfterInvalidation twoReads (twoReadsRun [0, 0, 0, 0, 1, 2, 2, 2, 2]).1
      (twoReadsRun [0, 0, 0, 0, 1, 2, 2, 2, 2]).2.history := by
  refine freshAfterInvalidation twoReads (runs_twoReadsRun _) (noMissSpans_of_getElem ?_)
  decide +kernel

/-- **A miss that spans the invalidation puts the old bytes back.** The first request reads the
chunk, the version is invalidated, the first request stores the chunk, and the second request is
served from the cache. No storage node is read after the invalidation. -/
theorem miss_spans_invalidation :
    ∃ tasks reached,
      PoolRuns Edge.semantics (fun task => (twoReads task).program, .start registeredSeven)
        (tasks, reached) ∧ ¬ FreshAfterInvalidation twoReads tasks reached.history := by
  refine ⟨_, _, runs_twoReadsRun [0, 0, 0, 1, 0, 2], fun fresh => ?_⟩
  have bound : 3 < (twoReadsRun [0, 0, 0, 1, 0, 2]).2.history.length := by decide +kernel
  have drops : knownDigests.digest [7] ∈
      EdgeEvent.drops (twoReadsRun [0, 0, 0, 1, 0, 2]).2.history[3] := by
    decide +kernel +revert
  have split := List.take_append_drop 3 (twoReadsRun [0, 0, 0, 1, 0, 2]).2.history
  rw [List.drop_eq_getElem_cons bound] at split
  obtain ⟨read, member, reads⟩ := fresh _ _ _ split.symm _ drops 2 [7] rfl
    (List.isEmpty_iff.mp (by decide +kernel)) rfl
  revert reads
  revert read
  decide +kernel

end DistributedFileStorage.Delivery
