import DistributedFileStorage.Delivery.EdgeRequests

/-!
# Byte ranges

`getChunkRange` takes the whole chunk from the cache or from a storage node and cuts a range
out of it, whose end is inclusive. When the content of the chunk at the origin does not
change, every range is answered from that content, wherever the chunk came from
(`rangeAnswer_of_runs`).

Requests for consecutive ranges give the whole chunk, in every run with other requests and with
every reading of the clock (`ranges_of_fixed_content`).
-/

set_option autoImplicit false

namespace DistributedFileStorage.Delivery

open Async Store Nodes Services Relational Program

/-! ## Ranges -/

/-- Consecutive ranges with inclusive ends, none of them empty, from a position to
another. -/
inductive Tiles : ℤ → List (ℤ × ℤ) → ℤ → Prop
  | nil (position : ℤ) : Tiles position [] position
  | cons {startByte endByte stop : ℤ} {ranges : List (ℤ × ℤ)} (nonempty : startByte ≤ endByte)
      (later : Tiles (endByte + 1) ranges stop) :
      Tiles startByte ((startByte, endByte) :: ranges) stop

/-- The bytes of a range. -/
def rangeOf (content : Buffer) (range : ℤ × ℤ) : Buffer :=
  (content.drop range.1.toNat).take (range.2 - range.1 + 1).toNat

/-- What a request for a range of some bytes should settle to. -/
structure RangeAnswer (content : Buffer) (startByte endByte : ℤ)
    (outcome : Except Failure Buffer) : Prop where
  resolves : (∃ data, outcome = .ok data) ↔
    0 ≤ startByte ∧ startByte ≤ endByte ∧ endByte < content.length
  bytes : ∀ data, outcome = .ok data →
    data = rangeOf content (startByte, endByte) ∧ (data.length : ℤ) = endByte - startByte + 1

/-- Both ways to cut a range give the same bytes. -/
theorem subarray_eq_rangeOf (content : Buffer) {startByte endByte : ℤ} (lower : 0 ≤ startByte)
    (order : startByte ≤ endByte) :
    subarray content startByte (endByte + 1) = rangeOf content (startByte, endByte) := by
  have width : (endByte + 1).toNat - startByte.toNat = (endByte - startByte + 1).toNat := by omega
  rw [subarray, rangeOf, List.drop_take, width]

theorem RangeAnswer.ok {content : Buffer} {startByte endByte : ℤ} (lower : 0 ≤ startByte)
    (order : startByte ≤ endByte) (inside : endByte < content.length) :
    RangeAnswer content startByte endByte (.ok (subarray content startByte (endByte + 1))) where
  resolves := iff_of_true ⟨_, rfl⟩ ⟨lower, order, inside⟩
  bytes := by
    rintro data ⟨⟩
    rw [subarray_eq_rangeOf content lower order]
    refine ⟨rfl, ?_⟩
    rw [rangeOf, List.length_take, List.length_drop]
    dsimp only
    omega

theorem RangeAnswer.error {content : Buffer} {startByte endByte : ℤ} {failure : Failure}
    (outside : ¬ (0 ≤ startByte ∧ startByte ≤ endByte ∧ endByte < content.length)) :
    RangeAnswer content startByte endByte (.error failure) where
  resolves := iff_of_false nofun outside
  bytes := nofun

theorem Tiles.start_le_stop {position stop : ℤ} {ranges : List (ℤ × ℤ)}
    (tiles : Tiles position ranges stop) : position ≤ stop := by
  induction tiles with
  | nil position => exact le_rfl
  | cons nonempty later ih => omega

/-- Every range lies between the two positions. -/
theorem Tiles.bounds {position stop : ℤ} {ranges : List (ℤ × ℤ)}
    (tiles : Tiles position ranges stop) {range : ℤ × ℤ} (member : range ∈ ranges) :
    position ≤ range.1 ∧ range.1 ≤ range.2 ∧ range.2 < stop := by
  induction tiles with
  | nil position => cases member
  | cons nonempty later ih =>
      rcases List.mem_cons.mp member with rfl | further
      · have inside := later.start_le_stop
        exact ⟨le_rfl, nonempty, by omega⟩
      · have inside := ih further
        exact ⟨by omega, inside.2⟩

/-- **Consecutive ranges make up the bytes from the first position on.** -/
theorem Tiles.flatten_rangeOf {content : Buffer} {position : ℤ} {ranges : List (ℤ × ℤ)}
    (tiles : Tiles position ranges content.length) (lower : 0 ≤ position) :
    (ranges.map (rangeOf content)).flatten = content.drop position.toNat := by
  generalize stop : (content.length : ℤ) = length at tiles
  induction tiles with
  | nil position =>
      rw [List.map_nil, List.flatten_nil, List.drop_of_length_le (by omega)]
  | @cons startByte endByte length ranges nonempty later ih =>
      have next : (endByte + 1).toNat = startByte.toNat + (endByte - startByte + 1).toNat := by
        omega
      rw [List.map_cons, List.flatten_cons, ih (by omega) stop, next, ← List.drop_drop]
      exact List.take_append_drop _ _

/-! ## The origin -/

/-- The gateway reads the chunk from its first storage node, which answers with the content,
and its cache has no other bytes for the chunk. -/
structure Serves (chunkHash : ChunkHash) (content : Buffer) (state : Edge) : Prop where
  origin : ∃ nodeId, state.gateway.storageNodes.head? = some nodeId ∧
    ((StorageNodeImpl.readChunk nodeId chunkHash).run exec state.world).1 = .ok content
  cached : ∀ data, state.gateway.cached chunkHash = some data → data = content

theorem storageNodes_getCached (gateway : CDNGatewayImpl) (chunkHash : ChunkHash)
    (clock : ClockReadings) :
    (gateway.getCached chunkHash clock).2.storageNodes = gateway.storageNodes := by
  unfold CDNGatewayImpl.getCached
  split
  · rfl
  · split <;> rfl

variable {chunkHash : ChunkHash} {content : Buffer} {state : Edge}

/-- The look-up of an entry, which it may drop or touch. -/
theorem Serves.getCached (serves : Serves chunkHash content state) (clock : ClockReadings) :
    Serves chunkHash content
      { state with gateway := (state.gateway.getCached chunkHash clock).2 } where
  origin := by
    rw [storageNodes_getCached]
    exact serves.origin
  cached data found := serves.cached data (CDNGatewayImpl.cached_of_getCached found)

/-- **A request for the chunk** resolves to its content, from the cache or from the storage
node, and leaves a gateway that serves it. -/
theorem Serves.run_getChunk (serves : Serves chunkHash content state) (clock : ClockReadings) :
    ∃ after, (Edge.getChunk chunkHash).run (Edge.handler clock) state = (.ok content, after) ∧
      Serves chunkHash content after := by
  obtain ⟨nodeId, first, answers⟩ := serves.origin
  have looked := serves.getCached clock
  rw [Edge.run_getChunk]
  unfold CDNGatewayImpl.getChunk
  rcases found : state.gateway.getCached chunkHash clock with ⟨cached, missed⟩
  rw [found] at looked
  cases cached with
  | some data =>
      have served : (state.gateway.getCached chunkHash clock).1 = some data := by rw [found]
      obtain rfl := serves.cached data (CDNGatewayImpl.cached_of_served served)
      exact ⟨_, rfl, looked⟩
  | none =>
      have nodes : missed.storageNodes = state.gateway.storageNodes := by
        rw [← storageNodes_getCached state.gateway chunkHash clock, found]
      have selects : missed.selectNode = .ok nodeId := by
        obtain ⟨rest, list⟩ := List.head?_eq_some_iff.mp (nodes ▸ first)
        rw [CDNGatewayImpl.selectNode, list]
      have read : (missed.selectNode >>= fun nodeId =>
          ((StorageNodeImpl.readChunk nodeId chunkHash).run exec state.world).1) = .ok content := by
        rw [selects]
        exact answers
      dsimp only
      rw [read]
      refine ⟨_, rfl, looked.origin, fun data found => ?_⟩
      rcases CDNGatewayImpl.cached_of_putCache found with ⟨_, rfl⟩ | old
      · rfl
      · exact looked.cached data old

/-- **A request for a range** resolves exactly when the range is inside the chunk, and then
to the bytes of the range. -/
theorem Serves.run_getChunkRange (serves : Serves chunkHash content state)
    (clock : ClockReadings) (startByte endByte : ℤ) :
    RangeAnswer content startByte endByte
        ((Edge.getChunkRange chunkHash startByte endByte).run (Edge.handler clock) state).1 ∧
      Serves chunkHash content
        ((Edge.getChunkRange chunkHash startByte endByte).run (Edge.handler clock) state).2 := by
  unfold Edge.getChunkRange
  by_cases negative : startByte < 0
  · rw [if_pos negative]
    exact ⟨.error (by omega), serves⟩
  · rw [if_neg negative]
    by_cases empty : endByte < startByte
    · rw [if_pos empty]
      exact ⟨.error (by omega), serves⟩
    · rw [if_neg empty]
      obtain ⟨after, run, still⟩ := serves.run_getChunk clock
      rw [run_bind_ok _ run]
      by_cases exceeds : (content.length : ℤ) ≤ endByte
      · rw [if_pos exceeds]
        exact ⟨.error (by omega), still⟩
      · rw [if_neg exceeds]
        exact ⟨.ok (not_lt.mp negative) (not_lt.mp empty) (not_le.mp exceeds), still⟩

/-! ## Requests at the same time -/

variable {ι : Type}

/-- What a storage node that is asked for the chunk answers, `none` when it rejects. -/
def EdgeEvent.answers (chunkHash : ChunkHash) (event : EdgeEvent ι) : Option (Option Buffer) :=
  match event.op, event.outcome with
  | .readChunk _ asked, outcome => if asked = chunkHash then some outcome.toOption else none
  | _, _ => none

/-- When a storage node is asked for the chunk, it answers with the content. -/
def EdgeEvent.FromOrigin (chunkHash : ChunkHash) (content : Buffer) (event : EdgeEvent ι) : Prop :=
  ∀ answer ∈ event.answers chunkHash, answer = some content

instance (chunkHash : ChunkHash) (content : Buffer) (event : EdgeEvent ι) :
    Decidable (event.FromOrigin chunkHash content) :=
  inferInstanceAs (Decidable (∀ answer ∈ event.answers chunkHash, answer = some content))

/-- A read of the chunk resolves to the content. -/
theorem EdgeEvent.FromOrigin.outcome_eq {task : ι} {nodeId : NodeId} {before after : Edge}
    {outcome : Except Failure Buffer} (fromOrigin : EdgeEvent.FromOrigin chunkHash content
      (⟨task, .readChunk nodeId chunkHash, outcome, before, after⟩ : EdgeEvent ι)) :
    outcome = .ok content := by
  have answered := fromOrigin outcome.toOption (if_pos rfl)
  cases outcome with
  | ok data => exact congrArg Except.ok (Option.some.inj answered)
  | error failure => cases answered

/-- A request for a range that resolves has obtained the chunk and cuts the range out of it. -/
def EdgeRequest.Cuts (request : EdgeRequest) (data : Option Buffer)
    (calls : List (EdgeEvent ι)) : Prop :=
  match request with
  | .getChunkRange chunkHash startByte endByte =>
      0 ≤ startByte ∧ startByte ≤ endByte ∧ ∃ full, Obtained calls chunkHash full ∧
        endByte < full.length ∧ data = some (subarray full startByte (endByte + 1))
  | _ => True

/-- A request for a range that rejects has a reason: the range, or a chunk that it misses. -/
def EdgeRequest.Refuses (request : EdgeRequest) (calls : List (EdgeEvent ι)) : Prop :=
  match request with
  | .getChunkRange chunkHash startByte endByte =>
      startByte < 0 ∨ endByte < startByte ∨
        (∃ full, Obtained calls chunkHash full ∧ full.length ≤ endByte) ∨
        ∃ event ∈ calls, EdgeEvent.Misses chunkHash event
  | _ => True

variable [DecidableEq ι]

/-- **How a request for a range settles**, beside the other requests. -/
theorem follows_range (task : ι) (request : EdgeRequest) :
    Follows Edge.semantics EdgeRule task request.program [] request.Cuts request.Refuses := by
  cases request with
  | getChunkRange chunkHash startByte endByte =>
      refine .bind ?_
      unfold Edge.getChunkRange
      split
      · rename_i negative
        exact .throw (.inl negative)
      · rename_i lower
        split
        · rename_i empty
          exact .throw (.inr (.inl empty))
        · rename_i order
          refine .bind ((follows_getChunk task chunkHash).consequence ?_ ?_)
          · rintro full calls ⟨obtained, _⟩
            split
            · rename_i exceeds
              exact .throw (.inr (.inr (.inl ⟨full, obtained, exceeds⟩)))
            · rename_i inside
              exact .pure (.pure ⟨not_lt.mp lower, not_lt.mp order, full, obtained,
                not_le.mp inside, rfl⟩)
          · rintro calls ⟨misses, _⟩
            exact .inr (.inr (.inr misses))
  | _ => exact (follows_request task _).consequence (fun _ _ _ => trivial) fun _ _ => trivial

omit [DecidableEq ι] in
/-- The storage nodes of the gateway never change. -/
theorem storageNodes_of_lawful {start : Edge} {moment : Moment edge ι Edge}
    {law : List (EdgeEvent ι) → ι → EdgeOp → Prop}
    (lawful : LawfulRun Edge.semantics law start moment) :
    moment.state.gateway.storageNodes = start.gateway.storageNodes ∧
      ∀ event ∈ moment.history,
        event.before.gateway.storageNodes = start.gateway.storageNodes := by
  induction lawful with
  | start => exact ⟨rfl, List.forall_mem_nil _⟩
  | @next before task op outcome after earlier keeps happens ih =>
      obtain ⟨now, old⟩ := ih
      refine ⟨?_, ?_⟩
      · show after.gateway.storageNodes = _
        rw [← now]
        cases op with
        | getCached asked =>
            obtain ⟨clock, _, rfl⟩ := happens
            exact storageNodes_getCached _ _ clock
        | selectNode =>
            obtain ⟨_, rfl⟩ := happens
            rfl
        | readChunk nodeId asked => rw [happens.2]
        | putCache asked data =>
            obtain ⟨clock, _, rfl⟩ := happens
            rfl
        | registerFileVersion fileId version chunkHashes =>
            obtain ⟨_, rfl⟩ := happens
            rfl
        | invalidateCache fileId version =>
            obtain ⟨_, rfl⟩ := happens
            rfl
        | overwrite nodeId disk =>
            obtain ⟨_, rfl⟩ := happens
            rfl
      · rw [Moment.history_next, List.forall_mem_append, List.forall_mem_singleton]
        exact ⟨old, now⟩

omit [DecidableEq ι] in
/-- With a storage node that answers with the content, no call misses the chunk. -/
theorem not_misses_of_fromOrigin {event : EdgeEvent ι}
    (happens : Edge.semantics event.op event.before event.outcome event.after)
    (fromOrigin : event.FromOrigin chunkHash content)
    (nodes : event.before.gateway.storageNodes ≠ []) : ¬ event.Misses chunkHash := by
  obtain ⟨task, op, outcome, before, after⟩ := event
  cases op with
  | selectNode =>
      cases outcome with
      | ok nodeId => exact id
      | error failure =>
          obtain ⟨failed, _⟩ := happens
          obtain ⟨first, rest, list⟩ := List.exists_cons_of_ne_nil nodes
          rw [CDNGatewayImpl.selectNode, list] at failed
          cases failed
  | readChunk nodeId asked =>
      cases outcome with
      | ok data => exact id
      | error failure =>
          rintro rfl
          cases fromOrigin.outcome_eq
  | _ => exact id

omit [DecidableEq ι] in
theorem content_of_reads {event : EdgeEvent ι} (fromOrigin : event.FromOrigin chunkHash content)
    (asked : ChunkHash) (data : Buffer) (reads : event.reads = some (asked, data)) :
    asked = chunkHash → data = content := by
  obtain ⟨task, op, outcome, before, after⟩ := event
  cases op with
  | readChunk nodeId hash =>
      cases outcome with
      | ok answer =>
          cases reads
          rintro rfl
          exact Except.ok.inj fromOrigin.outcome_eq
      | error failure => cases reads
  | _ => cases reads

/-- **In every run in which the content of the chunk is fixed at the origin**, a request for a
range that has settled is answered from that content. -/
theorem rangeAnswer_of_runs {requests : ι → EdgeRequest} {start : Edge}
    (serves : Serves chunkHash content start) {tasks : Pool edge ι (Option Buffer)}
    {reached : Moment edge ι Edge}
    (run : PoolRuns Edge.semantics (fun task => (requests task).program, .start start)
      (tasks, reached))
    (origin : ∀ event ∈ reached.history, EdgeEvent.FromOrigin chunkHash content event)
    {task : ι} {startByte endByte : ℤ} {outcome : Except Failure (Option Buffer)}
    (asks : requests task = .getChunkRange chunkHash startByte endByte)
    (settled : tasks task = .done outcome) :
    ∃ answer, outcome = answer.map some ∧ RangeAnswer content startByte endByte answer := by
  obtain ⟨lawful, ends⟩ := Pool.follows (fun task => follows_range task (requests task)) run
  have reads := fun event member => content_of_reads (origin event member)
  have initially : ∀ asked data, start.gateway.cached asked = some data →
      asked = chunkHash → data = content := by
    rintro asked data cached rfl
    exact serves.cached data cached
  have found := (related_of_reads lawful initially reads).2
  have obtained : ∀ full, Obtained (callsOf task reached.history) chunkHash full →
      full = content := by
    rintro full ⟨event, own, finds | read⟩
    · exact (found event (mem_callsOf.mp own).1).2 chunkHash full finds rfl
    · exact reads event (mem_callsOf.mp own).1 chunkHash full read rfl
  have ended := ends task outcome settled
  rw [asks] at ended
  cases outcome with
  | ok data =>
      obtain ⟨lower, order, full, own, inside, rfl⟩ := ended
      obtain rfl := obtained full own
      exact ⟨.ok _, rfl, .ok lower order inside⟩
  | error failure =>
      refine ⟨.error failure, rfl, .error ?_⟩
      rintro ⟨lower, order, inside⟩
      rcases ended with negative | empty | ⟨full, own, exceeds⟩ | ⟨event, own, misses⟩
      · omega
      · omega
      · obtain rfl := obtained full own
        omega
      · have member := (mem_callsOf.mp own).1
        have nodes : event.before.gateway.storageNodes ≠ [] := by
          obtain ⟨nodeId, first, _⟩ := serves.origin
          rw [(storageNodes_of_lawful lawful).2 event member]
          exact List.ne_nil_of_mem (List.mem_of_head? first)
        exact not_misses_of_fromOrigin (lawful.happens_of_mem member) (origin event member) nodes
          misses

/-- **Ranges of a fixed content.** A request for a range that nothing interrupts resolves exactly
when the range is inside the chunk, and then to its bytes. So does every request that settles in
a run with other requests, whatever these do to the cache and whatever the clock shows; and the
requests for the ranges of a partition resolve to buffers whose concatenation is the chunk. -/
theorem ranges_of_fixed_content (chunkHash : ChunkHash) (content : Buffer) (start : Edge)
    (serves : Serves chunkHash content start) :
    (∀ (clock : ClockReadings) (startByte endByte : ℤ), RangeAnswer content startByte endByte
        ((Edge.getChunkRange chunkHash startByte endByte).run (Edge.handler clock) start).1) ∧
      ∀ (requests : ι → EdgeRequest) (tasks : Pool edge ι (Option Buffer))
        (reached : Moment edge ι Edge),
        PoolRuns Edge.semantics (fun task => (requests task).program, .start start)
          (tasks, reached) →
        (∀ event ∈ reached.history, EdgeEvent.FromOrigin chunkHash content event) →
        (∀ (task : ι) (startByte endByte : ℤ) (outcome : Except Failure (Option Buffer)),
          requests task = .getChunkRange chunkHash startByte endByte →
          tasks task = .done outcome →
          ∃ answer, outcome = answer.map some ∧
            RangeAnswer content startByte endByte answer) ∧
        ∀ parts : List (ι × (ℤ × ℤ)), Tiles 0 (parts.map Prod.snd) content.length →
          (∀ part ∈ parts, requests part.1 = .getChunkRange chunkHash part.2.1 part.2.2 ∧
            (tasks part.1).isSettled) →
          ∃ buffers : List Buffer,
            (parts.map fun part => tasks part.1) =
              (buffers.map fun data => .done (.ok (some data))) ∧
            buffers.flatten = content := by
  refine ⟨fun clock startByte endByte => (serves.run_getChunkRange clock startByte endByte).1, ?_⟩
  intro requests tasks reached run origin
  refine ⟨fun task startByte endByte outcome => rangeAnswer_of_runs serves run origin, ?_⟩
  intro parts tiles asked
  refine ⟨parts.map fun part => rangeOf content part.2, ?_, ?_⟩
  · rw [List.map_map]
    apply List.map_congr_left
    intro part member
    obtain ⟨asks, settled⟩ := asked part member
    obtain ⟨lower, order, inside⟩ := tiles.bounds (List.mem_map_of_mem member)
    cases finished : tasks part.1 with
    | call op next =>
        rw [finished] at settled
        cases settled
    | done outcome =>
        obtain ⟨answer, rfl, answers⟩ := rangeAnswer_of_runs serves run origin asks finished
        obtain ⟨data, rfl⟩ := answers.resolves.mpr ⟨lower, order, inside⟩
        rw [(answers.bytes data rfl).1]
        rfl
  · have whole := tiles.flatten_rangeOf le_rfl
    rwa [List.map_map] at whole

/-! ## Two halves of a chunk -/

def pairHash : ChunkHash := "bd7c250566c6e99f47c174b589b7551f8b0e930ed056511d1e8f653bc71d3c4a"

/-- A node that holds the bytes 7 and 8. -/
def pairStored : World :=
  ((StorageNodeImpl.writeChunk "n1" pairHash [7, 8]).run exec (.ofStore .empty)).2

/-- A gateway in front of the node, without an entry. -/
def pairEdge : Edge := ⟨.new ["n1"] 10000, pairStored⟩

/-- A request for each of the two bytes. -/
def askHalves : Bool → EdgeRequest
  | true => .getChunkRange pairHash 0 0
  | false => .getChunkRange pairHash 1 1

/-- The first request in between the calls of the second one; an entry has expired as soon as it
is made. -/
def halvesRun : Pool edge Bool (Option Buffer) × Moment edge Bool Edge :=
  Pool.runSchedule (Edge.handler ⟨100000000, 0, 0, 0⟩)
    [false, true, true, true, true, false, false, false]
    (fun task => (askHalves task).program, .start pairEdge)

theorem runs_halvesRun : PoolRuns Edge.semantics
    (fun task => (askHalves task).program, .start pairEdge) (halvesRun.1, halvesRun.2) :=
  Pool.runs_runSchedule (Edge.semantics_handler _) _ _

theorem serves_pairEdge : Serves pairHash [7, 8] pairEdge where
  origin := ⟨"n1", rfl, by decide +kernel⟩
  cached := nofun

/-- The two halves make up the chunk. -/
theorem ranges_of_halvesRun :
    RangeAnswer [7, 8] 1 2 ((Edge.getChunkRange pairHash 1 2).run (Edge.handler ⟨0, 0, 0, 0⟩)
        pairEdge).1 ∧
      ∃ buffers : List Buffer, [halvesRun.1 true, halvesRun.1 false] =
        (buffers.map fun data => .done (.ok (some data))) ∧ buffers.flatten = [7, 8] := by
  have ranges := ranges_of_fixed_content (ι := Bool) pairHash [7, 8] pairEdge serves_pairEdge
  refine ⟨ranges.1 _ 1 2, ?_⟩
  have origin : ∀ event ∈ halvesRun.2.history, EdgeEvent.FromOrigin pairHash [7, 8] event := by
    decide +kernel
  have asked : ∀ part ∈ [(true, ((0 : ℤ), (0 : ℤ))), (false, (1, 1))],
      askHalves part.1 = .getChunkRange pairHash part.2.1 part.2.2 ∧
        (halvesRun.1 part.1).isSettled := by
    rw [List.forall_mem_cons, List.forall_mem_singleton]
    exact ⟨⟨rfl, by decide +kernel⟩, rfl, by decide +kernel⟩
  exact (ranges.2 askHalves halvesRun.1 halvesRun.2 runs_halvesRun origin).2 _
    (.cons le_rfl (.cons le_rfl (.nil 2))) asked

end DistributedFileStorage.Delivery
