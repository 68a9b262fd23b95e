import Mathlib.Data.Fintype.BigOperators
import Mathlib.Data.Fintype.Option
import DistributedFileStorage.Async.Interference
import DistributedFileStorage.Background.GarbageCollection

/-!
# A collection next to increments

A collection reads the list of orphaned chunks once and then deletes, one after the other,
the bytes and the rows of the chunks on it. An increment of the reference count looks up the
row and then updates it. An increment that finds the row of a chunk on the list resolves, and
its chunk is collected all the same: nothing in the collection looks at the count again.

A chunk that is not on the list is not touched by the collection, so its count ends with all
its increments and its bytes stay. So the increments that resolve are worth their count if and
only if none of them finds the row of a chunk on the list
(`concurrent_collection_iff`).
-/

set_option autoImplicit false

namespace DistributedFileStorage.Lifecycle

open Async Store Services Nodes Deduplication Background Relational Database

/-- The arguments of a call of `incrementReference`. -/
structure IncrementCall where
  chunkHash : ChunkHash
  fileId : FileId

def IncrementCall.program (call : IncrementCall) : Async Unit :=
  DeduplicationEngine.incrementReference call.chunkHash call.fileId

/-- One collection, and a family of increments. -/
def collectionTasks {ι : Type} (storageNodes : List NodeId) (calls : ι → IncrementCall) :
    Pool system (Option ι) Unit
  | none => BackgroundJobs.garbageCollect storageNodes >>= fun _ => pure ()
  | some task => (calls task).program

/-! ## What the history says -/

section Histories

variable {ι : Type}

/-- The chunk was orphaned when the list of orphaned chunks was read. -/
def Listed (chunkHash : ChunkHash) (history : List (Event system (Option ι) World)) : Prop :=
  ∃ event ∈ history, event.op = .store .getOrphanedChunks ∧
    chunkHash ∈ event.before.store.getOrphanedChunks

/-- The statement increments the count of the chunk. -/
def isIncrementOf (chunkHash : ChunkHash) : Call → Bool
  | .store (.incrementChunkReference hash _) => hash = chunkHash
  | _ => false

/-- How often the calls increment the count of the chunk. -/
def increments (chunkHash : ChunkHash) (calls : List (Event system (Option ι) World)) : ℕ :=
  calls.countP fun event => isIncrementOf chunkHash event.op

theorem Listed.mono {chunkHash : ChunkHash} {history : List (Event system (Option ι) World)}
    (listed : Listed chunkHash history) (event : Event system (Option ι) World) :
    Listed chunkHash (history ++ [event]) := by
  obtain ⟨listing, member, lists⟩ := listed
  exact ⟨listing, List.mem_append_left _ member, lists⟩

theorem listed_append {chunkHash : ChunkHash} {history : List (Event system (Option ι) World)}
    {event : Event system (Option ι) World} (other : event.op ≠ .store .getOrphanedChunks) :
    Listed chunkHash (history ++ [event]) ↔ Listed chunkHash history := by
  refine ⟨?_, fun listed => listed.mono event⟩
  rintro ⟨listing, member, lists, orphaned⟩
  rcases List.mem_append.mp member with earlier | now
  · exact ⟨listing, earlier, lists, orphaned⟩
  · exact absurd (List.mem_singleton.mp now ▸ lists) other

variable [DecidableEq ι] [Fintype ι]

/-- How often all tasks have incremented the count of the chunk. -/
def totalIncrements (moment : Moment system (Option ι) World) (chunkHash : ChunkHash) : ℕ :=
  ∑ task, increments chunkHash (moment.calls task)

theorem totalIncrements_next (moment : Moment system (Option ι) World) (task : Option ι) (op : Call)
    (outcome : system.Outcome op.Result) (after : World) (chunkHash : ChunkHash) :
    totalIncrements (moment.next task op outcome after) chunkHash =
      totalIncrements moment chunkHash + if isIncrementOf chunkHash op then 1 else 0 := by
  have total := Moment.sum_calls_next (increments chunkHash) moment task op outcome after
  rw [increments, increments, List.countP_append, List.countP_singleton] at total
  dsimp only at total
  unfold totalIncrements
  omega

end Histories

/-! ## The invariant -/

section Collection

variable {ι : Type} [DecidableEq ι] [Fintype ι] {origin : World}
  {moment : Moment system (Option ι) World}

/-- A chunk that is not on the list has the count of the original state and all increments so
far, and its bytes are where they were. Only the collection reads the list. -/
structure Collected (origin : World) (moment : Moment system (Option ι) World) : Prop where
  row : ∀ chunkHash, ¬ Listed chunkHash moment.history →
    moment.state.store.getChunk chunkHash = (origin.store.getChunk chunkHash).map fun chunk =>
      withCount (chunk.referenceCount + totalIncrements moment chunkHash) chunk
  bytes : ∀ chunkHash, ¬ Listed chunkHash moment.history → ∀ nodeId,
    moment.state.bytes nodeId chunkHash = origin.bytes nodeId chunkHash
  lister : ∀ event ∈ moment.history, event.op = .store .getOrphanedChunks → event.task = none

/-- What every call of every task does: what is on the list stays there, and a row that is
gone stays away. -/
structure Proceeds (origin : World) (before after : Moment system (Option ι) World) : Prop where
  collected : Collected origin after
  listed : ∀ chunkHash, Listed chunkHash before.history → Listed chunkHash after.history
  absent : ∀ chunkHash, before.state.store.getChunk chunkHash = none →
    after.state.store.getChunk chunkHash = none

/-- What a task can rely on between its calls. -/
structure Between (origin : World) (task : Option ι)
    (before after : Moment system (Option ι) World) : Prop
    extends Proceeds origin before after where
  calls : after.calls task = before.calls task

theorem Proceeds.trans {first second third : Moment system (Option ι) World}
    (earlier : Proceeds origin first second) (later : Proceeds origin second third) :
    Proceeds origin first third where
  collected := later.collected
  listed chunkHash listed := later.listed chunkHash (earlier.listed chunkHash listed)
  absent chunkHash gone := later.absent chunkHash (earlier.absent chunkHash gone)

theorem Between.trans {task : Option ι} {first second third : Moment system (Option ι) World}
    (earlier : Between origin task first second) (later : Between origin task second third) :
    Between origin task first third :=
  ⟨earlier.toProceeds.trans later.toProceeds, later.calls.trans earlier.calls⟩

theorem Collected.proceeds (collected : Collected origin moment) : Proceeds origin moment moment :=
  ⟨collected, fun _ => id, fun _ => id⟩

/-- The postconditions of a program of a task, next to the others. -/
abbrev Collects (origin : World) (task : Option ι) {α : Type} :
    Async α → Moment system (Option ι) World → (α → Moment system (Option ι) World → Prop) →
      (Moment system (Option ι) World → Prop) → Prop :=
  Upholds exec.semantics (Between origin task) (Proceeds origin) task

/-- A call that is not the reading of the list proceeds, when it does to the chunks off the
list what the increments say. -/
theorem Collected.next (collected : Collected origin moment) (task : Option ι) {op : Call}
    (other : op ≠ .store .getOrphanedChunks) (outcome : system.Outcome op.Result) {after : World}
    (rows : ∀ chunkHash, ¬ Listed chunkHash moment.history →
      after.store.getChunk chunkHash = (moment.state.store.getChunk chunkHash).map fun chunk =>
        withCount (chunk.referenceCount + if isIncrementOf chunkHash op then 1 else 0) chunk)
    (bytes : ∀ chunkHash, ¬ Listed chunkHash moment.history → ∀ nodeId,
      after.bytes nodeId chunkHash = moment.state.bytes nodeId chunkHash)
    (absent : ∀ chunkHash, moment.state.store.getChunk chunkHash = none →
      after.store.getChunk chunkHash = none) :
    Proceeds origin moment (moment.next task op outcome after) := by
  refine ⟨⟨fun chunkHash unlisted => ?_, fun chunkHash unlisted nodeId => ?_, ?_⟩, ?_, absent⟩
  · have before := (listed_append other).not.mp unlisted
    rw [Moment.state_next, rows chunkHash before, collected.row chunkHash before, Option.map_map,
      totalIncrements_next]
    congr 1
    funext chunk
    simp only [Function.comp_apply, withCount]
    congr 1
    split <;> push_cast <;> omega
  · have before := (listed_append other).not.mp unlisted
    exact (bytes chunkHash before nodeId).trans (collected.bytes chunkHash before nodeId)
  · intro event member lists
    rcases List.mem_append.mp member with earlier | now
    · exact collected.lister event earlier lists
    · obtain rfl := List.mem_singleton.mp now
      exact absurd lists other
  · exact fun chunkHash listed => listed.mono _

/-! ## The collection -/

/-- The call is part of the deletion of a chunk. -/
inductive DeletionOf (chunkHash : ChunkHash) : Call → Prop where
  | unlink (nodeId : NodeId) :
      DeletionOf chunkHash (.disk nodeId (.unlink (getChunkPath chunkHash)))
  | uncountChunk (nodeId : NodeId) : DeletionOf chunkHash (.disk nodeId .uncountChunk)
  | deleteChunk : DeletionOf chunkHash (.store (.deleteChunk chunkHash))

omit [DecidableEq ι] [Fintype ι] in
/-- The deletion of a chunk leaves the other chunks alone. -/
theorem DeletionOf.elsewhere {chunkHash : ChunkHash} {op : Call} (deletes : DeletionOf chunkHash op)
    (world : World) {other : ChunkHash} (different : other ≠ chunkHash) :
    (exec op world).2.store.getChunk other = world.store.getChunk other ∧
      ∀ nodeId, (exec op world).2.bytes nodeId other = world.bytes nodeId other := by
  cases deletes with
  | unlink nodeId =>
      have puts : PutsChunk nodeId chunkHash (· = none) world _ := PutsChunk.of_unlink world
      refine ⟨by rw [puts.store], fun node => puts.elsewhere fun here => different here.2⟩
  | uncountChunk nodeId =>
      let node := world.nodes nodeId
      let counted : StorageNode := { node with chunkCount := node.chunkCount - 1 }
      have same : SameChunks world (world.setNode nodeId counted) :=
        sameChunks_setNode fun path => rfl
      exact ⟨rfl, fun node => same.bytes node other⟩
  | deleteChunk => exact ⟨Table.find?_delete_of_ne different, fun _ => rfl⟩

omit [DecidableEq ι] [Fintype ι] in
theorem DeletionOf.absent {chunkHash : ChunkHash} {op : Call} (deletes : DeletionOf chunkHash op)
    (world : World) {other : ChunkHash} (gone : world.store.getChunk other = none) :
    (exec op world).2.store.getChunk other = none := by
  cases deletes with
  | unlink nodeId =>
      have puts : PutsChunk nodeId chunkHash (· = none) world _ := PutsChunk.of_unlink world
      rw [puts.store]
      exact gone
  | uncountChunk nodeId => exact gone
  | deleteChunk =>
      refine Table.find?_eq_none_iff.mpr fun present => ?_
      exact Table.find?_eq_none_iff.mp gone (Table.mem_keys_delete.mp present).1

omit [DecidableEq ι] [Fintype ι] in
theorem DeletionOf.not_increment {chunkHash : ChunkHash} {op : Call}
    (deletes : DeletionOf chunkHash op) (other : ChunkHash) : isIncrementOf other op = false := by
  cases deletes <;> rfl

omit [DecidableEq ι] [Fintype ι] in
theorem DeletionOf.not_listing {chunkHash : ChunkHash} {op : Call}
    (deletes : DeletionOf chunkHash op) : op ≠ .store .getOrphanedChunks := by
  cases deletes <;> simp

/-- The collection has read its list and has still to go through some of the chunks on it. -/
structure Collecting (origin : World) (list rest : List ChunkHash)
    (now : Moment system (Option ι) World) : Prop where
  collected : Collected origin now
  listed : ∀ chunkHash ∈ list, Listed chunkHash now.history
  only : ∀ event ∈ now.calls none, event.op = .store .getOrphanedChunks →
    event.before.store.getOrphanedChunks = list
  gone : ∀ chunkHash ∈ list, chunkHash ∈ rest ∨ now.state.store.getChunk chunkHash = none
  never : ∀ chunkHash, increments chunkHash (now.calls none) = 0

/-- A call of the deletion of a chunk on the list. -/
theorem Collecting.delete {list rest : List ChunkHash} {chunkHash : ChunkHash} {op : Call}
    {before : Moment system (Option ι) World} (collecting : Collecting origin list rest moment)
    (member : chunkHash ∈ list) (deletes : DeletionOf chunkHash op)
    (relied : Between origin none moment before) :
    Proceeds origin before
        (before.next none op (exec op before.state).1 (exec op before.state).2) ∧
      Collecting origin list rest
        (before.next none op (exec op before.state).1 (exec op before.state).2) := by
  have elsewhere : ∀ other, ¬ Listed other before.history → other ≠ chunkHash := by
    rintro other unlisted rfl
    exact unlisted (relied.listed _ (collecting.listed _ member))
  have proceeds : Proceeds origin before
      (before.next none op (exec op before.state).1 (exec op before.state).2) := by
    refine relied.collected.next none deletes.not_listing _ (fun other unlisted => ?_)
      (fun other unlisted => (deletes.elsewhere before.state (elsewhere other unlisted)).2)
      (fun other => deletes.absent before.state)
    rw [(deletes.elsewhere before.state (elsewhere other unlisted)).1, deletes.not_increment]
    simp
  refine ⟨proceeds, proceeds.collected, fun other on => ?_, ?_, fun other on => ?_,
    fun other => ?_⟩
  · exact proceeds.listed other (relied.listed other (collecting.listed other on))
  · intro event called lists
    rw [Moment.calls_next_self, relied.calls] at called
    rcases List.mem_append.mp called with earlier | now
    · exact collecting.only event earlier lists
    · obtain rfl := List.mem_singleton.mp now
      exact absurd lists deletes.not_listing
  · exact (collecting.gone other on).imp_right fun none =>
      proceeds.absent other (relied.absent other none)
  · have before := collecting.never other
    rw [increments] at before
    rw [Moment.calls_next_self, relied.calls, increments, List.countP_append, before,
      List.countP_singleton, deletes.not_increment]
    rfl

theorem collects_collectChunk {storageNodes : List NodeId} {deleted : ℕ} {chunkHash : ChunkHash}
    {list rest : List ChunkHash} (member : chunkHash ∈ list)
    (collecting : Collecting origin list (chunkHash :: rest) moment) :
    Collects origin none (BackgroundJobs.collectChunk storageNodes deleted chunkHash) moment
      (fun _ => Collecting origin list rest) (fun _ => False) := by
  have step : ∀ (now : Moment system (Option ι) World) op, DeletionOf chunkHash op →
      Collecting origin list (chunkHash :: rest) now → ∀ before, Between origin none now before →
        ∀ outcome after, exec.semantics op before.state outcome after →
          Proceeds origin before (before.next none op outcome after) ∧
            Collecting origin list (chunkHash :: rest) (before.next none op outcome after) := by
    intro now op deletes collecting before relied outcome after happens
    have made : exec op before.state = (outcome, after) := happens
    have next := collecting.delete member deletes relied
    rwa [made] at next
  have nodes : Collects origin none (BackgroundJobs.deleteFromNodes storageNodes chunkHash) moment
      (fun _ => Collecting origin list (chunkHash :: rest)) (fun _ => False) :=
    .forEach (fun _ => Collecting origin list (chunkHash :: rest))
      (fun nodeId _ now collecting =>
        .attempt (.of_allCalls step (StorageNodeImpl.allCalls_deleteChunk
          (.unlink nodeId) (.uncountChunk nodeId)) collecting)) collecting
  refine .tryCatch (.bind (nodes.consequence ?_ fun _ => id)) fun _ _ => False.elim
  intro _ emptied collecting
  refine .bind (Upholds.perform_handler fun before relied => ?_)
  obtain ⟨proceeds, later⟩ := collecting.delete member .deleteChunk relied
  refine ⟨proceeds, later.collected, later.listed, later.only, fun other on => ?_, later.never⟩
  rcases later.gone other on with waits | none
  · rcases List.mem_cons.mp waits with rfl | rest
    · exact .inr Table.find?_delete_self
    · exact .inl rest
  · exact .inr none

/-- The reading of the list. -/
theorem Collected.list (collected : Collected origin moment) (orphaned : List ChunkHash) :
    Proceeds origin moment
      (moment.next none (.store .getOrphanedChunks) (.ok orphaned) moment.state) where
  collected :=
    { row := fun chunkHash unlisted => by
        have before : ¬ Listed chunkHash moment.history := fun listed => unlisted (listed.mono _)
        rw [totalIncrements_next]
        exact collected.row chunkHash before
      bytes := fun chunkHash unlisted => collected.bytes chunkHash fun listed =>
        unlisted (listed.mono _)
      lister := fun event member lists => by
        rcases List.mem_append.mp member with earlier | now
        · exact collected.lister event earlier lists
        · exact (List.mem_singleton.mp now).symm ▸ rfl }
  listed chunkHash listed := listed.mono _
  absent chunkHash := id

/-- The collection ends with the rows of all chunks on its list gone. -/
theorem collects_garbageCollect {storageNodes : List NodeId} (start : moment.calls none = []) :
    Collects origin none
      (BackgroundJobs.garbageCollect storageNodes >>= fun _ => (pure () : Async Unit)) moment
      (fun _ now => ∃ list, Collecting origin list [] now) (fun _ => False) := by
  refine .bind (.bind (Upholds.perform_handler fun before relied => ?_))
  let list := before.state.store.getOrphanedChunks
  have proceeds := relied.collected.list list
  refine ⟨proceeds, ?_⟩
  have read : Collecting origin list list
      (before.next none (.store .getOrphanedChunks) (.ok list) before.state) := by
    refine ⟨proceeds.collected, fun chunkHash on => ?_, fun event called _ => ?_, fun _ => .inl,
      fun chunkHash => ?_⟩
    · exact ⟨_, List.mem_append_right _ (List.mem_singleton_self _), rfl, on⟩
    · rw [Moment.calls_next_self, relied.calls, start] at called
      obtain rfl := List.mem_singleton.mp called
      rfl
    · rw [Moment.calls_next_self, relied.calls, start]
      rfl
  refine Upholds.consequence (Upholds.foldEach
    (fun _ rest now => Collecting origin list rest now ∧ ∀ chunkHash ∈ rest, chunkHash ∈ list)
    (fun deleted chunkHash rest now holds => ?_) ⟨read, fun _ => id⟩) ?_ fun _ => id
  · refine (collects_collectChunk (holds.2 chunkHash List.mem_cons_self) holds.1).consequence ?_
      fun _ => id
    exact fun _ later collecting =>
      ⟨collecting, fun other member => holds.2 other (List.mem_cons_of_mem _ member)⟩
  · exact fun _ later holds => ⟨list, holds.1⟩

/-! ## The increments -/

/-- An increment that has resolved: it has found the row of its chunk, and has incremented its
count once. -/
structure Incremented (task : ι) (call : IncrementCall) (now : Moment system (Option ι) World) :
    Prop where
  found : ∃ event ∈ now.calls (some task), event.op = .store (.getChunk call.chunkHash) ∧
    (event.before.store.getChunk call.chunkHash).isSome
  once : ∀ chunkHash, increments chunkHash (now.calls (some task)) =
    if call.chunkHash = chunkHash then 1 else 0

/-- An increment that has rejected: it has found no row, and has incremented nothing. -/
structure NotIncremented (task : ι) (call : IncrementCall) (now : Moment system (Option ι) World) :
    Prop where
  missing : ∀ event ∈ now.calls (some task), event.op = .store (.getChunk call.chunkHash) →
    event.before.store.getChunk call.chunkHash = none
  never : ∀ chunkHash, increments chunkHash (now.calls (some task)) = 0

theorem collects_getChunk {task : Option ι} {chunkHash : ChunkHash} :
    Collects origin task (store (.getChunk chunkHash)) moment
      (fun result later => ∃ event : Event system (Option ι) World,
        event.op = .store (.getChunk chunkHash) ∧ event.before.store.getChunk chunkHash = result ∧
          later.calls task = moment.calls task ++ [event])
      (fun _ => False) := by
  refine .perform_handler fun before relied => ⟨?_, ⟨task, .store (.getChunk chunkHash),
    .ok (before.state.store.getChunk chunkHash), before.state, before.state⟩, rfl, rfl, ?_⟩
  · refine relied.collected.next task (by simp) _ (fun other _ => ?_) (fun _ _ _ => rfl)
      (fun _ => id)
    show before.state.store.getChunk other = _
    simp [isIncrementOf]
  · rw [Moment.calls_next_self, relied.calls]
    rfl

theorem collects_incrementReference {task : ι} {call : IncrementCall}
    (start : moment.calls (some task) = []) :
    Collects origin (some task) call.program moment (fun _ => Incremented task call)
      (NotIncremented task call) := by
  refine .bind (collects_getChunk.consequence ?_ fun _ => False.elim)
  rintro _ looked ⟨event, reads, rfl, calls⟩
  rw [start, List.nil_append] at calls
  cases found : event.before.store.getChunk call.chunkHash with
  | none =>
      refine ⟨fun other called _ => ?_, fun chunkHash => ?_⟩
      · rw [calls] at called
        obtain rfl := List.mem_singleton.mp called
        exact found
      · rw [calls, increments, List.countP_singleton, reads]
        rfl
  | some chunk =>
      refine Upholds.perform_handler fun now relied => ?_
      have proceeds : Proceeds origin now (now.next (some task)
          (.store (.incrementChunkReference call.chunkHash call.fileId)) (.ok ())
          (now.state.setStore (now.state.store.incrementChunkReference call.chunkHash))) := by
        refine relied.collected.next (some task) (by simp) _ (fun chunkHash _ => ?_)
          (fun _ _ _ => rfl) (fun chunkHash gone => ?_)
        · rw [World.store_setStore, getChunk_incrementChunkReference]
          simp [isIncrementOf]
        · rw [World.store_setStore, getChunk_incrementChunkReference, gone]
          rfl
      refine ⟨proceeds, ⟨event, ?_, reads, found ▸ rfl⟩, fun chunkHash => ?_⟩
      · rw [Moment.calls_next_self, relied.calls, calls]
        simp
      · rw [Moment.calls_next_self, relied.calls, calls, increments, List.countP_append,
          List.countP_singleton, List.countP_singleton, reads]
        simp [isIncrementOf]

/-! ## The interleavings -/

/-- The count of the chunk is the original one and one for each increment that has resolved,
and every node that held the bytes of the chunk still holds them. -/
structure Retains (calls : ι → IncrementCall) (origin : World) (tasks : Pool system (Option ι) Unit)
    (world : World) (chunkHash : ChunkHash) : Prop where
  counted : ∃ before after, origin.store.getChunk chunkHash = some before ∧
    world.store.getChunk chunkHash = some after ∧
      after.referenceCount = before.referenceCount +
        (Finset.univ.filter fun task => (calls task).chunkHash = chunkHash ∧
          (tasks (some task)).isResolved = true).card
  bytes : ∀ nodeId data, origin.bytes nodeId chunkHash = some data →
    world.bytes nodeId chunkHash = some data

/-- What holds when a task has resolved. -/
def CollectionResolved (calls : ι → IncrementCall) (origin : World) :
    Option ι → Unit → Moment system (Option ι) World → Prop
  | none, _ => fun now => ∃ list, Collecting origin list [] now
  | some task, _ => Incremented task (calls task)

/-- What holds when a task has rejected. -/
def CollectionRejected (calls : ι → IncrementCall) :
    Option ι → Moment system (Option ι) World → Prop
  | none => fun _ => False
  | some task => NotIncremented task (calls task)

theorem collects_collectionTasks {storageNodes : List NodeId} {calls : ι → IncrementCall}
    (task : Option ι) :
    Collects origin task (collectionTasks storageNodes calls task) (.start origin)
      (CollectionResolved calls origin task) (CollectionRejected calls task) := by
  cases task with
  | none => exact collects_garbageCollect rfl
  | some task => exact collects_incrementReference rfl

theorem Collected.start : Collected origin (.start origin : Moment system (Option ι) World) where
  row chunkHash _ := by
    have none : totalIncrements (.start origin : Moment system (Option ι) World) chunkHash = 0 :=
      Finset.sum_eq_zero fun task _ => rfl
    have same :
        (fun chunk : ChunkRecord => withCount (chunk.referenceCount + (0 : ℕ)) chunk) = id :=
      funext fun chunk => by simp
    rw [none, same, Option.map_id]
    rfl
  bytes _ _ _ := rfl
  lister _ member := nomatch member

/-- What is known when all tasks have finished. -/
theorem finished_collection {storageNodes : List NodeId} {calls : ι → IncrementCall}
    {tasks : Pool system (Option ι) Unit} {reached : Moment system (Option ι) World}
    (run : PoolRuns exec.semantics (collectionTasks storageNodes calls, .start origin)
      (tasks, reached))
    (finished : ∀ task, (tasks task).isSettled = true) :
    Collected origin reached ∧ (∃ list, Collecting origin list [] reached) ∧
      ∀ task, (tasks (some task)).isResolved = true ∧ Incremented task (calls task) reached ∨
        (tasks (some task)).isResolved = false ∧ NotIncremented task (calls task) reached := by
  obtain ⟨collected, held⟩ := Pool.upholds (Between origin) (fun _ => Proceeds origin)
    (Collected origin) (fun task moment holds => ⟨holds.proceeds, rfl⟩)
    (fun task first second third => .trans)
    (fun task other different before op outcome state _ proceeds =>
      ⟨proceeds, Moment.calls_next_of_ne different before op outcome state⟩)
    (fun task before after _ proceeds => proceeds.collected) Collected.start
    (fun task => collects_collectionTasks task) run
  have ends : ∀ task, ∃ outcome moment, tasks task = .done outcome ∧
      Between origin task moment reached ∧
        Ends (CollectionResolved calls origin task) (CollectionRejected calls task) outcome
          moment := by
    intro task
    obtain ⟨moment, _, between, upholds⟩ := held task
    obtain ⟨outcome, settled, ends⟩ := upholds.ends (finished task)
    exact ⟨outcome, moment, settled, between, ends⟩
  refine ⟨collected, ?_, fun task => ?_⟩
  · obtain ⟨outcome, moment, _, between, ends⟩ := ends none
    cases outcome with
    | error failure => exact ends.elim
    | ok value =>
        obtain ⟨list, collecting⟩ := ends
        refine ⟨list, collected, fun chunkHash on => ?_, ?_, fun chunkHash on => ?_, ?_⟩
        · exact between.listed chunkHash (collecting.listed chunkHash on)
        · rw [between.calls]
          exact collecting.only
        · exact (collecting.gone chunkHash on).imp_right (between.absent chunkHash)
        · rw [between.calls]
          exact collecting.never
  · obtain ⟨outcome, moment, settled, between, ends⟩ := ends (some task)
    rw [settled]
    cases outcome with
    | ok value =>
        have incremented : Incremented task (calls task) moment := ends
        exact .inl ⟨rfl, between.calls ▸ incremented.found, between.calls ▸ incremented.once⟩
    | error failure =>
        have missed : NotIncremented task (calls task) moment := ends
        exact .inr ⟨rfl, between.calls ▸ missed.missing, between.calls ▸ missed.never⟩

/-- The increments of a chunk are those of the calls that have resolved. -/
theorem totalIncrements_eq {calls : ι → IncrementCall} {tasks : Pool system (Option ι) Unit}
    {reached : Moment system (Option ι) World} {list : List ChunkHash}
    (collecting : Collecting origin list [] reached)
    (increments : ∀ task,
      (tasks (some task)).isResolved = true ∧ Incremented task (calls task) reached ∨
        (tasks (some task)).isResolved = false ∧ NotIncremented task (calls task) reached)
    (chunkHash : ChunkHash) :
    totalIncrements reached chunkHash =
      (Finset.univ.filter fun task => (calls task).chunkHash = chunkHash ∧
        (tasks (some task)).isResolved = true).card := by
  rw [totalIncrements, Fintype.sum_option, collecting.never, zero_add, Finset.card_filter]
  refine Finset.sum_congr rfl fun task _ => ?_
  rcases increments task with ⟨resolved, incremented⟩ | ⟨rejected, missed⟩
  · rw [incremented.once, resolved]
    simp
  · rw [missed.never, rejected]
    simp

theorem retains_of_unlisted {calls : ι → IncrementCall} {tasks : Pool system (Option ι) Unit}
    {reached : Moment system (Option ι) World} {list : List ChunkHash} {chunkHash : ChunkHash}
    (collected : Collected origin reached) (collecting : Collecting origin list [] reached)
    (increments : ∀ task,
      (tasks (some task)).isResolved = true ∧ Incremented task (calls task) reached ∨
        (tasks (some task)).isResolved = false ∧ NotIncremented task (calls task) reached)
    (unlisted : ¬ Listed chunkHash reached.history)
    (registered : (origin.store.getChunk chunkHash).isSome = true) :
    Retains calls origin tasks reached.state chunkHash := by
  obtain ⟨before, found⟩ := Option.isSome_iff_exists.mp registered
  have row := collected.row chunkHash unlisted
  rw [found, totalIncrements_eq collecting increments] at row
  refine ⟨⟨before, _, found, row, rfl⟩, fun nodeId data held => ?_⟩
  rw [collected.bytes chunkHash unlisted nodeId]
  exact held

/-- **The increments that resolve next to a collection are kept, with the bytes of their chunks,
if and only if none of them finds the row of a chunk that was orphaned when the collection read
its list.** -/
theorem concurrent_collection_iff (storageNodes : List NodeId) (calls : ι → IncrementCall)
    (origin : World)
    (registered : ∀ task, (origin.store.getChunk (calls task).chunkHash).isSome = true)
    {tasks : Pool system (Option ι) Unit} {reached : Moment system (Option ι) World}
    (run : PoolRuns exec.semantics (collectionTasks storageNodes calls, .start origin)
      (tasks, reached))
    (finished : ∀ task, (tasks task).isSettled = true) :
    (∀ task, (tasks (some task)).isResolved = true →
        Retains calls origin tasks reached.state (calls task).chunkHash) ↔
      ∀ event ∈ reached.history, ∀ task, event.task = some task →
        event.op = .store (.getChunk (calls task).chunkHash) →
          (event.before.store.getChunk (calls task).chunkHash).isSome = true →
            ¬ Listed (calls task).chunkHash reached.history := by
  obtain ⟨collected, ⟨list, collecting⟩, increments⟩ := finished_collection run finished
  constructor
  · intro retains event member task own reads found listed
    have called : event ∈ reached.calls (some task) := by simp [Moment.calls, member, own]
    have resolved : (tasks (some task)).isResolved = true := by
      rcases increments task with ⟨resolved, _⟩ | ⟨_, missed⟩
      · exact resolved
      · rw [missed.missing event called reads] at found
        cases found
    obtain ⟨before, after, _, row, _⟩ := (retains task resolved).counted
    obtain ⟨listing, recorded, lists, orphaned⟩ := listed
    have lister : listing ∈ reached.calls none := by
      simp [Moment.calls, recorded, collected.lister listing recorded lists]
    rw [collecting.only listing lister lists] at orphaned
    rcases collecting.gone _ orphaned with waits | gone
    · cases waits
    · rw [gone] at row
      cases row
  · intro condition task resolved
    have unlisted : ¬ Listed (calls task).chunkHash reached.history := by
      rcases increments task with ⟨_, incremented⟩ | ⟨rejected, _⟩
      · obtain ⟨event, called, reads, found⟩ := incremented.found
        obtain ⟨member, own⟩ : event ∈ reached.history ∧ event.task = some task := by
          simpa [Moment.calls] using called
        exact condition event member task own reads found
      · rw [rejected] at resolved
        cases resolved
    exact retains_of_unlisted collected collecting increments unlisted (registered task)

end Collection

/-! ## A chunk without and with a reference -/

/-- A hash in the format of a storage node. -/
def someHash : ChunkHash := String.ofList (List.replicate 64 'a')

/-- A node that stores a chunk whose count is as given. -/
def countedChunk (count : ℤ) : World :=
  let stored : Async Unit := do
    store (.createChunk
      { chunkHash := someHash, size := 1, encryptedSize := 1, referenceCount := count,
        createdAt := 0 })
    disk "node" (.mkdir (chunkPrefix someHash))
    disk "node" (.writeFile (getChunkPath someHash) [7])
  (stored.run exec (.ofStore .empty)).2

/-- One increment of the chunk next to a collection. -/
def collectCounted (count : ℤ) :
    Pool system (Option Unit) Unit × Moment system (Option Unit) World :=
  (collectionTasks ["node"] fun _ => ⟨someHash, notes⟩, .start (countedChunk count))

/-- The collection reads its list, then the increment happens, then the collection goes on. -/
def interruptedRun (count : ℤ) :
    Pool system (Option Unit) Unit × Moment system (Option Unit) World :=
  Pool.runSchedule exec [none, some (), some (), none, none, none] (collectCounted count)

/-- A chunk that had a reference when the list was read keeps the increment. -/
theorem interrupted_collection_keeps :
    Retains (fun _ : Unit => ⟨someHash, notes⟩) (countedChunk 1) (interruptedRun 1).1
      (interruptedRun 1).2.state someHash := by
  have counted : ∀ event ∈ (interruptedRun 1).2.history,
      someHash ∉ event.before.store.getOrphanedChunks := by
    decide
  refine (concurrent_collection_iff ["node"] (fun _ : Unit => ⟨someHash, notes⟩) (countedChunk 1)
    (by decide) (Pool.runs_runSchedule (fun _ _ => rfl) _ _ :
      PoolRuns exec.semantics (collectCounted 1) ((interruptedRun 1).1, (interruptedRun 1).2))
    (by decide)).mpr ?_ () (by decide)
  rintro _ _ _ _ _ _ ⟨listing, member, _, orphaned⟩
  exact counted listing member orphaned

/-- **A chunk that is orphaned when the list is read is collected in spite of the increment.**
The increment resolves, and the row and the bytes are gone. -/
theorem interrupted_collection_loses :
    ((countedChunk 0).store.getChunk someHash).isSome = true ∧
      (countedChunk 0).bytes "node" someHash = some [7] ∧
      ∃ tasks reached, PoolRuns exec.semantics (collectCounted 0) (tasks, reached) ∧
        (∀ task, (tasks task).isSettled = true) ∧ (tasks (some ())).isResolved = true ∧
          reached.state.store.getChunk someHash = none ∧
          reached.state.bytes "node" someHash = none :=
  ⟨by decide, by decide, _, _,
    (Pool.runs_runSchedule (fun _ _ => rfl) _ _ :
      PoolRuns exec.semantics (collectCounted 0) ((interruptedRun 0).1, (interruptedRun 0).2)),
    by decide, by decide, by decide, by decide⟩

end DistributedFileStorage.Lifecycle
