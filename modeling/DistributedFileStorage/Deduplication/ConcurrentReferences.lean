import DistributedFileStorage.Async.OwnCalls
import DistributedFileStorage.Deduplication.ReferenceCounting
import Mathlib.Algebra.Ring.Int.Defs

/-!
# Reference counting by callers next to each other

A decrement reads the count in one call of the store and changes it in another. Between the two it
is outstanding: its guard has let it pass, and what it takes is still counted. A guard sees the
count and not the decrements that are outstanding. Where every guard that lets a decrement pass has
read more than the outstanding ones will take, the count never becomes negative
(`nonneg_of_guardsSuffice`): it covers the outstanding decrements at every moment.
-/

set_option autoImplicit false

namespace DistributedFileStorage.Deduplication

open Async Store Services Relational

variable {ι : Type} {chunkHash : ChunkHash}

/-! ## The calls -/

/-- A call on the deduplication engine that changes a reference count. -/
inductive ReferenceCall where
  | incrementReference (chunkHash : ChunkHash) (fileId : FileId)
  | decrementReference (chunkHash : ChunkHash) (fileId : FileId)

def ReferenceCall.program : ReferenceCall → Async Unit
  | incrementReference chunkHash fileId => DeduplicationEngine.incrementReference chunkHash fileId
  | decrementReference chunkHash fileId => DeduplicationEngine.decrementReference chunkHash fileId

/-- What a call of the store adds to the count of a chunk. -/
def countChange (chunkHash : ChunkHash) (event : Event system ι World) : ℤ :=
  match event.op with
  | .store (.incrementChunkReference changed _) => if changed = chunkHash then 1 else 0
  | .store (.decrementChunkReference changed _) => -if changed = chunkHash then 1 else 0
  | _ => 0

/-! ## Outstanding decrements -/

/-- The call is a decrement of the chunk. -/
def ReferenceCall.decrements (chunkHash : ChunkHash) : ReferenceCall → Bool
  | incrementReference _ _ => false
  | decrementReference decremented _ => decremented = chunkHash

/-- The guard of a decrement of the chunk reads a positive count. -/
def passesGuard (calls : ι → ReferenceCall) (chunkHash : ChunkHash) (event : Event system ι World) :
    Bool :=
  match event.op with
  | .store (.getChunk read) =>
      read = chunkHash ∧ (calls event.task).decrements chunkHash ∧
        0 < event.before.store.referenceCount chunkHash
  | _ => false

/-- A decrement of the chunk changes the count. -/
def takesReference (chunkHash : ChunkHash) (event : Event system ι World) : Bool :=
  match event.op with
  | .store (.decrementChunkReference changed _) => changed = chunkHash
  | _ => false

section Outstanding

variable [DecidableEq ι]

/-- The decrements of the chunk that have passed their guard and have not changed the count. -/
def outstanding (calls : ι → ReferenceCall) (chunkHash : ChunkHash)
    (history : List (Event system ι World)) : Finset ι :=
  (history.map Event.task).toFinset.filter fun task =>
    (∃ event ∈ callsOf task history, passesGuard calls chunkHash event = true) ∧
      ∀ event ∈ callsOf task history, takesReference chunkHash event = false

/-- Every guard that lets a decrement of the chunk pass has read more than the decrements will take
that are outstanding at that moment. -/
def GuardsSuffice (calls : ι → ReferenceCall) (chunkHash : ChunkHash)
    (history : List (Event system ι World)) : Prop :=
  ∀ (index : ℕ) (made : index < history.length),
    passesGuard calls chunkHash history[index] = true →
      (outstanding calls chunkHash (history.take index)).card <
        history[index].before.store.referenceCount chunkHash

instance (calls : ι → ReferenceCall) (chunkHash : ChunkHash)
    (history : List (Event system ι World)) : Decidable (GuardsSuffice calls chunkHash history) :=
  inferInstanceAs (Decidable (∀ (index : ℕ) (_ : index < history.length), _))

variable {calls : ι → ReferenceCall} {history : List (Event system ι World)}
  {event : Event system ι World} {task : ι}

theorem GuardsSuffice.concat (enough : GuardsSuffice calls chunkHash (history ++ [event])) :
    GuardsSuffice calls chunkHash history ∧ (passesGuard calls chunkHash event = true →
      (outstanding calls chunkHash history).card < event.before.store.referenceCount chunkHash) := by
  constructor
  · intro index made passes
    have here := enough index (made.trans_le (by simp))
    rw [List.getElem_append_left made, List.take_append_of_le_length made.le] at here
    exact here passes
  · have last := enough history.length (by simp)
    simpa using last

theorem mem_outstanding : task ∈ outstanding calls chunkHash history ↔
    (∃ event ∈ callsOf task history, passesGuard calls chunkHash event = true) ∧
      ∀ event ∈ callsOf task history, takesReference chunkHash event = false := by
  unfold outstanding
  rw [Finset.mem_filter, and_iff_right_iff_imp, List.mem_toFinset, List.mem_map]
  rintro ⟨⟨event, member, _⟩, _⟩
  exact ⟨event, mem_callsOf.mp member⟩

/-- One call makes at most its own task outstanding, and only by passing a guard. -/
theorem outstanding_next (member : task ∈ outstanding calls chunkHash (history ++ [event])) :
    (passesGuard calls chunkHash event = true ∧ task = event.task ∨
        task ∈ outstanding calls chunkHash history) ∧
      (takesReference chunkHash event = true → task ≠ event.task) := by
  obtain ⟨⟨passed, made, passes⟩, kept⟩ := mem_outstanding.mp member
  simp only [mem_callsOf, List.mem_append, List.mem_singleton] at made kept
  constructor
  · rcases made with ⟨old | rfl, own⟩
    · refine .inr (mem_outstanding.mpr ⟨⟨passed, mem_callsOf.mpr ⟨old, own⟩, passes⟩, ?_⟩)
      exact fun other before => kept other ((mem_callsOf.mp before).imp_left .inl)
    · exact .inl ⟨passes, own.symm⟩
  · rintro takes rfl
    rw [kept event ⟨.inr rfl, rfl⟩] at takes
    cases takes

/-- A guard that passes adds one outstanding decrement at most. -/
theorem card_outstanding_next : (outstanding calls chunkHash (history ++ [event])).card ≤
    (outstanding calls chunkHash history).card + 1 := by
  refine (Finset.card_le_card fun task member => ?_).trans
    (Finset.card_insert_le event.task (outstanding calls chunkHash history))
  rcases (outstanding_next member).1 with ⟨_, rfl⟩ | old
  · exact Finset.mem_insert_self _ _
  · exact Finset.mem_insert_of_mem old

/-- Any other call adds none. -/
theorem outstanding_next_subset (blocked : passesGuard calls chunkHash event = false) :
    outstanding calls chunkHash (history ++ [event]) ⊆ outstanding calls chunkHash history := by
  intro task member
  rcases (outstanding_next member).1 with ⟨passes, _⟩ | old
  · rw [blocked] at passes
    cases passes
  · exact old

/-- An outstanding decrement that changes the count is outstanding no more. -/
theorem card_outstanding_takes (takes : takesReference chunkHash event = true)
    (blocked : passesGuard calls chunkHash event = false)
    (was : event.task ∈ outstanding calls chunkHash history) :
    (outstanding calls chunkHash (history ++ [event])).card + 1 ≤
      (outstanding calls chunkHash history).card := by
  refine Finset.card_lt_card (Finset.ssubset_iff_of_subset (outstanding_next_subset blocked) |>.mpr
    ⟨event.task, was, fun still => ?_⟩)
  exact (outstanding_next still).2 takes rfl

/-! ## The rule that the calls keep -/

/-- The calls that a task makes after its own calls so far. A decrement changes the count once, after
its guard has let it pass. -/
inductive ReferenceRule (calls : ι → ReferenceCall) (task : ι) (own : List (Event system ι World)) :
    Call → Prop where
  | getChunk (chunkHash : ChunkHash) : ReferenceRule calls task own (.store (.getChunk chunkHash))
  | increment (chunkHash : ChunkHash) (fileId : FileId) :
      ReferenceRule calls task own (.store (.incrementChunkReference chunkHash fileId))
  | decrement (chunkHash : ChunkHash) (fileId : FileId)
      (passed : ∃ event ∈ own, passesGuard calls chunkHash event = true)
      (first : ∀ event ∈ own, takesReference chunkHash event = false) :
      ReferenceRule calls task own (.store (.decrementChunkReference chunkHash fileId))

/-- A run of the calls of the engine. -/
abbrev ReferenceRun (calls : ι → ReferenceCall) (origin : World) (moment : Moment system ι World) :
    Prop :=
  LawfulRun exec.semantics (fun history task => ReferenceRule calls task (callsOf task history))
    origin moment

/-- The tasks keep the rule. -/
theorem follows_program (calls : ι → ReferenceCall) (task : ι) :
    Follows exec.semantics (ReferenceRule calls) task (calls task).program []
      (fun _ _ => True) fun _ => True := by
  cases called : calls task with
  | incrementReference chunkHash fileId =>
      refine .bind (.perform_ok (.getChunk chunkHash) (fun _ => rfl) fun before => ?_)
      split
      · exact .throw trivial
      · refine .perform (.increment chunkHash fileId) fun _ outcome _ _ => ?_
        cases outcome <;> trivial
  | decrementReference chunkHash fileId =>
      refine .bind (.perform_ok (.getChunk chunkHash) (fun _ => rfl) fun before => ?_)
      split
      · exact .throw trivial
      · rename_i chunk found
        split
        · exact .throw trivial
        · rename_i positive
          have count : before.store.referenceCount chunkHash = chunk.referenceCount :=
            Database.referenceCount_of_getChunk found
          refine .perform (.decrement chunkHash fileId ⟨_, List.mem_singleton_self _, ?_⟩ ?_)
            fun _ outcome _ _ => ?_
          · simpa [passesGuard, called, ReferenceCall.decrements, count] using positive
          · simp [takesReference]
          · cases outcome <;> trivial

/-! ## The count -/

/-- One call adds its change to the count. -/
theorem getChunk_next (chunkHash : ChunkHash) (event : Event system ι World)
    (rule : ReferenceRule calls event.task (callsOf event.task history) event.op)
    (happens : exec.semantics event.op event.before event.outcome event.after) :
    event.after.store.getChunk chunkHash =
      (event.before.store.getChunk chunkHash).map fun chunk =>
        Database.withCount (chunk.referenceCount + countChange chunkHash event) chunk := by
  obtain ⟨task, op, outcome, before, after⟩ := event
  obtain rfl : (exec op before).2 = after := congrArg Prod.snd happens
  cases rule with
  | getChunk _ =>
      show before.store.getChunk chunkHash = _
      simp [countChange]
  | increment changed fileId => exact before.store.getChunk_incrementChunkReference changed chunkHash
  | decrement changed fileId passed first =>
      simp only [countChange, ← sub_eq_add_neg]
      exact before.store.getChunk_decrementChunkReference changed chunkHash

/-- What a call that keeps the rule does to the count and to the outstanding decrements. -/
theorem ReferenceRule.cases (chunkHash : ChunkHash)
    (rule : ReferenceRule calls event.task (callsOf event.task history) event.op) :
    (passesGuard calls chunkHash event = true ∧ countChange chunkHash event = 0) ∨
      (passesGuard calls chunkHash event = false ∧ 0 ≤ countChange chunkHash event) ∨
      (passesGuard calls chunkHash event = false ∧ takesReference chunkHash event = true ∧
        event.task ∈ outstanding calls chunkHash history ∧ countChange chunkHash event = -1) := by
  obtain ⟨task, op, outcome, before, after⟩ := event
  cases rule with
  | getChunk read =>
      cases passes : passesGuard calls chunkHash ⟨task, _, outcome, before, after⟩ with
      | true => exact .inl ⟨rfl, rfl⟩
      | false => exact .inr (.inl ⟨rfl, le_rfl⟩)
  | increment changed fileId =>
      refine .inr (.inl ⟨rfl, ?_⟩)
      simp only [countChange]
      split <;> decide
  | decrement changed fileId passed first =>
      by_cases same : changed = chunkHash
      · subst same
        exact .inr (.inr ⟨rfl, by simp [takesReference], mem_outstanding.mpr ⟨passed, first⟩,
          by simp [countChange]⟩)
      · exact .inr (.inl ⟨rfl, by simp [countChange, same]⟩)

/-- **A call leaves a count that covers the outstanding decrements** when it finds one, and when its
guard has read enough. -/
theorem outstanding_next_le (event : Event system ι World)
    (rule : ReferenceRule calls event.task (callsOf event.task history) event.op) {count : ℤ}
    (covers : (outstanding calls chunkHash history).card ≤ count)
    (enough : passesGuard calls chunkHash event = true →
      (outstanding calls chunkHash history).card < count) :
    (outstanding calls chunkHash (history ++ [event])).card ≤
      count + countChange chunkHash event := by
  rcases rule.cases chunkHash with ⟨passes, unchanged⟩ | ⟨blocked, grown⟩ |
    ⟨blocked, takes, was, taken⟩
  · have more : (outstanding calls chunkHash (history ++ [event])).card ≤
        (outstanding calls chunkHash history).card + 1 := card_outstanding_next
    have room := enough passes
    omega
  · have fewer : (outstanding calls chunkHash (history ++ [event])).card ≤
        (outstanding calls chunkHash history).card :=
      Finset.card_le_card (outstanding_next_subset blocked)
    omega
  · have fewer := card_outstanding_takes takes blocked was
    omega

variable {origin : World} {moment : Moment system ι World} {chunk : ChunkRecord}

/-- **In a run whose guards read enough, the count covers the outstanding decrements.** -/
theorem ReferenceRun.covers (run : ReferenceRun calls origin moment)
    (found : origin.store.getChunk chunkHash = some chunk) (nonneg : 0 ≤ chunk.referenceCount)
    (enough : GuardsSuffice calls chunkHash moment.history) :
    (∃ row, moment.state.store.getChunk chunkHash = some row ∧
        (outstanding calls chunkHash moment.history).card ≤ row.referenceCount) ∧
      ∀ event ∈ moment.history, 0 ≤ event.after.store.referenceCount chunkHash := by
  induction run with
  | start =>
      refine ⟨⟨chunk, found, ?_⟩, List.forall_mem_nil _⟩
      simpa [Moment.start, outstanding] using nonneg
  | @next before task op outcome after earlier keeps happens ih =>
      obtain ⟨enoughBefore, here⟩ := enough.concat
      obtain ⟨⟨row, present, covered⟩, sofar⟩ := ih enoughBefore
      have count := Database.referenceCount_of_getChunk present
      have covers := outstanding_next_le ⟨task, op, outcome, before.state, after⟩ keeps covered
        fun passes => count ▸ here passes
      have updated := getChunk_next chunkHash ⟨task, op, outcome, before.state, after⟩ keeps happens
      dsimp only at updated
      rw [present] at updated
      refine ⟨⟨_, updated, covers⟩, List.forall_mem_append.mpr ⟨sofar, ?_⟩⟩
      rw [List.forall_mem_singleton, Database.referenceCount_of_getChunk updated]
      exact (Int.natCast_nonneg _).trans covers

/-- **In every interleaving of increments and decrements, the count of a chunk is never negative**
when every guard that lets a decrement pass has read more than the decrements will take that are
outstanding at that moment. -/
theorem nonneg_of_guardsSuffice (calls : ι → ReferenceCall) {world : World}
    (found : world.store.getChunk chunkHash = some chunk) (nonneg : 0 ≤ chunk.referenceCount)
    {after : Pool system ι Unit} {reached : Moment system ι World}
    (run : PoolRuns exec.semantics (fun task => (calls task).program, .start world)
      (after, reached))
    (enough : GuardsSuffice calls chunkHash reached.history) :
    (∀ event ∈ reached.history, 0 ≤ event.after.store.referenceCount chunkHash) ∧
      0 ≤ reached.state.store.referenceCount chunkHash := by
  obtain ⟨⟨row, present, covers⟩, stays⟩ :=
    ReferenceRun.covers (Pool.follows (follows_program calls) run).1 found nonneg enough
  refine ⟨stays, ?_⟩
  rw [Database.referenceCount_of_getChunk present]
  exact (Int.natCast_nonneg _).trans covers

end Outstanding

/-- One chunk, and nothing else. -/
def referenced (referenceCount : ℤ) : World :=
  .ofStore (Database.empty.createChunk
    { chunkHash := "aa", size := 1, encryptedSize := 29, referenceCount := referenceCount,
      createdAt := 0 })

/-- Two decrements read the count before either of them changes it. -/
def overlappingDecrements (referenceCount : ℤ) : Pool system ℕ Unit × Moment system ℕ World :=
  Pool.runSchedule exec [0, 1, 0, 1]
    (fun _ => (ReferenceCall.decrementReference "aa" notes).program,
      .start (referenced referenceCount))

theorem runs_overlappingDecrements (referenceCount : ℤ) :
    PoolRuns exec.semantics
      (fun _ => (ReferenceCall.decrementReference "aa" notes).program,
        .start (referenced referenceCount))
      (overlappingDecrements referenceCount) :=
  Pool.runs_runSchedule (fun _ _ => rfl) _ _

/-- With two references the second guard reads more than the first decrement will take. -/
theorem nonneg_of_guardsSuffice_overlapping :
    (∀ event ∈ (overlappingDecrements 2).2.history, 0 ≤ event.after.store.referenceCount "aa") ∧
      0 ≤ (overlappingDecrements 2).2.state.store.referenceCount "aa" :=
  nonneg_of_guardsSuffice (fun _ : ℕ => .decrementReference "aa" notes)
    (rfl : (referenced 2).store.getChunk "aa" = some _) (by decide) (runs_overlappingDecrements 2)
    (by decide)

/-- The guard does not keep the count from becoming negative. -/
theorem negative_referenceCount :
    ∃ reached : Pool system ℕ Unit × Moment system ℕ World,
      PoolRuns exec.semantics
        (fun _ => (ReferenceCall.decrementReference "aa" notes).program, .start (referenced 1))
        reached ∧
      (referenced 1).store.referenceCount "aa" = 1 ∧
      reached.2.state.store.referenceCount "aa" = -1 :=
  ⟨overlappingDecrements 1, runs_overlappingDecrements 1, by decide, by decide⟩

end DistributedFileStorage.Deduplication
