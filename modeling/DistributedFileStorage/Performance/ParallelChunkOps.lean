import DistributedFileStorage.Async.Promises
import Mathlib.Data.List.Range
import Mathlib.Logic.Relation
import Mathlib.Order.Interval.Finset.Nat

/-!
# Operations on chunks in waves

`parallelChunkOps` calls an operation for the items of a list, in waves of at most `concurrency`
items. It calls the operation for all items of a wave and awaits the promises with `Promise.all`
before it goes on.

What happens is a run of turns. In a turn the function proceeds to its next call or `await`, or the
operation that it calls throws, or `Promise.all` rejects, or a started operation completes. The
operations complete in any order, also while others are still being called and after the function
has rejected. The list does not change.

Every run goes in waves (`parallelChunkOps_runsInWaves`).
-/

set_option autoImplicit false

namespace DistributedFileStorage.Performance

open Async Relation

variable {T E : Type}

/-! ## The function -/

/-- Where the function stands, with its local variables. -/
inductive Control (E : Type) where
  /-- Before the test of the loop. -/
  | loop (i : ℕ)
  /-- In `batch.map`, with the promises that it has collected. -/
  | calling (i : ℕ) (promises : List ℕ)
  /-- At the `await` of `Promise.all`. -/
  | awaiting (i : ℕ) (promises : List ℕ)
  | returned (outcome : Except E Unit)

/-- An operation is called with an item and an index. -/
abbrev OperationEvent (T E : Type) : Type := PromiseEvent (T × ℕ) Unit E

structure OpsState (T E : Type) where
  control : Control E
  history : List (OperationEvent T E)

def OpsState.start : OpsState T E := ⟨.loop 0, []⟩

/-- What happens next. -/
inductive Turn (E : Type) where
  | proceeds
  | throws (failure : E)
  | rejects (promise : ℕ)
  | completes (promise : ℕ) (outcome : Except E Unit)

/-- The state after a turn that is possible. Callers that name no concurrency get one of ten. -/
def parallelChunkOps (items : List T) (concurrency : ℕ) (turn : Turn E) (state : OpsState T E) :
    Option (OpsState T E) :=
  match turn, state.control with
  | .proceeds, .loop i =>
      if i < items.length then some { state with control := .calling i [] }
      else some { state with control := .returned (.ok ()) }
  | .proceeds, .calling i promises =>
      let batch := items.extract i (i + concurrency)
      match batch[promises.length]? with
      | some item => some {
          control := .calling i (promises ++ [(arguments state.history).length])
          history := state.history ++ [.called (item, i + promises.length)] }
      | none => some { state with control := .awaiting i promises }
  | .throws failure, .calling i promises =>
      let batch := items.extract i (i + concurrency)
      match batch[promises.length]? with
      | some item => some {
          control := .returned (.error failure)
          -- the operation has been called and gives back no promise
          history := state.history ++ [.called (item, i + promises.length)] ++
            [.settled (arguments state.history).length (.error failure)] }
      | none => none
  | .proceeds, .awaiting i promises =>
      if promises.all (isFulfilled state.history) then
        some { state with control := .loop (i + concurrency) }
      else none
  | .rejects promise, .awaiting _ promises =>
      match promises.contains promise, outcomeOf state.history promise with
      | true, some (.error failure) => some { state with control := .returned (.error failure) }
      | _, _ => none
  | .completes promise outcome, _ =>
      if promise ∈ pending state.history then
        some { state with history := state.history ++ [.settled promise outcome] }
      else none
  | _, _ => none

/-- A turn leads from one state to another. -/
def Leads (items : List T) (concurrency : ℕ) (state next : OpsState T E) : Prop :=
  ∃ turn, parallelChunkOps items concurrency turn state = some next

variable {items : List T} {concurrency : ℕ}

/-- What a turn can do. -/
inductive Move (items : List T) (concurrency : ℕ) : OpsState T E → OpsState T E → Prop where
  | enter {i : ℕ} {history : List (OperationEvent T E)} (more : i < items.length) :
      Move items concurrency ⟨.loop i, history⟩ ⟨.calling i [], history⟩
  | finish {i : ℕ} {history : List (OperationEvent T E)} (ended : items.length ≤ i) :
      Move items concurrency ⟨.loop i, history⟩ ⟨.returned (.ok ()), history⟩
  | call {i : ℕ} {promises : List ℕ} {history : List (OperationEvent T E)} {item : T}
      (next : (items.extract i (i + concurrency))[promises.length]? = some item) :
      Move items concurrency ⟨.calling i promises, history⟩
        ⟨.calling i (promises ++ [(arguments history).length]),
          history ++ [.called (item, i + promises.length)]⟩
  | await {i : ℕ} {promises : List ℕ} {history : List (OperationEvent T E)}
      (ended : (items.extract i (i + concurrency))[promises.length]? = none) :
      Move items concurrency ⟨.calling i promises, history⟩ ⟨.awaiting i promises, history⟩
  | throw {i : ℕ} {promises : List ℕ} {history : List (OperationEvent T E)} {item : T}
      (next : (items.extract i (i + concurrency))[promises.length]? = some item) (failure : E) :
      Move items concurrency ⟨.calling i promises, history⟩
        ⟨.returned (.error failure), history ++ [.called (item, i + promises.length)] ++
          [.settled (arguments history).length (.error failure)]⟩
  | resume {i : ℕ} {promises : List ℕ} {history : List (OperationEvent T E)}
      (fulfilled : ∀ promise ∈ promises, isFulfilled history promise = true) :
      Move items concurrency ⟨.awaiting i promises, history⟩ ⟨.loop (i + concurrency), history⟩
  | reject {i promise : ℕ} {promises : List ℕ} {history : List (OperationEvent T E)} {failure : E}
      (member : promise ∈ promises) (rejected : outcomeOf history promise = some (.error failure)) :
      Move items concurrency ⟨.awaiting i promises, history⟩ ⟨.returned (.error failure), history⟩
  | complete {control : Control E} {promise : ℕ} {history : List (OperationEvent T E)}
      (waiting : promise ∈ pending history) (outcome : Except E Unit) :
      Move items concurrency ⟨control, history⟩ ⟨control, history ++ [.settled promise outcome]⟩

theorem Leads.move {state next : OpsState T E} (leads : Leads items concurrency state next) :
    Move items concurrency state next := by
  obtain ⟨turn, taken⟩ := leads
  obtain ⟨control, history⟩ := state
  unfold parallelChunkOps at taken
  cases turn with
  | proceeds =>
      cases control with
      | loop i =>
          dsimp only at taken
          split at taken
          · rename_i more
            cases taken
            exact .enter more
          · rename_i ended
            cases taken
            exact .finish (Nat.not_lt.mp ended)
      | calling i promises =>
          dsimp only at taken
          split at taken
          · rename_i item next
            cases taken
            exact .call next
          · rename_i ended
            cases taken
            exact .await ended
      | awaiting i promises =>
          dsimp only at taken
          split at taken
          · rename_i fulfilled
            cases taken
            exact .resume (List.all_eq_true.mp fulfilled)
          · nomatch taken
      | returned outcome => nomatch taken
  | throws failure =>
      cases control with
      | calling i promises =>
          dsimp only at taken
          split at taken
          · rename_i item next
            cases taken
            exact .throw next failure
          · nomatch taken
      | _ => nomatch taken
  | rejects promise =>
      cases control with
      | awaiting i promises =>
          dsimp only at taken
          split at taken
          · rename_i member rejected
            cases taken
            exact .reject (List.contains_iff_mem.mp member) rejected
          · nomatch taken
      | _ => nomatch taken
  | completes promise outcome =>
      dsimp only at taken
      split at taken
      · rename_i waiting
        cases taken
        exact .complete waiting outcome
      · nomatch taken

/-! ## Every run ends -/

/-- A wave has an item for each position below the concurrency, as long as the list has one. -/
theorem getElem?_batch (items : List T) (i concurrency j : ℕ) :
    (items.extract i (i + concurrency))[j]? = if j < concurrency then items[i + j]? else none := by
  rw [List.extract_eq_take_drop, Nat.add_sub_cancel_left, List.getElem?_take, List.getElem?_drop]

/-- How many turns the function may take from here on. -/
def turnsLeft (items : List T) (concurrency : ℕ) : Control E → ℕ
  | .loop i => 5 * (items.length - i) + 1
  | .calling i promises => 5 * (items.length - (i + concurrency)) +
      2 * (min concurrency (items.length - i) - promises.length) + 3
  | .awaiting i _ => 5 * (items.length - (i + concurrency)) + 2
  | .returned _ => 0

/-- The turns of the function, and one for each started operation. -/
def measure (items : List T) (concurrency : ℕ) (state : OpsState T E) : ℕ :=
  (pending state.history).card + turnsLeft items concurrency state.control

theorem card_pending_called (history : List (OperationEvent T E)) (argument : T × ℕ) :
    (pending (history ++ [.called argument])).card ≤ (pending history).card + 1 :=
  (Finset.card_le_card (pending_called_subset history argument)).trans (Finset.card_insert_le _ _)

/-- What is left of a wave whose next item there is. -/
theorem lt_of_getElem?_batch {i j : ℕ} {item : T}
    (next : (items.extract i (i + concurrency))[j]? = some item) :
    j < min concurrency (items.length - i) := by
  rw [getElem?_batch] at next
  split at next
  · rename_i room
    have inside := (List.getElem?_eq_some_iff.mp next).1
    omega
  · nomatch next

theorem Move.decreases (positive : 1 ≤ concurrency) {state next : OpsState T E}
    (move : Move items concurrency state next) :
    measure items concurrency next < measure items concurrency state := by
  cases move with
  | enter more =>
      simp only [measure, turnsLeft, List.length_nil]
      omega
  | finish ended =>
      simp only [measure, turnsLeft]
      omega
  | @call i promises history item next =>
      have started := card_pending_called history (item, i + promises.length)
      have room := lt_of_getElem?_batch next
      simp only [measure, turnsLeft, List.length_append, List.length_singleton]
      omega
  | await ended =>
      simp only [measure, turnsLeft]
      omega
  | @throw i promises history item next failure =>
      have started := card_pending_called history (item, i + promises.length)
      have settled := Finset.card_le_card (Finset.erase_subset (arguments history).length
        (pending (history ++ [.called (item, i + promises.length)])))
      simp only [measure, turnsLeft, pending_settled]
      omega
  | resume fulfilled =>
      simp only [measure, turnsLeft]
      omega
  | reject member rejected =>
      simp only [measure, turnsLeft]
      omega
  | complete waiting outcome =>
      have fewer := Finset.card_erase_lt_of_mem waiting
      simp only [measure, pending_settled]
      omega

/-- **No run goes on for ever.** -/
theorem wellFounded_leads (positive : 1 ≤ concurrency) :
    WellFounded fun next state : OpsState T E => Leads items concurrency state next :=
  Subrelation.wf (fun leads => leads.move.decreases positive)
    (InvImage.wf (measure items concurrency) Nat.lt_wfRel.wf)

/-! ## The waves of a history -/

/-- A rejection, and a call of a later wave. -/
def StartsLater (concurrency : ℕ) (rejection call : OperationEvent T E) : Prop :=
  ∃ promise failure argument, rejection = .settled promise (.error failure) ∧
    call = .called argument ∧ promise / concurrency < argument.2 / concurrency

/-- A history goes in waves. -/
structure Waves (items : List T) (concurrency : ℕ) (history : List (OperationEvent T E)) : Prop where
  lawful : Lawful history
  /-- The calls are those for the first items, each with its own index. -/
  calls : arguments history <+: items.zipIdx
  /-- Before a call the operations of the earlier waves have fulfilled. -/
  waits : ∀ before argument, before ++ [.called argument] <+: history →
    ∀ earlier < argument.2 / concurrency * concurrency, isFulfilled before earlier = true
  /-- After a rejection no operation of a later wave is called. -/
  stops : history.Pairwise fun rejection call => ¬ StartsLater concurrency rejection call

/-- A wave has begun, and those before it have fulfilled. -/
structure Begun (concurrency i : ℕ) (history : List (OperationEvent T E)) : Prop where
  boundary : concurrency ∣ i
  fulfilled : ∀ promise < i, isFulfilled history promise = true
  begun : i ≤ (arguments history).length
  within : (arguments history).length ≤ i + concurrency

/-- A promise that has not fulfilled is none of an earlier wave. -/
theorem Begun.le {i promise : ℕ} {history : List (OperationEvent T E)}
    (begun : Begun concurrency i history) (other : ¬ isFulfilled history promise = true) :
    i ≤ promise := by
  by_contra before
  exact other (begun.fulfilled promise (Nat.lt_of_not_le before))

theorem add_div_of_dvd {i j : ℕ} (boundary : concurrency ∣ i) (room : j < concurrency) :
    (i + j) / concurrency = i / concurrency := by
  obtain ⟨wave, rfl⟩ := boundary
  have positive : 0 < concurrency := by omega
  rw [Nat.mul_add_div positive, Nat.div_eq_of_lt room, Nat.mul_div_cancel_left wave positive,
    Nat.add_zero]

theorem Waves.nil : Waves items concurrency ([] : List (OperationEvent T E)) where
  lawful := .nil
  calls := List.nil_prefix
  waits before argument isPrefix := by
    have empty := List.prefix_nil.mp isPrefix
    simp at empty
  stops := .nil

/-- The next call of a wave keeps the history in waves. -/
theorem Waves.called {history : List (OperationEvent T E)} {i j : ℕ} {item : T}
    (waves : Waves items concurrency history) (begun : Begun concurrency i history)
    (number : (arguments history).length = i + j) (room : j < concurrency)
    (next : items[i + j]? = some item) :
    Waves items concurrency (history ++ [.called (item, i + j)]) where
  lawful := waves.lawful.called _
  calls := by
    have own : items.zipIdx[(arguments history).length]? = some (item, i + j) := by
      rw [List.getElem?_zipIdx, number, next]
      simp
    have taken := List.prefix_iff_eq_take.mp waves.calls
    rw [arguments_called, List.prefix_iff_eq_take, List.length_append, List.length_singleton,
      List.take_add_one, own, ← taken]
    rfl
  waits before argument isPrefix earlier below := by
    rcases List.prefix_concat_iff.mp isPrefix with same | sooner
    · obtain ⟨rfl, last⟩ := List.append_inj' same rfl
      obtain rfl := PromiseEvent.called.inj (List.cons.inj last).1
      rw [add_div_of_dvd begun.boundary room, Nat.div_mul_cancel begun.boundary] at below
      exact begun.fulfilled earlier below
    · exact waves.waits before argument sooner earlier below
  stops := by
    refine List.pairwise_append.mpr ⟨waves.stops, List.pairwise_singleton _ _, ?_⟩
    rintro rejection member call last ⟨promise, failure, argument, rfl, rfl, later⟩
    obtain rfl := PromiseEvent.called.inj (List.mem_singleton.mp last)
    rw [add_div_of_dvd begun.boundary room] at later
    -- the rejected operation is none of an earlier wave
    have rejected := waves.lawful.once promise _ member
    have after : i ≤ promise :=
      begun.le fun fulfilled => (outcomeOf_ne_of_isFulfilled fulfilled).2 failure rejected
    exact absurd later (Nat.not_lt.mpr (Nat.div_le_div_right after))

theorem Waves.settled {history : List (OperationEvent T E)} {promise : ℕ}
    (waves : Waves items concurrency history) (waiting : promise ∈ pending history)
    (outcome : Except E Unit) :
    Waves items concurrency (history ++ [.settled promise outcome]) where
  lawful := waves.lawful.settled waiting outcome
  calls := by
    rw [arguments_settled]
    exact waves.calls
  waits before argument isPrefix earlier below := by
    rcases List.prefix_concat_iff.mp isPrefix with same | sooner
    · exact nomatch (List.cons.inj (List.append_inj' same rfl).2).1
    · exact waves.waits before argument sooner earlier below
  stops := by
    refine List.pairwise_append.mpr ⟨waves.stops, List.pairwise_singleton _ _, ?_⟩
    rintro rejection member call last ⟨_, _, argument, rfl, rfl, later⟩
    exact nomatch List.mem_singleton.mp last

/-! ## What holds in every state -/

/-- The function is in a wave and has collected the promises of its calls so far. -/
structure InWave (concurrency i : ℕ) (promises : List ℕ) (history : List (OperationEvent T E)) :
    Prop extends Begun concurrency i history where
  collected : promises = List.range' i promises.length
  number : (arguments history).length = i + promises.length

/-- What the function knows where it stands. -/
def Stands (items : List T) (concurrency : ℕ) (history : List (OperationEvent T E)) :
    Control E → Prop
  | .loop i => concurrency ∣ i ∧ (arguments history).length = min i items.length ∧
      ∀ promise < (arguments history).length, isFulfilled history promise = true
  | .calling i promises => InWave concurrency i promises history
  | .awaiting i promises => InWave concurrency i promises history ∧
      (arguments history).length = min (i + concurrency) items.length
  | .returned (.ok _) => (arguments history).length = items.length ∧
      ∀ promise < (arguments history).length, isFulfilled history promise = true
  | .returned (.error failure) => (∃ i, Begun concurrency i history) ∧
      ∃ promise, outcomeOf history promise = some (.error failure)

theorem Begun.settled {i : ℕ} {history : List (OperationEvent T E)}
    (begun : Begun concurrency i history) (promise : ℕ) (outcome : Except E Unit) :
    Begun concurrency i (history ++ [.settled promise outcome]) where
  boundary := begun.boundary
  fulfilled earlier below := isFulfilled_append (begun.fulfilled earlier below) _
  begun := by
    rw [arguments_settled]
    exact begun.begun
  within := by
    rw [arguments_settled]
    exact begun.within

theorem InWave.settled {i : ℕ} {promises : List ℕ} {history : List (OperationEvent T E)}
    (wave : InWave concurrency i promises history) (promise : ℕ) (outcome : Except E Unit) :
    InWave concurrency i promises (history ++ [.settled promise outcome]) where
  toBegun := wave.toBegun.settled promise outcome
  collected := wave.collected
  number := by
    rw [arguments_settled]
    exact wave.number

theorem InWave.called {i : ℕ} {promises : List ℕ} {history : List (OperationEvent T E)}
    (wave : InWave concurrency i promises history) (room : promises.length < concurrency)
    (argument : T × ℕ) :
    InWave concurrency i (promises ++ [(arguments history).length])
      (history ++ [.called argument]) where
  boundary := wave.boundary
  fulfilled earlier below := isFulfilled_append (wave.fulfilled earlier below) _
  begun := by
    have number := wave.number
    rw [arguments_called, List.length_append]
    omega
  within := by
    have number := wave.number
    rw [arguments_called, List.length_append, List.length_singleton]
    omega
  collected := by
    rw [List.length_append, List.length_singleton, List.range'_concat, Nat.one_mul, ← wave.number,
      ← wave.collected]
  number := by
    rw [arguments_called, List.length_append, List.length_append, wave.number, Nat.add_assoc]
    rfl

theorem Stands.settled {history : List (OperationEvent T E)} {control : Control E}
    (stands : Stands items concurrency history control) (promise : ℕ) (outcome : Except E Unit) :
    Stands items concurrency (history ++ [.settled promise outcome]) control := by
  have kept {bound : ℕ} (fulfilled : ∀ earlier < bound, isFulfilled history earlier = true) :
      ∀ earlier < bound,
        isFulfilled (history ++ [.settled promise outcome]) earlier = true :=
    fun earlier below => isFulfilled_append (fulfilled earlier below) _
  match control, stands with
  | .loop i, ⟨boundary, number, fulfilled⟩ =>
      rw [Stands, arguments_settled]
      exact ⟨boundary, number, kept fulfilled⟩
  | .calling i promises, wave => exact InWave.settled wave promise outcome
  | .awaiting i promises, ⟨wave, full⟩ =>
      rw [Stands, arguments_settled]
      exact ⟨wave.settled promise outcome, full⟩
  | .returned (.ok _), ⟨number, fulfilled⟩ =>
      rw [Stands, arguments_settled]
      exact ⟨number, kept fulfilled⟩
  | .returned (.error failure), ⟨⟨i, begun⟩, rejected, settled⟩ =>
      exact ⟨⟨i, begun.settled promise outcome⟩, rejected, outcomeOf_append settled _⟩

/-- **A turn keeps the history in waves**, and the function knows where it stands. -/
theorem Move.keeps {state next : OpsState T E} (move : Move items concurrency state next)
    (waves : Waves items concurrency state.history)
    (stands : Stands items concurrency state.history state.control) :
    Waves items concurrency next.history ∧ Stands items concurrency next.history next.control := by
  cases move with
  | @enter i history more =>
      obtain ⟨boundary, number, fulfilled⟩ := stands
      rw [Nat.min_eq_left more.le] at number
      have begun : Begun concurrency i history :=
        ⟨boundary, number ▸ fulfilled, number.ge, number.le.trans (Nat.le_add_right i concurrency)⟩
      exact ⟨waves, begun, rfl, number⟩
  | @finish i history ended =>
      obtain ⟨boundary, number, fulfilled⟩ := stands
      rw [Nat.min_eq_right ended] at number
      exact ⟨waves, number, fulfilled⟩
  | @call i promises history item next =>
      have wave : InWave concurrency i promises history := stands
      rw [getElem?_batch] at next
      split at next
      · rename_i room
        exact ⟨waves.called wave.toBegun wave.number room next, wave.called room _⟩
      · nomatch next
  | @await i promises history ended =>
      have wave : InWave concurrency i promises history := stands
      have inside : (arguments history).length ≤ items.zipIdx.length := waves.calls.length_le
      rw [List.length_zipIdx] at inside
      have within := wave.within
      have number := wave.number
      refine ⟨waves, wave, ?_⟩
      show (arguments history).length = min (i + concurrency) items.length
      rw [getElem?_batch] at ended
      split at ended
      · have beyond := List.getElem?_eq_none_iff.mp ended
        omega
      · omega
  | @throw i promises history item next failure =>
      have wave : InWave concurrency i promises history := stands
      rw [getElem?_batch] at next
      split at next
      · rename_i room
        have called := waves.called wave.toBegun wave.number room next
        have waiting := mem_pending_called waves.lawful (item, i + promises.length)
        refine ⟨called.settled waiting _, ⟨i, ?_⟩, (arguments history).length, ?_⟩
        · exact (wave.called room _).toBegun.settled _ _
        · rw [outcomeOf_settled, (mem_pending.mp waiting).2, if_pos rfl]
          rfl
      · nomatch next
  | @resume i promises history fulfilled =>
      obtain ⟨wave, full⟩ := stands
      refine ⟨waves, ?_, full, ?_⟩
      · exact (Nat.dvd_add_right wave.boundary).mpr (Nat.dvd_refl concurrency)
      · intro promise below
        rcases Nat.lt_or_ge promise i with earlier | here
        · exact wave.toBegun.fulfilled promise earlier
        · rw [wave.number] at below
          refine fulfilled promise ?_
          rw [wave.collected]
          exact List.mem_range'_1.mpr ⟨here, below⟩
  | @reject i promise promises history failure member rejected =>
      obtain ⟨wave, -⟩ := stands
      exact ⟨waves, ⟨i, wave.toBegun⟩, promise, rejected⟩
  | @complete control promise history waiting outcome =>
      exact ⟨waves.settled waiting outcome, stands.settled promise outcome⟩

/-! ## Runs -/

/-- What every run of the function does. -/
structure RunsInWaves (items : List T) (concurrency : ℕ) (state : OpsState T E) : Prop
    extends Waves items concurrency state.history where
  inFlight : (pending state.history).card ≤ concurrency
  /-- The operations that have not completed are of one wave. -/
  oneWave : ∀ first ∈ pending state.history, ∀ second ∈ pending state.history,
    first / concurrency = second / concurrency
  /-- When the function resolves, it has called the operation for each item, and all have
  fulfilled. -/
  resolves : state.control = .returned (.ok ()) → arguments state.history = items.zipIdx ∧
    ∀ promise < items.length, isFulfilled state.history promise = true
  /-- The function rejects with the failure of an operation. -/
  rejects : ∀ failure, state.control = .returned (.error failure) →
    ∃ promise, outcomeOf state.history promise = some (.error failure)
  /-- When an operation has rejected, the function does not resolve. -/
  fails : ∀ promise failure, outcomeOf state.history promise = some (.error failure) →
    state.control ≠ .returned (.ok ())
  /-- When nothing more can happen, the function has returned. -/
  returns : (∀ next, ¬ Leads items concurrency state next) →
    ∃ outcome, state.control = .returned outcome
  /-- No run goes on from here for ever. -/
  halts : Acc (fun next state => Leads items concurrency state next) state

theorem Begun.pending_subset {i : ℕ} {history : List (OperationEvent T E)}
    (begun : Begun concurrency i history) : pending history ⊆ Finset.Ico i (i + concurrency) := by
  intro promise waiting
  obtain ⟨started, unsettled⟩ := mem_pending.mp waiting
  have after : i ≤ promise :=
    begun.le fun fulfilled => (outcomeOf_ne_of_isFulfilled fulfilled).1 unsettled
  exact Finset.mem_Ico.mpr ⟨after, started.trans_le begun.within⟩

/-- The operations in flight are those of one wave. -/
theorem Stands.pending_subset {history : List (OperationEvent T E)} {control : Control E}
    (stands : Stands items concurrency history control) :
    ∃ i, concurrency ∣ i ∧ pending history ⊆ Finset.Ico i (i + concurrency) := by
  match control, stands with
  | .loop i, ⟨boundary, _, fulfilled⟩ =>
      exact ⟨i, boundary, pending_eq_empty fulfilled ▸ Finset.empty_subset _⟩
  | .calling i promises, wave => exact ⟨i, wave.boundary, wave.toBegun.pending_subset⟩
  | .awaiting i promises, ⟨wave, _⟩ => exact ⟨i, wave.boundary, wave.toBegun.pending_subset⟩
  | .returned (.ok _), ⟨_, fulfilled⟩ =>
      exact ⟨0, Nat.dvd_zero _, pending_eq_empty fulfilled ▸ Finset.empty_subset _⟩
  | .returned (.error failure), ⟨⟨i, begun⟩, _⟩ => exact ⟨i, begun.boundary, begun.pending_subset⟩

/-- As long as the function has not returned, something can happen. -/
theorem Stands.returned_of_stuck {state : OpsState T E}
    (stands : Stands items concurrency state.history state.control)
    (stuck : ∀ next, ¬ Leads items concurrency state next) :
    ∃ outcome, state.control = .returned outcome := by
  have impossible (turn : Turn E) : parallelChunkOps items concurrency turn state = none :=
    Option.eq_none_iff_forall_ne_some.mpr fun next taken => stuck next ⟨turn, taken⟩
  have proceeds := impossible .proceeds
  obtain ⟨control, history⟩ := state
  cases control with
  | loop i =>
      unfold parallelChunkOps at proceeds
      dsimp only at proceeds
      split at proceeds <;> nomatch proceeds
  | calling i promises =>
      unfold parallelChunkOps at proceeds
      dsimp only at proceeds
      split at proceeds <;> nomatch proceeds
  | awaiting i promises =>
      obtain ⟨wave, -⟩ := stands
      exfalso
      unfold parallelChunkOps at proceeds
      dsimp only at proceeds
      split at proceeds
      · nomatch proceeds
      · rename_i unfulfilled
        obtain ⟨promise, member, still⟩ :
            ∃ promise ∈ promises, isFulfilled history promise = false := by
          simpa using unfulfilled
        cases settled : outcomeOf history promise with
        | none =>
            have started : promise < (arguments history).length := by
              rw [wave.number]
              exact (List.mem_range'_1.mp (wave.collected ▸ member)).2
            have waiting := mem_pending.mpr ⟨started, settled⟩
            have completes := impossible (.completes promise (.ok ()))
            simp [parallelChunkOps, waiting] at completes
        | some outcome =>
            cases outcome with
            | ok value => simp [isFulfilled, settled] at still
            | error failure =>
                have rejects := impossible (.rejects promise)
                simp [parallelChunkOps, member, settled] at rejects
  | returned outcome => exact ⟨outcome, rfl⟩

/-- **Every run goes in waves**, whatever the operations do. -/
theorem parallelChunkOps_runsInWaves (items : List T) {concurrency : ℕ} (positive : 1 ≤ concurrency)
    {state : OpsState T E} (run : ReflTransGen (Leads items concurrency) .start state) :
    RunsInWaves items concurrency state := by
  have known : Waves items concurrency state.history ∧
      Stands items concurrency state.history state.control := by
    induction run with
    | refl => exact ⟨.nil, Nat.dvd_zero _, (Nat.zero_min _).symm, fun _ below => nomatch below⟩
    | tail _ leads ih => exact leads.move.keeps ih.1 ih.2
  obtain ⟨waves, stands⟩ := known
  obtain ⟨i, boundary, subset⟩ := stands.pending_subset
  have inWave (promise : ℕ) (waiting : promise ∈ pending state.history) :
      promise / concurrency = i / concurrency := by
    obtain ⟨after, below⟩ := Finset.mem_Ico.mp (subset waiting)
    have room : promise - i < concurrency := by omega
    rw [← add_div_of_dvd boundary room, Nat.add_sub_cancel' after]
  exact {
    toWaves := waves
    inFlight := by
      have few := Finset.card_le_card subset
      rw [Nat.card_Ico, Nat.add_sub_cancel_left] at few
      exact few
    oneWave := fun first here second there => (inWave first here).trans (inWave second there).symm
    resolves := by
      intro returned
      rw [returned] at stands
      obtain ⟨number, fulfilled⟩ := stands
      exact ⟨waves.calls.eq_of_length (number.trans List.length_zipIdx.symm), number ▸ fulfilled⟩
    fails := by
      intro promise failure rejected returned
      rw [returned] at stands
      obtain ⟨-, fulfilled⟩ := stands
      have started := waves.lawful.started promise _ rejected
      exact (outcomeOf_ne_of_isFulfilled (fulfilled promise started)).2 failure rejected
    rejects := by
      intro failure returned
      rw [returned] at stands
      exact stands.2
    returns := stands.returned_of_stuck
    halts := (wellFounded_leads positive).apply state }

theorem run_of_turns (turns : List (Turn E)) {state final : OpsState T E}
    (taken : turns.foldlM (fun state turn => parallelChunkOps items concurrency turn state) state =
      some final) : ReflTransGen (Leads items concurrency) state final := by
  induction turns generalizing state with
  | nil => exact Option.some.inj taken ▸ .refl
  | cons turn turns ih =>
      rw [List.foldlM_cons] at taken
      obtain ⟨next, first, rest⟩ := Option.bind_eq_some_iff.mp taken
      exact .head ⟨turn, first⟩ (ih rest)

/-- Two waves for three items. The operations of the first one complete in the other order, that of
the second one rejects. -/
theorem runsInWaves_threeItems : RunsInWaves [7, 8, 9] 2
    ⟨.returned (.error "gone"), [.called (7, 0), .called (8, 1), .settled 1 (.ok ()),
      .settled 0 (.ok ()), .called (9, 2), .settled 2 (.error "gone")]⟩ :=
  parallelChunkOps_runsInWaves [7, 8, 9] (by decide)
    (run_of_turns [.proceeds, .proceeds, .proceeds, .proceeds, .completes 1 (.ok ()),
      .completes 0 (.ok ()), .proceeds, .proceeds, .proceeds, .proceeds,
      .completes 2 (.error "gone"), .rejects 2] rfl)

end DistributedFileStorage.Performance
