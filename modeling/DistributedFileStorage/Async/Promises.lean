import Mathlib.Data.Finset.Card
import Mathlib.Data.Finset.Range

/-!
# Promises

An asynchronous function that is called gives back a promise, which settles later or never. What
callers can tell is a history: each call with its argument, and each settling with its outcome. The
promise of a call is named by the number of the calls before it.

A history is lawful when a promise settles after its call and at most once.
-/

set_option autoImplicit false

namespace DistributedFileStorage.Async

variable {α β E : Type}

/-- What happens to the promises of a function with arguments in `α` and values in `β`. -/
inductive PromiseEvent (α β E : Type) where
  | called (argument : α)
  | settled (promise : ℕ) (outcome : Except E β)
  deriving DecidableEq

namespace PromiseEvent

/-- The argument of a call. -/
def argument? : PromiseEvent α β E → Option α
  | called argument => some argument
  | settled _ _ => none

/-- The outcome that an event gives to a promise. -/
def outcomeFor (promise : ℕ) : PromiseEvent α β E → Option (Except E β)
  | called _ => none
  | settled other outcome => if other = promise then some outcome else none

end PromiseEvent

open PromiseEvent

/-- The arguments of the calls so far. -/
def arguments (history : List (PromiseEvent α β E)) : List α := history.filterMap argument?

/-- What a promise has settled to. -/
def outcomeOf (history : List (PromiseEvent α β E)) (promise : ℕ) : Option (Except E β) :=
  history.findSome? (outcomeFor promise)

/-- A promise has fulfilled. -/
def isFulfilled (history : List (PromiseEvent α β E)) (promise : ℕ) : Bool :=
  match outcomeOf history promise with
  | some (.ok _) => true
  | _ => false

/-- The promises that have not settled. -/
def pending (history : List (PromiseEvent α β E)) : Finset ℕ :=
  {promise ∈ Finset.range (arguments history).length | (outcomeOf history promise).isNone}

variable {history : List (PromiseEvent α β E)}

@[simp] theorem arguments_called (history : List (PromiseEvent α β E)) (argument : α) :
    arguments (history ++ [.called argument]) = arguments history ++ [argument] :=
  List.filterMap_append

@[simp] theorem arguments_settled (history : List (PromiseEvent α β E)) (promise : ℕ)
    (outcome : Except E β) :
    arguments (history ++ [.settled promise outcome]) = arguments history := by
  unfold arguments
  rw [List.filterMap_append]
  exact List.append_nil _

@[simp] theorem outcomeOf_called (history : List (PromiseEvent α β E)) (argument : α)
    (promise : ℕ) :
    outcomeOf (history ++ [.called argument]) promise = outcomeOf history promise := by
  unfold outcomeOf
  rw [List.findSome?_append]
  exact Option.or_none

theorem outcomeOf_settled (history : List (PromiseEvent α β E)) (other promise : ℕ)
    (outcome : Except E β) :
    outcomeOf (history ++ [.settled other outcome]) promise =
      (outcomeOf history promise).or (if other = promise then some outcome else none) := by
  unfold outcomeOf
  rw [List.findSome?_append]
  congr 1
  unfold List.findSome?
  split <;> simp_all [outcomeFor]

/-- An outcome stays what it is. -/
theorem outcomeOf_append {promise : ℕ} {outcome : Except E β}
    (settled : outcomeOf history promise = some outcome) (later : List (PromiseEvent α β E)) :
    outcomeOf (history ++ later) promise = some outcome := by
  unfold outcomeOf at settled ⊢
  rw [List.findSome?_append, settled]
  rfl

theorem isFulfilled_iff {promise : ℕ} :
    isFulfilled history promise = true ↔ ∃ value, outcomeOf history promise = some (.ok value) := by
  unfold isFulfilled
  split <;> simp_all

/-- What has fulfilled is not pending and has not rejected. -/
theorem outcomeOf_ne_of_isFulfilled {promise : ℕ} (fulfilled : isFulfilled history promise = true) :
    outcomeOf history promise ≠ none ∧
      ∀ failure, outcomeOf history promise ≠ some (.error failure) := by
  obtain ⟨value, settled⟩ := isFulfilled_iff.mp fulfilled
  rw [settled]
  exact ⟨Option.some_ne_none _, fun _ same => nomatch Option.some.inj same⟩

theorem isFulfilled_append {promise : ℕ} (fulfilled : isFulfilled history promise = true)
    (later : List (PromiseEvent α β E)) : isFulfilled (history ++ later) promise = true := by
  obtain ⟨value, settled⟩ := isFulfilled_iff.mp fulfilled
  exact isFulfilled_iff.mpr ⟨value, outcomeOf_append settled later⟩

theorem mem_pending {promise : ℕ} : promise ∈ pending history ↔
    promise < (arguments history).length ∧ outcomeOf history promise = none := by
  unfold pending
  rw [Finset.mem_filter, Finset.mem_range, Option.isNone_iff_eq_none]

/-- Nothing is pending when everything has fulfilled. -/
theorem pending_eq_empty
    (fulfilled : ∀ promise < (arguments history).length, isFulfilled history promise = true) :
    pending history = ∅ := by
  refine Finset.eq_empty_of_forall_notMem fun promise waiting => ?_
  obtain ⟨started, unsettled⟩ := mem_pending.mp waiting
  exact (outcomeOf_ne_of_isFulfilled (fulfilled promise started)).1 unsettled

/-! ## Lawful histories -/

/-- A promise settles after its call, and its outcome is the one it has settled to. -/
structure Lawful (history : List (PromiseEvent α β E)) : Prop where
  started : ∀ promise outcome, outcomeOf history promise = some outcome →
    promise < (arguments history).length
  once : ∀ promise outcome, .settled promise outcome ∈ history →
    outcomeOf history promise = some outcome

namespace Lawful

theorem nil : Lawful ([] : List (PromiseEvent α β E)) where
  started _ _ none := nomatch none
  once _ _ member := nomatch member

theorem called (lawful : Lawful history) (argument : α) :
    Lawful (history ++ [.called argument]) where
  started promise outcome settled := by
    rw [outcomeOf_called] at settled
    have before := lawful.started promise outcome settled
    rw [arguments_called, List.length_append]
    exact Nat.lt_add_right _ before
  once promise outcome member := by
    rw [outcomeOf_called]
    rcases List.mem_append.mp member with earlier | last
    · exact lawful.once promise outcome earlier
    · exact nomatch List.mem_singleton.mp last

theorem settled (lawful : Lawful history) {promise : ℕ} (waiting : promise ∈ pending history)
    (outcome : Except E β) : Lawful (history ++ [.settled promise outcome]) where
  started other result settled := by
    rw [arguments_settled]
    rw [outcomeOf_settled] at settled
    by_cases same : promise = other
    · exact same ▸ (mem_pending.mp waiting).1
    · rw [if_neg same, Option.or_none] at settled
      exact lawful.started other result settled
  once other result member := by
    rcases List.mem_append.mp member with earlier | last
    · exact outcomeOf_append (lawful.once other result earlier) _
    · obtain ⟨rfl, rfl⟩ := PromiseEvent.settled.inj (List.mem_singleton.mp last)
      rw [outcomeOf_settled, (mem_pending.mp waiting).2, if_pos rfl]
      rfl

end Lawful

/-- A call adds its own promise to the pending ones at most. -/
theorem pending_called_subset (history : List (PromiseEvent α β E)) (argument : α) :
    pending (history ++ [.called argument]) ⊆
      insert (arguments history).length (pending history) := by
  intro promise member
  obtain ⟨started, waits⟩ := mem_pending.mp member
  rw [arguments_called, List.length_append, List.length_singleton] at started
  rw [outcomeOf_called] at waits
  rw [Finset.mem_insert, mem_pending]
  rcases Nat.lt_succ_iff_lt_or_eq.mp started with earlier | same
  · exact .inr ⟨earlier, waits⟩
  · exact .inl same

/-- The promise of a call is pending after it. -/
theorem mem_pending_called (lawful : Lawful history) (argument : α) :
    (arguments history).length ∈ pending (history ++ [.called argument]) := by
  rw [mem_pending, arguments_called, outcomeOf_called, List.length_append, List.length_singleton]
  refine ⟨Nat.lt_succ_self _, ?_⟩
  by_contra settled
  obtain ⟨outcome, settled⟩ := Option.ne_none_iff_exists'.mp settled
  exact absurd (lawful.started _ _ settled) (Nat.lt_irrefl _)

/-- A promise that settles is pending no longer. -/
theorem pending_settled (history : List (PromiseEvent α β E)) (promise : ℕ)
    (outcome : Except E β) :
    pending (history ++ [.settled promise outcome]) = (pending history).erase promise := by
  ext other
  rw [Finset.mem_erase, mem_pending, mem_pending, arguments_settled, outcomeOf_settled]
  by_cases same : promise = other
  · simp [same]
  · simp [same, Ne.symm same]

end DistributedFileStorage.Async
