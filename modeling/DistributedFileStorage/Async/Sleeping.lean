import DistributedFileStorage.Async.Faults
import Mathlib.Algebra.Order.Field.Basic
import Mathlib.Algebra.Order.Ring.Rat

/-!
# Programs that wait

A program over some calls becomes one over the same calls and a timer. Waiting always ends, and
what it does to the state is a relation, for instance that a clock has moved on by the duration at
least.

`Semantics.counting` counts the calls of some kind.
-/

set_option autoImplicit false

namespace DistributedFileStorage.Async

open Program

variable {I : Interface} {S α : Type}

/-! ## Waiting -/

@[reducible] def Interface.SleepingResult (I : Interface) : I.Op ⊕ ℚ → Type
  | .inl op => I.Result op
  | .inr _ => Unit

/-- The calls, and a timer for a number of milliseconds. -/
abbrev Interface.sleeping (I : Interface) : Interface := ⟨I.Op ⊕ ℚ, I.SleepingResult, I.Failure⟩

namespace Program

/-- The program, which does not use the timer. -/
def awake : Program I α → Program I.sleeping α
  | .done outcome => .done outcome
  | .call op next => .call (.inl op) fun outcome => (next outcome).awake

/-- Wait for a number of milliseconds. -/
def sleep (ms : ℚ) : Program I.sleeping Unit := perform (I := I.sleeping) (.inr ms)

end Program

/-- The calls do what they do, and the timer lets time pass. -/
def Semantics.sleeping (sem : Semantics I S) (passes : ℚ → S → S → Prop) :
    Semantics I.sleeping S
  | .inl op, before, outcome, after => sem op before outcome after
  | .inr ms, before, outcome, after => outcome = .ok () ∧ passes ms before after

variable {sem : Semantics I S} {passes : ℚ → S → S → Prop} {before after : S}

@[simp] theorem runs_awake_iff {program : Program I α} {outcome : I.Outcome α} :
    Runs (sem.sleeping passes) program.awake before outcome after ↔
      Runs sem program before outcome after := by
  induction program generalizing before with
  | done settled => exact Runs.done_iff.trans Runs.done_iff.symm
  | call op next ih =>
      rw [awake, Runs.call_iff, Runs.call_iff]
      refine exists_congr fun result => exists_congr fun middle => and_congr_right fun _ => ?_
      exact ih result

@[simp] theorem runs_sleep_iff {ms : ℚ} {outcome : I.Outcome Unit} :
    Runs (sem.sleeping passes) (sleep ms) before outcome after ↔
      outcome = .ok () ∧ passes ms before after :=
  Runs.perform_iff

/-! ## Counting -/

/-- The calls with a property are counted. -/
def Semantics.counting (sem : Semantics I S) (counted : I.Op → Bool) : Semantics I (S × ℕ) :=
  fun op before outcome after => sem op before.1 outcome after.1 ∧
    after.2 = before.2 + if counted op then 1 else 0

end DistributedFileStorage.Async
