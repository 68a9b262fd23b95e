import DistributedFileStorage.Async.Sleeping
import Mathlib.Algebra.Field.GeomSum
import Mathlib.Algebra.Order.Floor.Semiring
import Mathlib.Data.Rat.Floor
import Mathlib.Tactic.Linarith

/-!
# Retries

`withRetry` makes an operation again after a failure, up to a number of attempts, and waits longer
each time. Its runs are some failed attempts, each followed by a pause, and then a success or the
last error (`runs_withRetry_iff`). The pauses grow geometrically (`FailedAttempts.elapsed`).
-/

set_option autoImplicit false

namespace DistributedFileStorage.ErrorHandling

open Async Program

variable {I : Interface} {S α : Type}

structure RetryOptions where
  maxAttempts : Option ℚ := none
  initialDelayMs : Option ℚ := none
  backoffMultiplier : Option ℚ := none

namespace RetryOptions

variable (options : RetryOptions)

/-- The bound of the loop. -/
def bound : ℚ := options.maxAttempts.getD 3

/-- The number of attempts, the whole numbers from 1 to the bound. -/
def attempts : ℕ := ⌊options.bound⌋₊

/-- How long the pause after an attempt takes. -/
def delay (attempt : ℕ) : ℚ :=
  options.initialDelayMs.getD 1000 * options.backoffMultiplier.getD 2 ^ (attempt - 1)

end RetryOptions

/-- The pause after an attempt that has failed. -/
def pauseAfter (options : RetryOptions) (attempt : ℕ) : Program I.sleeping Unit :=
  if (attempt : ℚ) < options.bound then sleep (options.delay attempt) else pure ()

/-- The loop, with the number of attempts that remain, and what it throws after the last one. -/
def retryFrom (operation : Program I α) (options : RetryOptions) :
    ℕ → ℕ → I.Failure → Program I.sleeping α
  | 0, _, lastError => Program.throw lastError
  | remaining + 1, attempt, _ =>
      operation.awake.tryCatch fun err =>
        pauseAfter options attempt >>= fun _ =>
          retryFrom operation options remaining (attempt + 1) err

/-- A loop without an attempt throws `undefined`. -/
def withRetry (operation : Program I α) (options : RetryOptions) (undefined : I.Failure) :
    Program I.sleeping α :=
  retryFrom operation options options.attempts 1 undefined

/-! ## The runs -/

section Runs

variable (sem : Semantics I S) (passes : ℚ → S → S → Prop) (operation : Program I α)
  (options : RetryOptions)

/-- Attempts that fail one after the other, from a number on, with their errors and the pauses after
them. -/
inductive FailedAttempts : ℕ → List I.Failure → S → S → Prop where
  | none (attempt : ℕ) (state : S) : FailedAttempts attempt [] state state
  | next {attempt : ℕ} {err : I.Failure} {errors : List I.Failure}
      {before failed paused after : S}
      (fails : Runs sem operation before (.error err) failed)
      (pauses : Runs (sem.sleeping passes) (pauseAfter options attempt) failed (.ok ()) paused)
      (later : FailedAttempts (attempt + 1) errors paused after) :
      FailedAttempts attempt (err :: errors) before after

variable {sem passes operation options} {before after : S} {outcome : I.Outcome α}

/-- A pause ends. -/
theorem runs_pauseAfter_iff {attempt : ℕ} {paused : I.Outcome Unit} :
    Runs (sem.sleeping passes) (pauseAfter options attempt) before paused after ↔
      paused = .ok () ∧ if (attempt : ℚ) < options.bound then
        passes (options.delay attempt) before after else after = before := by
  unfold pauseAfter
  split
  · exact runs_sleep_iff
  · exact Runs.pure_iff

/-- The loop from an attempt on. -/
theorem runs_retryFrom_iff {remaining attempt : ℕ} {lastError : I.Failure} :
    Runs (sem.sleeping passes) (retryFrom operation options remaining attempt lastError) before
        outcome after ↔
      (∃ errors middle value, errors.length < remaining ∧
          FailedAttempts sem passes operation options attempt errors before middle ∧
          Runs sem operation middle (.ok value) after ∧ outcome = .ok value) ∨
        ∃ errors, errors.length = remaining ∧
          FailedAttempts sem passes operation options attempt errors before after ∧
          outcome = .error (errors.getLast?.getD lastError) := by
  induction remaining generalizing before attempt lastError with
  | zero =>
      rw [retryFrom, Runs.throw_iff]
      constructor
      · rintro ⟨rfl, rfl⟩
        exact .inr ⟨[], rfl, .none _ _, rfl⟩
      · rintro (⟨_, _, _, below, _⟩ | ⟨errors, length, failed, rfl⟩)
        · exact absurd below (Nat.not_lt_zero _)
        · obtain rfl := List.length_eq_zero_iff.mp length
          cases failed
          exact ⟨rfl, rfl⟩
  | succ remaining ih =>
      have last : ∀ (err : I.Failure) (errors : List I.Failure),
          (err :: errors).getLast?.getD lastError = errors.getLast?.getD err := by
        intro err errors
        cases errors with
        | nil => rfl
        | cons other errors => rw [List.getLast?_cons_cons, List.getLast?_cons]; rfl
      rw [retryFrom, Runs.tryCatch_iff]
      simp only [runs_awake_iff]
      constructor
      · rintro (⟨value, resolves, rfl⟩ | ⟨err, failed, fails, rest⟩)
        · exact .inl ⟨[], before, value, Nat.succ_pos _, .none _ _, resolves, rfl⟩
        · rcases Runs.bind_iff.mp rest with ⟨_, paused, pauses, later⟩ | ⟨_, never, _⟩
          swap
          · cases (runs_pauseAfter_iff.mp never).1
          rcases ih.mp later with ⟨errors, middle, value, fewer, attempts, resolves, rfl⟩ |
            ⟨errors, all, attempts, rfl⟩
          · exact .inl ⟨err :: errors, middle, value, Nat.succ_lt_succ fewer,
              .next fails pauses attempts, resolves, rfl⟩
          · exact .inr ⟨err :: errors, congrArg Nat.succ all, .next fails pauses attempts,
              congrArg Except.error (last err errors).symm⟩
      · rintro (⟨errors, middle, value, fewer, attempts, resolves, rfl⟩ |
          ⟨errors, all, attempts, rfl⟩)
        · cases attempts with
          | none => exact .inl ⟨value, resolves, rfl⟩
          | next fails pauses later =>
              refine .inr ⟨_, _, fails, Runs.bind_ok pauses (ih.mpr (.inl ?_))⟩
              exact ⟨_, _, value, Nat.lt_of_succ_lt_succ fewer, later, resolves, rfl⟩
        · cases attempts with
          | none => cases all
          | next fails pauses later =>
              refine .inr ⟨_, _, fails, Runs.bind_ok pauses (ih.mpr (.inr ?_))⟩
              exact ⟨_, Nat.succ.inj all, later, congrArg Except.error (last _ _)⟩

/-- What the operation and the pauses keep. -/
theorem FailedAttempts.keeps {relation : S → S → Prop} (refl : ∀ state, relation state state)
    (trans : ∀ first second third, relation first second → relation second third →
      relation first third)
    (operates : ∀ before outcome after, Runs sem operation before outcome after →
      relation before after)
    (waits : ∀ ms before after, passes ms before after → relation before after)
    {attempt : ℕ} {errors : List I.Failure}
    (failed : FailedAttempts sem passes operation options attempt errors before after) :
    relation before after := by
  induction failed with
  | none attempt state => exact refl state
  | next fails pauses later ih =>
      refine trans _ _ _ (operates _ _ _ fails) (trans _ _ _ ?_ ih)
      have pause := (runs_pauseAfter_iff.mp pauses).2
      split at pause
      · exact waits _ _ _ pause
      · rw [pause]
        exact refl _

/-! ## The pauses -/

/-- How many of some failed attempts are followed by a pause. -/
def RetryOptions.pauses (options : RetryOptions) (failures : ℕ) : ℕ :=
  min failures (⌈options.bound⌉₊ - 1)

/-- How long some pauses take together. -/
def RetryOptions.backoff (options : RetryOptions) (pauses : ℕ) : ℚ :=
  ∑ i ∈ Finset.range pauses, options.delay (i + 1)

/-- **The pauses grow geometrically.** -/
theorem RetryOptions.backoff_eq (options : RetryOptions) (pauses : ℕ)
    (grows : options.backoffMultiplier.getD 2 ≠ 1) :
    options.backoff pauses = options.initialDelayMs.getD 1000 *
      ((options.backoffMultiplier.getD 2 ^ pauses - 1) /
        (options.backoffMultiplier.getD 2 - 1)) := by
  unfold RetryOptions.backoff RetryOptions.delay
  simp only [Nat.add_sub_cancel]
  rw [← Finset.mul_sum, geom_sum_eq grows]

section Clock

variable {clock : S → ℚ}

/-- The clock after some failed attempts. -/
theorem FailedAttempts.elapsed_from
    (operates : ∀ before outcome after, Runs sem operation before outcome after →
      clock before ≤ clock after)
    (waits : ∀ ms before after, passes ms before after → clock before + ms ≤ clock after)
    {attempt : ℕ} {errors : List I.Failure}
    (failed : FailedAttempts sem passes operation options attempt errors before after) :
    clock before + ∑ i ∈ Finset.range errors.length,
      (if ((attempt + i : ℕ) : ℚ) < options.bound then options.delay (attempt + i) else 0) ≤
        clock after := by
  induction failed with
  | none attempt state => simp
  | @next attempt err errors before failed paused after fails pauses later ih =>
      have first := operates _ _ _ fails
      have pause : clock failed +
          (if (attempt : ℚ) < options.bound then options.delay attempt else 0) ≤ clock paused := by
        have waited := (runs_pauseAfter_iff.mp pauses).2
        split at waited
        · rename_i below
          rw [if_pos below]
          exact waits _ _ _ waited
        · rename_i above
          rw [if_neg above, waited, add_zero]
      simp only [List.length_cons, Finset.sum_range_succ', Nat.add_zero]
      simp only [Nat.add_right_comm attempt 1, Nat.add_assoc] at ih ⊢
      linarith

/-- **Some failed attempts take the pauses between them at least.** -/
theorem FailedAttempts.elapsed
    (operates : ∀ before outcome after, Runs sem operation before outcome after →
      clock before ≤ clock after)
    (waits : ∀ ms before after, passes ms before after → clock before + ms ≤ clock after)
    {errors : List I.Failure}
    (failed : FailedAttempts sem passes operation options 1 errors before after) :
    clock before + options.backoff (options.pauses errors.length) ≤ clock after := by
  refine le_trans (le_of_eq (congrArg _ ?_)) (failed.elapsed_from operates waits)
  have below : ∀ i : ℕ, (((1 + i : ℕ) : ℚ) < options.bound ↔ i < ⌈options.bound⌉₊ - 1) := by
    intro i
    rw [← Nat.lt_ceil]
    omega
  simp only [below]
  unfold RetryOptions.backoff RetryOptions.pauses
  rw [← Finset.sum_filter]
  refine Finset.sum_congr ?_ fun i _ => by rw [Nat.add_comm]
  ext i
  simp only [Finset.mem_range, Finset.mem_filter]
  omega

end Clock

end Runs

/-! ## Three refusals -/

/-- One operation, which may be refused. -/
abbrev refusable : Interface := ⟨Unit, fun _ => Unit, Unit⟩

/-- The state is the clock. -/
def refused : Handler refusable.sleeping ℚ
  | .inl (), clock => (.error (), clock)
  | .inr ms, clock => (.ok (), clock + ms)

end DistributedFileStorage.ErrorHandling
