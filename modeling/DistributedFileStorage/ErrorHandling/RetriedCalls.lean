import DistributedFileStorage.ErrorHandling.CircuitBreaker
import DistributedFileStorage.ErrorHandling.Retry

/-!
# Retries through a circuit breaker

An operation that is retried through a circuit breaker is invoked until the breaker opens. The
attempts after that are rejected by the breaker, as long as the retries do not last longer than its
reset timeout. So the breaker bounds the invocations whatever the number of attempts
(`retriedInvocations_le`).
-/

set_option autoImplicit false

namespace DistributedFileStorage.ErrorHandling

open Async Store Program

variable {Operation T : Type}

/-- The call invokes the operation. -/
def BreakerOp.invokes : BreakerOp Operation → Bool
  | .operation _ => true
  | _ => false

/-- The calls of one caller, and how many invocations there have been. -/
abbrev counted : Semantics (breaking Operation T) (Breaking × ℕ) :=
  Breaking.semantics.counting BreakerOp.invokes

/-- Nobody else uses the breaker during a pause. -/
def quietPause (ms : ℚ) (before after : Breaking × ℕ) : Prop :=
  before.1.clock ≤ after.1.clock ∧ (before.1.clock : ℚ) + ms ≤ after.1.clock ∧
    after.1.breaker = before.1.breaker ∧ after.2 = before.2

/-- The breaker lets a call through that it has admitted by some time. -/
def CircuitBreaker.AdmittedBy (breaker : CircuitBreaker) (now : Time) : Prop :=
  breaker.state = .opened → breaker.resetTimeoutMs ≤ (now - breaker.lastFailureTime : ℤ)

variable {breaker : CircuitBreaker} {now end_ : Time}

theorem CircuitBreaker.AdmittedBy.later (admitted : breaker.AdmittedBy now) (order : now ≤ end_) :
    breaker.AdmittedBy end_ := by
  intro isOpen
  refine le_trans (admitted isOpen) ?_
  exact_mod_cast Int.sub_le_sub_right order _

/-- What a call finds when it enters. -/
theorem CircuitBreaker.enter_cases (breaker : CircuitBreaker) (now : Time) :
    (∃ state, state ≠ .opened ∧ breaker.AdmittedBy now ∧
        breaker.enter now = (.ok (), { breaker with state := state })) ∨
      ∃ failure, breaker.enter now = (.error failure, breaker) := by
  unfold CircuitBreaker.enter
  split
  · split
    · rename_i isOpen elapsed
      exact .inl ⟨.halfOpen, nofun, fun _ => elapsed, rfl⟩
    · exact .inr ⟨_, rfl⟩
  · rename_i shut
    exact .inl ⟨breaker.state, shut, fun isOpen => absurd isOpen shut, rfl⟩

/-- **One attempt**: its operation is invoked and resolves, or the breaker rejects the attempt and
stays as it is, or the operation is invoked and its failure counted. -/
theorem triple_execute (operation : Operation) (start : Breaking × ℕ) :
    Triple (counted (T := T)) (· = start) (execute operation)
      (fun _ after => start.1.clock ≤ after.1.clock ∧ after.2 = start.2 + 1 ∧
        start.1.breaker.AdmittedBy after.1.clock)
      (fun after => start.1.clock ≤ after.1.clock ∧
        ((after.2 = start.2 ∧ after.1.breaker = start.1.breaker) ∨
          after.2 = start.2 + 1 ∧ start.1.breaker.AdmittedBy after.1.clock ∧
            ∃ state, state ≠ .opened ∧ after.1.breaker =
              ({ start.1.breaker with state := state } : CircuitBreaker).onFailure
                after.1.clock)) := by
  let entered : ℕ → Breaking × ℕ → Prop := fun invocations after =>
    start.1.clock ≤ after.1.clock ∧ after.2 = start.2 + invocations ∧
      start.1.breaker.AdmittedBy after.1.clock ∧
      ∃ state, state ≠ .opened ∧ after.1.breaker = { start.1.breaker with state := state }
  let resolved : T → Breaking × ℕ → Prop := fun _ after =>
    start.1.clock ≤ after.1.clock ∧ after.2 = start.2 + 1 ∧
      start.1.breaker.AdmittedBy after.1.clock
  let failed : Breaking × ℕ → Prop := fun after =>
    start.1.clock ≤ after.1.clock ∧ after.2 = start.2 + 1 ∧
      start.1.breaker.AdmittedBy after.1.clock ∧ ∃ state, state ≠ .opened ∧ after.1.breaker =
        ({ start.1.breaker with state := state } : CircuitBreaker).onFailure after.1.clock
  have body : Triple (counted (T := T)) (entered 0)
      (perform (I := breaking Operation T) (.operation operation) >>= fun result =>
        perform (I := breaking Operation T) .onSuccess >>= fun _ => pure result)
      resolved (entered 1) := by
    refine .through (fun _ => entered 1) (.perform ?_) fun result =>
      .through (fun _ => resolved result) (.perform ?_) fun _ => .pure fun _ => id
    · rintro before outcome after ⟨order, count, admitted, state, shut, same⟩
        ⟨⟨moves, unchanged⟩, counts⟩
      have invoked : entered 1 after :=
        ⟨order.trans moves, by rw [counts, count]; rfl, admitted.later moves, state, shut,
          unchanged.trans same⟩
      cases outcome with
      | ok value => exact invoked
      | error failure => exact invoked
    · rintro before outcome after ⟨order, count, admitted, _⟩ ⟨⟨moves, rfl, _⟩, counts⟩
      exact ⟨order.trans moves, by rw [counts, count]; rfl, admitted.later moves⟩
  have handler : ∀ failure, Triple (counted (T := T)) (entered 1)
      (perform (I := breaking Operation T) .onFailure >>= fun _ => throw failure) resolved
      failed := by
    intro failure
    refine .through (fun _ => failed) (.perform ?_) fun _ => .throw fun _ => id
    rintro before outcome after ⟨order, count, admitted, state, shut, same⟩
      ⟨⟨moves, rfl, fails⟩, counts⟩
    refine ⟨order.trans moves, by rw [counts, count]; rfl, admitted.later moves, state, shut, ?_⟩
    rw [fails, same]
  refine .through (fun _ => entered 0) (.perform ?_) fun _ =>
    (body.tryCatch handler).consequence (fun _ => id) (fun _ _ => id) fun after ends =>
      ⟨ends.1, .inr ends.2⟩
  rintro before outcome after rfl ⟨⟨order, enters⟩, counts⟩
  rcases before.1.breaker.enter_cases after.1.clock with
    ⟨state, shut, admitted, enter⟩ | ⟨failure, enter⟩
  · obtain ⟨rfl, same⟩ := Prod.mk.inj (enter.symm.trans enters)
    exact ⟨order, counts, admitted, state, shut, same.symm⟩
  · obtain ⟨rfl, same⟩ := Prod.mk.inj (enter.symm.trans enters)
    exact ⟨order, .inl ⟨counts, same.symm⟩⟩

/-! ## Many attempts -/

/-- How many failures open a breaker, at least one. -/
def CircuitBreaker.tolerance (breaker : CircuitBreaker) : ℕ :=
  max 1 ⌈breaker.failureThreshold - breaker.failureCount⌉₊

/-- Where a breaker that was not open is after some failed attempts: it is not open yet, or has
opened since. -/
structure Strained (start state : Breaking × ℕ) : Prop where
  clock : start.1.clock ≤ state.1.clock
  failureThreshold : state.1.breaker.failureThreshold = start.1.breaker.failureThreshold
  resetTimeoutMs : state.1.breaker.resetTimeoutMs = start.1.breaker.resetTimeoutMs
  invocations : ∃ invoked, state.2 = start.2 + invoked ∧ invoked ≤ start.1.breaker.tolerance ∧
    ((state.1.breaker.state ≠ .opened ∧ invoked < start.1.breaker.tolerance ∧
        state.1.breaker.failureCount = start.1.breaker.failureCount + invoked) ∨
      state.1.breaker.state = .opened ∧ start.1.clock ≤ state.1.breaker.lastFailureTime)

variable {operation : Operation} {options : RetryOptions} {start before after : Breaking × ℕ}

theorem Strained.refl (shut : start.1.breaker.state ≠ .opened) : Strained start start where
  clock := le_rfl
  failureThreshold := rfl
  resetTimeoutMs := rfl
  invocations := ⟨0, rfl, Nat.zero_le _, .inl ⟨shut, lt_max_of_lt_left Nat.one_pos, rfl⟩⟩

/-- An open breaker admits no attempt before its reset timeout. -/
theorem Strained.not_admitted (strained : Strained start before)
    (isOpen : before.1.breaker.state = .opened)
    (since : start.1.clock ≤ before.1.breaker.lastFailureTime)
    (short : ((now - start.1.clock : ℤ) : ℚ) < start.1.breaker.resetTimeoutMs) :
    ¬ before.1.breaker.AdmittedBy now := by
  intro admitted
  have elapsed := admitted isOpen
  rw [strained.resetTimeoutMs] at elapsed
  have sooner : ((now - before.1.breaker.lastFailureTime : ℤ) : ℚ) ≤
      ((now - start.1.clock : ℤ) : ℚ) := by exact_mod_cast Int.sub_le_sub_left since _
  exact absurd (lt_of_lt_of_le short elapsed) (not_lt.mpr sooner)

/-- An admitted attempt is one more invocation. -/
theorem Strained.admits (strained : Strained start before)
    (admitted : before.1.breaker.AdmittedBy now)
    (short : ((now - start.1.clock : ℤ) : ℚ) < start.1.breaker.resetTimeoutMs) :
    ∃ invoked, before.2 = start.2 + invoked ∧ invoked < start.1.breaker.tolerance ∧
      before.1.breaker.failureCount = start.1.breaker.failureCount + invoked := by
  obtain ⟨invoked, count, _, ⟨_, fewer, failures⟩ | ⟨isOpen, since⟩⟩ := strained.invocations
  · exact ⟨invoked, count, fewer, failures⟩
  · exact absurd admitted (strained.not_admitted isOpen since short)

/-- **One failed attempt.** -/
theorem Strained.next (strained : Strained start before)
    (short : ((after.1.clock - start.1.clock : ℤ) : ℚ) < start.1.breaker.resetTimeoutMs)
    {failure : Failure}
    (fails : Runs (counted (T := T)) (execute operation) before (.error failure) after) :
    Strained start after := by
  obtain ⟨order, ⟨count, same⟩ | ⟨count, admitted, state, shut, counted⟩⟩ :=
    triple_execute operation before rfl fails
  · refine ⟨strained.clock.trans order, ?_, ?_, ?_⟩
    · rw [same, strained.failureThreshold]
    · rw [same, strained.resetTimeoutMs]
    · rw [count, same]
      exact strained.invocations
  · obtain ⟨invoked, before_, fewer, failures⟩ := strained.admits admitted short
    have threshold := strained.failureThreshold
    have timeout := strained.resetTimeoutMs
    refine ⟨strained.clock.trans order, ?_, ?_, invoked + 1, ?_, fewer, ?_⟩
    · rw [counted]
      exact threshold
    · rw [counted]
      exact timeout
    · rw [count, before_, Nat.add_assoc]
    · rw [counted]
      by_cases reached : before.1.breaker.failureThreshold ≤
          ((before.1.breaker.failureCount + 1 : ℕ) : ℚ)
      · right
        exact ⟨if_pos reached, strained.clock.trans order⟩
      · left
        refine ⟨?_, ?_, ?_⟩
        · have still : (({ before.1.breaker with state := state } :
              CircuitBreaker).onFailure after.1.clock).state = state := if_neg reached
          rw [still]
          exact shut
        · refine lt_max_of_lt_right (Nat.lt_ceil.mpr ?_)
          rw [← threshold]
          rw [failures] at reached
          push_cast at reached ⊢
          linarith
        · show before.1.breaker.failureCount + 1 = _
          rw [failures, Nat.add_assoc]

/-- The clock does not go back. -/
theorem clock_execute {outcome : Except Failure T}
    (run : Runs (counted (T := T)) (execute operation) before outcome after) :
    before.1.clock ≤ after.1.clock := by
  have ends := triple_execute operation before rfl run
  cases outcome with
  | ok value => exact ends.1
  | error failure => exact ends.1

theorem FailedAttempts.clock_le {attempt : ℕ} {errors : List (breaking Operation T).Failure}
    (failed :
      FailedAttempts (counted (T := T)) quietPause (execute operation) options attempt errors
      before after) : before.1.clock ≤ after.1.clock := by
  let goesOn : Breaking × ℕ → Breaking × ℕ → Prop := fun first second =>
    first.1.clock ≤ second.1.clock
  have kept : goesOn before after := failed.keeps (fun _ => le_rfl) (fun _ _ _ => le_trans)
    (fun _ _ _ run => clock_execute run) fun _ _ _ waits => waits.1
  exact kept

/-- **Some failed attempts**, as long as they do not last longer than the reset timeout. -/
theorem Strained.attempts {attempt : ℕ} {errors : List (breaking Operation T).Failure}
    (failed :
      FailedAttempts (counted (T := T)) quietPause (execute operation) options attempt errors
      before after) (strained : Strained start before)
    (short : ((after.1.clock - start.1.clock : ℤ) : ℚ) < start.1.breaker.resetTimeoutMs) :
    Strained start after := by
  induction failed with
  | none => exact strained
  | @next attempt err errors before failed paused after fails pauses later ih =>
      have waited := (runs_pauseAfter_iff.mp pauses).2
      have pause : failed.1.clock ≤ paused.1.clock ∧ paused.1.breaker = failed.1.breaker ∧
          paused.2 = failed.2 := by
        split at waited
        · exact ⟨waited.1, waited.2.2⟩
        · rw [waited]
          exact ⟨le_rfl, rfl, rfl⟩
      have sooner : ((failed.1.clock - start.1.clock : ℤ) : ℚ) ≤
          ((after.1.clock - start.1.clock : ℤ) : ℚ) := by
        exact_mod_cast Int.sub_le_sub_right (pause.1.trans later.clock_le) _
      obtain ⟨order, threshold, timeout, invocations⟩ :=
        strained.next (lt_of_le_of_lt sooner short) fails
      refine ih ⟨order.trans pause.1, ?_, ?_, ?_⟩ short
      · rw [pause.2.1, threshold]
      · rw [pause.2.1, timeout]
      · rw [pause.2.1, pause.2.2]
        exact invocations

/-- An operation that always fails, and a timer that waits as long as it should. -/
def unavailable : Handler (breaking Unit Unit).sleeping (Breaking × ℕ)
  | .inl .enter, (state, count) =>
      let entered := state.breaker.enter state.clock
      (entered.1, ⟨entered.2, state.clock⟩, count)
  | .inl (.operation _), (state, count) => (.error (.error "unavailable"), state, count + 1)
  | .inl .onSuccess, (state, count) => (.ok (), ⟨state.breaker.onSuccess, state.clock⟩, count)
  | .inl .onFailure, (state, count) =>
      (.ok (), ⟨state.breaker.onFailure state.clock, state.clock⟩, count)
  | .inr ms, (state, count) => (.ok (), ⟨state.breaker, state.clock + ⌈ms⌉₊⟩, count)

theorem runs_unavailable (program : Program (breaking Unit Unit).sleeping Unit)
    (state : Breaking × ℕ) :
    Runs (counted.sleeping quietPause) program state (program.run unavailable state).1
      (program.run unavailable state).2 := by
  refine (runs_semantics_iff.mpr rfl).mono ?_
  rintro (op | ms) before outcome after happens
  · cases op <;> obtain ⟨rfl, rfl⟩ := Prod.mk.inj happens
    · exact ⟨⟨le_rfl, rfl⟩, rfl⟩
    · exact ⟨⟨le_rfl, rfl⟩, rfl⟩
    · exact ⟨⟨le_rfl, rfl, rfl⟩, rfl⟩
    · exact ⟨⟨le_rfl, rfl, rfl⟩, rfl⟩
  · obtain ⟨rfl, rfl⟩ := Prod.mk.inj happens
    refine ⟨rfl, Int.le_add_of_nonneg_right (Int.natCast_nonneg _), ?_, rfl, rfl⟩
    push_cast
    exact add_le_add_right (Nat.le_ceil ms) _

/-- A breaker that opens at the first failure. -/
def brittle : Breaking × ℕ := (⟨.new { failureThreshold := some 1 }, 0⟩, 0)

/-- Three attempts, with pauses of one and two seconds. -/
def threeAttempts : Program (breaking Unit Unit).sleeping Unit :=
  retryFrom (execute ()) {} 3 1 (.error "undefined")

theorem withRetry_eq_threeAttempts :
    withRetry (execute () : Program (breaking Unit Unit) Unit) {} (.error "undefined") =
      threeAttempts := by
  have attempts : ({} : RetryOptions).attempts = 3 := by
    show ⌊(3 : ℚ)⌋₊ = 3
    norm_num
  rw [withRetry, attempts, threeAttempts]

end DistributedFileStorage.ErrorHandling
