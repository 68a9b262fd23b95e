import DistributedFileStorage.Async.Program
import DistributedFileStorage.Store.Records
import Mathlib.Algebra.Order.Ring.Rat
import Mathlib.Data.Nat.Cast.Order.Ring

/-!
# The circuit breaker

A breaker counts the failures of the operations that it runs. At a threshold it opens, and rejects
calls until some time has passed since the last failure. The call that is let through then is a
probe: a success closes the breaker, and a failure opens it again.

The breaker has three states, a count that a probe does not reset, and the time of the last failure.
For calls that are made one after the other this is a specification of two numbers: the operations
that have failed since the last success, and the time of the last failure (`execute_mirrors`).
-/

set_option autoImplicit false

namespace DistributedFileStorage.ErrorHandling

open Async Store
open Program (perform)

/-! ## The breaker -/

/-- The states `closed`, `open` and `half-open`. -/
inductive CircuitState where
  | closed
  | opened
  | halfOpen
  deriving DecidableEq

structure CircuitBreakerOptions where
  failureThreshold : Option ℚ := none
  resetTimeoutMs : Option ℚ := none

structure CircuitBreaker where
  state : CircuitState := .closed
  failureCount : ℕ := 0
  lastFailureTime : Time := 0
  failureThreshold : ℚ
  resetTimeoutMs : ℚ

namespace CircuitBreaker

/-- The constructor. -/
def new (options : CircuitBreakerOptions) : CircuitBreaker :=
  { failureThreshold := options.failureThreshold.getD 5
    resetTimeoutMs := options.resetTimeoutMs.getD 60000 }

variable (breaker : CircuitBreaker)

/-- What `execute` does up to the invocation of the operation, at a time. -/
def enter (now : Time) : Except Failure Unit × CircuitBreaker :=
  if breaker.state = .opened then
    if breaker.resetTimeoutMs ≤ (now - breaker.lastFailureTime : ℤ) then
      (.ok (), { breaker with state := .halfOpen })
    else (.error (.error "Circuit breaker is OPEN — operation rejected"), breaker)
  else (.ok (), breaker)

def getState : CircuitState := breaker.state

def onSuccess : CircuitBreaker := { breaker with failureCount := 0, state := .closed }

def onFailure (now : Time) : CircuitBreaker :=
  let failureCount := breaker.failureCount + 1
  { breaker with
    failureCount := failureCount
    lastFailureTime := now
    state := if breaker.failureThreshold ≤ failureCount then .opened else breaker.state }

end CircuitBreaker

/-! ## Calls of `execute` -/

variable {Operation T : Type}

/-- What `execute` awaits, and what it does to the breaker in between. -/
inductive BreakerOp (Operation : Type) where
  | enter
  | operation (operation : Operation)
  | onSuccess
  | onFailure

@[reducible] def BreakerOp.Result (T : Type) : BreakerOp Operation → Type
  | operation _ => T
  | _ => Unit

abbrev breaking (Operation T : Type) : Interface :=
  ⟨BreakerOp Operation, BreakerOp.Result T, Failure⟩

def execute (operation : Operation) : Program (breaking Operation T) T := do
  perform (I := breaking Operation T) .enter
  Program.tryCatch
    (do
      let result ← perform (I := breaking Operation T) (.operation operation)
      perform (I := breaking Operation T) .onSuccess
      pure result)
    fun err => do
      perform (I := breaking Operation T) .onFailure
      Program.throw err

/-- A breaker, and the time that the clock shows. -/
@[ext] structure Breaking where
  breaker : CircuitBreaker
  clock : Time

/-- What happens in each call: an operation settles to anything, and the clock does not go
back. -/
def Breaking.semantics : Semantics (breaking Operation T) Breaking
  | .enter, before, outcome, after => before.clock ≤ after.clock ∧
      before.breaker.enter after.clock = (outcome, after.breaker)
  | .operation _, before, _, after => before.clock ≤ after.clock ∧ after.breaker = before.breaker
  | .onSuccess, before, outcome, after => before.clock ≤ after.clock ∧ outcome = .ok () ∧
      after.breaker = before.breaker.onSuccess
  | .onFailure, before, outcome, after => before.clock ≤ after.clock ∧ outcome = .ok () ∧
      after.breaker = before.breaker.onFailure after.clock

/-! ## One call after the other -/

/-- A call of `execute` that nothing interrupts: when it is made, and what its operation settles to,
and when. -/
structure ExecuteCall (Operation T : Type) where
  operation : Operation
  calledAt : Time
  outcome : Except Failure T
  settledAt : Time

/-- The operation of the call fails. -/
def ExecuteCall.fails (call : ExecuteCall Operation T) : Bool :=
  match call.outcome with
  | .ok _ => false
  | .error _ => true

/-- A breaker, and whether the operation of the current call has been invoked. -/
structure Attempt where
  breaker : CircuitBreaker
  invoked : Bool := false

/-- What happens in the call. -/
def ExecuteCall.handler (call : ExecuteCall Operation T) : Handler (breaking Operation T) Attempt
  | .enter, state =>
      let admitted := state.breaker.enter call.calledAt
      (admitted.1, { state with breaker := admitted.2 })
  | .operation _, state => (call.outcome, { state with invoked := true })
  | .onSuccess, state => (.ok (), { state with breaker := state.breaker.onSuccess })
  | .onFailure, state => (.ok (), { state with breaker := state.breaker.onFailure call.settledAt })

namespace CircuitBreaker

/-- What the call leaves. -/
def attempt (breaker : CircuitBreaker) (call : ExecuteCall Operation T) : Attempt :=
  ((execute call.operation).run call.handler { breaker := breaker }).2

/-- The breaker after some calls. -/
def after (breaker : CircuitBreaker) : List (ExecuteCall Operation T) → CircuitBreaker
  | [] => breaker
  | call :: calls => (breaker.attempt call).breaker.after calls

/-- Those of the calls whose operations are invoked. -/
def invocations (breaker : CircuitBreaker) :
    List (ExecuteCall Operation T) → List (ExecuteCall Operation T)
  | [] => []
  | call :: calls =>
      let attempt := breaker.attempt call
      (if attempt.invoked then [call] else []) ++ attempt.breaker.invocations calls

end CircuitBreaker

/-- How many operations have failed since the last success. -/
def consecutiveFailures (invoked : List (ExecuteCall Operation T)) : ℕ :=
  (invoked.reverse.takeWhile ExecuteCall.fails).length

/-- The time of the last failure. -/
def lastFailure (invoked : List (ExecuteCall Operation T)) : Option Time :=
  (invoked.reverse.find? ExecuteCall.fails).map ExecuteCall.settledAt

/-- **The specification**: the breaker lets a call through. -/
def Admits (options : CircuitBreakerOptions) (invoked : List (ExecuteCall Operation T))
    (now : Time) : Prop :=
  consecutiveFailures invoked < (CircuitBreaker.new options).failureThreshold ∨
    ∃ time, lastFailure invoked = some time ∧
      (CircuitBreaker.new options).resetTimeoutMs ≤ (now - time : ℤ)

/-! ## The counts after one more operation -/

variable {invoked : List (ExecuteCall Operation T)} {call : ExecuteCall Operation T}

theorem consecutiveFailures_concat :
    consecutiveFailures (invoked ++ [call]) =
      if call.fails then consecutiveFailures invoked + 1 else 0 := by
  unfold consecutiveFailures
  rw [List.reverse_concat, List.takeWhile_cons]
  split <;> rfl

theorem lastFailure_concat :
    lastFailure (invoked ++ [call]) =
      if call.fails then some call.settledAt else lastFailure invoked := by
  unfold lastFailure
  rw [List.reverse_concat, List.find?_cons]
  cases call.fails <;> rfl

/-- A failure has a time. -/
theorem exists_lastFailure (some : 0 < consecutiveFailures invoked) :
    ∃ time, lastFailure invoked = .some time := by
  rcases List.eq_nil_or_concat' invoked with rfl | ⟨earlier, last, rfl⟩
  · simp [consecutiveFailures] at some
  · rw [consecutiveFailures_concat] at some
    rw [lastFailure_concat]
    cases failed : last.fails with
    | true => exact ⟨last.settledAt, rfl⟩
    | false => simp [failed] at some

/-! ## What a call does -/

/-- **A call that nothing interrupts** settles to what its operation settles to, when that is
invoked. -/
theorem run_execute (operation : Operation) (breaker : CircuitBreaker)
    (call : ExecuteCall Operation T) :
    (execute operation).run call.handler { breaker := breaker } =
      match breaker.enter call.calledAt with
      | (.error failure, rejecting) => (.error failure, { breaker := rejecting })
      | (.ok (), admitted) =>
          (call.outcome, { invoked := true
                           breaker := if call.fails then admitted.onFailure call.settledAt
                                      else admitted.onSuccess }) := by
  have first : (perform (I := breaking Operation T) .enter).run call.handler
      { breaker := breaker } =
        ((breaker.enter call.calledAt).1, { breaker := (breaker.enter call.calledAt).2 }) := rfl
  rcases admitted : breaker.enter call.calledAt with ⟨failure | _, next⟩
  · rw [admitted] at first
    exact Program.run_bind_error _ first
  · rw [admitted] at first
    refine (Program.run_bind_ok _ first).trans ?_
    obtain ⟨_, _, outcome, _⟩ := call
    cases outcome <;> rfl

variable {breaker : CircuitBreaker}

theorem attempt_of_rejected (call : ExecuteCall Operation T) {failure : Failure}
    {rejecting : CircuitBreaker}
    (rejected : breaker.enter call.calledAt = (.error failure, rejecting)) :
    breaker.attempt call = { breaker := rejecting } := by
  unfold CircuitBreaker.attempt
  rw [run_execute, rejected]

theorem attempt_of_admitted (call : ExecuteCall Operation T) {admitted : CircuitBreaker}
    (admits : breaker.enter call.calledAt = (.ok (), admitted)) :
    breaker.attempt call =
      { invoked := true
        breaker := if call.fails then admitted.onFailure call.settledAt
                   else admitted.onSuccess } := by
  unfold CircuitBreaker.attempt
  rw [run_execute, admits]

/-! ## Runs that nothing interrupts -/

/-- The call, made and settled while the clock moves on, has this outcome and leaves this state. -/
structure ExecuteCall.Describes (call : ExecuteCall Operation T) (operation : Operation)
    (before : Breaking) (outcome : Except Failure T) (after : Breaking) : Prop where
  invokes : call.operation = operation
  called : before.clock ≤ call.calledAt
  settled : call.calledAt ≤ call.settledAt
  outcome : ((execute operation).run call.handler { breaker := before.breaker }).1 = outcome
  state : after = ⟨(before.breaker.attempt call).breaker,
    if (before.breaker.attempt call).invoked then call.settledAt else call.calledAt⟩

section Uninterrupted

variable {operation : Operation} {before entered after : Breaking} {outcome : Except Failure T}

/-- A run that is rejected. -/
theorem describes_rejected {failure : Failure} (later : before.clock ≤ after.clock)
    (rejected : before.breaker.enter after.clock = (.error failure, after.breaker)) :
    ExecuteCall.Describes ⟨operation, after.clock, .error failure, after.clock⟩ operation before
      (.error failure : Except Failure T) after := by
  refine ⟨rfl, later, le_rfl, ?_, ?_⟩
  · rw [run_execute, rejected]
  · rw [attempt_of_rejected ⟨operation, after.clock, .error failure, after.clock⟩ rejected]
    rfl

/-- A run whose operation is invoked, and counted when it has settled. -/
theorem describes_admitted (called : before.clock ≤ entered.clock)
    (admitted : before.breaker.enter entered.clock = (.ok (), entered.breaker))
    (settled : entered.clock ≤ after.clock)
    (counted : after.breaker =
      if (⟨operation, entered.clock, outcome, after.clock⟩ : ExecuteCall Operation T).fails then
        entered.breaker.onFailure after.clock
      else entered.breaker.onSuccess) :
    ExecuteCall.Describes ⟨operation, entered.clock, outcome, after.clock⟩ operation before outcome
      after := by
  refine ⟨rfl, called, settled, ?_, ?_⟩
  · rw [run_execute, admitted]
  · rw [attempt_of_admitted ⟨operation, entered.clock, outcome, after.clock⟩ admitted]
    exact Breaking.ext counted rfl

/-- A run is a call. -/
theorem exists_call_of_runs
    (run : Runs Breaking.semantics (execute operation) before outcome after) :
    ∃ call : ExecuteCall Operation T, call.Describes operation before outcome after := by
  rcases Runs.bind_iff.mp run with ⟨_, entered, admits, rest⟩ | ⟨failure, admits, rfl⟩
  · obtain ⟨called, admitted⟩ := Runs.perform_iff.mp admits
    rcases Runs.tryCatch_iff.mp rest with ⟨value, body, rfl⟩ | ⟨failure, middle, body, handled⟩
    · -- the operation resolves
      rcases Runs.bind_iff.mp body with ⟨result, settled, works, finish⟩ | ⟨_, _, fails⟩
      · obtain ⟨waits, same⟩ := Runs.perform_iff.mp works
        rcases Runs.bind_iff.mp finish with ⟨_, last, succeeds, ends⟩ | ⟨_, _, fails⟩
        · obtain ⟨moves, _, closes⟩ := Runs.perform_iff.mp succeeds
          obtain ⟨resolved, rfl⟩ := Runs.pure_iff.mp ends
          refine ⟨_, describes_admitted called admitted (waits.trans moves) ?_⟩
          rw [closes, same]
          rfl
        · cases fails
      · cases fails
    · -- the operation rejects, which is the only failure in the `try` block
      have settled : entered.clock ≤ middle.clock ∧ middle.breaker = entered.breaker := by
        rcases Runs.bind_iff.mp body with ⟨_, _, _, finish⟩ | ⟨_, fails, _⟩
        · rcases Runs.bind_iff.mp finish with ⟨_, _, _, ends⟩ | ⟨_, rejects, _⟩
          · cases (Runs.pure_iff.mp ends).1
          · cases (Runs.perform_iff.mp rejects).2.1
        · exact Runs.perform_iff.mp fails
      rcases Runs.bind_iff.mp handled with ⟨_, last, counts, ends⟩ | ⟨_, rejects, _⟩
      · obtain ⟨moves, _, counted⟩ := Runs.perform_iff.mp counts
        obtain ⟨rfl, rfl⟩ := Runs.throw_iff.mp ends
        refine ⟨_, describes_admitted called admitted (settled.1.trans moves) ?_⟩
        rw [counted, settled.2]
        rfl
      · cases (Runs.perform_iff.mp rejects).2.1
  · obtain ⟨later, rejected⟩ := Runs.perform_iff.mp admits
    exact ⟨_, describes_rejected later rejected⟩

/-- A call is a run. -/
theorem runs_of_call {call : ExecuteCall Operation T}
    (describes : call.Describes operation before outcome after) :
    Runs Breaking.semantics (execute operation) before outcome after := by
  obtain ⟨rfl, called, settled, rfl, rfl⟩ := describes
  rw [run_execute]
  rcases admitted : before.breaker.enter call.calledAt with ⟨failure | _, next⟩
  · rw [attempt_of_rejected call admitted]
    exact Runs.bind_iff.mpr (.inr ⟨failure, Runs.perform_iff.mpr ⟨called, admitted⟩, rfl⟩)
  · rw [attempt_of_admitted call admitted]
    obtain ⟨operation, calledAt, outcome, settledAt⟩ := call
    have admits : Runs Breaking.semantics (perform (I := breaking Operation T) .enter) before
        (.ok ()) ⟨next, calledAt⟩ :=
      Runs.perform_iff.mpr ⟨called, admitted⟩
    refine Runs.bind_iff.mpr (.inl ⟨_, _, admits, ?_⟩)
    cases outcome with
    | ok value =>
        refine Runs.tryCatch_iff.mpr (.inl ⟨value, ?_, rfl⟩)
        refine Runs.bind_iff.mpr (.inl ⟨value, ⟨next, settledAt⟩, ?_, ?_⟩)
        · exact Runs.perform_iff.mpr ⟨settled, rfl⟩
        · refine Runs.bind_iff.mpr (.inl ⟨(), ⟨next.onSuccess, settledAt⟩, ?_, ?_⟩)
          · exact Runs.perform_iff.mpr ⟨le_rfl, rfl, rfl⟩
          · exact Runs.pure_iff.mpr ⟨rfl, rfl⟩
    | error failure =>
        refine Runs.tryCatch_iff.mpr (.inr ⟨failure, ⟨next, settledAt⟩, ?_, ?_⟩)
        · refine Runs.bind_iff.mpr (.inr ⟨failure, ?_, rfl⟩)
          exact Runs.perform_iff.mpr ⟨settled, rfl⟩
        · refine Runs.bind_iff.mpr (.inl ⟨(), ⟨next.onFailure settledAt, settledAt⟩, ?_, ?_⟩)
          · exact Runs.perform_iff.mpr ⟨le_rfl, rfl, rfl⟩
          · exact Runs.throw_iff.mpr ⟨rfl, rfl⟩

/-- **The runs of `execute` that nothing interrupts are the calls.** -/
theorem runs_execute_iff :
    Runs Breaking.semantics (execute operation) before outcome after ↔
      ∃ call : ExecuteCall Operation T, call.Describes operation before outcome after :=
  ⟨exists_call_of_runs, fun ⟨_, describes⟩ => runs_of_call describes⟩

end Uninterrupted

/-! ## The specification -/

/-- The breaker stands where the specification is after these invocations. -/
structure Mirrors (options : CircuitBreakerOptions) (breaker : CircuitBreaker)
    (invoked : List (ExecuteCall Operation T)) : Prop where
  failureThreshold : breaker.failureThreshold = (CircuitBreaker.new options).failureThreshold
  resetTimeoutMs : breaker.resetTimeoutMs = (CircuitBreaker.new options).resetTimeoutMs
  failureCount : breaker.failureCount = consecutiveFailures invoked
  lastFailureTime : ∀ time, lastFailure invoked = some time → breaker.lastFailureTime = time
  state : breaker.state =
    if consecutiveFailures invoked < (CircuitBreaker.new options).failureThreshold then .closed
    else .opened

theorem mirrors_new {options : CircuitBreakerOptions}
    (positive : 1 ≤ (CircuitBreaker.new options).failureThreshold) :
    Mirrors options (.new options) ([] : List (ExecuteCall Operation T)) := by
  refine ⟨rfl, rfl, rfl, nofun, ?_⟩
  have below : ((consecutiveFailures ([] : List (ExecuteCall Operation T)) : ℕ) : ℚ) <
      (CircuitBreaker.new options).failureThreshold := by
    show ((0 : ℕ) : ℚ) < _
    rw [Nat.cast_zero]
    exact lt_of_lt_of_le one_pos positive
  rw [if_pos below]
  rfl

namespace Mirrors

variable {options : CircuitBreakerOptions}

/-- When the specification lets a call through, the breaker does, as a probe or not. -/
theorem enter_of_admits (mirrors : Mirrors options breaker invoked) {now : Time}
    (admits : Admits options invoked now) :
    ∃ state, breaker.enter now = (.ok (), { breaker with state := state }) ∧
      (consecutiveFailures invoked < (CircuitBreaker.new options).failureThreshold →
        state = .closed) := by
  unfold CircuitBreaker.enter
  by_cases below : (consecutiveFailures invoked : ℚ) < (CircuitBreaker.new options).failureThreshold
  · have closed : breaker.state = .closed := by rw [mirrors.state, if_pos below]
    refine ⟨breaker.state, if_neg ?_, fun _ => closed⟩
    rw [closed]
    nofun
  · have isOpen : breaker.state = .opened := by rw [mirrors.state, if_neg below]
    obtain ⟨time, last, elapsed⟩ := admits.resolve_left below
    rw [← mirrors.resetTimeoutMs, ← mirrors.lastFailureTime time last] at elapsed
    refine ⟨.halfOpen, ?_, fun under => absurd under below⟩
    rw [if_pos isOpen, if_pos elapsed]

/-- When the specification does not let a call through, the breaker rejects it and stays as it
is. -/
theorem enter_of_not_admits (mirrors : Mirrors options breaker invoked)
    (positive : 1 ≤ (CircuitBreaker.new options).failureThreshold) {now : Time}
    (refuses : ¬ Admits options invoked now) :
    ∃ failure, breaker.enter now = (.error failure, breaker) := by
  have reached : (CircuitBreaker.new options).failureThreshold ≤ consecutiveFailures invoked :=
    not_lt.mp fun below => refuses (.inl below)
  have some : 0 < consecutiveFailures invoked :=
    Nat.one_le_cast.mp (positive.trans reached)
  obtain ⟨time, last⟩ := exists_lastFailure some
  have isOpen : breaker.state = .opened := by rw [mirrors.state, if_neg (not_lt.mpr reached)]
  have recent : ¬ breaker.resetTimeoutMs ≤ (now - breaker.lastFailureTime : ℤ) := by
    rw [mirrors.resetTimeoutMs, mirrors.lastFailureTime time last]
    exact fun elapsed => refuses (.inr ⟨time, last, elapsed⟩)
  unfold CircuitBreaker.enter
  rw [if_pos isOpen, if_neg recent]
  exact ⟨_, rfl⟩

/-- **One call**: its operation is invoked when the specification lets it through, and the breaker
stands where the specification is afterwards. -/
theorem attempt (mirrors : Mirrors options breaker invoked)
    (positive : 1 ≤ (CircuitBreaker.new options).failureThreshold)
    (call : ExecuteCall Operation T) :
    ((breaker.attempt call).invoked = true ↔ Admits options invoked call.calledAt) ∧
      Mirrors options (breaker.attempt call).breaker
        (invoked ++ if (breaker.attempt call).invoked then [call] else []) := by
  by_cases admits : Admits options invoked call.calledAt
  · obtain ⟨state, passes, closed⟩ := mirrors.enter_of_admits admits
    rw [attempt_of_admitted call passes]
    refine ⟨iff_of_true rfl admits, ?_⟩
    dsimp only
    rw [if_pos rfl]
    cases failed : call.fails with
    | true =>
        refine ⟨mirrors.failureThreshold, mirrors.resetTimeoutMs, ?_, ?_, ?_⟩
        · rw [consecutiveFailures_concat, failed]
          exact congrArg (· + 1) mirrors.failureCount
        · rw [lastFailure_concat, failed]
          rintro _ ⟨⟩
          rfl
        · rw [consecutiveFailures_concat, failed]
          show (if breaker.failureThreshold ≤ (breaker.failureCount + 1 : ℕ) then
            CircuitState.opened else state) = _
          rw [mirrors.failureThreshold, mirrors.failureCount, if_pos rfl]
          by_cases under : ((consecutiveFailures invoked + 1 : ℕ) : ℚ) <
              (CircuitBreaker.new options).failureThreshold
          · rw [if_neg (not_le.mpr under), if_pos under]
            exact closed ((Nat.cast_le.mpr (Nat.le_succ _)).trans_lt under)
          · rw [if_pos (not_lt.mp under), if_neg under]
    | false =>
        refine ⟨mirrors.failureThreshold, mirrors.resetTimeoutMs, ?_, ?_, ?_⟩
        · rw [consecutiveFailures_concat, failed]
          rfl
        · rw [lastFailure_concat, failed]
          exact mirrors.lastFailureTime
        · rw [consecutiveFailures_concat, failed]
          have under : ((0 : ℕ) : ℚ) < (CircuitBreaker.new options).failureThreshold := by
            rw [Nat.cast_zero]
            exact lt_of_lt_of_le one_pos positive
          exact (if_pos under).symm
  · obtain ⟨failure, same⟩ := mirrors.enter_of_not_admits positive admits
    rw [attempt_of_rejected call same]
    refine ⟨iff_of_false nofun admits, ?_⟩
    dsimp only
    rw [if_neg nofun, List.append_nil]
    exact mirrors

/-- **A sequence of calls.** -/
theorem after (mirrors : Mirrors options breaker invoked)
    (positive : 1 ≤ (CircuitBreaker.new options).failureThreshold)
    (calls : List (ExecuteCall Operation T)) :
    Mirrors options (breaker.after calls) (invoked ++ breaker.invocations calls) := by
  induction calls generalizing breaker invoked with
  | nil => exact (List.append_nil invoked).symm ▸ mirrors
  | cons call calls ih =>
      have next := ih (mirrors.attempt positive call).2
      rw [List.append_assoc] at next
      exact next

end Mirrors

/-- **The breaker is its specification of two numbers.** After any sequence of calls it is closed
when fewer operations than the threshold have failed since the last success, and open otherwise.
The next call invokes its operation exactly when the breaker is closed, or when the reset timeout
has passed since the last failure. This needs no condition on the clock. -/
theorem execute_mirrors (options : CircuitBreakerOptions)
    (positive : 1 ≤ (CircuitBreaker.new options).failureThreshold)
    (calls : List (ExecuteCall Operation T)) :
    (((CircuitBreaker.new options).after calls).getState =
        if consecutiveFailures ((CircuitBreaker.new options).invocations calls) <
          (CircuitBreaker.new options).failureThreshold then .closed else .opened) ∧
      ∀ call : ExecuteCall Operation T,
        (((CircuitBreaker.new options).after calls).attempt call).invoked = true ↔
          Admits options ((CircuitBreaker.new options).invocations calls) call.calledAt := by
  have mirrors := (mirrors_new positive).after positive calls
  rw [List.nil_append] at mirrors
  exact ⟨mirrors.state, fun call => (mirrors.attempt positive call).1⟩

/-- A breaker with the threshold 1. An operation fails, and the next call is rejected. -/
def failedOnce : List (ExecuteCall Unit Unit) :=
  [⟨(), 0, .error .unavailable, 0⟩, ⟨(), 500, .ok (), 500⟩]

/-- The breaker is open, and a second later it lets a probe through. -/
theorem execute_mirrors_failedOnce :
    ((CircuitBreaker.new ⟨some 1, some 1000⟩).after failedOnce).getState = .opened ∧
      (((CircuitBreaker.new ⟨some 1, some 1000⟩).after failedOnce).attempt
        (⟨(), 1000, .ok (), 1000⟩ : ExecuteCall Unit Unit)).invoked = true := by
  obtain ⟨state, invokes⟩ := execute_mirrors ⟨some 1, some 1000⟩ le_rfl failedOnce
  refine ⟨state.trans (by decide +kernel), (invokes _).mpr (.inr ⟨0, ?_⟩)⟩
  decide +kernel

end DistributedFileStorage.ErrorHandling
