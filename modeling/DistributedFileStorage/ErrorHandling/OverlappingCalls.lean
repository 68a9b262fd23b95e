import DistributedFileStorage.Async.LawfulRuns
import DistributedFileStorage.ErrorHandling.CircuitBreaker
import Mathlib.Algebra.Order.Ring.Cast
import Mathlib.Tactic.Linarith

/-!
# Calls of `execute` that overlap

Calls that have been let through settle later, and may find the breaker in another state than the
one they were let through in. A failure leaves an open breaker open. But a success closes it,
whatever has happened since its operation was invoked.

An open breaker keeps its promise, that it lets no call through before the reset timeout has passed,
in every run in which no operation succeeds in this time (`staysOpen`).
-/

set_option autoImplicit false

namespace DistributedFileStorage.ErrorHandling

open Async Store

variable {ι Operation T : Type}

abbrev BreakerEvent (ι Operation T : Type) : Type := Event (breaking Operation T) ι Breaking

namespace BreakerEvent

variable (event : BreakerEvent ι Operation T)

/-- What the clock shows at the call. -/
def time : Time := event.after.clock

/-- The breaker becomes open. -/
def Opens : Prop := event.before.breaker.state ≠ .opened ∧ event.after.breaker.state = .opened

instance : Decidable event.Opens := inferInstanceAs (Decidable (_ ∧ _))

/-- An operation is invoked. -/
def invokes : Bool :=
  match event.op, event.outcome with
  | .enter, .ok _ => true
  | _, _ => false

/-- An operation has succeeded. -/
def succeeds : Bool :=
  match event.op with
  | .onSuccess => true
  | _ => false

end BreakerEvent

/-- After the breaker has become open no operation is invoked for some time. -/
def StaysOpen (resetTimeoutMs : ℚ) (history : List (BreakerEvent ι Operation T)) : Prop :=
  history.Pairwise fun opening call =>
    BreakerEvent.Opens opening → BreakerEvent.invokes call = true →
      (BreakerEvent.time opening : ℚ) + resetTimeoutMs ≤ BreakerEvent.time call

/-- After the breaker has become open no operation succeeds for some time, while it is open. -/
def NoEarlySuccess (resetTimeoutMs : ℚ) (history : List (BreakerEvent ι Operation T)) : Prop :=
  history.Pairwise fun opening success =>
    BreakerEvent.Opens opening → BreakerEvent.succeeds success = true →
      success.before.breaker.state = .opened → (BreakerEvent.time opening : ℚ) + resetTimeoutMs ≤
        BreakerEvent.time success

/-! ## One call -/

/-- The reset timeout has passed since a time, or the breaker is open and counts from that time or a
later one. -/
def HeldOpen (time : Time) (state : Breaking) : Prop :=
  (time : ℚ) + state.breaker.resetTimeoutMs ≤ state.clock ∨
    (state.breaker.state = .opened ∧ time ≤ state.breaker.lastFailureTime)

variable {op : BreakerOp Operation} {before after : Breaking}
  {outcome : Except Failure (op.Result T)}

theorem clock_step (happens : Breaking.semantics op before outcome after) :
    before.clock ≤ after.clock := by
  cases op <;> exact happens.1

theorem resetTimeoutMs_enter (breaker : CircuitBreaker) (now : Time) :
    (breaker.enter now).2.resetTimeoutMs = breaker.resetTimeoutMs := by
  unfold CircuitBreaker.enter
  split
  · split <;> rfl
  · rfl

/-- The reset timeout is that of the options. -/
theorem resetTimeoutMs_step (happens : Breaking.semantics op before outcome after) :
    after.breaker.resetTimeoutMs = before.breaker.resetTimeoutMs := by
  cases op with
  | enter =>
      have same := resetTimeoutMs_enter before.breaker after.clock
      rwa [happens.2] at same
  | operation operation => rw [happens.2]
  | onSuccess =>
      rw [happens.2.2]
      rfl
  | onFailure =>
      rw [happens.2.2]
      rfl

/-- **Only a failure opens the breaker**, and the breaker counts from it. -/
theorem lastFailureTime_of_opens {task : ι} (happens : Breaking.semantics op before outcome after)
    (opens : BreakerEvent.Opens (⟨task, op, outcome, before, after⟩ : BreakerEvent ι Operation T)) :
    op = .onFailure ∧ after.breaker.lastFailureTime = after.clock := by
  obtain ⟨wasShut, isOpen⟩ := opens
  cases op with
  | enter =>
      have admits := happens.2
      unfold CircuitBreaker.enter at admits
      rw [if_neg wasShut] at admits
      exact absurd ((Prod.mk.inj admits).2 ▸ isOpen) wasShut
  | operation operation => exact absurd (happens.2 ▸ isOpen) wasShut
  | onSuccess =>
      dsimp only at isOpen
      rw [happens.2.2] at isOpen
      cases isOpen
  | onFailure =>
      refine ⟨rfl, ?_⟩
      rw [happens.2.2]
      rfl

/-- **One call keeps the breaker open**, and invokes no operation early, unless an operation
succeeds early. -/
theorem heldOpen_step {time : Time} {task : ι}
    (happens : Breaking.semantics op before outcome after) (past : time ≤ before.clock)
    (held : HeldOpen time before)
    (late : BreakerEvent.succeeds
        (⟨task, op, outcome, before, after⟩ : BreakerEvent ι Operation T) = true →
      before.breaker.state = .opened → (time : ℚ) + before.breaker.resetTimeoutMs ≤ after.clock) :
    HeldOpen time after ∧ (BreakerEvent.invokes
        (⟨task, op, outcome, before, after⟩ : BreakerEvent ι Operation T) = true →
      (time : ℚ) + before.breaker.resetTimeoutMs ≤ after.clock) := by
  have moves : (before.clock : ℚ) ≤ after.clock := Int.cast_le.mpr (clock_step happens)
  have timeout := resetTimeoutMs_step happens
  by_cases passed : (time : ℚ) + before.breaker.resetTimeoutMs ≤ after.clock
  · exact ⟨.inl (timeout ▸ passed), fun _ => passed⟩
  · obtain ⟨isOpen, counts⟩ := held.resolve_left fun early => passed (early.trans moves)
    cases op with
    | enter =>
        have admits := happens.2
        unfold CircuitBreaker.enter at admits
        have recent : ¬ before.breaker.resetTimeoutMs ≤
            (after.clock - before.breaker.lastFailureTime : ℤ) := by
          intro elapsed
          have counts : (time : ℚ) ≤ before.breaker.lastFailureTime := Int.cast_le.mpr counts
          push_cast at elapsed
          exact passed (by linarith)
        rw [if_pos isOpen, if_neg recent] at admits
        obtain ⟨rfl, same⟩ := Prod.mk.inj admits
        exact ⟨.inr (same ▸ ⟨isOpen, counts⟩), nofun⟩
    | operation operation => exact ⟨.inr (happens.2 ▸ ⟨isOpen, counts⟩), nofun⟩
    | onSuccess => exact absurd (late rfl isOpen) passed
    | onFailure =>
        refine ⟨.inr ?_, nofun⟩
        rw [happens.2.2]
        refine ⟨?_, past.trans (clock_step happens)⟩
        show (if _ then CircuitState.opened else before.breaker.state) = .opened
        rw [isOpen, ite_self]

/-! ## Every run -/

/-- Once the breaker has become open, it is held open from then on. -/
theorem heldOpen_of_opens {task : ι} (happens : Breaking.semantics op before outcome after)
    (opens : BreakerEvent.Opens (⟨task, op, outcome, before, after⟩ : BreakerEvent ι Operation T)) :
    HeldOpen after.clock after :=
  .inr ⟨opens.2, (lastFailureTime_of_opens happens opens).2.ge⟩

/-- What holds after every call: no operation has been invoked early, and the breaker is held open
since it has become open. -/
structure KeepsOpen (resetTimeoutMs : ℚ) (moment : Moment (breaking Operation T) ι Breaking) :
    Prop where
  stays : StaysOpen resetTimeoutMs moment.history
  timeout : moment.state.breaker.resetTimeoutMs = resetTimeoutMs
  past : ∀ event ∈ moment.history, BreakerEvent.time event ≤ moment.state.clock
  held : ∀ event ∈ moment.history,
    BreakerEvent.Opens event → HeldOpen (BreakerEvent.time event) moment.state

/-- Each call keeps it, when no operation succeeds early. -/
theorem KeepsOpen.next {resetTimeoutMs : ℚ} {before : Moment (breaking Operation T) ι Breaking}
    (keeps : KeepsOpen resetTimeoutMs before) {task : ι} {op : BreakerOp Operation}
    {outcome : Except Failure (op.Result T)} {after : Breaking}
    (happens : Breaking.semantics op before.state outcome after)
    (noEarly : NoEarlySuccess resetTimeoutMs (before.next task op outcome after).history) :
    KeepsOpen resetTimeoutMs (before.next task op outcome after) := by
  unfold NoEarlySuccess at noEarly
  rw [Moment.history_next, List.pairwise_append] at noEarly
  obtain ⟨_, _, late⟩ := noEarly
  have step : ∀ event ∈ before.history, BreakerEvent.Opens event → _ :=
    fun event member opens => heldOpen_step happens (keeps.past event member)
      (keeps.held event member opens) fun succeeds isOpen => by
        rw [keeps.timeout]
        exact late event member _ (List.mem_singleton.mpr rfl) opens succeeds isOpen
  refine ⟨?_, (resetTimeoutMs_step happens).trans keeps.timeout, ?_, ?_⟩
  · unfold StaysOpen
    rw [Moment.history_next, List.pairwise_append]
    refine ⟨keeps.stays, List.pairwise_singleton _ _, fun event member call new opens invokes => ?_⟩
    obtain rfl := List.mem_singleton.mp new
    have waits := (step event member opens).2 invokes
    rwa [keeps.timeout] at waits
  · rw [Moment.history_next, List.forall_mem_append, List.forall_mem_singleton]
    exact ⟨fun event member => (keeps.past event member).trans (clock_step happens), le_rfl⟩
  · rw [Moment.history_next, List.forall_mem_append, List.forall_mem_singleton]
    exact ⟨fun event member opens => (step event member opens).1, heldOpen_of_opens happens⟩

variable [DecidableEq ι]

/-- **The breaker stays open.** However the calls overlap, and whatever their operations settle to,
no operation is invoked before the reset timeout has passed since the breaker has become open, in
every run in which no operation succeeds in this time while it is open. -/
theorem staysOpen (options : CircuitBreakerOptions) (start : Time) (operations : ι → Operation)
    {tasks : Pool (breaking Operation T) ι T} {reached : Moment (breaking Operation T) ι Breaking}
    (run : PoolRuns Breaking.semantics
      (fun task => execute (operations task), .start ⟨.new options, start⟩) (tasks, reached))
    (noEarly : NoEarlySuccess (CircuitBreaker.new options).resetTimeoutMs reached.history) :
    StaysOpen (CircuitBreaker.new options).resetTimeoutMs reached.history := by
  have lawful := run.lawful
  have keeps : KeepsOpen (CircuitBreaker.new options).resetTimeoutMs reached := by
    clear run
    induction lawful with
    | start => exact ⟨.nil, rfl, List.forall_mem_nil _, List.forall_mem_nil _⟩
    | next earlier _ happens ih =>
        refine (ih (List.Pairwise.sublist ?_ noEarly)).next happens noEarly
        exact List.sublist_append_left _ _
  exact keeps.stays

/-! ## An operation that settles late -/

/-- What each of three operations settles to: the first one fails. -/
def firstFails : Fin 3 → Except Failure Unit
  | 0 => .error .unavailable
  | _ => .ok ()

/-- The calls, with a clock that stands still. -/
def stillHandler : Handler (breaking (Fin 3) Unit) Breaking
  | .enter, state =>
      let admitted := state.breaker.enter state.clock
      (admitted.1, { state with breaker := admitted.2 })
  | .operation operation, state => (firstFails operation, state)
  | .onSuccess, state => (.ok (), { state with breaker := state.breaker.onSuccess })
  | .onFailure, state => (.ok (), { state with breaker := state.breaker.onFailure state.clock })

theorem semantics_stillHandler (op : BreakerOp (Fin 3)) (state : Breaking) :
    Breaking.semantics op state (stillHandler op state).1 (stillHandler op state).2 := by
  cases op with
  | enter => exact ⟨le_rfl, rfl⟩
  | operation operation => exact ⟨le_rfl, rfl⟩
  | onSuccess => exact ⟨le_rfl, rfl, rfl⟩
  | onFailure => exact ⟨le_rfl, rfl, rfl⟩

/-- Three calls of a breaker that opens at the first failure, in an order. -/
def threeCalls (schedule : List (Fin 3)) :
    Pool (breaking (Fin 3) Unit) (Fin 3) Unit × Moment (breaking (Fin 3) Unit) (Fin 3) Breaking :=
  Pool.runSchedule stillHandler schedule
    (fun task => execute task, .start ⟨.new ⟨some 1, some 1000⟩, 0⟩)

theorem runs_threeCalls (schedule : List (Fin 3)) :
    PoolRuns Breaking.semantics
      (fun task => execute (id task), .start ⟨.new ⟨some 1, some 1000⟩, 0⟩)
      ((threeCalls schedule).1, (threeCalls schedule).2) :=
  Pool.runs_runSchedule semantics_stillHandler _ _

/-- The first operation fails, and the second call is rejected. -/
theorem staysOpen_rejected :
    StaysOpen (CircuitBreaker.new ⟨some 1, some 1000⟩).resetTimeoutMs
      (threeCalls [0, 0, 0, 1]).2.history :=
  staysOpen ⟨some 1, some 1000⟩ 0 id (runs_threeCalls [0, 0, 0, 1]) (by
    unfold NoEarlySuccess
    decide +kernel)

/-- **A late success closes the breaker.** Two operations are invoked, the first one fails and opens
the breaker, the second one succeeds and closes it, and a third one is invoked at the time of the
failure. -/
theorem late_success_closes :
    ∃ tasks reached, PoolRuns Breaking.semantics
        (fun task : Fin 3 => execute (T := Unit) (id task),
          .start ⟨.new ⟨some 1, some 1000⟩, 0⟩) (tasks, reached) ∧
      ¬ StaysOpen (CircuitBreaker.new ⟨some 1, some 1000⟩).resetTimeoutMs reached.history := by
  refine ⟨_, _, runs_threeCalls [0, 1, 0, 0, 1, 1, 2], ?_⟩
  unfold StaysOpen
  decide +kernel

end DistributedFileStorage.ErrorHandling
