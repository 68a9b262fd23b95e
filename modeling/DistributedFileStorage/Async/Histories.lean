import DistributedFileStorage.Async.Interference

/-!
# Programs with their history

A program that runs alone, on a state that remembers the calls made so far. The conditions
that a run puts on its calls, for instance on which of them fail and when, are conditions on
this history. The rules of pre- and postconditions are those of any other semantics.
-/

set_option autoImplicit false

namespace DistributedFileStorage.Async

open Program

variable {I : Interface} {S α : Type}

/-- A semantics of the calls, with a record of each call. -/
def Semantics.recorded (sem : Semantics I S) : Semantics I (Moment I Unit S) :=
  fun op before outcome after =>
    ∃ state, sem op before.state outcome state ∧ after = before.next () op outcome state

/-- A handler of the calls, with a record of each call. -/
def Handler.recorded (handler : Handler I S) : Handler I (Moment I Unit S) := fun op before =>
  ((handler op before.state).1,
    before.next () op (handler op before.state).1 (handler op before.state).2)

/-- The call was made and failed. -/
def Event.fails {ι : Type} (event : Event I ι S) : Bool :=
  match event.outcome with
  | .ok _ => false
  | .error _ => true

variable {sem : Semantics I S} {handler : Handler I S}

theorem Semantics.recorded_mono {weaker : Semantics I S}
    (allows : ∀ op before outcome after, sem op before outcome after →
      weaker op before outcome after)
    (op : I.Op) (before : Moment I Unit S) (outcome : I.Outcome (I.Result op))
    (after : Moment I Unit S) (happens : sem.recorded op before outcome after) :
    weaker.recorded op before outcome after := by
  obtain ⟨state, made, reached⟩ := happens
  exact ⟨state, allows op _ _ _ made, reached⟩

/-- What a handler does is one of the recorded runs of a semantics that it is part of. -/
theorem runs_recorded (works : ∀ op state, sem op state (handler op state).1 (handler op state).2)
    (program : Program I α) (moment : Moment I Unit S) :
    Runs sem.recorded program moment (program.run handler.recorded moment).1
      (program.run handler.recorded moment).2 := by
  induction program generalizing moment with
  | done outcome => exact .done _ _
  | call op next ih => exact .call ⟨_, works op moment.state, rfl⟩ (ih _ _)

/-- A program that always resolves has a run that does. -/
theorem Triple.resolves {pre : Moment I Unit S → Prop} {program : Program I α}
    {resolved : α → Moment I Unit S → Prop}
    (triple : Triple handler.semantics.recorded pre program resolved fun _ => False)
    {moment : Moment I Unit S} (start : pre moment) :
    ∃ value reached, Runs handler.semantics.recorded program moment (.ok value) reached ∧
      resolved value reached := by
  have run : Runs handler.semantics.recorded program moment _ _ :=
    runs_recorded (fun _ _ => rfl) program moment
  have ends := triple start run
  cases settled : (program.run handler.recorded moment).1 with
  | ok value =>
      rw [settled] at run ends
      exact ⟨value, _, run, ends⟩
  | error failure =>
      rw [settled] at ends
      exact ends.elim

/-- A recorded run goes on with the history. -/
theorem Runs.history_prefix {program : Program I α} {before after : Moment I Unit S}
    {outcome : I.Outcome α} (run : Runs sem.recorded program before outcome after) :
    before.history <+: after.history := by
  induction run with
  | done outcome moment => exact List.prefix_rfl
  | call step rest ih =>
      obtain ⟨state, _, rfl⟩ := step
      exact (List.prefix_append _ _).trans ih

/-- A recorded run is a run. -/
theorem Runs.of_recorded {program : Program I α} {before after : Moment I Unit S}
    {outcome : I.Outcome α} (run : Runs sem.recorded program before outcome after) :
    Runs sem program before.state outcome after.state := by
  induction run with
  | done outcome moment => exact .done _ _
  | call step rest ih =>
      obtain ⟨state, made, rfl⟩ := step
      exact .call made ih

/-- A run has a record. -/
theorem Runs.exists_recorded {program : Program I α} {before after : S} {outcome : I.Outcome α}
    (run : Runs sem program before outcome after) (start : Moment I Unit S)
    (state : start.state = before) :
    ∃ reached, Runs sem.recorded program start outcome reached ∧ reached.state = after := by
  induction run generalizing start with
  | done outcome _ => exact ⟨start, .done _ _, state⟩
  | call step rest ih =>
      subst state
      obtain ⟨reached, later, same⟩ := ih (start.next () _ _ _) rfl
      exact ⟨reached, .call ⟨_, step, rfl⟩ later, same⟩

/-- A triple about the states of a program holds of its recorded runs. -/
theorem Triple.recorded {pre rejected : S → Prop} {program : Program I α} {resolved : α → S → Prop}
    (triple : Triple sem pre program resolved rejected) :
    Triple sem.recorded (fun moment => pre moment.state) program
      (fun value moment => resolved value moment.state) fun moment => rejected moment.state := by
  intro before outcome after start run
  have ends := triple start run.of_recorded
  cases outcome with
  | ok value => exact ends
  | error failure => exact ends

/-- The rule of one call. -/
theorem Triple.perform_recorded {op : I.Op} {pre rejected : Moment I Unit S → Prop}
    {resolved : I.Result op → Moment I Unit S → Prop}
    (step : ∀ before outcome state, pre before → sem op before.state outcome state →
      Ends resolved rejected outcome (before.next () op outcome state)) :
    Triple sem.recorded pre (Program.perform op) resolved rejected := by
  refine .perform fun before outcome after start happens => ?_
  obtain ⟨state, made, rfl⟩ := happens
  exact step before outcome state start made

end DistributedFileStorage.Async
