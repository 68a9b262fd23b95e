import DistributedFileStorage.Async.OwnCalls

/-!
# Programs whose calls are programs

A layer awaits calls that another layer implements by programs of its own. `Program.implement` puts
these programs in the place of the calls. A call that no program implements stays a call. Its reply
may be anything (`Interface.withReplies`).

The rules of the implemented program are those of `Follows`: a program keeps what the programs of
its calls keep (`Follows.implement`), and what is known of a program over the lower interface is
known of it where it serves a call (`Follows.serve`). A lawful run of the whole is a lawful run of
the lower layer (`LawfulRun.lower`), the replies left out.
-/

set_option autoImplicit false

namespace DistributedFileStorage.Async

open Program

variable {I J K : Interface} {ι S α β γ : Type}

/-- An interface together with the calls of another one, each of which settles to a reply. -/
@[reducible] def Interface.withReplies (I K : Interface) : Interface where
  Op := I.Op ⊕ K.Op
  Result
    | .inl op => I.Result op
    | .inr op => K.Outcome (K.Result op)
  Failure := I.Failure

/-- A reply may be anything, and leaves the state as it is. -/
def Semantics.withReplies (sem : Semantics I S) (K : Interface) : Semantics (I.withReplies K) S
  | .inl op, before, outcome, after => sem op before outcome after
  | .inr _, before, outcome, after => (∃ reply, outcome = .ok reply) ∧ after = before

/-- The calls of another interface, on a state of its own. -/
def Semantics.beside {T : Type} (sem : Semantics I S) (other : Semantics K T) :
    Semantics (I.withReplies K) (S × T)
  | .inl op, before, outcome, after => sem op before.1 outcome after.1 ∧ after.2 = before.2
  | .inr op, before, outcome, after =>
      (∃ reply, outcome = .ok reply ∧ other op before.2 reply after.2) ∧ after.1 = before.1

/-- A handler of the calls, next to some replies. -/
def Handler.withReplies (handler : Handler I S) (reply : (op : K.Op) → K.Outcome (K.Result op)) :
    Handler (I.withReplies K) S
  | .inl op, state => handler op state
  | .inr op, state => (.ok (reply op), state)

namespace Program

/-- A program as the implementation of a call: it resolves to what the call settles to. -/
def serve (thrown : I.Failure → K.Failure) :
    Program I α → Program (I.withReplies K) (K.Outcome α)
  | .done outcome => .done (.ok (outcome.mapError thrown))
  | .call op next => .call (.inl op) fun outcome => (next outcome).serve thrown

/-- Run the implementation of each call in its place. -/
def implement (service : (op : K.Op) → Program J (K.Outcome (K.Result op))) :
    Program K α → Program J (K.Outcome α)
  | .done outcome => pure outcome
  | .call op next => service op >>= fun outcome => (next outcome).implement service

/-- Go on with the value of what has settled. -/
def onward (next : α → Program J (K.Outcome β)) : K.Outcome α → Program J (K.Outcome β)
  | .ok value => next value
  | .error failure => pure (.error failure)

/-- Go on with the failure of what has settled. -/
def recover (handle : K.Failure → Program J (K.Outcome α)) : K.Outcome α → Program J (K.Outcome α)
  | .ok value => pure (.ok value)
  | .error failure => handle failure

variable {service : (op : K.Op) → Program J (K.Outcome (K.Result op))}

theorem implement_bind (program : Program K α) (next : α → Program K β) :
    (program >>= next).implement service =
      program.implement service >>= onward fun value => (next value).implement service := by
  induction program with
  | done outcome => cases outcome <;> rfl
  | call op continuation ih =>
      show (service op >>= fun outcome => (continuation outcome >>= next).implement service) =
        service op >>= (fun outcome => (continuation outcome).implement service) >>= _
      rw [bind_assoc]
      exact congrArg _ (funext fun outcome => ih outcome)

theorem implement_tryCatch (program : Program K α) (handle : K.Failure → Program K α) :
    (program.tryCatch handle).implement service =
      program.implement service >>= recover fun failure => (handle failure).implement service := by
  induction program with
  | done outcome => cases outcome <;> rfl
  | call op continuation ih =>
      show (service op >>= fun outcome =>
          ((continuation outcome).tryCatch handle).implement service) =
        service op >>= (fun outcome => (continuation outcome).implement service) >>= _
      rw [bind_assoc]
      exact congrArg _ (funext fun outcome => ih outcome)

theorem implement_perform (op : K.Op) :
    (perform op : Program K (K.Result op)).implement service = service op :=
  bind_pure (service op)

end Program

/-- **A program that serves a call runs as it does alone.** -/
theorem Program.Runs.serve_iff {T : Type} {sem : Semantics I S} {other : Semantics K T}
    {thrown : I.Failure → K.Failure} {program : Program I α} {before after : S × T}
    {outcome : (I.withReplies K).Outcome (K.Outcome α)} :
    Runs (sem.beside other) (program.serve thrown) before outcome after ↔
      ∃ settled, Runs sem program before.1 settled after.1 ∧
        outcome = .ok (settled.mapError thrown) ∧ after.2 = before.2 := by
  induction program generalizing before with
  | done settled =>
      show Runs _ (.done (.ok (settled.mapError thrown))) before outcome after ↔ _
      simp only [Runs.done_iff]
      constructor
      · rintro ⟨rfl, rfl⟩
        exact ⟨settled, ⟨rfl, rfl⟩, rfl, rfl⟩
      · rintro ⟨_, ⟨rfl, first⟩, rfl, second⟩
        exact ⟨rfl, Prod.ext first second⟩
  | call op next ih =>
      show Runs _ (.call (I := I.withReplies K) (.inl op) fun outcome =>
        (next outcome).serve thrown) before outcome after ↔ _
      simp only [Runs.call_iff, ih]
      constructor
      · rintro ⟨reply, middle, ⟨step, kept⟩, settled, run, ended, last⟩
        exact ⟨settled, ⟨reply, middle.1, step, run⟩, ended, last.trans kept⟩
      · rintro ⟨settled, ⟨reply, middle, step, run⟩, ended, last⟩
        exact ⟨reply, (middle, before.2), ⟨step, rfl⟩, settled, run, ended, last⟩

/-! ## The lower layer -/

/-- A call of the lower interface. -/
def Event.lower? : Event (I.withReplies K) ι S → Option (Event I ι S)
  | ⟨task, .inl op, outcome, before, after⟩ => some ⟨task, op, outcome, before, after⟩
  | ⟨_, .inr _, _, _, _⟩ => none

/-- The calls of the lower interface. -/
def lowerCalls (history : List (Event (I.withReplies K) ι S)) : List (Event I ι S) :=
  history.filterMap Event.lower?

@[simp] theorem lowerCalls_append (first second : List (Event (I.withReplies K) ι S)) :
    lowerCalls (first ++ second) = lowerCalls first ++ lowerCalls second :=
  List.filterMap_append

theorem Event.task_of_lower? {event : Event (I.withReplies K) ι S} {lower : Event I ι S}
    (same : event.lower? = some lower) : lower.task = event.task := by
  obtain ⟨task, op | op, outcome, before, after⟩ := event
  · obtain rfl := Option.some.inj same
    rfl
  · cases same

theorem callsOf_lowerCalls [DecidableEq ι] (task : ι)
    (history : List (Event (I.withReplies K) ι S)) :
    callsOf task (lowerCalls history) = lowerCalls (callsOf task history) := by
  unfold callsOf lowerCalls
  rw [List.filter_filterMap, List.filterMap_filter]
  refine List.filterMap_congr fun event _ => ?_
  cases lower : event.lower? with
  | none => simp
  | some low => simp [Option.filter, Event.task_of_lower? lower]

/-- A moment, the replies left out. -/
def Moment.lower (moment : Moment (I.withReplies K) ι S) : Moment I ι S :=
  ⟨lowerCalls moment.history, moment.state⟩

theorem Moment.lower_next (moment : Moment (I.withReplies K) ι S) (task : ι) (op : I.Op)
    (outcome : I.Outcome (I.Result op)) (after : S) :
    Moment.lower (moment.next task (.inl op) outcome after) =
      moment.lower.next task op outcome after :=
  congrArg (Moment.mk · after) (lowerCalls_append _ _)

variable {sem : Semantics I S}

/-- **A lawful run is a lawful run of the lower layer.** -/
theorem LawfulRun.lower {law : List (Event (I.withReplies K) ι S) → ι → (I.withReplies K).Op → Prop}
    {rule : List (Event I ι S) → ι → I.Op → Prop}
    (allows : ∀ history task op, law history task (.inl op) → rule (lowerCalls history) task op)
    {origin : S} {moment : Moment (I.withReplies K) ι S}
    (lawful : LawfulRun (sem.withReplies K) law origin moment) :
    LawfulRun sem rule origin moment.lower := by
  induction lawful with
  | start => exact .start
  | @next before task op outcome after earlier keeps happens ih =>
      cases op with
      | inl op =>
          rw [Moment.lower_next]
          exact ih.next (allows _ _ _ keeps) happens
      | inr op =>
          obtain ⟨_, rfl⟩ := happens
          have unchanged : Moment.lower (before.next task (.inr op) outcome before.state) =
              before.lower :=
            congrArg (Moment.mk · before.state) ((lowerCalls_append _ _).trans (List.append_nil _))
          rw [unchanged]
          exact ih

/-! ## The rules -/

variable [DecidableEq ι] {task : ι}

theorem Moment.calls_lower (moment : Moment (I.withReplies K) ι S) :
    moment.lower.calls task = lowerCalls (moment.calls task) :=
  callsOf_lowerCalls task moment.history

section Serve

variable {rule : ι → List (Event I ι S) → I.Op → Prop}
  {law : ι → List (Event (I.withReplies K) ι S) → (I.withReplies K).Op → Prop}
  {thrown : I.Failure → K.Failure} {program : Program I α}

theorem Upholds.serve {moment : Moment (I.withReplies K) ι S} {resolved : α → Moment I ι S → Prop}
    {rejected : Moment I ι S → Prop}
    (allows : ∀ calls op, rule task (lowerCalls calls) op → law task calls (.inl op))
    (upholds : Upholds sem (SameCalls task) (CallsBy sem rule task) task program moment.lower
      resolved rejected) :
    Upholds (sem.withReplies K) (SameCalls task) (CallsBy (sem.withReplies K) law task) task
      (program.serve thrown) moment
      (fun outcome later => Ends (I := K) resolved rejected outcome later.lower)
      fun _ => False := by
  induction program generalizing moment with
  | done outcome => cases outcome <;> exact upholds
  | call op next ih =>
      intro before same outcome after happens
      have lowerSame : SameCalls task moment.lower before.lower := by
        unfold SameCalls
        rw [Moment.calls_lower, Moment.calls_lower]
        exact congrArg lowerCalls same
      obtain ⟨made, rest⟩ := upholds before.lower lowerSame outcome after happens
      have keeps := made.keeps
      rw [Moment.calls_lower] at keeps
      rw [← Moment.lower_next] at rest
      exact ⟨⟨.inl op, outcome, after, happens, allows _ _ keeps, rfl⟩, ih outcome rest⟩

/-- **What is known of a program is known of it as the implementation of a call.** -/
theorem Follows.serve {calls : List (Event (I.withReplies K) ι S)}
    {resolved : α → List (Event I ι S) → Prop} {rejected : List (Event I ι S) → Prop}
    (allows : ∀ calls op, rule task (lowerCalls calls) op → law task calls (.inl op))
    (follows : Follows sem rule task program (lowerCalls calls) resolved rejected) :
    Follows (sem.withReplies K) law task (program.serve thrown) calls
      (fun outcome later => Ends (I := K) resolved rejected outcome (lowerCalls later))
      fun _ => False := by
  rintro moment rfl
  refine (Upholds.serve allows (follows moment.lower (Moment.calls_lower _))).consequence ?_
    fun _ => id
  intro outcome later holds
  dsimp only
  rw [← Moment.calls_lower]
  cases outcome with
  | ok value => exact holds
  | error failure => exact holds

/-- The rule of a call that nobody implements. -/
theorem Follows.reply {calls : List (Event (I.withReplies K) ι S)} {op : K.Op}
    {resolved : K.Outcome (K.Result op) → List (Event (I.withReplies K) ι S) → Prop}
    {rejected : List (Event (I.withReplies K) ι S) → Prop} (allowed : law task calls (.inr op))
    (ends : ∀ reply state, resolved reply (calls ++ [⟨task, .inr op, .ok reply, state, state⟩])) :
    Follows (sem.withReplies K) law task
      (Program.perform (I := I.withReplies K) (.inr op)) calls resolved rejected := by
  refine .perform allowed fun before outcome after happens => ?_
  obtain ⟨⟨reply, rfl⟩, rfl⟩ := happens
  exact ends reply after

end Serve

namespace Follows

variable {semJ : Semantics J S} {rule : ι → List (Event J ι S) → J.Op → Prop}
  {service : (op : K.Op) → Program J (K.Outcome (K.Result op))} {program : Program K α}
  {calls : List (Event J ι S)} {rejected : List (Event J ι S) → Prop}

/-- **A program keeps what the implementations of its calls keep.** -/
theorem implement {allowed : K.Op → Prop} {assertion : List (Event J ι S) → Prop}
    (step : ∀ calls op, allowed op → assertion calls →
      Follows semJ rule task (service op) calls (fun _ => assertion) rejected)
    (made : program.AllCalls allowed) (holds : assertion calls) :
    Follows semJ rule task (program.implement service) calls (fun _ => assertion) rejected := by
  induction program generalizing calls with
  | done outcome => exact .pure holds
  | call op next ih =>
      refine .bind ((step calls op made.1 holds).consequence ?_ fun _ => id)
      exact fun outcome later held => ih outcome (made.2 outcome) held

theorem implement_bind {next : α → Program K β}
    {resolved : K.Outcome β → List (Event J ι S) → Prop}
    (first : Follows semJ rule task (program.implement service) calls
      (Ends (I := K) (fun value later =>
          Follows semJ rule task ((next value).implement service) later resolved rejected)
        fun later => ∀ failure, resolved (.error failure) later) rejected) :
    Follows semJ rule task ((program >>= next).implement service) calls resolved rejected := by
  rw [Program.implement_bind]
  refine .bind (first.consequence ?_ fun _ => id)
  intro outcome later holds
  cases outcome with
  | ok value => exact holds
  | error failure => exact .pure (holds failure)

theorem implement_tryCatch {handle : K.Failure → Program K α}
    {resolved : K.Outcome α → List (Event J ι S) → Prop}
    (body : Follows semJ rule task (program.implement service) calls
      (Ends (I := K) (fun value later => resolved (.ok value) later) fun later => ∀ failure,
        Follows semJ rule task ((handle failure).implement service) later resolved rejected)
      rejected) :
    Follows semJ rule task ((program.tryCatch handle).implement service) calls resolved
      rejected := by
  rw [Program.implement_tryCatch]
  refine .bind (body.consequence ?_ fun _ => id)
  intro outcome later holds
  cases outcome with
  | ok value => exact .pure holds
  | error failure => exact holds failure

theorem implement_perform {op : K.Op}
    {resolved : K.Outcome (K.Result op) → List (Event J ι S) → Prop}
    (served : Follows semJ rule task (service op) calls resolved rejected) :
    Follows semJ rule task ((Program.perform op : Program K (K.Result op)).implement service) calls
      resolved rejected :=
  .bind (served.consequence (fun _ _ holds => .pure holds) fun _ => id)

end Follows

end DistributedFileStorage.Async
