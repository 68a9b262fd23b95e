import DistributedFileStorage.Async.LawfulRuns

/-!
# The calls of one task

Whatever the others do, the calls that a task has made itself are known to it: no other task adds
to them. A program follows a rule when each of its calls is one that the rule allows after the
calls made so far, and it ends with postconditions on its own calls (`Follows`). This needs no
condition on the others, so that the rules of a program are those of a program that runs alone.

In a pool whose tasks follow a rule every run is lawful, and the calls of a settled task are as its
postconditions say (`Pool.follows`).
-/

set_option autoImplicit false

namespace DistributedFileStorage.Async

open Program

variable {I : Interface} {ι S α β σ : Type}

/-- The calls of a task in a history. -/
def callsOf [DecidableEq ι] (task : ι) (history : List (Event I ι S)) : List (Event I ι S) :=
  history.filter fun event => event.task = task

theorem Moment.calls_eq [DecidableEq ι] (task : ι) (moment : Moment I ι S) :
    moment.calls task = callsOf task moment.history := rfl

theorem mem_callsOf [DecidableEq ι] {task : ι} {history : List (Event I ι S)}
    {event : Event I ι S} : event ∈ callsOf task history ↔ event ∈ history ∧ event.task = task := by
  simp [callsOf]

variable [DecidableEq ι]

/-- The last call of a task is a late one, or was its last call before. -/
theorem getLast?_callsOf_append {task : ι} {first second : List (Event I ι S)}
    {event : Event I ι S} (last : (callsOf task (first ++ second)).getLast? = some event) :
    event ∈ second ∨ (callsOf task first).getLast? = some event := by
  rw [callsOf, List.filter_append, List.getLast?_append] at last
  rcases Option.or_eq_some_iff.mp last with late | ⟨_, early⟩
  · exact .inl (List.mem_filter.mp (List.mem_of_getLast? late)).1
  · exact .inr early

/-- The others have added nothing to the calls of the task. -/
def SameCalls (task : ι) (before after : Moment I ι S) : Prop :=
  after.calls task = before.calls task

/-- The task has made a call that the rule allows after its calls so far. -/
def CallsBy (sem : Semantics I S) (rule : ι → List (Event I ι S) → I.Op → Prop) (task : ι)
    (before after : Moment I ι S) : Prop :=
  ∃ op outcome state, sem op before.state outcome state ∧ rule task (before.calls task) op ∧
    after = before.next task op outcome state

/-- The rule of the call that a task has made. -/
theorem CallsBy.keeps {sem : Semantics I S} {rule : ι → List (Event I ι S) → I.Op → Prop} {task : ι}
    {before : Moment I ι S} {op : I.Op} {outcome : I.Outcome (I.Result op)} {after : S}
    (calls : CallsBy sem rule task before (before.next task op outcome after)) :
    rule task (before.calls task) op := by
  obtain ⟨other, result, state, _, keeps, same⟩ := calls
  have events := List.append_cancel_left (congrArg Moment.history same)
  cases events
  exact keeps

/-- After its calls so far the program makes calls that the rule allows, and ends with calls as the
postconditions say. -/
def Follows (sem : Semantics I S) (rule : ι → List (Event I ι S) → I.Op → Prop) (task : ι)
    (program : Program I α) (calls : List (Event I ι S))
    (resolved : α → List (Event I ι S) → Prop) (rejected : List (Event I ι S) → Prop) : Prop :=
  ∀ moment, moment.calls task = calls →
    Upholds sem (SameCalls task) (CallsBy sem rule task) task program moment
      (fun value later => resolved value (later.calls task))
      fun later => rejected (later.calls task)

namespace Follows

variable {sem : Semantics I S} {rule : ι → List (Event I ι S) → I.Op → Prop} {task : ι}
  {program : Program I α} {calls : List (Event I ι S)} {resolved : α → List (Event I ι S) → Prop}
  {rejected : List (Event I ι S) → Prop}

theorem consequence {weakerResolved : α → List (Event I ι S) → Prop}
    {weakerRejected : List (Event I ι S) → Prop}
    (follows : Follows sem rule task program calls resolved rejected)
    (afterOk : ∀ value later, resolved value later → weakerResolved value later)
    (afterError : ∀ later, rejected later → weakerRejected later) :
    Follows sem rule task program calls weakerResolved weakerRejected := by
  intro moment same
  exact (follows moment same).consequence (fun value later => afterOk value _)
    fun later => afterError _

/-- A program that follows two rules follows both at once. -/
theorem and {other : ι → List (Event I ι S) → I.Op → Prop}
    {alsoResolved : α → List (Event I ι S) → Prop} {alsoRejected : List (Event I ι S) → Prop}
    (first : Follows sem rule task program calls resolved rejected)
    (second : Follows sem other task program calls alsoResolved alsoRejected) :
    Follows sem (fun task calls op => rule task calls op ∧ other task calls op) task program calls
      (fun value later => resolved value later ∧ alsoResolved value later)
      fun later => rejected later ∧ alsoRejected later := by
  intro moment same
  replace first := first moment same
  replace second := second moment same
  clear same
  induction program generalizing moment with
  | done outcome => cases outcome <;> exact ⟨first, second⟩
  | call op next ih =>
      intro before evolved outcome after happens
      obtain ⟨made, rest⟩ := first before evolved outcome after happens
      obtain ⟨also, others⟩ := second before evolved outcome after happens
      exact ⟨⟨op, outcome, after, happens, ⟨made.keeps, also.keeps⟩, rfl⟩, ih _ _ rest others⟩

theorem pure {value : α} (holds : resolved value calls) :
    Follows sem rule task (Pure.pure value) calls resolved rejected := by
  rintro moment rfl
  exact holds

theorem throw {failure : I.Failure} (holds : rejected calls) :
    Follows sem rule task (Program.throw failure : Program I α) calls resolved rejected := by
  rintro moment rfl
  exact holds

/-- The rule of one call. -/
theorem perform {op : I.Op} {resolved : I.Result op → List (Event I ι S) → Prop}
    (allowed : rule task calls op)
    (ends : ∀ before outcome after, sem op before outcome after →
      Ends resolved rejected outcome (calls ++ [⟨task, op, outcome, before, after⟩])) :
    Follows sem rule task (Program.perform op) calls resolved rejected := by
  rintro moment rfl
  refine Upholds.perform fun before same outcome after happens => ?_
  have own : before.calls task = moment.calls task := same
  have made := ends before.state outcome after happens
  rw [← own] at allowed made
  refine ⟨⟨op, outcome, after, happens, allowed, rfl⟩, ?_⟩
  cases outcome with
  | ok value =>
      show resolved value ((before.next task op _ after).calls task)
      rw [Moment.calls_next_self]
      exact made
  | error failure =>
      show rejected ((before.next task op _ after).calls task)
      rw [Moment.calls_next_self]
      exact made

/-- The rule of one call of a deterministic handler that does not fail. -/
theorem perform_ok {handler : Handler I S} {op : I.Op} {value : S → I.Result op}
    {resolved : I.Result op → List (Event I ι S) → Prop} (allowed : rule task calls op)
    (works : ∀ state, (handler op state).1 = .ok (value state))
    (ends : ∀ state, resolved (value state)
      (calls ++ [⟨task, op, .ok (value state), state, (handler op state).2⟩])) :
    Follows handler.semantics rule task (Program.perform op) calls resolved rejected := by
  refine .perform allowed fun before outcome after happens => ?_
  have made : handler op before = (outcome, after) := happens
  have settled := works before
  rw [made] at settled
  obtain rfl : outcome = .ok (value before) := settled
  have held := ends before
  rwa [made] at held

theorem bind {next : α → Program I β} {resolved : β → List (Event I ι S) → Prop}
    (first : Follows sem rule task program calls
      (fun value later => Follows sem rule task (next value) later resolved rejected) rejected) :
    Follows sem rule task (program >>= next) calls resolved rejected := by
  intro moment same
  refine Upholds.bind ((first moment same).consequence (fun value later holds => ?_) fun _ => id)
  exact holds later rfl

theorem tryCatch {handle : I.Failure → Program I α} {caught : List (Event I ι S) → Prop}
    (body : Follows sem rule task program calls resolved caught)
    (handler : ∀ failure later, caught later →
      Follows sem rule task (handle failure) later resolved rejected) :
    Follows sem rule task (program.tryCatch handle) calls resolved rejected := by
  intro moment same
  exact (body moment same).tryCatch fun failure later holds => handler failure _ holds later rfl

theorem attempt {program : Program I Unit} {post : List (Event I ι S) → Prop}
    (body : Follows sem rule task program calls (fun _ => post) post) :
    Follows sem rule task program.attempt calls (fun _ => post) rejected :=
  body.tryCatch fun _ _ holds => .pure holds

/-- **A loop moves an assertion about its variable and the items that remain** from all items
to none. -/
theorem foldEach {body : σ → β → Program I σ} (invariant : σ → List β → List (Event I ι S) → Prop)
    (step : ∀ value item rest calls, invariant value (item :: rest) calls →
      Follows sem rule task (body value item) calls (fun updated => invariant updated rest) rejected)
    {items : List β} {value : σ} (start : invariant value items calls) :
    Follows sem rule task (Program.foldEach body value items) calls
      (fun final => invariant final []) rejected := by
  rintro moment rfl
  exact Upholds.foldEach (fun value items later => invariant value items (later.calls task))
    (fun value item rest now holds => step value item rest _ holds now rfl) start

/-- **A loop keeps what each iteration keeps.** -/
theorem forEach {body : β → Program I Unit} {invariant : List (Event I ι S) → Prop}
    (step : ∀ item calls, invariant calls →
      Follows sem rule task (body item) calls (fun _ => invariant) rejected)
    {items : List β} (start : invariant calls) :
    Follows sem rule task (Program.forEach body items) calls (fun _ => invariant) rejected := by
  rintro moment rfl
  exact Upholds.forEach (fun _ later => invariant (later.calls task))
    (fun item _ now holds => step item _ holds now rfl) start

/-- A program keeps what each of its calls keeps. -/
theorem of_allCalls {allowed : I.Op → Prop} {assertion : List (Event I ι S) → Prop}
    (step : ∀ calls op, allowed op → assertion calls → rule task calls op ∧
      ∀ before outcome after, sem op before outcome after →
        assertion (calls ++ [⟨task, op, outcome, before, after⟩]))
    (made : program.AllCalls allowed) (holds : assertion calls) :
    Follows sem rule task program calls (fun _ => assertion) assertion := by
  rintro moment rfl
  refine Upholds.of_allCalls (fun now op may held before same outcome after happens => ?_) made
    holds
  have own : before.calls task = now.calls task := same
  obtain ⟨keeps, later⟩ := step _ op may held
  rw [← own] at keeps later
  refine ⟨⟨op, outcome, after, happens, keeps, rfl⟩, ?_⟩
  rw [Moment.calls_next_self]
  exact later before.state outcome after happens

end Follows

/-- **In a pool whose tasks follow a rule every run is lawful**, and the calls of a settled task are
as its postconditions say. -/
theorem Pool.follows {sem : Semantics I S} {rule : ι → List (Event I ι S) → I.Op → Prop}
    {resolved : ι → α → List (Event I ι S) → Prop} {rejected : ι → List (Event I ι S) → Prop}
    {tasks after : Pool I ι α} {origin : S} {reached : Moment I ι S}
    (starts : ∀ task, Follows sem rule task (tasks task) [] (resolved task) (rejected task))
    (run : PoolRuns sem (tasks, .start origin) (after, reached)) :
    LawfulRun sem (fun history task => rule task (callsOf task history)) origin reached ∧
      ∀ task outcome, after task = .done outcome →
        Ends (resolved task) (rejected task) outcome (callsOf task reached.history) := by
  have upheld := Pool.upholds SameCalls (CallsBy sem rule)
    (LawfulRun sem (fun history task => rule task (callsOf task history)) origin)
    (fun _ _ _ => rfl) (fun _ _ _ _ earlier later => later.trans earlier) ?compatible ?keeps .start
    (fun task => starts task _ rfl) run
  case compatible =>
    intro task other different before op outcome state _ _
    exact Moment.calls_next_of_ne different before op outcome state
  case keeps =>
    rintro task before after lawful ⟨op, outcome, state, happens, keeps, rfl⟩
    exact lawful.next keeps happens
  refine ⟨upheld.1, fun task outcome settled => ?_⟩
  obtain ⟨moment, _, same, ends⟩ := upheld.2 task
  rw [settled] at ends
  have own : reached.calls task = moment.calls task := same
  rw [← Moment.calls_eq, own]
  cases outcome with
  | ok value => exact ends
  | error failure => exact ends

/-- Tasks that do not reject, and have settled, have made calls as their postconditions say. -/
theorem Pool.follows_of_isSettled {sem : Semantics I S}
    {rule : ι → List (Event I ι S) → I.Op → Prop} {post : ι → List (Event I ι S) → Prop}
    {tasks after : Pool I ι α} {origin : S} {reached : Moment I ι S}
    (starts : ∀ task, Follows sem rule task (tasks task) [] (fun _ => post task) fun _ => False)
    (run : PoolRuns sem (tasks, .start origin) (after, reached))
    (all : ∀ task, (after task).isSettled = true) (task : ι) :
    post task (callsOf task reached.history) := by
  have followed := (Pool.follows starts run).2 task
  have done := all task
  cases final : after task with
  | call op next =>
      rw [final] at done
      cases done
  | done outcome =>
      have ends := followed outcome final
      cases outcome with
      | ok value => exact ends
      | error failure => exact ends.elim

end DistributedFileStorage.Async
