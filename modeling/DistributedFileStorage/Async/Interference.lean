import DistributedFileStorage.Async.Faults
import Mathlib.Algebra.BigOperators.Group.Finset.Basic
import Mathlib.Data.Fintype.Basic
import Mathlib.Logic.Function.Basic
import Mathlib.Logic.Relation

/-!
# Programs next to each other

A pool is a family of programs that run next to each other on one state. A step of the pool
is one call of one of its tasks, so between two calls of a task any number of calls of
other tasks may happen. A task that has not made its first call has not started. A moment
of a run is the state together with the history of the calls made so far.

The rules are those of a rely and guarantee logic in which the two conditions are one
relation between moments. `Meets` says of a task that, as long as the others move the
moment within the relation, each of its calls moves the moment within the relation and it
ends as its postconditions say. When all tasks of a pool meet theirs, the whole run stays
within the relation, and every settled task has ended as it should (`Pool.settles`).
-/

set_option autoImplicit false

namespace DistributedFileStorage.Async

open Program Relation

variable {I : Interface} {ι S α β σ : Type}

/-! ## Moments -/

/-- A call that a task has made. -/
structure Event (I : Interface) (ι S : Type) where
  task : ι
  op : I.Op
  outcome : I.Outcome (I.Result op)
  before : S
  after : S

/-- The state, and the calls made so far in the order they were made. -/
structure Moment (I : Interface) (ι S : Type) where
  history : List (Event I ι S)
  state : S

/-- The moment right after a call. -/
def Moment.next (moment : Moment I ι S) (task : ι) (op : I.Op)
    (outcome : I.Outcome (I.Result op)) (after : S) : Moment I ι S where
  history := moment.history ++ [⟨task, op, outcome, moment.state, after⟩]
  state := after

@[simp] theorem Moment.state_next (moment : Moment I ι S) (task : ι) (op : I.Op)
    (outcome : I.Outcome (I.Result op)) (after : S) :
    (moment.next task op outcome after).state = after := rfl

@[simp] theorem Moment.history_next (moment : Moment I ι S) (task : ι) (op : I.Op)
    (outcome : I.Outcome (I.Result op)) (after : S) :
    (moment.next task op outcome after).history =
      moment.history ++ [⟨task, op, outcome, moment.state, after⟩] := rfl

/-- A moment before any call. -/
def Moment.start (state : S) : Moment I ι S := ⟨[], state⟩

/-- The calls that one task has made. -/
def Moment.calls [DecidableEq ι] (task : ι) (moment : Moment I ι S) : List (Event I ι S) :=
  moment.history.filter fun event => event.task = task

@[simp] theorem Moment.calls_start [DecidableEq ι] (task : ι) (state : S) :
    (Moment.start state : Moment I ι S).calls task = [] := rfl

theorem Moment.calls_next_self [DecidableEq ι] (moment : Moment I ι S) (task : ι) (op : I.Op)
    (outcome : I.Outcome (I.Result op)) (after : S) :
    (moment.next task op outcome after).calls task =
      moment.calls task ++ [⟨task, op, outcome, moment.state, after⟩] := by
  simp [calls]

theorem Moment.calls_next_of_ne [DecidableEq ι] {task other : ι} (different : other ≠ task)
    (moment : Moment I ι S) (op : I.Op) (outcome : I.Outcome (I.Result op)) (after : S) :
    (moment.next other op outcome after).calls task = moment.calls task := by
  simp [calls, different]

/-- A call changes what is measured of the calls of its task, and of no other. -/
theorem Moment.sum_calls_next [DecidableEq ι] [Fintype ι] (measure : List (Event I ι S) → ℕ)
    (moment : Moment I ι S) (task : ι) (op : I.Op) (outcome : I.Outcome (I.Result op)) (after : S) :
    ∑ other, measure ((moment.next task op outcome after).calls other) +
        measure (moment.calls task) =
      ∑ other, measure (moment.calls other) +
        measure (moment.calls task ++ [⟨task, op, outcome, moment.state, after⟩]) := by
  have others : ∑ other ∈ Finset.univ.erase task,
        measure ((moment.next task op outcome after).calls other) =
      ∑ other ∈ Finset.univ.erase task, measure (moment.calls other) := by
    refine Finset.sum_congr rfl fun other member => ?_
    rw [calls_next_of_ne (Ne.symm (Finset.ne_of_mem_erase member))]
  have split := fun reached : Moment I ι S =>
    Finset.add_sum_erase Finset.univ (fun other => measure (reached.calls other))
      (Finset.mem_univ task)
  rw [← split, ← split, others, calls_next_self]
  omega

/-! ## Tasks under interference -/

/-- Whatever the others do before each call of the task, as long as it is within `rely`: the
calls of the task are within `guarantee`, and it ends as the postconditions say. -/
def Upholds (sem : Semantics I S) (rely guarantee : Moment I ι S → Moment I ι S → Prop)
    (task : ι) :
    Program I α → Moment I ι S → (α → Moment I ι S → Prop) → (Moment I ι S → Prop) → Prop
  | .done outcome, moment, resolved, rejected => Ends resolved rejected outcome moment
  | .call op next, moment, resolved, rejected =>
      ∀ before, rely moment before →
        ∀ outcome after, sem op before.state outcome after →
          guarantee before (before.next task op outcome after) ∧
            Upholds sem rely guarantee task (next outcome) (before.next task op outcome after)
              resolved rejected

namespace Upholds

variable {sem : Semantics I S} {rely guarantee : Moment I ι S → Moment I ι S → Prop} {task : ι}
  {moment : Moment I ι S} {program : Program I α} {resolved : α → Moment I ι S → Prop}
  {rejected : Moment I ι S → Prop}

theorem consequence {weakerResolved : α → Moment I ι S → Prop}
    {weakerRejected : Moment I ι S → Prop}
    (upholds : Upholds sem rely guarantee task program moment resolved rejected)
    (afterOk : ∀ value later, resolved value later → weakerResolved value later)
    (afterError : ∀ later, rejected later → weakerRejected later) :
    Upholds sem rely guarantee task program moment weakerResolved weakerRejected := by
  induction program generalizing moment with
  | done outcome =>
      cases outcome with
      | ok value => exact afterOk value moment upholds
      | error failure => exact afterError moment upholds
  | call op next ih =>
      intro before evolved outcome after happens
      obtain ⟨stays, later⟩ := upholds before evolved outcome after happens
      exact ⟨stays, ih outcome later⟩

/-- A program that has settled has ended as its postconditions say. -/
theorem ends (upholds : Upholds sem rely guarantee task program moment resolved rejected)
    (settled : program.isSettled = true) :
    ∃ outcome, program = .done outcome ∧ Ends resolved rejected outcome moment := by
  cases program with
  | done outcome => exact ⟨outcome, rfl, upholds⟩
  | call op next => cases settled

/-- The rule of one call. -/
theorem perform {op : I.Op} {resolved : I.Result op → Moment I ι S → Prop}
    (step : ∀ before, rely moment before → ∀ outcome after,
      sem op before.state outcome after →
        guarantee before (before.next task op outcome after) ∧
          Ends resolved rejected outcome (before.next task op outcome after)) :
    Upholds sem rely guarantee task (perform op) moment resolved rejected := step

/-- The rule of one call of a deterministic handler. -/
theorem perform_handler {handler : Handler I S} {op : I.Op}
    {resolved : I.Result op → Moment I ι S → Prop}
    (step : ∀ before, rely moment before →
      guarantee before
          (before.next task op (handler op before.state).1 (handler op before.state).2) ∧
        Ends resolved rejected (handler op before.state).1
          (before.next task op (handler op before.state).1 (handler op before.state).2)) :
    Upholds handler.semantics rely guarantee task (Program.perform op) moment resolved
      rejected := by
  apply perform
  intro before evolved outcome after happens
  have made : handler op before.state = (outcome, after) := happens
  have ends := step before evolved
  rwa [made] at ends

theorem bind {next : α → Program I β} {resolved : β → Moment I ι S → Prop}
    (first : Upholds sem rely guarantee task program moment
      (fun value later => Upholds sem rely guarantee task (next value) later resolved rejected)
      rejected) :
    Upholds sem rely guarantee task (program >>= next) moment resolved rejected := by
  induction program generalizing moment with
  | done outcome =>
      cases outcome with
      | ok value => exact first
      | error failure => exact first
  | call op continuation ih =>
      intro before evolved outcome after happens
      obtain ⟨stays, later⟩ := first before evolved outcome after happens
      exact ⟨stays, ih outcome later⟩

theorem tryCatch {handle : I.Failure → Program I α} {caught : Moment I ι S → Prop}
    (body : Upholds sem rely guarantee task program moment resolved caught)
    (handler : ∀ failure later, caught later →
      Upholds sem rely guarantee task (handle failure) later resolved rejected) :
    Upholds sem rely guarantee task (program.tryCatch handle) moment resolved rejected := by
  induction program generalizing moment with
  | done outcome =>
      cases outcome with
      | ok value => exact body
      | error failure => exact handler failure moment body
  | call op continuation ih =>
      intro before evolved outcome after happens
      obtain ⟨stays, later⟩ := body before evolved outcome after happens
      exact ⟨stays, ih outcome later⟩

/-- What holds after an attempt holds after its program, resolved or rejected. -/
theorem attempt {program : Program I Unit} {post : Moment I ι S → Prop}
    (body : Upholds sem rely guarantee task program moment (fun _ => post) post) :
    Upholds sem rely guarantee task program.attempt moment (fun _ => post) rejected :=
  body.tryCatch fun _ _ holds => holds

/-- A program keeps what each of its calls keeps. -/
theorem of_allCalls {allowed : I.Op → Prop} {assertion : Moment I ι S → Prop}
    (step : ∀ now op, allowed op → assertion now → ∀ before, rely now before →
      ∀ outcome after, sem op before.state outcome after →
        guarantee before (before.next task op outcome after) ∧
          assertion (before.next task op outcome after))
    (calls : program.AllCalls allowed) (holds : assertion moment) :
    Upholds sem rely guarantee task program moment (fun _ => assertion) assertion := by
  induction program generalizing moment with
  | done outcome => cases outcome <;> exact holds
  | call op next ih =>
      intro before evolved outcome after happens
      obtain ⟨stays, later⟩ := step moment op calls.1 holds before evolved outcome after happens
      exact ⟨stays, ih outcome (calls.2 outcome) later⟩

/-- **A loop moves an assertion about its variable and the items that remain** from all items
to none. -/
theorem foldEach {body : σ → β → Program I σ} (invariant : σ → List β → Moment I ι S → Prop)
    (step : ∀ value item rest now, invariant value (item :: rest) now →
      Upholds sem rely guarantee task (body value item) now
        (fun updated => invariant updated rest) rejected)
    {items : List β} {value : σ} (start : invariant value items moment) :
    Upholds sem rely guarantee task (foldEach body value items) moment
      (fun final => invariant final []) rejected := by
  induction items generalizing value moment with
  | nil => exact start
  | cons item items ih =>
      refine bind ((step value item items moment start).consequence ?_ fun _ => id)
      exact fun updated later holds => ih holds

theorem forEach {body : β → Program I Unit} (invariant : List β → Moment I ι S → Prop)
    (step : ∀ item rest now, invariant (item :: rest) now →
      Upholds sem rely guarantee task (body item) now (fun _ => invariant rest) rejected)
    {items : List β} (start : invariant items moment) :
    Upholds sem rely guarantee task (forEach body items) moment (fun _ => invariant [])
      rejected := by
  induction items generalizing moment with
  | nil => exact start
  | cons item items ih =>
      refine bind ((step item items moment start).consequence ?_ fun _ => id)
      exact fun _ later holds => ih holds

end Upholds

/-- A task meets its postconditions within one relation when it guarantees what it relies on. -/
abbrev Meets (sem : Semantics I S) (evolves : Moment I ι S → Moment I ι S → Prop) (task : ι) :
    Program I α → Moment I ι S → (α → Moment I ι S → Prop) → (Moment I ι S → Prop) → Prop :=
  Upholds sem evolves evolves task

namespace Meets

variable {sem : Semantics I S} {evolves : Moment I ι S → Moment I ι S → Prop} {task : ι}
  {moment : Moment I ι S} {program : Program I α} {resolved : α → Moment I ι S → Prop}
  {rejected : Moment I ι S → Prop}

/-- What is left of a task moves later moments within the relation too. -/
theorem later {now : Moment I ι S}
    (trans : ∀ first second third, evolves first second → evolves second third →
      evolves first third)
    (meets : Meets sem evolves task program moment resolved rejected)
    (evolved : evolves moment now) :
    Meets sem evolves task program now (fun _ _ => True) (fun _ => True) := by
  cases program with
  | done outcome => cases outcome <;> trivial
  | call op next =>
      intro before reaches outcome after happens
      obtain ⟨stays, rest⟩ := meets before (trans _ _ _ evolved reaches) outcome after happens
      exact ⟨stays, rest.consequence (fun _ _ _ => trivial) fun _ _ => trivial⟩

end Meets

/-! ## Pools -/

/-- Programs that run next to each other. -/
abbrev Pool (I : Interface) (ι α : Type) : Type := ι → Program I α

section Pool

variable [DecidableEq ι]

/-- One task of the pool makes its next call. -/
inductive PoolStep (sem : Semantics I S) :
    Pool I ι α × Moment I ι S → Pool I ι α × Moment I ι S → Prop where
  | call {tasks : Pool I ι α} {moment : Moment I ι S} {op : I.Op}
      {next : I.Outcome (I.Result op) → Program I α} {outcome : I.Outcome (I.Result op)} {after : S}
      (task : ι) (awaits : tasks task = .call op next)
      (happens : sem op moment.state outcome after) :
      PoolStep sem (tasks, moment)
        (Function.update tasks task (next outcome), moment.next task op outcome after)

/-- The runs of a pool. -/
abbrev PoolRuns (sem : Semantics I S) :
    Pool I ι α × Moment I ι S → Pool I ι α × Moment I ι S → Prop :=
  ReflTransGen (PoolStep sem)

namespace Pool

variable {sem : Semantics I S} {evolves : Moment I ι S → Moment I ι S → Prop}
  {tasks after : Pool I ι α} {start reached : Moment I ι S}
  {resolved : ι → α → Moment I ι S → Prop} {rejected : ι → Moment I ι S → Prop}

/-- **When all tasks uphold their conditions, every run keeps the invariants of the
guarantees**, and what is left of each task still upholds its own. The guarantees of the others
are within what a task relies on. -/
theorem upholds (rely guarantee : ι → Moment I ι S → Moment I ι S → Prop)
    (invariant : Moment I ι S → Prop)
    (refl : ∀ task moment, invariant moment → rely task moment moment)
    (trans : ∀ task first second third, rely task first second → rely task second third →
      rely task first third)
    (compatible : ∀ task other, other ≠ task → ∀ before op outcome state,
      invariant (before.next other op outcome state) →
        guarantee other before (before.next other op outcome state) →
          rely task before (before.next other op outcome state))
    (keeps : ∀ task before after, invariant before → guarantee task before after →
      invariant after)
    (holds : invariant start)
    (starts : ∀ task, Upholds sem (rely task) (guarantee task) task (tasks task) start
      (resolved task) (rejected task))
    (run : PoolRuns sem (tasks, start) (after, reached)) :
    invariant reached ∧ ∀ task, ∃ moment, invariant moment ∧ rely task moment reached ∧
      Upholds sem (rely task) (guarantee task) task (after task) moment (resolved task)
        (rejected task) := by
  generalize origin : (tasks, start) = first at run
  generalize target : (after, reached) = last at run
  induction run generalizing after reached with
  | refl =>
      obtain ⟨rfl, rfl⟩ := Prod.mk.inj (origin.trans target.symm)
      exact ⟨holds, fun task => ⟨_, holds, refl task _ holds, starts task⟩⟩
  | tail _ step ih =>
      cases step with
      | @call current moment op next outcome state task awaits happens =>
          obtain ⟨rfl, rfl⟩ := Prod.mk.inj target
          obtain ⟨kept, held⟩ := ih rfl
          obtain ⟨own, _, reaches, upholds⟩ := held task
          rw [awaits] at upholds
          obtain ⟨stays, later⟩ := upholds moment reaches outcome state happens
          have keptNext := keeps _ _ _ kept stays
          refine ⟨keptNext, fun other => ?_⟩
          by_cases same : other = task
          · subst same
            refine ⟨_, keptNext, refl _ _ keptNext, ?_⟩
            rw [Function.update_self]
            exact later
          · obtain ⟨earlier, keptEarlier, earlierReaches, rest⟩ := held other
            have relied := compatible other task (Ne.symm same) _ _ _ _ keptNext stays
            refine ⟨earlier, keptEarlier, trans _ _ _ _ earlierReaches relied, ?_⟩
            rw [Function.update_of_ne same]
            exact rest

/-- One task relies on a relation that the calls of all others keep to, and the others rely on the
invariant only. -/
theorem upholds_beside {relation : Moment I ι S → Moment I ι S → Prop} (task : ι)
    (invariant : Moment I ι S → Prop)
    (refl : ∀ moment, invariant moment → relation moment moment)
    (trans : ∀ first second third, relation first second → relation second third →
      relation first third)
    (keeps : ∀ before after, relation before after → invariant after)
    (holds : invariant start) {own : α → Moment I ι S → Prop} {ownRejected : Moment I ι S → Prop}
    (starts : Upholds sem relation (fun _ => invariant) task (tasks task) start own ownRejected)
    (others : ∀ other, other ≠ task → Upholds sem (fun _ => invariant) relation other (tasks other)
      start (fun _ _ => True) fun _ => True)
    (run : PoolRuns sem (tasks, start) (after, reached)) :
    invariant reached ∧ ∃ moment, relation moment reached ∧
      Upholds sem relation (fun _ => invariant) task (after task) moment own ownRejected := by
  have all : ∀ other, Upholds sem (Function.update (fun _ _ => invariant) task relation other)
      (Function.update (fun _ => relation) task (fun _ => invariant) other) other (tasks other)
      start (Function.update (fun _ _ _ => True) task own other)
      (Function.update (fun _ _ => True) task ownRejected other) := by
    intro other
    by_cases same : other = task
    · subst same
      simpa only [Function.update_self] using starts
    · simpa only [Function.update_of_ne same] using others other same
  have pooled := upholds _ _ invariant ?refl ?trans ?compatible ?keeps holds all run
  case refl =>
    intro other moment holds
    by_cases same : other = task
    · subst same
      simpa only [Function.update_self] using refl moment holds
    · simpa only [Function.update_of_ne same] using holds
  case trans =>
    intro other first second third
    by_cases same : other = task
    · subst same
      simpa only [Function.update_self] using trans first second third
    · simp only [Function.update_of_ne same]
      exact fun _ later => later
  case compatible =>
    intro one other different before op outcome state holds
    by_cases same : one = task
    · subst same
      simp only [Function.update_self, Function.update_of_ne different]
      exact id
    · simp only [Function.update_of_ne same]
      exact fun _ => holds
  case keeps =>
    intro other before after _
    by_cases same : other = task
    · subst same
      simp only [Function.update_self]
      exact id
    · simp only [Function.update_of_ne same]
      exact keeps before after
  obtain ⟨kept, held⟩ := pooled
  obtain ⟨moment, _, reaches, upholds⟩ := held task
  simp only [Function.update_self] at reaches upholds
  exact ⟨kept, moment, reaches, upholds⟩

/-- **When all tasks meet their postconditions, every run stays within the relation**, and
what is left of each task still meets them. -/
theorem meets (refl : ∀ moment, evolves moment moment)
    (trans : ∀ first second third, evolves first second → evolves second third →
      evolves first third)
    (starts : ∀ task, Meets sem evolves task (tasks task) start (resolved task) (rejected task))
    (run : PoolRuns sem (tasks, start) (after, reached)) :
    evolves start reached ∧ ∀ task, ∃ moment, evolves start moment ∧ evolves moment reached ∧
      Meets sem evolves task (after task) moment (resolved task) (rejected task) := by
  refine upholds (fun _ => evolves) (fun _ => evolves) (evolves start)
    (fun _ moment _ => refl moment) (fun _ => trans) ?_ ?_ (refl start) starts run
  · exact fun _ _ _ _ _ _ _ _ stays => stays
  · exact fun _ before after evolved stays => trans _ _ _ evolved stays

/-- A settled task has ended as its postconditions say, at some moment of the run. -/
theorem settles (refl : ∀ moment, evolves moment moment)
    (trans : ∀ first second third, evolves first second → evolves second third →
      evolves first third)
    (starts : ∀ task, Meets sem evolves task (tasks task) start (resolved task) (rejected task))
    (run : PoolRuns sem (tasks, start) (after, reached)) {task : ι} {outcome : I.Outcome α}
    (settled : after task = .done outcome) :
    ∃ moment, evolves start moment ∧ evolves moment reached ∧
      Ends (resolved task) (rejected task) outcome moment := by
  obtain ⟨_, held⟩ := meets refl trans starts run
  obtain ⟨moment, before, later, meets⟩ := held task
  rw [settled] at meets
  exact ⟨moment, before, later, meets⟩

/-- A task that is known to meet other postconditions from some moment of a run on ends as
those say. -/
theorem settles_later (refl : ∀ moment, evolves moment moment)
    (trans : ∀ first second third, evolves first second → evolves second third →
      evolves first third)
    (starts : ∀ task, Meets sem evolves task (tasks task) start (resolved task) (rejected task))
    {middleTasks : Pool I ι α} {middle : Moment I ι S}
    (early : PoolRuns sem (tasks, start) (middleTasks, middle)) {task : ι}
    {resolvedLater : α → Moment I ι S → Prop} {rejectedLater : Moment I ι S → Prop}
    (meetsLater : Meets sem evolves task (middleTasks task) middle resolvedLater rejectedLater)
    (late : PoolRuns sem (middleTasks, middle) (after, reached)) {outcome : I.Outcome α}
    (settled : after task = .done outcome) :
    ∃ moment, evolves middle moment ∧ evolves moment reached ∧
      Ends resolvedLater rejectedLater outcome moment := by
  obtain ⟨_, held⟩ := meets refl trans starts early
  have restarts : ∀ other, Meets sem evolves other (middleTasks other) middle
      (fun value moment => other = task → resolvedLater value moment)
      (fun moment => other = task → rejectedLater moment) := by
    intro other
    by_cases same : other = task
    · subst same
      exact meetsLater.consequence (fun _ _ holds _ => holds) fun _ holds _ => holds
    · obtain ⟨moment, _, evolved, rest⟩ := held other
      refine (Meets.later trans rest evolved).consequence ?_ ?_
      · exact fun _ _ _ here => absurd here same
      · exact fun _ _ here => absurd here same
  obtain ⟨moment, before, later, ends⟩ := settles refl trans restarts late settled
  refine ⟨moment, before, later, ?_⟩
  cases outcome with
  | ok value => exact ends rfl
  | error failure => exact ends rfl

/-- **No task is stuck**: when every call can happen, a task that goes on alone settles. -/
theorem exists_settles (total : ∀ op state, ∃ outcome after, sem op state outcome after)
    (tasks : Pool I ι α) (moment : Moment I ι S) (task : ι) :
    ∃ after reached outcome, PoolRuns sem (tasks, moment) (after, reached) ∧
      after task = .done outcome := by
  generalize awaited : tasks task = program
  induction program generalizing tasks moment with
  | done outcome => exact ⟨tasks, moment, outcome, .refl, awaited⟩
  | call op next ih =>
      obtain ⟨outcome, after, happens⟩ := total op moment.state
      obtain ⟨last, reached, final, run, settled⟩ := ih outcome _
        (moment.next task op outcome after) (Function.update_self task (next outcome) tasks)
      exact ⟨last, reached, final, .head (.call task awaited happens) run, settled⟩

/-- A task that has settled stays as it is. -/
theorem settled_of_runs (run : PoolRuns sem (tasks, start) (after, reached)) {task : ι}
    {outcome : I.Outcome α} (settled : tasks task = .done outcome) : after task = .done outcome := by
  generalize origin : (tasks, start) = first at run
  generalize target : (after, reached) = last at run
  induction run generalizing after reached with
  | refl =>
      obtain ⟨rfl, rfl⟩ := Prod.mk.inj (origin.trans target.symm)
      exact settled
  | tail _ step ih =>
      cases step with
      | @call current moment op next made state other awaits happens =>
          obtain ⟨rfl, rfl⟩ := Prod.mk.inj target
          have here := ih rfl
          have different : task ≠ other := by
            rintro rfl
            cases here.symm.trans awaits
          rw [Function.update_of_ne different]
          exact here

/-- **A pool can run until all its tasks have settled.** -/
theorem exists_all_settled [Fintype ι]
    (total : ∀ op state, ∃ outcome after, sem op state outcome after) (tasks : Pool I ι α)
    (moment : Moment I ι S) :
    ∃ after reached, PoolRuns sem (tasks, moment) (after, reached) ∧
      ∀ task, (after task).isSettled = true := by
  have some : ∀ chosen : Finset ι, ∃ after reached, PoolRuns sem (tasks, moment) (after, reached) ∧
      ∀ task ∈ chosen, ∃ outcome, after task = .done outcome := by
    intro chosen
    induction chosen using Finset.induction_on with
    | empty => exact ⟨tasks, moment, .refl, by simp⟩
    | insert task chosen _ ih =>
        obtain ⟨middle, now, first, settled⟩ := ih
        obtain ⟨after, reached, outcome, second, done⟩ := exists_settles total middle now task
        refine ⟨after, reached, first.trans second, fun other member => ?_⟩
        rcases Finset.mem_insert.mp member with rfl | old
        · exact ⟨outcome, done⟩
        · obtain ⟨earlier, was⟩ := settled other old
          exact ⟨earlier, settled_of_runs second was⟩
  obtain ⟨after, reached, run, settled⟩ := some Finset.univ
  refine ⟨after, reached, run, fun task => ?_⟩
  obtain ⟨outcome, done⟩ := settled task (Finset.mem_univ task)
  rw [done]
  rfl

/-- The runs of a semantics are runs of every semantics that allows more. -/
theorem runs_mono {weaker : Semantics I S}
    (allows : ∀ op before outcome state, sem op before outcome state →
      weaker op before outcome state)
    {first last : Pool I ι α × Moment I ι S} (run : PoolRuns sem first last) :
    PoolRuns weaker first last := by
  refine ReflTransGen.mono (fun _ _ step => ?_) first last run
  cases step with
  | call task awaits happens => exact .call task awaits (allows _ _ _ _ happens)

/-- Every call of a run has happened. -/
theorem happens_of_runs (run : PoolRuns sem (tasks, start) (after, reached)) :
    ∀ event ∈ reached.history, event ∈ start.history ∨
      sem event.op event.before event.outcome event.after := by
  generalize origin : (tasks, start) = first at run
  generalize target : (after, reached) = last at run
  induction run generalizing after reached with
  | refl =>
      obtain ⟨rfl, rfl⟩ := Prod.mk.inj (origin.trans target.symm)
      exact fun _ => .inl
  | tail _ step ih =>
      cases step with
      | call task awaits happens =>
          obtain ⟨rfl, rfl⟩ := Prod.mk.inj target
          intro event member
          rcases List.mem_append.mp member with old | new
          · exact ih rfl event old
          · obtain rfl := List.mem_singleton.mp new
            exact .inr happens

/-! ## Schedules -/

/-- Let a task make its next call, if it has one. -/
def advance (handler : Handler I S) (config : Pool I ι α × Moment I ι S) (task : ι) :
    Pool I ι α × Moment I ι S :=
  match config.1 task with
  | .done _ => config
  | .call op next =>
      let made := handler op config.2.state
      (Function.update config.1 task (next made.1), config.2.next task op made.1 made.2)

/-- Run a pool by a schedule: whose turn it is, call by call. -/
def runSchedule (handler : Handler I S) (schedule : List ι)
    (config : Pool I ι α × Moment I ι S) : Pool I ι α × Moment I ι S :=
  schedule.foldl (advance handler) config

/-- **A schedule gives a run of the pool.** -/
theorem runs_runSchedule {handler : Handler I S}
    (works : ∀ op state, sem op state (handler op state).1 (handler op state).2)
    (schedule : List ι) (config : Pool I ι α × Moment I ι S) :
    PoolRuns sem config (runSchedule handler schedule config) := by
  induction schedule generalizing config with
  | nil => exact .refl
  | cons task schedule ih =>
      refine ReflTransGen.trans ?_ (ih (advance handler config task))
      unfold advance
      split
      · exact .refl
      · rename_i awaits
        exact .single (.call task awaits (works _ _))

end Pool

end Pool

end DistributedFileStorage.Async
