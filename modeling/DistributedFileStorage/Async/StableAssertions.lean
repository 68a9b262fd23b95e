import DistributedFileStorage.Async.Interference

/-!
# Assertions that the others leave as they are

The tasks of a pool move the state within a relation. An assertion is stable when every move within
the relation keeps it. `Secures` says of a task that, from every state with its precondition and
while the others move the state within the relation, its calls do so too, and it ends as its
postconditions say. The rules are those of a program that runs alone, but a precondition of a call
has to be stable. What a call finds out holds right after it, and may be weakened to what is stable.

When all tasks secure something, the whole run is a move within the relation (`Pool.secured`).
-/

set_option autoImplicit false

namespace DistributedFileStorage.Async

open Program

variable {I : Interface} {ι S α β σ : Type}

/-- Every move within the relation keeps the assertion. -/
def Stable (moves : S → S → Prop) (assertion : S → Prop) : Prop :=
  ∀ before after, moves before after → assertion before → assertion after

namespace Stable

variable {moves : S → S → Prop} {first second : S → Prop}

theorem and (stableFirst : Stable moves first) (stableSecond : Stable moves second) :
    Stable moves fun state => first state ∧ second state :=
  fun before after moved holds =>
    ⟨stableFirst before after moved holds.1, stableSecond before after moved holds.2⟩

end Stable

/-- While the others move the state within the relation, the calls of the task do so too, and it
ends as its postconditions say. -/
def Secures (sem : Semantics I S) (moves : S → S → Prop) (task : ι) (pre : S → Prop)
    (program : Program I α) (resolved : α → S → Prop) (rejected : S → Prop) : Prop :=
  ∀ moment : Moment I ι S, pre moment.state →
    Meets sem (fun before after => moves before.state after.state) task program moment
      (fun value later => resolved value later.state) fun later => rejected later.state

namespace Secures

variable {sem : Semantics I S} {moves : S → S → Prop} {task : ι} {pre rejected : S → Prop}
  {program : Program I α} {resolved : α → S → Prop}

theorem consequence {stronger weakerRejected : S → Prop} {weakerResolved : α → S → Prop}
    (secures : Secures sem moves task pre program resolved rejected)
    (before : ∀ state, stronger state → pre state)
    (afterOk : ∀ value state, resolved value state → weakerResolved value state)
    (afterError : ∀ state, rejected state → weakerRejected state) :
    Secures sem moves task stronger program weakerResolved weakerRejected := by
  intro moment holds
  exact (secures moment (before _ holds)).consequence (fun value _ => afterOk value _)
    fun _ => afterError _

theorem pure {value : α} (holds : ∀ state, pre state → resolved value state) :
    Secures sem moves task pre (Pure.pure value) resolved rejected := by
  intro moment start
  exact holds _ start

theorem throw {failure : I.Failure} (holds : ∀ state, pre state → rejected state) :
    Secures sem moves task pre (Program.throw failure : Program I α) resolved rejected := by
  intro moment start
  exact holds _ start

/-- The rule of one call. -/
theorem perform {op : I.Op} {resolved : I.Result op → S → Prop} (stable : Stable moves pre)
    (step : ∀ before outcome after, pre before → sem op before outcome after →
      moves before after ∧ Ends resolved rejected outcome after) :
    Secures sem moves task pre (Program.perform op) resolved rejected := by
  intro moment start
  apply Upholds.perform
  intro before moved outcome after happens
  obtain ⟨stays, ends⟩ := step _ _ _ (stable _ _ moved start) happens
  refine ⟨stays, ?_⟩
  cases outcome with
  | ok value => exact ends
  | error failure => exact ends

theorem bind {next : α → Program I β} {middle : α → S → Prop} {resolved : β → S → Prop}
    (first : Secures sem moves task pre program middle rejected)
    (second : ∀ value, Secures sem moves task (middle value) (next value) resolved rejected) :
    Secures sem moves task pre (program >>= next) resolved rejected := by
  intro moment start
  exact Upholds.bind ((first moment start).consequence (fun value later => second value later)
    fun _ => id)

theorem tryCatch {handle : I.Failure → Program I α} {caught : S → Prop}
    (body : Secures sem moves task pre program resolved caught)
    (handler : ∀ failure, Secures sem moves task caught (handle failure) resolved rejected) :
    Secures sem moves task pre (program.tryCatch handle) resolved rejected := by
  intro moment start
  exact (body moment start).tryCatch fun failure later => handler failure later

/-- What an attempt leaves is what its program leaves, resolved or rejected. -/
theorem attempt {program : Program I Unit} {post : S → Prop}
    (body : Secures sem moves task pre program (fun _ => post) post) :
    Secures sem moves task pre program.attempt (fun _ => post) rejected :=
  body.tryCatch fun _ => .pure fun _ holds => holds

/-- A precondition may carry a fact that is not about the state. -/
theorem of_fact {fact : Prop}
    (secures : fact → Secures sem moves task pre program resolved rejected) :
    Secures sem moves task (fun state => fact ∧ pre state) program resolved rejected :=
  fun moment start => secures start.1 moment start.2

/-- A program keeps a stable assertion when its calls move the state within the relation. -/
theorem of_allCalls {allowed : I.Op → Prop} (stable : Stable moves pre)
    (step : ∀ op before outcome after, allowed op → pre before → sem op before outcome after →
      moves before after)
    (calls : program.AllCalls allowed) :
    Secures sem moves task pre program (fun _ => pre) pre := by
  intro moment start
  refine Upholds.of_allCalls ?_ calls start
  intro now op may holds before moved outcome after happens
  have here := stable _ _ moved holds
  have stays := step op _ _ _ may here happens
  exact ⟨stays, stable _ _ stays here⟩

/-- **A stable assertion holds along every program.** -/
theorem frame {also : S → Prop} (stable : Stable moves also)
    (secures : Secures sem moves task pre program resolved rejected) :
    Secures sem moves task (fun state => pre state ∧ also state) program
      (fun value state => resolved value state ∧ also state)
      fun state => rejected state ∧ also state := by
  intro moment start
  have meets := secures moment start.1
  have holds := start.2
  clear start secures
  induction program generalizing moment with
  | done outcome =>
      cases outcome with
      | ok value => exact ⟨meets, holds⟩
      | error failure => exact ⟨meets, holds⟩
  | call op next ih =>
      intro before moved outcome after happens
      obtain ⟨stays, later⟩ := meets before moved outcome after happens
      have here := stable _ _ stays (stable _ _ moved holds)
      exact ⟨stays, ih outcome _ later here⟩

/-- **A loop keeps what each iteration keeps.** -/
theorem forEach {body : β → Program I Unit} {items : List β}
    (step : ∀ item ∈ items, Secures sem moves task pre (body item) (fun _ => pre) rejected) :
    Secures sem moves task pre (Program.forEach body items) (fun _ => pre) rejected := by
  induction items with
  | nil => exact .pure fun _ holds => holds
  | cons item items ih =>
      refine (step item List.mem_cons_self).bind fun _ => ih ?_
      exact fun other member => step other (List.mem_cons_of_mem item member)

/-- **A loop moves an assertion about its variable and the items that remain** from all items to
none. -/
theorem foldEach {body : σ → β → Program I σ} (invariant : σ → List β → S → Prop)
    (step : ∀ value item rest, Secures sem moves task (invariant value (item :: rest))
      (body value item) (fun updated => invariant updated rest) rejected)
    (items : List β) (value : σ) :
    Secures sem moves task (invariant value items) (Program.foldEach body value items)
      (fun final => invariant final []) rejected := by
  induction items generalizing value with
  | nil => exact .pure fun _ holds => holds
  | cons item items ih => exact (step value item items).bind ih

end Secures

/-- **When all tasks secure something, every run is a move within the relation.** -/
theorem Pool.secured [DecidableEq ι] {sem : Semantics I S} {moves : S → S → Prop}
    (refl : ∀ state, moves state state)
    (trans : ∀ first second third, moves first second → moves second third → moves first third)
    {pre : S → Prop} {resolved : ι → α → S → Prop} {rejected : ι → S → Prop}
    {tasks after : Pool I ι α} {origin : S} {reached : Moment I ι S} (holds : pre origin)
    (starts : ∀ task, Secures sem moves task pre (tasks task) (resolved task) (rejected task))
    (run : PoolRuns sem (tasks, .start origin) (after, reached)) : moves origin reached.state := by
  have met := Pool.meets (fun moment => refl moment.state)
    (fun first second third => trans first.state second.state third.state)
    (fun task => starts task (.start origin) holds) run
  exact met.1

end DistributedFileStorage.Async
