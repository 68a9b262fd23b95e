import Mathlib.Logic.Relation

/-!
# Asynchronous programs over an interface of calls

An asynchronous function awaits one call after another on services that it does
not control: a database, a disk, a key server. Between two awaits it computes on
values it already has. Such a function is modelled by the tree of its awaited
calls: a program either has settled, with a value or with a failure, or awaits
one call and continues with whatever that call settles to.

Nothing in a program says what its calls do. The same program is run

* by a deterministic handler (`Program.run`), one call after the other;
* by a relational semantics (`Runs`), in which a call may have several
  outcomes, for instance the outcome of the handler or an arbitrary failure, which is
  the subject of the module on faults;
* next to other programs on the same state, which is the subject of the module
  on interference.

The two sequential readings agree on a handler (`runs_semantics_iff`). The
module also gives the rules by which the runs of a composite program are
obtained from the runs of its parts.
-/

set_option autoImplicit false

namespace DistributedFileStorage.Async

/-- The calls of some services, what each resolves to, and what a call or a
program can reject with. -/
structure Interface where
  Op : Type
  Result : Op → Type
  Failure : Type

/-- What an awaited call or a program settles to. -/
abbrev Interface.Outcome (I : Interface) (α : Type) : Type := Except I.Failure α

/-- A deterministic implementation of the calls on a state. -/
abbrev Handler (I : Interface) (S : Type) : Type :=
  (op : I.Op) → S → I.Outcome (I.Result op) × S

/-- An implementation of the calls that need not be deterministic: which
outcomes a call may have in a state, and the state it then leaves. -/
abbrev Semantics (I : Interface) (S : Type) : Type :=
  (op : I.Op) → S → I.Outcome (I.Result op) → S → Prop

/-- An asynchronous program: settled, or awaiting a call. -/
inductive Program (I : Interface) (α : Type) : Type where
  | done (outcome : I.Outcome α) : Program I α
  | call (op : I.Op) (next : I.Outcome (I.Result op) → Program I α) : Program I α

namespace Program

variable {I : Interface} {α β σ : Type}

/-- The program awaits no call. -/
def isSettled : Program I α → Bool
  | .done _ => true
  | .call _ _ => false

/-- The program has settled with a value. -/
def isResolved : Program I α → Bool
  | .done (.ok _) => true
  | _ => false

/-- Every call that the program may make is allowed. -/
def AllCalls (allowed : I.Op → Prop) : Program I α → Prop
  | .done _ => True
  | .call op next => allowed op ∧ ∀ outcome, (next outcome).AllCalls allowed

/-! ## Composition -/

/-- Run the second program on the value of the first. A failure of the first is
the failure of the whole. -/
def bind : Program I α → (α → Program I β) → Program I β
  | .done (.ok value), next => next value
  | .done (.error failure), _ => .done (.error failure)
  | .call op continuation, next => .call op fun outcome => (continuation outcome).bind next

instance : Monad (Program I) where
  pure value := .done (.ok value)
  bind := bind

/-- Reject. -/
def throw (failure : I.Failure) : Program I α := .done (.error failure)

/-- Await one call. -/
def perform (op : I.Op) : Program I (I.Result op) := .call op .done

/-- Handle a failure of the first program by the second. -/
def tryCatch : Program I α → (I.Failure → Program I α) → Program I α
  | .done (.ok value), _ => .done (.ok value)
  | .done (.error failure), handle => handle failure
  | .call op continuation, handle =>
      .call op fun outcome => (continuation outcome).tryCatch handle

/-- Run a program for its effect and ignore its failure: a `try` whose `catch`
block does nothing but go on. -/
def attempt (program : Program I Unit) : Program I Unit :=
  program.tryCatch fun _ => pure ()

/-- A `for` loop that carries one variable. -/
def foldEach (body : σ → β → Program I σ) : σ → List β → Program I σ
  | value, [] => pure value
  | value, item :: items => body value item >>= fun updated => foldEach body updated items

/-- Run a program for each item and collect the values. -/
def mapEach (body : β → Program I α) : List β → Program I (List α)
  | [] => pure []
  | item :: items => do
      let value ← body item
      let values ← mapEach body items
      pure (value :: values)

/-- A `for` loop that carries no variable. -/
def forEach (body : β → Program I Unit) : List β → Program I Unit
  | [] => pure ()
  | item :: items => body item >>= fun _ => forEach body items

theorem bind_pure (program : Program I α) : program >>= pure = program := by
  induction program with
  | done outcome => cases outcome <;> rfl
  | call op continuation ih => exact congrArg (Program.call op) (funext fun outcome => ih outcome)

theorem bind_assoc {γ : Type} (program : Program I α) (next : α → Program I β)
    (last : β → Program I γ) :
    program >>= next >>= last = program >>= fun value => next value >>= last := by
  induction program with
  | done outcome => cases outcome <;> rfl
  | call op continuation ih => exact congrArg (Program.call op) (funext fun outcome => ih outcome)

/-! ## The calls of composite programs -/

namespace AllCalls

variable {allowed : I.Op → Prop}

theorem bind {program : Program I α} {next : α → Program I β} (first : program.AllCalls allowed)
    (second : ∀ value, (next value).AllCalls allowed) : (program >>= next).AllCalls allowed := by
  induction program with
  | done outcome =>
      cases outcome with
      | ok value => exact second value
      | error failure => trivial
  | call op continuation ih => exact ⟨first.1, fun outcome => ih outcome (first.2 outcome)⟩

theorem tryCatch {program : Program I α} {handle : I.Failure → Program I α}
    (body : program.AllCalls allowed) (handler : ∀ failure, (handle failure).AllCalls allowed) :
    (program.tryCatch handle).AllCalls allowed := by
  induction program with
  | done outcome =>
      cases outcome with
      | ok value => trivial
      | error failure => exact handler failure
  | call op continuation ih => exact ⟨body.1, fun outcome => ih outcome (body.2 outcome)⟩

theorem perform {op : I.Op} (here : allowed op) : (Program.perform op).AllCalls allowed :=
  ⟨here, fun _ => trivial⟩

theorem mono {more : I.Op → Prop} (allows : ∀ op, allowed op → more op) {program : Program I α}
    (calls : program.AllCalls allowed) : program.AllCalls more := by
  induction program with
  | done outcome => trivial
  | call op next ih => exact ⟨allows op calls.1, fun outcome => ih outcome (calls.2 outcome)⟩

theorem attempt {program : Program I Unit} (body : program.AllCalls allowed) :
    program.attempt.AllCalls allowed :=
  body.tryCatch fun _ => trivial

theorem forEach {body : β → Program I Unit} {items : List β}
    (each : ∀ item ∈ items, (body item).AllCalls allowed) :
    (forEach body items).AllCalls allowed := by
  induction items with
  | nil => trivial
  | cons item items ih =>
      refine (each item List.mem_cons_self).bind fun _ => ih fun other member => ?_
      exact each other (List.mem_cons_of_mem item member)

theorem foldEach {body : σ → β → Program I σ} {items : List β}
    (each : ∀ value, ∀ item ∈ items, (body value item).AllCalls allowed) (value : σ) :
    (foldEach body value items).AllCalls allowed := by
  induction items generalizing value with
  | nil => trivial
  | cons item items ih =>
      refine (each value item List.mem_cons_self).bind fun updated => ih ?_ updated
      exact fun value other member => each value other (List.mem_cons_of_mem item member)

end AllCalls

/-! ## Deterministic runs -/

variable {S : Type} (handler : Handler I S)

/-- Run a program by a deterministic handler. -/
def run : Program I α → S → I.Outcome α × S
  | .done outcome, state => (outcome, state)
  | .call op next, state =>
      (next (handler op state).1).run (handler op state).2

@[simp] theorem run_done (outcome : I.Outcome α) (state : S) :
    (done outcome : Program I α).run handler state = (outcome, state) := rfl

@[simp] theorem run_pure (value : α) (state : S) :
    (pure value : Program I α).run handler state = (.ok value, state) := rfl

@[simp] theorem run_throw (failure : I.Failure) (state : S) :
    (throw failure : Program I α).run handler state = (.error failure, state) := rfl

@[simp] theorem run_perform (op : I.Op) (state : S) :
    (perform op).run handler state = handler op state := rfl

/-- The run of a composite program is the run of the first part followed by the
run of the second on its value. -/
theorem run_bind (program : Program I α) (next : α → Program I β) (state : S) :
    (program >>= next).run handler state =
      match program.run handler state with
      | (.ok value, after) => (next value).run handler after
      | (.error failure, after) => (.error failure, after) := by
  induction program generalizing state with
  | done outcome => cases outcome <;> rfl
  | call op continuation ih => exact ih _ _

theorem run_bind_ok {program : Program I α} {next : α → Program I β} {state after : S}
    {value : α} (first : program.run handler state = (.ok value, after)) :
    (program >>= next).run handler state = (next value).run handler after := by
  rw [run_bind, first]

theorem run_bind_error {program : Program I α} {next : α → Program I β} {state after : S}
    {failure : I.Failure} (first : program.run handler state = (.error failure, after)) :
    (program >>= next).run handler state = (.error failure, after) := by
  rw [run_bind, first]

theorem run_tryCatch (program : Program I α) (handle : I.Failure → Program I α) (state : S) :
    (program.tryCatch handle).run handler state =
      match program.run handler state with
      | (.ok value, after) => (.ok value, after)
      | (.error failure, after) => (handle failure).run handler after := by
  induction program generalizing state with
  | done outcome => cases outcome <;> rfl
  | call op continuation ih => exact ih _ _

/-- An attempt always resolves, in the state its program leaves. -/
@[simp] theorem run_attempt (program : Program I Unit) (state : S) :
    program.attempt.run handler state = (.ok (), (program.run handler state).2) := by
  unfold attempt
  rw [run_tryCatch]
  rcases program.run handler state with ⟨_ | _, after⟩ <;> rfl

/-- A loop whose body always resolves is a fold over the states it leaves. -/
theorem run_forEach_total {body : β → Program I Unit} {effect : S → β → S}
    (bodyRun : ∀ item state, (body item).run handler state = (.ok (), effect state item))
    (items : List β) (state : S) :
    (forEach body items).run handler state = (.ok (), items.foldl effect state) := by
  induction items generalizing state with
  | nil => rfl
  | cons item items ih =>
      rw [forEach, run_bind_ok handler (bodyRun item state)]
      exact ih _

/-- A loop whose body always resolves is a fold over the values and one over the states. -/
theorem run_foldEach_total {body : σ → β → Program I σ} {step : σ → β → σ} {effect : S → β → S}
    (bodyRun : ∀ value item state, (body value item).run handler state =
      (.ok (step value item), effect state item))
    (items : List β) (value : σ) (state : S) :
    (foldEach body value items).run handler state =
      (.ok (items.foldl step value), items.foldl effect state) := by
  induction items generalizing value state with
  | nil => rfl
  | cons item items ih =>
      rw [foldEach, run_bind_ok handler (bodyRun value item state)]
      exact ih _ _

/-- A loop whose body only reads collects what it reads. -/
theorem run_mapEach {body : β → Program I α} {value : β → S → α}
    (bodyRun : ∀ item state, (body item).run handler state = (.ok (value item state), state))
    (items : List β) (state : S) :
    (mapEach body items).run handler state = (.ok (items.map (value · state)), state) := by
  induction items with
  | nil => rfl
  | cons item items ih =>
      rw [mapEach, run_bind_ok handler (bodyRun item state), run_bind_ok handler ih]
      rfl

/-- A loop whose body only reads is a fold over its variable. -/
theorem run_foldEach {body : σ → β → Program I σ} {step : S → σ → β → σ}
    (bodyRun : ∀ value item state, (body value item).run handler state =
      (.ok (step state value item), state))
    (items : List β) (value : σ) (state : S) :
    (foldEach body value items).run handler state =
      (.ok (items.foldl (step state) value), state) := by
  induction items generalizing value with
  | nil => rfl
  | cons item items ih =>
      rw [foldEach, run_bind_ok handler (bodyRun value item state)]
      exact ih _

/-- The same when the body only reads for the items of the list. -/
theorem run_foldEach_of_mem {body : σ → β → Program I σ} {step : σ → β → σ} {items : List β}
    {state : S} (bodyRun : ∀ value, ∀ item ∈ items, (body value item).run handler state =
      (.ok (step value item), state)) (value : σ) :
    (foldEach body value items).run handler state = (.ok (items.foldl step value), state) := by
  induction items generalizing value with
  | nil => rfl
  | cons item items ih =>
      rw [foldEach, run_bind_ok handler (bodyRun value item List.mem_cons_self)]
      exact ih (fun value other member => bodyRun value other (List.mem_cons_of_mem item member)) _

end Program

/-! ## Relational runs -/

open Program

variable {I : Interface} {S α β : Type}

/-- The outcomes and final states a program may have under a semantics. -/
inductive Runs (sem : Semantics I S) : Program I α → S → I.Outcome α → S → Prop where
  | done (outcome : I.Outcome α) (state : S) : Runs sem (.done outcome) state outcome state
  | call {op : I.Op} {next : I.Outcome (I.Result op) → Program I α}
      {before middle after : S} {outcome : I.Outcome (I.Result op)} {final : I.Outcome α} :
      sem op before outcome middle → Runs sem (next outcome) middle final after →
        Runs sem (.call op next) before final after

/-- The semantics of a deterministic handler. -/
def Handler.semantics (handler : Handler I S) : Semantics I S :=
  fun op before outcome after => handler op before = (outcome, after)

namespace Runs

variable {sem : Semantics I S}

/-- A run is one of every semantics that allows more. -/
theorem mono {weaker : Semantics I S}
    (allows : ∀ op before outcome after, sem op before outcome after →
      weaker op before outcome after)
    {program : Program I α} {before after : S} {outcome : I.Outcome α}
    (run : Runs sem program before outcome after) : Runs weaker program before outcome after := by
  induction run with
  | done outcome state => exact .done outcome state
  | call step _ ih => exact .call (allows _ _ _ _ step) ih

/-- A run whose calls are all allowed is one of every semantics that allows more of these calls. -/
theorem mono_of_allCalls {weaker : Semantics I S} {allowed : I.Op → Prop}
    (allows : ∀ op before outcome after, allowed op → sem op before outcome after →
      weaker op before outcome after)
    {program : Program I α} {before after : S} {outcome : I.Outcome α}
    (calls : program.AllCalls allowed) (run : Runs sem program before outcome after) :
    Runs weaker program before outcome after := by
  induction run with
  | done outcome state => exact .done outcome state
  | call step _ ih => exact .call (allows _ _ _ _ calls.1 step) (ih (calls.2 _))

@[simp] theorem done_iff {outcome final : I.Outcome α} {before after : S} :
    Runs sem (.done outcome) before final after ↔ final = outcome ∧ after = before := by
  constructor
  · rintro ⟨⟩
    exact ⟨rfl, rfl⟩
  · rintro ⟨rfl, rfl⟩
    exact .done _ _

@[simp] theorem pure_iff {value : α} {final : I.Outcome α} {before after : S} :
    Runs sem (pure value) before final after ↔ final = .ok value ∧ after = before :=
  done_iff

@[simp] theorem throw_iff {failure : I.Failure} {final : I.Outcome α} {before after : S} :
    Runs sem (throw failure) before final after ↔ final = .error failure ∧ after = before :=
  done_iff

theorem call_iff {op : I.Op} {next : I.Outcome (I.Result op) → Program I α}
    {final : I.Outcome α} {before after : S} :
    Runs sem (.call op next) before final after ↔
      ∃ outcome middle, sem op before outcome middle ∧
        Runs sem (next outcome) middle final after := by
  constructor
  · rintro ⟨⟩
    exact ⟨_, _, ‹_›, ‹_›⟩
  · rintro ⟨outcome, middle, step, rest⟩
    exact .call step rest

@[simp] theorem perform_iff {op : I.Op} {final : I.Outcome (I.Result op)} {before after : S} :
    Runs sem (perform op) before final after ↔ sem op before final after := by
  simp [perform, call_iff]

/-- A run of a composite program is a run of its first part that fails, or one
that resolves followed by a run of the second part. -/
theorem bind_iff {program : Program I α} {next : α → Program I β} {final : I.Outcome β}
    {before after : S} :
    Runs sem (program >>= next) before final after ↔
      (∃ value middle, Runs sem program before (.ok value) middle ∧
          Runs sem (next value) middle final after) ∨
        ∃ failure, Runs sem program before (.error failure) after ∧ final = .error failure := by
  induction program generalizing before with
  | done outcome =>
      cases outcome with
      | ok value =>
          show Runs sem (next value) before final after ↔ _
          simp [and_assoc]
      | error failure =>
          show Runs sem (.done (.error failure)) before final after ↔ _
          simp [and_assoc, and_comm]
  | call op continuation ih =>
      show Runs sem (.call op fun outcome => continuation outcome >>= next) before final after ↔ _
      simp only [call_iff, ih]
      constructor
      · rintro ⟨outcome, middle, step, ⟨value, later, first, second⟩ | ⟨failure, first, same⟩⟩
        · exact .inl ⟨value, later, ⟨outcome, middle, step, first⟩, second⟩
        · exact .inr ⟨failure, ⟨outcome, middle, step, first⟩, same⟩
      · rintro (⟨value, later, ⟨outcome, middle, step, first⟩, second⟩ |
          ⟨failure, ⟨outcome, middle, step, first⟩, same⟩)
        · exact ⟨outcome, middle, step, .inl ⟨value, later, first, second⟩⟩
        · exact ⟨outcome, middle, step, .inr ⟨failure, first, same⟩⟩

theorem tryCatch_iff {program : Program I α} {handle : I.Failure → Program I α}
    {final : I.Outcome α} {before after : S} :
    Runs sem (program.tryCatch handle) before final after ↔
      (∃ value, Runs sem program before (.ok value) after ∧ final = .ok value) ∨
        ∃ failure middle, Runs sem program before (.error failure) middle ∧
          Runs sem (handle failure) middle final after := by
  induction program generalizing before with
  | done outcome =>
      cases outcome with
      | ok value =>
          show Runs sem (.done (.ok value)) before final after ↔ _
          simp [and_assoc, and_comm]
      | error failure =>
          show Runs sem (handle failure) before final after ↔ _
          simp [and_assoc]
  | call op continuation ih =>
      show Runs sem (.call op fun outcome => (continuation outcome).tryCatch handle)
        before final after ↔ _
      simp only [call_iff, ih]
      constructor
      · rintro ⟨outcome, middle, step, ⟨value, first, same⟩ | ⟨failure, later, first, second⟩⟩
        · exact .inl ⟨value, ⟨outcome, middle, step, first⟩, same⟩
        · exact .inr ⟨failure, later, ⟨outcome, middle, step, first⟩, second⟩
      · rintro (⟨value, ⟨outcome, middle, step, first⟩, same⟩ |
          ⟨failure, later, ⟨outcome, middle, step, first⟩, second⟩)
        · exact ⟨outcome, middle, step, .inl ⟨value, first, same⟩⟩
        · exact ⟨outcome, middle, step, .inr ⟨failure, later, first, second⟩⟩

theorem bind_ok {program : Program I α} {next : α → Program I β} {value : α}
    {final : I.Outcome β} {before middle after : S}
    (first : Runs sem program before (.ok value) middle)
    (second : Runs sem (next value) middle final after) :
    Runs sem (program >>= next) before final after :=
  bind_iff.mpr (.inl ⟨value, middle, first, second⟩)

theorem bind_error {program : Program I α} {next : α → Program I β} {failure : I.Failure}
    {before after : S} (first : Runs sem program before (.error failure) after) :
    Runs sem (program >>= next) before (.error failure) after :=
  bind_iff.mpr (.inr ⟨failure, first, rfl⟩)

/-- A program that goes on without a call. -/
theorem of_bind_pure {program : Program I α} {next : α → β} {final : I.Outcome β} {before after : S}
    (run : Runs sem (program >>= fun value => pure (next value)) before final after) :
    ∃ settled, final = settled.map next ∧ Runs sem program before settled after := by
  rcases bind_iff.mp run with ⟨value, middle, first, rest⟩ | ⟨failure, first, rfl⟩
  · obtain ⟨rfl, rfl⟩ := pure_iff.mp rest
    exact ⟨.ok value, rfl, first⟩
  · exact ⟨.error failure, rfl, first⟩

theorem tryCatch_error {program : Program I α} {handle : I.Failure → Program I α}
    {failure : I.Failure} {final : I.Outcome α} {before middle after : S}
    (body : Runs sem program before (.error failure) middle)
    (handler : Runs sem (handle failure) middle final after) :
    Runs sem (program.tryCatch handle) before final after :=
  tryCatch_iff.mpr (.inr ⟨failure, middle, body, handler⟩)

theorem tryCatch_ok {program : Program I α} {handle : I.Failure → Program I α} {value : α}
    {before after : S} (body : Runs sem program before (.ok value) after) :
    Runs sem (program.tryCatch handle) before (.ok value) after :=
  tryCatch_iff.mpr (.inl ⟨value, body, rfl⟩)

theorem attempt_error {program : Program I Unit} {failure : I.Failure} {before after : S}
    (body : Runs sem program before (.error failure) after) :
    Runs sem program.attempt before (.ok ()) after :=
  tryCatch_error body (pure_iff.mpr ⟨rfl, rfl⟩)

end Runs

/-- The relational runs of a handler are its deterministic runs. -/
theorem runs_semantics_iff {handler : Handler I S} {program : Program I α} {before after : S}
    {final : I.Outcome α} :
    Runs handler.semantics program before final after ↔
      program.run handler before = (final, after) := by
  induction program generalizing before with
  | done outcome =>
      rw [Runs.done_iff, run_done, Prod.mk.injEq]
      exact ⟨fun ⟨first, second⟩ => ⟨first.symm, second.symm⟩,
        fun ⟨first, second⟩ => ⟨first.symm, second.symm⟩⟩
  | call op next ih =>
      rw [Runs.call_iff]
      constructor
      · rintro ⟨outcome, middle, step, rest⟩
        have here : handler op before = (outcome, middle) := step
        rw [run, here]
        exact ih outcome |>.mp rest
      · intro total
        exact ⟨_, _, rfl, (ih _).mpr total⟩

end DistributedFileStorage.Async
