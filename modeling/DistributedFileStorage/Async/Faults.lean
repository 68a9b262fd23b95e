import DistributedFileStorage.Async.Program
import Mathlib.Data.Nat.Notation

/-!
# Failing calls

A call on a service may fail although the service could have done it: the connection
breaks, the disk has a hiccup. Most such failures leave the state as it was, but a failure
may also come when part of the work is done. `Faults` says which calls may fail, and what a
failing call leaves of the state, for each damage that it may do. There are three ways to
say which calls of a run fail.

* `Handler.withFaults` leaves it open: every fallible call may fail, with any damage.
* `Handler.underPattern` reads it off a pattern, one entry for each fallible call, in
  the order of the calls. Calls past the end of the pattern do not fail.
* `Handler.failingOn` reads it off the call, for programs that make no call twice.

The runs of the first kind are the runs under some pattern (`exists_pattern`,
`runs_of_pattern`).

The other way round, `Handler.accepting` leaves out the runs in which the service itself rejects
what it should not reject.

Of a pattern only the first failure matters to a program that does not handle failures
(`failingAfter`), and a program that reads up to there, with calls whose failures do no damage,
has changed nothing (`ReadsUpTo`).

The last section gives the rules of pre- and postconditions for the runs of a program. A
triple says what holds when the program resolves and what holds when it rejects.
-/

set_option autoImplicit false

namespace DistributedFileStorage.Async

open Program

variable {I : Interface} {S D α β σ : Type}

/-! ## Faults -/

/-- The calls that may fail, and the state that a failing call leaves, for each damage. -/
structure Faults (I : Interface) (S D : Type) where
  fallible : I.Op → Bool
  leaves : I.Op → D → S → S

/-- Every fallible call may also fail, and then leaves the state damaged in some way. -/
def Handler.withFaults (handler : Handler I S) (faults : Faults I S D) : Semantics I S :=
  fun op before outcome after =>
    handler op before = (outcome, after) ∨
      faults.fallible op = true ∧ (∃ failure, outcome = .error failure) ∧
        ∃ damage, after = faults.leaves op damage before

/-- Which of the next fallible calls fail, with what, and with which damage. -/
abbrev Pattern (I : Interface) (D : Type) : Type := List (Option (I.Failure × D))

/-- A handler whose fallible calls fail as a pattern says. The pattern is part of the
state, and each fallible call takes one entry. -/
def Handler.underPattern (handler : Handler I S) (faults : Faults I S D) :
    Handler I (S × Pattern I D) := fun op (state, pattern) =>
  if faults.fallible op then
    match pattern with
    | some (failure, damage) :: rest => (.error failure, faults.leaves op damage state, rest)
    | none :: rest => ((handler op state).1, (handler op state).2, rest)
    | [] => ((handler op state).1, (handler op state).2, [])
  else ((handler op state).1, (handler op state).2, pattern)

/-- A handler whose fallible calls fail as a table says, the same call always in the same way. -/
def Handler.failingOn (handler : Handler I S) (faults : Faults I S D)
    (failing : I.Op → Option (I.Failure × D)) : Handler I S := fun op state =>
  match if faults.fallible op then failing op else none with
  | some (failure, damage) => (.error failure, faults.leaves op damage state)
  | none => handler op state

variable {handler : Handler I S} {faults : Faults I S D}

/-- A fallible call may fail with anything, and with any damage. -/
theorem runs_fails {op : I.Op} (fails : faults.fallible op = true) (failure : I.Failure)
    (damage : D) (state : S) :
    Runs (handler.withFaults faults) (perform op) state (.error failure)
      (faults.leaves op damage state) :=
  Runs.perform_iff.mpr (.inr ⟨fails, ⟨failure, rfl⟩, damage, rfl⟩)

/-- A call may work. -/
theorem runs_works {op : I.Op} {before after : S} {outcome : I.Outcome (I.Result op)}
    (works : handler op before = (outcome, after)) :
    Runs (handler.withFaults faults) (perform op) before outcome after :=
  Runs.perform_iff.mpr (.inl works)

/-- A run without a fault is one of the runs with faults. -/
theorem runs_withFaults_of_run {program : Program I α} {before after : S} {outcome : I.Outcome α}
    (run : program.run handler before = (outcome, after)) :
    Runs (handler.withFaults faults) program before outcome after := by
  induction program generalizing before with
  | done settled =>
      cases run
      exact .done _ _
  | call op next ih => exact .call (.inl rfl) (ih _ run)

/-- A run under a pattern is one of the runs with faults. -/
theorem runs_of_pattern {program : Program I α} {before after : S} {pattern rest : Pattern I D}
    {outcome : I.Outcome α}
    (run : program.run (handler.underPattern faults) (before, pattern) =
      (outcome, after, rest)) :
    Runs (handler.withFaults faults) program before outcome after := by
  induction program generalizing before pattern with
  | done settled =>
      cases run
      exact .done _ _
  | call op next ih =>
      have step : (handler.withFaults faults) op before
          (handler.underPattern faults op (before, pattern)).1
          (handler.underPattern faults op (before, pattern)).2.1 := by
        unfold Handler.underPattern
        by_cases fails : faults.fallible op = true
        · simp only [fails, if_true]
          split
          · exact .inr ⟨fails, ⟨_, rfl⟩, _, rfl⟩
          · exact .inl rfl
          · exact .inl rfl
        · simp only [fails]
          exact .inl rfl
      exact .call step (ih _ run)

/-- What happens under a table of failures may happen when any call may fail. -/
theorem withFaults_failingOn (failing : I.Op → Option (I.Failure × D)) (op : I.Op) (state : S) :
    (handler.withFaults faults) op state (handler.failingOn faults failing op state).1
      (handler.failingOn faults failing op state).2 := by
  unfold Handler.failingOn
  by_cases fails : faults.fallible op = true
  · rw [if_pos fails]
    cases failing op with
    | some fault => exact .inr ⟨fails, ⟨fault.1, rfl⟩, fault.2, rfl⟩
    | none => exact .inl rfl
  · rw [if_neg fails]
    exact .inl rfl

/-- Under a table that lets all its calls work a program runs as it does without faults. -/
theorem run_failingOn_of_allCalls {failing : I.Op → Option (I.Failure × D)}
    {program : Program I α}
    (working : program.AllCalls fun op => faults.fallible op = true → failing op = none)
    (state : S) :
    program.run (handler.failingOn faults failing) state = program.run handler state := by
  induction program generalizing state with
  | done settled => rfl
  | call op next ih =>
      have works : handler.failingOn faults failing op state = handler op state := by
        unfold Handler.failingOn
        by_cases fails : faults.fallible op = true
        · rw [if_pos fails, working.1 fails]
        · rw [if_neg fails]
      rw [run, run, works]
      exact ih _ (working.2 _) _

/-- A call of the table fails with its damage. -/
theorem run_failingOn_fails {failing : I.Op → Option (I.Failure × D)} {op : I.Op}
    {failure : I.Failure} {damage : D} (fails : faults.fallible op = true)
    (fault : failing op = some (failure, damage)) (state : S) :
    (perform op).run (handler.failingOn faults failing) state =
      (.error failure, faults.leaves op damage state) := by
  have made : handler.failingOn faults failing op state =
      (.error failure, faults.leaves op damage state) := by
    rw [Handler.failingOn, if_pos fails, fault]
  exact made

/-- Under a pattern without a failure a program runs as it does without faults. -/
theorem run_underPattern_working {program : Program I α} {state : S} {pattern : Pattern I D}
    (working : ∀ entry ∈ pattern, entry = none) :
    ∃ rest, program.run (handler.underPattern faults) (state, pattern) =
      ((program.run handler state).1, (program.run handler state).2, rest) := by
  induction program generalizing state pattern with
  | done outcome => exact ⟨pattern, rfl⟩
  | call op next ih =>
      have step : ∃ rest, (∀ entry ∈ rest, entry = none) ∧
          handler.underPattern faults op (state, pattern) =
            ((handler op state).1, (handler op state).2, rest) := by
        unfold Handler.underPattern
        by_cases fails : faults.fallible op = true
        · simp only [fails, if_true]
          cases pattern with
          | nil => exact ⟨[], working, rfl⟩
          | cons entry rest =>
              obtain rfl := working entry List.mem_cons_self
              exact ⟨rest, fun other member => working other (List.mem_cons_of_mem _ member), rfl⟩
        · simp only [fails]
          exact ⟨pattern, working, rfl⟩
      obtain ⟨rest, works, here⟩ := step
      rw [run, here]
      exact ih _ works

/-- What a program does under a pattern without a failure is what it does without
faults. -/
theorem run_of_working {program : Program I α} {before after : S} {pattern rest : Pattern I D}
    {outcome : I.Outcome α} (working : ∀ entry ∈ pattern, entry = none)
    (run : program.run (handler.underPattern faults) (before, pattern) = (outcome, after, rest)) :
    program.run handler before = (outcome, after) := by
  obtain ⟨left, same⟩ : ∃ left, program.run (handler.underPattern faults) (before, pattern) =
      ((program.run handler before).1, (program.run handler before).2, left) :=
    run_underPattern_working working
  obtain ⟨settled, states⟩ := Prod.mk.inj (run.symm.trans same)
  exact Prod.ext settled.symm (Prod.mk.inj states).1.symm

/-- **A run with faults is the run under some pattern**, whatever the pattern says about
the calls after it. -/
theorem exists_pattern {program : Program I α} {before after : S} {outcome : I.Outcome α}
    (run : Runs (handler.withFaults faults) program before outcome after) :
    ∃ pattern : Pattern I D, ∀ more,
      program.run (handler.underPattern faults) (before, pattern ++ more) =
        (outcome, after, more) := by
  induction run with
  | done outcome state => exact ⟨[], fun more => rfl⟩
  | @call op next before middle after outcome final step rest ih =>
      obtain ⟨pattern, later⟩ := ih
      rcases step with works | ⟨fails, ⟨failure, rfl⟩, damage, rfl⟩
      · by_cases fails : faults.fallible op = true
        · refine ⟨none :: pattern, fun more => ?_⟩
          have here : handler.underPattern faults op (before, none :: pattern ++ more) =
              (outcome, middle, pattern ++ more) := by
            simp [Handler.underPattern, fails, works]
          rw [run, here]
          exact later more
        · refine ⟨pattern, fun more => ?_⟩
          have here : handler.underPattern faults op (before, pattern ++ more) =
              (outcome, middle, pattern ++ more) := by
            simp [Handler.underPattern, fails, works]
          rw [run, here]
          exact later more
      · refine ⟨some (failure, damage) :: pattern, fun more => ?_⟩
        have here : handler.underPattern faults op
              (before, some (failure, damage) :: pattern ++ more) =
            (.error failure, faults.leaves op damage before, pattern ++ more) := by
          simp [Handler.underPattern, fails]
        rw [run, here]
        exact later more

/-! ## The first failure -/

/-- The pattern in which some calls work and the next one fails. -/
def failingAfter (working : ℕ) (fault : I.Failure × D) (later : Pattern I D) : Pattern I D :=
  List.replicate working none ++ some fault :: later

section FirstFailure

variable {op : I.Op} {state : S} {fault : I.Failure × D} {later : Pattern I D} {working : ℕ}

theorem run_failingAfter_zero (fails : faults.fallible op = true) :
    (perform op).run (handler.underPattern faults) (state, failingAfter 0 fault later) =
      (.error fault.1, faults.leaves op fault.2 state, later) := by
  simp [failingAfter, perform, run, Handler.underPattern, fails]

theorem run_failingAfter_succ (fails : faults.fallible op = true) :
    (perform op).run (handler.underPattern faults)
        (state, failingAfter (working + 1) fault later) =
      ((handler op state).1, (handler op state).2, failingAfter working fault later) := by
  simp [failingAfter, perform, run, Handler.underPattern, fails, List.replicate_succ]

variable {next : I.Result op → Program I α} {after : S}

/-- The next call fails. -/
theorem run_call_fails (fails : faults.fallible op = true) :
    (perform op >>= next).run (handler.underPattern faults)
        (state, failingAfter 0 fault later) =
      (.error fault.1, faults.leaves op fault.2 state, later) :=
  run_bind_error _ (run_failingAfter_zero fails)

/-- The next call works. -/
theorem run_call_works {value : I.Result op} (fails : faults.fallible op = true)
    (works : handler op state = (.ok value, after)) :
    (perform op >>= next).run (handler.underPattern faults)
        (state, failingAfter (working + 1) fault later) =
      (next value).run (handler.underPattern faults)
        (after, failingAfter working fault later) := by
  have made : (perform op).run (handler.underPattern faults)
      (state, failingAfter (working + 1) fault later) = _ := run_failingAfter_succ fails
  rw [works] at made
  exact run_bind_ok _ made

/-- The next call is rejected by the service. -/
theorem run_call_rejects {other : I.Failure} (fails : faults.fallible op = true)
    (rejects : handler op state = (.error other, after)) :
    (perform op >>= next).run (handler.underPattern faults)
        (state, failingAfter (working + 1) fault later) =
      (.error other, after, failingAfter working fault later) := by
  have made : (perform op).run (handler.underPattern faults)
      (state, failingAfter (working + 1) fault later) = _ := run_failingAfter_succ fails
  rw [rejects] at made
  exact run_bind_error _ made

end FirstFailure

/-- The program makes a number of fallible calls that leave the state as it is, and goes on as
another program unless one of them fails. -/
def ReadsUpTo (handler : Handler I S) (faults : Faults I S D) (program : Program I α) (state : S)
    (calls : ℕ) (rest : Program I α) : Prop :=
  ∀ working fault later, program.run (handler.underPattern faults)
      (state, failingAfter working fault later) =
    if working < calls then (.error fault.1, state, later)
    else rest.run (handler.underPattern faults)
      (state, failingAfter (working - calls) fault later)

namespace ReadsUpTo

variable {program : Program I α} {state : S} {calls further : ℕ} {value : α}

theorem refl (program : Program I α) : ReadsUpTo handler faults program state 0 program := by
  intro working fault later
  rw [if_neg (Nat.not_lt_zero _), Nat.sub_zero]

/-- One call that reads, and whose failure does no damage. -/
theorem perform {op : I.Op} {value : I.Result op} (fails : faults.fallible op = true)
    (harmless : ∀ damage, faults.leaves op damage state = state)
    (reads : handler op state = (.ok value, state)) :
    ReadsUpTo handler faults (Program.perform op) state 1 (Pure.pure value) := by
  intro working fault later
  cases working with
  | zero => rw [if_pos Nat.one_pos, run_failingAfter_zero fails, harmless]
  | succ working =>
      rw [if_neg (by omega), run_failingAfter_succ fails, reads]
      rfl

/-- What has been read goes to the rest of the program. -/
theorem bind {next : α → Program I β} {rest : Program I β}
    (first : ReadsUpTo handler faults program state calls (Pure.pure value))
    (second : ReadsUpTo handler faults (next value) state further rest) :
    ReadsUpTo handler faults (program >>= next) state (calls + further) rest := by
  intro working fault later
  have here := first working fault later
  by_cases before : working < calls
  · rw [if_pos before] at here
    rw [run_bind_error _ here, if_pos (by omega)]
  · rw [if_neg before] at here
    rw [run_bind_ok _ here, second (working - calls) fault later, Nat.sub_sub]
    by_cases between : working - calls < further
    · rw [if_pos between, if_pos (by omega)]
    · rw [if_neg between, if_neg (by omega)]

end ReadsUpTo

/-! ## Accepted calls -/

/-- The calls whose outcome is accepted. -/
def Handler.accepting (handler : Handler I S)
    (accepts : (op : I.Op) → I.Outcome (I.Result op) → Bool) : Semantics I S :=
  fun op before outcome after => handler op before = (outcome, after) ∧ accepts op outcome = true

/-- A handler that also keeps whether all outcomes so far have been accepted. -/
def Handler.watched (handler : Handler I S)
    (accepts : (op : I.Op) → I.Outcome (I.Result op) → Bool) : Handler I (S × Bool) :=
  fun op state => ((handler op state.1).1, (handler op state.1).2,
    state.2 && accepts op (handler op state.1).1)

/-- A run whose watch ends well is one of accepted calls. -/
theorem runs_accepting_of_watched {accepts : (op : I.Op) → I.Outcome (I.Result op) → Bool}
    {program : Program I α} {before : S} {accepted : Bool}
    (watched : (program.run (handler.watched accepts) (before, accepted)).2.2 = true) :
    accepted = true ∧ Runs (handler.accepting accepts) program before
      (program.run handler before).1 (program.run handler before).2 := by
  induction program generalizing before accepted with
  | done settled => exact ⟨watched, .done _ _⟩
  | call op next ih =>
      obtain ⟨both, rest⟩ := ih _ watched
      obtain ⟨accepted, here⟩ := Bool.and_eq_true_iff.mp both
      exact ⟨accepted, .call ⟨rfl, here⟩ rest⟩

/-! ## Pre- and postconditions -/

variable {sem : Semantics I S}

/-- The postcondition of an outcome: one for when a program resolves, one for when it
rejects. -/
def Ends (resolved : α → S → Prop) (rejected : S → Prop) : I.Outcome α → S → Prop
  | .ok value, state => resolved value state
  | .error _, state => rejected state

/-- From every state with the precondition, the program ends as the postconditions
say. -/
def Triple (sem : Semantics I S) (pre : S → Prop) (program : Program I α)
    (resolved : α → S → Prop) (rejected : S → Prop) : Prop :=
  ∀ ⦃before outcome after⦄, pre before → Runs sem program before outcome after →
    Ends resolved rejected outcome after

namespace Triple

variable {pre rejected : S → Prop} {program : Program I α} {resolved : α → S → Prop}

theorem consequence {stronger weakerRejected : S → Prop} {weakerResolved : α → S → Prop}
    (triple : Triple sem pre program resolved rejected)
    (before : ∀ state, stronger state → pre state)
    (afterOk : ∀ value state, resolved value state → weakerResolved value state)
    (afterError : ∀ state, rejected state → weakerRejected state) :
    Triple sem stronger program weakerResolved weakerRejected := by
  intro start outcome after holds run
  have ends := triple (before start holds) run
  cases outcome with
  | ok value => exact afterOk value after ends
  | error failure => exact afterError after ends

/-- A triple holds of fewer runs as well. -/
theorem mono {stronger : Semantics I S}
    (allows : ∀ op before outcome after, stronger op before outcome after →
      sem op before outcome after)
    (triple : Triple sem pre program resolved rejected) :
    Triple stronger pre program resolved rejected :=
  fun _ _ _ start run => triple start (run.mono allows)

theorem pure {value : α} (holds : ∀ state, pre state → resolved value state) :
    Triple sem pre (Pure.pure value) resolved rejected := by
  intro before outcome after start run
  obtain ⟨rfl, rfl⟩ := Runs.pure_iff.mp run
  exact holds _ start

theorem throw {failure : I.Failure} (holds : ∀ state, pre state → rejected state) :
    Triple sem pre (throw failure : Program I α) resolved rejected := by
  intro before outcome after start run
  obtain ⟨rfl, rfl⟩ := Runs.throw_iff.mp run
  exact holds _ start

/-- The triple of one call. -/
theorem perform {op : I.Op} {resolved : I.Result op → S → Prop}
    (step : ∀ before outcome after, pre before → sem op before outcome after →
      Ends resolved rejected outcome after) :
    Triple sem pre (perform op) resolved rejected :=
  fun before outcome after start run => step before outcome after start (Runs.perform_iff.mp run)

theorem bind {next : α → Program I β} {middle : α → S → Prop} {resolved : β → S → Prop}
    (first : Triple sem pre program middle rejected)
    (second : ∀ value, Triple sem (middle value) (next value) resolved rejected) :
    Triple sem pre (program >>= next) resolved rejected := by
  intro before outcome after start run
  rcases Runs.bind_iff.mp run with ⟨value, state, runFirst, runSecond⟩ | ⟨failure, runFirst, rfl⟩
  · exact second value (first start runFirst) runSecond
  · exact first start runFirst

/-- The rule of composition, for an assertion in between that has to be given. -/
theorem through {next : α → Program I β} {resolved : β → S → Prop} (middle : α → S → Prop)
    (first : Triple sem pre program middle rejected)
    (second : ∀ value, Triple sem (middle value) (next value) resolved rejected) :
    Triple sem pre (program >>= next) resolved rejected :=
  first.bind second

theorem tryCatch {handle : I.Failure → Program I α} {caught : S → Prop}
    (body : Triple sem pre program resolved caught)
    (handler : ∀ failure, Triple sem caught (handle failure) resolved rejected) :
    Triple sem pre (program.tryCatch handle) resolved rejected := by
  intro before outcome after start run
  rcases Runs.tryCatch_iff.mp run with ⟨value, runBody, rfl⟩ | ⟨failure, state, runBody, runHandle⟩
  · exact body start runBody
  · exact handler failure (body start runBody) runHandle

/-- What an attempt leaves is what its program leaves, resolved or rejected. -/
theorem attempt {program : Program I Unit} {post : S → Prop}
    (body : Triple sem pre program (fun _ => post) post) :
    Triple sem pre program.attempt (fun _ => post) rejected :=
  body.tryCatch fun _ => .pure fun _ holds => holds

/-- No run starts without a state. -/
theorem of_false : Triple sem (fun _ => False) program resolved rejected :=
  fun _ _ _ start => start.elim

/-- A triple holds when it holds from each state with the precondition. -/
theorem of_start (triple : ∀ start, pre start → Triple sem (· = start) program resolved rejected) :
    Triple sem pre program resolved rejected :=
  fun before _ _ holds run => triple before holds rfl run

/-- A precondition may carry a fact that is not about the state. -/
theorem of_fact {fact : Prop} (triple : fact → Triple sem pre program resolved rejected) :
    Triple sem (fun state => fact ∧ pre state) program resolved rejected :=
  fun _ _ _ start run => triple start.1 start.2 run

/-- Two triples about one program. -/
theorem and {also alsoRejected : S → Prop} {alsoResolved : α → S → Prop}
    (first : Triple sem pre program resolved rejected)
    (second : Triple sem also program alsoResolved alsoRejected) :
    Triple sem (fun state => pre state ∧ also state) program
      (fun value state => resolved value state ∧ alsoResolved value state)
      (fun state => rejected state ∧ alsoRejected state) := by
  intro before outcome after start run
  have one := first start.1 run
  have other := second start.2 run
  cases outcome with
  | ok value => exact ⟨one, other⟩
  | error failure => exact ⟨one, other⟩

/-- **A loop keeps what each iteration keeps.** -/
theorem forEach {body : β → Program I Unit} {items : List β}
    (step : ∀ item ∈ items, Triple sem pre (body item) (fun _ => pre) rejected) :
    Triple sem pre (forEach body items) (fun _ => pre) rejected := by
  induction items with
  | nil => exact .pure fun _ holds => holds
  | cons item items ih =>
      refine (step item List.mem_cons_self).bind ?_
      intro _
      exact ih fun other member => step other (List.mem_cons_of_mem item member)

/-- **A loop moves an assertion about its variable and the items that remain** from all items
to none. -/
theorem foldEach {body : σ → β → Program I σ} (invariant : σ → List β → S → Prop)
    (step : ∀ value item rest, Triple sem (invariant value (item :: rest)) (body value item)
      (fun updated => invariant updated rest) rejected) (items : List β) (value : σ) :
    Triple sem (invariant value items) (foldEach body value items) (fun final => invariant final [])
      rejected := by
  induction items generalizing value with
  | nil => exact .pure fun _ holds => holds
  | cons item items ih => exact (step value item items).bind ih

theorem forEach_remaining {body : β → Program I Unit} (invariant : List β → S → Prop)
    (step : ∀ item rest, Triple sem (invariant (item :: rest)) (body item)
      (fun _ => invariant rest) rejected) (items : List β) :
    Triple sem (invariant items) (Program.forEach body items) (fun _ => invariant []) rejected := by
  induction items with
  | nil => exact .pure fun _ holds => holds
  | cons item items ih => exact (step item items).bind fun _ => ih

/-- A list of reads resolves to what each of them reads. -/
theorem mapEach {body : β → Program I α} {value : β → α}
    (step : ∀ item, Triple sem pre (body item) (fun result state => result = value item ∧ pre state)
      rejected) (items : List β) :
    Triple sem pre (mapEach body items)
      (fun results state => results = items.map value ∧ pre state) rejected := by
  induction items with
  | nil => exact .pure fun _ holds => ⟨rfl, holds⟩
  | cons item items ih =>
      refine (step item).bind fun first => .of_fact fun here => ih.bind fun rest => ?_
      refine .of_fact fun others => .pure fun _ holds => ⟨?_, holds⟩
      rw [here, others, List.map_cons]

end Triple

/-- The program keeps an invariant, however it ends. -/
def Keeps (sem : Semantics I S) (invariant : S → Prop) (program : Program I α) : Prop :=
  Triple sem invariant program (fun _ => invariant) invariant

namespace Keeps

variable {invariant : S → Prop} {program : Program I α}

theorem pure {value : α} : Keeps sem invariant (Pure.pure value : Program I α) :=
  Triple.pure fun _ holds => holds

theorem throw {failure : I.Failure} : Keeps sem invariant (throw failure : Program I α) :=
  Triple.throw fun _ holds => holds

theorem bind {next : α → Program I β} (first : Keeps sem invariant program)
    (second : ∀ value, Keeps sem invariant (next value)) :
    Keeps sem invariant (program >>= next) :=
  Triple.bind first second

theorem tryCatch {handle : I.Failure → Program I α} (body : Keeps sem invariant program)
    (handler : ∀ failure, Keeps sem invariant (handle failure)) :
    Keeps sem invariant (program.tryCatch handle) :=
  Triple.tryCatch body handler

theorem attempt {program : Program I Unit} (body : Keeps sem invariant program) :
    Keeps sem invariant program.attempt :=
  Triple.attempt body

theorem forEach {body : β → Program I Unit} {items : List β}
    (step : ∀ item ∈ items, Keeps sem invariant (body item)) :
    Keeps sem invariant (forEach body items) :=
  Triple.forEach step

theorem foldEach {body : σ → β → Program I σ} {items : List β}
    (step : ∀ value, ∀ item ∈ items, Keeps sem invariant (body value item)) (value : σ) :
    Keeps sem invariant (foldEach body value items) := by
  induction items generalizing value with
  | nil => exact .pure
  | cons item items ih =>
      refine (step value item List.mem_cons_self).bind fun updated => ih ?_ updated
      exact fun value other member => step value other (List.mem_cons_of_mem item member)

/-- A program keeps what each of its calls keeps. -/
theorem of_allCalls {allowed : I.Op → Prop}
    (step : ∀ op, allowed op → Keeps sem invariant (Program.perform op))
    (calls : program.AllCalls allowed) : Keeps sem invariant program := by
  induction program with
  | done outcome =>
      intro before final after start run
      obtain ⟨rfl, rfl⟩ := Runs.done_iff.mp run
      cases final with
      | ok value => exact start
      | error failure => exact start
  | call op next ih =>
      intro before final after start run
      obtain ⟨outcome, middle, happens, rest⟩ := Runs.call_iff.mp run
      have kept : invariant middle := by
        have ends := step op calls.1 start (Runs.perform_iff.mpr happens)
        cases outcome with
        | ok value => exact ends
        | error failure => exact ends
      exact ih outcome (calls.2 outcome) kept rest

/-- What holds before a run holds after it. -/
theorem of_runs (keeps : Keeps sem invariant program) {before after : S}
    {outcome : I.Outcome α} (start : invariant before)
    (run : Runs sem program before outcome after) : invariant after := by
  have ends := keeps start run
  cases outcome with
  | ok value => exact ends
  | error failure => exact ends

/-- A program that moves every state within a relation keeps what the relation keeps. -/
theorem of_relation {relation : S → S → Prop} (refl : ∀ state, relation state state)
    (keeps : ∀ start, Keeps sem (relation start) program)
    (closed : ∀ before after, invariant before → relation before after → invariant after) :
    Keeps sem invariant program := by
  intro before outcome after start run
  have reached := closed before after start ((keeps before).of_runs (refl before) run)
  cases outcome with
  | ok value => exact reached
  | error failure => exact reached

end Keeps

end DistributedFileStorage.Async
