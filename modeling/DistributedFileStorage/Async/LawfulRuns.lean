import DistributedFileStorage.Async.Interference
import Mathlib.Data.List.Infix

/-!
# Runs whose calls keep a rule

What a task does can depend on what it has seen, and what it has seen is in the history. A rule
says which calls a task may make after a history. A run is lawful when every call of it keeps
the rule.

The tasks of a pool keep the rule when each of their programs does, whatever happens between
their calls (`Pool.lawful`). From then on the programs are not needed any more: what holds in a
lawful run is proved by induction on its calls. `LawfulRun.since` is the rule for what a
certain call brings about and later calls leave as it is.
-/

set_option autoImplicit false

namespace DistributedFileStorage.Async

open Program

variable {I : Interface} {ι S α β : Type}

/-! ## The calls after a certain call -/

/-- The calls after the first one with a property. -/
def callsAfter (test : Event I ι S → Bool) : List (Event I ι S) → List (Event I ι S)
  | [] => []
  | event :: rest => if test event then rest else callsAfter test rest

variable {test : Event I ι S → Bool} {first second history : List (Event I ι S)}

theorem callsAfter_append (found : ∃ event ∈ first, test event = true) :
    callsAfter test (first ++ second) = callsAfter test first ++ second := by
  induction first with
  | nil =>
      obtain ⟨event, member, _⟩ := found
      cases member
  | cons event rest ih =>
      by_cases here : test event = true
      · simp [callsAfter, here]
      · obtain ⟨other, member, holds⟩ := found
        rcases List.mem_cons.mp member with rfl | later
        · exact absurd holds here
        · simp [callsAfter, here, ih ⟨other, later, holds⟩]

theorem mem_of_mem_callsAfter {event : Event I ι S} (member : event ∈ callsAfter test history) :
    event ∈ history := by
  induction history with
  | nil => cases member
  | cons head rest ih =>
      unfold callsAfter at member
      split at member
      · exact List.mem_cons_of_mem head member
      · exact List.mem_cons_of_mem head (ih member)

/-- A place in a list with one more item is that item, or a place in the list. -/
theorem concat_eq_append_cons {α : Type} {items earlier later : List α} {last item : α}
    (split : items ++ [last] = earlier ++ item :: later) :
    (later = [] ∧ items = earlier ∧ last = item) ∨
      ∃ rest, later = rest ++ [last] ∧ items = earlier ++ item :: rest := by
  rcases List.eq_nil_or_concat' later with rfl | ⟨rest, final, rfl⟩
  · obtain ⟨same, ends⟩ := List.append_inj' split rfl
    exact .inl ⟨rfl, same, List.singleton_inj.mp ends⟩
  · rw [← List.cons_append, ← List.append_assoc] at split
    obtain ⟨same, ends⟩ := List.append_inj' split rfl
    exact .inr ⟨rest, by rw [List.singleton_inj.mp ends], same⟩

/-! ## Lawful runs -/

/-- Every call in the history of the moment keeps the rule. -/
inductive LawfulRun (sem : Semantics I S) (rule : List (Event I ι S) → ι → I.Op → Prop)
    (origin : S) : Moment I ι S → Prop where
  | start : LawfulRun sem rule origin (.start origin)
  | next {before : Moment I ι S} {task : ι} {op : I.Op} {outcome : I.Outcome (I.Result op)}
      {after : S} (earlier : LawfulRun sem rule origin before)
      (keeps : rule before.history task op) (happens : sem op before.state outcome after) :
      LawfulRun sem rule origin (before.next task op outcome after)

namespace LawfulRun

variable {sem : Semantics I S} {rule : List (Event I ι S) → ι → I.Op → Prop} {origin : S}
  {moment : Moment I ι S}

/-- What every lawful call keeps holds in every state. -/
theorem invariant (holds : S → Prop) (lawful : LawfulRun sem rule origin moment)
    (initially : holds origin)
    (step : ∀ history task op before outcome after, rule history task op →
      sem op before outcome after → holds before → holds after) : holds moment.state := by
  induction lawful with
  | start => exact initially
  | next earlier keeps happens ih => exact step _ _ _ _ _ _ keeps happens ih

/-- The moment before a call in the history. -/
theorem prior (lawful : LawfulRun sem rule origin moment) {earlier later : List (Event I ι S)}
    {event : Event I ι S} (split : moment.history = earlier ++ event :: later) :
    ∃ before : Moment I ι S, LawfulRun sem rule origin before ∧ before.history = earlier ∧
      before.state = event.before ∧ rule earlier event.task event.op ∧
      sem event.op event.before event.outcome event.after := by
  induction lawful generalizing later with
  | start => simp [Moment.start] at split
  | @next before task op outcome after earlierRun keeps happens ih =>
      rw [Moment.history_next] at split
      rcases concat_eq_append_cons split with ⟨_, same, rfl⟩ | ⟨rest, _, same⟩
      · exact ⟨before, earlierRun, same, rfl, same ▸ keeps, happens⟩
      · exact ih same

/-- Every call in the history keeps the rule, and happens, at a moment of its own. -/
theorem exists_prior (lawful : LawfulRun sem rule origin moment) {event : Event I ι S}
    (member : event ∈ moment.history) :
    ∃ before : Moment I ι S, LawfulRun sem rule origin before ∧
      before.history ⊆ moment.history ∧ before.state = event.before ∧
      rule before.history event.task event.op ∧
      sem event.op event.before event.outcome event.after := by
  obtain ⟨earlier, later, split⟩ := List.append_of_mem member
  obtain ⟨before, earlierRun, rfl, state, keeps, happens⟩ := lawful.prior split
  refine ⟨before, earlierRun, ?_, state, keeps, happens⟩
  rw [split]
  exact List.subset_append_left _ _

theorem happens_of_mem (lawful : LawfulRun sem rule origin moment) {event : Event I ι S}
    (member : event ∈ moment.history) :
    sem event.op event.before event.outcome event.after := by
  obtain ⟨_, _, _, _, _, happens⟩ := lawful.exists_prior member
  exact happens

/-- What holds right after a call, and every lawful call keeps, holds in every later state. -/
theorem stays (holds : S → Prop)
    (keeps : ∀ history task op before outcome after, rule history task op →
      sem op before outcome after → holds before → holds after)
    (lawful : LawfulRun sem rule origin moment) {event : Event I ι S}
    (member : event ∈ moment.history) (here : holds event.after) : holds moment.state := by
  induction lawful with
  | start => cases member
  | next earlier allowed happens ih =>
      rcases List.mem_append.mp member with old | new
      · exact keeps _ _ _ _ _ _ allowed happens (ih old)
      · obtain rfl := List.mem_singleton.mp new
        exact here

/-- **A call that brings about what did not hold before, and what every lawful call keeps, is made
once.** -/
theorem once (holds : S → Prop) (test : Event I ι S → Prop)
    (keeps : ∀ history task op before outcome after, rule history task op →
      sem op before outcome after → holds before → holds after)
    (brings : ∀ event : Event I ι S, test event →
      sem event.op event.before event.outcome event.after → ¬ holds event.before ∧ holds event.after)
    (lawful : LawfulRun sem rule origin moment) {first second : Event I ι S}
    (memberFirst : first ∈ moment.history) (testFirst : test first)
    (memberSecond : second ∈ moment.history) (testSecond : test second) : first = second := by
  have happened : ∀ event ∈ moment.history, test event → holds event.after := by
    intro event member holdsTest
    exact (brings event holdsTest (lawful.happens_of_mem member)).2
  induction lawful with
  | start => cases memberFirst
  | @next before task op outcome after earlier allowed happens ih =>
      have afresh : ∀ event ∈ before.history, test event →
          ¬ test ⟨task, op, outcome, before.state, after⟩ := by
        intro event old holdsTest again
        have held := happened event (List.mem_append_left _ old) holdsTest
        exact (brings _ again happens).1 (earlier.stays holds keeps old held)
      rcases List.mem_append.mp memberFirst with oldFirst | newFirst
      · rcases List.mem_append.mp memberSecond with oldSecond | newSecond
        · exact ih oldFirst oldSecond fun event member => happened event
            (List.mem_append_left _ member)
        · rw [List.mem_singleton.mp newSecond] at testSecond
          exact absurd testSecond (afresh first oldFirst testFirst)
      · rw [List.mem_singleton.mp newFirst] at testFirst ⊢
        rcases List.mem_append.mp memberSecond with oldSecond | newSecond
        · exact absurd testFirst (afresh second oldSecond testSecond)
        · exact (List.mem_singleton.mp newSecond).symm

/-- **What a call brings about and later calls leave as it is** holds from that call on. -/
theorem since (holds : S → Prop) (test breaks : Event I ι S → Bool)
    (lawful : LawfulRun sem rule origin moment)
    (brings : ∀ history task op before outcome after, rule history task op →
      sem op before outcome after → test ⟨task, op, outcome, before, after⟩ = true → holds after)
    (leaves : ∀ history task op before outcome after, rule history task op →
      sem op before outcome after → breaks ⟨task, op, outcome, before, after⟩ = false →
        holds before → holds after)
    (found : ∃ event ∈ moment.history, test event = true)
    (unbroken : ∀ event ∈ callsAfter test moment.history, breaks event = false) :
    holds moment.state := by
  induction lawful with
  | start =>
      obtain ⟨event, member, _⟩ := found
      cases member
  | @next before task op outcome after earlier keeps happens ih =>
      by_cases already : ∃ event ∈ before.history, test event = true
      · rw [Moment.history_next, callsAfter_append already] at unbroken
        refine leaves _ _ _ _ _ _ keeps happens (unbroken _ (by simp)) (ih already ?_)
        exact fun event member => unbroken event (List.mem_append_left _ member)
      · obtain ⟨event, member, holds⟩ := found
        rcases List.mem_append.mp member with old | new
        · exact absurd ⟨event, old, holds⟩ already
        · obtain rfl := List.mem_singleton.mp new
          exact brings _ _ _ _ _ _ keeps happens holds

/-- **What holds right after a call lasts** until a call that may break it. -/
theorem lasts (holds : S → Prop) (breaks : Event I ι S → Prop)
    (lawful : LawfulRun sem rule origin moment)
    (keeps : ∀ history task op before outcome after, rule history task op →
      sem op before outcome after → ¬ breaks ⟨task, op, outcome, before, after⟩ →
        holds before → holds after)
    {earlier later : List (Event I ι S)} {event : Event I ι S}
    (split : moment.history = earlier ++ event :: later) (here : holds event.after)
    (unbroken : ∀ other ∈ later, ¬ breaks other) : holds moment.state := by
  induction lawful generalizing later with
  | start => simp [Moment.start] at split
  | @next before task op outcome after earlierRun allowed happens ih =>
      rw [Moment.history_next] at split
      rcases concat_eq_append_cons split with ⟨_, _, rfl⟩ | ⟨rest, rfl, same⟩
      · exact here
      · obtain ⟨old, new⟩ := List.forall_mem_append.mp unbroken
        exact keeps _ _ _ _ _ _ allowed happens (new _ (List.mem_singleton_self _)) (ih same old)

/-- **What did not hold at first was brought about by a call**, and has held since. -/
theorem exists_source (holds : S → Prop) (source : Event I ι S → Prop)
    (lawful : LawfulRun sem rule origin moment) (initially : ¬ holds origin)
    (step : ∀ history task op before outcome after, rule history task op →
      sem op before outcome after → holds after →
        holds before ∨ source ⟨task, op, outcome, before, after⟩)
    (now : holds moment.state) :
    ∃ earlier event later, moment.history = earlier ++ event :: later ∧ source event ∧
      ∀ other ∈ later, holds other.after := by
  induction lawful with
  | start => exact absurd now initially
  | @next before task op outcome after earlierRun keeps happens ih =>
      by_cases already : holds before.state
      · obtain ⟨earlier, event, later, split, brings, since⟩ := ih already
        refine ⟨earlier, event, later ++ [⟨task, op, outcome, before.state, after⟩], ?_, brings, ?_⟩
        · rw [Moment.history_next, split, List.append_assoc, List.cons_append]
        · exact List.forall_mem_append.mpr ⟨since, List.forall_mem_singleton.mpr now⟩
      · exact ⟨before.history, _, [], rfl,
          (step _ _ _ _ _ _ keeps happens now).resolve_left already, List.forall_mem_nil _⟩

/-- **Every call is as it should be exactly when every call meets a condition**, when this is so for
one call, and calls as they should be keep what the equivalence needs. -/
theorem forall_iff (holds : S → Prop) (right meets : Event I ι S → Prop)
    (lawful : LawfulRun sem rule origin moment) (initially : holds origin)
    (step : ∀ (task : ι) op before outcome after, sem op before outcome after → holds before →
      (right ⟨task, op, outcome, before, after⟩ ↔ meets ⟨task, op, outcome, before, after⟩) ∧
        (right ⟨task, op, outcome, before, after⟩ → holds after)) :
    (∀ event ∈ moment.history, right event) ↔ ∀ event ∈ moment.history, meets event := by
  have both : ((∀ event ∈ moment.history, right event) ↔ ∀ event ∈ moment.history, meets event) ∧
      ((∀ event ∈ moment.history, right event) → holds moment.state) := by
    induction lawful with
    | start =>
        exact ⟨iff_of_true (List.forall_mem_nil _) (List.forall_mem_nil _), fun _ => initially⟩
    | next earlier keeps happens ih =>
        simp only [Moment.history_next, List.forall_mem_append, List.forall_mem_singleton]
        constructor
        · constructor
          · rintro ⟨old, new⟩
            exact ⟨ih.1.mp old, (step _ _ _ _ _ happens (ih.2 old)).1.mp new⟩
          · rintro ⟨old, new⟩
            have rightOld := ih.1.mpr old
            exact ⟨rightOld, (step _ _ _ _ _ happens (ih.2 rightOld)).1.mpr new⟩
        · rintro ⟨old, new⟩
          exact (step _ _ _ _ _ happens (ih.2 old)).2 new
  exact both.1

end LawfulRun

/-- The calls of a pool keep the rule that allows every call. -/
theorem PoolRuns.lawful [DecidableEq ι] {sem : Semantics I S} {tasks after : Pool I ι α}
    {origin : S} {reached : Moment I ι S}
    (run : PoolRuns sem (tasks, .start origin) (after, reached)) :
    LawfulRun sem (fun _ _ _ => True) origin reached := by
  generalize target : (after, reached) = last at run
  induction run generalizing after reached with
  | refl =>
      obtain ⟨_, rfl⟩ := Prod.mk.inj target
      exact .start
  | tail _ step ih =>
      cases step with
      | call task awaits happens =>
          obtain ⟨_, rfl⟩ := Prod.mk.inj target
          exact (ih rfl).next trivial happens

/-! ## Pools whose tasks keep the rule -/

/-- The history grows, and a lawful run stays lawful. -/
structure Lawfully (sem : Semantics I S) (rule : List (Event I ι S) → ι → I.Op → Prop) (origin : S)
    (before after : Moment I ι S) : Prop where
  grows : before.history <+: after.history
  lawful : LawfulRun sem rule origin before → LawfulRun sem rule origin after

namespace Lawfully

variable {sem : Semantics I S} {rule : List (Event I ι S) → ι → I.Op → Prop} {origin : S}

theorem refl (moment : Moment I ι S) : Lawfully sem rule origin moment moment :=
  ⟨List.prefix_rfl, id⟩

theorem trans (first second third : Moment I ι S) (earlier : Lawfully sem rule origin first second)
    (later : Lawfully sem rule origin second third) : Lawfully sem rule origin first third :=
  ⟨earlier.grows.trans later.grows, later.lawful ∘ earlier.lawful⟩

theorem next {before : Moment I ι S} {task : ι} {op : I.Op} {outcome : I.Outcome (I.Result op)}
    {after : S} (keeps : rule before.history task op)
    (happens : sem op before.state outcome after) :
    Lawfully sem rule origin before (before.next task op outcome after) :=
  ⟨List.prefix_append _ _, fun lawful => lawful.next keeps happens⟩

end Lawfully

end DistributedFileStorage.Async
