import DistributedFileStorage.Async.LawfulRuns

/-!
# Calls that take effect at once

A method of an object makes several calls, and calls of other methods happen in between. The
object is linearizable when it looks to its callers as if each method took effect at one moment:
there is an order in which the methods, made one after the other, give the same answers and leave
the same value, and in this order each method stands at the place of one of its own calls. So a
method that has settled before another starts comes before it.

`TakesEffect` is the condition on one method. Of the others it relies on a relation between states
that all calls keep, for instance that nothing is ever removed. All but one of its calls leave the
value of the object as it is, and the remaining one does what the specification of the method says.
`Pool.exists_linearization` gives the order from these conditions.

The specification can be the method itself, when it runs alone (`Runs`). A method that first reads
what stays as it is, and then makes one more call, takes effect at this call
(`ReadsThenCalls.takesEffect`).
-/

set_option autoImplicit false

namespace DistributedFileStorage.Async

open Program Relation

variable {I : Interface} {ι S V α β : Type}

/-! ## One method -/

section TakesEffect

variable (sem : Semantics I S) (stays : S → S → Prop) (view : S → V)
  (effect : V → I.Outcome α → V → Prop)

/-- The calls of the program keep the relation as long as the others do. One of them at most has
the effect, with the answer that is remembered from then on, and the others leave the value as it
is. At the end, what is said of the outcome and of the remembered answer holds. -/
def TakesEffect : Program I β → Option (I.Outcome α) → S →
    (I.Outcome β → Option (I.Outcome α) → S → Prop) → Prop
  | .done outcome, taken, state, ends => ends outcome taken state
  | .call op next, taken, state, ends =>
      ∀ before, stays state before → ∀ outcome after, sem op before outcome after →
        stays before after ∧
          ((view after = view before ∧ TakesEffect (next outcome) taken after ends) ∨
            taken = none ∧ ∃ answer, effect (view before) answer (view after) ∧
              TakesEffect (next outcome) (some answer) after ends)

/-- The method has its effect once, and settles to the answer that it then had. -/
abbrev TakesEffectOnce (program : Program I α) (state : S) : Prop :=
  TakesEffect sem stays view effect program none state fun outcome taken _ => taken = some outcome

end TakesEffect

namespace TakesEffect

variable {sem : Semantics I S} {stays : S → S → Prop} {view : S → V}
  {effect : V → I.Outcome α → V → Prop} {taken : Option (I.Outcome α)} {state : S}

theorem bind {γ : Type} {program : Program I β} {next : β → Program I γ}
    {ends : I.Outcome γ → Option (I.Outcome α) → S → Prop}
    (takes : TakesEffect sem stays view effect program taken state fun outcome answer after =>
      match outcome with
      | .ok value => TakesEffect sem stays view effect (next value) answer after ends
      | .error failure => ends (.error failure) answer after) :
    TakesEffect sem stays view effect (program >>= next) taken state ends := by
  induction program generalizing taken state with
  | done outcome =>
      cases outcome with
      | ok value => exact takes
      | error failure => exact takes
  | call op continuation ih =>
      intro before reaches outcome after happens
      obtain ⟨kept, quiet | ⟨first, answer, here, later⟩⟩ :=
        takes before reaches outcome after happens
      · exact ⟨kept, .inl ⟨quiet.1, ih outcome quiet.2⟩⟩
      · exact ⟨kept, .inr ⟨first, answer, here, ih outcome later⟩⟩

theorem tryCatch {program : Program I β} {handle : I.Failure → Program I β}
    {ends : I.Outcome β → Option (I.Outcome α) → S → Prop}
    (takes : TakesEffect sem stays view effect program taken state fun outcome answer after =>
      match outcome with
      | .ok value => ends (.ok value) answer after
      | .error failure => TakesEffect sem stays view effect (handle failure) answer after ends) :
    TakesEffect sem stays view effect (program.tryCatch handle) taken state ends := by
  induction program generalizing taken state with
  | done outcome =>
      cases outcome with
      | ok value => exact takes
      | error failure => exact takes
  | call op continuation ih =>
      intro before reaches outcome after happens
      obtain ⟨kept, quiet | ⟨first, answer, here, later⟩⟩ :=
        takes before reaches outcome after happens
      · exact ⟨kept, .inl ⟨quiet.1, ih outcome quiet.2⟩⟩
      · exact ⟨kept, .inr ⟨first, answer, here, ih outcome later⟩⟩

/-- One call, which has the effect or leaves the value as it is. -/
theorem perform {op : I.Op} {ends : I.Outcome (I.Result op) → Option (I.Outcome α) → S → Prop}
    (step : ∀ before, stays state before → ∀ outcome after, sem op before outcome after →
      stays before after ∧
        ((view after = view before ∧ ends outcome taken after) ∨
          taken = none ∧ ∃ answer, effect (view before) answer (view after) ∧
            ends outcome (some answer) after)) :
    TakesEffect sem stays view effect (perform op) taken state ends := step

end TakesEffect

/-! ## Many methods -/

/-- Methods that take effect one after the other, with their answers. -/
inductive InOrder (effect : ι → V → I.Outcome α → V → Prop) (first : V) :
    List (ι × I.Outcome α) → V → Prop where
  | none : InOrder effect first [] first
  | next {middle last : V} {earlier : List (ι × I.Outcome α)} {task : ι}
      {answer : I.Outcome α} (before : InOrder effect first earlier middle)
      (here : effect task middle answer last) :
      InOrder effect first (earlier ++ [(task, answer)]) last

namespace InOrder

variable {effect : ι → V → I.Outcome α → V → Prop} {first last : V}

/-- The value before a method in the order. -/
theorem prior {earlier later : List (ι × I.Outcome α)} {task : ι} {answer : I.Outcome α}
    (order : InOrder effect first (earlier ++ (task, answer) :: later) last) :
    ∃ before after, InOrder effect first earlier before ∧ effect task before answer after := by
  generalize split : earlier ++ (task, answer) :: later = whole at order
  induction order generalizing later with
  | none => simp at split
  | @next middle last others other otherAnswer before here ih =>
      rcases concat_eq_append_cons split.symm with ⟨_, rfl, same⟩ | ⟨rest, _, rfl⟩
      · obtain ⟨rfl, rfl⟩ := Prod.mk.inj same
        exact ⟨middle, last, before, here⟩
      · exact ih rfl

/-- What every method keeps. -/
theorem invariant {holds : V → Prop}
    (step : ∀ task before answer after, effect task before answer after →
      holds before → holds after)
    {taken : List (ι × I.Outcome α)} (order : InOrder effect first taken last)
    (initially : holds first) : holds last := by
  induction order with
  | none => exact initially
  | next before here ih => exact step _ _ _ _ here ih

/-- What each method adds to a property of the value, and none takes away. -/
theorem holds_iff {holds : V → Prop} {adds : ι → I.Outcome α → Prop}
    (step : ∀ task before answer after, effect task before answer after →
      (holds after ↔ holds before ∨ adds task answer))
    {taken : List (ι × I.Outcome α)} (order : InOrder effect first taken last) :
    holds last ↔ holds first ∨ ∃ point ∈ taken, adds point.1 point.2 := by
  induction order with
  | none => simp
  | next before here ih =>
      rw [step _ _ _ _ here, ih, or_assoc]
      simp only [List.mem_append, List.mem_singleton, or_and_right, exists_or, exists_eq_left]

end InOrder

/-- The calls at which tasks take effect, with their answers: they stand in the history in this
order, one for each task, and made one after the other the tasks give these answers and leave the
value that is reached. -/
structure Linearization (view : S → V) (effect : ι → V → I.Outcome α → V → Prop) (origin : S)
    (reached : Moment I ι S) (points : List (Event I ι S × I.Outcome α)) : Prop where
  inHistory : (points.map Prod.fst).Sublist reached.history
  once : (points.map fun point => point.1.task).Nodup
  inOrder : InOrder effect (view origin) (points.map fun point => (point.1.task, point.2))
    (view reached.state)

/-- What the points say that a task answers. -/
def takenAt [DecidableEq ι] (points : List (Event I ι S × I.Outcome α)) (task : ι) :
    Option (I.Outcome α) :=
  (points.find? fun point => point.1.task = task).map Prod.snd

section Pool

variable [DecidableEq ι] {points : List (Event I ι S × I.Outcome α)} {task : ι}

theorem exists_of_takenAt {answer : I.Outcome α} (taken : takenAt points task = some answer) :
    ∃ event, (event, answer) ∈ points ∧ event.task = task := by
  obtain ⟨point, found, rfl⟩ := Option.map_eq_some_iff.mp taken
  exact ⟨point.1, List.mem_of_find?_eq_some found, by simpa using List.find?_some found⟩

theorem notMem_of_takenAt (taken : takenAt points task = none) :
    task ∉ points.map fun point => point.1.task := by
  intro member
  obtain ⟨point, listed, rfl⟩ := List.mem_map.mp member
  have never := List.find?_eq_none.mp (Option.map_eq_none_iff.mp taken) point listed
  exact never (decide_eq_true rfl)

theorem takenAt_concat (taken : takenAt points task = none) {event : Event I ι S}
    (own : event.task = task) (answer : I.Outcome α) :
    takenAt (points ++ [(event, answer)]) task = some answer := by
  unfold takenAt at taken ⊢
  rw [List.find?_append, Option.map_eq_none_iff.mp taken]
  simp [own]

theorem takenAt_concat_of_ne {event : Event I ι S} (different : event.task ≠ task)
    (answer : I.Outcome α) : takenAt (points ++ [(event, answer)]) task = takenAt points task := by
  unfold takenAt
  rw [List.find?_append]
  simp [different]

namespace Linearization

variable {view : S → V} {effect : ι → V → I.Outcome α → V → Prop} {origin : S}
  {moment : Moment I ι S} {op : I.Op} {outcome : I.Outcome (I.Result op)} {after : S}

omit [DecidableEq ι] in
/-- A call that leaves the value as it is. -/
theorem quiet (linear : Linearization view effect origin moment points) (task : ι)
    (same : view after = view moment.state) :
    Linearization view effect origin (moment.next task op outcome after) points where
  inHistory := linear.inHistory.trans (List.sublist_append_left _ _)
  once := linear.once
  inOrder := by
    rw [Moment.state_next, same]
    exact linear.inOrder

/-- A call at which its task takes effect. -/
theorem here (linear : Linearization view effect origin moment points)
    (first : takenAt points task = none) {answer : I.Outcome α}
    (has : effect task (view moment.state) answer (view after)) :
    Linearization view effect origin (moment.next task op outcome after)
      (points ++ [(⟨task, op, outcome, moment.state, after⟩, answer)]) where
  inHistory := by
    rw [List.map_append]
    exact linear.inHistory.append (List.Sublist.refl _)
  once := by
    rw [List.map_append]
    refine linear.once.append (List.nodup_singleton _) ?_
    exact List.disjoint_singleton.mpr (notMem_of_takenAt first)
  inOrder := by
    rw [List.map_append]
    exact .next linear.inOrder has

omit [DecidableEq ι] in
/-- **Real time**: a method that makes its last call before another makes its first takes effect
before it. -/
theorem precedes (linear : Linearization view effect origin moment points)
    {early late : List (Event I ι S)} (split : moment.history = early ++ late)
    {first second : Event I ι S × I.Outcome α} (member : first ∈ points)
    {earlier later : List (Event I ι S × I.Outcome α)} (place : points = earlier ++ second :: later)
    (finished : ∀ event ∈ late, event.task ≠ first.1.task)
    (unstarted : ∀ event ∈ early, event.task ≠ second.1.task) : first ∈ earlier := by
  have inHistory := linear.inHistory
  rw [split, List.sublist_append_iff] at inHistory
  obtain ⟨before, after, parts, inEarly, inLate⟩ := inHistory
  obtain ⟨start, rest, rfl, rfl, rfl⟩ := List.map_eq_append_iff.mp parts
  have firstEarly : first ∈ start := by
    refine (List.mem_append.mp member).resolve_right fun here => ?_
    exact finished _ (inLate.subset (List.mem_map_of_mem here)) rfl
  have secondLate : second ∉ start := fun here =>
    unstarted _ (inEarly.subset (List.mem_map_of_mem here)) rfl
  rcases List.append_eq_append_iff.mp place with ⟨between, rfl, _⟩ | ⟨between, same, ends⟩
  · exact List.mem_append_left _ firstEarly
  · cases between with
    | nil =>
        rw [List.append_nil] at same
        exact same ▸ firstEarly
    | cons head tail =>
        obtain ⟨rfl, _⟩ := List.cons_eq_cons.mp ends
        exact absurd (same ▸ List.mem_append_right _ List.mem_cons_self) secondLate

end Linearization

/-- **Methods that take effect at once are linearizable**: in every interleaving they answer as if
they had been made one after the other, in the order of the calls at which they take effect. A
method without a call has settled from the start. -/
theorem Pool.exists_linearization {sem : Semantics I S} {stays : S → S → Prop} {view : S → V}
    {effect : ι → V → I.Outcome α → V → Prop} {tasks after : Pool I ι α} {origin : S}
    {reached : Moment I ι S} (refl : ∀ state, stays state state)
    (trans : ∀ first second third, stays first second → stays second third → stays first third)
    (starts : ∀ task, (∃ outcome, tasks task = .done outcome) ∨
      TakesEffectOnce sem stays view (effect task) (tasks task) origin)
    (run : PoolRuns sem (tasks, .start origin) (after, reached)) :
    ∃ points, Linearization view effect origin reached points ∧
      ∀ task outcome, after task = .done outcome →
        (∃ event, (event, outcome) ∈ points ∧ event.task = task) ∨ tasks task = .done outcome := by
  have held : ∃ points, Linearization view effect origin reached points ∧
      ∀ task, (∃ outcome, tasks task = .done outcome ∧ after task = .done outcome) ∨
        ∃ state, stays state reached.state ∧
          TakesEffect sem stays view (effect task) (after task) (takenAt points task) state
            fun outcome taken _ => taken = some outcome := by
    generalize target : (after, reached) = last at run
    induction run generalizing after reached with
    | refl =>
        obtain ⟨rfl, rfl⟩ := Prod.mk.inj target
        refine ⟨[], ⟨List.nil_sublist _, List.nodup_nil, .none⟩, fun task => ?_⟩
        rcases starts task with ⟨outcome, settled⟩ | takes
        · exact .inl ⟨outcome, settled, settled⟩
        · exact .inr ⟨origin, refl origin, takes⟩
    | tail _ step ih =>
        cases step with
        | @call current moment op next outcome state task awaits happens =>
            obtain ⟨rfl, rfl⟩ := Prod.mk.inj target
            obtain ⟨points, linear, held⟩ := ih rfl
            obtain ⟨own, reaches, takes⟩ := (held task).resolve_left fun ⟨_, _, settled⟩ => by
              cases settled.symm.trans awaits
            rw [awaits] at takes
            obtain ⟨kept, effects⟩ := takes moment.state reaches outcome state happens
            rcases effects with ⟨same, rest⟩ | ⟨first, answer, has, rest⟩
            · refine ⟨points, linear.quiet task same, fun other => ?_⟩
              by_cases here : other = task
              · subst here
                exact .inr ⟨state, refl state, by rwa [Function.update_self]⟩
              · rw [Function.update_of_ne here]
                refine (held other).imp_right fun ⟨earlier, reaches, takes⟩ => ?_
                exact ⟨earlier, trans _ _ _ reaches kept, takes⟩
            · refine ⟨_, linear.here first has, fun other => ?_⟩
              by_cases here : other = task
              · subst here
                refine .inr ⟨state, refl state, ?_⟩
                rwa [Function.update_self, takenAt_concat first rfl]
              · rw [Function.update_of_ne here, takenAt_concat_of_ne (Ne.symm here)]
                refine (held other).imp_right fun ⟨earlier, reaches, takes⟩ => ?_
                exact ⟨earlier, trans _ _ _ reaches kept, takes⟩
  obtain ⟨points, linear, each⟩ := held
  refine ⟨points, linear, fun task outcome settled => ?_⟩
  rcases each task with ⟨first, initially, still⟩ | ⟨state, _, takes⟩
  · obtain rfl := Program.done.inj (still.symm.trans settled)
    exact .inr initially
  · rw [settled] at takes
    exact .inl (exists_of_takenAt takes)

/-- **Methods that all make a call** have the answers of the order, once they have settled. -/
theorem Pool.exists_linearization_of_calls {sem : Semantics I S} {stays : S → S → Prop}
    {view : S → V} {effect : ι → V → I.Outcome α → V → Prop} {tasks after : Pool I ι α} {origin : S}
    {reached : Moment I ι S} (refl : ∀ state, stays state state)
    (trans : ∀ first second third, stays first second → stays second third → stays first third)
    (starts : ∀ task, TakesEffectOnce sem stays view (effect task) (tasks task) origin)
    (run : PoolRuns sem (tasks, .start origin) (after, reached)) :
    ∃ points, Linearization view effect origin reached points ∧
      ∀ task outcome, after task = .done outcome →
        ∃ event, (event, outcome) ∈ points ∧ event.task = task := by
  obtain ⟨points, linear, settled⟩ := Pool.exists_linearization refl trans
    (fun task => .inr (starts task)) run
  refine ⟨points, linear, fun task outcome done => (settled task outcome done).resolve_right ?_⟩
  intro initially
  have takes := starts task
  rw [TakesEffectOnce, initially] at takes
  cases takes

end Pool

/-! ## Methods that read what stays, and then make one call -/

/-- The program reads what all later states answer in the same way, until it makes its last
call. A read that fails is the last call, too. -/
def ReadsThenCalls (sem : Semantics I S) (stays : S → S → Prop) : Program I α → S → Prop
  | .done _, _ => False
  | .call op next, state =>
      ∀ before, stays state before → ∀ outcome after, sem op before outcome after →
        stays before after ∧
          ((∃ final, next outcome = .done final) ∨
            after = before ∧ (∀ later, stays before later → sem op later outcome later) ∧
              ReadsThenCalls sem stays (next outcome) before)

namespace ReadsThenCalls

variable {sem : Semantics I S} {stays : S → S → Prop} {program whole : Program I α} {state : S}

/-- A read that later states answer in the same way, unless nothing depends on it any more. -/
theorem read {op : I.Op} {next : I.Result op → Program I α}
    (step : ∀ before, stays state before → ∀ outcome after, sem op before outcome after →
      stays before after ∧ after = before ∧ ∀ value, outcome = .ok value →
        (∃ final, next value = .done final) ∨
          (∀ later, stays before later → sem op later (.ok value) later) ∧
            ReadsThenCalls sem stays (next value) before) :
    ReadsThenCalls sem stays (perform op >>= next) state := by
  intro before reaches outcome after happens
  obtain ⟨kept, same, rest⟩ := step before reaches outcome after happens
  refine ⟨kept, ?_⟩
  cases outcome with
  | error failure => exact .inl ⟨.error failure, rfl⟩
  | ok value =>
      exact (rest value rfl).imp_right fun ⟨again, reads⟩ => ⟨same, again, reads⟩

/-- The last call. -/
theorem last {op : I.Op}
    (keeps : ∀ before outcome after, sem op before outcome after → stays before after) :
    ReadsThenCalls sem stays (perform op) state :=
  fun _ _ outcome _ happens => ⟨keeps _ _ _ happens, .inl ⟨outcome, rfl⟩⟩

/-- What is made of the result at the end is no call. -/
theorem map {program : Program I β} (reads : ReadsThenCalls sem stays program state) (f : β → α) :
    ReadsThenCalls sem stays (program >>= fun value => pure (f value)) state := by
  induction program generalizing state with
  | done outcome => exact reads.elim
  | call op next ih =>
      intro before reaches outcome after happens
      obtain ⟨kept, ⟨final, settled⟩ | ⟨same, again, rest⟩⟩ :=
        reads before reaches outcome after happens
      · refine ⟨kept, .inl ?_⟩
        show ∃ last, (next outcome >>= fun value => pure (f value)) = .done last
        rw [settled]
        cases final with
        | ok value => exact ⟨.ok (f value), rfl⟩
        | error failure => exact ⟨.error failure, rfl⟩
      · exact ⟨kept, .inr ⟨same, again, ih outcome rest⟩⟩

/-- A run of the program alone keeps what all calls keep. -/
theorem keeps (refl : ∀ state, stays state state)
    (reads : ReadsThenCalls sem stays program state) {before after : S}
    (reaches : stays state before)
    {outcome : I.Outcome α} (run : Runs sem program before outcome after) : stays before after := by
  induction run generalizing state with
  | done outcome state => exact refl _
  | @call op next before middle after outcome final happens rest ih =>
      obtain ⟨kept, ⟨last, settled⟩ | ⟨rfl, _, later⟩⟩ :=
        reads before reaches outcome middle happens
      · rw [settled] at rest
        obtain ⟨_, rfl⟩ := Runs.done_iff.mp rest
        exact kept
      · exact ih later (refl middle)

/-- What has been read so far would be read again. -/
theorem takesEffect_of_replays
    (trans : ∀ first second third, stays first second → stays second third → stays first third)
    (reads : ReadsThenCalls sem stays program state)
    (replays : ∀ later, stays state later → ∀ outcome after,
      Runs sem program later outcome after → Runs sem whole later outcome after) :
    TakesEffectOnce sem stays id (Runs sem whole) program state := by
  induction program generalizing state with
  | done outcome => exact reads.elim
  | call op next ih =>
      intro before reaches outcome after happens
      obtain ⟨kept, ⟨final, last⟩ | ⟨rfl, again, rest⟩⟩ :=
        reads before reaches outcome after happens
      · refine ⟨kept, .inr ⟨rfl, final, ?_, ?_⟩⟩
        · refine replays before reaches final after (.call happens ?_)
          rw [last]
          exact .done _ _
        · rw [last]
          exact rfl
      · refine ⟨kept, .inl ⟨rfl, ih outcome rest fun later evolved final end_ run => ?_⟩⟩
        exact replays later (trans _ _ _ reaches evolved) final end_
          (.call (again later evolved) run)

/-- **The program takes effect as if it ran alone at its last call.** -/
theorem takesEffect
    (trans : ∀ first second third, stays first second → stays second third → stays first third)
    (reads : ReadsThenCalls sem stays program state) :
    TakesEffectOnce sem stays id (Runs sem program) program state :=
  takesEffect_of_replays trans reads fun _ _ _ _ run => run

end ReadsThenCalls

end DistributedFileStorage.Async
