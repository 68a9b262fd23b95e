import Mathlib.Computability.StateTransition

/-!
# Loops

A loop is a partial step on its states: the step is undefined where the loop ends. A property that
every iteration preserves holds of all states that the loop visits. The state in which a loop ends
is followed back through its iterations.
-/

set_option autoImplicit false

namespace DistributedFileStorage.Sequences

open StateTransition

variable {State : Type} {step : State → Option State}

/-- **What every iteration preserves holds of every state of the loop.** -/
theorem invariant_of_reaches (Invariant : State → Prop)
    (preserved : ∀ state next, Invariant state → step state = some next → Invariant next)
    {start state : State} (holds : Invariant start) (reached : Reaches step start state) :
    Invariant state := by
  induction reached with
  | refl => exact holds
  | tail _ next ih => exact preserved _ _ ih (Option.mem_def.mp next)

theorem ends_here {state : State} (stopped : step state = none) : state ∈ eval step state :=
  mem_eval.mpr ⟨.refl, stopped⟩

theorem ends_after {state next final : State} (stepped : step state = some next)
    (ends : final ∈ eval step next) : final ∈ eval step state := by
  have same : eval step state = eval step next := reaches_eval (.single stepped)
  exact same ▸ ends

end DistributedFileStorage.Sequences
