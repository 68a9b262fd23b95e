import DistributedFileStorage.Async.Program

/-!
# Local variables of callbacks

Callbacks that run next to each other share the local variables of the function that
registered them. `Interface.withLocals` extends an interface by the assignments to such
variables, as calls of their own. A program over the interface is one over the extension
(`Program.lift`).
-/

set_option autoImplicit false

namespace DistributedFileStorage.Async

open Program

variable {I : Interface} {S L α β : Type}

/-- An interface together with the assignments to some local variables. -/
@[reducible] def Interface.withLocals (I : Interface) (L : Type) : Interface where
  Op := I.Op ⊕ (L → L)
  Result
    | .inl op => I.Result op
    | .inr _ => Unit
  Failure := I.Failure

/-- A semantics of the calls, next to the local variables. -/
def Semantics.withLocals (sem : Semantics I S) (L : Type) : Semantics (I.withLocals L) (S × L)
  | .inl op, before, outcome, after => sem op before.1 outcome after.1 ∧ after.2 = before.2
  | .inr update, before, outcome, after => outcome = .ok () ∧ after = (before.1, update before.2)

/-- A handler of the calls, next to the local variables. -/
def Handler.withLocals (handler : Handler I S) (L : Type) : Handler (I.withLocals L) (S × L)
  | .inl op, state => ((handler op state.1).1, (handler op state.1).2, state.2)
  | .inr update, state => (.ok (), state.1, update state.2)

theorem withLocals_semantics (handler : Handler I S) (L : Type) :
    Semantics.withLocals handler.semantics L = (handler.withLocals L).semantics := by
  funext op before outcome after
  apply propext
  obtain ⟨state, locals⟩ := after
  cases op with
  | inl op =>
      show (handler op before.1 = (outcome, state) ∧ locals = before.2) ↔
        ((handler op before.1).1, (handler op before.1).2, before.2) = (outcome, state, locals)
      constructor
      · rintro ⟨made, rfl⟩
        rw [made]
      · rintro ⟨⟩
        exact ⟨rfl, rfl⟩
  | inr update =>
      show (outcome = .ok () ∧ (state, locals) = (before.1, update before.2)) ↔
        ((.ok () : I.Outcome Unit), before.1, update before.2) = (outcome, state, locals)
      constructor
      · rintro ⟨rfl, made⟩
        rw [made]
      · rintro ⟨⟩
        exact ⟨rfl, rfl⟩

theorem Semantics.withLocals_mono {sem weaker : Semantics I S}
    (allows : ∀ op before outcome after, sem op before outcome after →
      weaker op before outcome after)
    (op : (I.withLocals L).Op) (before : S × L) (outcome : (I.withLocals L).Outcome
      ((I.withLocals L).Result op)) (after : S × L)
    (happens : Semantics.withLocals sem L op before outcome after) :
    Semantics.withLocals weaker L op before outcome after := by
  cases op with
  | inl op => exact ⟨allows op _ _ _ happens.1, happens.2⟩
  | inr update => exact happens

namespace Program

/-- A program that uses no local variable. -/
def lift : Program I α → Program (I.withLocals L) α
  | .done outcome => .done outcome
  | .call op next => .call (.inl op) fun outcome => (next outcome).lift

/-- Assign to the local variables. -/
def assign (update : L → L) : Program (I.withLocals L) Unit :=
  perform (I := I.withLocals L) (.inr update)

theorem lift_bind (program : Program I α) (next : α → Program I β) :
    (lift (program >>= next) : Program (I.withLocals L) β) =
      lift program >>= fun value => lift (next value) := by
  induction program with
  | done outcome => cases outcome <;> rfl
  | call op continuation ih => exact congrArg (Program.call _) (funext fun outcome => ih outcome)

theorem lift_tryCatch (program : Program I α) (handle : I.Failure → Program I α) :
    (lift (program.tryCatch handle) : Program (I.withLocals L) α) =
      (lift program).tryCatch fun failure => lift (handle failure) := by
  induction program with
  | done outcome => cases outcome <;> rfl
  | call op continuation ih => exact congrArg (Program.call _) (funext fun outcome => ih outcome)

/-- What a program does to the state, its assignments left out. -/
def forgetLocals : Program (I.withLocals L) α → Program I α
  | .done outcome => .done outcome
  | .call (.inl op) next => .call op fun outcome => (next outcome).forgetLocals
  | .call (.inr _) next => (next (.ok ())).forgetLocals

theorem forgetLocals_lift (program : Program I α) :
    (lift program : Program (I.withLocals L) α).forgetLocals = program := by
  induction program with
  | done outcome => rfl
  | call op continuation ih => exact congrArg (Program.call _) (funext fun outcome => ih outcome)

theorem forgetLocals_bind (program : Program (I.withLocals L) α)
    (next : α → Program (I.withLocals L) β) :
    (program >>= next).forgetLocals =
      program.forgetLocals >>= fun value => (next value).forgetLocals := by
  induction program with
  | done outcome => cases outcome <;> rfl
  | call op continuation ih =>
      cases op with
      | inl op => exact congrArg (Program.call _) (funext fun outcome => ih outcome)
      | inr update => exact ih (.ok ())

theorem forgetLocals_tryCatch (program : Program (I.withLocals L) α)
    (handle : I.Failure → Program (I.withLocals L) α) :
    (program.tryCatch handle).forgetLocals =
      program.forgetLocals.tryCatch fun failure => (handle failure).forgetLocals := by
  induction program with
  | done outcome => cases outcome <;> rfl
  | call op continuation ih =>
      cases op with
      | inl op => exact congrArg (Program.call _) (funext fun outcome => ih outcome)
      | inr update => exact ih (.ok ())

end Program

end DistributedFileStorage.Async
