import DistributedFileStorage.Async.LawfulRuns
import DistributedFileStorage.Services.MetadataStore

/-!
# The connections that transactions take

`beginTransaction` takes a connection from the pool and keeps it in the field `client`.
`commitTransaction` and `rollbackTransaction` release the connection in that field, once its query
has been answered. So the connections that are taken should be the one in the field, if any.

A query may fail, and then the connection stays in the field. But `beginTransaction` does not look
at the field before it overwrites it. In every run of calls, the connections are accounted for in
every state exactly when no connection is taken while the field holds one (`accountsFor_iff`).
-/

set_option autoImplicit false

namespace DistributedFileStorage.Services

open Async Store Relational

/-! ## Calls whose queries may fail -/

/-- The methods about transactions. -/
inductive TransactionMethod where
  | beginTransaction
  | commitTransaction
  | rollbackTransaction
  deriving DecidableEq

def TransactionMethod.program : TransactionMethod → Caller Unit
  | beginTransaction => MetadataStoreImpl.beginTransaction
  | commitTransaction => MetadataStoreImpl.commitTransaction
  | rollbackTransaction => MetadataStoreImpl.rollbackTransaction

/-- One call after the other, whether they reject or not. -/
def callEach (methods : List TransactionMethod) : Caller Unit :=
  Program.forEach (fun method => method.program.attempt) methods

namespace StoreImpl

/-- A store that has not been used. -/
def new (server : Server ConnectionId Database) : StoreImpl := ⟨server, [], none⟩

/-- Taking a connection may fail, and so may the query of a command. -/
def mayFail : ConnectionOp → Bool
  | .connect => true
  | .command _ => true
  | _ => false

/-- What each call can do, when queries may fail. A query that fails may have had its effect on the
server or not. -/
def failing : Semantics connections StoreImpl := fun op before outcome after =>
  semantics op before outcome after ∨
    (mayFail op = true ∧ (∃ failure, outcome = .error failure) ∧ after.taken = before.taken ∧
      after.client = before.client)

end StoreImpl

/-! ## The accounts -/

variable {ι : Type}

abbrev ConnectionEvent (ι : Type) : Type := Event connections ι StoreImpl

/-- The call has taken a connection from the pool. -/
def ConnectionEvent.takes (event : ConnectionEvent ι) : Bool :=
  match event.op, event.outcome with
  | .connect, .ok _ => true
  | _, _ => false

/-- The call has released a connection. -/
def ConnectionEvent.releases (event : ConnectionEvent ι) : Bool :=
  match event.op, event.outcome with
  | .release, .ok _ => true
  | _, _ => false

/-- The connections that are taken are the one in the field, and what is released had been taken
and is not taken any more. -/
structure ConnectionEvent.AccountsFor (event : ConnectionEvent ι) : Prop where
  held : event.after.taken = event.after.client.toList
  released : event.releases = true → ∃ connection, event.before.client = some connection ∧
    connection ∈ event.before.taken ∧ connection ∉ event.after.taken

/-- When the call takes a connection, the field is empty. -/
def ConnectionEvent.TakesWhenEmpty (event : ConnectionEvent ι) : Prop :=
  event.takes = true → event.before.client = none

instance (event : ConnectionEvent ι) : Decidable event.TakesWhenEmpty :=
  inferInstanceAs (Decidable (event.takes = true → event.before.client = none))

/-- **What one call does** to the connections that are taken and to the field. -/
theorem failing_cases {op : ConnectionOp} {before after : StoreImpl}
    {outcome : Except Failure op.Result} (happens : StoreImpl.failing op before outcome after)
    (task : ι) :
    let event : ConnectionEvent ι := ⟨task, op, outcome, before, after⟩
    (event.takes = true ∧ event.releases = false ∧ ∃ connection,
        after.taken = connection :: before.taken ∧ after.client = some connection) ∨
      (event.takes = false ∧ event.releases = true ∧ ∃ connection,
        before.client = some connection ∧ after.taken = before.taken.erase connection ∧
          after.client = none) ∨
      (event.takes = false ∧ event.releases = false ∧ after.taken = before.taken ∧
        after.client = before.client) := by
  rcases happens with works | ⟨fails, ⟨failure, rfl⟩, taken, client⟩
  · cases op with
    | connect =>
        obtain ⟨rfl, connection, _, rfl⟩ := works
        exact .inl ⟨rfl, rfl, connection, rfl, rfl⟩
    | hasClient =>
        obtain ⟨_, rfl⟩ := works
        exact .inr (.inr ⟨rfl, rfl, rfl, rfl⟩)
    | command command =>
        unfold StoreImpl.semantics at works
        dsimp only at works
        split at works
        · obtain ⟨_, rfl⟩ := works
          exact .inr (.inr ⟨rfl, rfl, rfl, rfl⟩)
        · obtain ⟨_, rfl⟩ := works
          exact .inr (.inr ⟨rfl, rfl, rfl, rfl⟩)
    | release =>
        unfold StoreImpl.semantics at works
        dsimp only at works
        split at works
        · obtain ⟨rfl, rfl⟩ := works
          exact .inr (.inr ⟨rfl, rfl, rfl, rfl⟩)
        · rename_i connection field
          obtain ⟨rfl, rfl⟩ := works
          exact .inr (.inl ⟨rfl, rfl, connection, field, rfl, rfl⟩)
    | statement statement =>
        have same : after.taken = before.taken ∧ after.client = before.client := by
          unfold StoreImpl.semantics at works
          dsimp only at works
          split at works
          · obtain ⟨_, _, executed⟩ := works
            obtain ⟨_, rfl⟩ := Prod.mk.inj executed
            exact ⟨rfl, rfl⟩
          · obtain ⟨_, rfl⟩ := Prod.mk.inj works
            exact ⟨rfl, rfl⟩
        exact .inr (.inr ⟨rfl, rfl, same⟩)
  · cases op with
    | connect => exact .inr (.inr ⟨rfl, rfl, taken, client⟩)
    | command command => exact .inr (.inr ⟨rfl, rfl, taken, client⟩)
    | hasClient => cases fails
    | release => cases fails
    | statement statement => cases fails

/-- **One call.** When the connections are accounted for before, they are after it exactly when it
does not take a connection while the field holds one. -/
theorem accountsFor_step {op : ConnectionOp} {before after : StoreImpl}
    {outcome : Except Failure op.Result} (happens : StoreImpl.failing op before outcome after)
    (held : before.taken = before.client.toList) (task : ι) :
    ConnectionEvent.AccountsFor (⟨task, op, outcome, before, after⟩ : ConnectionEvent ι) ↔
      ConnectionEvent.TakesWhenEmpty ⟨task, op, outcome, before, after⟩ := by
  rcases failing_cases happens task with ⟨takes, keeps, connection, taken, client⟩ |
    ⟨keeps, _, connection, field, taken, client⟩ | ⟨keeps, stays, taken, client⟩
  · constructor
    · intro accounts _
      have same : connection :: before.taken = [connection] := by
        rw [← taken, accounts.held, client]
        rfl
      exact Option.toList_eq_nil_iff.mp (held.symm.trans (List.cons.inj same).2)
    · intro empty
      refine ⟨?_, fun releases => absurd (keeps.symm.trans releases) nofun⟩
      show after.taken = after.client.toList
      rw [taken, client, held, empty takes]
      rfl
  · refine ⟨fun _ takes => absurd (keeps.symm.trans takes) nofun, fun _ => ?_⟩
    have one : before.taken = [connection] := by
      rw [held, field]
      rfl
    have none : after.taken = [] := by
      rw [taken, one]
      exact List.erase_cons_head connection []
    refine ⟨?_, fun _ => ⟨connection, field, ?_, ?_⟩⟩
    · show after.taken = after.client.toList
      rw [none, client]
      rfl
    · exact one ▸ List.mem_singleton.mpr rfl
    · exact none ▸ List.not_mem_nil
  · refine ⟨fun _ takes => absurd (keeps.symm.trans takes) nofun, fun _ => ⟨?_, ?_⟩⟩
    · show after.taken = after.client.toList
      rw [taken, client, held]
    · exact fun releases => absurd (stays.symm.trans releases) nofun

/-- **The connections of every run.** Any number of users of one store each make their calls one
after the other. Whatever queries fail, all connections are accounted for in every state exactly
when none is taken while the field holds one. -/
theorem accountsFor_iff [DecidableEq ι] (methods : ι → List TransactionMethod)
    (server : Server ConnectionId Database) {tasks : Pool connections ι Unit}
    {reached : Moment connections ι StoreImpl}
    (run : PoolRuns StoreImpl.failing (fun task => callEach (methods task), .start (.new server))
      (tasks, reached)) :
    (∀ event ∈ reached.history, ConnectionEvent.AccountsFor event) ↔
      ∀ event ∈ reached.history, ConnectionEvent.TakesWhenEmpty event := by
  refine run.lawful.forall_iff (fun state => state.taken = state.client.toList) _ _ rfl ?_
  intro task op before outcome after happens held
  exact ⟨accountsFor_step happens held task, fun accounts => accounts.held⟩

/-! ## Calls without failures -/

/-- A server whose connections are free. -/
def freeServer : Server ConnectionId Database := ⟨.empty, fun _ => none⟩

/-- One user makes these calls, and no query fails. -/
def callsRun (methods : List TransactionMethod) (calls : ℕ) :
    Pool connections Unit Unit × Moment connections Unit StoreImpl :=
  Pool.runSchedule StoreImpl.handler (List.replicate calls ())
    (fun _ => callEach methods, .start (.new freeServer))

theorem runs_callsRun (methods : List TransactionMethod) (calls : ℕ) :
    PoolRuns StoreImpl.failing (fun _ => callEach methods, .start (.new freeServer))
      ((callsRun methods calls).1, (callsRun methods calls).2) :=
  Pool.runs_runSchedule (fun op state => .inl (StoreImpl.semantics_handler op state)) _ _

/-- A transaction is begun and committed, and another one is begun. -/
theorem accountsFor_turns :
    (callsRun [.beginTransaction, .commitTransaction, .beginTransaction] 7).2.state.taken = [1] ∧
      ∀ event ∈ (callsRun [.beginTransaction, .commitTransaction, .beginTransaction] 7).2.history,
        ConnectionEvent.AccountsFor event :=
  ⟨rfl, (accountsFor_iff (fun _ => [.beginTransaction, .commitTransaction, .beginTransaction])
    freeServer (runs_callsRun _ 7)).mpr (by decide +kernel)⟩

/-- **A second `beginTransaction` loses the connection of the first one.** Both resolve, two
connections are taken, and the field holds one. -/
theorem second_begin_loses :
    ∃ tasks reached, PoolRuns StoreImpl.failing
        (fun _ : Unit => callEach [.beginTransaction, .beginTransaction], .start (.new freeServer))
        (tasks, reached) ∧
      tasks () = .done (.ok ()) ∧ reached.state.taken = [2, 1] ∧ reached.state.client = some 2 ∧
      ¬ ∀ event ∈ reached.history, ConnectionEvent.AccountsFor event := by
  refine ⟨_, _, runs_callsRun [.beginTransaction, .beginTransaction] 4, rfl, rfl, rfl, ?_⟩
  intro accounts
  have last := (accounts _ (List.getLast_mem (List.cons_ne_nil _ _))).held
  revert last
  decide +kernel

end DistributedFileStorage.Services
