import DistributedFileStorage.Relational.Transactions
import DistributedFileStorage.Services.Calls

/-!
# The connections of the metadata store

All callers share one `MetadataStoreImpl`. It has a pool of connections and a field `client`: the
connection of the transaction that was begun last, or null. Every method of the store asks
`getClient` for the connection of its statement: the one in `client` when there is one, and some
connection of the pool otherwise. So it is the field, and not the caller, that decides whether a
statement belongs to a transaction.

A query is sent on a connection when the method is called, and the connection answers its queries
in this order. So the choice of the connection and the execution of the statement are one step.
-/

set_option autoImplicit false

namespace DistributedFileStorage.Services

open Async Store Relational

/-- What a method of the store does to the database alone. -/
def StoreOp.onDatabase (op : StoreOp) (db : Database) : Except Failure op.Result × Database :=
  let executed := op.exec (.ofStore db)
  (executed.1, executed.2.store)

/-- A method of the store that rejects changes nothing. -/
theorem StoreOp.onDatabase_error {op : StoreOp} {db after : Database} {failure : Failure}
    (rejected : op.onDatabase db = (.error failure, after)) : after = db := by
  obtain ⟨outcome, same⟩ := Prod.mk.inj rejected
  have unchanged : (op.exec (.ofStore db)).2 = .ofStore db :=
    exec_error (Prod.ext outcome rfl)
  rw [← same, unchanged]
  rfl

/-! ## The state -/

abbrev ConnectionId := ℕ

/-- The state behind a `MetadataStoreImpl`: the server, the connections that are taken from the
pool, and the field `client`. -/
structure StoreImpl where
  server : Server ConnectionId Database
  taken : List ConnectionId
  client : Option ConnectionId

/-- The awaited calls of the methods, and what they do to the field `client` right before or
after. -/
inductive ConnectionOp where
  /-- `this.client = await this.pool.connect()`. -/
  | connect
  /-- Whether `this.client` is set. -/
  | hasClient
  /-- `await this.client.query('BEGIN')`, and so on. -/
  | command (command : Command)
  /-- `this.client.release(); this.client = null`. -/
  | release
  /-- The statement of a method, on `this.getClient()`. -/
  | statement (op : StoreOp)

@[reducible] def ConnectionOp.Result : ConnectionOp → Type
  | hasClient => Bool
  | statement op => op.Result
  | _ => Unit

abbrev connections : Interface := ⟨ConnectionOp, ConnectionOp.Result, Failure⟩

/-- A caller of the store. -/
abbrev Caller (α : Type) : Type := Program connections α

namespace StoreImpl

/-- What an aborted transaction answers. -/
def inFailedTransaction : Failure :=
  .error "current transaction is aborted, commands ignored until end of transaction block"

/-- Execute the statement of a method on a connection. -/
def execute (state : StoreImpl) (connection : ConnectionId) (op : StoreOp) :
    Except Failure op.Result × StoreImpl :=
  let executed := state.server.execute connection inFailedTransaction op.onDatabase
  (executed.1, { state with server := executed.2 })

/-- What each call can do. The pool hands out any connection that is not taken. -/
def semantics : Semantics connections StoreImpl
  | .connect, before, outcome, after =>
      outcome = .ok () ∧ ∃ connection, connection ∉ before.taken ∧
        after = { before with taken := connection :: before.taken, client := some connection }
  | .hasClient, before, outcome, after => outcome = .ok before.client.isSome ∧ after = before
  | .command command, before, outcome, after =>
      match before.client with
      | none =>
          outcome = .error (.error "Cannot read properties of null (reading 'query')") ∧
            after = before
      | some connection =>
          outcome = .ok () ∧
            after = { before with server := before.server.command connection command }
  | .release, before, outcome, after =>
      match before.client with
      | none =>
          outcome = .error (.error "Cannot read properties of null (reading 'release')") ∧
            after = before
      | some connection =>
          outcome = .ok () ∧
            after = { before with taken := before.taken.erase connection, client := none }
  | .statement op, before, outcome, after =>
      match before.client with
      | none => ∃ connection, connection ∉ before.taken ∧
          (outcome, after) = before.execute connection op
      | some connection => (outcome, after) = before.execute connection op

/-- A pool that hands out the connection after the greatest one taken. -/
def firstFree (state : StoreImpl) : ConnectionId := state.taken.foldr max 0 + 1

/-- The calls, when the pool hands out `firstFree`. -/
def handler : Handler connections StoreImpl
  | .connect, state =>
      (.ok (),
        { state with taken := state.firstFree :: state.taken, client := some state.firstFree })
  | .hasClient, state => (.ok state.client.isSome, state)
  | .command command, state =>
      match state.client with
      | none => (.error (.error "Cannot read properties of null (reading 'query')"), state)
      | some connection =>
          (.ok (), { state with server := state.server.command connection command })
  | .release, state =>
      match state.client with
      | none => (.error (.error "Cannot read properties of null (reading 'release')"), state)
      | some connection =>
          (.ok (), { state with taken := state.taken.erase connection, client := none })
  | .statement op, state => state.execute (state.client.getD state.firstFree) op

theorem firstFree_notMem (state : StoreImpl) : state.firstFree ∉ state.taken := by
  have bounded : ∀ connections : List ConnectionId, ∀ connection ∈ connections,
      connection ≤ connections.foldr max 0 := by
    intro connections
    induction connections with
    | nil => exact fun _ member => nomatch member
    | cons first rest ih =>
        intro connection member
        rw [List.foldr_cons]
        rcases List.mem_cons.mp member with rfl | later
        · exact le_max_left _ _
        · exact (ih connection later).trans (le_max_right _ _)
  intro member
  have below := bounded state.taken state.firstFree member
  exact Nat.not_succ_le_self _ below

/-- The handler does what a call can do. -/
theorem semantics_handler (op : ConnectionOp) (state : StoreImpl) :
    semantics op state (handler op state).1 (handler op state).2 := by
  cases op with
  | connect => exact ⟨rfl, state.firstFree, state.firstFree_notMem, rfl⟩
  | hasClient => exact ⟨rfl, rfl⟩
  | command command =>
      unfold semantics handler
      dsimp only
      split <;> exact ⟨rfl, rfl⟩
  | release =>
      unfold semantics handler
      dsimp only
      split <;> exact ⟨rfl, rfl⟩
  | statement op =>
      unfold semantics handler
      dsimp only
      split
      · rename_i idle
        rw [idle]
        exact ⟨state.firstFree, state.firstFree_notMem, rfl⟩
      · rename_i connection held
        rw [held]
        rfl

/-- A transaction is open on the connection in `client`. -/
def inTransaction (state : StoreImpl) : Bool :=
  match state.client with
  | none => false
  | some connection => (state.server.transactions connection).isSome

theorem semantics_command {command : Command} {before after : StoreImpl}
    {outcome : Except Failure Unit} {connection : ConnectionId}
    (held : before.client = some connection) :
    semantics (.command command) before outcome after ↔ outcome = .ok () ∧
      after = { before with server := before.server.command connection command } := by
  unfold semantics
  dsimp only
  split
  · rename_i idle
    exact absurd (idle.symm.trans held) nofun
  · rename_i other same
    obtain rfl := Option.some.inj (same.symm.trans held)
    rfl

theorem semantics_release {before after : StoreImpl} {outcome : Except Failure Unit}
    {connection : ConnectionId} (held : before.client = some connection) :
    semantics .release before outcome after ↔ outcome = .ok () ∧
      after = { before with taken := before.taken.erase connection, client := none } := by
  unfold semantics
  dsimp only
  split
  · rename_i idle
    exact absurd (idle.symm.trans held) nofun
  · rename_i other same
    obtain rfl := Option.some.inj (same.symm.trans held)
    rfl

/-- What the statement of a method does, whatever the connection it goes to. -/
structure Executed (op : StoreOp) (before : StoreImpl) (outcome : Except Failure op.Result)
    (after : StoreImpl) : Prop where
  client : after.client = before.client
  transactions : ∀ connection, (after.server.transactions connection).isSome =
    (before.server.transactions connection).isSome
  inside : before.inTransaction = true → after.server.committed = before.server.committed
  outside : (∀ connection, before.server.transactions connection = none) →
    op.onDatabase before.server.committed = (outcome, after.server.committed)

theorem executed_of_semantics {op : StoreOp} {before after : StoreImpl}
    {outcome : Except Failure op.Result}
    (happens : semantics (.statement op) before outcome after) :
    Executed op before outcome after := by
  obtain ⟨connection, chosen, executed⟩ : ∃ connection,
      (∀ held, before.client = some held → connection = held) ∧
        (outcome, after) = before.execute connection op := by
    unfold semantics at happens
    dsimp only at happens
    split at happens
    · rename_i idle
      obtain ⟨connection, _, executed⟩ := happens
      exact ⟨connection, fun held same => absurd (idle.symm.trans same) nofun, executed⟩
    · rename_i connection held
      exact ⟨connection, fun other same => Option.some.inj (held.symm.trans same), happens⟩
  obtain ⟨rfl, rfl⟩ := Prod.mk.inj executed
  refine ⟨rfl, fun other => Server.isSome_transactions_execute, fun opened => ?_, fun closed => ?_⟩
  · unfold inTransaction at opened
    split at opened
    · cases opened
    · rename_i held same
      obtain rfl := chosen held same
      exact Server.committed_execute_of_open opened
  · have made : before.server.execute connection inFailedTransaction op.onDatabase = _ :=
      Server.execute_of_closed (closed connection) fun db failure after =>
        StoreOp.onDatabase_error
    rw [made]

end StoreImpl

/-! ## The methods -/

namespace MetadataStoreImpl

open Program

def beginTransaction : Caller Unit := do
  perform (I := connections) .connect
  perform (I := connections) (.command .begin)

/-- `commitTransaction` and `rollbackTransaction` differ in their command. -/
def endTransaction (command : Command) : Caller Unit := do
  let hasClient ← perform (I := connections) .hasClient
  if hasClient then
    perform (I := connections) (.command command)
    perform (I := connections) .release
  else throw (I := connections) (.error "No active transaction")

def commitTransaction : Caller Unit := endTransaction .commit

def rollbackTransaction : Caller Unit := endTransaction .rollback

/-- Any of the methods that make a statement, such as `createFile`. -/
def statement (op : StoreOp) : Caller op.Result := perform (I := connections) (.statement op)

end MetadataStoreImpl

end DistributedFileStorage.Services
