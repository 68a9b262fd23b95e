import Mathlib.Logic.Function.Basic

/-!
# Transactions on the connections of a server

A server has one committed database, on which the statements of a connection act at once unless
the connection has opened a transaction. Within a transaction they act on a copy. A statement
that fails changes nothing, and aborts the transaction it is in: then every later statement
fails. `COMMIT` replaces the committed database by the copy, unless the transaction is aborted;
`ROLLBACK` drops the copy.

The copy is what a transaction sees as long as no other connection changes the committed
database while it is open.
-/

set_option autoImplicit false

namespace DistributedFileStorage.Relational

/-- An open transaction. -/
structure Transaction (D : Type) where
  working : D
  aborted : Bool

/-- The committed database, and the open transactions of the connections. -/
structure Server (C D : Type) where
  committed : D
  transactions : C → Option (Transaction D)

/-- The commands about transactions. -/
inductive Command where
  | begin
  | commit
  | rollback
  deriving DecidableEq

namespace Server

variable {C D F α : Type} [DecidableEq C]

/-- Give a connection a transaction, or none. -/
def setTransaction (server : Server C D) (connection : C)
    (transaction : Option (Transaction D)) : Server C D :=
  { server with transactions := Function.update server.transactions connection transaction }

/-- Execute a statement on a connection. The failure is the answer of an aborted transaction. -/
def execute (server : Server C D) (connection : C) (whenAborted : F)
    (statement : D → Except F α × D) : Except F α × Server C D :=
  match server.transactions connection with
  | none =>
      match statement server.committed with
      | (.ok value, db) => (.ok value, { server with committed := db })
      | (.error failure, _) => (.error failure, server)
  | some transaction =>
      if transaction.aborted then (.error whenAborted, server)
      else
        match statement transaction.working with
        | (.ok value, db) => (.ok value, server.setTransaction connection (some ⟨db, false⟩))
        | (.error failure, _) =>
            (.error failure, server.setTransaction connection (some ⟨transaction.working, true⟩))

/-- Execute a command on a connection. Outside a transaction `COMMIT` and `ROLLBACK` only warn,
and so does `BEGIN` within one. -/
def command (server : Server C D) (connection : C) : Command → Server C D
  | .begin =>
      match server.transactions connection with
      | none => server.setTransaction connection (some ⟨server.committed, false⟩)
      | some _ => server
  | .commit =>
      match server.transactions connection with
      | none => server
      | some transaction =>
          let closed := server.setTransaction connection none
          if transaction.aborted then closed else { closed with committed := transaction.working }
  | .rollback => server.setTransaction connection none

variable {server : Server C D} {connection other : C} {whenAborted : F}
  {statement : D → Except F α × D}

@[simp] theorem transactions_setTransaction_self (transaction : Option (Transaction D)) :
    (server.setTransaction connection transaction).transactions connection = transaction := by
  simp [setTransaction]

theorem transactions_setTransaction_of_ne (different : other ≠ connection)
    (transaction : Option (Transaction D)) :
    (server.setTransaction connection transaction).transactions other =
      server.transactions other := by
  simp [setTransaction, different]

/-! ## Statements -/

/-- Outside a transaction, a statement acts on the committed database. -/
theorem execute_of_closed (closed : server.transactions connection = none)
    (harmless : ∀ db failure after, statement db = (.error failure, after) → after = db) :
    server.execute connection whenAborted statement =
      ((statement server.committed).1,
        { server with committed := (statement server.committed).2 }) := by
  unfold execute
  rw [closed]
  rcases made : statement server.committed with ⟨failure | value, after⟩
  · obtain rfl := harmless _ _ _ made
    rfl
  · rfl

/-- Within a transaction, a statement leaves the committed database alone. -/
theorem committed_execute_of_open (opened : (server.transactions connection).isSome = true) :
    (server.execute connection whenAborted statement).2.committed = server.committed := by
  obtain ⟨transaction, found⟩ := Option.isSome_iff_exists.mp opened
  unfold execute
  rw [found]
  dsimp only
  split
  · rfl
  · rcases statement transaction.working with ⟨failure | value, after⟩ <;> rfl

/-- **A statement neither opens nor closes a transaction.** -/
theorem isSome_transactions_execute :
    ((server.execute connection whenAborted statement).2.transactions other).isSome =
      (server.transactions other).isSome := by
  unfold execute
  split
  · rcases statement server.committed with ⟨failure | value, after⟩ <;> rfl
  · rename_i transaction found
    split
    · rfl
    · by_cases same : other = connection
      · subst same
        rcases statement transaction.working with ⟨failure | value, after⟩ <;> simp [found]
      · rcases statement transaction.working with ⟨failure | value, after⟩ <;>
          simp [transactions_setTransaction_of_ne same]

/-! ## Commands -/

theorem committed_begin : (server.command connection .begin).committed = server.committed := by
  unfold command
  dsimp only
  split <;> rfl

theorem isSome_transactions_begin :
    ((server.command connection .begin).transactions connection).isSome = true := by
  unfold command
  dsimp only
  split
  · simp
  · rename_i found
    simp [found]

theorem transactions_begin_of_ne (different : other ≠ connection) :
    (server.command connection .begin).transactions other = server.transactions other := by
  unfold command
  dsimp only
  split
  · exact transactions_setTransaction_of_ne different _
  · rfl

/-- **A rollback leaves the committed database alone.** -/
theorem committed_rollback :
    (server.command connection .rollback).committed = server.committed := rfl

theorem transactions_rollback_self :
    (server.command connection .rollback).transactions connection = none :=
  transactions_setTransaction_self none

theorem transactions_rollback_of_ne (different : other ≠ connection) :
    (server.command connection .rollback).transactions other = server.transactions other :=
  transactions_setTransaction_of_ne different none

end Server

end DistributedFileStorage.Relational
