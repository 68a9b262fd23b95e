import DistributedFileStorage.Async.Interference
import DistributedFileStorage.Services.MetadataStore

/-!
# Two callers of one metadata store

One caller begins a transaction, makes statements and rolls back. Another caller makes statements
of its own, without a transaction. A statement of the second caller that is made while the
transaction is open goes to the connection of the transaction, because `getClient` takes the
connection from the shared field, and the rollback takes it back.

Whatever the order of the calls, the committed database is the one that the statements of the
second caller make that were executed while no transaction was open
(`Accounted`). So the rollback leaves the second caller's work alone when none of its statements
is executed while the transaction is open (`rollback_isolated`).
-/

set_option autoImplicit false

namespace DistributedFileStorage.Services

open Async Store Relational

/-! ## The callers -/

inductive SharedCaller where
  | transactional
  | plain
  deriving DecidableEq

/-- The call is the statement of a method. -/
inductive IsStatement : ConnectionOp → Prop where
  | statement (op : StoreOp) : IsStatement (.statement op)

/-- One caller makes its statements in a transaction that it rolls back, the other one does not
use a transaction. -/
def sharedStore (transactional plain : Caller Unit) : Pool connections SharedCaller Unit
  | .transactional => do
      MetadataStoreImpl.beginTransaction
      transactional
      MetadataStoreImpl.rollbackTransaction
  | .plain => plain

abbrev SharedEvent : Type := Event connections SharedCaller StoreImpl

abbrev SharedMoment : Type := Moment connections SharedCaller StoreImpl

/-- The method whose statement the second caller has made. -/
def SharedEvent.plainStatement (event : SharedEvent) : Option StoreOp :=
  match event.task, event.op with
  | .plain, .statement op => some op
  | _, _ => none

def SharedEvent.resolved (event : SharedEvent) : Bool :=
  match event.outcome with
  | .ok _ => true
  | .error _ => false

/-- The statements of the second caller that meet a condition, in the order in which they were
made. -/
def plainStatements (condition : SharedEvent → Bool) (history : List SharedEvent) : List StoreOp :=
  history.filterMap fun event => if condition event then event.plainStatement else none

/-- Make statements one after the other on a database, with nobody else. -/
def replay (db : Database) (ops : List StoreOp) : Database :=
  ops.foldl (fun before op => (op.onDatabase before).2) db

/-- **The rollback has left the second caller alone.** No transaction is open any more, the
database is the one that the statements of the second caller make, and none of those that have
resolved is missing. -/
structure Isolated (origin : Database) (reached : SharedMoment) : Prop where
  closed : ∀ connection, reached.state.server.transactions connection = none
  database : reached.state.server.committed =
    replay origin (plainStatements (fun _ => true) reached.history)
  resolved : reached.state.server.committed =
    replay origin (plainStatements SharedEvent.resolved reached.history)

/-! ## What the callers keep -/

/-- The statement was made while no transaction was open. -/
def SharedEvent.outside (event : SharedEvent) : Bool := !event.before.inTransaction

theorem plainStatements_append (condition : SharedEvent → Bool) (history : List SharedEvent)
    (event : SharedEvent) :
    plainStatements condition (history ++ [event]) =
      plainStatements condition history ++
        (if condition event then event.plainStatement else none).toList := by
  unfold plainStatements
  rw [List.filterMap_append]
  cases made : (if condition event then event.plainStatement else none) <;> simp [made]

theorem replay_append (db : Database) (ops : List StoreOp) (op : StoreOp) :
    replay db (ops ++ [op]) = (op.onDatabase (replay db ops)).2 :=
  List.foldl_concat _ _ _ _

/-- At most the connection in `client` has a transaction, and the committed database is the one
that the second caller's statements outside the transaction make, and those among them that have
resolved. -/
structure Accounted (origin : Database) (now : SharedMoment) : Prop where
  opened : ∀ connection, (now.state.server.transactions connection).isSome = true →
    now.state.client = some connection
  database : now.state.server.committed =
    replay origin (plainStatements SharedEvent.outside now.history)
  resolved : now.state.server.committed =
    replay origin (plainStatements (fun event => event.outside && event.resolved) now.history)

/-- A statement of the second caller changes neither the field `client` nor which transactions
are open. -/
structure Steady (origin : Database) (before after : SharedMoment) : Prop where
  accounted : Accounted origin after
  client : after.state.client = before.state.client
  transactions : ∀ connection, (after.state.server.transactions connection).isSome =
    (before.state.server.transactions connection).isSome

variable {origin : Database} {moment : SharedMoment}

theorem Steady.refl (accounted : Accounted origin moment) : Steady origin moment moment :=
  ⟨accounted, rfl, fun _ => rfl⟩

theorem Steady.trans {first second third : SharedMoment} (earlier : Steady origin first second)
    (later : Steady origin second third) : Steady origin first third where
  accounted := later.accounted
  client := later.client.trans earlier.client
  transactions connection :=
    (later.transactions connection).trans (earlier.transactions connection)

/-- No transaction is open. -/
theorem Accounted.closed_of_idle (accounted : Accounted origin moment)
    (idle : moment.state.inTransaction = false) (connection : ConnectionId) :
    moment.state.server.transactions connection = none := by
  by_contra found
  have opened : (moment.state.server.transactions connection).isSome = true :=
    Option.isSome_iff_ne_none.mpr found
  unfold StoreImpl.inTransaction at idle
  rw [accounted.opened connection opened] at idle
  exact absurd (opened.symm.trans idle) nofun

/-! ## The calls of the second caller -/

/-- One more statement of the second caller. -/
theorem replay_next {condition : SharedEvent → Bool} {history : List SharedEvent}
    {event : SharedEvent} {op : StoreOp} (made : event.plainStatement = some op) {db : Database}
    (replayed : db = replay origin (plainStatements condition history)) :
    replay origin (plainStatements condition (history ++ [event])) =
      if condition event then (op.onDatabase db).2 else db := by
  rw [plainStatements_append, made, replayed]
  split
  · exact replay_append _ _ _
  · exact congrArg (replay origin) (List.append_nil _)

/-- A statement of the second caller is accounted for, inside a transaction and outside. -/
theorem steady_statement (accounted : Accounted origin moment) {op : StoreOp}
    {outcome : Except Failure op.Result} {after : StoreImpl}
    (happens : StoreImpl.semantics (.statement op) moment.state outcome after) :
    Steady origin moment (moment.next .plain (.statement op) outcome after) := by
  have executed := StoreImpl.executed_of_semantics happens
  refine ⟨⟨fun connection found => ?_, ?_, ?_⟩, executed.client, executed.transactions⟩
  · rw [Moment.state_next, executed.transactions] at found
    exact executed.client.trans (accounted.opened connection found)
  · refine Eq.trans ?_ (replay_next rfl accounted.database).symm
    cases idle : moment.state.inTransaction with
    | true => simpa [SharedEvent.outside, idle] using executed.inside idle
    | false =>
        have made := executed.outside (accounted.closed_of_idle idle)
        simp [SharedEvent.outside, idle, made]
  · refine Eq.trans ?_ (replay_next rfl accounted.resolved).symm
    cases idle : moment.state.inTransaction with
    | true => simpa [SharedEvent.outside, idle] using executed.inside idle
    | false =>
        have made := executed.outside (accounted.closed_of_idle idle)
        cases outcome with
        | ok value => simp [SharedEvent.outside, SharedEvent.resolved, idle, made]
        | error failure =>
            -- A rejected statement leaves no trace.
            have unchanged := StoreOp.onDatabase_error made
            simp [SharedEvent.outside, SharedEvent.resolved, idle, unchanged]

theorem upholds_plain {plain : Caller Unit} (onlyStatements : plain.AllCalls IsStatement)
    (accounted : Accounted origin moment) :
    Upholds StoreImpl.semantics (fun _ => Accounted origin) (Steady origin) .plain plain moment
      (fun _ => Accounted origin) (Accounted origin) := by
  refine .of_allCalls ?_ onlyStatements accounted
  rintro _ _ ⟨op⟩ _ before accounted outcome after happens
  have steady := steady_statement accounted happens
  exact ⟨steady, steady.accounted⟩

/-! ## The calls of the first caller -/

/-- What a program of the first caller does, next to the second one. -/
abbrev Transacts (origin : Database) {α : Type} (program : Caller α) (moment : SharedMoment)
    (resolved : α → SharedMoment → Prop) : Prop :=
  Upholds StoreImpl.semantics (Steady origin) (fun _ => Accounted origin) .transactional program
    moment resolved (fun _ => True)

/-- A call of the first caller that leaves the committed database alone. -/
theorem Accounted.next (accounted : Accounted origin moment) (op : ConnectionOp)
    (outcome : Except Failure op.Result) {after : StoreImpl}
    (same : after.server.committed = moment.state.server.committed)
    (opened : ∀ connection, (after.server.transactions connection).isSome = true →
      after.client = some connection) :
    Accounted origin (moment.next .transactional op outcome after) := by
  have nothing : ∀ condition, plainStatements condition (moment.next .transactional op outcome
      after).history = plainStatements condition moment.history := by
    intro condition
    rw [Moment.history_next, plainStatements_append]
    have none : SharedEvent.plainStatement
        ⟨.transactional, op, outcome, moment.state, after⟩ = none := by
      cases op <;> rfl
    rw [none, ite_self]
    exact List.append_nil _
  refine ⟨opened, ?_, ?_⟩
  · rw [nothing]
    exact same.trans accounted.database
  · rw [nothing]
    exact same.trans accounted.resolved

/-- No transaction is open, and the field `client` is as given. -/
structure Closed (origin : Database) (client : Option ConnectionId) (now : SharedMoment) :
    Prop where
  accounted : Accounted origin now
  client : now.state.client = client
  transactions : ∀ connection, now.state.server.transactions connection = none

/-- The transaction of the first caller is open. -/
structure Opened (origin : Database) (now : SharedMoment) : Prop where
  accounted : Accounted origin now
  transaction : now.state.inTransaction = true

theorem Closed.later {client : Option ConnectionId} {later : SharedMoment}
    (closed : Closed origin client moment) (steady : Steady origin moment later) :
    Closed origin client later := by
  refine ⟨steady.accounted, steady.client.trans closed.client, fun connection => ?_⟩
  have same := steady.transactions connection
  rw [closed.transactions connection] at same
  exact Option.isNone_iff_eq_none.mp (Option.isSome_eq_false_iff.mp same)

theorem Opened.later {later : SharedMoment} (opened : Opened origin moment)
    (steady : Steady origin moment later) : Opened origin later := by
  refine ⟨steady.accounted, ?_⟩
  have transaction := opened.transaction
  unfold StoreImpl.inTransaction at transaction ⊢
  rw [steady.client]
  split
  · rename_i idle
    rw [idle] at transaction
    cases transaction
  · rename_i connection held
    rw [held] at transaction
    exact (steady.transactions connection).trans transaction

/-- A call of the first caller that does not go to the server. -/
theorem Closed.next {client later : Option ConnectionId} (closed : Closed origin client moment)
    (op : ConnectionOp) (outcome : Except Failure op.Result) {after : StoreImpl}
    (same : after.server = moment.state.server) (held : after.client = later) :
    Closed origin later (moment.next .transactional op outcome after) := by
  have transactions : ∀ connection, after.server.transactions connection = none := by
    rw [same]
    exact closed.transactions
  refine ⟨closed.accounted.next op outcome (congrArg Server.committed same) ?_, held, transactions⟩
  intro connection found
  rw [transactions connection] at found
  cases found

/-- The connection of the open transaction. -/
theorem Opened.exists_client (opened : Opened origin moment) :
    ∃ connection, moment.state.client = some connection ∧
      (moment.state.server.transactions connection).isSome = true := by
  have transaction := opened.transaction
  unfold StoreImpl.inTransaction at transaction
  split at transaction
  · cases transaction
  · rename_i connection held
    exact ⟨connection, held, transaction⟩

theorem transacts_connect (closed : Closed origin none moment) :
    Transacts origin (Program.perform (I := connections) .connect) moment
      fun _ later => ∃ connection, Closed origin (some connection) later := by
  refine .perform ?_
  rintro before steady _ _ ⟨rfl, connection, _, rfl⟩
  have next : Closed origin (some connection) (before.next .transactional .connect (.ok ())
      { before.state with
        taken := connection :: before.state.taken
        client := some connection }) :=
    (closed.later steady).next .connect (.ok ()) rfl rfl
  exact ⟨next.accounted, connection, next⟩

theorem transacts_begin {connection : ConnectionId}
    (closed : Closed origin (some connection) moment) :
    Transacts origin (Program.perform (I := connections) (.command .begin)) moment
      fun _ => Opened origin := by
  refine .perform ?_
  intro before steady outcome after happens
  have now := closed.later steady
  obtain ⟨rfl, rfl⟩ := (StoreImpl.semantics_command now.client).mp happens
  have next : Accounted origin (before.next .transactional (.command .begin) (.ok ())
      { before.state with server := before.state.server.command connection .begin }) := by
    refine now.accounted.next (.command .begin) (.ok ()) Server.committed_begin ?_
    intro other found
    by_cases same : other = connection
    · rw [same]
      exact now.client
    · rw [Server.transactions_begin_of_ne same, now.transactions other] at found
      cases found
  refine ⟨next, next, ?_⟩
  unfold StoreImpl.inTransaction
  rw [Moment.state_next, now.client]
  exact Server.isSome_transactions_begin

theorem transacts_beginTransaction (closed : Closed origin none moment) :
    Transacts origin MetadataStoreImpl.beginTransaction moment fun _ => Opened origin := by
  refine .bind ((transacts_connect closed).consequence ?_ fun _ => id)
  rintro _ connected ⟨connection, closed⟩
  exact transacts_begin closed

/-- The statements of the first caller go to its transaction. -/
theorem transacts_statements {transactional : Caller Unit}
    (onlyStatements : transactional.AllCalls IsStatement) (opened : Opened origin moment) :
    Transacts origin transactional moment fun _ => Opened origin := by
  refine Upholds.consequence (.of_allCalls ?_ onlyStatements opened) (fun _ _ => id)
    fun _ _ => trivial
  rintro earlier _ ⟨op⟩ opened before steady outcome after happens
  have now := opened.later steady
  have executed := StoreImpl.executed_of_semantics happens
  have next : Accounted origin (before.next .transactional (.statement op) outcome after) := by
    refine now.accounted.next (.statement op) outcome (executed.inside now.transaction) ?_
    intro connection found
    rw [executed.transactions] at found
    exact executed.client.trans (now.accounted.opened connection found)
  refine ⟨next, next, ?_⟩
  obtain ⟨connection, held, transaction⟩ := now.exists_client
  unfold StoreImpl.inTransaction
  rw [Moment.state_next, executed.client, held]
  exact (executed.transactions connection).trans transaction

theorem transacts_hasClient (opened : Opened origin moment) :
    Transacts origin (Program.perform (I := connections) .hasClient) moment
      fun hasClient later => hasClient = true ∧ Opened origin later := by
  refine .perform ?_
  rintro before steady _ _ ⟨rfl, rfl⟩
  have now := opened.later steady
  have next := now.accounted.next .hasClient (.ok before.state.client.isSome) rfl
    now.accounted.opened
  obtain ⟨connection, held, _⟩ := now.exists_client
  exact ⟨next, by rw [held]; rfl, next, now.transaction⟩

theorem transacts_rollback (opened : Opened origin moment) :
    Transacts origin (Program.perform (I := connections) (.command .rollback)) moment
      fun _ later => ∃ connection, Closed origin (some connection) later := by
  refine .perform ?_
  intro before steady outcome after happens
  have now := opened.later steady
  obtain ⟨connection, held, _⟩ := now.exists_client
  obtain ⟨rfl, rfl⟩ := (StoreImpl.semantics_command held).mp happens
  have closed : ∀ other,
      (before.state.server.command connection .rollback).transactions other = none := by
    intro other
    by_cases same : other = connection
    · rw [same]
      exact Server.transactions_rollback_self
    · rw [Server.transactions_rollback_of_ne same]
      by_contra found
      have client := now.accounted.opened other (Option.isSome_iff_ne_none.mpr found)
      exact same (Option.some.inj (client.symm.trans held))
  have next : Accounted origin (before.next .transactional (.command .rollback) (.ok ())
      { before.state with server := before.state.server.command connection .rollback }) := by
    refine now.accounted.next (.command .rollback) (.ok ()) Server.committed_rollback ?_
    intro other found
    rw [closed other] at found
    cases found
  exact ⟨next, connection, next, held, closed⟩

theorem transacts_release {connection : ConnectionId}
    (closed : Closed origin (some connection) moment) :
    Transacts origin (Program.perform (I := connections) .release) moment
      fun _ => Closed origin none := by
  refine .perform ?_
  intro before steady outcome after happens
  have now := closed.later steady
  obtain ⟨rfl, rfl⟩ := (StoreImpl.semantics_release now.client).mp happens
  have next : Closed origin none (before.next .transactional .release (.ok ())
      { before.state with taken := before.state.taken.erase connection, client := none }) :=
    now.next .release (.ok ()) rfl rfl
  exact ⟨next.accounted, next⟩

theorem transacts_rollbackTransaction (opened : Opened origin moment) :
    Transacts origin MetadataStoreImpl.rollbackTransaction moment fun _ => Closed origin none := by
  refine .bind ((transacts_hasClient opened).consequence ?_ fun _ => id)
  rintro hasClient checked ⟨rfl, opened⟩
  rw [if_pos rfl]
  refine .bind ((transacts_rollback opened).consequence ?_ fun _ => id)
  rintro _ rolledBack ⟨connection, closed⟩
  exact transacts_release closed

theorem transacts_transactional {transactional : Caller Unit} (plain : Caller Unit)
    (onlyStatements : transactional.AllCalls IsStatement) (closed : Closed origin none moment) :
    Transacts origin (sharedStore transactional plain .transactional) moment
      fun _ => Closed origin none := by
  refine .bind ((transacts_beginTransaction closed).consequence ?_ fun _ => id)
  intro _ begun opened
  refine .bind ((transacts_statements onlyStatements opened).consequence ?_ fun _ => id)
  exact fun _ made opened => transacts_rollbackTransaction opened

/-! ## The interleavings -/

/-- **What is left after a rollback.** No transaction is open, and the committed database is the
one that the second caller's statements make that were executed outside the transaction. -/
theorem closed_of_rolledBack {transactional plain : Caller Unit}
    (onlyTransactional : transactional.AllCalls IsStatement)
    (onlyPlain : plain.AllCalls IsStatement) {start : StoreImpl} (idle : start.client = none)
    (closed : ∀ connection, start.server.transactions connection = none)
    {tasks : Pool connections SharedCaller Unit} {reached : SharedMoment}
    (run : PoolRuns StoreImpl.semantics (sharedStore transactional plain, .start start)
      (tasks, reached))
    (rolledBack : tasks .transactional = .done (.ok ())) :
    Closed start.server.committed none reached := by
  have accounted : Accounted start.server.committed (.start start : SharedMoment) := by
    refine ⟨fun connection found => ?_, rfl, rfl⟩
    rw [Moment.start, closed connection] at found
    cases found
  have others : ∀ other, other ≠ .transactional →
      Upholds StoreImpl.semantics (fun _ => Accounted start.server.committed)
        (Steady start.server.committed) other (sharedStore transactional plain other)
        (.start start) (fun _ _ => True) fun _ => True := by
    intro other different
    cases other with
    | transactional => exact absurd rfl different
    | plain =>
        exact (upholds_plain onlyPlain accounted).consequence (fun _ _ _ => trivial)
          fun _ _ => trivial
  obtain ⟨_, moment, steady, upholds⟩ := Pool.upholds_beside .transactional
    (Accounted start.server.committed) (fun _ => .refl) (fun _ _ _ => .trans)
    (fun _ _ => Steady.accounted) accounted
    (transacts_transactional plain onlyTransactional ⟨accounted, idle, closed⟩) others run
  rw [rolledBack] at upholds
  have ended : Closed start.server.committed none moment := upholds
  exact ended.later steady

/-- The condition matters for the events of the second caller only. -/
theorem plainStatements_congr {first second : SharedEvent → Bool} {history : List SharedEvent}
    (same : ∀ event ∈ history, event.task = .plain → first event = second event) :
    plainStatements first history = plainStatements second history := by
  refine List.filterMap_congr fun event member => ?_
  by_cases own : event.task = .plain
  · rw [same event member own]
  · have nothing : event.plainStatement = none := by
      unfold SharedEvent.plainStatement
      split
      · rename_i plain _
        exact absurd plain own
      · rfl
    rw [nothing, ite_self, ite_self]

/-- **A rollback leaves the second caller alone when none of its statements is executed while the
transaction is open**, whatever the order of the calls. -/
theorem rollback_isolated (transactional plain : Caller Unit)
    (onlyTransactional : transactional.AllCalls IsStatement)
    (onlyPlain : plain.AllCalls IsStatement) (start : StoreImpl) (idle : start.client = none)
    (closed : ∀ connection, start.server.transactions connection = none)
    {tasks : Pool connections SharedCaller Unit} {reached : SharedMoment}
    (run : PoolRuns StoreImpl.semantics (sharedStore transactional plain, .start start)
      (tasks, reached))
    (rolledBack : tasks .transactional = .done (.ok ()))
    (apart : ∀ event ∈ reached.history, event.task = .plain →
      event.before.inTransaction = false) :
    Isolated start.server.committed reached := by
  have ended := closed_of_rolledBack onlyTransactional onlyPlain idle closed run rolledBack
  refine ⟨ended.transactions, ended.accounted.database.trans ?_,
    ended.accounted.resolved.trans ?_⟩
  · refine congrArg (replay _) (plainStatements_congr fun event member own => ?_)
    simp [SharedEvent.outside, apart event member own]
  · refine congrArg (replay _) (plainStatements_congr fun event member own => ?_)
    simp [SharedEvent.outside, apart event member own]

/-! ## A file that is created next to a transaction -/

/-- A store without a file, on a server whose connections are free. -/
def freshStore : StoreImpl := ⟨⟨.empty, fun _ => none⟩, [], none⟩

/-- A caller that creates a file. -/
def creates (fileId : FileId) : Caller Unit :=
  MetadataStoreImpl.statement (.createFile
    { fileId := fileId, fileName := fileId.text, ownerId := "owner", currentVersion := 1,
      totalSize := 0, createdAt := 0, updatedAt := 0, retentionDays := 30 })

/-- The first caller creates a draft that it takes back, and the second one creates its file
after some calls of the first. -/
def draftRun (calls : ℕ) : Pool connections SharedCaller Unit × SharedMoment :=
  Pool.runSchedule StoreImpl.handler
    (List.replicate calls .transactional ++ .plain :: List.replicate 6 .transactional)
    (sharedStore (creates draft) (creates notes), .start freshStore)

theorem runs_draftRun (calls : ℕ) :
    PoolRuns StoreImpl.semantics
      (sharedStore (creates draft) (creates notes), .start freshStore)
      ((draftRun calls).1, (draftRun calls).2) :=
  Pool.runs_runSchedule StoreImpl.semantics_handler _ _

theorem allCalls_creates (fileId : FileId) : (creates fileId).AllCalls IsStatement :=
  .perform (.statement _)

/-- A file created before the transaction stays. -/
theorem rollback_isolated_before : Isolated .empty (draftRun 0).2 :=
  rollback_isolated (creates draft) (creates notes) (allCalls_creates draft)
    (allCalls_creates notes) freshStore rfl (fun _ => rfl) (runs_draftRun 0) rfl (by decide)

/-- **A file created while the transaction is open goes with it.** The creation resolves, and
after the rollback the file does not exist. -/
theorem rollback_undoes_other :
    ∃ tasks reached, PoolRuns StoreImpl.semantics
        (sharedStore (creates draft) (creates notes), .start freshStore) (tasks, reached) ∧
      tasks .transactional = .done (.ok ()) ∧ tasks .plain = .done (.ok ()) ∧
      reached.state.server.committed.getFile notes = none ∧
      ¬ Isolated freshStore.server.committed reached := by
  refine ⟨_, _, runs_draftRun 2, rfl, rfl, by decide, fun isolated => ?_⟩
  have found := congrArg (fun db => (db.getFile notes).isSome) isolated.database
  revert found
  decide

end DistributedFileStorage.Services
