import DistributedFileStorage.Async.OwnCalls
import DistributedFileStorage.Background.GarbageCollection

/-!
# Which storage nodes are alive

A storage node is registered, and sends heartbeats from then on. The consistency check lists the
active nodes and marks those as offline that it has not heard of for more than a minute. A heartbeat
does not make a node active again, only a new registration does.

Checks, heartbeats and registrations run next to each other, and any of their calls may fail,
before or after it has taken effect. A check that reports as many repairs as inconsistencies has
taken every node out of service that was silent when it listed the nodes (`silentNodes_offline`).
A node goes out of service only if it had been silent for more than a minute when the check read
the clock, as far as the check could know (`offlineNodes_silent`): what the node sends after it
has been listed is not seen.
-/

set_option autoImplicit false

namespace DistributedFileStorage.Background

open Async Store

/-! ## The calls -/

inductive NodeOp where
  | registerStorageNode (node : StorageNodeRecord)
  | updateStorageNode (nodeId : NodeId) (updates : StorageNodeUpdate)
  | updateNodeHeartbeat (nodeId : NodeId)
  | listStorageNodes (status : Option NodeStatus)
  /-- `Date.now()` -/
  | clock

@[reducible] def NodeOp.Result : NodeOp → Type
  | listStorageNodes _ => List StorageNodeRecord
  | clock => Time
  | _ => Unit

abbrev registry : Interface := ⟨NodeOp, NodeOp.Result, Failure⟩

structure RegistryState where
  store : Database
  now : Time

def RegistryState.elapse (state : RegistryState) (duration : ℕ) : RegistryState :=
  { state with now := state.now + duration }

/-- What a call does. -/
def registryExec : Handler registry RegistryState
  | .registerStorageNode node, state =>
      (.ok (), { state with store := state.store.registerStorageNode node })
  | .updateStorageNode nodeId updates, state =>
      (.ok (), { state with store := state.store.updateStorageNode nodeId updates })
  | .updateNodeHeartbeat nodeId, state =>
      (.ok (), { state with store := state.store.updateNodeHeartbeat nodeId state.now })
  | .listStorageNodes status, state => (.ok (state.store.listStorageNodes status), state)
  | .clock, state => (.ok state.now, state)

/-- What a call may do: before it time passes, and a call of the store may fail, in vain or with its
effect. -/
def unreliable : Semantics registry RegistryState := fun op before outcome after =>
  ∃ duration : ℕ,
    let now := before.elapse duration
    registryExec op now = (outcome, after) ∨
      op ≠ .clock ∧ (∃ failure, outcome = .error failure) ∧
        (after = now ∨ after = (registryExec op now).2)

abbrev awaitNode (op : NodeOp) : Program registry op.Result := Program.perform (I := registry) op

/-- What a check has counted. -/
structure Consistency where
  inconsistencies : ℕ
  repaired : ℕ
  deriving DecidableEq

namespace BackgroundJobs

/-- One turn of the loop of `checkMetadataConsistency`. -/
def checkHeartbeat (result : Consistency) (node : StorageNodeRecord) :
    Program registry Consistency := do
  let now ← awaitNode .clock
  let heartbeatAge := now - node.lastHeartbeat
  if heartbeatAge > 60000 then
    let found := { result with inconsistencies := result.inconsistencies + 1 }
    Program.tryCatch (do
      awaitNode (.updateStorageNode node.nodeId { status := some .offline })
      pure { found with repaired := found.repaired + 1 }) fun _ => pure found
  else pure result

def checkMetadataConsistency : Program registry Consistency := do
  let nodes ← awaitNode (.listStorageNodes (some .active))
  Program.foldEach checkHeartbeat ⟨0, 0⟩ nodes

end BackgroundJobs

/-- What runs next to each other. -/
inductive NodeCall where
  | checkMetadataConsistency
  | updateNodeHeartbeat (nodeId : NodeId)
  | registerStorageNode (node : StorageNodeRecord)

def NodeCall.program : NodeCall → Program registry (Option Consistency)
  | checkMetadataConsistency => do
      let result ← BackgroundJobs.checkMetadataConsistency
      pure (some result)
  | updateNodeHeartbeat nodeId => do
      awaitNode (.updateNodeHeartbeat nodeId)
      pure none
  | registerStorageNode node => do
      awaitNode (.registerStorageNode node)
      pure none

variable {ι : Type}

/-! ## One call -/

/-- The node that the call registers. -/
def NodeOp.registers : NodeOp → Option NodeId
  | registerStorageNode node => some node.nodeId
  | _ => none

/-- The call registers the node. -/
def Registers (nodeId : NodeId) (event : Event registry ι RegistryState) : Prop :=
  event.op.registers = some nodeId

instance (nodeId : NodeId) (event : Event registry ι RegistryState) :
    Decidable (Registers nodeId event) := inferInstanceAs (Decidable (_ = _))

/-- The call marks the node as offline. -/
def MarksOffline (nodeId : NodeId) (event : Event registry ι RegistryState) : Prop :=
  event.op = .updateStorageNode nodeId { status := some .offline }

/-- The call marks the node as offline, and resolves. -/
def MarkedOffline (nodeId : NodeId) (event : Event registry ι RegistryState) : Prop :=
  MarksOffline nodeId event ∧ Except.isOk event.outcome = true

/-- What the call changes of the row of a node at some time, if it does not register the node. -/
def NodeOp.change (nodeId : NodeId) (now : Time) : NodeOp → StorageNodeRecord → StorageNodeRecord
  | updateStorageNode other updates => if other = nodeId then .updated updates else id
  | updateNodeHeartbeat other =>
      if other = nodeId then .updated { lastHeartbeat := some now } else id
  | _ => id

variable {before after : RegistryState} {nodeId : NodeId}

theorem map_ite_change (found : Option StorageNodeRecord) (here : Prop) [Decidable here]
    (change : StorageNodeRecord → StorageNodeRecord) :
    found.map (if here then change else id) = if here then found.map change else found := by
  split
  · rfl
  · exact congrFun Option.map_id_fun _

theorem getStorageNode_registryExec {op : NodeOp}
    (other : ∀ node, op = .registerStorageNode node → node.nodeId ≠ nodeId) :
    (registryExec op before).2.store.getStorageNode nodeId =
      (before.store.getStorageNode nodeId).map (op.change nodeId before.now) := by
  cases op with
  | registerStorageNode node =>
      refine (Database.getStorageNode_registerStorageNode_of_ne (other node rfl)).trans ?_
      exact (congrFun Option.map_id_fun _).symm
  | updateStorageNode nodeId updates =>
      exact Database.getStorageNode_updateStorageNode.trans (map_ite_change _ _ _).symm
  | updateNodeHeartbeat nodeId =>
      exact Database.getStorageNode_updateStorageNode.trans (map_ite_change _ _ _).symm
  | listStorageNodes status => exact (congrFun Option.map_id_fun _).symm
  | clock => exact (congrFun Option.map_id_fun _).symm

theorem now_registryExec (op : NodeOp) : (registryExec op before).2.now = before.now := by
  cases op <;> rfl

/-- Time does not go back. -/
theorem now_step {op : NodeOp} {outcome : registry.Outcome op.Result}
    (happens : unreliable op before outcome after) : before.now ≤ after.now := by
  obtain ⟨duration, made | ⟨_, _, same⟩⟩ := happens
  · obtain rfl : _ = after := congrArg Prod.snd made
    rw [now_registryExec]
    exact Int.le_add_of_nonneg_right (Int.natCast_nonneg duration)
  · rcases same with rfl | rfl
    · exact Int.le_add_of_nonneg_right (Int.natCast_nonneg duration)
    · rw [now_registryExec]
      exact Int.le_add_of_nonneg_right (Int.natCast_nonneg duration)

/-- **What a call does to the row of a node that it does not register.** -/
theorem row_step {op : NodeOp} {outcome : registry.Outcome op.Result}
    (happens : unreliable op before outcome after)
    (other : ∀ node, op = .registerStorageNode node → node.nodeId ≠ nodeId) :
    (after.store.getStorageNode nodeId = before.store.getStorageNode nodeId ∧
        ∃ failure, outcome = .error failure) ∨
      after.store.getStorageNode nodeId =
        (before.store.getStorageNode nodeId).map (op.change nodeId after.now) := by
  obtain ⟨duration, made | ⟨_, failed, same⟩⟩ := happens
  · have reached := congrArg Prod.snd made
    dsimp only at reached
    rw [← reached, now_registryExec]
    exact .inr (getStorageNode_registryExec other)
  · rcases same with rfl | rfl
    · exact .inl ⟨rfl, failed⟩
    · rw [now_registryExec]
      exact .inr (getStorageNode_registryExec other)

/-- What a call that resolves does to the row. -/
theorem row_of_isOk (nodeId : NodeId) {event : Event registry ι RegistryState}
    (happens : unreliable event.op event.before event.outcome event.after)
    (resolved : Except.isOk event.outcome = true)
    (other : ∀ node, event.op = .registerStorageNode node → node.nodeId ≠ nodeId) :
    event.after.store.getStorageNode nodeId =
      (event.before.store.getStorageNode nodeId).map (event.op.change nodeId event.after.now) := by
  rcases row_step happens other with ⟨_, failure, failed⟩ | changed
  · rw [failed] at resolved
    cases resolved
  · exact changed

/-! ## The programs -/

/-- The rows that the call lists. -/
def lists (event : Event registry ι RegistryState) : Option (List StorageNodeRecord) :=
  match event.op, event.outcome with
  | .listStorageNodes (some .active), .ok rows => some rows
  | _, _ => none

/-- The time that the call reads. -/
def readsClock (event : Event registry ι RegistryState) : Option Time :=
  match event.op, event.outcome with
  | .clock, .ok now => some now
  | _, _ => none

/-- A node is changed after it has been listed and the clock has been read, when its heartbeat in
the list is more than a minute old. -/
inductive NodeRule (own : List (Event registry ι RegistryState)) : NodeOp → Prop where
  | mark {listing reading : Event registry ι RegistryState}
      {rest : List (Event registry ι RegistryState)} {rows : List StorageNodeRecord}
      {row : StorageNodeRecord} {now : Time} (began : own = listing :: rest)
      (listed : lists listing = some rows) (member : row ∈ rows) (read : reading ∈ rest)
      (clock : readsClock reading = some now) (silent : 60000 < now - row.lastHeartbeat) :
      NodeRule own (.updateStorageNode row.nodeId { status := some .offline })
  | other {op : NodeOp} (unchanged : ∀ nodeId updates, op ≠ .updateStorageNode nodeId updates) :
      NodeRule own op

/-- The clock was read for the row, and the node was marked if it was silent by then. -/
def Examined (row : StorageNodeRecord) (own : List (Event registry ι RegistryState)) : Prop :=
  ∃ reading ∈ own, ∃ now, readsClock reading = some now ∧
    (now - row.lastHeartbeat ≤ 60000 ∨ ∃ mark ∈ own, MarkedOffline row.nodeId mark)

theorem Examined.mono {row : StorageNodeRecord} {own : List (Event registry ι RegistryState)}
    (examined : Examined row own) (event : Event registry ι RegistryState) :
    Examined row (own ++ [event]) := by
  obtain ⟨reading, read, now, clock, fresh | ⟨mark, member, marked⟩⟩ := examined
  · exact ⟨reading, List.mem_append_left _ read, now, clock, .inl fresh⟩
  · exact ⟨reading, List.mem_append_left _ read, now, clock,
      .inr ⟨mark, List.mem_append_left _ member, marked⟩⟩

/-- A check that has listed some rows and has examined all but the remaining ones. A repair that
failed shows in the counts. -/
structure Checking (rows : List StorageNodeRecord) (result : Consistency)
    (remaining : List StorageNodeRecord) (listing : Event registry ι RegistryState)
    (rest : List (Event registry ι RegistryState)) : Prop where
  listed : lists listing = some rows
  later : ∀ row ∈ remaining, row ∈ rows
  counted : result.repaired ≤ result.inconsistencies
  examined : result.repaired = result.inconsistencies →
    ∀ row ∈ rows, row ∈ remaining ∨ Examined row rest

/-- The calls of a check. -/
def ChecksOf (rows : List StorageNodeRecord) (result : Consistency)
    (remaining : List StorageNodeRecord) (own : List (Event registry ι RegistryState)) : Prop :=
  ∃ listing rest, own = listing :: rest ∧ Checking rows result remaining listing rest

section Follows

variable {rows remaining : List StorageNodeRecord} {result : Consistency} {row : StorageNodeRecord}
  {own : List (Event registry ι RegistryState)}

/-- What the next call does not change. -/
theorem Checking.onward {listing : Event registry ι RegistryState}
    {rest : List (Event registry ι RegistryState)} (event : Event registry ι RegistryState)
    (checking : Checking rows result remaining listing rest) :
    Checking rows result remaining listing (rest ++ [event]) where
  listed := checking.listed
  later := checking.later
  counted := checking.counted
  examined same other member :=
    (checking.examined same other member).imp_right fun examined => examined.mono event

/-- A row has been examined. -/
theorem Checking.next {listing : Event registry ι RegistryState}
    {rest : List (Event registry ι RegistryState)}
    (checking : Checking rows result (row :: remaining) listing rest)
    (examined : Examined row rest) :
    Checking rows result remaining listing rest where
  listed := checking.listed
  later other member := checking.later other (List.mem_cons_of_mem _ member)
  counted := checking.counted
  examined same other member := by
    rcases checking.examined same other member with waiting | done
    · rcases List.mem_cons.mp waiting with rfl | waiting
      · exact .inr examined
      · exact .inl waiting
    · exact .inr done

variable [DecidableEq ι] {task : ι}

/-- A silent node is marked, or the counts differ from now on. -/
theorem follows_mark {listing reading : Event registry ι RegistryState}
    {rest : List (Event registry ι RegistryState)} {now : Time}
    (checking : Checking rows result (row :: remaining) listing rest) (read : reading ∈ rest)
    (clock : readsClock reading = some now) (silent : 60000 < now - row.lastHeartbeat) :
    Follows unreliable (fun _ : ι => NodeRule) task
      (awaitNode (.updateStorageNode row.nodeId { status := some .offline })) (listing :: rest)
      (fun _ => ChecksOf rows ⟨result.inconsistencies + 1, result.repaired + 1⟩ remaining)
      (ChecksOf rows ⟨result.inconsistencies + 1, result.repaired⟩ remaining) := by
  refine .perform (.mark rfl checking.listed (checking.later row List.mem_cons_self) read clock
    silent) fun before outcome after _ => ?_
  cases outcome with
  | ok value =>
      let mark : Event registry ι RegistryState :=
        ⟨task, .updateStorageNode row.nodeId { status := some .offline }, .ok value, before, after⟩
      have examined : Examined row (rest ++ [mark]) :=
        ⟨reading, List.mem_append_left _ read, now, clock,
          .inr ⟨mark, List.mem_concat_self, rfl, rfl⟩⟩
      have done := (checking.onward mark).next examined
      exact ⟨listing, _, rfl, done.listed, done.later, Nat.succ_le_succ done.counted,
        fun same => done.examined (Nat.succ_injective same)⟩
  | error failure =>
      have others := fun other member => checking.later other (List.mem_cons_of_mem _ member)
      refine ⟨listing, _, rfl, checking.listed, others, Nat.le_succ_of_le checking.counted, ?_⟩
      exact fun same => absurd same (Nat.ne_of_lt (Nat.lt_succ_of_le checking.counted))

/-- **One turn of the loop examines one row.** -/
theorem follows_checkHeartbeat (checks : ChecksOf rows result (row :: remaining) own) :
    Follows unreliable (fun _ : ι => NodeRule) task (BackgroundJobs.checkHeartbeat result row) own
      (fun updated => ChecksOf rows updated remaining) fun _ => True := by
  obtain ⟨listing, rest, rfl, checking⟩ := checks
  unfold BackgroundJobs.checkHeartbeat
  refine .bind (.perform (.other nofun) fun before outcome after _ => ?_)
  cases outcome with
  | error failure => trivial
  | ok now =>
      let reading : Event registry ι RegistryState := ⟨task, .clock, .ok now, before, after⟩
      have read : reading ∈ rest ++ [reading] := List.mem_concat_self
      have onward := checking.onward reading
      dsimp only [Ends]
      split
      · rename_i silent
        refine .tryCatch (.bind
          ((follows_mark onward read rfl silent).consequence ?_ fun _ => id)) ?_
        · exact fun _ later done => .pure done
        · exact fun _ later missed => .pure missed
      · rename_i fresh
        have examined : Examined row (rest ++ [reading]) :=
          ⟨reading, read, now, rfl, .inl (not_lt.mp fresh)⟩
        exact .pure ⟨listing, _, rfl, onward.next examined⟩

/-- What a check that has settled has done. -/
theorem follows_checkMetadataConsistency :
    Follows unreliable (fun _ : ι => NodeRule) task BackgroundJobs.checkMetadataConsistency []
      (fun result own => ∃ rows, ChecksOf rows result [] own) fun _ => True := by
  unfold BackgroundJobs.checkMetadataConsistency
  refine .bind (.perform (.other nofun) fun before outcome after _ => ?_)
  cases outcome with
  | error failure => trivial
  | ok rows =>
      dsimp only [Ends]
      have start : ChecksOf rows ⟨0, 0⟩ rows [(⟨task, .listStorageNodes (some .active), .ok rows,
          before, after⟩ : Event registry ι RegistryState)] :=
        ⟨_, [], rfl, rfl, fun _ => id, le_rfl, fun _ _ => .inl⟩
      refine (Follows.foldEach (fun result remaining own => ChecksOf rows result remaining own)
        (fun _ _ _ _ checks => follows_checkHeartbeat checks) start).consequence ?_ fun _ => id
      exact fun result own checks => ⟨rows, checks⟩

/-- What a call that has settled has done. -/
def Settled (settled : Option Consistency) (own : List (Event registry ι RegistryState)) : Prop :=
  ∀ result, settled = some result → ∃ rows, ChecksOf rows result [] own

/-- A single call that marks no node. -/
theorem follows_single {op : NodeOp}
    (unchanged : ∀ nodeId updates, op ≠ .updateStorageNode nodeId updates) :
    Follows unreliable (fun _ : ι => NodeRule) task (do
      let _ ← awaitNode op
      pure none) [] Settled fun _ => True := by
  refine .bind (.perform (.other unchanged) fun before outcome after _ => ?_)
  cases outcome with
  | error failure => trivial
  | ok value =>
      dsimp only [Ends]
      exact .pure nofun

theorem follows_nodeCall (call : NodeCall) :
    Follows unreliable (fun _ : ι => NodeRule) task call.program [] Settled fun _ => True := by
  cases call with
  | checkMetadataConsistency =>
      refine .bind (follows_checkMetadataConsistency.consequence ?_ fun _ => id)
      intro result own checks
      refine .pure ?_
      rintro _ ⟨⟩
      exact checks
  | updateNodeHeartbeat nodeId => exact follows_single nofun
  | registerStorageNode node => exact follows_single nofun

end Follows

/-! ## What lasts -/

variable {event other : Event registry ι RegistryState}

/-- A node is changed by marking it as offline. -/
theorem NodeRule.updates {own : List (Event registry ι RegistryState)}
    {updates : StorageNodeUpdate} (rule : NodeRule own (.updateStorageNode nodeId updates)) :
    updates = { status := some .offline } := by
  generalize made : NodeOp.updateStorageNode nodeId updates = op at rule
  cases rule with
  | mark => exact (NodeOp.updateStorageNode.inj made).2
  | other unchanged => exact absurd made.symm (unchanged _ _)

/-- A call that does not register the node. -/
theorem other_of_not_registers (unregistered : ¬ Registers nodeId event) (node : StorageNodeRecord)
    (registers : event.op = .registerStorageNode node) : node.nodeId ≠ nodeId := by
  intro same
  rw [Registers, registers] at unregistered
  exact unregistered (congrArg some same)

/-- What the call lists is what the store has. -/
theorem eq_of_lists {rows : List StorageNodeRecord}
    (happens : unreliable event.op event.before event.outcome event.after)
    (listed : lists event = some rows) :
    event.op = .listStorageNodes (some .active) ∧
      rows = event.after.store.listStorageNodes (some .active) := by
  obtain ⟨task, op, outcome, before, after⟩ := event
  unfold lists at listed
  dsimp only at happens listed ⊢
  split at listed
  · obtain rfl := Option.some.inj listed
    obtain ⟨duration, made | ⟨_, ⟨_, failed⟩, _⟩⟩ := happens
    · obtain ⟨same, rfl⟩ := Prod.mk.inj made
      exact ⟨rfl, (Except.ok.inj same).symm⟩
    · cases failed
  · cases listed

/-- What the call reads is the time. -/
theorem eq_of_readsClock {now : Time}
    (happens : unreliable event.op event.before event.outcome event.after)
    (clock : readsClock event = some now) : event.op = .clock ∧ now = event.after.now := by
  obtain ⟨task, op, outcome, before, after⟩ := event
  unfold readsClock at clock
  dsimp only at happens clock ⊢
  split at clock
  · obtain rfl := Option.some.inj clock
    obtain ⟨duration, made | ⟨_, ⟨_, failed⟩, _⟩⟩ := happens
    · obtain ⟨same, rfl⟩ := Prod.mk.inj made
      exact ⟨rfl, (Except.ok.inj same).symm⟩
    · cases failed
  · cases clock

variable [DecidableEq ι] {origin : RegistryState} {moment : Moment registry ι RegistryState}
  {earlier later : List (Event registry ι RegistryState)}

/-- A run of checks, heartbeats and registrations. -/
abbrev RegistryRun (origin : RegistryState) (moment : Moment registry ι RegistryState) : Prop :=
  LawfulRun unreliable (fun history task => NodeRule (callsOf task history)) origin moment

theorem now_le (run : RegistryRun origin moment)
    (split : moment.history = earlier ++ event :: later) : event.after.now ≤ moment.state.now :=
  run.lasts (fun state => event.after.now ≤ state.now) (fun _ => False)
    (fun _ _ _ _ _ _ _ happens _ held => held.trans (now_step happens)) split le_rfl fun _ _ => id

/-- Later calls are made at later times. -/
theorem now_le_of_mem (run : RegistryRun origin moment)
    (split : moment.history = earlier ++ event :: later) (member : other ∈ later) :
    event.after.now ≤ other.after.now := by
  obtain ⟨between, rest, rfl⟩ := List.append_of_mem member
  rw [← List.cons_append, ← List.append_assoc] at split
  obtain ⟨before, earlierRun, same, state, _, happens⟩ := run.prior split
  have reached := now_le earlierRun same
  rw [state] at reached
  exact reached.trans (now_step happens)

/-- **What lasts of a row**, as long as marking it and hearing of its node keep it. -/
theorem row_lasts (holds : Time → Option StorageNodeRecord → Prop) (run : RegistryRun origin moment)
    (elapse : ∀ {now later found}, now ≤ later → holds now found → holds later found)
    (marks : ∀ {now found}, holds now found →
      holds now (found.map (.updated { status := some .offline })))
    (beats : ∀ {now found}, holds now found →
      holds now (found.map (.updated { lastHeartbeat := some now })))
    (split : moment.history = earlier ++ event :: later)
    (here : holds event.after.now (event.after.store.getStorageNode nodeId))
    (unregistered : ∀ other ∈ later, ¬ Registers nodeId other) :
    holds moment.state.now (moment.state.store.getStorageNode nodeId) := by
  refine run.lasts (fun state => holds state.now (state.store.getStorageNode nodeId))
    (Registers nodeId) ?_ split here unregistered
  intro history task op before outcome after rule happens other held
  replace held := elapse (now_step happens) held
  rcases row_step happens (other_of_not_registers other) with ⟨same, _⟩ | changed
  · rw [same]
    exact held
  · rw [changed]
    cases op with
    | updateStorageNode nodeId updates =>
        obtain rfl := rule.updates
        rw [NodeOp.change, map_ite_change]
        split
        · exact marks held
        · exact held
    | updateNodeHeartbeat nodeId =>
        rw [NodeOp.change, map_ite_change]
        split
        · exact beats held
        · exact held
    | _ => exact (congrFun Option.map_id_fun _).symm ▸ held

/-- A node that is marked stays offline until it is registered. -/
theorem offline_lasts (run : RegistryRun origin moment)
    (split : moment.history = earlier ++ event :: later) (marked : MarkedOffline nodeId event)
    (there : (event.before.store.getStorageNode nodeId).isSome = true)
    (unregistered : ∀ other ∈ later, ¬ Registers nodeId other) :
    ∃ row, moment.state.store.getStorageNode nodeId = some row ∧ row.status = .offline := by
  refine row_lasts (fun _ found => ∃ row, found = some row ∧ row.status = .offline) run
    (fun _ => id) ?marks ?beats split ?here unregistered
  case marks =>
    rintro _ _ ⟨row, rfl, _⟩
    exact ⟨_, rfl, rfl⟩
  case beats =>
    rintro _ _ ⟨row, rfl, offline⟩
    exact ⟨_, rfl, offline⟩
  case here =>
    obtain ⟨_, _, _, _, _, happens⟩ := run.prior split
    obtain ⟨marks, resolved⟩ := marked
    obtain ⟨old, found⟩ := Option.isSome_iff_exists.mp there
    have changed := row_of_isOk nodeId happens resolved (marks ▸ nofun)
    refine ⟨_, changed.trans (congrArg _ found), ?_⟩
    rw [marks, NodeOp.change, if_pos rfl]
    rfl

/-- The row of a node that has been heard of is at least as recent. -/
theorem heartbeat_lasts (run : RegistryRun origin moment) {row : StorageNodeRecord}
    (split : moment.history = earlier ++ event :: later)
    (beats : event.op = .updateNodeHeartbeat nodeId) (resolved : Except.isOk event.outcome = true)
    (unregistered : ∀ other ∈ later, ¬ Registers nodeId other)
    (found : moment.state.store.getStorageNode nodeId = some row) :
    event.after.now ≤ row.lastHeartbeat := by
  have lasts := row_lasts
    (fun now found => event.after.now ≤ now ∧
      ∀ row, found = some row → event.after.now ≤ row.lastHeartbeat) run
    (fun later held => ⟨held.1.trans later, held.2⟩) ?marks ?heard split ?here unregistered
  case marks =>
    rintro _ _ ⟨past, held⟩
    refine ⟨past, fun row same => ?_⟩
    obtain ⟨old, there, rfl⟩ := Option.map_eq_some_iff.mp same
    exact held old there
  case heard =>
    rintro _ _ ⟨past, _⟩
    refine ⟨past, fun row same => ?_⟩
    obtain ⟨old, _, rfl⟩ := Option.map_eq_some_iff.mp same
    exact past
  case here =>
    obtain ⟨_, _, _, _, _, happens⟩ := run.prior split
    refine ⟨le_rfl, fun row same => ?_⟩
    rw [row_of_isOk nodeId happens resolved (beats ▸ nofun), beats, NodeOp.change,
      if_pos rfl] at same
    obtain ⟨old, _, rfl⟩ := Option.map_eq_some_iff.mp same
    exact le_rfl
  exact lasts.2 row found

/-- The calls of a task that has made a first call come after it. -/
theorem split_of_callsOf {task : ι} {history rest : List (Event registry ι RegistryState)}
    (own : callsOf task history = event :: rest) :
    ∃ earlier later, history = earlier ++ event :: later ∧ event.task = task ∧
      ∀ other ∈ rest, other ∈ later ∧ other.task = task := by
  obtain ⟨earlier, later, split, _, here, rfl⟩ := List.filter_eq_cons_iff.mp own
  exact ⟨earlier, later, split, of_decide_eq_true here, fun other member => mem_callsOf.mp member⟩

/-! ## Silent nodes go offline -/

variable {calls : ι → NodeCall} {tasks : Pool registry ι (Option Consistency)}

/-- The nodes that were active and silent for more than a minute when the task listed them are
offline, unless they have been registered since. -/
inductive SilentOffline (task : ι) (moment : Moment registry ι RegistryState) : Prop where
  | intro (earlier later : List (Event registry ι RegistryState))
      (listing : Event registry ι RegistryState)
      (split : moment.history = earlier ++ listing :: later) (own : listing.task = task)
      (lists : listing.op = .listStorageNodes (some .active))
      (offline : ∀ row ∈ listing.after.store.listStorageNodes (some .active),
        60000 < listing.after.now - row.lastHeartbeat →
          (∃ event ∈ later, Registers row.nodeId event) ∨
            ∃ now, moment.state.store.getStorageNode row.nodeId = some now ∧ now.status = .offline)

/-- **A check that reports as many repairs as inconsistencies has taken every silent node out of
service.** -/
theorem silentNodes_offline
    (run : PoolRuns unreliable (fun task => (calls task).program, .start origin) (tasks, moment))
    {task : ι} {result : Consistency} (settled : tasks task = .done (.ok (some result)))
    (whole : result.repaired = result.inconsistencies) : SilentOffline task moment := by
  obtain ⟨lawful, ends⟩ := Pool.follows (fun task => follows_nodeCall (calls task)) run
  have done : Settled (some result) (callsOf task moment.history) := ends task _ settled
  obtain ⟨rows, listing, rest, own, checking⟩ := done result rfl
  obtain ⟨earlier, later, split, here, afterwards⟩ := split_of_callsOf own
  obtain ⟨lists, rfl⟩ := eq_of_lists (lawful.happens_of_mem (split ▸ List.mem_append_right _
    List.mem_cons_self)) checking.listed
  refine ⟨earlier, later, listing, split, here, lists, fun row member silent => ?_⟩
  by_cases registered : ∃ event ∈ later, Registers row.nodeId event
  · exact .inl registered
  · refine .inr ?_
    obtain ⟨reading, read, now, clock, fresh⟩ :=
      (checking.examined whole row member).resolve_left List.not_mem_nil
    have inHistory : ∀ event ∈ later, event ∈ moment.history := fun event member =>
      split ▸ List.mem_append_right _ (List.mem_cons_of_mem _ member)
    obtain ⟨_, rfl⟩ := eq_of_readsClock
      (lawful.happens_of_mem (inHistory reading (afterwards reading read).1)) clock
    have passed := now_le_of_mem lawful split (afterwards reading read).1
    have still := lt_of_lt_of_le silent (Int.sub_le_sub_right passed row.lastHeartbeat)
    obtain ⟨mark, marks, marked⟩ := fresh.resolve_left (not_le.mpr still)
    obtain ⟨between, others, cut⟩ := List.append_of_mem (afterwards mark marks).1
    have resplit : moment.history = (earlier ++ listing :: between) ++ mark :: others := by
      rw [split, cut, List.append_assoc, List.cons_append]
    obtain ⟨before, earlierRun, same, state, _, _⟩ := lawful.prior resplit
    have there := row_lasts (fun _ found => found.isSome = true) earlierRun (fun _ => id)
      (Option.isSome_map.trans ·) (Option.isSome_map.trans ·) same
      (Option.isSome_iff_exists.mpr ⟨row, (Database.mem_listStorageNodes.mp member).1⟩)
      fun event member registers =>
        registered ⟨event, cut ▸ List.mem_append_left _ member, registers⟩
    rw [state] at there
    refine offline_lasts lawful resplit marked there fun event member registers => registered ?_
    exact ⟨event, cut ▸ List.mem_append_right _ (List.mem_cons_of_mem _ member), registers⟩

/-! ## Nodes that go offline are silent -/

/-- A task has listed a node as active and then read the clock, more than a minute after the
heartbeat in the list, and after any heartbeat that the node has sent before. -/
inductive FoundSilent (nodeId : NodeId) (task : ι)
    (history : List (Event registry ι RegistryState)) : Prop where
  | intro (earlier later : List (Event registry ι RegistryState))
      (listing reading : Event registry ι RegistryState) (row : StorageNodeRecord)
      (split : history = earlier ++ listing :: later) (own : listing.task = task)
      (lists : listing.op = .listStorageNodes (some .active))
      (found : listing.after.store.getStorageNode nodeId = some row)
      (active : row.status = .active) (read : reading ∈ later) (reader : reading.task = task)
      (clock : reading.op = .clock) (silent : row.lastHeartbeat + 60000 < reading.after.now)
      (beats : ∀ beat ∈ earlier, beat.op = .updateNodeHeartbeat nodeId →
        Except.isOk beat.outcome = true → beat.after.now + 60000 < reading.after.now)

/-- A node is marked after it has been found silent. -/
theorem foundSilent {mark : Event registry ι RegistryState} (lawful : RegistryRun origin moment)
    (split : moment.history = earlier ++ mark :: later) (marks : MarksOffline nodeId mark)
    (unregistered : ∀ event ∈ moment.history, ¬ Registers nodeId event) :
    FoundSilent nodeId mark.task earlier := by
  obtain ⟨before, earlierRun, rfl, _, rule, _⟩ := lawful.prior split
  have unregistered : ∀ event ∈ before.history, ¬ Registers nodeId event := fun event member =>
    unregistered event (split ▸ List.mem_append_left _ member)
  rw [marks] at rule
  generalize made : NodeOp.updateStorageNode nodeId _ = op at rule
  cases rule with
  | other unchanged => exact absurd made.symm (unchanged _ _)
  | @mark listing reading rest rows row now began listed member read clock silent =>
      obtain ⟨rfl, _⟩ := NodeOp.updateStorageNode.inj made
      obtain ⟨past, since, cut, own, afterwards⟩ := split_of_callsOf began
      obtain ⟨listing', pastRun, same, state, _, happens⟩ := earlierRun.prior cut
      obtain ⟨lists, rfl⟩ := eq_of_lists happens listed
      obtain ⟨found, active⟩ := Database.mem_listStorageNodes.mp member
      have inHistory : reading ∈ before.history :=
        cut ▸ List.mem_append_right _ (List.mem_cons_of_mem _ (afterwards reading read).1)
      obtain ⟨reads, rfl⟩ := eq_of_readsClock (earlierRun.happens_of_mem inHistory) clock
      have late := Int.add_lt_of_lt_sub_left silent
      refine ⟨past, since, listing, reading, row, cut, own, lists, found, active,
        (afterwards reading read).1, (afterwards reading read).2, reads, late, ?_⟩
      intro beat sent beats resolved
      obtain ⟨_, between, pastCut⟩ := List.append_of_mem sent
      have other : ∀ node, listing.op = .registerStorageNode node → node.nodeId ≠ row.nodeId := by
        rw [lists]
        nofun
      have there : listing.before.store.getStorageNode row.nodeId = some row := by
        rcases row_step happens other with ⟨unseen, _⟩ | changed
        · exact unseen.symm.trans found
        · rw [lists] at changed
          exact (changed.trans (congrFun Option.map_id_fun _)).symm.trans found
      rw [← state] at there
      rw [← same] at pastCut
      have heard := heartbeat_lasts pastRun pastCut beats resolved (fun other member => ?_) there
      · exact lt_of_le_of_lt (Int.add_le_add_right heard 60000) late
      · refine unregistered other (cut ▸ List.mem_append_left _ (same ▸ pastCut ▸ ?_))
        exact List.mem_append_right _ (List.mem_cons_of_mem _ member)

def silentNode : StorageNodeRecord where
  nodeId := "node"
  ipAddress := "10.0.0.1"
  port := 9000
  availabilityZone := "a"
  region := "r"
  capacity := 100
  usedSpace := 0
  status := .active
  registeredAt := 0
  lastHeartbeat := 0

/-- A check next to a heartbeat. -/
def checkAndBeat : Fin 2 → NodeCall
  | 0 => .checkMetadataConsistency
  | 1 => .updateNodeHeartbeat "node"

def sweep (schedule : List (Fin 2)) :
    Pool registry (Fin 2) (Option Consistency) × Moment registry (Fin 2) RegistryState :=
  Pool.runSchedule registryExec schedule (fun task => (checkAndBeat task).program,
    .start ⟨Database.empty.registerStorageNode silentNode, 70000⟩)

theorem runs_sweep (schedule : List (Fin 2)) :
    PoolRuns unreliable (fun task => (checkAndBeat task).program,
      .start ⟨Database.empty.registerStorageNode silentNode, 70000⟩)
      ((sweep schedule).1, (sweep schedule).2) := by
  refine Pool.runs_runSchedule (fun op state => ⟨0, .inl ?_⟩) schedule _
  have unchanged : state.elapse 0 = state := congrArg (RegistryState.mk _) (Int.add_zero _)
  rw [unchanged]

/-- The heartbeat comes after the list, and the node goes offline all the same. -/
theorem silentNodes_offline_late : SilentOffline 0 (sweep [0, 1, 0, 0]).2 :=
  silentNodes_offline (runs_sweep [0, 1, 0, 0]) rfl rfl

end DistributedFileStorage.Background
