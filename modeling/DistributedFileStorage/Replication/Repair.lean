import DistributedFileStorage.Async.Histories
import DistributedFileStorage.Replication.Selection
import DistributedFileStorage.Replication.VerifiedWrites

/-!
# A repair without a fault

`reReplicate` keeps the replicas that are sound: there is a handle on their node, and the bytes
there are intact. It removes the others, and when fewer than three are left it copies the chunk to
the first nodes of the ring, from its hash on, that have no sound replica (`repairTargets`). What has
become of the chunk then is `Repaired`, and what the calls have created are the rows of those
targets that receive one.
-/

set_option autoImplicit false

namespace DistributedFileStorage.Replication.ReplicationServiceImpl

open Async Store Services Nodes Placement Relational Program

/-! ## The rows that calls create -/

/-- The row that a call has inserted into `chunk_replicas`. -/
def createdRow (op : Call) (fails : Bool) (before : World) : Option ChunkReplicaRecord :=
  match op with
  | .store (.createChunkReplica replica) =>
      if fails = false ∧ replica.primaryKey ∉ before.store.chunkReplicas.keys then some replica
      else none
  | _ => none

/-- The rows that the calls of a history have inserted into `chunk_replicas`. -/
def createdRows {ι : Type} (history : List (Event system ι World)) : List ChunkReplicaRecord :=
  history.filterMap fun event => createdRow event.op event.fails event.before

theorem createdRows_next {ι : Type} (moment : Moment system ι World) (task : ι) (op : Call)
    (outcome : Except Failure op.Result) (after : World) :
    createdRows (moment.next task op outcome after).history = createdRows moment.history ++
      (createdRow op (⟨task, op, outcome, moment.state, after⟩ : Event system ι World).fails
        moment.state).toList := by
  rw [Moment.history_next, createdRows, List.filterMap_append]
  cases created : createdRow op (⟨task, op, outcome, moment.state, after⟩ :
    Event system ι World).fails moment.state <;> simp [createdRows, created]

/-! ## The calls of a repair -/

/-- The calls that verify and repair a chunk, other than the insertion of replica rows. -/
inductive PlainCall (chunkHash : ChunkHash) : Call → Prop where
  | mkdir (nodeId : NodeId) (directory : String) :
      PlainCall chunkHash (.disk nodeId (.mkdir directory))
  | writeFile (nodeId : NodeId) (data : Buffer) :
      PlainCall chunkHash (.disk nodeId (.writeFile (getChunkPath chunkHash) data))
  | readFile (nodeId : NodeId) :
      PlainCall chunkHash (.disk nodeId (.readFile (getChunkPath chunkHash)))
  | unlink (nodeId : NodeId) : PlainCall chunkHash (.disk nodeId (.unlink (getChunkPath chunkHash)))
  | countChunk (nodeId : NodeId) : PlainCall chunkHash (.disk nodeId .countChunk)
  | uncountChunk (nodeId : NodeId) : PlainCall chunkHash (.disk nodeId .uncountChunk)
  | getChunkReplicas : PlainCall chunkHash (.store (.getChunkReplicas chunkHash))
  | deleteChunkReplica (nodeId : NodeId) :
      PlainCall chunkHash (.store (.deleteChunkReplica chunkHash nodeId))
  | getStorageNode (nodeId : NodeId) : PlainCall chunkHash (.store (.getStorageNode nodeId))

theorem PlainCall.createdRow {chunkHash : ChunkHash} {op : Call} (plain : PlainCall chunkHash op)
    (fails : Bool) (before : World) : createdRow op fails before = none := by
  cases plain <;> rfl

variable {sem : Semantics system World} {α : Type} {chunkHash : ChunkHash}

/-- A program of plain calls creates no row. -/
theorem keeps_createdRows {program : Async α} (calls : program.AllCalls (PlainCall chunkHash))
    (rows : List ChunkReplicaRecord) :
    Keeps sem.recorded (fun moment => createdRows moment.history = rows) program := by
  refine .of_allCalls (fun op plain => ?_) calls
  refine Triple.perform_recorded fun before outcome state holds _ => ?_
  have kept : createdRows (before.next () op outcome state).history = rows := by
    rw [createdRows_next, plain.createdRow, Option.toList_none, List.append_nil]
    exact holds
  cases outcome with
  | ok value => exact kept
  | error failure => exact kept

section Calls

variable {sha256 : Sha256} {storageNodes : List NodeId} {nodeId : NodeId}

theorem allCalls_deleteChunk :
    (StorageNodeImpl.deleteChunk nodeId chunkHash).AllCalls (PlainCall chunkHash) :=
  StorageNodeImpl.allCalls_deleteChunk (.unlink nodeId) (.uncountChunk nodeId)

theorem allCalls_writeChunk (data : Buffer) :
    (StorageNodeImpl.writeChunk nodeId chunkHash data).AllCalls (PlainCall chunkHash) :=
  .bind StorageNodeImpl.allCalls_validateChunkHash fun _ => .tryCatch
    (.bind (.perform (.mkdir nodeId _)) fun _ =>
      .bind (.perform (.writeFile nodeId data)) fun _ => .perform (.countChunk nodeId))
    fun _ => trivial

theorem allCalls_readChunk :
    (StorageNodeImpl.readChunk nodeId chunkHash).AllCalls (PlainCall chunkHash) := by
  refine .bind StorageNodeImpl.allCalls_validateChunkHash fun _ =>
    .tryCatch (.perform (.readFile nodeId)) fun failure => ?_
  dsimp only
  split <;> trivial

theorem allCalls_verifyReplicas :
    (verifyReplicas sha256 storageNodes chunkHash).AllCalls (PlainCall chunkHash) := by
  refine .bind (.perform .getChunkReplicas) fun replicas => .bind ?_ fun _ => trivial
  refine Program.AllCalls.foldEach (fun verified replica _ => ?_) ({} : Verified)
  unfold verifyReplica
  split
  · refine .tryCatch (.bind ?_ fun valid => ?_) fun _ => trivial
    · exact .bind StorageNodeImpl.allCalls_validateChunkHash fun _ =>
        .tryCatch (.bind allCalls_readChunk fun _ => trivial) fun _ => trivial
    · split <;> trivial
  · trivial

theorem allCalls_readHealthy (corruptedReplicas : List NodeId)
    (replicas : List ChunkReplicaRecord) :
    (readHealthy storageNodes chunkHash corruptedReplicas replicas).AllCalls
      (PlainCall chunkHash) := by
  induction replicas with
  | nil => trivial
  | cons replica rest ih =>
      unfold readHealthy
      split
      · exact ih
      · split
        · exact ih
        · exact .tryCatch (.bind allCalls_readChunk fun _ => trivial) fun _ => ih

theorem allCalls_removeCorrupted :
    (removeCorrupted storageNodes chunkHash nodeId).AllCalls (PlainCall chunkHash) := by
  unfold removeCorrupted
  by_cases handled : nodeId ∈ storageNodes
  · simp only [if_pos handled]
    exact .attempt (.bind allCalls_deleteChunk fun _ => .perform (.deleteChunkReplica nodeId))
  · simp only [if_neg handled]
    exact .attempt (.perform (.deleteChunkReplica nodeId))

end Calls

/-! ## What a repair leaves as it is -/

/-- The chunks and storage nodes, and the replicas and bytes of all other chunks, are as before. -/
structure SameElsewhere (chunkHash : ChunkHash) (before after : World) : Prop where
  chunks : after.store.chunks = before.store.chunks
  storageNodes : after.store.storageNodes = before.store.storageNodes
  replicas : ∀ other, other ≠ chunkHash →
    after.store.getChunkReplicas other = before.store.getChunkReplicas other
  bytes : ∀ nodeId other, other ≠ chunkHash → after.bytes nodeId other = before.bytes nodeId other

namespace SameElsewhere

variable {first second third : World} {nodeId : NodeId}

theorem refl (world : World) : SameElsewhere chunkHash world world :=
  ⟨rfl, rfl, fun _ _ => rfl, fun _ _ _ => rfl⟩

theorem trans (earlier : SameElsewhere chunkHash first second)
    (later : SameElsewhere chunkHash second third) : SameElsewhere chunkHash first third where
  chunks := later.chunks.trans earlier.chunks
  storageNodes := later.storageNodes.trans earlier.storageNodes
  replicas other different :=
    (later.replicas other different).trans (earlier.replicas other different)
  bytes nodeId other different :=
    (later.bytes nodeId other different).trans (earlier.bytes nodeId other different)

theorem of_same (same : SameChunks first second) : SameElsewhere chunkHash first second :=
  ⟨by rw [same.store], by rw [same.store], fun _ _ => by rw [same.store],
    fun nodeId other _ => same.bytes nodeId other⟩

theorem of_puts {contents : Option Buffer → Prop}
    (puts : PutsChunk nodeId chunkHash contents first second) :
    SameElsewhere chunkHash first second :=
  ⟨by rw [puts.store], by rw [puts.store], fun _ _ => by rw [puts.store],
    fun _ _ different => puts.elsewhere fun both => different both.2⟩

end SameElsewhere

/-- **A call that verifies or repairs a chunk concerns this chunk only.** -/
theorem PlainCall.sameElsewhere {op : Call} (plain : PlainCall chunkHash op) (world : World) :
    SameElsewhere chunkHash world (exec op world).2 := by
  cases plain with
  | mkdir nodeId directory => exact .of_same (sameChunks_setNode fun path => rfl)
  | writeFile nodeId data => exact .of_puts (PutsChunk.of_writeFile world)
  | readFile nodeId => exact .refl _
  | unlink nodeId => exact .of_puts (PutsChunk.of_unlink world)
  | countChunk nodeId => exact .of_same (sameChunks_setNode fun path => rfl)
  | uncountChunk nodeId => exact .of_same (sameChunks_setNode fun path => rfl)
  | getChunkReplicas => exact .refl _
  | getStorageNode nodeId => exact .refl _
  | deleteChunkReplica nodeId =>
      refine ⟨rfl, rfl, fun other different => ?_, fun _ _ _ => rfl⟩
      refine (Database.getChunkReplicas_deleteChunkReplica chunkHash other nodeId).trans ?_
      exact List.filter_eq_self.mpr fun replica _ => by simp [different]

/-- Also when it fails. -/
theorem PlainCall.sameElsewhere_leaves {op : Call} (plain : PlainCall chunkHash op)
    (damage : Option Buffer) (world : World) :
    SameElsewhere chunkHash world (op.leaves damage world) := by
  cases plain with
  | writeFile nodeId data => exact .of_puts (PutsChunk.of_failedWrite damage world)
  | _ => exact .refl _

/-- The insertion of a replica row concerns the chunk of the row only. -/
theorem sameElsewhere_createChunkReplica {replica : ChunkReplicaRecord} (world : World) :
    SameElsewhere replica.chunkHash world
      (exec (.store (.createChunkReplica replica)) world).2 := by
  show SameElsewhere _ world (world.commit (world.store.createChunkReplica replica)).2
  cases created : world.store.createChunkReplica replica with
  | error failure => exact .refl _
  | ok db =>
      have tables := Database.tables_createChunkReplica created
      refine ⟨tables.1, tables.2, fun other different => ?_, fun _ _ _ => rfl⟩
      by_cases taken : replica.primaryKey ∈ world.store.chunkReplicas.keys
      · have same : db.chunkReplicas = world.store.chunkReplicas :=
          (Database.chunkReplicas_createChunkReplica created).trans
            (Table.insertIfAbsent_of_taken taken)
        exact congrArg (fun table : Table ChunkReplicaRecord.primaryKey =>
          table.rows.filter fun row => row.chunkHash = other) same
      · refine (Database.getChunkReplicas_createChunkReplica created taken other).trans ?_
        rw [if_neg different, List.append_nil]

/-- The calls of a repair: plain ones, and insertions of rows for its chunk. -/
def RepairCall (chunkHash : ChunkHash) (op : Call) : Prop :=
  PlainCall chunkHash op ∨
    ∃ replica, replica.chunkHash = chunkHash ∧ op = .store (.createChunkReplica replica)

section RepairCalls

variable {sha256 : Sha256} {hashRing : ConsistentHashRing ChunkHash} {storageNodes : List NodeId}
  {now : NodeId → Time}

theorem allCalls_writeReplica (chunkData : Buffer) (nodeId : NodeId) :
    (writeReplica storageNodes chunkHash chunkData now nodeId).AllCalls (RepairCall chunkHash) := by
  unfold writeReplica
  split
  · exact .attempt (.bind ((allCalls_writeChunk chunkData).mono fun _ => .inl) fun _ =>
      .bind (.perform (.inl (.getStorageNode nodeId))) fun _ => .perform (.inr ⟨_, rfl, rfl⟩))
  · trivial

theorem allCalls_reReplicate : (reReplicate sha256 hashRing storageNodes chunkHash now).AllCalls
    (RepairCall chunkHash) := by
  refine .bind (allCalls_verifyReplicas.mono fun _ => .inl) fun health => .bind (.forEach
    fun nodeId _ => allCalls_removeCorrupted.mono fun _ => .inl) fun _ => ?_
  unfold restoreReplicas
  dsimp only
  split
  · trivial
  · refine .bind (.perform (.inl .getChunkReplicas)) fun replicas => .bind
      ((allCalls_readHealthy _ replicas).mono fun _ => .inl) fun chunkData => ?_
    cases chunkData with
    | none => trivial
    | some data => exact .forEach fun nodeId _ => allCalls_writeReplica data nodeId

/-- **A repair concerns its chunk only**, whatever fails in it. -/
theorem keeps_sameElsewhere (origin : World) : Keeps faulty (SameElsewhere chunkHash origin)
    (reReplicate sha256 hashRing storageNodes chunkHash now) := by
  refine .of_allCalls (fun op call => ?_) allCalls_reReplicate
  rcases call with plain | ⟨replica, rfl, rfl⟩
  · exact keeps_call (fun world same => same.trans (plain.sameElsewhere world))
      fun _ damage world same => same.trans (plain.sameElsewhere_leaves damage world)
  · exact keeps_store fun world same => same.trans (sameElsewhere_createChunkReplica world)

end RepairCalls

/-! ## Calls without a fault -/

section Steps

variable {sha256 : Sha256} {storageNodes : List NodeId} {nodeId : NodeId}
  {origin : World} {kept : List NodeId} {rows created : List ChunkReplicaRecord}

/-- What a program does without a fault, with its calls recorded. It resolves. -/
abbrev Does (pre : Moment system Unit World → Prop) (program : Async α)
    (resolved : α → Moment system Unit World → Prop) : Prop :=
  Triple exec.semantics.recorded pre program resolved fun _ => False

/-- What some calls on a chunk have left so far: its rows, the bytes of some of its nodes as they
were at the start, and the rows that the calls have created. -/
structure Leaves (origin : World) (chunkHash : ChunkHash) (kept : List NodeId)
    (rows created : List ChunkReplicaRecord) (moment : Moment system Unit World) : Prop where
  rows : moment.state.store.getChunkReplicas chunkHash = rows
  bytes : ∀ nodeId ∈ kept, moment.state.bytes nodeId chunkHash = origin.bytes nodeId chunkHash
  chunks : moment.state.store.chunks = origin.store.chunks
  storageNodes : moment.state.store.storageNodes = origin.store.storageNodes
  created : createdRows moment.history = created

/-- Calls that set the bytes of one node and create no row. -/
theorem Leaves.of_sets {before after : Moment system Unit World} {data : Option Buffer}
    (leaves : Leaves origin chunkHash kept rows created before) (other : nodeId ∉ kept)
    (sets : SetsChunk nodeId chunkHash data before.state after.state)
    (same : createdRows after.history = createdRows before.history) :
    Leaves origin chunkHash kept rows created after where
  rows := by rw [sets.store, leaves.rows]
  bytes node member := by
    have different : ¬ (node = nodeId ∧ chunkHash = chunkHash) := fun here =>
      other (here.1 ▸ member)
    rw [sets.bytes, if_neg different, leaves.bytes node member]
  chunks := by rw [sets.store, leaves.chunks]
  storageNodes := by rw [sets.store, leaves.storageNodes]
  created := same.trans leaves.created

/-- Plain calls that set the bytes of one node. They create no row. -/
theorem does_sets {program : Async α} {data : Option Buffer} {start : Moment system Unit World}
    (sets : Triple exec.semantics (· = start.state) program
      (fun _ => SetsChunk nodeId chunkHash data start.state) fun _ => False)
    (plain : program.AllCalls (PlainCall chunkHash)) :
    Does (· = start) program (fun _ moment =>
      SetsChunk nodeId chunkHash data start.state moment.state ∧
        createdRows moment.history = createdRows start.history) := by
  refine (sets.recorded.and (keeps_createdRows plain (createdRows start.history))).consequence
    ?_ (fun _ _ => id) fun _ => And.left
  rintro _ rfl
  exact ⟨rfl, rfl⟩

theorem does_deleteChunk (valid : validChunkHash chunkHash = true) (other : nodeId ∉ kept) :
    Does (Leaves origin chunkHash kept rows created) (StorageNodeImpl.deleteChunk nodeId chunkHash)
      (fun _ => Leaves origin chunkHash kept rows created) :=
  .of_start fun _ leaves =>
    (does_sets (StorageNodeImpl.triple_deleteChunk valid) allCalls_deleteChunk).consequence
      (fun _ => id) (fun _ _ ends => leaves.of_sets other ends.1 ends.2) fun _ => id

theorem does_writeChunk_leaves {data : Buffer} (valid : validChunkHash chunkHash = true)
    (other : nodeId ∉ kept) :
    Does (Leaves origin chunkHash kept rows created)
      (StorageNodeImpl.writeChunk nodeId chunkHash data)
      (fun _ => Leaves origin chunkHash kept rows created) :=
  .of_start fun _ leaves =>
    (does_sets (StorageNodeImpl.triple_writeChunk valid data)
      (allCalls_writeChunk data)).consequence (fun _ => id)
      (fun _ _ ends => leaves.of_sets other ends.1 ends.2) fun _ => id

theorem does_deleteChunkReplica :
    Does (Leaves origin chunkHash kept rows created) (store (.deleteChunkReplica chunkHash nodeId))
      (fun _ => Leaves origin chunkHash kept (rows.filter fun replica => replica.nodeId ≠ nodeId)
        created) := by
  refine Triple.perform_recorded fun before outcome after leaves happens => ?_
  obtain ⟨rfl, rfl⟩ := Prod.mk.inj happens
  refine ⟨?_, leaves.bytes, leaves.chunks, leaves.storageNodes, ?_⟩
  · rw [← leaves.rows, Moment.state_next, World.store_setStore,
      Database.getChunkReplicas_deleteChunkReplica]
    exact List.filter_congr fun replica _ => by simp
  · rw [createdRows_next, (PlainCall.deleteChunkReplica nodeId).createdRow, Option.toList_none,
      List.append_nil]
    exact leaves.created

/-- **A corrupted replica is removed.** -/
theorem does_removeCorrupted (valid : validChunkHash chunkHash = true) (other : nodeId ∉ kept) :
    Does (Leaves origin chunkHash kept rows created) (removeCorrupted storageNodes chunkHash nodeId)
      (fun _ => Leaves origin chunkHash kept (rows.filter fun replica => replica.nodeId ≠ nodeId)
        created) := by
  unfold removeCorrupted
  by_cases handled : nodeId ∈ storageNodes
  · simp only [if_pos handled]
    refine .attempt (Triple.consequence (.bind (does_deleteChunk valid other) fun _ =>
      does_deleteChunkReplica) (fun _ => id) (fun _ _ => id) fun _ => False.elim)
  · simp only [if_neg handled]
    exact .attempt (does_deleteChunkReplica.consequence (fun _ => id) (fun _ _ => id)
      fun _ => False.elim)

/-! ## Sound and broken replicas -/

/-- The replica rows whose replica is sound. -/
def soundReplicas (sha256 : Sha256) (storageNodes : List NodeId) (chunkHash : ChunkHash)
    (world : World) : List ChunkReplicaRecord :=
  (world.store.getChunkReplicas chunkHash).filter fun replica =>
    Healthy sha256 storageNodes chunkHash world replica

/-- The nodes whose replica is not. -/
def brokenNodes (sha256 : Sha256) (storageNodes : List NodeId) (chunkHash : ChunkHash)
    (world : World) : List NodeId :=
  ((world.store.getChunkReplicas chunkHash).filter fun replica =>
    ¬ Healthy sha256 storageNodes chunkHash world replica).map ChunkReplicaRecord.nodeId

/-- The nodes whose replica is sound. -/
def soundNodes (sha256 : Sha256) (storageNodes : List NodeId) (chunkHash : ChunkHash)
    (world : World) : List NodeId :=
  (soundReplicas sha256 storageNodes chunkHash world).map ChunkReplicaRecord.nodeId

theorem mem_soundNodes : nodeId ∈ soundNodes sha256 storageNodes chunkHash origin ↔
    ∃ replica ∈ origin.store.getChunkReplicas chunkHash, replica.nodeId = nodeId ∧
      nodeId ∈ storageNodes ∧ Intact sha256 chunkHash origin nodeId := by
  simp only [soundNodes, soundReplicas, List.mem_map, List.mem_filter, decide_eq_true_eq]
  constructor
  · rintro ⟨replica, ⟨member, healthy⟩, rfl⟩
    exact ⟨replica, member, rfl, healthy⟩
  · rintro ⟨replica, member, rfl, healthy⟩
    exact ⟨replica, ⟨member, healthy⟩, rfl⟩

theorem mem_brokenNodes : nodeId ∈ brokenNodes sha256 storageNodes chunkHash origin ↔
    ∃ replica ∈ origin.store.getChunkReplicas chunkHash, replica.nodeId = nodeId ∧
      ¬ (nodeId ∈ storageNodes ∧ Intact sha256 chunkHash origin nodeId) := by
  simp only [brokenNodes, List.mem_map, List.mem_filter, decide_eq_true_eq]
  constructor
  · rintro ⟨replica, ⟨member, broken⟩, rfl⟩
    exact ⟨replica, member, rfl, broken⟩
  · rintro ⟨replica, member, rfl, broken⟩
    exact ⟨replica, ⟨member, broken⟩, rfl⟩

theorem not_mem_soundNodes_of_broken
    (broken : nodeId ∈ brokenNodes sha256 storageNodes chunkHash origin) :
    nodeId ∉ soundNodes sha256 storageNodes chunkHash origin := by
  obtain ⟨_, _, _, unsound⟩ := mem_brokenNodes.mp broken
  intro sound
  obtain ⟨_, _, _, isSound⟩ := mem_soundNodes.mp sound
  exact unsound isSound

theorem length_sound_add_broken :
    (soundNodes sha256 storageNodes chunkHash origin).length +
        (brokenNodes sha256 storageNodes chunkHash origin).length =
      (origin.store.getChunkReplicas chunkHash).length := by
  rw [soundNodes, brokenNodes, soundReplicas, List.length_map, List.length_map]
  simp only [decide_not]
  exact (List.length_eq_length_filter_add _).symm

/-- The rows that are left when some of the broken replicas have been removed. -/
def remaining (sha256 : Sha256) (storageNodes : List NodeId) (chunkHash : ChunkHash)
    (world : World) (rest : List NodeId) : List ChunkReplicaRecord :=
  (world.store.getChunkReplicas chunkHash).filter fun replica =>
    Healthy sha256 storageNodes chunkHash world replica ∨ replica.nodeId ∈ rest

theorem remaining_brokenNodes : remaining sha256 storageNodes chunkHash origin
    (brokenNodes sha256 storageNodes chunkHash origin) =
      origin.store.getChunkReplicas chunkHash := by
  refine List.filter_eq_self.mpr fun replica member => decide_eq_true ?_
  by_cases healthy : Healthy sha256 storageNodes chunkHash origin replica
  · exact .inl healthy
  · exact .inr (mem_brokenNodes.mpr ⟨replica, member, rfl, healthy⟩)

theorem remaining_nil : remaining sha256 storageNodes chunkHash origin [] =
    soundReplicas sha256 storageNodes chunkHash origin :=
  List.filter_congr fun replica _ => by simp

theorem filter_remaining {rest : List NodeId}
    (broken : nodeId ∈ brokenNodes sha256 storageNodes chunkHash origin) (fresh : nodeId ∉ rest) :
    (remaining sha256 storageNodes chunkHash origin (nodeId :: rest)).filter
        (fun replica => replica.nodeId ≠ nodeId) =
      remaining sha256 storageNodes chunkHash origin rest := by
  rw [remaining, List.filter_filter]
  refine List.filter_congr fun replica _ => ?_
  obtain ⟨_, _, _, unsound⟩ := mem_brokenNodes.mp broken
  by_cases here : replica.nodeId = nodeId
  · have unhealthy : ¬ Healthy sha256 storageNodes chunkHash origin replica := by
      rw [Healthy, here]
      exact unsound
    simp [here, unhealthy, fresh]
  · simp [here]

/-- **The first loop removes the broken replicas.** -/
theorem does_removeBroken (valid : validChunkHash chunkHash = true) :
    Does (Leaves origin chunkHash (soundNodes sha256 storageNodes chunkHash origin)
        (origin.store.getChunkReplicas chunkHash) created)
      (Program.forEach (removeCorrupted storageNodes chunkHash)
        (brokenNodes sha256 storageNodes chunkHash origin))
      (fun _ => Leaves origin chunkHash (soundNodes sha256 storageNodes chunkHash origin)
        (soundReplicas sha256 storageNodes chunkHash origin) created) := by
  have distinct : (brokenNodes sha256 storageNodes chunkHash origin).Nodup :=
    (Database.nodup_getChunkReplicas chunkHash).sublist (List.filter_sublist.map _)
  rw [← remaining_brokenNodes, ← remaining_nil]
  generalize isBroken : brokenNodes sha256 storageNodes chunkHash origin = nodes
  have all : ∀ nodeId ∈ nodes, nodeId ∈ brokenNodes sha256 storageNodes chunkHash origin :=
    fun _ => isBroken ▸ id
  rw [isBroken] at distinct
  clear isBroken
  induction nodes with
  | nil => exact .pure fun _ => id
  | cons nodeId rest ih =>
      obtain ⟨fresh, distinct⟩ := List.nodup_cons.mp distinct
      have broken := all nodeId List.mem_cons_self
      have removed : Does (Leaves origin chunkHash (soundNodes sha256 storageNodes chunkHash origin)
          (remaining sha256 storageNodes chunkHash origin (nodeId :: rest)) created)
          (removeCorrupted storageNodes chunkHash nodeId) _ :=
        does_removeCorrupted valid (not_mem_soundNodes_of_broken broken)
      rw [filter_remaining broken fresh] at removed
      exact removed.bind fun _ => ih distinct fun other member => all other
        (List.mem_cons_of_mem _ member)

/-! ## Copying the chunk -/

/-- A read without a fault of a chunk that is there. -/
theorem run_readChunk_found (valid : validChunkHash chunkHash = true) {world : World}
    {data : Buffer} (found : world.bytes nodeId chunkHash = some data) :
    (StorageNodeImpl.readChunk nodeId chunkHash).run exec world = (.ok data, world) := by
  have reads : (disk nodeId (.readFile (getChunkPath chunkHash))).run exec world =
      ((world.nodes nodeId).disk.readFile (getChunkPath chunkHash), world) := rfl
  have contents : (world.nodes nodeId).disk.contents (getChunkPath chunkHash) = some data := found
  rw [StorageNodeImpl.readChunk, run_bind_ok exec (StorageNodeImpl.run_validateChunkHash exec world
    valid), run_tryCatch, reads, Disk.readFile_eq, contents]

/-- A program that leaves the state as it is, and creates no row. -/
theorem does_run {program : Async α} {value : α} {start : Moment system Unit World}
    (calls : program.AllCalls (PlainCall chunkHash))
    (runs : program.run exec start.state = (.ok value, start.state)) :
    Does (· = start) program (fun result moment => result = value ∧ moment.state = start.state ∧
      createdRows moment.history = createdRows start.history) := by
  have made : Triple exec.semantics (· = start.state) program
      (fun result after => result = value ∧ after = start.state) fun _ => False := by
    rintro before outcome after rfl run
    obtain ⟨rfl, rfl⟩ := Prod.mk.inj (runs.symm.trans (runs_semantics_iff.mp run))
    exact ⟨rfl, rfl⟩
  refine (made.recorded.and (keeps_createdRows calls (createdRows start.history))).consequence ?_ ?_
    fun _ => And.left
  · rintro _ rfl
    exact ⟨rfl, rfl⟩
  · rintro result moment ⟨⟨same, state⟩, history⟩
    exact ⟨same, state, history⟩

theorem does_read {program : Async α} {value : α} (calls : program.AllCalls (PlainCall chunkHash))
    (reads : ∀ start, Leaves origin chunkHash kept rows created start →
      program.run exec start.state = (.ok value, start.state)) :
    Does (Leaves origin chunkHash kept rows created) program
      (fun result moment => result = value ∧ Leaves origin chunkHash kept rows created moment) := by
  refine .of_start fun start leaves => ?_
  refine (does_run calls (reads start leaves)).consequence (fun _ => id) ?_ fun _ => id
  rintro result moment ⟨rfl, same, history⟩
  refine ⟨rfl, ?_, ?_, ?_, ?_, history.trans leaves.created⟩
  · rw [same, leaves.rows]
  · exact fun node member => by rw [same, leaves.bytes node member]
  · rw [same, leaves.chunks]
  · rw [same, leaves.storageNodes]

theorem does_getChunkReplicas :
    Does (Leaves origin chunkHash kept rows created) (store (.getChunkReplicas chunkHash))
      (fun replicas moment =>
        replicas = rows ∧ Leaves origin chunkHash kept rows created moment) := by
  refine does_read (.perform .getChunkReplicas) fun start leaves => ?_
  have found : (store (.getChunkReplicas chunkHash)).run exec start.state =
    (.ok (start.state.store.getChunkReplicas chunkHash), start.state) := rfl
  rw [found, leaves.rows]

/-- **The copy is read from the first sound replica**, and is intact. -/
theorem does_readHealthy {corruptedReplicas : List NodeId} {replica : ChunkReplicaRecord}
    {rest : List ChunkReplicaRecord} (valid : validChunkHash chunkHash = true)
    (sound : replica.nodeId ∈ soundNodes sha256 storageNodes chunkHash origin)
    (spared : replica.nodeId ∉ corruptedReplicas) :
    ∃ data, sha256.digest data = chunkHash ∧
      Does (Leaves origin chunkHash (soundNodes sha256 storageNodes chunkHash origin) rows created)
        (readHealthy storageNodes chunkHash corruptedReplicas (replica :: rest))
        (fun read moment => read = some data ∧ Leaves origin chunkHash
          (soundNodes sha256 storageNodes chunkHash origin) rows created moment) := by
  obtain ⟨_, _, _, handled, data, held, digest⟩ := mem_soundNodes.mp sound
  refine ⟨data, digest, does_read (allCalls_readHealthy _ _) fun start leaves => ?_⟩
  have found : start.state.bytes replica.nodeId chunkHash = some data :=
    (leaves.bytes _ sound).trans held
  rw [readHealthy, if_neg spared, if_neg (not_not.mpr handled), run_tryCatch,
    run_bind_ok exec (run_readChunk_found valid found)]
  rfl

/-! ## Writing the copies -/

/-- A node on which a replica can be recorded. -/
def Receives (storageNodes : List NodeId) (db : Database) (nodeId : NodeId) : Prop :=
  nodeId ∈ storageNodes ∧ nodeId ∈ db.storageNodes.keys

instance (storageNodes : List NodeId) (db : Database) :
    DecidablePred (Receives storageNodes db) :=
  fun _ => inferInstanceAs (Decidable (_ ∧ _))

/-- The row for a copy on a node. -/
def copyRow (chunkHash : ChunkHash) (now : NodeId → Time) (db : Database) (nodeId : NodeId) :
    ChunkReplicaRecord where
  chunkHash := chunkHash
  nodeId := nodeId
  availabilityZone := zoneOrUnknown (db.getStorageNode nodeId)
  createdAt := now nodeId

/-- The rows for the copies on some nodes. -/
def copyRows (storageNodes : List NodeId) (chunkHash : ChunkHash) (now : NodeId → Time)
    (db : Database) (nodeIds : List NodeId) : List ChunkReplicaRecord :=
  (nodeIds.filter (Receives storageNodes db)).map (copyRow chunkHash now db)

/-- What the writes of the copies have left when some of the targets are done. -/
structure Copies (sha256 : Sha256) (storageNodes : List NodeId) (chunkHash : ChunkHash)
    (now : NodeId → Time) (origin : World) (done : List NodeId)
    (moment : Moment system Unit World) : Prop where
  leaves : Leaves origin chunkHash (soundNodes sha256 storageNodes chunkHash origin)
    (soundReplicas sha256 storageNodes chunkHash origin ++
      copyRows storageNodes chunkHash now origin.store done)
    (copyRows storageNodes chunkHash now origin.store done) moment
  intact : ∀ nodeId ∈ done, nodeId ∈ storageNodes → Intact sha256 chunkHash moment.state nodeId

variable {now : NodeId → Time} {done : List NodeId} {data : Buffer}

theorem copyRows_append (nodeId : NodeId) :
    copyRows storageNodes chunkHash now origin.store (done ++ [nodeId]) =
      copyRows storageNodes chunkHash now origin.store done ++
        if Receives storageNodes origin.store nodeId then
          [copyRow chunkHash now origin.store nodeId]
        else [] := by
  rw [copyRows, List.filter_append, List.map_append]
  congr 1
  by_cases receives : Receives storageNodes origin.store nodeId <;> simp [receives]

/-- Writing the bytes of a copy. -/
theorem does_writeChunk (valid : validChunkHash chunkHash = true)
    (digest : sha256.digest data = chunkHash)
    (unsound : nodeId ∉ soundNodes sha256 storageNodes chunkHash origin) :
    Does (Copies sha256 storageNodes chunkHash now origin done)
      (StorageNodeImpl.writeChunk nodeId chunkHash data)
      (fun _ moment => Copies sha256 storageNodes chunkHash now origin done moment ∧
        Intact sha256 chunkHash moment.state nodeId) := by
  refine .of_start fun start copies => (does_sets (StorageNodeImpl.triple_writeChunk valid data)
    (allCalls_writeChunk data)).consequence (fun _ => id) ?_ fun _ => id
  rintro _ moment ⟨sets, history⟩
  have here : Intact sha256 chunkHash moment.state nodeId := by
    refine ⟨data, ?_, digest⟩
    rw [sets.bytes, if_pos ⟨rfl, rfl⟩]
    rfl
  refine ⟨⟨copies.leaves.of_sets unsound sets history, fun node member handled => ?_⟩, here⟩
  by_cases same : node = nodeId
  · exact same ▸ here
  · obtain ⟨bytes, held, intact⟩ := copies.intact node member handled
    have different : ¬ (node = nodeId ∧ chunkHash = chunkHash) := fun both => same both.1
    refine ⟨bytes, ?_, intact⟩
    rw [sets.bytes, if_neg different]
    exact held

/-- The row of a copy is not there before. -/
theorem absent_copyRow {moment : Moment system Unit World}
    (copies : Copies sha256 storageNodes chunkHash now origin done moment)
    (unsound : nodeId ∉ soundNodes sha256 storageNodes chunkHash origin) (fresh : nodeId ∉ done) :
    (chunkHash, nodeId) ∉ moment.state.store.chunkReplicas.keys := by
  rw [Database.mem_keys_chunkReplicas, copies.leaves.rows]
  rintro ⟨replica, member, same⟩
  rcases List.mem_append.mp member with old | new
  · exact unsound (same ▸ List.mem_map_of_mem old)
  · obtain ⟨other, inside, rfl⟩ := List.mem_map.mp new
    have here : other = nodeId := same
    exact fresh (here ▸ List.mem_of_mem_filter inside)

/-- **Recording a copy**, which the database rejects when the node is not registered. -/
theorem records_copy (recorded : chunkHash ∈ origin.store.chunks.keys)
    (unsound : nodeId ∉ soundNodes sha256 storageNodes chunkHash origin) (fresh : nodeId ∉ done)
    (handled : nodeId ∈ storageNodes) :
    Triple exec.semantics.recorded
      (fun moment => Copies sha256 storageNodes chunkHash now origin done moment ∧
        Intact sha256 chunkHash moment.state nodeId)
      (store (.createChunkReplica (copyRow chunkHash now origin.store nodeId)))
      (fun _ => Copies sha256 storageNodes chunkHash now origin (done ++ [nodeId]))
      (Copies sha256 storageNodes chunkHash now origin (done ++ [nodeId])) := by
  refine Triple.perform_recorded ?_
  rintro before outcome after ⟨copies, here⟩ happens
  have leaves := copies.leaves
  have absent := absent_copyRow copies unsound fresh
  have intact : ∀ (state : World), (∀ node hash, state.bytes node hash =
      before.state.bytes node hash) → ∀ node ∈ done ++ [nodeId], node ∈ storageNodes →
        Intact sha256 chunkHash state node := by
    intro state same node member inside
    have held : Intact sha256 chunkHash before.state node := by
      rcases List.mem_append.mp member with old | new
      · exact copies.intact node old inside
      · exact List.mem_singleton.mp new ▸ here
    obtain ⟨bytes, found, digest⟩ := held
    exact ⟨bytes, (same node chunkHash).trans found, digest⟩
  have inserted : (∃ db, before.state.store.createChunkReplica
      (copyRow chunkHash now origin.store nodeId) = .ok db) ↔ _ :=
    Database.exists_createChunkReplica_iff
  rw [leaves.chunks, leaves.storageNodes] at inserted
  rcases World.commit_cases happens with ⟨failure, rejected, rfl, rfl⟩ | ⟨db, created, rfl, rfl⟩
  · have unregistered : ¬ Receives storageNodes origin.store nodeId := by
      intro receives
      obtain ⟨db, created⟩ := inserted.mpr ⟨recorded, receives.2⟩
      cases rejected.symm.trans created
    refine ⟨⟨?_, leaves.bytes, leaves.chunks, leaves.storageNodes, ?_⟩, intact _ fun _ _ => rfl⟩
    · rw [copyRows_append, if_neg unregistered, List.append_nil]
      exact leaves.rows
    · rw [copyRows_append, if_neg unregistered, createdRows_next, leaves.created]
      rfl
  · have receives : Receives storageNodes origin.store nodeId :=
      ⟨handled, (inserted.mp ⟨db, created⟩).2⟩
    have tables := Database.tables_createChunkReplica created
    refine ⟨⟨?_, leaves.bytes, tables.1.trans leaves.chunks, tables.2.trans leaves.storageNodes, ?_⟩,
      intact _ fun _ _ => rfl⟩
    · rw [copyRows_append, if_pos receives, ← List.append_assoc, ← leaves.rows]
      exact (Database.getChunkReplicas_createChunkReplica created absent chunkHash).trans
        (congrArg _ (if_pos rfl))
    · rw [copyRows_append, if_pos receives, createdRows_next, leaves.created]
      congr 1
      have row : createdRow
          (.store (.createChunkReplica (copyRow chunkHash now origin.store nodeId))) false
            before.state = some (copyRow chunkHash now origin.store nodeId) := if_pos ⟨rfl, absent⟩
      exact congrArg Option.toList row

/-- **One copy.** -/
theorem does_writeReplica (valid : validChunkHash chunkHash = true)
    (digest : sha256.digest data = chunkHash) (recorded : chunkHash ∈ origin.store.chunks.keys)
    (unsound : nodeId ∉ soundNodes sha256 storageNodes chunkHash origin) (fresh : nodeId ∉ done) :
    Does (Copies sha256 storageNodes chunkHash now origin done)
      (writeReplica storageNodes chunkHash data now nodeId)
      (fun _ => Copies sha256 storageNodes chunkHash now origin (done ++ [nodeId])) := by
  unfold writeReplica
  split
  · rename_i handled
    refine .attempt (.bind ((does_writeChunk valid digest unsound).consequence (fun _ => id)
      (fun _ _ => id) fun _ => False.elim) fun _ => ?_)
    have read : Does (fun moment => Copies sha256 storageNodes chunkHash now origin done moment ∧
          Intact sha256 chunkHash moment.state nodeId) (store (.getStorageNode nodeId))
        (fun node moment => node = origin.store.getStorageNode nodeId ∧
          Copies sha256 storageNodes chunkHash now origin done moment ∧
            Intact sha256 chunkHash moment.state nodeId) := by
      refine Triple.perform_recorded ?_
      rintro before outcome after ⟨copies, here⟩ happens
      obtain ⟨rfl, rfl⟩ := Prod.mk.inj happens
      have leaves := copies.leaves
      refine ⟨congrArg (Table.find? · nodeId) leaves.storageNodes, ⟨⟨leaves.rows, leaves.bytes,
        leaves.chunks, leaves.storageNodes, ?_⟩, copies.intact⟩, here⟩
      rw [createdRows_next, leaves.created]
      exact List.append_nil _
    refine .bind (read.consequence (fun _ => id) (fun _ _ => id) fun _ => False.elim) fun node => ?_
    refine .of_fact ?_
    rintro rfl
    exact records_copy recorded unsound fresh handled
  · rename_i unhandled
    refine .pure fun moment copies => ?_
    have unable : ¬ Receives storageNodes origin.store nodeId := fun receives =>
      unhandled receives.1
    refine ⟨?_, fun node member handled => ?_⟩
    · rw [copyRows_append, if_neg unable, List.append_nil]
      exact copies.leaves
    · rcases List.mem_append.mp member with old | new
      · exact copies.intact node old handled
      · exact absurd (List.mem_singleton.mp new ▸ handled) unhandled

/-! ## The repair -/

/-- The nodes that a repair copies the chunk to: the first nodes of the ring without a sound
replica, as many as are missing. -/
def repairTargets (sha256 : Sha256) (hashRing : ConsistentHashRing ChunkHash)
    (storageNodes : List NodeId) (chunkHash : ChunkHash) (world : World) : List NodeId :=
  ((hashRing.getNodes chunkHash (replicationFactor * 3 : ℕ)).filter fun nodeId =>
    nodeId ∉ soundNodes sha256 storageNodes chunkHash world).take
      (replicationFactor - (soundNodes sha256 storageNodes chunkHash world).length)

theorem run_verifyReplicas_exact (sha256 : Sha256) (storageNodes : List NodeId)
    (chunkHash : ChunkHash) (world : World) :
    ∃ health, (verifyReplicas sha256 storageNodes chunkHash).run exec world = (.ok health, world) ∧
      health.replicaCount = (world.store.getChunkReplicas chunkHash).length ∧
      health.corruptedReplicas = brokenNodes sha256 storageNodes chunkHash world := by
  have listed : (store (.getChunkReplicas chunkHash)).run exec world =
      (.ok (world.store.getChunkReplicas chunkHash), world) := rfl
  have judged := run_foldEach exec (run_verifyReplica_working sha256 storageNodes chunkHash)
    (world.store.getChunkReplicas chunkHash) {} world
  exact ⟨_, (run_bind_ok exec listed).trans (run_bind_ok exec judged), rfl,
    corruptedReplicas_foldl_judge _ _⟩

/-- **A verification without a fault** blames the broken replicas, and changes nothing. -/
theorem triple_verifyReplicas_exact (sha256 : Sha256) (storageNodes : List NodeId)
    (chunkHash : ChunkHash) (world : World) :
    Triple exec.semantics (· = world) (verifyReplicas sha256 storageNodes chunkHash)
      (fun health after => (health.corruptedReplicas =
          brokenNodes sha256 storageNodes chunkHash world ∧
        health.replicaCount - health.corruptedReplicas.length =
          (soundNodes sha256 storageNodes chunkHash world).length) ∧ after = world)
      (fun _ => False) := by
  obtain ⟨health, verifies, count, corrupted⟩ :=
    run_verifyReplicas_exact sha256 storageNodes chunkHash world
  rintro start outcome after rfl run
  obtain ⟨rfl, rfl⟩ := Prod.mk.inj (verifies.symm.trans (runs_semantics_iff.mp run))
  refine ⟨⟨corrupted, ?_⟩, rfl⟩
  rw [count, corrupted, ← length_sound_add_broken, Nat.add_sub_cancel]

/-- A chunk with a sound replica has a valid hash and a row. -/
theorem valid_of_sound (sound : nodeId ∈ soundNodes sha256 storageNodes chunkHash origin) :
    validChunkHash chunkHash = true ∧ chunkHash ∈ origin.store.chunks.keys := by
  obtain ⟨replica, listed, rfl, _, intact⟩ := mem_soundNodes.mp sound
  obtain ⟨member, hash⟩ := Database.mem_getChunkReplicas.mp listed
  exact ⟨intact.valid, hash ▸ origin.store.replicaChunk replica member⟩

variable {hashRing : ConsistentHashRing ChunkHash}

/-- The loop over the targets. -/
theorem does_copies (valid : validChunkHash chunkHash = true)
    (digest : sha256.digest data = chunkHash) (recorded : chunkHash ∈ origin.store.chunks.keys)
    {targets : List NodeId} (distinct : (done ++ targets).Nodup)
    (unsound : ∀ nodeId ∈ targets, nodeId ∉ soundNodes sha256 storageNodes chunkHash origin) :
    Does (Copies sha256 storageNodes chunkHash now origin done)
      (Program.forEach (writeReplica storageNodes chunkHash data now) targets)
      (fun _ => Copies sha256 storageNodes chunkHash now origin (done ++ targets)) := by
  induction targets generalizing done with
  | nil =>
      rw [List.append_nil]
      exact .pure fun _ => id
  | cons nodeId rest ih =>
      have fresh : nodeId ∉ done := fun old =>
        (List.disjoint_of_nodup_append distinct) old List.mem_cons_self
      have split : done ++ nodeId :: rest = (done ++ [nodeId]) ++ rest := by simp
      rw [split] at distinct ⊢
      exact (does_writeReplica valid digest recorded (unsound nodeId List.mem_cons_self) fresh).bind
        fun _ => ih distinct fun other member => unsound other (List.mem_cons_of_mem _ member)

section Semantics

variable {sem : Semantics system World} {post : Moment system Unit World → Prop}

/-- What a program does without a fault holds of fewer runs as well. -/
theorem Does.mono {program : Async α} {pre : Moment system Unit World → Prop}
    {resolved : α → Moment system Unit World → Prop} (does : Does pre program resolved)
    (works : ∀ op before outcome after, sem op before outcome after →
      exec.semantics op before outcome after) :
    Triple sem.recorded pre program resolved fun _ => False :=
  Triple.mono (Semantics.recorded_mono works) does

/-- The missing replicas are copied from the sound ones: what the loop over the targets comes to,
the restoration comes to. -/
theorem triple_restoreReplicas {health : ReplicaHealth}
    (works : ∀ op before outcome after, sem op before outcome after →
      exec.semantics op before outcome after)
    (sound : soundNodes sha256 storageNodes chunkHash origin ≠ [])
    (corrupted : health.corruptedReplicas = brokenNodes sha256 storageNodes chunkHash origin)
    (current : health.replicaCount - health.corruptedReplicas.length =
      (soundNodes sha256 storageNodes chunkHash origin).length)
    (copies : ∀ data, sha256.digest data = chunkHash → Triple sem.recorded
      (Copies sha256 storageNodes chunkHash now origin [])
      (Program.forEach (writeReplica storageNodes chunkHash data now)
        (repairTargets sha256 hashRing storageNodes chunkHash origin))
      (fun _ => post) fun _ => False) :
    Triple sem.recorded (Leaves origin chunkHash (soundNodes sha256 storageNodes chunkHash origin)
        (soundReplicas sha256 storageNodes chunkHash origin) [])
      (restoreReplicas hashRing storageNodes chunkHash health now) (fun _ => post)
      fun _ => False := by
  have begins : ∀ moment, Leaves origin chunkHash
      (soundNodes sha256 storageNodes chunkHash origin)
      (soundReplicas sha256 storageNodes chunkHash origin) [] moment →
        Copies sha256 storageNodes chunkHash now origin [] moment := fun moment leaves =>
    ⟨⟨leaves.rows.trans (List.append_nil _).symm, leaves.bytes, leaves.chunks, leaves.storageNodes,
      leaves.created⟩, nofun⟩
  obtain ⟨replica, rest, rows⟩ := List.exists_cons_of_ne_nil fun none => sound
    (congrArg (List.map ChunkReplicaRecord.nodeId) none)
  have member : replica.nodeId ∈ soundNodes sha256 storageNodes chunkHash origin := by
    rw [soundNodes, rows]
    exact List.mem_cons_self
  obtain ⟨data, digest, reads⟩ := does_readHealthy (valid_of_sound member).1 member fun broken =>
    not_mem_soundNodes_of_broken broken member
  unfold restoreReplicas
  dsimp only
  rw [current, corrupted]
  split
  · -- there is no target
    rename_i enough
    have loop := copies data digest
    rw [repairTargets, Nat.sub_eq_zero_of_le enough, List.take_zero] at loop
    exact loop.consequence begins (fun _ _ => id) fun _ => id
  · refine .bind (does_getChunkReplicas.mono works) fun replicas => .of_fact ?_
    rintro rfl
    rw [← rows] at reads
    refine .bind (Does.mono reads works) fun read => .of_fact ?_
    rintro rfl
    exact (copies data digest).consequence begins (fun _ _ => id) fun _ => id

/-- **A repair without a fault of a chunk with a sound replica** removes the broken replicas, and
then comes to what the loop over the targets comes to. -/
theorem triple_reReplicate
    (works : ∀ op before outcome after, sem op before outcome after →
      exec.semantics op before outcome after)
    (sound : soundNodes sha256 storageNodes chunkHash origin ≠ [])
    (copies : ∀ data, sha256.digest data = chunkHash → Triple sem.recorded
      (Copies sha256 storageNodes chunkHash now origin [])
      (Program.forEach (writeReplica storageNodes chunkHash data now)
        (repairTargets sha256 hashRing storageNodes chunkHash origin))
      (fun _ => post) fun _ => False) :
    Triple sem.recorded (fun moment => moment = .start origin)
      (reReplicate sha256 hashRing storageNodes chunkHash now) (fun _ => post)
      fun _ => False := by
  obtain ⟨first, isSound⟩ := List.exists_mem_of_ne_nil _ sound
  obtain ⟨valid, _⟩ := valid_of_sound isSound
  have verified : Does (fun moment => moment = .start origin)
      (verifyReplicas sha256 storageNodes chunkHash)
      (fun health moment => (health.corruptedReplicas =
          brokenNodes sha256 storageNodes chunkHash origin ∧
        health.replicaCount - health.corruptedReplicas.length =
          (soundNodes sha256 storageNodes chunkHash origin).length) ∧
        Leaves origin chunkHash (soundNodes sha256 storageNodes chunkHash origin)
          (origin.store.getChunkReplicas chunkHash) [] moment) := by
    refine ((triple_verifyReplicas_exact sha256 storageNodes chunkHash origin).recorded.and
      (keeps_createdRows allCalls_verifyReplicas [])).consequence ?_ ?_ fun _ => And.left
    · rintro _ rfl
      exact ⟨rfl, rfl⟩
    · rintro health moment ⟨⟨facts, same⟩, history⟩
      exact ⟨facts, by rw [same], fun _ _ => by rw [same], by rw [same], by rw [same], history⟩
  refine .bind (verified.mono works) fun health => .of_fact ?_
  rintro ⟨corrupted, current⟩
  refine .bind ?_ fun _ => triple_restoreReplicas works sound corrupted current copies
  rw [corrupted]
  exact (does_removeBroken valid).mono works

end Semantics

/-- No target of a repair is chosen twice. -/
theorem nodup_repairTargets :
    (repairTargets sha256 hashRing storageNodes chunkHash origin).Nodup := by
  have distinct : (hashRing.getNodes chunkHash (replicationFactor * 3 : ℕ)).Nodup :=
    ConsistentHashRing.nodup_getNodes chunkHash _
  exact (distinct.filter _).sublist (List.take_sublist _ _)

/-- No target of a repair has a sound replica. -/
theorem unsound_of_target
    (target : nodeId ∈ repairTargets sha256 hashRing storageNodes chunkHash origin) :
    nodeId ∉ soundNodes sha256 storageNodes chunkHash origin :=
  of_decide_eq_true (List.mem_filter.mp (List.mem_of_mem_take target)).2

/-- **The repair copies the chunk to the targets.** -/
theorem does_reReplicate (sound : soundNodes sha256 storageNodes chunkHash origin ≠ []) :
    Does (fun moment => moment = .start origin)
      (reReplicate sha256 hashRing storageNodes chunkHash now)
      (fun _ => Copies sha256 storageNodes chunkHash now origin
        (repairTargets sha256 hashRing storageNodes chunkHash origin)) := by
  obtain ⟨first, isSound⟩ := List.exists_mem_of_ne_nil _ sound
  obtain ⟨valid, recorded⟩ := valid_of_sound isSound
  exact triple_reReplicate (fun _ _ _ _ => id) sound fun data digest =>
    does_copies valid digest recorded nodup_repairTargets fun _ => unsound_of_target

/-! ## What a repair comes to -/

/-- The rows and the bytes of a chunk are as before. -/
structure SameReplicas (chunkHash : ChunkHash) (before after : World) : Prop where
  replicas : after.store.getChunkReplicas chunkHash = before.store.getChunkReplicas chunkHash
  bytes : ∀ nodeId, after.bytes nodeId chunkHash = before.bytes nodeId chunkHash

theorem SameReplicas.healthy_iff {before after : World} (same : SameReplicas chunkHash before after)
    {replica : ChunkReplicaRecord} : Healthy sha256 storageNodes chunkHash after replica ↔
      Healthy sha256 storageNodes chunkHash before replica := by
  simp only [Healthy, Intact, same.bytes]

/-- Which replicas of a chunk are sound depends on its rows and its bytes. -/
theorem SameReplicas.sound {before after : World} (same : SameReplicas chunkHash before after) :
    soundNodes sha256 storageNodes chunkHash after =
      soundNodes sha256 storageNodes chunkHash before := by
  simp only [soundNodes, soundReplicas, same.replicas, same.healthy_iff]

theorem SameReplicas.broken {before after : World} (same : SameReplicas chunkHash before after) :
    brokenNodes sha256 storageNodes chunkHash after =
      brokenNodes sha256 storageNodes chunkHash before := by
  simp only [brokenNodes, same.replicas, same.healthy_iff]

theorem SameElsewhere.other {before after : World} {other : ChunkHash}
    (same : SameElsewhere chunkHash before after) (different : other ≠ chunkHash) :
    SameReplicas other before after :=
  ⟨same.replicas other different, fun nodeId => same.bytes nodeId other different⟩

/-- When the copies have been made, all replicas are sound. -/
theorem Copies.healthy {moment : Moment system Unit World}
    (copies : Copies sha256 storageNodes chunkHash now origin done moment)
    {replica : ChunkReplicaRecord}
    (member : replica ∈ moment.state.store.getChunkReplicas chunkHash) :
    Healthy sha256 storageNodes chunkHash moment.state replica := by
  rw [copies.leaves.rows] at member
  rcases List.mem_append.mp member with old | new
  · obtain ⟨_, healthy⟩ := List.mem_filter.mp old
    obtain ⟨handled, data, held, digest⟩ := of_decide_eq_true healthy
    refine ⟨handled, data, ?_, digest⟩
    rw [copies.leaves.bytes _ (List.mem_map_of_mem old)]
    exact held
  · obtain ⟨nodeId, receives, rfl⟩ := List.mem_map.mp new
    obtain ⟨target, able⟩ := List.mem_filter.mp receives
    have handled : nodeId ∈ storageNodes := (of_decide_eq_true able).1
    exact ⟨handled, copies.intact nodeId target handled⟩

/-- Then no replica is broken. -/
theorem Copies.broken {moment : Moment system Unit World}
    (copies : Copies sha256 storageNodes chunkHash now origin done moment) :
    brokenNodes sha256 storageNodes chunkHash moment.state = [] := by
  rw [brokenNodes, List.map_eq_nil_iff, List.filter_eq_nil_iff]
  intro replica member broken
  exact of_decide_eq_true broken (copies.healthy member)

/-- The sound replicas are those from before and the copies. -/
theorem Copies.sound {moment : Moment system Unit World}
    (copies : Copies sha256 storageNodes chunkHash now origin done moment) :
    soundNodes sha256 storageNodes chunkHash moment.state =
      soundNodes sha256 storageNodes chunkHash origin ++
        done.filter (Receives storageNodes origin.store) := by
  have all : soundReplicas sha256 storageNodes chunkHash moment.state =
      moment.state.store.getChunkReplicas chunkHash :=
    List.filter_eq_self.mpr fun replica member => decide_eq_true (copies.healthy member)
  have named : (ChunkReplicaRecord.nodeId ∘ copyRow chunkHash now origin.store) = id := rfl
  rw [soundNodes, all, copies.leaves.rows, List.map_append, copyRows, List.map_map, named,
    List.map_id]
  rfl

/-- What has become of a chunk: nothing else has changed, and when it had a sound replica, it has no
broken one any more, and one more sound one on each target that could receive it. -/
structure Repaired (sha256 : Sha256) (hashRing : ConsistentHashRing ChunkHash)
    (storageNodes : List NodeId) (chunkHash : ChunkHash) (before after : World) : Prop where
  elsewhere : SameElsewhere chunkHash before after
  broken : soundNodes sha256 storageNodes chunkHash before ≠ [] →
    brokenNodes sha256 storageNodes chunkHash after = []
  sound : soundNodes sha256 storageNodes chunkHash before ≠ [] →
    (soundNodes sha256 storageNodes chunkHash after).length =
      (soundNodes sha256 storageNodes chunkHash before).length +
        ((repairTargets sha256 hashRing storageNodes chunkHash before).filter
          (Receives storageNodes before.store)).length

/-- **A run of a repair without a fault repairs the chunk.** -/
theorem repaired_of_runs {outcome : Except Failure Unit} {before after : World}
    (run : Runs exec.semantics (reReplicate sha256 hashRing storageNodes chunkHash now) before
      outcome after) : Repaired sha256 hashRing storageNodes chunkHash before after := by
  have elsewhere : SameElsewhere chunkHash before after :=
    (keeps_sameElsewhere before).of_runs (.refl before)
      (runs_withFaults_of_run (runs_semantics_iff.mp run))
  have copied : soundNodes sha256 storageNodes chunkHash before ≠ [] →
      brokenNodes sha256 storageNodes chunkHash after = [] ∧
        (soundNodes sha256 storageNodes chunkHash after).length =
          (soundNodes sha256 storageNodes chunkHash before).length +
            ((repairTargets sha256 hashRing storageNodes chunkHash before).filter
              (Receives storageNodes before.store)).length := by
    intro sound
    obtain ⟨moment, recorded, rfl⟩ := run.exists_recorded (.start before) rfl
    have ends := does_reReplicate sound rfl recorded
    cases outcome with
    | error failure => exact ends.elim
    | ok value =>
        have copies : Copies sha256 storageNodes chunkHash now before
          (repairTargets sha256 hashRing storageNodes chunkHash before) moment := ends
        exact ⟨copies.broken, by rw [copies.sound, List.length_append]⟩
  exact ⟨elsewhere, fun sound => (copied sound).1, fun sound => (copied sound).2⟩

end Steps

end DistributedFileStorage.Replication.ReplicationServiceImpl
