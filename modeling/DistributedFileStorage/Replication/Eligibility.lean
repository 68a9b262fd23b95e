import DistributedFileStorage.Replication.Availability
import DistributedFileStorage.Replication.Repair

/-!
# The nodes that may receive a replica

The first placement of a chunk asks for the records of its candidates and takes active nodes only.
A repair takes the first nodes of the ring that have no replica, whatever their records say. So a
call of `replicateChunk` creates rows of active nodes, whatever fails, and a call of `reReplicate`
does so exactly when the nodes that it may choose are active.
-/

set_option autoImplicit false

namespace DistributedFileStorage.Replication.ReplicationServiceImpl

open Async Store Services Nodes Placement Relational Program

variable {sha256 : Sha256} {hashRing : ConsistentHashRing ChunkHash} {storageNodes : List NodeId}
  {chunkHash : ChunkHash} {now : NodeId → Time} {origin : World} {nodeId : NodeId} {α : Type}

/-! ## The verification -/

/-- What a verification that may fail has found: it may blame replicas that are intact, but those it
does not blame are. -/
structure Verdict (sha256 : Sha256) (storageNodes : List NodeId) (chunkHash : ChunkHash)
    (world : World) (health : ReplicaHealth) : Prop where
  count : health.replicaCount = (world.store.getChunkReplicas chunkHash).length
  blamed : health.corruptedReplicas.Sublist
    ((world.store.getChunkReplicas chunkHash).map ChunkReplicaRecord.nodeId)
  intact : ∀ replica ∈ world.store.getChunkReplicas chunkHash, replica.nodeId ∈ storageNodes →
    replica.nodeId ∉ health.corruptedReplicas → Intact sha256 chunkHash world replica.nodeId

theorem triple_verifyChunkIntegrity :
    Triple faulty (· = origin) (StorageNodeImpl.verifyChunkIntegrity sha256 nodeId chunkHash)
      (fun valid after => (valid = true → Intact sha256 chunkHash origin nodeId) ∧ after = origin)
      (· = origin) := by
  refine Triple.bind StorageNodeImpl.keeps_validateChunkHash fun _ => Triple.tryCatch
    (StorageNodeImpl.triple_readChunk.bind fun data => ?_) fun failure => ?_
  · refine .pure fun after found => ⟨fun valid => ⟨data, found.2, ?_⟩, found.1⟩
    exact of_decide_eq_true valid
  · exact .pure fun after same => ⟨nofun, same⟩

/-- What the verification has found in the replicas it has gone through. -/
structure Judged (sha256 : Sha256) (storageNodes : List NodeId) (chunkHash : ChunkHash)
    (world : World) (done : List ChunkReplicaRecord) (verified : Verified) : Prop where
  blamed : verified.corruptedReplicas.Sublist (done.map ChunkReplicaRecord.nodeId)
  intact : ∀ replica ∈ done, replica.nodeId ∈ storageNodes →
    replica.nodeId ∉ verified.corruptedReplicas → Intact sha256 chunkHash world replica.nodeId

theorem Judged.corrupted {done : List ChunkReplicaRecord} {verified : Verified}
    (judged : Judged sha256 storageNodes chunkHash origin done verified)
    (replica : ChunkReplicaRecord) :
    Judged sha256 storageNodes chunkHash origin (done ++ [replica])
      (verified.corrupted replica.nodeId) where
  blamed := by
    rw [List.map_append]
    exact judged.blamed.append (.refl _)
  intact other member handled spared := by
    rcases List.mem_append.mp member with old | new
    · exact judged.intact other old handled fun blamed => spared (List.mem_append_left _ blamed)
    · refine absurd (List.mem_append_right _ (List.mem_singleton.mpr ?_)) spared
      rw [List.mem_singleton.mp new]

theorem Judged.healthy {done : List ChunkReplicaRecord} {verified : Verified}
    (judged : Judged sha256 storageNodes chunkHash origin done verified)
    {replica : ChunkReplicaRecord} (intact : Intact sha256 chunkHash origin replica.nodeId) :
    Judged sha256 storageNodes chunkHash origin (done ++ [replica])
      (verified.healthy replica.nodeId) where
  blamed := by
    rw [List.map_append]
    exact judged.blamed.trans (List.sublist_append_left _ _)
  intact other member handled spared := by
    rcases List.mem_append.mp member with old | new
    · exact judged.intact other old handled spared
    · exact List.mem_singleton.mp new ▸ intact

theorem triple_verifyReplica {done : List ChunkReplicaRecord} {verified : Verified}
    (judged : Judged sha256 storageNodes chunkHash origin done verified)
    (replica : ChunkReplicaRecord) :
    Triple faulty (· = origin) (verifyReplica sha256 storageNodes chunkHash verified replica)
      (fun found after => Judged sha256 storageNodes chunkHash origin (done ++ [replica]) found ∧
        after = origin) (· = origin) := by
  have blames : Triple faulty (· = origin)
      (Pure.pure (verified.corrupted replica.nodeId) : Async Verified)
      (fun found after => Judged sha256 storageNodes chunkHash origin (done ++ [replica]) found ∧
        after = origin) (· = origin) := .pure fun _ same => ⟨judged.corrupted replica, same⟩
  unfold verifyReplica
  split
  · refine Triple.tryCatch (triple_verifyChunkIntegrity.bind fun valid => ?_) fun _ => blames
    refine .of_fact fun intact => ?_
    split
    · rename_i holds
      exact .pure fun _ same => ⟨judged.healthy (intact holds), same⟩
    · exact blames
  · exact blames

/-- **A verification that may fail finds a verdict**, and changes nothing. -/
theorem triple_verifyReplicas :
    Triple faulty (· = origin) (verifyReplicas sha256 storageNodes chunkHash)
      (fun health after => Verdict sha256 storageNodes chunkHash origin health ∧ after = origin)
      (· = origin) := by
  have listed : Triple faulty (· = origin) (store (.getChunkReplicas chunkHash))
      (fun replicas after => replicas = origin.store.getChunkReplicas chunkHash ∧ after = origin)
      (· = origin) :=
    (triple_read fun _ => rfl).consequence (fun _ => id) (fun _ _ found => found.2 ▸ found)
      fun _ => id
  refine listed.bind fun replicas => .of_fact ?_
  rintro rfl
  have judges : Triple faulty
      (fun world => (∃ done, done ++ origin.store.getChunkReplicas chunkHash =
          origin.store.getChunkReplicas chunkHash ∧
        Judged sha256 storageNodes chunkHash origin done {}) ∧ world = origin)
      (Program.foldEach (verifyReplica sha256 storageNodes chunkHash) {}
        (origin.store.getChunkReplicas chunkHash))
      (fun found world => (∃ done, done ++ [] = origin.store.getChunkReplicas chunkHash ∧
        Judged sha256 storageNodes chunkHash origin done found) ∧ world = origin) (· = origin) := by
    refine Triple.foldEach (fun verified rest world => (∃ done, done ++ rest =
        origin.store.getChunkReplicas chunkHash ∧
      Judged sha256 storageNodes chunkHash origin done verified) ∧ world = origin) ?_ _ _
    refine fun verified replica rest => .of_fact ?_
    rintro ⟨done, split, judged⟩
    refine (triple_verifyReplica judged replica).consequence (fun _ => id) ?_ fun _ => id
    rintro found after ⟨next, same⟩
    exact ⟨⟨done ++ [replica], by rw [List.append_assoc, List.singleton_append, split], next⟩, same⟩
  have start : Judged sha256 storageNodes chunkHash origin [] {} := ⟨.refl _, nofun⟩
  refine (judges.consequence ?_ (fun _ _ => id) fun _ => id).bind fun found => .of_fact ?_
  · rintro world rfl
    exact ⟨⟨[], rfl, start⟩, rfl⟩
  · rintro ⟨done, split, judged⟩
    rw [List.append_nil] at split
    subst split
    exact .pure fun _ same => ⟨⟨rfl, judged.blamed, judged.intact⟩, same⟩

/-- The copy is read from a replica that the verification has not blamed. -/
theorem triple_readHealthy_unblamed {sem : Semantics system World} {corruptedReplicas : List NodeId}
    {replicas : List ChunkReplicaRecord} :
    Triple sem (fun _ => True) (readHealthy storageNodes chunkHash corruptedReplicas replicas)
      (fun read _ => read ≠ none → ∃ replica ∈ replicas, replica.nodeId ∈ storageNodes ∧
        replica.nodeId ∉ corruptedReplicas) (fun _ => True) := by
  induction replicas with
  | nil => exact .pure fun _ _ some => absurd rfl some
  | cons replica rest ih =>
      have later : Triple sem (fun _ => True)
          (readHealthy storageNodes chunkHash corruptedReplicas rest)
          (fun read _ => read ≠ none → ∃ other ∈ replica :: rest, other.nodeId ∈ storageNodes ∧
            other.nodeId ∉ corruptedReplicas) (fun _ => True) := by
        refine ih.consequence (fun _ => id) (fun read _ found some => ?_) fun _ => id
        obtain ⟨other, member, unblamed⟩ := found some
        exact ⟨other, List.mem_cons_of_mem replica member, unblamed⟩
      unfold readHealthy
      split
      · exact later
      · rename_i spared
        split
        · exact later
        · rename_i handled
          have read : Triple sem (fun _ => True)
              (StorageNodeImpl.readChunk replica.nodeId chunkHash) (fun _ _ => True)
              (fun _ => True) := by
            intro before outcome after _ _
            cases outcome <;> trivial
          refine Triple.tryCatch (read.bind fun data => .pure fun _ _ _ => ?_) fun _ => later
          exact ⟨replica, List.mem_cons_self, not_not.mp handled, spared⟩

/-! ## The nodes that a repair may choose -/

/-- The nodes that a repair may copy the chunk to when calls fail: there is a sound replica on
another node, and at most one of the nodes before it on the ring has no replica row. -/
def possibleTargets (sha256 : Sha256) (hashRing : ConsistentHashRing ChunkHash)
    (storageNodes : List NodeId) (chunkHash : ChunkHash) (world : World) : List NodeId :=
  let candidates := hashRing.getNodes chunkHash (replicationFactor * 3 : ℕ)
  let existingNodeIds :=
    (world.store.getChunkReplicas chunkHash).map ChunkReplicaRecord.nodeId
  candidates.filter fun nodeId =>
    (∃ other ∈ soundNodes sha256 storageNodes chunkHash world, other ≠ nodeId) ∧
      nodeId ∈ (candidates.filter fun other => other = nodeId ∨ other ∉ existingNodeIds).take 2

theorem mem_possibleTargets :
    nodeId ∈ possibleTargets sha256 hashRing storageNodes chunkHash origin ↔
      (∃ other ∈ soundNodes sha256 storageNodes chunkHash origin, other ≠ nodeId) ∧
        nodeId ∈ ((hashRing.getNodes chunkHash (replicationFactor * 3 : ℕ)).filter fun other =>
          other = nodeId ∨ other ∉ (origin.store.getChunkReplicas chunkHash).map
            ChunkReplicaRecord.nodeId).take 2 := by
  rw [possibleTargets, List.mem_filter, decide_eq_true_eq]
  refine and_iff_right_of_imp fun possible => ?_
  exact List.mem_of_mem_filter (List.mem_of_mem_take possible.2)

/-- **A node that a repair chooses is one that it may choose.** Some of the rows are left, and one
of them has been read. -/
theorem possible_of_chosen {health : ReplicaHealth} {replicas : List ChunkReplicaRecord}
    {replica : ChunkReplicaRecord} (verdict : Verdict sha256 storageNodes chunkHash origin health)
    (left : replicas ⊆ origin.store.getChunkReplicas chunkHash) (member : replica ∈ replicas)
    (handled : replica.nodeId ∈ storageNodes) (spared : replica.nodeId ∉ health.corruptedReplicas)
    (chosen : nodeId ∈ ((hashRing.getNodes chunkHash (replicationFactor * 3 : ℕ)).filter
      fun other => other ∉ replicas.map ChunkReplicaRecord.nodeId).take
        (replicationFactor - (health.replicaCount - health.corruptedReplicas.length))) :
    nodeId ∈ possibleTargets sha256 hashRing storageNodes chunkHash origin := by
  have present := left member
  have candidate := List.mem_filter.mp (List.mem_of_mem_take chosen)
  have fresh : nodeId ∉ replicas.map ChunkReplicaRecord.nodeId := of_decide_eq_true candidate.2
  refine mem_possibleTargets.mpr ⟨⟨replica.nodeId, ?_, ?_⟩, ?_⟩
  · exact mem_soundNodes.mpr ⟨replica, present, rfl, handled,
      verdict.intact replica present handled spared⟩
  · exact fun same => fresh (same ▸ List.mem_map_of_mem member)
  · have most : health.corruptedReplicas.length < health.replicaCount := by
      have atMost := verdict.blamed.length_le
      rw [List.length_map, ← verdict.count] at atMost
      refine lt_of_le_of_ne atMost fun all => ?_
      have whole := verdict.blamed.eq_of_length (by rw [List.length_map, ← verdict.count, all])
      exact spared (whole ▸ List.mem_map_of_mem present)
    have few : replicationFactor - (health.replicaCount - health.corruptedReplicas.length) ≤ 2 := by
      have factor : replicationFactor = 3 := rfl
      omega
    have sublist : ((hashRing.getNodes chunkHash (replicationFactor * 3 : ℕ)).filter fun other =>
        other = nodeId ∨ other ∉ (origin.store.getChunkReplicas chunkHash).map
          ChunkReplicaRecord.nodeId).Sublist
        ((hashRing.getNodes chunkHash (replicationFactor * 3 : ℕ)).filter fun other =>
          other ∉ replicas.map ChunkReplicaRecord.nodeId) := by
      refine List.monotone_filter_right _ fun other keeps => ?_
      refine decide_eq_true ((of_decide_eq_true keeps).elim (fun same => same ▸ fresh) ?_)
      exact fun absent there => absent (List.map_subset _ left there)
    have early := (List.take_sublist_take_left few).subset chosen
    refine Sequences.mem_take_of_sublist sublist
      ((ConsistentHashRing.nodup_getNodes chunkHash _).filter _) ?_ early
    exact List.mem_filter.mpr ⟨candidate.1, decide_eq_true (.inl rfl)⟩

/-! ## The rows of a repair that may fail -/

/-- What holds before the repair writes: the nodes are as they were, there is no row that was not
there, and none has been created. -/
structure Prepares (chunkHash : ChunkHash) (origin : World) (moment : Moment system Unit World) :
    Prop where
  storageNodes : moment.state.store.storageNodes = origin.store.storageNodes
  rows : moment.state.store.getChunkReplicas chunkHash ⊆ origin.store.getChunkReplicas chunkHash
  created : createdRows moment.history = []

/-- What holds while it writes: the rows that have been created are rows of some nodes. -/
structure CreatesOn (origin : World) (nodes : NodeId → Prop) (moment : Moment system Unit World) :
    Prop where
  storageNodes : moment.state.store.storageNodes = origin.store.storageNodes
  created : ∀ row ∈ createdRows moment.history, nodes row.nodeId

theorem Prepares.createsOn {moment : Moment system Unit World}
    (prepares : Prepares chunkHash origin moment) (nodes : NodeId → Prop) :
    CreatesOn origin nodes moment :=
  ⟨prepares.storageNodes, fun row created => by rw [prepares.created] at created; cases created⟩

/-- A plain call leaves no row that was not there. -/
theorem PlainCall.rows_subset {op : Call} (plain : PlainCall chunkHash op) (world : World) :
    (exec op world).2.store.getChunkReplicas chunkHash ⊆
      world.store.getChunkReplicas chunkHash := by
  have disk : ∀ nodeId op, (exec (.disk nodeId op) world).2.store.getChunkReplicas chunkHash ⊆
      world.store.getChunkReplicas chunkHash := fun nodeId op => by
    rw [exec_disk_store]
    exact List.Subset.refl _
  cases plain with
  | mkdir nodeId directory => exact disk _ _
  | writeFile nodeId data => exact disk _ _
  | readFile nodeId => exact disk _ _
  | unlink nodeId => exact disk _ _
  | countChunk nodeId => exact disk _ _
  | uncountChunk nodeId => exact disk _ _
  | getChunkReplicas => exact List.Subset.refl _
  | getStorageNode nodeId => exact List.Subset.refl _
  | deleteChunkReplica nodeId =>
      intro replica member
      have filtered : replica ∈ (world.store.deleteChunkReplica chunkHash nodeId).getChunkReplicas
        chunkHash := member
      rw [Database.getChunkReplicas_deleteChunkReplica] at filtered
      exact List.mem_of_mem_filter filtered

/-- What a plain call does to the moment. -/
structure PlainStep (chunkHash : ChunkHash) (before after : Moment system Unit World) : Prop where
  storageNodes : after.state.store.storageNodes = before.state.store.storageNodes
  rows : after.state.store.getChunkReplicas chunkHash ⊆
    before.state.store.getChunkReplicas chunkHash
  created : createdRows after.history = createdRows before.history

/-- Programs of plain calls keep what plain calls keep, whatever fails. -/
theorem keeps_plain {program : Async α} {invariant : Moment system Unit World → Prop}
    (calls : program.AllCalls (PlainCall chunkHash))
    (step : ∀ before after, invariant before → PlainStep chunkHash before after → invariant after) :
    Keeps faulty.recorded invariant program := by
  refine .of_allCalls (fun op plain => Triple.perform_recorded ?_) calls
  intro before outcome state holds happens
  have plainStep : PlainStep chunkHash before (before.next () op outcome state) := by
    have created : createdRows (before.next () op outcome state).history =
        createdRows before.history := by
      rw [createdRows_next, plain.createdRow, Option.toList_none, List.append_nil]
    rcases happens with works | ⟨_, _, damage, rfl⟩
    · obtain rfl : (exec op before.state).2 = state := congrArg Prod.snd works
      have same := (plain.sameElsewhere before.state).storageNodes
      exact ⟨same, plain.rows_subset before.state, created⟩
    · have same := Call.store_leaves op damage before.state
      refine ⟨congrArg (fun db => db.storageNodes) same, ?_, created⟩
      intro replica member
      have rows := congrArg (fun db => db.getChunkReplicas chunkHash) same
      exact rows ▸ member
  have kept := step before _ holds plainStep
  cases outcome with
  | ok value => exact kept
  | error failure => exact kept

theorem keeps_prepares {program : Async α} (calls : program.AllCalls (PlainCall chunkHash)) :
    Keeps faulty.recorded (Prepares chunkHash origin) program :=
  keeps_plain calls fun _ _ prepares step =>
    ⟨step.storageNodes.trans prepares.storageNodes, List.Subset.trans step.rows prepares.rows,
      step.created.trans prepares.created⟩

variable {nodes : NodeId → Prop}

/-- What a program of plain calls comes to, while the repair prepares. -/
theorem triple_prepares {program : Async α} {start rejected : World → Prop}
    {resolved : α → World → Prop} (calls : program.AllCalls (PlainCall chunkHash))
    (triple : Triple faulty start program resolved rejected) :
    Triple faulty.recorded (fun moment => start moment.state ∧ Prepares chunkHash origin moment)
      program (fun value moment => resolved value moment.state ∧ Prepares chunkHash origin moment)
      (CreatesOn origin nodes) :=
  (triple.recorded.and (keeps_prepares calls)).consequence (fun _ => id) (fun _ _ => id)
    fun _ ends => ends.2.createsOn nodes

theorem keeps_createsOn {program : Async α} (calls : program.AllCalls (PlainCall chunkHash)) :
    Keeps faulty.recorded (CreatesOn origin nodes) program :=
  keeps_plain calls fun _ _ creates step =>
    ⟨step.storageNodes.trans creates.storageNodes, step.created ▸ creates.created⟩

/-- A row that is created is one that the call was to insert, and its node is registered. -/
theorem createdRow_eq_some {op : Call} {fails : Bool} {before : World} {row : ChunkReplicaRecord}
    (created : createdRow op fails before = some row) :
    op = .store (.createChunkReplica row) ∧ fails = false := by
  unfold createdRow at created
  split at created
  · split at created
    · rename_i inserted
      obtain rfl := Option.some.inj created
      exact ⟨rfl, inserted.1⟩
    · cases created
  · cases created

/-- The insertion of a row on a node, which has to be registered. -/
theorem keeps_createChunkReplica {replica : ChunkReplicaRecord}
    (chosen : replica.nodeId ∈ origin.store.storageNodes.keys → nodes replica.nodeId) :
    Keeps faulty.recorded (CreatesOn origin nodes) (store (.createChunkReplica replica)) := by
  refine Triple.perform_recorded fun before outcome state creates happens => ?_
  have failed : ∀ failure, CreatesOn origin nodes
      (before.next () (.store (.createChunkReplica replica)) (.error failure) before.state) := by
    intro failure
    refine ⟨creates.storageNodes, fun row created => ?_⟩
    rw [createdRows_next] at created
    exact creates.created row (by simpa [createdRow, Event.fails] using created)
  rcases faulty_store_cases happens with works | ⟨⟨failure, rfl⟩, rfl⟩
  · rcases World.commit_cases works with ⟨failure, _, rfl, rfl⟩ | ⟨db, inserted, rfl, rfl⟩
    · exact failed failure
    · refine ⟨(Database.tables_createChunkReplica inserted).2.trans creates.storageNodes, ?_⟩
      intro row created
      rw [createdRows_next] at created
      rcases List.mem_append.mp created with old | new
      · exact creates.created row old
      · obtain ⟨same, _⟩ := createdRow_eq_some (Option.mem_toList.mp new)
        cases same
        have registered := (Database.exists_createChunkReplica_iff.mp ⟨db, inserted⟩).2
        exact chosen (creates.storageNodes ▸ registered)
  · exact failed failure

/-- A replica is recorded on its node. -/
theorem keeps_writeReplica_createsOn {chunkData : Buffer}
    (chosen : Receives storageNodes origin.store nodeId → nodes nodeId) :
    Keeps faulty.recorded (CreatesOn origin nodes)
      (writeReplica storageNodes chunkHash chunkData now nodeId) := by
  unfold writeReplica
  split
  · rename_i handled
    have read : (store (.getStorageNode nodeId)).AllCalls (PlainCall chunkHash) :=
      .perform (.getStorageNode nodeId)
    exact .attempt (.bind (keeps_createsOn (allCalls_writeChunk chunkData)) fun _ =>
      .bind (keeps_createsOn read) fun record => keeps_createChunkReplica fun registered =>
        chosen ⟨handled, registered⟩)
  · exact .pure

/-- **A repair creates rows of the nodes that it may choose**, and that can receive a replica,
whatever fails in it. -/
theorem keeps_reReplicate_createsOn
    (possible : ∀ nodeId ∈ possibleTargets sha256 hashRing storageNodes chunkHash origin,
      Receives storageNodes origin.store nodeId → nodes nodeId) :
    Triple faulty.recorded (· = .start origin)
      (reReplicate sha256 hashRing storageNodes chunkHash now)
      (fun _ => CreatesOn origin nodes) (CreatesOn origin nodes) := by
  have gives : ∀ moment, Prepares chunkHash origin moment → CreatesOn origin nodes moment :=
    fun _ prepares => prepares.createsOn nodes
  have verified : Triple faulty.recorded (· = .start origin)
      (verifyReplicas sha256 storageNodes chunkHash)
      (fun health moment => Verdict sha256 storageNodes chunkHash origin health ∧
        Prepares chunkHash origin moment) (CreatesOn origin nodes) := by
    refine (triple_prepares allCalls_verifyReplicas triple_verifyReplicas).consequence ?_
      (fun _ _ ends => ⟨ends.1.1, ends.2⟩) fun _ => id
    rintro _ rfl
    exact ⟨rfl, rfl, List.Subset.refl _, rfl⟩
  refine verified.bind fun health => .of_fact fun verdict => ?_
  have removes : Triple faulty.recorded (Prepares chunkHash origin)
      (Program.forEach (removeCorrupted storageNodes chunkHash) health.corruptedReplicas)
      (fun _ => Prepares chunkHash origin) (CreatesOn origin nodes) :=
    (keeps_prepares (.forEach fun _ _ => allCalls_removeCorrupted)).consequence (fun _ => id)
      (fun _ _ => id) gives
  refine removes.bind fun _ => ?_
  unfold restoreReplicas
  dsimp only
  split
  · exact .pure gives
  · have listed : Triple faulty.recorded (Prepares chunkHash origin)
        (store (.getChunkReplicas chunkHash))
        (fun replicas moment => replicas ⊆ origin.store.getChunkReplicas chunkHash ∧
          Prepares chunkHash origin moment) (CreatesOn origin nodes) := by
      have reads : Triple faulty (fun world => world.store.getChunkReplicas chunkHash ⊆
          origin.store.getChunkReplicas chunkHash) (store (.getChunkReplicas chunkHash)) _ _ :=
        triple_read fun _ => rfl
      exact (triple_prepares (.perform .getChunkReplicas) reads).consequence
        (fun _ start => ⟨start.rows, start⟩) (fun _ _ ends => ⟨ends.1.1 ▸ ends.1.2, ends.2⟩)
        fun _ => id
    refine listed.bind fun replicas => .of_fact fun left => ?_
    have read : Triple faulty.recorded (Prepares chunkHash origin)
        (readHealthy storageNodes chunkHash health.corruptedReplicas replicas)
        (fun read moment => (read ≠ none → ∃ replica ∈ replicas, replica.nodeId ∈ storageNodes ∧
          replica.nodeId ∉ health.corruptedReplicas) ∧ CreatesOn origin nodes moment)
        (CreatesOn origin nodes) := by
      have found : Triple faulty (fun _ => True)
          (readHealthy storageNodes chunkHash health.corruptedReplicas replicas) _ _ :=
        triple_readHealthy_unblamed
      exact (triple_prepares (allCalls_readHealthy _ _) found).consequence
        (fun _ prepares => ⟨trivial, prepares⟩) (fun _ _ ends => ⟨ends.1, gives _ ends.2⟩)
        fun _ => id
    refine read.bind fun chunkData => .of_fact fun unblamed => ?_
    cases chunkData with
    | none => exact .throw fun _ => id
    | some data =>
        obtain ⟨replica, member, handled, spared⟩ := unblamed nofun
        exact Keeps.forEach fun nodeId chosen => keeps_writeReplica_createsOn (possible nodeId
          (possible_of_chosen verdict left member handled spared chosen))

/-! ## The rows of a placement -/

/-- The rows that the calls of the writes have inserted into `chunk_replicas`. -/
def writtenRows {ι : Type} (history : List (WriteEvent ι)) : List ChunkReplicaRecord :=
  history.filterMap fun event =>
    match event.op with
    | .inl op => createdRow op event.fails event.before.1
    | .inr _ => none

section Placements

variable {chunkData : Buffer} {timestamp createdAt : NodeId → Time} {middle : World}
  {selected : List StorageNodeInfo}
  {settled : Pool writing (Fin (handledNodes storageNodes selected).length) Unit}
  {reached : Moment writing (Fin (handledNodes storageNodes selected).length)
    (World × WriteProgress)}

/-- **A placement creates rows of active nodes**, whatever fails in it. -/
theorem active_of_mem_writtenRows
    (selects : Runs faulty (selectStorageNodes hashRing chunkHash replicationFactor) origin
      (.ok selected) middle)
    (writes : PoolRuns (Semantics.withLocals faulty WriteProgress)
      (writePromises chunkHash chunkData timestamp createdAt (handledNodes storageNodes selected),
        .start (middle, {})) (settled, reached))
    (all : ∀ index, (settled index).isSettled = true) {row : ChunkReplicaRecord}
    (written : row ∈ writtenRows reached.history) : Active origin.store row.nodeId := by
  obtain ⟨rfl, rfl⟩ := triple_selectStorageNodes hashRing chunkHash origin rfl selects
  obtain ⟨event, member, created⟩ := List.mem_filterMap.mp written
  obtain ⟨_, _, _, _, rule, _⟩ := (writeRun_of_writes writes all).1.exists_prior member
  obtain ⟨task, op, outcome, before, after⟩ := event
  dsimp only at rule created
  have chosen : ((handledNodes storageNodes (selectedNodes hashRing middle.store chunkHash)).get
      task) ∈ selectedNodes hashRing middle.store chunkHash :=
    List.mem_of_mem_filter (List.get_mem _ task)
  cases rule with
  | mkdir => cases created
  | writeFile made => cases created
  | countChunk => cases created
  | pushLocation location => cases created
  | countSuccess => cases created
  | createChunkReplica replica hash node =>
      obtain ⟨same, _⟩ := createdRow_eq_some created
      cases same
      rw [node]
      exact active_of_mem_selectedNodes chosen

end Placements

/-! ## Histories of calls -/

/-- A call that creates replica rows, with the service it is made on. -/
inductive ReplicaCall where
  | replicateChunk (hashRing : ConsistentHashRing ChunkHash) (storageNodes : List NodeId)
      (chunkHash : ChunkHash) (chunkData : Buffer) (timestamp createdAt : NodeId → Time)
  | reReplicate (sha256 : Sha256) (hashRing : ConsistentHashRing ChunkHash)
      (storageNodes : List NodeId) (chunkHash : ChunkHash) (now : NodeId → Time)

/-- What a call may do: the rows it has created, and the state it leaves. -/
inductive Creates (sem : Semantics system World) (before : World) :
    ReplicaCall → List ChunkReplicaRecord → World → Prop where
  | unwritten {hashRing : ConsistentHashRing ChunkHash} {storageNodes : List NodeId}
      {chunkHash : ChunkHash} {chunkData : Buffer} {timestamp createdAt : NodeId → Time}
      {outcome : Except Failure (List StorageNodeInfo)} {after : World}
      (selects : Runs sem (selectStorageNodes hashRing chunkHash replicationFactor) before outcome
        after)
      (few : ∀ selected, outcome = .ok selected → selected.length < replicationFactor) :
      Creates sem before
        (.replicateChunk hashRing storageNodes chunkHash chunkData timestamp createdAt) [] after
  | written {hashRing : ConsistentHashRing ChunkHash} {storageNodes : List NodeId}
      {chunkHash : ChunkHash} {chunkData : Buffer} {timestamp createdAt : NodeId → Time}
      {selected : List StorageNodeInfo} {middle : World}
      {settled : Pool writing (Fin (handledNodes storageNodes selected).length) Unit}
      {reached : Moment writing (Fin (handledNodes storageNodes selected).length)
        (World × WriteProgress)}
      (selects : Runs sem (selectStorageNodes hashRing chunkHash replicationFactor) before
        (.ok selected) middle)
      (enough : replicationFactor ≤ selected.length)
      (writes : PoolRuns (Semantics.withLocals sem WriteProgress)
        (writePromises chunkHash chunkData timestamp createdAt
          (handledNodes storageNodes selected), .start (middle, {})) (settled, reached))
      (all : ∀ index, (settled index).isSettled = true) :
      Creates sem before
        (.replicateChunk hashRing storageNodes chunkHash chunkData timestamp createdAt)
        (writtenRows reached.history) reached.state.1
  | repaired {sha256 : Sha256} {hashRing : ConsistentHashRing ChunkHash}
      {storageNodes : List NodeId} {chunkHash : ChunkHash} {now : NodeId → Time}
      {outcome : Except Failure Unit} {reached : Moment system Unit World}
      (repairs : Runs sem.recorded (reReplicate sha256 hashRing storageNodes chunkHash now)
        (.start before) outcome reached) :
      Creates sem before (.reReplicate sha256 hashRing storageNodes chunkHash now)
        (createdRows reached.history) reached.state

/-- A call of a history. -/
structure ReplicaStep where
  call : ReplicaCall
  before : World
  created : List ChunkReplicaRecord

/-- The histories of calls. Between two calls the other parts of the system may change the state in
any way. -/
inductive Reaches (sem : Semantics system World) (start : World) :
    List ReplicaStep → World → Prop where
  | start : Reaches sem start [] start
  | change {steps : List ReplicaStep} {world : World} (earlier : Reaches sem start steps world)
      (changed : World) : Reaches sem start steps changed
  | call {steps : List ReplicaStep} {before after : World} {call : ReplicaCall}
      {created : List ChunkReplicaRecord} (earlier : Reaches sem start steps before)
      (creates : Creates sem before call created after) :
      Reaches sem start (steps ++ [⟨call, before, created⟩]) after

namespace ReplicaStep

/-- All rows that the call has created name active nodes. -/
def RowsActive (step : ReplicaStep) : Prop :=
  ∀ row ∈ step.created, Active step.before.store row.nodeId

/-- A repair whose calls may fail can only choose active nodes. -/
def ChoosesActive (step : ReplicaStep) : Prop :=
  match step.call with
  | .replicateChunk _ _ _ _ _ _ => True
  | .reReplicate sha256 hashRing storageNodes chunkHash _ =>
      ∀ nodeId ∈ possibleTargets sha256 hashRing storageNodes chunkHash step.before,
        Receives storageNodes step.before.store nodeId → Active step.before.store nodeId

/-- A repair without a fault chooses active nodes. -/
def TargetsActive (step : ReplicaStep) : Prop :=
  match step.call with
  | .replicateChunk _ _ _ _ _ _ => True
  | .reReplicate sha256 hashRing storageNodes chunkHash _ =>
      soundNodes sha256 storageNodes chunkHash step.before ≠ [] →
        ∀ nodeId ∈ repairTargets sha256 hashRing storageNodes chunkHash step.before,
          Receives storageNodes step.before.store nodeId → Active step.before.store nodeId

end ReplicaStep

theorem rowsActive_of_creates {step : ReplicaStep} {after : World}
    (creates : Creates faulty step.before step.call step.created after)
    (chooses : step.ChoosesActive) : step.RowsActive := by
  obtain ⟨call, before, created⟩ := step
  dsimp only at creates
  cases creates with
  | unwritten selects few => exact nofun
  | written selects enough writes all =>
      exact fun row written => active_of_mem_writtenRows selects writes all written
  | repaired repairs =>
      have ends := keeps_reReplicate_createsOn chooses rfl repairs
      rename_i outcome reached
      cases outcome with
      | ok value => exact ends.created
      | error failure => exact ends.created

theorem Creates.mono {sem weaker : Semantics system World} {before after : World}
    {call : ReplicaCall} {created : List ChunkReplicaRecord}
    (allows : ∀ op before outcome after, sem op before outcome after →
      weaker op before outcome after)
    (creates : Creates sem before call created after) :
    Creates weaker before call created after := by
  cases creates with
  | unwritten selects few => exact .unwritten (selects.mono allows) few
  | written selects enough writes all =>
      have more := Pool.runs_mono (Semantics.withLocals_mono allows) writes
      exact .written (selects.mono allows) enough more all
  | repaired repairs => exact .repaired (repairs.mono (Semantics.recorded_mono allows))

/-- **Without a fault the rows of a call name active nodes exactly when a repair chooses active
nodes.** -/
theorem rowsActive_iff_of_works {step : ReplicaStep} {after : World}
    (creates : Creates exec.semantics step.before step.call step.created after) :
    step.RowsActive ↔ step.TargetsActive := by
  have faults : Creates faulty step.before step.call step.created after :=
    creates.mono fun _ _ _ _ => .inl
  have active := rowsActive_of_creates faults
  obtain ⟨call, before, created⟩ := step
  dsimp only at creates
  cases creates with
  | unwritten selects few => exact iff_of_true nofun trivial
  | written selects enough writes all => exact iff_of_true (active trivial) trivial
  | @repaired sha256 hashRing storageNodes chunkHash now outcome reached repairs =>
      by_cases sound : soundNodes sha256 storageNodes chunkHash before = []
      · refine iff_of_true (active fun nodeId possible => ?_) fun some => absurd sound some
        obtain ⟨⟨other, member, _⟩, _⟩ := mem_possibleTargets.mp possible
        rw [sound] at member
        cases member
      · have ends := does_reReplicate sound rfl repairs
        cases outcome with
        | error failure => exact ends.elim
        | ok value =>
            have copies : Copies sha256 storageNodes chunkHash now before
              (repairTargets sha256 hashRing storageNodes chunkHash before) reached := ends
            have rows : ∀ {nodes : NodeId → Prop},
                (∀ row ∈ createdRows reached.history, nodes row.nodeId) ↔
                  ∀ nodeId ∈ repairTargets sha256 hashRing storageNodes chunkHash before,
                    Receives storageNodes before.store nodeId → nodes nodeId := by
              intro nodes
              rw [copies.leaves.created, copyRows, List.forall_mem_map]
              simp only [List.mem_filter, decide_eq_true_eq, and_imp]
              exact Iff.rfl
            exact rows.trans ⟨fun targets _ => targets, fun targets => targets sound⟩

/-- The calls of a history, each with the state it was made in. -/
theorem Reaches.creates {sem : Semantics system World} {start world : World}
    {steps : List ReplicaStep} (run : Reaches sem start steps world) :
    ∀ step ∈ steps, ∃ after, Creates sem step.before step.call step.created after := by
  induction run with
  | start => exact nofun
  | change earlier changed ih => exact ih
  | call earlier creates ih =>
      intro step member
      rcases List.mem_append.mp member with old | new
      · exact ih step old
      · rw [List.mem_singleton.mp new]
        exact ⟨_, creates⟩

/-- **Which nodes receive replicas.** In every history in which calls may fail, all rows created
name active nodes, when each repair can only choose active nodes. In a history without a fault they
do so exactly when each repair chooses active nodes. -/
theorem rows_active {start world : World} {steps : List ReplicaStep} :
    (Reaches faulty start steps world → (∀ step ∈ steps, step.ChoosesActive) →
      ∀ step ∈ steps, step.RowsActive) ∧
    (Reaches exec.semantics start steps world →
      ((∀ step ∈ steps, step.RowsActive) ↔ ∀ step ∈ steps, step.TargetsActive)) := by
  constructor
  · intro run chooses step member
    obtain ⟨_, creates⟩ := run.creates step member
    exact rowsActive_of_creates creates (chooses step member)
  · intro run
    refine forall₂_congr fun step member => ?_
    obtain ⟨_, creates⟩ := run.creates step member
    exact rowsActive_iff_of_works creates

/-! ## A repair next to nodes that are offline -/

/-- The byte 7 as a chunk with one replica, on a node of some world. -/
def placedOn (nodeId : NodeId) (world : World) : World :=
  ((writeReplica [nodeId] sevenMetadata.contentHash [7] (fun _ => 1) nodeId).run exec world).2

/-- The history that consists of one repair of that chunk without a fault. -/
def repairOnce (hashRing : ConsistentHashRing ChunkHash) (storageNodes : List NodeId)
    (world : World) : ReplicaStep where
  call := .reReplicate knownDigests hashRing storageNodes sevenMetadata.contentHash fun _ => 2
  before := world
  created := createdRows ((reReplicate knownDigests hashRing storageNodes sevenMetadata.contentHash
    fun _ => 2).run exec.recorded (.start world)).2.history

theorem reaches_repairOnce (hashRing : ConsistentHashRing ChunkHash) (storageNodes : List NodeId)
    (world : World) :
    ∃ after, Reaches exec.semantics world [repairOnce hashRing storageNodes world] after :=
  ⟨_, .call .start (.repaired (runs_recorded (fun _ _ => rfl) _ _))⟩

/-- A repair among active nodes creates two rows, both of active nodes. -/
theorem rows_active_threeNodes :
    (repairOnce threeNodes ["n1", "n2", "n3"] (placedOn "n1" recordedChunk)).created.length = 2 ∧
      (repairOnce threeNodes ["n1", "n2", "n3"] (placedOn "n1" recordedChunk)).RowsActive := by
  obtain ⟨_, run⟩ := reaches_repairOnce threeNodes ["n1", "n2", "n3"] (placedOn "n1" recordedChunk)
  have chooses : (repairOnce threeNodes ["n1", "n2", "n3"]
      (placedOn "n1" recordedChunk)).TargetsActive := by
    have targets : ∀ nodeId ∈ repairTargets knownDigests threeNodes ["n1", "n2", "n3"]
        sevenMetadata.contentHash (placedOn "n1" recordedChunk),
          Active (placedOn "n1" recordedChunk).store nodeId := by decide +kernel
    exact fun _ nodeId target _ => targets nodeId target
  refine ⟨by decide +kernel, ?_⟩
  exact (rows_active.2 run).mpr (List.forall_mem_singleton.mpr chooses) _ List.mem_cons_self

/-- A repair of a chunk that comes before six offline nodes on the ring creates rows of two of
them. -/
theorem rows_inactive_sixOffline :
    ∃ steps after, Reaches exec.semantics (placedOn "n2" sixOffline) steps after ∧
      ¬ ∀ step ∈ steps, step.RowsActive := by
  obtain ⟨after, run⟩ := reaches_repairOnce nineNodes
    ["n1", "n2", "n3", "n4", "n5", "n6", "n7", "n8", "n9"] (placedOn "n2" sixOffline)
  refine ⟨_, after, run, fun active => ?_⟩
  have rows := active _ List.mem_cons_self
  unfold ReplicaStep.RowsActive at rows
  revert rows
  decide +kernel

end DistributedFileStorage.Replication.ReplicationServiceImpl
