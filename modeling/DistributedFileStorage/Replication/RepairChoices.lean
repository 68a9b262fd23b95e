import DistributedFileStorage.Replication.Eligibility

/-!
# The choices of a repair

The nodes that a repair may choose when calls fail (`possibleTargets`) are no overestimate: for each
of them that can receive a replica there is a run that creates a row of it (`may_create_iff`). In
this run the verification reads one sound replica and blames all others, the removals fail but for
the one of the node itself, and the copies fail but for the one to the node.
-/

set_option autoImplicit false

namespace DistributedFileStorage.Replication.ReplicationServiceImpl

open Async Store Services Nodes Placement Relational Program

variable {sha256 : Sha256} {hashRing : ConsistentHashRing ChunkHash} {storageNodes : List NodeId}
  {chunkHash : ChunkHash} {now : NodeId → Time} {origin : World} {nodeId source : NodeId} {α : Type}

/-! ## Runs that may happen -/

/-- The program may resolve to the value, and then leave this moment. -/
abbrev MayResolve (program : Async α) (before : Moment system Unit World) (value : α)
    (after : Moment system Unit World) : Prop :=
  Runs faulty.recorded program before (.ok value) after

theorem recorded_faulty_of_exec (op : Call) (before : Moment system Unit World)
    (outcome : Except Failure op.Result) (after : Moment system Unit World)
    (happens : exec.semantics.recorded op before outcome after) :
    faulty.recorded op before outcome after :=
  Semantics.recorded_mono (fun _ _ _ _ => .inl) op before outcome after happens

/-- What a program does without a fault, it may do. -/
theorem Does.mayResolve {pre : Moment system Unit World → Prop} {program : Async α}
    {resolved : α → Moment system Unit World → Prop} (does : Does pre program resolved)
    {moment : Moment system Unit World} (start : pre moment) :
    ∃ value reached, MayResolve program moment value reached ∧ resolved value reached := by
  obtain ⟨value, reached, run, ends⟩ := Triple.resolves does start
  exact ⟨value, reached, run.mono recorded_faulty_of_exec, ends⟩

variable {kept : List NodeId} {rows created : List ChunkReplicaRecord}

/-- A run of plain calls that leaves the state as it was has left nothing. -/
theorem Leaves.of_runs_same {program : Async α} (calls : program.AllCalls (PlainCall chunkHash))
    {outcome : Except Failure α} {before : Moment system Unit World} {state : World}
    (run : Runs faulty program before.state outcome state) (same : state = before.state)
    (leaves : Leaves origin chunkHash kept rows created before) :
    ∃ after, Runs faulty.recorded program before outcome after ∧
      Leaves origin chunkHash kept rows created after := by
  obtain ⟨after, recorded, reached⟩ := run.exists_recorded before rfl
  have history : createdRows after.history = createdRows before.history :=
    (keeps_createdRows calls (createdRows before.history)).of_runs rfl recorded
  have unchanged : after.state = before.state := reached.trans same
  refine ⟨after, recorded, ?_⟩
  exact ⟨unchanged ▸ leaves.rows, unchanged ▸ leaves.bytes, unchanged ▸ leaves.chunks,
    unchanged ▸ leaves.storageNodes, history.trans leaves.created⟩

/-! ## The verification -/

/-- The verification may blame any replica: the read of it fails. -/
theorem runs_verifyReplica_blames (verified : Verified) (replica : ChunkReplicaRecord)
    (world : World) :
    Runs faulty (verifyReplica sha256 storageNodes chunkHash verified replica) world
      (.ok (verified.corrupted replica.nodeId)) world := by
  by_cases isRead : replica.nodeId ∈ storageNodes ∧ validChunkHash chunkHash = true
  · have run : (verifyReplica sha256 storageNodes chunkHash verified replica).run
        (underPattern fun _ => true) (world, [some (.unavailable, none)]) = _ :=
      run_verifyReplica isRead.2 verified isRead.1 (some (.unavailable, none)) []
    exact runs_of_pattern run
  · exact runs_of_pattern (run_verifyReplica_unread verified isRead [])

/-- It may blame all replicas but those of one node. -/
theorem runs_blameOthers {world : World} (handled : source ∈ storageNodes)
    (intact : Intact sha256 chunkHash world source) (replicas : List ChunkReplicaRecord)
    (verified : Verified) :
    ∃ found, Runs faulty (Program.foldEach (verifyReplica sha256 storageNodes chunkHash) verified
        replicas) world (.ok found) world ∧
      found.corruptedReplicas = verified.corruptedReplicas ++
        (replicas.map ChunkReplicaRecord.nodeId).filter (· ≠ source) := by
  induction replicas generalizing verified with
  | nil => exact ⟨verified, .done _ _, (List.append_nil _).symm⟩
  | cons replica rest ih =>
      by_cases same : replica.nodeId = source
      · have healthy : Healthy sha256 storageNodes chunkHash world replica := by
          rw [Healthy, same]
          exact ⟨handled, intact⟩
        have spared : Runs faulty (verifyReplica sha256 storageNodes chunkHash verified replica)
            world (.ok (verified.healthy replica.nodeId)) world := by
          have run := run_verifyReplica_working sha256 storageNodes chunkHash verified replica world
          rw [judge, if_pos healthy] at run
          exact runs_withFaults_of_run run
        obtain ⟨found, later, blamed⟩ := ih (verified.healthy replica.nodeId)
        refine ⟨found, spared.bind_ok later, blamed.trans ?_⟩
        rw [List.map_cons, List.filter_cons_of_neg (by simp [same])]
        rfl
      · obtain ⟨found, later, blamed⟩ := ih (verified.corrupted replica.nodeId)
        refine ⟨found, (runs_verifyReplica_blames verified replica world).bind_ok later,
          blamed.trans ?_⟩
        rw [List.map_cons, List.filter_cons_of_pos (by simp [same])]
        exact List.append_assoc _ _ _

/-- **A verification may find one sound replica and blame all others.** -/
theorem runs_verifyReplicas_blames {world : World} (handled : source ∈ storageNodes)
    (intact : Intact sha256 chunkHash world source) :
    ∃ health, Runs faulty (verifyReplicas sha256 storageNodes chunkHash) world (.ok health) world ∧
      health.replicaCount = (world.store.getChunkReplicas chunkHash).length ∧
      health.corruptedReplicas = ((world.store.getChunkReplicas chunkHash).map
        ChunkReplicaRecord.nodeId).filter (· ≠ source) := by
  have listed : Runs faulty (store (.getChunkReplicas chunkHash)) world
      (.ok (world.store.getChunkReplicas chunkHash)) world := runs_works rfl
  obtain ⟨found, judges, blamed⟩ := runs_blameOthers handled intact
    (world.store.getChunkReplicas chunkHash) {}
  exact ⟨_, listed.bind_ok (judges.bind_ok (.done _ _)), rfl, blamed⟩

/-! ## The removals -/

/-- The removals may fail for all nodes but one. -/
theorem may_remove (valid : validChunkHash chunkHash = true) (other : nodeId ∉ kept)
    (nodes : List NodeId) {before : Moment system Unit World}
    (leaves : Leaves origin chunkHash kept rows created before) :
    ∃ after, MayResolve (Program.forEach (removeCorrupted storageNodes chunkHash) nodes) before ()
        after ∧
      Leaves origin chunkHash kept
        (rows.filter fun replica => ¬ (replica.nodeId = nodeId ∧ nodeId ∈ nodes)) created
        after := by
  induction nodes generalizing rows before with
  | nil =>
      have all : (rows.filter fun replica => ¬ (replica.nodeId = nodeId ∧ nodeId ∈ [])) = rows :=
        List.filter_eq_self.mpr fun _ _ => by simp
      exact ⟨before, .done _ _, all.symm ▸ leaves⟩
  | cons first rest ih =>
      by_cases here : first = nodeId
      · subst here
        have removes : Does (Leaves origin chunkHash kept rows created)
            (removeCorrupted storageNodes chunkHash first) _ := does_removeCorrupted valid other
        obtain ⟨_, middle, removed, left⟩ := removes.mayResolve leaves
        obtain ⟨after, later, ends⟩ := ih left
        refine ⟨after, removed.bind_ok later, ?_⟩
        rw [List.filter_filter] at ends
        convert ends using 3
        rename_i replica
        by_cases same : replica.nodeId = first <;> simp [same]
      · obtain ⟨middle, removed, left⟩ := leaves.of_runs_same allCalls_removeCorrupted
          (runs_removeCorrupted_fails valid first) rfl
        obtain ⟨after, later, ends⟩ := ih left
        refine ⟨after, removed.bind_ok later, ?_⟩
        simpa [Ne.symm here] using ends

/-! ## The copies -/

/-- The copy is read from the replica that has not been blamed. -/
theorem run_readHealthy_source {corruptedReplicas : List NodeId}
    {replicas : List ChunkReplicaRecord} {world : World} {data : Buffer}
    (valid : validChunkHash chunkHash = true)
    (handled : source ∈ storageNodes) (found : world.bytes source chunkHash = some data)
    (spared : source ∉ corruptedReplicas)
    (blamed : ∀ replica ∈ replicas, replica.nodeId ≠ source → replica.nodeId ∈ corruptedReplicas)
    (listed : source ∈ replicas.map ChunkReplicaRecord.nodeId) :
    (readHealthy storageNodes chunkHash corruptedReplicas replicas).run exec world =
      (.ok (some data), world) := by
  induction replicas with
  | nil => cases listed
  | cons replica rest ih =>
      unfold readHealthy
      by_cases here : replica.nodeId = source
      · rw [here, if_neg spared, if_neg (not_not.mpr handled), run_tryCatch,
          run_bind_ok exec (run_readChunk_found valid found)]
        rfl
      · rw [if_pos (blamed replica List.mem_cons_self here)]
        refine ih (fun other member => blamed other (List.mem_cons_of_mem _ member)) ?_
        exact (List.mem_cons.mp listed).resolve_left (Ne.symm here)

/-- A copy may fail at once. -/
theorem may_writeReplica_fails (valid : validChunkHash chunkHash = true) (data : Buffer)
    {before : Moment system Unit World}
    (leaves : Leaves origin chunkHash kept rows created before) :
    ∃ after, MayResolve (writeReplica storageNodes chunkHash data now nodeId) before () after ∧
      Leaves origin chunkHash kept rows created after := by
  unfold writeReplica
  split
  · obtain ⟨failure, run⟩ : ∃ failure, Runs faulty
        (StorageNodeImpl.writeChunk nodeId chunkHash data) before.state (.error failure)
          before.state := runs_writeChunk_fails valid data nodeId
    obtain ⟨after, recorded, same⟩ := leaves.of_runs_same (allCalls_writeChunk data) run rfl
    exact ⟨after, Runs.attempt_error recorded.bind_error, same⟩
  · exact ⟨before, .done _ _, leaves⟩

/-- A copy without a fault on a node without a row creates one. -/
theorem may_writeReplica_creates (valid : validChunkHash chunkHash = true) (data : Buffer)
    (recorded : chunkHash ∈ origin.store.chunks.keys)
    (receives : Receives storageNodes origin.store nodeId) (other : nodeId ∉ kept)
    (absent : nodeId ∉ rows.map ChunkReplicaRecord.nodeId) {before : Moment system Unit World}
    (leaves : Leaves origin chunkHash kept rows created before) :
    ∃ after, MayResolve (writeReplica storageNodes chunkHash data now nodeId) before () after ∧
      ∃ row ∈ createdRows after.history, row.nodeId = nodeId := by
  have writes : Does (Leaves origin chunkHash kept rows created)
      (StorageNodeImpl.writeChunk nodeId chunkHash data)
      (fun _ => Leaves origin chunkHash kept rows created) := does_writeChunk_leaves valid other
  have reads : Does (Leaves origin chunkHash kept rows created) (store (.getStorageNode nodeId))
      (fun node moment => node = origin.store.getStorageNode nodeId ∧
        Leaves origin chunkHash kept rows created moment) :=
    does_read (.perform (.getStorageNode nodeId)) fun start leaves => by
      have found : (store (.getStorageNode nodeId)).run exec start.state =
        (.ok (start.state.store.getStorageNode nodeId), start.state) := rfl
      rw [found, Database.getStorageNode, leaves.storageNodes]
      rfl
  obtain ⟨_, written, wrote, left⟩ := writes.mayResolve leaves
  obtain ⟨record, looked, read, _, ready⟩ := reads.mayResolve left
  have fresh : (chunkHash, nodeId) ∉ looked.state.store.chunkReplicas.keys := by
    rw [Database.mem_keys_chunkReplicas, ready.rows]
    exact fun ⟨replica, member, same⟩ => absent (same ▸ List.mem_map_of_mem member)
  let replica : ChunkReplicaRecord :=
    { chunkHash := chunkHash, nodeId := nodeId, availabilityZone := zoneOrUnknown record,
      createdAt := now nodeId }
  obtain ⟨db, inserted⟩ : ∃ db, looked.state.store.createChunkReplica replica = .ok db :=
    Database.exists_createChunkReplica_iff.mpr
      ⟨ready.chunks ▸ recorded, ready.storageNodes ▸ receives.2⟩
  have inserts : exec (.store (.createChunkReplica replica)) looked.state =
      (.ok (), looked.state.setStore db) := congrArg looked.state.commit inserted
  let after : Moment system Unit World :=
    looked.next () (.store (.createChunkReplica replica)) (.ok ()) (looked.state.setStore db)
  have records : MayResolve (store (.createChunkReplica replica)) looked () after :=
    Runs.perform_iff.mpr ⟨_, .inl inserts, rfl⟩
  have copies : MayResolve (writeReplica storageNodes chunkHash data now nodeId) before ()
      after := by
    unfold writeReplica
    rw [if_pos receives.1]
    exact Runs.tryCatch_ok (wrote.bind_ok (read.bind_ok records))
  refine ⟨after, copies, replica, ?_, rfl⟩
  have row : createdRow (.store (.createChunkReplica replica)) false looked.state =
      some replica := if_pos ⟨rfl, fresh⟩
  rw [createdRows_next]
  exact List.mem_append_right _ (Option.mem_toList.mpr row)

/-- One of the copies may create its row when the others fail. -/
theorem may_copy (valid : validChunkHash chunkHash = true) (data : Buffer)
    (recorded : chunkHash ∈ origin.store.chunks.keys)
    (receives : Receives storageNodes origin.store nodeId) (other : nodeId ∉ kept)
    (absent : nodeId ∉ rows.map ChunkReplicaRecord.nodeId) {nodes : List NodeId}
    (chosen : nodeId ∈ nodes) {before : Moment system Unit World}
    (leaves : Leaves origin chunkHash kept rows created before) :
    ∃ outcome after, Runs faulty.recorded
        (Program.forEach (writeReplica storageNodes chunkHash data now) nodes) before outcome
        after ∧
      ∃ row ∈ createdRows after.history, row.nodeId = nodeId := by
  induction nodes generalizing before with
  | nil => cases chosen
  | cons first rest ih =>
      by_cases here : nodeId = first
      · subst here
        obtain ⟨middle, copies, row, member, same⟩ : ∃ after, MayResolve
            (writeReplica storageNodes chunkHash data now nodeId) before () after ∧ _ :=
          may_writeReplica_creates valid data recorded receives other absent leaves
        have others : Runs faulty.recorded
            (Program.forEach (writeReplica storageNodes chunkHash data now) rest) middle _ _ :=
          runs_recorded (fun _ _ => .inl rfl) _ _
        refine ⟨_, _, copies.bind_ok others, row, ?_, same⟩
        exact (others.history_prefix.filterMap _).subset member
      · obtain ⟨middle, fails, left⟩ : ∃ after, MayResolve
            (writeReplica storageNodes chunkHash data now first) before () after ∧ _ :=
          may_writeReplica_fails valid data leaves
        obtain ⟨outcome, after, later, created⟩ := ih ((List.mem_cons.mp chosen).resolve_left here)
          left
        exact ⟨outcome, after, fails.bind_ok later, created⟩

/-! ## The repair -/

/-- The nodes without a row, when the rows of one node have been removed. -/
theorem notMem_without {replicas : List ChunkReplicaRecord} (other : NodeId) :
    other ∉ (replicas.filter fun row => row.nodeId ≠ nodeId).map ChunkReplicaRecord.nodeId ↔
      other = nodeId ∨ other ∉ replicas.map ChunkReplicaRecord.nodeId := by
  simp only [List.mem_map, List.mem_filter, decide_eq_true_eq, not_exists, not_and]
  constructor
  · intro absent
    by_cases same : other = nodeId
    · exact .inl same
    · refine .inr ?_
      rintro row member rfl
      exact absent row ⟨member, same⟩ rfl
  · rintro (rfl | absent) row ⟨member, unlike⟩ isOther
    · exact unlike isOther
    · exact absent row member isOther

/-- All nodes but one. -/
theorem length_filter_ne {nodes : List NodeId} (distinct : nodes.Nodup) (member : source ∈ nodes) :
    (nodes.filter (· ≠ source)).length + 1 = nodes.length := by
  have others : nodes.erase source = nodes.filter (· ≠ source) := by
    rw [distinct.erase_eq_filter]
    refine List.filter_congr fun node _ => ?_
    by_cases same : node = source <;> simp [same]
  rw [← others, List.length_erase_of_mem member]
  exact Nat.sub_add_cancel (List.length_pos_of_mem member)

/-- The rows of a blamed node are removed, when all nodes but one are blamed. -/
theorem filter_not_blamed {replicas : List ChunkReplicaRecord} (different : source ≠ nodeId) :
    (replicas.filter fun row => ¬ (row.nodeId = nodeId ∧
        nodeId ∈ (replicas.map ChunkReplicaRecord.nodeId).filter (· ≠ source))) =
      replicas.filter fun row => row.nodeId ≠ nodeId := by
  refine List.filter_congr fun row member => ?_
  by_cases same : row.nodeId = nodeId
  · have isBlamed : nodeId ∈ (replicas.map ChunkReplicaRecord.nodeId).filter (· ≠ source) := by
      rw [← same]
      refine List.mem_filter.mpr ⟨List.mem_map_of_mem member, decide_eq_true ?_⟩
      exact fun isSource => different (isSource.symm.trans same)
    simp only [same, isBlamed, true_and, ne_eq]
  · simp [same]

/-- **A repair may create a row of each node that it may choose**, when the node can receive one. -/
theorem may_create
    (possible : nodeId ∈ possibleTargets sha256 hashRing storageNodes chunkHash origin)
    (receives : Receives storageNodes origin.store nodeId) :
    ∃ outcome reached, Runs faulty.recorded
        (reReplicate sha256 hashRing storageNodes chunkHash now) (.start origin) outcome reached ∧
      ∃ row ∈ createdRows reached.history, row.nodeId = nodeId := by
  obtain ⟨⟨source, sound, different⟩, chosen⟩ := mem_possibleTargets.mp possible
  obtain ⟨valid, recorded⟩ := valid_of_sound sound
  obtain ⟨replica, listed, here, handled, intact⟩ := mem_soundNodes.mp sound
  obtain ⟨health, verifies, count, blamed⟩ : ∃ health, Runs faulty
      (verifyReplicas sha256 storageNodes chunkHash) origin (.ok health) origin ∧ _ :=
    runs_verifyReplicas_blames handled intact
  have start : Leaves origin chunkHash [source] (origin.store.getChunkReplicas chunkHash) []
      (.start origin) := ⟨rfl, fun _ _ => rfl, rfl, rfl, rfl⟩
  obtain ⟨verified, verifying, first⟩ := start.of_runs_same allCalls_verifyReplicas verifies rfl
  have other : nodeId ∉ [source] := fun member => different (List.mem_singleton.mp member).symm
  obtain ⟨removed, removing, second⟩ : ∃ after, MayResolve
      (Program.forEach (removeCorrupted storageNodes chunkHash) health.corruptedReplicas) verified
        () after ∧ _ := may_remove valid other health.corruptedReplicas first
  let left := (origin.store.getChunkReplicas chunkHash).filter fun row => row.nodeId ≠ nodeId
  have isLeft : ((origin.store.getChunkReplicas chunkHash).filter fun row =>
      ¬ (row.nodeId = nodeId ∧ nodeId ∈ health.corruptedReplicas)) = left := by
    rw [blamed]
    exact filter_not_blamed different
  rw [isLeft] at second
  have present : source ∈ (origin.store.getChunkReplicas chunkHash).map
      ChunkReplicaRecord.nodeId := here ▸ List.mem_map_of_mem listed
  have current : health.replicaCount - health.corruptedReplicas.length = 1 := by
    have others := length_filter_ne (Database.nodup_getChunkReplicas chunkHash) present
    rw [← blamed, List.length_map, ← count] at others
    omega
  have leftNodes : ∀ other, other ∉ left.map ChunkReplicaRecord.nodeId ↔
      other = nodeId ∨ other ∉ (origin.store.getChunkReplicas chunkHash).map
        ChunkReplicaRecord.nodeId := notMem_without
  obtain ⟨data, held, digest⟩ := intact
  have reads : Does (Leaves origin chunkHash [source] left [])
      (readHealthy storageNodes chunkHash health.corruptedReplicas left)
      (fun read moment => read = some data ∧ Leaves origin chunkHash [source] left [] moment) := by
    refine does_read (allCalls_readHealthy _ _) fun start leaves => ?_
    refine run_readHealthy_source valid handled ?_ ?_ ?_ ?_
    · exact (leaves.bytes source (List.mem_singleton_self _)).trans held
    · rw [blamed]
      exact fun member => of_decide_eq_true (List.mem_filter.mp member).2 rfl
    · intro row member unlike
      rw [blamed]
      exact List.mem_filter.mpr ⟨List.mem_map_of_mem (List.mem_of_mem_filter member),
        decide_eq_true unlike⟩
    · by_contra absent
      exact ((leftNodes source).mp absent).elim different fun gone => gone present
  obtain ⟨_, listing, lists, rfl, third⟩ := does_getChunkReplicas.mayResolve second
  obtain ⟨_, reading, reads, rfl, fourth⟩ := reads.mayResolve third
  have chosen' : nodeId ∈ ((hashRing.getNodes chunkHash (replicationFactor * 3 : ℕ)).filter
      fun other => other ∉ left.map ChunkReplicaRecord.nodeId).take (replicationFactor - 1) := by
    simp only [leftNodes]
    exact chosen
  obtain ⟨outcome, reached, copies, creates⟩ := may_copy valid data recorded receives other
    ((leftNodes nodeId).mpr (.inl rfl)) chosen' fourth
  refine ⟨outcome, reached, verifying.bind_ok (removing.bind_ok ?_), creates⟩
  unfold restoreReplicas
  dsimp only
  rw [current, if_neg (by decide)]
  exact lists.bind_ok (reads.bind_ok copies)

/-- **Which rows a repair may create**, when calls may fail. -/
theorem may_create_iff :
    (∃ created after, Creates faulty origin
        (.reReplicate sha256 hashRing storageNodes chunkHash now) created after ∧
      ∃ row ∈ created, row.nodeId = nodeId) ↔
    nodeId ∈ possibleTargets sha256 hashRing storageNodes chunkHash origin ∧
      Receives storageNodes origin.store nodeId := by
  constructor
  · rintro ⟨created, after, creates, row, member, rfl⟩
    cases creates with
    | @repaired _ _ _ _ _ outcome reached repairs =>
        have triple : Triple faulty.recorded (· = .start origin)
            (reReplicate sha256 hashRing storageNodes chunkHash now)
            (fun _ => CreatesOn origin fun nodeId =>
              nodeId ∈ possibleTargets sha256 hashRing storageNodes chunkHash origin ∧
                Receives storageNodes origin.store nodeId) _ :=
          keeps_reReplicate_createsOn fun _ possible able => ⟨possible, able⟩
        have ends := triple rfl repairs
        cases outcome with
        | ok value => exact ends.created row member
        | error failure => exact ends.created row member
  · rintro ⟨possible, receives⟩
    obtain ⟨outcome, reached, repairs, row, member, same⟩ := may_create possible receives
    exact ⟨_, _, .repaired repairs, row, member, same⟩

end DistributedFileStorage.Replication.ReplicationServiceImpl
