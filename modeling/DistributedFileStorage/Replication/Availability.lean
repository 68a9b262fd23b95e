import DistributedFileStorage.Replication.QuorumOutcomes

/-!
# When a chunk can be placed

The selection sees twice as many candidates as it needs, and takes three active ones of them whether
there is a handle on them or not. So usable nodes that come later on the ring do not help, and nodes
without a handle take places. Without a fault a call is accepted exactly when three of the
candidates are active and there are handles on two of the three that are taken (`accepts_iff`).
-/

set_option autoImplicit false

namespace DistributedFileStorage.Replication.ReplicationServiceImpl

open Async Store Services Nodes Placement Relational Sequences

/-! ## Writes without a fault -/

section Writes

variable {ι : Type} {node : ι → NodeId} {chunkHash : ChunkHash}
  {chunkData : Buffer} {world : World} {moment : Moment writing ι (World × WriteProgress)}

/-- A call of a write changes the replica rows only. -/
theorem WriteRule.tables {nodeId : NodeId} {calls : List (WriteEvent ι)} {op : Call}
    (rule : WriteRule chunkHash chunkData nodeId calls (.inl op)) {before after : World}
    {outcome : Except Failure op.Result} (happens : faulty op before outcome after) :
    after.store.chunks = before.store.chunks ∧
      after.store.storageNodes = before.store.storageNodes := by
  have disk : ∀ other op, (exec (.disk other op) before).2.store.chunks = before.store.chunks ∧
      (exec (.disk other op) before).2.store.storageNodes = before.store.storageNodes := by
    intro other op
    rw [exec_disk_store]
    exact ⟨rfl, rfl⟩
  rcases happens with works | ⟨_, _, damage, rfl⟩
  · have reached : after = (exec op before).2 := (congrArg Prod.snd works).symm
    subst reached
    cases rule with
    | mkdir => exact disk _ _
    | countChunk => exact disk _ _
    | writeFile made => exact disk _ _
    | createChunkReplica replica hash same =>
        rcases World.commit_cases works with ⟨_, _, _, reached⟩ | ⟨db, created, _, reached⟩
        · rw [reached]
          exact ⟨rfl, rfl⟩
        · rw [reached]
          exact Database.tables_createChunkReplica created
  · have same := op.store_leaves damage before
    exact ⟨congrArg (fun db => db.chunks) same, congrArg (fun db => db.storageNodes) same⟩

variable [DecidableEq ι]

/-- The writes change the replica rows only. -/
theorem WriteRun.tables {origin : World × WriteProgress}
    (run : WriteRun node chunkHash chunkData origin moment) :
    moment.state.1.store.chunks = origin.1.store.chunks ∧
      moment.state.1.store.storageNodes = origin.1.store.storageNodes := by
  refine run.invariant (fun state => state.1.store.chunks = origin.1.store.chunks ∧
    state.1.store.storageNodes = origin.1.store.storageNodes) ⟨rfl, rfl⟩ ?_
  rintro history task (op | update) before outcome after rule happens ⟨chunks, nodes⟩
  · obtain ⟨sameChunks, sameNodes⟩ := rule.tables happens.1
    exact ⟨sameChunks.trans chunks, sameNodes.trans nodes⟩
  · rw [happens.2]
    exact ⟨chunks, nodes⟩

/-- The call has done what it does without a fault. -/
def Works (event : WriteEvent ι) : Prop :=
  writer.semantics event.op event.before event.outcome event.after

/-- A subdirectory that a write has created stays. -/
theorem WriteRun.directory {origin : World × WriteProgress} {nodeId : NodeId}
    (run : WriteRun node chunkHash chunkData origin moment) {event : WriteEvent ι}
    (member : event ∈ moment.history) (works : Works event)
    (created : event.op = .inl (.disk nodeId (.mkdir (chunkPrefix chunkHash)))) :
    chunkPrefix chunkHash ∈ (moment.state.1.nodes nodeId).disk.directories := by
  refine run.stays (fun world => chunkPrefix chunkHash ∈ (world.nodes nodeId).disk.directories)
    (fun _ _ _ touches => fun present => touches.directories nodeId present) member ?_
  obtain ⟨task, op, outcome, before, after⟩ := event
  dsimp only at created
  subst created
  have made : writer (.inl (.disk nodeId (.mkdir (chunkPrefix chunkHash)))) before =
      (outcome, after) := works
  have reached : after = (writer _ before).2 := (congrArg Prod.snd made).symm
  rw [reached]
  show _ ∈ ((before.1.setNode nodeId _).nodes nodeId).disk.directories
  rw [World.nodes_setNode, if_pos rfl]
  exact Disk.mem_directories_mkdir _ _

/-- **Without a fault no call of a write fails**, when the chunk and the nodes have their rows. -/
theorem not_fails_of_works (run : WriteRun node chunkHash chunkData (world, {}) moment)
    (recorded : chunkHash ∈ world.store.chunks.keys)
    (registered : ∀ task, node task ∈ world.store.storageNodes.keys)
    (works : ∀ event ∈ moment.history, Works event) {event : WriteEvent ι}
    (member : event ∈ moment.history) : event.fails = false := by
  obtain ⟨first, firstRun, prior, state, rule, _⟩ := run.exists_prior member
  have earlierRun : WriteRun node chunkHash chunkData (world, {}) first := firstRun
  have made := works event member
  obtain ⟨task, op, outcome, before, after⟩ := event
  dsimp only at rule state
  have outcomes : (writer op before).1 = outcome := congrArg Prod.fst made
  have settles : ∀ value, (writer op before).1 = .ok value →
      (⟨task, op, outcome, before, after⟩ : WriteEvent ι).fails = false := by
    intro value ok
    obtain rfl : outcome = .ok value := outcomes.symm.trans ok
    rfl
  cases rule with
  | mkdir => exact settles () rfl
  | countChunk => exact settles () rfl
  | pushLocation location => exact settles () rfl
  | countSuccess => exact settles () rfl
  | writeFile earlierMade =>
      obtain ⟨creating, own, _, created⟩ := earlierMade
      have old := (mem_callsOf.mp own).1
      have present := earlierRun.directory old (works creating (prior old)) created
      rw [state] at present
      have inside : (getChunkPath chunkHash).1 ∈ (before.1.nodes (node task)).disk.directories :=
        present
      obtain ⟨disk, written, _⟩ := Disk.exists_writeFile inside chunkData
      exact settles () (congrArg (fun result => (before.1.flush (node task) result).1) written)
  | createChunkReplica replica hash isNode =>
      obtain ⟨chunks, nodes⟩ := earlierRun.tables
      rw [state] at chunks nodes
      obtain ⟨db, created⟩ := Database.exists_createChunkReplica_iff.mpr
        ⟨hash ▸ chunks ▸ recorded, isNode ▸ nodes ▸ registered task⟩
      exact settles () (congrArg (fun result => (before.1.commit result).1) created)

/-- A replica that is recorded without a fault is one of a chunk that has a row. -/
theorem recorded_of_works (run : WriteRun node chunkHash chunkData (world, {}) moment)
    {event : WriteEvent ι} (member : event ∈ moment.history) (works : Works event) {nodeId : NodeId}
    (records : recordsReplica nodeId event = true) : chunkHash ∈ world.store.chunks.keys := by
  obtain ⟨first, firstRun, _, state, rule, _⟩ := run.exists_prior member
  have earlierRun : WriteRun node chunkHash chunkData (world, {}) first := firstRun
  obtain ⟨task, op, outcome, before, after⟩ := event
  dsimp only at rule state
  cases rule with
  | mkdir => cases records
  | countChunk => cases records
  | pushLocation location => cases records
  | countSuccess => cases records
  | writeFile made => cases records
  | createChunkReplica replica hash isNode =>
      simp only [recordsReplica, Bool.and_eq_true, decide_eq_true_eq, Bool.not_eq_true'] at records
      have made : before.1.commit (before.1.store.createChunkReplica replica) =
          (outcome, after.1) := congrArg (fun made => (made.1, made.2.1)) works
      rcases World.commit_cases made with ⟨_, _, rfl, _⟩ | ⟨db, created, _, _⟩
      · cases records.2
      · have chunks := earlierRun.tables.1
        rw [state] at chunks
        exact hash ▸ chunks ▸ (Database.exists_createChunkReplica_iff.mp ⟨db, created⟩).1

end Writes

/-! ## Calls without a fault -/

section Calls

variable {hashRing : ConsistentHashRing ChunkHash} {storageNodes : List NodeId}
  {chunkHash : ChunkHash} {chunkData : Buffer} {timestamp createdAt : NodeId → Time}
  {world : World} {selected : List StorageNodeInfo}
  {settled : Pool writing (Fin (handledNodes storageNodes selected).length) Unit}
  {reached : Moment writing (Fin (handledNodes storageNodes selected).length)
    (World × WriteProgress)}

theorem withLocals_faulty_of_exec {op : writing.Op} {before after : World × WriteProgress}
    {outcome : writing.Outcome (writing.Result op)}
    (happens : writer.semantics op before outcome after) :
    Semantics.withLocals faulty WriteProgress op before outcome after := by
  rw [← withLocals_semantics] at happens
  exact Semantics.withLocals_mono (fun _ _ _ _ => .inl) op before outcome after happens

/-- **Without a fault both steps succeed on the nodes with a handle**, when the chunk has a row. -/
theorem length_succeeded_of_works (valid : validChunkHash chunkHash = true)
    (active : ∀ nodeInfo ∈ selected, Active world.store nodeInfo.nodeId)
    (writes : PoolRuns writer.semantics
      (writePromises chunkHash chunkData timestamp createdAt (handledNodes storageNodes selected),
        .start (world, {})) (settled, reached))
    (all : ∀ index, (settled index).isSettled = true) :
    (succeeded storageNodes reached.history selected).length =
      if chunkHash ∈ world.store.chunks.keys then (handledNodes storageNodes selected).length
      else 0 := by
  have faults := Pool.runs_mono (fun _ _ _ _ => withLocals_faulty_of_exec) writes
  obtain ⟨run, settles⟩ := writeRun_of_writes faults all
  have works : ∀ event ∈ reached.history, Works event := by
    intro event member
    rcases Pool.happens_of_runs writes event member with old | happens
    · cases old
    · exact happens
  split
  · rename_i recorded
    have registered : ∀ index, ((handledNodes storageNodes selected).get index).nodeId ∈
        world.store.storageNodes.keys := by
      intro index
      have member := List.mem_of_mem_filter
        (List.get_mem (handledNodes storageNodes selected) index)
      obtain ⟨row, found, _⟩ := active _ member
      exact Table.mem_keys.mpr ⟨row, Table.find?_eq_some_iff.mp found⟩
    rw [succeeded_eq, List.filter_eq_self.mpr]
    intro nodeInfo member
    obtain ⟨index, rfl⟩ := List.get_of_mem member
    have handled := List.of_mem_filter (List.get_mem (handledNodes storageNodes selected) index)
    rw [decide_eq_true_eq, writeOutcome_eq_bothSucceed]
    refine ⟨of_decide_eq_true handled, ?_⟩
    rcases (settles index).failed valid with both | ⟨event, own, fails⟩
    · rw [List.any_eq_true, List.any_eq_true] at both ⊢
      obtain ⟨⟨write, ownWrite, writes⟩, record, ownRecord, records⟩ := both
      exact ⟨⟨write, (mem_callsOf.mp ownWrite).1, writes⟩, record, (mem_callsOf.mp ownRecord).1,
        records⟩
    · have unfailing := not_fails_of_works run recorded registered works (mem_callsOf.mp own).1
      rw [unfailing] at fails
      cases fails
  · rename_i unrecorded
    rw [List.length_eq_zero_iff, succeeded, List.filter_eq_nil_iff]
    intro nodeInfo _ both
    rw [decide_eq_true_eq, writeOutcome_eq_bothSucceed, List.any_eq_true, List.any_eq_true] at both
    obtain ⟨_, _, event, member, records⟩ := both
    exact unrecorded (recorded_of_works run member (works event member) records)

/-- A call without a fault settles, and does not reject. -/
def Accepts (hashRing : ConsistentHashRing ChunkHash) (storageNodes : List NodeId)
    (chunkHash : ChunkHash) (chunkData : Buffer) (timestamp createdAt : NodeId → Time)
    (world : World) : Prop :=
  (∃ outcome after, ReplicatesChunk hashRing storageNodes exec.semantics chunkHash chunkData
    timestamp createdAt world outcome after) ∧
  ∀ outcome after, ReplicatesChunk hashRing storageNodes exec.semantics chunkHash chunkData
    timestamp createdAt world outcome after → ∃ locations, outcome = .ok locations

/-- The chunk has a row, three candidates are active, and there are handles on two of the three that
come first when the first of each zone are taken before the others. -/
structure Placeable (hashRing : ConsistentHashRing ChunkHash) (storageNodes : List NodeId)
    (chunkHash : ChunkHash) (db : Database) : Prop where
  recorded : chunkHash ∈ db.chunks.keys
  active : 3 ≤ (candidates hashRing db chunkHash).length
  handled : 2 ≤ (((leadersFirst StorageNodeRecord.availabilityZone
    (candidates hashRing db chunkHash)).take 3).filter fun node => node.nodeId ∈ storageNodes).length

theorem length_handledNodes :
    (handledNodes storageNodes (selectedNodes hashRing world.store chunkHash)).length =
      (((leadersFirst StorageNodeRecord.availabilityZone (candidates hashRing world.store
        chunkHash)).take 3).filter fun node => node.nodeId ∈ storageNodes).length := by
  rw [handledNodes, selectedNodes_eq, List.filter_map, List.length_map]
  rfl

/-- A call without a fault has settled: the nodes on which both steps have succeeded are a quorum
exactly when the chunk can be placed. -/
theorem quorum_iff_placeable (valid : validChunkHash chunkHash = true)
    (same : selected = selectedNodes hashRing world.store chunkHash)
    (enough : replicationFactor ≤ selected.length)
    (writes : PoolRuns writer.semantics
      (writePromises chunkHash chunkData timestamp createdAt (handledNodes storageNodes selected),
        .start (world, {})) (settled, reached))
    (all : ∀ index, (settled index).isSettled = true) :
    (∃ locations, quorumResult reached.state.2 = .ok locations) ↔
      Placeable hashRing storageNodes chunkHash world.store := by
  subst same
  have faults := Pool.runs_mono (fun _ _ _ _ => withLocals_faulty_of_exec) writes
  rw [quorumResult_ok_iff, successCount_eq nodup_selectedNodes faults all,
    length_succeeded_of_works valid (fun _ => active_of_mem_selectedNodes) writes all]
  rw [length_selectedNodes, le_min_iff] at enough
  constructor
  · intro counted
    split at counted
    · rename_i recorded
      exact ⟨recorded, enough.2, length_handledNodes ▸ counted⟩
    · cases counted
  · intro placeable
    rw [if_pos placeable.recorded, length_handledNodes]
    exact placeable.handled

/-- **A call without a fault is accepted exactly when the chunk can be placed.** -/
theorem accepts_iff (valid : validChunkHash chunkHash = true) :
    Accepts hashRing storageNodes chunkHash chunkData timestamp createdAt world ↔
      Placeable hashRing storageNodes chunkHash world.store := by
  have selects : Runs exec.semantics (selectStorageNodes hashRing chunkHash replicationFactor) world
      (.ok (selectedNodes hashRing world.store chunkHash)) world :=
    runs_semantics_iff.mpr (run_selectStorageNodes hashRing chunkHash world)
  by_cases enough : replicationFactor ≤ (selectedNodes hashRing world.store chunkHash).length
  · have total : ∀ op state, ∃ outcome after, writer.semantics op state outcome after :=
      fun op state => ⟨(writer op state).1, (writer op state).2, rfl⟩
    obtain ⟨settled, reached, writes, all⟩ := Pool.exists_all_settled total
      (writePromises chunkHash chunkData timestamp createdAt (handledNodes storageNodes
        (selectedNodes hashRing world.store chunkHash))) (.start (world, {}))
    have call := ReplicatesChunk.written selects enough (withLocals_semantics exec _ ▸ writes) all
    constructor
    · rintro ⟨_, accepts⟩
      exact (quorum_iff_placeable valid rfl enough writes all).mp (accepts _ _ call)
    · intro placeable
      refine ⟨⟨_, _, call⟩, fun outcome after replicates => ?_⟩
      cases replicates with
      | unselected fails =>
          have made := (runs_semantics_iff.mp selects).symm.trans (runs_semantics_iff.mp fails)
          cases (Prod.mk.inj made).1
      | insufficient found few =>
          have made := (runs_semantics_iff.mp selects).symm.trans (runs_semantics_iff.mp found)
          obtain ⟨chosen, rfl⟩ := Prod.mk.inj made
          obtain rfl := Except.ok.inj chosen
          exact absurd enough (Nat.not_le.mpr few)
      | written found enough writes all =>
          have made := (runs_semantics_iff.mp selects).symm.trans (runs_semantics_iff.mp found)
          obtain ⟨chosen, rfl⟩ := Prod.mk.inj made
          obtain rfl := Except.ok.inj chosen
          rw [withLocals_semantics] at writes
          exact (quorum_iff_placeable valid rfl enough writes all).mpr placeable
  · refine iff_of_false (fun accepts => ?_) fun placeable => enough ?_
    · obtain ⟨_, settles⟩ := accepts
      obtain ⟨_, resolved⟩ := settles _ _ (.insufficient selects (Nat.not_le.mp enough))
      cases resolved
    · rw [length_selectedNodes]
      exact Nat.le_min.mpr ⟨Nat.le_refl _, placeable.active⟩

/-- Two of three nodes with a handle are enough. -/
theorem accepts_iff_two_handles :
    Accepts threeNodes ["n1", "n2"] sevenMetadata.contentHash [7] (fun _ => 1) (fun _ => 1)
      recordedChunk :=
  (accepts_iff (by decide)).mpr ⟨by decide +kernel, by decide +kernel, by decide +kernel⟩

end Calls

/-! ## Nine nodes -/

/-- SHA-256 of the virtual nodes of nine nodes. -/
def nineNodeHashes (virtualNode : String) : ChunkHash :=
  (([("n1:vnode:0", "ebc19e45cfa7953b7e4db60eab4fc64e3d4101955f1f23819846903afc5e57ec"),
      ("n2:vnode:0", "c0040a9ce730c38ba38bd778ece0022638fab6280ead32d96aa8212ccb00fccc"),
      ("n3:vnode:0", "c9591b70c199aec76df8549b4d55b5239f05e59e3b837355ea222fe90e1c4c43"),
      ("n4:vnode:0", "b20a80cf6b815db36dd15ed48515224d0df9043d37ea64bf10b5ee49bb5a4b0d"),
      ("n5:vnode:0", "8eed9239df0a1898d8fbd240ce0d88fc18907634ea98e42cb4061622ca0d1a3f"),
      ("n6:vnode:0", "1c6d7469f4b2f186e537501d227ba0926c5749f121832949bd238b26d8381098"),
      ("n7:vnode:0", "1f4257017fc7b8f21ab0fc85b9ddbe4b0c616a8bcccdc1b7c82d175ec1bc8761"),
      ("n8:vnode:0", "642b3614f7aaa0f76d2998a3987af668105ce528b28730c9d0a039bd38613c6a"),
      ("n9:vnode:0", "d65934b288c3acaa8332829031eeaf73f1a57f64ffb517e3af5f7aae3bd8f2e7")].find?
    fun entry => entry.1 = virtualNode).map Prod.snd).getD ""

def nineNodes : ConsistentHashRing ChunkHash :=
  ["n1", "n2", "n3", "n4", "n5", "n6", "n7", "n8", "n9"].foldl
    (fun hashRing nodeId => hashRing.addNode nineNodeHashes nodeId (some 1)) (.new 150)

/-- The byte 7 as a chunk that has been recorded, next to nine nodes of which six are offline. -/
def sixOffline : World :=
  .ofStore
    { Database.empty with
      storageNodes :=
        ((["n2", "n3", "n4"].map registered) ++
          ["n1", "n5", "n6", "n7", "n8", "n9"].map fun nodeId =>
            { registered nodeId with status := .offline }).foldl Table.insertIfAbsent (.empty _)
      chunks := (Table.empty _).insertIfAbsent
        { chunkHash := sevenMetadata.contentHash, size := 1, encryptedSize := 1,
          referenceCount := 1, createdAt := 0 }
      replicaChunk := by simp [Database.empty]
      replicaNode := by simp [Database.empty] }

/-- The nodes of a ring that are active and have a handle. -/
def usableNodes (hashRing : ConsistentHashRing ChunkHash) (storageNodes : List NodeId)
    (db : Database) : List NodeId :=
  hashRing.physicalNodes.rows.filter fun nodeId =>
    nodeId ∈ storageNodes ∧ ((db.getStorageNode nodeId).map StorageNodeRecord.status) = some .active

/-- The three usable nodes come after six nodes that are offline, and the call rejects. -/
theorem rejects_sixOffline :
    validChunkHash sevenMetadata.contentHash = true ∧
      sevenMetadata.contentHash ∈ sixOffline.store.chunks.keys ∧
      3 ≤ (usableNodes nineNodes ["n2", "n3", "n4"] sixOffline.store).length ∧
      ¬ Accepts nineNodes ["n2", "n3", "n4"] sevenMetadata.contentHash [7] (fun _ => 1) (fun _ => 1)
        sixOffline := by
  refine ⟨by decide, by decide +kernel, by decide +kernel, fun accepts => ?_⟩
  have selects : Runs exec.semantics (selectStorageNodes nineNodes sevenMetadata.contentHash
      replicationFactor) sixOffline (.ok (selectedNodes nineNodes sixOffline.store
        sevenMetadata.contentHash)) sixOffline :=
    runs_semantics_iff.mpr (run_selectStorageNodes nineNodes _ sixOffline)
  obtain ⟨_, resolved⟩ := accepts.2 _ _ (.insufficient selects (by decide +kernel))
  cases resolved

end DistributedFileStorage.Replication.ReplicationServiceImpl
