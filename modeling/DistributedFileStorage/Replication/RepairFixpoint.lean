import DistributedFileStorage.Replication.RepairCompleteness

/-!
# A second repair

A repair that follows another one changes nothing (`reReplicate_twice`), when the store has rejected
nothing in the first one. If that one had a sound replica to copy from, only sound replicas are
left, and its targets that still miss one are those without a handle; the second repair chooses
exactly these (`repairTargets_repaired`). If it had none, no row is left that the second one could
delete.
-/

set_option autoImplicit false

namespace DistributedFileStorage.Replication.ReplicationServiceImpl

open Async Store Services Nodes Placement Relational Sequences Program

variable {sha256 : Sha256} {hashRing : ConsistentHashRing ChunkHash} {storageNodes : List NodeId}
  {chunkHash : ChunkHash} {now : NodeId → Time} {world : World} {nodeId : NodeId} {α : Type}

/-! ## Repairs that change nothing -/

/-- The program leaves the state as it is, however it ends. -/
abbrev Rests (program : Async α) (world : World) : Prop :=
  Keeps exec.semantics (· = world) program

/-- A repair changes nothing when its verification is followed by calls that change nothing. -/
theorem rests_reReplicate
    (repairs : ∀ health : ReplicaHealth,
      health.corruptedReplicas = brokenNodes sha256 storageNodes chunkHash world →
      health.replicaCount - health.corruptedReplicas.length =
        (soundNodes sha256 storageNodes chunkHash world).length →
          Rests (repair hashRing storageNodes chunkHash now health) world) :
    Rests (reReplicate sha256 hashRing storageNodes chunkHash now) world := by
  refine Triple.bind ((triple_verifyReplicas_exact sha256 storageNodes chunkHash world).consequence
    (fun _ => id) (fun _ _ => id) fun _ => False.elim) fun health => .of_fact ?_
  rintro ⟨corrupted, current⟩
  exact repairs health corrupted current

/-- The listing of the replicas changes nothing. -/
theorem lists_getChunkReplicas :
    Triple exec.semantics (· = world) (store (.getChunkReplicas chunkHash))
      (fun replicas after => replicas = world.store.getChunkReplicas chunkHash ∧ after = world)
      (· = world) := by
  refine Triple.perform fun start outcome after same happens => ?_
  subst same
  obtain ⟨rfl, rfl⟩ := Prod.mk.inj happens
  exact ⟨rfl, rfl⟩

/-- **A repair of sound replicas changes nothing when it has no handle on its targets.** -/
theorem rests_of_whole (whole : brokenNodes sha256 storageNodes chunkHash world = [])
    (unhandled : ∀ nodeId ∈ repairTargets sha256 hashRing storageNodes chunkHash world,
      nodeId ∉ storageNodes) :
    Rests (reReplicate sha256 hashRing storageNodes chunkHash now) world := by
  refine rests_reReplicate fun health corrupted current => ?_
  have listed : (world.store.getChunkReplicas chunkHash).map ChunkReplicaRecord.nodeId =
      soundNodes sha256 storageNodes chunkHash world := by
    rw [soundNodes, soundReplicas, List.filter_eq_self.mpr]
    intro replica member
    by_contra broken
    have blamed : replica.nodeId ∈ brokenNodes sha256 storageNodes chunkHash world :=
      List.mem_map_of_mem (List.mem_filter.mpr ⟨member, by simpa using broken⟩)
    rw [whole] at blamed
    cases blamed
  unfold repair restoreReplicas
  dsimp only
  rw [current, corrupted, whole]
  refine .bind .pure fun _ => ?_
  split
  · exact .pure
  · refine Triple.bind lists_getChunkReplicas fun replicas => .of_fact ?_
    rintro rfl
    rw [listed]
    refine .bind ((keeps_readHealthy _ _).mono fun _ _ _ _ => .inl) fun chunkData => ?_
    cases chunkData with
    | none => exact .throw fun _ => id
    | some data =>
        refine .forEach fun nodeId target => ?_
        rw [writeReplica, if_neg (unhandled nodeId target)]
        exact .pure fun _ => id

/-! ## Chunks without a sound replica -/

/-- No copy is read when all replicas are blamed. -/
theorem readHealthy_eq_none {corruptedReplicas : List NodeId} {replicas : List ChunkReplicaRecord}
    (blamed : ∀ replica ∈ replicas, replica.nodeId ∈ corruptedReplicas) :
    readHealthy storageNodes chunkHash corruptedReplicas replicas = pure none := by
  induction replicas with
  | nil => rfl
  | cons replica rest ih =>
      obtain ⟨here, others⟩ := List.forall_mem_cons.mp blamed
      rw [readHealthy, if_pos here, ih others]

/-- A chunk without a sound replica has broken ones only. -/
theorem blamed_of_unsound (unsound : soundNodes sha256 storageNodes chunkHash world = [])
    {replica : ChunkReplicaRecord}
    (member : replica ∈ world.store.getChunkReplicas chunkHash) :
    replica.nodeId ∈ brokenNodes sha256 storageNodes chunkHash world := by
  refine mem_brokenNodes.mpr ⟨replica, member, rfl, fun healthy => ?_⟩
  have sound : replica.nodeId ∈ soundNodes sha256 storageNodes chunkHash world :=
    mem_soundNodes.mpr ⟨replica, member, rfl, healthy⟩
  rw [unsound] at sound
  cases sound

/-- The restoration of a chunk rejects when all replicas that are left have been blamed. -/
theorem rejects_restoreReplicas {health : ReplicaHealth} {left : World → Prop}
    (few : health.replicaCount - health.corruptedReplicas.length = 0)
    (blamed : ∀ after, left after → ∀ replica ∈ after.store.getChunkReplicas chunkHash,
      replica.nodeId ∈ health.corruptedReplicas) :
    Triple exec.semantics left (restoreReplicas hashRing storageNodes chunkHash health now)
      (fun _ _ => False) left := by
  unfold restoreReplicas
  dsimp only
  rw [few, if_neg (by decide)]
  refine .of_start fun start holds => ?_
  refine Triple.bind (lists_getChunkReplicas.consequence (fun _ => id) (fun _ _ => id) ?_)
    fun replicas => .of_fact ?_
  · rintro _ rfl
    exact holds
  · rintro rfl
    rw [readHealthy_eq_none (blamed start holds)]
    refine .throw ?_
    rintro _ rfl
    exact holds

/-- A row that a repair leaves although it has blamed the replica: there is a handle on the node,
and the hash is malformed, so that the node does not delete the chunk. -/
def Stuck (storageNodes : List NodeId) (chunkHash : ChunkHash) (nodeId : NodeId) : Prop :=
  nodeId ∈ storageNodes ∧ validChunkHash chunkHash = false

/-- A node does not delete a chunk whose hash is malformed, and then the row stays. -/
theorem rests_removeCorrupted (stuck : Stuck storageNodes chunkHash nodeId) :
    Triple exec.semantics (· = world) (removeCorrupted storageNodes chunkHash nodeId)
      (fun _ => (· = world)) (fun _ => False) := by
  have invalid : ¬ validChunkHash chunkHash = true := by simp [stuck.2]
  have rejects : Triple exec.semantics (· = world) (StorageNodeImpl.deleteChunk nodeId chunkHash)
      (fun _ _ => False) (· = world) := by
    rw [StorageNodeImpl.deleteChunk, StorageNodeImpl.validateChunkHash, if_neg invalid]
    exact .through (fun _ _ => False) (.throw fun _ => id) fun _ => .of_false
  unfold removeCorrupted
  simp only [if_pos stuck.1]
  exact .attempt (rejects.bind fun _ => .of_false)

/-- The deletion of a row. -/
theorem deletes_deleteChunkReplica :
    Triple exec.semantics (fun before => before.store = world.store)
      (store (.deleteChunkReplica chunkHash nodeId))
      (fun _ after => ∀ replica ∈ after.store.getChunkReplicas chunkHash,
        replica ∈ world.store.getChunkReplicas chunkHash ∧ replica.nodeId ≠ nodeId)
      (fun _ => False) := by
  refine Triple.perform fun before outcome after same happens => ?_
  obtain ⟨rfl, rfl⟩ := Prod.mk.inj happens
  intro replica member
  rw [World.store_setStore, same, Database.getChunkReplicas_deleteChunkReplica] at member
  simpa using member

/-- **One removal** deletes the row of its node, or the row is stuck. -/
theorem removes_removeCorrupted :
    Triple exec.semantics (· = world) (removeCorrupted storageNodes chunkHash nodeId)
      (fun _ after => ∀ replica ∈ after.store.getChunkReplicas chunkHash,
        replica ∈ world.store.getChunkReplicas chunkHash ∧
          (replica.nodeId = nodeId → Stuck storageNodes chunkHash nodeId))
      (fun _ => False) := by
  have removed : ∀ after : World, (∀ replica ∈ after.store.getChunkReplicas chunkHash,
      replica ∈ world.store.getChunkReplicas chunkHash ∧ replica.nodeId ≠ nodeId) →
      ∀ replica ∈ after.store.getChunkReplicas chunkHash,
        replica ∈ world.store.getChunkReplicas chunkHash ∧
          (replica.nodeId = nodeId → Stuck storageNodes chunkHash nodeId) :=
    fun after others replica member =>
      ⟨(others replica member).1, fun here => absurd here (others replica member).2⟩
  have deletes : ∀ start : World, start = world → start.store = world.store :=
    fun _ same => congrArg World.store same
  by_cases stuck : Stuck storageNodes chunkHash nodeId
  · refine (rests_removeCorrupted stuck).consequence (fun _ => id) ?_ fun _ => id
    rintro _ after rfl replica member
    exact ⟨member, fun _ => stuck⟩
  · unfold removeCorrupted
    by_cases handled : nodeId ∈ storageNodes
    · have valid : validChunkHash chunkHash = true := by
        by_contra invalid
        exact stuck ⟨handled, by simpa using invalid⟩
      simp only [if_pos handled]
      have emptied : Triple exec.semantics (· = world)
          (StorageNodeImpl.deleteChunk nodeId chunkHash)
          (fun _ after => after.store = world.store) (fun _ => False) :=
        (StorageNodeImpl.triple_deleteChunk valid).consequence (fun _ => id)
          (fun _ _ sets => sets.store) fun _ => id
      exact .attempt (Triple.consequence (emptied.bind fun _ => deletes_deleteChunkReplica)
        (fun _ => id) (fun _ => removed) fun _ => False.elim)
    · simp only [if_neg handled]
      exact .attempt (deletes_deleteChunkReplica.consequence deletes (fun _ => removed)
        fun _ => False.elim)

/-- The rows that are left when the nodes of a list remain: of the others, the stuck ones. -/
def LeftStuck (storageNodes : List NodeId) (chunkHash : ChunkHash) (origin : World)
    (remaining : List NodeId) (world : World) : Prop :=
  ∀ replica ∈ world.store.getChunkReplicas chunkHash,
    replica ∈ origin.store.getChunkReplicas chunkHash ∧
      (replica.nodeId ∈ remaining ∨ Stuck storageNodes chunkHash replica.nodeId)

/-- **A repair of a chunk without a sound replica rejects**, and leaves the stuck rows only. -/
theorem rejects_reReplicate (unsound : soundNodes sha256 storageNodes chunkHash world = []) :
    Triple exec.semantics (· = world) (reReplicate sha256 hashRing storageNodes chunkHash now)
      (fun _ _ => False) (LeftStuck storageNodes chunkHash world []) := by
  refine Triple.bind ((triple_verifyReplicas_exact sha256 storageNodes chunkHash world).consequence
    (fun _ => id) (fun _ _ => id) fun _ => False.elim) fun health => .of_fact ?_
  rintro ⟨corrupted, current⟩
  rw [unsound, List.length_nil] at current
  have removes : Triple exec.semantics
      (LeftStuck storageNodes chunkHash world health.corruptedReplicas)
      (Program.forEach (removeCorrupted storageNodes chunkHash) health.corruptedReplicas)
      (fun _ => LeftStuck storageNodes chunkHash world []) (fun _ => False) := by
    refine Triple.forEach_remaining (LeftStuck storageNodes chunkHash world) ?_ _
    refine fun nodeId rest => .of_start fun start left => ?_
    refine removes_removeCorrupted.consequence (fun _ => id) ?_ fun _ => id
    intro _ after here replica member
    obtain ⟨listed, gone⟩ := here replica member
    obtain ⟨initial, todo⟩ := left replica listed
    refine ⟨initial, ?_⟩
    by_cases same : replica.nodeId = nodeId
    · exact .inr (same ▸ gone same)
    · exact todo.imp_left fun member => (List.mem_cons.mp member).resolve_left same
  refine Triple.bind (removes.consequence ?_ (fun _ _ => id) fun _ => False.elim) fun _ =>
    rejects_restoreReplicas current fun after left replica member => ?_
  · rintro _ rfl replica member
    exact ⟨member, .inl (corrupted ▸ blamed_of_unsound unsound member)⟩
  · exact corrupted ▸ blamed_of_unsound unsound (left replica member).1

/-- **A repair of stuck rows changes nothing.** -/
theorem rests_of_stuck (stuck : ∀ replica ∈ world.store.getChunkReplicas chunkHash,
      Stuck storageNodes chunkHash replica.nodeId) :
    Rests (reReplicate sha256 hashRing storageNodes chunkHash now) world := by
  have unsound : soundNodes sha256 storageNodes chunkHash world = [] := by
    refine List.eq_nil_iff_forall_not_mem.mpr fun nodeId sound => ?_
    obtain ⟨replica, member, rfl, _, intact⟩ := mem_soundNodes.mp sound
    exact absurd (intact.valid.symm.trans (stuck replica member).2) (by decide)
  refine rests_reReplicate fun health corrupted current => ?_
  rw [unsound, List.length_nil] at current
  have removes : Triple exec.semantics (· = world)
      (Program.forEach (removeCorrupted storageNodes chunkHash) health.corruptedReplicas)
      (fun _ => (· = world)) (· = world) := by
    refine .forEach fun nodeId blamed => ?_
    rw [corrupted] at blamed
    obtain ⟨replica, member, rfl, _⟩ := mem_brokenNodes.mp blamed
    exact (rests_removeCorrupted (stuck replica member)).consequence (fun _ => id) (fun _ _ => id)
      fun _ => False.elim
  refine removes.bind fun _ => (rejects_restoreReplicas current ?_).consequence (fun _ => id)
    (fun _ _ => False.elim) fun _ => id
  rintro _ rfl replica member
  exact corrupted ▸ blamed_of_unsound unsound member

/-! ## Chunks with a sound replica -/

theorem filter_not_mem_append {α : Type} [DecidableEq α] (items first second : List α) :
    items.filter (· ∉ first ++ second) = (items.filter (· ∉ first)).filter (· ∉ second) := by
  rw [List.filter_filter]
  refine List.filter_congr fun item _ => ?_
  by_cases member : item ∈ first <;> simp [member]

/-- **The targets of a second repair** are the targets of the first one without a handle. -/
theorem repairTargets_repaired {origin : World} {moment : Moment system Unit World}
    (copies : Copies sha256 storageNodes chunkHash now origin
      (repairTargets sha256 hashRing storageNodes chunkHash origin) moment) :
    repairTargets sha256 hashRing storageNodes chunkHash moment.state =
      (repairTargets sha256 hashRing storageNodes chunkHash origin).filter fun nodeId =>
        ¬ Receives storageNodes origin.store nodeId := by
  have distinct : ((hashRing.getNodes chunkHash (replicationFactor * 3 : ℕ)).filter
      (· ∉ soundNodes sha256 storageNodes chunkHash origin)).Nodup :=
    (ConsistentHashRing.nodup_getNodes chunkHash _).filter _
  rw [repairTargets, copies.sound, List.length_append, Nat.sub_add_eq, filter_not_mem_append]
  refine (take_filter_not_mem distinct (fun nodeId => decide (Receives storageNodes origin.store
    nodeId)) (replicationFactor -
      (soundNodes sha256 storageNodes chunkHash origin).length)).trans ?_
  exact List.filter_congr fun _ _ => decide_not.symm

/-- **A second repair changes nothing**, when the store has accepted everything in the first one. -/
theorem reReplicate_twice {later : NodeId → Time} {first second : Except Failure Unit}
    {before middle after : World}
    (once : Runs accepting (reReplicate sha256 hashRing storageNodes chunkHash now) before first
      middle)
    (again : Runs exec.semantics (reReplicate sha256 hashRing storageNodes chunkHash later) middle
      second after) :
    after = middle := by
  have rests : Rests (reReplicate sha256 hashRing storageNodes chunkHash later) middle := by
    by_cases unsound : soundNodes sha256 storageNodes chunkHash before = []
    · have ends := rejects_reReplicate unsound rfl (once.mono exec_of_accepting)
      cases first with
      | ok value => exact ends.elim
      | error failure =>
          have left : LeftStuck storageNodes chunkHash before [] middle := ends
          refine rests_of_stuck fun replica member => ?_
          exact (left replica member).2.resolve_left List.not_mem_nil
    · obtain ⟨_, moment, rfl, copies, receive⟩ := copies_of_accepted unsound once
      refine rests_of_whole copies.broken fun nodeId target => ?_
      rw [repairTargets_repaired copies] at target
      obtain ⟨chosen, missed⟩ := List.mem_filter.mp target
      exact fun handled => of_decide_eq_true missed (receive nodeId chosen handled)
  exact rests.of_runs rfl again

/-- A second repair of a chunk whose targets have no handles, and miss a replica for good. -/
theorem reReplicate_twice_firstReplica :
    let middle := ((repairFirst threeNodes ["n1"]).run exec (firstReplica ["n1"])).2
    (middle.store.getChunkReplicas (knownDigests.digest [7])).length = 1 ∧
      ((repairFirst threeNodes ["n1"]).run exec middle).2 = middle := by
  have watched : ((repairFirst threeNodes ["n1"]).run (exec.watched storeAccepts)
      (firstReplica ["n1"], true)).2.2 = true := by decide +kernel
  exact ⟨by decide +kernel, reReplicate_twice (runs_accepting_of_watched watched).2
    (runs_semantics_iff.mpr (Prod.eta _).symm)⟩

end DistributedFileStorage.Replication.ReplicationServiceImpl
