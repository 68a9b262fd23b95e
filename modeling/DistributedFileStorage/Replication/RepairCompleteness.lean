import DistributedFileStorage.Replication.Repair

/-!
# Complete repairs

When the store rejects nothing, a repair of a chunk with a sound replica leaves sound replicas only,
and three of them if there were fewer. It chooses among the sound nodes and the nodes that the ring
offers for the chunk, so it is complete exactly when these are three (`completelyRepaired_iff`). A
ring of three nodes offers all of them, unless one has the empty identifier.
-/

set_option autoImplicit false

namespace DistributedFileStorage.Replication.ReplicationServiceImpl

open Async Store Services Nodes Placement Relational Sequences Program

/-! ## Calls that succeed -/

/-- The store rejects nothing. A disk may answer that it has no such file. -/
def storeAccepts (op : Call) (outcome : Except Failure op.Result) : Bool :=
  match op, outcome with
  | .store _, .error _ => false
  | _, _ => true

/-- The services, no statement of the store being rejected. -/
abbrev accepting : Semantics system World := exec.accepting storeAccepts

theorem exec_of_accepting (op : Call) (before : World) (outcome : Except Failure op.Result)
    (after : World) (happens : accepting op before outcome after) :
    exec.semantics op before outcome after := happens.1

variable {sha256 : Sha256} {hashRing : ConsistentHashRing ChunkHash} {storageNodes : List NodeId}
  {chunkHash : ChunkHash} {now : NodeId → Time} {origin before after : World} {nodeId : NodeId}

/-- The storage nodes are registered as before. -/
abbrev SameNodes (origin world : World) : Prop :=
  world.store.storageNodes = origin.store.storageNodes

/-- A replica that the store records is on a registered node. -/
theorem registers_createChunkReplica (replica : ChunkReplicaRecord) :
    Triple accepting (SameNodes origin) (store (.createChunkReplica replica))
      (fun _ world => replica.nodeId ∈ origin.store.storageNodes.keys ∧ SameNodes origin world)
      (fun _ => False) := by
  refine Triple.perform fun world outcome reached same happens => ?_
  rcases World.commit_cases happens.1 with ⟨failure, _, rfl, _⟩ | ⟨db, created, rfl, rfl⟩
  · cases happens.2
  · have inserted := Database.exists_createChunkReplica_iff.mp ⟨db, created⟩
    rw [same] at inserted
    exact ⟨inserted.2, (Database.tables_createChunkReplica created).2.trans same⟩

/-- **A copy is made on a registered node.** -/
theorem registers_writeReplica (valid : validChunkHash chunkHash = true) (data : Buffer) :
    Triple accepting (SameNodes origin) (writeReplica storageNodes chunkHash data now nodeId)
      (fun _ world => (nodeId ∈ storageNodes → nodeId ∈ origin.store.storageNodes.keys) ∧
        SameNodes origin world)
      (fun _ => False) := by
  unfold writeReplica
  split
  · have writes : Triple accepting (SameNodes origin)
        (StorageNodeImpl.writeChunk nodeId chunkHash data) (fun _ => SameNodes origin)
        (fun _ => False) :=
      .of_start fun world same =>
        (Triple.mono exec_of_accepting (StorageNodeImpl.triple_writeChunk valid data)).consequence
          (fun _ => id)
          (fun _ reached sets => (congrArg Database.storageNodes sets.store).trans same) fun _ => id
    have reads : Triple accepting (SameNodes origin) (store (.getStorageNode nodeId))
        (fun _ => SameNodes origin) (fun _ => False) := by
      refine Triple.perform fun world outcome reached same happens => ?_
      obtain ⟨rfl, rfl⟩ := Prod.mk.inj happens.1
      exact same
    refine .attempt (Triple.consequence (writes.bind fun _ => reads.bind fun node => ?_)
      (fun _ => id) (fun _ _ => id) fun _ => False.elim)
    exact (registers_createChunkReplica _).consequence (fun _ => id)
      (fun _ world ends => ⟨fun _ => ends.1, ends.2⟩) fun _ => id
  · rename_i unhandled
    exact .pure fun world same => ⟨fun handled => absurd handled unhandled, same⟩

/-- The copies are made on registered nodes. -/
theorem registers_copies (valid : validChunkHash chunkHash = true) (data : Buffer)
    (targets : List NodeId) :
    Triple accepting (SameNodes origin)
      (Program.forEach (writeReplica storageNodes chunkHash data now) targets)
      (fun _ world => (∀ nodeId ∈ targets, nodeId ∈ storageNodes →
        nodeId ∈ origin.store.storageNodes.keys) ∧ SameNodes origin world)
      (fun _ => False) := by
  induction targets with
  | nil => exact .pure fun world same => ⟨nofun, same⟩
  | cons nodeId rest ih =>
      refine (registers_writeReplica valid data).bind fun _ => .of_fact fun here => ?_
      refine ih.consequence (fun _ => id) (fun _ world others => ⟨?_, others.2⟩) fun _ => id
      exact List.forall_mem_cons.mpr ⟨here, others.1⟩

/-- **A repair in which the store accepts everything** makes its copies on registered nodes. -/
theorem accepted_reReplicate (sound : soundNodes sha256 storageNodes chunkHash origin ≠ []) :
    Triple accepting.recorded (fun moment => moment = .start origin)
      (reReplicate sha256 hashRing storageNodes chunkHash now)
      (fun _ moment => Copies sha256 storageNodes chunkHash now origin
          (repairTargets sha256 hashRing storageNodes chunkHash origin) moment ∧
        ∀ nodeId ∈ repairTargets sha256 hashRing storageNodes chunkHash origin,
          nodeId ∈ storageNodes → Receives storageNodes origin.store nodeId)
      (fun _ => False) := by
  obtain ⟨first, isSound⟩ := List.exists_mem_of_ne_nil _ sound
  obtain ⟨valid, recorded⟩ := valid_of_sound isSound
  refine triple_reReplicate exec_of_accepting sound fun data digest => ?_
  have copies : Does (Copies sha256 storageNodes chunkHash now origin [])
      (Program.forEach (writeReplica storageNodes chunkHash data now)
        (repairTargets sha256 hashRing storageNodes chunkHash origin)) _ :=
    does_copies valid digest recorded nodup_repairTargets fun _ => unsound_of_target
  refine ((copies.mono exec_of_accepting).and (registers_copies valid data _).recorded).consequence
    (fun moment copies => ⟨copies, copies.leaves.storageNodes⟩) ?_ fun _ => And.left
  exact fun _ moment ends => ⟨ends.1, fun nodeId target handled =>
    ⟨handled, ends.2.1 nodeId target handled⟩⟩

/-! ## What is left -/

/-- What is left of an accepted repair. -/
theorem copies_of_accepted (sound : soundNodes sha256 storageNodes chunkHash before ≠ [])
    {outcome : Except Failure Unit}
    (run : Runs accepting (reReplicate sha256 hashRing storageNodes chunkHash now) before outcome
      after) :
    outcome = .ok () ∧ ∃ moment, moment.state = after ∧
      Copies sha256 storageNodes chunkHash now before
        (repairTargets sha256 hashRing storageNodes chunkHash before) moment ∧
      ∀ nodeId ∈ repairTargets sha256 hashRing storageNodes chunkHash before,
        nodeId ∈ storageNodes → Receives storageNodes before.store nodeId := by
  obtain ⟨moment, recorded, reached⟩ := run.exists_recorded (.start before) rfl
  have ends := accepted_reReplicate sound rfl recorded
  cases outcome with
  | error failure => exact ends.elim
  | ok value => exact ⟨rfl, moment, reached, ends.1, ends.2⟩

/-- A complete repair: it resolves and keeps the sound replicas, and then all replicas are sound, no
two of them are on the same node, and there are three of them or as many as were sound. -/
structure CompletelyRepaired (sha256 : Sha256) (storageNodes : List NodeId) (chunkHash : ChunkHash)
    (before : World) (outcome : Except Failure Unit) (after : World) : Prop where
  resolves : outcome = .ok ()
  kept : ∀ replica ∈ soundReplicas sha256 storageNodes chunkHash before,
    replica ∈ after.store.getChunkReplicas chunkHash ∧
      after.bytes replica.nodeId chunkHash = before.bytes replica.nodeId chunkHash
  distinct : ((after.store.getChunkReplicas chunkHash).map ChunkReplicaRecord.nodeId).Nodup
  healthy : ∀ replica ∈ after.store.getChunkReplicas chunkHash,
    Healthy sha256 storageNodes chunkHash after replica
  count : (after.store.getChunkReplicas chunkHash).length =
    max 3 (soundReplicas sha256 storageNodes chunkHash before).length

/-- The nodes that can have a replica after a repair: those with a sound one, and those that the
ring offers for the chunk. -/
def candidateNodes (sha256 : Sha256) (hashRing : ConsistentHashRing ChunkHash)
    (storageNodes : List NodeId) (chunkHash : ChunkHash) (world : World) : Finset NodeId :=
  (soundNodes sha256 storageNodes chunkHash world).toFinset ∪
    (hashRing.getNodes chunkHash (replicationFactor * 3 : ℕ)).toFinset

/-- A union of two lists without duplicates. -/
theorem card_union_toFinset {α : Type} [DecidableEq α] {first second : List α}
    (distinct : first.Nodup) (others : second.Nodup) :
    (first.toFinset ∪ second.toFinset).card =
      first.length + (second.filter (· ∉ first)).length := by
  have apart : (first ++ second.filter (· ∉ first)).Nodup := by
    refine distinct.append (others.filter _) fun item member other => ?_
    have fresh := (List.mem_filter.mp other).2
    exact of_decide_eq_true fresh member
  have same : first.toFinset ∪ second.toFinset = (first ++ second.filter (· ∉ first)).toFinset := by
    ext item
    by_cases member : item ∈ first <;> simp [member]
  rw [same, List.toFinset_card_of_nodup apart, List.length_append]

theorem nodup_soundNodes : (soundNodes sha256 storageNodes chunkHash before).Nodup :=
  (Database.nodup_getChunkReplicas chunkHash).sublist (List.filter_sublist.map _)

/-- A repair is complete exactly when there are three candidates. -/
theorem completelyRepaired_iff_candidates
    (handled : ∀ nodeId ∈ hashRing.getNodes chunkHash (replicationFactor * 3 : ℕ),
      nodeId ∈ storageNodes)
    (sound : soundNodes sha256 storageNodes chunkHash before ≠ [])
    {outcome : Except Failure Unit}
    (run : Runs accepting (reReplicate sha256 hashRing storageNodes chunkHash now) before outcome
      after) :
    CompletelyRepaired sha256 storageNodes chunkHash before outcome after ↔
      3 ≤ (candidateNodes sha256 hashRing storageNodes chunkHash before).card := by
  obtain ⟨rfl, moment, rfl, copies, receives⟩ := copies_of_accepted sound run
  have receive : (repairTargets sha256 hashRing storageNodes chunkHash before).filter
      (Receives storageNodes before.store) =
        repairTargets sha256 hashRing storageNodes chunkHash before :=
    List.filter_eq_self.mpr fun nodeId target => decide_eq_true (receives nodeId target
      (handled nodeId (List.mem_of_mem_filter (List.mem_of_mem_take target))))
  have all : (moment.state.store.getChunkReplicas chunkHash).length =
      (soundReplicas sha256 storageNodes chunkHash before).length +
        (repairTargets sha256 hashRing storageNodes chunkHash before).length := by
    rw [copies.leaves.rows, copyRows, receive, List.length_append, List.length_map]
  have counted : (candidateNodes sha256 hashRing storageNodes chunkHash before).card = _ :=
    card_union_toFinset nodup_soundNodes (ConsistentHashRing.nodup_getNodes chunkHash _)
  have same : (soundNodes sha256 storageNodes chunkHash before).length =
      (soundReplicas sha256 storageNodes chunkHash before).length := List.length_map _
  have enough : (moment.state.store.getChunkReplicas chunkHash).length =
      max 3 (soundReplicas sha256 storageNodes chunkHash before).length ↔
        3 ≤ (candidateNodes sha256 hashRing storageNodes chunkHash before).card := by
    rw [all, counted, repairTargets, List.length_take, same, replicationFactor]
    omega
  rw [← enough]
  refine ⟨CompletelyRepaired.count, fun count => ⟨rfl, fun replica member => ?_,
    Database.nodup_getChunkReplicas chunkHash, fun replica => copies.healthy, count⟩⟩
  refine ⟨?_, copies.leaves.bytes _ (List.mem_map_of_mem member)⟩
  rw [copies.leaves.rows]
  exact List.mem_append_left _ member

/-! ## The candidates of a ring -/

/-- A set of three or more, without one element, makes up three with another set unless it has just
three and the other set adds nothing. -/
theorem three_le_card_union_erase {α : Type} [DecidableEq α] {items others : Finset α} {item : α}
    (enough : 3 ≤ items.card) :
    3 ≤ (others ∪ items.erase item).card ↔
      ¬ (items.card = 3 ∧ item ∈ items ∧ others ⊆ items.erase item) := by
  constructor
  · rintro room ⟨three, member, inside⟩
    rw [Finset.union_eq_right.mpr inside, Finset.card_erase_of_mem member, three] at room
    exact absurd room (by decide)
  · intro spared
    by_cases many : 3 ≤ (items.erase item).card
    · exact many.trans (Finset.card_le_card Finset.subset_union_right)
    · -- the item is one of three
      have member : item ∈ items := by
        by_contra absent
        rw [Finset.erase_eq_of_notMem absent] at many
        exact many enough
      rw [Finset.card_erase_of_mem member] at many
      have more : items.erase item ⊂ others ∪ items.erase item := by
        refine Finset.subset_union_right.ssubset_of_not_subset fun whole => spared ?_
        exact ⟨by omega, member, Finset.subset_union_left.trans whole⟩
      have larger := Finset.card_lt_card more
      rw [Finset.card_erase_of_mem member] at larger
      omega

/-- A ring of three nodes or more leaves a repair too few candidates exactly when it has three
nodes, one of them has the empty identifier, and the sound replicas are on the other two. -/
theorem three_le_candidates_iff (inStep : hashRing.InStep)
    (enough : 3 ≤ hashRing.physicalNodes.rows.length) :
    3 ≤ (candidateNodes sha256 hashRing storageNodes chunkHash before).card ↔
      ¬ (hashRing.physicalNodes.rows.length = 3 ∧ "" ∈ hashRing.physicalNodes.rows ∧
        ∀ nodeId ∈ soundNodes sha256 storageNodes chunkHash before,
          nodeId ∈ hashRing.physicalNodes.rows ∧ nodeId ≠ "") := by
  have total : hashRing.physicalNodes.rows.toFinset.card = hashRing.physicalNodes.rows.length :=
    List.toFinset_card_of_nodup hashRing.physicalNodes.nodup_rows
  have preferred : (hashRing.preferenceList chunkHash).Nodup := nodup_eraseDups _
  have named : (hashRing.preferenceList chunkHash).toFinset =
      hashRing.physicalNodes.rows.toFinset.erase "" := by
    ext nodeId
    rw [List.mem_toFinset, ConsistentHashRing.mem_preferenceList inStep, Finset.mem_erase,
      List.mem_toFinset, and_comm]
  have inside : (∀ nodeId ∈ soundNodes sha256 storageNodes chunkHash before,
        nodeId ∈ hashRing.physicalNodes.rows ∧ nodeId ≠ "") ↔
      (soundNodes sha256 storageNodes chunkHash before).toFinset ⊆
        hashRing.physicalNodes.rows.toFinset.erase "" := by
    simp only [Finset.subset_iff, List.mem_toFinset, Finset.mem_erase, and_comm]
  have nine : ((replicationFactor * 3 : ℕ) : ℤ).toNat = 9 := rfl
  rw [candidateNodes, ConsistentHashRing.getNodes_eq inStep, nine, inside, ← total,
    ← List.mem_toFinset]
  by_cases short : (hashRing.preferenceList chunkHash).length ≤ 9
  · rw [List.take_of_length_le short, named]
    exact three_le_card_union_erase (total ▸ enough)
  · -- the ring offers nine nodes
    have offered : ((hashRing.preferenceList chunkHash).take 9).toFinset.card = 9 := by
      rw [List.toFinset_card_of_nodup (preferred.sublist (List.take_sublist _ _)),
        List.length_take_of_le (Nat.le_of_not_le short)]
    have most := ConsistentHashRing.length_preferenceList_le inStep chunkHash
    refine iff_of_true ?_ fun few => short (by omega)
    calc 3 ≤ ((hashRing.preferenceList chunkHash).take 9).toFinset.card := by omega
      _ ≤ _ := Finset.card_le_card Finset.subset_union_right

/-- **An accepted repair of a chunk with a sound replica is complete exactly when there are three
candidates**, in a ring whose nodes all have handles. When the collections of the ring belong
together and it has three nodes or more, there always are, but for a ring of three nodes, one of
them with the empty identifier, and a chunk whose sound replicas are on the other two. -/
theorem completelyRepaired_iff
    (handled : ∀ nodeId, (nodeId ∈ hashRing.physicalNodes.rows ∨
      ∃ entry ∈ hashRing.ring.rows, entry.2 = nodeId) → nodeId ∈ storageNodes)
    (enough : 3 ≤ hashRing.physicalNodes.rows.length)
    (sound : soundNodes sha256 storageNodes chunkHash before ≠ [])
    {outcome : Except Failure Unit}
    (run : Runs accepting (reReplicate sha256 hashRing storageNodes chunkHash now) before outcome
      after) :
    (CompletelyRepaired sha256 storageNodes chunkHash before outcome after ↔
      3 ≤ (candidateNodes sha256 hashRing storageNodes chunkHash before).card) ∧
    (hashRing.InStep →
      (CompletelyRepaired sha256 storageNodes chunkHash before outcome after ↔
        ¬ (hashRing.physicalNodes.rows.length = 3 ∧ "" ∈ hashRing.physicalNodes.rows ∧
          ∀ nodeId ∈ soundNodes sha256 storageNodes chunkHash before,
            nodeId ∈ hashRing.physicalNodes.rows ∧ nodeId ≠ ""))) := by
  have repaired := completelyRepaired_iff_candidates (fun nodeId member =>
    handled nodeId (.inr (ConsistentHashRing.mem_ring_of_mem_getNodes member))) sound run
  exact ⟨repaired, fun inStep => repaired.trans (three_le_candidates_iff inStep enough)⟩

/-! ## Rings of three nodes -/

/-- SHA-256 of the virtual nodes of two nodes and of the one with the empty identifier. -/
def namelessNodeHashes (virtualNode : String) : ChunkHash :=
  if virtualNode = ":vnode:0" then
    "7bea123b711eec7df23f62ed2a522c93896ad429f419e471452b0886507ef26a"
  else knownNodeHashes virtualNode

def namelessNodes : ConsistentHashRing ChunkHash :=
  ["n1", "n2", ""].foldl
    (fun hashRing nodeId => hashRing.addNode namelessNodeHashes nodeId (some 1)) (.new 150)

theorem inStep_namelessNodes : namelessNodes.InStep :=
  .of_perm (by decide +kernel) (by decide +kernel) (by decide +kernel)

/-- The byte 7 as a chunk with one replica, on the first of some nodes. -/
def firstReplica (nodeIds : List NodeId) : World :=
  let chunkHash := knownDigests.digest [7]
  ((Program.forEach (writeReplica nodeIds chunkHash [7] fun _ => 1) (nodeIds.take 1)).run exec
    (unreplicated nodeIds chunkHash)).2

/-- The repair of that chunk. -/
def repairFirst (hashRing : ConsistentHashRing ChunkHash) (nodeIds : List NodeId) : Async Unit :=
  reReplicate knownDigests hashRing nodeIds (knownDigests.digest [7]) fun _ => 2

/-- Two replicas are added on a ring of three nodes with names. -/
theorem completelyRepaired_threeNodes :
    CompletelyRepaired knownDigests ["n1", "n2", "n3"] (knownDigests.digest [7])
      (firstReplica ["n1", "n2", "n3"])
      ((repairFirst threeNodes ["n1", "n2", "n3"]).run exec (firstReplica ["n1", "n2", "n3"])).1
      ((repairFirst threeNodes ["n1", "n2", "n3"]).run exec
        (firstReplica ["n1", "n2", "n3"])).2 := by
  have nodes : ∀ nodeId ∈ threeNodes.physicalNodes.rows, nodeId ∈ ["n1", "n2", "n3"] := by
    decide +kernel
  have owners : ∀ entry ∈ threeNodes.ring.rows, entry.2 ∈ ["n1", "n2", "n3"] := by decide +kernel
  have watched : ((repairFirst threeNodes ["n1", "n2", "n3"]).run (exec.watched storeAccepts)
      (firstReplica ["n1", "n2", "n3"], true)).2.2 = true := by decide +kernel
  refine (completelyRepaired_iff (fun nodeId ringNode => ?_) (by decide +kernel) (by decide +kernel)
    (runs_accepting_of_watched watched).2).1.mpr (by decide +kernel)
  rcases ringNode with member | ⟨entry, member, rfl⟩
  · exact nodes nodeId member
  · exact owners entry member

/-- **The node with the empty identifier receives no replica**: the ring has three nodes with
handles, one has a sound replica, the store accepts everything, and two replicas are left. -/
theorem repair_misses_nameless :
    namelessNodes.InStep ∧ namelessNodes.physicalNodes.rows = ["n1", "n2", ""] ∧
      (∀ entry ∈ namelessNodes.ring.rows, entry.2 ∈ ["n1", "n2", ""]) ∧
      soundNodes knownDigests ["n1", "n2", ""] (knownDigests.digest [7])
        (firstReplica ["n1", "n2", ""]) = ["n1"] ∧
      Runs accepting (repairFirst namelessNodes ["n1", "n2", ""]) (firstReplica ["n1", "n2", ""])
        (.ok ()) ((repairFirst namelessNodes ["n1", "n2", ""]).run exec
          (firstReplica ["n1", "n2", ""])).2 ∧
      (((repairFirst namelessNodes ["n1", "n2", ""]).run exec
        (firstReplica ["n1", "n2", ""])).2.store.getChunkReplicas (knownDigests.digest [7])).map
          ChunkReplicaRecord.nodeId = ["n1", "n2"] ∧
      ¬ CompletelyRepaired knownDigests ["n1", "n2", ""] (knownDigests.digest [7])
        (firstReplica ["n1", "n2", ""]) (.ok ())
        ((repairFirst namelessNodes ["n1", "n2", ""]).run exec
          (firstReplica ["n1", "n2", ""])).2 := by
  have watched : ((repairFirst namelessNodes ["n1", "n2", ""]).run (exec.watched storeAccepts)
      (firstReplica ["n1", "n2", ""], true)).2.2 = true := by decide +kernel
  have resolves : ((repairFirst namelessNodes ["n1", "n2", ""]).run exec
      (firstReplica ["n1", "n2", ""])).1 = .ok () := by decide +kernel
  have two : (((repairFirst namelessNodes ["n1", "n2", ""]).run exec
      (firstReplica ["n1", "n2", ""])).2.store.getChunkReplicas (knownDigests.digest [7])).map
        ChunkReplicaRecord.nodeId = ["n1", "n2"] := by decide +kernel
  have accepted := (runs_accepting_of_watched watched).2
  rw [resolves] at accepted
  refine ⟨inStep_namelessNodes, by decide +kernel, by decide +kernel, by decide +kernel, accepted,
    two, fun repaired => ?_⟩
  have few := congrArg List.length two
  rw [List.length_map, repaired.count] at few
  exact absurd (few ▸ le_max_left 3 _) (by decide)

end DistributedFileStorage.Replication.ReplicationServiceImpl
