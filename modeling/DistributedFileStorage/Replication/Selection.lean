import DistributedFileStorage.Replication.QuorumWrite
import DistributedFileStorage.Sequences.Leaders

/-!
# The selection of storage nodes

`selectStorageNodes` takes twice as many candidates from the ring as it needs, drops those that are
not active, and then makes two passes. The two passes take the candidates that are the first in
their zone before the others (`selectFrom_eq`). So the selected nodes are distinct and active, and
they are fewer than needed only when too few candidates are active.
-/

set_option autoImplicit false

namespace DistributedFileStorage.Replication.ReplicationServiceImpl

open Async Store Services Nodes Placement Relational Sequences

open ConsistentHashRing (nodup_getNodes)

variable {hashRing : ConsistentHashRing ChunkHash} {chunkHash : ChunkHash} {db : Database}
  {count : ℕ} {rows : List StorageNodeRecord}

/-! ## The two passes -/

/-- The first pass selects the first nodes of their zones. -/
theorem foldl_selectNewZone (selection : Selection) :
    (rows.foldl (selectNewZone count) selection).selectedNodes =
      selection.selectedNodes ++
        ((leaders StorageNodeRecord.availabilityZone selection.usedZones rows).take
          (count - selection.selectedNodes.length)).map .ofRecord := by
  induction rows generalizing selection with
  | nil => simp [leaders]
  | cons node rest ih =>
      rw [List.foldl_cons, ih, leaders, selectNewZone]
      split
      · rename_i full
        rw [Nat.sub_eq_zero_of_le full, List.take_zero, List.take_zero]
      · rename_i room
        split
        · rfl
        · have more : count - selection.selectedNodes.length =
              count - (selection.selectedNodes ++ [StorageNodeInfo.ofRecord node]).length + 1 := by
            rw [List.length_append, List.length_singleton]
            omega
          rw [more, List.take_succ_cons, List.map_cons, List.append_assoc, List.singleton_append]

/-- The second pass goes through distinct nodes, and adds those that have not been selected. -/
theorem foldl_fillSlot (distinct : (rows.map StorageNodeRecord.nodeId).Nodup)
    (chosen : List StorageNodeInfo) :
    rows.foldl (fillSlot count) chosen =
      chosen ++ ((rows.filter fun node =>
        !chosen.any fun selected => selected.nodeId = node.nodeId).take
          (count - chosen.length)).map .ofRecord := by
  induction rows generalizing chosen with
  | nil => simp
  | cons node rest ih =>
      obtain ⟨fresh, distinct⟩ := List.nodup_cons.mp distinct
      rw [List.foldl_cons, ih distinct]
      unfold fillSlot
      split
      · rename_i full
        rw [Nat.sub_eq_zero_of_le full, List.take_zero, List.take_zero]
      · rename_i room
        split
        · rename_i already
          rw [List.filter_cons_of_neg (by simpa using already)]
        · rename_i missing
          have others : (rest.filter fun other =>
                !(chosen ++ [StorageNodeInfo.ofRecord node]).any fun selected =>
                  selected.nodeId = other.nodeId) =
              rest.filter fun other => !chosen.any fun selected =>
                selected.nodeId = other.nodeId := by
            refine List.filter_congr fun other member => ?_
            have different : node.nodeId ≠ other.nodeId := fun same =>
              fresh (same ▸ List.mem_map_of_mem member)
            simp [StorageNodeInfo.ofRecord, different]
          have more : count - chosen.length =
              count - (chosen ++ [StorageNodeInfo.ofRecord node]).length + 1 := by
            rw [List.length_append, List.length_singleton]
            omega
          rw [List.filter_cons_of_pos (by simpa using missing), more, List.take_succ_cons,
            List.map_cons, others, List.append_assoc, List.singleton_append]

/-- The rows of the candidates that are active. -/
def activeRows (nodeDetails : List (Option StorageNodeRecord)) : List StorageNodeRecord :=
  nodeDetails.filterMap fun node => node.filter fun row => row.status = .active

/-- **The two passes take the first nodes of their zones before the others.** -/
theorem selectFrom_eq {nodeDetails : List (Option StorageNodeRecord)}
    (distinct : ((activeRows nodeDetails).map StorageNodeRecord.nodeId).Nodup) :
    selectFrom count nodeDetails =
      ((leadersFirst StorageNodeRecord.availabilityZone (activeRows nodeDetails)).take count).map
        .ofRecord := by
  have firstPass : ((activeRows nodeDetails).foldl (selectNewZone count) {}).selectedNodes =
      ((leaders StorageNodeRecord.availabilityZone [] (activeRows nodeDetails)).take count).map
        .ofRecord := foldl_selectNewZone {}
  show (activeRows nodeDetails).foldl (fillSlot count)
    ((activeRows nodeDetails).foldl (selectNewZone count) {}).selectedNodes = _
  rw [firstPass, foldl_fillSlot distinct, take_leadersFirst, List.map_append, List.length_map]
  congr 3
  refine List.filter_congr fun node member => ?_
  have selected : ((leaders StorageNodeRecord.availabilityZone [] (activeRows nodeDetails)).take
        count).any (fun other => other.nodeId = node.nodeId) = true ↔
      node ∈ (leaders StorageNodeRecord.availabilityZone []
        (activeRows nodeDetails)).take count := by
    rw [List.any_eq_true]
    constructor
    · rintro ⟨other, leads, same⟩
      have present := (leaders_sublist []).subset (List.mem_of_mem_take leads)
      rwa [← List.inj_on_of_nodup_map distinct present member (of_decide_eq_true same)]
    · exact fun leads => ⟨node, leads, decide_eq_true rfl⟩
  rw [Bool.eq_iff_iff, List.any_map, Bool.not_eq_true', Bool.eq_false_iff, decide_eq_true_eq]
  exact not_congr selected

/-! ## The selected nodes -/

/-- The candidates for a chunk that are active, in the order of the ring. -/
def candidates (hashRing : ConsistentHashRing ChunkHash) (db : Database) (chunkHash : ChunkHash) :
    List StorageNodeRecord :=
  activeRows ((hashRing.getNodes chunkHash (replicationFactor * 2 : ℕ)).map db.getStorageNode)

theorem mem_activeRows {nodeIds : List NodeId} {node : StorageNodeRecord} :
    node ∈ activeRows (nodeIds.map db.getStorageNode) ↔
      node.nodeId ∈ nodeIds ∧ db.getStorageNode node.nodeId = some node ∧ node.status = .active := by
  simp only [activeRows, List.mem_filterMap, List.mem_map, Option.filter_eq_some_iff,
    decide_eq_true_eq]
  constructor
  · rintro ⟨_, ⟨nodeId, member, rfl⟩, found, active⟩
    have same : node.nodeId = nodeId := (Table.find?_eq_some_iff.mp found).2
    exact ⟨same ▸ member, same ▸ found, active⟩
  · rintro ⟨member, found, active⟩
    exact ⟨_, ⟨node.nodeId, member, rfl⟩, found, active⟩

/-- The rows of distinct nodes are rows of distinct nodes. -/
theorem nodup_activeRows {nodeIds : List NodeId} (distinct : nodeIds.Nodup) :
    ((activeRows (nodeIds.map db.getStorageNode)).map StorageNodeRecord.nodeId).Nodup := by
  induction nodeIds with
  | nil => exact List.nodup_nil
  | cons nodeId rest ih =>
      obtain ⟨fresh, distinct⟩ := List.nodup_cons.mp distinct
      have later := ih distinct
      rw [activeRows, List.map_cons, List.filterMap_cons]
      split
      · exact later
      · rename_i node found
        rw [Option.filter_eq_some_iff] at found
        have same : node.nodeId = nodeId := (Table.find?_eq_some_iff.mp found.1).2
        rw [List.map_cons, List.nodup_cons]
        refine ⟨fun again => fresh ?_, later⟩
        obtain ⟨other, member, equal⟩ := List.mem_map.mp again
        exact same ▸ equal ▸ (mem_activeRows.mp member).1

theorem nodup_candidates : (candidates hashRing db chunkHash).Nodup :=
  (nodup_activeRows (nodup_getNodes chunkHash _)).of_map

/-- **The selected nodes are the first three candidates**, when the first of each zone are taken
before the others. -/
theorem selectedNodes_eq : selectedNodes hashRing db chunkHash =
    ((leadersFirst StorageNodeRecord.availabilityZone (candidates hashRing db chunkHash)).take
      replicationFactor).map .ofRecord :=
  selectFrom_eq (nodup_activeRows (nodup_getNodes chunkHash _))

theorem length_selectedNodes : (selectedNodes hashRing db chunkHash).length =
    min replicationFactor (candidates hashRing db chunkHash).length := by
  rw [selectedNodes_eq, List.length_map, List.length_take,
    (leadersFirst_perm nodup_candidates).length_eq]

/-- The node is registered, and active. -/
def Active (db : Database) (nodeId : NodeId) : Prop :=
  ∃ node, db.getStorageNode nodeId = some node ∧ node.status = .active

instance (db : Database) : DecidablePred (Active db) := fun nodeId =>
  decidable_of_iff ((db.getStorageNode nodeId).any (·.status = .active) = true) (by
    simp [Active, Option.any_eq_true])

/-- **The selected nodes are distinct and active.** -/
theorem nodup_selectedNodes :
    ((selectedNodes hashRing db chunkHash).map StorageNodeInfo.nodeId).Nodup := by
  rw [selectedNodes_eq, List.map_map]
  have ordered : ((leadersFirst StorageNodeRecord.availabilityZone
      (candidates hashRing db chunkHash)).map StorageNodeRecord.nodeId).Nodup :=
    ((leadersFirst_perm nodup_candidates).map _).nodup_iff.mpr
      (nodup_activeRows (nodup_getNodes chunkHash _))
  exact ordered.sublist ((List.take_sublist _ _).map StorageNodeRecord.nodeId)

theorem active_of_mem_selectedNodes {nodeInfo : StorageNodeInfo}
    (selected : nodeInfo ∈ selectedNodes hashRing db chunkHash) : Active db nodeInfo.nodeId := by
  rw [selectedNodes_eq] at selected
  obtain ⟨node, member, rfl⟩ := List.mem_map.mp selected
  obtain ⟨_, found, active⟩ := mem_activeRows.mp (mem_leadersFirst.mp (List.mem_of_mem_take member))
  exact ⟨node, found, active⟩

/-- A selection that resolves has selected from the rows of the candidates, also when reads may
fail. -/
theorem triple_selectStorageNodes_count (hashRing : ConsistentHashRing ChunkHash)
    (chunkHash : ChunkHash) (count : ℕ) (world : World) :
    Triple faulty (· = world) (selectStorageNodes hashRing chunkHash count)
      (fun selected after => selected = selectFrom count
        ((hashRing.getNodes chunkHash (count * 2 : ℕ)).map world.store.getStorageNode) ∧
          after = world)
      (· = world) := by
  unfold selectStorageNodes
  dsimp only
  split
  · rename_i none
    rw [List.length_eq_zero_iff.mp none]
    exact .pure fun _ same => ⟨rfl, same⟩
  · have read : ∀ nodeId, Triple faulty (· = world) (store (.getStorageNode nodeId))
        (fun node after => node = world.store.getStorageNode nodeId ∧ after = world) (· = world) :=
      fun nodeId => (triple_read fun _ => rfl).consequence (fun _ => id)
        (fun _ _ found => found.2 ▸ found) fun _ => id
    refine Triple.bind (Triple.mapEach read _) fun details => .of_fact fun same => ?_
    exact .pure fun _ unchanged => ⟨congrArg _ same, unchanged⟩

theorem triple_selectStorageNodes (hashRing : ConsistentHashRing ChunkHash) (chunkHash : ChunkHash)
    (world : World) :
    Triple faulty (· = world) (selectStorageNodes hashRing chunkHash replicationFactor)
      (fun selected after => selected = selectedNodes hashRing world.store chunkHash ∧ after = world)
      (· = world) :=
  triple_selectStorageNodes_count hashRing chunkHash replicationFactor world

end DistributedFileStorage.Replication.ReplicationServiceImpl
