import DistributedFileStorage.Replication.Integrity
import DistributedFileStorage.Replication.Selection

/-!
# The spread over availability zones

A selection of storage nodes should take as many of the active candidates as it may, and spread
them over as many availability zones as it can. In each zone that it uses it should take the
candidate that comes first on the ring. The two passes of `selectStorageNodes` do this for all
candidates and all rows (`selectStorageNodes_spreadsZones`).
-/

set_option autoImplicit false

namespace DistributedFileStorage.Replication.ReplicationServiceImpl

open Async Store Services Placement Relational Sequences

variable {db : Database} {count : ℕ} {candidateNodes : List NodeId}

/-- Distinct nodes are selected from the rows of the active candidates, as many as asked for and as
there are, in as many zones as possible. The first candidate of each of their zones is selected. -/
structure SpreadsZones (count : ℕ) (active : List StorageNodeRecord)
    (selected : List StorageNodeInfo) : Prop where
  distinct : (selected.map StorageNodeInfo.nodeId).Nodup
  rows : ∀ node ∈ selected, node ∈ active.map .ofRecord
  number : selected.length = min count active.length
  zones : (selected.map StorageNodeInfo.availabilityZone).toFinset.card =
    min count (active.map StorageNodeRecord.availabilityZone).toFinset.card
  earliest : ∀ node ∈ selected, ∃ first,
    active.find? (fun row => row.availabilityZone = node.availabilityZone) = some first ∧
      .ofRecord first ∈ selected

/-- **The first rows, with the first of each zone before the others, are spread over the zones.** -/
theorem spreadsZones_take {active : List StorageNodeRecord}
    (distinct : (active.map StorageNodeRecord.nodeId).Nodup) (count : ℕ) :
    SpreadsZones count active
      (((leadersFirst StorageNodeRecord.availabilityZone active).take count).map .ofRecord) where
  distinct := by
    have ordered : ((leadersFirst StorageNodeRecord.availabilityZone active).map
        StorageNodeRecord.nodeId).Nodup :=
      ((leadersFirst_perm distinct.of_map).map _).nodup_iff.mpr distinct
    rw [List.map_map]
    exact ordered.sublist ((List.take_sublist _ _).map StorageNodeRecord.nodeId)
  rows node selected := by
    obtain ⟨row, taken, rfl⟩ := List.mem_map.mp selected
    exact List.mem_map_of_mem (mem_leadersFirst.mp (List.mem_of_mem_take taken))
  number := by
    rw [List.length_map, List.length_take, (leadersFirst_perm distinct.of_map).length_eq]
  zones := by
    rw [List.map_map]
    exact card_classes_take count
  earliest node selected := by
    obtain ⟨row, taken, rfl⟩ := List.mem_map.mp selected
    have member := mem_leadersFirst.mp (List.mem_of_mem_take taken)
    have here : decide (row.availabilityZone = row.availabilityZone) = true := decide_eq_true rfl
    obtain ⟨first, found⟩ := Option.isSome_iff_exists.mp <|
      (List.find?_isSome (p := fun other : StorageNodeRecord =>
        other.availabilityZone = row.availabilityZone)).mpr ⟨row, member, here⟩
    exact ⟨first, found, List.mem_map_of_mem (leader_taken taken found)⟩

/-- **The selection is spread over the zones.** Whatever distinct candidates the ring returns and
whatever the rows of the nodes are, the nodes that `selectStorageNodes` resolves to are spread over
the zones of the active candidates. It resolves when no read fails. -/
theorem selectStorageNodes_spreadsZones (distinct : candidateNodes.Nodup)
    (db : Database) (count : ℕ) :
    SpreadsZones count (activeRows (candidateNodes.map db.getStorageNode))
        (selectFrom count (candidateNodes.map db.getStorageNode)) ∧
      ∀ (hashRing : ConsistentHashRing ChunkHash) (chunkHash : ChunkHash) (world : World),
        hashRing.getNodes chunkHash (count * 2 : ℕ) = candidateNodes → world.store = db →
          (selectStorageNodes hashRing chunkHash count).run exec world =
              (.ok (selectFrom count (candidateNodes.map db.getStorageNode)), world) ∧
            ∀ selected after, Runs faulty (selectStorageNodes hashRing chunkHash count) world
              (.ok selected) after →
                selected = selectFrom count (candidateNodes.map db.getStorageNode) := by
  constructor
  · have rows : ((activeRows (candidateNodes.map db.getStorageNode)).map
        StorageNodeRecord.nodeId).Nodup := nodup_activeRows distinct
    rw [selectFrom_eq rows]
    exact spreadsZones_take rows count
  · rintro hashRing chunkHash world rfl rfl
    refine ⟨run_selectStorageNodes_count hashRing chunkHash count world, ?_⟩
    intro selected after run
    exact (triple_selectStorageNodes_count hashRing chunkHash count world rfl run).1

/-- A node in a zone, with a status. -/
def nodeIn (availabilityZone : String) (status : NodeStatus) (nodeId : NodeId) :
    StorageNodeRecord :=
  { registered nodeId with availabilityZone := availabilityZone, status := status }

/-- Two active nodes in one zone, and an offline and an active node in another. -/
def twoZones : Database :=
  { Database.empty with
    storageNodes := [nodeIn "east" .active "a", nodeIn "east" .active "b",
      nodeIn "west" .offline "c", nodeIn "west" .active "d"].foldl Table.insertIfAbsent (.empty _)
    replicaNode := by simp [Database.empty] }

/-- The second node of the first zone is passed over for a node of the other zone. -/
theorem selectFrom_twoZones :
    (selectFrom 2 (["a", "b", "c", "d", "e"].map twoZones.getStorageNode)).map
        StorageNodeInfo.nodeId = ["a", "d"] ∧
      SpreadsZones 2 (activeRows (["a", "b", "c", "d", "e"].map twoZones.getStorageNode))
        (selectFrom 2 (["a", "b", "c", "d", "e"].map twoZones.getStorageNode)) := by
  have spread := selectStorageNodes_spreadsZones
    (by decide : ["a", "b", "c", "d", "e"].Nodup) twoZones 2
  exact ⟨by decide +kernel, spread.1⟩

end DistributedFileStorage.Replication.ReplicationServiceImpl
