import DistributedFileStorage.Nodes.StorageNode
import DistributedFileStorage.Placement.ConsistentHashRing
import Mathlib.Data.String.Basic

/-!
# The replication service

`verifyReplicas` goes through the replica rows of a chunk and checks each replica on its
node. `reReplicate` deletes the replicas that the check did not find healthy, and then
copies the chunk from one that is left to nodes that have no replica.

The service holds a handle on some of the storage nodes. Here a handle is the identifier
of the node. The dates of new rows are read from the clock, so they are an argument, one
for each node.
-/

set_option autoImplicit false

namespace DistributedFileStorage.Replication

open Async Store Services Nodes Placement

structure ReplicaHealth where
  chunkHash : ChunkHash
  replicaCount : ℕ
  healthyReplicas : ℕ
  corruptedReplicas : List NodeId
  deriving DecidableEq

namespace ReplicationServiceImpl

def replicationFactor : ℕ := 3

variable (sha256 : Sha256) (hashRing : ConsistentHashRing ChunkHash) (storageNodes : List NodeId)

/-- The replicas that a verification has found healthy, and those it has not. -/
structure Verified where
  healthyReplicas : List NodeId := []
  corruptedReplicas : List NodeId := []

/-- `healthyReplicas.push(nodeId)`. -/
def Verified.healthy (verified : Verified) (nodeId : NodeId) : Verified :=
  { verified with healthyReplicas := verified.healthyReplicas ++ [nodeId] }

/-- `corruptedReplicas.push(nodeId)`. -/
def Verified.corrupted (verified : Verified) (nodeId : NodeId) : Verified :=
  { verified with corruptedReplicas := verified.corruptedReplicas ++ [nodeId] }

/-- One iteration of the loop of `verifyReplicas`. -/
def verifyReplica (chunkHash : ChunkHash) (verified : Verified) (replica : ChunkReplicaRecord) :
    Async Verified :=
  if replica.nodeId ∈ storageNodes then
    Program.tryCatch
      (do
        let isValid ← StorageNodeImpl.verifyChunkIntegrity sha256 replica.nodeId chunkHash
        if isValid then pure (verified.healthy replica.nodeId)
        else pure (verified.corrupted replica.nodeId))
      fun _ => pure (verified.corrupted replica.nodeId)
  else pure (verified.corrupted replica.nodeId)

def verifyReplicas (chunkHash : ChunkHash) : Async ReplicaHealth := do
  let replicas ← store (.getChunkReplicas chunkHash)
  let verified ← Program.foldEach (verifyReplica sha256 storageNodes chunkHash) {} replicas
  pure
    { chunkHash := chunkHash, replicaCount := replicas.length,
      healthyReplicas := verified.healthyReplicas.length,
      corruptedReplicas := verified.corruptedReplicas }

/-- One iteration of the loop of `reReplicate` that removes corrupted replicas. -/
def removeCorrupted (chunkHash : ChunkHash) (nodeId : NodeId) : Async Unit :=
  Program.attempt do
    if nodeId ∈ storageNodes then StorageNodeImpl.deleteChunk nodeId chunkHash
    store (.deleteChunkReplica chunkHash nodeId)

/-- The loop of `reReplicate` that reads the chunk from the first replica it can. -/
def readHealthy (chunkHash : ChunkHash) (corruptedReplicas : List NodeId) :
    List ChunkReplicaRecord → Async (Option Buffer)
  | [] => pure none
  | replica :: replicas =>
      if replica.nodeId ∈ corruptedReplicas then readHealthy chunkHash corruptedReplicas replicas
      else if replica.nodeId ∉ storageNodes then readHealthy chunkHash corruptedReplicas replicas
      else
        Program.tryCatch
          (do
            let chunkData ← StorageNodeImpl.readChunk replica.nodeId chunkHash
            pure (some chunkData))
          fun _ => readHealthy chunkHash corruptedReplicas replicas

/-- `nodeRecord?.availabilityZone || 'unknown'`. -/
def zoneOrUnknown (nodeRecord : Option StorageNodeRecord) : String :=
  match nodeRecord with
  | some node => if node.availabilityZone = "" then "unknown" else node.availabilityZone
  | none => "unknown"

/-- One iteration of the loop of `reReplicate` that writes new replicas. -/
def writeReplica (chunkHash : ChunkHash) (chunkData : Buffer) (now : NodeId → Time)
    (nodeId : NodeId) : Async Unit :=
  if nodeId ∈ storageNodes then
    Program.attempt do
      StorageNodeImpl.writeChunk nodeId chunkHash chunkData
      let nodeRecord ← store (.getStorageNode nodeId)
      store (.createChunkReplica
        { chunkHash := chunkHash, nodeId := nodeId, availabilityZone := zoneOrUnknown nodeRecord,
          createdAt := now nodeId })
  else pure ()

/-- What `reReplicate` does after it has removed the corrupted replicas. -/
def restoreReplicas (chunkHash : ChunkHash) (health : ReplicaHealth) (now : NodeId → Time) :
    Async Unit := do
  let currentReplicas := health.replicaCount - health.corruptedReplicas.length
  if replicationFactor ≤ currentReplicas then pure ()
  else
    let replicas ← store (.getChunkReplicas chunkHash)
    match ← readHealthy storageNodes chunkHash health.corruptedReplicas replicas with
    | none => reject s!"Cannot re-replicate chunk {chunkHash}: no healthy replicas found"
    | some chunkData =>
        let existingNodeIds := replicas.map ChunkReplicaRecord.nodeId
        let neededReplicas := replicationFactor - currentReplicas
        let allCandidates := hashRing.getNodes chunkHash (replicationFactor * 3 : ℕ)
        let newNodeIds :=
          (allCandidates.filter fun nodeId => nodeId ∉ existingNodeIds).take neededReplicas
        Program.forEach (writeReplica storageNodes chunkHash chunkData now) newNodeIds

/-- What `reReplicate` does with the health of the replicas. -/
def repair (chunkHash : ChunkHash) (now : NodeId → Time) (health : ReplicaHealth) : Async Unit := do
  Program.forEach (removeCorrupted storageNodes chunkHash) health.corruptedReplicas
  restoreReplicas hashRing storageNodes chunkHash health now

def reReplicate (chunkHash : ChunkHash) (now : NodeId → Time) : Async Unit := do
  let health ← verifyReplicas sha256 storageNodes chunkHash
  repair hashRing storageNodes chunkHash now health

end ReplicationServiceImpl

end DistributedFileStorage.Replication
