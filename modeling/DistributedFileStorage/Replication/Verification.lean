import DistributedFileStorage.Replication.ReplicationService

/-!
# The verification of the replicas

A replica is intact when its node holds bytes whose digest is the hash of the chunk, and
healthy when the service also has a handle on the node. The verification reads each replica once.
A read that fails is no sign of corruption, but the verification counts it as one.

The module says what the verification finds under every pattern of failures
(`run_verifyReplicas`): what it finds without a fault, unless a read of an intact replica fails.
-/

set_option autoImplicit false

namespace DistributedFileStorage.Replication

open Async Store Services Nodes Placement Relational Program

/-- The node holds bytes under the hash, and the hash is their digest. -/
def Intact (sha256 : Sha256) (chunkHash : ChunkHash) (world : World) (nodeId : NodeId) : Prop :=
  ∃ data ∈ world.bytes nodeId chunkHash, sha256.digest data = chunkHash

instance (sha256 : Sha256) (chunkHash : ChunkHash) (world : World) :
    DecidablePred (Intact sha256 chunkHash world) :=
  fun _ => inferInstanceAs (Decidable (∃ data ∈ _, _))

/-- A hash with intact bytes has the format of a chunk hash. -/
theorem Intact.valid {sha256 : Sha256} {chunkHash : ChunkHash} {world : World} {nodeId : NodeId}
    (intact : Intact sha256 chunkHash world nodeId) : validChunkHash chunkHash = true := by
  obtain ⟨data, _, rfl⟩ := intact
  exact sha256.valid data

namespace ReplicationServiceImpl

variable {sha256 : Sha256} {storageNodes : List NodeId} {chunkHash : ChunkHash} {world : World}

/-! ## The judgement without a fault -/

/-- A replica that the verification finds healthy when no call fails. -/
def Healthy (sha256 : Sha256) (storageNodes : List NodeId) (chunkHash : ChunkHash) (world : World)
    (replica : ChunkReplicaRecord) : Prop :=
  replica.nodeId ∈ storageNodes ∧ Intact sha256 chunkHash world replica.nodeId

instance (sha256 : Sha256) (storageNodes : List NodeId) (chunkHash : ChunkHash) (world : World) :
    DecidablePred (Healthy sha256 storageNodes chunkHash world) :=
  fun _ => inferInstanceAs (Decidable (_ ∧ _))

/-- The judgement of one replica. -/
def judge (sha256 : Sha256) (storageNodes : List NodeId) (chunkHash : ChunkHash) (world : World)
    (verified : Verified) (replica : ChunkReplicaRecord) : Verified :=
  if Healthy sha256 storageNodes chunkHash world replica then verified.healthy replica.nodeId
  else verified.corrupted replica.nodeId

/-- The corrupted replicas are those that are not healthy, in the order of their rows. -/
theorem corruptedReplicas_foldl_judge (replicas : List ChunkReplicaRecord) (verified : Verified) :
    (replicas.foldl (judge sha256 storageNodes chunkHash world) verified).corruptedReplicas =
      verified.corruptedReplicas ++
        (replicas.filter fun replica => ¬ Healthy sha256 storageNodes chunkHash world replica).map
          ChunkReplicaRecord.nodeId := by
  induction replicas generalizing verified with
  | nil => exact (List.append_nil _).symm
  | cons replica rest ih =>
      rw [List.foldl_cons, ih, judge]
      by_cases healthy : Healthy sha256 storageNodes chunkHash world replica
      · simp [healthy, Verified.healthy]
      · simp [healthy, Verified.corrupted]

/-! ## The verification under a pattern of failures -/

/-- The replicas that a verification reads: those whose node has a handle, unless the
hash does not have the format of a chunk hash. -/
def verifiedReplicas (storageNodes : List NodeId) (chunkHash : ChunkHash)
    (replicas : List ChunkReplicaRecord) : List ChunkReplicaRecord :=
  replicas.filter fun replica => replica.nodeId ∈ storageNodes ∧ validChunkHash chunkHash

/-- The services under a pattern of failures, when writes fail on unreliable nodes only. -/
abbrev underPattern (unreliable : NodeId → Bool) : Handler system (World × FaultPattern) :=
  exec.underPattern (Call.faultsOn unreliable)

section UnderPattern

variable {unreliable : NodeId → Bool}

/-- A read under a pattern: its own failure comes first, then a missing file. -/
theorem run_readChunk (valid : validChunkHash chunkHash = true) (nodeId : NodeId)
    (read : Option (Failure × Option Buffer)) (rest : FaultPattern) :
    (StorageNodeImpl.readChunk nodeId chunkHash).run (underPattern unreliable)
        (world, read :: rest) =
      (match read, world.bytes nodeId chunkHash with
        | none, some data => .ok data
        | none, none => .error (.error s!"Chunk not found: {chunkHash}")
        | some (.noEntry, _), _ => .error (.error s!"Chunk not found: {chunkHash}")
        | some (failure, _), _ =>
            .error (.error s!"Failed to read chunk {chunkHash}: {failure.message}"),
        world, rest) := by
  rw [StorageNodeImpl.readChunk,
    run_bind_ok _ (StorageNodeImpl.run_validateChunkHash _ _ valid), run_tryCatch]
  cases read with
  | some fault =>
      have failed : (disk nodeId (.readFile (getChunkPath chunkHash))).run (underPattern unreliable)
          (world, some fault :: rest) = (.error fault.1, world, rest) := rfl
      rw [failed]
      obtain ⟨failure, damage⟩ := fault
      cases failure <;> rfl
  | none =>
      have reads : (disk nodeId (.readFile (getChunkPath chunkHash))).run (underPattern unreliable)
          (world, none :: rest) =
            ((world.nodes nodeId).disk.readFile (getChunkPath chunkHash), world, rest) := rfl
      rw [reads, Disk.readFile_eq]
      unfold World.bytes
      cases (world.nodes nodeId).disk.contents (getChunkPath chunkHash) <;> rfl

/-- A check finds a replica healthy when its read does not fail and its bytes are intact. -/
theorem run_verifyChunkIntegrity (valid : validChunkHash chunkHash = true) (nodeId : NodeId)
    (read : Option (Failure × Option Buffer)) (rest : FaultPattern) :
    (StorageNodeImpl.verifyChunkIntegrity sha256 nodeId chunkHash).run (underPattern unreliable)
        (world, read :: rest) =
      (.ok (decide (read = none ∧ Intact sha256 chunkHash world nodeId)), world, rest) := by
  rw [StorageNodeImpl.verifyChunkIntegrity,
    run_bind_ok _ (StorageNodeImpl.run_validateChunkHash _ _ valid), run_tryCatch, run_bind,
    run_readChunk valid]
  cases read with
  | some fault => rcases fault with ⟨_ | _ | _, damage⟩ <;> simp
  | none =>
      cases found : world.bytes nodeId chunkHash with
      | none => simp [Intact, found]
      | some data => simp [Intact, found]

/-- The judgement of one replica, with the entry of the pattern for its read. -/
theorem run_verifyReplica (valid : validChunkHash chunkHash = true) (verified : Verified)
    {replica : ChunkReplicaRecord} (handled : replica.nodeId ∈ storageNodes)
    (read : Option (Failure × Option Buffer)) (rest : FaultPattern) :
    (verifyReplica sha256 storageNodes chunkHash verified replica).run (underPattern unreliable)
        (world, read :: rest) =
      (.ok (if read = none ∧ Intact sha256 chunkHash world replica.nodeId then
        verified.healthy replica.nodeId else verified.corrupted replica.nodeId), world, rest) := by
  rw [verifyReplica, if_pos handled, run_tryCatch,
    run_bind_ok _ (run_verifyChunkIntegrity valid replica.nodeId read rest)]
  by_cases healthy : read = none ∧ Intact sha256 chunkHash world replica.nodeId
  · simp [healthy]
  · simp [healthy]

/-- A replica that is not read is taken for corrupted. -/
theorem run_verifyReplica_unread (verified : Verified) {replica : ChunkReplicaRecord}
    (unread : ¬ (replica.nodeId ∈ storageNodes ∧ validChunkHash chunkHash = true))
    (pattern : FaultPattern) :
    (verifyReplica sha256 storageNodes chunkHash verified replica).run (underPattern unreliable)
        (world, pattern) =
      (.ok (verified.corrupted replica.nodeId), world, pattern) := by
  unfold verifyReplica
  by_cases handled : replica.nodeId ∈ storageNodes
  · have invalid : validChunkHash chunkHash ≠ true := fun valid => unread ⟨handled, valid⟩
    simp [handled, StorageNodeImpl.verifyChunkIntegrity, StorageNodeImpl.validateChunkHash, invalid]
    rfl
  · rw [if_neg handled]
    rfl

/-- What a verification has found after it has read some replicas: it keeps what it had
found, it blames every replica whose read failed, and when no read of an intact replica failed it
has judged all of them as it does without faults. -/
structure Judges (sha256 : Sha256) (storageNodes : List NodeId) (chunkHash : ChunkHash)
    (world : World) (replicas : List ChunkReplicaRecord) (reads : FaultPattern)
    (verified found : Verified) : Prop where
  keeps : ∀ nodeId ∈ verified.corruptedReplicas, nodeId ∈ found.corruptedReplicas
  failed : ∀ read ∈ (verifiedReplicas storageNodes chunkHash replicas).zip reads,
    read.2 ≠ none → read.1.nodeId ∈ found.corruptedReplicas
  exact : (∀ read ∈ (verifiedReplicas storageNodes chunkHash replicas).zip reads,
      Intact sha256 chunkHash world read.1.nodeId → read.2 = none) →
    found = replicas.foldl (judge sha256 storageNodes chunkHash world) verified

/-- A replica that is not read, and then the others. -/
theorem Judges.unread {verified found : Verified} {replica : ChunkReplicaRecord}
    {rest : List ChunkReplicaRecord} {reads : FaultPattern}
    (unread : ¬ (replica.nodeId ∈ storageNodes ∧ validChunkHash chunkHash = true))
    (later : Judges sha256 storageNodes chunkHash world rest reads
      (verified.corrupted replica.nodeId) found) :
    Judges sha256 storageNodes chunkHash world (replica :: rest) reads verified found := by
  have skipped : verifiedReplicas storageNodes chunkHash (replica :: rest) =
      verifiedReplicas storageNodes chunkHash rest :=
    List.filter_cons_of_neg (by simpa using unread)
  have broken : ¬ Healthy sha256 storageNodes chunkHash world replica :=
    fun healthy => unread ⟨healthy.1, healthy.2.valid⟩
  constructor
  · exact fun nodeId member => later.keeps nodeId (List.mem_append_left _ member)
  · exact skipped ▸ later.failed
  · intro works
    rw [List.foldl_cons, judge, if_neg broken]
    exact later.exact (skipped ▸ works)

/-- A replica that is read, and then the others. -/
theorem Judges.read {verified found : Verified} {replica : ChunkReplicaRecord}
    {rest : List ChunkReplicaRecord} {read : Option (Failure × Option Buffer)}
    {reads : FaultPattern}
    (handled : replica.nodeId ∈ storageNodes) (valid : validChunkHash chunkHash = true)
    (later : Judges sha256 storageNodes chunkHash world rest reads
      (if read = none ∧ Intact sha256 chunkHash world replica.nodeId then
        verified.healthy replica.nodeId else verified.corrupted replica.nodeId) found) :
    Judges sha256 storageNodes chunkHash world (replica :: rest) (read :: reads) verified
      found := by
  have listed : verifiedReplicas storageNodes chunkHash (replica :: rest) =
      replica :: verifiedReplicas storageNodes chunkHash rest :=
    List.filter_cons_of_pos (by simpa using ⟨handled, valid⟩)
  have zipped : (verifiedReplicas storageNodes chunkHash (replica :: rest)).zip (read :: reads) =
      (replica, read) :: (verifiedReplicas storageNodes chunkHash rest).zip reads := by
    rw [listed, List.zip_cons_cons]
  constructor
  · intro nodeId member
    refine later.keeps nodeId ?_
    split
    · exact member
    · exact List.mem_append_left _ member
  · rw [zipped]
    intro other member failed
    rcases List.mem_cons.mp member with rfl | old
    · rw [if_neg fun good => failed good.1] at later
      exact later.keeps _ (List.mem_append_right _ (List.mem_singleton_self _))
    · exact later.failed other old failed
  · rw [zipped]
    intro works
    have judged : (if read = none ∧ Intact sha256 chunkHash world replica.nodeId then
        verified.healthy replica.nodeId else verified.corrupted replica.nodeId) =
          judge sha256 storageNodes chunkHash world verified replica := by
      have here : Intact sha256 chunkHash world replica.nodeId → read = none :=
        works (replica, read) List.mem_cons_self
      by_cases intact : Intact sha256 chunkHash world replica.nodeId
      · simp [judge, Healthy, handled, intact, here intact]
      · simp [judge, Healthy, intact]
    rw [List.foldl_cons, ← judged]
    exact later.exact fun other member => works other (List.mem_cons_of_mem _ member)

theorem run_foldEach_verifyReplica (replicas : List ChunkReplicaRecord) (verified : Verified)
    (reads : FaultPattern)
    (complete : reads.length = (verifiedReplicas storageNodes chunkHash replicas).length) :
    ∃ found : Verified,
      Judges sha256 storageNodes chunkHash world replicas reads verified found ∧
      ∀ later, (foldEach (verifyReplica sha256 storageNodes chunkHash) verified replicas).run
        (underPattern unreliable) (world, reads ++ later) = (.ok found, world, later) := by
  induction replicas generalizing verified reads with
  | nil =>
      have none : reads = [] := List.length_eq_zero_iff.mp complete
      subst none
      exact ⟨verified, ⟨fun _ => id, by simp [verifiedReplicas], fun _ => rfl⟩, fun later => rfl⟩
  | cons replica rest ih =>
      by_cases isRead : replica.nodeId ∈ storageNodes ∧ validChunkHash chunkHash = true
      · obtain ⟨handled, valid⟩ := isRead
        have listed : verifiedReplicas storageNodes chunkHash (replica :: rest) =
            replica :: verifiedReplicas storageNodes chunkHash rest :=
          List.filter_cons_of_pos (by simpa using ⟨handled, valid⟩)
        rw [listed] at complete
        obtain ⟨read, reads, rfl⟩ := List.exists_cons_of_length_eq_add_one complete
        obtain ⟨found, judges, run⟩ := ih _ reads (by simpa using complete)
        refine ⟨found, judges.read handled valid, fun later => ?_⟩
        exact (run_bind_ok _ (run_verifyReplica valid verified handled read _)).trans (run later)
      · have skipped : verifiedReplicas storageNodes chunkHash (replica :: rest) =
            verifiedReplicas storageNodes chunkHash rest :=
          List.filter_cons_of_neg (by simpa using isRead)
        obtain ⟨found, judges, run⟩ := ih (verified.corrupted replica.nodeId) reads
          (skipped ▸ complete)
        refine ⟨found, judges.unread isRead, fun later => ?_⟩
        exact (run_bind_ok _ (run_verifyReplica_unread verified isRead _)).trans (run later)

/-- What a verification reports of what it has found. -/
def Verified.health (verified : Verified) (chunkHash : ChunkHash)
    (replicas : List ChunkReplicaRecord) : ReplicaHealth :=
  { chunkHash := chunkHash, replicaCount := replicas.length,
    healthyReplicas := verified.healthyReplicas.length,
    corruptedReplicas := verified.corruptedReplicas }

/-- **The verification under a pattern** whose first entry, for the listing of the
replicas, is that it works. -/
theorem run_verifyReplicas (sha256 : Sha256) (unreliable : NodeId → Bool) (reads : FaultPattern)
    (complete : reads.length = (verifiedReplicas storageNodes chunkHash
      (world.store.getChunkReplicas chunkHash)).length) :
    ∃ found : Verified,
      Judges sha256 storageNodes chunkHash world (world.store.getChunkReplicas chunkHash) reads {}
        found ∧
      ∀ later, (verifyReplicas sha256 storageNodes chunkHash).run (underPattern unreliable)
        (world, none :: (reads ++ later)) =
          (.ok (found.health chunkHash (world.store.getChunkReplicas chunkHash)), world,
            later) := by
  obtain ⟨found, judges, run⟩ := @run_foldEach_verifyReplica sha256 storageNodes chunkHash world
    unreliable (world.store.getChunkReplicas chunkHash) {} reads complete
  refine ⟨found, judges, fun later => ?_⟩
  have listed : (store (.getChunkReplicas chunkHash)).run (underPattern unreliable)
      (world, none :: (reads ++ later)) =
        (.ok (world.store.getChunkReplicas chunkHash), world, reads ++ later) := rfl
  exact (run_bind_ok _ listed).trans (run_bind_ok _ (run later))

end UnderPattern

end ReplicationServiceImpl

end DistributedFileStorage.Replication
