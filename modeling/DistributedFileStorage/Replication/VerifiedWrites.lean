import DistributedFileStorage.Chunking.ChunkManager
import DistributedFileStorage.Encryption.KeyAgreement
import DistributedFileStorage.Replication.Integrity
import DistributedFileStorage.Replication.QuorumWrite

/-!
# What the verification finds after a write

Four components handle the hash of a chunk. The chunk manager computes it from the
plaintext, the encryption service turns the plaintext into other bytes, `replicateChunk`
stores these bytes under the hash, and the verification of a storage node compares the hash
with the digest of the bytes it stores.

So a verification right after a write finds no corrupted replica exactly when the cipher
leaves the digest of the chunk as it is, and the replicas that were there before are
intact (`verifyReplicas_replicateChunk_iff`). Otherwise the repair deletes what has just
been written.
-/

set_option autoImplicit false

namespace DistributedFileStorage.Replication

open Async Store Services Nodes Placement Relational Program Chunking Encryption Sequences

namespace ReplicationServiceImpl

variable {sha256 : Sha256} {hashRing : ConsistentHashRing ChunkHash} {storageNodes : List NodeId}
  {chunkHash : ChunkHash} {world : World} {nodeId : NodeId}

/-! ## Repairs that delete nothing -/

/-- No replica row is gone, and no node has lost the bytes of a chunk. -/
structure DeletesNothing (before after : World) : Prop where
  replicas : before.store.chunkReplicas.rows ⊆ after.store.chunkReplicas.rows
  bytes : ∀ nodeId chunkHash, (before.bytes nodeId chunkHash).isSome →
    (after.bytes nodeId chunkHash).isSome

theorem DeletesNothing.refl (world : World) : DeletesNothing world world :=
  ⟨List.Subset.refl _, fun _ _ => id⟩

theorem keeps_readChunk {invariant : World → Prop} :
    Keeps faulty invariant (StorageNodeImpl.readChunk nodeId chunkHash) := by
  intro before outcome after start run
  have ends := StorageNodeImpl.triple_readChunk rfl run
  cases outcome with
  | ok data => exact ends.1 ▸ start
  | error failure => exact (show after = before from ends) ▸ start

theorem keeps_readHealthy {invariant : World → Prop} (corruptedReplicas : List NodeId)
    (replicas : List ChunkReplicaRecord) :
    Keeps faulty invariant (readHealthy storageNodes chunkHash corruptedReplicas replicas) := by
  induction replicas with
  | nil => exact .pure
  | cons replica rest ih =>
      unfold readHealthy
      split
      · exact ih
      · split
        · exact ih
        · exact .tryCatch (.bind keeps_readChunk fun _ => .pure) fun _ => ih

theorem deletesNothing_writeReplica (chunkData : Buffer) (now : NodeId → Time) (nodeId : NodeId) :
    Keeps faulty (DeletesNothing world)
      (writeReplica storageNodes chunkHash chunkData now nodeId) := by
  unfold writeReplica
  split
  · refine .attempt (.bind ?_ fun _ => .bind ?_ fun nodeRecord => ?_)
    · refine .of_relation (fun _ => .refl _) (fun start => StorageNodeImpl.keeps_writeChunk) ?_
      intro before after keeps puts
      refine ⟨puts.store ▸ keeps.replicas, fun node hash held => ?_⟩
      rcases puts.bytes node hash with same | ⟨_, _, put | ⟨_, put⟩⟩
      · exact same ▸ keeps.bytes node hash held
      · rw [put]
        rfl
      · exact put
    · exact keeps_store fun before keeps => keeps
    · apply keeps_store
      intro before keeps
      show DeletesNothing world (before.commit _).2
      cases created : before.store.createChunkReplica _ with
      | error failure => exact keeps
      | ok db =>
          refine ⟨fun row member => ?_, keeps.bytes⟩
          show row ∈ db.chunkReplicas.rows
          rw [Database.chunkReplicas_createChunkReplica created]
          exact Table.mem_insertIfAbsent.mpr (.inl (keeps.replicas member))
  · exact .pure

theorem deletesNothing_restoreReplicas (health : ReplicaHealth) (now : NodeId → Time) :
    Keeps faulty (DeletesNothing world)
      (restoreReplicas hashRing storageNodes chunkHash health now) := by
  unfold restoreReplicas
  dsimp only
  split
  · exact .pure
  · refine .bind (keeps_store fun before keeps => keeps) fun replicas => ?_
    refine .bind (keeps_readHealthy _ _) ?_
    intro chunkData
    cases chunkData with
    | none => exact .throw
    | some data => exact .forEach fun nodeId _ => deletesNothing_writeReplica data now nodeId

/-- **When a verification finds no corrupted replica, the repair deletes nothing.** -/
theorem deletesNothing_reReplicate {health : ReplicaHealth}
    (verified : (verifyReplicas sha256 storageNodes chunkHash).run exec world = (.ok health, world))
    (none : health.corruptedReplicas = []) (now : NodeId → Time) :
    DeletesNothing world
      ((reReplicate sha256 hashRing storageNodes chunkHash now).run exec world).2 := by
  have keeps : Keeps faulty (DeletesNothing world)
      (repair hashRing storageNodes chunkHash now health) := by
    unfold repair
    rw [none]
    exact deletesNothing_restoreReplicas health now
  rw [reReplicate, run_bind_ok exec verified]
  exact keeps.of_runs (.refl world) (runs_withFaults_of_run (Prod.eta _).symm)

/-! ## The verification without a fault -/

theorem run_verifyReplica_working (sha256 : Sha256) (storageNodes : List NodeId)
    (chunkHash : ChunkHash) (verified : Verified) (replica : ChunkReplicaRecord) (world : World) :
    (verifyReplica sha256 storageNodes chunkHash verified replica).run exec world =
      (.ok (judge sha256 storageNodes chunkHash world verified replica), world) := by
  by_cases isRead : replica.nodeId ∈ storageNodes ∧ validChunkHash chunkHash = true
  · obtain ⟨handled, valid⟩ := isRead
    have run := @run_verifyReplica sha256 _ _ world (fun _ => true) valid verified _ handled none []
    rw [run_of_working (by simp) run]
    simp [judge, Healthy, handled]
  · have run := @run_verifyReplica_unread sha256 _ _ world (fun _ => true) verified _ isRead []
    have broken : ¬ Healthy sha256 storageNodes chunkHash world replica :=
      fun healthy => isRead ⟨healthy.1, healthy.2.valid⟩
    rw [run_of_working (by simp) run, judge, if_neg broken]

/-- **A verification without a fault** resolves, changes nothing, and finds no corrupted
replica exactly when all replicas of the chunk are healthy. -/
theorem run_verifyReplicas_working (sha256 : Sha256) (storageNodes : List NodeId)
    (chunkHash : ChunkHash) (world : World) :
    ∃ health, (verifyReplicas sha256 storageNodes chunkHash).run exec world = (.ok health, world) ∧
      (health.corruptedReplicas = [] ↔ ∀ replica ∈ world.store.getChunkReplicas chunkHash,
        Healthy sha256 storageNodes chunkHash world replica) := by
  have listed : (store (.getChunkReplicas chunkHash)).run exec world =
      (.ok (world.store.getChunkReplicas chunkHash), world) := rfl
  have judged := run_foldEach exec (run_verifyReplica_working sha256 storageNodes chunkHash)
    (world.store.getChunkReplicas chunkHash) {} world
  refine ⟨_, (run_bind_ok exec listed).trans (run_bind_ok exec judged), ?_⟩
  show Verified.corruptedReplicas _ = [] ↔ _
  rw [corruptedReplicas_foldl_judge]
  simp

/-! ## Writing an encrypted chunk -/

/-- The cipher leaves the digest of a chunk as it is. -/
def KeepsDigest (sha256 : Sha256) (aes : Aes256Gcm) (key iv chunkData : Buffer) : Prop :=
  ∃ data authTag, aes.encrypt key iv chunkData = .ok (data, authTag) ∧
    sha256.digest data = sha256.digest chunkData

/-- After a write the replicas on the nodes it has written to are intact when the data has
the hash as its digest, and the others are as they were. -/
theorem Stored.intact_iff {written : List NodeId} {chunkData : Buffer} {after : World}
    (stored : Stored written chunkHash chunkData world after) (nodeId : NodeId) :
    Intact sha256 chunkHash after nodeId ↔
      if nodeId ∈ written then sha256.digest chunkData = chunkHash
      else Intact sha256 chunkHash world nodeId := by
  unfold Intact
  split
  · rename_i member
    rw [stored.held nodeId member]
    simp
  · rename_i elsewhere
    rcases stored.stores.bytes nodeId with same | ⟨member, _⟩
    · rw [same]
    · exact absurd member elsewhere

/-- The replicas of a chunk are healthy after a write when the data has the hash as its
digest and the replicas that were there before, elsewhere, are healthy. -/
theorem Stored.healthy_iff (sha256 : Sha256) {written : List NodeId} {chunkData : Buffer}
    {after : World} (stored : Stored written chunkHash chunkData world after)
    (handled : ∀ nodeId ∈ written, nodeId ∈ storageNodes) :
    (∀ replica ∈ after.store.getChunkReplicas chunkHash,
        Healthy sha256 storageNodes chunkHash after replica) ↔
      sha256.digest chunkData = chunkHash ∧
        ∀ replica ∈ world.store.getChunkReplicas chunkHash, replica.nodeId ∈ written ∨
          Healthy sha256 storageNodes chunkHash world replica := by
  constructor
  · intro healthy
    constructor
    · obtain ⟨replica, listed, member⟩ := stored.recorded
      have intact := (stored.intact_iff replica.nodeId).mp (healthy replica listed).2
      rwa [if_pos member] at intact
    · intro replica listed
      by_cases member : replica.nodeId ∈ written
      · exact .inl member
      · obtain ⟨held, intact⟩ := healthy replica (stored.stores.kept listed)
        have before := (stored.intact_iff replica.nodeId).mp intact
        rw [if_neg member] at before
        exact .inr ⟨held, before⟩
  · rintro ⟨digest, others⟩ replica listed
    by_cases member : replica.nodeId ∈ written
    · refine ⟨handled _ member, (stored.intact_iff _).mpr ?_⟩
      rwa [if_pos member]
    · have old := (stored.stores.recorded replica listed).resolve_right member
      obtain ⟨held, intact⟩ := (others replica old).resolve_left member
      refine ⟨held, (stored.intact_iff _).mpr ?_⟩
      rwa [if_neg member]

theorem handled_of_mem_writtenNodes {db : Database}
    (member : nodeId ∈ writtenNodes hashRing storageNodes db chunkHash) :
    nodeId ∈ storageNodes := by
  obtain ⟨nodeInfo, listed, rfl⟩ := List.mem_map.mp member
  exact of_decide_eq_true (List.mem_filter.mp listed).2

/-- **The verification agrees with the write path exactly when the cipher leaves the digest
of the chunk as it is**, and every replica of the chunk that was there before is healthy or
is on a node that has been written to. Then a repair deletes nothing. -/
theorem verifyReplicas_replicateChunk_iff {Instance : Type} [DecidableEq Instance]
    (sha256 : Sha256) (hmac : Buffer → Buffer → Buffer) (aes : Aes256Gcm)
    (hashRing : ConsistentHashRing ChunkHash) (storageNodes : List NodeId) (size : ℕ+)
    (self : Instance) (fileId : String) (fileData chunkData iv : Buffer)
    (timestamp createdAt now : NodeId → Time) {keysBefore keysAfter : KeyState Instance}
    {world after : World} {metadata : ChunkMetadata} {encrypted : EncryptedChunk}
    {locations : List ReplicaLocation}
    (described : (metadata, chunkData) ∈
      (ChunkManagerImpl.chunkFile sha256.digest size fileId fileData).zip (pieces size fileData))
    (encrypts : Runs execKeys.semantics
      (EncryptionServiceImpl.encryptChunk hmac aes self chunkData fileId iv) keysBefore
      (.ok encrypted) keysAfter)
    (replicates : ReplicatesChunk hashRing storageNodes exec.semantics metadata.contentHash
      encrypted.data timestamp createdAt world (.ok locations) after) :
    ((∃ health, (verifyReplicas sha256 storageNodes metadata.contentHash).run exec after =
          (.ok health, after) ∧ health.corruptedReplicas = []) ∧
        DeletesNothing after
          ((reReplicate sha256 hashRing storageNodes metadata.contentHash now).run exec after).2) ↔
      KeepsDigest sha256 aes
          (EncryptionServiceImpl.currentFileKey hmac keysBefore.hsm fileId) iv chunkData ∧
        ∀ replica ∈ world.store.getChunkReplicas metadata.contentHash,
          replica.nodeId ∈ writtenNodes hashRing storageNodes world.store metadata.contentHash ∨
            Healthy sha256 storageNodes metadata.contentHash world replica := by
  have hash := ChunkManagerImpl.contentHash_of_mem described
  have valid : validChunkHash metadata.contentHash = true := hash ▸ sha256.valid chunkData
  have cipher := EncryptionServiceImpl.encrypt_of_runs encrypts
  have keeps : KeepsDigest sha256 aes
      (EncryptionServiceImpl.currentFileKey hmac keysBefore.hsm fileId) iv chunkData ↔
        sha256.digest encrypted.data = metadata.contentHash := by
    rw [hash]
    constructor
    · rintro ⟨data, authTag, made, same⟩
      rw [cipher] at made
      cases made
      exact same
    · exact fun same => ⟨_, _, cipher, same⟩
  have healthy := (replicates.stored valid).healthy_iff sha256
    fun nodeId => handled_of_mem_writtenNodes
  obtain ⟨health, verified, none⟩ :=
    run_verifyReplicas_working sha256 storageNodes metadata.contentHash after
  rw [keeps, ← healthy, ← none]
  constructor
  · rintro ⟨⟨found, again, empty⟩, _⟩
    have same := (Prod.mk.inj (verified.symm.trans again)).1
    exact Except.ok.inj same ▸ empty
  · exact fun empty => ⟨⟨health, verified, empty⟩, deletesNothing_reReplicate verified empty now⟩

/-! ## A chunk of one byte -/

/-- SHA-256 of the virtual nodes of three nodes. -/
def knownNodeHashes (virtualNode : String) : ChunkHash :=
  (([("n1:vnode:0", "ebc19e45cfa7953b7e4db60eab4fc64e3d4101955f1f23819846903afc5e57ec"),
      ("n2:vnode:0", "c0040a9ce730c38ba38bd778ece0022638fab6280ead32d96aa8212ccb00fccc"),
      ("n3:vnode:0", "c9591b70c199aec76df8549b4d55b5239f05e59e3b837355ea222fe90e1c4c43")].find?
    fun entry => entry.1 = virtualNode).map Prod.snd).getD ""

def threeNodes : ConsistentHashRing ChunkHash :=
  ["n1", "n2", "n3"].foldl
    (fun hashRing nodeId => hashRing.addNode knownNodeHashes nodeId (some 1)) (.new 150)

/-- The writes of one call, one node after the other. -/
def sequentialWrites (hashRing : ConsistentHashRing ChunkHash) (storageNodes : List NodeId)
    (chunkHash : ChunkHash) (chunkData : Buffer) (timestamp createdAt : NodeId → Time)
    (world : World) :
    let handled := handledNodes storageNodes (selectedNodes hashRing world.store chunkHash)
    Pool writing (Fin handled.length) Unit ×
      Moment writing (Fin handled.length) (World × WriteProgress) :=
  -- a write makes six calls
  Pool.runSchedule writer ((List.finRange _).flatMap (List.replicate 6))
    (writePromises chunkHash chunkData timestamp createdAt
      (handledNodes storageNodes (selectedNodes hashRing world.store chunkHash)), .start (world, {}))

/-- Writes that settle one after the other, with a quorum, are a call that resolves. -/
theorem replicatesChunk_sequentially (chunkData : Buffer) (timestamp createdAt : NodeId → Time)
    (enough : replicationFactor ≤ (selectedNodes hashRing world.store chunkHash).length)
    (all : ∀ index, ((sequentialWrites hashRing storageNodes chunkHash chunkData timestamp createdAt
      world).1 index).isSettled = true)
    (counted : quorumWrite ≤ (sequentialWrites hashRing storageNodes chunkHash chunkData timestamp
      createdAt world).2.state.2.successCount) :
    ReplicatesChunk hashRing storageNodes exec.semantics chunkHash chunkData timestamp createdAt
      world (.ok (sequentialWrites hashRing storageNodes chunkHash chunkData timestamp createdAt
        world).2.state.2.replicaLocations)
      (sequentialWrites hashRing storageNodes chunkHash chunkData timestamp createdAt
        world).2.state.1 := by
  have writes : PoolRuns (Semantics.withLocals exec.semantics WriteProgress) _
      (sequentialWrites hashRing storageNodes chunkHash chunkData timestamp createdAt world) :=
    Pool.runs_runSchedule (fun op state => by rw [withLocals_semantics]; rfl) _ _
  have selects := runs_semantics_iff.mpr (run_selectStorageNodes hashRing chunkHash world)
  exact .resolves selects enough writes all counted

/-- The byte 7 as a chunk that has been recorded on no node yet. -/
def recordedChunk : World := unreplicated ["n1", "n2", "n3"] (knownDigests.digest [7])

/-- What the chunk manager says about a file of that chunk. -/
def sevenMetadata : ChunkMetadata where
  fileId := "notes"
  sequenceNumber := 0
  contentHash := knownDigests.digest [7]
  size := 1
  encryptedSize := 0

/-- What a call of `replicateChunk` for that chunk leaves. -/
def writtenChunk (chunkData : Buffer) : World :=
  (sequentialWrites threeNodes ["n1", "n2", "n3"] sevenMetadata.contentHash chunkData (fun _ => 1)
    (fun _ => 1) recordedChunk).2.state.1

theorem described_sevenMetadata : (sevenMetadata, [7]) ∈
    (ChunkManagerImpl.chunkFile knownDigests.digest ChunkManagerImpl.chunkSize "notes" [7]).zip
      (pieces ChunkManagerImpl.chunkSize ([7] : Buffer)) := by
  have whole : pieces ChunkManagerImpl.chunkSize ([7] : Buffer) = [[7]] :=
    pieces_of_length_le _ (by decide) (by decide)
  rw [ChunkManagerImpl.chunkFile_eq, whole]
  exact List.mem_cons_self

theorem replicates_writtenChunk (chunkData : Buffer)
    (all : ∀ index, ((sequentialWrites threeNodes ["n1", "n2", "n3"] sevenMetadata.contentHash
      chunkData (fun _ => 1) (fun _ => 1) recordedChunk).1 index).isSettled = true)
    (counted : quorumWrite ≤ (sequentialWrites threeNodes ["n1", "n2", "n3"]
      sevenMetadata.contentHash chunkData (fun _ => 1) (fun _ => 1)
        recordedChunk).2.state.2.successCount) :
    ReplicatesChunk threeNodes ["n1", "n2", "n3"] exec.semantics sevenMetadata.contentHash chunkData
      (fun _ => 1) (fun _ => 1) recordedChunk (.ok (sequentialWrites threeNodes ["n1", "n2", "n3"]
        sevenMetadata.contentHash chunkData (fun _ => 1) (fun _ => 1)
          recordedChunk).2.state.2.replicaLocations) (writtenChunk chunkData) :=
  replicatesChunk_sequentially chunkData _ _ (by decide +kernel) all counted

/-- The security module with the first master key. -/
def firstKeys : KeyState Unit := .new (.new (List.replicate 32 1))

/-- What AES-256-GCM makes of the byte 7 with an initialization vector that leaves it as it
is. -/
def unchangedChunk : EncryptedChunk where
  data := [7]
  iv := [0, 0, 0, 0, 0, 0, 0, 0, 0, 0, 2, 133]
  authTag := [182, 71, 208, 221, 4, 28, 238, 89, 182, 146, 64, 177, 125, 235, 89, 2]
  keyVersion := 1

/-- AES-256-GCM on this encryption. -/
def unchangedCipher : Aes256Gcm :=
  cipherTable
    [{ key := EncryptionServiceImpl.deriveFileKey knownHmac (List.replicate 32 1) "notes",
       iv := unchangedChunk.iv, plaintext := [7], data := unchangedChunk.data,
       authTag := unchangedChunk.authTag }]
    (by decide)

/-- A chunk that its encryption leaves as it is passes the verification. -/
theorem verifyReplicas_keeps_unchangedChunk :
    (∃ health, (verifyReplicas knownDigests ["n1", "n2", "n3"] (knownDigests.digest [7])).run exec
        (writtenChunk [7]) = (.ok health, writtenChunk [7]) ∧ health.corruptedReplicas = []) ∧
      DeletesNothing (writtenChunk [7])
        ((reReplicate knownDigests threeNodes ["n1", "n2", "n3"] (knownDigests.digest [7])
          fun _ => 2).run exec (writtenChunk [7])).2 := by
  have encrypts : Runs execKeys.semantics
      (EncryptionServiceImpl.encryptChunk knownHmac unchangedCipher () [7] "notes"
        unchangedChunk.iv) firstKeys (.ok unchangedChunk) _ := runs_semantics_iff.mpr rfl
  have replicates := replicates_writtenChunk [7] (by decide +kernel) (by decide +kernel)
  have keeps : KeepsDigest knownDigests unchangedCipher
      (EncryptionServiceImpl.currentFileKey knownHmac firstKeys.hsm "notes") unchangedChunk.iv [7] :=
    ⟨_, _, EncryptionServiceImpl.encrypt_of_runs encrypts, rfl⟩
  exact (verifyReplicas_replicateChunk_iff knownDigests knownHmac unchangedCipher threeNodes
    ["n1", "n2", "n3"] _ () "notes" [7] [7] unchangedChunk.iv _ _ (fun _ => 2)
    described_sevenMetadata encrypts replicates).mpr ⟨keeps, by decide +kernel⟩

/-- **The verification blames every replica that has just been written.** The byte 7 is
encrypted to the byte 75. All three nodes store it under the digest of the byte 7, the
verification finds three corrupted replicas, and the repair deletes all of them. -/
theorem verifyReplicas_blames_writtenChunk :
    (sevenMetadata, [7]) ∈
        (ChunkManagerImpl.chunkFile knownDigests.digest ChunkManagerImpl.chunkSize "notes" [7]).zip
          (pieces ChunkManagerImpl.chunkSize ([7] : Buffer)) ∧
      (∃ keysAfter, Runs execKeys.semantics
        (EncryptionServiceImpl.encryptChunk knownHmac knownCipher () [7] "notes" firstChunk.iv)
        firstKeys (.ok firstChunk) keysAfter) ∧
      (∃ locations, ReplicatesChunk threeNodes ["n1", "n2", "n3"] exec.semantics
        sevenMetadata.contentHash firstChunk.data (fun _ => 1) (fun _ => 1) recordedChunk
        (.ok locations) (writtenChunk firstChunk.data)) ∧
      (∃ health, (verifyReplicas knownDigests ["n1", "n2", "n3"] sevenMetadata.contentHash).run exec
          (writtenChunk firstChunk.data) = (.ok health, writtenChunk firstChunk.data) ∧
        health.corruptedReplicas = ["n1", "n2", "n3"]) ∧
      ∀ nodeId ∈ ["n1", "n2", "n3"],
        (writtenChunk firstChunk.data).bytes nodeId sevenMetadata.contentHash =
            some firstChunk.data ∧
          ((reReplicate knownDigests threeNodes ["n1", "n2", "n3"] sevenMetadata.contentHash
            fun _ => 2).run exec (writtenChunk firstChunk.data)).2.bytes nodeId
              sevenMetadata.contentHash = none := by
  have replicates := replicates_writtenChunk [75] (by decide +kernel) (by decide +kernel)
  refine ⟨described_sevenMetadata, ⟨_, runs_semantics_iff.mpr rfl⟩, ⟨_, replicates⟩,
    ⟨_, rfl, ?_⟩, ?_⟩
  · decide +kernel
  · decide +kernel

end ReplicationServiceImpl

end DistributedFileStorage.Replication
