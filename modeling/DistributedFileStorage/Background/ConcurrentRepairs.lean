import DistributedFileStorage.Async.StableAssertions
import DistributedFileStorage.Background.ReplicaIntegrity
import DistributedFileStorage.Replication.QuorumWrite

/-!
# Repairs next to each other

A repair first verifies the replicas of a chunk, then deletes those it has found corrupted, and
then copies the chunk. Between these calls another repair may have deleted or written the same
replicas, so that what the first one has found does not hold any more. It may even delete a good
copy that the other one has just written.

A node that held intact bytes at first is spared all the same, as long as its files can be read and
written: no verification finds it corrupted, so no repair deletes it. And every byte that a repair
writes is intact, although it does not check what it copies: a replica that it has not found
corrupted has been verified, or another call has written it since (`keepsIntact_of_repairs`).
-/

set_option autoImplicit false

namespace DistributedFileStorage.Replication

open Async Store Services Nodes Placement Relational Program

/-- Any call may fail, except that files can be read and written. -/
def accessible : Semantics system World :=
  exec.withFaults
    { fallible := fun op =>
        match op with
        | .disk _ (.readFile _) => false
        | .disk _ (.writeFile _ _) => false
        | _ => op.fallible
      leaves := Call.leaves }

/-- Then a call that fails has no effect. -/
theorem accessible_cases {op : Call} {before after : World}
    {outcome : system.Outcome (system.Result op)} (happens : accessible op before outcome after) :
    exec op before = (outcome, after) ∨ (∃ failure, outcome = .error failure) ∧ after = before := by
  rcases happens with works | ⟨fails, failed, damage, rfl⟩
  · exact .inl works
  · refine .inr ⟨failed, ?_⟩
    rcases op with op | ⟨nodeId, op⟩
    · rfl
    · cases op <;> first | rfl | cases fails

/-- The node holds nothing under the hash, or bytes whose digest the hash is. -/
def Uncorrupted (sha256 : Sha256) (chunkHash : ChunkHash) (world : World) (nodeId : NodeId) :
    Prop :=
  ∀ data ∈ world.bytes nodeId chunkHash, sha256.digest data = chunkHash

/-- There is a replica row for the chunk on the node. -/
def Recorded (world : World) (chunkHash : ChunkHash) (nodeId : NodeId) : Prop :=
  (chunkHash, nodeId) ∈ world.store.chunkReplicas.keys

/-- What was intact at first is intact, and if it was recorded, then it still is. -/
structure Safe (sha256 : Sha256) (storageNodes : List NodeId) (origin world : World) : Prop where
  intact : ∀ chunkHash, KeepsIntact sha256 chunkHash origin world
  recorded : ∀ chunkHash, ∀ nodeId ∈ storageNodes, Intact sha256 chunkHash origin nodeId →
    Recorded origin chunkHash nodeId → Recorded world chunkHash nodeId

theorem Safe.refl (sha256 : Sha256) (storageNodes : List NodeId) (world : World) :
    Safe sha256 storageNodes world world :=
  ⟨fun _ _ => id, fun _ _ _ _ => id⟩

/-- How repairs change the state: no node comes to hold corrupted bytes, a new replica row is for a
node that holds none, and what was intact at first is safe. -/
structure Mends (sha256 : Sha256) (storageNodes : List NodeId) (origin before after : World) :
    Prop where
  uncorrupted : ∀ chunkHash nodeId, Uncorrupted sha256 chunkHash before nodeId →
    Uncorrupted sha256 chunkHash after nodeId
  recorded : ∀ chunkHash nodeId, Recorded after chunkHash nodeId →
    Recorded before chunkHash nodeId ∨ Uncorrupted sha256 chunkHash after nodeId
  safe : Safe sha256 storageNodes origin before → Safe sha256 storageNodes origin after

namespace Mends

variable {sha256 : Sha256} {storageNodes : List NodeId} {origin first second third : World}
  {chunkHash : ChunkHash} {nodeId : NodeId}

theorem refl (world : World) : Mends sha256 storageNodes origin world world :=
  ⟨fun _ _ => id, fun _ _ => .inl, id⟩

theorem trans (earlier : Mends sha256 storageNodes origin first second)
    (later : Mends sha256 storageNodes origin second third) :
    Mends sha256 storageNodes origin first third where
  uncorrupted chunkHash nodeId holds :=
    later.uncorrupted chunkHash nodeId (earlier.uncorrupted chunkHash nodeId holds)
  recorded chunkHash nodeId recorded := by
    rcases later.recorded chunkHash nodeId recorded with before | holds
    · rcases earlier.recorded chunkHash nodeId before with start | holds
      · exact .inl start
      · exact .inr (later.uncorrupted chunkHash nodeId holds)
    · exact .inr holds
  safe := later.safe ∘ earlier.safe

/-- Writing intact bytes, or deleting bytes that were not intact at first. -/
theorem of_puts {data : Option Buffer}
    (puts : PutsChunk nodeId chunkHash (· = data) first second)
    (sound : ∀ bytes ∈ data, sha256.digest bytes = chunkHash)
    (spares : data = none → ¬ Intact sha256 chunkHash origin nodeId) :
    Mends sha256 storageNodes origin first second where
  uncorrupted hash node holds := by
    intro bytes held
    rcases puts.bytes node hash with same | ⟨_, rfl, put⟩
    · exact holds bytes (same ▸ held)
    · exact sound bytes (put ▸ held)
  recorded hash node recorded := by
    rw [Recorded, puts.store] at recorded
    exact .inl recorded
  safe holds := by
    constructor
    · intro hash node intact
      rcases puts.bytes node hash with same | ⟨rfl, rfl, put⟩
      · obtain ⟨bytes, held, digest⟩ := holds.intact hash node intact
        exact ⟨bytes, same ▸ held, digest⟩
      · cases data with
        | none => exact absurd intact (spares rfl)
        | some bytes => exact ⟨bytes, put, sound bytes rfl⟩
    · intro hash node handled intact recorded
      rw [Recorded, puts.store]
      exact holds.recorded hash node handled intact recorded

theorem of_same (same : SameChunks first second) :
    Mends sha256 storageNodes origin first second where
  uncorrupted hash node holds bytes held := holds bytes (same.bytes node hash ▸ held)
  recorded hash node recorded := .inl (by rwa [Recorded, same.store] at recorded)
  safe holds := by
    constructor
    · intro hash node intact
      obtain ⟨bytes, held, digest⟩ := holds.intact hash node intact
      exact ⟨bytes, same.bytes node hash ▸ held, digest⟩
    · intro hash node handled intact recorded
      rw [Recorded, same.store]
      exact holds.recorded hash node handled intact recorded

/-- Deleting the row of a replica that was not intact at first, or of a node without a handle. -/
theorem of_deleteChunkReplica
    (spares : nodeId ∈ storageNodes → ¬ Intact sha256 chunkHash origin nodeId) :
    Mends sha256 storageNodes origin first
      (first.setStore (first.store.deleteChunkReplica chunkHash nodeId)) where
  uncorrupted _ _ holds := holds
  recorded _ _ recorded := .inl (Table.mem_keys_delete.mp recorded).1
  safe holds := by
    refine ⟨holds.intact, fun hash node handled intact recorded => ?_⟩
    refine Table.mem_keys_delete.mpr ⟨holds.recorded hash node handled intact recorded, ?_⟩
    rintro ⟨⟩
    exact spares handled intact

/-- Recording a replica on a node that holds no corrupted bytes. -/
theorem of_createChunkReplica {replica : ChunkReplicaRecord} {db : Database}
    (clean : Uncorrupted sha256 replica.chunkHash first replica.nodeId)
    (created : first.store.createChunkReplica replica = .ok db) :
    Mends sha256 storageNodes origin first (first.setStore db) := by
  have rows := Database.chunkReplicas_createChunkReplica created
  refine ⟨fun _ _ holds => holds, fun hash node recorded => ?_, fun holds => ?_⟩
  · have inserted : (hash, node) ∈ (first.store.chunkReplicas.insertIfAbsent replica).keys :=
      rows ▸ recorded
    rcases Table.mem_keys_insertIfAbsent.mp inserted with old | new
    · exact .inl old
    · obtain ⟨rfl, rfl⟩ := Prod.mk.inj new
      exact .inr clean
  · refine ⟨holds.intact, fun hash node handled intact recorded => ?_⟩
    show (hash, node) ∈ db.chunkReplicas.keys
    rw [rows]
    have kept := holds.recorded hash node handled intact recorded
    exact Table.mem_keys_insertIfAbsent.mpr (.inl kept)

/-- A call that works moves the state, and one that fails leaves it as it is. -/
theorem of_call {op : Call} {outcome : system.Outcome (system.Result op)}
    (step : Mends sha256 storageNodes origin first (exec op first).2)
    (happens : accessible op first outcome second) :
    Mends sha256 storageNodes origin first second := by
  rcases accessible_cases happens with works | ⟨_, rfl⟩
  · rwa [works] at step
  · exact .refl _

theorem stable_safe : Stable (Mends sha256 storageNodes origin) (Safe sha256 storageNodes origin) :=
  fun _ _ mends => mends.safe

theorem stable_uncorrupted :
    Stable (Mends sha256 storageNodes origin) (Uncorrupted sha256 chunkHash · nodeId) :=
  fun _ _ mends => mends.uncorrupted chunkHash nodeId

end Mends

/-! ## The calls of the storage nodes -/

section Nodes

variable {sha256 : Sha256} {storageNodes : List NodeId} {origin : World} {ι : Type} {task : ι}
  {chunkHash : ChunkHash} {nodeId : NodeId} {pre : World → Prop}

/-- A program keeps a stable assertion when each of its calls mends every state. -/
theorem secures_of_allCalls {α : Type} {program : Async α}
    (stable : Stable (Mends sha256 storageNodes origin) pre)
    (calls : program.AllCalls fun op => ∀ world,
      Mends sha256 storageNodes origin world (exec op world).2) :
    Secures accessible (Mends sha256 storageNodes origin) task pre program (fun _ => pre) pre :=
  .of_allCalls stable (fun _ before _ _ mends _ happens => .of_call (mends before) happens) calls

theorem secures_validateChunkHash :
    Secures accessible (Mends sha256 storageNodes origin) task pre
      (StorageNodeImpl.validateChunkHash chunkHash) (fun _ => pre)
      (fun world => validChunkHash chunkHash = false ∧ pre world) := by
  unfold StorageNodeImpl.validateChunkHash
  split
  · exact .pure fun _ holds => holds
  · rename_i invalid
    exact .throw fun _ holds => ⟨Bool.eq_false_iff.mpr invalid, holds⟩

/-- After a write the node holds no corrupted bytes. -/
theorem secures_writeChunk {data : Buffer} (digest : sha256.digest data = chunkHash)
    (stable : Stable (Mends sha256 storageNodes origin) pre) :
    Secures accessible (Mends sha256 storageNodes origin) task pre
      (StorageNodeImpl.writeChunk nodeId chunkHash data)
      (fun _ world => Uncorrupted sha256 chunkHash world nodeId ∧ pre world) pre := by
  have created : Secures accessible (Mends sha256 storageNodes origin) task pre
      (disk nodeId (.mkdir (chunkPrefix chunkHash))) (fun _ => pre) pre :=
    secures_of_allCalls stable
      (.perform fun world => .of_same (sameChunks_setNode fun path => rfl))
  have written : Secures accessible (Mends sha256 storageNodes origin) task pre
      (disk nodeId (.writeFile (getChunkPath chunkHash) data))
      (fun _ world => Uncorrupted sha256 chunkHash world nodeId ∧ pre world) pre := by
    refine .perform stable fun before outcome after holds happens => ?_
    have mends : Mends sha256 storageNodes origin before after := by
      refine .of_call (.of_puts (.of_writeFile before) ?_ ?_) happens
      · intro bytes same
        rw [← Option.some.inj same]
        exact digest
      · intro none
        cases none
    refine ⟨mends, ?_⟩
    have kept := stable _ _ mends holds
    cases outcome with
    | error failure => exact kept
    | ok value =>
        refine ⟨?_, kept⟩
        rcases happens with works | ⟨_, ⟨_, resolved⟩, _⟩
        · intro bytes held
          rw [(exec_writeFile works).bytes, if_pos ⟨rfl, rfl⟩] at held
          rw [← Option.some.inj held]
          exact digest
        · cases resolved
  have counted : Secures accessible (Mends sha256 storageNodes origin) task
      (fun world => Uncorrupted sha256 chunkHash world nodeId ∧ pre world)
      (disk nodeId .countChunk)
      (fun _ world => Uncorrupted sha256 chunkHash world nodeId ∧ pre world)
      (fun world => Uncorrupted sha256 chunkHash world nodeId ∧ pre world) :=
    secures_of_allCalls (Mends.stable_uncorrupted.and stable)
      (.perform fun world => .of_same (sameChunks_setNode fun path => rfl))
  have body := created.bind fun _ => written.bind fun _ =>
    counted.consequence (fun _ => id) (fun _ _ => id) fun _ holds => holds.2
  unfold StorageNodeImpl.writeChunk
  refine Secures.bind (secures_validateChunkHash.consequence (fun _ => id) (fun _ _ => id)
    fun _ rejected => rejected.2) fun _ => ?_
  exact body.tryCatch fun failure => .throw fun _ holds => holds

/-- **A read finds what is there.** When it rejects, the node did not hold intact bytes at first. -/
theorem secures_readChunk :
    Secures accessible (Mends sha256 storageNodes origin) task (Safe sha256 storageNodes origin)
      (StorageNodeImpl.readChunk nodeId chunkHash)
      (fun data world => world.bytes nodeId chunkHash = some data ∧
        Safe sha256 storageNodes origin world)
      (fun world => ¬ Intact sha256 chunkHash origin nodeId ∧
        Safe sha256 storageNodes origin world) := by
  have read : Secures accessible (Mends sha256 storageNodes origin) task
      (Safe sha256 storageNodes origin) (disk nodeId (.readFile (getChunkPath chunkHash)))
      (fun data world => world.bytes nodeId chunkHash = some data ∧
        Safe sha256 storageNodes origin world)
      (fun world => ¬ Intact sha256 chunkHash origin nodeId ∧
        Safe sha256 storageNodes origin world) := by
    refine .perform Mends.stable_safe fun before outcome after safe happens => ?_
    rcases happens with works | ⟨fails, _⟩
    · have reads : ((before.nodes nodeId).disk.readFile (getChunkPath chunkHash), before) =
          (outcome, after) := works
      obtain ⟨rfl, rfl⟩ := Prod.mk.inj reads
      refine ⟨.refl before, ?_⟩
      rw [Disk.readFile_eq]
      cases found : (before.nodes nodeId).disk.contents (getChunkPath chunkHash) with
      | some data => exact ⟨found, safe⟩
      | none =>
          refine ⟨fun intact => ?_, safe⟩
          obtain ⟨data, held, _⟩ := safe.intact chunkHash nodeId intact
          have empty : before.bytes nodeId chunkHash = none := found
          rw [empty] at held
          cases held
    · cases fails
  unfold StorageNodeImpl.readChunk
  refine Secures.bind (secures_validateChunkHash.consequence (fun _ => id) (fun _ _ => id) ?_)
    fun _ => read.tryCatch fun failure => ?_
  · rintro world ⟨invalid, safe⟩
    refine ⟨fun intact => ?_, safe⟩
    rw [intact.valid] at invalid
    cases invalid
  · split
    · exact .throw fun _ holds => holds
    · exact .throw fun _ holds => holds

/-- **A verification finds out about the node.** -/
theorem secures_verifyChunkIntegrity :
    Secures accessible (Mends sha256 storageNodes origin) task (Safe sha256 storageNodes origin)
      (StorageNodeImpl.verifyChunkIntegrity sha256 nodeId chunkHash)
      (fun isValid world => (if isValid then Uncorrupted sha256 chunkHash world nodeId
        else ¬ Intact sha256 chunkHash origin nodeId) ∧ Safe sha256 storageNodes origin world)
      (fun world => ¬ Intact sha256 chunkHash origin nodeId ∧
        Safe sha256 storageNodes origin world) := by
  unfold StorageNodeImpl.verifyChunkIntegrity
  refine Secures.bind (secures_validateChunkHash.consequence (fun _ => id) (fun _ _ => id) ?_)
    fun _ => Secures.tryCatch (secures_readChunk.bind fun data => .pure ?_) fun failure => .pure ?_
  · rintro world ⟨invalid, safe⟩
    refine ⟨fun intact => ?_, safe⟩
    rw [intact.valid] at invalid
    cases invalid
  · rintro world ⟨held, safe⟩
    refine ⟨?_, safe⟩
    by_cases same : sha256.digest data = chunkHash
    · rw [if_pos (decide_eq_true same)]
      intro bytes found
      rw [← Option.some.inj (held.symm.trans found)]
      exact same
    · rw [if_neg (by simpa using same)]
      intro intact
      obtain ⟨bytes, found, digest⟩ := safe.intact chunkHash nodeId intact
      rw [Option.some.inj (held.symm.trans found)] at same
      exact same digest
  · rintro world ⟨broken, safe⟩
    exact ⟨broken, safe⟩

end Nodes

namespace ReplicationServiceImpl

variable {sha256 : Sha256} {hashRing : ConsistentHashRing ChunkHash} {storageNodes : List NodeId}
  {origin : World} {ι : Type} {task : ι} {chunkHash : ChunkHash} {now : NodeId → Time}

/-! ## What a verification leaves -/

/-- What is known while the replicas of a chunk are verified. Those that have been found corrupted
were not intact at first, and any other replica that has been verified is on a node without
corrupted bytes. So is a replica that has been recorded meanwhile. -/
structure Assessed (sha256 : Sha256) (storageNodes : List NodeId) (origin : World)
    (chunkHash : ChunkHash) (corrupted remaining : List NodeId) (world : World) : Prop where
  safe : Safe sha256 storageNodes origin world
  blamed : ∀ nodeId ∈ corrupted, nodeId ∈ storageNodes → ¬ Intact sha256 chunkHash origin nodeId
  sorted : ∀ nodeId, Recorded world chunkHash nodeId →
    nodeId ∈ corrupted ∨ nodeId ∈ remaining ∨ Uncorrupted sha256 chunkHash world nodeId

theorem stable_assessed {corrupted remaining : List NodeId} :
    Stable (Mends sha256 storageNodes origin)
      (Assessed sha256 storageNodes origin chunkHash corrupted remaining) := by
  intro before after mends judged
  refine ⟨mends.safe judged.safe, judged.blamed, fun nodeId recorded => ?_⟩
  rcases mends.recorded chunkHash nodeId recorded with old | clean
  · rcases judged.sorted nodeId old with blamed | waiting | clean
    · exact .inl blamed
    · exact .inr (.inl waiting)
    · exact .inr (.inr (mends.uncorrupted chunkHash nodeId clean))
  · exact .inr (.inr clean)

/-- The next replica has been found to be in order. -/
theorem Assessed.healthy {corrupted remaining : List NodeId} {nodeId : NodeId} {world : World}
    (judged : Assessed sha256 storageNodes origin chunkHash corrupted (nodeId :: remaining) world)
    (clean : Uncorrupted sha256 chunkHash world nodeId) :
    Assessed sha256 storageNodes origin chunkHash corrupted remaining world := by
  refine ⟨judged.safe, judged.blamed, fun other recorded => ?_⟩
  rcases judged.sorted other recorded with blamed | waiting | fine
  · exact .inl blamed
  · rcases List.mem_cons.mp waiting with rfl | later
    · exact .inr (.inr clean)
    · exact .inr (.inl later)
  · exact .inr (.inr fine)

/-- The next replica has been found corrupted. -/
theorem Assessed.corrupted {corrupted remaining : List NodeId} {nodeId : NodeId} {world : World}
    (judged : Assessed sha256 storageNodes origin chunkHash corrupted (nodeId :: remaining) world)
    (broken : nodeId ∈ storageNodes → ¬ Intact sha256 chunkHash origin nodeId) :
    Assessed sha256 storageNodes origin chunkHash (corrupted ++ [nodeId]) remaining world := by
  refine ⟨judged.safe, fun other member => ?_, fun other recorded => ?_⟩
  · rcases List.mem_append.mp member with old | new
    · exact judged.blamed other old
    · obtain rfl := List.mem_singleton.mp new
      exact broken
  · rcases judged.sorted other recorded with blamed | waiting | fine
    · exact .inl (List.mem_append_left _ blamed)
    · rcases List.mem_cons.mp waiting with rfl | later
      · exact .inl (List.mem_append_right _ (List.mem_singleton_self _))
      · exact .inr (.inl later)
    · exact .inr (.inr fine)

theorem secures_verifyReplica (verified : Verified) (replica : ChunkReplicaRecord)
    (remaining : List ChunkReplicaRecord) :
    Secures accessible (Mends sha256 storageNodes origin) task
      (Assessed sha256 storageNodes origin chunkHash verified.corruptedReplicas
        ((replica :: remaining).map ChunkReplicaRecord.nodeId))
      (verifyReplica sha256 storageNodes chunkHash verified replica)
      (fun found => Assessed sha256 storageNodes origin chunkHash found.corruptedReplicas
        (remaining.map ChunkReplicaRecord.nodeId))
      (Safe sha256 storageNodes origin) := by
  let judged := Assessed sha256 storageNodes origin chunkHash verified.corruptedReplicas
    ((replica :: remaining).map ChunkReplicaRecord.nodeId)
  have verifies : Secures accessible (Mends sha256 storageNodes origin) task judged
      (StorageNodeImpl.verifyChunkIntegrity sha256 replica.nodeId chunkHash)
      (fun isValid world => (if isValid then Uncorrupted sha256 chunkHash world replica.nodeId
        else ¬ Intact sha256 chunkHash origin replica.nodeId) ∧ judged world)
      (fun world => ¬ Intact sha256 chunkHash origin replica.nodeId ∧ judged world) :=
    (Secures.frame stable_assessed secures_verifyChunkIntegrity).consequence
      (fun world holds => ⟨holds.safe, holds⟩) (fun _ _ found => ⟨found.1.1, found.2⟩)
      fun _ found => ⟨found.1.1, found.2⟩
  unfold verifyReplica
  split
  · refine Secures.tryCatch (verifies.bind fun isValid => ?_) fun failure => .pure ?_
    · cases isValid with
      | true => exact .pure fun world found => found.2.healthy found.1
      | false => exact .pure fun world found => found.2.corrupted fun _ => found.1
    · exact fun world found => found.2.corrupted fun _ => found.1
  · rename_i unhandled
    exact .pure fun world holds => holds.corrupted fun handled => absurd handled unhandled

/-- **A verification finds out about all replicas that were recorded**, and what it has found stays
true. -/
theorem secures_verifyReplicas :
    Secures accessible (Mends sha256 storageNodes origin) task (Safe sha256 storageNodes origin)
      (verifyReplicas sha256 storageNodes chunkHash)
      (fun health => Assessed sha256 storageNodes origin chunkHash health.corruptedReplicas [])
      (Safe sha256 storageNodes origin) := by
  have listed : Secures accessible (Mends sha256 storageNodes origin) task
      (Safe sha256 storageNodes origin) (store (.getChunkReplicas chunkHash))
      (fun replicas => Assessed sha256 storageNodes origin chunkHash []
        (replicas.map ChunkReplicaRecord.nodeId))
      (Safe sha256 storageNodes origin) := by
    refine .perform Mends.stable_safe fun before outcome after safe happens => ?_
    rcases accessible_cases happens with works | ⟨⟨failure, rfl⟩, rfl⟩
    · obtain ⟨rfl, rfl⟩ := Prod.mk.inj works
      refine ⟨.refl _, safe, by simp, fun nodeId recorded => .inr (.inl ?_)⟩
      obtain ⟨replica, member, same⟩ := Database.mem_keys_chunkReplicas.mp recorded
      exact List.mem_map.mpr ⟨replica, member, same⟩
    · exact ⟨.refl _, safe⟩
  unfold verifyReplicas
  refine listed.bind fun replicas => ?_
  refine Secures.bind (Secures.foldEach
    (fun (verified : Verified) remaining => Assessed sha256 storageNodes origin chunkHash
      verified.corruptedReplicas (remaining.map ChunkReplicaRecord.nodeId))
    secures_verifyReplica replicas {}) fun verified => .pure fun _ judged => judged

/-! ## What a repair does -/

/-- Removing a replica that was not intact at first. -/
theorem secures_removeCorrupted {pre : World → Prop} {nodeId : NodeId}
    (stable : Stable (Mends sha256 storageNodes origin) pre)
    (broken : nodeId ∈ storageNodes → ¬ Intact sha256 chunkHash origin nodeId) :
    Secures accessible (Mends sha256 storageNodes origin) task pre
      (removeCorrupted storageNodes chunkHash nodeId) (fun _ => pre) pre := by
  have unlists : (store (.deleteChunkReplica chunkHash nodeId)).AllCalls fun op => ∀ world,
      Mends sha256 storageNodes origin world (exec op world).2 :=
    .perform fun world => .of_deleteChunkReplica broken
  unfold removeCorrupted
  refine Secures.attempt (secures_of_allCalls stable ?_)
  split
  · rename_i handled
    refine .bind (StorageNodeImpl.allCalls_deleteChunk ?_ ?_) fun _ => unlists
    · intro world
      refine .of_puts (.of_unlink world) ?_ fun _ => broken handled
      intro bytes none
      cases none
    · exact fun world => .of_same (sameChunks_setNode fun path => rfl)
  · exact unlists

/-- What is known while a copy is looked for: a replica that has not been found corrupted is on a
node without corrupted bytes. -/
structure Copiable (sha256 : Sha256) (storageNodes : List NodeId) (origin : World)
    (chunkHash : ChunkHash) (corrupted : List NodeId) (replicas : List ChunkReplicaRecord)
    (world : World) : Prop where
  safe : Safe sha256 storageNodes origin world
  clean : ∀ replica ∈ replicas, replica.nodeId ∈ corrupted ∨
    Uncorrupted sha256 chunkHash world replica.nodeId

theorem stable_copiable {corrupted : List NodeId} {replicas : List ChunkReplicaRecord} :
    Stable (Mends sha256 storageNodes origin)
      (Copiable sha256 storageNodes origin chunkHash corrupted replicas) := by
  intro before after mends copiable
  refine ⟨mends.safe copiable.safe, fun replica member => ?_⟩
  exact (copiable.clean replica member).imp_right (mends.uncorrupted chunkHash replica.nodeId)

theorem Copiable.tail {corrupted : List NodeId} {replica : ChunkReplicaRecord}
    {replicas : List ChunkReplicaRecord} {world : World}
    (copiable : Copiable sha256 storageNodes origin chunkHash corrupted (replica :: replicas)
      world) :
    Copiable sha256 storageNodes origin chunkHash corrupted replicas world :=
  ⟨copiable.safe, fun other member => copiable.clean other (List.mem_cons_of_mem replica member)⟩

/-- **What a repair copies is intact**, although it is not checked again. -/
theorem secures_readHealthy {corrupted : List NodeId} (replicas : List ChunkReplicaRecord) :
    Secures accessible (Mends sha256 storageNodes origin) task
      (Copiable sha256 storageNodes origin chunkHash corrupted replicas)
      (readHealthy storageNodes chunkHash corrupted replicas)
      (fun chunkData world => (∀ data ∈ chunkData, sha256.digest data = chunkHash) ∧
        Safe sha256 storageNodes origin world)
      (Safe sha256 storageNodes origin) := by
  induction replicas with
  | nil =>
      refine .pure fun world copiable => ⟨fun data none => ?_, copiable.safe⟩
      cases none
  | cons replica rest ih =>
      let copiable := Copiable sha256 storageNodes origin chunkHash corrupted (replica :: rest)
      have later : Secures accessible (Mends sha256 storageNodes origin) task copiable
          (readHealthy storageNodes chunkHash corrupted rest)
          (fun chunkData world => (∀ data ∈ chunkData, sha256.digest data = chunkHash) ∧
            Safe sha256 storageNodes origin world)
          (Safe sha256 storageNodes origin) :=
        ih.consequence (fun _ holds => holds.tail) (fun _ _ => id) fun _ => id
      have reads : Secures accessible (Mends sha256 storageNodes origin) task copiable
          (StorageNodeImpl.readChunk replica.nodeId chunkHash)
          (fun data world => world.bytes replica.nodeId chunkHash = some data ∧ copiable world)
          copiable :=
        (Secures.frame stable_copiable secures_readChunk).consequence
          (fun world holds => ⟨holds.safe, holds⟩) (fun _ _ found => ⟨found.1.1, found.2⟩)
          fun _ found => found.2
      unfold readHealthy
      by_cases blamed : replica.nodeId ∈ corrupted
      · rw [if_pos blamed]
        exact later
      · rw [if_neg blamed]
        by_cases unhandled : replica.nodeId ∉ storageNodes
        · rw [if_pos unhandled]
          exact later
        · rw [if_neg unhandled]
          refine Secures.tryCatch (reads.bind fun data => .pure ?_) fun failure => later
          rintro world ⟨held, holds⟩
          refine ⟨fun bytes same => ?_, holds.safe⟩
          have clean := (holds.clean replica List.mem_cons_self).resolve_left blamed
          exact Option.some.inj same ▸ clean data held

/-- A replica is recorded on a node without corrupted bytes. -/
theorem secures_createChunkReplica {pre : World → Prop} {nodeId : NodeId}
    {replica : ChunkReplicaRecord} (stable : Stable (Mends sha256 storageNodes origin) pre)
    (hash : replica.chunkHash = chunkHash) (node : replica.nodeId = nodeId) :
    Secures accessible (Mends sha256 storageNodes origin) task
      (fun world => Uncorrupted sha256 chunkHash world nodeId ∧ pre world)
      (store (.createChunkReplica replica)) (fun _ => pre) pre := by
  subst hash node
  refine .perform (Mends.stable_uncorrupted.and stable) fun before outcome after holds happens => ?_
  have mends : Mends sha256 storageNodes origin before after := by
    refine .of_call ?_ happens
    show Mends sha256 storageNodes origin before (before.commit _).2
    cases created : before.store.createChunkReplica replica with
    | error failure => exact .refl before
    | ok db => exact .of_createChunkReplica holds.1 created
  have kept := stable _ _ mends holds.2
  cases outcome with
  | ok value => exact ⟨mends, kept⟩
  | error failure => exact ⟨mends, kept⟩

/-- A new replica is written before it is recorded. -/
theorem secures_writeReplica {pre : World → Prop} {chunkData : Buffer} {nodeId : NodeId}
    (stable : Stable (Mends sha256 storageNodes origin) pre)
    (digest : sha256.digest chunkData = chunkHash) :
    Secures accessible (Mends sha256 storageNodes origin) task pre
      (writeReplica storageNodes chunkHash chunkData now nodeId) (fun _ => pre) pre := by
  unfold writeReplica
  split
  · refine Secures.attempt (Secures.bind (secures_writeChunk digest stable) fun _ => ?_)
    refine Secures.bind ((secures_of_allCalls (Mends.stable_uncorrupted.and stable) ?_).consequence
      (fun _ => id) (fun _ _ => id) fun _ holds => holds.2) fun nodeRecord => ?_
    · exact .perform fun world => .refl world
    · exact secures_createChunkReplica stable rfl rfl
  · exact .pure fun _ holds => holds

theorem secures_restoreReplicas (health : ReplicaHealth) :
    Secures accessible (Mends sha256 storageNodes origin) task
      (Assessed sha256 storageNodes origin chunkHash health.corruptedReplicas [])
      (restoreReplicas hashRing storageNodes chunkHash health now)
      (fun _ => Safe sha256 storageNodes origin) (Safe sha256 storageNodes origin) := by
  have listed : Secures accessible (Mends sha256 storageNodes origin) task
      (Assessed sha256 storageNodes origin chunkHash health.corruptedReplicas [])
      (store (.getChunkReplicas chunkHash))
      (fun replicas => Copiable sha256 storageNodes origin chunkHash health.corruptedReplicas
        replicas)
      (Safe sha256 storageNodes origin) := by
    refine .perform stable_assessed fun before outcome after judged happens => ?_
    rcases accessible_cases happens with works | ⟨⟨failure, rfl⟩, rfl⟩
    · obtain ⟨rfl, rfl⟩ := Prod.mk.inj works
      refine ⟨.refl _, judged.safe, fun replica member => ?_⟩
      have recorded : Recorded before chunkHash replica.nodeId :=
        Database.mem_keys_chunkReplicas.mpr ⟨replica, member, rfl⟩
      rcases judged.sorted replica.nodeId recorded with blamed | waiting | clean
      · exact .inl blamed
      · cases waiting
      · exact .inr clean
    · exact ⟨.refl _, judged.safe⟩
  unfold restoreReplicas
  dsimp only
  split
  · exact .pure fun _ judged => judged.safe
  · refine listed.bind fun replicas => (secures_readHealthy replicas).bind fun chunkData => ?_
    refine .of_fact fun digest => ?_
    cases chunkData with
    | none => exact .throw fun _ safe => safe
    | some data =>
        exact .forEach fun nodeId _ => secures_writeReplica Mends.stable_safe (digest data rfl)

/-- **A repair mends**, whatever the other repairs do meanwhile. -/
theorem secures_reReplicate :
    Secures accessible (Mends sha256 storageNodes origin) task (Safe sha256 storageNodes origin)
      (reReplicate sha256 hashRing storageNodes chunkHash now)
      (fun _ => Safe sha256 storageNodes origin) (Safe sha256 storageNodes origin) := by
  unfold reReplicate repair
  refine secures_verifyReplicas.bind fun health => ?_
  have removed : Secures accessible (Mends sha256 storageNodes origin) task
      (Assessed sha256 storageNodes origin chunkHash health.corruptedReplicas [])
      (forEach (removeCorrupted storageNodes chunkHash) health.corruptedReplicas)
      (fun _ => Assessed sha256 storageNodes origin chunkHash health.corruptedReplicas [])
      (Safe sha256 storageNodes origin) := by
    intro moment judged
    refine Secures.forEach (fun nodeId member => ?_) moment judged
    exact (secures_removeCorrupted stable_assessed (judged.blamed nodeId member)).consequence
      (fun _ => id) (fun _ _ => id) fun _ holds => holds.safe
  exact removed.bind fun _ => secures_restoreReplicas health

/-! ## The parallel writes of a new chunk -/

variable {chunkData : Buffer} {timestamp createdAt : NodeId → Time} {nodeInfo : StorageNodeInfo}

/-- What a write does to the state: it counts nothing and pushes nothing. -/
theorem forgetLocals_writePromise :
    (writePromise chunkHash chunkData timestamp createdAt nodeInfo).forgetLocals =
      Program.attempt (do
        StorageNodeImpl.writeChunk nodeInfo.nodeId chunkHash chunkData
        store (.createChunkReplica
          { chunkHash := chunkHash, nodeId := nodeInfo.nodeId,
            availabilityZone := nodeInfo.availabilityZone,
            createdAt := createdAt nodeInfo.nodeId })) := by
  unfold writePromise
  rw [forgetLocals_tryCatch, forgetLocals_bind, forgetLocals_lift]
  congr 1
  congr 1
  funext _
  show (lift (store _) >>= fun _ => assign _ : Program writing Unit).forgetLocals = _
  rw [forgetLocals_bind, forgetLocals_lift]
  refine congrArg (Program.call _) (funext fun outcome => ?_)
  cases outcome <;> rfl

theorem secures_writePromise (digest : sha256.digest chunkData = chunkHash) :
    Secures accessible (Mends sha256 storageNodes origin) task (Safe sha256 storageNodes origin)
      (writePromise chunkHash chunkData timestamp createdAt nodeInfo).forgetLocals
      (fun _ => Safe sha256 storageNodes origin) (Safe sha256 storageNodes origin) := by
  rw [forgetLocals_writePromise]
  exact .attempt (Secures.bind (secures_writeChunk digest Mends.stable_safe) fun _ =>
    secures_createChunkReplica Mends.stable_safe rfl rfl)

end ReplicationServiceImpl

end DistributedFileStorage.Replication

namespace DistributedFileStorage.Background.BackgroundJobs

open Async Store Services Nodes Placement Replication Relational Program
open ReplicationServiceImpl

variable {sha256 : Sha256} {hashRing : ConsistentHashRing ChunkHash} {storageNodes : List NodeId}
  {origin : World} {ι : Type} {task : ι} {now : ChunkHash → NodeId → Time}

theorem secures_verifyChunk (counts : IntegrityCounts) (chunkHash : ChunkHash) :
    Secures accessible (Mends sha256 storageNodes origin) task (Safe sha256 storageNodes origin)
      (verifyChunk sha256 hashRing storageNodes now counts chunkHash)
      (fun _ => Safe sha256 storageNodes origin) (Safe sha256 storageNodes origin) := by
  unfold verifyChunk repairChunk
  refine Secures.tryCatch (secures_verifyReplicas.bind fun health => ?_)
    fun _ => .pure fun _ safe => safe
  split
  · refine Secures.tryCatch (Secures.bind (secures_reReplicate.consequence
      (fun _ judged => judged.safe) (fun _ _ => id) fun _ => id) fun _ => ?_) fun _ => ?_
    · exact .pure fun _ safe => safe
    · exact .pure fun _ safe => safe
  · exact .pure fun _ judged => judged.safe

theorem secures_verifyReplicaIntegrity :
    Secures accessible (Mends sha256 storageNodes origin) task (Safe sha256 storageNodes origin)
      (verifyReplicaIntegrity sha256 hashRing storageNodes now)
      (fun _ => Safe sha256 storageNodes origin) (Safe sha256 storageNodes origin) := by
  have reads (op : StoreOp) (unchanged : ∀ world, (exec (.store op) world).2 = world) :
      Secures accessible (Mends sha256 storageNodes origin) task (Safe sha256 storageNodes origin)
        (store op) (fun _ => Safe sha256 storageNodes origin) (Safe sha256 storageNodes origin) :=
    secures_of_allCalls Mends.stable_safe
      (.perform fun world => (unchanged world).symm ▸ .refl world)
  unfold verifyReplicaIntegrity
  refine (reads (.listStorageNodes _) fun _ => rfl).bind fun nodes => ?_
  refine Secures.bind (.forEach fun node _ => ?_) fun _ => ?_
  · refine .attempt (Secures.bind (reads (.getChunkReplicas _) fun _ => rfl) fun _ => ?_)
    exact .pure fun _ safe => safe
  · refine (reads .getOrphanedChunks fun _ => rfl).bind fun orphaned => ?_
    exact .foldEach (fun _ _ => Safe sha256 storageNodes origin)
      (fun counts chunkHash _ => secures_verifyChunk counts chunkHash) orphaned {}

/-! ## Any number of them -/

/-- What may run next to each other: verifications, repairs, integrity jobs, and the parallel writes
of `replicateChunk`. -/
inductive RepairTask where
  | verifyReplicas (chunkHash : ChunkHash)
  | reReplicate (chunkHash : ChunkHash) (now : NodeId → Time)
  | verifyReplicaIntegrity (now : ChunkHash → NodeId → Time)
  | writePromise (chunkHash : ChunkHash) (chunkData : Buffer) (timestamp createdAt : NodeId → Time)
      (nodeInfo : StorageNodeInfo)

namespace RepairTask

def program (sha256 : Sha256) (hashRing : ConsistentHashRing ChunkHash)
    (storageNodes : List NodeId) : RepairTask → Async Unit
  | verifyReplicas chunkHash => do
      let _ ← ReplicationServiceImpl.verifyReplicas sha256 storageNodes chunkHash
      pure ()
  | reReplicate chunkHash now =>
      ReplicationServiceImpl.reReplicate sha256 hashRing storageNodes chunkHash now
  | verifyReplicaIntegrity now => do
      let _ ← BackgroundJobs.verifyReplicaIntegrity sha256 hashRing storageNodes now
      pure ()
  | writePromise chunkHash chunkData timestamp createdAt nodeInfo =>
      (ReplicationServiceImpl.writePromise chunkHash chunkData timestamp createdAt
        nodeInfo).forgetLocals

/-- The data of a new chunk has its hash as its digest. -/
def Sound (sha256 : Sha256) : RepairTask → Prop
  | writePromise chunkHash chunkData _ _ _ => sha256.digest chunkData = chunkHash
  | _ => True

/-- **Every task mends**, whatever the others do meanwhile. -/
theorem secures {repair : RepairTask} (sound : repair.Sound sha256) :
    Secures accessible (Mends sha256 storageNodes origin) task (Safe sha256 storageNodes origin)
      (repair.program sha256 hashRing storageNodes) (fun _ => Safe sha256 storageNodes origin)
      (Safe sha256 storageNodes origin) := by
  cases repair with
  | verifyReplicas chunkHash =>
      exact secures_verifyReplicas.bind fun health => .pure fun _ judged => judged.safe
  | reReplicate chunkHash now => exact secures_reReplicate
  | verifyReplicaIntegrity now =>
      exact secures_verifyReplicaIntegrity.bind fun counts => .pure fun _ safe => safe
  | writePromise chunkHash chunkData timestamp createdAt nodeInfo =>
      exact secures_writePromise sound

end RepairTask

/-- Two repairs of the chunk whose second replica is damaged, whose turns a schedule gives. -/
def twoRepairs (schedule : List Bool) : Pool system Bool Unit × Moment system Bool World :=
  Pool.runSchedule exec schedule
    (fun _ => (RepairTask.reReplicate sevenMetadata.contentHash fun _ => 2).program knownDigests
      threeNodes ["n1", "n2", "n3"], .start damagedReplica)

theorem runs_twoRepairs (schedule : List Bool) :
    PoolRuns accessible
      (fun _ => (RepairTask.reReplicate sevenMetadata.contentHash fun _ => 2).program knownDigests
        threeNodes ["n1", "n2", "n3"], .start damagedReplica)
      ((twoRepairs schedule).1, (twoRepairs schedule).2) :=
  Pool.runs_runSchedule (fun _ _ => .inl rfl) schedule _

end DistributedFileStorage.Background.BackgroundJobs
