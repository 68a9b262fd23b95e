import DistributedFileStorage.Background.GarbageCollection
import DistributedFileStorage.Replication.Repair

/-!
# The integrity job

`verifyReplicaIntegrity` is to verify the replicas of all chunks and to repair those that are
corrupted. The chunks it goes through are the orphaned ones, those without a reference. A chunk that
a file still refers to is neither verified nor repaired, so the job leaves no chunk with a corrupted
replica exactly when all chunks it would have to repair are orphaned (`restores_iff`).
-/

set_option autoImplicit false

namespace DistributedFileStorage.Background.BackgroundJobs

open Async Store Services Nodes Placement Replication Relational Program
open ReplicationServiceImpl

/-- What the job counts. -/
structure IntegrityCounts where
  verified : ℕ := 0
  corrupted : ℕ := 0
  repaired : ℕ := 0
  deriving DecidableEq

variable (sha256 : Sha256) (hashRing : ConsistentHashRing ChunkHash) (storageNodes : List NodeId)
  (now : ChunkHash → NodeId → Time)

/-- One iteration of the loop over the active nodes, whose result is not used. The identifier of the
node is taken for the hash of a chunk. -/
def listReplicas (node : StorageNodeRecord) : Async Unit :=
  Program.attempt do
    let _ ← store (.getChunkReplicas node.nodeId)
    pure ()

/-- What the loop over the chunks does with a corrupted chunk. -/
def repairChunk (counts : IntegrityCounts) (chunkHash : ChunkHash) : Async IntegrityCounts :=
  Program.tryCatch
    (do
      reReplicate sha256 hashRing storageNodes chunkHash (now chunkHash)
      pure { counts with repaired := counts.repaired + 1 })
    fun _ => pure counts

/-- One iteration of the loop over the chunks. It has one `catch` block, which does nothing: the
counts are those reached when the call rejected. -/
def verifyChunk (counts : IntegrityCounts) (chunkHash : ChunkHash) : Async IntegrityCounts :=
  Program.tryCatch
    (do
      let health ← verifyReplicas sha256 storageNodes chunkHash
      if 0 < health.corruptedReplicas.length then
        repairChunk sha256 hashRing storageNodes now
          { counts with
            verified := counts.verified + 1
            corrupted := counts.corrupted + health.corruptedReplicas.length } chunkHash
      else pure { counts with verified := counts.verified + 1 })
    fun _ => pure counts

def verifyReplicaIntegrity : Async IntegrityCounts := do
  let nodes ← store (.listStorageNodes (some .active))
  Program.forEach listReplicas nodes
  let orphaned ← store .getOrphanedChunks
  Program.foldEach (verifyChunk sha256 hashRing storageNodes now) {} orphaned

/-- Every chunk that had a sound replica has no broken one, and three sound ones if it had a broken
one. -/
def Restores (before after : World) : Prop :=
  ∀ chunk ∈ before.store.chunks.rows,
    soundNodes sha256 storageNodes chunk.chunkHash before ≠ [] →
      brokenNodes sha256 storageNodes chunk.chunkHash after = [] ∧
        (brokenNodes sha256 storageNodes chunk.chunkHash before ≠ [] →
          3 ≤ (soundNodes sha256 storageNodes chunk.chunkHash after).length)

variable {sha256 hashRing storageNodes now} {origin before after : World} {chunkHash : ChunkHash}

/-! ## One chunk -/

/-- What has become of a chunk that the job has gone through. -/
structure Checked (sha256 : Sha256) (hashRing : ConsistentHashRing ChunkHash)
    (storageNodes : List NodeId) (chunkHash : ChunkHash) (before after : World) : Prop where
  broken : soundNodes sha256 storageNodes chunkHash before ≠ [] →
    brokenNodes sha256 storageNodes chunkHash after = []
  sound : soundNodes sha256 storageNodes chunkHash before ≠ [] →
    brokenNodes sha256 storageNodes chunkHash before ≠ [] →
      (soundNodes sha256 storageNodes chunkHash after).length =
        (soundNodes sha256 storageNodes chunkHash before).length +
          ((repairTargets sha256 hashRing storageNodes chunkHash before).filter
            (Receives storageNodes before.store)).length

/-- An iteration without a fault goes through its chunk and concerns no other. -/
theorem does_verifyChunk (counts : IntegrityCounts) (before : World) :
    Triple exec.semantics (· = before)
      (verifyChunk sha256 hashRing storageNodes now counts chunkHash)
      (fun _ after => Checked sha256 hashRing storageNodes chunkHash before after ∧
        SameElsewhere chunkHash before after)
      (fun _ => False) := by
  refine Triple.tryCatch ((triple_verifyReplicas_exact sha256 storageNodes chunkHash before).bind
    fun health => .of_fact ?_) fun failure => nofun
  rintro ⟨corrupted, _⟩
  rw [corrupted]
  split
  · have repairs : Triple exec.semantics (· = before)
        (reReplicate sha256 hashRing storageNodes chunkHash (now chunkHash))
        (fun _ => Repaired sha256 hashRing storageNodes chunkHash before)
        (Repaired sha256 hashRing storageNodes chunkHash before) := by
      rintro start outcome after rfl run
      have repaired := repaired_of_runs run
      cases outcome with
      | ok value => exact repaired
      | error failure => exact repaired
    have checked : ∀ after, Repaired sha256 hashRing storageNodes chunkHash before after →
        Checked sha256 hashRing storageNodes chunkHash before after ∧
          SameElsewhere chunkHash before after := fun after repaired =>
      ⟨⟨repaired.broken, fun sound _ => repaired.sound sound⟩, repaired.elsewhere⟩
    refine Triple.tryCatch (repairs.bind fun _ => ?_) fun _ => .pure checked
    exact .pure checked
  · rename_i none
    have whole : brokenNodes sha256 storageNodes chunkHash before = [] :=
      List.length_eq_zero_iff.mp (Nat.eq_zero_of_not_pos none)
    refine .pure ?_
    rintro after rfl
    exact ⟨⟨fun _ => whole, fun _ broken => absurd whole broken⟩, .refl after⟩

/-! ## All chunks -/

/-- What the loop has done when some of the chunks are left. -/
structure Checks (sha256 : Sha256) (hashRing : ConsistentHashRing ChunkHash)
    (storageNodes : List NodeId) (origin : World) (todo : List ChunkHash) (after : World) :
    Prop where
  distinct : todo.Nodup
  orphaned : ∀ chunkHash ∈ todo, chunkHash ∈ origin.store.getOrphanedChunks
  nodes : after.store.storageNodes = origin.store.storageNodes
  same : ∀ chunkHash, chunkHash ∈ todo ∨ chunkHash ∉ origin.store.getOrphanedChunks →
    SameReplicas chunkHash origin after
  checked : ∀ chunkHash ∈ origin.store.getOrphanedChunks, chunkHash ∉ todo →
    Checked sha256 hashRing storageNodes chunkHash origin after

/-- What has become of a chunk is seen in its own rows and bytes, before and after. -/
theorem Checked.congr {later : World}
    (checked : Checked sha256 hashRing storageNodes chunkHash before after)
    (start : SameReplicas chunkHash origin before) (ends : SameReplicas chunkHash after later)
    (nodes : before.store.storageNodes = origin.store.storageNodes) :
    Checked sha256 hashRing storageNodes chunkHash origin later where
  broken sound := by
    rw [ends.broken]
    exact checked.broken (start.sound ▸ sound)
  sound sound broken := by
    have targets : repairTargets sha256 hashRing storageNodes chunkHash before =
        repairTargets sha256 hashRing storageNodes chunkHash origin := by
      rw [repairTargets, repairTargets, start.sound]
    have receives : Receives storageNodes before.store = Receives storageNodes origin.store := by
      funext nodeId
      rw [Receives, Receives, nodes]
    have counted := checked.sound (start.sound ▸ sound) (start.broken ▸ broken)
    rw [ends.sound, counted, start.sound, targets]
    simp only [receives]

/-- **One iteration moves on to the chunks that are left.** -/
theorem Checks.step {todo : List ChunkHash}
    (checks : Checks sha256 hashRing storageNodes origin (chunkHash :: todo) before)
    (checked : Checked sha256 hashRing storageNodes chunkHash before after)
    (elsewhere : SameElsewhere chunkHash before after) :
    Checks sha256 hashRing storageNodes origin todo after := by
  obtain ⟨fresh, distinct⟩ := List.nodup_cons.mp checks.distinct
  have start := checks.same chunkHash (.inl List.mem_cons_self)
  refine ⟨distinct, fun other member => checks.orphaned other (List.mem_cons_of_mem _ member),
    elsewhere.storageNodes.trans checks.nodes, ?_, ?_⟩
  · intro other here
    have different : other ≠ chunkHash := by
      rintro rfl
      exact here.elim fresh fun unseen => unseen (checks.orphaned _ List.mem_cons_self)
    have earlier := checks.same other (here.imp_left (List.mem_cons_of_mem _))
    have later := elsewhere.other different
    exact ⟨later.replicas.trans earlier.replicas, fun nodeId =>
      (later.bytes nodeId).trans (earlier.bytes nodeId)⟩
  · intro other orphaned done
    have unchanged : SameReplicas other after after := ⟨rfl, fun _ => rfl⟩
    by_cases here : other = chunkHash
    · subst here
      exact checked.congr start unchanged checks.nodes
    · have earlier := checks.checked other orphaned fun member =>
        (List.mem_cons.mp member).elim here done
      exact earlier.congr ⟨rfl, fun _ => rfl⟩ (elsewhere.other here) rfl

/-- The reads before the loop change nothing. -/
theorem does_listReplicas (nodes : List StorageNodeRecord) :
    Triple exec.semantics (· = origin) (Program.forEach listReplicas nodes) (fun _ => (· = origin))
      (fun _ => False) := by
  refine .forEach fun node _ => .attempt (.bind ?_ fun _ => .pure fun _ => id)
  refine Triple.perform fun world outcome reached start happens => ?_
  obtain ⟨rfl, rfl⟩ := Prod.mk.inj happens
  exact start

/-- **A job without a fault resolves**, and has gone through the orphaned chunks. -/
theorem does_verifyReplicaIntegrity (origin : World) :
    Triple exec.semantics (· = origin)
      (verifyReplicaIntegrity sha256 hashRing storageNodes now)
      (fun _ => Checks sha256 hashRing storageNodes origin []) (fun _ => False) := by
  have nodes : Triple exec.semantics (· = origin) (store (.listStorageNodes (some .active)))
      (fun _ => (· = origin)) (fun _ => False) := by
    refine Triple.perform fun world outcome reached start happens => ?_
    obtain ⟨rfl, rfl⟩ := Prod.mk.inj happens
    exact start
  have orphans : Triple exec.semantics (· = origin) (store .getOrphanedChunks)
      (fun orphaned world => orphaned = origin.store.getOrphanedChunks ∧ world = origin)
      (fun _ => False) := by
    refine Triple.perform fun world outcome reached start happens => ?_
    subst start
    obtain ⟨rfl, rfl⟩ := Prod.mk.inj happens
    exact ⟨rfl, rfl⟩
  refine nodes.bind fun rows => (does_listReplicas rows).bind fun _ => orphans.bind fun orphaned =>
    .of_fact ?_
  rintro rfl
  have begins : Checks sha256 hashRing storageNodes origin origin.store.getOrphanedChunks origin :=
    ⟨origin.store.chunks.distinct.sublist (List.filter_sublist.map _), fun _ => id, rfl,
      fun _ _ => ⟨rfl, fun _ => rfl⟩, fun _ orphaned unseen => absurd orphaned unseen⟩
  refine Triple.consequence (Triple.foldEach
    (fun _ todo => Checks sha256 hashRing storageNodes origin todo) ?_ _ _) ?_ (fun _ _ => id)
    fun _ => id
  · refine fun counts chunkHash todo => .of_start fun before checks => ?_
    exact (does_verifyChunk counts before).consequence (fun _ => id)
      (fun _ after ends => checks.step ends.1 ends.2) fun _ => id
  · rintro world rfl
    exact begins

theorem checks_verifyReplicaIntegrity (origin : World) :
    Checks sha256 hashRing storageNodes origin []
      ((verifyReplicaIntegrity sha256 hashRing storageNodes now).run exec origin).2 := by
  have run := runs_semantics_iff.mpr (Prod.eta ((verifyReplicaIntegrity sha256 hashRing storageNodes
    now).run exec origin)).symm
  have ends := does_verifyReplicaIntegrity origin rfl run
  cases outcome : ((verifyReplicaIntegrity sha256 hashRing storageNodes now).run exec origin).1 with
  | ok counts =>
      rw [outcome] at ends
      exact ends
  | error failure =>
      rw [outcome] at ends
      exact ends.elim

/-! ## Which chunks are restored -/

/-- The chunks with sound and broken replicas are orphaned. -/
def Orphaned (sha256 : Sha256) (storageNodes : List NodeId) (origin : World) : Prop :=
  ∀ chunk ∈ origin.store.chunks.rows,
    soundNodes sha256 storageNodes chunk.chunkHash origin ≠ [] →
      brokenNodes sha256 storageNodes chunk.chunkHash origin ≠ [] → chunk.referenceCount = 0

/-- The chunks with sound and broken replicas have three nodes with a sound replica or that can
receive one. -/
def HaveRoom (sha256 : Sha256) (hashRing : ConsistentHashRing ChunkHash)
    (storageNodes : List NodeId) (origin : World) : Prop :=
  ∀ chunk ∈ origin.store.chunks.rows,
    soundNodes sha256 storageNodes chunk.chunkHash origin ≠ [] →
      brokenNodes sha256 storageNodes chunk.chunkHash origin ≠ [] →
        3 ≤ (soundNodes sha256 storageNodes chunk.chunkHash origin).length +
          ((repairTargets sha256 hashRing storageNodes chunk.chunkHash origin).filter
            (Receives storageNodes origin.store)).length

theorem restores_iff_orphaned_and_haveRoom (origin : World) :
    Restores sha256 storageNodes origin
        ((verifyReplicaIntegrity sha256 hashRing storageNodes now).run exec origin).2 ↔
      Orphaned sha256 storageNodes origin ∧ HaveRoom sha256 hashRing storageNodes origin := by
  have checks : Checks sha256 hashRing storageNodes origin []
      ((verifyReplicaIntegrity sha256 hashRing storageNodes now).run exec origin).2 :=
    checks_verifyReplicaIntegrity origin
  generalize ((verifyReplicaIntegrity sha256 hashRing storageNodes now).run exec origin).2 = after
    at checks ⊢
  have listed : ∀ chunk ∈ origin.store.chunks.rows, chunk.referenceCount = 0 ↔
      chunk.chunkHash ∈ origin.store.getOrphanedChunks := by
    intro chunk member
    have found : origin.store.getChunk chunk.chunkHash = some chunk := Table.find?_key member
    rw [Database.mem_getOrphanedChunks]
    constructor
    · exact fun unreferenced => ⟨chunk, found, unreferenced⟩
    · rintro ⟨other, here, unreferenced⟩
      rwa [Option.some.inj (found.symm.trans here)]
  constructor
  · intro restores
    have orphaned : Orphaned sha256 storageNodes origin := by
      intro chunk member sound broken
      by_contra referenced
      have same := checks.same chunk.chunkHash (.inr fun here => referenced
        ((listed chunk member).mpr here))
      exact broken (same.broken ▸ (restores chunk member sound).1)
    refine ⟨orphaned, fun chunk member sound broken => ?_⟩
    have here := (listed chunk member).mp (orphaned chunk member sound broken)
    rw [← (checks.checked chunk.chunkHash here List.not_mem_nil).sound sound broken]
    exact (restores chunk member sound).2 broken
  · rintro ⟨orphaned, room⟩ chunk member sound
    by_cases here : chunk.chunkHash ∈ origin.store.getOrphanedChunks
    · have checked := checks.checked chunk.chunkHash here List.not_mem_nil
      refine ⟨checked.broken sound, fun broken => ?_⟩
      rw [checked.sound sound broken]
      exact room chunk member sound broken
    · have same := checks.same chunk.chunkHash (.inr here)
      have whole : brokenNodes sha256 storageNodes chunk.chunkHash origin = [] := by
        by_contra broken
        exact here ((listed chunk member).mp (orphaned chunk member sound broken))
      exact ⟨same.broken.trans whole, fun broken => absurd whole broken⟩

/-- In a ring of three nodes that can all receive a replica there is room for what is missing. -/
theorem three_le_of_ring (inStep : hashRing.InStep)
    (enough : 3 ≤ hashRing.physicalNodes.rows.length)
    (able : ∀ nodeId ∈ hashRing.physicalNodes.rows,
      nodeId ≠ "" ∧ Receives storageNodes origin.store nodeId) (chunkHash : ChunkHash) :
    3 ≤ (soundNodes sha256 storageNodes chunkHash origin).length +
      ((repairTargets sha256 hashRing storageNodes chunkHash origin).filter
        (Receives storageNodes origin.store)).length := by
  have receive : (repairTargets sha256 hashRing storageNodes chunkHash origin).filter
      (Receives storageNodes origin.store) =
        repairTargets sha256 hashRing storageNodes chunkHash origin := by
    refine List.filter_eq_self.mpr fun nodeId target => decide_eq_true (able nodeId ?_).2
    exact ConsistentHashRing.mem_of_mem_getNodes inStep
      (List.mem_of_mem_filter (List.mem_of_mem_take target))
  have listed : (hashRing.getNodes chunkHash (replicationFactor * 3 : ℕ)).length =
      min 9 hashRing.physicalNodes.rows.length :=
    ConsistentHashRing.length_getNodes inStep chunkHash _ fun nodeId member =>
      (able nodeId member).1
  have distinct : (hashRing.getNodes chunkHash (replicationFactor * 3 : ℕ)).Nodup :=
    ConsistentHashRing.nodup_getNodes chunkHash _
  rw [receive, repairTargets, List.length_take]
  generalize hashRing.getNodes chunkHash (replicationFactor * 3 : ℕ) = ringNodes
    at listed distinct ⊢
  generalize soundNodes sha256 storageNodes chunkHash origin = kept
  have split : ringNodes.length = _ :=
    List.length_eq_length_filter_add fun nodeId => decide (nodeId ∉ kept)
  have inside : (ringNodes.filter fun nodeId => !decide (nodeId ∉ kept)).length ≤ kept.length := by
    refine (distinct.filter _).length_le_of_subset fun nodeId member => ?_
    simpa using List.of_mem_filter member
  have factor : replicationFactor = 3 := rfl
  omega

/-- **The job restores the chunks exactly when those with sound and broken replicas are orphaned**
and there is room for what they miss. In a ring of three nodes that can all receive a replica there
always is. -/
theorem restores_iff (origin : World) :
    (Restores sha256 storageNodes origin
        ((verifyReplicaIntegrity sha256 hashRing storageNodes now).run exec origin).2 ↔
      Orphaned sha256 storageNodes origin ∧ HaveRoom sha256 hashRing storageNodes origin) ∧
    (hashRing.InStep → 3 ≤ hashRing.physicalNodes.rows.length →
      (∀ nodeId ∈ hashRing.physicalNodes.rows,
        nodeId ≠ "" ∧ Receives storageNodes origin.store nodeId) →
      (Restores sha256 storageNodes origin
          ((verifyReplicaIntegrity sha256 hashRing storageNodes now).run exec origin).2 ↔
        Orphaned sha256 storageNodes origin)) := by
  refine ⟨restores_iff_orphaned_and_haveRoom origin, fun inStep enough able => ?_⟩
  rw [restores_iff_orphaned_and_haveRoom]
  exact and_iff_left fun chunk _ _ _ => three_le_of_ring inStep enough able chunk.chunkHash

/-! ## A referenced chunk -/

/-- The byte 7 as a chunk with a reference and three replicas, one of which has been damaged. -/
def damagedReplica : World :=
  (exec (.disk "n2" (.writeFile (getChunkPath sevenMetadata.contentHash) [8])) (writtenChunk [7])).2

/-- The same chunk without a reference. -/
def damagedOrphan : World :=
  { damagedReplica with
    store := damagedReplica.store.decrementChunkReference sevenMetadata.contentHash }

theorem inStep_threeNodes : threeNodes.InStep :=
  .of_perm (by decide +kernel) (by decide +kernel) (by decide +kernel)

/-- The damaged replica of a chunk without a reference is replaced. -/
theorem restores_damagedOrphan :
    brokenNodes knownDigests ["n1", "n2", "n3"] sevenMetadata.contentHash damagedOrphan = ["n2"] ∧
      Restores knownDigests ["n1", "n2", "n3"] damagedOrphan
        ((verifyReplicaIntegrity knownDigests threeNodes ["n1", "n2", "n3"] fun _ _ => 2).run exec
          damagedOrphan).2 := by
  have unreferenced : ∀ chunk ∈ damagedOrphan.store.chunks.rows, chunk.referenceCount = 0 := by
    decide +kernel
  refine ⟨by decide +kernel, ?_⟩
  exact ((restores_iff damagedOrphan).2 inStep_threeNodes (by decide +kernel)
    (by decide +kernel)).mpr fun chunk member _ _ => unreferenced chunk member

/-- The damaged replica of a chunk with a reference stays. -/
theorem keeps_damagedReplica :
    3 ≤ threeNodes.physicalNodes.rows.length ∧
      (∀ nodeId ∈ threeNodes.physicalNodes.rows, nodeId ≠ "" ∧
        Receives ["n1", "n2", "n3"] damagedReplica.store nodeId) ∧
      ¬ Restores knownDigests ["n1", "n2", "n3"] damagedReplica
        ((verifyReplicaIntegrity knownDigests threeNodes ["n1", "n2", "n3"] fun _ _ => 2).run exec
          damagedReplica).2 := by
  refine ⟨by decide +kernel, by decide +kernel, fun restores => ?_⟩
  obtain ⟨chunk, member, same⟩ : ∃ chunk ∈ damagedReplica.store.chunks.rows,
      chunk.chunkHash = sevenMetadata.contentHash := by decide +kernel
  have sound : soundNodes knownDigests ["n1", "n2", "n3"] sevenMetadata.contentHash
      damagedReplica ≠ [] := by decide +kernel
  have whole := (restores chunk member (same ▸ sound)).1
  rw [same] at whole
  revert whole
  decide +kernel

end DistributedFileStorage.Background.BackgroundJobs
