import DistributedFileStorage.Replication.Verification

/-!
# What repairing a chunk does to its intact replicas

A repair deletes the bytes of every replica that the verification blames, before it looks for a
healthy one. Then it copies the chunk to nodes of the ring that have no replica row
(`restoreTargets`). Such a node may hold the bytes of the chunk all the same, and a copy that
fails there has already emptied the file.

The module says for which failures a repair keeps every intact replica
(`reReplicate_keepsIntact_iff`): no read of an intact replica may fail in the verification, and no
write on a node that the chunk would be copied to and that holds its bytes. Then the repair
deletes corrupted bytes only, the copy it reads has been verified, and what it leaves on a node
with intact bytes is intact, whatever else fails. Otherwise some pattern of later failures ends with
an intact replica lost.
-/

set_option autoImplicit false

namespace DistributedFileStorage.Replication

open Async Store Services Nodes Placement Relational Program

/-- Every node that held intact bytes holds intact bytes. -/
def KeepsIntact (sha256 : Sha256) (chunkHash : ChunkHash) (before after : World) : Prop :=
  ∀ nodeId, Intact sha256 chunkHash before nodeId → Intact sha256 chunkHash after nodeId

namespace ReplicationServiceImpl

variable {sha256 : Sha256} {hashRing : ConsistentHashRing ChunkHash} {storageNodes : List NodeId}
  {chunkHash : ChunkHash} {world : World} {now : NodeId → Time} {unreliable : NodeId → Bool}

/-! ## Repairs that delete no intact replica -/

/-- What holds while the corrupted replicas are removed: the intact bytes are untouched,
there is no new replica row, and those of the healthy replicas stay. -/
structure Spares (sha256 : Sha256) (storageNodes : List NodeId) (chunkHash : ChunkHash)
    (before after : World) : Prop where
  bytes : ∀ nodeId, Intact sha256 chunkHash before nodeId →
    after.bytes nodeId chunkHash = before.bytes nodeId chunkHash
  replicas : ∀ replica ∈ after.store.getChunkReplicas chunkHash,
    replica ∈ before.store.getChunkReplicas chunkHash
  healthy : ∀ replica ∈ before.store.getChunkReplicas chunkHash,
    Healthy sha256 storageNodes chunkHash before replica →
      replica ∈ after.store.getChunkReplicas chunkHash

theorem Spares.keepsIntact {after : World}
    (spares : Spares sha256 storageNodes chunkHash world after) :
    KeepsIntact sha256 chunkHash world after := by
  intro nodeId intact
  have same := spares.bytes nodeId intact
  obtain ⟨data, held, digest⟩ := intact
  exact ⟨data, same ▸ held, digest⟩

/-- Removing a replica that is not intact spares the intact ones. -/
theorem keeps_removeCorrupted {nodeId : NodeId}
    (corrupted : nodeId ∈ storageNodes → ¬ Intact sha256 chunkHash world nodeId) :
    Keeps (faultyOn unreliable) (Spares sha256 storageNodes chunkHash world)
      (removeCorrupted storageNodes chunkHash nodeId) := by
  have unlisted : Keeps (faultyOn unreliable) (Spares sha256 storageNodes chunkHash world)
      (store (.deleteChunkReplica chunkHash nodeId)) := by
    refine keeps_store fun before spares => ⟨spares.bytes, fun replica member => ?_,
      fun replica member healthy => ?_⟩
    · refine spares.replicas replica ?_
      have kept := List.mem_filter.mp member
      exact List.mem_filter.mpr ⟨(Table.mem_delete.mp kept.1).1, kept.2⟩
    · have listed := List.mem_filter.mp (spares.healthy replica member healthy)
      refine List.mem_filter.mpr ⟨Table.mem_delete.mpr ⟨listed.1, fun same => ?_⟩, listed.2⟩
      have here : replica.nodeId = nodeId := congrArg Prod.snd same
      exact corrupted (here ▸ healthy.1) (here ▸ healthy.2)
  unfold removeCorrupted
  by_cases handled : nodeId ∈ storageNodes
  · simp only [if_pos handled]
    refine .attempt (.bind ?_ fun _ => unlisted)
    have deletes : ∀ start, Keeps (faultyOn unreliable)
        (PutsChunk nodeId chunkHash (· = none) start) (StorageNodeImpl.deleteChunk nodeId chunkHash) :=
      fun start => StorageNodeImpl.keeps_deleteChunk
    refine .of_relation (fun _ => .refl _) deletes ?_
    intro before after spares puts
    refine ⟨fun node intact => ?_, ?_, ?_⟩
    · have other : ¬ (node = nodeId ∧ chunkHash = chunkHash) := fun here =>
        corrupted handled (here.1 ▸ intact)
      rw [puts.elsewhere other]
      exact spares.bytes node intact
    · rw [puts.store]
      exact spares.replicas
    · rw [puts.store]
      exact spares.healthy
  · simp only [if_neg handled]
    exact .attempt unlisted

/-- The bytes that the repair reads come from a replica that has been verified. -/
theorem triple_readHealthy {corruptedReplicas : List NodeId}
    (verified : ∀ replica ∈ world.store.getChunkReplicas chunkHash,
      replica.nodeId ∉ corruptedReplicas → Healthy sha256 storageNodes chunkHash world replica)
    {replicas : List ChunkReplicaRecord}
    (listed : ∀ replica ∈ replicas, replica ∈ world.store.getChunkReplicas chunkHash) :
    Triple (faultyOn unreliable) (Spares sha256 storageNodes chunkHash world)
      (readHealthy storageNodes chunkHash corruptedReplicas replicas)
      (fun chunkData after => (∀ data ∈ chunkData, sha256.digest data = chunkHash ∧
          ∃ replica ∈ world.store.getChunkReplicas chunkHash,
            Healthy sha256 storageNodes chunkHash world replica) ∧
        Spares sha256 storageNodes chunkHash world after)
      (Spares sha256 storageNodes chunkHash world) := by
  induction replicas with
  | nil => exact .pure fun after spares => ⟨fun data none => (nomatch none), spares⟩
  | cons replica rest ih =>
      have later := ih fun other member => listed other (List.mem_cons_of_mem replica member)
      unfold readHealthy
      by_cases corrupted : replica.nodeId ∈ corruptedReplicas
      · rw [if_pos corrupted]
        exact later
      · have here := listed replica List.mem_cons_self
        have healthy := verified replica here corrupted
        rw [if_neg corrupted, if_neg (not_not.mpr healthy.1)]
        have read : Triple (faultyOn unreliable) (Spares sha256 storageNodes chunkHash world)
            (StorageNodeImpl.readChunk replica.nodeId chunkHash)
            (fun data after => sha256.digest data = chunkHash ∧
              Spares sha256 storageNodes chunkHash world after)
            (Spares sha256 storageNodes chunkHash world) := by
          intro before outcome after spares run
          have ends := StorageNodeImpl.triple_readChunk rfl run
          cases outcome with
          | error failure => exact (show after = before from ends) ▸ spares
          | ok data =>
              obtain ⟨rfl, found⟩ := ends
              rw [spares.bytes _ healthy.2] at found
              obtain ⟨bytes, held, digest⟩ := healthy.2
              have same : bytes = data := Option.some.inj (held.symm.trans found)
              exact ⟨same ▸ digest, spares⟩
        refine Triple.tryCatch (read.bind fun data => .pure fun after holds => ?_)
          fun failure => later
        refine ⟨fun bytes same => ?_, holds.2⟩
        rw [← Option.some.inj same]
        exact ⟨holds.1, replica, here, healthy⟩

/-- A write of intact bytes keeps the intact replicas, unless it fails on a node with one. -/
theorem keeps_writeReplica {chunkData : Buffer} (digest : sha256.digest chunkData = chunkHash)
    {nodeId : NodeId} (untorn : nodeId ∈ storageNodes → unreliable nodeId = true →
      ¬ Intact sha256 chunkHash world nodeId) :
    Keeps (faultyOn unreliable) (KeepsIntact sha256 chunkHash world)
      (writeReplica storageNodes chunkHash chunkData now nodeId) := by
  unfold writeReplica
  split
  · rename_i handled
    refine .attempt (.bind ?_ fun _ => .bind ?_ fun nodeRecord => ?_)
    · refine .of_relation (fun _ => .refl _) (fun start => StorageNodeImpl.keeps_writeChunk) ?_
      intro before after keeps puts node intact
      obtain ⟨data, held, same⟩ := keeps node intact
      rcases puts.bytes node chunkHash with unchanged | ⟨rfl, _, written | ⟨fallible, _⟩⟩
      · exact ⟨data, unchanged ▸ held, same⟩
      · exact ⟨chunkData, written, digest⟩
      · exact absurd intact (untorn handled fallible)
    · exact keeps_store fun before keeps => keeps
    · apply keeps_store
      intro before keeps
      show KeepsIntact sha256 chunkHash world (before.commit _).2
      cases before.store.createChunkReplica _ with
      | error failure => exact keeps
      | ok db => exact keeps
  · exact .pure

/-! ## The nodes that a repair copies to -/

/-- What passes a weaker test, and passes the stronger one, is as early among the elements that
pass the stronger one. -/
theorem mem_take_filter {α : Type} {stronger weaker : α → Bool} {element : α} {count : ℕ}
    (weakens : ∀ other, stronger other = true → weaker other = true) {elements : List α}
    (passes : stronger element = true) (early : element ∈ (elements.filter weaker).take count) :
    element ∈ (elements.filter stronger).take count := by
  induction elements generalizing count with
  | nil => simp at early
  | cons first rest ih =>
      cases count with
      | zero => simp at early
      | succ count =>
          by_cases strong : stronger first = true
          · rw [List.filter_cons_of_pos (weakens first strong), List.take_succ_cons] at early
            rw [List.filter_cons_of_pos strong, List.take_succ_cons]
            rcases List.mem_cons.mp early with here | later
            · exact List.mem_cons.mpr (.inl here)
            · exact List.mem_cons.mpr (.inr (ih later))
          · rw [List.filter_cons_of_neg strong]
            by_cases weak : weaker first = true
            · rw [List.filter_cons_of_pos weak, List.take_succ_cons] at early
              rcases List.mem_cons.mp early with rfl | later
              · exact absurd passes strong
              · exact List.take_subset_take_left _ (Nat.le_succ count) (ih later)
            · rw [List.filter_cons_of_neg weak] at early
              exact ih early

/-- The first nodes of the ring, from the hash on, that have none of the rows. -/
def unlistedNodes (hashRing : ConsistentHashRing ChunkHash) (chunkHash : ChunkHash)
    (replicas : List ChunkReplicaRecord) : List NodeId :=
  (hashRing.getNodes chunkHash (replicationFactor * 3 : ℕ)).filter fun nodeId =>
    nodeId ∉ replicas.map ChunkReplicaRecord.nodeId

/-- The nodes that a repair copies the chunk to when all its replica rows stay: as many of the
nodes without a row as healthy replicas are missing, when there is a healthy one to copy. -/
def restoreTargets (sha256 : Sha256) (hashRing : ConsistentHashRing ChunkHash)
    (storageNodes : List NodeId) (chunkHash : ChunkHash) (world : World) : List NodeId :=
  let replicas := world.store.getChunkReplicas chunkHash
  let healthy := replicas.filter fun replica => Healthy sha256 storageNodes chunkHash world replica
  if healthy = [] then []
  else (unlistedNodes hashRing chunkHash replicas).take (replicationFactor - healthy.length)

/-- What a verification finds when no read of an intact replica fails. -/
def healthOf (sha256 : Sha256) (storageNodes : List NodeId) (chunkHash : ChunkHash)
    (world : World) : ReplicaHealth :=
  let replicas := world.store.getChunkReplicas chunkHash
  (replicas.foldl (judge sha256 storageNodes chunkHash world) {}).health chunkHash replicas

theorem corruptedReplicas_healthOf :
    (healthOf sha256 storageNodes chunkHash world).corruptedReplicas =
      ((world.store.getChunkReplicas chunkHash).filter fun replica =>
        ¬ Healthy sha256 storageNodes chunkHash world replica).map ChunkReplicaRecord.nodeId :=
  corruptedReplicas_foldl_judge _ _

/-- The replicas that are not blamed are the healthy ones. -/
theorem healthy_iff_blameless {replica : ChunkReplicaRecord}
    (listed : replica ∈ world.store.getChunkReplicas chunkHash) :
    replica.nodeId ∉ (healthOf sha256 storageNodes chunkHash world).corruptedReplicas ↔
      Healthy sha256 storageNodes chunkHash world replica := by
  rw [corruptedReplicas_healthOf, List.mem_map]
  constructor
  · intro blameless
    by_contra broken
    exact blameless ⟨replica, List.mem_filter.mpr ⟨listed, decide_eq_true broken⟩, rfl⟩
  · rintro healthy ⟨other, blamed, same⟩
    refine of_decide_eq_true (List.mem_filter.mp blamed).2 ?_
    rw [Healthy, same]
    exact healthy

/-- As many replicas as are not blamed are healthy. -/
theorem currentReplicas_healthOf :
    (healthOf sha256 storageNodes chunkHash world).replicaCount -
        (healthOf sha256 storageNodes chunkHash world).corruptedReplicas.length =
      ((world.store.getChunkReplicas chunkHash).filter fun replica =>
        Healthy sha256 storageNodes chunkHash world replica).length := by
  rw [corruptedReplicas_healthOf, List.length_map]
  have split := List.length_eq_length_filter_add (l := world.store.getChunkReplicas chunkHash)
    fun replica => decide (Healthy sha256 storageNodes chunkHash world replica)
  show (world.store.getChunkReplicas chunkHash).length - _ = _
  simp only [decide_not] at split ⊢
  omega

/-- **A node with intact bytes that the repair copies to is one of the targets**, whichever rows
have been removed. -/
theorem mem_restoreTargets {nodeId : NodeId} {after : World}
    (spares : Spares sha256 storageNodes chunkHash world after) (handled : nodeId ∈ storageNodes)
    (intact : Intact sha256 chunkHash world nodeId)
    (copied : ∃ replica ∈ world.store.getChunkReplicas chunkHash,
      Healthy sha256 storageNodes chunkHash world replica)
    (chosen : nodeId ∈ (unlistedNodes hashRing chunkHash
      (after.store.getChunkReplicas chunkHash)).take (replicationFactor -
        ((healthOf sha256 storageNodes chunkHash world).replicaCount -
          (healthOf sha256 storageNodes chunkHash world).corruptedReplicas.length))) :
    nodeId ∈ restoreTargets sha256 hashRing storageNodes chunkHash world := by
  have some : ((world.store.getChunkReplicas chunkHash).filter fun replica =>
      Healthy sha256 storageNodes chunkHash world replica) ≠ [] := by
    obtain ⟨replica, listed, healthy⟩ := copied
    exact List.ne_nil_of_mem (List.mem_filter.mpr ⟨listed, decide_eq_true healthy⟩)
  rw [currentReplicas_healthOf] at chosen
  unfold restoreTargets
  dsimp only
  rw [if_neg some]
  have absent : nodeId ∉ (after.store.getChunkReplicas chunkHash).map ChunkReplicaRecord.nodeId :=
    of_decide_eq_true (List.mem_filter.mp (List.mem_of_mem_take chosen)).2
  refine mem_take_filter (fun other unlisted => decide_eq_true ?_) (decide_eq_true ?_) chosen
  · intro member
    obtain ⟨replica, listed, same⟩ := List.mem_map.mp member
    exact of_decide_eq_true unlisted
      (List.mem_map.mpr ⟨replica, spares.replicas replica listed, same⟩)
  · intro member
    obtain ⟨replica, listed, rfl⟩ := List.mem_map.mp member
    exact absent (List.mem_map_of_mem (spares.healthy replica listed ⟨handled, intact⟩))

/-- Copying the chunk to its targets keeps every intact replica, whatever fails in it but the writes
on targets with intact bytes. -/
theorem triple_restore_untorn (now : NodeId → Time)
    (untorn : ∀ nodeId ∈ restoreTargets sha256 hashRing storageNodes chunkHash world,
      nodeId ∈ storageNodes → unreliable nodeId = true → ¬ Intact sha256 chunkHash world nodeId) :
    Triple (faultyOn unreliable) (Spares sha256 storageNodes chunkHash world)
      (restoreReplicas hashRing storageNodes chunkHash
        (healthOf sha256 storageNodes chunkHash world) now)
      (fun _ => KeepsIntact sha256 chunkHash world) (KeepsIntact sha256 chunkHash world) := by
  unfold restoreReplicas
  dsimp only
  split
  · exact .pure fun after spares => spares.keepsIntact
  · have listed : Triple (faultyOn unreliable) (Spares sha256 storageNodes chunkHash world)
        (store (.getChunkReplicas chunkHash))
        (fun replicas after => (∃ middle, replicas = middle.store.getChunkReplicas chunkHash ∧
            Spares sha256 storageNodes chunkHash world middle) ∧
          Spares sha256 storageNodes chunkHash world after)
        (KeepsIntact sha256 chunkHash world) := by
      refine (triple_read fun before => rfl).consequence (fun _ => id) ?_
        fun _ spares => spares.keepsIntact
      rintro replicas after ⟨rfl, spares⟩
      exact ⟨⟨after, rfl, spares⟩, spares⟩
    refine listed.bind fun replicas => .of_fact ?_
    rintro ⟨middle, rfl, spares⟩
    refine Triple.bind ((triple_readHealthy
      (fun replica member => (healthy_iff_blameless member).mp) spares.replicas).consequence
      (fun _ => id) (fun _ _ => id) fun _ spares => spares.keepsIntact) fun chunkData => ?_
    refine .of_fact ?_
    intro found
    cases chunkData with
    | none => exact .throw fun after spares => spares.keepsIntact
    | some data =>
        obtain ⟨digest, copied⟩ := found data rfl
        refine Triple.consequence ?_ (fun _ spares => Spares.keepsIntact spares)
          (fun _ _ => id) fun _ => id
        refine Keeps.forEach fun nodeId chosen => keeps_writeReplica digest ?_
        intro handled fallible intact
        exact untorn nodeId (mem_restoreTargets spares handled intact copied chosen) handled
          fallible intact

/-- **A repair that takes no intact replica for a corrupted one keeps every intact
replica**, whatever fails in it but the writes on targets with intact bytes. -/
theorem keepsIntact_of_repair
    (untorn : ∀ nodeId ∈ restoreTargets sha256 hashRing storageNodes chunkHash world,
      nodeId ∈ storageNodes → unreliable nodeId = true → ¬ Intact sha256 chunkHash world nodeId)
    {outcome : Except Failure Unit} {after : World}
    (run : Runs (faultyOn unreliable) (repair hashRing storageNodes chunkHash now
      (healthOf sha256 storageNodes chunkHash world)) world outcome after) :
    KeepsIntact sha256 chunkHash world after := by
  have blamed : ∀ nodeId ∈ (healthOf sha256 storageNodes chunkHash world).corruptedReplicas,
      nodeId ∈ storageNodes → ¬ Intact sha256 chunkHash world nodeId := by
    intro nodeId member handled intact
    obtain ⟨replica, broken, rfl⟩ := List.mem_map.mp (corruptedReplicas_healthOf ▸ member)
    exact of_decide_eq_true (List.mem_filter.mp broken).2 ⟨handled, intact⟩
  have removed : Keeps (faultyOn unreliable) (Spares sha256 storageNodes chunkHash world)
      (forEach (removeCorrupted storageNodes chunkHash)
        (healthOf sha256 storageNodes chunkHash world).corruptedReplicas) :=
    .forEach fun nodeId member => keeps_removeCorrupted (blamed nodeId member)
  have repaired := Triple.bind (removed.consequence (fun _ => id) (fun _ _ => id)
    fun _ spares => spares.keepsIntact) fun _ => triple_restore_untorn now untorn
  have ends := repaired ⟨fun _ _ => rfl, fun _ => id, fun _ member _ => member⟩ run
  cases outcome with
  | ok value => exact ends
  | error failure => exact ends

/-! ## A repair that loses an intact replica -/

theorem runs_validateChunkHash (valid : validChunkHash chunkHash = true) :
    Runs (faultyOn unreliable) (StorageNodeImpl.validateChunkHash chunkHash) world (.ok ()) world :=
  runs_withFaults_of_run (StorageNodeImpl.run_validateChunkHash exec world valid)

/-- A deletion may fail before it has deleted anything. -/
theorem runs_deleteChunk_fails (valid : validChunkHash chunkHash = true) (world : World)
    (nodeId : NodeId) :
    ∃ failure, Runs (faultyOn unreliable) (StorageNodeImpl.deleteChunk nodeId chunkHash) world
      (.error failure) world := by
  have fails : Runs (faultyOn unreliable) (disk nodeId (.unlink (getChunkPath chunkHash))) world
      (.error Failure.unavailable) world := runs_unavailable rfl _
  refine ⟨.error s!"Failed to delete chunk {chunkHash}: {Failure.unavailable.message}", ?_⟩
  refine (runs_validateChunkHash valid).bind_ok (Runs.tryCatch_error fails.bind_error ?_)
  exact Runs.throw_iff.mpr ⟨rfl, rfl⟩

/-- A deletion may delete the bytes of its chunk. -/
theorem runs_deleteChunk_works {nodeId : NodeId}
    (intact : Intact sha256 chunkHash world nodeId) :
    ∃ after, Runs (faultyOn unreliable) (StorageNodeImpl.deleteChunk nodeId chunkHash) world
        (.ok ()) after ∧
      after.bytes nodeId chunkHash = none := by
  cases unlinked : (world.nodes nodeId).disk.unlink (getChunkPath chunkHash) with
  | error failure =>
      obtain ⟨data, held, _⟩ := intact
      have empty : world.bytes nodeId chunkHash = none :=
        Disk.contents_eq_none_of_unlink_error unlinked
      rw [empty] at held
      cases held
  | ok disk =>
      let emptied := world.setNode nodeId { world.nodes nodeId with disk := disk }
      have unlinks : exec (.disk nodeId (.unlink (getChunkPath chunkHash))) world =
          (.ok (), emptied) := congrArg (world.flush nodeId) unlinked
      let counted := (exec (.disk nodeId .uncountChunk) emptied).2
      have counts : exec (.disk nodeId .uncountChunk) emptied = (.ok (), counted) := rfl
      have same : SameChunks emptied counted := sameChunks_setNode fun path => rfl
      refine ⟨counted, ?_, ?_⟩
      · refine (runs_validateChunkHash intact.valid).bind_ok (Runs.tryCatch_ok ?_)
        exact (runs_works unlinks).bind_ok (runs_works counts)
      · rw [same.bytes, (exec_unlink unlinks).bytes, if_pos ⟨rfl, rfl⟩]

/-- The removal of a replica may fail at once. -/
theorem runs_removeCorrupted_fails (valid : validChunkHash chunkHash = true) (nodeId : NodeId) :
    Runs (faultyOn unreliable) (removeCorrupted storageNodes chunkHash nodeId) world (.ok ())
      world := by
  have unlisted : Runs (faultyOn unreliable) (store (.deleteChunkReplica chunkHash nodeId)) world
      (.error Failure.unavailable) world := runs_unavailable rfl _
  unfold removeCorrupted
  by_cases handled : nodeId ∈ storageNodes
  · obtain ⟨failure, fails⟩ := runs_deleteChunk_fails valid world nodeId
    simp only [if_pos handled]
    exact Runs.attempt_error fails.bind_error
  · simp only [if_neg handled]
    exact Runs.attempt_error unlisted

/-- The removal of a replica may delete intact bytes. -/
theorem runs_removeCorrupted_loses {nodeId : NodeId} (handled : nodeId ∈ storageNodes)
    (intact : Intact sha256 chunkHash world nodeId) :
    ∃ after, Runs (faultyOn unreliable) (removeCorrupted storageNodes chunkHash nodeId) world
        (.ok ()) after ∧
      ¬ Intact sha256 chunkHash after nodeId := by
  obtain ⟨after, deletes, empty⟩ := runs_deleteChunk_works intact
  have unlisted : Runs (faultyOn unreliable) (store (.deleteChunkReplica chunkHash nodeId)) after
      (.error Failure.unavailable) after := runs_unavailable rfl _
  refine ⟨after, ?_, ?_⟩
  · unfold removeCorrupted
    simp only [if_pos handled]
    exact Runs.attempt_error (deletes.bind_ok unlisted)
  · rintro ⟨data, held, _⟩
    rw [empty] at held
    cases held

theorem runs_forEach_fails (valid : validChunkHash chunkHash = true) (nodeIds : List NodeId) :
    Runs (faultyOn unreliable) (forEach (removeCorrupted storageNodes chunkHash) nodeIds) world
      (.ok ()) world := by
  induction nodeIds with
  | nil => exact .done _ _
  | cons nodeId rest ih => exact (runs_removeCorrupted_fails valid nodeId).bind_ok ih

/-- One replica is deleted and no other removal does anything. -/
theorem runs_forEach_loses {nodeId : NodeId} (handled : nodeId ∈ storageNodes)
    (intact : Intact sha256 chunkHash world nodeId) {nodeIds : List NodeId}
    (member : nodeId ∈ nodeIds) :
    ∃ after, Runs (faultyOn unreliable) (forEach (removeCorrupted storageNodes chunkHash) nodeIds)
        world (.ok ()) after ∧ ¬ Intact sha256 chunkHash after nodeId := by
  induction nodeIds with
  | nil => cases member
  | cons other rest ih =>
      by_cases same : nodeId = other
      · subst same
        obtain ⟨after, loses, lost⟩ := runs_removeCorrupted_loses handled intact
        exact ⟨after, loses.bind_ok (runs_forEach_fails intact.valid rest), lost⟩
      · obtain ⟨after, loses, lost⟩ := ih ((List.mem_cons.mp member).resolve_left same)
        exact ⟨after, (runs_removeCorrupted_fails intact.valid other).bind_ok loses, lost⟩

/-- **A repair may lose every intact replica that it takes for corrupted.** -/
theorem runs_repair_loses (hashRing : ConsistentHashRing ChunkHash) (now : NodeId → Time)
    {health : ReplicaHealth} {nodeId : NodeId}
    (handled : nodeId ∈ storageNodes) (intact : Intact sha256 chunkHash world nodeId)
    (blamed : nodeId ∈ health.corruptedReplicas) :
    ∃ outcome after, Runs (faultyOn unreliable)
        (repair hashRing storageNodes chunkHash now health) world outcome after ∧
      ¬ Intact sha256 chunkHash after nodeId := by
  obtain ⟨after, loses, lost⟩ := runs_forEach_loses handled intact blamed
  have unlisted : Runs (faultyOn unreliable) (store (.getChunkReplicas chunkHash)) after
      (.error Failure.unavailable) after := runs_unavailable rfl _
  by_cases enough : replicationFactor ≤ health.replicaCount - health.corruptedReplicas.length
  · refine ⟨.ok (), after, loses.bind_ok ?_, lost⟩
    rw [restoreReplicas]
    dsimp only
    rw [if_pos enough]
    exact .done _ _
  · refine ⟨.error .unavailable, after, loses.bind_ok ?_, lost⟩
    rw [restoreReplicas]
    dsimp only
    rw [if_neg enough]
    exact unlisted.bind_error

/-! ## A copy that destroys an intact replica -/

/-- The repair can read the chunk when some replica has not been blamed, and those are healthy. -/
theorem run_readHealthy {corruptedReplicas : List NodeId} {replicas : List ChunkReplicaRecord}
    (blameless : ∃ replica ∈ replicas, replica.nodeId ∉ corruptedReplicas)
    (verified : ∀ replica ∈ replicas, replica.nodeId ∉ corruptedReplicas →
      Healthy sha256 storageNodes chunkHash world replica) :
    ∃ data, (readHealthy storageNodes chunkHash corruptedReplicas replicas).run exec world =
      (.ok (some data), world) := by
  induction replicas with
  | nil =>
      obtain ⟨replica, member, _⟩ := blameless
      cases member
  | cons replica rest ih =>
      unfold readHealthy
      by_cases blamed : replica.nodeId ∈ corruptedReplicas
      · rw [if_pos blamed]
        refine ih ?_ fun other member => verified other (List.mem_cons_of_mem _ member)
        obtain ⟨other, member, spared⟩ := blameless
        rcases List.mem_cons.mp member with rfl | later
        · exact absurd blamed spared
        · exact ⟨other, later, spared⟩
      · obtain ⟨handled, intact⟩ := verified replica List.mem_cons_self blamed
        obtain ⟨data, held, digest⟩ := id intact
        have reads : (StorageNodeImpl.readChunk replica.nodeId chunkHash).run exec world =
            (.ok data, world) := by
          have run :=
            @run_readChunk chunkHash world (fun _ => true) intact.valid replica.nodeId none []
          rw [Option.mem_def.mp held] at run
          exact run_of_working (by simp) run
        refine ⟨data, ?_⟩
        rw [if_neg blamed, if_neg (not_not.mpr handled), run_tryCatch, run_bind_ok exec reads]
        rfl

/-- A copy may fail before it has written anything. -/
theorem runs_writeChunk_fails (valid : validChunkHash chunkHash = true) (chunkData : Buffer)
    (nodeId : NodeId) :
    ∃ failure, Runs (faultyOn unreliable) (StorageNodeImpl.writeChunk nodeId chunkHash chunkData)
      world (.error failure) world := by
  have mkdir : Runs (faultyOn unreliable) (disk nodeId (.mkdir (chunkPrefix chunkHash))) world
      (.error Failure.unavailable) world := runs_unavailable rfl _
  refine ⟨.error s!"Failed to write chunk {chunkHash}: {Failure.unavailable.message}", ?_⟩
  refine (runs_validateChunkHash valid).bind_ok (Runs.tryCatch_error mkdir.bind_error ?_)
  exact Runs.throw_iff.mpr ⟨rfl, rfl⟩

theorem runs_writeReplica_fails (valid : validChunkHash chunkHash = true) (chunkData : Buffer)
    (nodeId : NodeId) :
    Runs (faultyOn unreliable) (writeReplica storageNodes chunkHash chunkData now nodeId) world
      (.ok ()) world := by
  unfold writeReplica
  split
  · obtain ⟨failure, fails⟩ := runs_writeChunk_fails valid chunkData nodeId
    exact Runs.attempt_error fails.bind_error
  · exact .done _ _

/-- A copy may fail when it has written other bytes. -/
theorem runs_writeReplica_tears {nodeId : NodeId} (valid : validChunkHash chunkHash = true)
    (chunkData other : Buffer) (handled : nodeId ∈ storageNodes)
    (fallible : unreliable nodeId = true) :
    ∃ after, Runs (faultyOn unreliable) (writeReplica storageNodes chunkHash chunkData now nodeId)
        world (.ok ()) after ∧ after.bytes nodeId chunkHash = some other := by
  let directory := (exec (.disk nodeId (.mkdir (chunkPrefix chunkHash))) world).2
  have mkdir : exec (.disk nodeId (.mkdir (chunkPrefix chunkHash))) world =
      (.ok (), directory) := rfl
  have present : (getChunkPath chunkHash).1 ∈ (directory.nodes nodeId).disk.directories := by
    show _ ∈ ((world.setNode nodeId _).nodes nodeId).disk.directories
    rw [World.nodes_setNode, if_pos rfl]
    exact Disk.mem_directories_mkdir _ _
  obtain ⟨disk, writes, _⟩ := Disk.exists_writeFile present other
  let torn := directory.setNode nodeId { directory.nodes nodeId with disk := disk }
  have tears : exec (.disk nodeId (.writeFile (getChunkPath chunkHash) other)) directory =
      (.ok (), torn) := congrArg (directory.flush nodeId) writes
  have fails : Runs (faultyOn unreliable)
      (Services.disk nodeId (.writeFile (getChunkPath chunkHash) chunkData)) directory
      (.error Failure.unavailable) torn :=
    Runs.perform_iff.mpr (.inr ⟨fallible, ⟨_, rfl⟩, some other, (congrArg Prod.snd tears).symm⟩)
  refine ⟨torn, ?_, ?_⟩
  · have writeChunk : Runs (faultyOn unreliable)
        (StorageNodeImpl.writeChunk nodeId chunkHash chunkData) world
        (.error (.error s!"Failed to write chunk {chunkHash}: {Failure.unavailable.message}"))
        torn := by
      refine (runs_validateChunkHash valid).bind_ok
        (Runs.tryCatch_error ((runs_works mkdir).bind_ok fails.bind_error) ?_)
      exact Runs.throw_iff.mpr ⟨rfl, rfl⟩
    unfold writeReplica
    rw [if_pos handled]
    exact Runs.attempt_error writeChunk.bind_error
  · rw [(exec_writeFile tears).bytes, if_pos ⟨rfl, rfl⟩]

theorem runs_forEach_writeReplica_fails (valid : validChunkHash chunkHash = true)
    (chunkData : Buffer) (nodeIds : List NodeId) :
    Runs (faultyOn unreliable) (forEach (writeReplica storageNodes chunkHash chunkData now) nodeIds)
      world (.ok ()) world := by
  induction nodeIds with
  | nil => exact .done _ _
  | cons nodeId rest ih => exact (runs_writeReplica_fails valid chunkData nodeId).bind_ok ih

/-- One copy writes other bytes and no other copy does anything. -/
theorem runs_forEach_tears {nodeId : NodeId} (valid : validChunkHash chunkHash = true)
    (chunkData other : Buffer) (handled : nodeId ∈ storageNodes)
    (fallible : unreliable nodeId = true) {nodeIds : List NodeId} (member : nodeId ∈ nodeIds) :
    ∃ after, Runs (faultyOn unreliable)
        (forEach (writeReplica storageNodes chunkHash chunkData now) nodeIds) world (.ok ()) after ∧
      after.bytes nodeId chunkHash = some other := by
  induction nodeIds with
  | nil => cases member
  | cons first rest ih =>
      by_cases same : nodeId = first
      · subst same
        obtain ⟨after, tears, torn⟩ :=
          runs_writeReplica_tears valid chunkData other handled fallible
        exact ⟨after, tears.bind_ok (runs_forEach_writeReplica_fails valid chunkData rest), torn⟩
      · obtain ⟨after, tears, torn⟩ := ih ((List.mem_cons.mp member).resolve_left same)
        exact ⟨after, (runs_writeReplica_fails valid chunkData first).bind_ok tears, torn⟩

/-- **A repair may destroy the bytes of every target that it has a handle on**, when writes can
fail there. No removal does anything, so the nodes that it copies to are the targets. -/
theorem runs_repair_tears {nodeId : NodeId} (other : Buffer)
    (target : nodeId ∈ restoreTargets sha256 hashRing storageNodes chunkHash world)
    (handled : nodeId ∈ storageNodes) (fallible : unreliable nodeId = true) :
    ∃ after, Runs (faultyOn unreliable) (repair hashRing storageNodes chunkHash now
        (healthOf sha256 storageNodes chunkHash world)) world (.ok ()) after ∧
      after.bytes nodeId chunkHash = some other := by
  let replicas := world.store.getChunkReplicas chunkHash
  unfold restoreTargets at target
  dsimp only at target
  by_cases none : (replicas.filter fun replica =>
      Healthy sha256 storageNodes chunkHash world replica) = []
  · rw [if_pos none] at target
    cases target
  rw [if_neg none] at target
  obtain ⟨replica, kept⟩ := List.exists_mem_of_ne_nil _ none
  obtain ⟨listed, healthy⟩ := List.mem_filter.mp kept
  have valid := (of_decide_eq_true healthy).2.valid
  have missing : ¬ replicationFactor ≤ (healthOf sha256 storageNodes chunkHash world).replicaCount -
      (healthOf sha256 storageNodes chunkHash world).corruptedReplicas.length := by
    rw [currentReplicas_healthOf]
    intro enough
    rw [Nat.sub_eq_zero_of_le enough, List.take_zero] at target
    cases target
  obtain ⟨data, reads⟩ := run_readHealthy
    ⟨replica, listed, (healthy_iff_blameless listed).mpr (of_decide_eq_true healthy)⟩
    fun other member => (healthy_iff_blameless member).mp
  have lists : Runs (faultyOn unreliable) (store (.getChunkReplicas chunkHash)) world
      (.ok replicas) world := runs_works rfl
  have copied : nodeId ∈ (unlistedNodes hashRing chunkHash replicas).take (replicationFactor -
      ((healthOf sha256 storageNodes chunkHash world).replicaCount -
        (healthOf sha256 storageNodes chunkHash world).corruptedReplicas.length)) := by
    rw [currentReplicas_healthOf]
    exact target
  obtain ⟨after, tears, torn⟩ := runs_forEach_tears valid data other handled fallible copied
  refine ⟨after, (runs_forEach_fails valid _).bind_ok ?_, torn⟩
  rw [restoreReplicas]
  dsimp only
  rw [if_neg missing]
  exact lists.bind_ok ((runs_withFaults_of_run reads).bind_ok tears)

/-! ## The failures that matter -/

/-- **Repairing keeps every intact replica, under every continuation of a pattern, exactly
when no read of an intact replica fails in the verification, and no write can fail on a target
with intact bytes.** The pattern gives the failures of the verification: one entry for the listing
of the replicas, and one for each replica that is read. -/
theorem reReplicate_keepsIntact_iff (sha256 : Sha256) (hashRing : ConsistentHashRing ChunkHash)
    (storageNodes : List NodeId) (chunkHash : ChunkHash) (now : NodeId → Time) (world : World)
    (unreliable : NodeId → Bool) (listing : Option (Failure × Option Buffer)) (reads : FaultPattern)
    (complete : reads.length = (verifiedReplicas storageNodes chunkHash
      (world.store.getChunkReplicas chunkHash)).length)
    (varies : ∃ data, sha256.digest data ≠ chunkHash) :
    (∀ later : FaultPattern, KeepsIntact sha256 chunkHash world
        ((reReplicate sha256 hashRing storageNodes chunkHash now).run (underPattern unreliable)
          (world, listing :: (reads ++ later))).2.1) ↔
      (listing = none →
        (∀ read ∈ (verifiedReplicas storageNodes chunkHash
            (world.store.getChunkReplicas chunkHash)).zip reads,
          Intact sha256 chunkHash world read.1.nodeId → read.2 = none) ∧
        ∀ nodeId ∈ restoreTargets sha256 hashRing storageNodes chunkHash world,
          nodeId ∈ storageNodes → unreliable nodeId = true →
            ¬ Intact sha256 chunkHash world nodeId) := by
  cases listing with
  | some fault =>
      refine iff_of_true (fun later => ?_) fun none => nomatch none
      have unlisted : (store (.getChunkReplicas chunkHash)).run (underPattern unreliable)
          (world, some fault :: (reads ++ later)) = (.error fault.1, world, reads ++ later) := rfl
      have rejected : (verifyReplicas sha256 storageNodes chunkHash).run (underPattern unreliable)
          (world, some fault :: (reads ++ later)) = (.error fault.1, world, reads ++ later) :=
        run_bind_error _ unlisted
      rw [reReplicate, run_bind_error _ rejected]
      exact fun nodeId intact => intact
  | none =>
      obtain ⟨found, judges, verify⟩ := run_verifyReplicas sha256 unreliable reads complete
      constructor
      · intro keeps _
        have works : ∀ read ∈ (verifiedReplicas storageNodes chunkHash
            (world.store.getChunkReplicas chunkHash)).zip reads,
            Intact sha256 chunkHash world read.1.nodeId → read.2 = none := by
          intro read member intact
          by_contra failed
          have handled : read.1.nodeId ∈ storageNodes := by
            have inside := (List.mem_filter.mp (List.of_mem_zip member).1).2
            simp only [Bool.decide_and, Bool.and_eq_true, decide_eq_true_eq] at inside
            exact inside.1
          have blamed : read.1.nodeId ∈ (found.health chunkHash
              (world.store.getChunkReplicas chunkHash)).corruptedReplicas :=
            judges.failed read member failed
          obtain ⟨outcome, after, loses, lost⟩ := runs_repair_loses hashRing now handled intact
            blamed
          obtain ⟨pattern, run⟩ := exists_pattern loses
          have kept := keeps (pattern ++ [])
          rw [reReplicate, run_bind_ok _ (verify _), run] at kept
          exact lost (kept _ intact)
        refine ⟨works, fun nodeId target handled fallible intact => ?_⟩
        obtain ⟨other, differs⟩ := varies
        obtain ⟨after, tears, torn⟩ := runs_repair_tears other target handled fallible
        obtain ⟨pattern, run⟩ := exists_pattern tears
        have kept := keeps (pattern ++ [])
        rw [reReplicate, run_bind_ok _ (verify _), judges.exact works] at kept
        obtain ⟨data, held, digest⟩ := (run _ ▸ kept) _ intact
        exact differs (Option.some.inj (torn.symm.trans held) ▸ digest)
      · intro condition later
        obtain ⟨works, untorn⟩ := condition rfl
        rw [reReplicate, run_bind_ok _ (verify later), judges.exact works]
        exact keepsIntact_of_repair untorn (runs_of_pattern (Prod.eta _).symm)

/-! ## A chunk with one replica -/

/-- A storage node as it registers. -/
def registered (nodeId : NodeId) : StorageNodeRecord :=
  { nodeId := nodeId, ipAddress := "10.0.0.1", port := 4000, availabilityZone := "zone-a",
    region := "region", capacity := 1000, usedSpace := 0, status := .active, registeredAt := 0,
    lastHeartbeat := 0 }

/-- A chunk that has been recorded and has no replica, next to some storage nodes. -/
def unreplicated (nodeIds : List NodeId) (chunkHash : ChunkHash) : World :=
  .ofStore
    { Database.empty with
      storageNodes := (nodeIds.map registered).foldl Table.insertIfAbsent (.empty _)
      chunks := (Table.empty _).insertIfAbsent
        { chunkHash := chunkHash, size := 1, encryptedSize := 1, referenceCount := 1,
          createdAt := 0 }
      replicaChunk := by simp [Database.empty]
      replicaNode := by simp [Database.empty] }

/-- The chunk with its intact bytes on the node. -/
def soleReplica : World :=
  let chunkHash := knownDigests.digest [7]
  ((writeReplica ["node"] chunkHash [7] (fun _ => 1) "node").run exec
    (unreplicated ["node"] chunkHash)).2

/-- A chunk whose only replica is read without a failure survives the repair. -/
theorem reReplicate_keeps_soleReplica :
    Intact knownDigests (knownDigests.digest [7]) soleReplica "node" ∧
      ∀ later : FaultPattern, KeepsIntact knownDigests (knownDigests.digest [7]) soleReplica
        ((reReplicate knownDigests (.new 150) ["node"] (knownDigests.digest [7])
          fun _ => 2).run (underPattern fun _ => true)
            (soleReplica, none :: ([none] ++ later))).2.1 :=
  ⟨by decide, (reReplicate_keepsIntact_iff knownDigests (.new 150) ["node"] _ _ soleReplica
    (fun _ => true) none [none] (by decide) ⟨[75], by decide⟩).mpr fun _ => by decide⟩

/-- **One failed read is enough to lose a chunk.** Its only replica is intact, the read
of it fails in the verification, nothing else fails, and the repair deletes it. -/
theorem reReplicate_loses_soleReplica :
    Intact knownDigests (knownDigests.digest [7]) soleReplica "node" ∧
      ¬ KeepsIntact knownDigests (knownDigests.digest [7]) soleReplica
        ((reReplicate knownDigests (.new 150) ["node"] (knownDigests.digest [7])
          fun _ => 2).run (underPattern fun _ => true)
            (soleReplica, [none, some (.unavailable, none)])).2.1 := by
  refine ⟨by decide, fun keeps => ?_⟩
  have kept := keeps "node" (by decide)
  revert kept
  decide

end ReplicationServiceImpl

end DistributedFileStorage.Replication
