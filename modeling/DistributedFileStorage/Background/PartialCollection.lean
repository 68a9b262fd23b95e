import DistributedFileStorage.Background.GarbageCollection
import DistributedFileStorage.Background.ReplicaIntegrity

/-!
# Garbage collection when deletions fail

`garbageCollect` ignores a storage node that does not delete a chunk, on the ground that the
node may not have it, and then deletes the row of the chunk. A node that has the chunk and fails
keeps its bytes, and with the row goes the only record of the chunk. A failing deletion of the
row is ignored as well, and that keeps the row for a later run.

A run makes each deletion once, so a table says which of them fail, and it writes no file, so a
failing call has no effect. The module computes what a
run leaves on every node and in the store (`run_garbageCollect_failingOn`), and decides from it
for which tables no bytes stay without a row (`recorded_iff`).
-/

set_option autoImplicit false

namespace DistributedFileStorage.Background

open Async Store Services Nodes Deduplication Relational Program
open Replication.ReplicationServiceImpl (sevenMetadata)

/-- The node deletes the bytes of the chunk: the hash is well-formed and the file is unlinked. -/
def Deletes (failing : Call → Option Failure) (nodeId : NodeId) (chunkHash : ChunkHash) : Prop :=
  validChunkHash chunkHash = true ∧ failing (.disk nodeId (.unlink (getChunkPath chunkHash))) = none

instance (failing : Call → Option Failure) (nodeId : NodeId) (chunkHash : ChunkHash) :
    Decidable (Deletes failing nodeId chunkHash) :=
  inferInstanceAs (Decidable (_ ∧ _))

/-- The store deletes the row of the chunk. -/
def DeletesRow (failing : Call → Option Failure) (chunkHash : ChunkHash) : Prop :=
  failing (.store (.deleteChunk chunkHash)) = none

instance (failing : Call → Option Failure) :
    DecidablePred (DeletesRow failing) :=
  fun _ => inferInstanceAs (Decidable (_ = _))

namespace BackgroundJobs

variable (failing : Call → Option Failure) (storageNodes : List NodeId)

/-- A deletion whose unlink works runs as it does without faults: its other call cannot fail. -/
theorem run_deleteChunk_of_deletes {nodeId : NodeId} {chunkHash : ChunkHash} {world : World}
    (deletes : Deletes failing nodeId chunkHash) :
    (StorageNodeImpl.deleteChunk nodeId chunkHash).run (failingCalls failing) world =
      (StorageNodeImpl.deleteChunk nodeId chunkHash).run exec world := by
  refine run_failingOn_of_allCalls ?_ world
  refine StorageNodeImpl.allCalls_deleteChunk (fun _ => ?_) fun never => by cases never
  rw [deletes.2]
  rfl

/-- **One deletion**: the bytes are gone when the node deletes them, and nothing else changes. -/
theorem run_deleteChunk_failingOn (nodeId : NodeId) (chunkHash : ChunkHash) (world : World) :
    ∃ after, (StorageNodeImpl.deleteChunk nodeId chunkHash).attempt.run (failingCalls failing)
        world = (.ok (), after) ∧
      after.store = world.store ∧
      ∀ node hash, after.bytes node hash =
        if (node = nodeId ∧ hash = chunkHash) ∧ Deletes failing nodeId chunkHash then none
        else world.bytes node hash := by
  rw [run_attempt]
  refine ⟨_, rfl, ?_⟩
  by_cases deletes : Deletes failing nodeId chunkHash
  · -- nothing fails, so the node is left without the chunk
    rw [run_deleteChunk_of_deletes failing deletes]
    have ends := StorageNodeImpl.triple_deleteChunk deletes.1 rfl
      (runs_semantics_iff.mpr (Prod.eta ((StorageNodeImpl.deleteChunk nodeId chunkHash).run exec
        world)).symm)
    cases outcome : ((StorageNodeImpl.deleteChunk nodeId chunkHash).run exec world).1 with
    | error failure =>
        rw [outcome] at ends
        exact ends.elim
    | ok value =>
        rw [outcome] at ends
        refine ⟨ends.store, fun node hash => (ends.bytes node hash).trans ?_⟩
        simp only [deletes, and_true]
  · have unchanged : ((StorageNodeImpl.deleteChunk nodeId chunkHash).run (failingCalls failing)
        world).2 = world := by
      by_cases valid : validChunkHash chunkHash = true
      · obtain ⟨failure, fault⟩ := Option.ne_none_iff_exists'.mp fun none => deletes ⟨valid, none⟩
        have fails : (disk nodeId (.unlink (getChunkPath chunkHash))).run (failingCalls failing)
            world = (.error failure, world) := run_failingCalls_fails rfl fault world
        rw [StorageNodeImpl.deleteChunk,
          run_bind_ok _ (StorageNodeImpl.run_validateChunkHash _ world valid), run_tryCatch,
          run_bind_error _ fails]
        dsimp only
        split <;> rfl
      · rw [StorageNodeImpl.deleteChunk, StorageNodeImpl.validateChunkHash, if_neg valid]
        rfl
    rw [unchanged]
    exact ⟨rfl, fun node hash => (if_neg fun both => deletes both.2).symm⟩

/-- **The deletions on all nodes.** -/
theorem run_deleteFromNodes_failingOn (chunkHash : ChunkHash) (world : World) :
    ∃ after, (deleteFromNodes storageNodes chunkHash).run (failingCalls failing) world =
        (.ok (), after) ∧
      after.store = world.store ∧
      ∀ node hash, after.bytes node hash =
        if hash = chunkHash ∧ node ∈ storageNodes ∧ Deletes failing node chunkHash then none
        else world.bytes node hash := by
  unfold deleteFromNodes
  induction storageNodes generalizing world with
  | nil => exact ⟨world, rfl, rfl, fun node hash => (if_neg (by simp)).symm⟩
  | cons nodeId rest ih =>
      obtain ⟨middle, first, same, here⟩ := run_deleteChunk_failingOn failing nodeId chunkHash world
      obtain ⟨after, run, sameLater, later⟩ := ih middle
      refine ⟨after, ?_, sameLater.trans same, fun node hash => ?_⟩
      · rw [forEach, run_bind_ok _ first]
        exact run
      · rw [later, here]
        by_cases now : (node = nodeId ∧ hash = chunkHash) ∧ Deletes failing nodeId chunkHash
        · obtain ⟨⟨rfl, rfl⟩, deletes⟩ := now
          simp [deletes]
        · have others : (hash = chunkHash ∧ node ∈ nodeId :: rest ∧
              Deletes failing node chunkHash) ↔
              hash = chunkHash ∧ node ∈ rest ∧ Deletes failing node chunkHash := by
            constructor
            · rintro ⟨rfl, member, deletes⟩
              rcases List.mem_cons.mp member with rfl | further
              · exact absurd ⟨⟨rfl, rfl⟩, deletes⟩ now
              · exact ⟨rfl, further, deletes⟩
            · rintro ⟨rfl, further, deletes⟩
              exact ⟨rfl, List.mem_cons_of_mem _ further, deletes⟩
          rw [if_neg now]
          simp only [others]

/-- **One iteration**: the row goes when the store deletes it, whatever the nodes do. -/
theorem run_collectChunk_failingOn (deleted : ℕ) (chunkHash : ChunkHash) (world : World) :
    ∃ count after, (collectChunk storageNodes deleted chunkHash).run (failingCalls failing) world =
        (.ok count, after) ∧
      after.store = (if DeletesRow failing chunkHash then world.store.deleteChunk chunkHash
        else world.store) ∧
      ∀ node hash, after.bytes node hash =
        if hash = chunkHash ∧ node ∈ storageNodes ∧ Deletes failing node chunkHash then none
        else world.bytes node hash := by
  obtain ⟨emptied, run, same, bytes⟩ :=
    run_deleteFromNodes_failingOn failing storageNodes chunkHash world
  rw [collectChunk, run_tryCatch, run_bind_ok _ run]
  cases fault : failing (.store (.deleteChunk chunkHash)) with
  | none =>
      have works : (store (.deleteChunk chunkHash)).run (failingCalls failing) emptied =
          (.ok (), emptied.setStore (emptied.store.deleteChunk chunkHash)) := by
        refine run_failingCalls_of_allCalls ?_ emptied
        exact .perform fault
      rw [run_bind_ok _ works]
      refine ⟨_, _, rfl, ?_, bytes⟩
      have row : DeletesRow failing chunkHash := fault
      rw [if_pos row, World.store_setStore, same]
  | some failure =>
      have fails : (store (.deleteChunk chunkHash)).run (failingCalls failing) emptied =
          (.error failure, emptied) := run_failingCalls_fails rfl fault emptied
      rw [run_bind_error _ fails]
      refine ⟨_, _, rfl, ?_, bytes⟩
      rw [if_neg (by simp [DeletesRow, fault]), same]

/-- **The loop over the orphaned chunks.** -/
theorem run_foldEach_collectChunk_failingOn (chunkHashes : List ChunkHash) (deleted : ℕ)
    (world : World) :
    ∃ count after, (foldEach (collectChunk storageNodes) deleted chunkHashes).run
        (failingCalls failing) world = (.ok count, after) ∧
      after.store = world.store.deleteChunks (chunkHashes.filter (DeletesRow failing ·)) ∧
      ∀ node hash, after.bytes node hash =
        if hash ∈ chunkHashes ∧ node ∈ storageNodes ∧ Deletes failing node hash then none
        else world.bytes node hash := by
  induction chunkHashes generalizing deleted world with
  | nil => exact ⟨deleted, world, rfl, rfl, fun node hash => (if_neg (by simp)).symm⟩
  | cons chunkHash rest ih =>
      obtain ⟨count, middle, first, stored, here⟩ :=
        run_collectChunk_failingOn failing storageNodes deleted chunkHash world
      obtain ⟨total, after, run, storedLater, later⟩ := ih count middle
      refine ⟨total, after, ?_, ?_, fun node hash => ?_⟩
      · rw [foldEach, run_bind_ok _ first]
        exact run
      · rw [storedLater, stored]
        by_cases row : DeletesRow failing chunkHash
        · rw [if_pos row, List.filter_cons_of_pos (by simpa using row)]
          rfl
        · rw [if_neg row, List.filter_cons_of_neg (by simpa using row)]
      · rw [later, here]
        by_cases again : hash ∈ rest ∧ node ∈ storageNodes ∧ Deletes failing node hash
        · rw [if_pos again, if_pos ⟨List.mem_cons_of_mem _ again.1, again.2⟩]
        · rw [if_neg again]
          by_cases now : hash = chunkHash
          · subst now
            simp
          · have others : (hash ∈ chunkHash :: rest ∧ node ∈ storageNodes ∧
                Deletes failing node hash) ↔
                hash ∈ rest ∧ node ∈ storageNodes ∧ Deletes failing node hash := by
              rw [List.mem_cons, or_iff_right now]
            simp only [now, false_and, if_false, others, again]

/-- Every node of the list that still holds the bytes of an orphaned chunk has them on record:
the row of the chunk is there and orphaned, so that a later run tries again. -/
def Recorded (storageNodes : List NodeId) (before after : World) : Prop :=
  ∀ chunkHash ∈ before.store.getOrphanedChunks, ∀ nodeId ∈ storageNodes,
    after.bytes nodeId chunkHash ≠ none → chunkHash ∈ after.store.getOrphanedChunks

instance (storageNodes : List NodeId) (before after : World) :
    Decidable (Recorded storageNodes before after) :=
  inferInstanceAs (Decidable (∀ _ ∈ _, ∀ _ ∈ _, _))

/-- **No bytes stay without a row exactly when the store keeps the row of every orphaned chunk
that a node has and does not delete**, unless the list of the orphaned chunks fails already. -/
theorem recorded_iff (failing : Call → Option Failure) (storageNodes : List NodeId)
    (world : World) :
    Recorded storageNodes world
        ((garbageCollect storageNodes).run (failingCalls failing) world).2 ↔
      failing (.store .getOrphanedChunks) ≠ none ∨
        ∀ chunkHash ∈ world.store.getOrphanedChunks, ∀ nodeId ∈ storageNodes,
          world.bytes nodeId chunkHash ≠ none → ¬ Deletes failing nodeId chunkHash →
            ¬ DeletesRow failing chunkHash := by
  rw [garbageCollect]
  cases fault : failing (.store .getOrphanedChunks) with
  | some failure =>
      have fails : DeduplicationEngine.getOrphanedChunks.run (failingCalls failing) world =
          (.error failure, world) := run_failingCalls_fails rfl fault world
      rw [run_bind_error _ fails]
      exact iff_of_true (fun chunkHash orphaned _ _ _ => orphaned)
        (.inl (Option.some_ne_none failure))
  | none =>
      have listed : DeduplicationEngine.getOrphanedChunks.run (failingCalls failing) world =
          (.ok world.store.getOrphanedChunks, world) :=
        run_failingCalls_of_allCalls (.perform fault) world
      rw [run_bind_ok _ listed]
      obtain ⟨count, after, run, stored, bytes⟩ := run_foldEach_collectChunk_failingOn failing
        storageNodes world.store.getOrphanedChunks 0 world
      rw [run, or_iff_right (by simp)]
      refine forall₂_congr fun chunkHash orphaned => forall₂_congr fun nodeId member => ?_
      have row : chunkHash ∈ after.store.getOrphanedChunks ↔ ¬ DeletesRow failing chunkHash := by
        rw [stored, Database.mem_getOrphanedChunks, Database.getChunk_deleteChunks]
        have orphan := Database.mem_getOrphanedChunks.mp orphaned
        by_cases deletes : DeletesRow failing chunkHash
        · have gone : chunkHash ∈ world.store.getOrphanedChunks.filter (DeletesRow failing ·) :=
            List.mem_filter.mpr ⟨orphaned, by simpa using deletes⟩
          rw [if_pos gone]
          simp [deletes]
        · have kept : chunkHash ∉ world.store.getOrphanedChunks.filter (DeletesRow failing ·) :=
            fun member => deletes (by simpa using (List.mem_filter.mp member).2)
          rw [if_neg kept]
          exact iff_of_true orphan deletes
      rw [row, bytes]
      by_cases deletes : Deletes failing nodeId chunkHash
      · rw [if_pos ⟨orphaned, member, deletes⟩]
        simp [deletes]
      · rw [if_neg fun both => deletes both.2.2]
        simp [deletes]

/-! ## A disk that fails -/

/-- No call on the disk of the node works. -/
def brokenDisk (nodeId : NodeId) : Call → Option Failure
  | .disk other _ => if other = nodeId then some (.error "EIO: i/o error") else none
  | .store _ => none

/-- **The row of a chunk goes although a node keeps its bytes.** The chunk has no reference and
bytes on three nodes, and the disk of the second one fails: the run counts a deleted chunk, and no
later run knows of the bytes. -/
theorem garbageCollect_losesRow :
    let ended := (garbageCollect ["n1", "n2", "n3"]).run (failingCalls (brokenDisk "n2"))
      damagedOrphan
    ended.1 = .ok 1 ∧ sevenMetadata.contentHash ∈ damagedOrphan.store.getOrphanedChunks ∧
      ended.2.bytes "n1" sevenMetadata.contentHash = none ∧
      ended.2.bytes "n2" sevenMetadata.contentHash ≠ none ∧
      ended.2.store.getChunk sevenMetadata.contentHash = none ∧
      ¬ Recorded ["n1", "n2", "n3"] damagedOrphan ended.2 := by
  decide +kernel

end BackgroundJobs

end DistributedFileStorage.Background
