import DistributedFileStorage.Deduplication.ReferenceCounting
import DistributedFileStorage.Nodes.StorageNode

/-!
# Garbage collection

`garbageCollect` asks the deduplication engine for the chunks whose reference
count is zero. For each of them it deletes the bytes from every storage node it
knows, and then the row of the chunk; it goes on when a node or the store fails.

When the calls work, a run removes the rows of exactly those chunks, and the bytes
of no other chunk (`run_garbageCollect`).
-/

set_option autoImplicit false

namespace DistributedFileStorage.Background

open Async Store Services Nodes Deduplication Relational

namespace BackgroundJobs

/-- Delete a chunk from every storage node; a node may not have it. -/
def deleteFromNodes (storageNodes : List NodeId) (chunkHash : ChunkHash) : Async Unit :=
  Program.forEach (fun nodeId => (StorageNodeImpl.deleteChunk nodeId chunkHash).attempt)
    storageNodes

/-- One iteration of the loop of `garbageCollect`. -/
def collectChunk (storageNodes : List NodeId) (deleted : ℕ) (chunkHash : ChunkHash) : Async ℕ :=
  Program.tryCatch
    (do
      deleteFromNodes storageNodes chunkHash
      store (.deleteChunk chunkHash)
      pure (deleted + 1))
    fun _ => pure deleted

def garbageCollect (storageNodes : List NodeId) : Async ℕ := do
  let orphanedHashes ← DeduplicationEngine.getOrphanedChunks
  Program.foldEach (collectChunk storageNodes) 0 orphanedHashes

end BackgroundJobs

end DistributedFileStorage.Background

namespace DistributedFileStorage.Services

open Async Store Nodes Program

/-- The second world is the first one, except that the nodes may have lost their
bytes of some chunks. -/
structure LosesBytesOf (lost : ChunkHash → Prop) (before after : World) : Prop where
  store : after.store = before.store
  bytes : ∀ nodeId chunkHash, ¬ lost chunkHash →
    after.bytes nodeId chunkHash = before.bytes nodeId chunkHash

theorem LosesBytesOf.refl (lost : ChunkHash → Prop) (world : World) :
    LosesBytesOf lost world world := ⟨rfl, fun _ _ _ => rfl⟩

theorem LosesBytesOf.trans {lost : ChunkHash → Prop} {first second third : World}
    (earlier : LosesBytesOf lost first second) (later : LosesBytesOf lost second third) :
    LosesBytesOf lost first third where
  store := later.store.trans earlier.store
  bytes nodeId chunkHash kept :=
    (later.bytes nodeId chunkHash kept).trans (earlier.bytes nodeId chunkHash kept)

theorem PutsChunk.losesBytesOf {nodeId : NodeId} {chunkHash : ChunkHash}
    {contents : Option Buffer → Prop} {before after : World}
    (puts : PutsChunk nodeId chunkHash contents before after) :
    LosesBytesOf (· = chunkHash) before after where
  store := puts.store
  bytes _ _ kept := puts.elsewhere fun both => kept both.2

/-- A deletion on one node loses the bytes of its chunk only. -/
theorem run_deleteChunk_losesBytesOf (nodeId : NodeId) (chunkHash : ChunkHash) (world : World) :
    LosesBytesOf (· = chunkHash) world
      ((StorageNodeImpl.deleteChunk nodeId chunkHash).run exec world).2 := by
  have run := (Prod.eta ((StorageNodeImpl.deleteChunk nodeId chunkHash).run exec world)).symm
  have faults : Runs faulty (StorageNodeImpl.deleteChunk nodeId chunkHash) world _ _ :=
    runs_withFaults_of_run run
  have puts : PutsChunk nodeId chunkHash (· = none) world _ :=
    StorageNodeImpl.keeps_deleteChunk.of_runs (.refl world) faults
  exact puts.losesBytesOf

end DistributedFileStorage.Services

namespace DistributedFileStorage.Store.Database

open Relational

/-- Delete the rows of a list of chunks. -/
def deleteChunks (db : Database) (chunkHashes : List ChunkHash) : Database :=
  chunkHashes.foldl deleteChunk db

theorem getChunk_deleteChunks (db : Database) (chunkHashes : List ChunkHash) (other : ChunkHash) :
    (db.deleteChunks chunkHashes).getChunk other =
      if other ∈ chunkHashes then none else db.getChunk other := by
  unfold deleteChunks
  induction chunkHashes generalizing db with
  | nil => simp
  | cons chunkHash rest ih =>
      rw [List.foldl_cons, ih]
      by_cases same : other = chunkHash
      · subst same
        have gone : (db.deleteChunk other).getChunk other = none := Table.find?_delete_self
        simp [gone]
      · have kept : (db.deleteChunk chunkHash).getChunk other = db.getChunk other :=
          Table.find?_delete_of_ne same
        simp [kept, same]

/-- Deleting chunks leaves every table but `chunks` and `chunk_replicas` alone. -/
theorem deleteChunks_frame (db : Database) (chunkHashes : List ChunkHash) :
    (db.deleteChunks chunkHashes).files = db.files ∧
      (db.deleteChunks chunkHashes).fileVersions = db.fileVersions ∧
      (db.deleteChunks chunkHashes).uploadSessions = db.uploadSessions ∧
      (db.deleteChunks chunkHashes).uploadedChunks = db.uploadedChunks := by
  unfold deleteChunks
  induction chunkHashes generalizing db with
  | nil => exact ⟨rfl, rfl, rfl, rfl⟩
  | cons chunkHash rest ih => exact ih (db.deleteChunk chunkHash)

theorem mem_getOrphanedChunks {db : Database} {chunkHash : ChunkHash} :
    chunkHash ∈ db.getOrphanedChunks ↔
      ∃ chunk, db.getChunk chunkHash = some chunk ∧ chunk.referenceCount = 0 := by
  simp only [getOrphanedChunks, List.mem_map, List.mem_filter, decide_eq_true_eq, getChunk,
    Table.find?_eq_some_iff]
  constructor
  · rintro ⟨chunk, ⟨member, zero⟩, here⟩
    exact ⟨chunk, ⟨member, here⟩, zero⟩
  · rintro ⟨chunk, ⟨member, here⟩, zero⟩
    exact ⟨chunk, ⟨member, zero⟩, here⟩

end DistributedFileStorage.Store.Database

namespace DistributedFileStorage.Background.BackgroundJobs

open Async Store Services Nodes Deduplication Relational Program

theorem run_deleteFromNodes (storageNodes : List NodeId) (chunkHash : ChunkHash) (world : World) :
    ∃ after, (deleteFromNodes storageNodes chunkHash).run exec world = (.ok (), after) ∧
      LosesBytesOf (· = chunkHash) world after := by
  unfold deleteFromNodes
  induction storageNodes generalizing world with
  | nil => exact ⟨world, rfl, .refl _ world⟩
  | cons nodeId rest ih =>
      obtain ⟨after, run, loses⟩ :=
        ih ((StorageNodeImpl.deleteChunk nodeId chunkHash).run exec world).2
      refine ⟨after, ?_, (run_deleteChunk_losesBytesOf nodeId chunkHash world).trans loses⟩
      rw [forEach, run_bind_ok exec (run_attempt exec _ world)]
      exact run

theorem run_collectChunk (storageNodes : List NodeId) (deleted : ℕ) (chunkHash : ChunkHash)
    (world : World) :
    ∃ after, (collectChunk storageNodes deleted chunkHash).run exec world =
        (.ok (deleted + 1), after.setStore (world.store.deleteChunk chunkHash)) ∧
      LosesBytesOf (· = chunkHash) world after := by
  obtain ⟨after, run, loses⟩ := run_deleteFromNodes storageNodes chunkHash world
  refine ⟨after, ?_, loses⟩
  rw [collectChunk, run_tryCatch, run_bind_ok exec run, ← loses.store]
  rfl

theorem run_foldEach_collectChunk (storageNodes : List NodeId) (chunkHashes : List ChunkHash)
    (deleted : ℕ) (world : World) :
    ∃ after, (foldEach (collectChunk storageNodes) deleted chunkHashes).run exec world =
        (.ok (deleted + chunkHashes.length), after) ∧
      after.store = world.store.deleteChunks chunkHashes ∧
      ∀ nodeId chunkHash, chunkHash ∉ chunkHashes →
        after.bytes nodeId chunkHash = world.bytes nodeId chunkHash := by
  induction chunkHashes generalizing deleted world with
  | nil => exact ⟨world, rfl, rfl, fun _ _ _ => rfl⟩
  | cons chunkHash rest ih =>
      obtain ⟨middle, first, loses⟩ := run_collectChunk storageNodes deleted chunkHash world
      obtain ⟨after, later, stored, kept⟩ :=
        ih (deleted + 1) (middle.setStore (world.store.deleteChunk chunkHash))
      refine ⟨after, ?_, stored, ?_⟩
      · rw [foldEach, run_bind_ok exec first, later, List.length_cons, Nat.add_assoc,
          Nat.add_comm 1]
      · intro nodeId other absent
        rw [List.mem_cons, not_or] at absent
        rw [kept nodeId other absent.2, World.bytes_setStore]
        exact loses.bytes nodeId other absent.1

/-- **What `garbageCollect` does.** It removes the rows of the orphaned chunks and
no bytes of any other chunk. -/
theorem run_garbageCollect (storageNodes : List NodeId) (world : World) :
    ∃ after, (garbageCollect storageNodes).run exec world =
        (.ok world.store.getOrphanedChunks.length, after) ∧
      after.store = world.store.deleteChunks world.store.getOrphanedChunks ∧
      ∀ nodeId chunkHash, chunkHash ∉ world.store.getOrphanedChunks →
        after.bytes nodeId chunkHash = world.bytes nodeId chunkHash := by
  obtain ⟨after, run, stored, kept⟩ :=
    run_foldEach_collectChunk storageNodes world.store.getOrphanedChunks 0 world
  refine ⟨after, ?_, stored, kept⟩
  have listed : DeduplicationEngine.getOrphanedChunks.run exec world =
      (.ok world.store.getOrphanedChunks, world) := rfl
  rw [garbageCollect, run_bind_ok exec listed, run, Nat.zero_add]

end DistributedFileStorage.Background.BackgroundJobs
