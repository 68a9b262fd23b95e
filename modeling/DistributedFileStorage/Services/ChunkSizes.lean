import DistributedFileStorage.Services.Calls

/-!
# The size of a list of chunks

Both the upload manager and the version manager compute the size of a file from
the rows of its chunks, in the same loop: a chunk without a row adds nothing.
-/

set_option autoImplicit false

namespace DistributedFileStorage.Store.Database

/-- The sizes of the chunks of a list, with multiplicity; a chunk without a row
counts as empty. -/
def totalSize (db : Database) (chunkHashes : List ChunkHash) : ℕ :=
  (chunkHashes.map fun chunkHash => ((db.getChunk chunkHash).map ChunkRecord.size).getD 0).sum

/-- The size depends on the chunks only. -/
theorem totalSize_congr {first second : Database} (chunks : first.chunks = second.chunks)
    (chunkHashes : List ChunkHash) :
    first.totalSize chunkHashes = second.totalSize chunkHashes := by
  unfold totalSize getChunk
  rw [chunks]

/-- The size does not depend on the order of the chunks. -/
theorem totalSize_perm (db : Database) {first second : List ChunkHash}
    (reordered : first.Perm second) : db.totalSize first = db.totalSize second :=
  (reordered.map _).sum_eq

end DistributedFileStorage.Store.Database

namespace DistributedFileStorage.Services

open Async Store

/-- `totalSize += chunk.size` for each hash whose chunk is found. -/
def addChunkSize (totalSize : ℕ) (chunkHash : ChunkHash) : Async ℕ := do
  match ← store (.getChunk chunkHash) with
  | some chunk => pure (totalSize + chunk.size)
  | none => pure totalSize

/-- The loop that adds up the sizes of the chunks. -/
def computeTotalSize (chunkHashes : List ChunkHash) : Async ℕ :=
  Program.foldEach addChunkSize 0 chunkHashes

theorem run_addChunkSize (totalSize : ℕ) (chunkHash : ChunkHash) (world : World) :
    (addChunkSize totalSize chunkHash).run exec world =
      (.ok (totalSize + ((world.store.getChunk chunkHash).map ChunkRecord.size).getD 0), world) := by
  have looked : (store (.getChunk chunkHash)).run exec world =
      (.ok (world.store.getChunk chunkHash), world) := rfl
  rw [addChunkSize, Program.run_bind_ok exec looked]
  cases world.store.getChunk chunkHash with
  | none => rfl
  | some chunk => rfl

theorem run_foldEach_addChunkSize (chunkHashes : List ChunkHash) (start : ℕ) (world : World) :
    (Program.foldEach addChunkSize start chunkHashes).run exec world =
      (.ok (start + world.store.totalSize chunkHashes), world) := by
  induction chunkHashes generalizing start with
  | nil => rfl
  | cons chunkHash rest ih =>
      rw [Program.foldEach, Program.run_bind_ok exec (run_addChunkSize start chunkHash world), ih]
      simp only [Database.totalSize, List.map_cons, List.sum_cons, Nat.add_assoc]

/-- The loop reads the rows and changes nothing. -/
theorem run_computeTotalSize (chunkHashes : List ChunkHash) (world : World) :
    (computeTotalSize chunkHashes).run exec world =
      (.ok (world.store.totalSize chunkHashes), world) := by
  rw [computeTotalSize, run_foldEach_addChunkSize, Nat.zero_add]

end DistributedFileStorage.Services
