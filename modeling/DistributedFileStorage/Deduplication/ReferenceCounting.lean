import DistributedFileStorage.Services.Calls

/-!
# Reference counting

The deduplication engine keeps, in the row of each chunk, the number of references
to it. `incrementReference` adds one after it has seen the row, and rejects when
there is none; `decrementReference` takes one away after it has seen a positive
count, and rejects otherwise.

Its callers go through the hashes of a version and ignore a rejection. What such a
loop does to the database is a function of the list of hashes
(`Database.acquire`, `Database.release`): it adds to each count the number of
occurrences of the hash, or takes that number away and stops at zero.
-/

set_option autoImplicit false

namespace DistributedFileStorage.Deduplication

open Async Store Services Relational

namespace DeduplicationEngine

def incrementReference (chunkHash : ChunkHash) (fileId : FileId) : Async Unit := do
  match ← store (.getChunk chunkHash) with
  | none => reject s!"Cannot increment reference: chunk {chunkHash} does not exist"
  | some _ => store (.incrementChunkReference chunkHash fileId)

def decrementReference (chunkHash : ChunkHash) (fileId : FileId) : Async Unit := do
  match ← store (.getChunk chunkHash) with
  | none => reject s!"Cannot decrement reference: chunk {chunkHash} does not exist"
  | some chunk =>
      if chunk.referenceCount ≤ 0 then
        reject s!"Cannot decrement reference: chunk {chunkHash} already has zero references"
      else store (.decrementChunkReference chunkHash fileId)

def getOrphanedChunks : Async (List ChunkHash) := store .getOrphanedChunks

end DeduplicationEngine

end DistributedFileStorage.Deduplication

namespace DistributedFileStorage.Store.Database

open Relational

variable (db : Database)

/-- The database after a decrement that is guarded by a positive count. -/
def releaseReference (chunkHash : ChunkHash) : Database :=
  match db.getChunk chunkHash with
  | none => db
  | some chunk => if chunk.referenceCount ≤ 0 then db else db.decrementChunkReference chunkHash

/-- Count one more reference for every occurrence in the list. -/
def acquire (chunkHashes : List ChunkHash) : Database :=
  chunkHashes.foldl incrementChunkReference db

/-- Count one reference less for every occurrence in the list, down to zero. -/
def release (chunkHashes : List ChunkHash) : Database :=
  chunkHashes.foldl releaseReference db

/-- Two databases that agree on everything but reference counts: the statements on
reference counts touch nothing else. -/
structure SameButCounts (before after : Database) : Prop where
  files : after.files = before.files
  fileVersions : after.fileVersions = before.fileVersions
  chunkKeys : after.chunks.keys = before.chunks.keys
  storageNodes : after.storageNodes = before.storageNodes
  chunkReplicas : after.chunkReplicas = before.chunkReplicas
  uploadSessions : after.uploadSessions = before.uploadSessions
  uploadedChunks : after.uploadedChunks = before.uploadedChunks
  filePermissions : after.filePermissions = before.filePermissions

theorem SameButCounts.refl (db : Database) : SameButCounts db db :=
  ⟨rfl, rfl, rfl, rfl, rfl, rfl, rfl, rfl⟩

theorem SameButCounts.trans {first second third : Database}
    (earlier : SameButCounts first second) (later : SameButCounts second third) :
    SameButCounts first third where
  files := later.files.trans earlier.files
  fileVersions := later.fileVersions.trans earlier.fileVersions
  chunkKeys := later.chunkKeys.trans earlier.chunkKeys
  storageNodes := later.storageNodes.trans earlier.storageNodes
  chunkReplicas := later.chunkReplicas.trans earlier.chunkReplicas
  uploadSessions := later.uploadSessions.trans earlier.uploadSessions
  uploadedChunks := later.uploadedChunks.trans earlier.uploadedChunks
  filePermissions := later.filePermissions.trans earlier.filePermissions

theorem sameButCounts_changeChunks (db : Database) (change : ChunkRecord → ChunkRecord)
    (keeps : ∀ chunk, (change chunk).chunkHash = chunk.chunkHash) :
    SameButCounts db (db.changeChunks change keeps) :=
  ⟨rfl, rfl, (Table.keys_mapRows : (db.chunks.mapRows change keeps).keys = _), rfl, rfl, rfl, rfl,
    rfl⟩

theorem sameButCounts_releaseReference (db : Database) (chunkHash : ChunkHash) :
    SameButCounts db (db.releaseReference chunkHash) := by
  unfold releaseReference
  split
  · exact .refl db
  · split
    · exact .refl db
    · exact sameButCounts_changeChunks db _ _

theorem sameButCounts_acquire (db : Database) (chunkHashes : List ChunkHash) :
    SameButCounts db (db.acquire chunkHashes) := by
  unfold acquire
  induction chunkHashes generalizing db with
  | nil => exact .refl db
  | cons chunkHash rest ih => exact (sameButCounts_changeChunks db _ _).trans (ih _)

theorem sameButCounts_release (db : Database) (chunkHashes : List ChunkHash) :
    SameButCounts db (db.release chunkHashes) := by
  unfold release
  induction chunkHashes generalizing db with
  | nil => exact .refl db
  | cons chunkHash rest ih => exact (sameButCounts_releaseReference db chunkHash).trans (ih _)

/-! ## What the loops do to one count -/

/-- The row with another reference count. -/
def withCount (count : ℤ) (chunk : ChunkRecord) : ChunkRecord :=
  { chunk with referenceCount := count }

@[simp] theorem withCount_referenceCount (chunk : ChunkRecord) :
    withCount chunk.referenceCount chunk = chunk := rfl

theorem addReferences_of_eq {chunkHash : ChunkHash} {amount : ℤ} {chunk : ChunkRecord}
    (here : chunk.chunkHash = chunkHash) :
    addReferences chunkHash amount chunk = withCount (chunk.referenceCount + amount) chunk :=
  if_pos here

theorem addReferences_of_ne {chunkHash : ChunkHash} {amount : ℤ} {chunk : ChunkRecord}
    (elsewhere : chunk.chunkHash ≠ chunkHash) : addReferences chunkHash amount chunk = chunk :=
  if_neg elsewhere

theorem getChunk_incrementChunkReference (db : Database) (chunkHash other : ChunkHash) :
    (db.incrementChunkReference chunkHash).getChunk other =
      (db.getChunk other).map fun chunk =>
        withCount (chunk.referenceCount + if chunkHash = other then 1 else 0) chunk := by
  unfold getChunk incrementChunkReference changeChunks
  rw [Table.find?_mapRows]
  cases found : db.chunks.find? other with
  | none => rfl
  | some chunk =>
      have here : chunk.chunkHash = other := (Table.find?_eq_some_iff.mp found).2
      by_cases same : chunkHash = other
      · rw [Option.map_some, addReferences_of_eq (here.trans same.symm), Option.map_some,
          if_pos same]
      · rw [Option.map_some, addReferences_of_ne (here ▸ Ne.symm same), Option.map_some,
          if_neg same, add_zero, withCount_referenceCount]

theorem getChunk_decrementChunkReference (db : Database) (chunkHash other : ChunkHash) :
    (db.decrementChunkReference chunkHash).getChunk other =
      (db.getChunk other).map fun chunk =>
        withCount (chunk.referenceCount - if chunkHash = other then 1 else 0) chunk := by
  unfold getChunk decrementChunkReference changeChunks
  rw [Table.find?_mapRows]
  cases found : db.chunks.find? other with
  | none => rfl
  | some chunk =>
      have here : chunk.chunkHash = other := (Table.find?_eq_some_iff.mp found).2
      by_cases same : chunkHash = other
      · rw [Option.map_some, addReferences_of_eq (here.trans same.symm), Option.map_some,
          if_pos same, sub_eq_add_neg]
      · rw [Option.map_some, addReferences_of_ne (here ▸ Ne.symm same), Option.map_some,
          if_neg same, sub_zero, withCount_referenceCount]

/-- The reference count of a chunk, zero without a row. -/
def referenceCount (db : Database) (chunkHash : ChunkHash) : ℤ :=
  ((db.getChunk chunkHash).map ChunkRecord.referenceCount).getD 0

theorem referenceCount_of_getChunk {db : Database} {chunkHash : ChunkHash} {chunk : ChunkRecord}
    (found : db.getChunk chunkHash = some chunk) :
    db.referenceCount chunkHash = chunk.referenceCount := by
  rw [referenceCount, found]
  rfl

theorem referenceCount_of_absent {db : Database} {chunkHash : ChunkHash}
    (absent : db.getChunk chunkHash = none) : db.referenceCount chunkHash = 0 := by
  rw [referenceCount, absent]
  rfl

/-- An increment adds one to the count of its chunk. -/
theorem referenceCount_incrementChunkReference {db : Database} {chunkHash : ChunkHash}
    (present : chunkHash ∈ db.chunks.keys) (other : ChunkHash) :
    (db.incrementChunkReference chunkHash).referenceCount other =
      db.referenceCount other + if chunkHash = other then 1 else 0 := by
  simp only [referenceCount, getChunk_incrementChunkReference]
  cases found : db.getChunk other with
  | none =>
      have absent : other ∉ db.chunks.keys := Table.find?_eq_none_iff.mp found
      have different : chunkHash ≠ other := fun same => absent (same ▸ present)
      simp [different]
  | some chunk => simp [withCount]

/-- A decrement takes one from the count of its chunk. -/
theorem referenceCount_decrementChunkReference {db : Database} {chunkHash : ChunkHash}
    (present : chunkHash ∈ db.chunks.keys) (other : ChunkHash) :
    (db.decrementChunkReference chunkHash).referenceCount other =
      db.referenceCount other - if chunkHash = other then 1 else 0 := by
  simp only [referenceCount, getChunk_decrementChunkReference]
  cases found : db.getChunk other with
  | none =>
      have absent : other ∉ db.chunks.keys := Table.find?_eq_none_iff.mp found
      have different : chunkHash ≠ other := fun same => absent (same ▸ present)
      simp [different]
  | some chunk => simp [withCount]

/-- Incrementing the count of a chunk without a row changes nothing. -/
theorem incrementChunkReference_of_absent {db : Database} {chunkHash : ChunkHash}
    (absent : db.getChunk chunkHash = none) : db.incrementChunkReference chunkHash = db := by
  have elsewhere : ∀ chunk ∈ db.chunks.rows, addReferences chunkHash 1 chunk = chunk := by
    intro chunk member
    apply addReferences_of_ne
    intro here
    exact Table.find?_eq_none_iff.mp absent (here ▸ Table.key_mem_keys member)
  have rows : db.chunks.rows.map (addReferences chunkHash 1) = db.chunks.rows :=
    (List.map_congr_left elsewhere).trans (List.map_id' _)
  exact Database.ext rfl rfl (Table.ext rows) rfl rfl rfl rfl rfl

/-- **Acquiring a list adds to each count the occurrences of its hash.** -/
theorem getChunk_acquire (db : Database) (chunkHashes : List ChunkHash) (other : ChunkHash) :
    (db.acquire chunkHashes).getChunk other =
      (db.getChunk other).map fun chunk =>
        withCount (chunk.referenceCount + chunkHashes.count other) chunk := by
  unfold acquire
  induction chunkHashes generalizing db with
  | nil => simp [withCount]
  | cons chunkHash rest ih =>
      rw [List.foldl_cons, ih, getChunk_incrementChunkReference, Option.map_map]
      congr 1
      funext chunk
      simp only [Function.comp_apply, withCount, List.count_cons, beq_iff_eq]
      congr 1
      split <;> push_cast <;> omega

/-- One guarded decrement takes one reference from a positive count. -/
theorem getChunk_releaseReference (db : Database) (chunkHash other : ChunkHash) :
    (db.releaseReference chunkHash).getChunk other =
      (db.getChunk other).map fun chunk =>
        withCount (chunk.referenceCount -
          if chunkHash = other ∧ 0 < chunk.referenceCount then 1 else 0) chunk := by
  unfold releaseReference
  by_cases same : chunkHash = other
  · subst same
    cases found : db.getChunk chunkHash with
    | none => simp [found]
    | some chunk =>
        by_cases guarded : chunk.referenceCount ≤ 0
        · simp [guarded, found, not_lt.mpr guarded]
        · simp [guarded, getChunk_decrementChunkReference, found, not_le.mp guarded]
  · have kept : (db.getChunk other).map (fun chunk => withCount (chunk.referenceCount -
        if chunkHash = other ∧ 0 < chunk.referenceCount then 1 else 0) chunk) =
        db.getChunk other := by
      simp [same]
    rw [kept]
    split
    · rfl
    · split
      · rfl
      · rw [getChunk_decrementChunkReference]
        simp [same]

/-- **Releasing a list takes from each count the occurrences of its hash, and
stops at zero.** -/
theorem getChunk_release (db : Database) (chunkHashes : List ChunkHash) (other : ChunkHash) :
    (db.release chunkHashes).getChunk other =
      (db.getChunk other).map fun chunk =>
        withCount (chunk.referenceCount -
          min (chunkHashes.count other) chunk.referenceCount.toNat) chunk := by
  unfold release
  induction chunkHashes generalizing db with
  | nil => simp [withCount]
  | cons chunkHash rest ih =>
      rw [List.foldl_cons, ih, getChunk_releaseReference, Option.map_map]
      congr 1
      funext chunk
      simp only [Function.comp_apply, withCount, List.count_cons, beq_iff_eq]
      congr 1
      by_cases same : chunkHash = other
      · simp only [same, true_and, if_true]
        split <;> omega
      · simp [same]

end DistributedFileStorage.Store.Database

namespace DistributedFileStorage.Deduplication.DeduplicationEngine

open Async Store Services Relational Program

/-! ## The runs of the loops -/

/-- Whether or not the chunk has a row, an ignored rejection leaves the increment. -/
theorem run_attempt_incrementReference (chunkHash : ChunkHash) (fileId : FileId) (world : World) :
    ((incrementReference chunkHash fileId).attempt).run exec world =
      (.ok (), world.setStore (world.store.incrementChunkReference chunkHash)) := by
  have looked : (store (.getChunk chunkHash)).run exec world =
      (.ok (world.store.getChunk chunkHash), world) := rfl
  rw [run_attempt, incrementReference, run_bind_ok exec looked]
  cases found : world.store.getChunk chunkHash with
  | none =>
      rw [Database.incrementChunkReference_of_absent found]
      rfl
  | some chunk => rfl

theorem run_attempt_decrementReference (chunkHash : ChunkHash) (fileId : FileId) (world : World) :
    ((decrementReference chunkHash fileId).attempt).run exec world =
      (.ok (), world.setStore (world.store.releaseReference chunkHash)) := by
  have looked : (store (.getChunk chunkHash)).run exec world =
      (.ok (world.store.getChunk chunkHash), world) := rfl
  rw [run_attempt, decrementReference, run_bind_ok exec looked, Database.releaseReference]
  cases found : world.store.getChunk chunkHash with
  | none => rfl
  | some chunk =>
      dsimp only
      split
      · rfl
      · rfl

/-- The loop that counts the chunks of a new version. -/
theorem run_incrementReferences (chunkHashes : List ChunkHash) (fileId : FileId) (world : World) :
    (forEach (fun hash => (incrementReference hash fileId).attempt) chunkHashes).run exec world =
      (.ok (), world.setStore (world.store.acquire chunkHashes)) := by
  rw [run_forEach_total exec (fun hash state => run_attempt_incrementReference hash fileId state),
    foldl_setStore]
  rfl

/-- The loop that releases the chunks of an old version. -/
theorem run_decrementReferences (chunkHashes : List ChunkHash) (fileId : FileId) (world : World) :
    (forEach (fun hash => (decrementReference hash fileId).attempt) chunkHashes).run exec world =
      (.ok (), world.setStore (world.store.release chunkHashes)) := by
  rw [run_forEach_total exec (fun hash state => run_attempt_decrementReference hash fileId state),
    foldl_setStore]
  rfl

end DistributedFileStorage.Deduplication.DeduplicationEngine
