import DistributedFileStorage.Lifecycle.ReferenceCounts
import Mathlib.Algebra.BigOperators.Ring.Finset
import Mathlib.Algebra.Order.Field.Rat
import Mathlib.Tactic.NormNum

/-!
# Logical and physical storage

The deduplication ratio is the logical storage divided by the physical one. Both are computed from
the rows of the chunks: the sizes times the reference counts, and the sizes. That the first of them
is the data that the users have stored, the sum of the sizes of all versions, is a fact about whole
histories (`deduplicationRatio_eq`): the counts have to be exact, and the size that a version was
given when it was created has to be the size of its chunks ever after.

A number of the source is an exact rational number here.
-/

set_option autoImplicit false

namespace DistributedFileStorage.Deduplication

open Store

/-- `chunks.reduce((sum, chunk) => sum + chunk.size, 0)`. -/
def physicalStorage (chunks : List ChunkRecord) : ℤ :=
  chunks.foldl (fun sum chunk => sum + chunk.size) 0

/-- `chunks.reduce((sum, chunk) => sum + chunk.size * chunk.referenceCount, 0)`. -/
def logicalStorage (chunks : List ChunkRecord) : ℤ :=
  chunks.foldl (fun sum chunk => sum + (chunk.size : ℤ) * chunk.referenceCount) 0

def DeduplicationEngine.calculateDeduplicationRatioFromChunks (chunks : List ChunkRecord) : ℚ :=
  if chunks.length = 0 then 1
  else if physicalStorage chunks = 0 then 1
  else logicalStorage chunks / physicalStorage chunks

/-- The monitoring service computes the same ratio from the same two fields. -/
def MonitoringService.getDeduplicationRatio (chunks : List ChunkRecord) : ℚ :=
  DeduplicationEngine.calculateDeduplicationRatioFromChunks chunks

theorem physicalStorage_eq (chunks : List ChunkRecord) :
    physicalStorage chunks = (chunks.map fun chunk => (chunk.size : ℤ)).sum := by
  rw [List.sum_eq_foldl, List.foldl_map]
  rfl

theorem logicalStorage_eq (chunks : List ChunkRecord) :
    logicalStorage chunks =
      (chunks.map fun chunk => (chunk.size : ℤ) * chunk.referenceCount).sum := by
  rw [List.sum_eq_foldl, List.foldl_map]
  rfl

end DistributedFileStorage.Deduplication

namespace DistributedFileStorage.Store.Database

open Relational

/-! ## The size of a version -/

/-- The size of every version is the size of its chunks. -/
def SizesExact (db : Database) : Prop :=
  ∀ version ∈ db.fileVersions.rows, version.size = db.totalSize version.chunkHashes

/-- The size of a list depends on the sizes of its chunks only. -/
theorem totalSize_congr_size {first second : Database} {chunkHashes : List ChunkHash}
    (same : ∀ chunkHash ∈ chunkHashes, (first.getChunk chunkHash).map ChunkRecord.size =
      (second.getChunk chunkHash).map ChunkRecord.size) :
    first.totalSize chunkHashes = second.totalSize chunkHashes := by
  unfold totalSize
  refine congrArg List.sum (List.map_congr_left fun chunkHash member => ?_)
  rw [same chunkHash member]

/-- The chunks of the versions keep their sizes, and no other versions come to exist. -/
theorem SizesExact.of_subset {before after : Database} (exact : before.SizesExact)
    (versions : after.fileVersions.rows ⊆ before.fileVersions.rows)
    (sizes : ∀ version ∈ after.fileVersions.rows, ∀ chunkHash ∈ version.chunkHashes,
      (after.getChunk chunkHash).map ChunkRecord.size =
        (before.getChunk chunkHash).map ChunkRecord.size) : after.SizesExact := by
  intro version member
  rw [exact version (versions member)]
  exact (totalSize_congr_size (sizes version member)).symm

/-- A chunk that has a row keeps it. -/
theorem getChunk_createChunk_of_registered {db : Database} {chunk : ChunkRecord}
    {chunkHash : ChunkHash} (registered : (db.getChunk chunkHash).isSome) :
    (db.createChunk chunk).getChunk chunkHash = db.getChunk chunkHash := by
  by_cases same : chunkHash = chunk.chunkHash
  · have taken : chunk.chunkHash ∈ db.chunks.keys := same ▸ Table.isSome_find?_iff.mp registered
    exact congrArg (Table.find? · chunkHash) (Table.insertIfAbsent_of_taken taken)
  · exact Table.find?_insertIfAbsent_of_ne same

theorem size_acquire (db : Database) (chunkHashes : List ChunkHash) (chunkHash : ChunkHash) :
    ((db.acquire chunkHashes).getChunk chunkHash).map ChunkRecord.size =
      (db.getChunk chunkHash).map ChunkRecord.size := by
  rw [getChunk_acquire, Option.map_map]
  rfl

theorem size_release (db : Database) (chunkHashes : List ChunkHash) (chunkHash : ChunkHash) :
    ((db.release chunkHashes).getChunk chunkHash).map ChunkRecord.size =
      (db.getChunk chunkHash).map ChunkRecord.size := by
  rw [getChunk_release, Option.map_map]
  rfl

/-- Removing versions leaves the sizes of all chunks as they are. -/
theorem size_removeVersions (versions : List FileVersionRecord) (db : Database)
    (chunkHash : ChunkHash) :
    ((db.removeVersions versions).getChunk chunkHash).map ChunkRecord.size =
      (db.getChunk chunkHash).map ChunkRecord.size := by
  induction versions generalizing db with
  | nil => rfl
  | cons version rest ih => exact (ih _).trans (size_release db version.chunkHashes chunkHash)

theorem subset_removeVersions (versions : List FileVersionRecord) (db : Database) :
    (db.removeVersions versions).fileVersions.rows ⊆ db.fileVersions.rows := by
  induction versions generalizing db with
  | nil => exact List.Subset.refl _
  | cons version rest ih =>
      have frame := sameButCounts_release db version.chunkHashes
      intro row member
      have kept : row ∈ ((db.release version.chunkHashes).fileVersions.delete
          version.primaryKey).rows := ih _ member
      rw [frame.fileVersions] at kept
      exact (Table.mem_delete.mp kept).1

namespace SizesExact

theorem createChunk {db : Database} (exact : db.SizesExact) (counts : db.ReferenceCountsExact)
    (chunk : ChunkRecord) : (db.createChunk chunk).SizesExact := by
  refine exact.of_subset (List.Subset.refl _) fun version member chunkHash used => ?_
  rw [getChunk_createChunk_of_registered (counts.registered version member chunkHash used)]

/-- **A new version gets the size of its chunks**, and the others keep theirs. -/
theorem createVersion {db stored : Database} (exact : db.SizesExact) {version : FileVersionRecord}
    (created : db.createFileVersion version = .ok stored)
    (sized : version.size = db.totalSize version.chunkHashes) :
    (stored.acquire version.chunkHashes).SizesExact := by
  have rows : stored.fileVersions = db.fileVersions.insertIfAbsent
      { version with
        contentType := orNull version.contentType
        checksum := orNull version.checksum } := by
    obtain ⟨_, _, rfl⟩ := createFileVersion_ok created
    rfl
  have chunks : stored.chunks = db.chunks := by
    obtain ⟨_, _, rfl⟩ := createFileVersion_ok created
    rfl
  intro row member
  rw [(sameButCounts_acquire stored version.chunkHashes).fileVersions, rows] at member
  rw [totalSize_congr_size fun chunkHash _ => size_acquire stored version.chunkHashes chunkHash,
    totalSize_congr chunks]
  rcases Table.mem_insertIfAbsent.mp member with earlier | ⟨_, rfl⟩
  · exact exact row earlier
  · exact sized

theorem removeVersions {db : Database} (exact : db.SizesExact)
    (versions : List FileVersionRecord) : (db.removeVersions versions).SizesExact :=
  exact.of_subset (subset_removeVersions versions db) fun _ _ chunkHash _ =>
    size_removeVersions versions db chunkHash

/-- The chunks of the versions are not collected. -/
theorem deleteOrphans {db : Database} (exact : db.SizesExact) (counts : db.ReferenceCountsExact) :
    (db.deleteChunks db.getOrphanedChunks).SizesExact := by
  obtain ⟨_, versions, _, _⟩ := deleteChunks_frame db db.getOrphanedChunks
  refine exact.of_subset (versions ▸ List.Subset.refl _) fun version member chunkHash used => ?_
  rw [versions] at member
  rw [getChunk_deleteChunks, if_neg (counts.not_orphaned ⟨version, member, used⟩)]

end SizesExact

/-! ## Two ways to add up -/

/-- The size of a list is the sum over all chunks, each as often as it occurs. -/
theorem totalSize_eq_sum {db : Database} {chunkHashes : List ChunkHash}
    (registered : ∀ chunkHash ∈ chunkHashes, (db.getChunk chunkHash).isSome) :
    db.totalSize chunkHashes =
      (db.chunks.rows.map fun chunk => chunk.size * chunkHashes.count chunk.chunkHash).sum := by
  induction chunkHashes with
  | nil => simp [totalSize]
  | cons chunkHash rest ih =>
      have later := ih fun other member => registered other (List.mem_cons_of_mem chunkHash member)
      obtain ⟨chunk, found⟩ := Option.isSome_iff_exists.mp
        (registered chunkHash List.mem_cons_self)
      obtain ⟨member, same⟩ := Table.find?_eq_some_iff.mp found
      have here : db.totalSize (chunkHash :: rest) = chunk.size + db.totalSize rest := by
        simp [totalSize, found]
      have counts : ∀ other : ChunkRecord, other.size * (chunkHash :: rest).count other.chunkHash =
          (if other.chunkHash = chunk.chunkHash then other.size else 0) +
            other.size * rest.count other.chunkHash := by
        intro other
        have occurs : chunkHash = chunk.chunkHash := same.symm
        by_cases equal : other.chunkHash = chunk.chunkHash
        · simp [equal, occurs, Nat.mul_add, Nat.add_comm]
        · simp [equal, occurs, Ne.symm equal]
      simp only [here, later, counts, List.sum_map_add]
      rw [Table.sum_ite_key member]

/-- Adding up over the chunks first, or over the versions first. -/
theorem sum_mul_occurrences (chunks : List ChunkRecord) (versions : List FileVersionRecord) :
    (chunks.map fun chunk => chunk.size *
        (versions.map fun version => version.chunkHashes.count chunk.chunkHash).sum).sum =
      (versions.map fun version => (chunks.map fun chunk =>
        chunk.size * version.chunkHashes.count chunk.chunkHash).sum).sum := by
  induction versions with
  | nil => simp
  | cons version rest ih =>
      simp only [List.map_cons, List.sum_cons, Nat.mul_add, List.sum_map_add, ih]

/-- **The logical storage is the size of all versions**, when the counts are exact. -/
theorem logicalStorage_eq_sum {db : Database} (counts : db.ReferenceCountsExact)
    (sizes : db.SizesExact) :
    Deduplication.logicalStorage db.chunks.rows =
      ((db.fileVersions.rows.map FileVersionRecord.size).sum : ℕ) := by
  have counted : ∀ chunk ∈ db.chunks.rows, (chunk.size : ℤ) * chunk.referenceCount =
      (chunk.size * db.occurrences chunk.chunkHash : ℕ) := by
    intro chunk member
    rw [counts.counted chunk.chunkHash chunk (Table.find?_key member)]
    push_cast
    rfl
  have sized : ∀ version ∈ db.fileVersions.rows, (db.chunks.rows.map fun chunk =>
      chunk.size * version.chunkHashes.count chunk.chunkHash).sum = version.size := by
    intro version member
    rw [← totalSize_eq_sum (counts.registered version member), sizes version member]
  rw [Deduplication.logicalStorage_eq, List.map_congr_left counted, ← List.map_congr_left sized,
    ← sum_mul_occurrences, Nat.cast_list_sum, List.map_map]
  rfl

end DistributedFileStorage.Store.Database

namespace DistributedFileStorage.Lifecycle

open Async Store Services Versioning Background Relational Database Deduplication

/-- **Every call keeps the sizes of the versions exact.** -/
theorem VersionStep.sizesExact {storageNodes : List NodeId} {before after : World}
    (step : VersionStep storageNodes before after) (counts : before.store.ReferenceCountsExact)
    (sizes : before.store.SizesExact) : after.store.SizesExact := by
  cases step with
  | createChunk chunk zero => exact sizes.createChunk counts chunk
  | createVersion fileId chunkHashes userId now registered =>
      rw [VersionManager.run_createVersion]
      cases created : before.store.createFileVersion
          (before.store.nextVersion fileId chunkHashes userId now) with
      | error failure => simpa only [created] using sizes
      | ok stored =>
          simp only [created]
          exact sizes.createVersion created rfl
  | pruneVersions fileId retentionDays now =>
      rw [VersionManager.run_pruneVersions]
      exact sizes.removeVersions _
  | garbageCollect =>
      obtain ⟨after, run, stored, _⟩ := BackgroundJobs.run_garbageCollect storageNodes before
      rw [run, stored]
      exact sizes.deleteOrphans counts

/-- The reference counts and the sizes are exact in every state reached. -/
theorem accounted {storageNodes : List NodeId} {start reached : World} (fresh : Fresh start)
    (run : Relation.ReflTransGen (VersionStep storageNodes) start reached) :
    reached.store.ReferenceCountsExact ∧ reached.store.SizesExact := by
  induction run with
  | refl =>
      refine ⟨fresh.referenceCountsExact, fun version member => ?_⟩
      rw [fresh.2] at member
      cases member
  | tail _ step ih => exact ⟨step.referenceCountsExact ih.1, step.sizesExact ih.1 ih.2⟩

/-- **The deduplication ratio is the size of all versions divided by the size of all chunks**, in
every state reached. Once the orphaned chunks have been collected it is at least one. -/
theorem deduplicationRatio_eq {storageNodes : List NodeId} {start reached : World}
    (fresh : Fresh start)
    (run : Relation.ReflTransGen (VersionStep storageNodes) start reached) :
    let stored := (reached.store.fileVersions.rows.map FileVersionRecord.size).sum
    let used := (reached.store.chunks.rows.map ChunkRecord.size).sum
    let ratio : ℚ := if used = 0 then 1 else stored / used
    DeduplicationEngine.calculateDeduplicationRatioFromChunks reached.store.chunks.rows = ratio ∧
      MonitoringService.getDeduplicationRatio reached.store.chunks.rows = ratio ∧
      (reached.store.getOrphanedChunks = [] → 1 ≤ ratio) := by
  intro stored used ratio
  obtain ⟨counts, sizes⟩ := accounted fresh run
  have logical := logicalStorage_eq_sum counts sizes
  have physical : physicalStorage reached.store.chunks.rows = (used : ℤ) := by
    rw [physicalStorage_eq, Nat.cast_list_sum, List.map_map]
    rfl
  have computed : DeduplicationEngine.calculateDeduplicationRatioFromChunks
      reached.store.chunks.rows = ratio := by
    unfold DeduplicationEngine.calculateDeduplicationRatioFromChunks
    rw [logical, physical]
    by_cases empty : reached.store.chunks.rows.length = 0
    · have none : used = 0 := by simp [used, List.length_eq_zero_iff.mp empty]
      rw [if_pos empty]
      exact (if_pos none).symm
    · rw [if_neg empty]
      simp only [Nat.cast_eq_zero, Int.cast_natCast]
      rfl
  refine ⟨computed, computed, fun collected => ?_⟩
  have counted : (used : ℤ) ≤ (stored : ℤ) := by
    rw [← physical, physicalStorage_eq, ← logical, logicalStorage_eq]
    refine List.sum_le_sum fun chunk member => le_mul_of_one_le_right (Int.natCast_nonneg _) ?_
    have found : reached.store.getChunk chunk.chunkHash = some chunk := Table.find?_key member
    have count := counts.counted chunk.chunkHash chunk found
    have positive : chunk.referenceCount ≠ 0 := by
      intro zero
      have orphaned := mem_getOrphanedChunks.mpr ⟨chunk, found, zero⟩
      rw [collected] at orphaned
      cases orphaned
    omega
  show 1 ≤ if used = 0 then (1 : ℚ) else stored / used
  split
  · exact le_refl 1
  · rename_i some
    have positive : (0 : ℚ) < used := by exact_mod_cast Nat.pos_of_ne_zero some
    rw [one_le_div₀ positive]
    exact_mod_cast counted

/-- A file with two versions that use one chunk of four bytes, one of them twice. -/
def thriceUsed : World :=
  let chunk : ChunkRecord :=
    { chunkHash := "aa", size := 4, encryptedSize := 4, referenceCount := 0, createdAt := 0 }
  let registered := ((store (.createChunk chunk)).run exec (World.ofFile notes)).2
  let first := ((VersionManager.createVersion notes ["aa", "aa"] "ada" 5).run exec registered).2
  ((VersionManager.createVersion notes ["aa"] "ada" 6).run exec first).2

theorem deduplicationRatio_eq_shared :
    MonitoringService.getDeduplicationRatio thriceUsed.store.chunks.rows = 3 := by
  have run : Relation.ReflTransGen (VersionStep ["node"]) (World.ofFile notes) thriceUsed :=
    Relation.ReflTransGen.refl
      |>.tail (.createChunk _ rfl)
      |>.tail (.createVersion notes ["aa", "aa"] "ada" 5 (by decide))
      |>.tail (.createVersion notes ["aa"] "ada" 6 (by decide))
  have stored : (thriceUsed.store.fileVersions.rows.map FileVersionRecord.size).sum = 12 := by
    decide
  have used : (thriceUsed.store.chunks.rows.map ChunkRecord.size).sum = 4 := by decide
  have ratio := (deduplicationRatio_eq ⟨rfl, rfl⟩ run).2.1
  rw [stored, used] at ratio
  rw [ratio]
  norm_num

end DistributedFileStorage.Lifecycle
