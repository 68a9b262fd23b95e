import Mathlib.Algebra.Order.BigOperators.Group.List
import Mathlib.Algebra.Order.Ring.Nat
import DistributedFileStorage.Background.GarbageCollection
import DistributedFileStorage.Versioning.VersionManager

/-!
# Reference counts over the life of the versions

The reference count of a chunk is meant to be the number of places where the
versions of the files use it: the occurrences of its hash in `chunk_hashes`, over
all rows of `file_versions`, with repetitions. `ReferenceCountsExact` says so, and
says that every hash in use has a row.

Registering a chunk, creating a version, pruning versions and collecting garbage
each keep the counts exact. Pruning rests on it: the guard of the decrement, which
would leave a count as it is, never fires while the count is exact. Collecting
rests on it too: an orphaned chunk is one that no version uses.
-/

set_option autoImplicit false

namespace DistributedFileStorage.Store.Database

open Relational

/-- How often the versions of all files use a chunk. -/
def occurrences (db : Database) (chunkHash : ChunkHash) : ℕ :=
  (db.fileVersions.rows.map fun version => version.chunkHashes.count chunkHash).sum

/-- Some version uses a chunk. -/
def Uses (db : Database) (chunkHash : ChunkHash) : Prop :=
  ∃ version ∈ db.fileVersions.rows, chunkHash ∈ version.chunkHashes

instance (db : Database) : DecidablePred db.Uses :=
  fun chunkHash => inferInstanceAs (Decidable (∃ version ∈ _, chunkHash ∈ _))

/-- Every reference count is the number of occurrences, and every chunk in use has a
row. -/
structure ReferenceCountsExact (db : Database) : Prop where
  counted : ∀ chunkHash chunk, db.getChunk chunkHash = some chunk →
    chunk.referenceCount = db.occurrences chunkHash
  registered : ∀ version ∈ db.fileVersions.rows, ∀ chunkHash ∈ version.chunkHashes,
    (db.getChunk chunkHash).isSome

/-- Every reference count is the number of occurrences. -/
def CountsExact (db : Database) : Prop :=
  ∀ chunk ∈ db.chunks.rows, chunk.referenceCount = db.occurrences chunk.chunkHash

instance (db : Database) : Decidable db.CountsExact :=
  inferInstanceAs (Decidable (∀ chunk ∈ _, _))

theorem countsExact_iff {db : Database} :
    db.CountsExact ↔
      ∀ chunkHash ∈ db.chunks.keys, db.referenceCount chunkHash = db.occurrences chunkHash := by
  constructor
  · intro exact chunkHash present
    obtain ⟨chunk, member, rfl⟩ := Table.mem_keys.mp present
    have found : db.getChunk chunk.chunkHash = some chunk := Table.find?_key member
    rw [referenceCount_of_getChunk found]
    exact exact chunk member
  · intro exact chunk member
    have found : db.getChunk chunk.chunkHash = some chunk := Table.find?_key member
    rw [← referenceCount_of_getChunk found]
    exact exact chunk.chunkHash (Table.key_mem_keys member)

theorem occurrences_congr {before after : Database}
    (same : after.fileVersions = before.fileVersions) (chunkHash : ChunkHash) :
    after.occurrences chunkHash = before.occurrences chunkHash := by
  rw [occurrences, same]
  rfl

theorem occurrences_eq_zero_iff {db : Database} {chunkHash : ChunkHash} :
    db.occurrences chunkHash = 0 ↔
      ∀ version ∈ db.fileVersions.rows, chunkHash ∉ version.chunkHashes := by
  simp [occurrences, List.sum_eq_zero_iff, List.count_eq_zero]

/-- Storing a version adds its occurrences. -/
theorem occurrences_createFileVersion {db stored : Database} {version : FileVersionRecord}
    (created : db.createFileVersion version = .ok stored) (chunkHash : ChunkHash) :
    stored.occurrences chunkHash =
      db.occurrences chunkHash + version.chunkHashes.count chunkHash := by
  obtain ⟨absent, _, rfl⟩ := createFileVersion_ok created
  show ((Table.insertIfAbsent _ _).rows.map _).sum = _
  rw [Table.sum_insertIfAbsent]
  · rfl
  · exact absent

namespace ReferenceCountsExact

/-- A chunk that some version uses has a positive count, so it is not orphaned. -/
theorem not_orphaned {db : Database} (exact : db.ReferenceCountsExact) {chunkHash : ChunkHash}
    (uses : db.Uses chunkHash) : chunkHash ∉ db.getOrphanedChunks := by
  intro orphaned
  obtain ⟨version, member, used⟩ := uses
  obtain ⟨chunk, found, zero⟩ := mem_getOrphanedChunks.mp orphaned
  have counted := exact.counted chunkHash chunk found
  have unused : db.occurrences chunkHash = 0 := by omega
  exact occurrences_eq_zero_iff.mp unused version member used

/-- Exactness is about the versions and the chunks only. -/
theorem congr {before after : Database} (exact : before.ReferenceCountsExact)
    (versions : after.fileVersions = before.fileVersions)
    (chunks : ∀ chunkHash, after.getChunk chunkHash = before.getChunk chunkHash) :
    after.ReferenceCountsExact where
  counted chunkHash chunk found := by
    rw [occurrences_congr versions]
    exact exact.counted chunkHash chunk (chunks chunkHash ▸ found)
  registered version member chunkHash used := by
    rw [chunks]
    exact exact.registered version (versions ▸ member) chunkHash used

/-- A chunk that gets its row has no reference yet, since a chunk in use has one. -/
theorem createChunk {db : Database} (exact : db.ReferenceCountsExact) {chunk : ChunkRecord}
    (zero : chunk.referenceCount = 0) : (db.createChunk chunk).ReferenceCountsExact := by
  by_cases taken : chunk.chunkHash ∈ db.chunks.keys
  · exact exact.congr rfl fun other =>
      congrArg (Table.find? · other) (Table.insertIfAbsent_of_taken taken)
  · have self : (db.createChunk chunk).getChunk chunk.chunkHash = some chunk :=
      Table.find?_insertIfAbsent_self taken
    have others : ∀ other, other ≠ chunk.chunkHash →
        (db.createChunk chunk).getChunk other = db.getChunk other :=
      fun other different => Table.find?_insertIfAbsent_of_ne different
    have unused : db.occurrences chunk.chunkHash = 0 := by
      apply occurrences_eq_zero_iff.mpr
      intro version member used
      have row := exact.registered version member chunk.chunkHash used
      exact taken (Table.isSome_find?_iff.mp row)
    constructor
    · intro other found lookup
      by_cases same : other = chunk.chunkHash
      · subst same
        rw [self] at lookup
        have same : (db.createChunk chunk).occurrences chunk.chunkHash =
            db.occurrences chunk.chunkHash := occurrences_congr rfl _
        rw [← Option.some.inj lookup, zero, same, unused]
        rfl
      · rw [others other same] at lookup
        exact exact.counted other found lookup
    · intro version member other used
      have row := exact.registered version member other used
      by_cases same : other = chunk.chunkHash
      · subst same
        rw [self]
        rfl
      · rw [others other same]
        exact row

/-- **Storing a version and counting its chunks keeps the counts exact.** -/
theorem createVersion {db stored : Database} (exact : db.ReferenceCountsExact)
    {version : FileVersionRecord} (created : db.createFileVersion version = .ok stored)
    (registered : ∀ chunkHash ∈ version.chunkHashes, (db.getChunk chunkHash).isSome) :
    (stored.acquire version.chunkHashes).ReferenceCountsExact := by
  have occurs := occurrences_createFileVersion created
  have frame := sameButCounts_acquire stored version.chunkHashes
  have lookups : ∀ chunkHash, stored.getChunk chunkHash = db.getChunk chunkHash := by
    obtain ⟨_, _, rfl⟩ := createFileVersion_ok created
    exact fun _ => rfl
  have rows : stored.fileVersions = db.fileVersions.insertIfAbsent
      { version with
        contentType := orNull version.contentType
        checksum := orNull version.checksum } := by
    obtain ⟨_, _, rfl⟩ := createFileVersion_ok created
    rfl
  constructor
  · intro chunkHash chunk found
    rw [getChunk_acquire, lookups] at found
    obtain ⟨old, lookup, rfl⟩ := Option.map_eq_some_iff.mp found
    rw [occurrences_congr frame.fileVersions, occurs]
    have counted := exact.counted chunkHash old lookup
    simp only [withCount]
    omega
  · intro other member chunkHash used
    rw [getChunk_acquire, lookups, Option.isSome_map]
    rw [frame.fileVersions, rows] at member
    rcases Table.mem_insertIfAbsent.mp member with earlier | ⟨_, rfl⟩
    · exact exact.registered other earlier chunkHash used
    · exact registered chunkHash used

/-- **Releasing the chunks of a version and removing it keeps the counts exact.**
The counts are at least what is released, so no decrement is refused. -/
theorem removeVersion {db : Database} (exact : db.ReferenceCountsExact)
    {version : FileVersionRecord} (member : version ∈ db.fileVersions.rows) :
    (db.removeVersion version).ReferenceCountsExact := by
  have frame := sameButCounts_release db version.chunkHashes
  have rows : (db.removeVersion version).fileVersions =
      db.fileVersions.delete version.primaryKey := congrArg (Table.delete · _) frame.fileVersions
  have lookups : ∀ chunkHash, (db.removeVersion version).getChunk chunkHash =
      (db.release version.chunkHashes).getChunk chunkHash := fun _ => rfl
  have occurs : ∀ chunkHash, (db.removeVersion version).occurrences chunkHash +
      version.chunkHashes.count chunkHash = db.occurrences chunkHash := by
    intro chunkHash
    rw [occurrences, rows]
    exact Table.sum_delete_add member fun row => row.chunkHashes.count chunkHash
  constructor
  · intro chunkHash chunk found
    rw [lookups, getChunk_release] at found
    obtain ⟨old, lookup, rfl⟩ := Option.map_eq_some_iff.mp found
    have counted := exact.counted chunkHash old lookup
    have total := occurs chunkHash
    simp only [withCount]
    omega
  · intro other still chunkHash used
    rw [lookups, getChunk_release, Option.isSome_map]
    rw [rows] at still
    exact exact.registered other (Table.mem_delete.mp still).1 chunkHash used

theorem removeVersions {versions : List FileVersionRecord} (nodup : versions.Nodup)
    {db : Database} (exact : db.ReferenceCountsExact)
    (members : ∀ version ∈ versions, version ∈ db.fileVersions.rows) :
    (db.removeVersions versions).ReferenceCountsExact := by
  induction versions generalizing db with
  | nil => exact exact
  | cons version rest ih =>
      have here := members version List.mem_cons_self
      refine ih (List.nodup_cons.mp nodup).2 (exact.removeVersion here) ?_
      intro other later
      have old := members other (List.mem_cons_of_mem _ later)
      have rows : (db.removeVersion version).fileVersions =
          db.fileVersions.delete version.primaryKey :=
        congrArg (Table.delete · _) (sameButCounts_release db version.chunkHashes).fileVersions
      rw [rows, Table.mem_delete]
      refine ⟨old, fun same => ?_⟩
      exact (List.nodup_cons.mp nodup).1 (Table.eq_of_key_eq old here same ▸ later)

/-- **Collecting the orphaned chunks keeps the counts exact**, since no version uses
one. -/
theorem deleteOrphans {db : Database} (exact : db.ReferenceCountsExact) :
    (db.deleteChunks db.getOrphanedChunks).ReferenceCountsExact := by
  obtain ⟨_, versions, _, _⟩ := deleteChunks_frame db db.getOrphanedChunks
  constructor
  · intro chunkHash chunk found
    rw [getChunk_deleteChunks] at found
    split at found
    · cases found
    · rw [occurrences_congr versions]
      exact exact.counted chunkHash chunk found
  · intro version member chunkHash used
    rw [versions] at member
    rw [getChunk_deleteChunks, if_neg (exact.not_orphaned ⟨version, member, used⟩)]
    exact exact.registered version member chunkHash used

end ReferenceCountsExact

end DistributedFileStorage.Store.Database

namespace DistributedFileStorage.Lifecycle

open Async Store Services Versioning Background Relational Database

/-! ## Histories of chunks and versions -/

/-- A call of the version manager, the garbage collector, or the registration of a
chunk, run to its end on a store and nodes that work. The chunks of a new version
have been registered. A call may reject. -/
inductive VersionStep (storageNodes : List NodeId) : World → World → Prop where
  | createChunk {world : World} (chunk : ChunkRecord) (zero : chunk.referenceCount = 0) :
      VersionStep storageNodes world ((store (.createChunk chunk)).run exec world).2
  | createVersion {world : World} (fileId : FileId) (chunkHashes : List ChunkHash)
      (userId : UserId) (now : Time)
      (registered : ∀ chunkHash ∈ chunkHashes, (world.store.getChunk chunkHash).isSome) :
      VersionStep storageNodes world
        ((VersionManager.createVersion fileId chunkHashes userId now).run exec world).2
  | pruneVersions {world : World} (fileId : FileId) (retentionDays : ℤ) (now : Time) :
      VersionStep storageNodes world
        ((VersionManager.pruneVersions fileId retentionDays now).run exec world).2
  | garbageCollect {world : World} :
      VersionStep storageNodes world ((BackgroundJobs.garbageCollect storageNodes).run exec world).2

/-- Nothing has been registered and no file has a version. -/
def Fresh (world : World) : Prop :=
  world.store.chunks.rows = [] ∧ world.store.fileVersions.rows = []

theorem Fresh.referenceCountsExact {world : World} (fresh : Fresh world) :
    world.store.ReferenceCountsExact where
  counted chunkHash chunk found := by
    have member := (Table.find?_eq_some_iff.mp found).1
    rw [fresh.1] at member
    cases member
  registered version member := by
    rw [fresh.2] at member
    cases member

/-- **Every call keeps the reference counts exact.** -/
theorem VersionStep.referenceCountsExact {storageNodes : List NodeId} {before after : World}
    (step : VersionStep storageNodes before after) (exact : before.store.ReferenceCountsExact) :
    after.store.ReferenceCountsExact := by
  cases step with
  | createChunk chunk zero => exact exact.createChunk zero
  | createVersion fileId chunkHashes userId now registered =>
      rw [VersionManager.run_createVersion]
      cases created : before.store.createFileVersion
          (before.store.nextVersion fileId chunkHashes userId now) with
      | error failure => simpa only [created] using exact
      | ok stored =>
          simp only [created]
          exact (exact.createVersion created registered).congr rfl fun _ => rfl
  | pruneVersions fileId retentionDays now =>
      rw [VersionManager.run_pruneVersions]
      exact exact.removeVersions (nodup_prunableVersions _ _ _)
        fun version member => (mem_prunableVersions.mp member).1.1
  | garbageCollect =>
      obtain ⟨after, run, stored, _⟩ := BackgroundJobs.run_garbageCollect storageNodes before
      rw [run, stored]
      exact exact.deleteOrphans

/-- **The reference counts are exact in every state reached**, whatever the order of
the calls, the repetitions inside a version and the sharing between versions. -/
theorem referenceCounts_exact {storageNodes : List NodeId} {start reached : World}
    (fresh : Fresh start)
    (run : Relation.ReflTransGen (VersionStep storageNodes) start reached) :
    reached.store.ReferenceCountsExact := by
  induction run with
  | refl => exact fresh.referenceCountsExact
  | tail _ step ih => exact step.referenceCountsExact ih

/-- After a version that uses one chunk twice and a collection, the count is two. -/
theorem referenceCounts_exact_repeated :
    ∃ reached : World, reached.store.ReferenceCountsExact ∧
      (reached.store.getChunk "aa").map ChunkRecord.referenceCount = some 2 := by
  have run := Relation.ReflTransGen.refl (r := VersionStep ["node"]) (a := World.ofFile notes)
    |>.tail (.createChunk
      { chunkHash := "aa", size := 4, encryptedSize := 4, referenceCount := 0, createdAt := 0 } rfl)
    |>.tail (.createVersion notes ["aa", "aa"] "ada" 5 (by decide))
    |>.tail .garbageCollect
  exact ⟨_, referenceCounts_exact ⟨rfl, rfl⟩ run, by decide⟩

end DistributedFileStorage.Lifecycle
