import DistributedFileStorage.Deduplication.ReferenceCounting
import DistributedFileStorage.Services.ChunkSizes

/-!
# The version manager

`createVersion` numbers a new version by the number of versions that the file has,
stores it, counts its chunks and records the number in the file. `pruneVersions`
goes through the versions in ascending order and removes every one that is older
than the retention period, except the one with the greatest number; it releases
the chunks of a version before it removes it.

A date that the source reads from the clock is an argument here, and so is the cutoff date that it
computes from the clock and the retention period (`pruneVersionsBefore`); `pruneVersions` takes the
cutoff of a whole number of days.

The second half gives the run of each of the two as a function of the database
(`run_createVersion`, `run_pruneVersions`), for the calls of the store that work.
-/

set_option autoImplicit false

namespace DistributedFileStorage.Versioning

open Async Store Services Deduplication Relational

/-- `date < cutoff`. A cutoff that is an invalid date is `none`: no date is before it. -/
def isBefore (date : Time) (cutoff : Option Time) : Prop := ∃ time ∈ cutoff, date < time

instance (date : Time) (cutoff : Option Time) : Decidable (isBefore date cutoff) :=
  match cutoff with
  | none => isFalse (by rintro ⟨time, none, _⟩; cases none)
  | some time =>
      decidable_of_iff (date < time)
        ⟨fun earlier => ⟨time, rfl, earlier⟩,
          fun ⟨_, same, earlier⟩ => Option.some.inj same ▸ earlier⟩

@[simp] theorem not_isBefore_none (date : Time) : ¬ isBefore date none := by
  rintro ⟨time, none, _⟩
  cases none

@[simp] theorem isBefore_some (date time : Time) : isBefore date (some time) ↔ date < time := by
  simp [isBefore]

/-- The version that `createVersion` resolves to; its metadata is always empty. -/
structure FileVersion where
  fileId : FileId
  version : ℤ
  chunkHashes : List ChunkHash
  size : ℕ
  createdAt : Time
  userId : UserId
  deriving DecidableEq

namespace VersionManager

def createVersion (fileId : FileId) (chunkHashes : List ChunkHash) (userId : UserId)
    (now : Time) : Async FileVersion := do
  let existingVersions ← store (.listFileVersions fileId)
  let nextVersion : ℤ := existingVersions.length + 1
  let totalSize ← computeTotalSize chunkHashes
  store (.createFileVersion
    { fileId := fileId, version := nextVersion, chunkHashes := chunkHashes, size := totalSize,
      createdAt := now, userId := userId })
  Program.forEach (fun hash => (DeduplicationEngine.incrementReference hash fileId).attempt)
    chunkHashes
  store (.updateFile fileId { currentVersion := some nextVersion, updatedAt := some now })
  pure
    { fileId := fileId, version := nextVersion, chunkHashes := chunkHashes, size := totalSize,
      createdAt := now, userId := userId }

/-- The greatest version number, `-1` without a version. -/
def latestVersion (sorted : List FileVersionRecord) : ℤ :=
  match sorted.getLast? with
  | some version => version.version
  | none => -1

/-- One iteration of the loop of `pruneVersions`. -/
def pruneVersion (fileId : FileId) (latest : ℤ) (cutoff : Option Time) (deleted : ℕ)
    (version : FileVersionRecord) : Async ℕ := do
  if version.version = latest then pure deleted
  else if isBefore version.createdAt cutoff then
    Program.forEach (fun hash => (DeduplicationEngine.decrementReference hash fileId).attempt)
      version.chunkHashes
    store (.deleteFileVersion fileId version.version)
    pure (deleted + 1)
  else pure deleted

/-- `pruneVersions` with the cutoff that it computes. -/
def pruneVersionsBefore (fileId : FileId) (cutoff : Option Time) : Async ℕ := do
  let versions ← store (.listFileVersions fileId)
  let sorted := orderBy FileVersionRecord.version versions
  Program.foldEach (pruneVersion fileId (latestVersion sorted) cutoff) 0 sorted

/-- `pruneVersions` for a whole number of days. -/
def pruneVersions (fileId : FileId) (retentionDays : ℤ) (now : Time) : Async ℕ :=
  pruneVersionsBefore fileId (some (now - retentionDays * millisecondsPerDay))

end VersionManager

end DistributedFileStorage.Versioning

namespace DistributedFileStorage.Store.Database

open Relational Versioning VersionManager

variable (db : Database)

/-- The row that `createVersion` inserts. -/
def nextVersion (fileId : FileId) (chunkHashes : List ChunkHash) (userId : UserId) (now : Time) :
    FileVersionRecord where
  fileId := fileId
  version := (db.listFileVersions fileId).length + 1
  chunkHashes := chunkHashes
  size := db.totalSize chunkHashes
  createdAt := now
  userId := userId

/-- The versions of a file in ascending order. -/
def versionsAscending (fileId : FileId) : List FileVersionRecord :=
  orderBy FileVersionRecord.version (db.listFileVersions fileId)

/-- A version that is older than the cutoff and is not the latest one. -/
def Prunable (fileId : FileId) (cutoff : Option Time) (version : FileVersionRecord) : Prop :=
  version.version ≠ latestVersion (db.versionsAscending fileId) ∧ isBefore version.createdAt cutoff

instance (fileId : FileId) (cutoff : Option Time) : DecidablePred (db.Prunable fileId cutoff) :=
  fun _ => inferInstanceAs (Decidable (_ ∧ _))

/-- The versions that `pruneVersions` removes, in the order of their removal. -/
def prunableVersions (fileId : FileId) (cutoff : Option Time) : List FileVersionRecord :=
  (db.versionsAscending fileId).filter fun version => db.Prunable fileId cutoff version

/-- Release the chunks of a version and remove its row. -/
def removeVersion (version : FileVersionRecord) : Database :=
  (db.release version.chunkHashes).deleteFileVersion version.fileId version.version

/-- Remove a list of versions. -/
def removeVersions (versions : List FileVersionRecord) : Database :=
  versions.foldl removeVersion db

@[simp] theorem mem_listFileVersions {db : Database} {fileId : FileId}
    {version : FileVersionRecord} :
    version ∈ db.listFileVersions fileId ↔
      version ∈ db.fileVersions.rows ∧ version.fileId = fileId := by
  simp [listFileVersions]

@[simp] theorem mem_versionsAscending {db : Database} {fileId : FileId}
    {version : FileVersionRecord} :
    version ∈ db.versionsAscending fileId ↔
      version ∈ db.fileVersions.rows ∧ version.fileId = fileId := by
  simp [versionsAscending]

theorem mem_prunableVersions {db : Database} {fileId : FileId} {cutoff : Option Time}
    {version : FileVersionRecord} :
    version ∈ db.prunableVersions fileId cutoff ↔
      (version ∈ db.fileVersions.rows ∧ version.fileId = fileId) ∧
        db.Prunable fileId cutoff version := by
  simp [prunableVersions]

/-- The versions of one file have distinct numbers. -/
theorem nodup_version_listFileVersions (db : Database) (fileId : FileId) :
    ((db.listFileVersions fileId).map FileVersionRecord.version).Nodup := by
  refine ((perm_orderByDesc _ _).map _).nodup_iff.mpr ?_
  refine List.Nodup.map_on ?_ (db.fileVersions.nodup_rows.filter _)
  intro first memberFirst second memberSecond same
  obtain ⟨inFirst, fileFirst⟩ := List.mem_filter.mp memberFirst
  obtain ⟨inSecond, fileSecond⟩ := List.mem_filter.mp memberSecond
  refine Table.eq_of_key_eq inFirst inSecond ?_
  simp only [decide_eq_true_eq] at fileFirst fileSecond
  rw [FileVersionRecord.primaryKey, FileVersionRecord.primaryKey, same, fileFirst, fileSecond]

theorem nodup_versionsAscending (db : Database) (fileId : FileId) :
    (db.versionsAscending fileId).Nodup :=
  ((perm_orderBy _ _).map _).nodup_iff.mpr (db.nodup_version_listFileVersions fileId) |>.of_map _

theorem nodup_prunableVersions (db : Database) (fileId : FileId) (cutoff : Option Time) :
    (db.prunableVersions fileId cutoff).Nodup :=
  (db.nodup_versionsAscending fileId).filter _

/-- The number that protects a version from pruning is the greatest one. -/
theorem le_latestVersion {db : Database} {fileId : FileId} {version : FileVersionRecord}
    (member : version ∈ db.versionsAscending fileId) :
    version.version ≤ latestVersion (db.versionsAscending fileId) := by
  have ascending := ascending_orderBy FileVersionRecord.version (db.listFileVersions fileId)
  unfold latestVersion
  cases last : (db.versionsAscending fileId).getLast? with
  | none =>
      rw [List.getLast?_eq_none_iff.mp last] at member
      cases member
  | some latest =>
      obtain ⟨before, split⟩ := List.getLast?_eq_some_iff.mp last
      have sorted : (before ++ [latest]).Pairwise fun first second : FileVersionRecord =>
          first.version ≤ second.version := split ▸ ascending
      rw [split, List.mem_append, List.mem_singleton] at member
      rcases member with earlier | rfl
      · exact (List.pairwise_append.mp sorted).2.2 version earlier latest (List.mem_singleton_self _)
      · exact le_rfl

/-- A file with a version has one that carries the protected number. -/
theorem exists_latestVersion {db : Database} {fileId : FileId} {version : FileVersionRecord}
    (member : version ∈ db.versionsAscending fileId) :
    ∃ latest ∈ db.versionsAscending fileId,
      latest.version = latestVersion (db.versionsAscending fileId) := by
  unfold latestVersion
  cases last : (db.versionsAscending fileId).getLast? with
  | none =>
      rw [List.getLast?_eq_none_iff.mp last] at member
      cases member
  | some latest => exact ⟨latest, List.mem_of_getLast? last, rfl⟩

end DistributedFileStorage.Store.Database

namespace DistributedFileStorage.Versioning.VersionManager

open Async Store Services Deduplication Relational Program

/-! ## The runs -/

/-- **What `createVersion` does.** When the store rejects the row, nothing has
changed; otherwise the row is stored, its chunks are counted, and the file
carries its number. -/
theorem run_createVersion (fileId : FileId) (chunkHashes : List ChunkHash) (userId : UserId)
    (now : Time) (world : World) :
    (createVersion fileId chunkHashes userId now).run exec world =
      let row := world.store.nextVersion fileId chunkHashes userId now
      match world.store.createFileVersion row with
      | .error failure => (.error failure, world)
      | .ok db =>
          (.ok { fileId := fileId, version := row.version, chunkHashes := chunkHashes,
                 size := row.size, createdAt := now, userId := userId },
            world.setStore ((db.acquire chunkHashes).updateFile fileId
              { currentVersion := some row.version, updatedAt := some now })) := by
  have listed : (store (.listFileVersions fileId)).run exec world =
      (.ok (world.store.listFileVersions fileId), world) := rfl
  rw [createVersion, run_bind_ok exec listed,
    run_bind_ok exec (run_computeTotalSize chunkHashes world)]
  have inserted : (store (.createFileVersion
      (world.store.nextVersion fileId chunkHashes userId now))).run exec world =
      world.commit (world.store.createFileVersion
        (world.store.nextVersion fileId chunkHashes userId now)) := rfl
  dsimp only
  cases created : world.store.createFileVersion
      (world.store.nextVersion fileId chunkHashes userId now) with
  | error failure =>
      rw [created] at inserted
      exact run_bind_error exec inserted
  | ok db =>
      rw [created] at inserted
      refine (run_bind_ok exec inserted).trans ?_
      rw [run_bind_ok exec
        (DeduplicationEngine.run_incrementReferences chunkHashes fileId (world.setStore db))]
      rfl

/-- One iteration removes a prunable version and keeps any other. -/
theorem run_pruneVersion (fileId : FileId) (latest : ℤ) (cutoff : Option Time) (deleted : ℕ)
    (version : FileVersionRecord) (file : version.fileId = fileId) (world : World) :
    (pruneVersion fileId latest cutoff deleted version).run exec world =
      if version.version ≠ latest ∧ isBefore version.createdAt cutoff then
        (.ok (deleted + 1), world.setStore (world.store.removeVersion version))
      else (.ok deleted, world) := by
  unfold pruneVersion
  by_cases protectedVersion : version.version = latest
  · simp [protectedVersion]
  · by_cases old : isBefore version.createdAt cutoff
    · rw [if_neg protectedVersion, if_pos old, if_pos ⟨protectedVersion, old⟩,
        run_bind_ok exec (DeduplicationEngine.run_decrementReferences _ fileId world)]
      subst file
      rfl
    · simp [protectedVersion, old]

theorem run_foldEach_pruneVersion (fileId : FileId) (latest : ℤ) (cutoff : Option Time)
    (versions : List FileVersionRecord) (file : ∀ version ∈ versions, version.fileId = fileId)
    (deleted : ℕ) (world : World) :
    (foldEach (pruneVersion fileId latest cutoff) deleted versions).run exec world =
      let removed := versions.filter fun version =>
        version.version ≠ latest ∧ isBefore version.createdAt cutoff
      (.ok (deleted + removed.length), world.setStore (world.store.removeVersions removed)) := by
  induction versions generalizing deleted world with
  | nil => rfl
  | cons version rest ih =>
      have here := run_pruneVersion fileId latest cutoff deleted version
        (file version List.mem_cons_self) world
      have later := fun other member => file other (List.mem_cons_of_mem version member)
      by_cases doomed : version.version ≠ latest ∧ isBefore version.createdAt cutoff
      · rw [if_pos doomed] at here
        rw [foldEach, run_bind_ok exec here, ih later]
        simp [doomed, Database.removeVersions, Nat.add_assoc, Nat.add_comm]
      · rw [if_neg doomed] at here
        rw [foldEach, run_bind_ok exec here, ih later]
        simp [doomed]

/-- **What `pruneVersions` does.** It always resolves, to the number of prunable
versions, and removes exactly these. -/
theorem run_pruneVersionsBefore (fileId : FileId) (cutoff : Option Time) (world : World) :
    (pruneVersionsBefore fileId cutoff).run exec world =
      let removed := world.store.prunableVersions fileId cutoff
      (.ok removed.length, world.setStore (world.store.removeVersions removed)) := by
  have listed : (store (.listFileVersions fileId)).run exec world =
      (.ok (world.store.listFileVersions fileId), world) := rfl
  rw [pruneVersionsBefore, run_bind_ok exec listed]
  refine (run_foldEach_pruneVersion fileId _ _ (world.store.versionsAscending fileId)
    (fun version member => (Database.mem_versionsAscending.mp member).2) 0 world).trans ?_
  simp only [Nat.zero_add]
  rfl

theorem run_pruneVersions (fileId : FileId) (retentionDays : ℤ) (now : Time) (world : World) :
    (pruneVersions fileId retentionDays now).run exec world =
      let removed :=
        world.store.prunableVersions fileId (some (now - retentionDays * millisecondsPerDay))
      (.ok removed.length, world.setStore (world.store.removeVersions removed)) :=
  run_pruneVersionsBefore fileId _ world

end DistributedFileStorage.Versioning.VersionManager
