import DistributedFileStorage.Versioning.Numbering

/-!
# What pruning removes

Which versions go is a question of the cutoff date alone, however the source has come to it: those
that are older than the cutoff and that another version of the file exceeds
(`pruneVersionsBefore_exact`). The cutoff may be an invalid date, as it is where the retention
period is not a finite number or reaches too far back.
-/

set_option autoImplicit false

namespace DistributedFileStorage.Store.Database

open Relational Versioning VersionManager

variable (db : Database) (fileId : FileId)

/-- A version of a file that is older than the cutoff and does not carry the greatest
version number of the file. -/
def Outdated (cutoff : Option Time) (version : FileVersionRecord) : Prop :=
  version.fileId = fileId ∧ isBefore version.createdAt cutoff ∧
    ∃ greater ∈ db.fileVersions.rows, greater.fileId = fileId ∧ version.version < greater.version

instance (cutoff : Option Time) : DecidablePred (db.Outdated fileId cutoff) :=
  fun _ => inferInstanceAs (Decidable (_ ∧ _ ∧ _))

variable {db fileId}

theorem prunable_iff_outdated {cutoff : Option Time} {version : FileVersionRecord}
    (member : version ∈ db.versionsAscending fileId) :
    db.Prunable fileId cutoff version ↔ db.Outdated fileId cutoff version := by
  constructor
  · rintro ⟨notLatest, old⟩
    obtain ⟨latest, present, number⟩ := exists_latestVersion member
    refine ⟨(mem_versionsAscending.mp member).2, old, latest, ?_⟩
    obtain ⟨row, file⟩ := mem_versionsAscending.mp present
    exact ⟨row, file, lt_of_le_of_ne (number ▸ le_latestVersion member) (number ▸ notLatest)⟩
  · rintro ⟨_, old, greater, row, file, exceeds⟩
    refine ⟨fun latest => ?_, old⟩
    have bounded := le_latestVersion (mem_versionsAscending.mpr ⟨row, file⟩)
    omega

theorem mem_prunableVersions_iff {cutoff : Option Time} {version : FileVersionRecord} :
    version ∈ db.prunableVersions fileId cutoff ↔
      version ∈ db.fileVersions.rows ∧ db.Outdated fileId cutoff version := by
  rw [mem_prunableVersions]
  constructor
  · rintro ⟨row, prunable⟩
    exact ⟨row.1, (prunable_iff_outdated (mem_versionsAscending.mpr row)).mp prunable⟩
  · rintro ⟨row, outdated⟩
    have member := mem_versionsAscending.mpr ⟨row, outdated.1⟩
    exact ⟨⟨row, outdated.1⟩, (prunable_iff_outdated member).mpr outdated⟩

/-- The versions that are removed are the outdated rows, in another order. -/
theorem length_prunableVersions (cutoff : Option Time) :
    (db.prunableVersions fileId cutoff).length =
      (db.fileVersions.rows.filter fun version =>
        db.Outdated fileId cutoff version).length := by
  apply List.Perm.length_eq
  rw [List.perm_ext_iff_of_nodup (db.nodup_prunableVersions fileId cutoff)
    (db.fileVersions.nodup_rows.filter _)]
  intro version
  rw [mem_prunableVersions_iff, List.mem_filter, decide_eq_true_eq]

/-- Removing versions keeps the rows with other keys, in their order. -/
theorem rows_removeVersions (db : Database) (versions : List FileVersionRecord) :
    (db.removeVersions versions).fileVersions.rows =
      db.fileVersions.rows.filter fun row =>
        row.primaryKey ∉ versions.map FileVersionRecord.primaryKey := by
  unfold removeVersions
  induction versions generalizing db with
  | nil => simp
  | cons version rest ih =>
      have one : (db.removeVersion version).fileVersions.rows =
          db.fileVersions.rows.filter fun row => row.primaryKey ≠ version.primaryKey := by
        rw [fileVersions_removeVersion]
        apply List.filter_congr
        intro row _
        simp
      rw [List.foldl_cons, ih, one, List.filter_filter]
      apply List.filter_congr
      intro row _
      simp [Bool.and_comm]

theorem rows_removeVersions_prunable (cutoff : Option Time) :
    (db.removeVersions (db.prunableVersions fileId cutoff)).fileVersions.rows =
      db.fileVersions.rows.filter fun version => ¬ db.Outdated fileId cutoff version := by
  rw [rows_removeVersions]
  apply List.filter_congr
  intro row member
  rw [decide_eq_decide, List.mem_map, not_iff_not]
  constructor
  · rintro ⟨version, removed, same⟩
    obtain ⟨present, outdated⟩ := mem_prunableVersions_iff.mp removed
    exact Table.eq_of_key_eq present member same ▸ outdated
  · intro outdated
    exact ⟨row, mem_prunableVersions_iff.mpr ⟨member, outdated⟩, rfl⟩

/-- A version that pruning kept is not outdated afterwards. -/
theorem not_outdated_of_kept {after : Database} {cutoff : Option Time}
    {version : FileVersionRecord} (subset : ∀ row ∈ after.fileVersions.rows,
      row ∈ db.fileVersions.rows ∧ ¬ db.Outdated fileId cutoff row)
    (member : version ∈ after.fileVersions.rows) : ¬ after.Outdated fileId cutoff version := by
  rintro ⟨file, old, greater, row, sameFile, exceeds⟩
  exact (subset version member).2 ⟨file, old, greater, (subset greater row).1, sameFile, exceeds⟩

/-- Nothing is left to prune. -/
theorem prunableVersions_removeVersions (db : Database) (fileId : FileId) (cutoff : Option Time) :
    (db.removeVersions (db.prunableVersions fileId cutoff)).prunableVersions fileId cutoff =
      [] := by
  have kept : ∀ row ∈ (db.removeVersions (db.prunableVersions fileId cutoff)).fileVersions.rows,
      row ∈ db.fileVersions.rows ∧ ¬ db.Outdated fileId cutoff row := by
    intro row member
    rw [rows_removeVersions_prunable] at member
    simpa using member
  apply List.eq_nil_iff_forall_not_mem.mpr
  intro version removed
  obtain ⟨member, outdated⟩ := mem_prunableVersions_iff.mp removed
  exact not_outdated_of_kept kept member outdated

/-- Removing rows of one file leaves the list of another. -/
theorem listFileVersions_eq_of_ne {after : Database} {cutoff : Option Time}
    (rows : after.fileVersions.rows = db.fileVersions.rows.filter fun version =>
      ¬ db.Outdated fileId cutoff version) {other : FileId} (different : other ≠ fileId) :
    after.listFileVersions other = db.listFileVersions other := by
  unfold listFileVersions
  rw [rows, List.filter_filter]
  congr 1
  apply List.filter_congr
  intro version _
  by_cases file : version.fileId = other
  · have kept : ¬ db.Outdated fileId cutoff version :=
      fun outdated => different (file.symm.trans outdated.1)
    simp [file, kept]
  · simp [file]

end DistributedFileStorage.Store.Database

namespace DistributedFileStorage.Versioning.VersionManager

open Async Store Services Relational Program Database

/-- **Pruning removes exactly the outdated versions.** It resolves to their number; the other rows
stay as they are, those of other files among them; and pruning again with the same cutoff changes
nothing. -/
theorem pruneVersionsBefore_exact (fileId : FileId) (cutoff : Option Time) (world : World) :
    ∃ reached : World,
      (pruneVersionsBefore fileId cutoff).run exec world =
          (.ok (world.store.fileVersions.rows.filter fun version =>
            world.store.Outdated fileId cutoff version).length, reached) ∧
        reached.store.fileVersions.rows = (world.store.fileVersions.rows.filter fun version =>
          ¬ world.store.Outdated fileId cutoff version) ∧
        (∀ other ≠ fileId,
          reached.store.listFileVersions other = world.store.listFileVersions other) ∧
        (pruneVersionsBefore fileId cutoff).run exec reached = (.ok 0, reached) := by
  have rows : (world.store.removeVersions
        (world.store.prunableVersions fileId cutoff)).fileVersions.rows =
      world.store.fileVersions.rows.filter fun version =>
        ¬ world.store.Outdated fileId cutoff version := rows_removeVersions_prunable cutoff
  refine ⟨world.setStore
    (world.store.removeVersions (world.store.prunableVersions fileId cutoff)), ?_, rows, ?_, ?_⟩
  · rw [run_pruneVersionsBefore, ← length_prunableVersions]
  · exact fun other different => listFileVersions_eq_of_ne rows different
  · rw [run_pruneVersionsBefore]
    dsimp only [World.store_setStore]
    rw [prunableVersions_removeVersions]
    rfl

end DistributedFileStorage.Versioning.VersionManager
