import Mathlib.Order.Bounds.Basic
import Mathlib.Tactic.Set
import DistributedFileStorage.Versioning.VersionManager

/-!
# The numbers of the versions of a file

`createVersion` numbers a version by how many versions the file has left, plus one.
Pruning never removes the version with the greatest number, but it may remove any
other. Once it has left a gap, the next number is one that is in use already, or
one that was in use before.

A ledger is the state of the services together with the numbers that were assigned so
far, each with the chunks it was assigned to. A history of calls on one file is lawful
when every creation resolves to a number that is greater than all numbers of the
ledger, no number of the ledger denotes two lists of chunks, and the file carries the
greatest number of its versions. A history is lawful exactly when every creation
starts without a gap (`lawful_iff_gapFree`).
-/

set_option autoImplicit false

namespace DistributedFileStorage.Store.Database

open Relational Versioning VersionManager

/-! ## Versions after a call -/

theorem mem_fileVersions_createFileVersion {db stored : Database} {version : FileVersionRecord}
    (created : db.createFileVersion version = .ok stored) {other : FileVersionRecord} :
    other ∈ stored.fileVersions.rows ↔ other ∈ db.fileVersions.rows ∨ other =
      { version with
        contentType := orNull version.contentType
        checksum := orNull version.checksum } := by
  obtain ⟨absent, _, rfl⟩ := createFileVersion_ok created
  exact Table.mem_insertIfAbsent.trans (or_congr_right (and_iff_right absent))

theorem files_createFileVersion {db stored : Database} {version : FileVersionRecord}
    (created : db.createFileVersion version = .ok stored) : stored.files = db.files := by
  obtain ⟨_, _, rfl⟩ := createFileVersion_ok created
  rfl

theorem fileVersions_removeVersion (db : Database) (version : FileVersionRecord) :
    (db.removeVersion version).fileVersions = db.fileVersions.delete version.primaryKey :=
  congrArg (Table.delete · _) (sameButCounts_release db version.chunkHashes).fileVersions

theorem mem_fileVersions_removeVersions {db : Database} {versions : List FileVersionRecord}
    (members : ∀ version ∈ versions, version ∈ db.fileVersions.rows)
    {other : FileVersionRecord} :
    other ∈ (db.removeVersions versions).fileVersions.rows ↔
      other ∈ db.fileVersions.rows ∧ other ∉ versions := by
  suffices general : ∀ reached : Database,
      other ∈ (reached.removeVersions versions).fileVersions.rows ↔
        other ∈ reached.fileVersions.rows ∧ ∀ version ∈ versions, other.primaryKey ≠
          version.primaryKey by
    rw [general]
    constructor
    · rintro ⟨member, kept⟩
      exact ⟨member, fun removed => kept other removed rfl⟩
    · rintro ⟨member, kept⟩
      refine ⟨member, fun version removed same => kept ?_⟩
      exact Table.eq_of_key_eq member (members version removed) same ▸ removed
  clear members
  induction versions with
  | nil => simp [removeVersions]
  | cons version rest ih =>
      intro reached
      have later := ih (reached.removeVersion version)
      rw [fileVersions_removeVersion, Table.mem_delete] at later
      refine later.trans ?_
      rw [List.forall_mem_cons, and_assoc]

/-- Pruning leaves the versions that are not prunable. -/
theorem mem_listFileVersions_prune {db : Database} {fileId : FileId} {cutoff : Option Time}
    {version : FileVersionRecord} :
    version ∈ (db.removeVersions (db.prunableVersions fileId cutoff)).listFileVersions fileId ↔
      version ∈ db.listFileVersions fileId ∧ version ∉ db.prunableVersions fileId cutoff := by
  have members : ∀ doomed ∈ db.prunableVersions fileId cutoff, doomed ∈ db.fileVersions.rows :=
    fun doomed member => (mem_prunableVersions.mp member).1.1
  rw [mem_listFileVersions, mem_fileVersions_removeVersions members, mem_listFileVersions]
  exact and_right_comm

theorem getFile_updateFile_self (db : Database) (fileId : FileId) (updates : FileUpdate) :
    (db.updateFile fileId updates).getFile fileId = (db.getFile fileId).map updates.apply := by
  show (db.files.update fileId updates.apply updates.fileId_apply).find? fileId = _
  exact Table.find?_update_self

theorem fileKeys_updateFile (db : Database) (fileId : FileId) (updates : FileUpdate) :
    (db.updateFile fileId updates).files.keys = db.files.keys := by
  show (db.files.update fileId updates.apply updates.fileId_apply).keys = _
  exact Table.keys_update

theorem files_removeVersions (db : Database) (versions : List FileVersionRecord) :
    (db.removeVersions versions).files = db.files := by
  unfold removeVersions
  induction versions generalizing db with
  | nil => rfl
  | cons version rest ih =>
      exact (ih (db.removeVersion version)).trans (sameButCounts_release db version.chunkHashes).files

end DistributedFileStorage.Store.Database

namespace DistributedFileStorage.Versioning

open Async Store Services Relational Database

/-! ## Histories on one file -/

/-- A call of the version manager on one file. -/
inductive VersionCall where
  | createVersion (chunkHashes : List ChunkHash) (userId : UserId) (now : Time)
  | pruneVersions (retentionDays : ℤ) (now : Time)

/-- The state, and every number assigned so far with the chunks it was assigned to. -/
structure Ledger where
  world : World
  assigned : List (ℤ × List ChunkHash)

namespace Ledger

/-- Run a call, and record the number that a creation resolves to. -/
def after (fileId : FileId) (ledger : Ledger) : VersionCall → Ledger
  | .createVersion chunkHashes userId now =>
      match (VersionManager.createVersion fileId chunkHashes userId now).run exec ledger.world with
      | (.ok version, world) => ⟨world, (version.version, version.chunkHashes) :: ledger.assigned⟩
      | (.error _, world) => ⟨world, ledger.assigned⟩
  | .pruneVersions retentionDays now =>
      ⟨((VersionManager.pruneVersions fileId retentionDays now).run exec ledger.world).2,
        ledger.assigned⟩

/-- A creation resolves, to a number that is greater than every number so far. -/
def Advances (fileId : FileId) (ledger : Ledger) : VersionCall → Prop
  | .createVersion chunkHashes userId now =>
      ∃ version world,
        (VersionManager.createVersion fileId chunkHashes userId now).run exec ledger.world =
          (.ok version, world) ∧
        ∀ entry ∈ ledger.assigned, entry.1 < version.version
  | .pruneVersions _ _ => True

/-- No number denotes two lists of chunks, and the file carries the greatest number of
its versions. -/
structure Consistent (fileId : FileId) (ledger : Ledger) : Prop where
  denotes : ∀ first ∈ ledger.assigned, ∀ second ∈ ledger.assigned,
    first.1 = second.1 → first = second
  present : ∀ version ∈ ledger.world.store.listFileVersions fileId,
    (version.version, version.chunkHashes) ∈ ledger.assigned
  current : ∀ file, ledger.world.store.getFile fileId = some file →
    ledger.world.store.listFileVersions fileId ≠ [] →
      IsGreatest
        {number | ∃ version ∈ ledger.world.store.listFileVersions fileId,
          version.version = number}
        file.currentVersion

/-- Every version of the file has a number up to how many versions there are: nothing
was pruned below the greatest number. -/
def NoGap (fileId : FileId) (ledger : Ledger) : Prop :=
  ∀ version ∈ ledger.world.store.listFileVersions fileId,
    version.version ≤ (ledger.world.store.listFileVersions fileId).length

instance (fileId : FileId) (ledger : Ledger) : Decidable (ledger.NoGap fileId) :=
  inferInstanceAs (Decidable (∀ version ∈ _, _))

end Ledger

/-- Every call advances the numbers, from consistent states to consistent states. -/
def Lawful (fileId : FileId) (ledger : Ledger) : List VersionCall → Prop
  | [] => ledger.Consistent fileId
  | call :: rest =>
      ledger.Consistent fileId ∧ ledger.Advances fileId call ∧
        Lawful fileId (ledger.after fileId call) rest

/-- Every creation starts without a gap. -/
def GapFree (fileId : FileId) (ledger : Ledger) : List VersionCall → Prop
  | [] => True
  | .createVersion chunkHashes userId now :: rest =>
      ledger.NoGap fileId ∧
        GapFree fileId (ledger.after fileId (.createVersion chunkHashes userId now)) rest
  | .pruneVersions retentionDays now :: rest =>
      GapFree fileId (ledger.after fileId (.pruneVersions retentionDays now)) rest

/-- A file at the start of its history: it has no version yet, or version 1 as a
finalized upload leaves it. -/
inductive Started (fileId : FileId) : Ledger → Prop where
  | unversioned {world : World} {file : FileRecord}
      (found : world.store.getFile fileId = some file)
      (none : world.store.listFileVersions fileId = []) : Started fileId ⟨world, []⟩
  | uploaded {world : World} {file : FileRecord} {first : FileVersionRecord}
      (found : world.store.getFile fileId = some file)
      (one : world.store.listFileVersions fileId = [first]) (number : first.version = 1)
      (current : file.currentVersion = 1) : Started fileId ⟨world, [(1, first.chunkHashes)]⟩

/-! ## One step -/

/-- What holds of the ledger along a lawful history: it is consistent, and some version
that is still there is at least as great as every number assigned. -/
structure Numbered (fileId : FileId) (ledger : Ledger) : Prop
    extends ledger.Consistent fileId where
  file : fileId ∈ ledger.world.store.files.keys
  greatest : ∀ entry ∈ ledger.assigned,
    ∃ version ∈ ledger.world.store.listFileVersions fileId, entry.1 ≤ version.version

theorem Started.numbered {fileId : FileId} {ledger : Ledger} (started : Started fileId ledger) :
    Numbered fileId ledger := by
  cases started with
  | unversioned found none =>
      exact
        { denotes := fun first member => nomatch member
          present := fun version member => by simp [none] at member
          current := fun _ _ some => absurd none some
          file := Table.isSome_find?_iff.mp (Option.isSome_of_eq_some found)
          greatest := fun entry member => nomatch member }
  | @uploaded world file first found one number current =>
      exact
        { denotes := fun _ memberFirst _ memberSecond _ =>
            (List.mem_singleton.mp memberFirst).trans (List.mem_singleton.mp memberSecond).symm
          present := fun version member => by
            rw [one, List.mem_singleton] at member
            rw [member, number]
            exact List.mem_singleton_self _
          current := fun other same _ => by
            have here : other = file := Option.some.inj (same.symm.trans found)
            rw [here, current, one]
            constructor
            · exact ⟨first, List.mem_singleton_self _, number⟩
            · rintro _ ⟨version, member, rfl⟩
              rw [List.mem_singleton.mp member, number]
          file := Table.isSome_find?_iff.mp (Option.isSome_of_eq_some found)
          greatest := fun entry member => by
            rw [List.mem_singleton.mp member, one]
            exact ⟨first, List.mem_singleton_self _, number.ge⟩ }

/-- Without a gap the row of the next version is accepted. -/
theorem exists_created {fileId : FileId} {ledger : Ledger} (numbered : Numbered fileId ledger)
    (noGap : ledger.NoGap fileId) (chunkHashes : List ChunkHash) (userId : UserId) (now : Time) :
    ∃ stored, ledger.world.store.createFileVersion
      (ledger.world.store.nextVersion fileId chunkHashes userId now) = .ok stored := by
  refine exists_createFileVersion (fun taken => ?_) numbered.file
  obtain ⟨version, member, same⟩ := Table.mem_keys.mp taken
  have file : version.fileId = fileId := congrArg Prod.fst same
  have number : version.version = (ledger.world.store.listFileVersions fileId).length + 1 :=
    congrArg Prod.snd same
  have bounded := noGap version (mem_listFileVersions.mpr ⟨member, file⟩)
  omega

/-- The state after a creation whose row is accepted. -/
theorem after_createVersion {fileId : FileId} {ledger : Ledger} {chunkHashes : List ChunkHash}
    {userId : UserId} {now : Time} {stored : Database}
    (created : ledger.world.store.createFileVersion
      (ledger.world.store.nextVersion fileId chunkHashes userId now) = .ok stored) :
    let number : ℤ := (ledger.world.store.listFileVersions fileId).length + 1
    ledger.after fileId (.createVersion chunkHashes userId now) =
      ⟨ledger.world.setStore ((stored.acquire chunkHashes).updateFile fileId
          { currentVersion := some number, updatedAt := some now }),
        (number, chunkHashes) :: ledger.assigned⟩ := by
  have run := VersionManager.run_createVersion fileId chunkHashes userId now ledger.world
  simp only [created] at run
  simp only [Ledger.after, run]
  rfl

/-- Without a gap the next number is greater than every number ever assigned. -/
theorem Numbered.fresh {fileId : FileId} {ledger : Ledger} (numbered : Numbered fileId ledger)
    (noGap : ledger.NoGap fileId) : ∀ entry ∈ ledger.assigned,
      entry.1 < (ledger.world.store.listFileVersions fileId).length + 1 := by
  intro entry member
  obtain ⟨version, present, atMost⟩ := numbered.greatest entry member
  have bounded := noGap version present
  omega

/-- The versions after a creation are the versions before and the new one. -/
theorem mem_listFileVersions_created {db stored : Database} {fileId : FileId}
    {chunkHashes : List ChunkHash} {userId : UserId} {now : Time} (updates : FileUpdate)
    (created : db.createFileVersion (db.nextVersion fileId chunkHashes userId now) = .ok stored)
    (version : FileVersionRecord) :
    version ∈ ((stored.acquire chunkHashes).updateFile fileId updates).listFileVersions fileId ↔
      version ∈ db.listFileVersions fileId ∨
        version = db.nextVersion fileId chunkHashes userId now := by
  have rows : ((stored.acquire chunkHashes).updateFile fileId updates).fileVersions =
      stored.fileVersions := (sameButCounts_acquire stored chunkHashes).fileVersions
  rw [mem_listFileVersions, rows, mem_fileVersions_createFileVersion created, mem_listFileVersions]
  constructor
  · rintro ⟨old | new, file⟩
    · exact .inl ⟨old, file⟩
    · exact .inr new
  · rintro (⟨old, file⟩ | rfl)
    · exact ⟨.inl old, file⟩
    · exact ⟨.inr rfl, rfl⟩

/-- **A creation that starts without a gap advances the numbers.** -/
theorem Numbered.advances {fileId : FileId} {ledger : Ledger} (numbered : Numbered fileId ledger)
    (noGap : ledger.NoGap fileId) (chunkHashes : List ChunkHash) (userId : UserId) (now : Time) :
    ledger.Advances fileId (.createVersion chunkHashes userId now) := by
  obtain ⟨stored, created⟩ := exists_created numbered noGap chunkHashes userId now
  have run := VersionManager.run_createVersion fileId chunkHashes userId now ledger.world
  simp only [created] at run
  exact ⟨_, _, run, numbered.fresh noGap⟩

/-- A creation that advances the numbers starts without a gap. -/
theorem Numbered.noGap {fileId : FileId} {ledger : Ledger} (numbered : Numbered fileId ledger)
    {chunkHashes : List ChunkHash} {userId : UserId} {now : Time}
    (advances : ledger.Advances fileId (.createVersion chunkHashes userId now)) :
    ledger.NoGap fileId := by
  obtain ⟨version, world, resolved, greater⟩ := advances
  intro other member
  have below := greater _ (numbered.present other member)
  rw [VersionManager.run_createVersion] at resolved
  cases created : ledger.world.store.createFileVersion
      (ledger.world.store.nextVersion fileId chunkHashes userId now) with
  | error failure =>
      simp only [created] at resolved
      cases resolved
  | ok stored =>
      simp only [created] at resolved
      have number : version.version = (ledger.world.store.listFileVersions fileId).length + 1 := by
        cases resolved
        rfl
      dsimp only at below
      omega

theorem Numbered.createVersion {fileId : FileId} {ledger : Ledger}
    (numbered : Numbered fileId ledger) (noGap : ledger.NoGap fileId)
    (chunkHashes : List ChunkHash) (userId : UserId) (now : Time) :
    Numbered fileId (ledger.after fileId (.createVersion chunkHashes userId now)) := by
  obtain ⟨stored, created⟩ := exists_created numbered noGap chunkHashes userId now
  rw [after_createVersion created]
  have counted := sameButCounts_acquire stored chunkHashes
  have files : stored.files = ledger.world.store.files := files_createFileVersion created
  set number : ℤ := (ledger.world.store.listFileVersions fileId).length + 1 with numberIs
  set db := (stored.acquire chunkHashes).updateFile fileId
    { currentVersion := some number, updatedAt := some now } with dbIs
  have listed := mem_listFileVersions_created
    { currentVersion := some number, updatedAt := some now } created
  have fresh : ∀ entry ∈ ledger.assigned, entry.1 < number := numbered.fresh noGap
  have new : ledger.world.store.nextVersion fileId chunkHashes userId now ∈
      db.listFileVersions fileId := (listed _).mpr (.inr rfl)
  constructor
  case toConsistent =>
    constructor
    · intro first memberFirst second memberSecond same
      rcases List.mem_cons.mp memberFirst with rfl | oldFirst
      · rcases List.mem_cons.mp memberSecond with rfl | oldSecond
        · rfl
        · exact absurd same (fresh second oldSecond).ne'
      · rcases List.mem_cons.mp memberSecond with rfl | oldSecond
        · exact absurd same (fresh first oldFirst).ne
        · exact numbered.denotes first oldFirst second oldSecond same
    · intro version member
      rcases (listed version).mp member with old | rfl
      · exact List.mem_cons_of_mem _ (numbered.present version old)
      · exact List.mem_cons_self
    · intro file found _
      have looked := (getFile_updateFile_self (stored.acquire chunkHashes) fileId
        { currentVersion := some number, updatedAt := some now }).symm.trans found
      obtain ⟨old, _, rfl⟩ := Option.map_eq_some_iff.mp looked
      constructor
      · exact ⟨_, new, rfl⟩
      · rintro _ ⟨version, member, rfl⟩
        rcases (listed version).mp member with earlier | rfl
        · have bounded := noGap version earlier
          show version.version ≤ number
          omega
        · exact le_rfl
  case file =>
    show fileId ∈ db.files.keys
    rw [fileKeys_updateFile, counted.files, files]
    exact numbered.file
  case greatest =>
    intro entry member
    rcases List.mem_cons.mp member with rfl | old
    · exact ⟨_, new, le_rfl⟩
    · exact ⟨_, new, (fresh entry old).le⟩

/-- Pruning keeps the version with the greatest number. -/
theorem Numbered.pruneVersions {fileId : FileId} {ledger : Ledger}
    (numbered : Numbered fileId ledger) (retentionDays : ℤ) (now : Time) :
    Numbered fileId (ledger.after fileId (.pruneVersions retentionDays now)) := by
  simp only [Ledger.after, VersionManager.run_pruneVersions]
  set cutoff := some (now - retentionDays * millisecondsPerDay)
  set before := ledger.world.store with beforeIs
  set db := before.removeVersions (before.prunableVersions fileId cutoff) with dbIs
  have listed : ∀ version, version ∈ db.listFileVersions fileId ↔
      version ∈ before.listFileVersions fileId ∧
        version ∉ before.prunableVersions fileId cutoff :=
    fun version => mem_listFileVersions_prune
  have files : db.files = before.files := files_removeVersions _ _
  -- the version that pruning protects bounds every other one, before and after
  have kept : ∀ version ∈ before.listFileVersions fileId,
      ∃ latest ∈ db.listFileVersions fileId, version.version ≤ latest.version := by
    intro version member
    have ascending : version ∈ before.versionsAscending fileId :=
      mem_versionsAscending.mpr (mem_listFileVersions.mp member)
    obtain ⟨latest, present, number⟩ := exists_latestVersion ascending
    refine ⟨latest, (listed latest).mpr ⟨?_, fun doomed => ?_⟩, ?_⟩
    · exact mem_listFileVersions.mpr (mem_versionsAscending.mp present)
    · exact (mem_prunableVersions.mp doomed).2.1 number
    · rw [number]
      exact le_latestVersion ascending
  constructor
  case toConsistent =>
    constructor
    · exact numbered.denotes
    · exact fun version member => numbered.present version ((listed version).mp member).1
    · intro file found some
      have same : before.getFile fileId = .some file :=
        (congrArg (Table.find? · fileId) files).symm.trans found
      obtain ⟨version, member⟩ := List.exists_mem_of_ne_nil _ some
      have someBefore : before.listFileVersions fileId ≠ [] :=
        List.ne_nil_of_mem ((listed version).mp member).1
      obtain ⟨⟨top, topMember, topNumber⟩, bound⟩ := numbered.current file same someBefore
      obtain ⟨latest, latestMember, atLeast⟩ := kept top topMember
      have atMost := bound ⟨latest, ((listed latest).mp latestMember).1, rfl⟩
      constructor
      · exact ⟨latest, latestMember, by omega⟩
      · rintro _ ⟨other, otherMember, rfl⟩
        exact bound ⟨other, ((listed other).mp otherMember).1, rfl⟩
  case file =>
    show fileId ∈ db.files.keys
    rw [files]
    exact numbered.file
  case greatest =>
    intro entry member
    obtain ⟨version, present, atMost⟩ := numbered.greatest entry member
    obtain ⟨latest, latestMember, atLeast⟩ := kept version present
    exact ⟨latest, latestMember, atMost.trans atLeast⟩

/-! ## Whole histories -/

theorem Numbered.lawful_iff {fileId : FileId} {ledger : Ledger}
    (numbered : Numbered fileId ledger) (calls : List VersionCall) :
    Lawful fileId ledger calls ↔ GapFree fileId ledger calls := by
  induction calls generalizing ledger with
  | nil => exact iff_of_true numbered.toConsistent trivial
  | cons call rest ih =>
      cases call with
      | createVersion chunkHashes userId now =>
          constructor
          · rintro ⟨_, advances, later⟩
            have noGap := numbered.noGap advances
            exact ⟨noGap, (ih (numbered.createVersion noGap chunkHashes userId now)).mp later⟩
          · rintro ⟨noGap, later⟩
            have next := numbered.createVersion noGap chunkHashes userId now
            exact ⟨numbered.toConsistent, numbered.advances noGap chunkHashes userId now,
              (ih next).mpr later⟩
      | pruneVersions retentionDays now =>
          have next := numbered.pruneVersions retentionDays now
          constructor
          · rintro ⟨_, _, later⟩
            exact (ih next).mp later
          · intro later
            exact ⟨numbered.toConsistent, trivial, (ih next).mpr later⟩

/-- **The history of a file is lawful exactly when every creation starts without a
gap.** -/
theorem lawful_iff_gapFree {fileId : FileId} {ledger : Ledger} (started : Started fileId ledger)
    (calls : List VersionCall) : Lawful fileId ledger calls ↔ GapFree fileId ledger calls :=
  started.numbered.lawful_iff calls

/-- Pruning that finds nothing old enough leaves no gap. -/
theorem lawful_nothing_pruned :
    Lawful notes ⟨.ofFile notes, []⟩
      [.createVersion ["aa"] "ada" 1, .pruneVersions 30 2, .createVersion ["bb"] "ada" 3] :=
  (lawful_iff_gapFree (.unversioned rfl (by decide)) _).mpr ⟨by decide, by decide, trivial⟩

/-- Three versions, then a retention period that only the latest one survives. -/
def pruningHistory : List VersionCall :=
  [.createVersion ["aa"] "ada" 1, .createVersion ["bb"] "ada" 2, .createVersion ["cc"] "ada" 3,
    .pruneVersions 0 9, .createVersion ["dd"] "ada" 10]

/-- **A gap brings back a number.** The last creation assigns number 2 again, to another
chunk, and makes it the current version while version 3 is there. -/
theorem pruned_number_reused :
    ∃ ledger calls, Started notes ledger ∧ ¬ Lawful notes ledger calls := by
  have started : Started notes ⟨.ofFile notes, []⟩ := .unversioned rfl (by decide)
  refine ⟨_, pruningHistory, started, fun lawful => ?_⟩
  obtain ⟨_, _, _, _, _, _, _, _, _, ⟨version, world, resolved, greater⟩, _⟩ := lawful
  have number := congrArg (fun result => result.1.toOption.map FileVersion.version) resolved
  have above := greater (2, ["bb"]) (by decide)
  have reused : some 2 = some version.version := number
  simp only [Option.some.injEq] at reused
  omega

end DistributedFileStorage.Versioning
