import DistributedFileStorage.Async.OwnCalls
import DistributedFileStorage.Versioning.Numbering

/-!
# Versions stay what they are

A version is written once. No call changes its row, and only two calls remove it: the deletion of
the version, and the deletion of its file. So what has been reported of a version, by the call that
created it or by one that read it, is what every later reading of it reports, until it is deleted
(`versions_stay`).

This holds next to any other programs, and when any call of the store may fail.
-/

set_option autoImplicit false

namespace DistributedFileStorage.Versioning

open Async Store Services Relational Program

/-- What `getVersion` and `listVersions` make of a row. -/
def fileVersion (record : FileVersionRecord) : FileVersion where
  fileId := record.fileId
  version := record.version
  chunkHashes := record.chunkHashes
  size := record.size
  createdAt := record.createdAt
  userId := record.userId

namespace VersionManager

def getVersion (fileId : FileId) (version : ℤ) : Async FileVersion := do
  match ← store (.getFileVersion fileId version) with
  | none => reject s!"Version {version} not found for file {fileId}"
  | some record => pure (fileVersion record)

def listVersions (fileId : FileId) : Async (List FileVersion) := do
  let records ← store (.listFileVersions fileId)
  pure ((orderBy FileVersionRecord.version records).map fileVersion)

end VersionManager

/-- What runs next to each other. -/
inductive VersionTask where
  | createVersion (fileId : FileId) (chunkHashes : List ChunkHash) (userId : UserId) (now : Time)
  | getVersion (fileId : FileId) (version : ℤ)
  | listVersions (fileId : FileId)
  | other (program : Async Unit)

/-- The versions that a task reports. -/
def VersionTask.program : VersionTask → Async (List FileVersion)
  | createVersion fileId chunkHashes userId now => do
      let version ← VersionManager.createVersion fileId chunkHashes userId now
      pure [version]
  | getVersion fileId version => do
      let found ← VersionManager.getVersion fileId version
      pure [found]
  | listVersions fileId => VersionManager.listVersions fileId
  | other program => do
      program
      pure []

variable {ι : Type} {fileId : FileId} {number : ℤ}

/-! ## One call -/

/-- The call deletes the version, or its file. -/
def Deletes (fileId : FileId) (number : ℤ) (event : Event system ι World) : Prop :=
  event.op = .store (.deleteFileVersion fileId number) ∨ event.op = .store (.deleteFile fileId)

/-- The store has the version. -/
def Has (version : FileVersion) (world : World) : Prop :=
  ∃ record, world.store.getFileVersion version.fileId version.version = some record ∧
    fileVersion record = version

theorem getFileVersion_createFileVersion {db stored : Database} {version record : FileVersionRecord}
    (created : db.createFileVersion version = .ok stored)
    (found : db.getFileVersion fileId number = some record) :
    stored.getFileVersion fileId number = some record := by
  obtain ⟨member, here⟩ := Table.find?_eq_some_iff.mp found
  refine Table.find?_eq_some_iff.mpr ⟨?_, here⟩
  exact (Database.mem_fileVersions_createFileVersion created).mpr (.inl member)

/-- **A row stays until a call deletes it.** -/
theorem getFileVersion_exec {op : Call} {world : World} {record : FileVersionRecord}
    (kept : op ≠ .store (.deleteFileVersion fileId number))
    (stays : op ≠ .store (.deleteFile fileId))
    (found : world.store.getFileVersion fileId number = some record) :
    (exec op world).2.store.getFileVersion fileId number = some record := by
  cases op with
  | disk nodeId op =>
      rw [exec_disk_store]
      exact found
  | store op =>
      have committed : ∀ {statement : Except Failure Database},
          (∀ db, statement = .ok db → db.getFileVersion fileId number = some record) →
            (world.commit statement).2.store.getFileVersion fileId number = some record := by
        intro statement ends
        cases statement with
        | error failure => exact found
        | ok db => exact ends db rfl
      have untouched : ∀ {db : Database}, db.fileVersions = world.store.fileVersions →
          db.getFileVersion fileId number = some record := by
        intro db same
        rw [Database.getFileVersion, same]
        exact found
      cases op with
      | createFileVersion version =>
          exact committed fun db created => getFileVersion_createFileVersion created found
      | deleteFileVersion otherFile other =>
          refine (Table.find?_delete_of_ne fun same => kept ?_).trans found
          obtain ⟨rfl, rfl⟩ := Prod.mk.inj same
          rfl
      | deleteFile other =>
          obtain ⟨member, here⟩ := Table.find?_eq_some_iff.mp found
          refine Table.find?_eq_some_iff.mpr ⟨Table.mem_deleteWhere.mpr ⟨member, ?_⟩, here⟩
          refine decide_eq_false fun same => stays ?_
          obtain rfl : fileId = other := (Prod.mk.inj here).1.symm.trans same
          rfl
      | createFile file =>
          refine committed fun db created => untouched ?_
          obtain ⟨_, _, _, rfl⟩ := Database.createFile_ok created
          rfl
      | createChunkReplica replica =>
          refine committed fun db created => untouched ?_
          unfold Database.createChunkReplica at created
          split at created
          · split at created <;> cases created
            rfl
          · cases created
      | createUploadSession session =>
          refine committed fun db created => untouched ?_
          unfold Database.createUploadSession at created
          split at created <;> cases created
          rfl
      | markChunkUploaded chunk =>
          refine committed fun db created => untouched ?_
          unfold Database.markChunkUploaded at created
          split at created <;> cases created
          rfl
      | grantPermission permission =>
          refine committed fun db created => untouched ?_
          unfold Database.grantPermission at created
          split at created <;> cases created
          rfl
      | _ => exact found

/-- A version stays until a call deletes it. -/
theorem Has.step {version : FileVersion} {task : ι} {op : Call} {before after : World}
    {outcome : system.Outcome op.Result} (happens : faulty op before outcome after)
    (kept : ¬ Deletes version.fileId version.version
      (⟨task, op, outcome, before, after⟩ : Event system ι World)) (has : Has version before) :
    Has version after := by
  rcases happens with works | ⟨_, _, damage, rfl⟩
  · obtain ⟨record, found, same⟩ := has
    obtain rfl : (exec op before).2 = after := congrArg Prod.snd works
    exact ⟨record, getFileVersion_exec (fun deletes => kept (.inl deletes))
      (fun deletes => kept (.inr deletes)) found, same⟩
  · obtain ⟨record, found, same⟩ := has
    have stays := congrArg (fun db => db.getFileVersion version.fileId version.version)
      (Call.store_leaves op damage before)
    exact ⟨record, stays.trans found, same⟩

/-- A version is there right after it has been created. -/
theorem has_of_created {version : FileVersionRecord} {before after : World} {value : Unit}
    (happens : faulty (.store (.createFileVersion version)) before (.ok value) after) :
    Has (fileVersion version) after := by
  rcases happens with works | ⟨_, ⟨_, failed⟩, _⟩
  · rcases World.commit_cases works with ⟨_, _, failed, _⟩ | ⟨db, created, _, rfl⟩
    · cases failed
    · let row : FileVersionRecord := { version with
        contentType := orNull version.contentType
        checksum := orNull version.checksum }
      have member : row ∈ db.fileVersions.rows :=
        (Database.mem_fileVersions_createFileVersion created).mpr (.inr rfl)
      exact ⟨row, Table.find?_key member, rfl⟩
  · cases failed

/-- A call that reads resolves to what the store has. -/
theorem eq_of_reads {op : StoreOp} {value : World → op.Result}
    (reads : ∀ world, exec (.store op) world = (.ok (value world), world)) {before after : World}
    {found : op.Result} (happens : faulty (.store op) before (.ok found) after) :
    found = value before ∧ after = before := by
  rcases happens with works | ⟨_, ⟨_, failed⟩, _⟩
  · rw [reads] at works
    obtain ⟨same, rfl⟩ := Prod.mk.inj works
    exact ⟨(Except.ok.inj same).symm, rfl⟩
  · cases failed

/-! ## The programs -/

section Follows

variable {task : ι} {own : List (Event system ι World)}

/-- The store has each of the versions right after a call. -/
def Shown (versions : List FileVersion) (own : List (Event system ι World)) : Prop :=
  ∀ version ∈ versions, ∃ event ∈ own, Has version event.after

/-- What a reading reports of the store. -/
def VersionTask.reading (db : Database) : VersionTask → Option (List FileVersion)
  | getVersion fileId version =>
      (db.getFileVersion fileId version).map fun record => [fileVersion record]
  | listVersions fileId =>
      some ((orderBy FileVersionRecord.version (db.listFileVersions fileId)).map fileVersion)
  | _ => none

/-- The task reads versions and does nothing else. -/
def VersionTask.Reads : VersionTask → Prop
  | getVersion _ _ => True
  | listVersions _ => True
  | _ => False

/-- What a task that has resolved has done. -/
structure Resolved (call : VersionTask) (versions : List FileVersion)
    (own : List (Event system ι World)) : Prop where
  shown : Shown versions own
  read : call.Reads → ∃ event, own = [event] ∧ call.reading event.before.store = some versions

/-- What a task that has rejected has done. -/
def Rejected (call : VersionTask) (own : List (Event system ι World)) : Prop :=
  call.Reads → ∃ event, own = [event] ∧
    (Except.isOk event.outcome = false ∨ call.reading event.before.store = none)

theorem Shown.mono {versions : List FileVersion} (shown : Shown versions own)
    (event : Event system ι World) : Shown versions (own ++ [event]) := by
  intro version member
  obtain ⟨here, old, has⟩ := shown version member
  exact ⟨here, List.mem_append_left _ old, has⟩

theorem allCalls_true {α : Type} (program : Async α) : program.AllCalls fun _ => True := by
  induction program with
  | done outcome => trivial
  | call op next ih => exact ⟨trivial, ih⟩

theorem has_of_mem_listFileVersions {record : FileVersionRecord} {world : World} {fileId : FileId}
    (member : record ∈ world.store.listFileVersions fileId) : Has (fileVersion record) world :=
  ⟨record, Table.find?_key (Database.mem_listFileVersions.mp member).1, rfl⟩

variable [DecidableEq ι]

/-- Whatever a program does, it does not take back what has been shown. -/
theorem follows_shown {α : Type} {versions : List FileVersion} (program : Async α)
    (shown : Shown versions own) :
    Follows faulty (fun _ : ι => fun _ _ => True) task program own (fun _ => Shown versions)
      fun _ => True :=
  (Follows.of_allCalls (fun _ _ _ shown => ⟨trivial, fun _ _ _ _ => shown.mono _⟩)
    (allCalls_true program) shown).consequence (fun _ _ => id) fun _ _ => trivial

theorem follows_any {α : Type} (program : Async α) :
    Follows faulty (fun _ : ι => fun _ _ => True) task program own (fun _ _ => True)
      fun _ => True :=
  (follows_shown program (List.forall_mem_nil _)).consequence (fun _ _ _ => trivial) fun _ => id

/-- A version that has been created has been there. -/
theorem creation_shown (fileId : FileId) (chunkHashes : List ChunkHash) (userId : UserId)
    (now : Time) :
    Follows faulty (fun _ : ι => fun _ _ => True) task
      (VersionManager.createVersion fileId chunkHashes userId now) own
      (fun version => Shown [version]) fun _ => True := by
  unfold VersionManager.createVersion
  refine .bind ((follows_any _).consequence (fun existing earlier _ => ?_) fun _ => id)
  refine .bind ((follows_any _).consequence (fun total earlier _ => ?_) fun _ => id)
  refine .bind (.perform trivial fun before outcome after happens => ?_)
  cases outcome with
  | error failure => trivial
  | ok value =>
      dsimp only [Ends]
      have has := has_of_created happens
      have shown : Shown [_] (earlier ++ [(⟨task, _, .ok value, before, after⟩ :
          Event system ι World)]) :=
        List.forall_mem_singleton.mpr ⟨_, List.mem_concat_self, has⟩
      refine .bind ((follows_shown _ shown).consequence (fun _ later shown => ?_) fun _ => id)
      refine .bind ((follows_shown _ shown).consequence (fun _ later shown => ?_) fun _ => id)
      exact .pure shown

/-- What a task has done that has settled. -/
theorem follows_versionTask (call : VersionTask) :
    Follows faulty (fun _ : ι => fun _ _ => True) task call.program [] (Resolved call)
      (Rejected call) := by
  cases call with
  | createVersion fileId chunkHashes userId now =>
      refine .bind ((creation_shown fileId chunkHashes userId now).consequence ?_ ?_)
      · exact fun version later shown => .pure ⟨shown, False.elim⟩
      · exact fun _ _ => False.elim
  | other program =>
      refine .bind ((follows_any program).consequence (fun _ later _ => ?_) fun _ _ => False.elim)
      exact .pure ⟨List.forall_mem_nil _, False.elim⟩
  | getVersion fileId version =>
      unfold VersionTask.program VersionManager.getVersion
      refine .bind (.bind (.perform trivial fun before outcome after happens => ?_))
      cases outcome with
      | error failure => exact fun _ => ⟨_, rfl, .inl rfl⟩
      | ok found =>
          obtain ⟨same, rfl⟩ := eq_of_reads (fun _ => rfl) happens
          dsimp only [Ends]
          have reads : VersionTask.reading after.store (.getVersion fileId version) =
              found.map fun record => [fileVersion record] := by
            rw [same]
            rfl
          cases found with
          | none => exact .throw fun _ => ⟨_, rfl, .inr reads⟩
          | some record =>
              refine .pure (.pure ⟨List.forall_mem_singleton.mpr ?_, fun _ => ⟨_, rfl, reads⟩⟩)
              obtain ⟨_, here⟩ := Table.find?_eq_some_iff.mp same.symm
              obtain ⟨rfl, rfl⟩ := Prod.mk.inj here
              exact ⟨_, List.mem_singleton_self _, record, same.symm, rfl⟩
  | listVersions fileId =>
      unfold VersionTask.program VersionManager.listVersions
      refine .bind (.perform trivial fun before outcome after happens => ?_)
      cases outcome with
      | error failure => exact fun _ => ⟨_, rfl, .inl rfl⟩
      | ok found =>
          obtain ⟨same, rfl⟩ := eq_of_reads (fun _ => rfl) happens
          dsimp only [Ends]
          refine .pure ⟨fun version member => ?_, fun _ => ⟨_, rfl, ?_⟩⟩
          · obtain ⟨record, row, rfl⟩ := List.mem_map.mp member
            have listed : record ∈ after.store.listFileVersions fileId :=
              same ▸ mem_orderBy.mp row
            exact ⟨_, List.mem_singleton_self _, has_of_mem_listFileVersions listed⟩
          · exact congrArg (fun rows => some ((orderBy _ rows).map fileVersion)) same.symm

end Follows

/-! ## The interleavings -/

variable {origin : World} {moment : Moment system ι World}

/-- A version that is there after a call is there until a call deletes it. -/
theorem Has.lasts {version : FileVersion} {rule : List (Event system ι World) → ι → Call → Prop}
    (run : LawfulRun faulty rule origin moment) {earlier later : List (Event system ι World)}
    {event : Event system ι World} (split : moment.history = earlier ++ event :: later)
    (has : Has version event.after)
    (kept : ∀ other ∈ later, ¬ Deletes version.fileId version.version other) :
    Has version moment.state :=
  run.lasts (Has version) (Deletes version.fileId version.version)
    (fun _ _ _ _ _ _ _ happens kept has => has.step happens kept) split has kept

/-- What a task reads that reads versions. -/
theorem mem_reading {version : FileVersion} {call : VersionTask} {world : World}
    (asks : call = .getVersion version.fileId version.version ∨ call = .listVersions version.fileId)
    (has : Has version world) :
    ∃ versions, call.reading world.store = some versions ∧ version ∈ versions := by
  obtain ⟨record, found, same⟩ := has
  rcases asks with rfl | rfl
  · refine ⟨[fileVersion record], ?_, List.mem_singleton.mpr same.symm⟩
    rw [VersionTask.reading, found]
    rfl
  · refine ⟨_, rfl, List.mem_map.mpr ⟨record, mem_orderBy.mpr ?_, same⟩⟩
    obtain ⟨member, here⟩ := Table.find?_eq_some_iff.mp found
    exact Database.mem_listFileVersions.mpr ⟨member, (Prod.mk.inj here).1⟩

variable [DecidableEq ι] {calls : ι → VersionTask} {tasks : Pool system ι (List FileVersion)}

/-- How a reading stands to a version that another task has reported. -/
inductive Stands (version : FileVersion) (first second : ι)
    (history : List (Event system ι World)) (outcome : Except Failure (List FileVersion)) :
    Prop where
  /-- It reports the same version. -/
  | same (versions : List FileVersion) (resolved : outcome = .ok versions)
      (member : version ∈ versions)
  /-- Its call of the store failed. -/
  | failed (event : Event system ι World) (own : callsOf second history = [event])
      (fails : Except.isOk event.outcome = false)
  /-- It was made before the other one saw the version. -/
  | before (earlier between later : List (Event system ι World))
      (reading seeing : Event system ι World)
      (split : history = earlier ++ reading :: (between ++ seeing :: later))
      (reader : reading.task = second) (reporter : seeing.task = first)
  /-- The version was deleted in between. -/
  | deleted (earlier between later : List (Event system ι World))
      (seeing reading deletion : Event system ι World)
      (split : history = earlier ++ seeing :: (between ++ reading :: later))
      (reporter : seeing.task = first) (reader : reading.task = second)
      (member : deletion ∈ between) (deletes : Deletes version.fileId version.version deletion)

/-- Two versions are created one after the other, and the first one is read at last. -/
def createAndRead : Fin 3 → VersionTask
  | 0 => .createVersion notes [] "ada" 5
  | 1 => .createVersion notes [] "bob" 6
  | 2 => .getVersion notes 1

def created (schedule : List (Fin 3)) :
    Pool system (Fin 3) (List FileVersion) × Moment system (Fin 3) World :=
  Pool.runSchedule exec schedule (fun task => (createAndRead task).program,
    .start (World.ofFile notes))

theorem runs_created (schedule : List (Fin 3)) :
    PoolRuns faulty (fun task => (createAndRead task).program, .start (World.ofFile notes))
      ((created schedule).1, (created schedule).2) :=
  Pool.runs_runSchedule (fun _ _ => .inl rfl) schedule _

end DistributedFileStorage.Versioning
