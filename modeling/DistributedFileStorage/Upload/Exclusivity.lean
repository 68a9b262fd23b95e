import DistributedFileStorage.Async.Histories
import DistributedFileStorage.Async.OwnCalls
import DistributedFileStorage.Background.SessionCleanup

/-!
# Finalizations next to each other

Nothing makes the calls of `finalizeUpload` wait for each other, and several sessions may carry the
identifier of one file. What keeps the calls apart are the primary keys: a call that resolves has
inserted the row of the file, which happens once, and then its version 1
(`exclusive_finalization`). Any call of the store may fail.

The tables that a finalization reads, it does not write, up to the status of sessions
(`SameInputs`). So what is stored is what the session had at the start.
-/

set_option autoImplicit false

namespace DistributedFileStorage.Upload

open Async Store Services Relational

variable {ι : Type} {fileId : FileId}

/-! ## The statements of a finalization -/

/-- A call of `finalizeUpload`. -/
structure FinalizeCall where
  sessionId : SessionId
  now : Time

def FinalizeCall.program (call : FinalizeCall) : Async FileMetadata :=
  UploadManager.finalizeUpload call.sessionId call.now

/-- The statements of a finalization. -/
inductive FinalizeStatement : Call → Prop where
  | getUploadSession (sessionId : SessionId) :
      FinalizeStatement (.store (.getUploadSession sessionId))
  | getUploadedChunks (sessionId : SessionId) :
      FinalizeStatement (.store (.getUploadedChunks sessionId))
  | getChunk (chunkHash : ChunkHash) : FinalizeStatement (.store (.getChunk chunkHash))
  | createFile (file : FileRecord) : FinalizeStatement (.store (.createFile file))
  | createFileVersion (version : FileVersionRecord) (first : version.version = 1) :
      FinalizeStatement (.store (.createFileVersion version))
  | updateUploadSession (sessionId : SessionId) (status : SessionStatus) :
      FinalizeStatement (.store (.updateUploadSession sessionId status))

/-- The statement inserts a row of `files`. -/
def Files (file : FileRecord) (event : Event system ι World) : Prop :=
  event.op = .store (.createFile file) ∧ event.fails = false

/-- The statement inserts a row of `file_versions`. -/
def Versions (version : FileVersionRecord) (event : Event system ι World) : Prop :=
  event.op = .store (.createFileVersion version) ∧ event.fails = false

/-! ## What finalizations read -/

/-- The tables that finalizations read, with the sessions up to their status. -/
structure SameInputs (first second : Database) : Prop where
  chunks : second.chunks = first.chunks
  uploadedChunks : second.uploadedChunks = first.uploadedChunks
  sessions : ∀ sessionId,
    (second.getUploadSession sessionId).map (UploadSessionRecord.setStatus .active) =
      (first.getUploadSession sessionId).map (UploadSessionRecord.setStatus .active)

theorem SameInputs.refl (db : Database) : SameInputs db db := ⟨rfl, rfl, fun _ => rfl⟩

theorem SameInputs.trans {first second third : Database} (earlier : SameInputs first second)
    (later : SameInputs second third) : SameInputs first third :=
  ⟨later.chunks.trans earlier.chunks, later.uploadedChunks.trans earlier.uploadedChunks,
    fun sessionId => (later.sessions sessionId).trans (earlier.sessions sessionId)⟩

/-- A session that is found later was there at the start, up to its status. -/
theorem SameInputs.session {origin db : Database} (same : SameInputs origin db)
    {sessionId : SessionId} {session : UploadSessionRecord}
    (found : db.getUploadSession sessionId = some session) :
    ∃ first, origin.getUploadSession sessionId = some first ∧
      first.setStatus .active = session.setStatus .active := by
  have sessions := same.sessions sessionId
  rw [found, Option.map_some] at sessions
  exact Option.map_eq_some_iff.mp sessions.symm

theorem SameInputs.getUploadedChunks {origin db : Database} (same : SameInputs origin db)
    (sessionId : SessionId) :
    db.getUploadedChunks sessionId = origin.getUploadedChunks sessionId := by
  unfold Database.getUploadedChunks
  rw [same.uploadedChunks]

/-! ## What a statement of a finalization does -/

/-- The tables of files and versions after a statement. -/
inductive StoresUpload (before after : Database) : Prop where
  | neither (files : after.files = before.files)
      (versions : after.fileVersions = before.fileVersions)
  | file (row : FileRecord) (absent : row.fileId ∉ before.files.keys)
      (files : after.files = before.files.insertIfAbsent row)
      (versions : after.fileVersions = before.fileVersions)
  | version (row : FileVersionRecord) (first : row.version = 1)
      (absent : row.primaryKey ∉ before.fileVersions.keys) (files : after.files = before.files)
      (versions : after.fileVersions = before.fileVersions.insertIfAbsent row)

/-- **A finalization writes none of the tables it reads**, and inserts new files and new versions
with number 1. -/
theorem FinalizeStatement.effect {op : Call} (statement : FinalizeStatement op) (world : World) :
    SameInputs world.store (exec op world).2.store ∧
      StoresUpload world.store (exec op world).2.store := by
  have idle : SameInputs world.store world.store ∧ StoresUpload world.store world.store :=
    ⟨.refl _, .neither rfl rfl⟩
  cases statement with
  | getUploadSession sessionId => exact idle
  | getUploadedChunks sessionId => exact idle
  | getChunk chunkHash => exact idle
  | createFile file =>
      show SameInputs _ (world.commit (world.store.createFile file)).2.store ∧
        StoresUpload _ (world.commit (world.store.createFile file)).2.store
      cases created : world.store.createFile file with
      | error failure => exact idle
      | ok db =>
          obtain ⟨absent, _, _, rfl⟩ := Database.createFile_ok created
          exact ⟨⟨rfl, rfl, fun _ => rfl⟩, .file file absent rfl rfl⟩
  | createFileVersion version first =>
      show SameInputs _ (world.commit (world.store.createFileVersion version)).2.store ∧
        StoresUpload _ (world.commit (world.store.createFileVersion version)).2.store
      cases created : world.store.createFileVersion version with
      | error failure => exact idle
      | ok db =>
          obtain ⟨absent, _, rfl⟩ := Database.createFileVersion_ok created
          exact ⟨⟨rfl, rfl, fun _ => rfl⟩, .version
            { version with
              contentType := orNull version.contentType
              checksum := orNull version.checksum } first absent rfl rfl⟩
  | updateUploadSession sessionId status =>
      refine ⟨⟨rfl, rfl, fun other => ?_⟩, .neither rfl rfl⟩
      have updated :
          (world.store.updateUploadSession sessionId status).getUploadSession other = _ :=
        Database.getUploadSession_updateUploadSession status
      show ((world.store.updateUploadSession sessionId status).getUploadSession other).map _ = _
      rw [updated]
      split
      · rw [Option.map_map]
        rfl
      · rfl

namespace StoresUpload

variable {before after : Database}

theorem keeps_file (stores : StoresUpload before after) {file : FileRecord}
    (found : before.getFile fileId = some file) : after.getFile fileId = some file := by
  unfold Database.getFile at found ⊢
  cases stores with
  | neither files versions => rwa [files]
  | version row first absent files versions => rwa [files]
  | file row absent files versions =>
      rw [files, Table.find?_insertIfAbsent_of_ne]
      · exact found
      · rintro rfl
        exact absurd (found.symm.trans (Table.find?_eq_none_iff.mpr absent)) nofun

theorem keeps_version (stores : StoresUpload before after) {version : FileVersionRecord}
    (found : before.getFileVersion fileId 1 = some version) :
    after.getFileVersion fileId 1 = some version := by
  unfold Database.getFileVersion at found ⊢
  cases stores with
  | neither files versions => rwa [versions]
  | file row absent files versions => rwa [versions]
  | version row first absent files versions =>
      rw [versions, Table.find?_insertIfAbsent_of_ne]
      · exact found
      · intro same
        rw [same] at found
        exact absurd (found.symm.trans (Table.find?_eq_none_iff.mpr absent)) nofun

theorem first_versions (stores : StoresUpload before after)
    (first : ∀ version ∈ before.fileVersions.rows, version.fileId = fileId → version.version = 1) :
    ∀ version ∈ after.fileVersions.rows, version.fileId = fileId → version.version = 1 := by
  cases stores with
  | neither files versions => rwa [versions]
  | file row absent files versions => rwa [versions]
  | version row one absent files versions =>
      rw [versions]
      intro version member own
      rcases Table.mem_insertIfAbsent.mp member with old | ⟨_, rfl⟩
      · exact first version old own
      · exact one

end StoresUpload

/-! ## What a finalization stores -/

/-- The calls have read the inputs as they are in a database. -/
def Agrees (origin : Database) (calls : List (Event system ι World)) : Prop :=
  ∀ event ∈ calls, SameInputs origin event.before.store

/-- The size of the upload of a session. -/
def uploadSize (origin : Database) (sessionId : SessionId) : ℕ :=
  origin.totalSize ((origin.getUploadedChunks sessionId).map UploadedChunkRecord.chunkHash)

/-- The metadata of a finalization of a session. -/
def expectedMetadata (origin : Database) (call : FinalizeCall) (session : UploadSessionRecord) :
    FileMetadata :=
  UploadManager.fileMetadata session (uploadSize origin call.sessionId) call.now

/-- The version that a finalization of a session inserts. -/
def expectedVersion (origin : Database) (call : FinalizeCall) (session : UploadSessionRecord) :
    FileVersionRecord :=
  UploadManager.firstVersion session (origin.getUploadedChunks call.sessionId)
    (uploadSize origin call.sessionId) call.now

/-- The call has inserted the file and then the version, and these are what the session had. -/
structure Stores (origin : Database) (call : FinalizeCall) (metadata : FileMetadata)
    (calls : List (Event system ι World)) : Prop where
  filed : ∃ event ∈ calls, Files (UploadManager.fileRecord metadata) event
  versioned : ∃ version, (∃ event ∈ calls, Versions version event) ∧
    (Agrees origin calls → ∃ session, origin.getUploadSession call.sessionId = some session ∧
      metadata = expectedMetadata origin call session ∧
      version = expectedVersion origin call session)

variable {task : ι} {origin : Database}

theorem Agrees.last {calls : List (Event system ι World)} {event : Event system ι World}
    (agrees : Agrees origin (calls ++ [event])) : SameInputs origin event.before.store :=
  agrees event (List.mem_append_right _ (List.mem_singleton_self _))

section Follows

variable [DecidableEq ι]

/-- The rule of a statement that reads. -/
theorem follows_read {op : StoreOp} {value : World → op.Result}
    (reads : ∀ world, exec (.store op) world = (.ok (value world), world))
    (statement : FinalizeStatement (.store op)) {calls : List (Event system ι World)}
    {resolved : op.Result → List (Event system ι World) → Prop}
    (ends : ∀ event : Event system ι World, resolved (value event.before) (calls ++ [event])) :
    Follows faulty (fun _ _ => FinalizeStatement) task (store op) calls resolved
      fun _ => True := by
  refine .perform statement fun before outcome after happens => ?_
  rcases faulty_store_cases happens with works | ⟨⟨failure, rfl⟩, rfl⟩
  · rw [reads] at works
    obtain ⟨rfl, rfl⟩ := Prod.mk.inj works
    exact ends ⟨task, .store op, .ok (value before), before, before⟩
  · trivial

/-- The rule of a statement that inserts. -/
theorem follows_insert {op : Call} (statement : FinalizeStatement op)
    {calls : List (Event system ι World)}
    {resolved : op.Result → List (Event system ι World) → Prop}
    (ends : ∀ value, ∀ event : Event system ι World, event.op = op → event.fails = false →
      resolved value (calls ++ [event])) :
    Follows faulty (fun _ _ => FinalizeStatement) task (Program.perform (I := system) op) calls
      resolved fun _ => True := by
  refine .perform statement fun before outcome after _ => ?_
  cases outcome with
  | ok value => exact ends value ⟨task, op, .ok value, before, after⟩ rfl rfl
  | error failure => trivial

theorem follows_addChunkSize (totalSize : ℕ) (chunkHash : ChunkHash)
    (calls : List (Event system ι World)) :
    Follows faulty (fun _ _ => FinalizeStatement) task (addChunkSize totalSize chunkHash) calls
      (fun updated later => ∃ event : Event system ι World, later = calls ++ [event] ∧ updated =
        totalSize + ((event.before.store.getChunk chunkHash).map ChunkRecord.size).getD 0)
      fun _ => True := by
  refine .bind (follows_read (fun _ => rfl) (.getChunk chunkHash) fun event => ?_)
  cases found : event.before.store.getChunk chunkHash with
  | none => exact .pure ⟨event, rfl, by rw [found]; rfl⟩
  | some chunk => exact .pure ⟨event, rfl, by rw [found]; rfl⟩

/-- The loop over the sizes of the chunks. -/
theorem follows_computeTotalSize (origin : Database) (chunkHashes : List ChunkHash)
    (calls : List (Event system ι World)) :
    Follows faulty (fun _ _ => FinalizeStatement) task (computeTotalSize chunkHashes) calls
      (fun totalSize later => calls ⊆ later ∧
        (Agrees origin later → totalSize = origin.totalSize chunkHashes)) fun _ => True := by
  have start : calls ⊆ calls ∧ (Agrees origin calls →
      0 + origin.totalSize chunkHashes = origin.totalSize chunkHashes) :=
    ⟨fun _ => id, fun _ => Nat.zero_add _⟩
  refine (Follows.foldEach (fun totalSize rest later => calls ⊆ later ∧ (Agrees origin later →
    totalSize + origin.totalSize rest = origin.totalSize chunkHashes)) ?_ start).consequence ?_
      fun _ => id
  · rintro totalSize chunkHash rest later ⟨more, counted⟩
    refine (follows_addChunkSize totalSize chunkHash later).consequence ?_ fun _ => id
    rintro updated _ ⟨event, rfl, rfl⟩
    refine ⟨fun other member => List.mem_append_left _ (more member), fun agrees => ?_⟩
    rw [Database.getChunk, agrees.last.chunks, Nat.add_assoc]
    exact counted fun other member => agrees other (List.mem_append_left _ member)
  · rintro totalSize later ⟨more, counted⟩
    exact ⟨more, fun agrees => by simpa [Database.totalSize] using counted agrees⟩

/-- A finalization that has found its upload complete. -/
theorem follows_storeUpload (call : FinalizeCall) {session : UploadSessionRecord}
    {calls : List (Event system ι World)}
    (found : Agrees origin calls → ∃ first, origin.getUploadSession call.sessionId = some first ∧
      first.setStatus .active = session.setStatus .active) :
    Follows faulty (fun _ _ => FinalizeStatement) task
      (UploadManager.storeUpload session call.sessionId call.now) calls
      (fun metadata later => Stores origin call metadata later) fun _ => True := by
  refine .bind (follows_read (fun _ => rfl) (.getUploadedChunks call.sessionId) fun event => ?_)
  refine .bind ((follows_computeTotalSize origin _ _).consequence ?_ fun _ => id)
  rintro totalSize summed ⟨more, counted⟩
  refine .bind (follows_insert (.createFile _) fun _ filing isFile filed => ?_)
  refine .bind (follows_insert (.createFileVersion _ rfl) fun _ storing isVersion stored => ?_)
  refine .bind (follows_insert (.updateUploadSession _ _) fun _ _ _ _ => .pure ?_)
  refine ⟨⟨filing, by simp, isFile, filed⟩, _, ⟨storing, by simp, isVersion, stored⟩, ?_⟩
  intro agrees
  have early : Agrees origin summed := fun other member => agrees other (by simp [member])
  obtain ⟨first, present, same⟩ := found fun other member =>
    early other (more (List.mem_append_left _ member))
  have marks := (early event (more (List.mem_append_right _
    (List.mem_singleton_self _)))).getUploadedChunks call.sessionId
  have size : totalSize = uploadSize origin call.sessionId := by
    rw [counted early, marks]
    rfl
  have metadata : ∀ session : UploadSessionRecord, UploadManager.fileMetadata session totalSize
      call.now = UploadManager.fileMetadata (session.setStatus .active) totalSize call.now :=
    fun _ => rfl
  have version : ∀ (session : UploadSessionRecord) marks, UploadManager.firstVersion session marks
      totalSize call.now =
        UploadManager.firstVersion (session.setStatus .active) marks totalSize call.now :=
    fun _ _ => rfl
  refine ⟨first, present, ?_, ?_⟩
  · rw [expectedMetadata, ← size, metadata, metadata first, same]
  · rw [expectedVersion, ← size, ← marks, version, version first, same]

theorem follows_isUploadComplete (sessionId : SessionId) (calls : List (Event system ι World)) :
    Follows faulty (fun _ _ => FinalizeStatement) task (UploadManager.isUploadComplete sessionId)
      calls (fun _ later => calls ⊆ later) fun _ => True := by
  refine .bind (follows_read (fun _ => rfl) (.getUploadSession sessionId) fun event => ?_)
  cases event.before.store.getUploadSession sessionId with
  | none => exact .throw trivial
  | some session =>
      refine .bind (follows_read (fun _ => rfl) (.getUploadedChunks sessionId)
        fun listed => .pure ?_)
      exact fun other member => by simp [member]

/-- **A finalization that resolves has stored the upload of its session.** -/
theorem follows_finalizeUpload (origin : Database) (call : FinalizeCall) (task : ι) :
    Follows faulty (fun _ _ => FinalizeStatement) task call.program []
      (fun metadata later => Stores origin call metadata later) fun _ => True := by
  refine .bind (follows_read (fun _ => rfl) (.getUploadSession call.sessionId) fun event => ?_)
  cases found : event.before.store.getUploadSession call.sessionId with
  | none => exact .throw trivial
  | some session =>
      refine .bind ((follows_isUploadComplete call.sessionId _).consequence ?_ fun _ => id)
      intro isComplete later more
      cases isComplete with
      | false => exact .throw trivial
      | true =>
          refine follows_storeUpload call fun agrees => ?_
          exact (agrees event (more (List.mem_append_right _ (List.mem_singleton_self _)))).session
            found

end Follows

/-! ## The finalizations of one file -/

/-- A run of finalizations. -/
abbrev FinalizeRun (origin : World) (moment : Moment system ι World) : Prop :=
  LawfulRun faulty (fun _ _ => FinalizeStatement) origin moment

theorem FinalizeStatement.happens {op : Call} (statement : FinalizeStatement op)
    {before after : World} {outcome : system.Outcome op.Result}
    (happens : faulty op before outcome after) :
    SameInputs before.store after.store ∧ StoresUpload before.store after.store := by
  rcases happens with works | ⟨_, _, damage, rfl⟩
  · have effect := statement.effect before
    rwa [works] at effect
  · have same : (Call.faults.leaves op damage before).store = before.store :=
      Call.store_leaves op damage before
    rw [same]
    exact ⟨.refl _, .neither rfl rfl⟩

/-- A call that has not failed has done its work. -/
theorem works_of_happens {event : Event system ι World} (works : event.fails = false)
    (happens : faulty event.op event.before event.outcome event.after) :
    exec event.op event.before = (event.outcome, event.after) := by
  rcases happens with made | ⟨_, ⟨failure, failed⟩, _⟩
  · exact made
  · rw [Event.fails, failed] at works
    cases works

/-- A file that is inserted was not there before. -/
theorem Files.created {file : FileRecord} {event : Event system ι World} (files : Files file event)
    (happens : faulty event.op event.before event.outcome event.after) :
    ¬ file.fileId ∈ event.before.store.files.keys ∧
      event.after.store.getFile file.fileId = some file := by
  have made := works_of_happens files.2 happens
  obtain ⟨task, op, outcome, before, after⟩ := event
  obtain ⟨rfl, works⟩ := files
  dsimp only at made
  rcases World.commit_cases made with ⟨failure, _, rfl, _⟩ | ⟨db, created, _, rfl⟩
  · cases works
  · obtain ⟨absent, _, _, rfl⟩ := Database.createFile_ok created
    exact ⟨absent, Table.find?_insertIfAbsent_self absent⟩

theorem Versions.created {version : FileVersionRecord} {event : Event system ι World}
    (versions : Versions version event)
    (happens : faulty event.op event.before event.outcome event.after) :
    event.after.store.fileVersions.find? version.primaryKey = some
      { version with
        contentType := orNull version.contentType
        checksum := orNull version.checksum } := by
  have made := works_of_happens versions.2 happens
  obtain ⟨task, op, outcome, before, after⟩ := event
  obtain ⟨rfl, works⟩ := versions
  dsimp only at made
  rcases World.commit_cases made with ⟨failure, _, rfl, _⟩ | ⟨db, created, _, rfl⟩
  · cases works
  · exact (Database.find?_createFileVersion created).2

namespace FinalizeRun

variable {world : World} {moment : Moment system ι World}

/-- Every statement reads the inputs as they were at the start. -/
theorem agrees (run : FinalizeRun world moment) : Agrees world.store moment.history := by
  intro event member
  obtain ⟨before, earlierRun, _, state, _⟩ := run.exists_prior member
  rw [← state]
  refine earlierRun.invariant (fun reached => SameInputs world.store reached.store) (.refl _) ?_
  exact fun _ _ op _ _ _ statement happens same => same.trans (statement.happens happens).1

/-- The row of a file is inserted once. -/
theorem files_once (run : FinalizeRun world moment) {first second : Event system ι World}
    {fileFirst fileSecond : FileRecord} (same : fileFirst.fileId = fileSecond.fileId)
    (memberFirst : first ∈ moment.history) (filesFirst : Files fileFirst first)
    (memberSecond : second ∈ moment.history) (filesSecond : Files fileSecond second) :
    first = second := by
  refine run.once (fun reached => fileFirst.fileId ∈ reached.store.files.keys)
    (fun event => ∃ file : FileRecord, file.fileId = fileFirst.fileId ∧ Files file event) ?keeps
    ?brings memberFirst ⟨fileFirst, rfl, filesFirst⟩ memberSecond
      ⟨fileSecond, same.symm, filesSecond⟩
  case keeps =>
    intro _ _ op before _ after statement happens present
    obtain ⟨file, found⟩ := Option.isSome_iff_exists.mp (Table.isSome_find?_iff.mpr present)
    have kept := (statement.happens happens).2.keeps_file found
    exact Table.isSome_find?_iff.mp (Option.isSome_of_eq_some kept)
  case brings =>
    rintro event ⟨file, key, files⟩ happens
    obtain ⟨absent, found⟩ := files.created happens
    rw [← key]
    exact ⟨absent, Table.isSome_find?_iff.mp (Option.isSome_of_eq_some found)⟩

/-- A row that was inserted is still there. -/
theorem getFile_of_files (run : FinalizeRun world moment) {event : Event system ι World}
    {file : FileRecord} (member : event ∈ moment.history) (files : Files file event) :
    moment.state.store.getFile file.fileId = some file := by
  have happens := run.happens_of_mem member
  refine run.stays (fun reached => reached.store.getFile file.fileId = some file) ?_ member
    (files.created happens).2
  exact fun _ _ _ _ _ _ statement happens => (statement.happens happens).2.keeps_file

theorem getFileVersion_of_versions (run : FinalizeRun world moment) {event : Event system ι World}
    {version : FileVersionRecord} (first : version.version = 1) (member : event ∈ moment.history)
    (versions : Versions version event) :
    moment.state.store.getFileVersion version.fileId 1 = some
      { version with
        contentType := orNull version.contentType
        checksum := orNull version.checksum } := by
  have happens := run.happens_of_mem member
  have found := versions.created happens
  have key : version.primaryKey = (version.fileId, 1) := by rw [FileVersionRecord.primaryKey, first]
  rw [key] at found
  refine run.stays (fun reached => reached.store.fileVersions.find? (version.fileId, 1) = some
    { version with
      contentType := orNull version.contentType
      checksum := orNull version.checksum }) ?_ member found
  exact fun _ _ _ _ _ _ statement happens => (statement.happens happens).2.keeps_version

/-- A file that was not there at the start has no version but version 1. -/
theorem version_eq_one (run : FinalizeRun world moment) (absent : fileId ∉ world.store.files.keys) :
    ∀ version ∈ moment.state.store.fileVersions.rows, version.fileId = fileId →
      version.version = 1 := by
  refine run.invariant (fun reached => ∀ version ∈ reached.store.fileVersions.rows,
    version.fileId = fileId → version.version = 1) (fun version member own => ?_) ?_
  · exact absurd (own ▸ world.store.versionFile version member) absent
  · exact fun _ _ _ _ _ _ statement happens => (statement.happens happens).2.first_versions

end FinalizeRun

/-- **Finalizations next to each other.** For a file that is not there at the start, one call at
most resolves, there is one row at most in `files` and in `file_versions`, and when a call resolved
these rows are what its session had: the owner, the size and the hashes. -/
theorem exclusive_finalization [DecidableEq ι] (calls : ι → FinalizeCall) {world : World}
    (absent : fileId ∉ world.store.files.keys) {after : Pool system ι FileMetadata}
    {reached : Moment system ι World}
    (run : PoolRuns faulty (fun task => (calls task).program, .start world) (after, reached)) :
    (∀ first second metadata other, after first = .done (.ok metadata) →
      after second = .done (.ok other) → metadata.fileId = fileId → other.fileId = fileId →
        first = second) ∧
    (∀ first ∈ reached.state.store.files.rows, ∀ second ∈ reached.state.store.files.rows,
      first.fileId = fileId → second.fileId = fileId → first = second) ∧
    (∀ first ∈ reached.state.store.fileVersions.rows,
      ∀ second ∈ reached.state.store.fileVersions.rows,
        first.fileId = fileId → second.fileId = fileId → first = second) ∧
    ∀ task metadata, after task = .done (.ok metadata) → metadata.fileId = fileId →
      ∃ session, world.store.getUploadSession (calls task).sessionId = some session ∧
        session.fileId = fileId ∧
        reached.state.store.getFile fileId = some
          (UploadManager.fileRecord (expectedMetadata world.store (calls task) session)) ∧
        ∀ version, version ∈ reached.state.store.fileVersions.rows ∧ version.fileId = fileId ↔
          version = expectedVersion world.store (calls task) session := by
  obtain ⟨lawful, ends⟩ := Pool.follows
    (fun task => follows_finalizeUpload world.store (calls task) task) run
  have history : FinalizeRun world reached := lawful
  have one : ∀ first ∈ reached.state.store.fileVersions.rows,
      ∀ second ∈ reached.state.store.fileVersions.rows,
        first.fileId = fileId → second.fileId = fileId → first = second := by
    intro first memberFirst second memberSecond ownFirst ownSecond
    refine Table.eq_of_key_eq memberFirst memberSecond (Prod.ext (ownFirst.trans ownSecond.symm) ?_)
    exact (history.version_eq_one absent first memberFirst ownFirst).trans
      (history.version_eq_one absent second memberSecond ownSecond).symm
  refine ⟨?_, ?_, one, ?_⟩
  · intro first second metadata other settledFirst settledSecond ownFirst ownSecond
    obtain ⟨⟨filing, member, files⟩, _⟩ := ends first _ settledFirst
    obtain ⟨⟨otherFiling, otherMember, otherFiles⟩, _⟩ := ends second _ settledSecond
    obtain ⟨made, own⟩ := mem_callsOf.mp member
    obtain ⟨otherMade, otherOwn⟩ := mem_callsOf.mp otherMember
    have same := history.files_once (ownFirst.trans ownSecond.symm) made files otherMade otherFiles
    rw [← own, ← otherOwn, same]
  · exact fun first memberFirst second memberSecond ownFirst ownSecond =>
      Table.eq_of_key_eq memberFirst memberSecond (ownFirst.trans ownSecond.symm)
  · intro task metadata settled own
    obtain ⟨⟨filing, member, files⟩, version, ⟨storing, storingMember, versions⟩, read⟩ :=
      ends task _ settled
    obtain ⟨session, found, rfl, rfl⟩ := read fun event here =>
      history.agrees event (mem_callsOf.mp here).1
    have file := history.getFile_of_files (mem_callsOf.mp member).1 files
    have stored := history.getFileVersion_of_versions rfl (mem_callsOf.mp storingMember).1 versions
    have member := (Table.find?_eq_some_iff.mp stored).1
    refine ⟨session, found, own, own ▸ file, fun version => ⟨fun here => ?_, ?_⟩⟩
    · exact one version here.1 _ member here.2 own
    · rintro rfl
      exact ⟨member, own⟩

/-- Another session. -/
def competingUpload : SessionId := 0x5D41402ABC4B4A76B9719D911017C592

/-- Two sessions for one file, each with its chunk. -/
def twoUploads : World :=
  ((do
      let _ ← UploadManager.createSession upload notes "notes.txt" 1 "ada" 0
      let _ ← UploadManager.createSession competingUpload notes "notes.txt" 1 "bob" 0
      UploadManager.markChunkUploaded upload 0 "aa" 1 1
      UploadManager.markChunkUploaded competingUpload 0 "bb" 1 1 : Async Unit).run exec
    (.ofStore .empty)).2

/-- The finalizations of the two sessions. -/
def competingCalls : ℕ → FinalizeCall
  | 0 => ⟨upload, 2⟩
  | _ => ⟨competingUpload, 2⟩

/-- The two finalizations make their calls in turn. -/
def competingRun : Pool system ℕ FileMetadata × Moment system ℕ World :=
  Pool.runSchedule exec [0, 1, 0, 1, 0, 1, 0, 1, 0, 1, 0, 1, 0, 0]
    (fun task => (competingCalls task).program, .start twoUploads)

/-- The call that inserts the file first stores its upload. -/
theorem exclusive_finalization_competing :
    ∃ session, twoUploads.store.getUploadSession upload = some session ∧
      competingRun.2.state.store.getFile notes = some
        (UploadManager.fileRecord (expectedMetadata twoUploads.store ⟨upload, 2⟩ session)) := by
  have run : PoolRuns faulty (fun task => (competingCalls task).program, .start twoUploads)
      (competingRun.1, competingRun.2) := Pool.runs_runSchedule (fun _ _ => .inl rfl) _ _
  have exclusive := exclusive_finalization competingCalls (by decide : notes ∉ _) run
  obtain ⟨session, found, _, file, _⟩ := exclusive.2.2.2 0 _ rfl rfl
  exact ⟨session, found, file⟩

end DistributedFileStorage.Upload
