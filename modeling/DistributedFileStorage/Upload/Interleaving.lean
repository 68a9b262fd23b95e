import DistributedFileStorage.Upload.FirstMarks

/-!
# Calls on one upload session next to each other

Any number of `markChunkUploaded`, `isUploadComplete` and `finalizeUpload` calls run on one
session, and their statements interleave. Any statement may fail.

An `isUploadComplete` answers for the moment at which it reads the marks. A
`finalizeUpload` reads the marks twice while other calls go on marking, and still stores
the first mark of every sequence number, whatever the order of the marks, their duplicates
and conflicting hashes that come later (`interleaved_uploads`).
-/

set_option autoImplicit false

namespace DistributedFileStorage.Upload

open Async Store Services Relational

/-! ## The calls -/

/-- A call on one upload session. -/
inductive SessionCall where
  | markChunkUploaded (sequenceNumber : ℤ) (chunkHash : ChunkHash) (now uploadedAt : Time)
  | isUploadComplete
  | finalizeUpload (now : Time)

/-- What a call on a session resolves to. -/
inductive SessionAnswer where
  | marked
  | complete (isComplete : Bool)
  | finalized (metadata : FileMetadata)
  deriving DecidableEq

def SessionCall.program (sessionId : SessionId) : SessionCall → Async SessionAnswer
  | .markChunkUploaded sequenceNumber chunkHash now uploadedAt => do
      UploadManager.markChunkUploaded sessionId sequenceNumber chunkHash now uploadedAt
      pure .marked
  | .isUploadComplete => do
      let isComplete ← UploadManager.isUploadComplete sessionId
      pure (.complete isComplete)
  | .finalizeUpload now => do
      let metadata ← UploadManager.finalizeUpload sessionId now
      pure (.finalized metadata)

/-! ## Statements -/

variable {ι : Type} {session : UploadSessionRecord} {task : ι} {moment : Moment system ι World}

/-- A statement that reads resolves to what it reads. -/
theorem meets_read {op : StoreOp} {value : World → op.Result}
    (reads : ∀ world, exec (.store op) world = (.ok (value world), world))
    (unmarking : ∀ chunk, op ≠ .markChunkUploaded chunk) :
    Meets faulty (Evolves session) task (store op) moment
      (fun result later => ∃ before, Evolves session moment before ∧
        Evolves session before later ∧ result = value before.state ∧ later.state = before.state ∧
        (⟨task, .store op, .ok result, before.state, before.state⟩ : Event system ι World) ∈
          later.history)
      (fun _ => True) := by
  refine .perform ?_
  intro before evolved outcome after happens
  have quiet : ∀ world, Quiet session.sessionId world (exec (.store op) world).2 := by
    intro world
    rw [reads]
    exact .refl _ _
  have stays : Evolves session before (before.next task (.store op) outcome after) :=
    evolves_call unmarking quiet happens
  refine ⟨stays, ?_⟩
  rcases faulty_store_cases happens with works | ⟨⟨failure, rfl⟩, rfl⟩
  · rw [reads] at works
    obtain ⟨rfl, rfl⟩ := Prod.mk.inj works
    exact ⟨before, evolved, stays, rfl, rfl, List.mem_append_right _ (List.mem_singleton_self _)⟩
  · trivial

/-- A statement that makes a quiet change. -/
theorem meets_quiet {op : StoreOp} (unmarking : ∀ chunk, op ≠ .markChunkUploaded chunk)
    (quiet : ∀ world, Quiet session.sessionId world (exec (.store op) world).2) :
    Meets faulty (Evolves session) task (store op) moment
      (fun _ later => Evolves session moment later) (fun _ => True) := by
  refine .perform ?_
  intro before evolved outcome after happens
  have stays : Evolves session before (before.next task (.store op) outcome after) :=
    evolves_call unmarking quiet happens
  refine ⟨stays, ?_⟩
  cases outcome with
  | ok value => exact evolved.trans stays
  | error failure => trivial

theorem quiet_createFile (file : FileRecord) (world : World) :
    Quiet session.sessionId world (exec (.store (.createFile file)) world).2 := by
  show Quiet _ world (world.commit (world.store.createFile file)).2
  cases created : world.store.createFile file with
  | error failure => exact .refl _ _
  | ok stored =>
      obtain ⟨_, _, _, rfl⟩ := Database.createFile_ok created
      exact ⟨rfl, fun current found => ⟨current, found, rfl, rfl⟩, fun _ _ => id⟩

theorem quiet_updateUploadSession (status : SessionStatus) (world : World) :
    Quiet session.sessionId world
      (exec (.store (.updateUploadSession session.sessionId status)) world).2 := by
  refine ⟨rfl, fun current found => ⟨current.setStatus status, ?_, rfl, rfl⟩, fun _ _ => id⟩
  have updated : (world.store.uploadSessions.update session.sessionId (.setStatus status)
      (UploadSessionRecord.sessionId_setStatus status)).find? session.sessionId =
        (world.store.uploadSessions.find? session.sessionId).map (.setStatus status) :=
    Table.find?_update_self
  exact updated.trans (congrArg (Option.map _) found)

theorem quiet_createFileVersion (version : FileVersionRecord) (world : World) :
    Quiet session.sessionId world (exec (.store (.createFileVersion version)) world).2 := by
  show Quiet _ world (world.commit (world.store.createFileVersion version)).2
  cases created : world.store.createFileVersion version with
  | error failure => exact .refl _ _
  | ok stored =>
      obtain ⟨absent, _, rfl⟩ := Database.createFileVersion_ok created
      refine ⟨rfl, fun current found => ⟨current, found, rfl, rfl⟩, fun key row found => ?_⟩
      have different : key ≠ version.primaryKey := by
        rintro rfl
        rw [Table.find?_eq_none_iff.mpr absent] at found
        cases found
      show (Table.insertIfAbsent _ _).find? key = some row
      rw [Table.find?_insertIfAbsent_of_ne]
      · exact found
      · exact different

/-! ## The calls of the upload manager -/

theorem meets_markChunkUploaded (tracks : Tracks session moment) (sequenceNumber : ℤ)
    (chunkHash : ChunkHash) (now uploadedAt : Time) :
    Meets faulty (Evolves session) task
      (UploadManager.markChunkUploaded session.sessionId sequenceNumber chunkHash now uploadedAt)
      moment (fun _ _ => True) (fun _ => True) := by
  refine .bind ((meets_read (fun world => rfl) (by simp)).consequence ?_ fun _ => id)
  rintro _ looked ⟨before, evolved, _, rfl, _, _⟩
  obtain ⟨current, found, chunks, _⟩ := (evolved.tracks tracks).row
  rw [found]
  dsimp only
  split
  · trivial
  · split
    · trivial
    · split
      · trivial
      · rename_i inside
        push Not at inside
        rw [chunks] at inside
        refine .perform ?_
        intro middle _ outcome after happens
        refine ⟨evolves_mark rfl inside.1 inside.2 happens, ?_⟩
        cases outcome <;> trivial

/-- The task has read the marks, and its answer is whether all were there. -/
def Answers (session : UploadSessionRecord) (task : ι) (isComplete : Bool)
    (history : List (Event system ι World)) : Prop :=
  ∃ event ∈ history, event.task = task ∧
    event.op = .store (.getUploadedChunks session.sessionId) ∧
    (isComplete = true ↔ AllMarked session event.before)

theorem meets_isUploadComplete (tracks : Tracks session moment)
    (nonneg : 0 ≤ session.totalChunks) :
    Meets faulty (Evolves session) task (UploadManager.isUploadComplete session.sessionId) moment
      (fun isComplete later => Evolves session moment later ∧
        Answers session task isComplete later.history ∧
        (isComplete = true → AllMarked session later.state))
      (fun _ => True) := by
  refine .bind ((meets_read (fun world => rfl) (by simp)).consequence ?_ fun _ => id)
  rintro _ looked ⟨before, evolved, toLooked, rfl, _, _⟩
  have tracksBefore := evolved.tracks tracks
  obtain ⟨current, found, chunks, _⟩ := tracksBefore.row
  rw [found]
  refine .bind ((meets_read (fun world => rfl) (by simp)).consequence ?_ fun _ => id)
  rintro _ later ⟨read, toRead, toLater, rfl, same, recorded⟩
  have counted := (toRead.tracks (toLooked.tracks tracksBefore)).length_eq_iff nonneg
  rw [← chunks] at counted
  refine ⟨evolved.trans (toLooked.trans (toRead.trans toLater)), ?_, ?_⟩
  · refine ⟨_, recorded, rfl, rfl, ?_⟩
    rw [decide_eq_true_eq]
    exact counted
  · intro complete
    rw [same]
    exact counted.mp (decide_eq_true_eq.mp complete)

/-- The task has created version 1 of the file of the session, with the first marks as its
chunks, and the version is still there. -/
def Finalized (session : UploadSessionRecord) (task : ι) (moment : Moment system ι World) :
    Prop :=
  ∃ version : FileVersionRecord, FirstMarks session moment.history version.chunkHashes ∧
    moment.state.store.getFileVersion session.fileId 1 = some version ∧
    ∃ event ∈ moment.history, event.task = task ∧
      event.before.store.getFileVersion session.fileId 1 = none ∧
      event.after.store.getFileVersion session.fileId 1 = some version

theorem FirstMarks.mono {chunkHashes : List ChunkHash} {later : Moment system ι World}
    (marks : FirstMarks session moment.history chunkHashes)
    (evolves : Evolves session moment later) : FirstMarks session later.history chunkHashes where
  length := marks.length
  hashes index below := by
    have present := marks.hashes index below
    rw [List.getElem?_eq_getElem below] at present ⊢
    exact (evolves.keeps_firstMark present.symm).symm

theorem Finalized.mono {later : Moment system ι World} (finalized : Finalized session task moment)
    (evolves : Evolves session moment later) : Finalized session task later := by
  obtain ⟨version, marks, stored, event, member, created⟩ := finalized
  exact ⟨version, marks.mono evolves, evolves.versions _ _ stored, event,
    evolves.history.subset member, created⟩

/-- The statement that creates version 1. -/
theorem meets_createFileVersion {version : FileVersionRecord}
    (key : version.primaryKey = (session.fileId, 1))
    (marks : FirstMarks session moment.history version.chunkHashes) :
    Meets faulty (Evolves session) task (store (.createFileVersion version)) moment
      (fun _ later => Finalized session task later) (fun _ => True) := by
  refine .perform ?_
  intro before evolved outcome after happens
  have stays : Evolves session before
      (before.next task (.store (.createFileVersion version)) outcome after) :=
    evolves_call (by simp) (quiet_createFileVersion version) happens
  refine ⟨stays, ?_⟩
  cases outcome with
  | error failure => trivial
  | ok done =>
      rcases happens with works | ⟨_, ⟨failure, failed⟩, _⟩
      swap
      · cases failed
      rcases World.commit_cases works with ⟨failure, _, rejected, _⟩ | ⟨stored, created, _, rfl⟩
      · cases rejected
      · obtain ⟨absent, inserted⟩ := Database.find?_createFileVersion created
        rw [key] at absent inserted
        refine ⟨_, ?_, inserted, _, List.mem_append_right _ (List.mem_singleton_self _), rfl,
          absent, inserted⟩
        exact (marks.mono evolved).mono stays

theorem meets_computeTotalSize (chunkHashes : List ChunkHash) :
    Meets faulty (Evolves session) task (computeTotalSize chunkHashes) moment
      (fun _ later => Evolves session moment later) (fun _ => True) := by
  refine .foldEach (fun _ _ => Evolves session moment)
    (fun totalSize chunkHash _ now evolved => ?_) (.refl moment)
  refine .bind ((meets_read (fun world => rfl) (by simp)).consequence ?_ fun _ => id)
  rintro chunk later ⟨before, toBefore, toLater, _⟩
  have kept := evolved.trans (toBefore.trans toLater)
  cases chunk with
  | none => exact kept
  | some record => exact kept

/-- The session has all its marks, and whoever stores the upload now stores the first
ones. -/
theorem meets_storeUpload (tracks : Tracks session moment) (nonneg : 0 ≤ session.totalChunks)
    (all : AllMarked session moment.state) {current : UploadSessionRecord}
    (sameFile : current.fileId = session.fileId) (now : Time) :
    Meets faulty (Evolves session) task
      (UploadManager.storeUpload current session.sessionId now) moment
      (fun _ later => Finalized session task later) (fun _ => True) := by
  refine .bind ((meets_read (fun world => rfl) (by simp)).consequence ?_ fun _ => id)
  rintro _ listed ⟨before, evolved, toListed, rfl, _, _⟩
  have marks := (evolved.tracks tracks).firstMarks_orderedHashes nonneg (all.mono tracks evolved)
  refine .bind ((meets_computeTotalSize _).consequence ?_ fun _ => id)
  intro totalSize summed toSummed
  refine .bind ((meets_quiet (by simp) (quiet_createFile _)).consequence ?_ fun _ => id)
  intro _ filed toFiled
  have still := marks.mono (toListed.trans (toSummed.trans toFiled))
  have key : (UploadManager.firstVersion current
      (before.state.store.getUploadedChunks session.sessionId) totalSize now).primaryKey =
        (session.fileId, 1) := Prod.ext sameFile rfl
  refine .bind ((meets_createFileVersion key still).consequence ?_ fun _ => id)
  intro _ versioned finalized
  refine .bind ((meets_quiet (by simp) (quiet_updateUploadSession _)).consequence ?_ fun _ => id)
  exact fun _ completed toCompleted => finalized.mono toCompleted

theorem meets_finalizeUpload (tracks : Tracks session moment) (nonneg : 0 ≤ session.totalChunks)
    (now : Time) :
    Meets faulty (Evolves session) task (UploadManager.finalizeUpload session.sessionId now) moment
      (fun _ later => Finalized session task later) (fun _ => True) := by
  refine .bind ((meets_read (fun world => rfl) (by simp)).consequence ?_ fun _ => id)
  rintro _ looked ⟨before, evolved, toLooked, rfl, _, _⟩
  have tracksBefore := evolved.tracks tracks
  obtain ⟨current, found, _, sameFile⟩ := tracksBefore.row
  have tracksLooked := toLooked.tracks tracksBefore
  rw [found]
  refine .bind ((meets_isUploadComplete tracksLooked nonneg).consequence ?_ fun _ => id)
  rintro isComplete counted ⟨toCounted, _, all⟩
  cases isComplete with
  | false => trivial
  | true => exact meets_storeUpload (toCounted.tracks tracksLooked) nonneg (all rfl) sameFile now

/-! ## The interleavings -/

/-- What holds when a call on the session has resolved. -/
def Resolved (session : UploadSessionRecord) (task : ι) :
    SessionAnswer → Moment system ι World → Prop
  | .marked, _ => True
  | .complete isComplete, moment => Answers session task isComplete moment.history
  | .finalized _, moment => Finalized session task moment

theorem meets_program (tracks : Tracks session moment) (nonneg : 0 ≤ session.totalChunks)
    (call : SessionCall) :
    Meets faulty (Evolves session) task (call.program session.sessionId) moment
      (Resolved session task) (fun _ => True) := by
  cases call with
  | markChunkUploaded sequenceNumber chunkHash now uploadedAt =>
      exact .bind (meets_markChunkUploaded tracks sequenceNumber chunkHash now uploadedAt)
  | isUploadComplete =>
      refine .bind ((meets_isUploadComplete tracks nonneg).consequence ?_ fun _ => id)
      exact fun isComplete later answers => answers.2.1
  | finalizeUpload now => exact .bind (meets_finalizeUpload tracks nonneg now)

/-- The rows of a session without a mark are what the empty history says. -/
theorem tracks_start {world : World}
    (found : world.store.getUploadSession session.sessionId = some session)
    (unmarked : world.store.getUploadedChunks session.sessionId = []) :
    Tracks session (Moment.start world : Moment system ι World) := by
  have absent : ∀ chunk ∈ world.store.uploadedChunks.rows, chunk.sessionId ≠ session.sessionId := by
    intro chunk stored own
    have listed := mem_getUploadedChunks.mpr ⟨stored, own⟩
    rw [unmarked] at listed
    cases listed
  refine ⟨⟨session, found, rfl, rfl⟩, fun sequenceNumber => ?_, ?_⟩
  · have missing : (session.sessionId, sequenceNumber) ∉ world.store.uploadedChunks.keys := by
      intro present
      obtain ⟨chunk, stored, same⟩ := Table.mem_keys.mp present
      exact absent chunk stored (Prod.mk.inj same).1
    show (world.store.uploadedChunks.find? (session.sessionId, sequenceNumber)).map _ = none
    rw [Table.find?_eq_none_iff.mpr missing]
    rfl
  · exact fun chunk stored own => absurd own (absent chunk stored)

/-- **Calls on one session next to each other.** In every run of any calls on a session
that starts without marks: an `isUploadComplete` that has resolved said whether every
sequence number had a mark when it read the rows, and a `finalizeUpload` that has resolved
has created version 1, whose chunks are as many as the session has and are the first marks
recorded for the sequence numbers. -/
theorem interleaved_uploads [DecidableEq ι] (calls : ι → SessionCall)
    (session : UploadSessionRecord) (world : World)
    (found : world.store.getUploadSession session.sessionId = some session)
    (nonneg : 0 ≤ session.totalChunks)
    (unmarked : world.store.getUploadedChunks session.sessionId = [])
    {tasks : Pool system ι SessionAnswer} {reached : Moment system ι World}
    (run : PoolRuns faulty (fun task => (calls task).program session.sessionId, .start world)
      (tasks, reached)) :
    (∀ task isComplete, tasks task = .done (.ok (.complete isComplete)) →
        Answers session task isComplete reached.history) ∧
      ∀ task metadata, tasks task = .done (.ok (.finalized metadata)) →
        Finalized session task reached := by
  have tracks : Tracks session (Moment.start world : Moment system ι World) :=
    tracks_start found unmarked
  have settles : ∀ task answer, tasks task = .done (.ok answer) →
      ∃ moment, Evolves session moment reached ∧ Resolved session task answer moment := by
    intro task answer settled
    obtain ⟨moment, _, evolves, ends⟩ := Pool.settles Evolves.refl (fun _ _ _ => Evolves.trans)
      (fun task => meets_program tracks nonneg (calls task)) run settled
    exact ⟨moment, evolves, ends⟩
  constructor
  · intro task isComplete settled
    obtain ⟨moment, evolves, event, member, answers⟩ := settles task _ settled
    exact ⟨event, evolves.history.subset member, answers⟩
  · intro task metadata settled
    obtain ⟨moment, evolves, finalized⟩ := settles task _ settled
    exact Finalized.mono finalized evolves

/-! ## Two marks for one chunk -/

/-- A session with two chunks. -/
def twoChunks : UploadSessionRecord :=
  { sessionId := upload, fileId := notes, fileName := "notes.txt", totalChunks := 2,
    userId := "ada", createdAt := 0, expiresAt := 7, status := .active }

/-- Two calls mark chunk 0 with different hashes, next to a mark of chunk 1, a question and
a finalization. -/
def conflictingCalls : ℕ → SessionCall
  | 0 => .markChunkUploaded 1 "bb" 1 1
  | 1 => .markChunkUploaded 0 "aa" 1 1
  | 2 => .markChunkUploaded 0 "cc" 1 1
  | 3 => .finalizeUpload 2
  | _ => .isUploadComplete

/-- The calls look up the session together, then the marks are made, and the finalization
has begun before the last of them. -/
def conflictingRun : Pool system ℕ SessionAnswer × Moment system ℕ World :=
  Pool.runSchedule exec [0, 1, 2, 3, 4, 0, 3, 1, 4, 3, 2, 3, 3, 3, 3, 3, 3]
    (fun task => (conflictingCalls task).program twoChunks.sessionId,
      .start (.ofStore
        { Database.empty with
          uploadSessions := (Table.empty _).insertIfAbsent twoChunks
          uploadedSession := by simp [Database.empty] }))

/-- The finalization stores the first of the conflicting marks. -/
theorem interleaved_uploads_conflicting :
    Answers twoChunks 4 true conflictingRun.2.history ∧ Finalized twoChunks 3 conflictingRun.2 ∧
      (conflictingRun.2.state.store.getFileVersion notes 1).map FileVersionRecord.chunkHashes =
        some ["aa", "bb"] := by
  have uploads := interleaved_uploads conflictingCalls twoChunks _ (by decide) (by decide)
    (by decide) (Pool.runs_runSchedule (fun _ _ => .inl rfl) _ _ :
      PoolRuns faulty _ (conflictingRun.1, conflictingRun.2))
  exact ⟨uploads.1 4 true rfl, uploads.2 3 _ rfl, by decide⟩

end DistributedFileStorage.Upload
