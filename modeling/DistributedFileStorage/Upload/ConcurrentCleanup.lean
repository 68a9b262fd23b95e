import DistributedFileStorage.Async.Interference
import DistributedFileStorage.Background.SessionCleanup
import DistributedFileStorage.Upload.Interleaving

/-!
# A finalization next to a cleanup

A finalization counts the marks of its session and then reads them again for the version. A
cleanup may delete the session in between, and the cascade takes the marks with it. The
finalization then stores a version without a chunk, and resolves.

Nothing else can go wrong: a session keeps all its marks until its row is gone. So the version
that a finalization stores is whole if and only if the row of the session was there each time
the finalization read the marks, or the session has no chunks (`finalizeUpload_whole_iff`).
-/

set_option autoImplicit false

namespace DistributedFileStorage.Upload

open Async Store Services Background Relational

/-! ## The tasks -/

inductive UploadTask where
  | finalizeUpload
  | cleanupExpiredSessions
  deriving DecidableEq

/-- One finalization at `now`, and one cleanup of what has expired at `expiryDate`. -/
def cleanupTasks (cleaner : Cleaner) (sessionId : SessionId) (now expiryDate : Time) :
    Pool system UploadTask (Option FileMetadata)
  | .finalizeUpload => do
      let metadata ← UploadManager.finalizeUpload sessionId now
      pure (some metadata)
  | .cleanupExpiredSessions => do
      cleaner.cleanupExpiredSessions expiryDate
      pure none

/-- Version 1 of the file of the session is new, has as many chunks as the session, and has the
size of all of them. -/
def StoredWhole (session : UploadSessionRecord) (origin world : World) : Prop :=
  ∃ version, origin.store.getFileVersion session.fileId 1 = none ∧
    world.store.getFileVersion session.fileId 1 = some version ∧
    (version.chunkHashes.length : ℤ) = session.totalChunks ∧
    version.size = world.store.totalSize version.chunkHashes

/-- The row of the session was there each time the finalization read the marks. -/
def FindsSession (sessionId : SessionId) (history : List (Event system UploadTask World)) : Prop :=
  ∀ event ∈ history, event.task = .finalizeUpload →
    event.op = .store (.getUploadedChunks sessionId) →
      (event.before.store.getUploadSession sessionId).isSome = true

theorem findsSession_append {sessionId : SessionId}
    {history : List (Event system UploadTask World)} {event : Event system UploadTask World} :
    FindsSession sessionId (history ++ [event]) ↔
      FindsSession sessionId history ∧ (event.task = .finalizeUpload →
        event.op = .store (.getUploadedChunks sessionId) →
          (event.before.store.getUploadSession sessionId).isSome = true) := by
  simp only [FindsSession, List.mem_append, List.mem_singleton, or_imp, forall_and, forall_eq]

/-! ## What the tasks keep -/

/-- The chunks are those of the original state, and the session has all its marks until its
row is gone. -/
structure Rows (origin : World) (session : UploadSessionRecord) (world : World) : Prop where
  chunks : world.store.chunks = origin.store.chunks
  session : (∃ status, world.store.getUploadSession session.sessionId =
        some (session.setStatus status) ∧
      world.store.getUploadedChunks session.sessionId =
        origin.store.getUploadedChunks session.sessionId) ∨
    world.store.getUploadSession session.sessionId = none

/-- What a finalization can rely on between its calls. -/
structure Overlaps (origin : World) (session : UploadSessionRecord)
    (before after : Moment system UploadTask World) : Prop where
  rows : Rows origin session after.state
  absent : before.state.store.getUploadSession session.sessionId = none →
    after.state.store.getUploadSession session.sessionId = none
  versions : after.state.store.fileVersions = before.state.store.fileVersions
  reads : FindsSession session.sessionId after.history ↔
    FindsSession session.sessionId before.history

variable {origin : World} {session : UploadSessionRecord}
  {moment : Moment system UploadTask World}

theorem Overlaps.refl (rows : Rows origin session moment.state) :
    Overlaps origin session moment moment := ⟨rows, id, rfl, Iff.rfl⟩

theorem Overlaps.trans {first second third : Moment system UploadTask World}
    (earlier : Overlaps origin session first second)
    (later : Overlaps origin session second third) : Overlaps origin session first third where
  rows := later.rows
  absent := later.absent ∘ earlier.absent
  versions := later.versions.trans earlier.versions
  reads := later.reads.trans earlier.reads

/-- A statement of the cleanup. -/
theorem overlaps_cleanup {op : Call} (cleans : CleanupCall op)
    (rows : Rows origin session moment.state) :
    Overlaps origin session moment (moment.next .cleanupExpiredSessions op
      (exec op moment.state).1 (exec op moment.state).2) := by
  obtain ⟨_, versions, chunks⟩ := cleans.frame moment.state
  refine ⟨⟨chunks.trans rows.chunks, ?_⟩, cleans.absent moment.state, versions, ?_⟩
  · rcases rows.session with ⟨status, found, marks⟩ | gone
    · rcases cleans.session moment.state found with ⟨later, still, kept⟩ | gone
      · exact .inl ⟨later, still, kept.trans marks⟩
      · exact .inr gone
    · exact .inr (cleans.absent moment.state gone)
  · rw [Moment.history_next, findsSession_append]
    exact and_iff_left fun other => nomatch other

/-- The state of a finalization that has not stored its version. Each time it has read the
marks it has found the session, or else the session is gone. -/
structure Underway (origin : World) (session : UploadSessionRecord) (found : Prop)
    (now : Moment system UploadTask World) : Prop where
  rows : Rows origin session now.state
  versions : now.state.store.fileVersions = origin.store.fileVersions
  reads : FindsSession session.sessionId now.history ↔ found
  missed : ¬ found → now.state.store.getUploadSession session.sessionId = none

theorem Underway.later {found : Prop} {later : Moment system UploadTask World}
    (underway : Underway origin session found moment)
    (overlaps : Overlaps origin session moment later) : Underway origin session found later where
  rows := overlaps.rows
  versions := overlaps.versions.trans underway.versions
  reads := overlaps.reads.trans underway.reads
  missed absent := overlaps.absent (underway.missed absent)

/-! ## The calls of the finalization -/

/-- The postcondition of a program of the finalization, next to the cleanup. -/
abbrev Finalizes (origin : World) (session : UploadSessionRecord) {α : Type} (program : Async α)
    (moment : Moment system UploadTask World)
    (resolved : α → Moment system UploadTask World → Prop) : Prop :=
  Upholds exec.semantics (Overlaps origin session)
    (fun _ after => Rows origin session after.state) .finalizeUpload program moment resolved
    (fun _ => True)

/-- A call that neither reads the marks nor changes what the finalization reads. -/
theorem Underway.next {found : Prop} (underway : Underway origin session found moment) {op : Call}
    (other : op ≠ .store (.getUploadedChunks session.sessionId))
    {outcome : system.Outcome op.Result} {after : World}
    (chunks : after.store.chunks = moment.state.store.chunks)
    (marks : after.store.uploadedChunks = moment.state.store.uploadedChunks)
    (sessions : after.store.uploadSessions = moment.state.store.uploadSessions)
    (versions : after.store.fileVersions = moment.state.store.fileVersions) :
    Underway origin session found (moment.next .finalizeUpload op outcome after) := by
  have row : after.store.getUploadSession session.sessionId =
      moment.state.store.getUploadSession session.sessionId :=
    congrArg (Table.find? · session.sessionId) sessions
  have listed : after.store.getUploadedChunks session.sessionId =
      moment.state.store.getUploadedChunks session.sessionId := by
    rw [Database.getUploadedChunks, marks]
    rfl
  refine ⟨⟨chunks.trans underway.rows.chunks, ?_⟩, versions.trans underway.versions, ?_, ?_⟩
  · rw [Moment.state_next, row, listed]
    exact underway.rows.session
  · rw [Moment.history_next, findsSession_append, underway.reads]
    exact and_iff_left fun _ reads => absurd reads other
  · rw [Moment.state_next, row]
    exact underway.missed

/-- A call that reads something else than the marks. -/
theorem finalizes_read {found : Prop} (underway : Underway origin session found moment) {op : Call}
    {value : World → op.Result} (reads : ∀ world, exec op world = (.ok (value world), world))
    (other : op ≠ .store (.getUploadedChunks session.sessionId)) :
    Finalizes origin session (Program.perform (I := system) op) moment
      fun result later => result = value later.state ∧ Underway origin session found later := by
  refine .perform_handler fun before overlaps => ?_
  rw [reads]
  have kept : Underway origin session found
      (before.next .finalizeUpload op (.ok (value before.state)) before.state) :=
    (underway.later overlaps).next other rfl rfl rfl rfl
  exact ⟨kept.rows, rfl, kept⟩

/-- The finalization reads the marks: all of them, or none because the session is gone. -/
theorem finalizes_getUploadedChunks {found : Prop}
    (underway : Underway origin session found moment) :
    Finalizes origin session (store (.getUploadedChunks session.sessionId)) moment
      fun marks later =>
        (found ∧ marks = origin.store.getUploadedChunks session.sessionId ∧
            Underway origin session True later) ∨
          (marks = [] ∧ Underway origin session False later) := by
  refine .perform_handler fun before overlaps => ?_
  have now := underway.later overlaps
  refine ⟨now.rows, ?_⟩
  have reads : FindsSession session.sessionId
      (before.next .finalizeUpload (.store (.getUploadedChunks session.sessionId))
        (.ok (before.state.store.getUploadedChunks session.sessionId)) before.state).history ↔
      found ∧ (before.state.store.getUploadSession session.sessionId).isSome = true := by
    rw [Moment.history_next, findsSession_append, now.reads]
    simp
  rcases now.rows.session with ⟨status, present, marks⟩ | gone
  · have finds : found := by
      by_contra missed
      rw [now.missed missed] at present
      cases present
    refine .inl ⟨finds, marks, now.rows, now.versions, reads.trans ?_,
      fun never => absurd trivial never⟩
    simp [finds, present]
  · refine .inr ⟨Database.getUploadedChunks_of_absent gone, now.rows, now.versions,
      reads.trans ?_, fun _ => gone⟩
    simp [gone]

/-- The finalization has found the upload complete: all marks are there, or the session is gone
and has no chunks. -/
def FoundComplete (origin : World) (session : UploadSessionRecord)
    (now : Moment system UploadTask World) : Prop :=
  ∃ found, Underway origin session found now ∧
    (found → ((origin.store.getUploadedChunks session.sessionId).length : ℤ) =
      session.totalChunks) ∧
    (¬ found → session.totalChunks = 0)

theorem finalizes_isUploadComplete (underway : Underway origin session True moment) :
    Finalizes origin session (UploadManager.isUploadComplete session.sessionId) moment
      fun isComplete later => isComplete = true → FoundComplete origin session later := by
  refine .bind ((finalizes_read underway (fun world => rfl) (by simp)).consequence ?_ fun _ => id)
  rintro _ looked ⟨rfl, underway⟩
  rcases underway.rows.session with ⟨status, present, _⟩ | gone
  swap
  · rw [gone]
    trivial
  · rw [present]
    refine .bind ((finalizes_getUploadedChunks underway).consequence ?_ fun _ => id)
    rintro marks counted (⟨_, rfl, underway⟩ | ⟨rfl, underway⟩) complete
    · exact ⟨True, underway, fun _ => decide_eq_true_eq.mp complete,
        fun never => absurd trivial never⟩
    · exact ⟨False, underway, False.elim, fun _ => (decide_eq_true_eq.mp complete).symm⟩

theorem finalizes_computeTotalSize {found : Prop} (underway : Underway origin session found moment)
    (chunkHashes : List ChunkHash) :
    Finalizes origin session (computeTotalSize chunkHashes) moment fun totalSize later =>
      totalSize = origin.store.totalSize chunkHashes ∧ Underway origin session found later := by
  refine Upholds.consequence (Upholds.foldEach (fun totalSize rest now =>
    totalSize + origin.store.totalSize rest = origin.store.totalSize chunkHashes ∧
      Underway origin session found now) ?_ ⟨Nat.zero_add _, underway⟩) ?_ fun _ => id
  · rintro totalSize chunkHash rest now ⟨summed, underway⟩
    refine .bind ((finalizes_read underway (fun world => rfl) (by simp)).consequence ?_ fun _ => id)
    rintro _ later ⟨rfl, underway⟩
    have same : later.state.store.getChunk chunkHash = origin.store.getChunk chunkHash :=
      congrArg (Table.find? · chunkHash) underway.rows.chunks
    rw [Database.totalSize, List.map_cons, List.sum_cons, ← same] at summed
    cases found : later.state.store.getChunk chunkHash with
    | none =>
        rw [found] at summed
        refine ⟨Eq.trans ?_ summed, underway⟩
        simp [Database.totalSize]
    | some chunk =>
        rw [found] at summed
        refine ⟨Eq.trans ?_ summed, underway⟩
        simp [Database.totalSize, Nat.add_assoc]
  · rintro totalSize later ⟨summed, underway⟩
    exact ⟨summed, underway⟩

/-- The version is stored, and the reads of the finalization say whether it is whole. -/
structure VersionStored (origin : World) (session : UploadSessionRecord)
    (now : Moment system UploadTask World) : Prop where
  rows : Rows origin session now.state
  version : ∃ version, origin.store.getFileVersion session.fileId 1 = none ∧
    now.state.store.getFileVersion session.fileId 1 = some version ∧
    version.size = origin.store.totalSize version.chunkHashes ∧
    ((version.chunkHashes.length : ℤ) = session.totalChunks ↔
      session.totalChunks = 0 ∨ FindsSession session.sessionId now.history)

theorem VersionStored.later {later : Moment system UploadTask World}
    (stored : VersionStored origin session moment)
    (overlaps : Overlaps origin session moment later) : VersionStored origin session later := by
  obtain ⟨version, absent, found, size, whole⟩ := stored.version
  refine ⟨overlaps.rows, version, absent, ?_, size, whole.trans ?_⟩
  · rw [Database.getFileVersion, overlaps.versions]
    exact found
  · rw [overlaps.reads]

theorem finalizes_createFile {found : Prop} (underway : Underway origin session found moment)
    (file : FileRecord) :
    Finalizes origin session (store (.createFile file)) moment
      fun _ later => Underway origin session found later := by
  refine .perform fun before overlaps outcome after happens => ?_
  have now := underway.later overlaps
  rcases World.commit_cases happens with ⟨failure, _, rfl, rfl⟩ | ⟨stored, created, rfl, rfl⟩
  · exact ⟨now.rows, trivial⟩
  · have kept : Underway origin session found (before.next .finalizeUpload
        (.store (.createFile file)) (.ok ()) (before.state.setStore stored)) := by
      obtain ⟨_, _, _, rfl⟩ := Database.createFile_ok created
      exact now.next (by simp) rfl rfl rfl rfl
    exact ⟨kept.rows, kept⟩

/-- The finalization stores its version. What it has read decides whether the version is whole. -/
theorem finalizes_createFileVersion {found : Prop} {version : FileVersionRecord}
    (underway : Underway origin session found moment)
    (key : version.primaryKey = (session.fileId, 1))
    (size : version.size = origin.store.totalSize version.chunkHashes)
    (whole : (version.chunkHashes.length : ℤ) = session.totalChunks ↔
      session.totalChunks = 0 ∨ found) :
    Finalizes origin session (store (.createFileVersion version)) moment
      fun _ later => VersionStored origin session later := by
  refine .perform fun before overlaps outcome after happens => ?_
  have now := underway.later overlaps
  rcases World.commit_cases happens with ⟨failure, _, rfl, rfl⟩ | ⟨stored, created, rfl, rfl⟩
  · exact ⟨now.rows, trivial⟩
  · have rows : Rows origin session (before.state.setStore stored) := by
      obtain ⟨_, _, rfl⟩ := Database.createFileVersion_ok created
      exact ⟨now.rows.chunks, now.rows.session⟩
    obtain ⟨absent, inserted⟩ := Database.find?_createFileVersion created
    rw [key] at absent inserted
    rw [now.versions] at absent
    refine ⟨rows, rows, _, absent, inserted, size, whole.trans (or_congr_right ?_)⟩
    rw [Moment.history_next, findsSession_append, now.reads]
    exact (and_iff_left fun _ reads => nomatch reads).symm

/-- The finalization completes its session, or finds it gone. -/
theorem finalizes_updateUploadSession (stored : VersionStored origin session moment)
    (status : SessionStatus) :
    Finalizes origin session (store (.updateUploadSession session.sessionId status)) moment
      fun _ later => VersionStored origin session later := by
  refine .perform_handler fun before overlaps => ?_
  have now := stored.later overlaps
  have row : (before.state.store.updateUploadSession session.sessionId status).getUploadSession
      session.sessionId = _ := Database.getUploadSession_updateUploadSession status
  rw [if_pos rfl] at row
  have rows : Rows origin session (before.state.setStore
      (before.state.store.updateUploadSession session.sessionId status)) := by
    refine ⟨now.rows.chunks, now.rows.session.imp ?_ fun gone => ?_⟩
    · rintro ⟨earlier, found, marks⟩
      exact ⟨status, row.trans (congrArg (Option.map _) found), marks⟩
    · exact row.trans (congrArg (Option.map _) gone)
  obtain ⟨version, absent, found, size, whole⟩ := now.version
  refine ⟨rows, rows, version, absent, found, size, whole.trans (or_congr_right ?_)⟩
  rw [Moment.history_next, findsSession_append]
  exact (and_iff_left fun _ reads => nomatch reads).symm

theorem finalizes_storeUpload (complete : FoundComplete origin session moment)
    (status : SessionStatus) (now : Time) :
    Finalizes origin session
      (UploadManager.storeUpload (session.setStatus status) session.sessionId now) moment
      fun _ later => VersionStored origin session later := by
  obtain ⟨counted, underway, enough, empty⟩ := complete
  refine .bind ((finalizes_getUploadedChunks underway).consequence ?_ fun _ => id)
  intro marks listed read
  -- Either all marks were read, or none because the session is gone.
  obtain ⟨found, underway, whole⟩ : ∃ found, Underway origin session found listed ∧
      ((marks.length : ℤ) = session.totalChunks ↔ session.totalChunks = 0 ∨ found) := by
    rcases read with ⟨present, rfl, underway⟩ | ⟨rfl, underway⟩
    · exact ⟨True, underway, iff_of_true (enough present) (.inr trivial)⟩
    · refine ⟨False, underway, ?_⟩
      rw [or_false, List.length_nil]
      exact eq_comm
  refine .bind ((finalizes_computeTotalSize underway _).consequence ?_ fun _ => id)
  rintro _ summed ⟨rfl, underway⟩
  refine .bind ((finalizes_createFile underway _).consequence ?_ fun _ => id)
  intro _ filed underway
  have reordered : (UploadManager.orderedHashes marks).Perm
      (marks.map UploadedChunkRecord.chunkHash) := (perm_orderBy _ _).map _
  refine .bind ((finalizes_createFileVersion underway rfl ?_ ?_).consequence ?_ fun _ => id)
  · exact (origin.store.totalSize_perm reordered).symm
  · rw [← whole, ← List.length_map UploadedChunkRecord.chunkHash, ← reordered.length_eq]
    rfl
  · intro _ versioned stored
    refine .bind ((finalizes_updateUploadSession stored _).consequence ?_ fun _ => id)
    exact fun _ completed stored => stored

theorem finalizes_finalizeUpload (underway : Underway origin session True moment) (now : Time) :
    Finalizes origin session (UploadManager.finalizeUpload session.sessionId now) moment
      fun _ later => VersionStored origin session later := by
  refine .bind ((finalizes_read underway (fun world => rfl) (by simp)).consequence ?_ fun _ => id)
  rintro _ looked ⟨rfl, underway⟩
  rcases underway.rows.session with ⟨status, present, _⟩ | gone
  swap
  · rw [gone]
    trivial
  · rw [present]
    refine .bind ((finalizes_isUploadComplete underway).consequence ?_ fun _ => id)
    intro isComplete counted complete
    cases isComplete with
    | false => trivial
    | true => exact finalizes_storeUpload (complete rfl) status now

/-! ## The interleavings -/

theorem upholds_cleanup (cleaner : Cleaner) (expiryDate : Time)
    (rows : Rows origin session moment.state) :
    Upholds exec.semantics (fun _ after => Rows origin session after.state)
      (Overlaps origin session) .cleanupExpiredSessions (cleaner.cleanupExpiredSessions expiryDate)
      moment (fun _ now => Rows origin session now.state)
      (fun now => Rows origin session now.state) := by
  refine .of_allCalls ?_ (cleaner.allCalls_cleanupExpiredSessions expiryDate) rows
  intro earlier op cleans _ before relied outcome after happens
  have made : exec op before.state = (outcome, after) := happens
  have overlaps := overlaps_cleanup cleans relied
  rw [made] at overlaps
  exact ⟨overlaps, overlaps.rows⟩

/-- A finalization that has resolved has stored its version. -/
theorem versionStored_of_resolved (cleaner : Cleaner) (now expiryDate : Time)
    (found : origin.store.getUploadSession session.sessionId = some session)
    {tasks : Pool system UploadTask (Option FileMetadata)}
    {reached : Moment system UploadTask World} {metadata : FileMetadata}
    (run : PoolRuns exec.semantics
      (cleanupTasks cleaner session.sessionId now expiryDate, .start origin) (tasks, reached))
    (resolved : tasks .finalizeUpload = .done (.ok (some metadata))) :
    VersionStored origin session reached := by
  have rows : Rows origin session origin := ⟨rfl, .inl ⟨session.status, found, rfl⟩⟩
  have underway : Underway origin session True (.start origin) :=
    ⟨rows, rfl, iff_of_true (fun _ member => nomatch member) trivial,
      fun never => absurd trivial never⟩
  have finalizes : Finalizes origin session
      (cleanupTasks cleaner session.sessionId now expiryDate .finalizeUpload) (.start origin)
      fun _ later => VersionStored origin session later := by
    refine .bind ((finalizes_finalizeUpload underway now).consequence ?_ fun _ => id)
    exact fun metadata later stored => stored
  have cleans : ∀ other, other ≠ .finalizeUpload →
      Upholds exec.semantics (fun _ after => Rows origin session after.state)
        (Overlaps origin session) other
        (cleanupTasks cleaner session.sessionId now expiryDate other) (.start origin)
        (fun _ _ => True) fun _ => True := by
    intro other different
    cases other with
    | finalizeUpload => exact absurd rfl different
    | cleanupExpiredSessions =>
        refine .bind ((upholds_cleanup cleaner expiryDate rows).consequence ?_ ?_)
        · exact fun _ _ _ => trivial
        · exact fun _ _ => trivial
  obtain ⟨_, moment, overlaps, upholds⟩ := Pool.upholds_beside .finalizeUpload
    (fun moment => Rows origin session moment.state) (fun _ => .refl) (fun _ _ _ => .trans)
    (fun _ _ => Overlaps.rows) rows finalizes cleans run
  rw [resolved] at upholds
  have stored : VersionStored origin session moment := upholds
  exact stored.later overlaps

/-- **A finalization that resolves next to a cleanup has stored a whole version if and only if
the session has no chunks, or its row was there each time the finalization read the marks.** -/
theorem finalizeUpload_whole_iff (cleaner : Cleaner) (session : UploadSessionRecord)
    (origin : World) (found : origin.store.getUploadSession session.sessionId = some session)
    (now expiryDate : Time) {tasks : Pool system UploadTask (Option FileMetadata)}
    {reached : Moment system UploadTask World} {metadata : FileMetadata}
    (run : PoolRuns exec.semantics
      (cleanupTasks cleaner session.sessionId now expiryDate, .start origin) (tasks, reached))
    (resolved : tasks .finalizeUpload = .done (.ok (some metadata))) :
    StoredWhole session origin reached.state ↔
      session.totalChunks = 0 ∨ FindsSession session.sessionId reached.history := by
  obtain ⟨rows, version, absent, stored, size, whole⟩ :=
    versionStored_of_resolved cleaner now expiryDate found run resolved
  constructor
  · rintro ⟨other, _, same, length, _⟩
    obtain rfl := Option.some.inj (stored.symm.trans same)
    exact whole.mp length
  · intro condition
    exact ⟨version, absent, stored, whole.mpr condition,
      size.trans (Database.totalSize_congr rows.chunks.symm _)⟩

/-! ## An expired session -/

/-- A session with one chunk that expires at 7. -/
def oneChunk : UploadSessionRecord :=
  { sessionId := upload, fileId := notes, fileName := "notes.txt", totalChunks := 1,
    userId := "ada", createdAt := 0, expiresAt := 7, status := .active }

/-- The session has the mark of its chunk, which has five bytes. -/
def markedUpload : World :=
  let marked : Async Unit := do
    store (.createChunk
      { chunkHash := "aa", size := 5, encryptedSize := 5, referenceCount := 1, createdAt := 0 })
    store (.createUploadSession oneChunk)
    store (.markChunkUploaded
      { sessionId := upload, sequenceNumber := 0, chunkHash := "aa", uploadedAt := 0 })
  (marked.run exec (.ofStore .empty)).2

/-- The finalization makes some calls, then the whole cleanup runs, then the finalization goes
on. -/
def interruptedFinalization (cleaner : Cleaner) (calls : ℕ) :
    Pool system UploadTask (Option FileMetadata) × Moment system UploadTask World :=
  Pool.runSchedule exec
    (List.replicate calls .finalizeUpload ++ List.replicate 3 .cleanupExpiredSessions ++
      List.replicate 5 .finalizeUpload)
    (cleanupTasks cleaner upload 8 8, .start markedUpload)

theorem runs_interruptedFinalization (cleaner : Cleaner) (calls : ℕ) :
    PoolRuns exec.semantics (cleanupTasks cleaner oneChunk.sessionId 8 8, .start markedUpload)
      ((interruptedFinalization cleaner calls).1, (interruptedFinalization cleaner calls).2) :=
  Pool.runs_runSchedule (fun _ _ => rfl) _ _

/-- The session is open when its marks are read. -/
def readsOpenSession {ι : Type} (event : Event system ι World) : Bool :=
  match event.op with
  | .store (.getUploadedChunks sessionId) =>
      (event.before.store.getUploadSession sessionId).isSome
  | _ => true

/-- A cleanup after the marks have been read does no harm. -/
theorem finalizeUpload_whole_late_cleanup :
    StoredWhole oneChunk markedUpload (interruptedFinalization .backgroundJobs 4).2.state := by
  refine (finalizeUpload_whole_iff .backgroundJobs oneChunk markedUpload (by decide) 8 8
    (runs_interruptedFinalization .backgroundJobs 4) rfl).mpr (.inr ?_)
  have present : ∀ event ∈ (interruptedFinalization .backgroundJobs 4).2.history,
      readsOpenSession event = true := by
    decide
  intro event member _ reads
  have finds := present event member
  rwa [readsOpenSession, reads] at finds

/-- Next to the cleanup, a finalization of the marked upload can resolve with a version that is
not whole. -/
def CanTruncate (cleaner : Cleaner) : Prop :=
  ∃ tasks reached metadata,
    PoolRuns exec.semantics (cleanupTasks cleaner oneChunk.sessionId 8 8, .start markedUpload)
      (tasks, reached) ∧
    tasks .finalizeUpload = .done (.ok (some metadata)) ∧
    ¬ StoredWhole oneChunk markedUpload reached.state

theorem canTruncate (cleaner : Cleaner) : CanTruncate cleaner := by
  refine ⟨_, _, UploadManager.fileMetadata oneChunk 0 8, runs_interruptedFinalization cleaner 3,
    by cases cleaner <;> rfl, ?_⟩
  have empty : ((interruptedFinalization cleaner 3).2.state.store.getFileVersion notes 1).map
      FileVersionRecord.chunkHashes = some [] := by
    cases cleaner <;> decide
  rintro ⟨version, _, stored, length, _⟩
  rw [show oneChunk.fileId = notes from rfl] at stored
  rw [stored, Option.map_some, Option.some.injEq] at empty
  rw [empty] at length
  cases length

/-- **A cleanup between the two reads of the marks takes the chunks of the version**: the
finalization resolves, and its version has no chunk. -/
theorem finalizeUpload_truncated :
    markedUpload.store.getUploadSession oneChunk.sessionId = some oneChunk ∧
      CanTruncate .uploadManager ∧ CanTruncate .backgroundJobs :=
  ⟨by decide, canTruncate .uploadManager, canTruncate .backgroundJobs⟩

end DistributedFileStorage.Upload
