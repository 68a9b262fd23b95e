import DistributedFileStorage.Upload.Finalization
import DistributedFileStorage.Upload.SerialSessions

/-!
# Resumed uploads complete

An upload is interrupted after any requests next to each other, some of which may have failed. The
client resumes the session, marks the chunks that the session does not report, and finalizes the
upload. What the session reports is enough to go on: the upload is complete, and the first version
has for each chunk the hash that was recorded first (`resumedUpload_completes`).
-/

set_option autoImplicit false

namespace DistributedFileStorage.Upload

open Async Store Services Relational Sequences UploadManager Program

/-! ## The marks belong to their sessions -/

/-- The number of a mark is one of its session. -/
def MarkInRange (world : World) (chunk : UploadedChunkRecord) : Prop :=
  ∀ session, world.store.getUploadSession chunk.sessionId = some session →
    0 ≤ chunk.sequenceNumber ∧ chunk.sequenceNumber < session.totalChunks

def MarksInRange (world : World) : Prop :=
  ∀ chunk ∈ world.store.uploadedChunks.rows, MarkInRange world chunk

variable {before after world : World}

/-- A mark belongs to a session, whose row stays as it is. -/
theorem MarkInRange.later {chunk : UploadedChunkRecord}
    (present : chunk.sessionId ∈ before.store.uploadSessions.keys)
    (kept : RetainsSessions before after) (inRange : MarkInRange before chunk) :
    MarkInRange after chunk := by
  intro session found
  obtain ⟨earlier, known⟩ := Option.isSome_iff_exists.mp (Table.isSome_find?_iff.mpr present)
  obtain rfl := Option.some.inj ((kept _ earlier known).symm.trans found)
  exact inRange earlier known

/-- New marks are in the range of their sessions. -/
theorem MarksInRange.later (inRange : MarksInRange before) (kept : RetainsSessions before after)
    (marks : ∀ chunk ∈ after.store.uploadedChunks.rows,
      chunk ∈ before.store.uploadedChunks.rows ∨
        chunk.sessionId ∈ before.store.uploadSessions.keys ∧ MarkInRange before chunk) :
    MarksInRange after := by
  intro chunk member
  rcases marks chunk member with old | ⟨present, new⟩
  · exact (inRange chunk old).later (before.store.uploadedSession chunk old) kept
  · exact new.later present kept

/-- A recorded mark in the range of its session. -/
theorem mem_rows_markChunkUploaded {db : Database} {chunk : UploadedChunkRecord}
    {session : UploadSessionRecord}
    (found : before.store.getUploadSession chunk.sessionId = some session)
    (lower : 0 ≤ chunk.sequenceNumber) (upper : chunk.sequenceNumber < session.totalChunks)
    (marked : before.store.markChunkUploaded chunk = .ok db) :
    ∀ other ∈ db.uploadedChunks.rows, other ∈ before.store.uploadedChunks.rows ∨
      other.sessionId ∈ before.store.uploadSessions.keys ∧ MarkInRange before other := by
  intro other member
  rw [(markChunkUploaded_ok marked).1] at member
  rcases Table.mem_insertIfAbsent.mp member with old | ⟨_, rfl⟩
  · exact .inl old
  · refine .inr ⟨Table.isSome_find?_iff.mp (Option.isSome_iff_exists.mpr ⟨session, found⟩), ?_⟩
    intro current known
    obtain rfl := Option.some.inj (found.symm.trans known)
    exact ⟨lower, upper⟩

/-- **One request** keeps the marks in the ranges of their sessions. -/
theorem SessionRequest.keeps_marksInRange {request : SessionRequest}
    {outcome : Except Failure SessionReply} (run : Runs faulty request.program before outcome after)
    (inRange : MarksInRange before) : MarksInRange after := by
  have kept : RetainsSessions before after :=
    (request.readsThenCalls before).keeps (fun _ => .refl) .refl run
  refine inRange.later kept fun chunk member => ?_
  rcases SessionRequest.marks_cases run with ⟨same, _⟩ |
    ⟨_, _, _, _, _, session, db, _, _, found, lower, upper, marked, rfl⟩
  · exact .inl (same ▸ member)
  · exact mem_rows_markChunkUploaded found lower upper marked chunk member

/-! ## The client goes on -/

/-- What a session that resumes reports is its row and the numbers of its marks. -/
theorem resumeSession_ok {sessionId : SessionId} {now : Time} {resumed : UploadSession}
    (resumes : (resumeSession sessionId now).run exec world = (.ok resumed, after)) :
    ∃ session, world.store.getUploadSession sessionId = some session ∧ session.status = .active ∧
      resumed.fileId = session.fileId ∧ resumed.totalChunks = session.totalChunks ∧
      resumed.expiresAt = session.expiresAt ∧
      resumed.uploadedChunks =
        (world.store.getUploadedChunks sessionId).map UploadedChunkRecord.sequenceNumber := by
  have looked : (store (.getUploadSession sessionId)).run exec world =
      (.ok (world.store.getUploadSession sessionId), world) := rfl
  have listed : (store (.getUploadedChunks sessionId)).run exec world =
      (.ok (world.store.getUploadedChunks sessionId), world) := rfl
  rw [resumeSession, run_bind_ok exec looked] at resumes
  cases found : world.store.getUploadSession sessionId with
  | none =>
      rw [found] at resumes
      cases resumes
  | some session =>
      rw [found] at resumes
      dsimp only at resumes
      split_ifs at resumes with closed completed
      · cases resumes
      · cases resumes
      · rw [run_bind_ok exec listed] at resumes
        cases resumes
        refine ⟨session, rfl, ?_, rfl, rfl, rfl, rfl⟩
        cases status : session.status with
        | active => rfl
        | completed => exact absurd status completed
        | expired => exact absurd (.inl status) closed

/-- A chunk that the client marks, with the clocks of the manager and of the store. -/
structure Mark where
  sequenceNumber : ℤ
  chunkHash : ChunkHash
  now : Time
  uploadedAt : Time

def Mark.upload (sessionId : SessionId) (mark : Mark) : Async Unit :=
  markChunkUploaded sessionId mark.sequenceNumber mark.chunkHash mark.now mark.uploadedAt

/-- The hash that is recorded for a number of a session. -/
def hashAt (world : World) (sessionId : SessionId) (sequenceNumber : ℤ) : Option ChunkHash :=
  (world.store.uploadedChunks.find? (sessionId, sequenceNumber)).map UploadedChunkRecord.chunkHash

/-- The first hash that some marks have for a number. -/
def firstHash (marks : List Mark) (sequenceNumber : ℤ) : Option ChunkHash :=
  (marks.find? fun mark => mark.sequenceNumber = sequenceNumber).map Mark.chunkHash

/-- The marks of a session have been recorded, the first one of each number. -/
structure Recorded (sessionId : SessionId) (marks : List Mark) (before after : World) : Prop where
  sessions : after.store.uploadSessions = before.store.uploadSessions
  files : after.store.files = before.store.files
  hashes : ∀ sequenceNumber, hashAt after sessionId sequenceNumber =
    (hashAt before sessionId sequenceNumber).or (firstHash marks sequenceNumber)
  inRange : MarksInRange before → MarksInRange after

/-- A mark in time and in range is recorded. -/
theorem run_upload {sessionId : SessionId} {session : UploadSessionRecord}
    (found : world.store.getUploadSession sessionId = some session)
    (active : session.status = .active) {mark : Mark} (inTime : mark.now ≤ session.expiresAt)
    (lower : 0 ≤ mark.sequenceNumber) (upper : mark.sequenceNumber < session.totalChunks) :
    ∃ after, (mark.upload sessionId).run exec world = (.ok (), after) ∧
      Recorded sessionId [mark] world after := by
  have looked : (store (.getUploadSession sessionId)).run exec world =
      (.ok (world.store.getUploadSession sessionId), world) := rfl
  let chunk : UploadedChunkRecord :=
    { sessionId := sessionId, sequenceNumber := mark.sequenceNumber, chunkHash := mark.chunkHash,
      uploadedAt := mark.uploadedAt }
  have present : chunk.sessionId ∈ world.store.uploadSessions.keys :=
    Table.isSome_find?_iff.mp (Option.isSome_iff_exists.mpr ⟨session, found⟩)
  obtain ⟨db, marked⟩ : ∃ db, world.store.markChunkUploaded chunk = .ok db := ⟨_, dif_pos present⟩
  obtain ⟨marks, sessions, _⟩ := markChunkUploaded_ok marked
  have files : db.files = world.store.files := by
    unfold Database.markChunkUploaded at marked
    rw [dif_pos present] at marked
    rw [← Except.ok.inj marked]
  refine ⟨world.setStore db, ?_, sessions, files, fun sequenceNumber => ?_, fun inRange => ?_⟩
  · rw [Mark.upload, markChunkUploaded, run_bind_ok exec looked, found]
    dsimp only
    rw [if_neg (by simp [active]), if_neg (not_lt.mpr inTime), if_neg (by omega)]
    exact congrArg world.commit marked
  · unfold hashAt firstHash
    rw [World.store_setStore, marks]
    have key : chunk.primaryKey = (sessionId, mark.sequenceNumber) := rfl
    by_cases here : mark.sequenceNumber = sequenceNumber
    · subst here
      rw [List.find?_cons_of_pos (by simp), ← key]
      by_cases taken : chunk.primaryKey ∈ world.store.uploadedChunks.keys
      · rw [Table.insertIfAbsent_of_taken taken]
        obtain ⟨old, known⟩ := Option.isSome_iff_exists.mp (Table.isSome_find?_iff.mpr taken)
        rw [known]
        rfl
      · rw [Table.find?_insertIfAbsent_self taken, Table.find?_eq_none_iff.mpr taken]
        rfl
    · have different : (sessionId, sequenceNumber) ≠ chunk.primaryKey := by
        rw [key]
        exact fun same => here (Prod.mk.inj same).2.symm
      rw [Table.find?_insertIfAbsent_of_ne different, List.find?_cons_of_neg (by simpa using here)]
      exact (Option.or_none).symm
  · refine inRange.later (fun other row known => ?_)
      (mem_rows_markChunkUploaded found lower upper marked)
    rw [World.store_setStore, Database.getUploadSession, sessions]
    exact known

/-- Marks in time and in range are recorded one after the other. -/
theorem run_uploads {sessionId : SessionId} {session : UploadSessionRecord}
    (active : session.status = .active) {marks : List Mark}
    (inTime : ∀ mark ∈ marks, mark.now ≤ session.expiresAt)
    (own : ∀ mark ∈ marks, 0 ≤ mark.sequenceNumber ∧ mark.sequenceNumber < session.totalChunks)
    (found : world.store.getUploadSession sessionId = some session) :
    ∃ after, (forEach (Mark.upload sessionId) marks).run exec world = (.ok (), after) ∧
      Recorded sessionId marks world after := by
  induction marks generalizing world with
  | nil => exact ⟨world, rfl, rfl, rfl, fun _ => (Option.or_none).symm, id⟩
  | cons mark marks ih =>
      obtain ⟨lower, upper⟩ := own mark List.mem_cons_self
      obtain ⟨middle, here, first⟩ :=
        run_upload found active (inTime mark List.mem_cons_self) lower upper
      have still : middle.store.getUploadSession sessionId = some session := by
        rw [Database.getUploadSession, first.sessions]
        exact found
      obtain ⟨after, later, rest⟩ := ih
        (fun other member => inTime other (List.mem_cons_of_mem mark member))
        (fun other member => own other (List.mem_cons_of_mem mark member)) still
      refine ⟨after, ?_, rest.sessions.trans first.sessions, rest.files.trans first.files, ?_,
        rest.inRange ∘ first.inRange⟩
      · rw [forEach, run_bind_ok exec here]
        exact later
      · intro sequenceNumber
        rw [rest.hashes, first.hashes, Option.or_assoc]
        congr 1
        unfold firstHash
        by_cases same : mark.sequenceNumber = sequenceNumber
        · rw [List.find?_cons_of_pos (by simpa using same),
            List.find?_cons_of_pos (by simpa using same)]
          rfl
        · rw [List.find?_cons_of_neg (by simpa using same),
            List.find?_cons_of_neg (by simpa using same)]
          rfl

/-- A session with all its marks is finalized when its file is new, with the hashes of its marks. -/
theorem run_finalizeUpload_of_hashes {sessionId : SessionId} {session : UploadSessionRecord}
    (found : world.store.getUploadSession sessionId = some session)
    (nonneg : 0 ≤ session.totalChunks) (inRange : MarksInRange world)
    (all : ∀ sequenceNumber, 0 ≤ sequenceNumber → sequenceNumber < session.totalChunks →
      (hashAt world sessionId sequenceNumber).isSome = true)
    (fresh : world.store.getFile session.fileId = none) (now : Time) :
    ∃ metadata after version,
      (finalizeUpload sessionId now).run exec world = (.ok metadata, after) ∧
        after.store.getFileVersion session.fileId 1 = some version ∧
        (version.chunkHashes.length : ℤ) = session.totalChunks ∧
        ∀ index < version.chunkHashes.length,
          version.chunkHashes[index]? = hashAt world sessionId index := by
  have inside : ∀ sequenceNumber ∈
      (world.store.getUploadedChunks sessionId).map UploadedChunkRecord.sequenceNumber,
      0 ≤ sequenceNumber ∧ sequenceNumber < session.totalChunks := by
    intro sequenceNumber member
    obtain ⟨chunk, listed, rfl⟩ := List.mem_map.mp member
    obtain ⟨stored, own⟩ := mem_getUploadedChunks.mp listed
    exact inRange chunk stored session (own ▸ found)
  have complete : ((world.store.getUploadedChunks sessionId).length : ℤ) = session.totalChunks := by
    have counted := (length_eq_iff_complete nonneg
      (nodup_sequenceNumbers world.store sessionId) inside).mpr fun sequenceNumber lower upper => ?_
    · rwa [List.length_map] at counted
    · rw [mem_sequenceNumbers, ← Table.isSome_find?_iff]
      have marked := all sequenceNumber lower upper
      rwa [hashAt, Option.isSome_map] at marked
  obtain ⟨length, hashes⟩ := getElem?_orderedHashes inside complete
  obtain ⟨created, stored, creates, stores, _, version⟩ := exists_stored fresh
    (world.store.getUploadedChunks sessionId)
    (world.store.totalSize ((world.store.getUploadedChunks sessionId).map
      UploadedChunkRecord.chunkHash)) now
  have run := run_finalizeUpload sessionId now world
  rw [found] at run
  dsimp only at run
  rw [if_pos complete, run_storeUpload] at run
  dsimp only at run
  rw [creates] at run
  dsimp only at run
  rw [stores] at run
  exact ⟨_, _, _, run, version, length, hashes⟩

/-- **A resumed upload completes.** Any session requests run next to each other, any statement may
fail, and the marks at first are in the ranges of their sessions. Then a client resumes a session
whose file is new, and marks numbers of the session, in time and in any order, with repetitions,
among them every number that the session does not report. The upload can be finalized. The first
version has for each number the hash recorded before the client resumed, and otherwise the hash of
the first of the new marks. -/
theorem resumedUpload_completes {ι : Type} [DecidableEq ι] (requests : ι → SessionRequest)
    (origin : World) (initially : MarksInRange origin)
    {tasks : Pool system ι SessionReply} {reached : Moment system ι World}
    (run : PoolRuns faulty (fun task => (requests task).program, .start origin) (tasks, reached))
    {sessionId : SessionId} {now : Time} {resumed : UploadSession}
    (resumes : (resumeSession sessionId now).run exec reached.state = (.ok resumed, reached.state))
    (nonneg : 0 ≤ resumed.totalChunks)
    (fresh : reached.state.store.getFile resumed.fileId = none) (marks : List Mark)
    (inTime : ∀ mark ∈ marks, mark.now ≤ resumed.expiresAt)
    (own : ∀ mark ∈ marks, 0 ≤ mark.sequenceNumber ∧ mark.sequenceNumber < resumed.totalChunks)
    (missing : ∀ sequenceNumber, 0 ≤ sequenceNumber → sequenceNumber < resumed.totalChunks →
      sequenceNumber ∉ resumed.uploadedChunks → ∃ mark ∈ marks,
        mark.sequenceNumber = sequenceNumber) (finalizedAt : Time) :
    ∃ metadata after version,
      ((forEach (Mark.upload sessionId) marks >>= fun _ =>
          finalizeUpload sessionId finalizedAt).run exec reached.state) = (.ok metadata, after) ∧
        after.store.getFileVersion resumed.fileId 1 = some version ∧
        (version.chunkHashes.length : ℤ) = resumed.totalChunks ∧
        ∀ index < version.chunkHashes.length, version.chunkHashes[index]? =
          (hashAt reached.state sessionId index).or (firstHash marks index) := by
  obtain ⟨points, linear, _⟩ := Pool.exists_linearization_of_calls (fun _ => RetainsSessions.refl)
    (fun _ _ _ => RetainsSessions.trans) (fun task => (requests task).takesEffect origin) run
  have inRange : MarksInRange reached.state := linear.inOrder.invariant
    (fun _ _ _ _ run => SessionRequest.keeps_marksInRange run) initially
  obtain ⟨session, found, active, file, total, expiry, listed⟩ := resumeSession_ok resumes
  rw [file] at fresh ⊢
  rw [total] at nonneg own missing ⊢
  rw [expiry] at inTime
  rw [listed] at missing
  obtain ⟨middle, uploads, recorded⟩ := run_uploads active inTime own found
  have still : middle.store.getUploadSession sessionId = some session := by
    rw [Database.getUploadSession, recorded.sessions]
    exact found
  have new : middle.store.getFile session.fileId = none := by
    rw [Database.getFile, recorded.files]
    exact fresh
  have all : ∀ sequenceNumber, 0 ≤ sequenceNumber → sequenceNumber < session.totalChunks →
      (hashAt middle sessionId sequenceNumber).isSome = true := by
    intro sequenceNumber lower upper
    rw [recorded.hashes, Option.isSome_or, Bool.or_eq_true]
    by_cases reported : sequenceNumber ∈
        (reached.state.store.getUploadedChunks sessionId).map UploadedChunkRecord.sequenceNumber
    · left
      rw [hashAt, Option.isSome_map, Table.isSome_find?_iff]
      exact mem_sequenceNumbers.mp reported
    · right
      obtain ⟨mark, member, same⟩ := missing sequenceNumber lower upper reported
      rw [firstHash, Option.isSome_map, List.find?_isSome]
      exact ⟨mark, member, decide_eq_true same⟩
  obtain ⟨metadata, after, version, finalizes, stored, length, hashes⟩ :=
    run_finalizeUpload_of_hashes still nonneg (recorded.inRange inRange) all new finalizedAt
  refine ⟨metadata, after, version, ?_, stored, length, fun index below => ?_⟩
  · rw [run_bind_ok exec uploads]
    exact finalizes
  · rw [hashes index below, recorded.hashes]

/-- A session with two chunks is opened and the first one marked, and the statement of another mark
is still to come. -/
def interruptedRequests : ℕ → SessionRequest
  | 0 => .createSession upload notes "notes.txt" 2 "ada" 0
  | 1 => .markChunkUploaded upload 0 "aa" 1 1
  | _ => .markChunkUploaded upload 1 "cc" 1 1

def interruptedRun : Pool system ℕ SessionReply × Moment system ℕ World :=
  Pool.runSchedule exec [0, 1, 2, 1]
    (fun task => (interruptedRequests task).program, .start (.ofStore .empty))

/-- What the client gets when it resumes. -/
def interruptedSession : UploadSession :=
  { sessionId := upload, fileId := notes, fileName := "notes.txt", totalChunks := 2,
    uploadedChunks := [0], createdAt := 0,
    expiresAt := UploadManager.sessionExpiryDays * millisecondsPerDay, userId := "ada" }

theorem resumedUpload_completes_interrupted :
    ∃ metadata after version,
      ((forEach (Mark.upload upload) [⟨1, "bb", 3, 3⟩] >>= fun _ =>
          finalizeUpload upload 4).run exec interruptedRun.2.state) = (.ok metadata, after) ∧
        after.store.getFileVersion notes 1 = some version ∧
        (version.chunkHashes.length : ℤ) = 2 ∧
        ∀ index < version.chunkHashes.length, version.chunkHashes[index]? =
          (hashAt interruptedRun.2.state upload index).or
            (firstHash [⟨1, "bb", 3, 3⟩] index) := by
  have run : PoolRuns faulty
      (fun task => (interruptedRequests task).program, .start (.ofStore .empty))
      (interruptedRun.1, interruptedRun.2) := Pool.runs_runSchedule (fun _ _ => .inl rfl) _ _
  have resumes : (resumeSession upload 2).run exec interruptedRun.2.state =
      (.ok interruptedSession, interruptedRun.2.state) := rfl
  refine resumedUpload_completes interruptedRequests _ (fun chunk member => by cases member) run
    resumes (by decide) (by decide +kernel) [⟨1, "bb", 3, 3⟩] ?_ ?_ ?_ 4
  · intro mark member
    obtain rfl := List.mem_singleton.mp member
    decide
  · intro mark member
    obtain rfl := List.mem_singleton.mp member
    decide
  · intro sequenceNumber lower upper unreported
    have second : sequenceNumber = 1 := by
      have below : sequenceNumber < 2 := upper
      have other : sequenceNumber ≠ 0 := by
        rintro rfl
        exact unreported (List.mem_singleton.mpr rfl)
      omega
    exact ⟨_, List.mem_singleton.mpr rfl, second.symm⟩

end DistributedFileStorage.Upload
