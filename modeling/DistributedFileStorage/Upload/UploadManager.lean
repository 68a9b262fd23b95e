import DistributedFileStorage.Services.ChunkSizes

/-!
# The upload manager

An upload session collects the chunks of a new file: the client marks each chunk,
by its sequence number and its hash, and finalizes the session when every sequence
number has a mark. Finalizing stores the file and its version 1, and completes the
session.

A date that the source reads from the clock, and the random identifier of a
session, are arguments here.
-/

set_option autoImplicit false

namespace DistributedFileStorage.Upload

open Async Store Services Relational

/-- An upload session as the upload manager returns it. -/
structure UploadSession where
  sessionId : SessionId
  fileId : FileId
  fileName : String
  totalChunks : ℤ
  uploadedChunks : List ℤ
  createdAt : Time
  expiresAt : Time
  userId : UserId
  deriving DecidableEq

structure FileMetadata where
  fileId : FileId
  fileName : String
  ownerId : UserId
  currentVersion : ℤ
  totalSize : ℕ
  createdAt : Time
  updatedAt : Time
  deriving DecidableEq

namespace UploadManager

def sessionExpiryDays : ℤ := 7

/-- The default retention of a finalized file. -/
def defaultRetentionDays : ℤ := 30

def createSession (sessionId : SessionId) (fileId : FileId) (fileName : String) (totalChunks : ℤ)
    (userId : UserId) (now : Time) : Async UploadSession := do
  let expiresAt := now + sessionExpiryDays * millisecondsPerDay
  store (.createUploadSession
    { sessionId := sessionId, fileId := fileId, fileName := fileName, totalChunks := totalChunks,
      userId := userId, createdAt := now, expiresAt := expiresAt, status := .active })
  pure
    { sessionId := sessionId, fileId := fileId, fileName := fileName, totalChunks := totalChunks,
      uploadedChunks := [], createdAt := now, expiresAt := expiresAt, userId := userId }

def resumeSession (sessionId : SessionId) (now : Time) : Async UploadSession := do
  match ← store (.getUploadSession sessionId) with
  | none => reject s!"Session not found: {sessionId}"
  | some session =>
      if session.status = .expired ∨ session.expiresAt < now then
        reject s!"Session expired: {sessionId}"
      else if session.status = .completed then
        reject s!"Session already completed: {sessionId}"
      else
        let uploadedChunkRecords ← store (.getUploadedChunks sessionId)
        pure
          { sessionId := session.sessionId, fileId := session.fileId, fileName := session.fileName,
            totalChunks := session.totalChunks,
            uploadedChunks := uploadedChunkRecords.map UploadedChunkRecord.sequenceNumber,
            createdAt := session.createdAt, expiresAt := session.expiresAt,
            userId := session.userId }

/-- `now` is the clock when the manager checks the session, `uploadedAt` the clock
when the store writes the row. -/
def markChunkUploaded (sessionId : SessionId) (sequenceNumber : ℤ) (chunkHash : ChunkHash)
    (now uploadedAt : Time) : Async Unit := do
  match ← store (.getUploadSession sessionId) with
  | none => reject s!"Session not found: {sessionId}"
  | some session =>
      if session.status ≠ .active then reject s!"Session is not active: {sessionId}"
      else if session.expiresAt < now then reject s!"Session expired: {sessionId}"
      else if sequenceNumber < 0 ∨ session.totalChunks ≤ sequenceNumber then
        reject (s!"Invalid sequence number: {sequenceNumber}. " ++
          s!"Must be between 0 and {session.totalChunks - 1}")
      else
        store (.markChunkUploaded
          { sessionId := sessionId, sequenceNumber := sequenceNumber, chunkHash := chunkHash,
            uploadedAt := uploadedAt })

def isUploadComplete (sessionId : SessionId) : Async Bool := do
  match ← store (.getUploadSession sessionId) with
  | none => reject s!"Session not found: {sessionId}"
  | some session =>
      let uploadedChunkRecords ← store (.getUploadedChunks sessionId)
      pure (decide ((uploadedChunkRecords.length : ℤ) = session.totalChunks))

/-- The metadata of the file of a session. -/
def fileMetadata (session : UploadSessionRecord) (totalSize : ℕ) (now : Time) : FileMetadata where
  fileId := session.fileId
  fileName := session.fileName
  ownerId := session.userId
  currentVersion := 1
  totalSize := totalSize
  createdAt := now
  updatedAt := now

/-- The row of `files` for the metadata. -/
def fileRecord (metadata : FileMetadata) : FileRecord where
  fileId := metadata.fileId
  fileName := metadata.fileName
  ownerId := metadata.ownerId
  currentVersion := metadata.currentVersion
  totalSize := metadata.totalSize
  createdAt := metadata.createdAt
  updatedAt := metadata.updatedAt
  retentionDays := defaultRetentionDays

/-- The hashes of the marks in the order of their sequence numbers. -/
def orderedHashes (uploadedChunkRecords : List UploadedChunkRecord) : List ChunkHash :=
  (orderBy UploadedChunkRecord.sequenceNumber uploadedChunkRecords).map
    UploadedChunkRecord.chunkHash

/-- The row of `file_versions` for the first version. -/
def firstVersion (session : UploadSessionRecord) (uploadedChunkRecords : List UploadedChunkRecord)
    (totalSize : ℕ) (now : Time) : FileVersionRecord where
  fileId := session.fileId
  version := 1
  chunkHashes := orderedHashes uploadedChunkRecords
  size := totalSize
  createdAt := now
  userId := session.userId

/-- What `finalizeUpload` does once it has found the upload complete. -/
def storeUpload (session : UploadSessionRecord) (sessionId : SessionId) (now : Time) :
    Async FileMetadata := do
  let uploadedChunkRecords ← store (.getUploadedChunks sessionId)
  let totalSize ← computeTotalSize (uploadedChunkRecords.map UploadedChunkRecord.chunkHash)
  let metadata := fileMetadata session totalSize now
  store (.createFile (fileRecord metadata))
  store (.createFileVersion (firstVersion session uploadedChunkRecords totalSize now))
  store (.updateUploadSession sessionId .completed)
  pure metadata

def finalizeUpload (sessionId : SessionId) (now : Time) : Async FileMetadata := do
  match ← store (.getUploadSession sessionId) with
  | none => reject s!"Session not found: {sessionId}"
  | some session =>
      let isComplete ← isUploadComplete sessionId
      if isComplete then storeUpload session sessionId now
      else reject s!"Upload not complete: {sessionId}"

/-- One iteration of the loop of `cleanupExpiredSessions`. -/
def cleanupSession (session : UploadSessionRecord) : Async Unit :=
  Program.attempt do
    store (.updateUploadSession session.sessionId .expired)
    store (.deleteUploadSession session.sessionId)

def cleanupExpiredSessions (now : Time) : Async Unit := do
  let expiredSessions ← store (.getExpiredSessions now)
  Program.forEach cleanupSession expiredSessions

/-! ## The runs -/

open Program

/-- Opening a session stores its row, which is active, or changes nothing. -/
theorem run_createSession_world (sessionId : SessionId) (fileId : FileId) (fileName : String)
    (totalChunks : ℤ) (userId : UserId) (now : Time) (world : World) :
    ((createSession sessionId fileId fileName totalChunks userId now).run exec world).2 = world ∨
      ∃ session db, session.status = .active ∧ world.store.createUploadSession session = .ok db ∧
        ((createSession sessionId fileId fileName totalChunks userId now).run exec world).2 =
          world.setStore db := by
  let session : UploadSessionRecord :=
    { sessionId := sessionId, fileId := fileId, fileName := fileName, totalChunks := totalChunks,
      userId := userId, createdAt := now, expiresAt := now + sessionExpiryDays * millisecondsPerDay,
      status := .active }
  have inserted : (store (.createUploadSession session)).run exec world =
      world.commit (world.store.createUploadSession session) := rfl
  cases created : world.store.createUploadSession session with
  | error failure =>
      rw [created] at inserted
      exact .inl (congrArg Prod.snd (run_bind_error exec inserted))
  | ok db =>
      rw [created] at inserted
      exact .inr ⟨session, db, rfl, created, congrArg Prod.snd (run_bind_ok exec inserted)⟩

/-- A session can be resumed while it is active and its date has not passed. -/
theorem resumeSession_resolves_iff (sessionId : SessionId) (now : Time) (world : World) :
    (∃ session, (resumeSession sessionId now).run exec world = (.ok session, world)) ↔
      ∃ session, world.store.getUploadSession sessionId = some session ∧
        session.status = .active ∧ now ≤ session.expiresAt := by
  have looked : (store (.getUploadSession sessionId)).run exec world =
      (.ok (world.store.getUploadSession sessionId), world) := rfl
  rw [resumeSession, run_bind_ok exec looked]
  cases found : world.store.getUploadSession sessionId with
  | none => simp [reject]
  | some session =>
      have listed : (store (.getUploadedChunks sessionId)).run exec world =
          (.ok (world.store.getUploadedChunks sessionId), world) := rfl
      dsimp only
      split_ifs with closed completed
      · simp only [reject, run_throw, Prod.mk.injEq, reduceCtorEq, false_and, exists_false,
          Option.some.injEq, exists_eq_left', false_iff, not_and, not_le]
        exact fun active => closed.resolve_left (by simp [active])
      · simp [reject, completed]
      · push Not at closed
        rw [run_bind_ok exec listed]
        refine iff_of_true ⟨_, rfl⟩ ⟨session, rfl, ?_, closed.2⟩
        cases status : session.status with
        | active => rfl
        | completed => exact absurd status completed
        | expired => exact absurd status closed.1

/-- Marking a chunk rejects and changes nothing, or its sequence number belongs to the session
and its row is stored. -/
theorem run_markChunkUploaded (sessionId : SessionId) (sequenceNumber : ℤ)
    (chunkHash : ChunkHash) (now uploadedAt : Time) (world : World) :
    (∃ failure, (markChunkUploaded sessionId sequenceNumber chunkHash now uploadedAt).run exec
        world = (.error failure, world)) ∨
      ∃ session db, world.store.getUploadSession sessionId = some session ∧
        0 ≤ sequenceNumber ∧ sequenceNumber < session.totalChunks ∧
        world.store.markChunkUploaded
          { sessionId := sessionId, sequenceNumber := sequenceNumber, chunkHash := chunkHash,
            uploadedAt := uploadedAt } = .ok db ∧
        (markChunkUploaded sessionId sequenceNumber chunkHash now uploadedAt).run exec world =
          (.ok (), world.setStore db) := by
  have looked : (store (.getUploadSession sessionId)).run exec world =
      (.ok (world.store.getUploadSession sessionId), world) := rfl
  rw [markChunkUploaded, run_bind_ok exec looked]
  cases found : world.store.getUploadSession sessionId with
  | none => exact .inl ⟨_, rfl⟩
  | some session =>
      dsimp only
      split_ifs with inactive expired outOfRange
      · exact .inl ⟨_, rfl⟩
      · exact .inl ⟨_, rfl⟩
      · exact .inl ⟨_, rfl⟩
      · let chunk : UploadedChunkRecord :=
          { sessionId := sessionId, sequenceNumber := sequenceNumber, chunkHash := chunkHash,
            uploadedAt := uploadedAt }
        push Not at outOfRange
        cases marked : world.store.markChunkUploaded chunk with
        | error failure => exact .inl ⟨failure, congrArg world.commit marked⟩
        | ok db =>
            exact .inr ⟨session, db, rfl, outOfRange.1, outOfRange.2, rfl,
              congrArg world.commit marked⟩

/-- Marking a chunk stores its row, or changes nothing. -/
theorem run_markChunkUploaded_world (sessionId : SessionId) (sequenceNumber : ℤ)
    (chunkHash : ChunkHash) (now uploadedAt : Time) (world : World) :
    ((markChunkUploaded sessionId sequenceNumber chunkHash now uploadedAt).run exec world).2 =
        world ∨
      ∃ chunk db, world.store.markChunkUploaded chunk = .ok db ∧
        ((markChunkUploaded sessionId sequenceNumber chunkHash now uploadedAt).run exec world).2 =
          world.setStore db := by
  rcases run_markChunkUploaded sessionId sequenceNumber chunkHash now uploadedAt world with
    ⟨failure, rejects⟩ | ⟨session, db, _, _, _, marked, resolves⟩
  · exact .inl (congrArg Prod.snd rejects)
  · exact .inr ⟨_, db, marked, congrArg Prod.snd resolves⟩

/-- What storing the file of a session does: the file first, then its version, then
the status of the session. -/
theorem run_storeUpload (session : UploadSessionRecord) (sessionId : SessionId) (now : Time)
    (world : World) :
    (storeUpload session sessionId now).run exec world =
      let marks := world.store.getUploadedChunks sessionId
      let totalSize := world.store.totalSize (marks.map UploadedChunkRecord.chunkHash)
      let metadata := fileMetadata session totalSize now
      match world.store.createFile (fileRecord metadata) with
      | .error failure => (.error failure, world)
      | .ok db =>
          match db.createFileVersion (firstVersion session marks totalSize now) with
          | .error failure => (.error failure, world.setStore db)
          | .ok stored =>
              (.ok metadata, world.setStore (stored.updateUploadSession sessionId .completed)) := by
  have listed : (store (.getUploadedChunks sessionId)).run exec world =
      (.ok (world.store.getUploadedChunks sessionId), world) := rfl
  rw [storeUpload, run_bind_ok exec listed, run_bind_ok exec (run_computeTotalSize _ world)]
  dsimp only
  generalize world.store.getUploadedChunks sessionId = marks
  generalize world.store.totalSize (marks.map UploadedChunkRecord.chunkHash) = totalSize
  have inserted : (store (.createFile (fileRecord (fileMetadata session totalSize now)))).run exec
      world = world.commit (world.store.createFile
        (fileRecord (fileMetadata session totalSize now))) := rfl
  cases created : world.store.createFile (fileRecord (fileMetadata session totalSize now)) with
  | error failure =>
      rw [created] at inserted
      exact run_bind_error exec inserted
  | ok db =>
      rw [created] at inserted
      refine (run_bind_ok exec inserted).trans ?_
      have versioned : (store (.createFileVersion (firstVersion session marks totalSize now))).run
          exec (world.setStore db) = (world.setStore db).commit
            (db.createFileVersion (firstVersion session marks totalSize now)) := rfl
      cases second : db.createFileVersion (firstVersion session marks totalSize now) with
      | error failure =>
          rw [second] at versioned
          dsimp only
          rw [second]
          exact run_bind_error exec versioned
      | ok stored =>
          rw [second] at versioned
          dsimp only
          rw [second]
          exact run_bind_ok exec versioned

/-- Finalizing changes the store only when the session exists and has as many marks
as chunks. -/
theorem run_finalizeUpload (sessionId : SessionId) (now : Time) (world : World) :
    (finalizeUpload sessionId now).run exec world =
      match world.store.getUploadSession sessionId with
      | none => (.error (.error s!"Session not found: {sessionId}"), world)
      | some session =>
          if ((world.store.getUploadedChunks sessionId).length : ℤ) = session.totalChunks then
            (storeUpload session sessionId now).run exec world
          else (.error (.error s!"Upload not complete: {sessionId}"), world) := by
  have looked : (store (.getUploadSession sessionId)).run exec world =
      (.ok (world.store.getUploadSession sessionId), world) := rfl
  rw [finalizeUpload, run_bind_ok exec looked]
  cases found : world.store.getUploadSession sessionId with
  | none => rfl
  | some session =>
      have complete : (isUploadComplete sessionId).run exec world =
          (.ok (decide (((world.store.getUploadedChunks sessionId).length : ℤ) =
            session.totalChunks)), world) := by
        rw [isUploadComplete, run_bind_ok exec looked, found]
        rfl
      dsimp only
      rw [run_bind_ok exec complete]
      by_cases all : ((world.store.getUploadedChunks sessionId).length : ℤ) = session.totalChunks
      · simp only [all, decide_true, if_true]
      · simp only [all, decide_false, Bool.false_eq_true, if_false]
        rfl

end UploadManager

end DistributedFileStorage.Upload
