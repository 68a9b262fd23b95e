import DistributedFileStorage.Lifecycle.ReferenceCounts
import DistributedFileStorage.Upload.UploadManager

/-!
# What garbage collection deletes

A collection deletes a chunk when its reference count is zero, so it is safe as long
as the count of every chunk in use is positive. Versions come from two functions.
`createVersion` counts the chunks of the version that it stores. `finalizeUpload`
stores version 1 of a new file and counts nothing.

The module follows histories in which sessions are finalized too. As long as no
finalized session stores a version with a chunk in it, the counts stay exact and no
collection deletes a chunk that a version uses (`collectsSafely`). One finalized
session with one chunk is enough for the next collection to delete that chunk
(`finalized_chunk_collected`).
-/

set_option autoImplicit false

namespace DistributedFileStorage.Store.Database

open Relational Upload

/-- Finalizing the session stores a version that uses a chunk: all its marks are
there, at least one, and its file is new. -/
def FinalizesChunks (db : Database) (sessionId : SessionId) : Prop :=
  ∃ session, db.getUploadSession sessionId = some session ∧
    ((db.getUploadedChunks sessionId).length : ℤ) = session.totalChunks ∧
    session.fileId ∉ db.files.keys ∧ db.getUploadedChunks sessionId ≠ []

/-- The two databases have the same versions and the same chunks. -/
structure SameVersionsAndChunks (before after : Database) : Prop where
  fileVersions : after.fileVersions = before.fileVersions
  chunks : after.chunks = before.chunks

theorem SameVersionsAndChunks.referenceCountsExact {before after : Database}
    (same : SameVersionsAndChunks before after) (exact : before.ReferenceCountsExact) :
    after.ReferenceCountsExact :=
  exact.congr same.fileVersions fun chunkHash =>
    congrArg (Table.find? · chunkHash) same.chunks

theorem sameVersionsAndChunks_createUploadSession {db stored : Database}
    {session : UploadSessionRecord} (created : db.createUploadSession session = .ok stored) :
    SameVersionsAndChunks db stored := by
  unfold createUploadSession at created
  split at created
  · cases created
  · rw [← Except.ok.inj created]
    exact ⟨rfl, rfl⟩

theorem sameVersionsAndChunks_markChunkUploaded {db stored : Database}
    {chunk : UploadedChunkRecord} (marked : db.markChunkUploaded chunk = .ok stored) :
    SameVersionsAndChunks db stored := by
  unfold markChunkUploaded at marked
  split at marked
  · rw [← Except.ok.inj marked]
    exact ⟨rfl, rfl⟩
  · cases marked

theorem sameVersionsAndChunks_createFile {db stored : Database} {file : FileRecord}
    (created : db.createFile file = .ok stored) : SameVersionsAndChunks db stored := by
  obtain ⟨_, _, _, rfl⟩ := createFile_ok created
  exact ⟨rfl, rfl⟩

end DistributedFileStorage.Store.Database

namespace DistributedFileStorage.Lifecycle

open Async Store Services Versioning Background Upload Relational Database

/-! ## Histories with uploads -/

/-- A call as in `VersionStep`, or a call of the upload manager. The sessions that may
be finalized are a parameter. -/
inductive LifecycleStep (storageNodes : List NodeId)
    (mayFinalize : Database → SessionId → Prop) : World → World → Prop where
  | version {before after : World} (step : VersionStep storageNodes before after) :
      LifecycleStep storageNodes mayFinalize before after
  | createSession {world : World} (sessionId : SessionId) (fileId : FileId) (fileName : String)
      (totalChunks : ℤ) (userId : UserId) (now : Time) :
      LifecycleStep storageNodes mayFinalize world
        ((UploadManager.createSession sessionId fileId fileName totalChunks userId now).run exec
          world).2
  | markChunkUploaded {world : World} (sessionId : SessionId) (sequenceNumber : ℤ)
      (chunkHash : ChunkHash) (now uploadedAt : Time) :
      LifecycleStep storageNodes mayFinalize world
        ((UploadManager.markChunkUploaded sessionId sequenceNumber chunkHash now uploadedAt).run
          exec world).2
  | finalizeUpload {world : World} (sessionId : SessionId) (now : Time)
      (allowed : mayFinalize world.store sessionId) :
      LifecycleStep storageNodes mayFinalize world
        ((UploadManager.finalizeUpload sessionId now).run exec world).2

/-- A collection that starts here deletes neither the row nor the bytes of a chunk
that a version uses. -/
def CollectsSafely (storageNodes : List NodeId) (world : World) : Prop :=
  ∀ chunkHash, world.store.Uses chunkHash →
    let collected := ((BackgroundJobs.garbageCollect storageNodes).run exec world).2
    collected.store.getChunk chunkHash = world.store.getChunk chunkHash ∧
      ∀ nodeId, collected.bytes nodeId chunkHash = world.bytes nodeId chunkHash

/-- Exact counts make a collection safe. -/
theorem collectsSafely_of_exact {world : World} (exact : world.store.ReferenceCountsExact)
    (storageNodes : List NodeId) : CollectsSafely storageNodes world := by
  intro chunkHash uses
  obtain ⟨collected, run, stored, bytes⟩ := BackgroundJobs.run_garbageCollect storageNodes world
  have kept := exact.not_orphaned uses
  rw [run]
  constructor
  · rw [stored, getChunk_deleteChunks, if_neg kept]
  · exact fun nodeId => bytes nodeId chunkHash kept

/-- A finalized session that stores no chunk keeps the counts exact: when it stores a
version at all, the version is empty. -/
theorem finalizeUpload_referenceCountsExact {world : World} {sessionId : SessionId} {now : Time}
    (harmless : ¬ world.store.FinalizesChunks sessionId)
    (exact : world.store.ReferenceCountsExact) :
    ((UploadManager.finalizeUpload sessionId now).run exec world).2.store.ReferenceCountsExact := by
  rw [UploadManager.run_finalizeUpload]
  cases found : world.store.getUploadSession sessionId with
  | none => exact exact
  | some session =>
      by_cases complete :
          ((world.store.getUploadedChunks sessionId).length : ℤ) = session.totalChunks
      · simp only [if_pos complete, UploadManager.run_storeUpload]
        generalize metadata : UploadManager.fileMetadata session _ now = file
        have sameFile : (UploadManager.fileRecord file).fileId = session.fileId := by
          rw [← metadata]
          rfl
        cases created : world.store.createFile (UploadManager.fileRecord file) with
        | error failure => exact exact
        | ok db =>
            have fresh : session.fileId ∉ world.store.files.keys := by
              rw [← sameFile]
              unfold createFile at created
              split at created
              · cases created
              · assumption
            have unmarked : world.store.getUploadedChunks sessionId = [] := by
              by_contra marked
              exact harmless ⟨session, found, complete, fresh, marked⟩
            have withFile := (sameVersionsAndChunks_createFile created).referenceCountsExact exact
            dsimp only
            cases versioned : db.createFileVersion (UploadManager.firstVersion session
                (world.store.getUploadedChunks sessionId) _ now) with
            | error failure => exact withFile
            | ok stored =>
                rw [unmarked] at versioned
                exact (withFile.createVersion versioned fun chunkHash used => nomatch used).congr
                  rfl fun _ => rfl
      · simp only [if_neg complete]
        exact exact

/-- **Every call that finalizes no chunk keeps the reference counts exact.** -/
theorem LifecycleStep.referenceCountsExact {storageNodes : List NodeId} {before after : World}
    (step : LifecycleStep storageNodes (fun db sessionId => ¬ db.FinalizesChunks sessionId)
      before after)
    (exact : before.store.ReferenceCountsExact) : after.store.ReferenceCountsExact := by
  cases step with
  | version step => exact step.referenceCountsExact exact
  | createSession sessionId fileId fileName totalChunks userId now =>
      rcases UploadManager.run_createSession_world sessionId fileId fileName totalChunks userId now
        before with unchanged | ⟨session, db, _, created, stored⟩
      · rw [unchanged]
        exact exact
      · rw [stored]
        exact (sameVersionsAndChunks_createUploadSession created).referenceCountsExact exact
  | markChunkUploaded sessionId sequenceNumber chunkHash now uploadedAt =>
      rcases UploadManager.run_markChunkUploaded_world sessionId sequenceNumber chunkHash now
        uploadedAt before with unchanged | ⟨chunk, db, marked, stored⟩
      · rw [unchanged]
        exact exact
      · rw [stored]
        exact (sameVersionsAndChunks_markChunkUploaded marked).referenceCountsExact exact
  | finalizeUpload sessionId now harmless =>
      exact finalizeUpload_referenceCountsExact harmless exact

/-- **As long as no finalized session stores a chunk, every collection is safe**, in
every state reached. -/
theorem collectsSafely {storageNodes : List NodeId} {start reached : World}
    (fresh : Fresh start)
    (run : Relation.ReflTransGen (LifecycleStep storageNodes
      fun db sessionId => ¬ db.FinalizesChunks sessionId) start reached) :
    CollectsSafely storageNodes reached := by
  have exact : reached.store.ReferenceCountsExact := by
    induction run with
    | refl => exact fresh.referenceCountsExact
    | tail _ step ih => exact step.referenceCountsExact ih
  exact collectsSafely_of_exact exact storageNodes

/-- A chunk without a reference. -/
def unreferenced (chunkHash : ChunkHash) : ChunkRecord :=
  { chunkHash := chunkHash, size := 4, encryptedSize := 4, referenceCount := 0, createdAt := 0 }

/-- A file that is uploaded empty and then gets a version keeps its chunk. -/
theorem collectsSafely_empty_upload :
    ∃ reached : World, CollectsSafely ["node"] reached ∧
      (reached.store.getFileVersion notes 2).map FileVersionRecord.chunkHashes = some ["aa"] := by
  have run := Relation.ReflTransGen.refl (a := World.ofStore .empty)
      (r := LifecycleStep ["node"] fun db sessionId => ¬ db.FinalizesChunks sessionId)
    |>.tail (.createSession upload notes "notes.txt" 0 "ada" 0)
    |>.tail (.finalizeUpload upload 1 fun ⟨_, _, _, _, marked⟩ => marked (by decide))
    |>.tail (.version (.createChunk (unreferenced "aa") rfl))
    |>.tail (.version (.createVersion notes ["aa"] "ada" 2 (by decide)))
  exact ⟨_, collectsSafely ⟨rfl, rfl⟩ run, by decide⟩

/-- **A finalized upload of one chunk loses the chunk to the next collection.** The
version uses it, and its count is still zero. -/
theorem finalized_chunk_collected :
    ∃ start reached, Fresh start ∧
      Relation.ReflTransGen (LifecycleStep ["node"] fun _ _ => True) start reached ∧
      ¬ CollectsSafely ["node"] reached := by
  have run := Relation.ReflTransGen.refl (a := World.ofStore .empty)
      (r := LifecycleStep ["node"] fun _ _ => True)
    |>.tail (.version (.createChunk (unreferenced "aa") rfl))
    |>.tail (.createSession upload notes "notes.txt" 1 "ada" 0)
    |>.tail (.markChunkUploaded upload 0 "aa" 1 1)
    |>.tail (.finalizeUpload upload 2 trivial)
  refine ⟨_, _, ⟨rfl, rfl⟩, run, fun safe => ?_⟩
  have lost := (safe "aa" (by decide)).1
  revert lost
  decide

end DistributedFileStorage.Lifecycle
