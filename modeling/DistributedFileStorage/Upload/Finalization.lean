import DistributedFileStorage.Upload.UploadManager

/-!
# What a finalization stores

Without a fault a finalization resolves exactly when the session has all its marks and its file
is new. It stores the file, and version 1 with the hashes of the marks.

The size of both is added up over the marks, with multiplicity. A mark whose chunk has no row adds
nothing, and does not keep the finalization from storing its hash (`finalizeUpload_sizes`).
-/

set_option autoImplicit false

namespace DistributedFileStorage.Upload

open Async Store Services Relational UploadManager Program

/-- The file of the session and its first version are stored, with the hashes of the marks and
the sizes of those chunks that have a row. -/
structure StoresFirstVersion (session : UploadSessionRecord) (marks : List UploadedChunkRecord)
    (before after : Database) (metadata : FileMetadata) : Prop where
  fileId : metadata.fileId = session.fileId
  file : ∃ file, after.getFile session.fileId = some file ∧ file.totalSize = metadata.totalSize
  version : ∃ version, after.getFileVersion session.fileId 1 = some version ∧
    version.chunkHashes = orderedHashes marks ∧ version.size = metadata.totalSize
  totalSize : metadata.totalSize =
    ((marks.filterMap fun mark => before.getChunk mark.chunkHash).map ChunkRecord.size).sum

/-- Only chunks with a row have a size. -/
theorem totalSize_eq_filterMap (db : Database) (marks : List UploadedChunkRecord) :
    db.totalSize (marks.map UploadedChunkRecord.chunkHash) =
      ((marks.filterMap fun mark => db.getChunk mark.chunkHash).map ChunkRecord.size).sum := by
  unfold Database.totalSize
  induction marks with
  | nil => rfl
  | cons mark marks ih =>
      rw [List.map_cons, List.map_cons, List.sum_cons, ih]
      cases known : db.getChunk mark.chunkHash with
      | none =>
          rw [List.filterMap_cons, known]
          exact Nat.zero_add _
      | some chunk =>
          rw [List.filterMap_cons, known]
          rfl

/-- An accepted file is found afterwards. -/
theorem getFile_createFile {db created : Database} {file : FileRecord}
    (creates : db.createFile file = .ok created) : created.getFile file.fileId = some file := by
  obtain ⟨absent, _, _, rfl⟩ := Database.createFile_ok creates
  exact Table.find?_insertIfAbsent_self absent

/-- A new file and its first version are accepted, and found afterwards. -/
theorem exists_stored {db : Database} {session : UploadSessionRecord}
    (absent : db.getFile session.fileId = none) (marks : List UploadedChunkRecord)
    (totalSize : ℕ) (now : Time) :
    ∃ created stored, db.createFile (fileRecord (fileMetadata session totalSize now)) = .ok created ∧
      created.createFileVersion (firstVersion session marks totalSize now) = .ok stored ∧
      stored.getFile session.fileId = some (fileRecord (fileMetadata session totalSize now)) ∧
      stored.getFileVersion session.fileId 1 = some (firstVersion session marks totalSize now) := by
  have fresh : session.fileId ∉ db.files.keys := Table.find?_eq_none_iff.mp absent
  obtain ⟨created, creates⟩ : ∃ created,
      db.createFile (fileRecord (fileMetadata session totalSize now)) = .ok created :=
    Database.exists_createFile fresh
  obtain ⟨_, _, _, shape⟩ := Database.createFile_ok creates
  have versions : created.fileVersions = db.fileVersions := by rw [shape]
  have files : created.files =
      db.files.insertIfAbsent (fileRecord (fileMetadata session totalSize now)) := by rw [shape]
  -- a version belongs to a file, so the new file has none
  have unversioned : (firstVersion session marks totalSize now).primaryKey ∉
      created.fileVersions.keys := by
    rw [versions]
    intro taken
    obtain ⟨version, member, key⟩ := Table.mem_keys.mp taken
    obtain ⟨own, _⟩ := Prod.mk.inj key
    have present := db.versionFile version member
    rw [own] at present
    exact fresh present
  have present : (firstVersion session marks totalSize now).fileId ∈ created.files.keys := by
    rw [files]
    exact Table.mem_keys_insertIfAbsent.mpr (.inr rfl)
  obtain ⟨stored, stores⟩ := Database.exists_createFileVersion unversioned present
  obtain ⟨_, _, same⟩ := Database.createFileVersion_ok stores
  refine ⟨created, stored, creates, stores, ?_, (Database.find?_createFileVersion stores).2⟩
  have sameFiles : stored.files = created.files := by rw [same]
  rw [Database.getFile, sameFiles]
  exact getFile_createFile creates

/-- A finalization that resolves has found the session with all its marks. -/
theorem complete_of_finalizeUpload {sessionId : SessionId} {now : Time} {world after : World}
    {metadata : FileMetadata}
    (resolved : (finalizeUpload sessionId now).run exec world = (.ok metadata, after)) :
    ∃ session, world.store.getUploadSession sessionId = some session ∧
      ((world.store.getUploadedChunks sessionId).length : ℤ) = session.totalChunks := by
  rw [run_finalizeUpload] at resolved
  cases found : world.store.getUploadSession sessionId with
  | none =>
      rw [found] at resolved
      cases resolved
  | some session =>
      rw [found] at resolved
      dsimp only at resolved
      by_cases complete : ((world.store.getUploadedChunks sessionId).length : ℤ) =
          session.totalChunks
      · exact ⟨session, rfl, complete⟩
      · rw [if_neg complete] at resolved
        cases resolved

/-- **Without a fault a finalization of a complete session resolves exactly when its file is
new**; a chunk that has no row does not matter. It stores the file and its first version with
the hashes of all marks, and the size of both is the sum, over the marks whose chunk has a row,
of the sizes of these rows. -/
theorem finalizeUpload_sizes (sessionId : SessionId) (now : Time) (world : World)
    (session : UploadSessionRecord)
    (found : world.store.getUploadSession sessionId = some session)
    (complete : ((world.store.getUploadedChunks sessionId).length : ℤ) = session.totalChunks) :
    ((∃ metadata after, (finalizeUpload sessionId now).run exec world = (.ok metadata, after)) ↔
        world.store.getFile session.fileId = none) ∧
      ∀ metadata after, (finalizeUpload sessionId now).run exec world = (.ok metadata, after) →
        StoresFirstVersion session (world.store.getUploadedChunks sessionId) world.store after.store
          metadata := by
  have run := run_finalizeUpload sessionId now world
  rw [found] at run
  dsimp only at run
  rw [if_pos complete, run_storeUpload] at run
  dsimp only at run
  cases absent : world.store.getFile session.fileId with
  | some file =>
      have taken : session.fileId ∈ world.store.files.keys :=
        Table.isSome_find?_iff.mp (Option.isSome_iff_exists.mpr ⟨file, absent⟩)
      have rejects : world.store.createFile (fileRecord (fileMetadata session
          (world.store.totalSize ((world.store.getUploadedChunks sessionId).map
            UploadedChunkRecord.chunkHash)) now)) = .error (.uniqueViolation "files_pkey") :=
        if_pos taken
      rw [rejects] at run
      refine ⟨iff_of_false ?_ nofun, ?_⟩
      · rintro ⟨metadata, after, resolved⟩
        cases run.symm.trans resolved
      · intro metadata after resolved
        cases run.symm.trans resolved
  | none =>
      obtain ⟨created, stored, creates, stores, file, version⟩ := exists_stored absent
        (world.store.getUploadedChunks sessionId)
        (world.store.totalSize ((world.store.getUploadedChunks sessionId).map
          UploadedChunkRecord.chunkHash)) now
      rw [creates] at run
      dsimp only at run
      rw [stores] at run
      refine ⟨iff_of_true ⟨_, _, run⟩ rfl, ?_⟩
      rintro metadata after resolved
      obtain ⟨same, rfl⟩ := Prod.mk.inj (run.symm.trans resolved)
      obtain rfl := Except.ok.inj same
      exact ⟨rfl, ⟨_, file, rfl⟩, ⟨_, version, rfl, rfl⟩, totalSize_eq_filterMap _ _⟩

/-! ## A chunk without a row -/

/-- A session with one chunk. -/
def oneChunkSession : UploadSessionRecord :=
  { sessionId := upload, fileId := notes, fileName := "notes.txt", totalChunks := 1,
    userId := "ada", createdAt := 0, expiresAt := 7, status := .active }

/-- The positions of a session are marked, whether their chunks have rows or not. -/
def marked (session : UploadSessionRecord) (chunks : List ChunkRecord) (hashes : List ChunkHash) :
    World :=
  let marking : Async Unit := do
    Program.forEach (fun chunk => store (.createChunk chunk)) chunks
    store (.createUploadSession session)
    Program.forEach (fun mark => store (.markChunkUploaded
      { sessionId := session.sessionId, sequenceNumber := mark.2, chunkHash := mark.1,
        uploadedAt := 0 })) hashes.zipIdx
  (marking.run exec (.ofStore .empty)).2

/-- A chunk of five bytes. -/
def fiveByteChunk : ChunkRecord :=
  { chunkHash := "aa", size := 5, encryptedSize := 5, referenceCount := 1, createdAt := 0 }

/-- The one chunk has five bytes. -/
def fiveBytes : World := marked oneChunkSession [fiveByteChunk] ["aa"]

/-- A session with three chunks. -/
def threeChunkSession : UploadSessionRecord := { oneChunkSession with totalChunks := 3 }

/-- Two of the chunks are the same one, and the third one has no row. -/
def repeatedBytes : World := marked threeChunkSession [fiveByteChunk] ["aa", "aa", "bb"]

/-- The chunk that is marked twice counts twice, and the one without a row counts nothing. -/
theorem finalizeUpload_sizes_repeated :
    ∃ metadata after, (finalizeUpload upload 3).run exec repeatedBytes = (.ok metadata, after) ∧
      metadata.totalSize = 10 ∧
        ∃ version, after.store.getFileVersion notes 1 = some version ∧
          version.chunkHashes = ["aa", "aa", "bb"] ∧ version.size = 10 := by
  obtain ⟨resolves, stores⟩ := finalizeUpload_sizes upload 3 repeatedBytes threeChunkSession
    (by decide +kernel) (by decide +kernel)
  obtain ⟨metadata, after, resolved⟩ := resolves.mpr (by decide +kernel)
  have stored := stores metadata after resolved
  have total : metadata.totalSize = 10 := stored.totalSize.trans (by decide +kernel)
  obtain ⟨version, found, hashes, size⟩ := stored.version
  exact ⟨metadata, after, resolved, total, version, found, hashes.trans (by decide +kernel),
    size.trans total⟩

/-- The one chunk has no row. -/
def unknownChunk : World := marked oneChunkSession [] ["aa"]

/-- **A chunk without a row is finalized all the same**: the version refers to it, and its size
is zero. -/
theorem finalizeUpload_unknownChunk :
    unknownChunk.store.getUploadSession upload = some oneChunkSession ∧
      ((unknownChunk.store.getUploadedChunks upload).length : ℤ) =
        oneChunkSession.totalChunks ∧
      ((finalizeUpload upload 3).run exec unknownChunk).1 =
        .ok (fileMetadata oneChunkSession 0 3) ∧
      (((finalizeUpload upload 3).run exec unknownChunk).2.store.getFileVersion notes 1).map
        FileVersionRecord.chunkHashes = some ["aa"] ∧
      unknownChunk.store.getChunk "aa" = none := by
  decide +kernel

end DistributedFileStorage.Upload
