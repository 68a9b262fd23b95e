import DistributedFileStorage.Upload.Finalization

/-!
# A finalization that fails in between

A finalization first reads: the session twice, its marks twice, and the chunk of each mark. Then
it makes three changes, each a statement of its own and none of them in a transaction: it inserts
the file, inserts the version and completes the session.

When one of the calls fails, the finalization rejects. Up to the insertion of the file this has
changed nothing, and the finalization can be repeated. A failure of one of the last two calls
leaves the file behind, and the insertion that a repetition begins with is then rejected
(`finalizeUpload_allOrNothing_iff`).
-/

set_option autoImplicit false

namespace DistributedFileStorage.Upload

open Async Store Services Relational Nodes UploadManager Program

/-! ## The reads of a finalization -/

/-- Adding up the sizes takes one call for each hash. -/
theorem reads_computeTotalSize (chunkHashes : List ChunkHash) (world : World) :
    ReadsUpTo exec Call.faults (computeTotalSize chunkHashes) world chunkHashes.length
      (pure (world.store.totalSize chunkHashes)) := by
  suffices general : ∀ start, ReadsUpTo exec Call.faults
      (Program.foldEach addChunkSize start chunkHashes) world chunkHashes.length
        (pure (start + world.store.totalSize chunkHashes)) by
    have fromZero := general 0
    rwa [Nat.zero_add] at fromZero
  induction chunkHashes with
  | nil => exact fun start => .refl _
  | cons chunkHash rest ih =>
      intro start
      have here : ReadsUpTo exec Call.faults (addChunkSize start chunkHash) world (1 + 0)
          (pure (start + ((world.store.getChunk chunkHash).map ChunkRecord.size).getD 0)) := by
        refine .bind (.perform rfl (fun _ => rfl) rfl) ?_
        cases world.store.getChunk chunkHash with
        | none => exact .refl _
        | some chunk => exact .refl _
      have both : ReadsUpTo exec Call.faults
          (Program.foldEach addChunkSize start (chunkHash :: rest)) world (1 + 0 + rest.length) _ :=
        here.bind (ih _)
      rw [Nat.add_zero, Nat.add_comm 1, Nat.add_assoc] at both
      exact both

/-- The three changes of a finalization. -/
def writeUpload (session : UploadSessionRecord) (sessionId : SessionId)
    (marks : List UploadedChunkRecord) (totalSize : ℕ) (now : Time) : Async FileMetadata := do
  store (.createFile (fileRecord (fileMetadata session totalSize now)))
  store (.createFileVersion (firstVersion session marks totalSize now))
  store (.updateUploadSession sessionId .completed)
  pure (fileMetadata session totalSize now)

/-- How often a finalization reads before it inserts the file. -/
def readCalls (marks : List UploadedChunkRecord) : ℕ := marks.length + 4

variable {sessionId : SessionId} {now : Time} {world : World} {session : UploadSessionRecord}

/-- **A finalization of a complete session reads, and then writes.** -/
theorem reads_finalizeUpload (found : world.store.getUploadSession sessionId = some session)
    (complete : ((world.store.getUploadedChunks sessionId).length : ℤ) = session.totalChunks)
    (now : Time) :
    ReadsUpTo exec Call.faults (finalizeUpload sessionId now) world
      (readCalls (world.store.getUploadedChunks sessionId))
      (writeUpload session sessionId (world.store.getUploadedChunks sessionId)
        (world.store.totalSize ((world.store.getUploadedChunks sessionId).map
          UploadedChunkRecord.chunkHash)) now) := by
  have finds : ReadsUpTo exec Call.faults (store (.getUploadSession sessionId)) world 1
      (pure (some session)) := by
    refine .perform rfl (fun _ => rfl) ?_
    rw [← found]
    rfl
  have lists : ReadsUpTo exec Call.faults (store (.getUploadedChunks sessionId)) world 1
      (pure (world.store.getUploadedChunks sessionId)) :=
    .perform rfl (fun _ => rfl) rfl
  have completes : ReadsUpTo exec Call.faults (isUploadComplete sessionId) world (1 + (1 + 0))
      (pure true) := by
    refine finds.bind (lists.bind ?_)
    rw [complete, decide_eq_true rfl]
    exact .refl _
  have stores : ReadsUpTo exec Call.faults (storeUpload session sessionId now) world _
      (writeUpload session sessionId (world.store.getUploadedChunks sessionId) _ now) :=
    lists.bind ((reads_computeTotalSize _ world).bind (.refl _))
  have whole : ReadsUpTo exec Call.faults (finalizeUpload sessionId now) world _ _ :=
    finds.bind (completes.bind stores)
  rw [List.length_map] at whole
  have calls : 1 + (1 + (1 + 0) + (1 + ((world.store.getUploadedChunks sessionId).length + 0))) =
      readCalls (world.store.getUploadedChunks sessionId) := by
    unfold readCalls
    omega
  rwa [calls] at whole

/-! ## The writes of a finalization -/

/-- A finalization that rejects has left the files, the versions and the sessions as they were,
and a repetition without a fault ends as one before it would have: with the same outcome, the
same files and the same versions. -/
structure AllOrNothing (sessionId : SessionId) (before after : World) : Prop where
  files : after.store.files = before.store.files
  fileVersions : after.store.fileVersions = before.store.fileVersions
  uploadSessions : after.store.uploadSessions = before.store.uploadSessions
  retries : ∀ later : Time,
    let retried := (finalizeUpload sessionId later).run exec after
    let unfaulted := (finalizeUpload sessionId later).run exec before
    retried.1 = unfaulted.1 ∧ retried.2.store.files = unfaulted.2.store.files ∧
      retried.2.store.fileVersions = unfaulted.2.store.fileVersions

theorem AllOrNothing.refl (sessionId : SessionId) (world : World) :
    AllOrNothing sessionId world world :=
  ⟨rfl, rfl, rfl, fun _ => ⟨rfl, rfl, rfl⟩⟩

/-- When the file exists, its insertion is rejected. -/
theorem createFile_of_exists {db : Database} (exists_ : db.getFile session.fileId ≠ none)
    (totalSize : ℕ) (now : Time) :
    db.createFile (fileRecord (fileMetadata session totalSize now)) =
      .error (.uniqueViolation "files_pkey") := by
  obtain ⟨file, present⟩ := Option.ne_none_iff_exists'.mp exists_
  have taken : session.fileId ∈ db.files.keys :=
    Table.isSome_find?_iff.mp (Option.isSome_iff_exists.mpr ⟨file, present⟩)
  exact if_pos taken

variable {marks : List UploadedChunkRecord} {totalSize : ℕ}

/-- When the file exists, nothing is written, whichever call fails. -/
theorem run_writeUpload_exists (exists_ : world.store.getFile session.fileId ≠ none)
    (working : ℕ) (fault : Failure × Option Buffer) (later : FaultPattern) :
    ∃ other rest, (writeUpload session sessionId marks totalSize now).run
        (exec.underPattern Call.faults) (world, failingAfter working fault later) =
      (.error other, world, rest) := by
  unfold writeUpload
  cases working with
  | zero => exact ⟨_, _, run_call_fails rfl⟩
  | succ working =>
      exact ⟨_, _, run_call_rejects rfl
        (congrArg world.commit (createFile_of_exists exists_ totalSize now))⟩

/-- **What a failure among the writes of a new file leaves.** -/
theorem run_writeUpload_absent {created stored : Database}
    (creates : world.store.createFile (fileRecord (fileMetadata session totalSize now)) =
      .ok created)
    (stores : created.createFileVersion (firstVersion session marks totalSize now) = .ok stored)
    (working : ℕ) (fault : Failure × Option Buffer) (later : FaultPattern) :
    ∃ rest, (writeUpload session sessionId marks totalSize now).run
        (exec.underPattern Call.faults) (world, failingAfter working fault later) =
      match working with
      | 0 => (.error fault.1, world, rest)
      | 1 => (.error fault.1, world.setStore created, rest)
      | 2 => (.error fault.1, world.setStore stored, rest)
      | _ + 3 => (.ok (fileMetadata session totalSize now),
          world.setStore (stored.updateUploadSession sessionId .completed), rest) := by
  have first : exec (.store (.createFile (fileRecord (fileMetadata session totalSize now)))) world =
      (.ok (), world.setStore created) := congrArg world.commit creates
  have second : exec (.store (.createFileVersion (firstVersion session marks totalSize now)))
      (world.setStore created) = (.ok (), world.setStore stored) :=
    congrArg (world.setStore created).commit stores
  unfold writeUpload
  match working with
  | 0 => exact ⟨_, run_call_fails rfl⟩
  | 1 =>
      refine ⟨later, ?_⟩
      rw [run_call_works rfl first, run_call_fails rfl]
      rfl
  | 2 =>
      refine ⟨later, ?_⟩
      rw [run_call_works rfl first, run_call_works rfl second, run_call_fails rfl]
      rfl
  | working + 3 =>
      refine ⟨failingAfter working fault later, ?_⟩
      rw [run_call_works rfl first, run_call_works rfl second, run_call_works rfl rfl]
      rfl

/-- **A finalization is all-or-nothing exactly when the call that fails is none of the last
two**: it is one of the reads or the insertion of the file, or the finalization has made all its
calls before it. When the file exists already, no call comes after its insertion. -/
theorem finalizeUpload_allOrNothing_iff (sessionId : SessionId) (now : Time) (world : World)
    (session : UploadSessionRecord)
    (found : world.store.getUploadSession sessionId = some session)
    (complete : ((world.store.getUploadedChunks sessionId).length : ℤ) = session.totalChunks)
    (working : ℕ) (fault : Failure × Option Buffer) (later : FaultPattern) :
    let ended := (finalizeUpload sessionId now).run (exec.underPattern Call.faults)
      (world, failingAfter working fault later)
    ((∃ rejection, ended.1 = .error rejection) → AllOrNothing sessionId world ended.2.1) ↔
      world.store.getFile session.fileId ≠ none ∨
        working ≤ readCalls (world.store.getUploadedChunks sessionId) ∨
        readCalls (world.store.getUploadedChunks sessionId) + 3 ≤ working := by
  have reads := reads_finalizeUpload found complete now working fault later
  dsimp only
  rw [reads]
  by_cases early : working < readCalls (world.store.getUploadedChunks sessionId)
  · rw [if_pos early]
    exact iff_of_true (fun _ => .refl sessionId world) (.inr (.inl early.le))
  rw [if_neg early]
  generalize readCalls (world.store.getUploadedChunks sessionId) = calls at early ⊢
  obtain ⟨writes, rfl⟩ := Nat.exists_eq_add_of_le (not_lt.mp early)
  rw [Nat.add_sub_cancel_left]
  by_cases absent : world.store.getFile session.fileId = none
  swap
  · obtain ⟨other, rest, run⟩ := run_writeUpload_exists absent writes fault later
    rw [run]
    exact iff_of_true (fun _ => .refl sessionId world) (.inl absent)
  obtain ⟨created, stored, creates, stores, file, version⟩ := exists_stored absent
    (world.store.getUploadedChunks sessionId) (world.store.totalSize
      ((world.store.getUploadedChunks sessionId).map UploadedChunkRecord.chunkHash)) now
  obtain ⟨rest, run⟩ := run_writeUpload_absent creates stores writes fault later
  rw [run]
  -- the file is there after its insertion, and was not there before
  have residue : ∀ after : World, after.store.getFile session.fileId =
      some (fileRecord (fileMetadata session (world.store.totalSize
        ((world.store.getUploadedChunks sessionId).map UploadedChunkRecord.chunkHash)) now)) →
      ¬ AllOrNothing sessionId world after := by
    intro after present unchanged
    rw [Database.getFile, unchanged.files] at present
    cases absent.symm.trans present
  obtain _ | _ | _ | writes := writes
  · exact iff_of_true (fun _ => .refl sessionId world) (.inr (.inl le_rfl))
  · refine iff_of_false (fun property => ?_) (by simp [absent])
    exact residue _ (getFile_createFile creates) (property ⟨fault.1, rfl⟩)
  · refine iff_of_false (fun property => ?_) (by simp [absent])
    exact residue _ file (property ⟨fault.1, rfl⟩)
  · refine iff_of_true ?_ (.inr (.inr (by omega)))
    rintro ⟨rejection, rejects⟩
    cases rejects

/-! ## The insertion of the version fails -/

/-- A failure of the insertion of the file leaves nothing behind. -/
theorem finalizeUpload_allOrNothing_createFile :
    AllOrNothing upload fiveBytes ((finalizeUpload upload 3).run
      (exec.underPattern Call.faults)
      (fiveBytes, failingAfter 5 (.error "connection terminated", none) [])).2.1 := by
  refine (finalizeUpload_allOrNothing_iff upload 3 fiveBytes oneChunkSession (by decide +kernel)
    (by decide +kernel) 5 (.error "connection terminated", none) []).mpr (.inr (.inl ?_))
    ⟨.error "connection terminated", ?_⟩
  · decide +kernel
  · decide +kernel

/-- **A failure of the insertion of the version leaves the file behind**: the finalization
rejects, and so does every repetition, although one before it would have resolved. -/
theorem finalizeUpload_leavesFile :
    let ended := (finalizeUpload upload 3).run (exec.underPattern Call.faults)
      (fiveBytes, failingAfter 6 (.error "connection terminated", none) [])
    fiveBytes.store.getUploadSession upload = some oneChunkSession ∧
      ended.1 = .error (.error "connection terminated") ∧
      fiveBytes.store.getFile notes = none ∧ ended.2.1.store.getFile notes ≠ none ∧
      ((finalizeUpload upload 4).run exec ended.2.1).1 =
        .error (.uniqueViolation "files_pkey") ∧
      ((finalizeUpload upload 4).run exec fiveBytes).1 =
        .ok (fileMetadata oneChunkSession 5 4) := by
  decide +kernel

end DistributedFileStorage.Upload
