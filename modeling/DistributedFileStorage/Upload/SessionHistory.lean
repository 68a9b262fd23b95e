import DistributedFileStorage.Background.SessionCleanup

/-!
# The life of upload sessions

A session is opened, its chunks are marked, and it is finalized or cleaned up. Its status changes
from active to completed or to expired, and the date of the session is the end of both.
`resumeSession` and `markChunkUploaded` check the status and the date. `finalizeUpload` checks
neither, so that it also completes a session that is over.

The histories are sequential. Any call of the store in a cleanup may fail, so that a cleanup can
leave a session marked as expired. A history is lawful exactly when no call finalizes a session
that is over (`lawful_iff_inTime`).
-/

set_option autoImplicit false

namespace DistributedFileStorage.Upload

open Async Store Services Background Relational

/-! ## Histories -/

/-- A call on the sessions. -/
inductive SessionAction where
  | createSession (sessionId : SessionId) (fileId : FileId) (fileName : String) (totalChunks : ℤ)
      (userId : UserId)
  | markChunkUploaded (sessionId : SessionId) (sequenceNumber : ℤ) (chunkHash : ChunkHash)
      (uploadedAt : Time)
  | finalizeUpload (sessionId : SessionId)
  | cleanupExpiredSessions (cleaner : Cleaner)

namespace SessionAction

def program (now : Time) : SessionAction → Async Unit
  | createSession sessionId fileId fileName totalChunks userId =>
      UploadManager.createSession sessionId fileId fileName totalChunks userId now >>=
        fun _ => pure ()
  | markChunkUploaded sessionId sequenceNumber chunkHash uploadedAt =>
      UploadManager.markChunkUploaded sessionId sequenceNumber chunkHash now uploadedAt
  | finalizeUpload sessionId => UploadManager.finalizeUpload sessionId now >>= fun _ => pure ()
  | cleanupExpiredSessions cleaner => cleaner.cleanupExpiredSessions now

/-- The calls of the store in a cleanup may fail. -/
def semantics : SessionAction → Semantics system World
  | cleanupExpiredSessions _ => faulty
  | _ => exec.semantics

end SessionAction

/-- A call, when it was made, and what it did. -/
structure SessionStep where
  action : SessionAction
  now : Time
  before : World
  outcome : Except Failure Unit
  after : World

/-- The step is a run of its call. -/
def SessionStep.Happens (step : SessionStep) : Prop :=
  Runs step.action.semantics (step.action.program step.now) step.before step.outcome step.after

/-- The histories from a state without sessions. -/
inductive SessionHistory : List SessionStep → World → Prop where
  | start {origin : World} (none : origin.store.uploadSessions.rows = []) : SessionHistory [] origin
  | next {steps : List SessionStep} {step : SessionStep}
      (earlier : SessionHistory steps step.before)
      (happens : step.Happens) : SessionHistory (steps ++ [step]) step.after

/-! ## The law -/

/-- What may happen to the status of a session: an active one is completed by a finalization
that is in time, or expires. A finalization resolves only when the session could be resumed. -/
structure Lawful (step : SessionStep) : Prop where
  transition : ∀ sessionId earlier later,
    step.before.store.getUploadSession sessionId = some earlier →
    step.after.store.getUploadSession sessionId = some later → later.status ≠ earlier.status →
      earlier.status = .active ∧ (later.status = .expired ∨ later.status = .completed ∧
        step.action = .finalizeUpload sessionId ∧ step.now ≤ earlier.expiresAt)
  resumable : ∀ sessionId, step.action = .finalizeUpload sessionId → step.outcome = .ok () →
    ∃ session, (UploadManager.resumeSession sessionId step.now).run exec step.before =
      (.ok session, step.before)

/-- The session has all its marks, and its file is not there. -/
structure Finalizable (db : Database) (sessionId : SessionId) (session : UploadSessionRecord) :
    Prop where
  found : db.getUploadSession sessionId = some session
  complete : ((db.getUploadedChunks sessionId).length : ℤ) = session.totalChunks
  absent : session.fileId ∉ db.files.keys

/-- A finalization that can store the upload of its session comes before the session is over. -/
def InTime (step : SessionStep) : Prop :=
  ∀ sessionId session, step.action = .finalizeUpload sessionId →
    Finalizable step.before.store sessionId session →
      session.status ≠ .expired ∧ step.now ≤ session.expiresAt

/-- The file of a completed session is there. -/
def CompletedStored (db : Database) : Prop :=
  ∀ session ∈ db.uploadSessions.rows, session.status = .completed → session.fileId ∈ db.files.keys

/-! ## Finalizations -/

/-- A finalization rejects and changes nothing, when it cannot store the upload. -/
theorem run_finalizeUpload_of_not {world : World} {sessionId : SessionId}
    (not : ∀ session, ¬ Finalizable world.store sessionId session) (now : Time) :
    ∃ failure,
      (UploadManager.finalizeUpload sessionId now).run exec world = (.error failure, world) := by
  rw [UploadManager.run_finalizeUpload]
  cases found : world.store.getUploadSession sessionId with
  | none => exact ⟨_, rfl⟩
  | some session =>
      dsimp only
      split
      · rename_i complete
        have present : session.fileId ∈ world.store.files.keys := by
          by_contra absent
          exact not session ⟨found, complete, absent⟩
        rw [UploadManager.run_storeUpload]
        dsimp only
        split
        · exact ⟨_, rfl⟩
        · rename_i created
          exact absurd present (Database.createFile_ok created).1
      · exact ⟨_, rfl⟩

/-- A finalization that can store the upload of its session does, whatever the status and the date
of the session. -/
theorem run_finalizeUpload_of_finalizable {world : World} {sessionId : SessionId}
    {session : UploadSessionRecord} (finalizable : Finalizable world.store sessionId session)
    (now : Time) :
    ∃ metadata, ∃ db : Database, (UploadManager.finalizeUpload sessionId now).run exec world =
        (.ok metadata, world.setStore (db.updateUploadSession sessionId .completed)) ∧
      db.uploadSessions = world.store.uploadSessions ∧
      ∀ fileId, fileId ∈ db.files.keys ↔
        fileId ∈ world.store.files.keys ∨ fileId = session.fileId := by
  obtain ⟨found, complete, absent⟩ := finalizable
  rw [UploadManager.run_finalizeUpload, found]
  dsimp only
  rw [if_pos complete, UploadManager.run_storeUpload]
  dsimp only
  generalize world.store.getUploadedChunks sessionId = marks
  generalize world.store.totalSize (marks.map UploadedChunkRecord.chunkHash) = totalSize
  -- a version of the file would need the row of the file
  have free : (session.fileId, (1 : ℤ)) ∉ world.store.fileVersions.keys := by
    intro taken
    obtain ⟨version, member, key⟩ := Table.mem_keys.mp taken
    have own : version.fileId = session.fileId := congrArg Prod.fst key
    exact absent (own ▸ world.store.versionFile version member)
  obtain ⟨filed, created⟩ := @Database.exists_createFile world.store
    (UploadManager.fileRecord (UploadManager.fileMetadata session totalSize now)) absent
  obtain ⟨_, _, _, shape⟩ := Database.createFile_ok created
  have keys : ∀ fileId, fileId ∈ filed.files.keys ↔
      fileId ∈ world.store.files.keys ∨ fileId = session.fileId := by
    intro fileId
    rw [shape]
    exact Table.mem_keys_insertIfAbsent
  have sessions : filed.uploadSessions = world.store.uploadSessions := by rw [shape]
  have versions : filed.fileVersions = world.store.fileVersions := by rw [shape]
  obtain ⟨stored, accepted⟩ := @Database.exists_createFileVersion filed
    (UploadManager.firstVersion session marks totalSize now) (versions ▸ free)
    ((keys session.fileId).mpr (.inr rfl))
  rw [created]
  dsimp only
  rw [accepted]
  obtain ⟨_, _, rfl⟩ := Database.createFileVersion_ok accepted
  exact ⟨_, _, rfl, sessions, keys⟩

/-! ## Cleanups -/

/-- What a cleanup does to a database, whichever of its calls fail. -/
structure Cleaned (now : Time) (before after : Database) : Prop where
  files : after.files = before.files
  session : ∀ sessionId, after.getUploadSession sessionId = before.getUploadSession sessionId ∨
    ∃ session, before.getUploadSession sessionId = some session ∧ session.status = .active ∧
      session.expiresAt < now ∧ (after.getUploadSession sessionId = none ∨
        after.getUploadSession sessionId = some (session.setStatus .expired))

namespace Cleaned

variable {now : Time} {before middle : Database} {session : UploadSessionRecord}

theorem refl (db : Database) : Cleaned now db db := ⟨rfl, fun _ => .inl rfl⟩

/-- Marking a session that is over. -/
theorem update (cleaned : Cleaned now before middle)
    (found : before.getUploadSession session.sessionId = some session)
    (active : session.status = .active) (past : session.expiresAt < now) :
    Cleaned now before (middle.updateUploadSession session.sessionId .expired) where
  files := cleaned.files
  session := by
    intro sessionId
    rw [Database.getUploadSession_updateUploadSession]
    split
    · rename_i here
      subst here
      refine .inr ⟨session, found, active, past, ?_⟩
      rcases cleaned.session session.sessionId with same | ⟨other, present, _, _, gone | marked⟩
      · rw [same, found]
        exact .inr rfl
      · rw [gone]
        exact .inl rfl
      · obtain rfl := Option.some.inj (found.symm.trans present)
        rw [marked]
        exact .inr rfl
    · exact cleaned.session sessionId

/-- Deleting a session that is over. -/
theorem delete (cleaned : Cleaned now before middle)
    (found : before.getUploadSession session.sessionId = some session)
    (active : session.status = .active) (past : session.expiresAt < now) :
    Cleaned now before (middle.deleteUploadSession session.sessionId) where
  files := cleaned.files
  session := by
    intro sessionId
    rw [Database.getUploadSession_deleteUploadSession]
    split
    · rename_i here
      subst here
      exact .inr ⟨session, found, active, past, .inl rfl⟩
    · exact cleaned.session sessionId

end Cleaned

/-- The two statements that clean a session up. -/
theorem keeps_cleaned {now : Time} {before : Database} {session : UploadSessionRecord}
    (listed : session ∈ before.getExpiredSessions now) :
    Keeps faulty (fun world => Cleaned now before world.store)
        (store (.updateUploadSession session.sessionId .expired)) ∧
      Keeps faulty (fun world => Cleaned now before world.store)
        (store (.deleteUploadSession session.sessionId)) := by
  obtain ⟨member, selected⟩ := List.mem_filter.mp listed
  obtain ⟨past, active⟩ := of_decide_eq_true selected
  have found : before.getUploadSession session.sessionId = some session := Table.find?_key member
  exact ⟨keeps_store fun _ cleaned => cleaned.update found active past,
    keeps_store fun _ cleaned => cleaned.delete found active past⟩

/-- **A cleanup marks or deletes sessions that are active and over**, and touches no other. -/
theorem triple_cleanupExpiredSessions (cleaner : Cleaner) (now : Time) (before : World) :
    Triple faulty (fun world => world = before) (cleaner.cleanupExpiredSessions now)
      (fun _ world => Cleaned now before.store world.store)
      fun world => Cleaned now before.store world.store := by
  have listed : Triple faulty (fun world => world = before) (store (.getExpiredSessions now))
      (fun expired world => expired = before.store.getExpiredSessions now ∧
        Cleaned now before.store world.store)
      fun world => Cleaned now before.store world.store := by
    refine (triple_read fun _ => rfl).consequence (fun _ => id) ?_ ?_
    · rintro expired world ⟨rfl, rfl⟩
      exact ⟨rfl, .refl _⟩
    · rintro world rfl
      exact .refl _
  cases cleaner with
  | uploadManager =>
      refine .bind listed fun expired => .of_fact ?_
      rintro rfl
      refine Keeps.forEach fun session member => .attempt ?_
      exact .bind (keeps_cleaned member).1 fun _ => (keeps_cleaned member).2
  | backgroundJobs =>
      refine .bind ?_ fun _ => .pure fun _ => id
      refine .bind listed fun expired => .of_fact ?_
      rintro rfl
      refine Keeps.foldEach (fun cleaned session member => ?_) 0
      refine .tryCatch (.bind (keeps_cleaned member).1 fun _ => ?_) fun _ => .pure
      exact .bind (keeps_cleaned member).2 fun _ => .pure

/-! ## One step -/

/-- The rows of all sessions stay as they are. -/
def KeepsSessions (before after : Database) : Prop :=
  ∀ sessionId session, before.getUploadSession sessionId = some session →
    after.getUploadSession sessionId = some session

/-- A program whose value is dropped. -/
theorem run_discard {α : Type} (program : Async α) (world : World) :
    (program >>= fun _ => pure ()).run exec world =
      ((program.run exec world).1.map fun _ => (), (program.run exec world).2) := by
  rw [Program.run_bind]
  rcases program.run exec world with ⟨_ | _, _⟩ <;> rfl

/-- A call that is no finalization is always in time. -/
theorem inTime_of_ne {step : SessionStep}
    (other : ∀ sessionId, step.action ≠ .finalizeUpload sessionId) :
    InTime step := fun sessionId _ same _ => absurd same (other sessionId)

theorem lawful_of_keeps {step : SessionStep}
    (other : ∀ sessionId, step.action ≠ .finalizeUpload sessionId)
    (keeps : KeepsSessions step.before.store step.after.store) : Lawful step where
  transition sessionId earlier later found present changed := by
    obtain rfl := Option.some.inj (present.symm.trans (keeps sessionId earlier found))
    exact absurd rfl changed
  resumable sessionId same := absurd same (other sessionId)

/-- A step between databases with the same files, in which no session becomes completed. -/
theorem CompletedStored.of_sessions {before after : Database} (stored : CompletedStored before)
    (files : after.files = before.files)
    (sessions : ∀ session ∈ after.uploadSessions.rows, session.status = .completed →
      session ∈ before.uploadSessions.rows) : CompletedStored after := by
  intro session member completed
  rw [files]
  exact stored session (sessions session member completed) completed

/-- What opening a session or marking a chunk of one does: the sessions stay as they are, and a new
one is active. -/
structure Opens (before after : Database) : Prop where
  keeps : KeepsSessions before after
  active : ∀ session ∈ after.uploadSessions.rows,
    session ∈ before.uploadSessions.rows ∨ session.status = .active
  files : after.files = before.files

theorem Opens.refl (db : Database) : Opens db db := ⟨fun _ _ => id, fun _ => .inl, rfl⟩

theorem Opens.completedStored {before after : Database} (opens : Opens before after)
    (stored : CompletedStored before) : CompletedStored after :=
  stored.of_sessions opens.files fun session member completed =>
    (opens.active session member).resolve_right fun active =>
      absurd (active.symm.trans completed) nofun

theorem opens_createUploadSession {before after : Database} {session : UploadSessionRecord}
    (active : session.status = .active) (created : before.createUploadSession session = .ok after) :
    Opens before after := by
  unfold Database.createUploadSession at created
  split at created
  · cases created
  · rename_i absent
    obtain rfl := Except.ok.inj created
    refine ⟨fun sessionId other found => ?_, fun other member => ?_, rfl⟩
    · have different : sessionId ≠ session.sessionId := by
        rintro rfl
        exact absurd (found.symm.trans (Table.find?_eq_none_iff.mpr absent)) nofun
      exact (Table.find?_insertIfAbsent_of_ne different).trans found
    · rcases Table.mem_insertIfAbsent.mp member with old | ⟨_, rfl⟩
      · exact .inl old
      · exact .inr active

theorem opens_markChunkUploaded {before after : Database} {chunk : UploadedChunkRecord}
    (marked : before.markChunkUploaded chunk = .ok after) : Opens before after := by
  unfold Database.markChunkUploaded at marked
  split at marked
  · obtain rfl := Except.ok.inj marked
    exact ⟨fun _ _ => id, fun _ => .inl, rfl⟩
  · cases marked

/-- **A step that is no finalization and no cleanup** opens a session or marks a chunk. -/
theorem SessionStep.opens {step : SessionStep} (happens : step.Happens)
    (other : ∀ sessionId, step.action ≠ .finalizeUpload sessionId)
    (dirty : ∀ cleaner, step.action ≠ .cleanupExpiredSessions cleaner) :
    Opens step.before.store step.after.store := by
  obtain ⟨action, now, before, outcome, after⟩ := step
  cases action with
  | finalizeUpload sessionId => exact absurd rfl (other sessionId)
  | cleanupExpiredSessions cleaner => exact absurd rfl (dirty cleaner)
  | createSession sessionId fileId fileName totalChunks userId =>
      have made := (runs_semantics_iff.mp happens).symm.trans (run_discard _ before)
      have reached : after = _ := congrArg Prod.snd made
      rw [reached]
      rcases UploadManager.run_createSession_world sessionId fileId fileName totalChunks userId now
        before with unchanged | ⟨session, db, active, created, stores⟩
      · rw [unchanged]
        exact .refl _
      · rw [stores]
        exact opens_createUploadSession active created
  | markChunkUploaded sessionId sequenceNumber chunkHash uploadedAt =>
      have made := (runs_semantics_iff.mp happens).symm
      have reached : after = ((UploadManager.markChunkUploaded sessionId sequenceNumber chunkHash
          now uploadedAt).run exec before).2 := congrArg Prod.snd made
      rw [reached]
      rcases UploadManager.run_markChunkUploaded_world sessionId sequenceNumber chunkHash now
        uploadedAt before with unchanged | ⟨chunk, db, marked, stores⟩
      · rw [unchanged]
        exact .refl _
      · rw [stores]
        exact opens_markChunkUploaded marked

/-- **A cleanup is lawful**, whichever of its calls fail. -/
theorem Cleaned.lawful {step : SessionStep}
    (other : ∀ sessionId, step.action ≠ .finalizeUpload sessionId)
    (cleaned : Cleaned step.now step.before.store step.after.store) : Lawful step where
  transition := by
    intro sessionId earlier later found present changed
    rcases cleaned.session sessionId with same | ⟨session, listed, active, _, gone | marked⟩
    · rw [same, found] at present
      obtain rfl := Option.some.inj present
      exact absurd rfl changed
    · rw [gone] at present
      cases present
    · obtain rfl := Option.some.inj (listed.symm.trans found)
      obtain rfl := Option.some.inj (marked.symm.trans present)
      exact ⟨active, .inl rfl⟩
  resumable sessionId same := absurd same (other sessionId)

theorem Cleaned.completedStored {now : Time} {before after : Database}
    (cleaned : Cleaned now before after) (stored : CompletedStored before) :
    CompletedStored after := by
  refine stored.of_sessions cleaned.files fun session member completed => ?_
  have found : after.getUploadSession session.sessionId = some session := Table.find?_key member
  rcases cleaned.session session.sessionId with same | ⟨_, _, _, _, gone | marked⟩
  · rw [same] at found
    exact (Table.find?_eq_some_iff.mp found).1
  · exact absurd (gone.symm.trans found) nofun
  · obtain rfl := Option.some.inj (marked.symm.trans found)
    cases completed

/-- A session that can be finalized, when the files of completed sessions are there: in time means
that it could be resumed. -/
theorem Finalizable.resumes_iff {world : World} {sessionId : SessionId}
    {session : UploadSessionRecord} (finalizable : Finalizable world.store sessionId session)
    (stored : CompletedStored world.store) (now : Time) :
    (∃ value, (UploadManager.resumeSession sessionId now).run exec world = (.ok value, world)) ↔
      session.status ≠ .expired ∧ now ≤ session.expiresAt := by
  have member := (Table.find?_eq_some_iff.mp finalizable.found).1
  rw [UploadManager.resumeSession_resolves_iff]
  constructor
  · rintro ⟨other, found, active, inTime⟩
    obtain rfl := Option.some.inj (found.symm.trans finalizable.found)
    exact ⟨by simp [active], inTime⟩
  · rintro ⟨fresh, inTime⟩
    refine ⟨session, finalizable.found, ?_, inTime⟩
    cases status : session.status with
    | active => rfl
    | completed => exact absurd (stored session member status) finalizable.absent
    | expired => exact absurd status fresh

/-- A finalization that stores the upload of its session. -/
theorem finalize_step {step : SessionStep} {sessionId : SessionId} {session : UploadSessionRecord}
    (action : step.action = .finalizeUpload sessionId) (happens : step.Happens)
    (stored : CompletedStored step.before.store)
    (finalizable : Finalizable step.before.store sessionId session) :
    (Lawful step ↔ InTime step) ∧ CompletedStored step.after.store := by
  obtain ⟨_, now, before, outcome, after⟩ := step
  dsimp only at action stored finalizable
  subst action
  obtain ⟨metadata, db, run, sessions, files⟩ := run_finalizeUpload_of_finalizable finalizable now
  have made := (runs_semantics_iff.mp happens).symm.trans (run_discard _ before)
  rw [run] at made
  obtain ⟨rfl, rfl⟩ := Prod.mk.inj made
  have resumes := finalizable.resumes_iff stored now
  have rows : ∀ other, (db.updateUploadSession sessionId .completed).getUploadSession other =
      if other = sessionId then (before.store.getUploadSession other).map (.setStatus .completed)
      else before.store.getUploadSession other := by
    intro other
    rw [Database.getUploadSession_updateUploadSession, Database.getUploadSession, sessions]
    rfl
  refine ⟨⟨fun lawful => ?_, fun inTime => ?_⟩, ?_⟩
  · intro other found same finalized
    obtain rfl := SessionAction.finalizeUpload.inj same
    obtain rfl := Option.some.inj (finalized.found.symm.trans finalizable.found)
    exact resumes.mp (lawful.resumable sessionId rfl rfl)
  · have live := inTime sessionId session rfl finalizable
    obtain ⟨value, resumed⟩ := resumes.mpr live
    obtain ⟨_, found, active, _⟩ :=
      (UploadManager.resumeSession_resolves_iff _ _ _).mp ⟨value, resumed⟩
    obtain rfl := Option.some.inj (found.symm.trans finalizable.found)
    refine ⟨fun other earlier later foundEarlier foundLater changed => ?_, fun other same _ => ?_⟩
    · have row := (rows other).symm.trans foundLater
      split at row
      · rename_i here
        subst here
        obtain rfl := Option.some.inj (foundEarlier.symm.trans finalizable.found)
        rw [finalizable.found, Option.map_some] at row
        obtain rfl := Option.some.inj row
        exact ⟨active, .inr ⟨rfl, rfl, live.2⟩⟩
      · obtain rfl := Option.some.inj (foundEarlier.symm.trans row)
        exact absurd rfl changed
    · obtain rfl := SessionAction.finalizeUpload.inj same
      exact ⟨value, resumed⟩
  · intro other member completed
    have found : (db.updateUploadSession sessionId .completed).getUploadSession other.sessionId =
        some other := Table.find?_key member
    have row := (rows other.sessionId).symm.trans found
    refine (files other.fileId).mpr ?_
    split at row
    · rename_i here
      rw [here, finalizable.found, Option.map_some] at row
      obtain rfl := Option.some.inj row
      exact .inr rfl
    · exact .inl (stored other (Table.find?_eq_some_iff.mp row).1 completed)

/-- **A step from a state in which the files of completed sessions are there.** -/
theorem SessionStep.lawful_iff {step : SessionStep} (happens : step.Happens)
    (stored : CompletedStored step.before.store) :
    (Lawful step ↔ InTime step) ∧ CompletedStored step.after.store := by
  by_cases finalizes : ∃ sessionId, step.action = .finalizeUpload sessionId
  · obtain ⟨sessionId, action⟩ := finalizes
    by_cases able : ∃ session, Finalizable step.before.store sessionId session
    · obtain ⟨session, finalizable⟩ := able
      exact finalize_step action happens stored finalizable
    · obtain ⟨_, now, before, outcome, after⟩ := step
      dsimp only at action stored able
      subst action
      obtain ⟨failure, run⟩ := run_finalizeUpload_of_not (not_exists.mp able) now
      have made := (runs_semantics_iff.mp happens).symm.trans (run_discard _ before)
      rw [run] at made
      dsimp only at made
      obtain ⟨rfl, rfl⟩ := Prod.mk.inj made
      refine ⟨iff_of_true ⟨fun _ earlier later found present changed => ?_, nofun⟩ ?_, stored⟩
      · obtain rfl := Option.some.inj (present.symm.trans found)
        exact absurd rfl changed
      · intro other session same finalizable
        obtain rfl := SessionAction.finalizeUpload.inj same
        exact absurd ⟨session, finalizable⟩ able
  · have other := not_exists.mp finalizes
    by_cases cleans : ∃ cleaner, step.action = .cleanupExpiredSessions cleaner
    · obtain ⟨cleaner, action⟩ := cleans
      have cleaned : Cleaned step.now step.before.store step.after.store := by
        have run := happens
        unfold SessionStep.Happens at run
        rw [action] at run
        have ends := triple_cleanupExpiredSessions cleaner step.now step.before rfl run
        revert ends
        cases step.outcome <;> exact id
      exact ⟨iff_of_true (Cleaned.lawful other cleaned) (inTime_of_ne other),
        cleaned.completedStored stored⟩
    · have opens := SessionStep.opens happens other (not_exists.mp cleans)
      exact ⟨iff_of_true (lawful_of_keeps other opens.keeps) (inTime_of_ne other),
        opens.completedStored stored⟩

/-! ## Histories -/

/-- In every state of a history the files of completed sessions are there. -/
theorem SessionHistory.completedStored {steps : List SessionStep} {world : World}
    (history : SessionHistory steps world) : CompletedStored world.store := by
  induction history with
  | start none =>
      intro session member
      rw [none] at member
      cases member
  | next earlier happens stored => exact (SessionStep.lawful_iff happens stored).2

/-- **A history is lawful exactly when no call finalizes a session that is over.** -/
theorem lawful_iff_inTime {steps : List SessionStep} {world : World}
    (history : SessionHistory steps world) :
    (∀ step ∈ steps, Lawful step) ↔ ∀ step ∈ steps, InTime step := by
  induction history with
  | start none => exact iff_of_true (List.forall_mem_nil _) (List.forall_mem_nil _)
  | next earlier happens ih =>
      have here := (SessionStep.lawful_iff happens earlier.completedStored).1
      simp only [List.forall_mem_append, List.forall_mem_singleton, ih, here]

/-! ## Histories of given calls -/

/-- A call with its time. When it is a cleanup, the pattern says which of its calls fail. -/
structure TimedAction where
  action : SessionAction
  now : Time
  pattern : FaultPattern := []

/-- What the call does in a state. -/
def TimedAction.step (call : TimedAction) (before : World) : SessionStep :=
  let made : Except Failure Unit × World :=
    match call.action with
    | .cleanupExpiredSessions _ =>
        let run := (call.action.program call.now).run (exec.underPattern Call.faults)
          (before, call.pattern)
        (run.1, run.2.1)
    | action => (action.program call.now).run exec before
  ⟨call.action, call.now, before, made.1, made.2⟩

theorem TimedAction.happens (call : TimedAction) (before : World) : (call.step before).Happens := by
  obtain ⟨action, now, pattern⟩ := call
  cases action with
  | cleanupExpiredSessions cleaner => exact runs_of_pattern (Prod.eta _).symm
  | createSession _ _ _ _ _ => exact runs_semantics_iff.mpr rfl
  | markChunkUploaded _ _ _ _ => exact runs_semantics_iff.mpr rfl
  | finalizeUpload _ => exact runs_semantics_iff.mpr rfl

/-- The steps of calls, one after the other, and the state after them. -/
def playSessions : World → List TimedAction → List SessionStep × World
  | world, [] => ([], world)
  | world, call :: calls =>
      let rest := playSessions (call.step world).after calls
      (call.step world :: rest.1, rest.2)

/-- The calls make a history. -/
theorem sessionHistory_playSessions {steps : List SessionStep} {world : World}
    (history : SessionHistory steps world) (calls : List TimedAction) :
    SessionHistory (steps ++ (playSessions world calls).1) (playSessions world calls).2 := by
  induction calls generalizing steps world with
  | nil => simpa [playSessions] using history
  | cons call calls ih =>
      have next := ih (SessionHistory.next history (call.happens world))
      rwa [List.append_assoc] at next

/-- A session is opened and its one chunk is marked. -/
def markedSession : List TimedAction :=
  [⟨.createSession upload notes "notes.txt" 1 "ada", 0, []⟩,
    ⟨.markChunkUploaded upload 0 "aa" 1, 1, []⟩]

/-- The history of the marked session and then of other calls. -/
def oneUpload (calls : List TimedAction) : List SessionStep × World :=
  playSessions (.ofStore .empty) (markedSession ++ calls)

theorem sessionHistory_oneUpload (calls : List TimedAction) :
    SessionHistory (oneUpload calls).1 (oneUpload calls).2 :=
  sessionHistory_playSessions (.start rfl) (markedSession ++ calls)

/-- The session is active for a week. -/
theorem expiresAt_markedSession {session : UploadSessionRecord}
    (found : (oneUpload []).2.store.getUploadSession upload = some session) :
    session.status = .active ∧ session.expiresAt = 604800000 := by
  have row : ∀ session ∈ (oneUpload []).2.store.getUploadSession upload,
      session.status = .active ∧ session.expiresAt = 604800000 := by decide +kernel
  exact row session found

/-- An upload that is finalized in time. -/
theorem lawful_iff_inTime_prompt :
    (oneUpload [⟨.finalizeUpload upload, 2, []⟩]).1.length = 3 ∧
      ∀ step ∈ (oneUpload [⟨.finalizeUpload upload, 2, []⟩]).1, Lawful step := by
  refine ⟨rfl, (lawful_iff_inTime (sessionHistory_oneUpload _)).mpr ?_⟩
  simp only [oneUpload, markedSession, List.cons_append, List.nil_append, playSessions,
    List.forall_mem_cons]
  refine ⟨inTime_of_ne nofun, inTime_of_ne nofun,
    fun sessionId session same finalizable => ?_, List.forall_mem_nil _⟩
  obtain rfl := SessionAction.finalizeUpload.inj same
  obtain ⟨active, date⟩ := expiresAt_markedSession finalizable.found
  rw [active, date]
  exact ⟨nofun, by decide⟩

/-- An upload that is finalized a millisecond after its session was over. -/
theorem finalized_after_expiry :
    ∃ steps world, SessionHistory steps world ∧ steps.Pairwise (fun earlier later =>
      earlier.now ≤ later.now) ∧ ¬ ∀ step ∈ steps, Lawful step := by
  refine ⟨_, _, sessionHistory_oneUpload [⟨.finalizeUpload upload, 604800001, []⟩], by decide,
    fun lawful => ?_⟩
  obtain ⟨session, resumed⟩ := (lawful _ (List.mem_cons_of_mem _ (List.mem_cons_of_mem _
    List.mem_cons_self))).resumable upload rfl rfl
  obtain ⟨_, found, _, inTime⟩ := (UploadManager.resumeSession_resolves_iff _ _ _).mp ⟨_, resumed⟩
  have late : (604800001 : Time) ≤ 604800000 := (expiresAt_markedSession found).2 ▸ inTime
  exact absurd late (by decide)

end DistributedFileStorage.Upload
