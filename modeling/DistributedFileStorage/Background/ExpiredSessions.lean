import DistributedFileStorage.Async.Histories
import DistributedFileStorage.Upload.SessionHistory

/-!
# What a cleanup leaves

A cleanup selects the active sessions whose date has passed. When a cleanup has marked a session as
expired and then failed to delete it, the session is not active any more, and no later cleanup
selects it. A cleanup in which no call fails leaves nothing to clean up exactly when there is no
such session before it (`cleansUp_iff`).
-/

set_option autoImplicit false

namespace DistributedFileStorage.Store.Database

open Relational

/-- The database after a session has been cleaned up. -/
def cleanUp (db : Database) (session : UploadSessionRecord) : Database :=
  (db.updateUploadSession session.sessionId .expired).deleteUploadSession session.sessionId

variable {db : Database} {sessions : List UploadSessionRecord}

theorem getUploadSession_cleanUp {session : UploadSessionRecord} {sessionId : SessionId} :
    (db.cleanUp session).getUploadSession sessionId =
      if sessionId = session.sessionId then none else db.getUploadSession sessionId := by
  rw [cleanUp, getUploadSession_deleteUploadSession, getUploadSession_updateUploadSession]
  split <;> rfl

theorem getUploadedChunks_cleanUp {session : UploadSessionRecord} {sessionId : SessionId}
    (different : sessionId ≠ session.sessionId) :
    (db.cleanUp session).getUploadedChunks sessionId = db.getUploadedChunks sessionId := by
  rw [cleanUp, getUploadedChunks_deleteUploadSession_of_ne different]
  rfl

/-- Cleaning up a list of sessions deletes their rows. -/
theorem mem_foldl_cleanUp {session : UploadSessionRecord} :
    session ∈ (sessions.foldl cleanUp db).uploadSessions.rows ↔
      session ∈ db.uploadSessions.rows ∧
        session.sessionId ∉ sessions.map UploadSessionRecord.sessionId := by
  induction sessions generalizing db with
  | nil => simp
  | cons first rest ih =>
      have row : session ∈ (db.cleanUp first).uploadSessions.rows ↔
          session ∈ db.uploadSessions.rows ∧ session.sessionId ≠ first.sessionId := by
        have found : ∀ other : Database, session ∈ other.uploadSessions.rows ↔
            other.getUploadSession session.sessionId = some session := fun other =>
          ⟨fun member => Table.find?_key member, fun found => (Table.find?_eq_some_iff.mp found).1⟩
        rw [found, getUploadSession_cleanUp, found]
        split
        · rename_i same
          simp [same]
        · rename_i different
          simp [different]
      rw [List.foldl_cons, ih, row, List.map_cons, List.mem_cons, not_or, and_assoc]

theorem getUploadedChunks_foldl_cleanUp {sessionId : SessionId}
    (other : sessionId ∉ sessions.map UploadSessionRecord.sessionId) :
    (sessions.foldl cleanUp db).getUploadedChunks sessionId = db.getUploadedChunks sessionId := by
  induction sessions generalizing db with
  | nil => rfl
  | cons first rest ih =>
      rw [List.map_cons, List.mem_cons, not_or] at other
      rw [List.foldl_cons, ih other.2, getUploadedChunks_cleanUp other.1]

end DistributedFileStorage.Store.Database

namespace DistributedFileStorage.Background

open Async Program Store Services Upload Relational

/-! ## A cleanup without a fault -/

/-- **A cleanup without a fault deletes the sessions that it has selected.** -/
theorem run_cleanupExpiredSessions (cleaner : Cleaner) (now : Time) (world : World) :
    (cleaner.cleanupExpiredSessions now).run exec world =
      (.ok (), world.setStore
        ((world.store.getExpiredSessions now).foldl Database.cleanUp world.store)) := by
  have listed : (store (.getExpiredSessions now)).run exec world =
      (.ok (world.store.getExpiredSessions now), world) := rfl
  cases cleaner with
  | uploadManager =>
      have body : ∀ session state, (UploadManager.cleanupSession session).run exec state =
          (.ok (), state.setStore (state.store.cleanUp session)) := fun _ _ => rfl
      rw [Cleaner.cleanupExpiredSessions, UploadManager.cleanupExpiredSessions,
        run_bind_ok exec listed, run_forEach_total exec body, foldl_setStore]
  | backgroundJobs =>
      have body : ∀ cleaned session state,
          (BackgroundJobs.cleanupSession cleaned session).run exec state =
            (.ok (cleaned + 1), state.setStore (state.store.cleanUp session)) := fun _ _ _ => rfl
      rw [Cleaner.cleanupExpiredSessions, BackgroundJobs.cleanupExpiredSessions, run_discard,
        run_bind_ok exec listed, run_foldEach_total exec body, foldl_setStore]
      rfl

/-! ## What is left -/

/-- The database after a cleanup at a time: no session whose date has passed is left, unless it is
completed, and no other session has changed. -/
structure CleansUp (now : Time) (before after : Database) : Prop where
  cleaned : ∀ session ∈ after.uploadSessions.rows, session.expiresAt < now →
    session.status = .completed
  kept : ∀ session ∈ before.uploadSessions.rows,
    ¬ (session.expiresAt < now ∧ session.status ≠ .completed) →
      session ∈ after.uploadSessions.rows ∧
        after.getUploadedChunks session.sessionId = before.getUploadedChunks session.sessionId
  old : ∀ session ∈ after.uploadSessions.rows, session ∈ before.uploadSessions.rows

/-- A session is selected when it is active and its date has passed. -/
theorem mem_getExpiredSessions {db : Database} {now : Time} {session : UploadSessionRecord}
    (member : session ∈ db.uploadSessions.rows) :
    session.sessionId ∈ (db.getExpiredSessions now).map UploadSessionRecord.sessionId ↔
      session.expiresAt < now ∧ session.status = .active := by
  simp only [Database.getExpiredSessions, List.mem_map, List.mem_filter, decide_eq_true_eq]
  constructor
  · rintro ⟨other, ⟨otherMember, selected⟩, same⟩
    obtain rfl := Table.eq_of_key_eq otherMember member same
    exact selected
  · exact fun selected => ⟨session, ⟨member, selected⟩, rfl⟩

/-- **A cleanup without a fault leaves nothing to clean up exactly when no earlier cleanup has left
a session marked as expired** whose date has passed. -/
theorem cleansUp_iff (cleaner : Cleaner) (now : Time) (world : World) :
    CleansUp now world.store ((cleaner.cleanupExpiredSessions now).run exec world).2.store ↔
      ∀ session ∈ world.store.uploadSessions.rows, session.expiresAt < now →
        session.status ≠ .expired := by
  rw [run_cleanupExpiredSessions]
  dsimp only [World.store_setStore]
  constructor
  · intro cleans session member past expired
    have unselected : session.sessionId ∉
        (world.store.getExpiredSessions now).map UploadSessionRecord.sessionId := by
      rw [mem_getExpiredSessions member, expired]
      simp
    have left := Database.mem_foldl_cleanUp.mpr ⟨member, unselected⟩
    have completed := cleans.cleaned session left past
    exact absurd (expired.symm.trans completed) nofun
  · intro none
    refine ⟨fun session left past => ?_, fun session member fresh => ?_, fun session left =>
      (Database.mem_foldl_cleanUp.mp left).1⟩
    · obtain ⟨member, unselected⟩ := Database.mem_foldl_cleanUp.mp left
      rw [mem_getExpiredSessions member] at unselected
      cases status : session.status with
      | active => exact absurd ⟨past, status⟩ unselected
      | completed => rfl
      | expired => exact absurd status (none session member past)
    · have unselected : session.sessionId ∉
          (world.store.getExpiredSessions now).map UploadSessionRecord.sessionId := by
        rw [mem_getExpiredSessions member]
        exact fun selected => fresh ⟨selected.1, by simp [selected.2]⟩
      exact ⟨Database.mem_foldl_cleanUp.mpr ⟨member, unselected⟩,
        Database.getUploadedChunks_foldl_cleanUp unselected⟩

/-! ## Histories without a failed deletion -/

/-- No session is marked as expired. -/
def NoneExpired (db : Database) : Prop :=
  ∀ session ∈ db.uploadSessions.rows, session.status ≠ .expired

/-- The call deletes a session, and fails. -/
def FailedDelete (event : Event system Unit World) : Prop :=
  (∃ sessionId, event.op = .store (.deleteUploadSession sessionId)) ∧ event.fails = true

/-- The step is a run in which no deletion fails. -/
def DeletesWork (step : SessionStep) : Prop :=
  ∃ moment, Runs step.action.semantics.recorded (step.action.program step.now) (.start step.before)
      step.outcome moment ∧
    moment.state = step.after ∧ ∀ event ∈ moment.history, ¬ FailedDelete event

/-- As long as no deletion has failed, only some sessions are marked as expired. -/
def Marks (marked : UploadSessionRecord → Prop) (moment : Moment system Unit World) : Prop :=
  (∀ event ∈ moment.history, ¬ FailedDelete event) →
    ∀ session ∈ moment.state.store.uploadSessions.rows, session.status = .expired → marked session

/-- A call that leaves the sessions alone adds no mark. -/
theorem Marks.next {marked : UploadSessionRecord → Prop} {moment : Moment system Unit World}
    (marks : Marks marked moment) {op : Call} {outcome : system.Outcome op.Result} {after : World}
    (rows : after.store.uploadSessions = moment.state.store.uploadSessions) :
    Marks marked (moment.next () op outcome after) := by
  intro works session member expired
  rw [Moment.state_next, rows] at member
  exact marks (fun event old => works event (List.mem_append_left _ old)) session member expired

/-- A session that is in the database after a statement was there before, up to its status. -/
theorem mem_uploadSessions_iff {db : Database} {session : UploadSessionRecord} :
    session ∈ db.uploadSessions.rows ↔ db.getUploadSession session.sessionId = some session :=
  ⟨fun member => Table.find?_key member, fun found => (Table.find?_eq_some_iff.mp found).1⟩

theorem marks_updateUploadSession (sessionId : SessionId) :
    Triple faulty.recorded (Marks fun _ => False) (store (.updateUploadSession sessionId .expired))
      (fun _ => Marks fun session => session.sessionId = sessionId) (Marks fun _ => False) := by
  refine Triple.perform_recorded fun before outcome state marks happens => ?_
  rcases faulty_store_cases happens with works | ⟨⟨failure, rfl⟩, rfl⟩
  · obtain ⟨rfl, rfl⟩ := Prod.mk.inj works
    intro working session member expired
    have found := mem_uploadSessions_iff.mp member
    have row := (Database.getUploadSession_updateUploadSession .expired).symm.trans found
    split at row
    · rename_i here
      exact here
    · refine (marks (fun event old => working event (List.mem_append_left _ old)) session ?_
        expired).elim
      exact mem_uploadSessions_iff.mpr row
  · exact marks.next rfl

/-- Deleting a session leaves none marked, when it works. -/
theorem marks_deleteUploadSession (sessionId : SessionId) :
    Triple faulty.recorded (Marks fun session => session.sessionId = sessionId)
      (store (.deleteUploadSession sessionId)) (fun _ => Marks fun _ => False)
      (Marks fun _ => False) := by
  refine Triple.perform_recorded fun before outcome state marks happens => ?_
  rcases faulty_store_cases happens with works | ⟨⟨failure, rfl⟩, rfl⟩
  · obtain ⟨rfl, rfl⟩ := Prod.mk.inj works
    intro working session member expired
    have row := Database.getUploadSession_deleteUploadSession.symm.trans
      (mem_uploadSessions_iff.mp member)
    split at row
    · cases row
    · rename_i different
      exact different (marks (fun event old => working event (List.mem_append_left _ old)) session
        (mem_uploadSessions_iff.mpr row) expired)
  · intro working
    refine absurd ?_ (working _ (List.mem_append_right _ (List.mem_singleton_self _)))
    exact ⟨⟨sessionId, rfl⟩, rfl⟩

/-- A cleanup leaves no session marked, when its deletions work. -/
theorem marks_cleanupExpiredSessions (cleaner : Cleaner) (now : Time) :
    Triple faulty.recorded (Marks fun _ => False) (cleaner.cleanupExpiredSessions now)
      (fun _ => Marks fun _ => False) (Marks fun _ => False) := by
  have listed : Keeps faulty.recorded (Marks fun _ => False) (store (.getExpiredSessions now)) := by
    refine Triple.perform_recorded fun before outcome state marks happens => ?_
    rcases faulty_store_cases happens with works | ⟨⟨failure, rfl⟩, rfl⟩
    · obtain ⟨rfl, rfl⟩ := Prod.mk.inj works
      exact marks.next rfl
    · exact marks.next rfl
  have body : ∀ sessionId, Keeps faulty.recorded (Marks fun _ => False)
      (do
        store (.updateUploadSession sessionId .expired)
        store (.deleteUploadSession sessionId)) := fun sessionId =>
    Triple.bind (marks_updateUploadSession sessionId) fun _ => marks_deleteUploadSession sessionId
  cases cleaner with
  | uploadManager =>
      refine Triple.bind listed fun expired => ?_
      exact Keeps.forEach fun session _ => (body session.sessionId).attempt
  | backgroundJobs =>
      refine Triple.bind (Triple.bind listed fun expired => ?_) fun _ => .pure fun _ => id
      refine Keeps.foldEach (fun cleaned session _ => ?_) 0
      refine Keeps.tryCatch (Triple.bind (marks_updateUploadSession session.sessionId) fun _ => ?_)
        fun _ => .pure
      exact Triple.bind (marks_deleteUploadSession session.sessionId) fun _ => .pure fun _ => id

/-- A call that is no cleanup marks no session as expired. -/
theorem not_expired_of_exec {step : SessionStep} (happens : step.Happens)
    (other : ∀ cleaner, step.action ≠ .cleanupExpiredSessions cleaner) :
    ∀ session ∈ step.after.store.uploadSessions.rows,
      session ∈ step.before.store.uploadSessions.rows ∨ session.status ≠ .expired := by
  intro session member
  by_cases finalizes : ∃ sessionId, step.action = .finalizeUpload sessionId
  · obtain ⟨sessionId, action⟩ := finalizes
    obtain ⟨_, now, before, outcome, after⟩ := step
    dsimp only at action
    subst action
    have made := (runs_semantics_iff.mp happens).symm.trans (run_discard _ before)
    have reached : after = ((UploadManager.finalizeUpload sessionId now).run exec before).2 :=
      congrArg Prod.snd made
    rw [reached] at member
    by_cases able : ∃ session, Finalizable before.store sessionId session
    · obtain ⟨current, finalizable⟩ := able
      obtain ⟨_, db, run, sessions, _⟩ := run_finalizeUpload_of_finalizable finalizable now
      rw [run] at member
      have row := (Database.getUploadSession_updateUploadSession .completed).symm.trans
        (mem_uploadSessions_iff.mp member)
      split at row
      · obtain ⟨old, _, rfl⟩ := Option.map_eq_some_iff.mp row
        exact .inr nofun
      · exact .inl (sessions ▸ mem_uploadSessions_iff.mpr row)
    · obtain ⟨_, run⟩ := run_finalizeUpload_of_not (not_exists.mp able) now
      rw [run] at member
      exact .inl member
  · rcases (SessionStep.opens happens (not_exists.mp finalizes) other).active session member with
      old | active
    · exact .inl old
    · exact .inr (by simp [active])

/-- **A step in which no deletion fails leaves no session marked as expired.** -/
theorem NoneExpired.step {step : SessionStep} (none : NoneExpired step.before.store)
    (works : DeletesWork step) : NoneExpired step.after.store := by
  obtain ⟨moment, run, reached, working⟩ := works
  by_cases cleans : ∃ cleaner, step.action = .cleanupExpiredSessions cleaner
  · obtain ⟨cleaner, action⟩ := cleans
    rw [action] at run
    have start : Marks (fun _ => False) (.start step.before : Moment system Unit World) :=
      fun _ session member expired => none session member expired
    have ends := marks_cleanupExpiredSessions cleaner step.now start run
    have marks : Marks (fun _ => False) moment := by
      revert ends
      cases step.outcome <;> exact id
    rw [← reached]
    exact fun session member expired => marks working session member expired
  · have happens : step.Happens := by
      have forgotten := run.of_recorded
      rwa [reached] at forgotten
    intro session member expired
    rcases not_expired_of_exec happens (not_exists.mp cleans) session member with old | fresh
    · exact none session old expired
    · exact fresh expired

/-- A history in which no deletion fails leaves no session marked as expired. -/
theorem noneExpired_of_history {steps : List SessionStep} {world : World}
    (history : SessionHistory steps world) (works : ∀ step ∈ steps, DeletesWork step) :
    NoneExpired world.store := by
  induction history with
  | start empty =>
      intro session member
      rw [empty] at member
      cases member
  | next earlier happens ih =>
      have none := ih fun step member => works step (List.mem_append_left _ member)
      exact none.step (works _ (List.mem_append_right _ (List.mem_singleton_self _)))

/-- **Cleanups next to faults.** In every state of a history, a cleanup without a fault leaves
nothing to clean up exactly when no session whose date has passed is marked as expired, and this is
so when no deletion has failed in the history. -/
theorem cleansUp_of_history {steps : List SessionStep} {world : World}
    (history : SessionHistory steps world) (cleaner : Cleaner) (now : Time) :
    (CleansUp now world.store ((cleaner.cleanupExpiredSessions now).run exec world).2.store ↔
      ∀ session ∈ world.store.uploadSessions.rows, session.expiresAt < now →
        session.status ≠ .expired) ∧
    ((∀ step ∈ steps, DeletesWork step) →
      CleansUp now world.store ((cleaner.cleanupExpiredSessions now).run exec world).2.store) := by
  refine ⟨cleansUp_iff cleaner now world, fun works => ?_⟩
  have none := noneExpired_of_history history works
  exact (cleansUp_iff cleaner now world).mpr fun session member _ => none session member

/-- A session that a cleanup could not mark is cleaned up by the next one. -/
theorem cleansUp_of_history_unmarked :
    CleansUp 604800002
      (oneUpload [⟨.cleanupExpiredSessions .uploadManager, 604800001,
        [none, some (.unavailable, none)]⟩]).2.store
      ((Cleaner.backgroundJobs.cleanupExpiredSessions 604800002).run exec
        (oneUpload [⟨.cleanupExpiredSessions .uploadManager, 604800001,
          [none, some (.unavailable, none)]⟩]).2).2.store :=
  (cleansUp_of_history (sessionHistory_oneUpload _) .backgroundJobs 604800002).1.mpr (by decide)

/-- A session that a cleanup has marked and could not delete is left by every later one. -/
theorem expired_session_left :
    ∃ steps world, SessionHistory steps world ∧
      steps.Pairwise (fun earlier later => earlier.now ≤ later.now) ∧
      ∀ cleaner : Cleaner, ¬ CleansUp 604800002 world.store
        ((cleaner.cleanupExpiredSessions 604800002).run exec world).2.store := by
  refine ⟨_, _, sessionHistory_oneUpload [⟨.cleanupExpiredSessions .uploadManager, 604800001,
    [none, none, some (.unavailable, none)]⟩], by decide, fun cleaner cleans => ?_⟩
  revert cleans
  rw [cleansUp_iff]
  decide

end DistributedFileStorage.Background
