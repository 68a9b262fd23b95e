import DistributedFileStorage.Upload.UploadManager

/-!
# The cleanup of expired sessions

Two classes clean up expired upload sessions: the upload manager and the background jobs. Both
read the list of active sessions past their date once, and then mark and delete the sessions on
it one after the other; the background jobs also count them.

A statement of a cleanup touches no file, no version and no chunk. To one session it does one
of two things: it keeps the row, up to its status, with all its marks, or it deletes the row with
all its marks (`CleanupCall.session`).
-/

set_option autoImplicit false

namespace DistributedFileStorage.Background

open Async Store Services Upload Relational

namespace BackgroundJobs

/-- One iteration of the loop of `cleanupExpiredSessions`. -/
def cleanupSession (cleaned : ℕ) (session : UploadSessionRecord) : Async ℕ :=
  Program.tryCatch
    (do
      store (.updateUploadSession session.sessionId .expired)
      store (.deleteUploadSession session.sessionId)
      pure (cleaned + 1))
    fun _ => pure cleaned

def cleanupExpiredSessions (now : Time) : Async ℕ := do
  let expired ← store (.getExpiredSessions now)
  Program.foldEach cleanupSession 0 expired

end BackgroundJobs

/-- Who runs a cleanup. -/
inductive Cleaner where
  | uploadManager
  | backgroundJobs

def Cleaner.cleanupExpiredSessions : Cleaner → Time → Async Unit
  | .uploadManager, now => UploadManager.cleanupExpiredSessions now
  | .backgroundJobs, now => BackgroundJobs.cleanupExpiredSessions now >>= fun _ => pure ()

/-! ## The statements of a cleanup -/

/-- The call is a statement of a cleanup. -/
inductive CleanupCall : Call → Prop where
  | getExpiredSessions (now : Time) : CleanupCall (.store (.getExpiredSessions now))
  | updateUploadSession (sessionId : SessionId) :
      CleanupCall (.store (.updateUploadSession sessionId .expired))
  | deleteUploadSession (sessionId : SessionId) :
      CleanupCall (.store (.deleteUploadSession sessionId))

theorem Cleaner.allCalls_cleanupExpiredSessions (cleaner : Cleaner) (now : Time) :
    (cleaner.cleanupExpiredSessions now).AllCalls CleanupCall := by
  cases cleaner with
  | uploadManager =>
      refine .bind (.perform (.getExpiredSessions now)) fun expiredSessions => ?_
      refine .forEach fun session _ => .attempt ?_
      exact .bind (.perform (.updateUploadSession session.sessionId)) fun _ =>
        .perform (.deleteUploadSession session.sessionId)
  | backgroundJobs =>
      refine .bind ?_ fun _ => trivial
      refine .bind (.perform (.getExpiredSessions now)) fun expired => ?_
      refine .foldEach (fun cleaned session _ => ?_) 0
      refine .tryCatch (.bind (.perform (.updateUploadSession session.sessionId)) fun _ => ?_)
        fun _ => trivial
      exact .bind (.perform (.deleteUploadSession session.sessionId)) fun _ => trivial

/-- A cleanup leaves the files, their versions and the chunks alone. -/
theorem CleanupCall.frame {op : Call} (cleans : CleanupCall op) (world : World) :
    (exec op world).2.store.files = world.store.files ∧
      (exec op world).2.store.fileVersions = world.store.fileVersions ∧
      (exec op world).2.store.chunks = world.store.chunks := by
  cases cleans <;> exact ⟨rfl, rfl, rfl⟩

end DistributedFileStorage.Background

namespace DistributedFileStorage.Store.Database

open Relational

variable {db : Database} {sessionId other : SessionId}

/-- A session without a row has no marks. -/
theorem getUploadedChunks_of_absent (absent : db.getUploadSession sessionId = none) :
    db.getUploadedChunks sessionId = [] := by
  refine List.eq_nil_iff_forall_not_mem.mpr fun chunk member => ?_
  have marked : chunk ∈ db.uploadedChunks.rows ∧ chunk.sessionId = sessionId := by
    simpa [getUploadedChunks] using member
  refine Table.find?_eq_none_iff.mp absent ?_
  rw [← marked.2]
  exact db.uploadedSession chunk marked.1

theorem getUploadSession_updateUploadSession (status : SessionStatus) :
    (db.updateUploadSession sessionId status).getUploadSession other =
      if other = sessionId then (db.getUploadSession other).map (.setStatus status)
      else db.getUploadSession other := by
  have updated : (db.updateUploadSession sessionId status).getUploadSession other =
      (db.uploadSessions.update sessionId (.setStatus status)
        (UploadSessionRecord.sessionId_setStatus status)).find? other := rfl
  rw [updated]
  by_cases same : other = sessionId
  · subst same
    rw [if_pos rfl, Table.find?_update_self]
    rfl
  · rw [if_neg same, Table.find?_update_of_ne same]
    rfl

theorem getUploadSession_deleteUploadSession :
    (db.deleteUploadSession sessionId).getUploadSession other =
      if other = sessionId then none else db.getUploadSession other := by
  by_cases same : other = sessionId
  · subst same
    rw [if_pos rfl]
    exact Table.find?_delete_self
  · rw [if_neg same]
    exact Table.find?_delete_of_ne same

theorem getUploadedChunks_deleteUploadSession_of_ne (different : other ≠ sessionId) :
    (db.deleteUploadSession sessionId).getUploadedChunks other = db.getUploadedChunks other := by
  unfold getUploadedChunks
  congr 1
  show (db.uploadedChunks.rows.filter _).filter _ = _
  rw [List.filter_filter]
  refine List.filter_congr fun chunk _ => ?_
  by_cases own : chunk.sessionId = other
  · simp [own, different]
  · simp [own]

end DistributedFileStorage.Store.Database

namespace DistributedFileStorage.Background

open Store Services Upload Relational

/-- **What a statement of a cleanup does to a session.** It keeps the row of the session, up to
its status, with its marks, or the row is gone afterwards. -/
theorem CleanupCall.session {op : Call} (cleans : CleanupCall op) (world : World)
    {sessionId : SessionId} {session : UploadSessionRecord}
    (found : world.store.getUploadSession sessionId = some session) :
    (∃ status, (exec op world).2.store.getUploadSession sessionId =
          some (session.setStatus status) ∧
        (exec op world).2.store.getUploadedChunks sessionId =
          world.store.getUploadedChunks sessionId) ∨
      (exec op world).2.store.getUploadSession sessionId = none := by
  cases cleans with
  | getExpiredSessions now => exact .inl ⟨session.status, found, rfl⟩
  | updateUploadSession updated =>
      have row :
          (world.store.updateUploadSession updated .expired).getUploadSession sessionId = _ :=
        Database.getUploadSession_updateUploadSession .expired
      rw [found] at row
      by_cases same : sessionId = updated
      · exact .inl ⟨.expired, row.trans (if_pos same), rfl⟩
      · exact .inl ⟨session.status, row.trans (if_neg same), rfl⟩
  | deleteUploadSession deleted =>
      have row : (world.store.deleteUploadSession deleted).getUploadSession sessionId = _ :=
        Database.getUploadSession_deleteUploadSession
      by_cases same : sessionId = deleted
      · exact .inr (row.trans (if_pos same))
      · refine .inl ⟨session.status, (row.trans (if_neg same)).trans found, ?_⟩
        exact Database.getUploadedChunks_deleteUploadSession_of_ne same

/-- A cleanup brings no session back. -/
theorem CleanupCall.absent {op : Call} (cleans : CleanupCall op) (world : World)
    {sessionId : SessionId} (absent : world.store.getUploadSession sessionId = none) :
    (exec op world).2.store.getUploadSession sessionId = none := by
  cases cleans with
  | getExpiredSessions now => exact absent
  | updateUploadSession updated =>
      refine (Database.getUploadSession_updateUploadSession .expired).trans ?_
      rw [absent]
      exact ite_self none
  | deleteUploadSession deleted =>
      refine Database.getUploadSession_deleteUploadSession.trans ?_
      rw [absent]
      exact ite_self none

end DistributedFileStorage.Background
