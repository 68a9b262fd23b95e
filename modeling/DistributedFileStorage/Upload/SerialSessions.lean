import DistributedFileStorage.Async.Linearization
import DistributedFileStorage.Upload.FirstMarks

/-!
# Upload sessions are serializable

Clients open sessions, mark chunks, ask whether all of them are there, and resume, all next to each
other and on any sessions. Each of these methods looks up the session first and reads or writes
the marks later. As long as no session is finalized or cleaned up, the row of a session stays as it
is, so the methods behave as if they had run one at a time (`sessionRequests_serializable`).

What a resumed session reports is what the marks before it have recorded
(`resumes_with_acknowledged`).
-/

set_option autoImplicit false

namespace DistributedFileStorage.Upload

open Async Store Services Relational

/-! ## The requests -/

/-- What a client asks of the upload manager while it uploads. -/
inductive SessionRequest where
  | createSession (sessionId : SessionId) (fileId : FileId) (fileName : String) (totalChunks : ℤ)
      (userId : UserId) (now : Time)
  | resumeSession (sessionId : SessionId) (now : Time)
  | markChunkUploaded (sessionId : SessionId) (sequenceNumber : ℤ) (chunkHash : ChunkHash)
      (now uploadedAt : Time)
  | isUploadComplete (sessionId : SessionId)

inductive SessionReply where
  | session (session : UploadSession)
  | marked
  | complete (isComplete : Bool)
  deriving DecidableEq

def SessionRequest.program : SessionRequest → Async SessionReply
  | .createSession sessionId fileId fileName totalChunks userId now => do
      let session ← UploadManager.createSession sessionId fileId fileName totalChunks userId now
      pure (.session session)
  | .resumeSession sessionId now => do
      let session ← UploadManager.resumeSession sessionId now
      pure (.session session)
  | .markChunkUploaded sessionId sequenceNumber chunkHash now uploadedAt => do
      let _ ← UploadManager.markChunkUploaded sessionId sequenceNumber chunkHash now uploadedAt
      pure .marked
  | .isUploadComplete sessionId => do
      let isComplete ← UploadManager.isUploadComplete sessionId
      pure (.complete isComplete)

/-! ## What the statements keep -/

/-- The rows of sessions stay as they are. -/
def RetainsSessions (before after : World) : Prop :=
  ∀ sessionId session, before.store.getUploadSession sessionId = some session →
    after.store.getUploadSession sessionId = some session

namespace RetainsSessions

variable {first second third : World}

theorem refl : RetainsSessions first first := fun _ _ => id

theorem trans (earlier : RetainsSessions first second) (later : RetainsSessions second third) :
    RetainsSessions first third :=
  fun sessionId session found => later sessionId session (earlier sessionId session found)

/-- A call that may fail keeps the sessions if it does when it works. -/
theorem of_call {op : Call} (works : ∀ world, RetainsSessions world (exec op world).2)
    {before after : World} {outcome : Except Failure op.Result}
    (happens : faulty op before outcome after) : RetainsSessions before after := by
  rcases happens with made | ⟨_, _, damage, rfl⟩
  · have kept := works before
    rwa [made] at kept
  · intro sessionId session found
    have same := congrArg (fun db => db.getUploadSession sessionId)
      (Call.store_leaves op damage before)
    exact same.trans found

theorem createUploadSession (session : UploadSessionRecord) (world : World) :
    RetainsSessions world (exec (.store (.createUploadSession session)) world).2 := by
  intro sessionId other found
  show (world.commit (world.store.createUploadSession session)).2.store.getUploadSession sessionId =
    some other
  unfold Database.createUploadSession
  split
  · exact found
  · rename_i absent
    have different : sessionId ≠ session.sessionId := by
      rintro rfl
      rw [Database.getUploadSession, Table.find?_eq_none_iff.mpr absent] at found
      cases found
    exact (Table.find?_insertIfAbsent_of_ne different).trans found

theorem markChunkUploaded (chunk : UploadedChunkRecord) (world : World) :
    RetainsSessions world (exec (.store (.markChunkUploaded chunk)) world).2 := by
  intro sessionId session found
  show (world.commit (world.store.markChunkUploaded chunk)).2.store.getUploadSession sessionId =
    some session
  unfold Database.markChunkUploaded
  split
  · exact found
  · exact found

end RetainsSessions

/-- Looking up a session, with what follows when there is one. -/
theorem readsThenCalls_lookup {α : Type} {sessionId : SessionId}
    {next : Option UploadSessionRecord → Async α} {state : World}
    (absent : ∃ final, next none = .done final)
    (present : ∀ session now, (∃ final, next (some session) = .done final) ∨
      ReadsThenCalls faulty RetainsSessions (next (some session)) now) :
    ReadsThenCalls faulty RetainsSessions (store (.getUploadSession sessionId) >>= next) state := by
  refine .read fun before _ outcome after happens => ?_
  have unchanged : after = before := by
    rcases faulty_store_cases happens with made | ⟨_, same⟩
    · exact (Prod.mk.inj made).2.symm
    · exact same
  refine ⟨unchanged ▸ .refl, unchanged, fun value resolved => ?_⟩
  have found : before.store.getUploadSession sessionId = value := by
    rcases happens with made | ⟨_, ⟨failure, failed⟩, _⟩
    · exact Except.ok.inj ((Prod.mk.inj made).1.trans resolved)
    · cases resolved.symm.trans failed
  cases value with
  | none => exact .inl absent
  | some session =>
      refine (present session before).imp_right fun reads => ⟨fun later kept => ?_, reads⟩
      exact .inl (Prod.ext (congrArg Except.ok (kept sessionId session found)) rfl)

theorem SessionRequest.readsThenCalls (request : SessionRequest) (state : World) :
    ReadsThenCalls faulty RetainsSessions request.program state := by
  have lists : ∀ sessionId now,
      ReadsThenCalls faulty RetainsSessions (store (.getUploadedChunks sessionId)) now :=
    fun sessionId now => .last fun before outcome after => .of_call fun world => .refl
  cases request with
  | createSession sessionId fileId fileName totalChunks userId now =>
      refine .map (.map (.last fun before outcome after => ?_) _) _
      exact .of_call (.createUploadSession _)
  | resumeSession sessionId now =>
      refine .map (readsThenCalls_lookup ⟨_, rfl⟩ fun session later => ?_) _
      dsimp only
      split_ifs with closed completed
      · exact .inl ⟨_, rfl⟩
      · exact .inl ⟨_, rfl⟩
      · exact .inr ((lists sessionId later).map _)
  | markChunkUploaded sessionId sequenceNumber chunkHash now uploadedAt =>
      refine .map (readsThenCalls_lookup ⟨_, rfl⟩ fun session later => ?_) _
      dsimp only
      split_ifs with inactive expired outOfRange
      · exact .inl ⟨_, rfl⟩
      · exact .inl ⟨_, rfl⟩
      · exact .inl ⟨_, rfl⟩
      · exact .inr (.last fun before outcome after => .of_call (.markChunkUploaded _))
  | isUploadComplete sessionId =>
      refine .map (readsThenCalls_lookup ⟨_, rfl⟩ fun session later => ?_) _
      exact .inr ((lists sessionId later).map _)

/-- Every request takes effect at its last statement. -/
theorem SessionRequest.takesEffect (request : SessionRequest) (state : World) :
    TakesEffectOnce faulty RetainsSessions id (Runs faulty request.program) request.program state :=
  (request.readsThenCalls state).takesEffect fun _ _ _ => RetainsSessions.trans

/-- **Upload sessions are serializable.** Any number of requests on any sessions run next to each
other, and any statement may fail. Each request that has settled has the outcome that it has when
the requests run alone, one after the other, in the order of certain of their statements, and the
store is the one that this order leads to. -/
theorem sessionRequests_serializable {ι : Type} [DecidableEq ι] (requests : ι → SessionRequest)
    (origin : World) {tasks : Pool system ι SessionReply} {reached : Moment system ι World}
    (run : PoolRuns faulty (fun task => (requests task).program, .start origin) (tasks, reached)) :
    ∃ points, Linearization id (fun task => Runs faulty (requests task).program) origin reached
        points ∧
      ∀ task outcome, tasks task = .done outcome →
        ∃ event, (event, outcome) ∈ points ∧ event.task = task := by
  exact Pool.exists_linearization_of_calls (fun _ => RetainsSessions.refl)
    (fun _ _ _ => RetainsSessions.trans) (fun task => (requests task).takesEffect origin) run

/-- A session is opened, its only chunk is marked twice, and the client resumes. -/
def resumedRequests : ℕ → SessionRequest
  | 0 => .createSession upload notes "notes.txt" 1 "ada" 0
  | 1 => .markChunkUploaded upload 0 "aa" 1 1
  | 2 => .resumeSession upload 2
  | 3 => .markChunkUploaded upload 0 "bb" 3 3
  | _ => .isUploadComplete upload

/-- The first mark ends before the client resumes. The second begins earlier and ends later. -/
def resumedRun : Pool system ℕ SessionReply × Moment system ℕ World :=
  Pool.runSchedule exec [0, 3, 1, 1, 2, 4, 2, 3, 4]
    (fun task => (resumedRequests task).program, .start (.ofStore .empty))

theorem runs_resumedRun : PoolRuns faulty
    (fun task => (resumedRequests task).program, .start (.ofStore .empty))
    (resumedRun.1, resumedRun.2) :=
  Pool.runs_runSchedule (fun _ _ => .inl rfl) _ _

theorem sessionRequests_serializable_resumed :
    ∃ points, Linearization id (fun task => Runs faulty (resumedRequests task).program)
        (.ofStore .empty) resumedRun.2 points ∧
      ∃ event, (event, .ok (.complete true)) ∈ points ∧ event.task = 4 := by
  obtain ⟨points, linear, settled⟩ := sessionRequests_serializable resumedRequests _ runs_resumedRun
  exact ⟨points, linear, settled 4 _ rfl⟩

/-! ## What a resumed session reports -/

/-- The mark of a sequence number has been acknowledged. -/
def SessionRequest.Acknowledges (request : SessionRequest) (sessionId : SessionId)
    (sequenceNumber : ℤ) (outcome : Except Failure SessionReply) : Prop :=
  ∃ chunkHash now uploadedAt,
    request = .markChunkUploaded sessionId sequenceNumber chunkHash now uploadedAt ∧
      outcome = .ok .marked

/-- A sequence number of a session has a mark. -/
def Marked (sessionId : SessionId) (sequenceNumber : ℤ) (world : World) : Prop :=
  (sessionId, sequenceNumber) ∈ world.store.uploadedChunks.keys

section Sequential

variable {before : World} {sessionId : SessionId} {sequenceNumber : ℤ}

theorem triple_getUploadSession :
    Triple faulty (· = before) (store (.getUploadSession sessionId))
      (fun found after => found = before.store.getUploadSession sessionId ∧ after = before)
      (· = before) := by
  refine (triple_read fun _ => rfl).consequence (fun _ => id) ?_ fun _ => id
  rintro found after ⟨rfl, rfl⟩
  exact ⟨rfl, rfl⟩

theorem triple_getUploadedChunks :
    Triple faulty (· = before) (store (.getUploadedChunks sessionId))
      (fun chunks after => chunks = before.store.getUploadedChunks sessionId ∧ after = before)
      (· = before) := by
  refine (triple_read fun _ => rfl).consequence (fun _ => id) ?_ fun _ => id
  rintro found after ⟨rfl, rfl⟩
  exact ⟨rfl, rfl⟩

/-- A mark that resolves belongs to its session and has been recorded, and one that rejects has
changed nothing. -/
theorem triple_markChunkUploaded (chunkHash : ChunkHash) (now uploadedAt : Time) :
    Triple faulty (· = before)
      (UploadManager.markChunkUploaded sessionId sequenceNumber chunkHash now uploadedAt)
      (fun _ after => ∃ session db, before.store.getUploadSession sessionId = some session ∧
        0 ≤ sequenceNumber ∧ sequenceNumber < session.totalChunks ∧
        before.store.markChunkUploaded
          { sessionId := sessionId, sequenceNumber := sequenceNumber, chunkHash := chunkHash,
            uploadedAt := uploadedAt } = .ok db ∧ after = before.setStore db)
      (· = before) := by
  refine triple_getUploadSession.bind fun found => .of_fact fun known => ?_
  cases found with
  | none => exact .throw fun _ => id
  | some session =>
      dsimp only
      split_ifs with inactive expired outOfRange
      · exact .throw fun _ => id
      · exact .throw fun _ => id
      · exact .throw fun _ => id
      · push Not at outOfRange
        refine .perform ?_
        intro world outcome after start happens
        obtain rfl := start
        rcases faulty_store_cases happens with works | ⟨⟨failure, rfl⟩, rfl⟩
        · rcases World.commit_cases works with ⟨_, _, rfl, rfl⟩ | ⟨db, marked, rfl, rfl⟩
          · exact rfl
          · exact ⟨session, db, known.symm, outOfRange.1, outOfRange.2, marked, rfl⟩
        · exact rfl

theorem triple_createSession (fileId : FileId) (fileName : String) (totalChunks : ℤ)
    (userId : UserId) (now : Time) :
    Triple faulty (· = before)
      (UploadManager.createSession sessionId fileId fileName totalChunks userId now)
      (fun _ after => after.store.uploadedChunks = before.store.uploadedChunks) (· = before) := by
  refine .through (fun _ after => after.store.uploadedChunks = before.store.uploadedChunks)
    (.perform ?_) fun _ => .pure fun _ => id
  intro world outcome after start happens
  obtain rfl := start
  rcases faulty_store_cases happens with works | ⟨⟨failure, rfl⟩, rfl⟩
  · rcases World.commit_cases works with ⟨_, _, rfl, rfl⟩ | ⟨db, created, rfl, rfl⟩
    · exact rfl
    · unfold Database.createUploadSession at created
      split at created
      · cases created
      · rw [← Except.ok.inj created]
        exact rfl
  · exact rfl

/-- A session that resumes reports the marks of the store, and changes nothing. -/
theorem triple_resumeSession (now : Time) :
    Triple faulty (· = before) (UploadManager.resumeSession sessionId now)
      (fun resumed after => after = before ∧ resumed.uploadedChunks =
        (before.store.getUploadedChunks sessionId).map UploadedChunkRecord.sequenceNumber)
      (· = before) := by
  refine triple_getUploadSession.bind fun found => .of_fact fun _ => ?_
  cases found with
  | none => exact .throw fun _ => id
  | some session =>
      dsimp only
      split_ifs
      · exact .throw fun _ => id
      · exact .throw fun _ => id
      · refine triple_getUploadedChunks.bind fun chunks => .of_fact fun listed => .pure ?_
        exact fun after same => ⟨same, congrArg _ listed⟩

theorem triple_isUploadComplete :
    Triple faulty (· = before) (UploadManager.isUploadComplete sessionId)
      (fun _ after => after = before) (· = before) := by
  refine triple_getUploadSession.bind fun found => .of_fact fun _ => ?_
  cases found with
  | none => exact .throw fun _ => id
  | some session =>
      exact triple_getUploadedChunks.bind fun chunks => .of_fact fun _ => .pure fun _ => id

end Sequential

/-- **What one request does to the marks**: it leaves them as they are and acknowledges none, or it
records and acknowledges a mark in the range of its session. -/
theorem SessionRequest.marks_cases {request : SessionRequest} {before after : World}
    {outcome : Except Failure SessionReply}
    (run : Runs faulty request.program before outcome after) :
    (after.store.uploadedChunks = before.store.uploadedChunks ∧
        ∀ sessionId sequenceNumber, ¬ request.Acknowledges sessionId sequenceNumber outcome) ∨
      ∃ sessionId sequenceNumber chunkHash now uploadedAt session db,
        request = .markChunkUploaded sessionId sequenceNumber chunkHash now uploadedAt ∧
          outcome = .ok .marked ∧ before.store.getUploadSession sessionId = some session ∧
          0 ≤ sequenceNumber ∧ sequenceNumber < session.totalChunks ∧
          before.store.markChunkUploaded
            { sessionId := sessionId, sequenceNumber := sequenceNumber, chunkHash := chunkHash,
              uploadedAt := uploadedAt } = .ok db ∧ after = before.setStore db := by
  cases request with
  | createSession other fileId fileName totalChunks userId now =>
      refine .inl ⟨?_, by rintro _ _ ⟨_, _, _, ⟨⟩, _⟩⟩
      rcases Runs.bind_iff.mp run with ⟨session, middle, creates, rest⟩ | ⟨failure, creates, _⟩
      · obtain ⟨_, rfl⟩ := Runs.pure_iff.mp rest
        exact triple_createSession fileId fileName totalChunks userId now rfl creates
      · have same : after = before :=
          triple_createSession fileId fileName totalChunks userId now rfl creates
        rw [same]
  | resumeSession other now =>
      refine .inl ⟨?_, by rintro _ _ ⟨_, _, _, ⟨⟩, _⟩⟩
      rcases Runs.bind_iff.mp run with ⟨session, middle, resumes, rest⟩ | ⟨failure, resumes, _⟩
      · obtain ⟨_, rfl⟩ := Runs.pure_iff.mp rest
        rw [(triple_resumeSession now rfl resumes).1]
      · have same : after = before := triple_resumeSession now rfl resumes
        rw [same]
  | markChunkUploaded other number chunkHash now uploadedAt =>
      rcases Runs.bind_iff.mp run with ⟨value, middle, marks, rest⟩ | ⟨failure, marks, rfl⟩
      · obtain ⟨rfl, rfl⟩ := Runs.pure_iff.mp rest
        obtain ⟨session, db, recorded⟩ :=
          triple_markChunkUploaded chunkHash now uploadedAt rfl marks
        exact .inr ⟨_, _, _, _, _, session, db, rfl, rfl, recorded⟩
      · refine .inl ⟨?_, by rintro _ _ ⟨_, _, _, _, ⟨⟩⟩⟩
        have same : after = before := triple_markChunkUploaded chunkHash now uploadedAt rfl marks
        rw [same]
  | isUploadComplete other =>
      refine .inl ⟨?_, by rintro _ _ ⟨_, _, _, ⟨⟩, _⟩⟩
      rcases Runs.bind_iff.mp run with ⟨value, middle, asks, rest⟩ | ⟨failure, asks, _⟩
      · obtain ⟨_, rfl⟩ := Runs.pure_iff.mp rest
        have same : after = before := triple_isUploadComplete rfl asks
        rw [same]
      · have same : after = before := triple_isUploadComplete rfl asks
        rw [same]

/-- **One request**: the numbers that have a mark after it are those that had one before, and the
one that it acknowledges. -/
theorem SessionRequest.marked_iff {request : SessionRequest} {before after : World}
    {outcome : Except Failure SessionReply}
    (run : Runs faulty request.program before outcome after) (sessionId : SessionId)
    (sequenceNumber : ℤ) :
    Marked sessionId sequenceNumber after ↔ Marked sessionId sequenceNumber before ∨
      request.Acknowledges sessionId sequenceNumber outcome := by
  unfold Marked
  rcases SessionRequest.marks_cases run with ⟨same, silent⟩ |
    ⟨other, number, chunkHash, now, uploadedAt, session, db, rfl, rfl, _, _, _, marked, rfl⟩
  · rw [same, or_iff_left (silent sessionId sequenceNumber)]
  · rw [World.store_setStore, (markChunkUploaded_ok marked).1, Table.mem_keys_insertIfAbsent]
    refine or_congr_right (Iff.trans (Prod.mk.injEq _ _ _ _).to_iff ⟨?_, ?_⟩)
    · rintro ⟨rfl, rfl⟩
      exact ⟨chunkHash, now, uploadedAt, rfl, rfl⟩
    · rintro ⟨_, _, _, ⟨⟩, _⟩
      exact ⟨rfl, rfl⟩

/-- What a resumed session reports is what has a mark. -/
theorem SessionRequest.mem_uploadedChunks_iff {sessionId : SessionId} {now : Time}
    {before after : World} {resumed : UploadSession}
    (run : Runs faulty (SessionRequest.resumeSession sessionId now).program before
      (.ok (.session resumed)) after) :
    resumed.uploadedChunks.Nodup ∧
      ∀ sequenceNumber, sequenceNumber ∈ resumed.uploadedChunks ↔
        Marked sessionId sequenceNumber before := by
  rcases Runs.bind_iff.mp run with ⟨session, middle, resumes, rest⟩ | ⟨failure, _, failed⟩
  · obtain ⟨same, rfl⟩ := Runs.pure_iff.mp rest
    cases same
    obtain ⟨_, listed⟩ := triple_resumeSession now rfl resumes
    rw [listed]
    exact ⟨nodup_sequenceNumbers _ _, fun sequenceNumber => mem_sequenceNumbers⟩
  · cases failed

/-- **A resumed session reports the acknowledged marks**: in the order in which the requests take
effect, it lists without repetition the numbers that were marked at first and those whose marks have
been acknowledged before it, and no others. Among them is each mark that was acknowledged before the
client asked to resume. -/
theorem resumes_with_acknowledged {ι : Type} [DecidableEq ι] (requests : ι → SessionRequest)
    (origin : World) {tasks : Pool system ι SessionReply} {reached : Moment system ι World}
    (run : PoolRuns faulty (fun task => (requests task).program, .start origin) (tasks, reached))
    {task : ι} {sessionId : SessionId} {now : Time} {resumed : UploadSession}
    (resumes : requests task = .resumeSession sessionId now)
    (settled : tasks task = .done (.ok (.session resumed))) :
    resumed.uploadedChunks.Nodup ∧
      (∃ points earlier later event,
        Linearization id (fun task => Runs faulty (requests task).program) origin reached points ∧
          points = earlier ++ (event, .ok (.session resumed)) :: later ∧ event.task = task ∧
          ∀ sequenceNumber, sequenceNumber ∈ resumed.uploadedChunks ↔
            Marked sessionId sequenceNumber origin ∨
              ∃ point ∈ earlier, (requests point.1.task).Acknowledges sessionId sequenceNumber
                point.2) ∧
      ∀ marker sequenceNumber outcome early late, tasks marker = .done outcome →
        (requests marker).Acknowledges sessionId sequenceNumber outcome →
          reached.history = early ++ late → (∀ event ∈ late, event.task ≠ marker) →
            (∀ event ∈ early, event.task ≠ task) → sequenceNumber ∈ resumed.uploadedChunks := by
  obtain ⟨points, linear, all⟩ := Pool.exists_linearization_of_calls
    (fun _ => RetainsSessions.refl) (fun _ _ _ => RetainsSessions.trans)
    (fun task => (requests task).takesEffect origin) run
  obtain ⟨event, member, rfl⟩ := all task _ settled
  obtain ⟨earlier, later, place⟩ := List.append_of_mem member
  have order := linear.inOrder
  rw [place, List.map_append, List.map_cons] at order
  obtain ⟨before, after, leads, here⟩ := order.prior
  rw [resumes] at here
  obtain ⟨distinct, listed⟩ := SessionRequest.mem_uploadedChunks_iff here
  have reports : ∀ sequenceNumber, sequenceNumber ∈ resumed.uploadedChunks ↔
      Marked sessionId sequenceNumber origin ∨
        ∃ point ∈ earlier, (requests point.1.task).Acknowledges sessionId sequenceNumber
          point.2 := by
    intro sequenceNumber
    have step : ∀ task before answer after,
        Runs faulty (requests task).program before answer after →
        (Marked sessionId sequenceNumber after ↔ Marked sessionId sequenceNumber before ∨
          (requests task).Acknowledges sessionId sequenceNumber answer) :=
      fun _ _ _ _ run => SessionRequest.marked_iff run sessionId sequenceNumber
    rw [listed, leads.holds_iff step]
    refine or_congr_right ⟨?_, ?_⟩
    · rintro ⟨_, taken, acknowledges⟩
      obtain ⟨point, inside, rfl⟩ := List.mem_map.mp taken
      exact ⟨point, inside, acknowledges⟩
    · rintro ⟨point, inside, acknowledges⟩
      exact ⟨_, List.mem_map_of_mem inside, acknowledges⟩
  refine ⟨distinct, ⟨points, earlier, later, event, linear, place, rfl, reports⟩, ?_⟩
  intro marker sequenceNumber outcome early late done acknowledges split finished unstarted
  obtain ⟨mark, taken, rfl⟩ := all marker outcome done
  refine (reports sequenceNumber).mpr (.inr ⟨(mark, outcome), ?_, acknowledges⟩)
  exact linear.precedes split taken place finished unstarted

/-- The session that the client of these requests gets. -/
def resumedSession : UploadSession :=
  { sessionId := upload, fileId := notes, fileName := "notes.txt", totalChunks := 1,
    uploadedChunks := [0], createdAt := 0,
    expiresAt := UploadManager.sessionExpiryDays * millisecondsPerDay, userId := "ada" }

/-- It has the mark that was acknowledged before. -/
theorem resumes_with_acknowledged_resumed : (0 : ℤ) ∈ resumedSession.uploadedChunks :=
  (resumes_with_acknowledged resumedRequests _ runs_resumedRun
    (rfl : resumedRequests 2 = .resumeSession upload 2)
    (rfl : resumedRun.1 2 = .done (.ok (.session resumedSession)))).2.2 1 0 (.ok .marked)
      (resumedRun.2.history.take 4) (resumedRun.2.history.drop 4) rfl
      ⟨"aa", 1, 1, rfl, rfl⟩ (List.take_append_drop 4 _).symm (by decide +kernel)
      (by decide +kernel)

end DistributedFileStorage.Upload
