import DistributedFileStorage.Access.Coherence
import DistributedFileStorage.Async.LawfulRuns

/-!
# Revocations next to checks

A check reads the store and keeps its answer in two calls, and a revocation deletes the row and
removes the kept answers in two calls. When a check reads the row before the deletion and keeps
its answer after the removal, the answer stays for five minutes, and the user whose permission
has been revoked is let in. So is a user whose answer has been kept under another spelling of the
file, which the removal leaves.

These are the only ways (`revocation_takes_effect`).
-/

set_option autoImplicit false

namespace DistributedFileStorage.Access

open Async Store Services Caching Encoding Relational Program

variable {ι : Type}

/-! ## What the calls of a task rest on -/

/-- The call reads in the store that the query is permitted. -/
def findsPermission (query : Query) (event : Event access ι AccessState) : Bool :=
  match event.op with
  | .store (.getFile fileId) =>
      Uuid.parse query.fileId = some fileId ∧
        ((event.before.world.store.getFile fileId).any fun file =>
          file.ownerId = query.userId) = true
  | .store (.checkPermission fileId userId permission) =>
      Uuid.parse query.fileId = some fileId ∧ userId = query.userId ∧
        permission = operationToPermission query.operation ∧
        event.before.world.store.checkPermission fileId userId permission = true
  | _ => false

/-- Which calls a task makes. Only a check keeps an answer, under the key of its query; that the
query is permitted it has read in the store. -/
inductive AccessRule (calls : ι → AccessCall) (history : List (Event access ι AccessState))
    (task : ι) : AccessOp → Prop where
  | refuse (failure : Failure) : AccessRule calls history task (.refuse failure)
  | cached (key : String) : AccessRule calls history task (.cached key)
  | getFile (fileId : FileId) : AccessRule calls history task (.store (.getFile fileId))
  | checkPermission (fileId : FileId) (userId : UserId) (permission : Permission) :
      AccessRule calls history task (.store (.checkPermission fileId userId permission))
  | cacheResult (query : Query) (answer : Bool) (checks : calls task = .check query)
      (found : answer = true →
        ∃ event ∈ history, event.task = task ∧ findsPermission query event = true) :
      AccessRule calls history task (.cacheResult query.key answer)
  | grantPermission (permission : FilePermissionRecord) :
      AccessRule calls history task (.store (.grantPermission permission))
  | revokePermission (fileId : FileId) (userId : UserId) :
      AccessRule calls history task (.store (.revokePermission fileId userId))
  | invalidateCacheForUser (userId : UserId) (fileId : String) :
      AccessRule calls history task (.invalidateCacheForUser userId fileId)

variable {calls : ι → AccessCall} {origin : AccessState} {moment : Moment access ι AccessState}

/-- A run of the calls. -/
abbrev AccessRun (calls : ι → AccessCall) (origin : AccessState) :
    Moment access ι AccessState → Prop :=
  LawfulRun timed (AccessRule calls) origin

theorem now_le_of_timed {op : AccessOp} {before after : AccessState}
    {outcome : access.Outcome op.Result} (happens : timed op before outcome after) :
    before.now ≤ after.now := by
  obtain ⟨duration, made⟩ := happens
  obtain ⟨_, rfl⟩ := Prod.mk.inj made
  cases op <;> exact before.now_le_elapse duration

/-- No call changes a file. -/
theorem files_of_run (lawful : AccessRun calls origin moment) :
    moment.state.world.store.files = origin.world.store.files := by
  refine lawful.invariant (fun state => state.world.store.files = origin.world.store.files) rfl ?_
  intro history task op before outcome after keeps happens same
  obtain ⟨duration, made⟩ := happens
  obtain ⟨_, rfl⟩ := Prod.mk.inj made
  cases keeps with
  | grantPermission permission => exact (files_grantPermission before.world permission).trans same
  | _ => exact same

/-! ## What a revocation brings about -/

/-- The call deletes the row of the user. -/
def deletesRow (query : Query) (event : Event access ι AccessState) : Bool :=
  match event.op with
  | .store (.revokePermission fileId userId) =>
      Uuid.parse query.fileId = some fileId ∧ userId = query.userId
  | _ => false

/-- The call writes the row of the user. -/
def grantsRow (query : Query) (event : Event access ι AccessState) : Bool :=
  match event.op with
  | .store (.grantPermission permission) =>
      Uuid.parse query.fileId = some permission.fileId ∧ permission.userId = query.userId
  | _ => false

/-- The call removes the answers for a user and a file. -/
def removesAnswers (event : Event access ι AccessState) : Bool :=
  match event.op with
  | .invalidateCacheForUser _ _ => true
  | _ => false

/-- The call removes the answers for a user and a file, and with them the one about the query, or
there is none that lets the user in. -/
def clearsAnswer (query : Query) (event : Event access ι AccessState) : Bool :=
  match event.op with
  | .invalidateCacheForUser userId fileId =>
      query.key ∈ Operation.values.map (cacheKey userId fileId) ∨
        event.before.permissionCache.lookup event.after.now query.key ≠ some true
  | _ => false

/-- The call keeps an answer under the key. -/
def keepsAnswer (key : String) (event : Event access ι AccessState) : Bool :=
  match event.op with
  | .cacheResult kept _ => kept = key
  | _ => false

/-- The call keeps under the key that the user may do it. -/
def keepsPermission (key : String) (event : Event access ι AccessState) : Bool :=
  match event.op with
  | .cacheResult kept answer => kept = key ∧ answer = true
  | _ => false

/-- Once the row has been deleted it is gone, until it is granted again. -/
theorem row_absent {query : Query} {id : FileId} (spells : Uuid.parse query.fileId = some id)
    {test : Event access ι AccessState → Bool}
    (deletes : ∀ event, test event = true → deletesRow query event = true)
    (lawful : AccessRun calls origin moment)
    (deleted : ∃ event ∈ moment.history, test event = true)
    (ungranted : ∀ event ∈ callsAfter test moment.history, grantsRow query event = false) :
    moment.state.world.store.filePermissions.find? (id, query.userId) = none := by
  refine lawful.since (fun state =>
    state.world.store.filePermissions.find? (id, query.userId) = none) test
    (grantsRow query) ?_ ?_ deleted ungranted
  · intro history task op before outcome after keeps happens tested
    have deleting := deletes _ tested
    obtain ⟨duration, made⟩ := happens
    obtain ⟨_, rfl⟩ := Prod.mk.inj made
    cases keeps with
    | revokePermission fileId userId =>
        obtain ⟨same, rfl⟩ := of_decide_eq_true deleting
        obtain rfl := Option.some.inj (spells.symm.trans same)
        exact Table.find?_delete_self
    | _ => cases deleting
  · intro history task op before outcome after keeps happens unbroken absent
    obtain ⟨duration, made⟩ := happens
    obtain ⟨_, rfl⟩ := Prod.mk.inj made
    cases keeps with
    | grantPermission permission =>
        refine (find?_grantPermission fun same => ?_).trans absent
        obtain ⟨rfl, user⟩ := Prod.mk.inj same
        exact of_decide_eq_false unbroken ⟨spells, user.symm⟩
    | revokePermission fileId userId =>
        refine Table.find?_eq_none_iff.mpr fun present => ?_
        exact Table.find?_eq_none_iff.mp absent (Table.mem_keys_delete.mp present).1
    | _ => exact absent

/-- No live answer lets the user in. -/
def Refuses (query : Query) (state : AccessState) : Prop :=
  state.permissionCache.lookup state.now query.key ≠ some true

theorem Refuses.elapse {query : Query} {state : AccessState} (refuses : Refuses query state)
    (duration : ℕ) : Refuses query (state.elapse duration) :=
  fun live => refuses (TimedCache.lookup_of_later (state.now_le_elapse duration) live)

/-- Once the answer has been removed, none lets the user in, until one is kept. -/
theorem answers_refused {query : Query} {test : Event access ι AccessState → Bool}
    (clears : ∀ event, test event = true → clearsAnswer query event = true)
    (lawful : AccessRun calls origin moment)
    (cleared : ∃ event ∈ moment.history, test event = true)
    (unkept : ∀ event ∈ callsAfter test moment.history, keepsPermission query.key event = false) :
    Refuses query moment.state := by
  refine lawful.since (Refuses query) test (keepsPermission query.key) ?_ ?_ cleared unkept
  · intro history task op before outcome after keeps happens tested
    have clearing := clears _ tested
    obtain ⟨duration, made⟩ := happens
    obtain ⟨_, rfl⟩ := Prod.mk.inj made
    cases keeps with
    | invalidateCacheForUser userId fileId =>
        exact TimedCache.lookup_remove_ne (of_decide_eq_true clearing)
    | _ => cases clearing
  · intro history task op before outcome after keeps happens unbroken refuses
    obtain ⟨duration, made⟩ := happens
    obtain ⟨_, rfl⟩ := Prod.mk.inj made
    cases keeps with
    | cacheResult other answer checks found =>
        exact TimedCache.lookup_put_ne (of_decide_eq_false unbroken) (refuses.elapse duration)
    | invalidateCacheForUser userId fileId =>
        exact TimedCache.lookup_remove_ne (.inr (refuses.elapse duration))
    | _ => exact refuses.elapse duration

/-! ## The programs -/

variable {α : Type} {task : ι} {query : Query}

/-- A program whose calls keep the rule, and what it ends with. -/
abbrev Obeys (calls : ι → AccessCall) (origin : AccessState) (task : ι) (program : Program access α)
    (moment : Moment access ι AccessState) (resolved : α → Moment access ι AccessState → Prop)
    (rejected : Moment access ι AccessState → Prop) : Prop :=
  Meets timed (Lawfully timed (AccessRule calls) origin) task program moment resolved rejected

/-- The rule of one call that works. -/
theorem obeys_await {op : AccessOp} (value : AccessState → op.Result)
    (effect : AccessState → AccessState)
    (works : ∀ state, accessExec op state = (.ok (value state), effect state))
    {resolved : op.Result → Moment access ι AccessState → Prop}
    {rejected : Moment access ι AccessState → Prop}
    (keeps : ∀ before, Lawfully timed (AccessRule calls) origin moment before →
      AccessRule calls before.history task op)
    (ends : ∀ before now, Lawfully timed (AccessRule calls) origin moment before →
      resolved (value (before.state.atTime now))
        (before.next task op (.ok (value (before.state.atTime now)))
          (effect (before.state.atTime now)))) :
    Obeys calls origin task (await op) moment resolved rejected := by
  refine .perform fun before evolved outcome after happens => ?_
  refine ⟨.next (keeps before evolved) happens, ?_⟩
  obtain ⟨now, later, made⟩ := timed_iff.mp happens
  rw [works] at made
  obtain ⟨rfl, rfl⟩ := Prod.mk.inj made
  exact ends before now evolved

/-- Since the start a call with a property has been made. -/
def Made (holds : Event access ι AccessState → Prop) (start now : Moment access ι AccessState) :
    Prop :=
  ∃ earlier event later, now.history = earlier ++ event :: later ∧
    start.history <+: earlier ∧ holds event

theorem Made.mono {holds : Event access ι AccessState → Prop}
    {start now later : Moment access ι AccessState} (made : Made holds start now)
    (grows : now.history <+: later.history) : Made holds start later := by
  obtain ⟨earlier, event, rest, split, since, holds⟩ := made
  obtain ⟨more, same⟩ := grows
  exact ⟨earlier, event, rest ++ more, by rw [← same, split]; simp, since, holds⟩

theorem made_next {holds : Event access ι AccessState → Prop}
    {start before : Moment access ι AccessState} {op : AccessOp}
    {outcome : access.Outcome op.Result} {after : AccessState}
    (grows : start.history <+: before.history)
    (here : holds ⟨task, op, outcome, before.state, after⟩) :
    Made holds start (before.next task op outcome after) :=
  ⟨before.history, _, [], rfl, grows, here⟩

/-- A statement whose parameter is accepted; one whose parameter is refused rejects. -/
theorem obeys_withParameter {β : Type} {parameter : Except Failure β}
    {statement : β → Program access α}
    {resolved : α → Moment access ι AccessState → Prop}
    {rejected : Moment access ι AccessState → Prop}
    (accepted : ∀ given, parameter = .ok given →
      Obeys calls origin task (statement given) moment resolved rejected)
    (refused : ∀ failure, parameter = .error failure → ∀ later, rejected later) :
    Obeys calls origin task (withParameter parameter statement) moment resolved rejected := by
  cases parameter with
  | ok given => exact accepted given rfl
  | error failure =>
      refine .bind (.perform fun before evolved outcome after happens => ?_)
      refine ⟨.next (.refuse failure) happens, ?_⟩
      cases outcome with
      | error _ => exact refused failure rfl _
      | ok value => exact value.elim

/-- The store accepts the texts of the query. -/
def Query.Accepted (query : Query) : Prop :=
  ∃ id userId, uuidParameter query.fileId = .ok id ∧ textParameter query.userId = .ok userId

/-- The part of a check that asks the store answers by what it reads there. -/
theorem obeys_readPermission :
    Obeys calls origin task (readPermission query.userId query.fileId query.operation) moment
      (fun answer later => moment.history <+: later.history ∧ (answer = true →
        Made (fun event => event.task = task ∧ findsPermission query event = true) moment later))
      (fun _ => ¬ query.Accepted) := by
  have unparsed : ∀ failure, uuidParameter query.fileId = .error failure → ¬ query.Accepted := by
    rintro failure refused ⟨id, userId, accepted, _⟩
    cases refused.symm.trans accepted
  refine .bind (obeys_withParameter (fun id parameter => ?_) fun failure refused _ =>
    unparsed failure refused)
  have spells := uuidParameter_eq_ok_iff.mp parameter
  refine obeys_await (fun state => state.world.store.getFile id) (fun state => state) (fun _ => rfl)
    (fun _ _ => .getFile _) fun before now evolved => ?_
  dsimp only [AccessState.world_atTime]
  split
  · exact ⟨evolved.grows.trans (List.prefix_append _ _), nofun⟩
  · rename_i file found
    split
    · rename_i owner
      refine ⟨evolved.grows.trans (List.prefix_append _ _), fun _ => made_next evolved.grows ?_⟩
      exact ⟨rfl, by simp [findsPermission, spells, found, owner]⟩
    · refine obeys_withParameter (fun id parameter => ?_) fun failure refused _ =>
        unparsed failure refused
      refine obeys_withParameter (fun userId plain => ?_) ?_
      · obtain rfl := eq_of_textParameter plain
        refine obeys_await (fun state => state.world.store.checkPermission id query.userId
          (operationToPermission query.operation)) (fun state => state) (fun _ => rfl)
          (fun _ _ => .checkPermission _ _ _) fun asked later reached => ?_
        have grows := evolved.grows.trans ((List.prefix_append _ _).trans reached.grows)
        refine ⟨grows.trans (List.prefix_append _ _), fun granted => made_next grows ?_⟩
        exact ⟨rfl, by simpa [findsPermission, uuidParameter_eq_ok_iff.mp parameter] using granted⟩
      · rintro failure refused _ ⟨id, userId, _, accepted⟩
        cases refused.symm.trans accepted

/-- The call lets the user in: it reads that the query is permitted, in the store or in the
cache. -/
def LetsIn (query : Query) (event : Event access ι AccessState) : Prop :=
  findsPermission query event = true ∨
    event.op = .cached query.key ∧
      event.before.permissionCache.lookup event.after.now query.key = some true

/-- A check lets a user in by one of its calls. -/
theorem obeys_check (checks : calls task = .check query) :
    Obeys calls origin task query.check moment
      (fun answer later => answer = true → Made (LetsIn query) moment later)
      (fun _ => ¬ query.Accepted) := by
  unfold Query.check
  rw [checkPermission_eq]
  refine .bind (obeys_await (fun state => state.permissionCache.lookup state.now query.key)
    (fun state => state) (fun _ => rfl) (fun _ _ => .cached _) fun before now evolved => ?_)
  dsimp only [AccessState.permissionCache_atTime, AccessState.now_atTime]
  split
  · rename_i answer live
    rintro rfl
    exact made_next evolved.grows (.inr ⟨rfl, live⟩)
  · refine .bind (obeys_readPermission.consequence ?_ fun _ => id)
    rintro answer later ⟨grown, found⟩
    refine .bind (obeys_await (fun _ => ()) _ (fun _ => rfl) (fun reached asked => ?_)
      fun reached now asked granted => ?_)
    · refine .cacheResult query answer checks fun granted => ?_
      obtain ⟨earlier, event, rest, split, _, own, finds⟩ := (found granted).mono asked.grows
      exact ⟨event, by simp [split], own, finds⟩
    · have lets : Made (LetsIn query) moment later := by
        obtain ⟨earlier, event, rest, split, since, _, finds⟩ := found granted
        have start := evolved.grows.trans ((List.prefix_append _ _).trans since)
        exact ⟨earlier, event, rest, split, start, .inl finds⟩
      exact lets.mono (asked.grows.trans (List.prefix_append _ _))

theorem obeys_verifyOwner {ownerId : UserId} {fileId : String} :
    Obeys calls origin task (AccessControlImpl.verifyOwner ownerId fileId) moment
      (fun _ _ => True) (fun _ => True) := by
  refine .bind (obeys_withParameter (fun id _ => ?_) fun _ _ _ => trivial)
  refine obeys_await (fun state => state.world.store.getFile id) (fun state => state) (fun _ => rfl)
    (fun _ _ => .getFile _) fun before now evolved => ?_
  split
  · trivial
  · split <;> trivial

/-- The task has made a call. -/
def HasMade (task : ι) (op : AccessOp) (now : Moment access ι AccessState) : Prop :=
  ∃ event ∈ now.history, event.task = task ∧ event.op = op

/-- A statement is made, whatever comes of it. -/
theorem obeys_statement {op : StoreOp}
    (keeps : ∀ history : List (Event access ι AccessState),
      AccessRule calls history task (.store op)) :
    Obeys calls origin task (await (.store op)) moment
      (fun _ later => HasMade task (.store op) later) (fun _ => True) := by
  refine .perform fun before evolved outcome after happens => ?_
  refine ⟨.next (keeps before.history) happens, ?_⟩
  cases outcome with
  | error failure => trivial
  | ok value => exact ⟨_, List.mem_append_right _ (List.mem_singleton_self _), rfl, rfl⟩

/-- A change of a permission that resolves has made its statement and removed the answers. -/
theorem obeys_changePermission (statement : FileId → UserId → StoreOp)
    {program : FileId → UserId → Program access Unit} {ownerId targetUserId : UserId}
    {fileId : String} {parameter : Except Failure UserId}
    (makes : ∀ id userId (now : Moment access ι AccessState),
      Obeys calls origin task (program id userId) now
        (fun _ later => HasMade task (.store (statement id userId)) later) fun _ => True) :
    Obeys calls origin task (AccessControlImpl.verifyOwner ownerId fileId >>= fun _ =>
      withParameter (uuidParameter fileId) (fun id => withParameter parameter (program id)) >>=
        fun _ => await (.invalidateCacheForUser targetUserId fileId)) moment
      (fun _ later => (∃ id userId, uuidParameter fileId = .ok id ∧ parameter = .ok userId ∧
          HasMade task (.store (statement id userId)) later) ∧
        HasMade task (.invalidateCacheForUser targetUserId fileId) later)
      (fun _ => True) := by
  refine .bind (obeys_verifyOwner.consequence (fun _ verified _ => ?_) fun _ _ => trivial)
  refine .bind (obeys_withParameter (fun id spells =>
    obeys_withParameter (fun userId accepted => ?_) fun _ _ _ => trivial) fun _ _ _ => trivial)
  refine (makes id userId verified).consequence (fun _ changed made => ?_) fun _ _ => trivial
  obtain ⟨event, member, own, statement⟩ := made
  refine obeys_await (fun _ => ()) _ (fun _ => rfl) (fun _ _ => .invalidateCacheForUser _ _)
    fun later now evolved =>
      ⟨⟨id, userId, spells, accepted, event, ?_, own, statement⟩, _,
        List.mem_append_right _ (List.mem_singleton_self _), rfl, rfl⟩
  exact List.mem_append_left _ (evolved.grows.subset member)

/-- What is known of a revocation that has resolved. -/
def AccessResolved (calls : ι → AccessCall) (task : ι) (_ : Option Bool)
    (later : Moment access ι AccessState) : Prop :=
  match calls task with
  | .revoke _ fileId targetUserId =>
      (∃ id userId, uuidParameter fileId = .ok id ∧ textParameter targetUserId = .ok userId ∧
          HasMade task (.store (.revokePermission id userId)) later) ∧
        HasMade task (.invalidateCacheForUser targetUserId fileId) later
  | _ => True

theorem obeys_program (task : ι) :
    Obeys calls origin task (calls task).program moment (AccessResolved calls task)
      (fun _ => True) := by
  unfold AccessResolved
  cases call : calls task with
  | check query =>
      exact .bind ((obeys_check call).consequence (fun _ _ _ => trivial) fun _ _ => trivial)
  | grant ownerId fileId targetUserId permission date =>
      refine .bind ((obeys_changePermission (grantStatement permission date ownerId)
        fun id userId now => ?_).consequence (fun _ _ _ => trivial) fun _ _ => trivial)
      exact obeys_statement fun _ => .grantPermission _
  | revoke ownerId fileId targetUserId =>
      refine .bind ((obeys_changePermission revokeStatement
        fun id userId now => ?_).consequence (fun _ _ made => made) fun _ _ => trivial)
      exact obeys_statement fun _ => .revokePermission _ _

/-- When the row is gone and the user is not the owner, no read of the store finds a
permission. -/
theorem not_findsPermission {event : Event access ι AccessState} {id : FileId}
    (spells : Uuid.parse query.fileId = some id)
    (stranger : ∀ file, event.before.world.store.getFile id = some file →
      file.ownerId ≠ query.userId)
    (absent : event.before.world.store.filePermissions.find? (id, query.userId) = none) :
    findsPermission query event = false := by
  unfold findsPermission
  split
  · rename_i fileId _
    refine decide_eq_false ?_
    rintro ⟨same, owned⟩
    obtain rfl := Option.some.inj (spells.symm.trans same)
    obtain ⟨file, found, owner⟩ := (Option.any_eq_true ..).mp owned
    exact stranger file found (of_decide_eq_true owner)
  · refine decide_eq_false ?_
    rintro ⟨same, rfl, rfl, granted⟩
    obtain rfl := Option.some.inj (spells.symm.trans same)
    obtain ⟨row, found, _⟩ := Database.checkPermission_iff.mp granted
    rw [absent] at found
    cases found
  · rfl

/-- A check that keeps a permission under the key has read it. -/
theorem keeps_of_found (lawful : AccessRun calls origin moment)
    {event : Event access ι AccessState} (member : event ∈ moment.history)
    (keeps : keepsPermission query.key event = true) :
    keepsAnswer query.key event = true ∧ ∃ other, calls event.task = .check other ∧
      ∃ read ∈ moment.history, read.task = event.task ∧ findsPermission other read = true := by
  obtain ⟨_, _, earlier, _, rule, _⟩ := lawful.exists_prior member
  obtain ⟨task, op, outcome, before, after⟩ := event
  cases rule with
  | cacheResult other answer checks found =>
      obtain ⟨same, granted⟩ := of_decide_eq_true keeps
      obtain ⟨read, reads, own, finds⟩ := found granted
      exact ⟨decide_eq_true same, other, checks, read, earlier reads, own, finds⟩
  | _ => cases keeps

/-! ## The interleavings -/

section Interleavings

variable [DecidableEq ι] {middleTasks tasks : Pool access ι (Option Bool)}
  {middle reached : Moment access ι AccessState}

/-- The statement of a revocation. -/
def deletion (revocation : ι) (query : Query) (event : Event access ι AccessState) : Bool :=
  event.task = revocation ∧ deletesRow query event = true

/-- The removal of the answers by a revocation. -/
def removal (revocation : ι) (query : Query) (event : Event access ι AccessState) : Bool :=
  event.task = revocation ∧ clearsAnswer query event = true

/-- **After the two calls of a revocation no call lets the user in**, if the row has not been
granted again, and if no check that has read a permission has kept it as its answer. -/
theorem not_letsIn {revocation : ι} {id : FileId} (spells : Uuid.parse query.fileId = some id)
    (run : AccessRun calls origin moment)
    (deleted : ∃ event ∈ moment.history, deletion revocation query event = true)
    (removed : ∃ event ∈ moment.history, removal revocation query event = true)
    (stranger : ∀ file, origin.world.store.getFile id = some file → file.ownerId ≠ query.userId)
    (ungranted : ∀ event ∈ callsAfter (deletion revocation query) moment.history,
      grantsRow query event = false)
    (inTime : ∀ event ∈ callsAfter (removal revocation query) moment.history,
      keepsAnswer query.key event = true → ∀ other, calls event.task = .check other →
        ∀ read ∈ moment.history, read.task = event.task → findsPermission other read = false)
    {event : Event access ι AccessState} (now : moment.state = event.before)
    (happens : timed event.op event.before event.outcome event.after) :
    ¬ LetsIn query event := by
  have unkept : ∀ kept ∈ callsAfter (removal revocation query) moment.history,
      keepsPermission query.key kept = false := by
    intro kept member
    apply Bool.eq_false_iff.mpr
    intro keeps
    obtain ⟨keepsAny, other, checking, read, reads, own, finds⟩ :=
      keeps_of_found run (mem_of_mem_callsAfter member) keeps
    have never := inTime kept member keepsAny other checking read reads own
    rw [finds] at never
    cases never
  have absent := row_absent spells (fun event tested => (of_decide_eq_true tested).2) run deleted
    ungranted
  have refused := answers_refused (fun event tested => (of_decide_eq_true tested).2) run removed
    unkept
  rintro (finds | ⟨_, live⟩)
  · rw [not_findsPermission spells ?_ (now ▸ absent)] at finds
    · cases finds
    · intro file found
      refine stranger file ?_
      rw [Database.getFile, ← files_of_run run, now]
      exact found
  · exact refused (now ▸ TimedCache.lookup_of_later (now_le_of_timed happens) live)

/-- The runs of the calls next to each other. -/
abbrev AccessRuns (calls : ι → AccessCall) (origin : AccessState) :
    Pool access ι (Option Bool) × Moment access ι AccessState → Prop :=
  PoolRuns timed (fun task => (calls task).program, .start origin)

theorem accessRun_of_runs (run : AccessRuns calls origin (tasks, reached)) :
    AccessRun calls origin reached :=
  (Pool.meets .refl .trans (fun task => obeys_program task) run).1.lawful .start

end Interleavings

/-! ## A check before, after and around a revocation -/

/-- A file that its owner has shared with another user. -/
def sharedNotes : AccessState :=
  ((AccessControlImpl.grantPermission "owner" notes.text "ada" .read 0).run accessExec
    (.fresh (World.ofFile notes) 0)).2

/-- The other user asks, the owner revokes the permission, and the other user asks again. -/
def askRevokeAsk : Fin 3 → AccessCall
  | 0 => .check ⟨"ada", notes.text, .read⟩
  | 1 => .revoke "owner" notes.text "ada"
  | 2 => .check ⟨"ada", notes.text, .read⟩

/-- The calls run by a schedule at one time. -/
theorem runs_accessSchedule [DecidableEq ι] (schedule : List ι)
    (config : Pool access ι (Option Bool) × Moment access ι AccessState) :
    PoolRuns timed config (Pool.runSchedule accessExec schedule config) :=
  Pool.runs_runSchedule (fun op state =>
    (timed_iff.mpr ⟨state.now, le_refl _, rfl⟩ :
      timed op state (accessExec op state).1 (accessExec op state).2)) schedule config

/-- What the calls do by a schedule up to some moment. -/
def asking (schedule : List (Fin 3)) :
    Pool access (Fin 3) (Option Bool) × Moment access (Fin 3) AccessState :=
  Pool.runSchedule accessExec schedule (fun task => (askRevokeAsk task).program, .start sharedNotes)

/-- What the calls do by another schedule from there on. -/
def askingOn (first second : List (Fin 3)) :
    Pool access (Fin 3) (Option Bool) × Moment access (Fin 3) AccessState :=
  Pool.runSchedule accessExec second (asking first)

theorem runs_asking (first : List (Fin 3)) :
    AccessRuns askRevokeAsk sharedNotes ((asking first).1, (asking first).2) :=
  runs_accessSchedule first _

theorem runs_askingOn (first second : List (Fin 3)) :
    PoolRuns timed ((asking first).1, (asking first).2)
      ((askingOn first second).1, (askingOn first second).2) :=
  runs_accessSchedule second _

theorem stranger_sharedNotes (id : FileId) (file : FileRecord)
    (spells : Uuid.parse notes.text = some id)
    (found : sharedNotes.world.store.getFile id = some file) : file.ownerId ≠ "ada" := by
  obtain rfl := Option.some.inj ((Uuid.parse_text notes).symm.trans spells)
  have owned : (sharedNotes.world.store.getFile notes).map FileRecord.ownerId = some "owner" := by
    decide +kernel
  rw [found] at owned
  obtain same := Option.some.inj owned
  rw [same]
  decide

end DistributedFileStorage.Access
