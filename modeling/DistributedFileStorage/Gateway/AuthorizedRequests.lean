import DistributedFileStorage.Access.RecentAnswers
import DistributedFileStorage.Async.Interpretation
import DistributedFileStorage.Gateway.HandleRequest

/-!
# What a request may do to a file

The routes of a file ask the access control first. Here the calls of the handler on the access
control are its programs, so that requests interleave at each call of the store and at each step of
the permission cache. All other calls reply anything.

Whatever the requests are and however they are interleaved, a file is read, listed or deleted only
after the request has read in the store that its user may do so, or has found an answer in the
cache that was kept less than five minutes before. Permissions are changed only after the request
has read that its user owns the file (`authorized`).
-/

set_option autoImplicit false

namespace DistributedFileStorage.Gateway.HandleRequest

open Async Store Services Access Encoding
open Program (perform)

variable {Value : Type}

/-! ## The calls on the access control -/

/-- The calls of the access control, and those that other services reply to. -/
abbrev served (Value : Type) : Interface := access.withReplies (gateway Value)

/-- What happens to values on the way to the access control and back. -/
structure Conversions where
  /-- a property of a body in a template literal -/
  textOf (value : Option Json) : String
  /-- what is thrown for a failure of the store -/
  thrown (failure : Failure) : Thrown

/-- The permission that a property of a body stands for. -/
def permissionOf : Option Json → Option Permission
  | some (.string text) =>
      if text = "read" then some .read
      else if text = "write" then some .write
      else if text = "delete" then some .delete
      else none
  | _ => none

/-- A grant of a text that is no permission. Its row permits nothing, as if it was not there. -/
def grantNothing (ownerId : UserId) (fileId : String) (targetUserId : UserId) :
    Program access Unit := do
  AccessControlImpl.verifyOwner ownerId fileId
  withParameter (uuidParameter fileId) fun id =>
    withParameter (userIdParameter targetUserId) fun userId =>
      await (.store (.revokePermission id userId))
  await (.invalidateCacheForUser targetUserId fileId)

/-- How a call of the handler is served at some date. -/
def service (conversions : Conversions) (date : Time) :
    (op : GatewayOp) → Program (served Value) ((gateway Value).Outcome (op.Result Value))
  | .checkPermission userId fileId operation =>
      (AccessControlImpl.checkPermission userId fileId operation).serve conversions.thrown
  | .revokePermission ownerId fileId targetUserId =>
      (AccessControlImpl.revokePermission ownerId fileId targetUserId).serve conversions.thrown
  | .grantPermission ownerId fileId targetUserId permission =>
      match permissionOf permission with
      | some granted =>
          (AccessControlImpl.grantPermission ownerId fileId (conversions.textOf targetUserId)
            granted date).serve conversions.thrown
      | none =>
          (grantNothing ownerId fileId (conversions.textOf targetUserId)).serve conversions.thrown
  | op => perform (I := served Value) (.inr op)

/-- What a request must be allowed to do before it makes a call. -/
def required (request : Request) : GatewayOp → Option Query
  | .getFile fileId => some ⟨APIGateway.extractUserId request, fileId, .read⟩
  | .getVersion fileId _ => some ⟨APIGateway.extractUserId request, fileId, .read⟩
  | .listVersions fileId => some ⟨APIGateway.extractUserId request, fileId, .read⟩
  | .deleteFile fileId => some ⟨APIGateway.extractUserId request, fileId, .delete⟩
  | _ => none

/-! ## Who changes permissions -/

variable {ι : Type}

/-- The file whose permissions a call changes. -/
def changedFile : AccessOp → Option FileId
  | .store (.grantPermission row) => some row.fileId
  | .store (.revokePermission fileId _) => some fileId
  | _ => none

/-- The owner of a file that the call reads in the store. -/
def readsOwner (fileId : FileId) (event : Event access ι AccessState) : Option UserId :=
  match event.op, event.outcome with
  | .store (.getFile asked), .ok found =>
      if asked = fileId then found.map FileRecord.ownerId else none
  | _, _ => none

/-- The permissions of a file are changed by a task that has read that its user owns the file. -/
def OwnerRule (userOf : ι → UserId) (task : ι) (own : List (Event access ι AccessState))
    (op : AccessOp) : Prop :=
  ∀ fileId, changedFile op = some fileId → ∃ read ∈ own, readsOwner fileId read = some (userOf task)

section Owners

variable [DecidableEq ι] {userOf : ι → UserId} {task : ι} {own : List (Event access ι AccessState)}

/-- A call that is allowed, whatever it settles to. -/
theorem follows_call {rule : ι → List (Event access ι AccessState) → AccessOp → Prop}
    {op : AccessOp} (allowed : rule task own op) :
    Follows contended rule task (await op) own (fun _ _ => True) fun _ => True := by
  refine .perform allowed fun before outcome after _ => ?_
  cases outcome <;> trivial

omit [DecidableEq ι] in
/-- A refusal changes no permission. -/
theorem ownerRule_refuse (calls : List (Event access ι AccessState)) (failure : Failure) :
    OwnerRule userOf task calls (.refuse failure) := nofun

theorem follows_verifyOwner (ownerId : UserId) (fileId : String) :
    Follows contended (OwnerRule userOf) task (AccessControlImpl.verifyOwner ownerId fileId) own
      (fun _ later => ∀ id, Uuid.parse fileId = some id →
        ∃ read ∈ later, readsOwner id read = some ownerId) fun _ => True := by
  unfold AccessControlImpl.verifyOwner
  refine .bind (follows_withParameter ownerRule_refuse fun id parameter => ?_)
  refine .perform nofun fun before outcome after _ => ?_
  cases outcome with
  | error failure => trivial
  | ok found =>
      dsimp only [Ends]
      split
      · exact .throw trivial
      · split
        · exact .throw trivial
        · rename_i owner
          refine .pure fun other spells => ⟨_, List.mem_concat_self, ?_⟩
          obtain rfl :=
            Option.some.inj ((uuidParameter_eq_ok_iff.mp parameter).symm.trans spells)
          exact (if_pos rfl).trans (congrArg some (not_not.mp owner))

/-- The owner is verified, a change follows, and the answers that it concerns are removed. -/
theorem follows_change (userOf : ι → UserId) {fileId : String} {parameter : Except Failure UserId}
    {statement : FileId → UserId → StoreOp}
    {program : FileId → UserId → Program access Unit}
    (makes : ∀ id userId calls, OwnerRule userOf task calls (.store (statement id userId)) →
      Follows contended (OwnerRule userOf) task (program id userId) calls (fun _ _ => True)
        fun _ => True)
    (changes : ∀ id userId, changedFile (.store (statement id userId)) = some id)
    {userId : UserId} :
    Follows contended (OwnerRule userOf) task (do
      AccessControlImpl.verifyOwner (userOf task) fileId
      withParameter (uuidParameter fileId) fun id => withParameter parameter (program id)
      await (.invalidateCacheForUser userId fileId)) own (fun _ _ => True) fun _ => True := by
  refine .bind ((follows_verifyOwner _ fileId).consequence (fun _ later reads => ?_) fun _ => id)
  refine .bind ((follows_withParameter ownerRule_refuse fun id spells =>
    follows_withParameter ownerRule_refuse fun accepted _ =>
      makes id accepted later ?_).consequence (fun _ _ _ => ?_) fun _ => id)
  · intro other same
    obtain rfl := Option.some.inj ((changes id accepted).symm.trans same)
    exact reads id (uuidParameter_eq_ok_iff.mp spells)
  · exact follows_call nofun

theorem follows_grantPermission (userOf : ι → UserId) (fileId : String) (targetUserId : UserId)
    (permission : Permission) (date : Time) :
    Follows contended (OwnerRule userOf) task
      (AccessControlImpl.grantPermission (userOf task) fileId targetUserId permission date) own
      (fun _ _ => True) fun _ => True :=
  follows_change userOf (fun _ _ _ => follows_call) fun _ _ => rfl

theorem follows_revokePermission (userOf : ι → UserId) (fileId : String) (targetUserId : UserId) :
    Follows contended (OwnerRule userOf) task
      (AccessControlImpl.revokePermission (userOf task) fileId targetUserId) own
      (fun _ _ => True) fun _ => True :=
  follows_change userOf (fun _ _ _ => follows_call) fun _ _ => rfl

theorem follows_grantNothing (userOf : ι → UserId) (fileId : String) (targetUserId : UserId) :
    Follows contended (OwnerRule userOf) task (grantNothing (userOf task) fileId targetUserId) own
      (fun _ _ => True) fun _ => True :=
  follows_change userOf (fun _ _ _ => follows_call) fun _ _ => rfl

/-- A check changes no permission. -/
theorem check_changes_nothing (query : Query) :
    query.check.AllCalls fun op => changedFile op = none := by
  unfold Query.check
  rw [checkPermission_eq]
  refine .bind (.perform rfl) fun cached => ?_
  cases cached with
  | some answer => trivial
  | none =>
      refine .bind ?_ fun _ => .bind (.perform rfl) fun _ => trivial
      unfold readPermission
      refine .bind (allCalls_withParameter (fun _ => rfl) fun _ => .perform rfl) fun found => ?_
      cases found with
      | none => trivial
      | some file =>
          dsimp only
          split
          · trivial
          · exact allCalls_withParameter (fun _ => rfl) fun _ =>
              allCalls_withParameter (fun _ => rfl) fun _ => .perform rfl

theorem follows_check_owner (query : Query) :
    Follows contended (OwnerRule userOf) task query.check own (fun _ _ => True) fun _ => True := by
  refine .of_allCalls (fun calls op none _ => ⟨fun fileId same => ?_, fun _ _ _ _ => trivial⟩)
    (check_changes_nothing query) trivial
  rw [none] at same
  cases same

end Owners

/-! ## The rule of the requests -/

/-- A request asks about its own user. -/
def Asks (requests : ι → Request) (task : ι) (query : Query) : Prop :=
  query.userId = APIGateway.extractUserId (requests task)

/-- An answer is kept when it has just been read, permissions are changed for the owner of a file,
and what needs a permission is done when it has been allowed. -/
def Authorized (requests : ι → Request) (task : ι)
    (own : List (Event (served Value) ι AccessState)) : (served Value).Op → Prop
  | .inl op => AnswerRule (Asks requests) task (lowerCalls own) op ∧
      OwnerRule (fun task => APIGateway.extractUserId (requests task)) task (lowerCalls own) op
  | .inr op => ∀ query, required (requests task) op = some query →
      HasAnswer query true (lowerCalls own)

section Follows

variable [DecidableEq ι] {runtime : Runtime Value} {requests : ι → Request} {task : ι}
  {own : List (Event (served Value) ι AccessState)} {conversions : Conversions} {date : Time}
  {query : Query}

/-- A task goes on by the rule, whatever it has done. -/
abbrev Goes (requests : ι → Request) (task : ι) (conversions : Conversions) (date : Time)
    (program : Program (gateway Value) Unit)
    (own : List (Event (served Value) ι AccessState)) : Prop :=
  Follows (contended.withReplies (gateway Value)) (Authorized requests) task
    (program.implement (service conversions date)) own (fun _ _ => True) fun _ => False

/-- A program of the access control that keeps no answer and changes permissions for the owner. -/
theorem follows_keepsNothing {α : Type} {program : Program access α}
    (keepsNothing : program.AllCalls KeepsNothing)
    (owner : Follows contended (OwnerRule fun task => APIGateway.extractUserId (requests task)) task
      program (lowerCalls own) (fun _ _ => True) fun _ => True) :
    Follows (contended.withReplies (gateway Value)) (Authorized requests) task
      (program.serve conversions.thrown) own (fun _ _ => True) fun _ => False :=
  (Follows.serve (K := gateway Value) (fun _ _ => id)
    ((follows_other keepsNothing _).and owner)).consequence (fun _ _ _ => trivial) fun _ => id

theorem keepsNothing_grantNothing (ownerId : UserId) (fileId : String) (targetUserId : UserId) :
    (grantNothing ownerId fileId targetUserId).AllCalls KeepsNothing :=
  .bind (keepsNothing_verifyOwner _ _) fun _ =>
    .bind (allCalls_withParameter nofun fun _ => allCalls_withParameter nofun fun _ =>
      .perform nofun) fun _ => .perform nofun

/-- A call that needs no permission, or changes permissions for the user of the request. -/
def Unguarded (request : Request) : GatewayOp → Prop
  | .checkPermission _ _ _ => False
  | .revokePermission ownerId _ _ => ownerId = APIGateway.extractUserId request
  | .grantPermission ownerId _ _ _ => ownerId = APIGateway.extractUserId request
  | op => required request op = none

theorem follows_unguarded {op : GatewayOp} (unguarded : Unguarded (requests task) op) :
    Follows (contended.withReplies (gateway Value)) (Authorized requests) task
      (service conversions date op) own (fun _ _ => True) fun _ => False := by
  have needless : required (requests task) op = none → Authorized requests task own (.inr op) := by
    intro none query needs
    rw [none] at needs
    cases needs
  let userOf := fun task => APIGateway.extractUserId (requests task)
  cases op with
  | checkPermission userId fileId operation => exact unguarded.elim
  | revokePermission ownerId fileId targetUserId =>
      obtain rfl := unguarded
      exact follows_keepsNothing (keepsNothing_revokePermission _ _ _)
        (follows_revokePermission userOf _ _)
  | grantPermission ownerId fileId targetUserId permission =>
      obtain rfl := unguarded
      dsimp only [service]
      split
      · exact follows_keepsNothing (keepsNothing_grantPermission _ _ _ _ _)
          (follows_grantPermission userOf _ _ _ _)
      · exact follows_keepsNothing (keepsNothing_grantNothing _ _ _)
          (follows_grantNothing userOf _ _)
  | _ => exact .reply (needless unguarded) fun _ _ => trivial

/-- A route that needs no permission. -/
theorem goes_unguarded {program : Program (gateway Value) Unit}
    (made : program.AllCalls (Unguarded (requests task))) :
    Goes requests task conversions date program own :=
  .implement (fun _ _ unguarded _ => follows_unguarded unguarded) made trivial

theorem allCalls_sendJson {allowed : GatewayOp → Prop} (status : ℕ) (body : Body Value)
    (responds : ∀ response, allowed (.respond response)) :
    (APIGateway.sendJson runtime status body).AllCalls allowed :=
  .bind (show (Program.done _ : Program (gateway Value) String).AllCalls allowed from trivial)
    fun _ => .perform (responds _)

theorem unguarded_respond (request : Request) (response : Response) :
    Unguarded request (.respond response) := rfl

theorem goes_sendJson (status : ℕ) (body : Body Value) :
    Goes requests task conversions date (APIGateway.sendJson runtime status body) own :=
  goes_unguarded (allCalls_sendJson status body (unguarded_respond _))

/-- A call that needs no other answer than one, and that another service replies to. -/
def Covered (request : Request) (query : Query) (op : GatewayOp) : Prop :=
  (∀ (Value : Type) (conversions : Conversions) (date : Time),
    @service Value conversions date op = perform (I := served Value) (.inr op)) ∧
    ∀ other, required request op = some other → other = query

/-- What follows the answer that it is allowed. -/
theorem goes_covered {program : Program (gateway Value) Unit}
    (made : program.AllCalls (Covered (requests task) query))
    (allowed : HasAnswer query true (lowerCalls own)) :
    Goes requests task conversions date program own := by
  have kept : Follows (contended.withReplies (gateway Value)) (Authorized requests) task
      (program.implement (service conversions date)) own
      (fun _ later => HasAnswer query true (lowerCalls later)) fun _ => False := by
    refine .implement (fun calls op covered allowed => ?_) made allowed
    rw [covered.1]
    refine .reply (fun other needs => ?_) fun reply state => ?_
    · rw [covered.2 other needs]
      exact allowed
    · obtain ⟨event, member, has⟩ := allowed
      rw [lowerCalls_append]
      exact ⟨event, List.mem_append_left _ member, has⟩
  exact kept.consequence (fun _ _ _ => trivial) fun _ => id

/-- **A route that asks first.** -/
theorem goes_whenAllowed {fileId : String} {operation : Operation}
    {granted : Program (gateway Value) Unit}
    (made : granted.AllCalls (Covered (requests task)
      ⟨APIGateway.extractUserId (requests task), fileId, operation⟩)) :
    Goes requests task conversions date
      (APIGateway.whenAllowed runtime (requests task) fileId operation granted) own := by
  let query : Query := ⟨APIGateway.extractUserId (requests task), fileId, operation⟩
  have asks : Asks requests task query := rfl
  have check : Follows (contended.withReplies (gateway Value)) (Authorized requests) task
      (query.check.serve conversions.thrown) own _ fun _ => False :=
    .serve (K := gateway Value) (fun _ _ => id)
      ((follows_check asks (lowerCalls own)).and (follows_check_owner query))
  refine .implement_bind (.implement_perform (check.consequence ?_ fun _ => id))
  intro outcome later holds
  cases outcome with
  | error failure => exact fun _ => trivial
  | ok answer =>
      cases answer with
      | false => exact goes_sendJson 403 _
      | true => exact goes_covered made holds.1

/-- A call, and the response with what it resolves to. -/
theorem allCalls_perform_sendJson {allowed : GatewayOp → Prop} {op : GatewayOp} {status : ℕ}
    {body : GatewayOp.Result Value op → Body Value} (here : allowed op)
    (responds : ∀ response, allowed (.respond response)) :
    (perform (I := gateway Value) op >>= fun value =>
      APIGateway.sendJson runtime status (body value)).AllCalls allowed :=
  .bind (.perform here) fun _ => allCalls_sendJson status _ responds

/-- A body is read, and then a call is made with its properties. -/
theorem allCalls_readBody {request : Request} {firstName : String}
    {next : Json → Program (gateway Value) Unit}
    (made : ∀ fields, (next fields).AllCalls (Unguarded request)) :
    (perform (I := gateway Value) .readBody >>= fun body =>
      (.done (APIGateway.parseObject runtime body firstName) : Program (gateway Value) Json) >>=
        next).AllCalls (Unguarded request) :=
  .bind (.perform rfl) fun _ => .bind trivial made

/-- **Every route goes by the rule.** -/
theorem goes_route (method path : String) :
    Goes requests task conversions date (APIGateway.route runtime (requests task) method path)
      own := by
  have responds := unguarded_respond (requests task)
  have covers : ∀ {query : Query} response,
      Covered (requests task) query (.respond response) := fun response =>
    ⟨fun _ _ _ => rfl, nofun⟩
  have only : ∀ {op : GatewayOp} {query : Query}, required (requests task) op = some query →
      ∀ other, required (requests task) op = some other → other = query := by
    intro op query needs other same
    exact Option.some.inj (same.symm.trans needs)
  unfold APIGateway.route
  split
  · exact goes_unguarded (allCalls_perform_sendJson rfl responds)
  split
  · exact goes_unguarded (allCalls_perform_sendJson rfl responds)
  split
  · exact goes_unguarded (allCalls_readBody fun _ =>
      allCalls_perform_sendJson rfl responds)
  split
  · exact goes_unguarded (allCalls_readBody fun _ =>
      allCalls_perform_sendJson rfl responds)
  split
  · exact goes_unguarded (allCalls_perform_sendJson rfl responds)
  split
  · exact goes_whenAllowed (allCalls_perform_sendJson ⟨fun _ _ _ => rfl, only rfl⟩ covers)
  split
  · exact goes_whenAllowed (allCalls_perform_sendJson ⟨fun _ _ _ => rfl, only rfl⟩ covers)
  split
  · refine goes_whenAllowed (.bind (.perform ⟨fun _ _ _ => rfl, only rfl⟩) fun file => ?_)
    cases file with
    | none => exact allCalls_sendJson 404 _ covers
    | some file => exact allCalls_sendJson 200 _ covers
  split
  · exact goes_unguarded (allCalls_perform_sendJson rfl responds)
  split
  · exact goes_unguarded (allCalls_readBody fun _ =>
      allCalls_perform_sendJson rfl responds)
  split
  · exact goes_whenAllowed (allCalls_perform_sendJson ⟨fun _ _ _ => rfl, only rfl⟩ covers)
  · exact goes_sendJson 404 _

theorem goes_handleRequest :
    Goes requests task conversions date (APIGateway.handleRequest runtime (requests task)) own := by
  unfold APIGateway.handleRequest
  split
  · exact .pure trivial
  · refine .implement_tryCatch ((goes_route _ _).consequence ?_ fun _ => id)
    intro outcome later _
    cases outcome with
    | ok value => trivial
    | error failure => exact fun failure => goes_sendJson 500 _

end Follows

/-! ## The interleavings -/

variable [DecidableEq ι]

/-- Requests next to each other, while others change the store in any way. -/
abbrev RequestRuns (runtime : Runtime Value) (conversions : Conversions) (date : Time)
    (requests : ι → Request) (origin : AccessState)
    (reached : Pool (served Value) ι ((gateway Value).Outcome Unit) ×
      Moment (served Value) ι AccessState) : Prop :=
  PoolRuns (contended.withReplies (gateway Value))
    (fun task => (APIGateway.handleRequest runtime (requests task)).implement
      (service conversions date), .start origin) reached

/-- What a call of a request rests on, after what has been called before. -/
structure Justified (requests : ι → Request)
    (earlier : List (Event (served Value) ι AccessState))
    (event : Event (served Value) ι AccessState) : Prop where
  /-- The request has read in the store that the call is allowed, or has found the answer of a
  request that had just read it, less than five minutes before. -/
  allowed : ∀ op query, event.op = .inr op → required (requests event.task) op = some query →
    (∃ read ∈ callsOf event.task (lowerCalls earlier), readsAnswer query read = some true) ∨
      FoundRecently (Asks requests) query true event.task (lowerCalls earlier)
  /-- The request has read in the store that its user owns the file. -/
  owner : ∀ op fileId, event.op = .inl op → changedFile op = some fileId →
    ∃ read ∈ callsOf event.task (lowerCalls earlier),
      readsOwner fileId read = some (APIGateway.extractUserId (requests event.task))

/-- **A file is used only after an answer that its user may do so, and its permissions are changed
only for its owner.** Any requests run next to each other, while others change the store in any
way, calls of the store fail, and other services reply anything. -/
theorem authorized (runtime : Runtime Value) (conversions : Conversions) (date : Time)
    (requests : ι → Request) (origin : AccessState)
    (empty : origin.permissionCache = Caching.TimedCache.empty)
    {tasks : Pool (served Value) ι ((gateway Value).Outcome Unit)}
    {reached : Moment (served Value) ι AccessState}
    (run : RequestRuns runtime conversions date requests origin (tasks, reached))
    {earlier later : List (Event (served Value) ι AccessState)}
    {event : Event (served Value) ι AccessState}
    (split : reached.history = earlier ++ event :: later) : Justified requests earlier event := by
  obtain ⟨lawful, _⟩ := Pool.follows (fun task => goes_handleRequest) run
  obtain ⟨before, earlierRun, same, _, rule, _⟩ := lawful.prior split
  constructor
  · intro op query calls needs
    rw [calls] at rule
    obtain ⟨answered, own, has⟩ := rule query needs
    rw [← callsOf_lowerCalls] at own
    rcases has with reads | finds
    · exact .inl ⟨answered, own, reads⟩
    · obtain ⟨member, task⟩ := mem_callsOf.mp own
      have lower : LawfulRun contended
          (fun history task => AnswerRule (Asks requests) task (callsOf task history)) origin
          before.lower := by
        refine LawfulRun.lower (fun history task op keeps => ?_) earlierRun
        rw [callsOf_lowerCalls]
        exact keeps.1
      rw [← same] at member ⊢
      exact .inr (task ▸ foundRecently lower empty member finds)
  · intro op fileId calls changes
    rw [calls] at rule
    obtain ⟨read, own, owner⟩ := rule.2 fileId changes
    rw [← callsOf_lowerCalls] at own
    exact ⟨read, own, owner⟩

/-! ## A file that is asked for twice -/

/-- A runtime without JSON, whose targets are paths. -/
def plain : Runtime Unit where
  pathname input _ := some input
  parse _ := .error .other
  stringify _ := .ok none

/-- The other user asks for the file twice, and the owner revokes the permission. -/
def visits : Fin 3 → Request
  | 0 => ⟨some "GET", some ("/files/" ++ notes.text), none, some "ada"⟩
  | 1 => ⟨some "DELETE", some ("/files/" ++ notes.text ++ "/permissions/ada"), none, some "owner"⟩
  | 2 => ⟨some "GET", some ("/files/" ++ notes.text), none, some "ada"⟩

/-- A reply to each call. -/
def replies : (op : GatewayOp) → (gateway Unit).Outcome (op.Result Unit) := fun _ => .error .other

def visited (schedule : List (Fin 3)) :
    Pool (served Unit) (Fin 3) ((gateway Unit).Outcome Unit) ×
      Moment (served Unit) (Fin 3) AccessState :=
  Pool.runSchedule (accessExec.withReplies replies) schedule (fun task =>
    (APIGateway.handleRequest plain (visits task)).implement
      (service ⟨fun _ => "", fun _ => .other⟩ 0),
    .start { sharedNotes with permissionCache := .empty })

theorem runs_visited (schedule : List (Fin 3)) :
    RequestRuns plain ⟨fun _ => "", fun _ => .other⟩ 0 visits
      { sharedNotes with permissionCache := .empty }
      ((visited schedule).1, (visited schedule).2) := by
  refine Pool.runs_runSchedule (fun op state => ?_) schedule _
  cases op with
  | inl op =>
      have unchanged : state.elapse 0 = state := congrArg (AccessState.mk _ _) (Int.add_zero _)
      refine ⟨0, state.world.store, .inl ?_⟩
      rw [unchanged]
      rfl
  | inr op => exact ⟨⟨_, rfl⟩, rfl⟩

/-- The row is gone when the other user asks again, but not yet the answer of the first check. -/
theorem authorized_revoking :
    FoundRecently (Asks visits) ⟨"ada", notes.text, .read⟩ true 2
      (lowerCalls (visited [0, 0, 0, 0, 0, 1, 1, 2, 2]).2.history.dropLast) := by
  have made : (visited [0, 0, 0, 0, 0, 1, 1, 2, 2]).2.history ≠ [] := nofun
  have justified := authorized plain _ 0 visits _ rfl (runs_visited [0, 0, 0, 0, 0, 1, 1, 2, 2])
    (List.dropLast_append_getLast made).symm
  have allowed := justified.allowed (.getFile notes.text) ⟨"ada", notes.text, .read⟩ rfl rfl
  refine allowed.resolve_left ?_
  rintro ⟨read, own, reads⟩
  have unread : ∀ event ∈ callsOf 2 (lowerCalls
      (visited [0, 0, 0, 0, 0, 1, 1, 2, 2]).2.history.dropLast),
      readsAnswer ⟨"ada", notes.text, .read⟩ event ≠ some true := by
    decide
  exact unread read own reads

end DistributedFileStorage.Gateway.HandleRequest
