import DistributedFileStorage.Access.Revocation
import DistributedFileStorage.Async.OwnCalls

/-!
# How old an answer may be

Other processes change the store without telling the cache, and between any two calls any time may
pass. So a check may answer what the store does not say any more. But what it answers has been read
in the store by itself, or it was kept less than five minutes before by a check with the same key,
which had just read it there, and the answers under the key have not been removed since
(`answers_recent`).

This needs no assumption on what the others do, nor on how calls are interleaved.
-/

set_option autoImplicit false

namespace DistributedFileStorage.Access

open Async Store Services Caching Encoding Relational Program

/-- What a call may do: before it time passes and anybody changes the store in any way, and a call
of the store may fail. -/
def contended : Semantics access AccessState := fun op before outcome after =>
  ∃ (duration : ℕ) (db : Database),
    let now : AccessState := { before.elapse duration with world := before.world.setStore db }
    accessExec op now = (outcome, after) ∨
      (∃ call, op = .store call) ∧ (∃ failure, outcome = .error failure) ∧ after = now

variable {ι : Type}

/-! ## Where an answer comes from -/

/-- What the call reads in the store about a query. -/
def readsAnswer (query : Query) (event : Event access ι AccessState) : Option Bool :=
  match event.op, event.outcome with
  | .store (.getFile fileId), .ok found =>
      if Uuid.parse query.fileId = some fileId then
        match found with
        | none => some false
        | some file => if file.ownerId = query.userId then some true else none
      else none
  | .store (.checkPermission fileId userId permission), .ok result =>
      if Uuid.parse query.fileId = some fileId ∧ userId = query.userId ∧
          permission = operationToPermission query.operation then some result
      else none
  | _, _ => none

/-- The answer that the call finds in the cache. -/
def findsAnswer (key : String) (event : Event access ι AccessState) : Option Bool :=
  match event.op, event.outcome with
  | .cached asked, .ok found => if asked = key then found else none
  | _, _ => none

/-- The call keeps no answer. -/
def KeepsNothing (op : AccessOp) : Prop := ∀ key answer, op ≠ .cacheResult key answer

/-- A task that asks about a query keeps what it has just read. -/
inductive AnswerRule (asks : ι → Query → Prop) (task : ι)
    (own : List (Event access ι AccessState)) : AccessOp → Prop where
  | cacheResult {read : Event access ι AccessState} (query : Query) (answer : Bool)
      (checks : asks task query) (last : own.getLast? = some read)
      (reads : readsAnswer query read = some answer) :
      AnswerRule asks task own (.cacheResult query.key answer)
  | other {op : AccessOp} (keepsNothing : KeepsNothing op) : AnswerRule asks task own op

/-- The calls have read the answer in the store or found it in the cache. -/
def HasAnswer (query : Query) (answer : Bool) (own : List (Event access ι AccessState)) : Prop :=
  ∃ event ∈ own, readsAnswer query event = some answer ∨
    findsAnswer query.key event = some answer

/-! ## One call -/

variable {before after : AccessState} {key : String} {entry : CacheEntry Bool Time}

/-- An entry of the cache has been there before, or the call keeps it for five minutes. -/
theorem entry_step {op : AccessOp} {outcome : access.Outcome op.Result}
    (happens : contended op before outcome after) (held : after.permissionCache key = some entry) :
    before.permissionCache key = some entry ∨
      op = .cacheResult key entry.result ∧ entry.expiresAt = after.now + cacheTtlMs := by
  obtain ⟨duration, db, made | ⟨_, _, rfl⟩⟩ := happens
  · have reached := congrArg Prod.snd made
    cases op with
    | cacheResult kept answer =>
        subst reached
        have put : before.permissionCache.put kept answer
            (before.now + duration + cacheTtlMs) key = some entry := held
        unfold TimedCache.put at put
        by_cases same : key = kept
        · subst same
          rw [Function.update_self] at put
          obtain rfl := Option.some.inj put
          exact .inr ⟨rfl, rfl⟩
        · rw [Function.update_of_ne same] at put
          exact .inl put
    | invalidateCacheForUser userId fileId =>
        subst reached
        have still : (if key ∈ Operation.values.map (cacheKey userId fileId) then none
            else before.permissionCache key) = some entry := held
        split at still
        · cases still
        · exact .inl still
    | store op =>
        subst reached
        exact .inl held
    | cached asked =>
        subst reached
        exact .inl held
    | refuse failure =>
        subst reached
        exact .inl held
  · exact .inl held

/-- An answer is found in a live entry. -/
theorem entry_of_findsAnswer {event : Event access ι AccessState} {answer : Bool}
    (happens : contended event.op event.before event.outcome event.after)
    (finds : findsAnswer key event = some answer) :
    ∃ entry, event.before.permissionCache key = some entry ∧ entry.result = answer ∧
      event.after.now < entry.expiresAt := by
  obtain ⟨task, op, outcome, before, after⟩ := event
  dsimp only at happens ⊢
  cases op with
  | cached asked =>
      obtain ⟨duration, db, made | ⟨⟨_, other⟩, _, _⟩⟩ := happens
      · obtain ⟨rfl, rfl⟩ := Prod.mk.inj made
        have looked : (if asked = key then
            before.permissionCache.lookup (before.now + duration) asked else none) =
              some answer := finds
        split at looked
        · rename_i same
          subst same
          obtain ⟨entry, held, live, result⟩ := TimedCache.lookup_eq_some_iff.mp looked
          exact ⟨entry, held, result, live⟩
        · cases looked
      · cases other
  | _ => cases finds

/-- A call that removes the answers under a key leaves none. -/
theorem entry_removed {op : AccessOp} {outcome : access.Outcome op.Result} {userId : UserId}
    {fileId : String} (happens : contended op before outcome after)
    (removes : op = .invalidateCacheForUser userId fileId)
    (member : key ∈ Operation.values.map (cacheKey userId fileId)) :
    after.permissionCache key = none := by
  subst removes
  obtain ⟨duration, db, made | ⟨⟨_, other⟩, _, _⟩⟩ := happens
  · have reached := congrArg Prod.snd made
    subst reached
    exact if_pos member
  · cases other

/-! ## The programs -/

section Follows

variable [DecidableEq ι] {asks : ι → Query → Prop} {task : ι} {query : Query}

/-- The rule of a call that does not fail. -/
theorem follows_await {op : AccessOp} {own : List (Event access ι AccessState)}
    {resolved : op.Result → List (Event access ι AccessState) → Prop}
    (allowed : AnswerRule asks task own op)
    (ends : ∀ value before after, contended op before (.ok value) after →
      resolved value (own ++ [⟨task, op, .ok value, before, after⟩])) :
    Follows contended (AnswerRule asks) task (await op) own resolved fun _ => True := by
  refine .perform allowed fun before outcome after happens => ?_
  cases outcome with
  | ok value => exact ends value before after happens
  | error failure => trivial

/-- A statement whose parameter is accepted; one whose parameter is refused only refuses. -/
theorem follows_withParameter {α β : Type}
    {rule : ι → List (Event access ι AccessState) → AccessOp → Prop}
    (refuses : ∀ calls failure, rule task calls (.refuse failure)) {parameter : Except Failure β}
    {statement : β → Program access α} {own : List (Event access ι AccessState)}
    {resolved : α → List (Event access ι AccessState) → Prop}
    (accepted : ∀ given, parameter = .ok given →
      Follows contended rule task (statement given) own resolved fun _ => True) :
    Follows contended rule task (withParameter parameter statement) own resolved fun _ => True := by
  cases parameter with
  | ok given => exact accepted given rfl
  | error failure =>
      refine .bind (.perform (refuses own failure) fun before outcome after _ => ?_)
      cases outcome with
      | ok value => exact value.elim
      | error failure => trivial

/-- The part of a check that asks the store ends with the call that has read the answer. -/
theorem follows_readPermission (own : List (Event access ι AccessState)) :
    Follows contended (AnswerRule asks) task
      (readPermission query.userId query.fileId query.operation) own
      (fun answer later => ∃ read, later.getLast? = some read ∧
        readsAnswer query read = some answer)
      fun _ => True := by
  unfold readPermission
  refine .bind (follows_withParameter (fun _ _ => .other nofun) fun id parameter => ?_)
  have spells := uuidParameter_eq_ok_iff.mp parameter
  refine follows_await (.other nofun) fun found before after _ => ?_
  cases found with
  | none => exact .pure ⟨_, List.getLast?_concat, if_pos spells⟩
  | some file =>
      dsimp only
      split
      · rename_i owner
        refine .pure ⟨_, List.getLast?_concat, ?_⟩
        exact (if_pos spells).trans (if_pos owner)
      · refine follows_withParameter (fun _ _ => .other nofun) fun other same => ?_
        refine follows_withParameter (fun _ _ => .other nofun) fun userId plain => ?_
        obtain rfl := eq_of_textParameter plain
        refine follows_await (.other nofun) fun answer asked later _ => ?_
        exact ⟨_, List.getLast?_concat, if_pos ⟨uuidParameter_eq_ok_iff.mp same, rfl, rfl⟩⟩

theorem follows_check (checks : asks task query) (own : List (Event access ι AccessState)) :
    Follows contended (AnswerRule asks) task query.check own (HasAnswer query) fun _ => True := by
  unfold Query.check
  rw [checkPermission_eq]
  refine .bind (follows_await (.other nofun) fun cached before after _ => ?_)
  cases cached with
  | some answer => exact .pure ⟨_, List.mem_concat_self, .inr (if_pos rfl)⟩
  | none =>
      refine .bind ((follows_readPermission _).consequence ?_ fun _ => id)
      rintro answer later ⟨read, last, reads⟩
      refine .bind (follows_await (.cacheResult query answer checks last reads) fun _ _ _ _ => ?_)
      exact .pure ⟨read, List.mem_append_left _ (List.mem_of_getLast? last), .inl reads⟩

/-- A program that keeps no answer keeps the rule. -/
theorem follows_other {α : Type} {program : Program access α}
    (keepsNothing : program.AllCalls KeepsNothing) (own : List (Event access ι AccessState)) :
    Follows contended (AnswerRule asks) task program own (fun _ _ => True) fun _ => True :=
  .of_allCalls (fun _ _ other _ => ⟨.other other, fun _ _ _ _ => trivial⟩) keepsNothing trivial

theorem keepsNothing_verifyOwner (ownerId : UserId) (fileId : String) :
    (AccessControlImpl.verifyOwner ownerId fileId).AllCalls KeepsNothing := by
  unfold AccessControlImpl.verifyOwner
  refine .bind (allCalls_withParameter nofun fun id => .perform nofun) fun found => ?_
  split
  · trivial
  · split <;> trivial

/-- What a task has done that has settled. -/
def Answered (call : AccessCall) (settled : Option Bool)
    (own : List (Event access ι AccessState)) : Prop :=
  match call with
  | .check query => ∀ answer, settled = some answer → HasAnswer query answer own
  | _ => True

theorem keepsNothing_grantPermission (ownerId : UserId) (fileId : String) (targetUserId : UserId)
    (permission : Permission) (date : Time) :
    (AccessControlImpl.grantPermission ownerId fileId targetUserId permission date).AllCalls
      KeepsNothing :=
  .bind (keepsNothing_verifyOwner _ _) fun _ =>
    .bind (allCalls_withParameter nofun fun _ =>
      allCalls_withParameter nofun fun _ => .perform nofun) fun _ => .perform nofun

theorem keepsNothing_revokePermission (ownerId : UserId) (fileId : String) (targetUserId : UserId) :
    (AccessControlImpl.revokePermission ownerId fileId targetUserId).AllCalls KeepsNothing :=
  .bind (keepsNothing_verifyOwner _ _) fun _ =>
    .bind (allCalls_withParameter nofun fun _ =>
      allCalls_withParameter nofun fun _ => .perform nofun) fun _ => .perform nofun

theorem follows_program (calls : ι → AccessCall) (task : ι) :
    Follows contended (AnswerRule fun task query => calls task = .check query) task
      (calls task).program [] (Answered (calls task)) fun _ => True := by
  cases call : calls task with
  | check query =>
      refine .bind ((follows_check call []).consequence ?_ fun _ => id)
      intro answer own has
      refine .pure ?_
      rintro _ ⟨⟩
      exact has
  | grant ownerId fileId targetUserId permission date =>
      refine follows_other ?_ []
      exact .bind (keepsNothing_grantPermission _ _ _ _ _) fun _ => trivial
  | revoke ownerId fileId targetUserId =>
      refine follows_other ?_ []
      exact .bind (keepsNothing_revokePermission _ _ _) fun _ => trivial

end Follows

/-! ## The interleavings -/

variable [DecidableEq ι]

/-- **The task has found an answer that was kept less than five minutes before** by a check with the
same key, which had just read it in the store. The answers under the key have not been removed
since. -/
inductive FoundRecently (asks : ι → Query → Prop) (query : Query) (answer : Bool) (task : ι)
    (history : List (Event access ι AccessState)) : Prop where
  | intro (earlier between later : List (Event access ι AccessState))
      (read kept found : Event access ι AccessState) (other : Query)
      (split : history = earlier ++ kept :: (between ++ found :: later))
      (own : found.task = task) (finds : findsAnswer query.key found = some answer)
      (recent : found.after.now < kept.after.now + cacheTtlMs)
      (sameKey : other.key = query.key) (checks : asks kept.task other)
      (keeps : kept.op = .cacheResult other.key answer)
      (last : (callsOf kept.task earlier).getLast? = some read)
      (reads : readsAnswer other read = some answer)
      (unremoved : ∀ event ∈ between, ∀ userId fileId,
        event.op = .invalidateCacheForUser userId fileId →
          query.key ∉ Operation.values.map (cacheKey userId fileId))

variable {asks : ι → Query → Prop} {origin : AccessState} {query : Query} {answer : Bool}

/-- An answer that has been found was kept recently. -/
theorem foundRecently {moment : Moment access ι AccessState}
    (lawful : LawfulRun contended (fun history task => AnswerRule asks task (callsOf task history))
      origin moment)
    (empty : origin.permissionCache = TimedCache.empty) {found : Event access ι AccessState}
    (member : found ∈ moment.history) (finds : findsAnswer query.key found = some answer) :
    FoundRecently asks query answer found.task moment.history := by
  obtain ⟨past, later, split⟩ := List.append_of_mem member
  obtain ⟨before, earlierRun, same, state, _, happens⟩ := lawful.prior split
  obtain ⟨entry, held, result, live⟩ := entry_of_findsAnswer happens finds
  rw [← state] at held
  obtain ⟨earlier, kept, between, pastSplit, ⟨keeps, expires⟩, since⟩ := earlierRun.exists_source
    (fun state => state.permissionCache query.key = some entry)
    (fun event => event.op = AccessOp.cacheResult query.key entry.result ∧
      entry.expiresAt = event.after.now + cacheTtlMs)
    (by rw [empty]; nofun) (fun _ _ _ _ _ _ _ happens => entry_step happens) held
  subst result
  obtain ⟨_, _, _, _, rule, _⟩ := earlierRun.prior pastSplit
  rw [keeps] at rule
  generalize made : AccessOp.cacheResult query.key entry.result = op at rule
  cases rule with
  | other keepsNothing => exact absurd made.symm (keepsNothing _ _)
  | @cacheResult read other answer checks last reads =>
      obtain ⟨key, rfl⟩ := AccessOp.cacheResult.inj made
      refine ⟨earlier, between, later, read, kept, found, other, ?_, rfl, finds, expires ▸ live,
        key.symm, checks, key ▸ keeps, last, reads, ?_⟩
      · rw [split, ← same, pastSplit, List.append_assoc, List.cons_append]
      · intro event inBetween userId fileId removes shares
        have happened := earlierRun.happens_of_mem
          (show event ∈ _ by simp [pastSplit, inBetween])
        have gone := entry_removed happened removes shares
        rw [since event inBetween] at gone
        cases gone

/-- **An answer is recent.** Any checks, grants and revocations run next to each other, while others
change the store in any way and any call of the store may fail. A check that resolves has read its
answer in the store itself, or has found one that was kept less than five minutes before. -/
theorem answers_recent (calls : ι → AccessCall) (origin : AccessState)
    (empty : origin.permissionCache = TimedCache.empty) {tasks : Pool access ι (Option Bool)}
    {reached : Moment access ι AccessState}
    (run : PoolRuns contended (fun task => (calls task).program, .start origin) (tasks, reached))
    {task : ι} (checks : calls task = .check query)
    (settled : tasks task = .done (.ok (some answer))) :
    (∃ read ∈ callsOf task reached.history, readsAnswer query read = some answer) ∨
      FoundRecently (fun task query => calls task = .check query) query answer task
        reached.history := by
  obtain ⟨lawful, ends⟩ := Pool.follows (follows_program calls) run
  have answered : Answered (calls task) (some answer) (callsOf task reached.history) :=
    ends task _ settled
  rw [checks] at answered
  obtain ⟨event, own, reads | finds⟩ := answered answer rfl
  · exact .inl ⟨event, own, reads⟩
  · obtain ⟨member, same⟩ := mem_callsOf.mp own
    exact .inr (same ▸ foundRecently lawful empty member finds)

/-! ## An answer that is asked for twice -/

/-- The other user asks twice. The second answer comes from the cache, whatever the store says. -/
def askedTwice : Pool access (Fin 3) (Option Bool) × Moment access (Fin 3) AccessState :=
  Pool.runSchedule accessExec [0, 0, 0, 0, 2] (fun task => (askRevokeAsk task).program,
    .start { sharedNotes with permissionCache := .empty })

theorem answers_recent_twice :
    FoundRecently (fun task query => askRevokeAsk task = .check query) ⟨"ada", notes.text, .read⟩
      true 2 askedTwice.2.history := by
  have run : PoolRuns contended (fun task => (askRevokeAsk task).program,
      .start { sharedNotes with permissionCache := .empty }) (askedTwice.1, askedTwice.2) := by
    refine Pool.runs_runSchedule (fun op state => ⟨0, state.world.store, .inl ?_⟩) _ _
    have unchanged : state.elapse 0 = state := congrArg (AccessState.mk _ _) (Int.add_zero _)
    rw [unchanged]
    rfl
  refine (answers_recent askRevokeAsk _ rfl run rfl rfl).resolve_left ?_
  rintro ⟨read, own, reads⟩
  have unread : ∀ event ∈ callsOf 2 askedTwice.2.history,
      readsAnswer ⟨"ada", notes.text, .read⟩ event ≠ some true := by
    decide
  exact unread read own reads

end DistributedFileStorage.Access
