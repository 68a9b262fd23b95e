import DistributedFileStorage.Access.AccessControl

/-!
# The permission cache and the store

The cache is coherent when every live answer is what the store says now. Checking a permission
keeps it coherent, as long as no two queries whose answers differ share a cache key. Granting and
revoking a permission change what the store says for one user and one file only. Both remove the
answers for the texts they are given, and the store takes every spelling of an identifier for the
same file. So an answer that has been kept under another spelling stays, and contradicts the
store when the change is about it.

That is the only way: a change that contradicts no live answer under another spelling takes effect
at once (`permission_coherence`).

Two queries share a key when they ask for the same operation and their user and file, joined by
a colon, are the same string. Identifiers without a colon cannot be confused.
-/

set_option autoImplicit false

namespace DistributedFileStorage.Access

open Async Store Services Caching Encoding Relational Relation Program

/-! ## Queries and their keys -/

/-- What a check asks: whether a user may do something with a file. -/
structure Query where
  userId : UserId
  fileId : String
  operation : Operation
  deriving DecidableEq

namespace Query

def key (query : Query) : String := cacheKey query.userId query.fileId query.operation

def check (query : Query) : Program access Bool :=
  AccessControlImpl.checkPermission query.userId query.fileId query.operation

/-- What the store answers now, unless it refuses the texts. -/
def answer (query : Query) (db : Database) : Except Failure Bool :=
  evaluate db query.userId query.fileId query.operation

/-- The text spells a file, and the store permits the operation on it. -/
def permitted (query : Query) (db : Database) : Bool :=
  (Uuid.parse query.fileId).any fun id => db.Permits query.userId id query.operation

/-- No identifier of the query contains the separator of the cache keys. -/
def Plain (query : Query) : Prop := ':' ∉ query.userId.toList ∧ ':' ∉ query.fileId.toList

instance (query : Query) : Decidable query.Plain := inferInstanceAs (Decidable (_ ∧ _))

variable {query : Query} {db changed : Database} {id : FileId}

theorem permitted_of_parse (spells : Uuid.parse query.fileId = some id) :
    query.permitted db = decide (db.Permits query.userId id query.operation) := by
  rw [permitted, spells, Option.any_some]

theorem permitted_of_unparsed (unparsed : Uuid.parse query.fileId = none) :
    query.permitted db = false := by
  rw [permitted, unparsed, Option.any_none]

/-- An answer of the store is whether it permits what is asked. -/
theorem permitted_of_answer {answer : Bool} (given : query.answer db = .ok answer) :
    answer = query.permitted db := by
  obtain ⟨id, spells, rfl⟩ := eq_of_evaluate given
  exact (permitted_of_parse spells).symm

/-- The answer depends on the file of the query and on the row of its user. -/
theorem permitted_congr
    (same : ∀ id, Uuid.parse query.fileId = some id → changed.getFile id = db.getFile id ∧
      changed.filePermissions.find? (id, query.userId) =
        db.filePermissions.find? (id, query.userId)) :
    query.permitted changed = query.permitted db := by
  cases spells : Uuid.parse query.fileId with
  | none => rw [permitted_of_unparsed spells, permitted_of_unparsed spells]
  | some id =>
      obtain ⟨file, row⟩ := same id spells
      rw [permitted_of_parse spells, permitted_of_parse spells]
      unfold Database.Permits
      exact decide_eq_decide.mpr (by rw [file, row])

end Query

theorem Operation.value_injective : Function.Injective Operation.value := by
  intro first second same
  cases first <;> cases second <;> first | rfl | exact absurd same (by decide)

theorem Operation.colon_not_mem_value (operation : Operation) : ':' ∉ operation.value.toList := by
  cases operation <;> decide

/-- A list is cut in one way at the first occurrence of a separator. -/
theorem append_separator_inj {α : Type} {separator : α} {first second rest others : List α}
    (firstFree : separator ∉ first) (secondFree : separator ∉ second)
    (same : first ++ separator :: rest = second ++ separator :: others) :
    first = second ∧ rest = others := by
  induction first generalizing second with
  | nil =>
      cases second with
      | nil => exact ⟨rfl, (List.cons.inj same).2⟩
      | cons head tail => exact absurd (List.cons.inj same).1 (List.ne_of_not_mem_cons secondFree)
  | cons head tail ih =>
      cases second with
      | nil => exact absurd (List.cons.inj same).1.symm (List.ne_of_not_mem_cons firstFree)
      | cons other last =>
          obtain ⟨rfl, tails⟩ := List.cons.inj same
          obtain ⟨rfl, rests⟩ := ih (List.not_mem_of_not_mem_cons firstFree)
            (List.not_mem_of_not_mem_cons secondFree) tails
          exact ⟨rfl, rests⟩

/-- **Which queries share a key.** -/
theorem cacheKey_eq_iff {userId otherUser : UserId} {fileId otherFile : String}
    {operation other : Operation} :
    cacheKey userId fileId operation = cacheKey otherUser otherFile other ↔
      userId ++ ":" ++ fileId = otherUser ++ ":" ++ otherFile ∧ operation = other := by
  have split : ∀ (user : UserId) (file : String) (asked : Operation),
      (cacheKey user file asked).toList.reverse =
        asked.value.toList.reverse ++ ':' :: (user ++ ":" ++ file).toList.reverse := by
    intro user file asked
    simp [cacheKey, toString]
  constructor
  · intro same
    have reversed := congrArg (fun key : String => key.toList.reverse) same
    simp only [split] at reversed
    have noColon : ∀ asked : Operation, ':' ∉ asked.value.toList.reverse := fun asked member =>
      asked.colon_not_mem_value (List.mem_reverse.mp member)
    obtain ⟨operations, ids⟩ :=
      append_separator_inj (noColon operation) (noColon other) reversed
    exact ⟨String.toList_inj.mp (List.reverse_injective ids),
      Operation.value_injective (String.toList_inj.mp (List.reverse_injective operations))⟩
  · rintro ⟨ids, rfl⟩
    apply String.toList_inj.mp
    apply List.reverse_injective
    rw [split, split, ids]

/-- Without a separator in the identifiers of the files, the key determines the query. -/
theorem Query.eq_of_key_eq {first second : Query} (same : first.key = second.key)
    (firstPlain : ':' ∉ first.fileId.toList) (secondPlain : ':' ∉ second.fileId.toList) :
    first = second := by
  obtain ⟨ids, operations⟩ := cacheKey_eq_iff.mp same
  have lists : first.fileId.toList.reverse ++ ':' :: first.userId.toList.reverse =
      second.fileId.toList.reverse ++ ':' :: second.userId.toList.reverse := by
    simpa using congrArg (fun text : String => text.toList.reverse) ids
  obtain ⟨files, users⟩ := append_separator_inj
    (fun member => firstPlain (List.mem_reverse.mp member))
    (fun member => secondPlain (List.mem_reverse.mp member)) lists
  have sameFile : first.fileId = second.fileId :=
    String.toList_inj.mp (List.reverse_injective files)
  have sameUser : first.userId = second.userId :=
    String.toList_inj.mp (List.reverse_injective users)
  cases first
  cases second
  simp only [Query.mk.injEq]
  exact ⟨sameUser, sameFile, operations⟩

/-! ## Coherent caches -/

/-- Every live answer is what the store says now about each query of the set with its key. -/
def Coherent (asked : Query → Prop) (state : AccessState) : Prop :=
  state.permissionCache.Sound
    (fun key answer => ∀ query, asked query → query.key = key →
      answer = query.permitted state.world.store) state.now

variable {asked : Query → Prop} {query : Query} {before after : AccessState}
  {outcome : Except Failure Bool}

/-- A check keeps an answer under its own key only. -/
theorem Answers.lookup_other {key : String} {now : Time} (different : key ≠ query.key)
    (answers : Answers before query.userId query.fileId query.operation outcome after) :
    after.permissionCache.lookup now key = before.permissionCache.lookup now key := by
  cases answers with
  | fromCache later live => rfl
  | fromStore first later missed given => exact TimedCache.lookup_put_of_ne different
  | refused first later missed given => rfl

theorem coherent_of_empty (empty : before.permissionCache = TimedCache.empty) :
    Coherent asked before := by
  unfold Coherent
  rw [empty]
  exact TimedCache.Sound.empty

/-- A coherent cache answers what the store says. Only the store refuses. -/
theorem Coherent.answers (coherent : Coherent asked before) (member : asked query)
    (answers : Answers before query.userId query.fileId query.operation outcome after) :
    (∀ answer, outcome = .ok answer → answer = query.permitted before.world.store) ∧
      ∀ failure, outcome = .error failure → query.answer before.world.store = .error failure := by
  cases answers with
  | fromCache later live =>
      refine ⟨?_, nofun⟩
      rintro _ ⟨⟩
      exact coherent query.key _ (TimedCache.lookup_of_later later live) query member rfl
  | fromStore first later missed given =>
      refine ⟨?_, nofun⟩
      rintro _ ⟨⟩
      exact Query.permitted_of_answer given
  | refused first later missed given =>
      refine ⟨nofun, ?_⟩
      rintro _ ⟨⟩
      exact given

theorem Coherent.elapse (coherent : Coherent asked before) {now : Time} (later : before.now ≤ now) :
    Coherent asked (before.atTime now) :=
  TimedCache.Sound.elapse coherent later

/-- **A check keeps the cache coherent**, when an answer of the store is that of all queries of the
set with its key. -/
theorem Coherent.check (coherent : Coherent asked before)
    (agree : ∀ answer, query.answer before.world.store = .ok answer →
      ∀ other, asked other → other.key = query.key →
        other.permitted before.world.store = answer)
    (answers : Answers before query.userId query.fileId query.operation outcome after) :
    Coherent asked after := by
  cases answers with
  | fromCache later live => exact coherent.elapse later
  | fromStore first later missed given =>
      refine TimedCache.Sound.put (TimedCache.Sound.elapse coherent (le_trans first later)) ?_
      exact fun other asks same => (agree _ given other asks same).symm
  | refused first later missed given => exact coherent.elapse (le_trans first later)

/-! ## Changes of permissions -/

/-- The text spells a file of the user. -/
def Owns (db : Database) (ownerId : UserId) (fileId : String) (id : FileId) : Prop :=
  Uuid.parse fileId = some id ∧ ∃ file, db.getFile id = some file ∧ file.ownerId = ownerId

theorem runs_verifyOwner {ownerId : UserId} {fileId : String} {outcome : access.Outcome Unit}
    (run : Runs timed (AccessControlImpl.verifyOwner ownerId fileId) before outcome after) :
    ∃ now, before.now ≤ now ∧ after = before.atTime now ∧
      (outcome = .ok () → ∃ id, Owns before.world.store ownerId fileId id) := by
  unfold AccessControlImpl.verifyOwner at run
  rcases Runs.bind_iff.mp run with ⟨found, middle, read, rest⟩ | ⟨failure, read, rfl⟩
  · obtain ⟨now, later, given, rfl⟩ := (reads_getFile fileId _ _ _).mp read
    refine ⟨now, later, ?_⟩
    cases found with
    | none =>
        obtain ⟨rfl, rfl⟩ := Runs.throw_iff.mp rest
        exact ⟨rfl, nofun⟩
    | some file =>
        dsimp only at rest
        split at rest
        · obtain ⟨rfl, rfl⟩ := Runs.throw_iff.mp rest
          exact ⟨rfl, nofun⟩
        · rename_i owner
          obtain ⟨rfl, rfl⟩ := Runs.pure_iff.mp rest
          refine ⟨rfl, fun _ => ?_⟩
          cases parameter : uuidParameter fileId with
          | error failure =>
              rw [parameter] at given
              cases given
          | ok id =>
              rw [parameter] at given
              exact ⟨id, uuidParameter_eq_ok_iff.mp parameter, file,
                (Except.ok.inj given).symm, not_not.mp owner⟩
  · obtain ⟨now, later, _, rfl⟩ := (reads_getFile fileId _ _ _).mp read
    exact ⟨now, later, rfl, nofun⟩

/-- What a change of a permission leaves. It changes nothing, or its statement is for a file of the
owner and a user that the store accepts, and the answers for its texts are removed. -/
inductive Changes (before : AccessState) (ownerId : UserId) (fileId : String)
    (targetUserId : UserId) (parameter : Except Failure UserId)
    (statement : FileId → UserId → StoreOp) : AccessState → Prop where
  | rejected {now : Time} (later : before.now ≤ now) :
      Changes before ownerId fileId targetUserId parameter statement (before.atTime now)
  | made {id : FileId} {userId : UserId} {now : Time} (later : before.now ≤ now)
      (owns : Owns before.world.store ownerId fileId id) (accepted : parameter = .ok userId) :
      Changes before ownerId fileId targetUserId parameter statement
        { world := ((statement id userId).exec before.world).2
          permissionCache :=
            before.permissionCache.remove (Operation.values.map (cacheKey targetUserId fileId))
          now := now }

/-- The program makes one statement. -/
def Makes {α : Type} (program : Program access α) (op : StoreOp) : Prop :=
  ∀ before outcome after, Runs timed program before outcome after →
    ∃ now, before.now ≤ now ∧
      after = ⟨(op.exec before.world).2, before.permissionCache, now⟩ ∧
      ∀ failure, outcome = .error failure → (op.exec before.world).2 = before.world

theorem makes_await (op : StoreOp) : Makes (await (.store op)) op := by
  intro before outcome after run
  obtain ⟨now, later, made⟩ := timed_iff.mp (Runs.perform_iff.mp run)
  obtain ⟨rfl, rfl⟩ := Prod.mk.inj made
  refine ⟨now, later, rfl, fun failure failed => ?_⟩
  exact StoreOp.exec_error (Prod.ext failed rfl)

theorem runs_changePermission {statement : FileId → UserId → StoreOp}
    {program : FileId → UserId → Program access Unit}
    (makes : ∀ id userId, Makes (program id userId) (statement id userId))
    {ownerId targetUserId : UserId} {fileId : String} {parameter : Except Failure UserId}
    {outcome : access.Outcome Unit}
    (run : Runs timed (AccessControlImpl.verifyOwner ownerId fileId >>= fun _ =>
      withParameter (uuidParameter fileId) (fun id => withParameter parameter (program id)) >>=
        fun _ => await (.invalidateCacheForUser targetUserId fileId)) before outcome after) :
    Changes before ownerId fileId targetUserId parameter statement after := by
  rcases Runs.bind_iff.mp run with ⟨_, verified, first, rest⟩ | ⟨failure, first, _⟩
  · obtain ⟨looked, earlier, rfl, owns⟩ := runs_verifyOwner first
    obtain ⟨id, spells, file⟩ := owns rfl
    rw [uuidParameter_eq_ok_iff.mpr spells] at rest
    have checked : Runs timed (withParameter parameter (program id) >>= fun _ =>
        await (.invalidateCacheForUser targetUserId fileId)) (before.atTime looked) outcome after :=
      rest
    rcases Runs.bind_iff.mp checked with ⟨_, changed, change, last⟩ | ⟨failure, change, _⟩
    · rcases runs_withParameter change with ⟨userId, accepted, change⟩ | ⟨_, _, _, failed, _⟩
      · obtain ⟨now, later, rfl, _⟩ := makes _ _ _ _ _ change
        obtain ⟨ended, latest, _, rfl⟩ := (runs_await (fun _ => ()) _ fun _ => rfl).mp last
        exact .made (le_trans earlier (le_trans later latest)) ⟨spells, file⟩ accepted
      · cases failed
    · rcases runs_withParameter change with ⟨userId, accepted, change⟩ | ⟨_, now, later, _, rfl⟩
      · obtain ⟨now, later, rfl, unchanged⟩ := makes _ _ _ _ _ change
        rw [unchanged failure rfl]
        exact .rejected (le_trans earlier later)
      · exact .rejected (le_trans earlier later)
  · obtain ⟨now, later, rfl, _⟩ := runs_verifyOwner first
    exact .rejected later

theorem files_grantPermission (world : World) (permission : FilePermissionRecord) :
    (StoreOp.exec world (.grantPermission permission)).2.store.files = world.store.files := by
  show (world.commit (world.store.grantPermission permission)).2.store.files = _
  unfold Database.grantPermission
  split <;> rfl

/-- A grant writes the row of its user and file only. -/
theorem find?_grantPermission {world : World} {permission : FilePermissionRecord}
    {key : FileId × UserId} (different : key ≠ permission.primaryKey) :
    (StoreOp.exec world (.grantPermission permission)).2.store.filePermissions.find? key =
      world.store.filePermissions.find? key := by
  show (world.commit (world.store.grantPermission permission)).2.store.filePermissions.find? key = _
  unfold Database.grantPermission
  split
  · exact Table.find?_upsert_of_ne different
  · rfl

/-- A grant for a file that exists writes its row. -/
theorem find?_grantPermission_self {world : World} {permission : FilePermissionRecord}
    {file : FileRecord} (found : world.store.getFile permission.fileId = some file) :
    (StoreOp.exec world (.grantPermission permission)).2.store.filePermissions.find?
      permission.primaryKey = some permission := by
  have present : permission.fileId ∈ world.store.files.keys :=
    Table.isSome_find?_iff.mp (Option.isSome_iff_exists.mpr ⟨file, found⟩)
  show (world.commit (world.store.grantPermission permission)).2.store.filePermissions.find? _ = _
  unfold Database.grantPermission
  rw [dif_pos present]
  exact Table.find?_upsert_self

/-- A statement that changes what the store says about one user and one file. It says the same for
the owner, and for another user what the new row says. -/
structure SetsPermission (statement : FileId → UserId → StoreOp) (tells : Operation → Bool) :
    Prop where
  elsewhere : ∀ world id userId (query : Query),
    (query.userId ≠ userId ∨ Uuid.parse query.fileId ≠ some id) →
      query.permitted ((statement id userId).exec world).2.store = query.permitted world.store
  here : ∀ world id userId file (query : Query), world.store.getFile id = some file →
    query.userId = userId → Uuid.parse query.fileId = some id →
      query.permitted ((statement id userId).exec world).2.store =
        if file.ownerId = userId then true else tells query.operation

/-- A statement that leaves one row, or none, for the user and the file. -/
theorem setsPermission_of_row (statement : FileId → UserId → StoreOp)
    (row : FileId → UserId → Option FilePermissionRecord)
    (files : ∀ world id userId,
      ((statement id userId).exec world).2.store.files = world.store.files)
    (others : ∀ world id userId key, key ≠ (id, userId) →
      ((statement id userId).exec world).2.store.filePermissions.find? key =
        world.store.filePermissions.find? key)
    (own : ∀ world id userId file, world.store.getFile id = some file →
      ((statement id userId).exec world).2.store.filePermissions.find? (id, userId) =
        row id userId)
    {tells : Operation → Bool}
    (means : ∀ id userId operation, tells operation = true ↔
      ∃ granted, row id userId = some granted ∧
        granted.permission = operationToPermission operation) :
    SetsPermission statement tells where
  elsewhere world id userId query different := by
    refine Query.permitted_congr fun other spells => ⟨?_, others world id userId _ ?_⟩
    · rw [Database.getFile, files]
      rfl
    · intro same
      obtain ⟨rfl, user⟩ := Prod.mk.inj same
      exact different.elim (fun others => others user) fun file => file spells
  here world id userId file query found user spells := by
    subst user
    have same : ((statement id query.userId).exec world).2.store.getFile id = some file := by
      rw [Database.getFile, files]
      exact found
    rw [Query.permitted_of_parse spells]
    split
    · rename_i owner
      exact decide_eq_true (Database.permits_of_owner same owner)
    · rename_i stranger
      rw [Bool.eq_iff_iff, decide_eq_true_eq, Database.permits_iff_of_stranger same stranger,
        Database.checkPermission_iff, own world id _ file found, means id query.userId]

/-- No answer that is live at the time, and that the change does not remove, contradicts the row for
the user. Such an answer is about another spelling of the file, or of the user. -/
def CurrentElsewhere (asked : Query → Prop) (state : AccessState) (time : Time) (ownerId : UserId)
    (fileId : String) (targetUserId : UserId) (parameter : Except Failure UserId)
    (tells : Operation → Bool) : Prop :=
  ∀ id userId, Owns state.world.store ownerId fileId id → parameter = .ok userId →
    userId ≠ ownerId → ∀ query, asked query → query.userId = userId →
      Uuid.parse query.fileId = some id →
        query.key ∉ Operation.values.map (cacheKey targetUserId fileId) →
          ∀ answer, state.permissionCache.lookup time query.key = some answer →
            answer = tells query.operation

/-- **A change of a permission keeps the cache coherent**, when it contradicts no live answer that
it does not remove. -/
theorem Coherent.changePermission (coherent : Coherent asked before)
    {statement : FileId → UserId → StoreOp} {tells : Operation → Bool}
    (sets : SetsPermission statement tells) {ownerId targetUserId : UserId} {fileId : String}
    {parameter : Except Failure UserId}
    (current : CurrentElsewhere asked before after.now ownerId fileId targetUserId parameter tells)
    (changes : Changes before ownerId fileId targetUserId parameter statement after) :
    Coherent asked after := by
  cases changes with
  | rejected later => exact coherent.elapse later
  | @made id userId now later owns accepted =>
      refine TimedCache.Sound.remove (TimedCache.Sound.elapse coherent later) ?_
      intro key kept answer live holds query asks same
      subst same
      rw [holds query asks rfl]
      by_cases about : query.userId = userId ∧ Uuid.parse query.fileId = some id
      · obtain ⟨user, spells⟩ := about
        have ⟨_, file, found, owner⟩ := owns
        rw [sets.here _ _ _ file query found user spells]
        split
        · rename_i self
          rw [Query.permitted_of_parse spells]
          exact decide_eq_true (Database.permits_of_owner found (self.trans user.symm))
        · rename_i stranger
          rw [← holds query asks rfl]
          refine current id userId owns accepted (fun same => stranger ?_) query asks user spells
            kept answer live
          exact owner.trans same.symm
      · refine (sets.elsewhere _ _ _ _ ?_).symm
        by_cases user : query.userId = userId
        · exact .inr fun spells => about ⟨user, spells⟩
        · exact .inl user

/-! ## Histories -/

/-- A call of the access control. -/
inductive AccessCall where
  | check (query : Query)
  | grant (ownerId : UserId) (fileId : String) (targetUserId : UserId) (permission : Permission)
      (date : Time)
  | revoke (ownerId : UserId) (fileId : String) (targetUserId : UserId)

/-- The program of a call, which answers when it is a check. -/
def AccessCall.program : AccessCall → Program access (Option Bool)
  | check query => query.check >>= fun answer => pure (some answer)
  | grant ownerId fileId targetUserId permission date =>
      AccessControlImpl.grantPermission ownerId fileId targetUserId permission date >>= fun _ =>
        pure none
  | revoke ownerId fileId targetUserId =>
      AccessControlImpl.revokePermission ownerId fileId targetUserId >>= fun _ => pure none

/-- The row of a grant. -/
def grantedRow (permission : Permission) (date : Time) (ownerId : UserId) (id : FileId)
    (userId : UserId) : FilePermissionRecord :=
  { fileId := id, userId := userId, permission := permission, grantedAt := date,
    grantedBy := ownerId }

/-- The statement of a grant. -/
def grantStatement (permission : Permission) (date : Time) (ownerId : UserId) (id : FileId)
    (userId : UserId) : StoreOp :=
  .grantPermission (grantedRow permission date ownerId id userId)

/-- The statement of a revocation. -/
def revokeStatement (id : FileId) (userId : UserId) : StoreOp := .revokePermission id userId

theorem setsPermission_grant (permission : Permission) (date : Time) (ownerId : UserId) :
    SetsPermission (grantStatement permission date ownerId) fun operation =>
      decide (permission = operationToPermission operation) := by
  refine setsPermission_of_row _
    (fun id userId => some (grantedRow permission date ownerId id userId))
    (fun world id userId => files_grantPermission _ _) ?_ ?_ fun id userId operation => ?_
  · intro world id userId key different
    exact find?_grantPermission different
  · intro world id userId file found
    exact find?_grantPermission_self found
  · simp [grantedRow]

theorem setsPermission_revoke : SetsPermission revokeStatement fun _ => false := by
  refine setsPermission_of_row _ (fun _ _ => none) (fun _ _ _ => rfl) ?_ ?_
    fun id userId operation => ?_
  · intro world id userId key different
    exact Table.find?_delete_of_ne different
  · intro world id userId file found
    exact Table.find?_delete_self
  · simp

theorem runs_grantPermission {ownerId targetUserId : UserId} {fileId : String}
    {permission : Permission} {date : Time} {outcome : access.Outcome Unit}
    (run : Runs timed
      (AccessControlImpl.grantPermission ownerId fileId targetUserId permission date)
      before outcome after) :
    Changes before ownerId fileId targetUserId (userIdParameter targetUserId)
      (grantStatement permission date ownerId) after :=
  runs_changePermission (fun _ _ => makes_await _) run

theorem runs_revokePermission {ownerId targetUserId : UserId} {fileId : String}
    {outcome : access.Outcome Unit}
    (run : Runs timed (AccessControlImpl.revokePermission ownerId fileId targetUserId)
      before outcome after) :
    Changes before ownerId fileId targetUserId (textParameter targetUserId) revokeStatement after :=
  runs_changePermission (fun _ _ => makes_await _) run

/-- A call that ends at some time. Only queries of the set are checked. A permission is granted or
revoked by anyone, who is the owner or is rejected; it contradicts no live answer that is not
removed. -/
def Fits (asked : Query → Prop) : AccessCall → AccessState → Time → Prop
  | .check query, _, _ => asked query
  | .grant ownerId fileId targetUserId permission _, state, time =>
      CurrentElsewhere asked state time ownerId fileId targetUserId (userIdParameter targetUserId)
        fun operation => decide (permission = operationToPermission operation)
  | .revoke ownerId fileId targetUserId, state, time =>
      CurrentElsewhere asked state time ownerId fileId targetUserId (textParameter targetUserId)
        fun _ => false

/-- A call of a history. Time may pass before each of its calls. -/
inductive AccessStep (fits : AccessCall → AccessState → Time → Prop) :
    AccessState → AccessState → Prop where
  | call {before after : AccessState} {outcome : access.Outcome (Option Bool)} (call : AccessCall)
      (fitting : fits call before after.now) (run : Runs timed call.program before outcome after) :
      AccessStep fits before after

/-- **Every call keeps the cache coherent.** -/
theorem AccessStep.coherent
    (injective : ∀ first second, asked first → asked second → first.key = second.key →
      first = second)
    (step : AccessStep (Fits asked) before after) (coherent : Coherent asked before) :
    Coherent asked after := by
  obtain ⟨call, fitting, run⟩ := step
  cases call with
  | check query =>
      obtain ⟨settled, _, check⟩ := Runs.of_bind_pure run
      refine coherent.check (fun answer given other asks same => ?_)
        (runs_checkPermission_iff.mp check)
      rw [injective other query asks fitting same]
      exact (Query.permitted_of_answer given).symm
  | grant ownerId fileId targetUserId permission date =>
      obtain ⟨settled, _, change⟩ := Runs.of_bind_pure run
      exact coherent.changePermission (setsPermission_grant permission date ownerId) fitting
        (runs_grantPermission change)
  | revoke ownerId fileId targetUserId =>
      obtain ⟨settled, _, change⟩ := Runs.of_bind_pure run
      exact coherent.changePermission setsPermission_revoke fitting (runs_revokePermission change)

theorem coherent_of_history {start reached : AccessState}
    (injective : ∀ first second, asked first → asked second → first.key = second.key →
      first = second)
    (empty : start.permissionCache = TimedCache.empty)
    (history : ReflTransGen (AccessStep (Fits asked)) start reached) : Coherent asked reached := by
  induction history with
  | refl => exact coherent_of_empty empty
  | tail _ step ih => exact step.coherent injective ih

/-- **Permissions take effect at once**, in every history of checks, grants and revocations in
which no change contradicts a live answer that is not removed. However much time passes, a check
answers what the store says at that moment, unless the store refuses it. -/
theorem permission_coherence {start reached : AccessState}
    (empty : start.permissionCache = TimedCache.empty)
    (history : ReflTransGen (AccessStep (Fits Query.Plain)) start reached) (query : Query)
    (plain : query.Plain) {outcome : access.Outcome Bool} {after : AccessState}
    (check : Runs timed query.check reached outcome after) :
    (∀ answer, outcome = .ok answer → answer = query.permitted reached.world.store) ∧
      (∀ failure, outcome = .error failure → query.answer reached.world.store = .error failure) ∧
      after.world = reached.world := by
  have injective : ∀ first second : Query, first.Plain → second.Plain → first.key = second.key →
      first = second := fun _ _ here there same => Query.eq_of_key_eq same here.2 there.2
  have coherent := coherent_of_history injective empty history
  have answers := runs_checkPermission_iff.mp check
  obtain ⟨answered, refused⟩ := coherent.answers plain answers
  exact ⟨answered, refused, answers.world⟩

/-! ## A grant, and a revocation under another spelling -/

/-- No identifier of the call contains the separator of the cache keys. -/
def AccessCall.Plain : AccessCall → Prop
  | check query => query.Plain
  | grant ownerId fileId targetUserId _ _ =>
      ':' ∉ ownerId.toList ∧ ':' ∉ fileId.toList ∧ ':' ∉ targetUserId.toList
  | revoke ownerId fileId targetUserId =>
      ':' ∉ ownerId.toList ∧ ':' ∉ fileId.toList ∧ ':' ∉ targetUserId.toList

instance : (call : AccessCall) → Decidable call.Plain
  | .check query => inferInstanceAs (Decidable query.Plain)
  | .grant .. => inferInstanceAs (Decidable (_ ∧ _))
  | .revoke .. => inferInstanceAs (Decidable (_ ∧ _))

/-- Calls one after the other at one time. -/
def callAll (calls : List AccessCall) (state : AccessState) : AccessState :=
  calls.foldl (fun state call => (call.program.run accessExec state).2) state

/-- What the other user asks before and after the grant. -/
def sharesNotes : Query := ⟨"ada", notes.text, .share⟩

/-- The owner shares the file. -/
def grantsShare : AccessCall := .grant "owner" notes.text "ada" .write 1

/-- The user has asked. -/
def refusedShare : AccessState :=
  callAll [.check sharesNotes] (.fresh (World.ofFile notes) 0)

/-- The one answer that is kept is about the user and the spelling of the grant. -/
theorem fits_grantShare (time : Time) :
    Fits Query.Plain grantsShare refusedShare time := by
  obtain ⟨_, _, check⟩ := Runs.of_bind_pure
    (runs_timed (AccessCall.check sharesNotes).program (.fresh (World.ofFile notes) 0))
  have answers : Answers _ sharesNotes.userId sharesNotes.fileId sharesNotes.operation _
      refusedShare := runs_checkPermission_iff.mp check
  intro id userId _ _ _ other _ _ _ kept answer live
  have different : other.key ≠ sharesNotes.key := fun same => kept <| by
    rw [same]
    exact List.mem_map.mpr ⟨.share, Operation.mem_values _, rfl⟩
  rw [answers.lookup_other different] at live
  cases live

/-- A user is refused, gets the permission, and is let in although the refusal is younger than
five minutes. -/
theorem permission_coherence_grant :
    (sharesNotes.check.run accessExec (.fresh (World.ofFile notes) 0)).1 = .ok false ∧
      ∃ reached after, Runs timed sharesNotes.check reached (.ok true) after := by
  have plain : sharesNotes.Plain := by decide +kernel
  have asks := AccessStep.call (.check sharesNotes) (show Fits Query.Plain _ _ _ from plain)
    (runs_timed _ (.fresh (World.ofFile notes) 0))
  have grants := AccessStep.call grantsShare (fits_grantShare _) (runs_timed _ refusedShare)
  have check := runs_timed sharesNotes.check (callAll [grantsShare] refusedShare)
  obtain ⟨answered, refused, _⟩ :=
    permission_coherence rfl ((ReflTransGen.single asks).tail grants) sharesNotes plain check
  have granted :
      sharesNotes.answer (callAll [grantsShare] refusedShare).world.store = .ok true := by
    decide +kernel
  refine ⟨by decide +kernel, ?_⟩
  cases settled : (sharesNotes.check.run accessExec (callAll [grantsShare] refusedShare)).1 with
  | error failure => exact nomatch granted.symm.trans (refused failure settled)
  | ok answer =>
      have permitted := (answered answer settled).trans (Query.permitted_of_answer granted).symm
      rw [settled, permitted] at check
      exact ⟨_, _, check⟩

/-- Another spelling of an identifier. -/
def capitals : String := "6F9619FF-8B86-D011-B42D-00C04FC964FF"

/-- The other user gets a permission, asks under one spelling, and loses it under another one. -/
def grantAskRevoke : List AccessCall :=
  [.grant "owner" notes.text "ada" .read 0, .check ⟨"ada", capitals, .read⟩,
    .revoke "owner" notes.text "ada"]

theorem history_callAll {fits : AccessCall → AccessState → Time → Prop} (calls : List AccessCall)
    (fitting : ∀ call ∈ calls, ∀ state time, fits call state time) (state : AccessState) :
    ReflTransGen (AccessStep fits) state (callAll calls state) := by
  induction calls generalizing state with
  | nil => exact .refl
  | cons call calls ih =>
      refine .head (.call call (fitting call List.mem_cons_self _ _) (runs_timed _ _)) ?_
      exact ih (fun other member => fitting other (List.mem_cons_of_mem _ member)) _

/-- **An answer that is kept under another spelling survives the revocation.** -/
theorem permission_incoherent_spelling :
    ¬ ∀ (start reached after : AccessState) (query : Query) (answer : Bool),
      start.permissionCache = TimedCache.empty →
      ReflTransGen (AccessStep fun call _ _ => call.Plain) start reached → query.Plain →
      Runs timed query.check reached (.ok answer) after →
      answer = query.permitted reached.world.store := by
  intro claim
  let start := AccessState.fresh (World.ofFile notes) 0
  have plain : ∀ call ∈ grantAskRevoke, call.Plain := by decide +kernel
  have check := runs_timed (Query.check ⟨"ada", capitals, .read⟩) (callAll grantAskRevoke start)
  have answered : ((Query.check ⟨"ada", capitals, .read⟩).run accessExec
      (callAll grantAskRevoke start)).1 = .ok true := by decide +kernel
  rw [answered] at check
  have current := claim start _ _ _ _ rfl
    (history_callAll grantAskRevoke (fun call member _ _ => plain call member) start)
    (by decide +kernel) check
  exact absurd current (by decide +kernel)

end DistributedFileStorage.Access
