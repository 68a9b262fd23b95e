import Mathlib.Algebra.Order.Group.Int
import DistributedFileStorage.Caching.TimedCache
import DistributedFileStorage.Relational.Columns
import DistributedFileStorage.Services.Calls

/-!
# Access control

`checkPermission` answers from a cache, and else from the store: a missing file permits nothing,
the owner of a file may do everything, and another user may do what the one row of
`file_permissions` for this user says. Both kinds of answers are kept for five minutes.
`grantPermission` and `revokePermission` change the row and remove the answers for its user and
file.

Callers give the identifier of a file as a text. The store takes it for a UUID, of which there are
many spellings, and refuses a text that is none. The keys of the cache have the text as it is given.

The cache and the clock are part of the state, and the changes of the cache are calls like those
of the store. Between two calls any amount of time may pass (`timed`).
-/

set_option autoImplicit false

namespace DistributedFileStorage.Access

open Async Store Services Caching Encoding
open Relational.Columns (plainText characterVarying eq_of_plainText)

inductive Operation where
  | read
  | write
  | delete
  | share
  deriving DecidableEq

/-- The string that the enumeration stands for. -/
def Operation.value : Operation → String
  | read => "read"
  | write => "write"
  | delete => "delete"
  | share => "share"

/-- `Object.values(Operation)`. -/
def Operation.values : List Operation := [read, write, delete, share]

@[simp] theorem Operation.mem_values (operation : Operation) : operation ∈ values := by
  cases operation <;> simp [values]

/-- SHARE requires at least WRITE. -/
def operationToPermission : Operation → Permission
  | .read => .read
  | .write => .write
  | .delete => .delete
  | .share => .write

def cacheKey (userId : UserId) (fileId : String) (operation : Operation) : String :=
  s!"{userId}:{fileId}:{operation.value}"

/-- Five minutes, in milliseconds. -/
def cacheTtlMs : Time := 5 * 60 * 1000

/-! ## Parameters -/

/-- A text as a parameter of a statement. -/
def textParameter (text : String) : Except Failure String :=
  match plainText text with
  | some text => .ok text
  | none => .error (.error "invalid byte sequence for encoding \"UTF8\": 0x00")

/-- A text as a UUID. -/
def uuidParameter (text : String) : Except Failure FileId :=
  match Uuid.parse text with
  | some fileId => .ok fileId
  | none => do
      let text ← textParameter text
      throw (.error ("invalid input syntax for type uuid: \"" ++ text ++ "\""))

/-- A text for the column `user_id VARCHAR(255)`. -/
def userIdParameter (text : String) : Except Failure UserId := do
  let text ← textParameter text
  match characterVarying 255 text with
  | some userId => pure userId
  | none => throw (.error "value too long for type character varying(255)")

theorem eq_of_textParameter {text plain : String} (same : textParameter text = .ok plain) :
    plain = text := by
  unfold textParameter at same
  split at same
  · rename_i isPlain
    rw [← Except.ok.inj same]
    exact eq_of_plainText isPlain
  · cases same

theorem uuidParameter_eq_ok_iff {text : String} {fileId : FileId} :
    uuidParameter text = .ok fileId ↔ Uuid.parse text = some fileId := by
  unfold uuidParameter
  cases parsed : Uuid.parse text with
  | some id => simp
  | none =>
      refine iff_of_false (fun same => ?_) nofun
      cases plain : textParameter text with
      | ok plain =>
          rw [plain] at same
          cases same
      | error failure =>
          rw [plain] at same
          cases same

/-! ## The calls -/

/-- A call on the store or a step of the permission cache. -/
inductive AccessOp where
  | store (op : StoreOp)
  /-- a statement that is refused for a parameter -/
  | refuse (failure : Failure)
  | cached (key : String)
  | cacheResult (key : String) (result : Bool)
  | invalidateCacheForUser (userId : UserId) (fileId : String)

@[reducible] def AccessOp.Result : AccessOp → Type
  | store op => op.Result
  | refuse _ => Empty
  | cached _ => Option Bool
  | _ => Unit

/-- The interface that the functions of the access control are programs over. -/
abbrev access : Interface := ⟨AccessOp, AccessOp.Result, Failure⟩

/-- The database and the nodes, the cache in memory, and the clock. -/
structure AccessState where
  world : World
  permissionCache : TimedCache String Bool Time
  now : Time

/-- A new access control over a store, at some time. -/
def AccessState.fresh (world : World) (now : Time) : AccessState := ⟨world, .empty, now⟩

/-- Let time pass. -/
def AccessState.elapse (state : AccessState) (duration : ℕ) : AccessState :=
  { state with now := state.now + duration }

/-- What a call does. -/
def accessExec : Handler access AccessState
  | .store op, state => ((op.exec state.world).1, { state with world := (op.exec state.world).2 })
  | .refuse failure, state => (.error failure, state)
  | .cached key, state => (.ok (state.permissionCache.lookup state.now key), state)
  | .cacheResult key result, state =>
      (.ok (), { state with
        permissionCache := state.permissionCache.put key result (state.now + cacheTtlMs) })
  | .invalidateCacheForUser userId fileId, state =>
      (.ok (), { state with
        permissionCache :=
          state.permissionCache.remove (Operation.values.map (cacheKey userId fileId)) })

/-- What a call may do after any amount of time. -/
def timed : Semantics access AccessState := fun op before outcome after =>
  ∃ duration : ℕ, accessExec op (before.elapse duration) = (outcome, after)

/-- Await a call. -/
abbrev await (op : AccessOp) : Program access op.Result := Program.perform (I := access) op

/-- A statement over a parameter, which is refused when it is no value of its type. -/
def withParameter {α β : Type} (parameter : Except Failure α) (statement : α → Program access β) :
    Program access β :=
  match parameter with
  | .ok value => statement value
  | .error failure => await (.refuse failure) >>= Empty.elim

theorem allCalls_withParameter {α β : Type} {allowed : AccessOp → Prop}
    {parameter : Except Failure α} {statement : α → Program access β}
    (refuses : ∀ failure, allowed (.refuse failure))
    (accepted : ∀ value, (statement value).AllCalls allowed) :
    (withParameter parameter statement).AllCalls allowed := by
  cases parameter with
  | ok value => exact accepted value
  | error failure => exact .bind (.perform (refuses failure)) nofun

/-! ## The functions -/

/-! The statements on files and permissions, with the texts that their callers give. -/

namespace MetadataStoreImpl

def getFile (fileId : String) : Program access (Option FileRecord) :=
  withParameter (uuidParameter fileId) fun fileId => await (.store (.getFile fileId))

def deleteFile (fileId : String) : Program access Unit :=
  withParameter (uuidParameter fileId) fun fileId => await (.store (.deleteFile fileId))

def checkPermission (fileId : String) (userId : UserId) (permission : Permission) :
    Program access Bool :=
  withParameter (uuidParameter fileId) fun fileId =>
    withParameter (textParameter userId) fun userId =>
      await (.store (.checkPermission fileId userId permission))

def grantPermission (fileId : String) (userId : UserId) (permission : Permission) (grantedAt : Time)
    (grantedBy : UserId) : Program access Unit :=
  withParameter (uuidParameter fileId) fun fileId =>
    withParameter (userIdParameter userId) fun userId =>
      await (.store (.grantPermission
        { fileId := fileId, userId := userId, permission := permission, grantedAt := grantedAt,
          grantedBy := grantedBy }))

def revokePermission (fileId : String) (userId : UserId) : Program access Unit :=
  withParameter (uuidParameter fileId) fun fileId =>
    withParameter (textParameter userId) fun userId =>
      await (.store (.revokePermission fileId userId))

end MetadataStoreImpl

namespace AccessControlImpl

def checkPermission (userId : UserId) (fileId : String) (operation : Operation) :
    Program access Bool := do
  let key := cacheKey userId fileId operation
  match ← await (.cached key) with
  | some result => pure result
  | none =>
      match ← MetadataStoreImpl.getFile fileId with
      | none => do
          await (.cacheResult key false)
          pure false
      | some file =>
          if file.ownerId = userId then do
            await (.cacheResult key true)
            pure true
          else do
            let hasPermission ←
              MetadataStoreImpl.checkPermission fileId userId (operationToPermission operation)
            await (.cacheResult key hasPermission)
            pure hasPermission

/-- Only the owner of a file can change who may use it. -/
def verifyOwner (ownerId : UserId) (fileId : String) : Program access Unit := do
  match ← MetadataStoreImpl.getFile fileId with
  | none => Program.throw (I := access) (.error s!"File not found: {fileId}")
  | some file =>
      if file.ownerId ≠ ownerId then
        Program.throw (I := access) (.error s!"User {ownerId} is not the owner of file {fileId}")
      else pure ()

def grantPermission (ownerId : UserId) (fileId : String) (targetUserId : UserId)
    (permission : Permission) (now : Time) : Program access Unit := do
  verifyOwner ownerId fileId
  MetadataStoreImpl.grantPermission fileId targetUserId permission now ownerId
  await (.invalidateCacheForUser targetUserId fileId)

def revokePermission (ownerId : UserId) (fileId : String) (targetUserId : UserId) :
    Program access Unit := do
  verifyOwner ownerId fileId
  MetadataStoreImpl.revokePermission fileId targetUserId
  await (.invalidateCacheForUser targetUserId fileId)

end AccessControlImpl

end DistributedFileStorage.Access

namespace DistributedFileStorage.Store.Database

open Relational Access

/-- The store permits the operation: the user owns the file, or has the row for it. -/
def Permits (db : Database) (userId : UserId) (fileId : FileId) (operation : Operation) : Prop :=
  ∃ file, db.getFile fileId = some file ∧
    (file.ownerId = userId ∨
      ∃ row, db.filePermissions.find? (fileId, userId) = some row ∧
        row.permission = operationToPermission operation)

variable {db : Database} {userId : UserId} {fileId : FileId} {operation : Operation}

/-- The count is positive when the one row of the user is for the permission. -/
theorem checkPermission_iff {permission : Permission} :
    db.checkPermission fileId userId permission = true ↔
      ∃ row, db.filePermissions.find? (fileId, userId) = some row ∧
        row.permission = permission := by
  simp only [checkPermission, decide_eq_true_eq, List.countP_pos_iff, Table.find?_eq_some_iff,
    FilePermissionRecord.primaryKey, Prod.mk.injEq]
  constructor
  · rintro ⟨row, member, file, user, same⟩
    exact ⟨row, ⟨member, file, user⟩, same⟩
  · rintro ⟨row, ⟨member, file, user⟩, same⟩
    exact ⟨row, member, file, user, same⟩

theorem not_permits_of_absent (absent : db.getFile fileId = none) :
    ¬ db.Permits userId fileId operation := by
  rintro ⟨file, found, _⟩
  rw [absent] at found
  cases found

theorem permits_of_owner {file : FileRecord} (found : db.getFile fileId = some file)
    (owner : file.ownerId = userId) : db.Permits userId fileId operation :=
  ⟨file, found, .inl owner⟩

theorem permits_iff_of_stranger {file : FileRecord} (found : db.getFile fileId = some file)
    (stranger : file.ownerId ≠ userId) :
    db.Permits userId fileId operation ↔
      db.checkPermission fileId userId (operationToPermission operation) = true := by
  rw [checkPermission_iff]
  constructor
  · rintro ⟨other, same, owner | row⟩
    · rw [found] at same
      obtain rfl := Option.some.inj same
      exact absurd owner stranger
    · exact row
  · exact fun row => ⟨file, found, .inr row⟩

instance : Decidable (db.Permits userId fileId operation) :=
  match found : db.getFile fileId with
  | none => isFalse (not_permits_of_absent found)
  | some file =>
      if owner : file.ownerId = userId then isTrue (permits_of_owner found owner)
      else decidable_of_iff' _ (permits_iff_of_stranger found owner)

end DistributedFileStorage.Store.Database

namespace DistributedFileStorage.Access

open Async Store Services Caching Encoding Program

/-! ## The runs -/

/-- The state at another time. -/
def AccessState.atTime (state : AccessState) (now : Time) : AccessState := { state with now := now }

@[simp] theorem AccessState.world_atTime (state : AccessState) (now : Time) :
    (state.atTime now).world = state.world := rfl

@[simp] theorem AccessState.permissionCache_atTime (state : AccessState) (now : Time) :
    (state.atTime now).permissionCache = state.permissionCache := rfl

@[simp] theorem AccessState.now_atTime (state : AccessState) (now : Time) :
    (state.atTime now).now = now := rfl

theorem AccessState.now_le_elapse (state : AccessState) (duration : ℕ) :
    state.now ≤ (state.elapse duration).now :=
  Int.le_add_of_nonneg_right (Int.natCast_nonneg duration)

theorem AccessState.exists_elapse {state : AccessState} {now : Time} (later : state.now ≤ now) :
    ∃ duration : ℕ, state.elapse duration = state.atTime now := by
  have nonneg : 0 ≤ now - state.now := Int.sub_nonneg_of_le later
  refine ⟨(now - state.now).toNat, ?_⟩
  unfold elapse AccessState.atTime
  rw [Int.toNat_of_nonneg nonneg, add_sub_cancel]

/-- A call is made at some time from now on. -/
theorem timed_iff {op : AccessOp} {before after : AccessState}
    {outcome : access.Outcome op.Result} :
    timed op before outcome after ↔
      ∃ now, before.now ≤ now ∧ accessExec op (before.atTime now) = (outcome, after) := by
  constructor
  · rintro ⟨duration, made⟩
    exact ⟨_, before.now_le_elapse duration, made⟩
  · rintro ⟨now, later, made⟩
    obtain ⟨duration, same⟩ := AccessState.exists_elapse later
    exact ⟨duration, same ▸ made⟩

variable {α β : Type} {before after : AccessState}

/-- What works at once is one of the runs in which time may pass. -/
theorem runs_timed (program : Program access α) (state : AccessState) :
    Runs timed program state (program.run accessExec state).1 (program.run accessExec state).2 := by
  induction program generalizing state with
  | done outcome => exact .done _ _
  | call op next ih => exact .call (timed_iff.mpr ⟨state.now, le_refl _, rfl⟩) (ih _ _)

/-- Awaiting a call that does not fail. -/
theorem runs_await {op : AccessOp} (value : AccessState → op.Result)
    (effect : AccessState → AccessState)
    (works : ∀ state, accessExec op state = (.ok (value state), effect state))
    {outcome : access.Outcome op.Result} :
    Runs timed (await op) before outcome after ↔
      ∃ now, before.now ≤ now ∧ outcome = .ok (value (before.atTime now)) ∧
        after = effect (before.atTime now) := by
  constructor
  · intro run
    obtain ⟨now, later, made⟩ := timed_iff.mp (Runs.perform_iff.mp run)
    rw [works] at made
    obtain ⟨rfl, rfl⟩ := Prod.mk.inj made
    exact ⟨now, later, rfl, rfl⟩
  · rintro ⟨now, later, rfl, rfl⟩
    exact Runs.perform_iff.mpr (timed_iff.mpr ⟨now, later, works _⟩)

theorem runs_await_bind {op : AccessOp} (value : AccessState → op.Result)
    (effect : AccessState → AccessState)
    (works : ∀ state, accessExec op state = (.ok (value state), effect state))
    {next : op.Result → Program access β} {outcome : access.Outcome β} :
    Runs timed (await op >>= next) before outcome after ↔
      ∃ now, before.now ≤ now ∧
        Runs timed (next (value (before.atTime now))) (effect (before.atTime now)) outcome
          after := by
  rw [Runs.bind_iff]
  simp only [runs_await value effect works]
  constructor
  · rintro (⟨result, middle, ⟨now, later, same, rfl⟩, rest⟩ | ⟨failure, ⟨_, _, same, _⟩, _⟩)
    · obtain rfl := Except.ok.inj same
      exact ⟨now, later, rest⟩
    · cases same
  · rintro ⟨now, later, rest⟩
    exact .inl ⟨_, _, ⟨now, later, rfl, rfl⟩, rest⟩

/-- After some time the program settles to what it reads in the store, and nothing else happens. -/
def Reads (program : Program access α) (value : Database → Except Failure α) : Prop :=
  ∀ before outcome after, Runs timed program before outcome after ↔
    ∃ now, before.now ≤ now ∧ outcome = value before.world.store ∧ after = before.atTime now

namespace Reads

variable {program : Program access α} {value : Database → Except Failure α}

theorem await {op : AccessOp} {value : Database → Except Failure op.Result}
    (works : ∀ state, accessExec op state = (value state.world.store, state)) :
    Reads (await op) value := by
  intro before outcome after
  rw [Runs.perform_iff, timed_iff]
  simp only [works, AccessState.world_atTime, Prod.mk.injEq]
  constructor
  · rintro ⟨now, later, rfl, rfl⟩
    exact ⟨now, later, rfl, rfl⟩
  · rintro ⟨now, later, rfl, rfl⟩
    exact ⟨now, later, rfl, rfl⟩

/-- A program that goes on with what it has read, and settles at once or reads again. -/
theorem bind {next : α → Program access β} {last : α → Database → Except Failure β}
    (first : Reads program value)
    (second : ∀ read, Reads (next read) (last read) ∨
      ∃ outcome, next read = .done outcome ∧ ∀ db, last read db = outcome) :
    Reads (program >>= next) fun db => value db >>= fun read => last read db := by
  intro before outcome after
  rw [Runs.bind_iff]
  simp only [first _ _ _]
  constructor
  · rintro (⟨read, middle, ⟨looked, earlier, same, rfl⟩, rest⟩ |
      ⟨failure, ⟨now, later, same, rfl⟩, rfl⟩)
    · rw [← same]
      rcases second read with reads | ⟨settled, ends, answers⟩
      · obtain ⟨now, later, rfl, rfl⟩ := (reads _ _ _).mp rest
        exact ⟨now, le_trans earlier later, rfl, rfl⟩
      · rw [ends] at rest
        obtain ⟨rfl, rfl⟩ := Runs.done_iff.mp rest
        exact ⟨looked, earlier, (answers _).symm, rfl⟩
    · rw [← same]
      exact ⟨now, later, rfl, rfl⟩
  · rintro ⟨now, later, rfl, rfl⟩
    cases same : value before.world.store with
    | error failure => exact .inr ⟨failure, ⟨now, later, rfl, rfl⟩, rfl⟩
    | ok read =>
        refine .inl ⟨read, before.atTime now, ⟨now, later, rfl, rfl⟩, ?_⟩
        rcases second read with reads | ⟨settled, ends, answers⟩
        · exact (reads _ _ _).mpr ⟨now, le_refl _, rfl, rfl⟩
        · rw [ends]
          exact Runs.done_iff.mpr ⟨answers _, rfl⟩

theorem refused (failure : Failure) {next : Empty → Program access α} :
    Reads (Access.await (.refuse failure) >>= next) fun _ => .error failure := by
  have refuses : Reads (Access.await (.refuse failure)) fun _ => .error failure :=
    .await fun _ => rfl
  have settles : Reads (Access.await (.refuse failure) >>= next) fun _ =>
      (.error failure : Except Failure Empty) >>= fun _ => .error failure :=
    refuses.bind nofun
  exact settles

/-- A statement whose parameter is refused reads the refusal. -/
theorem withParameter {parameter : Except Failure β} {statement : β → Program access α}
    {value : β → Database → Except Failure α}
    (reads : ∀ given, Reads (statement given) (value given)) :
    Reads (withParameter parameter statement) fun db =>
      parameter >>= fun given => value given db := by
  cases parameter with
  | ok given => exact reads given
  | error failure => exact refused failure

end Reads

/-- A statement over a parameter that is accepted is made; else nothing happens. -/
theorem runs_withParameter {parameter : Except Failure β} {statement : β → Program access α}
    {outcome : access.Outcome α}
    (run : Runs timed (withParameter parameter statement) before outcome after) :
    (∃ given, parameter = .ok given ∧ Runs timed (statement given) before outcome after) ∨
      ∃ failure now, before.now ≤ now ∧ outcome = .error failure ∧ after = before.atTime now := by
  cases parameter with
  | ok given => exact .inl ⟨given, rfl, run⟩
  | error failure =>
      obtain ⟨now, later, same, rfl⟩ := (Reads.refused failure _ _ _).mp run
      exact .inr ⟨failure, now, later, same, rfl⟩

/-! ## Checks -/

theorem reads_getFile (fileId : String) :
    Reads (MetadataStoreImpl.getFile fileId) fun db => uuidParameter fileId >>= fun id =>
      .ok (db.getFile id) :=
  .withParameter fun _ => .await fun _ => rfl

theorem reads_checkPermission (fileId : String) (userId : UserId) (permission : Permission) :
    Reads (MetadataStoreImpl.checkPermission fileId userId permission) fun db =>
      uuidParameter fileId >>= fun id => textParameter userId >>= fun user =>
        .ok (db.checkPermission id user permission) :=
  .withParameter fun _ => .withParameter fun _ => .await fun _ => rfl

/-- What the store answers about a file. -/
def evaluateFile (db : Database) (userId : UserId) (id : FileId) (operation : Operation) :
    Except Failure Bool :=
  match db.getFile id with
  | none => .ok false
  | some file =>
      if file.ownerId = userId then .ok true
      else textParameter userId >>= fun user =>
        .ok (db.checkPermission id user (operationToPermission operation))

/-- What the store answers, with nothing cached. -/
def evaluate (db : Database) (userId : UserId) (fileId : String) (operation : Operation) :
    Except Failure Bool :=
  uuidParameter fileId >>= fun id => evaluateFile db userId id operation

/-- How `checkPermission` answers: from a live entry of the cache, or from the store, and then it
keeps the answer, if there is one. -/
inductive Answers (before : AccessState) (userId : UserId) (fileId : String)
    (operation : Operation) : Except Failure Bool → AccessState → Prop where
  | fromCache {answer : Bool} {now : Time} (later : before.now ≤ now)
      (live : before.permissionCache.lookup now (cacheKey userId fileId operation) = some answer) :
      Answers before userId fileId operation (.ok answer) (before.atTime now)
  | fromStore {answer : Bool} {looked now : Time} (first : before.now ≤ looked)
      (later : looked ≤ now)
      (missed : before.permissionCache.lookup looked (cacheKey userId fileId operation) = none)
      (given : evaluate before.world.store userId fileId operation = .ok answer) :
      Answers before userId fileId operation (.ok answer)
        { before with
          now := now
          permissionCache := before.permissionCache.put (cacheKey userId fileId operation) answer
            (now + cacheTtlMs) }
  | refused {failure : Failure} {looked now : Time} (first : before.now ≤ looked)
      (later : looked ≤ now)
      (missed : before.permissionCache.lookup looked (cacheKey userId fileId operation) = none)
      (given : evaluate before.world.store userId fileId operation = .error failure) :
      Answers before userId fileId operation (.error failure) (before.atTime now)

variable {userId : UserId} {fileId : String} {operation : Operation} {answer : Except Failure Bool}

/-- A check does not change the store. -/
theorem Answers.world (answers : Answers before userId fileId operation answer after) :
    after.world = before.world := by
  cases answers <;> rfl

/-- The part of `checkPermission` that asks the store. -/
def readPermission (userId : UserId) (fileId : String) (operation : Operation) :
    Program access Bool := do
  match ← MetadataStoreImpl.getFile fileId with
  | none => pure false
  | some file =>
      if file.ownerId = userId then pure true
      else MetadataStoreImpl.checkPermission fileId userId (operationToPermission operation)

/-- Whatever the store says is kept and returned. -/
theorem checkPermission_eq :
    AccessControlImpl.checkPermission userId fileId operation =
      await (.cached (cacheKey userId fileId operation)) >>= fun cached =>
        match cached with
        | some result => pure result
        | none => readPermission userId fileId operation >>= fun result =>
            await (.cacheResult (cacheKey userId fileId operation) result) >>= fun _ =>
              pure result := by
  refine congrArg (Program.call _) (funext fun cached => ?_)
  rcases cached with failure | _ | result
  · rfl
  · unfold readPermission
    rw [bind_assoc]
    refine congrArg (MetadataStoreImpl.getFile fileId >>= ·) (funext fun found => ?_)
    cases found with
    | none => rfl
    | some file =>
        dsimp only
        split <;> rfl
  · rfl

theorem reads_readPermission (userId : UserId) (fileId : String) (operation : Operation) :
    Reads (readPermission userId fileId operation) fun db =>
      evaluate db userId fileId operation := by
  let last (found : Option FileRecord) (db : Database) : Except Failure Bool :=
    match found with
    | none => .ok false
    | some file =>
        if file.ownerId = userId then .ok true
        else uuidParameter fileId >>= fun id => textParameter userId >>= fun user =>
          .ok (db.checkPermission id user (operationToPermission operation))
  have reads : Reads (readPermission userId fileId operation) fun db =>
      (uuidParameter fileId >>= fun id => .ok (db.getFile id)) >>= fun found => last found db := by
    refine .bind (reads_getFile fileId) fun found => ?_
    cases found with
    | none => exact .inr ⟨_, rfl, fun _ => rfl⟩
    | some file =>
        dsimp only [last]
        split
        · exact .inr ⟨_, rfl, fun _ => rfl⟩
        · exact .inl (reads_checkPermission fileId userId _)
  have same : ∀ db, evaluate db userId fileId operation =
      (uuidParameter fileId >>= fun id => .ok (db.getFile id)) >>= fun found => last found db := by
    intro db
    unfold evaluate evaluateFile
    dsimp only [last]
    cases uuidParameter fileId <;> rfl
  simpa only [same] using reads

/-- **What `checkPermission` does.** -/
theorem runs_checkPermission_iff {outcome : access.Outcome Bool} :
    Runs timed (AccessControlImpl.checkPermission userId fileId operation) before outcome after ↔
      Answers before userId fileId operation outcome after := by
  rw [checkPermission_eq, runs_await_bind (fun state => state.permissionCache.lookup state.now
    (cacheKey userId fileId operation)) id fun _ => rfl]
  constructor
  · rintro ⟨looked, first, run⟩
    dsimp only [AccessState.permissionCache_atTime, AccessState.now_atTime, id] at run
    split at run
    · rename_i answer live
      obtain ⟨rfl, rfl⟩ := Runs.pure_iff.mp run
      exact .fromCache first live
    · rename_i missed
      rcases Runs.bind_iff.mp run with ⟨result, middle, read, kept⟩ | ⟨failure, read, rfl⟩
      · obtain ⟨now, later, given, rfl⟩ := (reads_readPermission _ _ _ _ _ _).mp read
        obtain ⟨last, latest, run⟩ := (runs_await_bind (fun _ => ()) _ fun _ => rfl).mp kept
        obtain ⟨rfl, rfl⟩ := Runs.pure_iff.mp run
        exact .fromStore first (later.trans latest) missed given.symm
      · obtain ⟨now, later, given, rfl⟩ := (reads_readPermission _ _ _ _ _ _).mp read
        exact .refused first later missed given.symm
  · intro answers
    cases answers with
    | fromCache later live =>
        refine ⟨_, later, ?_⟩
        dsimp only [AccessState.permissionCache_atTime, AccessState.now_atTime, id]
        rw [live]
        exact Runs.pure_iff.mpr ⟨rfl, rfl⟩
    | @fromStore answer looked now first later missed given =>
        refine ⟨looked, first, ?_⟩
        dsimp only [AccessState.permissionCache_atTime, AccessState.now_atTime, id]
        rw [missed]
        refine Runs.bind_ok
          ((reads_readPermission _ _ _ _ _ _).mpr ⟨now, later, given.symm, rfl⟩) ?_
        exact (runs_await_bind (fun _ => ()) _ fun _ => rfl).mpr
          ⟨now, le_refl _, Runs.pure_iff.mpr ⟨rfl, rfl⟩⟩
    | @refused failure looked now first later missed given =>
        refine ⟨looked, first, ?_⟩
        dsimp only [AccessState.permissionCache_atTime, AccessState.now_atTime, id]
        rw [missed]
        exact Runs.bind_error
          ((reads_readPermission _ _ _ _ _ _).mpr ⟨now, later, given.symm, rfl⟩)

/-! ## Answers of the store -/

/-- The answer about a file is whether the store permits the operation. -/
theorem eq_of_evaluateFile {db : Database} {id : FileId} {answer : Bool}
    (given : evaluateFile db userId id operation = .ok answer) :
    answer = decide (db.Permits userId id operation) := by
  unfold evaluateFile at given
  split at given
  · rename_i absent
    rw [← Except.ok.inj given]
    exact (decide_eq_false (Database.not_permits_of_absent absent)).symm
  · rename_i file found
    split at given
    · rename_i owner
      rw [← Except.ok.inj given]
      exact (decide_eq_true (Database.permits_of_owner found owner)).symm
    · rename_i stranger
      cases plain : textParameter userId with
      | error failure =>
          rw [plain] at given
          cases given
      | ok user =>
          rw [plain] at given
          obtain rfl := eq_of_textParameter plain
          rw [← Except.ok.inj given,
            Bool.decide_congr (Database.permits_iff_of_stranger found stranger),
            Bool.decide_eq_true]

theorem evaluate_of_parse {db : Database} {id : FileId} (spells : Uuid.parse fileId = some id) :
    evaluate db userId fileId operation = evaluateFile db userId id operation := by
  rw [evaluate, uuidParameter_eq_ok_iff.mpr spells]
  rfl

/-- The store answers for the file that the text spells. -/
theorem eq_of_evaluate {db : Database} {answer : Bool}
    (given : evaluate db userId fileId operation = .ok answer) :
    ∃ id, Uuid.parse fileId = some id ∧ answer = decide (db.Permits userId id operation) := by
  cases parameter : uuidParameter fileId with
  | error failure =>
      rw [evaluate, parameter] at given
      cases given
  | ok id =>
      have spells := uuidParameter_eq_ok_iff.mp parameter
      rw [evaluate_of_parse spells] at given
      exact ⟨id, spells, eq_of_evaluateFile given⟩

end DistributedFileStorage.Access
