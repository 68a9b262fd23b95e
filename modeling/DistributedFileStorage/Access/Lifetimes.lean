import DistributedFileStorage.Access.Coherence

/-!
# Cached answers and the life of a file

A file is created when its upload is finalized and deleted through the gateway. Neither removes
an answer from the permission cache. So a refusal from before the creation still keeps the owner
out, and an answer that let a user in still does after the deletion, also when the identifier
has been given to a new file. The answers under all spellings of the identifier stay.

The answers are current as long as no file is created or deleted while a live answer contradicts
what the store says afterwards (`answers_current`).
-/

set_option autoImplicit false

namespace DistributedFileStorage.Access

open Async Store Services Caching Encoding Relational Relation Database

/-! ## Histories -/

/-- A check, or the creation or deletion of a file. -/
inductive LifetimeCall where
  | check (query : Query)
  | createFile (file : FileRecord)
  | deleteFile (fileId : FileId)

/-- A call of a history. Between the calls time may pass. -/
inductive LifetimeStep (asked : Query → Prop) (fits : LifetimeCall → AccessState → Prop) :
    AccessState → AccessState → Prop where
  | check {before after : AccessState} {outcome : access.Outcome Bool} (query : Query)
      (member : asked query) (run : Runs timed query.check before outcome after)
      (fitting : fits (.check query) before) : LifetimeStep asked fits before after
  | createFile {before : AccessState} (file : FileRecord)
      (fitting : fits (.createFile file) before) :
      LifetimeStep asked fits before
        { before with world := (StoreOp.exec before.world (.createFile file)).2 }
  | deleteFile {before : AccessState} (fileId : FileId)
      (fitting : fits (.deleteFile fileId) before) :
      LifetimeStep asked fits before
        { before with world := (StoreOp.exec before.world (.deleteFile fileId)).2 }
  | elapse {before : AccessState} (duration : ℕ) :
      LifetimeStep asked fits before (before.elapse duration)

/-- A new file finds no live refusal of its owner, a deletion finds no live answer that lets
someone in, and the queries that share a key with one that the store answers have its answer. -/
def Uncontradicted (asked : Query → Prop) : LifetimeCall → AccessState → Prop
  | .check query, state => ∀ answer, query.answer state.world.store = .ok answer →
      ∀ other, asked other → other.key = query.key →
        other.permitted state.world.store = answer
  | .createFile file, state => state.world.store.getFile file.fileId = none →
      ∀ query, asked query → Uuid.parse query.fileId = some file.fileId →
        query.userId = file.ownerId →
          state.permissionCache.lookup state.now query.key ≠ some false
  | .deleteFile fileId, state => ∀ query, asked query → Uuid.parse query.fileId = some fileId →
      state.permissionCache.lookup state.now query.key ≠ some true

/-! ## What a creation and a deletion change -/

variable {asked : Query → Prop} {before after : AccessState}

theorem absent_of_createFile {db created : Database} {file : FileRecord}
    (done : db.createFile file = .ok created) : db.getFile file.fileId = none :=
  Table.find?_eq_none_iff.mpr (Database.createFile_ok done).1

/-- A new file is permitted to its owner and to nobody else, since no row can have been there
before it. -/
theorem permitted_createFile {db created : Database} {file : FileRecord}
    (done : db.createFile file = .ok created) (query : Query) :
    query.permitted created =
      if Uuid.parse query.fileId = some file.fileId then decide (query.userId = file.ownerId)
      else query.permitted db := by
  obtain ⟨absent, _, _, rfl⟩ := Database.createFile_ok done
  split
  · rename_i here
    rw [Query.permitted_of_parse here]
    refine decide_eq_decide.mpr ?_
    have found : (db.files.insertIfAbsent file).find? file.fileId = some file :=
      Table.find?_insertIfAbsent_self absent
    constructor
    · rintro ⟨other, same, owner | ⟨row, granted, _⟩⟩
      · obtain rfl := Option.some.inj (found.symm.trans same)
        exact owner.symm
      · obtain ⟨member, key⟩ := Table.find?_eq_some_iff.mp granted
        have stored := db.permissionFile row member
        rw [(Prod.mk.inj key).1] at stored
        exact absurd stored absent
    · intro owner
      exact ⟨file, found, .inl owner.symm⟩
  · rename_i elsewhere
    refine Query.permitted_congr fun id spells => ⟨?_, rfl⟩
    refine Table.find?_insertIfAbsent_of_ne fun same => elsewhere ?_
    rw [spells, same]

/-- Nothing is permitted on a deleted file. -/
theorem permitted_deleteFile (db : Database) (fileId : FileId) (query : Query) :
    query.permitted (db.deleteFile fileId) =
      if Uuid.parse query.fileId = some fileId then false else query.permitted db := by
  split
  · rename_i here
    rw [Query.permitted_of_parse here]
    exact decide_eq_false (not_permits_of_absent Table.find?_delete_self)
  · rename_i elsewhere
    refine Query.permitted_congr fun id spells => ?_
    have different : id ≠ fileId := fun same => elsewhere (spells.trans (congrArg some same))
    refine ⟨Table.find?_delete_of_ne different, Table.find?_congr fun row key => ?_⟩
    have other : row.fileId ≠ fileId := fun same => different ((Prod.mk.inj key).1.symm.trans same)
    simp [Database.deleteFile, other]

/-- **A step that contradicts no live answer keeps the cache coherent.** -/
theorem LifetimeStep.coherent (step : LifetimeStep asked (Uncontradicted asked) before after)
    (coherent : Coherent asked before) : Coherent asked after := by
  cases step with
  | check query member run fitting => exact coherent.check fitting (runs_checkPermission_iff.mp run)
  | createFile file fitting =>
      refine TimedCache.Sound.change coherent fun key answer live holds query asks same => ?_
      show answer =
        query.permitted (before.world.commit (before.world.store.createFile file)).2.store
      cases created : before.world.store.createFile file with
      | error failure => exact holds query asks same
      | ok db =>
          refine Eq.trans ?_ (permitted_createFile created query).symm
          split
          · rename_i here
            subst same
            have absent := absent_of_createFile created
            have refused : answer = false := by
              rw [holds query asks rfl, Query.permitted_of_parse here]
              exact decide_eq_false (not_permits_of_absent absent)
            rw [refused]
            refine (decide_eq_false fun owner => ?_).symm
            exact fitting absent query asks here owner (refused ▸ live)
          · exact holds query asks same
  | deleteFile fileId fitting =>
      refine TimedCache.Sound.change coherent fun key answer live holds query asks same => ?_
      show answer = query.permitted (before.world.store.deleteFile fileId)
      rw [permitted_deleteFile]
      split
      · rename_i here
        subst same
        refine Bool.eq_false_iff.mpr fun granted => ?_
        exact fitting query asks here (granted ▸ live)
      · exact holds query asks same
  | elapse duration =>
      exact TimedCache.Sound.elapse coherent (before.now_le_elapse duration)

/-- The text spells a file of the user. -/
def OwnedBy (db : Database) (query : Query) : Prop := ∃ id, Owns db query.userId query.fileId id

/-- The text spells no file, or one of another user, and there is no row for the user. -/
def Unlisted (db : Database) (query : Query) : Prop :=
  ∀ id file, Uuid.parse query.fileId = some id → db.getFile id = some file →
    file.ownerId ≠ query.userId ∧ db.filePermissions.find? (id, query.userId) = none

theorem permitted_of_ownedBy {db : Database} {query : Query} (owned : OwnedBy db query) :
    query.permitted db = true := by
  obtain ⟨id, spells, file, found, owner⟩ := owned
  rw [Query.permitted_of_parse spells]
  exact decide_eq_true (permits_of_owner found owner)

/-- The store does not refuse an owner. -/
theorem answer_of_ownedBy {db : Database} {query : Query} (owned : OwnedBy db query) :
    query.answer db = .ok true := by
  obtain ⟨id, spells, file, found, owner⟩ := owned
  rw [Query.answer, evaluate_of_parse spells, evaluateFile, found]
  exact if_pos owner

theorem permitted_of_unlisted {db : Database} {query : Query} (unlisted : Unlisted db query) :
    query.permitted db = false := by
  cases spells : Uuid.parse query.fileId with
  | none => exact Query.permitted_of_unparsed spells
  | some id =>
      rw [Query.permitted_of_parse spells]
      refine decide_eq_false ?_
      rintro ⟨file, found, owner | ⟨row, granted, _⟩⟩
      · exact (unlisted id file spells found).1 owner
      · cases (unlisted id file spells found).2.symm.trans granted

/-- **The answers are current**: as long as no creation and no deletion contradicts a live answer,
an owner is let in, and nobody else is without a row of permissions, least of all to a
file that does not exist. Only the store refuses. -/
theorem answers_current {start reached : AccessState} {query : Query}
    (empty : start.permissionCache = TimedCache.empty)
    (history : ReflTransGen (LifetimeStep asked (Uncontradicted asked)) start reached)
    (asks : asked query) {outcome : access.Outcome Bool}
    (check : Runs timed query.check reached outcome after) :
    (OwnedBy reached.world.store query → outcome = .ok true) ∧
      (Unlisted reached.world.store query → outcome = .ok false ∨
        ∃ failure, query.answer reached.world.store = .error failure ∧
          outcome = .error failure) := by
  have coherent : Coherent asked reached := by
    clear check
    induction history with
    | refl => exact coherent_of_empty empty
    | tail _ step ih => exact step.coherent ih
  obtain ⟨answered, refused⟩ := coherent.answers asks (runs_checkPermission_iff.mp check)
  cases outcome with
  | ok answer =>
      rw [answered answer rfl]
      exact ⟨fun owned => congrArg Except.ok (permitted_of_ownedBy owned),
        fun unlisted => .inl (congrArg Except.ok (permitted_of_unlisted unlisted))⟩
  | error failure =>
      have given := refused failure rfl
      refine ⟨fun owned => ?_, fun _ => .inr ⟨failure, given, rfl⟩⟩
      exact nomatch (answer_of_ownedBy owned).symm.trans given

/-! ## A file with two owners, and a file that is created too late -/

/-- A file for its owner. -/
def fileOf (ownerId : UserId) : FileRecord :=
  { fileId := notes, fileName := "notes", ownerId := ownerId, currentVersion := 0, totalSize := 0,
    createdAt := 0, updatedAt := 0, retentionDays := 30 }

/-- What the owner asks. -/
def readsNotes (userId : UserId) : Query := ⟨userId, notes.text, .read⟩

/-- The owner has asked, and five minutes have passed. -/
def ownerAsked : AccessState :=
  ((readsNotes "owner").check.run accessExec (.fresh (World.ofFile notes) 0)).2.elapse 300000

/-- The owner has deleted the file, and another one has created a file under its identifier. -/
def nextOwner : AccessState :=
  { ownerAsked with
    world := (StoreOp.exec (StoreOp.exec ownerAsked.world (.deleteFile notes)).2
      (.createFile (fileOf "ada"))).2 }

theorem unlisted_nextOwner : Unlisted nextOwner.world.store (readsNotes "owner") := by
  intro id file spells found
  obtain rfl := Option.some.inj ((Uuid.parse_text notes).symm.trans spells)
  have stored : nextOwner.world.store.getFile notes = some (fileOf "ada") := by decide +kernel
  obtain rfl := Option.some.inj (stored.symm.trans found)
  exact ⟨by decide, by decide +kernel⟩

/-- The first owner deletes the file five minutes after the last answer, and is kept out of the
file that another owner then creates under its identifier. -/
theorem answers_current_next_owner :
    ∃ after, Runs timed (readsNotes "owner").check nextOwner (.ok false) after := by
  let asked : Query → Prop := (· = readsNotes "owner")
  have unchecked : ∀ state, Uncontradicted asked (.check (readsNotes "owner")) state := by
    rintro state answer given other rfl _
    exact (Query.permitted_of_answer given).symm
  have history := ReflTransGen.refl (r := LifetimeStep asked (Uncontradicted asked))
      (a := AccessState.fresh (World.ofFile notes) 0)
    |>.tail (.check (readsNotes "owner") rfl (runs_timed _ _) (unchecked _))
    |>.tail (.elapse 300000)
    |>.tail (.deleteFile notes (by
      rintro query rfl _
      decide +kernel))
    |>.tail (.createFile (fileOf "ada") (by
      rintro _ query rfl _
      decide +kernel))
  have check := runs_timed (readsNotes "owner").check nextOwner
  rcases (answers_current rfl history rfl check).2 unlisted_nextOwner with
    refused | ⟨failure, given, _⟩
  · rw [refused] at check
    exact ⟨_, check⟩
  · have answer : (readsNotes "owner").answer nextOwner.world.store = .ok false := by
      decide +kernel
    cases answer.symm.trans given

/-- **An owner who was refused before the file was created is refused afterwards.** -/
theorem answers_stale_refusal :
    ¬ ∀ (start reached after : AccessState) (query : Query) (outcome : access.Outcome Bool),
      start.permissionCache = TimedCache.empty →
      ReflTransGen (LifetimeStep (fun _ => True) fun _ _ => True) start reached →
      Runs timed query.check reached outcome after →
      OwnedBy reached.world.store query → outcome = .ok true := by
  intro claim
  have history := ReflTransGen.refl (r := LifetimeStep (fun _ => True) fun _ _ => True)
      (a := AccessState.fresh (World.ofStore .empty) 0)
    |>.tail (.check (readsNotes "ada") trivial (runs_timed _ _) trivial)
    |>.tail (.createFile (fileOf "ada") trivial)
  have owned := claim _ _ _ _ _ rfl history (runs_timed (readsNotes "ada").check _)
    ⟨notes, Uuid.parse_text notes, fileOf "ada", by decide +kernel, rfl⟩
  exact absurd owned (by decide +kernel)

/-- A user who was let in before the file was deleted is let in afterwards. -/
example :
    let owned := AccessState.fresh (World.ofFile notes) 0
    let answered := ((readsNotes "owner").check.run accessExec owned).2
    ((readsNotes "owner").check.run accessExec
      { answered with
        world := (StoreOp.exec answered.world (.deleteFile notes)).2 }).1 = .ok true := by
  decide +kernel

end DistributedFileStorage.Access
