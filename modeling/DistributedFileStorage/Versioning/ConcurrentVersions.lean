import DistributedFileStorage.Async.Histories
import DistributedFileStorage.Async.OwnCalls
import DistributedFileStorage.Versioning.Numbering
import Mathlib.Data.Int.Interval

/-!
# Creating versions of one file next to each other

A call of `createVersion` counts the versions, inserts one and then writes its number into the
file. Calls that run next to each other never insert one number twice, since the second insertion
is refused, but they can write the numbers in another order than they have inserted them. The file
carries the greatest number in the end exactly when the call that inserts last also writes last
(`current_iff_lastInsertsLast`).
-/

set_option autoImplicit false

namespace DistributedFileStorage.Versioning

open Async Store Services Deduplication Relational Database

variable {ι : Type} {fileId : FileId}

/-! ## The statements of the calls -/

/-- A call of `createVersion`. -/
structure VersionRequest where
  chunkHashes : List ChunkHash
  userId : UserId
  now : Time

def VersionRequest.program (fileId : FileId) (request : VersionRequest) : Async FileVersion :=
  VersionManager.createVersion fileId request.chunkHashes request.userId request.now

/-- The statement inserts a version. -/
def inserts (event : Event system ι World) : Bool :=
  match event.op with
  | .store (.createFileVersion _) => !event.fails
  | _ => false

/-- The statement writes the current version of a file. -/
def updates (event : Event system ι World) : Bool :=
  match event.op with
  | .store (.updateFile _ _) => true
  | _ => false

/-- The number that the statement inserts or writes. -/
def number (event : Event system ι World) : ℤ :=
  match event.op with
  | .store (.createFileVersion version) => version.version
  | .store (.updateFile _ updates) => updates.currentVersion.getD 0
  | _ => 0

/-- The numbers of the versions of a file. -/
def versionNumbers (fileId : FileId) (db : Database) : List ℤ :=
  (db.listFileVersions fileId).map FileVersionRecord.version

/-- The task that makes the last statement of a kind. -/
def lastTask (test : Event system ι World → Bool) (history : List (Event system ι World)) :
    Option ι :=
  (history.filter test).getLast?.map Event.task

/-- The statements of a call that neither insert a version nor write its number. -/
inductive CountingCall : Call → Prop where
  | getChunk (chunkHash : ChunkHash) : CountingCall (.store (.getChunk chunkHash))
  | incrementChunkReference (chunkHash : ChunkHash) (fileId : FileId) :
      CountingCall (.store (.incrementChunkReference chunkHash fileId))

theorem allCalls_computeTotalSize (chunkHashes : List ChunkHash) :
    (computeTotalSize chunkHashes).AllCalls CountingCall := by
  refine Program.AllCalls.foldEach (fun totalSize chunkHash _ => ?_) 0
  refine .bind (.perform (.getChunk chunkHash)) fun chunk => ?_
  cases chunk <;> trivial

theorem allCalls_incrementReference (chunkHash : ChunkHash) :
    (DeduplicationEngine.incrementReference chunkHash fileId).AllCalls CountingCall := by
  refine .bind (.perform (.getChunk chunkHash)) fun chunk => ?_
  cases chunk with
  | none => trivial
  | some chunk => exact .perform (.incrementChunkReference chunkHash fileId)

/-! ## What a call has done before each of its statements -/

/-- The call has counted the versions, and has inserted none. -/
structure Counted (fileId : FileId) (version : ℤ) (calls : List (Event system ι World)) : Prop where
  listed : ∃ listing ∈ calls,
    version = (listing.before.store.listFileVersions fileId).length + 1
  none : ∀ event ∈ calls, inserts event = false

/-- The call has inserted the version with a number. -/
def Inserted (version : ℤ) (calls : List (Event system ι World)) : Prop :=
  ∃ creation ∈ calls, inserts creation = true ∧ number creation = version

/-- The statements of `createVersion`, after those that the call has made so far. -/
inductive VersionRule (fileId : FileId) (calls : List (Event system ι World)) : Call → Prop where
  | listFileVersions : VersionRule fileId calls (.store (.listFileVersions fileId))
  | counting {op : Call} (counts : CountingCall op) : VersionRule fileId calls op
  | createFileVersion (version : FileVersionRecord) (own : version.fileId = fileId)
      (counted : Counted fileId version.version calls) :
      VersionRule fileId calls (.store (.createFileVersion version))
  | updateFile (updates : FileUpdate) (version : ℤ) (writes : updates.currentVersion = some version)
      (inserted : Inserted version calls) :
      VersionRule fileId calls (.store (.updateFile fileId updates))

theorem Counted.append {version : ℤ} {calls : List (Event system ι World)}
    (counted : Counted fileId version calls) {event : Event system ι World}
    (other : inserts event = false) : Counted fileId version (calls ++ [event]) where
  listed := by
    obtain ⟨listing, member, counts⟩ := counted.listed
    exact ⟨listing, List.mem_append_left _ member, counts⟩
  none := by
    intro made member
    rcases List.mem_append.mp member with old | new
    · exact counted.none made old
    · rw [List.mem_singleton.mp new]
      exact other

theorem Inserted.append {version : ℤ} {calls : List (Event system ι World)}
    (inserted : Inserted version calls) (event : Event system ι World) :
    Inserted version (calls ++ [event]) := by
  obtain ⟨creation, member, holds⟩ := inserted
  exact ⟨creation, List.mem_append_left _ member, holds⟩

theorem CountingCall.not_inserts {op : Call} (counts : CountingCall op) {task : ι}
    {outcome : system.Outcome op.Result} {before after : World} :
    inserts ⟨task, op, outcome, before, after⟩ = false := by
  cases counts <;> rfl

theorem inserted_append (calls : List (Event system ι World)) {task : ι}
    {version : FileVersionRecord} {before after : World} :
    Inserted version.version
      (calls ++ [⟨task, .store (.createFileVersion version), .ok (), before, after⟩]) :=
  ⟨_, List.mem_append_right _ (List.mem_singleton_self _), rfl, rfl⟩

theorem follows_incrementReferences [DecidableEq ι] {task : ι} {version : ℤ}
    {calls : List (Event system ι World)} (inserted : Inserted version calls)
    (chunkHashes : List ChunkHash) {rejected : List (Event system ι World) → Prop} :
    Follows exec.semantics (fun _ => VersionRule fileId) task
      (Program.forEach (fun hash => (DeduplicationEngine.incrementReference hash fileId).attempt)
        chunkHashes) calls (fun _ => Inserted version) rejected := by
  refine .forEach (fun chunkHash calls held => .attempt ?_) inserted
  refine .of_allCalls (fun calls op counts held => ?_) (allCalls_incrementReference chunkHash) held
  exact ⟨.counting counts, fun _ _ _ _ => held.append _⟩

/-- A call of `createVersion` that resolves has inserted the version and written its number, and one
that rejects has inserted nothing. -/
theorem follows_createVersion [DecidableEq ι] (task : ι) (request : VersionRequest) :
    Follows exec.semantics (fun _ => VersionRule fileId) task (request.program fileId) []
      (fun version calls => Inserted version.version calls ∧
        ∃ update ∈ calls, updates update = true)
      fun calls => ∀ event ∈ calls, inserts event = false := by
  refine .bind (.perform_ok .listFileVersions (fun _ => rfl) fun listed => ?_)
  have counted : Counted fileId ((listed.store.listFileVersions fileId).length + 1)
      [(⟨task, .store (.listFileVersions fileId), .ok (listed.store.listFileVersions fileId),
        listed, listed⟩ : Event system ι World)] :=
    ⟨⟨_, List.mem_singleton_self _, rfl⟩, fun event member => by
      rw [List.mem_singleton.mp member]
      rfl⟩
  refine .bind (((Follows.of_allCalls ?counting
    (allCalls_computeTotalSize request.chunkHashes) counted).consequence ?_ fun _ => Counted.none))
  case counting =>
    exact fun calls op counts held =>
      ⟨.counting counts, fun _ _ _ _ => held.append counts.not_inserts⟩
  intro totalSize summed held
  refine .bind (.perform (.createFileVersion _ rfl held) fun before outcome after happens => ?_)
  cases outcome with
  | error failure =>
      intro event member
      exact (held.append rfl).none event member
  | ok inserted =>
      dsimp only [Ends]
      refine .bind ((follows_incrementReferences (inserted_append summed) _).consequence ?_
        fun _ => id)
      intro _ later inserted
      refine .bind (.perform_ok (.updateFile _ _ rfl inserted) (fun _ => rfl) fun before => ?_)
      exact .pure ⟨inserted.append _, _, List.mem_append_right _ (List.mem_singleton_self _), rfl⟩

/-! ## The numbers in the order of the insertions -/

/-- A run of the calls on one file. -/
abbrev VersionRun [DecidableEq ι] (fileId : FileId) (origin : World)
    (moment : Moment system ι World) : Prop :=
  LawfulRun exec.semantics (fun history task => VersionRule fileId (callsOf task history)) origin
    moment

/-- The versions of the file are those from 1 up to some number. -/
def NumberedUpTo (fileId : FileId) (last : ℕ) (db : Database) : Prop :=
  ∀ n : ℤ, n ∈ versionNumbers fileId db ↔ 1 ≤ n ∧ n ≤ last

theorem NumberedUpTo.length {last : ℕ} {db : Database} (numbered : NumberedUpTo fileId last db) :
    (db.listFileVersions fileId).length = last := by
  have distinct : (versionNumbers fileId db).Nodup := db.nodup_version_listFileVersions fileId
  have range : (versionNumbers fileId db).toFinset = Finset.Icc 1 (last : ℤ) := by
    ext n
    simpa using numbered n
  have counted := congrArg Finset.card range
  rw [List.toFinset_card_of_nodup distinct, Int.card_Icc] at counted
  rw [versionNumbers, List.length_map] at counted
  omega

theorem versionNumbers_congr {first second : Database}
    (same : first.fileVersions = second.fileVersions) :
    versionNumbers fileId first = versionNumbers fileId second := by
  unfold versionNumbers listFileVersions
  rw [same]

/-- **Each insertion takes the next number**, and the file carries the number that was written
last. -/
structure InOrder (fileId : FileId) (k : ℕ) (moment : Moment system ι World) : Prop where
  numbers : (moment.history.filter inserts).map number =
    (List.range (moment.history.filter inserts).length).map fun i : ℕ => (k : ℤ) + i + 1
  tasks : ((moment.history.filter inserts).map Event.task).Nodup
  stored : NumberedUpTo fileId (k + (moment.history.filter inserts).length) moment.state.store
  grown : ∀ event ∈ moment.history, (event.before.store.listFileVersions fileId).length ≤
    (moment.state.store.listFileVersions fileId).length
  file : ∃ file, moment.state.store.getFile fileId = some file ∧
    file.currentVersion = ((moment.history.filter updates).getLast?.map number).getD k
  written : ∀ update ∈ moment.history, updates update = true →
    ∃ creation ∈ moment.history, inserts creation = true ∧ number creation = number update ∧
      creation.task = update.task

namespace InOrder

variable {k : ℕ} {moment : Moment system ι World} {task : ι} {op : Call}
  {outcome : system.Outcome op.Result} {after : World}

theorem start {world : World} {file : FileRecord} (found : world.store.getFile fileId = some file)
    (current : file.currentVersion = k) (numbered : NumberedUpTo fileId k world.store) :
    InOrder fileId k (.start world : Moment system ι World) where
  numbers := rfl
  tasks := List.nodup_nil
  stored := numbered
  grown := fun _ member => nomatch member
  file := ⟨file, found, current⟩
  written := fun _ member => nomatch member

/-- What was written stays written. -/
theorem written_next (order : InOrder fileId k moment)
    (here : updates ⟨task, op, outcome, moment.state, after⟩ = true →
      ∃ creation ∈ moment.history, inserts creation = true ∧
        number creation = number (⟨task, op, outcome, moment.state, after⟩ : Event system ι World) ∧
        creation.task = task) :
    ∀ update ∈ (moment.next task op outcome after).history, updates update = true →
      ∃ creation ∈ (moment.next task op outcome after).history, inserts creation = true ∧
        number creation = number update ∧ creation.task = update.task := by
  intro update member writes
  rcases List.mem_append.mp member with old | new
  · obtain ⟨creation, made, holds⟩ := order.written update old writes
    exact ⟨creation, List.mem_append_left _ made, holds⟩
  · obtain rfl := List.mem_singleton.mp new
    obtain ⟨creation, made, holds⟩ := here writes
    exact ⟨creation, List.mem_append_left _ made, holds⟩

/-- A statement that inserts nothing. -/
theorem next (order : InOrder fileId k moment)
    (inserting : inserts ⟨task, op, outcome, moment.state, after⟩ = false)
    (versions : after.store.fileVersions = moment.state.store.fileVersions)
    (file : ∃ file, after.store.getFile fileId = some file ∧ file.currentVersion =
      (((moment.next task op outcome after).history.filter updates).getLast?.map number).getD k)
    (here : updates ⟨task, op, outcome, moment.state, after⟩ = true →
      ∃ creation ∈ moment.history, inserts creation = true ∧
        number creation = number (⟨task, op, outcome, moment.state, after⟩ : Event system ι World) ∧
        creation.task = task) :
    InOrder fileId k (moment.next task op outcome after) := by
  have kept : (moment.next task op outcome after).history.filter inserts =
      moment.history.filter inserts := by simp [inserting]
  have same : after.store.listFileVersions fileId = moment.state.store.listFileVersions fileId := by
    unfold listFileVersions
    rw [versions]
  exact
    { numbers := by
        rw [kept]
        exact order.numbers
      tasks := by
        rw [kept]
        exact order.tasks
      stored := by
        rw [kept, NumberedUpTo, Moment.state_next, versionNumbers_congr versions]
        exact order.stored
      grown := fun event member => by
        rw [Moment.state_next, same]
        rcases List.mem_append.mp member with old | new
        · exact order.grown event old
        · rw [List.mem_singleton.mp new]
      file := file
      written := order.written_next here }

/-- A statement that neither inserts nor writes. -/
theorem quiet (order : InOrder fileId k moment)
    (inserting : inserts ⟨task, op, outcome, moment.state, after⟩ = false)
    (writing : updates ⟨task, op, outcome, moment.state, after⟩ = false)
    (versions : after.store.fileVersions = moment.state.store.fileVersions)
    (files : after.store.files = moment.state.store.files) :
    InOrder fileId k (moment.next task op outcome after) := by
  refine order.next inserting versions ?_ fun writes => absurd (writing.symm.trans writes) nofun
  obtain ⟨file, found, current⟩ := order.file
  refine ⟨file, ?_, ?_⟩
  · rw [getFile, files]
    exact found
  · simpa [writing] using current

/-- An insertion that is accepted takes the next number. -/
theorem insert (order : InOrder fileId k moment) {version : FileVersionRecord}
    (own : version.fileId = fileId)
    (listed : ∃ listing ∈ moment.history,
      version.version = (listing.before.store.listFileVersions fileId).length + 1)
    (first : task ∉ (moment.history.filter inserts).map Event.task) {db : Database}
    (created : moment.state.store.createFileVersion version = .ok db) :
    InOrder fileId k (moment.next task (.store (.createFileVersion version)) (.ok ())
      (moment.state.setStore db)) := by
  obtain ⟨listing, member, counted⟩ := listed
  obtain ⟨absent, _⟩ := createFileVersion_ok created
  have before := order.grown listing member
  rw [order.stored.length] at before
  have free : version.version ∉ versionNumbers fileId moment.state.store := by
    intro taken
    obtain ⟨other, otherMember, same⟩ := List.mem_map.mp taken
    obtain ⟨row, file⟩ := mem_listFileVersions.mp otherMember
    refine absent (Table.mem_keys.mpr ⟨other, row, ?_⟩)
    rw [FileVersionRecord.primaryKey, FileVersionRecord.primaryKey, same, file, own]
  -- the count that the call has seen is still the number of versions
  have next : version.version = k + (moment.history.filter inserts).length + 1 := by
    rw [order.stored] at free
    push_cast at free
    omega
  have stored : ∀ n, n ∈ versionNumbers fileId db ↔
      n ∈ versionNumbers fileId moment.state.store ∨ n = version.version := by
    intro n
    simp only [versionNumbers, List.mem_map, mem_listFileVersions,
      mem_fileVersions_createFileVersion created]
    constructor
    · rintro ⟨other, ⟨old | rfl, file⟩, rfl⟩
      · exact .inl ⟨other, ⟨old, file⟩, rfl⟩
      · exact .inr rfl
    · rintro (⟨other, ⟨old, file⟩, rfl⟩ | rfl)
      · exact ⟨other, ⟨.inl old, file⟩, rfl⟩
      · exact ⟨_, ⟨.inr rfl, own⟩, rfl⟩
  have numbered : NumberedUpTo fileId (k + ((moment.history.filter inserts).length + 1)) db := by
    intro n
    rw [stored, order.stored, next]
    push_cast
    omega
  have appended : (moment.next task (.store (.createFileVersion version)) (.ok ())
      (moment.state.setStore db)).history.filter inserts = moment.history.filter inserts ++
        [⟨task, .store (.createFileVersion version), .ok (), moment.state,
          moment.state.setStore db⟩] := by
    rw [Moment.history_next, List.filter_append]
    rfl
  refine ⟨?_, ?_, ?_, fun event present => ?_, ?_, order.written_next nofun⟩
  · rw [appended, List.map_append, order.numbers, List.length_append, List.length_singleton,
      List.range_succ, List.map_append]
    exact congrArg₂ (· ++ ·) rfl (congrArg (fun n => [n]) next)
  · rw [appended, List.map_append]
    exact List.nodup_append.mpr ⟨order.tasks, List.nodup_singleton _, fun other taken _ last => by
      rw [List.mem_singleton.mp last]
      rintro rfl
      exact first taken⟩
  · rw [appended, List.length_append]
    exact numbered
  · have length := numbered.length
    rw [Moment.state_next, World.store_setStore, length]
    rcases List.mem_append.mp present with old | new
    · have grown := order.grown event old
      rw [order.stored.length] at grown
      omega
    · rw [List.mem_singleton.mp new, order.stored.length]
      omega
  · obtain ⟨file, found, current⟩ := order.file
    refine ⟨file, ?_, ?_⟩
    · rw [Moment.state_next, World.store_setStore, getFile, files_createFileVersion created]
      exact found
    · rw [Moment.history_next, List.filter_append]
      simpa [updates] using current

/-- A call that has inserted a version writes its number. -/
theorem update (order : InOrder fileId k moment) {changes : FileUpdate} {version : ℤ}
    (writes : changes.currentVersion = some version)
    (inserted : ∃ creation ∈ moment.history, inserts creation = true ∧ number creation = version ∧
      creation.task = task) :
    InOrder fileId k (moment.next task (.store (.updateFile fileId changes)) (.ok ())
      (moment.state.setStore (moment.state.store.updateFile fileId changes))) := by
  refine order.next rfl rfl ?_ fun _ => ?_
  · obtain ⟨file, found, _⟩ := order.file
    refine ⟨changes.apply file, ?_, ?_⟩
    · rw [World.store_setStore, getFile_updateFile_self, found]
      rfl
    · rw [Moment.history_next, List.filter_append]
      simp [updates, number, FileUpdate.apply, writes]
  · obtain ⟨creation, member, inserts, same, own⟩ := inserted
    exact ⟨creation, member, inserts, same.trans (by simp [number, writes]), own⟩

end InOrder

/-- **In every run the numbers are in the order of the insertions.** -/
theorem VersionRun.inOrder [DecidableEq ι] {k : ℕ} {origin : World} {moment : Moment system ι World}
    (run : VersionRun fileId origin moment)
    (start : InOrder fileId k (.start origin : Moment system ι World)) :
    InOrder fileId k moment := by
  induction run with
  | start => exact start
  | @next before task op outcome after earlier keeps happens order =>
      cases keeps with
      | listFileVersions =>
          obtain ⟨rfl, rfl⟩ := Prod.mk.inj happens
          exact order.quiet rfl rfl rfl rfl
      | counting counts =>
          cases counts with
          | getChunk chunkHash =>
              obtain ⟨rfl, rfl⟩ := Prod.mk.inj happens
              exact order.quiet rfl rfl rfl rfl
          | incrementChunkReference chunkHash file =>
              obtain ⟨rfl, rfl⟩ := Prod.mk.inj happens
              exact order.quiet rfl rfl rfl rfl
      | createFileVersion version own counted =>
          rcases World.commit_cases happens with ⟨failure, _, rfl, rfl⟩ | ⟨db, created, rfl, rfl⟩
          · exact order.quiet rfl rfl rfl rfl
          · obtain ⟨listing, member, same⟩ := counted.listed
            refine order.insert own ⟨listing, (mem_callsOf.mp member).1, same⟩ (fun taken => ?_)
              created
            obtain ⟨event, made, here⟩ := List.mem_map.mp taken
            obtain ⟨past, inserting⟩ := List.mem_filter.mp made
            have none := counted.none event (mem_callsOf.mpr ⟨past, here⟩)
            exact absurd (none.symm.trans inserting) nofun
      | updateFile changes version writes inserted =>
          obtain ⟨rfl, rfl⟩ := Prod.mk.inj happens
          obtain ⟨creation, member, inserting, same⟩ := inserted
          obtain ⟨past, here⟩ := mem_callsOf.mp member
          exact order.update writes ⟨creation, past, inserting, same, here⟩

/-! ## The current version of the file -/

/-- The task has inserted the version with a number. -/
def Creates (history : List (Event system ι World)) (task : ι) (version : ℤ) : Prop :=
  ∃ creation ∈ history, creation.task = task ∧ inserts creation = true ∧ number creation = version

/-- Every call that resolves has inserted a version whose number no other call has inserted. -/
def UniqueNumbers (after : Pool system ι FileVersion) (history : List (Event system ι World)) :
    Prop :=
  ∀ task version, after task = .done (.ok version) → Creates history task version.version ∧
    ∀ other, Creates history other version.version → other = task

/-- The file carries the greatest number of its versions. -/
def CurrentIsGreatest (fileId : FileId) (db : Database) : Prop :=
  ∃ file, db.getFile fileId = some file ∧
    (∀ n ∈ versionNumbers fileId db, n ≤ file.currentVersion) ∧
    (versionNumbers fileId db ≠ [] → file.currentVersion ∈ versionNumbers fileId db)

/-- Every call that has started has settled. -/
def Finished (after : Pool system ι FileVersion) (history : List (Event system ι World)) : Prop :=
  ∀ event ∈ history, (after event.task).isSettled = true

theorem NumberedUpTo.currentIsGreatest {last : ℕ} {db : Database}
    (numbered : NumberedUpTo fileId last db) {file : FileRecord}
    (found : db.getFile fileId = some file) (current : file.currentVersion = last) :
    CurrentIsGreatest fileId db := by
  refine ⟨file, found, fun n member => ?_, fun some => ?_⟩
  · rw [current]
    exact ((numbered n).mp member).2
  · obtain ⟨n, member⟩ := List.exists_mem_of_ne_nil _ some
    have inside := (numbered n).mp member
    exact (numbered _).mpr ⟨by omega, current.le⟩

theorem NumberedUpTo.current_eq {last : ℕ} {db : Database}
    (numbered : NumberedUpTo fileId last db) (positive : 0 < last) {file : FileRecord}
    (found : db.getFile fileId = some file) (greatest : CurrentIsGreatest fileId db) :
    file.currentVersion = last := by
  obtain ⟨other, same, above, member⟩ := greatest
  obtain rfl := Option.some.inj (same.symm.trans found)
  have atLast : (last : ℤ) ∈ versionNumbers fileId db := (numbered _).mpr ⟨by omega, le_rfl⟩
  have below := (numbered _).mp (member (List.ne_nil_of_mem atLast))
  exact le_antisymm below.2 (above _ atLast)

namespace InOrder

variable {k : ℕ} {moment : Moment system ι World}

/-- No number is inserted twice. -/
theorem eq_of_number_eq (order : InOrder fileId k moment) {first second : Event system ι World}
    (memberFirst : first ∈ moment.history) (insertsFirst : inserts first = true)
    (memberSecond : second ∈ moment.history) (insertsSecond : inserts second = true)
    (same : number first = number second) : first = second := by
  refine List.inj_on_of_nodup_map ?_ (List.mem_filter.mpr ⟨memberFirst, insertsFirst⟩)
    (List.mem_filter.mpr ⟨memberSecond, insertsSecond⟩) same
  rw [order.numbers]
  exact List.nodup_range.map fun i j equal => by simpa using equal

/-- No task inserts twice. -/
theorem eq_of_task_eq (order : InOrder fileId k moment) {first second : Event system ι World}
    (memberFirst : first ∈ moment.history) (insertsFirst : inserts first = true)
    (memberSecond : second ∈ moment.history) (insertsSecond : inserts second = true)
    (same : first.task = second.task) : first = second :=
  List.inj_on_of_nodup_map order.tasks (List.mem_filter.mpr ⟨memberFirst, insertsFirst⟩)
    (List.mem_filter.mpr ⟨memberSecond, insertsSecond⟩) same

/-- The last insertion has the greatest number. -/
theorem number_last (order : InOrder fileId k moment) {earlier : List (Event system ι World)}
    {last : Event system ι World} (split : moment.history.filter inserts = earlier ++ [last]) :
    number last = k + (moment.history.filter inserts).length := by
  have numbers := congrArg List.getLast? order.numbers
  rw [split, List.length_append, List.length_singleton, List.range_succ] at numbers
  simp only [List.map_append, List.map_cons, List.map_nil, List.getLast?_concat] at numbers
  rw [Option.some.inj numbers, split, List.length_append, List.length_singleton]
  push_cast
  omega

/-- When every call that has inserted has also written: the file carries the greatest number exactly
when the last number was written by the call that inserted last. -/
theorem currentIsGreatest_iff (order : InOrder fileId k moment)
    (writes : ∀ creation ∈ moment.history, inserts creation = true →
      ∃ update ∈ moment.history, updates update = true) :
    CurrentIsGreatest fileId moment.state.store ↔
      lastTask inserts moment.history = lastTask updates moment.history := by
  obtain ⟨file, found, current⟩ := order.file
  rcases List.eq_nil_or_concat' (moment.history.filter inserts) with none | ⟨earlier, last, split⟩
  · have quiet : moment.history.filter updates = [] := by
      refine List.filter_eq_nil_iff.mpr fun update member writing => ?_
      obtain ⟨creation, made, inserting, _⟩ := order.written update member writing
      exact List.filter_eq_nil_iff.mp none creation made inserting
    have stored := order.stored
    rw [none] at stored
    rw [quiet] at current
    refine iff_of_true (stored.currentIsGreatest found current) ?_
    rw [lastTask, lastTask, none, quiet]
  · obtain ⟨lastMember, lastInserts⟩ := List.mem_filter.mp
      (split ▸ List.mem_append_right earlier (List.mem_singleton_self last))
    obtain ⟨some, someMember, someUpdates⟩ := writes last lastMember lastInserts
    rcases List.eq_nil_or_concat' (moment.history.filter updates) with none | ⟨before, update, ends⟩
    · exact absurd someUpdates (List.filter_eq_nil_iff.mp none some someMember)
    · obtain ⟨updateMember, updateWrites⟩ := List.mem_filter.mp
        (ends ▸ List.mem_append_right before (List.mem_singleton_self update))
      obtain ⟨creation, made, inserting, same, own⟩ := order.written update updateMember updateWrites
      have lastNumber := order.number_last split
      have nonempty : 0 < k + (moment.history.filter inserts).length := by
        rw [split, List.length_append, List.length_singleton]
        omega
      rw [ends, List.getLast?_concat] at current
      have tasks : lastTask inserts moment.history = lastTask updates moment.history ↔
          last.task = update.task := by
        rw [lastTask, lastTask, split, ends, List.getLast?_concat, List.getLast?_concat]
        exact Option.some_inj
      rw [tasks]
      constructor
      · intro greatest
        have reached := order.stored.current_eq nonempty found greatest
        rw [current] at reached
        have numbers : number creation = number last := by
          rw [same, lastNumber]
          exact_mod_cast reached
        rw [← own, order.eq_of_number_eq made inserting lastMember lastInserts numbers]
      · intro together
        have creates := order.eq_of_task_eq made inserting lastMember lastInserts
          (own.trans together.symm)
        refine order.stored.currentIsGreatest found (current.trans ?_)
        show number update = _
        rw [← same, creates, lastNumber]
        push_cast
        rfl

end InOrder

/-- **Calls of `createVersion` next to each other**: those that resolve have inserted numbers of
their own, and when all have finished, the file carries the greatest number exactly when the call
that has inserted last has also written last. -/
theorem current_iff_lastInsertsLast [DecidableEq ι] (requests : ι → VersionRequest) {k : ℕ}
    {world : World} {file : FileRecord} (found : world.store.getFile fileId = some file)
    (current : file.currentVersion = k) (numbered : NumberedUpTo fileId k world.store)
    {after : Pool system ι FileVersion} {reached : Moment system ι World}
    (run : PoolRuns exec.semantics (fun task => (requests task).program fileId, .start world)
      (after, reached)) :
    UniqueNumbers after reached.history ∧
        (Finished after reached.history → CurrentIsGreatest fileId reached.state.store) ↔
      (Finished after reached.history →
        lastTask inserts reached.history = lastTask updates reached.history) := by
  obtain ⟨lawful, ends⟩ := Pool.follows
    (fun task => follows_createVersion task (requests task)) run
  have order := VersionRun.inOrder lawful (.start found current numbered)
  have unique : UniqueNumbers after reached.history := by
    intro task version settled
    obtain ⟨⟨creation, member, inserting, same⟩, _⟩ := ends task _ settled
    obtain ⟨made, own⟩ := mem_callsOf.mp member
    refine ⟨⟨creation, made, own, inserting, same⟩, ?_⟩
    rintro other ⟨second, secondMade, rfl, secondInserting, secondSame⟩
    rw [order.eq_of_number_eq secondMade secondInserting made inserting (secondSame.trans same.symm),
      own]
  have exactly : Finished after reached.history →
      (CurrentIsGreatest fileId reached.state.store ↔
        lastTask inserts reached.history = lastTask updates reached.history) := by
    intro finished
    refine order.currentIsGreatest_iff fun creation member inserting => ?_
    have settled := finished creation member
    cases program : after creation.task with
    | call op next =>
        rw [program] at settled
        cases settled
    | done outcome =>
        have own := mem_callsOf.mpr ⟨member, rfl⟩
        cases outcome with
        | error failure => exact absurd inserting (by simpa using ends _ _ program creation own)
        | ok version =>
            obtain ⟨_, update, made, writing⟩ := ends _ _ program
            exact ⟨update, (mem_callsOf.mp made).1, writing⟩
  constructor
  · exact fun both finished => (exactly finished).mp (both.2 finished)
  · exact fun lasts => ⟨unique, fun finished => (exactly finished).mpr (lasts finished)⟩

/-- A file with version 1. -/
def versionOne : World :=
  ((VersionManager.createVersion notes [] "ada" 0).run exec (.ofFile notes)).2

/-- Calls that create a version of the file by a schedule. -/
def scheduledVersions (schedule : List ℕ) : Pool system ℕ FileVersion × Moment system ℕ World :=
  Pool.runSchedule exec schedule
    (fun _ => VersionRequest.program notes ⟨[], "ada", 1⟩, .start versionOne)

theorem runs_scheduledVersions (schedule : List ℕ) :
    PoolRuns exec.semantics
      (fun _ => VersionRequest.program notes ⟨[], "ada", 1⟩, .start versionOne)
      (scheduledVersions schedule) :=
  Pool.runs_runSchedule (fun _ _ => rfl) _ _

theorem numberedUpTo_versionOne : NumberedUpTo notes 1 versionOne.store := by
  intro n
  have numbers : versionNumbers notes versionOne.store = [1] := by decide
  rw [numbers, List.mem_singleton]
  push_cast
  omega

/-- Two calls, one after the other. -/
theorem current_iff_lastInsertsLast_sequential :
    UniqueNumbers (scheduledVersions [0, 0, 0, 1, 1, 1]).1
        (scheduledVersions [0, 0, 0, 1, 1, 1]).2.history ∧
      (Finished (scheduledVersions [0, 0, 0, 1, 1, 1]).1
          (scheduledVersions [0, 0, 0, 1, 1, 1]).2.history →
        CurrentIsGreatest notes (scheduledVersions [0, 0, 0, 1, 1, 1]).2.state.store) :=
  (current_iff_lastInsertsLast (fun _ => ⟨[], "ada", 1⟩)
    (rfl : versionOne.store.getFile notes = some _) rfl numberedUpTo_versionOne
    (runs_scheduledVersions [0, 0, 0, 1, 1, 1])).mpr fun _ => by decide

/-- A call that has inserted version 2 writes its number after one that has inserted version 3. -/
theorem smaller_number_written_last :
    ∃ reached : Pool system ℕ FileVersion × Moment system ℕ World,
      PoolRuns exec.semantics
        (fun _ => VersionRequest.program notes ⟨[], "ada", 1⟩, .start versionOne) reached ∧
      Finished reached.1 reached.2.history ∧
      (reached.2.state.store.getFile notes).map FileRecord.currentVersion = some 2 ∧
      versionNumbers notes reached.2.state.store = [3, 2, 1] :=
  ⟨scheduledVersions [0, 0, 1, 1, 1, 0], runs_scheduledVersions _,
    by unfold Finished; decide, by decide, by decide⟩

end DistributedFileStorage.Versioning
