import DistributedFileStorage.Async.Histories
import DistributedFileStorage.Lifecycle.ReferenceCounts

/-!
# Failing calls and reference counts

A count that is too high keeps a chunk for nothing; a count that is too low loses it to the
next collection. So a failing call of the store should never leave a count below the number of
occurrences.

Two failures do. `createVersion` stores the row of the version before it counts the chunks, and
it ignores a failing increment. `pruneVersions` takes the references of a version away before it
deletes the row, and the deletion may fail. Every other failure is harmless
(`neverUndercounts`).
-/

set_option autoImplicit false

namespace DistributedFileStorage.Store.Database

open Relational

/-- No reference count is below the number of occurrences. -/
def NeverUndercounts (db : Database) : Prop :=
  ∀ chunk ∈ db.chunks.rows, (db.occurrences chunk.chunkHash : ℤ) ≤ chunk.referenceCount

instance (db : Database) : Decidable db.NeverUndercounts :=
  inferInstanceAs (Decidable (∀ chunk ∈ _, _))

theorem neverUndercounts_iff {db : Database} :
    db.NeverUndercounts ↔
      ∀ chunkHash ∈ db.chunks.keys,
        (db.occurrences chunkHash : ℤ) ≤ db.referenceCount chunkHash := by
  constructor
  · intro covered chunkHash present
    obtain ⟨chunk, member, rfl⟩ := Table.mem_keys.mp present
    have found : db.getChunk chunk.chunkHash = some chunk := Table.find?_key member
    rw [referenceCount_of_getChunk found]
    exact covered chunk member
  · intro covered chunk member
    have found : db.getChunk chunk.chunkHash = some chunk := Table.find?_key member
    rw [← referenceCount_of_getChunk found]
    exact covered chunk.chunkHash (Table.key_mem_keys member)

end DistributedFileStorage.Store.Database

namespace DistributedFileStorage.Lifecycle

open Async Store Services Versioning Deduplication Relational Database

/-! ## Histories of failing calls -/

/-- A call of the version manager. -/
inductive VersionCall where
  | createVersion (fileId : FileId) (chunkHashes : List ChunkHash) (userId : UserId) (now : Time)
  | pruneVersions (fileId : FileId) (retentionDays : ℤ) (now : Time)

def VersionCall.program : VersionCall → Async Unit
  | createVersion fileId chunkHashes userId now =>
      VersionManager.createVersion fileId chunkHashes userId now >>= fun _ => pure ()
  | pruneVersions fileId retentionDays now =>
      VersionManager.pruneVersions fileId retentionDays now >>= fun _ => pure ()

/-- The call has stored the row of a version. -/
def storesVersion : Event system Unit World → Bool
  | ⟨_, .store (.createFileVersion _), .ok _, _, _⟩ => true
  | _ => false

/-- The call looks up or increments the count of a chunk that has one. -/
def countsChunk : Event system Unit World → Bool
  | ⟨_, .store (.getChunk chunkHash), _, before, _⟩ => chunkHash ∈ before.store.chunks.keys
  | ⟨_, .store (.incrementChunkReference chunkHash _), _, before, _⟩ =>
      chunkHash ∈ before.store.chunks.keys
  | _ => false

/-- The call deletes the row of a version. -/
def deletesVersion : Call → Bool
  | .store (.deleteFileVersion _ _) => true
  | _ => false

/-- Whether references have been taken without their version being deleted, after one more
call. -/
def takenAfterCall (taken : Bool) : Event system Unit World → Bool
  | ⟨_, .store (.decrementChunkReference _ _), .ok _, _, _⟩ => true
  | ⟨_, .store (.deleteFileVersion _ _), .ok _, _, _⟩ => false
  | _ => taken

/-- References have been taken since the last version was deleted. -/
def holdsTaken (history : List (Event system Unit World)) : Bool :=
  history.foldl takenAfterCall false

/-- A failure of the call does no harm: it does not leave a chunk of a stored version uncounted,
and it does not leave a version whose references have been taken. -/
structure Harmless (earlier : List (Event system Unit World)) (event : Event system Unit World) :
    Prop where
  counted : countsChunk event = true → ∀ other ∈ earlier, storesVersion other = false
  released : deletesVersion event.op = true → holdsTaken earlier = false

/-- Every failure in the history does no harm. -/
def FailsHarmlessly (history : List (Event system Unit World)) : Prop :=
  ∀ earlier event later, history = earlier ++ event :: later → event.fails = true →
    Harmless earlier event

theorem failsHarmlessly_concat {history : List (Event system Unit World)}
    {event : Event system Unit World} (safe : FailsHarmlessly (history ++ [event])) :
    FailsHarmlessly history ∧ (event.fails = true → Harmless history event) := by
  constructor
  · intro earlier other later split
    exact safe earlier other (later ++ [event]) (by simp [split])
  · exact safe history event [] rfl

/-- A call of the version manager, any of whose calls of the store may fail. -/
inductive FailingStep (permitted : List (Event system Unit World) → Prop) : World → World → Prop
    where
  | call {before : World} (call : VersionCall) {outcome : system.Outcome Unit}
      {moment : Moment system Unit World}
      (run : Runs faulty.recorded call.program (.start before) outcome moment)
      (allowed : permitted moment.history) : FailingStep permitted before moment.state

/-! ## What holds as long as failures are harmless -/

/-- As long as the failures so far are harmless, the counts are high enough. -/
def Covered (moment : Moment system Unit World) : Prop :=
  FailsHarmlessly moment.history → moment.state.store.NeverUndercounts

/-- A statement that reads, and its history. -/
theorem triple_read_recorded {op : StoreOp} {value : World → op.Result}
    {pre rejected : Moment system Unit World → Prop}
    {resolved : op.Result → Moment system Unit World → Prop}
    (reads : ∀ world, exec (.store op) world = (.ok (value world), world))
    (works : ∀ before, pre before → resolved (value before.state)
      (before.next () (.store op) (.ok (value before.state)) before.state))
    (fails : ∀ before failure, pre before →
      rejected (before.next () (.store op) (.error failure) before.state)) :
    Triple faulty.recorded pre (store op) resolved rejected := by
  refine .perform_recorded fun before outcome state start happens => ?_
  rcases faulty_store_cases happens with worked | ⟨⟨failure, rfl⟩, rfl⟩
  · rw [reads] at worked
    obtain ⟨rfl, rfl⟩ := Prod.mk.inj worked
    exact works before start
  · exact fails before failure start

/-! ### Creating a version -/

/-- No version has been stored, and the counts are high enough. -/
def BeforeStoring (moment : Moment system Unit World) : Prop :=
  (∀ event ∈ moment.history, storesVersion event = false) ∧ moment.state.store.NeverUndercounts

/-- A version has been stored, and the counts are high enough for all but the chunks that
remain to be counted. -/
def Counting (remaining : List ChunkHash) (moment : Moment system Unit World) : Prop :=
  (∃ event ∈ moment.history, storesVersion event = true) ∧
    (FailsHarmlessly moment.history → ∀ chunkHash ∈ moment.state.store.chunks.keys,
      (moment.state.store.occurrences chunkHash : ℤ) ≤
        moment.state.store.referenceCount chunkHash + remaining.count chunkHash)

theorem Counting.covered {moment : Moment system Unit World} (counting : Counting [] moment) :
    Covered moment := by
  intro safe
  refine Database.neverUndercounts_iff.mpr fun chunkHash present => ?_
  simpa using counting.2 safe chunkHash present

theorem BeforeStoring.covered {moment : Moment system Unit World} (storing : BeforeStoring moment) :
    Covered moment :=
  fun _ => storing.2

theorem BeforeStoring.next {moment : Moment system Unit World} (storing : BeforeStoring moment)
    {op : Call} {outcome : system.Outcome op.Result} {after : World}
    (unstored : storesVersion ⟨(), op, outcome, moment.state, after⟩ = false)
    (same : after.store = moment.state.store) :
    BeforeStoring (moment.next () op outcome after) := by
  refine ⟨fun event member => ?_, ?_⟩
  · rcases List.mem_append.mp member with earlier | last
    · exact storing.1 event earlier
    · obtain rfl := List.mem_singleton.mp last
      exact unstored
  · rw [Moment.state_next, same]
    exact storing.2

/-- A call that changes neither versions nor chunks does not change what remains to be
counted. -/
theorem Counting.next {remaining : List ChunkHash} {moment : Moment system Unit World}
    (counting : Counting remaining moment) (op : Call) (outcome : system.Outcome op.Result)
    {after : World} (versions : after.store.fileVersions = moment.state.store.fileVersions)
    (chunks : after.store.chunks = moment.state.store.chunks) :
    Counting remaining (moment.next () op outcome after) := by
  obtain ⟨⟨event, member, stored⟩, enough⟩ := counting
  refine ⟨⟨event, List.mem_append_left _ member, stored⟩, fun safe chunkHash present => ?_⟩
  have counts : after.store.referenceCount chunkHash =
      moment.state.store.referenceCount chunkHash := by
    rw [Database.referenceCount, Database.getChunk, chunks]
    rfl
  show ((after.store.occurrences chunkHash : ℕ) : ℤ) ≤ after.store.referenceCount chunkHash + _
  rw [counts, Database.occurrences_congr versions]
  refine enough (failsHarmlessly_concat safe).1 chunkHash ?_
  rw [← chunks]
  exact present

/-- Once a version has been stored, a call that counts a chunk does not fail harmlessly. -/
theorem Counting.fails {remaining : List ChunkHash} {moment : Moment system Unit World}
    (counting : Counting remaining moment) (others : List ChunkHash) {op : Call}
    (failure : Failure) {after : World}
    (counts : countsChunk ⟨(), op, .error failure, moment.state, after⟩ = true) :
    Counting others (moment.next () op (.error failure) after) := by
  obtain ⟨⟨event, member, stored⟩, _⟩ := counting
  refine ⟨⟨event, List.mem_append_left _ member, stored⟩, fun safe => ?_⟩
  have harmless := (failsHarmlessly_concat safe).2 rfl
  have unstored := harmless.counted counts event member
  rw [stored] at unstored
  cases unstored

/-- A chunk without a row need not be counted. -/
theorem Counting.skip {chunkHash : ChunkHash} {remaining : List ChunkHash}
    {moment : Moment system Unit World} (counting : Counting (chunkHash :: remaining) moment)
    (absent : chunkHash ∉ moment.state.store.chunks.keys) : Counting remaining moment := by
  refine ⟨counting.1, fun safe other present => ?_⟩
  have different : other ≠ chunkHash := fun same => absent (same ▸ present)
  have enough := counting.2 safe other present
  rwa [List.count_cons_of_ne (Ne.symm different)] at enough

/-- One iteration counts its chunk. -/
theorem counting_incrementReference (fileId : FileId) (chunkHash : ChunkHash)
    (remaining : List ChunkHash) :
    Triple faulty.recorded (Counting (chunkHash :: remaining))
      (DeduplicationEngine.incrementReference chunkHash fileId)
      (fun _ => Counting remaining) (Counting remaining) := by
  unfold DeduplicationEngine.incrementReference
  refine Triple.through (fun found moment => if found.isSome = true
      then Counting (chunkHash :: remaining) moment ∧ chunkHash ∈ moment.state.store.chunks.keys
      else Counting remaining moment) ?looked ?counted
  case looked =>
    refine triple_read_recorded (fun _ => rfl) ?_ ?_
    · intro before counting
      dsimp only
      split
      · rename_i found
        exact ⟨counting.next _ _ rfl rfl, Table.isSome_find?_iff.mp found⟩
      · rename_i missing
        refine (counting.next _ _ rfl rfl).skip fun present => missing ?_
        exact Table.isSome_find?_iff.mpr present
    · intro before failure counting
      by_cases present : chunkHash ∈ before.state.store.chunks.keys
      · exact counting.fails _ failure (decide_eq_true present)
      · exact (counting.next _ _ rfl rfl).skip present
  case counted =>
    intro found
    cases found with
    | none => exact .throw fun _ counting => counting
    | some chunk =>
        refine .perform_recorded fun before outcome state counting happens => ?_
        obtain ⟨counting, present⟩ := counting
        rcases faulty_store_cases happens with worked | ⟨⟨failure, rfl⟩, rfl⟩
        · obtain ⟨rfl, rfl⟩ := Prod.mk.inj worked
          obtain ⟨⟨event, member, stored⟩, enough⟩ := counting
          refine ⟨⟨event, List.mem_append_left _ member, stored⟩, fun safe other here => ?_⟩
          have same := Database.sameButCounts_changeChunks before.state.store
            (Database.addReferences chunkHash 1) (Database.chunkHash_addReferences chunkHash 1)
          have old : other ∈ before.state.store.chunks.keys := by
            rw [← same.chunkKeys]
            exact here
          have bound := enough (failsHarmlessly_concat safe).1 other old
          have counted := Database.referenceCount_incrementChunkReference present other
          have occurs := Database.occurrences_congr same.fileVersions other
          have added : ((chunkHash :: remaining).count other : ℤ) =
              (if chunkHash = other then 1 else 0) + remaining.count other := by
            rw [List.count_cons]
            by_cases here : chunkHash = other <;> simp [here, add_comm]
          show ((before.state.store.incrementChunkReference chunkHash).occurrences other : ℤ) ≤
            (before.state.store.incrementChunkReference chunkHash).referenceCount other + _
          rw [counted, add_assoc, ← added]
          exact (congrArg Nat.cast occurs).trans_le bound
        · exact counting.fails _ failure (decide_eq_true present)

/-- The sizes of the chunks are read before the version is stored. -/
theorem beforeStoring_computeTotalSize (chunkHashes : List ChunkHash) :
    Triple faulty.recorded BeforeStoring (computeTotalSize chunkHashes) (fun _ => BeforeStoring)
      Covered := by
  unfold computeTotalSize
  refine .foldEach (fun _ _ => BeforeStoring) (fun totalSize chunkHash _ => ?_) chunkHashes 0
  unfold addChunkSize
  refine Triple.through (fun _ => BeforeStoring) ?_ ?_
  · exact triple_read_recorded (fun _ => rfl) (fun _ storing => storing.next rfl rfl)
      fun _ _ storing => (storing.next rfl rfl).covered
  · intro found
    cases found with
    | none => exact .pure fun _ storing => storing
    | some chunk => exact .pure fun _ storing => storing

/-- Once its row is stored, all chunks of a version remain to be counted. -/
theorem counting_createFileVersion (version : FileVersionRecord) :
    Triple faulty.recorded BeforeStoring (store (.createFileVersion version))
      (fun _ => Counting version.chunkHashes) Covered := by
  refine .perform_recorded fun before outcome state storing happens => ?_
  rcases faulty_store_cases happens with worked | ⟨⟨failure, rfl⟩, rfl⟩
  · rcases World.commit_cases worked with ⟨failure, _, rfl, rfl⟩ | ⟨stored, created, rfl, rfl⟩
    · exact (storing.next rfl rfl).covered
    · refine ⟨⟨_, List.mem_append_right _ (List.mem_singleton_self _), rfl⟩, ?_⟩
      intro _ chunkHash present
      have chunks : stored.chunks = before.state.store.chunks := by
        obtain ⟨_, _, rfl⟩ := Database.createFileVersion_ok created
        rfl
      have counts : stored.referenceCount chunkHash =
          before.state.store.referenceCount chunkHash := by
        rw [Database.referenceCount, Database.getChunk, chunks]
        rfl
      have occurs := Database.occurrences_createFileVersion created chunkHash
      have enough := Database.neverUndercounts_iff.mp storing.2 chunkHash (chunks ▸ present)
      show (stored.occurrences chunkHash : ℤ) ≤ stored.referenceCount chunkHash + _
      rw [counts, occurs]
      push_cast
      omega
  · exact (storing.next rfl rfl).covered

/-- **A version that is created under harmless failures is counted.** -/
theorem covered_createVersion (fileId : FileId) (chunkHashes : List ChunkHash) (userId : UserId)
    (now : Time) :
    Triple faulty.recorded BeforeStoring
      (VersionManager.createVersion fileId chunkHashes userId now) (fun _ => Covered) Covered := by
  unfold VersionManager.createVersion
  refine .through (fun _ => BeforeStoring) ?listed fun existing => ?_
  case listed =>
    exact triple_read_recorded (fun _ => rfl) (fun _ storing => storing.next rfl rfl)
      fun _ _ storing => (storing.next rfl rfl).covered
  refine .bind (beforeStoring_computeTotalSize chunkHashes) fun totalSize => ?_
  refine .through (fun _ => Counting chunkHashes) ?stored fun _ => ?_
  case stored => exact counting_createFileVersion _
  refine .through (fun _ => Counting []) ?counted fun _ => ?_
  case counted =>
    exact .forEach_remaining Counting (fun chunkHash remaining =>
      (counting_incrementReference fileId chunkHash remaining).attempt) chunkHashes
  refine .through (fun _ => Covered) ?updated fun _ => .pure fun _ covered => covered
  case updated =>
    refine .perform_recorded fun before outcome state counting happens => ?_
    rcases faulty_store_cases happens with worked | ⟨⟨failure, rfl⟩, rfl⟩
    · obtain ⟨rfl, rfl⟩ := Prod.mk.inj worked
      refine Counting.covered ?_
      exact counting.next _ _ rfl rfl
    · exact (counting.next _ _ rfl rfl).covered

/-! ### Pruning versions -/

theorem holdsTaken_concat (history : List (Event system Unit World))
    (event : Event system Unit World) :
    holdsTaken (history ++ [event]) = takenAfterCall (holdsTaken history) event :=
  List.foldl_concat _ _ _ _

/-- The versions that remain to be looked at are stored, and the counts are high enough. -/
structure Pruning (fileId : FileId) (versions : List FileVersionRecord)
    (moment : Moment system Unit World) : Prop where
  file : ∀ version ∈ versions, version.fileId = fileId
  nodup : versions.Nodup
  stored : FailsHarmlessly moment.history →
    ∀ version ∈ versions, version ∈ moment.state.store.fileVersions.rows
  covered : Covered moment
  untaken : FailsHarmlessly moment.history → holdsTaken moment.history = false

/-- References of the first version have been taken, but for the chunks that remain. What has
been taken is all that the counts may lack. -/
structure Releasing (fileId : FileId) (version : FileVersionRecord)
    (later : List FileVersionRecord) (remaining : List ChunkHash)
    (moment : Moment system Unit World) : Prop where
  file : ∀ other ∈ version :: later, other.fileId = fileId
  nodup : (version :: later).Nodup
  stored : FailsHarmlessly moment.history →
    ∀ other ∈ version :: later, other ∈ moment.state.store.fileVersions.rows
  lacking : FailsHarmlessly moment.history → ∃ taken : ChunkHash → ℕ,
    (∀ chunkHash ∈ moment.state.store.chunks.keys,
      (moment.state.store.occurrences chunkHash : ℤ) ≤
        moment.state.store.referenceCount chunkHash + taken chunkHash) ∧
    (∀ chunkHash, taken chunkHash + remaining.count chunkHash ≤
      version.chunkHashes.count chunkHash) ∧
    (holdsTaken moment.history = false → ∀ chunkHash, taken chunkHash = 0)

variable {fileId : FileId} {version : FileVersionRecord} {later : List FileVersionRecord}
  {chunkHash : ChunkHash} {remaining : List ChunkHash} {moment : Moment system Unit World}

theorem Pruning.skip (pruning : Pruning fileId (version :: later) moment) :
    Pruning fileId later moment where
  file other member := pruning.file other (List.mem_cons_of_mem _ member)
  nodup := (List.nodup_cons.mp pruning.nodup).2
  stored safe other member := pruning.stored safe other (List.mem_cons_of_mem _ member)
  covered := pruning.covered
  untaken := pruning.untaken

/-- Nothing has been taken from the next version. -/
theorem Pruning.releasing (pruning : Pruning fileId (version :: later) moment) :
    Releasing fileId version later version.chunkHashes moment where
  file := pruning.file
  nodup := pruning.nodup
  stored := pruning.stored
  lacking safe := by
    refine ⟨fun _ => 0, fun chunkHash present => ?_, fun _ => (Nat.zero_add _).le, fun _ _ => rfl⟩
    simpa using Database.neverUndercounts_iff.mp (pruning.covered safe) chunkHash present

/-- A call that changes nothing. -/
theorem Releasing.next (releasing : Releasing fileId version later remaining moment)
    {op : Call} {outcome : system.Outcome op.Result} {after : World}
    (untaken : ∀ taken, takenAfterCall taken ⟨(), op, outcome, moment.state, after⟩ = taken)
    (same : after = moment.state) :
    Releasing fileId version later remaining (moment.next () op outcome after) := by
  subst same
  refine ⟨releasing.file, releasing.nodup, fun safe => ?_, fun safe => ?_⟩
  · exact releasing.stored (failsHarmlessly_concat safe).1
  · obtain ⟨taken, enough, bounded, zero⟩ := releasing.lacking (failsHarmlessly_concat safe).1
    refine ⟨taken, enough, bounded, fun none => zero ?_⟩
    rwa [Moment.history_next, holdsTaken_concat, untaken] at none

/-- A reference may stay although the version goes. -/
theorem Releasing.skip
    (releasing : Releasing fileId version later (chunkHash :: remaining) moment) :
    Releasing fileId version later remaining moment where
  file := releasing.file
  nodup := releasing.nodup
  stored := releasing.stored
  lacking safe := by
    obtain ⟨taken, enough, bounded, zero⟩ := releasing.lacking safe
    refine ⟨taken, enough, fun other => le_trans ?_ (bounded other), zero⟩
    exact Nat.add_le_add_left ((List.sublist_cons_self chunkHash remaining).count_le other) _

/-- A reference that has been taken is one more that the count lacks. -/
theorem Releasing.decrement
    (releasing : Releasing fileId version later (chunkHash :: remaining) moment)
    (present : chunkHash ∈ moment.state.store.chunks.keys) :
    Releasing fileId version later remaining
      (moment.next () (.store (.decrementChunkReference chunkHash fileId)) (.ok ())
        (moment.state.setStore (moment.state.store.decrementChunkReference chunkHash))) := by
  have same := Database.sameButCounts_changeChunks moment.state.store
    (Database.addReferences chunkHash (-1)) (Database.chunkHash_addReferences chunkHash (-1))
  refine ⟨releasing.file, releasing.nodup, fun safe => ?_, fun safe => ?_⟩
  · intro other member
    have row := releasing.stored (failsHarmlessly_concat safe).1 other member
    rw [← same.fileVersions] at row
    exact row
  · obtain ⟨taken, enough, bounded, _⟩ := releasing.lacking (failsHarmlessly_concat safe).1
    refine ⟨fun other => taken other + if chunkHash = other then 1 else 0, ?_, ?_, ?_⟩
    · intro other here
      have bound := enough other (same.chunkKeys ▸ here)
      have counted := Database.referenceCount_decrementChunkReference present other
      have occurs := Database.occurrences_congr same.fileVersions other
      show ((moment.state.store.decrementChunkReference chunkHash).occurrences other : ℤ) ≤
        (moment.state.store.decrementChunkReference chunkHash).referenceCount other + _
      rw [counted]
      refine (congrArg Nat.cast occurs).trans_le (bound.trans_eq ?_)
      by_cases this : chunkHash = other
      · simp [this]
      · simp [this]
    · intro other
      refine le_trans (le_of_eq ?_) (bounded other)
      rw [List.count_cons]
      by_cases here : chunkHash = other
      · simp only [here, if_true, BEq.rfl]
        omega
      · simp [here]
    · intro untaken
      rw [Moment.history_next, holdsTaken_concat] at untaken
      cases untaken

/-- One iteration takes its reference or leaves it. -/
theorem releasing_decrementReference :
    Triple faulty.recorded (Releasing fileId version later (chunkHash :: remaining))
      (DeduplicationEngine.decrementReference chunkHash fileId)
      (fun _ => Releasing fileId version later remaining)
      (Releasing fileId version later remaining) := by
  unfold DeduplicationEngine.decrementReference
  refine Triple.through (fun found moment =>
    Releasing fileId version later (chunkHash :: remaining) moment ∧
      (found.isSome = true → chunkHash ∈ moment.state.store.chunks.keys)) ?looked ?taken
  case looked =>
    refine triple_read_recorded (fun _ => rfl) ?_ ?_
    · intro before releasing
      exact ⟨releasing.next (fun _ => rfl) rfl, Table.isSome_find?_iff.mp⟩
    · intro before failure releasing
      exact (releasing.next (fun _ => rfl) rfl).skip
  case taken =>
    intro found
    cases found with
    | none => exact .throw fun _ holds => holds.1.skip
    | some chunk =>
        dsimp only
        split
        · exact .throw fun _ holds => holds.1.skip
        · refine .perform_recorded fun before outcome state holds happens => ?_
          obtain ⟨releasing, present⟩ := holds
          rcases faulty_store_cases happens with worked | ⟨⟨failure, rfl⟩, rfl⟩
          · obtain ⟨rfl, rfl⟩ := Prod.mk.inj worked
            exact releasing.decrement (present rfl)
          · exact (releasing.next (fun _ => rfl) rfl).skip

/-- Deleting the row of the version removes what the counts may lack. -/
theorem Releasing.delete (releasing : Releasing fileId version later [] moment) :
    Pruning fileId later
      (moment.next () (.store (.deleteFileVersion fileId version.version)) (.ok ())
        (moment.state.setStore (moment.state.store.deleteFileVersion fileId version.version))) := by
  have doomed : (fileId, version.version) = version.primaryKey := by
    rw [FileVersionRecord.primaryKey, releasing.file version List.mem_cons_self]
  obtain ⟨fresh, nodup⟩ := List.nodup_cons.mp releasing.nodup
  refine ⟨fun other member => releasing.file other (List.mem_cons_of_mem _ member), nodup,
    fun safe other member => ?_, fun safe => ?_, fun _ => ?_⟩
  · have stored := releasing.stored (failsHarmlessly_concat safe).1
    have still := stored other (List.mem_cons_of_mem _ member)
    refine Table.mem_delete.mpr ⟨still, fun same => fresh ?_⟩
    rwa [← Table.eq_of_key_eq still (stored version List.mem_cons_self) (same.trans doomed)]
  · obtain ⟨earlier, _⟩ := failsHarmlessly_concat safe
    obtain ⟨taken, enough, bounded, _⟩ := releasing.lacking earlier
    refine Database.neverUndercounts_iff.mpr fun chunkHash present => ?_
    have row := releasing.stored earlier version List.mem_cons_self
    have removed : (moment.state.store.deleteFileVersion fileId version.version).occurrences
        chunkHash + version.chunkHashes.count chunkHash =
          moment.state.store.occurrences chunkHash := by
      have total := Table.sum_delete_add row fun other => other.chunkHashes.count chunkHash
      rw [← doomed] at total
      exact total
    have bound := enough chunkHash present
    have most := bounded chunkHash
    show ((moment.state.store.deleteFileVersion fileId version.version).occurrences chunkHash : ℤ) ≤
      moment.state.store.referenceCount chunkHash
    omega
  · rw [Moment.history_next, holdsTaken_concat]
    rfl

/-- When the deletion of the row fails harmlessly, the counts lack nothing. -/
theorem pruning_deleteFileVersion :
    Triple faulty.recorded (Releasing fileId version later [])
      (store (.deleteFileVersion fileId version.version))
      (fun _ => Pruning fileId later) Covered := by
  refine .perform_recorded fun before outcome state releasing happens => ?_
  rcases faulty_store_cases happens with worked | ⟨⟨failure, rfl⟩, rfl⟩
  · obtain ⟨rfl, rfl⟩ := Prod.mk.inj worked
    exact releasing.delete
  · intro safe
    obtain ⟨earlier, harmless⟩ := failsHarmlessly_concat safe
    obtain ⟨taken, enough, _, zero⟩ := releasing.lacking earlier
    refine Database.neverUndercounts_iff.mpr fun chunkHash present => ?_
    have untaken := zero ((harmless rfl).released rfl) chunkHash
    simpa [untaken] using enough chunkHash present

theorem pruning_pruneVersion (latest : ℤ) (cutoff : Option Time) (deleted : ℕ) :
    Triple faulty.recorded (Pruning fileId (version :: later))
      (VersionManager.pruneVersion fileId latest cutoff deleted version)
      (fun _ => Pruning fileId later) Covered := by
  unfold VersionManager.pruneVersion
  split
  · exact .pure fun _ pruning => pruning.skip
  · split
    · refine .through (fun _ => Releasing fileId version later []) ?released fun _ => ?_
      case released =>
        refine Triple.consequence (.forEach_remaining (Releasing fileId version later)
          (fun chunkHash remaining => releasing_decrementReference.attempt)
          version.chunkHashes) ?_ (fun _ _ => id) fun _ => id
        exact fun moment pruning => pruning.releasing
      exact pruning_deleteFileVersion.bind fun _ => .pure fun _ pruning => pruning
    · exact .pure fun _ pruning => pruning.skip

/-- **Versions that are pruned under harmless failures are released at most once.** -/
theorem covered_pruneVersions (fileId : FileId) (retentionDays : ℤ) (now : Time) :
    Triple faulty.recorded (fun moment => moment.history = [] ∧ Covered moment)
      (VersionManager.pruneVersions fileId retentionDays now) (fun _ => Covered) Covered := by
  unfold VersionManager.pruneVersions VersionManager.pruneVersionsBefore
  refine .through (fun versions =>
    Pruning fileId (orderBy FileVersionRecord.version versions)) ?listed fun versions => ?_
  case listed =>
    refine triple_read_recorded (fun _ => rfl) ?_ ?_
    · rintro before ⟨first, covered⟩
      refine ⟨fun version member => ?_, before.state.store.nodup_versionsAscending fileId,
        fun _ version member => ?_, fun safe => covered (failsHarmlessly_concat safe).1,
        fun _ => ?_⟩
      · exact (Database.mem_versionsAscending.mp member).2
      · exact (Database.mem_versionsAscending.mp member).1
      · rw [Moment.history_next, first]
        rfl
    · rintro before failure ⟨first, covered⟩ safe
      exact covered (failsHarmlessly_concat safe).1
  refine Triple.consequence (.foldEach (fun _ => Pruning fileId)
    (fun deleted version later => pruning_pruneVersion _ _ deleted)
    (orderBy FileVersionRecord.version versions) 0) (fun _ => id) ?_ fun _ => id
  exact fun _ _ pruning => pruning.covered

/-! ## Every call -/

theorem VersionCall.covered (call : VersionCall) {before : World}
    (enough : before.store.NeverUndercounts) {outcome : system.Outcome Unit}
    {moment : Moment system Unit World}
    (run : Runs faulty.recorded call.program (.start before) outcome moment) : Covered moment := by
  have ends : Ends (fun _ => Covered) Covered outcome moment := by
    cases call with
    | createVersion fileId chunkHashes userId now =>
        refine ((covered_createVersion fileId chunkHashes userId now).bind
          fun _ => .pure fun _ => id) ?_ run
        exact ⟨fun _ member => (nomatch member), enough⟩
    | pruneVersions fileId retentionDays now =>
        refine ((covered_pruneVersions fileId retentionDays now).bind
          fun _ => .pure fun _ => id) ?_ run
        exact ⟨rfl, fun _ => enough⟩
  cases outcome with
  | ok value => exact ends
  | error failure => exact ends

theorem FailingStep.neverUndercounts {before after : World}
    (step : FailingStep FailsHarmlessly before after) (enough : before.store.NeverUndercounts) :
    after.store.NeverUndercounts := by
  cases step with
  | call call run allowed => exact call.covered enough run allowed

/-- **In a history whose failures are harmless no count is ever too low.** -/
theorem neverUndercounts_of_harmless {start reached : World}
    (registered : ∀ chunk ∈ start.store.chunks.rows, chunk.referenceCount = 0)
    (unused : start.store.fileVersions.rows = [])
    (run : Relation.ReflTransGen (FailingStep FailsHarmlessly) start reached) :
    reached.store.NeverUndercounts := by
  induction run with
  | refl =>
      intro chunk member
      have none : start.store.occurrences chunk.chunkHash = 0 := by
        refine Database.occurrences_eq_zero_iff.mpr fun version stored => ?_
        rw [unused] at stored
        cases stored
      rw [none, registered chunk member]
      rfl
  | tail _ step ih => exact step.neverUndercounts ih

/-! ## Stores that fail on some calls -/

/-- A failure in the history is none that counts a chunk or deletes a version. -/
theorem failsHarmlessly_of_forall {history : List (Event system Unit World)}
    (other : ∀ event ∈ history, event.fails = true →
      countsChunk event = false ∧ deletesVersion event.op = false) : FailsHarmlessly history := by
  rintro earlier event later rfl fails
  obtain ⟨uncounted, undeleted⟩ := other event (by simp) fails
  constructor
  · intro counts
    rw [uncounted] at counts
    cases counts
  · intro deletes
    rw [undeleted] at deletes
    cases deletes

/-- The store on which certain calls fail. -/
def failingOn (broken : StoreOp → Bool) : Handler system World
  | .store op, world =>
      if broken op then (.error (.error "connection terminated"), world) else op.exec world
  | .disk nodeId op, world => op.exec world nodeId

theorem faulty_failingOn (broken : StoreOp → Bool) (op : Call) (world : World) :
    faulty op world (failingOn broken op world).1 (failingOn broken op world).2 := by
  cases op with
  | store op =>
      unfold failingOn
      dsimp only
      split
      · exact .inr ⟨rfl, ⟨_, rfl⟩, none, rfl⟩
      · exact .inl rfl
  | disk nodeId op => exact .inl rfl

/-- A call of the version manager on a store on which certain calls fail. -/
def VersionCall.runOn (call : VersionCall) (broken : StoreOp → Bool) (world : World) :
    Moment system Unit World :=
  (call.program.run (failingOn broken).recorded (.start world)).2

theorem VersionCall.step_runOn (permitted : List (Event system Unit World) → Prop)
    (call : VersionCall) (broken : StoreOp → Bool) (world : World)
    (allowed : permitted (call.runOn broken world).history) :
    FailingStep permitted world (call.runOn broken world).state :=
  .call call (runs_recorded (faulty_failingOn broken) call.program (.start world)) allowed

/-- A file without a version and a chunk without a reference. -/
def registeredChunk : World :=
  ((store (.createChunk
    { chunkHash := "aa", size := 4, encryptedSize := 4, referenceCount := 0,
      createdAt := 0 })).run exec (World.ofFile notes)).2

/-- Two versions, whose files could not be updated, and a release that fails: the count of two
is more than the one occurrence that remains. -/
theorem neverUndercounts_failed_release :
    ∃ reached : World, reached.store.NeverUndercounts ∧
      reached.store.referenceCount "aa" = 2 ∧ reached.store.occurrences "aa" = 1 := by
  let broken : StoreOp → Bool := (· matches .updateFile _ _ | .decrementChunkReference _ _)
  have run := Relation.ReflTransGen.refl (r := FailingStep FailsHarmlessly) (a := registeredChunk)
    |>.tail (VersionCall.step_runOn _ (.createVersion notes ["aa"] "ada" 0) broken _
      (failsHarmlessly_of_forall (by decide)))
    |>.tail (VersionCall.step_runOn _ (.createVersion notes ["aa"] "ada" 5) broken _
      (failsHarmlessly_of_forall (by decide)))
    |>.tail (VersionCall.step_runOn _ (.pruneVersions notes 0 9) broken _
      (failsHarmlessly_of_forall (by decide)))
  exact ⟨_, neverUndercounts_of_harmless (by decide) rfl run, by decide, by decide⟩

/-- The statement increments a count. -/
def isIncrement : StoreOp → Bool
  | .incrementChunkReference _ _ => true
  | _ => false

/-- **A version whose increment fails is stored and not counted.** -/
theorem undercounts_failed_increment :
    ¬ ∀ start reached : World, (∀ chunk ∈ start.store.chunks.rows, chunk.referenceCount = 0) →
      start.store.fileVersions.rows = [] →
      Relation.ReflTransGen (FailingStep fun _ => True) start reached →
        reached.store.NeverUndercounts := by
  intro claim
  have step := VersionCall.step_runOn (fun _ => True)
    (.createVersion notes ["aa"] "ada" 0) isIncrement registeredChunk trivial
  exact absurd (claim _ _ (by decide) rfl (.single step)) (by decide)

/-- A version whose deletion fails has lost its reference. -/
example :
    let versioned := ((VersionCall.createVersion notes ["aa"] "ada" 0).runOn (fun _ => false)
      registeredChunk).state
    let again := ((VersionCall.createVersion notes ["aa"] "ada" 5).runOn (fun _ => false)
      versioned).state
    ¬ ((VersionCall.pruneVersions notes 0 9).runOn (· matches .deleteFileVersion _ _)
      again).state.store.NeverUndercounts := by
  decide

end DistributedFileStorage.Lifecycle
