import DistributedFileStorage.Async.Interference
import DistributedFileStorage.Lifecycle.ReferenceCounts

/-!
# Prunings next to each other

A pruning reads the versions of the file once. For every version that it will remove, it
takes away one reference for each occurrence of a chunk and then deletes the row. Two
prunings that have both read a version both take its references away, although its row goes
only once. The guard of the decrement hides that only as long as the count is zero.

So the counts never end above the numbers of occurrences, and they end exact if and only if
no decrement finds the count of its chunk down to the occurrences in the versions that no
pruning removes (`concurrent_prunings_exact_iff`).
-/

set_option autoImplicit false

namespace DistributedFileStorage.Store.Database

open Relational Versioning VersionManager

/-! ## Versions that some pruning removes -/

section Doomed

variable {ι : Type} (origin : Database) (fileId : FileId) (cutoffs : ι → Option Time)

/-- Some pruning removes the version, when it reads the versions of the original state. -/
def Doomed (version : FileVersionRecord) : Prop :=
  ∃ task, version ∈ origin.prunableVersions fileId (cutoffs task)

instance [Fintype ι] : DecidablePred (origin.Doomed fileId cutoffs) :=
  fun _ => Fintype.decidableExistsFintype

/-- How often the versions that no pruning removes use a chunk. -/
def keptOccurrences [Fintype ι] (chunkHash : ChunkHash) : ℕ :=
  ((origin.fileVersions.rows.filter fun version => ¬ origin.Doomed fileId cutoffs version).map
    fun version => version.chunkHashes.count chunkHash).sum

/-- Some of the doomed versions are gone, and nothing else has happened to the versions. -/
structure PrunedFrom (db : Database) : Prop where
  stored : ∀ version ∈ db.fileVersions.rows, version ∈ origin.fileVersions.rows
  kept : ∀ version ∈ origin.fileVersions.rows, ¬ origin.Doomed fileId cutoffs version →
    version ∈ db.fileVersions.rows

variable {origin fileId cutoffs} {db : Database}

theorem PrunedFrom.refl : origin.PrunedFrom fileId cutoffs origin :=
  ⟨fun _ => id, fun _ member _ => member⟩

/-- No pruning removes the version with the greatest number. -/
theorem not_doomed_of_latest {version : FileVersionRecord}
    (latest : version.version = latestVersion (origin.versionsAscending fileId)) :
    ¬ origin.Doomed fileId cutoffs version := by
  rintro ⟨task, doomed⟩
  exact (mem_prunableVersions.mp doomed).2.1 latest

theorem PrunedFrom.mem_versionsAscending (pruned : origin.PrunedFrom fileId cutoffs db)
    {version : FileVersionRecord} (member : version ∈ db.versionsAscending fileId) :
    version ∈ origin.versionsAscending fileId := by
  obtain ⟨row, file⟩ := Database.mem_versionsAscending.mp member
  exact Database.mem_versionsAscending.mpr ⟨pruned.stored version row, file⟩

/-- The version with the greatest number stays the same. -/
theorem PrunedFrom.latestVersion_eq (pruned : origin.PrunedFrom fileId cutoffs db) :
    latestVersion (db.versionsAscending fileId) =
      latestVersion (origin.versionsAscending fileId) := by
  cases listed : origin.versionsAscending fileId with
  | nil =>
      have none : db.versionsAscending fileId = [] := by
        apply List.eq_nil_iff_forall_not_mem.mpr
        intro version member
        have old := pruned.mem_versionsAscending member
        rw [listed] at old
        cases old
      rw [none]
  | cons first rest =>
      have some : first ∈ origin.versionsAscending fileId := by simp [listed]
      obtain ⟨latest, member, greatest⟩ := exists_latestVersion some
      obtain ⟨row, file⟩ := Database.mem_versionsAscending.mp member
      have still : latest ∈ db.versionsAscending fileId :=
        Database.mem_versionsAscending.mpr
          ⟨pruned.kept latest row (not_doomed_of_latest greatest), file⟩
      obtain ⟨other, present, same⟩ := exists_latestVersion still
      rw [← listed]
      apply le_antisymm
      · rw [← same]
        exact le_latestVersion (pruned.mem_versionsAscending present)
      · rw [← greatest]
        exact le_latestVersion still

theorem keptOccurrences_le [Fintype ι] (chunkHash : ChunkHash) :
    origin.keptOccurrences fileId cutoffs chunkHash ≤ origin.occurrences chunkHash :=
  (List.filter_sublist.map _).sum_le_sum fun _ _ => Nat.zero_le _

/-- When every doomed version is gone, the occurrences are those in the versions that no
pruning removes. -/
theorem PrunedFrom.occurrences_eq [Fintype ι] (pruned : origin.PrunedFrom fileId cutoffs db)
    (gone : ∀ version ∈ db.fileVersions.rows, ¬ origin.Doomed fileId cutoffs version)
    (chunkHash : ChunkHash) :
    db.occurrences chunkHash = origin.keptOccurrences fileId cutoffs chunkHash := by
  have perm : db.fileVersions.rows.Perm
      (origin.fileVersions.rows.filter fun version => ¬ origin.Doomed fileId cutoffs version) := by
    refine (List.perm_ext_iff_of_nodup db.fileVersions.nodup_rows
      (origin.fileVersions.nodup_rows.filter _)).mpr fun version => ?_
    rw [List.mem_filter, decide_eq_true_eq]
    constructor
    · exact fun member => ⟨pruned.stored version member, gone version member⟩
    · exact fun member => pruned.kept version member.1 member.2
  exact (perm.map _).sum_eq

/-- Deleting a doomed version of the file takes its row away, if it is still there. -/
theorem PrunedFrom.deleteFileVersion (pruned : origin.PrunedFrom fileId cutoffs db)
    {version : FileVersionRecord} (doomed : origin.Doomed fileId cutoffs version) :
    origin.PrunedFrom fileId cutoffs (db.deleteFileVersion fileId version.version) where
  stored other member := pruned.stored other (Table.mem_delete.mp member).1
  kept other member lasting := by
    obtain ⟨task, prunable⟩ := doomed
    obtain ⟨row, file⟩ := (mem_prunableVersions.mp prunable).1
    refine Table.mem_delete.mpr ⟨pruned.kept other member lasting, fun same => lasting ?_⟩
    have here : other = version := Table.eq_of_key_eq member row (by
      rw [same, ← file]
      rfl)
    exact here ▸ ⟨task, prunable⟩

theorem occurrences_deleteFileVersion_le (db : Database) {version : FileVersionRecord}
    (unique : ∀ other ∈ db.fileVersions.rows,
      other.primaryKey = version.primaryKey → other = version) (chunkHash : ChunkHash) :
    db.occurrences chunkHash ≤
      (db.deleteFileVersion version.fileId version.version).occurrences chunkHash +
        version.chunkHashes.count chunkHash := by
  by_cases present : version ∈ db.fileVersions.rows
  · exact (Table.sum_delete_add present fun row => row.chunkHashes.count chunkHash).ge
  · have same : (db.deleteFileVersion version.fileId version.version).fileVersions =
        db.fileVersions := by
      refine Table.ext (List.filter_eq_self.mpr fun other member => ?_)
      have different : ¬ other.primaryKey = (version.fileId, version.version) :=
        fun here => present (unique other member here ▸ member)
      exact congrArg not (decide_eq_false different)
    rw [occurrences_congr same]
    exact Nat.le_add_right _ _

end Doomed

end DistributedFileStorage.Store.Database

namespace DistributedFileStorage.Lifecycle

open Async Store Services Versioning Deduplication Relational Database

/-- The arguments of a call of `pruneVersions` on the file, and its reading of the clock. -/
structure PruneCall where
  retentionDays : ℤ
  now : Time

/-- Versions older than this are pruned. -/
def PruneCall.cutoff (call : PruneCall) : Option Time :=
  some (call.now - call.retentionDays * millisecondsPerDay)

def PruneCall.program (fileId : FileId) (call : PruneCall) : Async ℕ :=
  VersionManager.pruneVersions fileId call.retentionDays call.now

/-! ## What the history says -/

section Histories

variable {ι : Type}

/-- A decrement of a chunk finds more references than the given number. -/
def FindsReferences (kept : ChunkHash → ℕ) (event : Event system ι World) : Prop :=
  ∀ chunkHash fileId, event.op = .store (.decrementChunkReference chunkHash fileId) →
    (kept chunkHash : ℤ) < event.before.store.referenceCount chunkHash

/-- The references to a chunk that a task holds taken, after one more call: a decrement takes
one, and the deletion of a version accounts for all. -/
def takenAfter (chunkHash : ChunkHash) (taken : ℕ) : Call → ℕ
  | .store (.decrementChunkReference hash _) => if hash = chunkHash then taken + 1 else taken
  | .store (.deleteFileVersion _ _) => 0
  | _ => taken

theorem takenAfter_decrement (chunkHash other : ChunkHash) (file : FileId) (taken : ℕ) :
    takenAfter other taken (.store (.decrementChunkReference chunkHash file)) =
      taken + if chunkHash = other then 1 else 0 := by
  simp only [takenAfter]
  split <;> rfl

/-- The references to a chunk that a task has taken since it last deleted a version. -/
def taken (chunkHash : ChunkHash) (calls : List (Event system ι World)) : ℕ :=
  calls.foldl (fun taken event => takenAfter chunkHash taken event.op) 0

variable [DecidableEq ι]

@[simp] theorem taken_next_self (chunkHash : ChunkHash) (moment : Moment system ι World) (task : ι)
    (op : Call) (outcome : system.Outcome op.Result) (after : World) :
    taken chunkHash ((moment.next task op outcome after).calls task) =
      takenAfter chunkHash (taken chunkHash (moment.calls task)) op := by
  rw [Moment.calls_next_self, taken, List.foldl_append]
  rfl

variable [Fintype ι]

/-- The references to a chunk that all tasks hold taken. -/
def totalTaken (moment : Moment system ι World) (chunkHash : ChunkHash) : ℕ :=
  ∑ task, taken chunkHash (moment.calls task)

/-- A call changes the part of its task. -/
theorem totalTaken_next (moment : Moment system ι World) (task : ι) (op : Call)
    (outcome : system.Outcome op.Result) (after : World) (chunkHash : ChunkHash) :
    totalTaken (moment.next task op outcome after) chunkHash +
        taken chunkHash (moment.calls task) =
      totalTaken moment chunkHash +
        takenAfter chunkHash (taken chunkHash (moment.calls task)) op := by
  rw [← taken_next_self _ _ _ _ outcome after, Moment.calls_next_self]
  exact Moment.sum_calls_next (taken chunkHash) moment task op outcome after

end Histories

section Prunings

variable {ι : Type} [DecidableEq ι] [Fintype ι] {origin : Database} {fileId : FileId}
  {cutoffs : ι → Option Time} {task : ι} {moment : Moment system ι World}

/-! ## The invariant -/

/-- What every moment of the prunings has in common. A count that is positive is at most the
occurrences less the references that the tasks hold taken. It is at least the occurrences in
the kept versions, if every decrement so far has found more than these, and it is less than
what any decrement so far has found. -/
structure Consistent (origin : Database) (fileId : FileId) (cutoffs : ι → Option Time)
    (moment : Moment system ι World) : Prop where
  pruned : origin.PrunedFrom fileId cutoffs moment.state.store
  chunks : moment.state.store.chunks.keys = origin.chunks.keys
  accounted : ∀ chunkHash, moment.state.store.referenceCount chunkHash ≤ 0 ∨
    moment.state.store.referenceCount chunkHash + totalTaken moment chunkHash ≤
      moment.state.store.occurrences chunkHash
  above : (∀ event ∈ moment.history,
      FindsReferences (origin.keptOccurrences fileId cutoffs) event) →
    ∀ chunkHash ∈ origin.chunks.keys,
      origin.keptOccurrences fileId cutoffs chunkHash ≤ moment.state.store.referenceCount chunkHash
  below : ∀ event ∈ moment.history, ∀ chunkHash fileId,
    event.op = .store (.decrementChunkReference chunkHash fileId) →
      chunkHash ∈ origin.chunks.keys ∧
        moment.state.store.referenceCount chunkHash < event.before.store.referenceCount chunkHash

/-- Counts go down and versions go away. -/
structure Declines (before after : Database) : Prop where
  counts : ∀ chunkHash, after.referenceCount chunkHash ≤ before.referenceCount chunkHash
  versions : ∀ version ∈ after.fileVersions.rows, version ∈ before.fileVersions.rows

theorem Declines.refl (db : Database) : Declines db db := ⟨fun _ => le_rfl, fun _ => id⟩

theorem Declines.trans {first second third : Database} (earlier : Declines first second)
    (later : Declines second third) : Declines first third where
  counts chunkHash := (later.counts chunkHash).trans (earlier.counts chunkHash)
  versions version member := earlier.versions version (later.versions version member)

/-- What every call of every task does. -/
structure Guarantee (origin : Database) (fileId : FileId) (cutoffs : ι → Option Time)
    (before after : Moment system ι World) : Prop where
  consistent : Consistent origin fileId cutoffs after
  declines : Declines before.state.store after.state.store

/-- What a task can rely on between its calls, and at its reads: it holds the same references
taken. -/
structure Rely (origin : Database) (fileId : FileId) (cutoffs : ι → Option Time) (task : ι)
    (before after : Moment system ι World) : Prop where
  consistent : Consistent origin fileId cutoffs after
  declines : Declines before.state.store after.state.store
  taken : ∀ chunkHash,
    taken chunkHash (after.calls task) = taken chunkHash (before.calls task)

theorem Rely.trans {first second third : Moment system ι World}
    (earlier : Rely origin fileId cutoffs task first second)
    (later : Rely origin fileId cutoffs task second third) :
    Rely origin fileId cutoffs task first third where
  consistent := later.consistent
  declines := earlier.declines.trans later.declines
  taken chunkHash := (later.taken chunkHash).trans (earlier.taken chunkHash)

/-- The postconditions of a program of a task, under the prunings of the others. -/
abbrev Prunes (origin : Database) (fileId : FileId) (cutoffs : ι → Option Time) (task : ι) {α : Type} :
    Async α → Moment system ι World → (α → Moment system ι World → Prop) →
      (Moment system ι World → Prop) → Prop :=
  Upholds exec.semantics (Rely origin fileId cutoffs task) (Guarantee origin fileId cutoffs) task

/-! ## What the calls keep -/

/-- The call neither takes a reference nor deletes a version. -/
def TakesNothing (op : Call) : Prop := ∀ chunkHash n, takenAfter chunkHash n op = n

theorem TakesNothing.not_decrement {op : Call} (quiet : TakesNothing op) {chunkHash : ChunkHash}
    {fileId : FileId} : op ≠ .store (.decrementChunkReference chunkHash fileId) := by
  rintro rfl
  have none := quiet chunkHash 0
  simp [takenAfter] at none

/-- A call that reads keeps the invariant. -/
theorem Consistent.read (consistent : Consistent origin fileId cutoffs moment) {op : Call}
    (quiet : TakesNothing op) (task : ι) (outcome : system.Outcome op.Result) :
    Consistent origin fileId cutoffs (moment.next task op outcome moment.state) where
  pruned := consistent.pruned
  chunks := consistent.chunks
  accounted chunkHash := by
    have total := totalTaken_next moment task op outcome moment.state chunkHash
    rw [quiet] at total
    rw [Nat.add_right_cancel total]
    exact consistent.accounted chunkHash
  above found := consistent.above fun event member =>
    found event (List.mem_append_left _ member)
  below event member := by
    rcases List.mem_append.mp member with earlier | now
    · exact consistent.below event earlier
    · obtain rfl := List.mem_singleton.mp now
      exact fun chunkHash file decrements => absurd decrements quiet.not_decrement

theorem declines_decrement {db : Database} {chunkHash : ChunkHash}
    (present : chunkHash ∈ db.chunks.keys) : Declines db (db.decrementChunkReference chunkHash) where
  counts other := by
    rw [referenceCount_decrementChunkReference present]
    split <;> omega
  versions _ := id

/-- A decrement of a chunk with a row keeps the invariant: the count of the chunk goes down by
the reference that the task then holds taken. -/
theorem Consistent.decrement (consistent : Consistent origin fileId cutoffs moment) (task : ι)
    {chunkHash : ChunkHash} (file : FileId) (present : chunkHash ∈ origin.chunks.keys) :
    Consistent origin fileId cutoffs
      (moment.next task (.store (.decrementChunkReference chunkHash file)) (.ok ())
        (moment.state.setStore (moment.state.store.decrementChunkReference chunkHash))) := by
  have stored : chunkHash ∈ moment.state.store.chunks.keys := consistent.chunks ▸ present
  have counts := referenceCount_decrementChunkReference stored
  constructor
  · exact ⟨consistent.pruned.stored, consistent.pruned.kept⟩
  · exact (sameButCounts_changeChunks _ _ _).chunkKeys.trans consistent.chunks
  · intro other
    have sum := totalTaken_next moment task (.store (.decrementChunkReference chunkHash file))
      (.ok ()) (moment.state.setStore (moment.state.store.decrementChunkReference chunkHash)) other
    rw [takenAfter_decrement] at sum
    have account := consistent.accounted other
    have occurs : (moment.state.store.decrementChunkReference chunkHash).occurrences other =
        moment.state.store.occurrences other := occurrences_congr rfl other
    simp only [Moment.next, World.setStore] at sum ⊢
    rw [occurs, counts other]
    by_cases same : chunkHash = other
    · rw [if_pos same] at sum ⊢
      omega
    · rw [if_neg same] at sum ⊢
      omega
  · intro found other row
    have bound := consistent.above
      (fun event member => found event (List.mem_append_left _ member)) other row
    have now := found _ (List.mem_append_right _ (List.mem_singleton_self _)) chunkHash file rfl
    show _ ≤ (moment.state.store.decrementChunkReference chunkHash).referenceCount other
    rw [counts other]
    by_cases same : chunkHash = other
    · subst same
      rw [if_pos rfl]
      exact Int.le_sub_one_of_lt now
    · simpa [same] using bound
  · intro event member other otherFile decrements
    show other ∈ origin.chunks.keys ∧
      (moment.state.store.decrementChunkReference chunkHash).referenceCount other < _
    rcases List.mem_append.mp member with earlier | now
    · obtain ⟨row, less⟩ := consistent.below event earlier other otherFile decrements
      exact ⟨row, ((declines_decrement stored).counts other).trans_lt less⟩
    · obtain rfl := List.mem_singleton.mp now
      obtain ⟨rfl, _⟩ : chunkHash = other ∧ file = otherFile := by simpa using decrements
      rw [counts chunkHash, if_pos rfl]
      exact ⟨present, Int.sub_one_lt_of_le le_rfl⟩

/-- Deleting a doomed version keeps the invariant, if its task has taken as many references as
the version has occurrences. -/
theorem Consistent.delete (consistent : Consistent origin fileId cutoffs moment)
    {version : FileVersionRecord} (doomed : origin.Doomed fileId cutoffs version)
    (settled : ∀ chunkHash, moment.state.store.referenceCount chunkHash ≤ 0 ∨
      version.chunkHashes.count chunkHash ≤ taken chunkHash (moment.calls task)) :
    Consistent origin fileId cutoffs
      (moment.next task (.store (.deleteFileVersion fileId version.version)) (.ok ())
        (moment.state.setStore
          (moment.state.store.deleteFileVersion fileId version.version))) := by
  constructor
  · exact consistent.pruned.deleteFileVersion doomed
  · exact consistent.chunks
  · intro chunkHash
    obtain ⟨_, prunable⟩ := doomed
    obtain ⟨row, file⟩ := (mem_prunableVersions.mp prunable).1
    have sum := totalTaken_next moment task (.store (.deleteFileVersion fileId version.version))
      (.ok ()) (moment.state.setStore
        (moment.state.store.deleteFileVersion fileId version.version)) chunkHash
    have account := consistent.accounted chunkHash
    have released := settled chunkHash
    have occurs := moment.state.store.occurrences_deleteFileVersion_le
      (fun other member => Table.eq_of_key_eq (consistent.pruned.stored other member) row) chunkHash
    rw [file] at occurs
    have same : (moment.state.store.deleteFileVersion fileId version.version).referenceCount
        chunkHash = moment.state.store.referenceCount chunkHash := rfl
    simp only [Moment.next, World.setStore, takenAfter] at sum ⊢
    rw [same]
    omega
  · intro found
    exact consistent.above fun event member => found event (List.mem_append_left _ member)
  · intro event member
    rcases List.mem_append.mp member with earlier | now
    · exact consistent.below event earlier
    · obtain rfl := List.mem_singleton.mp now
      intro chunkHash otherFile decrements
      simp at decrements

theorem prunes_read {op : Call} {value : World → op.Result}
    (reads : ∀ world, exec op world = (.ok (value world), world))
    (quiet : TakesNothing op) :
    Prunes origin fileId cutoffs task (Program.perform (I := system) op) moment
      (fun result later => Rely origin fileId cutoffs task moment later ∧
        result = value later.state)
      (fun _ => False) := by
  refine .perform fun before relied outcome after happens => ?_
  have made : exec op before.state = (outcome, after) := happens
  rw [reads] at made
  obtain ⟨rfl, rfl⟩ := Prod.mk.inj made
  have kept := relied.consistent.read quiet task (.ok (value before.state))
  refine ⟨⟨kept, .refl _⟩, ⟨kept, relied.declines, fun chunkHash => ?_⟩, rfl⟩
  rw [taken_next_self, quiet]
  exact relied.taken chunkHash

/-- A decrement of a chunk with a row takes one reference. -/
theorem prunes_decrement {chunkHash : ChunkHash} {file : FileId}
    (present : chunkHash ∈ origin.chunks.keys) :
    Prunes origin fileId cutoffs task (store (.decrementChunkReference chunkHash file)) moment
      (fun _ later => Consistent origin fileId cutoffs later ∧
        Declines moment.state.store later.state.store ∧
        ∀ other, taken other (later.calls task) =
          taken other (moment.calls task) + if chunkHash = other then 1 else 0)
      (fun _ => False) := by
  refine .perform_handler fun before relied => ?_
  have kept := relied.consistent.decrement task file present
  have declines := declines_decrement (relied.consistent.chunks ▸ present)
  refine ⟨⟨kept, declines⟩, kept, relied.declines.trans declines, fun other => ?_⟩
  rw [← relied.taken other, taken_next_self]
  exact takenAfter_decrement chunkHash other file _

/-- A task that has taken the references of a doomed version deletes its row. -/
theorem prunes_delete {version : FileVersionRecord} {call : ι}
    (doomed : version ∈ origin.prunableVersions fileId (cutoffs call))
    (settled : ∀ chunkHash, moment.state.store.referenceCount chunkHash ≤ 0 ∨
      version.chunkHashes.count chunkHash ≤ taken chunkHash (moment.calls task)) :
    Prunes origin fileId cutoffs task (store (.deleteFileVersion fileId version.version)) moment
      (fun _ later => Consistent origin fileId cutoffs later ∧
        Declines moment.state.store later.state.store ∧
        version ∉ later.state.store.fileVersions.rows)
      (fun _ => False) := by
  refine .perform_handler fun before relied => ?_
  have file := (mem_prunableVersions.mp doomed).1.2
  have declines : Declines before.state.store
      (before.state.store.deleteFileVersion fileId version.version) :=
    ⟨fun _ => le_rfl, fun other member => (Table.mem_delete.mp member).1⟩
  have kept := relied.consistent.delete ⟨call, doomed⟩ fun chunkHash => by
    have released := settled chunkHash
    have lower := relied.declines.counts chunkHash
    rw [relied.taken chunkHash]
    omega
  refine ⟨⟨kept, declines⟩, kept, relied.declines.trans declines, fun member => ?_⟩
  refine (Table.mem_delete.mp member).2 ?_
  rw [← file]
  rfl

/-! ## The prunings -/

/-- A task is releasing the chunks of a version: what it holds taken and what remains to be
released make up the version, unless the count has reached zero. -/
structure Releases (origin : Database) (fileId : FileId) (cutoffs : ι → Option Time) (task : ι)
    (version : FileVersionRecord) (start : Database) (rest : List ChunkHash)
    (now : Moment system ι World) : Prop where
  consistent : Consistent origin fileId cutoffs now
  declines : Declines start now.state.store
  owed : ∀ chunkHash, now.state.store.referenceCount chunkHash ≤ 0 ∨
    version.chunkHashes.count chunkHash ≤
      taken chunkHash (now.calls task) + rest.count chunkHash

/-- A guarded decrement releases one occurrence, or finds that the count has reached zero. -/
theorem prunes_decrementReference {version : FileVersionRecord} {start : Database}
    {chunkHash : ChunkHash} {rest : List ChunkHash} {file : FileId}
    (releases : Releases origin fileId cutoffs task version start (chunkHash :: rest) moment) :
    Prunes origin fileId cutoffs task
      (DeduplicationEngine.decrementReference chunkHash file).attempt moment
      (fun _ => Releases origin fileId cutoffs task version start rest) (fun _ => False) := by
  refine .attempt (.bind ((prunes_read (fun world => rfl) (fun _ _ => rfl)).consequence ?_
    fun _ => False.elim))
  rintro _ looked ⟨relied, rfl⟩
  have counts := relied.declines.counts
  have owed : ∀ other, looked.state.store.referenceCount other ≤ 0 ∨
      version.chunkHashes.count other ≤
        taken other (looked.calls task) + (chunkHash :: rest).count other := by
    intro other
    rw [relied.taken other]
    exact (releases.owed other).imp_left fun zero => (counts other).trans zero
  have settled : looked.state.store.referenceCount chunkHash ≤ 0 →
      Releases origin fileId cutoffs task version start rest looked := by
    refine fun zero => ⟨relied.consistent, releases.declines.trans relied.declines, fun other => ?_⟩
    by_cases same : chunkHash = other
    · exact .inl (same ▸ zero)
    · simpa [same] using owed other
  cases found : looked.state.store.getChunk chunkHash with
  | none => exact settled (referenceCount_of_absent found).le
  | some chunk =>
      dsimp only
      split
      · rename_i guarded
        exact settled ((referenceCount_of_getChunk found).trans_le guarded)
      · have row := Table.find?_eq_some_iff.mp found
        have present : chunkHash ∈ origin.chunks.keys := by
          rw [← relied.consistent.chunks, ← row.2]
          exact Table.key_mem_keys row.1
        refine (prunes_decrement present).consequence ?_ fun _ => False.elim
        rintro _ later ⟨consistent, declines, takes⟩
        refine ⟨consistent, (releases.declines.trans relied.declines).trans declines,
          fun other => ?_⟩
        have count := declines.counts other
        have before := owed other
        have now := takes other
        simp only [List.count_cons, beq_iff_eq] at before
        omega

/-- A task has still to go through some of the versions: among them are all that it would
prune and that are still there. -/
structure Remain (origin : Database) (fileId : FileId) (cutoffs : ι → Option Time) (task : ι)
    (versions : List FileVersionRecord) (now : Moment system ι World) : Prop where
  consistent : Consistent origin fileId cutoffs now
  listed : ∀ version ∈ versions, version ∈ origin.versionsAscending fileId
  present : ∀ version ∈ origin.prunableVersions fileId (cutoffs task),
    version ∈ now.state.store.fileVersions.rows → version ∈ versions

/-- A version that is gone, or that the task does not prune, needs no more attention. -/
theorem Remain.tail {version : FileVersionRecord} {rest : List FileVersionRecord}
    {later : Moment system ι World}
    (remain : Remain origin fileId cutoffs task (version :: rest) moment)
    (consistent : Consistent origin fileId cutoffs later)
    (declines : Declines moment.state.store later.state.store)
    (done : version ∈ origin.prunableVersions fileId (cutoffs task) →
      version ∉ later.state.store.fileVersions.rows) :
    Remain origin fileId cutoffs task rest later where
  consistent := consistent
  listed other member := remain.listed other (List.mem_cons_of_mem _ member)
  present other prunable still := by
    rcases List.mem_cons.mp (remain.present other prunable (declines.versions other still)) with
      rfl | later
    · exact absurd still (done prunable)
    · exact later

theorem prunes_pruneVersion {version : FileVersionRecord} {rest : List FileVersionRecord}
    {deleted : ℕ} (remain : Remain origin fileId cutoffs task (version :: rest) moment) :
    Prunes origin fileId cutoffs task
      (VersionManager.pruneVersion fileId
        (VersionManager.latestVersion (origin.versionsAscending fileId)) (cutoffs task) deleted
        version)
      moment (fun _ => Remain origin fileId cutoffs task rest) (fun _ => False) := by
  have listed := remain.listed version List.mem_cons_self
  unfold VersionManager.pruneVersion
  split
  · rename_i latest
    exact remain.tail remain.consistent (.refl _) fun prunable =>
      absurd latest (mem_prunableVersions.mp prunable).2.1
  · split
    · rename_i different old
      have prunable : version ∈ origin.prunableVersions fileId (cutoffs task) :=
        mem_prunableVersions.mpr ⟨mem_versionsAscending.mp listed, different, old⟩
      have start : Releases origin fileId cutoffs task version moment.state.store
          version.chunkHashes moment :=
        ⟨remain.consistent, .refl _, fun chunkHash => .inr (Nat.le_add_left _ _)⟩
      refine .bind ((Upholds.forEach
        (Releases origin fileId cutoffs task version moment.state.store)
        (fun chunkHash rest now releases => prunes_decrementReference releases) start).consequence
        ?_ fun _ => False.elim)
      intro _ released releases
      have settled : ∀ chunkHash, released.state.store.referenceCount chunkHash ≤ 0 ∨
          version.chunkHashes.count chunkHash ≤ taken chunkHash (released.calls task) := by
        simpa using releases.owed
      refine .bind ((prunes_delete prunable settled).consequence ?_ fun _ => False.elim)
      rintro _ later ⟨consistent, declines, gone⟩
      exact remain.tail consistent (releases.declines.trans declines) fun _ => gone
    · rename_i young
      exact remain.tail remain.consistent (.refl _) fun prunable =>
        absurd (mem_prunableVersions.mp prunable).2.2 young

/-- A pruning leaves no version that it prunes. -/
theorem prunes_pruneVersions {retentionDays : ℤ} {now : Time}
    (cutoff : some (now - retentionDays * millisecondsPerDay) = cutoffs task) :
    Prunes origin fileId cutoffs task (VersionManager.pruneVersions fileId retentionDays now) moment
      (fun _ => Remain origin fileId cutoffs task []) (fun _ => False) := by
  refine .bind ((prunes_read (fun world => rfl) (fun _ _ => rfl)).consequence ?_
    fun _ => False.elim)
  rintro _ listed ⟨relied, rfl⟩
  have pruned := relied.consistent.pruned
  have same : orderBy FileVersionRecord.version (listed.state.store.listFileVersions fileId) =
      listed.state.store.versionsAscending fileId := rfl
  dsimp only
  rw [same, cutoff, pruned.latestVersion_eq]
  refine .foldEach (fun _ => Remain origin fileId cutoffs task)
    (fun deleted version rest now remain => prunes_pruneVersion remain) ?_
  refine ⟨relied.consistent, fun version => pruned.mem_versionsAscending, ?_⟩
  intro version prunable present
  exact mem_versionsAscending.mpr ⟨present, (mem_prunableVersions.mp prunable).1.2⟩

/-- Exact counts are consistent with an empty history. -/
theorem Consistent.start {world : World} (exact : world.store.CountsExact) :
    Consistent world.store fileId cutoffs (Moment.start world : Moment system ι World) where
  pruned := .refl
  chunks := rfl
  accounted chunkHash := by
    have none : totalTaken (Moment.start world : Moment system ι World) chunkHash = 0 :=
      Finset.sum_eq_zero fun task _ => rfl
    rw [none]
    by_cases present : chunkHash ∈ world.store.chunks.keys
    · have count := countsExact_iff.mp exact chunkHash present
      right
      show world.store.referenceCount chunkHash + (0 : ℕ) ≤ world.store.occurrences chunkHash
      omega
    · left
      exact (referenceCount_of_absent (Table.find?_eq_none_iff.mpr present)).le
  above _ chunkHash present := by
    show _ ≤ world.store.referenceCount chunkHash
    rw [countsExact_iff.mp exact chunkHash present]
    exact_mod_cast keptOccurrences_le chunkHash
  below _ member := nomatch member

/-- What holds when all prunings have finished: no count is above the number of occurrences,
and the versions that are left are those that no pruning removes. -/
theorem finished_prunings {calls : ι → PruneCall} {world : World} (exact : world.store.CountsExact)
    {tasks : Pool system ι ℕ} {reached : Moment system ι World}
    (run : PoolRuns exec.semantics (fun task => (calls task).program fileId, .start world)
      (tasks, reached))
    (finished : ∀ task, (tasks task).isSettled = true) :
    Consistent world.store fileId (fun task => (calls task).cutoff) reached ∧
      ∀ version ∈ reached.state.store.fileVersions.rows,
        ¬ world.store.Doomed fileId (fun task => (calls task).cutoff) version := by
  let cutoffs := fun task => (calls task).cutoff
  obtain ⟨consistent, held⟩ := Pool.upholds (Rely world.store fileId cutoffs)
    (fun _ => Guarantee world.store fileId cutoffs) (Consistent world.store fileId cutoffs)
    (fun task moment holds => ⟨holds, .refl _, fun _ => rfl⟩)
    (fun task first second third => .trans)
    (fun task other different before op outcome state holds guarantee =>
      ⟨holds, guarantee.declines, fun chunkHash => by rw [Moment.calls_next_of_ne different]⟩)
    (fun task before after _ guarantee => guarantee.consistent) (Consistent.start exact)
    (fun task => prunes_pruneVersions rfl) run
  refine ⟨consistent, fun version present => ?_⟩
  rintro ⟨task, prunable⟩
  obtain ⟨moment, _, relied, upholds⟩ := held task
  obtain ⟨outcome, _, ends⟩ := upholds.ends (finished task)
  cases outcome with
  | error failure => exact ends
  | ok deleted =>
      have remain : Remain world.store fileId cutoffs task [] moment := ends
      have none := remain.present version prunable (relied.declines.versions version present)
      cases none

end Prunings

/-! ## Two prunings of an old version -/

/-- A file whose two versions share their only chunk. -/
def sharedChunk : World :=
  let versions : Async Unit := do
    store (.createChunk
      { chunkHash := "aa", size := 4, encryptedSize := 4, referenceCount := 0, createdAt := 0 })
    let _ ← VersionManager.createVersion notes ["aa"] "ada" 0
    let _ ← VersionManager.createVersion notes ["aa"] "ada" 5
    pure ()
  (versions.run exec (.ofFile notes)).2

/-- Two prunings of the file, both of which prune the first version only. -/
def pruneTwice : Pool system (Fin 2) ℕ × Moment system (Fin 2) World :=
  (fun _ => PruneCall.program notes ⟨0, 9⟩, .start sharedChunk)

/-- One pruning after the other. -/
def consecutiveRun : Pool system (Fin 2) ℕ × Moment system (Fin 2) World :=
  Pool.runSchedule exec [0, 0, 0, 0, 1] pruneTwice

end DistributedFileStorage.Lifecycle
