import DistributedFileStorage.Upload.Finalization
import DistributedFileStorage.Upload.FirstMarks

/-!
# Acknowledged chunks

A call of `markChunkUploaded` that resolves acknowledges a chunk: the position has a mark from
then on. The statement behind it inserts a row unless the position has one, so a position that
is acknowledged again, with another hash, keeps the hash of the first acknowledgement.

The module follows the calls for one session, one after another, and keeps account of what they
acknowledge. The rows of the session are at every moment the first acknowledgements
(`Accounts.after`), and these are what a later finalization puts into the file
(`marks_are_firstAcknowledged`).
-/

set_option autoImplicit false

namespace DistributedFileStorage.Upload

open Async Store Services Relational UploadManager Program

/-- The arguments of a call of `markChunkUploaded`, and the clock during it. -/
structure MarkCall where
  sequenceNumber : ℤ
  chunkHash : ChunkHash
  now : Time
  uploadedAt : Time

/-- The world, and the positions and hashes that have been acknowledged, in order. -/
structure Account where
  world : World
  acknowledged : List (ℤ × ChunkHash) := []

/-- One call for a session. -/
def Account.mark (sessionId : SessionId) (account : Account) (call : MarkCall) : Account :=
  match (markChunkUploaded sessionId call.sequenceNumber call.chunkHash call.now
      call.uploadedAt).run exec account.world with
  | (.ok _, after) =>
      { world := after,
        acknowledged := account.acknowledged ++ [(call.sequenceNumber, call.chunkHash)] }
  | (.error _, after) => { account with world := after }

/-- Calls for a session, one after another. -/
def Account.markAll (sessionId : SessionId) (account : Account) (calls : List MarkCall) : Account :=
  calls.foldl (Account.mark sessionId) account

/-- The hash of the first acknowledgement of a position. -/
def firstAcknowledged (sequenceNumber : ℤ) (acknowledged : List (ℤ × ChunkHash)) :
    Option ChunkHash :=
  acknowledged.findSome? fun mark => if mark.1 = sequenceNumber then some mark.2 else none

theorem firstAcknowledged_concat (sequenceNumber : ℤ) (acknowledged : List (ℤ × ChunkHash))
    (mark : ℤ × ChunkHash) :
    firstAcknowledged sequenceNumber (acknowledged ++ [mark]) =
      (firstAcknowledged sequenceNumber acknowledged).or
        (if mark.1 = sequenceNumber then some mark.2 else none) := by
  rw [firstAcknowledged, List.findSome?_append, List.findSome?_singleton]
  rfl

/-- An acknowledged position has a first acknowledgement. -/
theorem exists_firstAcknowledged {acknowledged : List (ℤ × ChunkHash)} {mark : ℤ × ChunkHash}
    (member : mark ∈ acknowledged) :
    ∃ chunkHash, firstAcknowledged mark.1 acknowledged = some chunkHash := by
  apply Option.isSome_iff_exists.mp
  rw [firstAcknowledged, List.findSome?_isSome_iff]
  exact ⟨mark, member, by simp⟩

/-! ## The rows of the session -/

/-- The rows of a session are the first acknowledgements, all of them of positions of the
session. -/
structure Accounts (sessionId : SessionId) (account : Account) : Prop where
  recorded : ∀ sequenceNumber,
    (account.world.store.uploadedChunks.find? (sessionId, sequenceNumber)).map
      UploadedChunkRecord.chunkHash = firstAcknowledged sequenceNumber account.acknowledged
  inRange : ∀ session, account.world.store.getUploadSession sessionId = some session →
    ∀ mark ∈ account.acknowledged, 0 ≤ mark.1 ∧ mark.1 < session.totalChunks

variable {sessionId : SessionId} {account : Account}

/-- A session without a mark. -/
theorem Accounts.start {world : World} (unmarked : world.store.getUploadedChunks sessionId = []) :
    Accounts sessionId { world := world } where
  recorded sequenceNumber := by
    rw [Option.map_eq_none_iff.mpr]
    · rfl
    · apply Table.find?_eq_none_iff.mpr
      intro taken
      rw [← mem_sequenceNumbers, unmarked] at taken
      cases taken
  inRange _ _ := List.forall_mem_nil _

/-- **One call** keeps the account. -/
theorem Accounts.mark (accounts : Accounts sessionId account) (call : MarkCall) :
    Accounts sessionId (account.mark sessionId call) := by
  unfold Account.mark
  rcases run_markChunkUploaded sessionId call.sequenceNumber call.chunkHash call.now
      call.uploadedAt account.world with
    ⟨failure, rejects⟩ | ⟨session, db, found, lower, upper, marked, resolves⟩
  · rw [rejects]
    exact accounts
  · rw [resolves]
    obtain ⟨marks, sessions, _⟩ := markChunkUploaded_ok marked
    constructor
    · intro sequenceNumber
      rw [World.store_setStore, marks, firstAcknowledged_concat, ← accounts.recorded]
      by_cases here : call.sequenceNumber = sequenceNumber
      · subst here
        rw [if_pos rfl]
        -- the statement leaves the row of a position that has one
        by_cases taken : (sessionId, call.sequenceNumber) ∈
            account.world.store.uploadedChunks.keys
        · rw [Table.insertIfAbsent_of_taken taken]
          obtain ⟨old, present⟩ := Option.isSome_iff_exists.mp (Table.isSome_find?_iff.mpr taken)
          rw [present]
          rfl
        · rw [Table.find?_eq_none_iff.mpr taken]
          exact congrArg (Option.map _) (Table.find?_insertIfAbsent_self taken)
      · have different : (sessionId, sequenceNumber) ≠ (sessionId, call.sequenceNumber) :=
          fun same => here (Prod.mk.inj same).2.symm
        rw [if_neg here, Option.or_none]
        exact congrArg (Option.map _) (Table.find?_insertIfAbsent_of_ne different)
    · intro current
      rw [World.store_setStore, Database.getUploadSession, sessions]
      intro still mark member
      obtain rfl := Option.some.inj (found.symm.trans still)
      rcases List.mem_append.mp member with old | new
      · exact accounts.inRange session found mark old
      · rw [List.mem_singleton.mp new]
        exact ⟨lower, upper⟩

/-- **Every history of calls** keeps the account. -/
theorem Accounts.after (accounts : Accounts sessionId account) (calls : List MarkCall) :
    Accounts sessionId (account.markAll sessionId calls) := by
  induction calls generalizing account with
  | nil => exact accounts
  | cons call calls ih => exact ih (accounts.mark call)

/-- An acknowledged position has exactly one row, that of its first acknowledgement. -/
theorem Accounts.row (accounts : Accounts sessionId account) {mark : ℤ × ChunkHash}
    (member : mark ∈ account.acknowledged) :
    ∃ row, ((account.world.store.getUploadedChunks sessionId).filter fun row =>
        row.sequenceNumber = mark.1) = [row] ∧
      firstAcknowledged mark.1 account.acknowledged = some row.chunkHash := by
  obtain ⟨chunkHash, first⟩ := exists_firstAcknowledged member
  have recorded := (accounts.recorded mark.1).trans first
  obtain ⟨row, found, rfl⟩ := Option.map_eq_some_iff.mp recorded
  obtain ⟨stored, key⟩ := Table.find?_eq_some_iff.mp found
  obtain ⟨own, here⟩ := Prod.mk.inj key
  refine ⟨row, ?_, first⟩
  have listed : row ∈ account.world.store.getUploadedChunks sessionId :=
    mem_getUploadedChunks.mpr ⟨stored, own⟩
  rw [← here]
  exact Table.filter_key_eq_singleton (nodup_sequenceNumbers _ sessionId) listed

/-- The marks of the session are of its positions. -/
theorem Accounts.sequenceNumbers_inRange (accounts : Accounts sessionId account)
    {session : UploadSessionRecord}
    (found : account.world.store.getUploadSession sessionId = some session) :
    ∀ sequenceNumber ∈ (account.world.store.getUploadedChunks sessionId).map
        UploadedChunkRecord.sequenceNumber,
      0 ≤ sequenceNumber ∧ sequenceNumber < session.totalChunks := by
  intro sequenceNumber listed
  have taken := Table.isSome_find?_iff.mpr (mem_sequenceNumbers.mp listed)
  rw [← Option.isSome_map, accounts.recorded, firstAcknowledged,
    List.findSome?_isSome_iff] at taken
  obtain ⟨mark, member, here⟩ := taken
  split at here
  · rename_i same
    exact same ▸ accounts.inRange session found mark member
  · cases here

/-- **Each acknowledged position has exactly one row, with the hash of its first
acknowledgement**, after every history of calls for a session that began without marks. A
finalization that resolves afterwards puts these hashes into the file. -/
theorem marks_are_firstAcknowledged (sessionId : SessionId) (world : World)
    (unmarked : world.store.getUploadedChunks sessionId = []) (calls : List MarkCall) :
    let account := Account.markAll sessionId { world := world } calls
    (∀ mark ∈ account.acknowledged, ∃ row,
      ((account.world.store.getUploadedChunks sessionId).filter fun row =>
        row.sequenceNumber = mark.1) = [row] ∧
      firstAcknowledged mark.1 account.acknowledged = some row.chunkHash) ∧
    ∀ now metadata after,
      (finalizeUpload sessionId now).run exec account.world = (.ok metadata, after) →
      ∃ version, after.store.getFileVersion metadata.fileId 1 = some version ∧
        ∀ mark ∈ account.acknowledged, ∃ index : ℕ, (index : ℤ) = mark.1 ∧
          index < version.chunkHashes.length ∧
          version.chunkHashes[index]? = firstAcknowledged mark.1 account.acknowledged := by
  have accounts := (Accounts.start unmarked).after calls
  generalize Account.markAll sessionId { world := world } calls = account at accounts
  refine ⟨fun mark member => accounts.row member, ?_⟩
  intro now metadata after resolved
  obtain ⟨session, found, complete⟩ := complete_of_finalizeUpload resolved
  have stores := (finalizeUpload_sizes sessionId now account.world session found complete).2
    metadata after resolved
  obtain ⟨version, stored, hashes, _⟩ := stores.version
  rw [← stores.fileId] at stored
  refine ⟨version, stored, ?_⟩
  rintro mark member
  obtain ⟨lower, upper⟩ := accounts.inRange session found mark member
  obtain ⟨length, ordered⟩ :=
    getElem?_orderedHashes (accounts.sequenceNumbers_inRange found) complete
  rw [← hashes] at length ordered
  refine ⟨mark.1.toNat, Int.toNat_of_nonneg lower, by omega, ?_⟩
  rw [ordered mark.1.toNat (by omega), Int.toNat_of_nonneg lower]
  exact accounts.recorded mark.1

/-! ## A position that is marked twice -/

/-- The session of one chunk, without a mark. -/
def openSession : World :=
  ((store (.createUploadSession oneChunkSession)).run exec (.ofStore .empty)).2

/-- Marks of the one position, with two hashes. -/
def markedTwice : Account :=
  Account.markAll upload { world := openSession } [⟨0, "aa", 3, 3⟩, ⟨0, "bb", 4, 4⟩]

theorem marks_of_markedTwice :
    ∃ row, ((markedTwice.world.store.getUploadedChunks upload).filter fun row =>
        row.sequenceNumber = 0) = [row] ∧
      firstAcknowledged 0 markedTwice.acknowledged = some row.chunkHash :=
  (marks_are_firstAcknowledged upload openSession (by decide +kernel)
    [⟨0, "aa", 3, 3⟩, ⟨0, "bb", 4, 4⟩]).1 (0, "aa") (by decide +kernel)

/-- **The second acknowledgement has no effect**: both calls resolve, the row keeps the first
hash, and the file is made of it. -/
theorem second_mark_isLost :
    openSession.store.getUploadSession upload = some oneChunkSession ∧
      markedTwice.acknowledged = [(0, "aa"), (0, "bb")] ∧
      (markedTwice.world.store.getUploadedChunks upload).map UploadedChunkRecord.chunkHash =
        ["aa"] ∧
      (((finalizeUpload upload 5).run exec markedTwice.world).2.store.getFileVersion notes 1).map
        FileVersionRecord.chunkHashes = some ["aa"] := by
  decide +kernel

end DistributedFileStorage.Upload
