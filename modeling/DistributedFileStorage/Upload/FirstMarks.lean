import DistributedFileStorage.Async.Interference
import DistributedFileStorage.Sequences.Ranges
import DistributedFileStorage.Upload.UploadManager

/-!
# The first marks of an upload session

A mark of a chunk is a row with the session and the sequence number as its key, and a
statement that marks a number again changes nothing. So the rows of a session are the first
marks that the history of statements records.

The module says how the statements of the upload manager move the rows of one session
(`Evolves`), what keeps the rows in line with the history (`Tracks`), and why the number of
marks says whether every sequence number has one.
-/

set_option autoImplicit false

namespace DistributedFileStorage.Upload

open Async Store Services Relational Sequences

/-! ## The first marks -/

variable {ι : Type}

/-- The hash that a statement records for a sequence number of a session, unless the number
had a mark before. -/
def recordedHash (sessionId : SessionId) (sequenceNumber : ℤ) :
    Event system ι World → Option ChunkHash
  | ⟨_, .store (.markChunkUploaded chunk), .ok _, _, _⟩ =>
      if chunk.primaryKey = (sessionId, sequenceNumber) then some chunk.chunkHash else none
  | _ => none

/-- The hash of the first mark that a history records for a sequence number. -/
def firstMark (sessionId : SessionId) (sequenceNumber : ℤ) (history : List (Event system ι World)) :
    Option ChunkHash :=
  history.findSome? (recordedHash sessionId sequenceNumber)

theorem firstMark_append (sessionId : SessionId) (sequenceNumber : ℤ)
    (history later : List (Event system ι World)) :
    firstMark sessionId sequenceNumber (history ++ later) =
      (firstMark sessionId sequenceNumber history).or (firstMark sessionId sequenceNumber later) :=
  List.findSome?_append

/-- Every sequence number of the session has a mark. -/
def AllMarked (session : UploadSessionRecord) (world : World) : Prop :=
  ∀ sequenceNumber, 0 ≤ sequenceNumber → sequenceNumber < session.totalChunks →
    (session.sessionId, sequenceNumber) ∈ world.store.uploadedChunks.keys

/-! ## What the calls keep -/

/-- The rows of the session are what the history says: the session has its number of
chunks and its file, and its marks are the first ones recorded, all in its range. -/
structure Tracks (session : UploadSessionRecord) (moment : Moment system ι World) : Prop where
  row : ∃ current, moment.state.store.getUploadSession session.sessionId = some current ∧
    current.totalChunks = session.totalChunks ∧ current.fileId = session.fileId
  recorded : ∀ sequenceNumber,
    (moment.state.store.uploadedChunks.find? (session.sessionId, sequenceNumber)).map
        UploadedChunkRecord.chunkHash =
      firstMark session.sessionId sequenceNumber moment.history
  inRange : ∀ chunk ∈ moment.state.store.uploadedChunks.rows, chunk.sessionId = session.sessionId →
    0 ≤ chunk.sequenceNumber ∧ chunk.sequenceNumber < session.totalChunks

/-- How the calls on a session move a moment. -/
structure Evolves (session : UploadSessionRecord) (before after : Moment system ι World) :
    Prop where
  history : before.history <+: after.history
  tracks : Tracks session before → Tracks session after
  versions : ∀ key version, before.state.store.fileVersions.find? key = some version →
    after.state.store.fileVersions.find? key = some version

variable {session : UploadSessionRecord} {task : ι}

namespace Evolves

variable {first second third : Moment system ι World}

theorem refl (moment : Moment system ι World) : Evolves session moment moment :=
  ⟨List.prefix_refl _, id, fun _ _ => id⟩

theorem trans (earlier : Evolves session first second) (later : Evolves session second third) :
    Evolves session first third where
  history := earlier.history.trans later.history
  tracks := later.tracks ∘ earlier.tracks
  versions key version found := later.versions key version (earlier.versions key version found)

/-- A first mark stays the first mark. -/
theorem keeps_firstMark (evolves : Evolves session first second) {sessionId : SessionId}
    {sequenceNumber : ℤ} {chunkHash : ChunkHash}
    (marked : firstMark sessionId sequenceNumber first.history = some chunkHash) :
    firstMark sessionId sequenceNumber second.history = some chunkHash := by
  obtain ⟨more, same⟩ := evolves.history
  rw [← same, firstMark_append, marked]
  rfl

end Evolves

/-- A change that leaves the marks alone, keeps the versions and changes the status of the
session at most. -/
structure Quiet (sessionId : SessionId) (before after : World) : Prop where
  marks : after.store.uploadedChunks = before.store.uploadedChunks
  sessions : ∀ current, before.store.getUploadSession sessionId = some current →
    ∃ later, after.store.getUploadSession sessionId = some later ∧
      later.totalChunks = current.totalChunks ∧ later.fileId = current.fileId
  versions : ∀ key version, before.store.fileVersions.find? key = some version →
    after.store.fileVersions.find? key = some version

theorem Quiet.refl (sessionId : SessionId) (world : World) : Quiet sessionId world world :=
  ⟨rfl, fun current found => ⟨current, found, rfl, rfl⟩, fun _ _ => id⟩

/-- A call that records no mark and makes a quiet change. -/
theorem Evolves.of_quiet {before : Moment system ι World} {op : Call}
    {outcome : Except Failure op.Result} {after : World}
    (unrecorded : ∀ sequenceNumber, recordedHash session.sessionId sequenceNumber
      (⟨task, op, outcome, before.state, after⟩ : Event system ι World) = none)
    (quiet : Quiet session.sessionId before.state after) :
    Evolves session before (before.next task op outcome after) where
  history := List.prefix_append _ _
  versions := quiet.versions
  tracks tracks := by
    constructor
    · obtain ⟨current, found, chunks, file⟩ := tracks.row
      obtain ⟨later, still, sameChunks, sameFile⟩ := quiet.sessions current found
      exact ⟨later, still, sameChunks.trans chunks, sameFile.trans file⟩
    · intro sequenceNumber
      rw [Moment.history_next, firstMark_append, ← tracks.recorded sequenceNumber]
      have nothing : firstMark session.sessionId sequenceNumber
          [(⟨task, op, outcome, before.state, after⟩ : Event system ι World)] = none := by
        rw [firstMark, List.findSome?_cons, unrecorded sequenceNumber]
        rfl
      rw [nothing, Option.or_none, Moment.state_next, quiet.marks]
    · rw [Moment.state_next, quiet.marks]
      exact tracks.inRange

/-- A call that is no mark, and that makes a quiet change when it works. -/
theorem evolves_call {op : StoreOp} (unmarking : ∀ chunk, op ≠ .markChunkUploaded chunk)
    (quiet : ∀ world, Quiet session.sessionId world (exec (.store op) world).2)
    {before : Moment system ι World} {outcome : Except Failure op.Result} {after : World}
    (happens : faulty (.store op) before.state outcome after) :
    Evolves session before (before.next task (.store op) outcome after) := by
  refine .of_quiet (fun sequenceNumber => ?_) ?_
  · unfold recordedHash
    split
    · rename_i same
      cases same
      exact absurd rfl (unmarking _)
    · rfl
  · rcases faulty_store_cases happens with works | ⟨_, rfl⟩
    · have reached := quiet before.state
      rwa [works] at reached
    · exact .refl _ _

theorem markChunkUploaded_ok {db stored : Database} {chunk : UploadedChunkRecord}
    (marked : db.markChunkUploaded chunk = .ok stored) :
    stored.uploadedChunks = db.uploadedChunks.insertIfAbsent chunk ∧
      stored.uploadSessions = db.uploadSessions ∧ stored.fileVersions = db.fileVersions := by
  unfold Database.markChunkUploaded at marked
  split at marked
  · rw [← Except.ok.inj marked]
    exact ⟨rfl, rfl, rfl⟩
  · cases marked

/-- The first mark of a history that goes on with a mark of the session. -/
theorem firstMark_mark (history : List (Event system ι World)) {chunk : UploadedChunkRecord}
    (own : chunk.sessionId = session.sessionId) (sequenceNumber : ℤ) (before after : World) :
    firstMark session.sessionId sequenceNumber
        (history ++ [⟨task, .store (.markChunkUploaded chunk), .ok (), before, after⟩]) =
      (firstMark session.sessionId sequenceNumber history).or
        (if sequenceNumber = chunk.sequenceNumber then some chunk.chunkHash else none) := by
  rw [firstMark_append]
  congr 1
  by_cases here : sequenceNumber = chunk.sequenceNumber
  · simp [firstMark, recordedHash, UploadedChunkRecord.primaryKey, here, own]
  · simp [firstMark, recordedHash, UploadedChunkRecord.primaryKey, here, Ne.symm here]

/-- A mark in the range of the session. -/
theorem evolves_mark {chunk : UploadedChunkRecord} (own : chunk.sessionId = session.sessionId)
    (lower : 0 ≤ chunk.sequenceNumber) (upper : chunk.sequenceNumber < session.totalChunks)
    {before : Moment system ι World} {outcome : Except Failure Unit} {after : World}
    (happens : faulty (.store (.markChunkUploaded chunk)) before.state outcome after) :
    Evolves session before
      (before.next task (.store (.markChunkUploaded chunk)) outcome after) := by
  rcases faulty_store_cases happens with works | ⟨⟨failure, rfl⟩, rfl⟩
  swap
  · exact .of_quiet (fun _ => rfl) (.refl _ _)
  rcases World.commit_cases works with ⟨failure, _, rfl, rfl⟩ | ⟨db, marked, rfl, rfl⟩
  · exact .of_quiet (fun _ => rfl) (.refl _ _)
  · obtain ⟨marks, sessions, versions⟩ := markChunkUploaded_ok marked
    have key : chunk.primaryKey = (session.sessionId, chunk.sequenceNumber) := by
      rw [← own]
      rfl
    refine ⟨List.prefix_append _ _, fun tracks => ⟨?_, fun sequenceNumber => ?_, ?_⟩, ?_⟩
    · rw [Moment.state_next, World.store_setStore, Database.getUploadSession, sessions]
      exact tracks.row
    · rw [Moment.state_next, World.store_setStore, marks, Moment.history_next,
        firstMark_mark _ own, ← tracks.recorded]
      by_cases here : sequenceNumber = chunk.sequenceNumber
      · subst here
        rw [if_pos rfl, ← key]
        by_cases taken : chunk.primaryKey ∈ before.state.store.uploadedChunks.keys
        · rw [Table.insertIfAbsent_of_taken taken]
          obtain ⟨old, found⟩ := Option.isSome_iff_exists.mp (Table.isSome_find?_iff.mpr taken)
          rw [found]
          rfl
        · rw [Table.find?_insertIfAbsent_self taken, Table.find?_eq_none_iff.mpr taken]
          rfl
      · have different : (session.sessionId, sequenceNumber) ≠ chunk.primaryKey := by
          rw [key]
          exact fun same => here (Prod.mk.inj same).2
        rw [if_neg here, Option.or_none, Table.find?_insertIfAbsent_of_ne different]
    · rw [Moment.state_next, World.store_setStore, marks]
      intro other member owned
      rcases Table.mem_insertIfAbsent.mp member with old | ⟨_, rfl⟩
      · exact tracks.inRange other old owned
      · exact ⟨lower, upper⟩
    · rw [Moment.state_next, World.store_setStore, versions]
      exact fun _ _ => id

/-! ## Counting marks -/

section Counting

variable {moment : Moment system ι World}

theorem mem_getUploadedChunks {db : Database} {sessionId : SessionId}
    {chunk : UploadedChunkRecord} :
    chunk ∈ db.getUploadedChunks sessionId ↔
      chunk ∈ db.uploadedChunks.rows ∧ chunk.sessionId = sessionId := by
  simp [Database.getUploadedChunks]

/-- The marks of a session have distinct sequence numbers. -/
theorem nodup_sequenceNumbers (db : Database) (sessionId : SessionId) :
    ((db.getUploadedChunks sessionId).map UploadedChunkRecord.sequenceNumber).Nodup := by
  have rows : (db.getUploadedChunks sessionId).Nodup :=
    (perm_orderBy _ _).nodup_iff.mpr (db.uploadedChunks.nodup_rows.filter _)
  refine rows.map_on ?_
  intro first memberFirst second memberSecond same
  obtain ⟨storedFirst, ownFirst⟩ := mem_getUploadedChunks.mp memberFirst
  obtain ⟨storedSecond, ownSecond⟩ := mem_getUploadedChunks.mp memberSecond
  exact Table.eq_of_key_eq storedFirst storedSecond
    (Prod.ext (ownFirst.trans ownSecond.symm) same)

theorem mem_sequenceNumbers {db : Database} {sessionId : SessionId} {sequenceNumber : ℤ} :
    sequenceNumber ∈ (db.getUploadedChunks sessionId).map UploadedChunkRecord.sequenceNumber ↔
      (sessionId, sequenceNumber) ∈ db.uploadedChunks.keys := by
  simp only [List.mem_map, mem_getUploadedChunks, Table.mem_keys]
  constructor
  · rintro ⟨chunk, ⟨stored, rfl⟩, rfl⟩
    exact ⟨chunk, stored, rfl⟩
  · rintro ⟨chunk, stored, same⟩
    obtain ⟨own, here⟩ := Prod.mk.inj same
    exact ⟨chunk, ⟨stored, own⟩, here⟩

theorem Tracks.sequenceNumbers_inRange (tracks : Tracks session moment) :
    ∀ sequenceNumber ∈ (moment.state.store.getUploadedChunks session.sessionId).map
        UploadedChunkRecord.sequenceNumber,
      0 ≤ sequenceNumber ∧ sequenceNumber < session.totalChunks := by
  intro sequenceNumber member
  obtain ⟨chunk, listed, rfl⟩ := List.mem_map.mp member
  obtain ⟨stored, own⟩ := mem_getUploadedChunks.mp listed
  exact tracks.inRange chunk stored own

/-- **The number of marks says whether every sequence number has one.** -/
theorem Tracks.length_eq_iff (tracks : Tracks session moment)
    (nonneg : 0 ≤ session.totalChunks) :
    ((moment.state.store.getUploadedChunks session.sessionId).length : ℤ) = session.totalChunks ↔
      AllMarked session moment.state := by
  have counted := length_eq_iff_complete nonneg
    (nodup_sequenceNumbers moment.state.store session.sessionId) tracks.sequenceNumbers_inRange
  rw [List.length_map] at counted
  rw [counted]
  simp only [mem_sequenceNumbers]
  rfl

/-- Once every sequence number has a mark, it has one at every later moment. -/
theorem AllMarked.mono {later : Moment system ι World} (tracks : Tracks session moment)
    (evolves : Evolves session moment later) (all : AllMarked session moment.state) :
    AllMarked session later.state := by
  intro sequenceNumber lower upper
  obtain ⟨chunk, found⟩ := Option.isSome_iff_exists.mp
    (Table.isSome_find?_iff.mpr (all sequenceNumber lower upper))
  have first := tracks.recorded sequenceNumber
  rw [found] at first
  have still := (evolves.tracks tracks).recorded sequenceNumber
  rw [evolves.keeps_firstMark first.symm] at still
  obtain ⟨row, stored, _⟩ := Option.map_eq_some_iff.mp still
  exact Table.isSome_find?_iff.mp (Option.isSome_iff_exists.mpr ⟨row, stored⟩)

/-- A list of hashes that has, for each sequence number, the hash of its first mark. -/
structure FirstMarks (session : UploadSessionRecord) (history : List (Event system ι World))
    (chunkHashes : List ChunkHash) : Prop where
  length : (chunkHashes.length : ℤ) = session.totalChunks
  hashes : ∀ index < chunkHashes.length,
    chunkHashes[index]? = firstMark session.sessionId index history

/-- **The ordered hashes of a complete session**: at each index is the hash of its row. -/
theorem getElem?_orderedHashes {db : Database} {sessionId : SessionId} {total : ℤ}
    (inRange : ∀ sequenceNumber ∈
      (db.getUploadedChunks sessionId).map UploadedChunkRecord.sequenceNumber,
      0 ≤ sequenceNumber ∧ sequenceNumber < total)
    (complete : ((db.getUploadedChunks sessionId).length : ℤ) = total) :
    ((UploadManager.orderedHashes (db.getUploadedChunks sessionId)).length : ℤ) = total ∧
      ∀ index < (UploadManager.orderedHashes (db.getUploadedChunks sessionId)).length,
        (UploadManager.orderedHashes (db.getUploadedChunks sessionId))[index]? =
          (db.uploadedChunks.find? (sessionId, (index : ℤ))).map
            UploadedChunkRecord.chunkHash := by
  have distinct := nodup_sequenceNumbers db sessionId
  have counted : (((db.getUploadedChunks sessionId).map
      UploadedChunkRecord.sequenceNumber).length : ℤ) = total := by
    rw [List.length_map, complete]
  have members := (length_eq_iff_complete (by omega) distinct inRange).mp counted
  unfold UploadManager.orderedHashes
  generalize listed : db.getUploadedChunks sessionId = marks at *
  have same := (perm_orderBy UploadedChunkRecord.sequenceNumber marks).map
    UploadedChunkRecord.sequenceNumber
  have range : (orderBy UploadedChunkRecord.sequenceNumber marks).map
      UploadedChunkRecord.sequenceNumber = (List.range total.toNat).map Nat.cast :=
    eq_range_of_complete (strictlyAscending_orderBy distinct)
      (fun number member => inRange number (same.mem_iff.mp member))
      fun number lower upper => same.mem_iff.mpr (members number lower upper)
  have size : (orderBy UploadedChunkRecord.sequenceNumber marks).length = total.toNat := by
    have lengths := congrArg List.length range
    simpa using lengths
  constructor
  · rw [List.length_map, size]
    omega
  · intro index below
    rw [List.length_map, size] at below
    have number := congrArg (·[index]?) range
    simp only [List.getElem?_map, List.getElem?_range below, Option.map_some] at number
    obtain ⟨chunk, found, numbered⟩ := Option.map_eq_some_iff.mp number
    have member : chunk ∈ db.getUploadedChunks sessionId := by
      rw [listed]
      exact mem_orderBy.mp (List.mem_of_getElem? found)
    obtain ⟨stored, own⟩ := mem_getUploadedChunks.mp member
    have key : chunk.primaryKey = (sessionId, (index : ℤ)) := Prod.ext own numbered
    rw [← key, Table.find?_key stored, List.getElem?_map, found]

/-- **The ordered hashes of a complete session are those of its first marks.** -/
theorem Tracks.firstMarks_orderedHashes (tracks : Tracks session moment)
    (nonneg : 0 ≤ session.totalChunks) (all : AllMarked session moment.state) :
    FirstMarks session moment.history
      (UploadManager.orderedHashes (moment.state.store.getUploadedChunks session.sessionId)) := by
  have complete := (tracks.length_eq_iff nonneg).mpr all
  obtain ⟨length, hashes⟩ := getElem?_orderedHashes tracks.sequenceNumbers_inRange complete
  exact ⟨length, fun index below => (hashes index below).trans (tracks.recorded index)⟩

end Counting

end DistributedFileStorage.Upload
