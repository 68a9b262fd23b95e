import DistributedFileStorage.Nodes.Disk
import DistributedFileStorage.Sequences.Pieces
import Mathlib.Data.List.Induction

/-!
# The chunk manager

`chunkFile` cuts a file into chunks by a loop over offsets. `chunkFileStream` listens to
the events of a readable stream: it collects the buffers that arrive, gives off a chunk as
long as it holds enough bytes for one, and at the end of the stream gives off what is left.

Both lists of chunks describe the pieces of the file (`chunkFile_eq`), so the two agree for
every way in which the stream splits the file into buffers
(`chunkFileStream_eq_chunkFile`).

The hash function is any function, and the size of a chunk any positive number.
-/

set_option autoImplicit false

namespace DistributedFileStorage.Chunking

open Store Nodes Sequences

structure ChunkMetadata where
  fileId : String
  sequenceNumber : ℕ
  contentHash : ChunkHash
  size : ℕ
  encryptedSize : ℕ
  deriving DecidableEq

/-- The events of a readable stream that the chunk manager listens to. -/
inductive StreamEvent where
  | data (chunk : Buffer)
  | ended
  | error (failure : Failure)

/-- `data.subarray(start, stop)`, for positions that are not negative. -/
def subarray (data : Buffer) (start stop : ℕ) : Buffer := (data.take stop).drop start

namespace ChunkManagerImpl

/-- The size of a chunk that the code fixes, 8 MiB. -/
def chunkSize : ℕ+ := ⟨8 * 1024 * 1024, by decide⟩

variable (computeHash : Buffer → ChunkHash) (size : ℕ+) (fileId : String)

/-! ## Chunking a buffer -/

/-- The loop of `chunkFile` from an offset on. -/
def chunkFrom (fileData : Buffer) (offset sequenceNumber : ℕ) (chunks : List ChunkMetadata) :
    List ChunkMetadata :=
  if offset < fileData.length then
    let chunkSize := min (size : ℕ) (fileData.length - offset)
    let chunkData := subarray fileData offset (offset + chunkSize)
    chunkFrom fileData (offset + size) (sequenceNumber + 1)
      (chunks ++
        [{ fileId := fileId, sequenceNumber := sequenceNumber,
           contentHash := computeHash chunkData, size := chunkSize, encryptedSize := 0 }])
  else chunks
termination_by fileData.length - offset
decreasing_by
  have positive := size.pos
  omega

def chunkFile (fileData : Buffer) : List ChunkMetadata :=
  if fileData.length = 0 then [] else chunkFrom computeHash size fileId fileData 0 0 []

/-! ## Chunking a stream -/

/-- The variables that the listeners of `chunkFileStream` share, and the state of the
promise that it returns: pending, or settled. -/
structure ChunkFileStream where
  chunks : List ChunkMetadata := []
  sequenceNumber : ℕ := 0
  buffer : Buffer := []
  promise : Option (Except Failure (List ChunkMetadata)) := none

/-- A promise settles once. -/
def ChunkFileStream.settle (state : ChunkFileStream)
    (outcome : Except Failure (List ChunkMetadata)) : ChunkFileStream :=
  { state with promise := some (state.promise.getD outcome) }

/-- Give off the first bytes of the buffer as a chunk. -/
def giveOff (state : ChunkFileStream) : ChunkFileStream :=
  let chunkData := subarray state.buffer 0 size
  { state with
    chunks := state.chunks ++
      [{ fileId := fileId, sequenceNumber := state.sequenceNumber,
         contentHash := computeHash chunkData, size := size, encryptedSize := 0 }]
    sequenceNumber := state.sequenceNumber + 1
    buffer := state.buffer.drop size }

/-- The loop that gives off chunks as long as the buffer holds enough bytes for one. -/
def drain (state : ChunkFileStream) : ChunkFileStream :=
  if size ≤ state.buffer.length then drain (giveOff computeHash size fileId state) else state
termination_by state.buffer.length
decreasing_by
  have positive := size.pos
  have shorter : (giveOff computeHash size fileId state).buffer.length =
    state.buffer.length - size := List.length_drop
  omega

/-- The listener of `chunkFileStream` for an event. -/
def handle (state : ChunkFileStream) : StreamEvent → ChunkFileStream
  | .data chunk => drain computeHash size fileId { state with buffer := state.buffer ++ chunk }
  | .ended =>
      let chunks :=
        if 0 < state.buffer.length then
          state.chunks ++
            [{ fileId := fileId, sequenceNumber := state.sequenceNumber,
               contentHash := computeHash state.buffer, size := state.buffer.length,
               encryptedSize := 0 }]
        else state.chunks
      ({ state with chunks := chunks }).settle (.ok chunks)
  | .error failure => state.settle (.error failure)

/-- What the promise of `chunkFileStream` has settled to after some events, `none` while
it is pending. -/
def chunkFileStream (events : List StreamEvent) : Option (Except Failure (List ChunkMetadata)) :=
  (events.foldl (handle computeHash size fileId) {}).promise

/-! ## The chunks of a file -/

/-- Some chunks as the chunk manager describes them, numbered from a first number on. -/
def describe : ℕ → List Buffer → List ChunkMetadata
  | _, [] => []
  | first, chunk :: chunks =>
      { fileId := fileId, sequenceNumber := first, contentHash := computeHash chunk,
        size := chunk.length, encryptedSize := 0 } :: describe (first + 1) chunks

theorem describe_append (first : ℕ) (chunks later : List Buffer) :
    describe computeHash fileId first (chunks ++ later) =
      describe computeHash fileId first chunks ++
        describe computeHash fileId (first + chunks.length) later := by
  induction chunks generalizing first with
  | nil => rfl
  | cons chunk chunks ih =>
      have shifted : first + 1 + chunks.length = first + (chunk :: chunks).length := by
        rw [List.length_cons]
        omega
      rw [List.cons_append, describe, describe, ih, shifted]
      rfl

/-- The loop over offsets describes the pieces from its offset on. -/
theorem chunkFrom_eq (fileData : Buffer) (offset sequenceNumber : ℕ)
    (chunks : List ChunkMetadata) :
    chunkFrom computeHash size fileId fileData offset sequenceNumber chunks =
      chunks ++ describe computeHash fileId sequenceNumber
        (pieces size (fileData.drop offset)) := by
  induction offset, sequenceNumber, chunks using
    chunkFrom.induct computeHash size fileId fileData with
  | case1 offset sequenceNumber chunks inside chunkSize chunkData ih =>
      have nonempty : fileData.drop offset ≠ [] := by
        intro empty
        have short := List.drop_eq_nil_iff.mp empty
        omega
      have cut : chunkData = (fileData.drop offset).take size := by
        rw [List.take_eq_take_min, List.length_drop, List.take_drop]
        rfl
      have length : chunkSize = ((fileData.drop offset).take size).length := by
        rw [List.length_take, List.length_drop]
      rw [chunkFrom, if_pos inside, ih, cut, length, pieces_of_ne_nil size nonempty,
        List.drop_drop, List.append_assoc]
      rfl
  | case2 offset sequenceNumber chunks outside =>
      rw [chunkFrom, if_neg outside, List.drop_of_length_le (not_lt.mp outside), pieces_nil,
        describe, List.append_nil]

/-- **The chunks of a file describe its pieces**, in order and numbered from zero. -/
theorem chunkFile_eq (fileData : Buffer) :
    chunkFile computeHash size fileId fileData =
      describe computeHash fileId 0 (pieces size fileData) := by
  unfold chunkFile
  split
  · rename_i empty
    rw [List.length_eq_zero_iff.mp empty, pieces_nil, describe]
  · rw [chunkFrom_eq, List.drop_zero, List.nil_append]

variable {computeHash size fileId} in
/-- **The content hash of a chunk is the digest of its bytes** in the file. -/
theorem contentHash_of_mem {fileData chunkData : Buffer} {metadata : ChunkMetadata}
    (described : (metadata, chunkData) ∈
      (chunkFile computeHash size fileId fileData).zip (pieces size fileData)) :
    metadata.contentHash = computeHash chunkData := by
  rw [chunkFile_eq] at described
  generalize pieces size fileData = chunks at described
  generalize 0 = first at described
  induction chunks generalizing first with
  | nil => cases described
  | cons chunk chunks ih =>
      rcases List.mem_cons.mp described with here | later
      · obtain ⟨rfl, rfl⟩ := Prod.mk.inj here
        rfl
      · exact ih (first + 1) later

/-! ## The residual buffer -/

/-- What the listeners have done with the bytes they have consumed: the first bytes were
given off as whole chunks, and the buffer holds the others. -/
structure Consumed (consumed : Buffer) (state : ChunkFileStream) (wholes : List Buffer) :
    Prop where
  full : ∀ whole ∈ wholes, whole.length = size
  bytes : consumed = wholes.flatten ++ state.buffer
  chunks : state.chunks = describe computeHash fileId 0 wholes
  sequenceNumber : state.sequenceNumber = wholes.length
  pending : state.promise = none

variable {computeHash size fileId} {consumed : Buffer} {state : ChunkFileStream}
  {wholes : List Buffer}

theorem Consumed.giveOff (holds : Consumed computeHash size fileId consumed state wholes)
    (enough : size ≤ state.buffer.length) :
    Consumed computeHash size fileId consumed (giveOff computeHash size fileId state)
      (wholes ++ [state.buffer.take size]) := by
  have length : (state.buffer.take size).length = size := by
    rw [List.length_take, min_eq_left enough]
  constructor
  · intro whole member
    rcases List.mem_append.mp member with old | new
    · exact holds.full whole old
    · exact List.mem_singleton.mp new ▸ length
  · rw [List.flatten_append, List.flatten_singleton, List.append_assoc, holds.bytes]
    exact congrArg (wholes.flatten ++ ·) (List.take_append_drop size state.buffer).symm
  · rw [describe_append, ← holds.chunks, Nat.zero_add, ← holds.sequenceNumber, describe, length]
    rfl
  · rw [List.length_append, List.length_singleton, ← holds.sequenceNumber]
    rfl
  · exact holds.pending

/-- Draining a buffer gives off whole chunks until less than a chunk is left. -/
theorem Consumed.drain (holds : Consumed computeHash size fileId consumed state wholes) :
    ∃ later, Consumed computeHash size fileId consumed (drain computeHash size fileId state)
        later ∧
      (drain computeHash size fileId state).buffer.length < size := by
  induction state using ChunkManagerImpl.drain.induct computeHash size fileId
    generalizing wholes with
  | case1 state enough ih =>
      rw [ChunkManagerImpl.drain, if_pos enough]
      exact ih (holds.giveOff enough)
  | case2 state few =>
      rw [ChunkManagerImpl.drain, if_neg few]
      exact ⟨wholes, holds, not_le.mp few⟩

/-- The buffers that arrive are consumed, however the stream splits its bytes. -/
theorem consumed_buffers (buffers : List Buffer) :
    ∃ wholes, Consumed computeHash size fileId buffers.flatten
        ((buffers.map StreamEvent.data).foldl (handle computeHash size fileId) {}) wholes ∧
      ((buffers.map StreamEvent.data).foldl (handle computeHash size fileId) {}).buffer.length <
        size := by
  induction buffers using List.reverseRecOn with
  | nil => exact ⟨[], ⟨by simp, rfl, rfl, rfl, rfl⟩, size.pos⟩
  | append_singleton buffers chunk ih =>
      obtain ⟨wholes, holds, _⟩ := ih
      rw [List.map_append, List.foldl_append, List.flatten_append]
      generalize (buffers.map StreamEvent.data).foldl (handle computeHash size fileId) {} = state
        at holds ⊢
      have arrived : Consumed computeHash size fileId (buffers.flatten ++ [chunk].flatten)
          { state with buffer := state.buffer ++ chunk } wholes := by
        refine ⟨holds.full, ?_, holds.chunks, holds.sequenceNumber, holds.pending⟩
        rw [holds.bytes, List.flatten_singleton, List.append_assoc]
      exact arrived.drain

/-- **Chunking a stream and chunking the whole file give the same list**, for every split
of the file into the buffers that arrive before the stream ends. -/
theorem chunkFileStream_eq_chunkFile (computeHash : Buffer → ChunkHash) (size : ℕ+)
    (fileId : String) (buffers : List Buffer) :
    chunkFileStream computeHash size fileId (buffers.map StreamEvent.data ++ [.ended]) =
      some (.ok (chunkFile computeHash size fileId buffers.flatten)) := by
  obtain ⟨wholes, holds, few⟩ := consumed_buffers buffers
  unfold chunkFileStream
  rw [List.foldl_append, chunkFile_eq, holds.bytes, pieces_flatten_append size holds.full]
  generalize (buffers.map StreamEvent.data).foldl (handle computeHash size fileId) {} = state
    at holds few ⊢
  simp only [List.foldl_cons, List.foldl_nil, handle, ChunkFileStream.settle, holds.pending,
    Option.getD_none, holds.chunks, holds.sequenceNumber]
  by_cases left : 0 < state.buffer.length
  · rw [if_pos left, pieces_of_length_le size (List.length_pos_iff.mp left) few.le,
      describe_append, Nat.zero_add]
    rfl
  · rw [if_neg left, List.length_eq_zero_iff.mp (Nat.eq_zero_of_not_pos left), pieces_nil,
      List.append_nil]

end ChunkManagerImpl

end DistributedFileStorage.Chunking
