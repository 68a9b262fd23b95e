import DistributedFileStorage.Chunking.ChunkManager

/-!
# Reassembly

`createAssemblyStream` gives its chunks back as a readable stream: each time the stream is
read, the closure pushes the chunk at its index, and past the last chunk it pushes null,
which ends the stream.

A file that is cut along the sizes of `chunkFile` and pushed through that stream comes out
as it was, and chunking what comes out gives the same list again (`chunkFile_partitions`).
The list itself is described position by position, and the empty file needs no case of its
own: it has no piece.
-/

set_option autoImplicit false

namespace DistributedFileStorage.Chunking

open Store Nodes Sequences

/-! ## The assembly stream -/

/-- The variables that the closure of `createAssemblyStream` shares with its stream. -/
structure AssemblyStream where
  chunks : List Buffer
  currentIndex : ℕ

namespace AssemblyStream

/-- The `read` of the stream: what it pushes, `none` standing for null. -/
def read (stream : AssemblyStream) : Option Buffer × AssemblyStream :=
  if inside : stream.currentIndex < stream.chunks.length then
    (some stream.chunks[stream.currentIndex],
      { stream with currentIndex := stream.currentIndex + 1 })
  else (none, stream)

theorem read_of_some {stream next : AssemblyStream} {chunk : Buffer}
    (reads : stream.read = (some chunk, next)) :
    ∃ inside : stream.currentIndex < stream.chunks.length,
      chunk = stream.chunks[stream.currentIndex] ∧
      next = { stream with currentIndex := stream.currentIndex + 1 } := by
  unfold read at reads
  split at reads
  · rename_i inside
    obtain ⟨pushes, steps⟩ := Prod.mk.inj reads
    exact ⟨inside, (Option.some.inj pushes).symm, steps.symm⟩
  · cases reads

/-- What the stream pushes until it pushes null: a consumer reads on as long as the stream
has not ended. -/
def pushed (stream : AssemblyStream) : List Buffer :=
  match _ : stream.read with
  | (some chunk, next) => chunk :: next.pushed
  | (none, _) => []
termination_by stream.chunks.length - stream.currentIndex
decreasing_by
  obtain ⟨inside, _, rfl⟩ := read_of_some ‹stream.read = (some chunk, next)›
  change stream.chunks.length - (stream.currentIndex + 1) < _
  omega

/-- The bytes that a consumer of the stream collects. -/
def contents (stream : AssemblyStream) : Buffer := stream.pushed.flatten

/-- The events of the stream, as a listener receives them. -/
def events (stream : AssemblyStream) : List StreamEvent :=
  stream.pushed.map StreamEvent.data ++ [.ended]

/-- The stream pushes what its index has not passed. -/
theorem pushed_eq (stream : AssemblyStream) :
    stream.pushed = stream.chunks.drop stream.currentIndex := by
  induction stream using pushed.induct with
  | case1 stream chunk next reads ih =>
      obtain ⟨inside, rfl, rfl⟩ := read_of_some reads
      rw [pushed]
      split
      · rename_i other later again
        obtain ⟨rfl, rfl⟩ := Prod.mk.inj (reads.symm.trans again) |>.imp Option.some.inj id
        rw [ih]
        exact (List.drop_eq_getElem_cons inside).symm
      · rename_i again
        cases reads.symm.trans again
  | case2 stream next reads =>
      have outside : ¬ stream.currentIndex < stream.chunks.length := by
        intro inside
        rw [read, dif_pos inside] at reads
        cases reads
      rw [pushed]
      split
      · rename_i again
        cases reads.symm.trans again
      · exact (List.drop_of_length_le (not_lt.mp outside)).symm

end AssemblyStream

namespace ChunkManagerImpl

def createAssemblyStream (chunks : List Buffer) : AssemblyStream :=
  { chunks := chunks, currentIndex := 0 }

theorem pushed_createAssemblyStream (chunks : List Buffer) :
    (createAssemblyStream chunks).pushed = chunks := AssemblyStream.pushed_eq _

/-! ## Cutting a file along the sizes of its chunks -/

/-- The slices of a file from an offset on, of the sizes that some chunks have. -/
def slices (fileData : Buffer) : ℕ → List ChunkMetadata → List Buffer
  | _, [] => []
  | offset, chunk :: chunks =>
      subarray fileData offset (offset + chunk.size) ::
        slices fileData (offset + chunk.size) chunks

variable (computeHash : Buffer → ChunkHash) (size : ℕ+) (fileId : String)

/-- Slicing along the sizes of the buffers that a file consists of gives the buffers. -/
theorem slices_describe (fileData : Buffer) (offset first : ℕ) (buffers : List Buffer)
    (rest : fileData.drop offset = buffers.flatten) :
    slices fileData offset (describe computeHash fileId first buffers) = buffers := by
  induction buffers generalizing offset first with
  | nil => rfl
  | cons buffer buffers ih =>
      rw [List.flatten_cons] at rest
      have here : subarray fileData offset (offset + buffer.length) = buffer := by
        rw [subarray, List.drop_take, Nat.add_sub_cancel_left, rest, List.take_left]
      have later : fileData.drop (offset + buffer.length) = buffers.flatten := by
        rw [← List.drop_drop, rest, List.drop_left]
      rw [describe, slices, here, ih _ _ later]

theorem slices_chunkFile (fileData : Buffer) :
    slices fileData 0 (chunkFile computeHash size fileId fileData) = pieces size fileData := by
  rw [chunkFile_eq]
  apply slices_describe
  rw [List.drop_zero, flatten_pieces]

/-! ## The chunks of a file, position by position -/

/-- The bytes of a file that belong to the chunk at a position. -/
def sliceAt (fileData : Buffer) (index : ℕ) : Buffer :=
  subarray fileData (index * size) (min ((index + 1) * size) fileData.length)

/-- A list of chunks that lists a file in order, without a gap or an overlap. -/
structure Partitions (fileData : Buffer) (chunks : List ChunkMetadata) : Prop where
  count : chunks.length = fileData.length ⌈/⌉ (size : ℕ)
  entries : ∀ (index : ℕ) (inside : index < chunks.length), chunks[index] =
    { fileId := fileId, sequenceNumber := index,
      contentHash := computeHash (sliceAt size fileData index),
      size := (sliceAt size fileData index).length, encryptedSize := 0 }
  full : ∀ (index : ℕ) (inside : index + 1 < chunks.length), chunks[index].size = size
  last : ∀ (index : ℕ) (inside : index < chunks.length), index + 1 = chunks.length →
    1 ≤ chunks[index].size ∧ chunks[index].size ≤ size
  total : (chunks.map ChunkMetadata.size).sum = fileData.length

variable {computeHash size fileId} in
theorem getElem?_describe (first index : ℕ) (buffers : List Buffer) :
    (describe computeHash fileId first buffers)[index]? = buffers[index]?.map fun buffer =>
      { fileId := fileId, sequenceNumber := first + index, contentHash := computeHash buffer,
        size := buffer.length, encryptedSize := 0 } := by
  induction buffers generalizing first index with
  | nil => rfl
  | cons buffer buffers ih =>
      cases index with
      | zero => rfl
      | succ index =>
          rw [describe, List.getElem?_cons_succ, List.getElem?_cons_succ, ih, Nat.add_assoc,
            Nat.add_comm 1 index]

theorem length_describe (first : ℕ) (buffers : List Buffer) :
    (describe computeHash fileId first buffers).length = buffers.length := by
  induction buffers generalizing first with
  | nil => rfl
  | cons buffer buffers ih => rw [describe, List.length_cons, ih, List.length_cons]

theorem sizes_describe (first : ℕ) (buffers : List Buffer) :
    (describe computeHash fileId first buffers).map ChunkMetadata.size =
      buffers.map List.length := by
  induction buffers generalizing first with
  | nil => rfl
  | cons buffer buffers ih => rw [describe, List.map_cons, ih, List.map_cons]

variable {size} in
/-- The slice at a position is a piece of the file. -/
theorem sliceAt_eq (fileData : Buffer) (index : ℕ) :
    sliceAt size fileData index = (fileData.drop (index * size)).take size := by
  have width : (index + 1) * (size : ℕ) - index * size = size := by
    rw [Nat.succ_mul, Nat.add_sub_cancel_left]
  rw [sliceAt, subarray, ← List.take_eq_take_min, List.drop_take, width]

variable {size} in
theorem length_sliceAt (fileData : Buffer) (index : ℕ) :
    (sliceAt size fileData index).length = min (size : ℕ) (fileData.length - index * size) := by
  rw [sliceAt_eq, List.length_take, List.length_drop]

variable {size} in
/-- The positions of the chunks are those whose first byte the file has. -/
theorem lt_ceilDiv_iff (length index : ℕ) :
    index < length ⌈/⌉ (size : ℕ) ↔ index * size < length := by
  rw [← not_le, ceilDiv_le_iff_le_mul size.pos, not_le, Nat.mul_comm]

theorem partitions_chunkFile (fileData : Buffer) :
    Partitions computeHash size fileId fileData (chunkFile computeHash size fileId fileData) := by
  have count : (chunkFile computeHash size fileId fileData).length =
      fileData.length ⌈/⌉ (size : ℕ) := by
    rw [chunkFile_eq, length_describe, length_pieces]
  have entries : ∀ (index : ℕ) (inside : index < (chunkFile computeHash size fileId
      fileData).length), (chunkFile computeHash size fileId fileData)[index] =
      { fileId := fileId, sequenceNumber := index,
        contentHash := computeHash (sliceAt size fileData index),
        size := (sliceAt size fileData index).length, encryptedSize := 0 } := by
    intro index inside
    have begins := (lt_ceilDiv_iff fileData.length index).mp (count ▸ inside)
    apply Option.some.inj
    rw [← List.getElem?_eq_getElem inside, chunkFile_eq, getElem?_describe,
      getElem?_pieces size fileData index begins, sliceAt_eq, Nat.zero_add]
    rfl
  have positive := size.pos
  refine ⟨count, entries, ?_, ?_, ?_⟩
  · intro index inside
    have next := (lt_ceilDiv_iff fileData.length (index + 1)).mp (count ▸ inside)
    rw [Nat.succ_mul] at next
    rw [entries index (by omega), length_sliceAt]
    exact min_eq_left (by omega)
  · intro index inside _
    have begins := (lt_ceilDiv_iff fileData.length index).mp (count ▸ inside)
    rw [entries index inside, length_sliceAt]
    exact ⟨le_min positive (by omega), min_le_left _ _⟩
  · rw [chunkFile_eq, sizes_describe, ← List.length_flatten, flatten_pieces]

/-! ## Round trips -/

/-- **Chunking partitions a file, and reassembly inverts it.** The chunks are described
position by position, the slices of their sizes stream back to the file, and chunking what
the stream yields gives the identical list. -/
theorem chunkFile_partitions (fileData : Buffer) :
    Partitions computeHash size fileId fileData (chunkFile computeHash size fileId fileData) ∧
      (createAssemblyStream (slices fileData 0
        (chunkFile computeHash size fileId fileData))).contents = fileData ∧
      chunkFile computeHash size fileId (createAssemblyStream (slices fileData 0
        (chunkFile computeHash size fileId fileData))).contents =
          chunkFile computeHash size fileId fileData := by
  have back : (createAssemblyStream (slices fileData 0
      (chunkFile computeHash size fileId fileData))).contents = fileData := by
    rw [AssemblyStream.contents, pushed_createAssemblyStream, slices_chunkFile, flatten_pieces]
  exact ⟨partitions_chunkFile computeHash size fileId fileData, back,
    congrArg (chunkFile computeHash size fileId) back⟩

/-- The assembly stream can be chunked as a stream as well, whatever buffers it was made
from: the result is that of chunking their concatenation at once. -/
theorem chunkFileStream_createAssemblyStream (chunks : List Buffer) :
    chunkFileStream computeHash size fileId (createAssemblyStream chunks).events =
      some (.ok (chunkFile computeHash size fileId (createAssemblyStream chunks).contents)) :=
  chunkFileStream_eq_chunkFile computeHash size fileId _

example : (chunkFile (fun _ => "") 2 "file" [7, 8, 9]).map ChunkMetadata.size = [2, 1] := by
  simp [chunkFile, chunkFrom]

end ChunkManagerImpl

end DistributedFileStorage.Chunking
