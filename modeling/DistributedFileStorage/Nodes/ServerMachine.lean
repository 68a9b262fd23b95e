import DistributedFileStorage.Nodes.StorageServer

/-!
# The machine of a storage node server

The server runs on a machine with files and directories, each at its location. When the server has
started, its data directory has 256 subdirectories, and the files in them are chunks.

To the server the machine is a table of chunks (`Stores`). What `calculateUsedSpace` adds up over
the subdirectories is the number of the chunks and their total size
(`Stores.run_calculateUsedSpace`).
-/

set_option autoImplicit false

namespace DistributedFileStorage.Nodes.StorageServer

open Async Store Paths Relational

/-! ## The file system -/

/-- The files and the directories, at their locations. -/
structure Machine where
  files : Table (Prod.fst : List String × Buffer → List String)
  directories : List (List String)
  /-- The size that is reported for a directory. -/
  directorySize : ℕ := 4096

/-- An entry is a name other than `.` and `..`. -/
def EntryName.ofName (name : String) : Option EntryName :=
  if proper : '/' ∉ name.toList ∧ name ≠ "" ∧ name ≠ "." ∧ name ≠ ".." then
    some ⟨name, proper.1, proper.2.1, proper.2.2.1, proper.2.2.2⟩
  else none

/-- The entry of a directory for a location, when the location is directly below it. -/
def entryBelow (directory : List String) : List String → Option EntryName
  | [] => none
  | name :: parent => if parent = directory then EntryName.ofName name else none

namespace Machine

variable (machine : Machine)

/-- The bytes of the file at a location. -/
def contents (location : List String) : Option Buffer :=
  (machine.files.find? location).map Prod.snd

def entries (directory : List String) : List EntryName :=
  (machine.files.keys ++ machine.directories).filterMap (entryBelow directory)

/-- What the calls of the `fs` module do, for a process with a current directory. -/
def access (cwd : List String) : (op : FileOp) → Except String op.Result × Machine
  | .existsSync path =>
      (.ok (decide (locate cwd path ∈ machine.files.keys ∨ locate cwd path ∈ machine.directories)),
        machine)
  | .readFileSync path =>
      if locate cwd path ∈ machine.directories then
        (.error "EISDIR: illegal operation on a directory, read", machine)
      else
        match machine.contents (locate cwd path) with
        | some data => (.ok data, machine)
        | none => (.error s!"ENOENT: no such file or directory, open '{path}'", machine)
  | .writeFileSync path data =>
      if locate cwd path ∈ machine.directories then
        (.error s!"EISDIR: illegal operation on a directory, open '{path}'", machine)
      else if (locate cwd path).tail ∈ machine.directories then
        (.ok (), { machine with files := machine.files.upsert (locate cwd path, data) })
      else (.error s!"ENOENT: no such file or directory, open '{path}'", machine)
  | .unlinkSync path =>
      if locate cwd path ∈ machine.files.keys then
        (.ok (), { machine with files := machine.files.delete (locate cwd path) })
      else if locate cwd path ∈ machine.directories then
        (.error s!"EISDIR: illegal operation on a directory, unlink '{path}'", machine)
      else (.error s!"ENOENT: no such file or directory, unlink '{path}'", machine)
  | .readdirSync path =>
      if locate cwd path ∈ machine.directories then
        (.ok (machine.entries (locate cwd path)), machine)
      else (.error s!"ENOENT: no such file or directory, scandir '{path}'", machine)
  | .statSync path =>
      match machine.contents (locate cwd path) with
      | some data => (.ok data.length, machine)
      | none =>
          if locate cwd path ∈ machine.directories then (.ok machine.directorySize, machine)
          else (.error s!"ENOENT: no such file or directory, stat '{path}'", machine)

end Machine

/-- The machine, and the metrics in the memory of the process. -/
structure Server.State where
  machine : Machine
  metrics : Metrics

/-- What the calls of the handlers do. -/
def serve (config : Config) : Handler serverCalls Server.State
  | .file op, state =>
      let accessed := state.machine.access config.cwd op
      (accessed.1, { state with machine := accessed.2 })
  | .metrics, state => (.ok state.metrics, state)
  | .setMetrics change, state => (.ok (), { state with metrics := change state.metrics })

/-! ## The chunks of a machine -/

/-- Some chunks, by their hashes. -/
abbrev Chunks : Type := Table (Prod.fst : String × Buffer → String)

namespace Chunks

/-- The bytes of a chunk. -/
def bytes (chunks : Chunks) (chunkHash : String) : Option Buffer :=
  (chunks.find? chunkHash).map Prod.snd

def totalSize (chunks : Chunks) : ℕ := (chunks.rows.map fun chunk => chunk.2.length).sum

def count (chunks : Chunks) : ℕ := chunks.rows.length

end Chunks

/-- The location of the file of a chunk. -/
def chunkLocation (config : Config) (chunkHash : String) : List String :=
  chunkHash :: follow (dataLocation config) (chunkPrefix chunkHash)

/-- The location of a subdirectory. -/
def subdirLocation (config : Config) (i : ℕ) : List String :=
  String.ofList (hexByte i) :: dataLocation config

/-- A text that the server accepts for the hash of a chunk. -/
def Accepted (chunkHash : String) : Prop := '/' ∉ chunkHash.toList ∧ chunkHash.length = 64

/-- **The machine stores the chunks.** The files where the server looks for chunks are those of the
chunks, and there is nothing else in the subdirectories. -/
structure Stores (config : Config) (machine : Machine) (chunks : Chunks) : Prop where
  subdirs : ∀ i < 256, subdirLocation config i ∈ machine.directories
  contents : ∀ chunkHash, Accepted chunkHash →
    machine.contents (chunkLocation config chunkHash) = chunks.bytes chunkHash
  valid : ∀ chunkHash ∈ chunks.keys, validChunkHash chunkHash = true
  noDirectory : ∀ chunkHash, Accepted chunkHash →
    chunkLocation config chunkHash ∉ machine.directories
  inSubdir : ∀ i < 256, ∀ name, name :: subdirLocation config i ∈ machine.files.keys →
    validChunkHash name = true ∧ chunkPrefix name = String.ofList (hexByte i)
  noDirectoryInSubdir : ∀ i < 256, ∀ name, name :: subdirLocation config i ∉ machine.directories

/-! ## The subdirectory of a chunk -/

theorem mem_hashCharacters {character : Char} (valid : isHashCharacter character = true) :
    ∃ digit < 16, character = Nat.digitChar digit := by
  have ranges : ∀ number < 128, isHashCharacter (Char.ofNat number) = true →
      ∃ digit < 16, Char.ofNat number = Nat.digitChar digit := by decide +kernel
  have ascii : character.toNat < 128 := by
    simp only [isHashCharacter, Bool.or_eq_true, Bool.and_eq_true, decide_eq_true_eq] at valid
    rcases valid with ⟨_, upper⟩ | ⟨_, upper⟩
    · exact lt_of_le_of_lt (Char.le_def.mp upper) (by decide)
    · exact lt_of_le_of_lt (Char.le_def.mp upper) (by decide)
  have same : Char.ofNat character.toNat = character := Char.ofNat_toNat character
  rw [← same] at valid ⊢
  exact ranges _ ascii valid

theorem hexByte_eq : ∀ high < 16, ∀ low < 16,
    hexByte (16 * high + low) = [Nat.digitChar high, Nat.digitChar low] := by decide +kernel

theorem accepted_of_valid {chunkHash : String} (valid : validChunkHash chunkHash = true) :
    Accepted chunkHash := by
  simp only [validChunkHash, Bool.and_eq_true, decide_eq_true_eq, List.all_eq_true] at valid
  refine ⟨fun slash => ?_, valid.1⟩
  exact absurd (valid.2 '/' slash) (by decide)

/-- The prefix of a valid hash names a subdirectory. -/
theorem exists_hexByte {chunkHash : String} (valid : validChunkHash chunkHash = true) :
    ∃ i < 256, chunkPrefix chunkHash = String.ofList (hexByte i) := by
  simp only [validChunkHash, Bool.and_eq_true, decide_eq_true_eq, List.all_eq_true] at valid
  obtain ⟨length, characters⟩ := valid
  rw [← String.length_toList] at length
  unfold chunkPrefix
  match form : chunkHash.toList, length with
  | first :: second :: rest, _ =>
      rw [form] at characters
      obtain ⟨high, highBound, rfl⟩ := mem_hashCharacters (characters first (by simp))
      obtain ⟨low, lowBound, rfl⟩ := mem_hashCharacters (characters second (by simp))
      refine ⟨16 * high + low, by omega, ?_⟩
      rw [hexByte_eq high highBound low lowBound]
      rfl

variable {config : Config} {machine : Machine} {chunks : Chunks} {chunkHash : String}

theorem chunkLocation_of_valid {i : ℕ} (bounded : i < 256)
    (inSubdir : chunkPrefix chunkHash = String.ofList (hexByte i)) :
    chunkLocation config chunkHash = chunkHash :: subdirLocation config i := by
  obtain ⟨whole, name⟩ := hexByte_isName i bounded
  have two := length_hexByte i bounded
  have other (short : List Char) (differs : short.length ≠ 2) :
      String.ofList (hexByte i) ≠ String.ofList short := by
    intro same
    rw [String.ofList_inj] at same
    exact differs (same ▸ two)
  have descends : String.ofList (hexByte i) ≠ String.ofList ['.', '.'] := by
    rwa [Ne, String.ofList_inj]
  unfold chunkLocation subdirLocation
  rw [inSubdir, follow_name (other [] (by decide)) (other ['.'] (by decide)) descends]

theorem chunkLocation_injective : Function.Injective (chunkLocation config) :=
  fun _ _ same => (List.cons.inj same).1

theorem subdirLocation_injOn {i j : ℕ} (first : i < 256) (second : j < 256)
    (same : subdirLocation config i = subdirLocation config j) : i = j := by
  have digits : ∀ number < 256, (hexByte number).foldl (fun value digit =>
      16 * value + (digit.toNat - (if digit.isDigit then 48 else 87))) 0 = number := by
    decide +kernel
  have names := String.ofList_inj.mp (List.cons.inj same).1
  rw [← digits i first, ← digits j second, names]

/-! ## The files of the chunks -/

namespace Stores

variable {data : Buffer}

theorem mem_keys_iff (stores : Stores config machine chunks) (accepted : Accepted chunkHash) :
    chunkLocation config chunkHash ∈ machine.files.keys ↔ chunkHash ∈ chunks.keys := by
  have same := congrArg Option.isSome (stores.contents chunkHash accepted)
  unfold Machine.contents Chunks.bytes at same
  rw [Option.isSome_map, Option.isSome_map] at same
  rw [← Table.isSome_find?_iff, ← Table.isSome_find?_iff, same]

/-- The chunk is written to its file. -/
theorem write (stores : Stores config machine chunks) (valid : validChunkHash chunkHash = true)
    (absent : chunkHash ∉ chunks.keys) :
    Stores config
      { machine with files := machine.files.upsert (chunkLocation config chunkHash, data) }
      (chunks.insertIfAbsent (chunkHash, data)) where
  subdirs := stores.subdirs
  contents := by
    intro other accepted
    unfold Machine.contents Chunks.bytes
    by_cases same : other = chunkHash
    · subst same
      have written : (machine.files.upsert (chunkLocation config other, data)).find?
          (chunkLocation config other) = some (chunkLocation config other, data) :=
        Table.find?_upsert_self
      have inserted : (chunks.insertIfAbsent (other, data)).find? other = some (other, data) :=
        Table.find?_insertIfAbsent_self absent
      rw [written, inserted]
      rfl
    · have kept : (machine.files.upsert (chunkLocation config chunkHash, data)).find?
          (chunkLocation config other) = machine.files.find? (chunkLocation config other) :=
        Table.find?_upsert_of_ne fun locations => same (chunkLocation_injective locations)
      have still : (chunks.insertIfAbsent (chunkHash, data)).find? other = chunks.find? other :=
        Table.find?_insertIfAbsent_of_ne same
      rw [kept, still]
      exact stores.contents other accepted
  valid := by
    intro other member
    rcases Table.mem_keys_insertIfAbsent.mp member with old | rfl
    · exact stores.valid other old
    · exact valid
  noDirectory := stores.noDirectory
  inSubdir := by
    intro i bounded name member
    rcases Table.mem_keys_upsert.mp member with old | here
    · exact stores.inSubdir i bounded name old
    · obtain ⟨j, other, inSubdir⟩ := exists_hexByte valid
      have location : name :: subdirLocation config i = chunkHash :: subdirLocation config j :=
        here.trans (chunkLocation_of_valid other inSubdir)
      obtain ⟨rfl, same⟩ := List.cons.inj location
      obtain rfl := subdirLocation_injOn bounded other same
      exact ⟨valid, inSubdir⟩
  noDirectoryInSubdir := stores.noDirectoryInSubdir

/-- The file of a chunk is removed. -/
theorem delete (stores : Stores config machine chunks) :
    Stores config { machine with files := machine.files.delete (chunkLocation config chunkHash) }
      (chunks.delete chunkHash) where
  subdirs := stores.subdirs
  contents := by
    intro other accepted
    unfold Machine.contents Chunks.bytes
    by_cases same : other = chunkHash
    · subst same
      rw [Table.find?_delete_self, Table.find?_delete_self]
      rfl
    · rw [Table.find?_delete_of_ne fun locations => same (chunkLocation_injective locations),
        Table.find?_delete_of_ne same]
      exact stores.contents other accepted
  valid other member := stores.valid other (Table.mem_keys_delete.mp member).1
  noDirectory := stores.noDirectory
  inSubdir i bounded name member :=
    stores.inSubdir i bounded name (Table.mem_keys_delete.mp member).1
  noDirectoryInSubdir := stores.noDirectoryInSubdir

/-! ## The used space -/

theorem ofName_eq_some_iff {name : String} {entry : EntryName} :
    EntryName.ofName name = some entry ↔ entry.name = name := by
  unfold EntryName.ofName
  constructor
  · intro found
    split at found
    · rw [← Option.some.inj found]
    · cases found
  · rintro rfl
    rw [dif_pos ⟨entry.whole, entry.nonempty, entry.other, entry.below⟩]

theorem entryBelow_eq_some_iff {directory location : List String} {entry : EntryName} :
    entryBelow directory location = some entry ↔ location = entry.name :: directory := by
  cases location with
  | nil => simp [entryBelow]
  | cons name parent =>
      show (if parent = directory then EntryName.ofName name else none) = some entry ↔ _
      rw [List.cons.injEq]
      by_cases same : parent = directory
      · rw [if_pos same, ofName_eq_some_iff, and_iff_left same]
        exact eq_comm
      · rw [if_neg same]
        exact iff_of_false nofun fun both => same both.2

theorem entryName_eq {first second : EntryName} (same : first.name = second.name) :
    first = second := by
  cases first
  cases second
  cases same
  rfl

/-- The names in a subdirectory are the hashes of the chunks in it. -/
theorem mem_entries_iff (stores : Stores config machine chunks) {i : ℕ} (bounded : i < 256)
    {entry : EntryName} :
    entry ∈ machine.entries (subdirLocation config i) ↔
      entry.name ∈ chunks.keys ∧ chunkPrefix entry.name = String.ofList (hexByte i) := by
  have below : entry ∈ machine.entries (subdirLocation config i) ↔
      entry.name :: subdirLocation config i ∈ machine.files.keys := by
    unfold Machine.entries
    simp only [List.mem_filterMap, entryBelow_eq_some_iff, exists_eq_right, List.mem_append]
    exact or_iff_left (stores.noDirectoryInSubdir i bounded entry.name)
  rw [below]
  constructor
  · intro member
    obtain ⟨valid, inSubdir⟩ := stores.inSubdir i bounded entry.name member
    rw [← chunkLocation_of_valid bounded inSubdir] at member
    exact ⟨(stores.mem_keys_iff (accepted_of_valid valid)).mp member, inSubdir⟩
  · rintro ⟨member, inSubdir⟩
    rw [← chunkLocation_of_valid bounded inSubdir]
    exact (stores.mem_keys_iff (accepted_of_valid (stores.valid _ member))).mpr member

theorem nodup_entries (stores : Stores config machine chunks) {i : ℕ} (bounded : i < 256) :
    (machine.entries (subdirLocation config i)).Nodup := by
  have none : machine.directories.filterMap (entryBelow (subdirLocation config i)) = [] := by
    refine List.filterMap_eq_nil_iff.mpr fun location member => ?_
    refine Option.eq_none_iff_forall_ne_some.mpr fun entry below => ?_
    rw [entryBelow_eq_some_iff.mp below] at member
    exact stores.noDirectoryInSubdir i bounded entry.name member
  unfold Machine.entries
  rw [List.filterMap_append, none, List.append_nil]
  refine machine.files.distinct.filterMap ?_
  intro first second entry one other
  rw [entryBelow_eq_some_iff.mp one, entryBelow_eq_some_iff.mp other]

/-- **The names in the subdirectories are the hashes of the chunks**, each once. -/
theorem perm_names (stores : Stores config machine chunks) :
    ((List.range 256).flatMap fun i =>
      (machine.entries (subdirLocation config i)).map EntryName.name).Perm chunks.keys := by
  refine (List.perm_ext_iff_of_nodup ?_ chunks.distinct).mpr fun name => ?_
  · refine List.nodup_flatMap.mpr ⟨fun i member => ?_, ?_⟩
    · exact (stores.nodup_entries (List.mem_range.mp member)).map_on
        fun _ _ _ _ same => entryName_eq same
    · refine List.nodup_range.imp_of_mem fun {i j} first second different => ?_
      intro name one other
      obtain ⟨entry, inFirst, rfl⟩ := List.mem_map.mp one
      obtain ⟨twin, inSecond, same⟩ := List.mem_map.mp other
      have here := (stores.mem_entries_iff (List.mem_range.mp first)).mp inFirst
      have there := (stores.mem_entries_iff (List.mem_range.mp second)).mp inSecond
      rw [same, here.2] at there
      have locations : subdirLocation config i = subdirLocation config j :=
        congrArg (· :: dataLocation config) there.2
      exact different (subdirLocation_injOn (List.mem_range.mp first) (List.mem_range.mp second)
        locations)
  · rw [List.mem_flatMap]
    constructor
    · rintro ⟨i, inRange, named⟩
      obtain ⟨entry, member, rfl⟩ := List.mem_map.mp named
      exact ((stores.mem_entries_iff (List.mem_range.mp inRange)).mp member).1
    · intro member
      obtain ⟨i, bounded, inSubdir⟩ := exists_hexByte (stores.valid name member)
      obtain ⟨entry, rfl⟩ : ∃ entry : EntryName, entry.name = name := by
        have accepted := accepted_of_valid (stores.valid name member)
        have other (short : String) (differs : short.length ≠ 64) : name ≠ short :=
          fun same => differs (same ▸ accepted.2)
        exact ⟨⟨name, accepted.1, other "" (by decide), other "." (by decide),
          other ".." (by decide)⟩, rfl⟩
      refine ⟨i, List.mem_range.mpr bounded, List.mem_map_of_mem ?_⟩
      exact (stores.mem_entries_iff bounded).mpr ⟨member, inSubdir⟩

/-- Adding up sizes and counting. -/
theorem foldl_addFile (size : String → ℕ) (names : List String) (totals : ℕ × ℕ) :
    names.foldl (fun totals name => (totals.1 + size name, totals.2 + 1)) totals =
      (totals.1 + (names.map size).sum, totals.2 + names.length) := by
  induction names generalizing totals with
  | nil => rfl
  | cons name names ih =>
      rw [List.foldl_cons, ih, List.map_cons, List.sum_cons, List.length_cons]
      exact Prod.ext (Nat.add_assoc ..) (Nat.add_right_comm ..)

/-- The size of a chunk. -/
def sizeOf (chunks : Chunks) (chunkHash : String) : ℕ :=
  ((chunks.bytes chunkHash).map List.length).getD 0

theorem sum_sizeOf (chunks : Chunks) :
    (chunks.keys.map (sizeOf chunks)).sum = chunks.totalSize := by
  unfold Chunks.totalSize Table.keys
  rw [List.map_map]
  refine congrArg List.sum (List.map_congr_left fun chunk member => ?_)
  have found : chunks.find? chunk.1 = some chunk := Table.find?_key member
  show ((chunks.bytes chunk.1).map List.length).getD 0 = _
  rw [Chunks.bytes, found]
  rfl

variable {state : Server.State}

theorem run_statSync (stores : Stores config state.machine chunks) {i : ℕ} (bounded : i < 256)
    {entry : EntryName} (member : entry ∈ state.machine.entries (subdirLocation config i)) :
    (file (.statSync (join [subdir config i, entry.name]))).run (serve config) state =
      (.ok (sizeOf chunks entry.name), state) := by
  obtain ⟨inChunks, inSubdir⟩ := (stores.mem_entries_iff bounded).mp member
  have accepted := accepted_of_valid (stores.valid _ inChunks)
  have held := stores.contents entry.name accepted
  obtain ⟨chunk, found⟩ := Option.isSome_iff_exists.mp (Table.isSome_find?_iff.mpr inChunks)
  have located : locate config.cwd (join [subdir config i, entry.name]) =
      chunkLocation config entry.name := by
    rw [locate_entry bounded, chunkLocation_of_valid bounded inSubdir]
    rfl
  unfold sizeOf
  rw [Chunks.bytes, found] at held ⊢
  have reported : state.machine.access config.cwd
      (.statSync (join [subdir config i, entry.name])) = (.ok chunk.2.length, state.machine) := by
    unfold Machine.access
    dsimp only
    rw [located, held]
    rfl
  rw [Program.run_perform]
  unfold serve
  dsimp only
  rw [reported]
  rfl

/-- A subdirectory adds its files to the totals. -/
theorem run_measureSubdir (stores : Stores config state.machine chunks) {i : ℕ} (bounded : i < 256)
    (totals : ℕ × ℕ) :
    (measureSubdir config totals i).run (serve config) state =
      (.ok (((state.machine.entries (subdirLocation config i)).map EntryName.name).foldl
        (fun totals name => (totals.1 + sizeOf chunks name, totals.2 + 1)) totals), state) := by
  have present := stores.subdirs i bounded
  have located : locate config.cwd (subdir config i) = subdirLocation config i :=
    locate_subdir bounded
  have there : (file (.existsSync (subdir config i))).run (serve config) state =
      (.ok true, state) := by
    rw [Program.run_perform]
    unfold serve Machine.access
    dsimp only
    rw [located, decide_eq_true (.inr present)]
  have listed : (file (.readdirSync (subdir config i))).run (serve config) state =
      (.ok (state.machine.entries (subdirLocation config i)), state) := by
    rw [Program.run_perform]
    unfold serve Machine.access
    dsimp only
    rw [located, if_pos present]
  rw [measureSubdir, Program.run_bind_ok _ there, if_pos rfl, Program.run_bind_ok _ listed,
    List.foldl_map]
  refine Program.run_foldEach_of_mem _ (fun totals entry member => ?_) totals
  rw [Program.run_bind_ok _ (stores.run_statSync bounded member)]
  rfl

/-- **The used space is the total size of the chunks**, and the chunk count their number. -/
theorem run_calculateUsedSpace (stores : Stores config state.machine chunks) :
    (calculateUsedSpace config).run (serve config) state =
      (.ok (), { state with
        metrics := { state.metrics with
          usedSpace := chunks.totalSize, chunkCount := chunks.count } }) := by
  have totals : (Program.foldEach (measureSubdir config) (0, 0) (List.range 256)).run
      (serve config) state = (.ok (chunks.totalSize, chunks.count), state) := by
    rw [Program.run_foldEach_of_mem _ fun totals i member =>
      stores.run_measureSubdir (List.mem_range.mp member) totals]
    rw [← List.foldl_flatMap, foldl_addFile, (stores.perm_names.map _).sum_eq,
      stores.perm_names.length_eq, sum_sizeOf]
    unfold Chunks.count Table.keys
    rw [List.length_map, Nat.zero_add, Nat.zero_add]
  rw [calculateUsedSpace, Program.run_bind_ok _ totals]
  rfl

end Stores

end DistributedFileStorage.Nodes.StorageServer
