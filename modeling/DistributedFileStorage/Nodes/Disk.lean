import DistributedFileStorage.Relational.Table
import DistributedFileStorage.Store.Records

/-!
# The directory of a storage node

A storage node keeps its chunks under its storage path, in one level of
subdirectories. The directory is modelled as far as the node uses it: the
subdirectories that exist, and the files in them with their contents. A file
lies in a subdirectory that exists.
-/

set_option autoImplicit false

namespace DistributedFileStorage.Nodes

open Relational Store

/-- A `Buffer`. -/
abbrev Buffer := List UInt8

/-- The path of a file below the storage path: its subdirectory and its name. -/
abbrev Path := String × String

/-- A file: its path and its contents. -/
abbrev File := Path × Buffer

structure Disk where
  directories : List String
  files : Table (Prod.fst : File → Path)
  parent : ∀ file ∈ files.rows, file.1.1 ∈ directories

namespace Disk

/-- An empty storage directory. -/
def empty : Disk := ⟨[], .empty _, by simp⟩

/-- `fs.mkdir(directory, { recursive: true })`. -/
def mkdir (disk : Disk) (directory : String) : Disk :=
  { disk with
    directories := if directory ∈ disk.directories then disk.directories
      else disk.directories ++ [directory]
    parent := fun file member => by
      have here := disk.parent file member
      split
      · exact here
      · exact List.mem_append_left _ here }

theorem mem_directories_mkdir (disk : Disk) (directory : String) :
    directory ∈ (disk.mkdir directory).directories := by
  unfold mkdir
  dsimp only
  split
  · assumption
  · simp

theorem directories_subset_mkdir (disk : Disk) (directory : String) :
    disk.directories ⊆ (disk.mkdir directory).directories := by
  intro other member
  unfold mkdir
  dsimp only
  split
  · exact member
  · exact List.mem_append_left _ member

/-- `fs.writeFile(path, data)`: create the file or replace its contents. -/
def writeFile (disk : Disk) (path : Path) (data : Buffer) : Except Failure Disk :=
  if present : path.1 ∈ disk.directories then
    .ok { disk with
      files := disk.files.upsert (path, data)
      parent := fun file member => by
        rcases Table.mem_keys_upsert.mp (Table.key_mem_keys member) with old | here
        · obtain ⟨other, memberOther, same⟩ := Table.mem_keys.mp old
          exact same ▸ disk.parent other memberOther
        · exact here ▸ present }
  else .error .noEntry

/-- A write into a subdirectory that exists works, and creates no subdirectory. -/
theorem exists_writeFile {disk : Disk} {path : Path} (present : path.1 ∈ disk.directories)
    (data : Buffer) : ∃ written, disk.writeFile path data = .ok written ∧
      written.directories = disk.directories := by
  unfold writeFile
  rw [dif_pos present]
  exact ⟨_, rfl, rfl⟩

/-- A write creates no subdirectory. -/
theorem directories_writeFile {disk written : Disk} {path : Path} {data : Buffer}
    (done : disk.writeFile path data = .ok written) : written.directories = disk.directories := by
  unfold writeFile at done
  split at done
  · rw [← Except.ok.inj done]
  · cases done

/-- `fs.readFile(path)`. -/
def readFile (disk : Disk) (path : Path) : Except Failure Buffer :=
  match disk.files.find? path with
  | some file => .ok file.2
  | none => .error .noEntry

/-- `fs.unlink(path)`. -/
def unlink (disk : Disk) (path : Path) : Except Failure Disk :=
  if path ∈ disk.files.keys then
    .ok { disk with
      files := disk.files.delete path
      parent := fun file member => disk.parent file (Table.mem_delete.mp member).1 }
  else .error .noEntry

/-- The names of the files in a subdirectory. -/
def names (disk : Disk) (directory : String) : List String :=
  (disk.files.keys.filter fun path => path.1 = directory).map Prod.snd

/-- `fs.readdir(directory)`. -/
def readdir (disk : Disk) (directory : String) : Except Failure (List String) :=
  if directory ∈ disk.directories then .ok (disk.names directory) else .error .noEntry

/-- The contents of the file at a path. -/
def contents (disk : Disk) (path : Path) : Option Buffer := (disk.files.find? path).map Prod.snd

theorem readFile_eq (disk : Disk) (path : Path) :
    disk.readFile path = match disk.contents path with
      | some data => .ok data
      | none => .error .noEntry := by
  unfold readFile contents
  cases disk.files.find? path <;> rfl

/-- A write replaces the contents at its path and no other contents. -/
theorem contents_writeFile {disk written : Disk} {path : Path} {data : Buffer}
    (done : disk.writeFile path data = .ok written) (other : Path) :
    written.contents other = if other = path then some data else disk.contents other := by
  unfold writeFile at done
  split at done
  · rw [← Except.ok.inj done]
    by_cases same : other = path
    · subst same
      rw [if_pos rfl]
      have found : (disk.files.upsert (other, data)).find? other = some (other, data) :=
        Table.find?_upsert_self
      exact congrArg (Option.map Prod.snd) found
    · rw [if_neg same]
      have found : (disk.files.upsert (path, data)).find? other = disk.files.find? other :=
        Table.find?_upsert_of_ne same
      exact congrArg (Option.map Prod.snd) found
  · cases done

/-- A write that rejects finds no file. -/
theorem contents_eq_none_of_writeFile_error {disk : Disk} {path : Path} {data : Buffer}
    {failure : Failure} (failed : disk.writeFile path data = .error failure) :
    disk.contents path = none := by
  unfold writeFile at failed
  split at failed
  · cases failed
  · rename_i absent
    unfold contents
    cases found : disk.files.find? path with
    | none => rfl
    | some file =>
        obtain ⟨member, same⟩ := Table.find?_eq_some_iff.mp found
        exact absurd (same ▸ disk.parent file member) absent

/-- A deletion empties its path and no other path. -/
theorem contents_unlink {disk unlinked : Disk} {path : Path}
    (done : disk.unlink path = .ok unlinked) (other : Path) :
    unlinked.contents other = if other = path then none else disk.contents other := by
  unfold unlink at done
  split at done
  · rw [← Except.ok.inj done]
    by_cases same : other = path
    · subst same
      rw [if_pos rfl]
      exact congrArg (Option.map Prod.snd) Table.find?_delete_self
    · rw [if_neg same]
      exact congrArg (Option.map Prod.snd) (Table.find?_delete_of_ne same)
  · cases done

theorem contents_eq_none_of_unlink_error {disk : Disk} {path : Path} {failure : Failure}
    (failed : disk.unlink path = .error failure) : disk.contents path = none := by
  unfold unlink at failed
  split at failed
  · cases failed
  · rename_i absent
    unfold contents
    rw [Table.find?_eq_none_iff.mpr absent]
    rfl

/-! ## The names of the files -/

theorem mem_names {disk : Disk} {directory name : String} :
    name ∈ disk.names directory ↔ (directory, name) ∈ disk.files.keys := by
  unfold names
  constructor
  · intro member
    obtain ⟨path, kept, rfl⟩ := List.mem_map.mp member
    obtain ⟨listed, here⟩ := List.mem_filter.mp kept
    rwa [← of_decide_eq_true here]
  · intro listed
    exact List.mem_map.mpr ⟨_, List.mem_filter.mpr ⟨listed, decide_eq_true rfl⟩, rfl⟩

theorem nodup_names (disk : Disk) (directory : String) : (disk.names directory).Nodup := by
  refine (disk.files.distinct.filter _).map_on ?_
  intro first memberFirst second memberSecond same
  have here := of_decide_eq_true (List.mem_filter.mp memberFirst).2
  have there := of_decide_eq_true (List.mem_filter.mp memberSecond).2
  exact Prod.ext (here.trans there.symm) same

/-- A file is at each path that has contents. -/
theorem isSome_contents_iff {disk : Disk} {path : Path} :
    (disk.contents path).isSome = true ↔ path ∈ disk.files.keys := by
  unfold contents
  rw [Option.isSome_map, Table.isSome_find?_iff]

theorem mem_keys_writeFile {disk written : Disk} {path : Path} {data : Buffer}
    (done : disk.writeFile path data = .ok written) {other : Path}
    (member : other ∈ written.files.keys) : other ∈ disk.files.keys ∨ other = path := by
  rw [← isSome_contents_iff, contents_writeFile done] at member
  split at member
  · rename_i here
    exact .inr here
  · exact .inl (isSome_contents_iff.mp member)

theorem mem_keys_unlink {disk unlinked : Disk} {path : Path}
    (done : disk.unlink path = .ok unlinked) {other : Path}
    (member : other ∈ unlinked.files.keys) : other ∈ disk.files.keys := by
  rw [← isSome_contents_iff, contents_unlink done] at member
  split at member
  · cases member
  · exact isSome_contents_iff.mp member

theorem isSome_contents_of_unlink {disk unlinked : Disk} {path : Path}
    (done : disk.unlink path = .ok unlinked) : (disk.contents path).isSome = true := by
  unfold unlink at done
  split at done
  · rename_i present
    exact isSome_contents_iff.mpr present
  · cases done

theorem directories_unlink {disk unlinked : Disk} {path : Path}
    (done : disk.unlink path = .ok unlinked) : unlinked.directories = disk.directories := by
  unfold unlink at done
  split at done
  · rw [← Except.ok.inj done]
  · cases done

theorem nodup_mkdir {disk : Disk} (distinct : disk.directories.Nodup) (directory : String) :
    (disk.mkdir directory).directories.Nodup := by
  unfold mkdir
  dsimp only
  split
  · exact distinct
  · rename_i fresh
    exact distinct.append (List.nodup_singleton _) (List.disjoint_singleton.mpr fresh)

end Disk

end DistributedFileStorage.Nodes
