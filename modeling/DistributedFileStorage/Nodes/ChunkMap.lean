import DistributedFileStorage.Nodes.StorageNode
import Mathlib.Data.List.Induction

/-!
# A storage node is a map

A storage node spreads its chunks over subdirectories that it creates when it needs them, and a
listing goes through two levels. To its callers it is a map from hashes to bytes. Calls with
arbitrary hashes answer as the map says, and a call with a malformed hash leaves the map as it is
(`answers_eq`). The listing of the chunks and their number are those of the map, in whatever order
the file system lists the entries of a directory (`actsAs_of_represents`).
-/

set_option autoImplicit false

namespace DistributedFileStorage.Nodes

open Async Store Services Relational

/-! ## The map -/

/-- The bytes under each hash. -/
abbrev ChunkMap : Type := ChunkHash → Option Buffer

/-- A call about one chunk. -/
inductive ChunkCall where
  | writeChunk (chunkHash : ChunkHash) (data : Buffer)
  | readChunk (chunkHash : ChunkHash)
  | deleteChunk (chunkHash : ChunkHash)
  | verifyChunkIntegrity (chunkHash : ChunkHash)

/-- What a call about one chunk resolves to. -/
inductive ChunkAnswer where
  | done
  | bytes (data : Buffer)
  | intact (verdict : Bool)
  deriving DecidableEq

namespace ChunkCall

def chunkHash : ChunkCall → ChunkHash
  | writeChunk chunkHash _ => chunkHash
  | readChunk chunkHash => chunkHash
  | deleteChunk chunkHash => chunkHash
  | verifyChunkIntegrity chunkHash => chunkHash

/-- The map after a call. -/
def after (map : ChunkMap) (call : ChunkCall) : ChunkMap :=
  if validChunkHash call.chunkHash then
    match call with
    | writeChunk chunkHash data => Function.update map chunkHash (some data)
    | deleteChunk chunkHash => Function.update map chunkHash none
    | _ => map
  else map

/-- The counter in memory after a call on a node that holds the map. -/
def countAfter (map : ChunkMap) (count : ℕ) (call : ChunkCall) : ℕ :=
  if validChunkHash call.chunkHash then
    match call with
    | writeChunk _ _ => count + 1
    | deleteChunk chunkHash => if (map chunkHash).isSome then count - 1 else count
    | _ => count
  else count

/-- What the map answers. -/
def answer (sha256 : Sha256) (map : ChunkMap) (call : ChunkCall) : Except Failure ChunkAnswer :=
  if validChunkHash call.chunkHash then
    match call with
    | writeChunk _ _ => .ok .done
    | readChunk chunkHash =>
        match map chunkHash with
        | some data => .ok (.bytes data)
        | none => .error (.error s!"Chunk not found: {chunkHash}")
    | deleteChunk _ => .ok .done
    | verifyChunkIntegrity chunkHash =>
        .ok (.intact ((map chunkHash).any fun data => sha256.digest data = chunkHash))
  else .error (.error s!"Invalid chunk hash format: {call.chunkHash}")

/-- The answers to calls that are made one after the other. -/
def answers (sha256 : Sha256) : ChunkMap → List ChunkCall → List (Except Failure ChunkAnswer)
  | _, [] => []
  | map, call :: rest => call.answer sha256 map :: answers sha256 (call.after map) rest

/-- The method of the storage node. -/
def program (sha256 : Sha256) (nodeId : NodeId) : ChunkCall → Async ChunkAnswer
  | writeChunk chunkHash data => do
      StorageNodeImpl.writeChunk nodeId chunkHash data
      pure .done
  | readChunk chunkHash => do
      let data ← StorageNodeImpl.readChunk nodeId chunkHash
      pure (.bytes data)
  | deleteChunk chunkHash => do
      StorageNodeImpl.deleteChunk nodeId chunkHash
      pure .done
  | verifyChunkIntegrity chunkHash => do
      let verdict ← StorageNodeImpl.verifyChunkIntegrity sha256 nodeId chunkHash
      pure (.intact verdict)

end ChunkCall

/-! ## The file system -/

/-- The calls do what they do when they work, and a directory is listed in any order. -/
inductive AnyOrder : (op : Call) → World → Except Failure op.Result → World → Prop
  | works {op : Call} {before after : World} {outcome : Except Failure op.Result}
      (made : exec op before = (outcome, after)) : AnyOrder op before outcome after
  | subdirectories {nodeId : NodeId} {world : World} {names : List String}
      (listed : names.Perm (world.nodes nodeId).disk.directories) :
      AnyOrder (.disk nodeId .readSubdirectories) world (.ok names) world
  | files {nodeId : NodeId} {directory : String} {world : World} {names : List String}
      (present : directory ∈ (world.nodes nodeId).disk.directories)
      (listed : names.Perm ((world.nodes nodeId).disk.names directory)) :
      AnyOrder (.disk nodeId (.readdir directory)) world (.ok names) world

/-- The call does not list a directory. -/
def ListsNothing : Call → Prop
  | .disk _ .readSubdirectories => False
  | .disk _ (.readdir _) => False
  | _ => True

/-- Calls made one after the other, with their answers. -/
inductive CallsMade (sha256 : Sha256) (nodeId : NodeId) :
    List ChunkCall → World → List (Except Failure ChunkAnswer) → World → Prop
  | none (world : World) : CallsMade sha256 nodeId [] world [] world
  | next {call : ChunkCall} {calls : List ChunkCall} {before middle reached : World}
      {answer : Except Failure ChunkAnswer} {answers : List (Except Failure ChunkAnswer)}
      (here : Runs AnyOrder (call.program sha256 nodeId) before answer middle)
      (later : CallsMade sha256 nodeId calls middle answers reached) :
      CallsMade sha256 nodeId (call :: calls) before (answer :: answers) reached

/-! ## The chunks on the disk -/

/-- The disk holds the chunks of the map, each at its path, and nothing else. -/
structure Represents (disk : Disk) (map : ChunkMap) : Prop where
  contents : ∀ chunkHash, disk.contents (getChunkPath chunkHash) = map chunkHash
  located : ∀ path ∈ disk.files.keys, path = getChunkPath path.2
  distinct : disk.directories.Nodup

namespace Represents

variable {disk changed : Disk} {map : ChunkMap} {chunkHash : ChunkHash} {data : Buffer}

theorem empty : Represents .empty fun _ => none where
  contents _ := rfl
  located := by
    intro path member
    cases member
  distinct := List.nodup_nil

theorem mkdir (represents : Represents disk map) (directory : String) :
    Represents (disk.mkdir directory) map where
  contents := represents.contents
  located := represents.located
  distinct := Disk.nodup_mkdir represents.distinct directory

theorem writeFile (represents : Represents disk map)
    (done : disk.writeFile (getChunkPath chunkHash) data = .ok changed) :
    Represents changed (Function.update map chunkHash (some data)) where
  contents := by
    intro other
    simp only [Disk.contents_writeFile done, Function.update_apply, getChunkPath_injective.eq_iff,
      represents.contents]
  located := by
    intro path member
    rcases Disk.mem_keys_writeFile done member with old | rfl
    · exact represents.located path old
    · rfl
  distinct := Disk.directories_writeFile done ▸ represents.distinct

theorem unlink (represents : Represents disk map)
    (done : disk.unlink (getChunkPath chunkHash) = .ok changed) :
    Represents changed (Function.update map chunkHash none) where
  contents := by
    intro other
    simp only [Disk.contents_unlink done, Function.update_apply, getChunkPath_injective.eq_iff,
      represents.contents]
  located := by
    intro path member
    exact represents.located path (Disk.mem_keys_unlink done member)
  distinct := Disk.directories_unlink done ▸ represents.distinct

/-- Deleting a chunk that is not there leaves the map as it is. -/
theorem unlink_error (represents : Represents disk map) {failure : Failure}
    (failed : disk.unlink (getChunkPath chunkHash) = .error failure) :
    Represents disk (Function.update map chunkHash none) := by
  have absent : map chunkHash = none := by
    rw [← represents.contents]
    exact Disk.contents_eq_none_of_unlink_error failed
  rw [← absent, Function.update_eq_self]
  exact represents

end Represents

/-- The names of the files in all subdirectories. -/
def Disk.allNames (disk : Disk) : List String := disk.directories.flatMap disk.names

/-- **The names of the files are the hashes of the chunks, each once.** -/
theorem Represents.allNames {disk : Disk} {map : ChunkMap} (represents : Represents disk map) :
    disk.allNames.Nodup ∧ ∀ chunkHash, chunkHash ∈ disk.allNames ↔ (map chunkHash).isSome := by
  constructor
  · refine List.nodup_flatMap.mpr ⟨fun directory _ => disk.nodup_names directory, ?_⟩
    apply represents.distinct.imp
    intro first second different name one other
    have here := represents.located _ (Disk.mem_names.mp one)
    have there := represents.located _ (Disk.mem_names.mp other)
    -- the name decides in which subdirectory the file is
    exact different ((congrArg Prod.fst here).trans (congrArg Prod.fst there).symm)
  · intro chunkHash
    rw [← represents.contents, Disk.isSome_contents_iff, Disk.allNames, List.mem_flatMap]
    constructor
    · rintro ⟨directory, _, member⟩
      have listed := Disk.mem_names.mp member
      rwa [represents.located _ listed] at listed
    · intro listed
      obtain ⟨file, member, path⟩ := Table.mem_keys.mp listed
      refine ⟨chunkPrefix chunkHash, ?_, Disk.mem_names.mpr listed⟩
      have inside := disk.parent file member
      rwa [path] at inside

/-! ## The calls about one chunk -/

section Calls

variable {nodeId : NodeId} {chunkHash : ChunkHash} {world : World} {map : ChunkMap}

@[simp] theorem disk_setNode (node : StorageNode) :
    ((world.setNode nodeId node).nodes nodeId).disk = node.disk := by
  rw [World.nodes_setNode, if_pos rfl]

@[simp] theorem chunkCount_setNode (node : StorageNode) :
    ((world.setNode nodeId node).nodes nodeId).chunkCount = node.chunkCount := by
  rw [World.nodes_setNode, if_pos rfl]

@[simp] theorem disk_mkdir (directory : String) :
    ((exec (.disk nodeId (.mkdir directory)) world).2.nodes nodeId).disk =
      (world.nodes nodeId).disk.mkdir directory :=
  disk_setNode _

@[simp] theorem disk_countChunk :
    ((exec (.disk nodeId .countChunk) world).2.nodes nodeId).disk = (world.nodes nodeId).disk :=
  disk_setNode _

@[simp] theorem disk_uncountChunk :
    ((exec (.disk nodeId .uncountChunk) world).2.nodes nodeId).disk = (world.nodes nodeId).disk :=
  disk_setNode _

@[simp] theorem chunkCount_countChunk :
    ((exec (.disk nodeId .countChunk) world).2.nodes nodeId).chunkCount =
      (world.nodes nodeId).chunkCount + 1 :=
  chunkCount_setNode _

@[simp] theorem chunkCount_uncountChunk :
    ((exec (.disk nodeId .uncountChunk) world).2.nodes nodeId).chunkCount =
      (world.nodes nodeId).chunkCount - 1 :=
  chunkCount_setNode _

@[simp] theorem disk_setChunkCount (count : ℕ) :
    ((exec (.disk nodeId (.setChunkCount count)) world).2.nodes nodeId).disk =
      (world.nodes nodeId).disk :=
  disk_setNode _

namespace StorageNodeImpl

theorem run_writeChunk (valid : validChunkHash chunkHash = true) (data : Buffer)
    (represents : Represents (world.nodes nodeId).disk map) :
    ∃ after, (writeChunk nodeId chunkHash data).run exec world = (.ok (), after) ∧
      Represents (after.nodes nodeId).disk (Function.update map chunkHash (some data)) ∧
      (after.nodes nodeId).chunkCount = (world.nodes nodeId).chunkCount + 1 := by
  obtain ⟨created, creates, directory, counted⟩ : ∃ created,
      (disk nodeId (.mkdir (chunkPrefix chunkHash))).run exec world = (.ok (), created) ∧
        (created.nodes nodeId).disk = (world.nodes nodeId).disk.mkdir (chunkPrefix chunkHash) ∧
        (created.nodes nodeId).chunkCount = (world.nodes nodeId).chunkCount :=
    ⟨_, rfl, disk_mkdir _, chunkCount_setNode _⟩
  have present : (getChunkPath chunkHash).1 ∈ (created.nodes nodeId).disk.directories := by
    rw [directory]
    exact Disk.mem_directories_mkdir _ _
  obtain ⟨written, writes, _⟩ := Disk.exists_writeFile present data
  have made : (disk nodeId (.writeFile (getChunkPath chunkHash) data)).run exec created =
      (.ok (), created.setNode nodeId { created.nodes nodeId with disk := written }) :=
    congrArg (created.flush nodeId) writes
  rw [writeChunk, Program.run_bind_ok exec (run_validateChunkHash exec world valid),
    Program.run_tryCatch, Program.run_bind_ok exec creates, Program.run_bind_ok exec made]
  refine ⟨_, rfl, ?_, ?_⟩
  · rw [disk_countChunk, disk_setNode]
    exact (directory ▸ represents.mkdir _).writeFile writes
  · rw [chunkCount_countChunk, chunkCount_setNode, counted]

theorem run_deleteChunk (valid : validChunkHash chunkHash = true)
    (represents : Represents (world.nodes nodeId).disk map) :
    ∃ after, (deleteChunk nodeId chunkHash).run exec world = (.ok (), after) ∧
      Represents (after.nodes nodeId).disk (Function.update map chunkHash none) ∧
      (after.nodes nodeId).chunkCount = if (map chunkHash).isSome then
        (world.nodes nodeId).chunkCount - 1 else (world.nodes nodeId).chunkCount := by
  rw [deleteChunk, Program.run_bind_ok exec (run_validateChunkHash exec world valid),
    Program.run_tryCatch]
  cases unlinks : (world.nodes nodeId).disk.unlink (getChunkPath chunkHash) with
  | error failure =>
      have fails : (disk nodeId (.unlink (getChunkPath chunkHash))).run exec world =
          (.error failure, world) := congrArg (world.flush nodeId) unlinks
      have missing : failure = .noEntry := by
        unfold Disk.unlink at unlinks
        split at unlinks
        · cases unlinks
        · exact (Except.error.inj unlinks).symm
      rw [Program.run_bind_error exec fails]
      dsimp only
      rw [if_pos missing]
      have absent : map chunkHash = none := by
        rw [← represents.contents]
        exact Disk.contents_eq_none_of_unlink_error unlinks
      exact ⟨world, rfl, represents.unlink_error unlinks, by rw [absent]; rfl⟩
  | ok unlinked =>
      have works : (disk nodeId (.unlink (getChunkPath chunkHash))).run exec world =
          (.ok (), world.setNode nodeId { world.nodes nodeId with disk := unlinked }) :=
        congrArg (world.flush nodeId) unlinks
      have present : (map chunkHash).isSome = true := by
        rw [← represents.contents]
        exact Disk.isSome_contents_of_unlink unlinks
      rw [Program.run_bind_ok exec works]
      refine ⟨_, rfl, ?_, ?_⟩
      · rw [disk_uncountChunk, disk_setNode]
        exact represents.unlink unlinks
      · rw [chunkCount_uncountChunk, chunkCount_setNode, if_pos present]

theorem run_readChunk (valid : validChunkHash chunkHash = true)
    (represents : Represents (world.nodes nodeId).disk map) :
    (readChunk nodeId chunkHash).run exec world =
      (match map chunkHash with
        | some data => .ok data
        | none => .error (.error s!"Chunk not found: {chunkHash}"), world) := by
  rw [readChunk, Program.run_bind_ok exec (run_validateChunkHash exec world valid),
    Program.run_tryCatch]
  have reads : (disk nodeId (.readFile (getChunkPath chunkHash))).run exec world =
      ((world.nodes nodeId).disk.readFile (getChunkPath chunkHash), world) := rfl
  rw [reads, Disk.readFile_eq, represents.contents]
  cases map chunkHash with
  | some data => rfl
  | none => rfl

theorem run_verifyChunkIntegrity (sha256 : Sha256) (valid : validChunkHash chunkHash = true)
    (represents : Represents (world.nodes nodeId).disk map) :
    (verifyChunkIntegrity sha256 nodeId chunkHash).run exec world =
      (.ok ((map chunkHash).any fun data => sha256.digest data = chunkHash), world) := by
  rw [verifyChunkIntegrity, Program.run_bind_ok exec (run_validateChunkHash exec world valid),
    Program.run_tryCatch, Program.run_bind, run_readChunk valid represents]
  cases map chunkHash with
  | some data => rfl
  | none => rfl

theorem run_invalid {α : Type} (invalid : validChunkHash chunkHash = false)
    (next : Unit → Async α) :
    (validateChunkHash chunkHash >>= next).run exec world =
      (.error (.error s!"Invalid chunk hash format: {chunkHash}"), world) := by
  rw [validateChunkHash, if_neg (by simp [invalid])]
  rfl

end StorageNodeImpl

theorem ChunkCall.run_program_invalid {sha256 : Sha256} {call : ChunkCall}
    (invalid : validChunkHash call.chunkHash = false) :
    (call.program sha256 nodeId).run exec world =
      (.error (.error s!"Invalid chunk hash format: {call.chunkHash}"), world) := by
  cases call with
  | writeChunk chunkHash data =>
      exact Program.run_bind_error exec (StorageNodeImpl.run_invalid invalid _)
  | readChunk chunkHash =>
      exact Program.run_bind_error exec (StorageNodeImpl.run_invalid invalid _)
  | deleteChunk chunkHash =>
      exact Program.run_bind_error exec (StorageNodeImpl.run_invalid invalid _)
  | verifyChunkIntegrity chunkHash =>
      exact Program.run_bind_error exec (StorageNodeImpl.run_invalid invalid _)

/-- **One call**: it answers as the map says, and leaves the map that the call leads to. A call with
a malformed hash changes nothing. -/
theorem ChunkCall.run_program (sha256 : Sha256)
    (represents : Represents (world.nodes nodeId).disk map) (call : ChunkCall) :
    ∃ after, (call.program sha256 nodeId).run exec world = (call.answer sha256 map, after) ∧
      Represents (after.nodes nodeId).disk (call.after map) ∧
      (validChunkHash call.chunkHash = false → after = world) ∧
      (after.nodes nodeId).chunkCount = call.countAfter map (world.nodes nodeId).chunkCount := by
  cases valid : validChunkHash call.chunkHash with
  | false =>
      have malformed : ¬ validChunkHash call.chunkHash = true := by simp [valid]
      have same : call.after map = map := by
        unfold ChunkCall.after
        exact if_neg malformed
      have answered : call.answer sha256 map =
          .error (.error s!"Invalid chunk hash format: {call.chunkHash}") := by
        unfold ChunkCall.answer
        exact if_neg malformed
      rw [ChunkCall.run_program_invalid valid, answered, same]
      exact ⟨world, rfl, represents, fun _ => rfl, (if_neg malformed).symm⟩
  | true =>
      unfold ChunkCall.answer ChunkCall.after ChunkCall.countAfter
      rw [if_pos valid, if_pos valid, if_pos valid]
      cases call with
      | writeChunk chunkHash data =>
          obtain ⟨after, run, holds, counted⟩ :=
            StorageNodeImpl.run_writeChunk valid data represents
          exact ⟨after, Program.run_bind_ok exec run, holds, nofun, counted⟩
      | readChunk chunkHash =>
          have wellFormed : validChunkHash chunkHash = true := valid
          refine ⟨world, ?_, represents, nofun, rfl⟩
          dsimp only
          rw [ChunkCall.program, Program.run_bind,
            StorageNodeImpl.run_readChunk wellFormed represents]
          cases map chunkHash with
          | some data => rfl
          | none => rfl
      | deleteChunk chunkHash =>
          obtain ⟨after, run, holds, counted⟩ :=
            StorageNodeImpl.run_deleteChunk valid represents
          exact ⟨after, Program.run_bind_ok exec run, holds, nofun, counted⟩
      | verifyChunkIntegrity chunkHash =>
          have run := StorageNodeImpl.run_verifyChunkIntegrity sha256 valid represents
          exact ⟨world, Program.run_bind_ok exec run, represents, nofun, rfl⟩

theorem allCalls_validateChunkHash :
    (StorageNodeImpl.validateChunkHash chunkHash).AllCalls ListsNothing := by
  unfold StorageNodeImpl.validateChunkHash
  split
  · trivial
  · trivial

theorem allCalls_readChunk :
    (StorageNodeImpl.readChunk nodeId chunkHash).AllCalls ListsNothing := by
  apply allCalls_validateChunkHash.bind
  intro _
  apply Program.AllCalls.tryCatch (.perform trivial)
  intro failure
  split
  · trivial
  · trivial

/-- The calls about one chunk list no directory. -/
theorem ChunkCall.allCalls_program (sha256 : Sha256) (call : ChunkCall) :
    (call.program sha256 nodeId).AllCalls ListsNothing := by
  cases call with
  | writeChunk chunkHash data =>
      refine .bind (allCalls_validateChunkHash.bind fun _ => .tryCatch ?_ fun _ => trivial)
        fun _ => trivial
      exact .bind (.perform trivial) fun _ => .bind (.perform trivial) fun _ => .perform trivial
  | readChunk chunkHash => exact allCalls_readChunk.bind fun _ => trivial
  | deleteChunk chunkHash =>
      refine .bind (allCalls_validateChunkHash.bind fun _ => .tryCatch ?_ fun failure => ?_)
        fun _ => trivial
      · exact .bind (.perform trivial) fun _ => .perform trivial
      · split
        · trivial
        · trivial
  | verifyChunkIntegrity chunkHash =>
      refine .bind (allCalls_validateChunkHash.bind fun _ => .tryCatch ?_ fun _ => trivial)
        fun _ => trivial
      exact allCalls_readChunk.bind fun _ => trivial

/-- A program that lists no directory runs as it does on a file system with an order. -/
theorem run_of_listsNothing {α : Type} {program : Async α} {after : World}
    {outcome : Except Failure α} (calls : program.AllCalls ListsNothing)
    (run : Runs AnyOrder program world outcome after) :
    program.run exec world = (outcome, after) := by
  refine runs_semantics_iff.mp (run.mono_of_allCalls (fun op before outcome after lists made => ?_)
    calls)
  cases made with
  | works made => exact made
  | subdirectories listed => cases lists
  | files present listed => cases lists

/-! ## The listing -/

/-- The subdirectories, in any order. -/
theorem triple_getSubdirectories :
    Triple AnyOrder (· = world) (StorageNodeImpl.getSubdirectories nodeId)
      (fun subdirs after => subdirs.Perm (world.nodes nodeId).disk.directories ∧ after = world)
      (fun _ => False) := by
  have read : Triple AnyOrder (· = world) (disk nodeId .readSubdirectories)
      (fun subdirs after => subdirs.Perm (world.nodes nodeId).disk.directories ∧ after = world)
      (fun _ => False) := by
    refine .perform ?_
    rintro before outcome after rfl made
    cases made with
    | works made =>
        obtain ⟨rfl, rfl⟩ := Prod.mk.inj made
        exact ⟨.rfl, rfl⟩
    | subdirectories listed => exact ⟨listed, rfl⟩
  exact read.tryCatch fun _ => .pure fun _ => False.elim

theorem triple_readdir {directory : String}
    (present : directory ∈ (world.nodes nodeId).disk.directories) :
    Triple AnyOrder (· = world) (disk nodeId (.readdir directory))
      (fun names after => names.Perm ((world.nodes nodeId).disk.names directory) ∧ after = world)
      (fun _ => False) := by
  refine .perform ?_
  rintro before outcome after rfl made
  cases made with
  | works made =>
      have listed : (before.nodes nodeId).disk.readdir directory =
          .ok ((before.nodes nodeId).disk.names directory) := if_pos present
      have works : ((before.nodes nodeId).disk.readdir directory, before) = (outcome, after) := made
      rw [listed] at works
      obtain ⟨rfl, rfl⟩ := Prod.mk.inj works
      exact ⟨.rfl, rfl⟩
  | files _ listed => exact ⟨listed, rfl⟩

/-- **A loop over the subdirectories** gathers the names of their files, whatever it makes of
them. -/
theorem triple_gather {σ : Type} {add : σ → List String → σ} (gathers : σ → List String → Prop)
    (more : ∀ value names files listed, gathers value names → files.Perm listed →
      gathers (add value files) (names ++ listed))
    {start : σ} (initially : gathers start []) {subdirs : List String}
    (present : subdirs ⊆ (world.nodes nodeId).disk.directories) :
    Triple AnyOrder (· = world)
      (Program.foldEach
        (fun value subdir => do
          let files ← disk nodeId (.readdir subdir)
          pure (add value files)) start subdirs)
      (fun value after => gathers value (subdirs.flatMap (world.nodes nodeId).disk.names) ∧
        after = world)
      (fun _ => False) := by
  let invariant : σ → List String → World → Prop := fun value rest after =>
    (∃ read, read ++ rest = subdirs ∧
      gathers value (read.flatMap (world.nodes nodeId).disk.names)) ∧ after = world
  have step : ∀ value subdir rest, Triple AnyOrder (invariant value (subdir :: rest))
      (do
        let files ← disk nodeId (.readdir subdir)
        pure (add value files))
      (fun updated => invariant updated rest) (fun _ => False) := by
    intro value subdir rest
    refine .of_fact ?_
    rintro ⟨read, split, gathered⟩
    have here : subdir ∈ (world.nodes nodeId).disk.directories :=
      present (split ▸ List.mem_append_right read List.mem_cons_self)
    refine (triple_readdir here).bind fun files => .of_fact fun listed => ?_
    refine .pure fun after same => ⟨⟨read ++ [subdir], by simpa using split, ?_⟩, same⟩
    rw [List.flatMap_append, List.flatMap_singleton]
    exact more _ _ _ _ gathered listed
  refine (Triple.foldEach invariant step subdirs start).consequence ?_ ?_ fun _ => id
  · intro after same
    exact ⟨⟨[], rfl, initially⟩, same⟩
  · rintro value after ⟨⟨read, split, gathered⟩, same⟩
    rw [List.append_nil] at split
    exact ⟨split ▸ gathered, same⟩

theorem triple_listChunks :
    Triple AnyOrder (· = world) (StorageNodeImpl.listChunks nodeId)
      (fun chunks after => chunks.Perm (world.nodes nodeId).disk.allNames ∧ after = world)
      (fun _ => False) := by
  refine Triple.tryCatch ?_ fun _ => .pure fun _ => False.elim
  refine triple_getSubdirectories.bind fun subdirs => .of_fact fun listed => ?_
  refine (triple_gather (fun chunks names => chunks.Perm names)
    (fun _ _ _ _ gathered files => gathered.append files) .rfl listed.subset).consequence
    (fun _ => id) ?_ fun _ => id
  rintro chunks after ⟨gathered, same⟩
  exact ⟨gathered.trans (listed.flatMap_right _), same⟩

theorem triple_setChunkCount (count : ℕ) :
    Triple AnyOrder (· = world) (disk nodeId (.setChunkCount count))
      (fun _ after => (after.nodes nodeId).disk = (world.nodes nodeId).disk) (fun _ => False) := by
  refine .perform ?_
  intro before outcome after same made
  cases made with
  | works made =>
      obtain ⟨rfl, rfl⟩ := Prod.mk.inj made
      rw [← same]
      exact disk_setChunkCount count

theorem triple_getChunkCount :
    Triple AnyOrder (· = world) (StorageNodeImpl.getChunkCount nodeId)
      (fun count after => count = (world.nodes nodeId).disk.allNames.length ∧
        (after.nodes nodeId).disk = (world.nodes nodeId).disk)
      (fun _ => False) := by
  have adds : ∀ (count : ℕ) (names files listed : List String), count = names.length →
      files.Perm listed → count + files.length = (names ++ listed).length := by
    intro count names files listed counted same
    rw [List.length_append, counted, same.length_eq]
  have counts : Triple AnyOrder (· = world)
      (do
        let subdirs ← StorageNodeImpl.getSubdirectories nodeId
        let count ← Program.foldEach
          (fun count subdir => do
            let files ← disk nodeId (.readdir subdir)
            pure (count + files.length)) 0 subdirs
        disk nodeId (.setChunkCount count)
        pure count)
      (fun count after => count = (world.nodes nodeId).disk.allNames.length ∧
        (after.nodes nodeId).disk = (world.nodes nodeId).disk)
      (fun _ => False) := by
    refine triple_getSubdirectories.bind fun subdirs => .of_fact fun listed => ?_
    refine (triple_gather (fun count names => count = names.length) adds rfl listed.subset).bind ?_
    intro count
    refine .of_fact fun counted => (triple_setChunkCount count).bind fun _ => ?_
    refine .pure fun after same => ⟨?_, same⟩
    rw [counted]
    exact (listed.flatMap_right _).length_eq
  exact counts.tryCatch fun _ => .pure fun _ => False.elim

end Calls

/-! ## Sequences of calls -/

section Sequences

variable {nodeId : NodeId} {sha256 : Sha256} {calls : List ChunkCall}

/-- The call writes or deletes. -/
def ChunkCall.changes : ChunkCall → Bool
  | writeChunk _ _ => true
  | deleteChunk _ => true
  | _ => false

/-- The bytes of the last write of a hash that is not followed by a deletion. -/
def LastWrites (calls : List ChunkCall) (chunkHash : ChunkHash) (data : Buffer) : Prop :=
  validChunkHash chunkHash = true ∧ ∃ earlier later,
    calls = earlier ++ .writeChunk chunkHash data :: later ∧
      ∀ call ∈ later, call.chunkHash = chunkHash → call.changes = false

/-- The map after calls from an empty one. -/
def ChunkMap.reached (calls : List ChunkCall) : ChunkMap :=
  calls.foldl ChunkCall.after fun _ => none

/-- The node answers calls, and lists and counts its chunks, as the map says. Malformed hashes
change nothing. -/
structure ActsAs (sha256 : Sha256) (nodeId : NodeId) (map : ChunkMap) (world : World) : Prop where
  answers : ∀ (call : ChunkCall) outcome after,
    Runs AnyOrder (call.program sha256 nodeId) world outcome after →
      outcome = call.answer sha256 map
  malformed : ∀ (call : ChunkCall) outcome after, validChunkHash call.chunkHash = false →
    Runs AnyOrder (call.program sha256 nodeId) world outcome after →
      outcome = .error (.error s!"Invalid chunk hash format: {call.chunkHash}") ∧ after = world
  lists : ∀ outcome after, Runs AnyOrder (StorageNodeImpl.listChunks nodeId) world outcome after →
    ∃ chunks, outcome = .ok chunks ∧ chunks.Nodup ∧
      ∀ chunkHash, chunkHash ∈ chunks ↔ (map chunkHash).isSome
  counts : ∀ outcome after,
    Runs AnyOrder (StorageNodeImpl.getChunkCount nodeId) world outcome after →
      ∃ chunks : List ChunkHash, outcome = .ok chunks.length ∧ chunks.Nodup ∧
        ∀ chunkHash, chunkHash ∈ chunks ↔ (map chunkHash).isSome

theorem actsAs_of_represents {map : ChunkMap} {world : World}
    (represents : Represents (world.nodes nodeId).disk map) : ActsAs sha256 nodeId map world where
  answers := by
    intro call outcome after run
    have ran := run_of_listsNothing (call.allCalls_program sha256) run
    obtain ⟨reached, made, _⟩ := call.run_program sha256 represents
    exact (congrArg Prod.fst (ran.symm.trans made))
  malformed := by
    intro call outcome after invalid run
    have ran := run_of_listsNothing (call.allCalls_program sha256) run
    obtain ⟨reached, made, _, same, _⟩ := call.run_program sha256 represents
    obtain ⟨rfl, rfl⟩ := Prod.mk.inj (ran.symm.trans made)
    refine ⟨?_, same invalid⟩
    unfold ChunkCall.answer
    exact if_neg (by simp [invalid])
  lists := by
    intro outcome after run
    have ends := triple_listChunks rfl run
    cases outcome with
    | error failure => exact ends.elim
    | ok chunks =>
        obtain ⟨distinct, members⟩ := represents.allNames
        refine ⟨chunks, rfl, ends.1.nodup_iff.mpr distinct, ?_⟩
        intro chunkHash
        exact ends.1.mem_iff.trans (members chunkHash)
  counts := by
    intro outcome after run
    have ends := triple_getChunkCount rfl run
    cases outcome with
    | error failure => exact ends.elim
    | ok count => exact ⟨_, congrArg Except.ok ends.1, represents.allNames⟩

/-- **Sequences of calls**: the answers are those of the map, and the disk holds the map that the
calls lead to. -/
theorem answers_eq {map : ChunkMap} {before reached : World}
    {answers : List (Except Failure ChunkAnswer)}
    (made : CallsMade sha256 nodeId calls before answers reached)
    (represents : Represents (before.nodes nodeId).disk map) :
    answers = ChunkCall.answers sha256 map calls ∧
      Represents (reached.nodes nodeId).disk (calls.foldl ChunkCall.after map) := by
  induction made generalizing map with
  | none world => exact ⟨rfl, represents⟩
  | @next call calls before middle reached answer answers here later ih =>
      have ran := run_of_listsNothing (call.allCalls_program sha256) here
      obtain ⟨after, works, holds, _⟩ := call.run_program sha256 represents
      obtain ⟨rfl, rfl⟩ := Prod.mk.inj (ran.symm.trans works)
      obtain ⟨rfl, kept⟩ := ih holds
      exact ⟨rfl, kept⟩

/-- Calls can always be made. -/
theorem exists_callsMade (sha256 : Sha256) (nodeId : NodeId) (calls : List ChunkCall)
    (world : World) : ∃ answers reached, CallsMade sha256 nodeId calls world answers reached := by
  induction calls generalizing world with
  | nil => exact ⟨[], world, .none world⟩
  | cons call calls ih =>
      have run : Runs exec.semantics (call.program sha256 nodeId) world _ _ :=
        runs_semantics_iff.mpr rfl
      obtain ⟨answers, reached, later⟩ := ih ((call.program sha256 nodeId).run exec world).2
      exact ⟨_, reached, .next (run.mono fun _ _ _ _ made => .works made) later⟩

theorem lastWrites_append {call : ChunkCall} {chunkHash : ChunkHash} {data : Buffer} :
    LastWrites (calls ++ [call]) chunkHash data ↔
      (validChunkHash chunkHash = true ∧ call = .writeChunk chunkHash data) ∨
        ((call.chunkHash = chunkHash → call.changes = false) ∧
          LastWrites calls chunkHash data) := by
  constructor
  · rintro ⟨valid, earlier, later, split, quiet⟩
    rcases List.eq_nil_or_concat later with rfl | ⟨rest, last, rfl⟩
    · exact .inl ⟨valid, List.singleton_inj.mp (List.append_inj' split rfl).2⟩
    · rw [List.concat_eq_append, ← List.cons_append, ← List.append_assoc] at split
      obtain ⟨same, ends⟩ := List.append_inj' split rfl
      obtain rfl := List.singleton_inj.mp ends
      rw [List.concat_eq_append] at quiet
      refine .inr ⟨quiet call (by simp), valid, earlier, rest, same, ?_⟩
      exact fun other member => quiet other (List.mem_append_left _ member)
  · rintro (⟨valid, rfl⟩ | ⟨quiet, valid, earlier, later, rfl, before⟩)
    · exact ⟨valid, calls, [], rfl, List.forall_mem_nil _⟩
    · refine ⟨valid, earlier, later ++ [call], by simp, ?_⟩
      intro other member
      rcases List.mem_append.mp member with old | new
      · exact before other old
      · obtain rfl := List.mem_singleton.mp new
        exact quiet

/-- What a call leaves under a hash. -/
theorem after_eq_some_iff {map : ChunkMap} {call : ChunkCall} {chunkHash : ChunkHash}
    {data : Buffer} :
    call.after map chunkHash = some data ↔
      (validChunkHash chunkHash = true ∧ call = .writeChunk chunkHash data) ∨
        ((call.chunkHash = chunkHash → validChunkHash chunkHash = true → call.changes = false) ∧
          map chunkHash = some data) := by
  unfold ChunkCall.after
  cases call with
  | writeChunk other bytes =>
      by_cases same : chunkHash = other
      · subst same
        cases valid : validChunkHash chunkHash <;>
          simp [ChunkCall.chunkHash, ChunkCall.changes, valid]
      · cases valid : validChunkHash other <;>
          simp [ChunkCall.chunkHash, same, Ne.symm same, valid]
  | deleteChunk other =>
      by_cases same : chunkHash = other
      · subst same
        cases valid : validChunkHash chunkHash <;>
          simp [ChunkCall.chunkHash, ChunkCall.changes, valid]
      · cases valid : validChunkHash other <;>
          simp [ChunkCall.chunkHash, same, Ne.symm same, valid]
  | readChunk other => simp [ChunkCall.changes]
  | verifyChunkIntegrity other => simp [ChunkCall.changes]

/-- **What is stored is what was written last and not deleted since.** -/
theorem reached_eq_some_iff {chunkHash : ChunkHash} {data : Buffer} :
    ChunkMap.reached calls chunkHash = some data ↔ LastWrites calls chunkHash data := by
  induction calls using List.reverseRecOn with
  | nil => simp [ChunkMap.reached, LastWrites]
  | append_singleton calls call ih =>
      have step : ChunkMap.reached (calls ++ [call]) = call.after (ChunkMap.reached calls) :=
        List.foldl_concat _ _ _ _
      rw [step, after_eq_some_iff, lastWrites_append, ih]
      refine or_congr_right (and_congr_left fun writes => ?_)
      have valid : validChunkHash chunkHash = true := writes.1
      simp only [valid, true_implies]

/-- **A storage node is a map from hashes to bytes.** From an empty directory, calls with any
hashes can be made, their answers are those of the map, and after them the node acts as the map
that holds what was written last and not deleted since. -/
theorem refines_chunkMap (sha256 : Sha256) (nodeId : NodeId) {origin : World}
    (empty : (origin.nodes nodeId).disk = .empty) (calls : List ChunkCall) :
    (∃ answers reached, CallsMade sha256 nodeId calls origin answers reached) ∧
      (∀ answers reached, CallsMade sha256 nodeId calls origin answers reached →
        answers = ChunkCall.answers sha256 (fun _ => none) calls ∧
          ActsAs sha256 nodeId (ChunkMap.reached calls) reached) ∧
      ∀ chunkHash data,
        ChunkMap.reached calls chunkHash = some data ↔ LastWrites calls chunkHash data := by
  refine ⟨exists_callsMade sha256 nodeId calls origin, ?_, fun _ _ => reached_eq_some_iff⟩
  intro answers reached made
  obtain ⟨same, represents⟩ := answers_eq made (empty ▸ Represents.empty)
  exact ⟨same, actsAs_of_represents represents⟩

/-- A write, a second write, a check, a read, a deletion, and calls with malformed hashes. -/
def someCalls : List ChunkCall :=
  let chunkHash := knownDigests.digest [7]
  [.writeChunk chunkHash [75], .verifyChunkIntegrity chunkHash, .writeChunk chunkHash [7],
    .verifyChunkIntegrity chunkHash, .readChunk chunkHash, .writeChunk "x" [7], .readChunk "",
    .deleteChunk chunkHash, .readChunk chunkHash]

/-- The answers to these calls on a node without a chunk. -/
theorem refines_someCalls :
    ∃ answers reached, CallsMade knownDigests "node" someCalls (.ofStore .empty) answers reached ∧
      answers = [.ok .done, .ok (.intact false), .ok .done, .ok (.intact true), .ok (.bytes [7]),
        .error (.error "Invalid chunk hash format: x"),
        .error (.error "Invalid chunk hash format: "), .ok .done,
        .error (.error (s!"Chunk not found: {knownDigests.digest [7]}"))] := by
  obtain ⟨⟨answers, reached, made⟩, all, _⟩ :=
    refines_chunkMap knownDigests "node" (rfl : ((World.ofStore .empty).nodes "node").disk = .empty)
      someCalls
  exact ⟨answers, reached, made, (all answers reached made).1.trans (by decide +kernel)⟩

end Sequences

end DistributedFileStorage.Nodes
