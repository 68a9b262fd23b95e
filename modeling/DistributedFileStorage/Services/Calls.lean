import DistributedFileStorage.Async.Faults
import DistributedFileStorage.Nodes.Disk
import DistributedFileStorage.Store.Database

/-!
# The calls of the storage system

The functions of the system await two kinds of calls: statements of the metadata
store, and operations of the file system of one storage node. The state they act
on is the database together with the storage nodes (`World`). Each call is
atomic; `exec` says what it does when it does not fail, and `faulty` adds that it may
fail. A failing call has no effect, except that a failing `writeFile` may leave any bytes in
its file.

The counter of chunks that a storage node keeps in memory is part of the node, and
its changes are calls, so that a function of a node is a program like any
other.
-/

set_option autoImplicit false

namespace DistributedFileStorage.Services

open Async Store Nodes

/-- The methods of `MetadataStore`. -/
inductive StoreOp where
  | createFile (file : FileRecord)
  | getFile (fileId : FileId)
  | updateFile (fileId : FileId) (updates : FileUpdate)
  | deleteFile (fileId : FileId)
  | createFileVersion (version : FileVersionRecord)
  | getFileVersion (fileId : FileId) (version : ℤ)
  | listFileVersions (fileId : FileId)
  | deleteFileVersion (fileId : FileId) (version : ℤ)
  | createChunk (chunk : ChunkRecord)
  | getChunk (chunkHash : ChunkHash)
  | deleteChunk (chunkHash : ChunkHash)
  | incrementChunkReference (chunkHash : ChunkHash) (fileId : FileId)
  | decrementChunkReference (chunkHash : ChunkHash) (fileId : FileId)
  | getOrphanedChunks
  | createChunkReplica (replica : ChunkReplicaRecord)
  | getChunkReplicas (chunkHash : ChunkHash)
  | deleteChunkReplica (chunkHash : ChunkHash) (nodeId : NodeId)
  | getStorageNode (nodeId : NodeId)
  | listStorageNodes (status : Option NodeStatus)
  | createUploadSession (session : UploadSessionRecord)
  | getUploadSession (sessionId : SessionId)
  | updateUploadSession (sessionId : SessionId) (status : SessionStatus)
  | markChunkUploaded (chunk : UploadedChunkRecord)
  | getUploadedChunks (sessionId : SessionId)
  | deleteUploadSession (sessionId : SessionId)
  | getExpiredSessions (expiryDate : Time)
  | grantPermission (permission : FilePermissionRecord)
  | revokePermission (fileId : FileId) (userId : UserId)
  | checkPermission (fileId : FileId) (userId : UserId) (permission : Permission)

/-- What a method of the store resolves to. -/
@[reducible] def StoreOp.Result : StoreOp → Type
  | getFile _ => Option FileRecord
  | getFileVersion _ _ => Option FileVersionRecord
  | listFileVersions _ => List FileVersionRecord
  | getChunk _ => Option ChunkRecord
  | getOrphanedChunks => List ChunkHash
  | getChunkReplicas _ => List ChunkReplicaRecord
  | getStorageNode _ => Option StorageNodeRecord
  | listStorageNodes _ => List StorageNodeRecord
  | getUploadSession _ => Option UploadSessionRecord
  | getUploadedChunks _ => List UploadedChunkRecord
  | getExpiredSessions _ => List UploadSessionRecord
  | checkPermission _ _ _ => Bool
  | _ => Unit

/-- The file system calls of a storage node, and the changes of its counter. -/
inductive DiskOp where
  | mkdir (directory : String)
  | writeFile (path : Path) (data : Buffer)
  | readFile (path : Path)
  | unlink (path : Path)
  /-- `fs.readdir` of the storage path, which has subdirectories only. -/
  | readSubdirectories
  | readdir (directory : String)
  | countChunk
  | uncountChunk
  | setChunkCount (count : ℕ)

@[reducible] def DiskOp.Result : DiskOp → Type
  | readFile _ => Buffer
  | readSubdirectories => List String
  | readdir _ => List String
  | _ => Unit

/-- A call on the store or on the disk of a storage node. -/
inductive Call where
  | store (op : StoreOp)
  | disk (nodeId : NodeId) (op : DiskOp)

@[reducible] def Call.Result : Call → Type
  | store op => op.Result
  | disk _ op => op.Result

/-- The interface that the functions of the system are programs over. -/
abbrev system : Interface := ⟨Call, Call.Result, Failure⟩

/-- A function of the system: what an `async` method with this result does. -/
abbrev Async (α : Type) : Type := Program system α

/-- Await a method of the store. -/
abbrev store (op : StoreOp) : Async op.Result := Program.perform (I := system) (.store op)

/-- Await a file system call of a storage node. -/
abbrev disk (nodeId : NodeId) (op : DiskOp) : Async op.Result :=
  Program.perform (I := system) (.disk nodeId op)

/-- `throw new Error(message)`. -/
def reject {α : Type} (message : String) : Async α :=
  Program.throw (I := system) (.error message)

/-! ## The state the calls act on -/

/-- A storage node: its directory and its counter of chunks. -/
structure StorageNode where
  disk : Disk
  chunkCount : ℕ

/-- The database and the storage nodes, each under the identifier by which the
services hold a handle on it. -/
structure World where
  store : Database
  nodes : NodeId → StorageNode

/-- A database, and storage nodes without a chunk. -/
def World.ofStore (db : Database) : World := ⟨db, fun _ => ⟨.empty, 0⟩⟩

/-- A file without a version, and nothing else. -/
def World.ofFile (fileId : FileId) : World :=
  .ofStore (.ofFile
    { fileId := fileId, fileName := "notes.txt", ownerId := "owner", currentVersion := 0,
      totalSize := 0, createdAt := 0, updatedAt := 0, retentionDays := 30 })

/-- Change one storage node. -/
def World.setNode (world : World) (nodeId : NodeId) (node : StorageNode) : World :=
  { world with nodes := Function.update world.nodes nodeId node }

theorem World.nodes_setNode (world : World) (nodeId : NodeId) (node : StorageNode)
    (other : NodeId) :
    (world.setNode nodeId node).nodes other = if other = nodeId then node else world.nodes other :=
  Function.update_apply world.nodes nodeId node other

/-- Change the database. -/
def World.setStore (world : World) (db : Database) : World := { world with store := db }

@[simp] theorem World.store_setStore (world : World) (db : Database) :
    (world.setStore db).store = db := rfl

@[simp] theorem World.nodes_setStore (world : World) (db : Database) :
    (world.setStore db).nodes = world.nodes := rfl

@[simp] theorem World.setStore_setStore (world : World) (first second : Database) :
    (world.setStore first).setStore second = world.setStore second := rfl

/-- Changing the database time after time is one change. -/
theorem foldl_setStore {α : Type} (effect : Database → α → Database) (items : List α)
    (world : World) :
    items.foldl (fun reached item => reached.setStore (effect reached.store item)) world =
      world.setStore (items.foldl effect world.store) := by
  induction items generalizing world with
  | nil => rfl
  | cons item items ih => exact ih _

/-- Leave the database of a statement, or reject with the constraint it would
violate and change nothing. -/
def World.commit (world : World) : Except Failure Database → Except Failure Unit × World
  | .ok db => (.ok (), world.setStore db)
  | .error failure => (.error failure, world)

/-- Leave the disk of a file system call, or reject and change nothing. -/
def World.flush (world : World) (nodeId : NodeId) : Except Failure Disk → Except Failure Unit × World
  | .ok disk => (.ok (), world.setNode nodeId { world.nodes nodeId with disk := disk })
  | .error failure => (.error failure, world)

/-- What a method of the store does. -/
def StoreOp.exec (world : World) : (op : StoreOp) → Except Failure op.Result × World
  | createFile file => world.commit (world.store.createFile file)
  | getFile fileId => (.ok (world.store.getFile fileId), world)
  | updateFile fileId updates => (.ok (), world.setStore (world.store.updateFile fileId updates))
  | deleteFile fileId => (.ok (), world.setStore (world.store.deleteFile fileId))
  | createFileVersion version => world.commit (world.store.createFileVersion version)
  | getFileVersion fileId version => (.ok (world.store.getFileVersion fileId version), world)
  | listFileVersions fileId => (.ok (world.store.listFileVersions fileId), world)
  | deleteFileVersion fileId version =>
      (.ok (), world.setStore (world.store.deleteFileVersion fileId version))
  | createChunk chunk => (.ok (), world.setStore (world.store.createChunk chunk))
  | getChunk chunkHash => (.ok (world.store.getChunk chunkHash), world)
  | deleteChunk chunkHash => (.ok (), world.setStore (world.store.deleteChunk chunkHash))
  | incrementChunkReference chunkHash _ =>
      (.ok (), world.setStore (world.store.incrementChunkReference chunkHash))
  | decrementChunkReference chunkHash _ =>
      (.ok (), world.setStore (world.store.decrementChunkReference chunkHash))
  | getOrphanedChunks => (.ok world.store.getOrphanedChunks, world)
  | createChunkReplica replica => world.commit (world.store.createChunkReplica replica)
  | getChunkReplicas chunkHash => (.ok (world.store.getChunkReplicas chunkHash), world)
  | deleteChunkReplica chunkHash nodeId =>
      (.ok (), world.setStore (world.store.deleteChunkReplica chunkHash nodeId))
  | getStorageNode nodeId => (.ok (world.store.getStorageNode nodeId), world)
  | listStorageNodes status => (.ok (world.store.listStorageNodes status), world)
  | createUploadSession session => world.commit (world.store.createUploadSession session)
  | getUploadSession sessionId => (.ok (world.store.getUploadSession sessionId), world)
  | updateUploadSession sessionId status =>
      (.ok (), world.setStore (world.store.updateUploadSession sessionId status))
  | markChunkUploaded chunk => world.commit (world.store.markChunkUploaded chunk)
  | getUploadedChunks sessionId => (.ok (world.store.getUploadedChunks sessionId), world)
  | deleteUploadSession sessionId =>
      (.ok (), world.setStore (world.store.deleteUploadSession sessionId))
  | getExpiredSessions expiryDate => (.ok (world.store.getExpiredSessions expiryDate), world)
  | grantPermission permission => world.commit (world.store.grantPermission permission)
  | revokePermission fileId userId =>
      (.ok (), world.setStore (world.store.revokePermission fileId userId))
  | checkPermission fileId userId permission =>
      (.ok (world.store.checkPermission fileId userId permission), world)

/-- A statement rejects and changes nothing, or leaves its database. -/
theorem World.commit_cases {world after : World} {statement : Except Failure Database}
    {outcome : Except Failure Unit} (committed : world.commit statement = (outcome, after)) :
    (∃ failure, statement = .error failure ∧ outcome = .error failure ∧ after = world) ∨
      ∃ db, statement = .ok db ∧ outcome = .ok () ∧ after = world.setStore db := by
  cases statement with
  | error failure =>
      obtain ⟨rfl, rfl⟩ := Prod.mk.inj committed
      exact .inl ⟨failure, rfl, rfl, rfl⟩
  | ok db =>
      obtain ⟨rfl, rfl⟩ := Prod.mk.inj committed
      exact .inr ⟨db, rfl, rfl, rfl⟩

theorem World.commit_error {world after : World} {statement : Except Failure Database}
    {failure : Failure} (rejected : world.commit statement = (.error failure, after)) :
    after = world := by
  rcases World.commit_cases rejected with ⟨_, _, _, same⟩ | ⟨_, _, resolved, _⟩
  · exact same
  · cases resolved

/-- A method of the store that rejects changes nothing. -/
theorem StoreOp.exec_error {op : StoreOp} {world after : World} {failure : Failure}
    (rejected : op.exec world = (.error failure, after)) : after = world := by
  cases op <;> first | exact World.commit_error rejected | cases (Prod.mk.inj rejected).1

/-- What a file system call of a storage node does. -/
def DiskOp.exec (world : World) (nodeId : NodeId) :
    (op : DiskOp) → Except Failure op.Result × World
  | mkdir directory => world.flush nodeId (.ok ((world.nodes nodeId).disk.mkdir directory))
  | writeFile path data => world.flush nodeId ((world.nodes nodeId).disk.writeFile path data)
  | readFile path => ((world.nodes nodeId).disk.readFile path, world)
  | unlink path => world.flush nodeId ((world.nodes nodeId).disk.unlink path)
  | readSubdirectories => (.ok (world.nodes nodeId).disk.directories, world)
  | readdir directory => ((world.nodes nodeId).disk.readdir directory, world)
  | countChunk =>
      let node := world.nodes nodeId
      (.ok (), world.setNode nodeId { node with chunkCount := node.chunkCount + 1 })
  | uncountChunk =>
      let node := world.nodes nodeId
      (.ok (), world.setNode nodeId { node with chunkCount := node.chunkCount - 1 })
  | setChunkCount count =>
      (.ok (), world.setNode nodeId { world.nodes nodeId with chunkCount := count })

/-- What a call does when the service behind it works. -/
def exec : Handler system World
  | .store op, world => op.exec world
  | .disk nodeId op, world => op.exec world nodeId

/-- The file system calls of the storage nodes leave the database as it is. -/
theorem exec_disk_store (nodeId : NodeId) (op : DiskOp) (world : World) :
    (exec (.disk nodeId op) world).2.store = world.store := by
  have flush : ∀ result, (world.flush nodeId result).2.store = world.store := by
    intro result
    cases result <;> rfl
  cases op with
  | mkdir directory => rfl
  | writeFile path data => exact flush _
  | readFile path => rfl
  | unlink path => exact flush _
  | readSubdirectories => rfl
  | readdir directory => rfl
  | countChunk => rfl
  | uncountChunk => rfl
  | setChunkCount count => rfl

/-- The calls that can fail: all but the changes of a counter in memory. -/
def Call.fallible : Call → Bool
  | .disk _ .countChunk => false
  | .disk _ .uncountChunk => false
  | .disk _ (.setChunkCount _) => false
  | _ => true

/-- The world that a failing call leaves. `fs.writeFile` opens its file for writing, which
empties it, before it can fail, so the file may then hold any bytes; or it fails earlier and
does nothing. -/
def Call.leaves : Call → Option Buffer → World → World
  | .disk nodeId (.writeFile path _), some left, world =>
      (exec (.disk nodeId (.writeFile path left)) world).2
  | _, _, world => world

/-- The calls of the services that may fail, and what they leave, when writes fail on
unreliable nodes only. -/
def Call.faultsOn (unreliable : NodeId → Bool) : Faults system World (Option Buffer) where
  fallible
    | .disk nodeId (.writeFile _ _) => unreliable nodeId
    | op => op.fallible
  leaves := Call.leaves

/-- The services, when writes fail on unreliable nodes only, and any other call may fail. -/
abbrev faultyOn (unreliable : NodeId → Bool) : Semantics system World :=
  exec.withFaults (Call.faultsOn unreliable)

/-- The calls of the services that may fail, and what they leave. -/
abbrev Call.faults : Faults system World (Option Buffer) := Call.faultsOn fun _ => true

/-- The services, any of whose calls may fail. -/
abbrev faulty : Semantics system World := exec.withFaults Call.faults

/-- Which of the next calls fail, with what, and what a write leaves. -/
abbrev FaultPattern : Type := Pattern system (Option Buffer)

/-- A failing call leaves the database as it is. -/
theorem Call.store_leaves (op : Call) (damage : Option Buffer) (world : World) :
    (op.leaves damage world).store = world.store := by
  unfold Call.leaves
  split
  · exact exec_disk_store _ _ world
  · rfl

@[simp] theorem Call.leaves_none (op : Call) (world : World) : op.leaves none world = world := by
  unfold Call.leaves
  split
  · contradiction
  · rfl

/-- The services, with the calls of a table failing before they have done anything. -/
abbrev failingCalls (failing : Call → Option Failure) : Handler system World :=
  exec.failingOn Call.faults fun op => (failing op).map fun failure => (failure, none)

/-- A call of the table fails and changes nothing. -/
theorem run_failingCalls_fails {failing : Call → Option Failure} {op : Call} {failure : Failure}
    (fails : Call.faults.fallible op = true) (fault : failing op = some failure) (world : World) :
    (Program.perform (I := system) op).run (failingCalls failing) world =
      (.error failure, world) := by
  have run : (Program.perform (I := system) op).run (failingCalls failing) world =
      (.error failure, op.leaves none world) := run_failingOn_fails fails (by rw [fault]; rfl) world
  rwa [Call.leaves_none] at run

/-- When the table lets all its calls work, a program runs as it does without faults. -/
theorem run_failingCalls_of_allCalls {failing : Call → Option Failure} {α : Type}
    {program : Async α} (working : program.AllCalls fun op => failing op = none) (world : World) :
    program.run (failingCalls failing) world = program.run exec world :=
  run_failingOn_of_allCalls (working.mono fun op none _ => by rw [none]; rfl) world

variable {unreliable : NodeId → Bool}

/-- A call may fail before it has done anything. -/
theorem runs_unavailable {op : Call} (fails : (Call.faultsOn unreliable).fallible op = true)
    (world : World) :
    Runs (faultyOn unreliable) (Program.perform (I := system) op) world (.error .unavailable)
      world := by
  have run : Runs (faultyOn unreliable) (Program.perform (I := system) op) world
      (.error .unavailable) (op.leaves none world) := runs_fails fails Failure.unavailable none world
  rwa [Call.leaves_none] at run

/-- A statement works, or it fails and changes nothing. -/
theorem faulty_store_cases {op : StoreOp} {before after : World}
    {outcome : Except Failure op.Result}
    (happens : faultyOn unreliable (.store op) before outcome after) :
    exec (.store op) before = (outcome, after) ∨
      (∃ failure, outcome = .error failure) ∧ after = before := by
  rcases happens with works | ⟨_, failed, damage, rfl⟩
  · exact .inl works
  · exact .inr ⟨failed, rfl⟩

/-- A call that may fail keeps what it keeps when it works and when it fails. -/
theorem keeps_call {op : Call} {invariant : World → Prop}
    (step : ∀ world, invariant world → invariant (exec op world).2)
    (fails : (Call.faultsOn unreliable).fallible op = true → ∀ damage world, invariant world →
      invariant (op.leaves damage world)) :
    Keeps (faultyOn unreliable) invariant (Program.perform (I := system) op) := by
  refine .perform ?_
  intro before outcome after start happens
  have kept : invariant after := by
    rcases happens with works | ⟨fallible, _, damage, rfl⟩
    · have reached := step before start
      rwa [works] at reached
    · exact fails fallible damage before start
  cases outcome with
  | ok value => exact kept
  | error failure => exact kept

theorem keeps_store {op : StoreOp} {invariant : World → Prop}
    (step : ∀ world, invariant world → invariant (exec (.store op) world).2) :
    Keeps (faultyOn unreliable) invariant (store op) :=
  keeps_call step fun _ _ _ => id

/-- A statement that reads resolves to what it reads and changes nothing. -/
theorem triple_read {op : StoreOp} {value : World → op.Result} {invariant : World → Prop}
    (reads : ∀ world, exec (.store op) world = (.ok (value world), world)) :
    Triple (faultyOn unreliable) invariant (store op)
      (fun result after => result = value after ∧ invariant after) invariant := by
  refine .perform ?_
  intro before outcome after start happens
  rcases faulty_store_cases happens with works | ⟨⟨failure, rfl⟩, rfl⟩
  · rw [reads] at works
    obtain ⟨rfl, rfl⟩ := Prod.mk.inj works
    exact ⟨rfl, start⟩
  · exact start

end DistributedFileStorage.Services
