import DistributedFileStorage.Async.Interference
import DistributedFileStorage.Async.Locals
import DistributedFileStorage.Replication.ReplicationService

/-!
# Writing replicas with a quorum

`replicateChunk` selects storage nodes, lets them write the chunk next to each other, and
resolves when enough of the writes have been recorded.

The writes are a pool of programs that share the variables `replicaLocations` and
`successCount`, so a call of `replicateChunk` is a relation between the state it starts in
and what it may settle to (`ReplicatesChunk`). The reads of the selection change nothing and
are made one after the other. What a call stores when nothing fails is `Stored`.
-/

set_option autoImplicit false

namespace DistributedFileStorage.Replication

open Async Store Services Nodes Placement Relational

structure ReplicaLocation where
  nodeId : NodeId
  availabilityZone : String
  timestamp : Time
  deriving DecidableEq

structure StorageNodeInfo where
  nodeId : NodeId
  ipAddress : String
  port : ℕ
  availabilityZone : String
  region : String
  capacity : ℕ
  usedSpace : ℕ
  status : NodeStatus
  deriving DecidableEq

/-- The fields of a row that the selection copies. -/
def StorageNodeInfo.ofRecord (node : StorageNodeRecord) : StorageNodeInfo where
  nodeId := node.nodeId
  ipAddress := node.ipAddress
  port := node.port
  availabilityZone := node.availabilityZone
  region := node.region
  capacity := node.capacity
  usedSpace := node.usedSpace
  status := node.status

namespace ReplicationServiceImpl

def quorumWrite : ℕ := 2

/-! ## Selecting storage nodes -/

/-- The nodes selected by the first pass, and their zones. -/
structure Selection where
  selectedNodes : List StorageNodeInfo := []
  usedZones : List String := []

/-- One iteration of the first pass: a node in a zone that has not been used. -/
def selectNewZone (count : ℕ) (selection : Selection) (node : StorageNodeRecord) : Selection :=
  if count ≤ selection.selectedNodes.length then selection
  else if node.availabilityZone ∈ selection.usedZones then selection
  else
    { selectedNodes := selection.selectedNodes ++ [.ofRecord node]
      usedZones := selection.usedZones ++ [node.availabilityZone] }

/-- One iteration of the second pass: a node that has not been selected. -/
def fillSlot (count : ℕ) (selectedNodes : List StorageNodeInfo) (node : StorageNodeRecord) :
    List StorageNodeInfo :=
  if count ≤ selectedNodes.length then selectedNodes
  else if selectedNodes.any fun selected => selected.nodeId = node.nodeId then selectedNodes
  else selectedNodes ++ [.ofRecord node]

/-- What `selectStorageNodes` does with the rows of the candidates. -/
def selectFrom (count : ℕ) (nodeDetails : List (Option StorageNodeRecord)) :
    List StorageNodeInfo :=
  let activeNodes := nodeDetails.filterMap fun node => node.filter fun row => row.status = .active
  activeNodes.foldl (fillSlot count) (activeNodes.foldl (selectNewZone count) {}).selectedNodes

variable (hashRing : ConsistentHashRing ChunkHash) (storageNodes : List NodeId)

def selectStorageNodes (chunkHash : ChunkHash) (count : ℕ) : Async (List StorageNodeInfo) := do
  let candidateNodes := hashRing.getNodes chunkHash (count * 2 : ℕ)
  if candidateNodes.length = 0 then pure []
  else
    let nodeDetails ← Program.mapEach (fun nodeId => store (.getStorageNode nodeId)) candidateNodes
    pure (selectFrom count nodeDetails)

/-- The nodes that `replicateChunk` selects for a chunk. -/
def selectedNodes (db : Database) (chunkHash : ChunkHash) : List StorageNodeInfo :=
  selectFrom replicationFactor
    ((hashRing.getNodes chunkHash (replicationFactor * 2 : ℕ)).map db.getStorageNode)

theorem run_selectStorageNodes_count (chunkHash : ChunkHash) (count : ℕ) (world : World) :
    (selectStorageNodes hashRing chunkHash count).run exec world =
      (.ok (selectFrom count ((hashRing.getNodes chunkHash (count * 2 : ℕ)).map
        world.store.getStorageNode)), world) := by
  unfold selectStorageNodes
  by_cases empty : (hashRing.getNodes chunkHash (count * 2 : ℕ)).length = 0
  · dsimp only
    rw [if_pos empty, List.length_eq_zero_iff.mp empty]
    rfl
  · dsimp only
    rw [if_neg empty]
    have reads : ∀ nodeId (state : World), (store (.getStorageNode nodeId)).run exec state =
        (.ok (state.store.getStorageNode nodeId), state) := fun _ _ => rfl
    exact Program.run_bind_ok exec (Program.run_mapEach exec reads _ world)

theorem run_selectStorageNodes (chunkHash : ChunkHash) (world : World) :
    (selectStorageNodes hashRing chunkHash replicationFactor).run exec world =
      (.ok (selectedNodes hashRing world.store chunkHash), world) :=
  run_selectStorageNodes_count hashRing chunkHash replicationFactor world

/-! ## The parallel writes -/

/-- The variables that the writes share. -/
structure WriteProgress where
  replicaLocations : List ReplicaLocation := []
  successCount : ℕ := 0

/-- `replicaLocations.push(location)`. -/
def WriteProgress.pushLocation (location : ReplicaLocation) (progress : WriteProgress) :
    WriteProgress :=
  { progress with replicaLocations := progress.replicaLocations ++ [location] }

/-- `successCount++`. -/
def WriteProgress.countSuccess (progress : WriteProgress) : WriteProgress :=
  { progress with successCount := progress.successCount + 1 }

/-- The interface of the writes. -/
abbrev writing : Interface := system.withLocals WriteProgress

/-- The promise for one selected node. The two dates are read from the clock one after the
other. -/
def writePromise (chunkHash : ChunkHash) (chunkData : Buffer) (timestamp createdAt : NodeId → Time)
    (nodeInfo : StorageNodeInfo) : Program writing Unit :=
  Program.tryCatch
    (do
      Program.lift (StorageNodeImpl.writeChunk nodeInfo.nodeId chunkHash chunkData)
      Program.assign (WriteProgress.pushLocation
        { nodeId := nodeInfo.nodeId, availabilityZone := nodeInfo.availabilityZone,
          timestamp := timestamp nodeInfo.nodeId })
      Program.lift (store (.createChunkReplica
        { chunkHash := chunkHash, nodeId := nodeInfo.nodeId,
          availabilityZone := nodeInfo.availabilityZone, createdAt := createdAt nodeInfo.nodeId }))
      Program.assign WriteProgress.countSuccess)
    fun _ => pure ()

/-- The selected nodes on which the service has a handle. -/
def handledNodes (selectedNodes : List StorageNodeInfo) : List StorageNodeInfo :=
  selectedNodes.filter fun nodeInfo => nodeInfo.nodeId ∈ storageNodes

/-- `writePromises`. -/
def writePromises (chunkHash : ChunkHash) (chunkData : Buffer)
    (timestamp createdAt : NodeId → Time) (handled : List StorageNodeInfo) :
    Pool writing (Fin handled.length) Unit :=
  fun index => writePromise chunkHash chunkData timestamp createdAt (handled.get index)

/-- What `replicateChunk` may settle to, and the state it then leaves. -/
inductive ReplicatesChunk (sem : Semantics system World) (chunkHash : ChunkHash)
    (chunkData : Buffer) (timestamp createdAt : NodeId → Time) (world : World) :
    Except Failure (List ReplicaLocation) → World → Prop where
  | unselected {failure : Failure} {after : World}
      (selects : Runs sem (selectStorageNodes hashRing chunkHash replicationFactor) world
        (.error failure) after) :
      ReplicatesChunk sem chunkHash chunkData timestamp createdAt world (.error failure) after
  | insufficient {selected : List StorageNodeInfo} {after : World}
      (selects : Runs sem (selectStorageNodes hashRing chunkHash replicationFactor) world
        (.ok selected) after)
      (few : selected.length < replicationFactor) :
      ReplicatesChunk sem chunkHash chunkData timestamp createdAt world
        (.error (.error (s!"Insufficient storage nodes: need {replicationFactor}, " ++
          s!"found {selected.length}"))) after
  | written {selected : List StorageNodeInfo} {middle : World}
      {settled : Pool writing (Fin (handledNodes storageNodes selected).length) Unit}
      {reached : Moment writing (Fin (handledNodes storageNodes selected).length)
        (World × WriteProgress)}
      (selects : Runs sem (selectStorageNodes hashRing chunkHash replicationFactor) world
        (.ok selected) middle)
      (enough : replicationFactor ≤ selected.length)
      (writes : PoolRuns (Semantics.withLocals sem WriteProgress)
        (writePromises chunkHash chunkData timestamp createdAt
          (handledNodes storageNodes selected), .start (middle, {})) (settled, reached))
      (all : ∀ index, (settled index).isSettled = true) :
      ReplicatesChunk sem chunkHash chunkData timestamp createdAt world
        (if reached.state.2.successCount < quorumWrite then
          .error (.error (s!"Quorum write failed: need {quorumWrite} successful writes, " ++
            s!"got {reached.state.2.successCount}"))
        else .ok reached.state.2.replicaLocations) reached.state.1

/-! ## What the writes store -/

variable {written : List NodeId} {chunkHash : ChunkHash} {chunkData : Buffer}

/-- What holds while some nodes write a chunk: directories stay, a node holds under the
hash what it held or the chunk, and a new replica row is a row of one of the nodes. -/
structure Stores (written : List NodeId) (chunkHash : ChunkHash) (chunkData : Buffer)
    (before after : World) : Prop where
  directories : ∀ nodeId,
    (before.nodes nodeId).disk.directories ⊆ (after.nodes nodeId).disk.directories
  bytes : ∀ nodeId, after.bytes nodeId chunkHash = before.bytes nodeId chunkHash ∨
    nodeId ∈ written ∧ after.bytes nodeId chunkHash = some chunkData
  kept : before.store.getChunkReplicas chunkHash ⊆ after.store.getChunkReplicas chunkHash
  recorded : ∀ replica ∈ after.store.getChunkReplicas chunkHash,
    replica ∈ before.store.getChunkReplicas chunkHash ∨ replica.nodeId ∈ written

namespace Stores

variable {first second third : World}

theorem refl (world : World) : Stores written chunkHash chunkData world world :=
  ⟨fun _ => List.Subset.refl _, fun _ => .inl rfl, List.Subset.refl _, fun _ => .inl⟩

theorem trans (earlier : Stores written chunkHash chunkData first second)
    (later : Stores written chunkHash chunkData second third) :
    Stores written chunkHash chunkData first third where
  directories nodeId := List.Subset.trans (earlier.directories nodeId) (later.directories nodeId)
  bytes nodeId := by
    rcases later.bytes nodeId with same | put
    · rw [same]
      exact earlier.bytes nodeId
    · exact .inr put
  kept := List.Subset.trans earlier.kept later.kept
  recorded replica member := by
    rcases later.recorded replica member with old | new
    · exact earlier.recorded replica old
    · exact .inr new

/-- A node that holds the chunk goes on to hold it. -/
theorem holds (stores : Stores written chunkHash chunkData first second) {nodeId : NodeId}
    (held : first.bytes nodeId chunkHash = some chunkData) :
    second.bytes nodeId chunkHash = some chunkData := by
  rcases stores.bytes nodeId with same | ⟨_, put⟩
  · exact same.trans held
  · exact put

/-- A call that changes no chunk and no subdirectory. -/
theorem of_same (same : SameChunks first second)
    (directories : ∀ nodeId,
      (first.nodes nodeId).disk.directories ⊆ (second.nodes nodeId).disk.directories) :
    Stores written chunkHash chunkData first second where
  directories := directories
  bytes nodeId := .inl (same.bytes nodeId chunkHash)
  kept := by rw [same.store]; exact List.Subset.refl _
  recorded replica member := .inl (by rwa [← same.store])

theorem of_sets {nodeId : NodeId} (member : nodeId ∈ written)
    (sets : SetsChunk nodeId chunkHash (some chunkData) first second)
    (directories : ∀ nodeId,
      (first.nodes nodeId).disk.directories ⊆ (second.nodes nodeId).disk.directories) :
    Stores written chunkHash chunkData first second where
  directories := directories
  bytes other := by
    rw [sets.bytes]
    by_cases here : other = nodeId ∧ chunkHash = chunkHash
    · rw [if_pos here]
      exact .inr ⟨here.1 ▸ member, rfl⟩
    · rw [if_neg here]
      exact .inl rfl
  kept := by rw [sets.store]; exact List.Subset.refl _
  recorded replica found := .inl (by rwa [← sets.store])

/-- A new row is a row of its node. -/
theorem of_createChunkReplica {replica : ChunkReplicaRecord} (same : replica.chunkHash = chunkHash)
    (member : replica.nodeId ∈ written) {db : Database}
    (created : first.store.createChunkReplica replica = .ok db) :
    Stores written chunkHash chunkData first (first.setStore db) ∧
      ∃ row ∈ db.getChunkReplicas chunkHash, row.nodeId ∈ written := by
  have rows := Database.chunkReplicas_createChunkReplica created
  refine ⟨⟨fun _ => List.Subset.refl _, fun _ => .inl rfl, fun row listed => ?_,
    fun row listed => ?_⟩, ?_⟩
  · obtain ⟨present, hash⟩ := List.mem_filter.mp listed
    refine List.mem_filter.mpr ⟨?_, hash⟩
    show row ∈ db.chunkReplicas.rows
    rw [rows]
    exact Table.mem_insertIfAbsent.mpr (.inl present)
  · obtain ⟨present, hash⟩ := List.mem_filter.mp listed
    have inserted : row ∈ (first.store.chunkReplicas.insertIfAbsent replica).rows := rows ▸ present
    rcases Table.mem_insertIfAbsent.mp inserted with old | ⟨_, rfl⟩
    · exact .inl (List.mem_filter.mpr ⟨old, hash⟩)
    · exact .inr member
  · have taken : replica.primaryKey ∈ db.chunkReplicas.keys := by
      rw [rows]
      exact Table.mem_keys_insertIfAbsent.mpr (.inr rfl)
    obtain ⟨row, present, key⟩ := Table.mem_keys.mp taken
    obtain ⟨hash, node⟩ := Prod.mk.inj key
    refine ⟨row, List.mem_filter.mpr ⟨present, ?_⟩, node ▸ member⟩
    exact decide_eq_true (hash.trans same)

end Stores

theorem directories_setNode {world : World} {nodeId : NodeId} {node : StorageNode}
    (grows : (world.nodes nodeId).disk.directories ⊆ node.disk.directories) (other : NodeId) :
    (world.nodes other).disk.directories ⊆
      ((world.setNode nodeId node).nodes other).disk.directories := by
  rw [World.nodes_setNode]
  split
  · rename_i same
    exact same ▸ grows
  · exact List.Subset.refl _

/-- What holds while the writes run next to each other: they store the chunk, and a write
that is counted has recorded a row. -/
structure Writes (written : List NodeId) (chunkHash : ChunkHash) (chunkData : Buffer)
    (before after : World × WriteProgress) : Prop where
  stores : Stores written chunkHash chunkData before.1 after.1
  counted : 0 < after.2.successCount → 0 < before.2.successCount ∨
    ∃ replica ∈ after.1.store.getChunkReplicas chunkHash, replica.nodeId ∈ written

theorem Writes.refl (state : World × WriteProgress) :
    Writes written chunkHash chunkData state state :=
  ⟨.refl _, .inl⟩

theorem Writes.trans {first second third : World × WriteProgress}
    (earlier : Writes written chunkHash chunkData first second)
    (later : Writes written chunkHash chunkData second third) :
    Writes written chunkHash chunkData first third where
  stores := earlier.stores.trans later.stores
  counted positive := by
    rcases later.counted positive with before | now
    · rcases earlier.counted before with start | ⟨replica, listed, member⟩
      · exact .inl start
      · exact .inr ⟨replica, later.stores.kept listed, member⟩
    · exact .inr now

section Tasks

variable {ι α : Type} {task : ι} {moment : Moment writing ι (World × WriteProgress)}
  {nodeId : NodeId}

/-- The services without faults, next to the variables of the writes. -/
abbrev writer : Handler writing (World × WriteProgress) := exec.withLocals WriteProgress

/-- What a write does while others run next to it, with postconditions on the services. -/
abbrev MeetsWrites (written : List NodeId) (chunkHash : ChunkHash) (chunkData : Buffer) (task : ι)
    (program : Program writing α) (moment : Moment writing ι (World × WriteProgress))
    (resolved : α → World → Prop) (rejected : World → Prop) : Prop :=
  Meets writer.semantics
    (fun first second => Writes written chunkHash chunkData first.state second.state) task program
    moment (fun value later => resolved value later.state.1) fun later => rejected later.state.1

/-- The rule of one call. -/
theorem meets_call {op : Call} {resolved : op.Result → World → Prop} {rejected : World → Prop}
    (step : ∀ before, Stores written chunkHash chunkData moment.state.1 before →
      Stores written chunkHash chunkData before (exec op before).2 ∧
        Ends (I := system) resolved rejected (exec op before).1 (exec op before).2) :
    MeetsWrites written chunkHash chunkData task
      (Program.lift (Program.perform (I := system) op)) moment resolved rejected := by
  apply Upholds.perform_handler (I := writing)
  intro before evolved
  obtain ⟨stores, ends⟩ := step before.state.1 evolved.stores
  have made : writer (.inl op) before.state =
      ((exec op before.state.1).1, (exec op before.state.1).2, before.state.2) := rfl
  rw [made]
  generalize exec op before.state.1 = result at stores ends
  obtain ⟨outcome, after⟩ := result
  refine ⟨⟨stores, .inl⟩, ?_⟩
  cases outcome with
  | ok value => exact ends
  | error failure => exact ends

theorem meets_mkdir :
    MeetsWrites written chunkHash chunkData task
      (Program.lift (disk nodeId (.mkdir (chunkPrefix chunkHash)))) moment
      (fun _ world => chunkPrefix chunkHash ∈ (world.nodes nodeId).disk.directories)
      (fun _ => False) := by
  refine meets_call fun before _ => ⟨?_, ?_⟩
  · exact .of_same (sameChunks_setNode fun path => rfl)
      (directories_setNode (Disk.directories_subset_mkdir _ _))
  · show chunkPrefix chunkHash ∈ ((before.setNode nodeId _).nodes nodeId).disk.directories
    rw [World.nodes_setNode, if_pos rfl]
    exact Disk.mem_directories_mkdir _ _

/-- The subdirectory that a write has created is still there when it writes its file. -/
theorem meets_writeFile (member : nodeId ∈ written)
    (created : chunkPrefix chunkHash ∈ (moment.state.1.nodes nodeId).disk.directories) :
    MeetsWrites written chunkHash chunkData task
      (Program.lift (disk nodeId (.writeFile (getChunkPath chunkHash) chunkData))) moment
      (fun _ world => world.bytes nodeId chunkHash = some chunkData) (fun _ => False) := by
  apply meets_call
  intro before stores
  have present : (getChunkPath chunkHash).1 ∈ (before.nodes nodeId).disk.directories :=
    stores.directories nodeId created
  obtain ⟨disk, works, same⟩ := Disk.exists_writeFile present chunkData
  have writes : exec (.disk nodeId (.writeFile (getChunkPath chunkHash) chunkData)) before =
      (.ok (), before.setNode nodeId { before.nodes nodeId with disk := disk }) :=
    congrArg (before.flush nodeId) works
  have sets := exec_writeFile writes
  rw [writes]
  refine ⟨.of_sets member sets (directories_setNode (same ▸ List.Subset.refl _)), ?_⟩
  exact (sets.bytes nodeId chunkHash).trans (if_pos ⟨rfl, rfl⟩)

theorem meets_countChunk (held : moment.state.1.bytes nodeId chunkHash = some chunkData) :
    MeetsWrites written chunkHash chunkData task
      (Program.lift (disk nodeId .countChunk)) moment
      (fun _ world => world.bytes nodeId chunkHash = some chunkData) (fun _ => False) := by
  apply meets_call
  intro before stores
  have counts : Stores written chunkHash chunkData before
      (exec (.disk nodeId .countChunk) before).2 :=
    .of_same (sameChunks_setNode fun path => rfl) (directories_setNode (List.Subset.refl _))
  exact ⟨counts, counts.holds (stores.holds held)⟩

/-- **A write leaves its node with the chunk**, whatever the other writes do. -/
theorem meets_writeChunk (valid : validChunkHash chunkHash = true) (member : nodeId ∈ written) :
    MeetsWrites written chunkHash chunkData task
      (Program.lift (StorageNodeImpl.writeChunk nodeId chunkHash chunkData)) moment
      (fun _ world => world.bytes nodeId chunkHash = some chunkData) (fun _ => False) := by
  have stored : MeetsWrites written chunkHash chunkData task
      (Program.lift do
        disk nodeId (.mkdir (chunkPrefix chunkHash))
        disk nodeId (.writeFile (getChunkPath chunkHash) chunkData)
        disk nodeId .countChunk) moment
      (fun _ world => world.bytes nodeId chunkHash = some chunkData) (fun _ => False) := by
    rw [Program.lift_bind]
    refine .bind (meets_mkdir.consequence (fun _ now created => ?_) fun _ => False.elim)
    rw [Program.lift_bind]
    refine .bind ((meets_writeFile member created).consequence (fun _ now held => ?_) ?_)
    · exact meets_countChunk held
    · exact fun _ => False.elim
  rw [StorageNodeImpl.writeChunk, StorageNodeImpl.validateChunkHash, if_pos valid]
  show MeetsWrites written chunkHash chunkData task (Program.lift (Program.tryCatch _ _)) _ _ _
  rw [Program.lift_tryCatch]
  exact Upholds.tryCatch stored fun _ _ => False.elim

/-- The rule of an assignment. -/
theorem meets_assign {update : WriteProgress → WriteProgress} {resolved : World → Prop}
    (step : ∀ before, Writes written chunkHash chunkData moment.state before →
      Writes written chunkHash chunkData before (before.1, update before.2) ∧ resolved before.1) :
    MeetsWrites written chunkHash chunkData task (Program.assign update) moment
      (fun _ => resolved) (fun _ => False) :=
  Upholds.perform_handler (I := writing) fun before evolved =>
    step before.state evolved

theorem meets_pushLocation (location : ReplicaLocation)
    (held : moment.state.1.bytes nodeId chunkHash = some chunkData) :
    MeetsWrites written chunkHash chunkData task
      (Program.assign (WriteProgress.pushLocation location)) moment
      (fun _ world => world.bytes nodeId chunkHash = some chunkData) (fun _ => False) :=
  meets_assign fun _ evolved => ⟨⟨.refl _, .inl⟩, evolved.stores.holds held⟩

/-- The insertion of a row may violate a foreign key. -/
theorem meets_createChunkReplica {replica : ChunkReplicaRecord}
    (same : replica.chunkHash = chunkHash) (member : replica.nodeId ∈ written)
    (held : moment.state.1.bytes nodeId chunkHash = some chunkData) :
    MeetsWrites written chunkHash chunkData task
      (Program.lift (store (.createChunkReplica replica))) moment
      (fun _ world => world.bytes nodeId chunkHash = some chunkData ∧
        ∃ row ∈ world.store.getChunkReplicas chunkHash, row.nodeId ∈ written)
      (fun world => world.bytes nodeId chunkHash = some chunkData) := by
  apply meets_call
  intro before stores
  have present := stores.holds held
  cases created : before.store.createChunkReplica replica with
  | error failure =>
      have fails : exec (.store (.createChunkReplica replica)) before = (.error failure, before) :=
        congrArg before.commit created
      rw [fails]
      exact ⟨.refl _, present⟩
  | ok db =>
      have works : exec (.store (.createChunkReplica replica)) before =
          (.ok (), before.setStore db) := congrArg before.commit created
      have records : Stores written chunkHash chunkData before (before.setStore db) ∧ _ :=
        Stores.of_createChunkReplica same member created
      rw [works]
      exact ⟨records.1, present, records.2⟩

theorem meets_countSuccess (held : moment.state.1.bytes nodeId chunkHash = some chunkData)
    (recorded : ∃ row ∈ moment.state.1.store.getChunkReplicas chunkHash, row.nodeId ∈ written) :
    MeetsWrites written chunkHash chunkData task (Program.assign WriteProgress.countSuccess) moment
      (fun _ world => world.bytes nodeId chunkHash = some chunkData) (fun _ => False) := by
  refine meets_assign fun before evolved => ⟨⟨.refl _, fun _ => .inr ?_⟩, evolved.stores.holds held⟩
  obtain ⟨row, listed, member⟩ := recorded
  exact ⟨row, evolved.stores.kept listed, member⟩

/-- A write records its row and is counted, or the insertion of its row is rejected. -/
theorem meets_record {replica : ChunkReplicaRecord} (same : replica.chunkHash = chunkHash)
    (member : replica.nodeId ∈ written)
    (held : moment.state.1.bytes nodeId chunkHash = some chunkData) :
    MeetsWrites written chunkHash chunkData task
      (do
        Program.lift (store (.createChunkReplica replica))
        Program.assign WriteProgress.countSuccess) moment
      (fun _ world => world.bytes nodeId chunkHash = some chunkData)
      (fun world => world.bytes nodeId chunkHash = some chunkData) := by
  refine Upholds.bind ((meets_createChunkReplica same member held).consequence
    (fun _ now ends => ?_) fun _ => id)
  exact (meets_countSuccess ends.1 ends.2).consequence (fun _ _ => id) fun _ => False.elim

/-- **One of the parallel writes.** It always resolves, and leaves its node with the chunk. -/
theorem meets_writePromise (valid : validChunkHash chunkHash = true)
    (timestamp createdAt : NodeId → Time) {nodeInfo : StorageNodeInfo}
    (member : nodeInfo.nodeId ∈ written) :
    MeetsWrites written chunkHash chunkData task
      (writePromise chunkHash chunkData timestamp createdAt nodeInfo) moment
      (fun _ world => world.bytes nodeInfo.nodeId chunkHash = some chunkData) (fun _ => False) := by
  have handled : ∀ (failure : Failure) (now : Moment writing ι (World × WriteProgress)),
      now.state.1.bytes nodeInfo.nodeId chunkHash = some chunkData →
        MeetsWrites written chunkHash chunkData task (pure ()) now
          (fun _ world => world.bytes nodeInfo.nodeId chunkHash = some chunkData)
          (fun _ => False) := fun _ _ held => held
  refine Upholds.tryCatch (Upholds.bind ?_) handled
  refine (meets_writeChunk valid member).consequence (fun _ now held => ?_) fun _ => False.elim
  refine Upholds.bind ((meets_pushLocation _ held).consequence ?_ fun _ => False.elim)
  exact fun _ now held => meets_record rfl member held

end Tasks

/-! ## What a call stores -/

/-- The nodes that a call of `replicateChunk` writes to. -/
def writtenNodes (hashRing : ConsistentHashRing ChunkHash) (storageNodes : List NodeId)
    (db : Database) (chunkHash : ChunkHash) : List NodeId :=
  (handledNodes storageNodes (selectedNodes hashRing db chunkHash)).map StorageNodeInfo.nodeId

/-- What a call that resolves leaves: all its nodes hold the chunk, one of them has a row,
and nothing else about the chunk has changed. -/
structure Stored (written : List NodeId) (chunkHash : ChunkHash) (chunkData : Buffer)
    (before after : World) : Prop where
  stores : Stores written chunkHash chunkData before after
  held : ∀ nodeId ∈ written, after.bytes nodeId chunkHash = some chunkData
  recorded : ∃ replica ∈ after.store.getChunkReplicas chunkHash, replica.nodeId ∈ written

/-- **The parallel writes store the chunk**, in whatever order their calls are made. -/
theorem stored_of_poolRuns (valid : validChunkHash chunkHash = true)
    (timestamp createdAt : NodeId → Time) (handled : List StorageNodeInfo) {world : World}
    {settled : Pool writing (Fin handled.length) Unit}
    {reached : Moment writing (Fin handled.length) (World × WriteProgress)}
    (writes : PoolRuns (Semantics.withLocals exec.semantics WriteProgress)
      (writePromises chunkHash chunkData timestamp createdAt handled, .start (world, {}))
      (settled, reached))
    (all : ∀ index, (settled index).isSettled = true)
    (counted : 0 < reached.state.2.successCount) :
    Stored (handled.map StorageNodeInfo.nodeId) chunkHash chunkData world reached.state.1 := by
  rw [withLocals_semantics] at writes
  let evolves (first second : Moment writing (Fin handled.length) (World × WriteProgress)) : Prop :=
    Writes (handled.map StorageNodeInfo.nodeId) chunkHash chunkData first.state second.state
  have refl : ∀ moment, evolves moment moment := fun moment => .refl moment.state
  have trans : ∀ first second third, evolves first second → evolves second third →
      evolves first third := fun _ _ _ => Writes.trans
  have starts : ∀ index, Meets writer.semantics evolves index
      (writePromises chunkHash chunkData timestamp createdAt handled index) (.start (world, {}))
      (fun _ later => later.state.1.bytes (handled.get index).nodeId chunkHash = some chunkData)
      (fun _ => False) :=
    fun index => meets_writePromise valid timestamp createdAt
      (List.mem_map_of_mem (List.get_mem handled index))
  have total := (Pool.meets refl trans starts writes).1
  refine ⟨total.stores, fun nodeId member => ?_, ?_⟩
  · obtain ⟨nodeInfo, present, rfl⟩ := List.mem_map.mp member
    obtain ⟨index, rfl⟩ := List.get_of_mem present
    cases final : settled index with
    | call op next =>
        have done := all index
        rw [final] at done
        cases done
    | done outcome =>
        obtain ⟨moment, _, later, ends⟩ := Pool.settles refl trans starts writes final
        cases outcome with
        | ok value => exact later.stores.holds ends
        | error failure => exact ends.elim
  · rcases total.counted counted with start | recorded
    · cases start
    · exact recorded

/-- Writes that settle with a quorum are a call that resolves. -/
theorem ReplicatesChunk.resolves {hashRing : ConsistentHashRing ChunkHash}
    {storageNodes : List NodeId} {sem : Semantics system World}
    {timestamp createdAt : NodeId → Time} {world middle : World} {selected : List StorageNodeInfo}
    {settled : Pool writing (Fin (handledNodes storageNodes selected).length) Unit}
    {reached : Moment writing (Fin (handledNodes storageNodes selected).length)
      (World × WriteProgress)}
    (selects : Runs sem (selectStorageNodes hashRing chunkHash replicationFactor) world
      (.ok selected) middle)
    (enough : replicationFactor ≤ selected.length)
    (writes : PoolRuns (Semantics.withLocals sem WriteProgress)
      (writePromises chunkHash chunkData timestamp createdAt (handledNodes storageNodes selected),
        .start (middle, {})) (settled, reached))
    (all : ∀ index, (settled index).isSettled = true)
    (counted : quorumWrite ≤ reached.state.2.successCount) :
    ReplicatesChunk hashRing storageNodes sem chunkHash chunkData timestamp createdAt world
      (.ok reached.state.2.replicaLocations) reached.state.1 := by
  have replicates := ReplicatesChunk.written selects enough writes all
  rwa [if_neg (not_lt.mpr counted)] at replicates

/-- **A call of `replicateChunk` that resolves without a fault has stored the chunk** on
all its nodes. -/
theorem ReplicatesChunk.stored {hashRing : ConsistentHashRing ChunkHash}
    {storageNodes : List NodeId} {timestamp createdAt : NodeId → Time} {world after : World}
    {locations : List ReplicaLocation} (valid : validChunkHash chunkHash = true)
    (replicates : ReplicatesChunk hashRing storageNodes exec.semantics chunkHash chunkData
      timestamp createdAt world (.ok locations) after) :
    Stored (writtenNodes hashRing storageNodes world.store chunkHash) chunkHash chunkData world
      after := by
  generalize resolved : Except.ok locations = outcome at replicates
  cases replicates with
  | unselected selects => cases resolved
  | insufficient selects few => cases resolved
  | @written selected middle settled reached selects enough writes all =>
      have run := runs_semantics_iff.mp selects
      rw [run_selectStorageNodes] at run
      obtain ⟨found, rfl⟩ := Prod.mk.inj run
      obtain rfl := Except.ok.inj found
      refine stored_of_poolRuns valid timestamp createdAt _ writes all ?_
      by_contra none
      have few : reached.state.2.successCount < quorumWrite :=
        lt_of_le_of_lt (not_lt.mp none) (by decide)
      rw [if_pos few] at resolved
      cases resolved

end ReplicationServiceImpl

end DistributedFileStorage.Replication
