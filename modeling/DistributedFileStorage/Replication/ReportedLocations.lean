import DistributedFileStorage.Replication.QuorumOutcomes

/-!
# The reported replicas

`replicateChunk` resolves with the list of the replica locations. A write puts its location on the
list when the node has the bytes, before the replica is recorded and the write counted. So the list
holds the nodes that were written, whatever the order of the writes (`reported_perm`), and they are
the nodes on which both steps succeed exactly when no record fails (`reportsSuccesses_iff`).
-/

set_option autoImplicit false

namespace DistributedFileStorage.Replication.ReplicationServiceImpl

open Async Store Services Nodes Placement Relational

variable {ι : Type}

/-- How often a node is on the list of the locations. -/
def reportsOf (nodeId : NodeId) (progress : WriteProgress) : ℕ :=
  (progress.replicaLocations.map ReplicaLocation.nodeId).count nodeId

theorem reportsOf_pushLocation (nodeId : NodeId) (location : ReplicaLocation)
    (progress : WriteProgress) :
    reportsOf nodeId (progress.pushLocation location) =
      reportsOf nodeId progress + if location.nodeId = nodeId then 1 else 0 := by
  simp [reportsOf, WriteProgress.pushLocation, List.count_singleton]

/-! ## The reports of a write -/

/-- What the calls of the write to a node have done so far: whether they have written the bytes,
and how often they have put the node, and no other, on the list. -/
structure Reported (nodeId : NodeId) (written : Bool) (count : ℕ) (calls : List (WriteEvent ι)) :
    Prop where
  written : calls.any (writesChunk nodeId) = written
  reports : ∀ other, gained (reportsOf other) calls = if nodeId = other then count else 0

section Follows

variable [DecidableEq ι] {task : ι} {nodeId : NodeId} {written : Bool} {count : ℕ}
  {calls : List (WriteEvent ι)}

/-- The writes of a pool, whose calls may come in any order. -/
abbrev FollowsReports {α : Type} (task : ι) (program : Program writing α)
    (calls : List (WriteEvent ι)) (resolved : α → List (WriteEvent ι) → Prop)
    (rejected : List (WriteEvent ι) → Prop) : Prop :=
  Follows (Semantics.withLocals faulty WriteProgress) (fun _ _ _ => True) task program calls
    resolved rejected

/-- The rule of a call of a service, which reports nothing. -/
theorem reports_call (op : Call) (so : Reported nodeId written count calls) :
    FollowsReports task (Program.lift (Program.perform (I := system) op)) calls
      (fun _ later => ∃ event : WriteEvent ι, event.op = .inl op ∧ event.fails = false ∧
        Reported nodeId (written || writesChunk nodeId event) count later)
      fun later => Reported nodeId written count later ∧
        ∃ before failure after, faulty op before (.error failure) after := by
  refine Follows.perform (I := writing) trivial fun before outcome after happens => ?_
  have locals : after.2 = before.2 := happens.2
  have next : Reported nodeId (written || writesChunk nodeId ⟨task, .inl op, outcome, before,
      after⟩) count (calls ++ [⟨task, .inl op, outcome, before, after⟩]) :=
    ⟨by simp [so.written], fun other => by
      rw [gained_append, locals, Nat.sub_self, so.reports, Nat.add_zero]⟩
  cases outcome with
  | ok value => exact ⟨_, rfl, rfl, next⟩
  | error failure =>
      have nothing : writesChunk nodeId (⟨task, .inl op, .error failure, before, after⟩ :
        WriteEvent ι) = false := (not_writes_of_fails rfl).1
      rw [nothing, Bool.or_false] at next
      exact ⟨next, before.1, failure, after.1, happens.1⟩

/-- The rule of an assignment. -/
theorem reports_assign {update : WriteProgress → WriteProgress} {more : ℕ}
    {rejected : List (WriteEvent ι) → Prop} (so : Reported nodeId written count calls)
    (adds : ∀ other progress, reportsOf other (update progress) =
      reportsOf other progress + if nodeId = other then more else 0) :
    FollowsReports task (Program.assign update) calls
      (fun _ => Reported nodeId written (count + more)) rejected := by
  refine Follows.perform (I := writing) trivial fun before outcome after happens => ?_
  obtain ⟨rfl, rfl⟩ := happens
  refine ⟨by simp [so.written, writesChunk], fun other => ?_⟩
  rw [gained_append, adds, Nat.add_sub_cancel_left, so.reports]
  split <;> rfl

/-- The counter of a node does not fail. -/
theorem not_fails_countChunk {before after : World} {failure : Failure} :
    ¬ faulty (.disk nodeId .countChunk) before (.error failure) after := by
  rintro (works | ⟨fallible, _⟩)
  · cases works
  · cases fallible

/-- Writing the chunk: the subdirectory, the file and the counter. -/
theorem reports_storeChunk (chunkHash : ChunkHash) (chunkData : Buffer)
    (so : Reported nodeId false 0 calls) :
    FollowsReports task
      (Program.lift do
        disk nodeId (.mkdir (chunkPrefix chunkHash))
        disk nodeId (.writeFile (getChunkPath chunkHash) chunkData)
        disk nodeId .countChunk) calls
      (fun _ => Reported nodeId true 0) (Reported nodeId false 0) := by
  rw [Program.lift_bind]
  refine .bind ((reports_call _ so).consequence (fun _ made first => ?_) fun _ stopped => stopped.1)
  obtain ⟨mkdir, isMkdir, _, so⟩ := first
  have unwritten : Reported nodeId false 0 made := by
    simpa [writesChunk, isMkdir] using so
  rw [Program.lift_bind]
  refine .bind ((reports_call _ unwritten).consequence (fun _ stored second => ?_)
    fun _ stopped => stopped.1)
  obtain ⟨write, isWrite, worked, so⟩ := second
  have holds : Reported nodeId true 0 stored := by
    simpa [writesChunk, isWrite, worked] using so
  refine (reports_call _ holds).consequence (fun _ counted third => ?_) fun _ stopped => ?_
  · obtain ⟨event, isCount, _, so⟩ := third
    simpa [writesChunk, isCount] using so
  · obtain ⟨_, _, _, _, fails⟩ := stopped
    exact absurd fails not_fails_countChunk

/-- A write that rejects has not written the bytes. -/
theorem reports_writeChunk (chunkHash : ChunkHash) (chunkData : Buffer)
    (so : Reported nodeId false 0 calls) :
    FollowsReports task (Program.lift (StorageNodeImpl.writeChunk nodeId chunkHash chunkData)) calls
      (fun _ => Reported nodeId true 0) (Reported nodeId false 0) := by
  rw [StorageNodeImpl.writeChunk, StorageNodeImpl.validateChunkHash]
  by_cases valid : validChunkHash chunkHash = true
  · rw [if_pos valid]
    show FollowsReports task (Program.lift (Program.tryCatch _ _)) _ _ _
    rw [Program.lift_tryCatch]
    exact (reports_storeChunk chunkHash chunkData so).tryCatch fun _ _ held => .throw held
  · rw [if_neg valid]
    exact .throw so

/-- **A settled write has put its node on the list exactly when it has written the bytes.** -/
theorem reports_writePromise (chunkHash : ChunkHash) (chunkData : Buffer)
    (timestamp createdAt : NodeId → Time) (nodeInfo : StorageNodeInfo) :
    FollowsReports task (writePromise chunkHash chunkData timestamp createdAt nodeInfo) []
      (fun _ later => ∃ written : Bool, Reported nodeInfo.nodeId written written.toNat later)
      (fun _ => False) := by
  have start : Reported nodeInfo.nodeId false 0 ([] : List (WriteEvent ι)) :=
    ⟨rfl, fun other => (ite_self _).symm⟩
  have counts : ∀ other progress, reportsOf other (WriteProgress.countSuccess progress) =
      reportsOf other progress + if nodeInfo.nodeId = other then 0 else 0 := fun other progress =>
    by rw [ite_self]; rfl
  refine .tryCatch ?_ fun _ later (held : ∃ written : Bool,
    Reported nodeInfo.nodeId written written.toNat later) => .pure held
  refine .bind ((reports_writeChunk chunkHash chunkData start).consequence (fun _ stored so => ?_)
    fun _ so => ⟨false, so⟩)
  refine .bind ((reports_assign so fun other => reportsOf_pushLocation other _).consequence
    (fun _ pushed so => ?_) fun _ => id)
  refine .bind ((reports_call _ so).consequence (fun _ recorded last => ?_)
    fun _ stopped => ⟨true, stopped.1⟩)
  obtain ⟨record, isRecord, _, so⟩ := last
  have noted : Reported nodeInfo.nodeId true 1 recorded := by
    simpa [writesChunk, isRecord] using so
  exact (reports_assign noted counts).consequence (fun _ _ so => ⟨true, so⟩) fun _ => id

end Follows

/-! ## The list -/

section List

variable {hashRing : ConsistentHashRing ChunkHash} {storageNodes : List NodeId}
  {chunkHash : ChunkHash} {chunkData : Buffer} {timestamp createdAt : NodeId → Time}
  {world middle : World} {selected : List StorageNodeInfo}

/-- The nodes with a handle that have been written. -/
def storedNodes (storageNodes : List NodeId) (history : List (WriteEvent ι))
    (selected : List StorageNodeInfo) : List StorageNodeInfo :=
  (handledNodes storageNodes selected).filter fun nodeInfo =>
    history.any (writesChunk nodeInfo.nodeId)

/-- On a node that has been written both steps succeed, or the record fails. -/
theorem mem_storedNodes {history : List (WriteEvent ι)} {nodeInfo : StorageNodeInfo} :
    nodeInfo ∈ storedNodes storageNodes history selected ↔ nodeInfo ∈ selected ∧
      (writeOutcome storageNodes history nodeInfo.nodeId = .bothSucceed ∨
        writeOutcome storageNodes history nodeInfo.nodeId = .replicaRecordFails) := by
  unfold storedNodes handledNodes writeOutcome
  rw [List.filter_filter, List.mem_filter]
  refine and_congr_right fun _ => ?_
  by_cases handled : nodeInfo.nodeId ∈ storageNodes <;>
    cases history.any (writesChunk nodeInfo.nodeId) <;>
    cases history.any (recordsReplica nodeInfo.nodeId) <;> simp [handled]

/-- When no record fails, both steps succeed on the nodes that have been written. -/
theorem storedNodes_eq_succeeded {history : List (WriteEvent ι)}
    (records : ∀ nodeInfo ∈ selected,
      writeOutcome storageNodes history nodeInfo.nodeId ≠ .replicaRecordFails) :
    storedNodes storageNodes history selected = succeeded storageNodes history selected := by
  rw [succeeded_eq]
  refine List.filter_congr fun nodeInfo handled => ?_
  have chosen := List.mem_of_mem_filter handled
  have among : history.any (writesChunk nodeInfo.nodeId) = true ↔
      nodeInfo ∈ storedNodes storageNodes history selected := by
    rw [storedNodes, List.mem_filter, and_iff_right handled]
  rw [Bool.eq_iff_iff, decide_eq_true_eq, among, mem_storedNodes, and_iff_right chosen]
  exact or_iff_left (records nodeInfo chosen)

/-- How often an identifier occurs on the items of a list that pass a test. -/
theorem sum_ite_and_eq_count {α : Type} (items : List α) (test : α → Bool) (name : α → NodeId)
    (nodeId : NodeId) :
    ∑ index : Fin items.length, (if name (items.get index) = nodeId then
        (test (items.get index)).toNat else 0) = ((items.filter test).map name).count nodeId := by
  rw [List.count_eq_countP, List.countP_map, List.countP_filter, List.countP_eq_length_filter,
    ← sum_ite_eq_length]
  refine Finset.sum_congr rfl fun index _ => ?_
  by_cases same : name (items.get index) = nodeId <;> cases test (items.get index) <;>
    simp_all

variable {settled : Pool writing (Fin (handledNodes storageNodes selected).length) Unit}
  {reached : Moment writing (Fin (handledNodes storageNodes selected).length)
    (World × WriteProgress)}

/-- **The list holds each node that has been written once**, and no other. -/
theorem reported_perm (distinct : (selected.map StorageNodeInfo.nodeId).Nodup)
    (writes : PoolRuns (Semantics.withLocals faulty WriteProgress)
      (writePromises chunkHash chunkData timestamp createdAt (handledNodes storageNodes selected),
        .start (middle, {})) (settled, reached))
    (all : ∀ index, (settled index).isSettled = true) :
    (reached.state.2.replicaLocations.map ReplicaLocation.nodeId).Perm
      ((storedNodes storageNodes reached.history selected).map StorageNodeInfo.nodeId) := by
  have run := (writeRun_of_writes writes all).1
  have apart := injective_handledNodes storageNodes distinct
  have starts : ∀ index, FollowsReports index (writePromises chunkHash chunkData timestamp createdAt
      (handledNodes storageNodes selected) index) []
      (fun _ later => ∃ wrote : Bool,
        Reported ((handledNodes storageNodes selected).get index).nodeId wrote wrote.toNat later)
      (fun _ => False) := fun index =>
    reports_writePromise chunkHash chunkData timestamp createdAt _
  have settles := Pool.follows_of_isSettled starts writes all
  refine List.perm_iff_count.mpr fun nodeId => ?_
  have each : ∀ index, gained (reportsOf nodeId) (callsOf index reached.history) =
      if ((handledNodes storageNodes selected).get index).nodeId = nodeId then
        (reached.history.any (writesChunk
          ((handledNodes storageNodes selected).get index).nodeId)).toNat else 0 := by
    intro index
    obtain ⟨wrote, so⟩ := settles index
    rw [so.reports nodeId, ← any_callsOf apart index run fun _ => .inl, so.written]
  have grows : ∀ location progress, reportsOf nodeId progress ≤
      reportsOf nodeId (progress.pushLocation location) := fun location progress =>
    (Nat.le_add_right _ _).trans (reportsOf_pushLocation nodeId location progress).ge
  have summed := measure_eq_sum (reportsOf nodeId) middle rfl grows (fun _ => le_rfl) run
  have counted := sum_ite_and_eq_count (handledNodes storageNodes selected) (fun nodeInfo =>
    reached.history.any (writesChunk nodeInfo.nodeId)) StorageNodeInfo.nodeId nodeId
  rw [Finset.sum_congr rfl fun index _ => each index, counted] at summed
  exact summed

/-- A call that resolves returns the list. -/
theorem eq_of_quorumResult {progress : WriteProgress} {locations : List ReplicaLocation}
    (resolved : quorumResult progress = .ok locations) : progress.replicaLocations = locations := by
  unfold quorumResult at resolved
  split at resolved
  · cases resolved
  · exact Except.ok.inj resolved

/-- A call that resolves reports exactly the nodes on which both steps have succeeded, each of
them once, and each of them has a row. -/
structure ReportsSuccesses (storageNodes : List NodeId) (history : List (WriteEvent ι))
    (selected : List StorageNodeInfo) (chunkHash : ChunkHash) (world : World)
    (locations : List ReplicaLocation) : Prop where
  nodes : (locations.map ReplicaLocation.nodeId).Perm
    ((succeeded storageNodes history selected).map StorageNodeInfo.nodeId)
  rows : ∀ location ∈ locations,
    ∃ replica ∈ world.store.getChunkReplicas chunkHash, replica.nodeId = location.nodeId

/-- **The reported nodes are those on which both steps succeed exactly when no record fails** on a
node that has been written. Any call may fail, and the writes and records complete in any order. -/
theorem reportsSuccesses_iff {locations : List ReplicaLocation}
    (selects : Runs faulty (selectStorageNodes hashRing chunkHash replicationFactor) world
      (.ok selected) middle)
    (enough : replicationFactor ≤ selected.length)
    (writes : PoolRuns (Semantics.withLocals faulty WriteProgress)
      (writePromises chunkHash chunkData timestamp createdAt (handledNodes storageNodes selected),
        .start (middle, {})) (settled, reached))
    (all : ∀ index, (settled index).isSettled = true)
    (resolved : quorumResult reached.state.2 = .ok locations) :
    ReplicatesChunk hashRing storageNodes faulty chunkHash chunkData timestamp createdAt world
        (.ok locations) reached.state.1 ∧
      (ReportsSuccesses storageNodes reached.history selected chunkHash reached.state.1 locations ↔
        ∀ nodeInfo ∈ selected,
          writeOutcome storageNodes reached.history nodeInfo.nodeId ≠ .replicaRecordFails) := by
  obtain ⟨rfl, rfl⟩ := triple_selectStorageNodes hashRing chunkHash world rfl selects
  have reported := reported_perm nodup_selectedNodes writes all
  obtain rfl := eq_of_quorumResult resolved
  refine ⟨resolved ▸ .written selects enough writes all, ?_⟩
  constructor
  · -- a node whose record fails is reported, so both steps would have succeeded on it
    intro reports nodeInfo chosen fails
    have listed := reported.mem_iff.mpr
      (List.mem_map_of_mem (mem_storedNodes.mpr ⟨chosen, .inr fails⟩))
    obtain ⟨other, both, same⟩ := List.mem_map.mp (reports.nodes.mem_iff.mp listed)
    have succeeds := of_decide_eq_true (List.mem_filter.mp both).2
    rw [same, fails] at succeeds
    cases succeeds
  · intro records
    rw [storedNodes_eq_succeeded records] at reported
    refine ⟨reported, fun location member => ?_⟩
    obtain ⟨nodeInfo, both, same⟩ :=
      List.mem_map.mp (reported.mem_iff.mp (List.mem_map_of_mem member))
    have succeeds := of_decide_eq_true (List.mem_filter.mp both).2
    exact same ▸ (holdsReplica_of_bothSucceed (injective_handledNodes storageNodes
      nodup_selectedNodes) (writeRun_of_writes writes all).1 succeeds).row

/-! ## Three nodes -/

/-- The bytes do not reach one node. -/
def unwritten (nodeId : NodeId) : Call → Option Failure
  | .disk other (.writeFile _ _) =>
      if other = nodeId then some (.error "EIO: i/o error") else none
  | _ => none

/-- The replica of one node is not recorded. -/
def unrecorded (nodeId : NodeId) : Call → Option Failure
  | .store (.createChunkReplica replica) =>
      if replica.nodeId = nodeId then some (.error "connection terminated") else none
  | _ => none

/-- The writes of the byte 7 to three nodes, one node after the other, with the calls of a table
failing. -/
def faultyWrites (failing : Call → Option Failure) :
    let handled := handledNodes ["n1", "n2", "n3"]
      (selectedNodes threeNodes recordedChunk.store sevenMetadata.contentHash)
    Pool writing (Fin handled.length) Unit ×
      Moment writing (Fin handled.length) (World × WriteProgress) :=
  Pool.runSchedule ((failingCalls failing).withLocals WriteProgress)
    ((List.finRange _).flatMap (List.replicate 6))
    (writePromises sevenMetadata.contentHash [7] (fun _ => 1) (fun _ => 1)
      (handledNodes ["n1", "n2", "n3"] (selectedNodes threeNodes recordedChunk.store
        sevenMetadata.contentHash)), .start (recordedChunk, {}))

theorem runs_faultyWrites {sem : Semantics system World} (failing : Call → Option Failure)
    (allows : ∀ op world, sem op world (failingCalls failing op world).1
      (failingCalls failing op world).2) :
    PoolRuns (Semantics.withLocals sem WriteProgress)
      (writePromises sevenMetadata.contentHash [7] (fun _ => 1) (fun _ => 1)
        (handledNodes ["n1", "n2", "n3"] (selectedNodes threeNodes recordedChunk.store
          sevenMetadata.contentHash)), .start (recordedChunk, {}))
      (faultyWrites failing) := by
  refine Pool.runs_runSchedule (fun op state => ?_) _ _
  cases op with
  | inl op => exact ⟨allows op state.1, rfl⟩
  | inr update => exact ⟨rfl, rfl⟩

/-- A node that is not written is not reported. -/
theorem reportsSuccesses_unwritten :
    ∃ locations, quorumResult (faultyWrites (unwritten "n3")).2.state.2 = .ok locations ∧
      locations.map ReplicaLocation.nodeId = ["n1", "n2"] ∧
      ReportsSuccesses ["n1", "n2", "n3"] (faultyWrites (unwritten "n3")).2.history
        (selectedNodes threeNodes recordedChunk.store sevenMetadata.contentHash)
        sevenMetadata.contentHash (faultyWrites (unwritten "n3")).2.state.1 locations := by
  refine ⟨(faultyWrites (unwritten "n3")).2.state.2.replicaLocations, by decide +kernel,
    by decide +kernel, ?_⟩
  exact (reportsSuccesses_iff selects_recordedChunk (by decide +kernel)
    (runs_faultyWrites (unwritten "n3") (withFaults_failingOn _)) (by decide +kernel)
      (by decide +kernel)).2.mpr (by decide +kernel)

/-- **A node whose record fails is reported all the same**, and has no row. -/
theorem reports_unrecorded :
    ∃ locations, ReplicatesChunk threeNodes ["n1", "n2", "n3"] faulty sevenMetadata.contentHash [7]
        (fun _ => 1) (fun _ => 1) recordedChunk (.ok locations)
        (faultyWrites (unrecorded "n3")).2.state.1 ∧
      writeOutcome ["n1", "n2", "n3"] (faultyWrites (unrecorded "n3")).2.history "n3" =
        .replicaRecordFails ∧
      "n3" ∈ locations.map ReplicaLocation.nodeId ∧
      ((faultyWrites (unrecorded "n3")).2.state.1.store.getChunkReplicas
        sevenMetadata.contentHash).map ChunkReplicaRecord.nodeId = ["n1", "n2"] := by
  have resolved : quorumResult (faultyWrites (unrecorded "n3")).2.state.2 =
      .ok (faultyWrites (unrecorded "n3")).2.state.2.replicaLocations := by decide +kernel
  have replicates : ReplicatesChunk threeNodes ["n1", "n2", "n3"] faulty sevenMetadata.contentHash
      [7] (fun _ => 1) (fun _ => 1) recordedChunk
      (quorumResult (faultyWrites (unrecorded "n3")).2.state.2)
      (faultyWrites (unrecorded "n3")).2.state.1 :=
    .written selects_recordedChunk (by decide +kernel) (runs_faultyWrites (unrecorded "n3")
      (withFaults_failingOn _))
      (by decide +kernel)
  rw [resolved] at replicates
  exact ⟨_, replicates, by decide +kernel, by decide +kernel, by decide +kernel⟩

end List

end DistributedFileStorage.Replication.ReplicationServiceImpl
