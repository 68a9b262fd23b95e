import DistributedFileStorage.Chunking.Assembly
import DistributedFileStorage.Replication.Repair
import DistributedFileStorage.Replication.ReportedLocations

/-!
# What survives the loss of a node

A file is cut into chunks, the chunks are replicated under their digests, and a call of
`replicateChunk` that resolves returns two locations at least. All of them hold the bytes of the
chunk, and later calls do not change them, whether they resolve or not, and for whichever chunks they
are made. So the file can be read back from the locations that were returned, although one node may
lose or change its disk at any time (`reassembles_after_loss`).

Nothing here deletes a chunk, and no two chunks that are replicated have the same digest.
-/

set_option autoImplicit false

namespace DistributedFileStorage.Replication.ReplicationServiceImpl

open Async Store Services Nodes Placement Relational Program Chunking Sequences

variable {hashRing : ConsistentHashRing ChunkHash} {storageNodes : List NodeId}
  {chunkHash : ChunkHash} {chunkData : Buffer} {timestamp createdAt : NodeId → Time}
  {world after : World} {locations : List ReplicaLocation}

/-! ## One call -/

/-- Any call may fail, except that a write does not fail over a file that is there. On the node that
may be lost it may. -/
def sparing (lost : NodeId) : Semantics system World := fun op before outcome after =>
  faulty op before outcome after ∧ ∀ nodeId path data, op = .disk nodeId (.writeFile path data) →
    (∃ failure, outcome = .error failure) →
      nodeId = lost ∨ (before.nodes nodeId).disk.contents path = none

theorem faulty_of_sparing {lost : NodeId} (op : Call) (before : World)
    (outcome : Except Failure op.Result) (after : World)
    (happens : sparing lost op before outcome after) : faulty op before outcome after :=
  happens.1

/-- What a node holds is not changed by a call of a write, when the write brings the same bytes or
is about another chunk. -/
theorem WriteRun.keeps_bytes {ι : Type} [DecidableEq ι] {node : ι → NodeId}
    {origin : World × WriteProgress} {moment : Moment writing ι (World × WriteProgress)}
    (run : WriteRun node chunkHash chunkData origin moment) {lost : NodeId}
    (spares : ∀ event ∈ moment.history, Semantics.withLocals (sparing lost) WriteProgress event.op
      event.before event.outcome event.after) {holder : NodeId} (remains : holder ≠ lost)
    {hash : ChunkHash} {data : Buffer} (agrees : hash = chunkHash → data = chunkData)
    (held : origin.1.bytes holder hash = some data) :
    moment.state.1.bytes holder hash = some data := by
  induction run with
  | start => exact held
  | @next before task op outcome after earlier rule happens ih =>
      rw [Moment.history_next] at spares
      have still := ih fun event member => spares event (List.mem_append_left _ member)
      have here := spares _ (List.mem_append_right _ (List.mem_singleton_self _))
      rw [Moment.state_next]
      rcases op with op | update
      · rcases rule.overwrites happens.1 holder hash with same | ⟨_, rfl, rfl, put | ⟨rfl, failed⟩⟩
        · exact same.trans still
        · rw [put, agrees rfl]
        · -- the write has failed over a file that is there
          rcases here.1.2 _ _ _ rfl failed with gone | empty
          · exact absurd gone remains
          · cases still.symm.trans empty
      · rw [happens.2]
        exact still

/-- **A call does not change what a node holds**, whether it resolves or not. -/
theorem ReplicatesChunk.keeps_bytes {lost : NodeId}
    {outcome : Except Failure (List ReplicaLocation)}
    (replicates : ReplicatesChunk hashRing storageNodes (sparing lost) chunkHash chunkData timestamp
      createdAt world outcome after)
    {holder : NodeId} (remains : holder ≠ lost) {hash : ChunkHash} {data : Buffer}
    (agrees : hash = chunkHash → data = chunkData)
    (held : world.bytes holder hash = some data) : after.bytes holder hash = some data := by
  cases replicates with
  | unselected selects =>
      have same : after = world := triple_selectStorageNodes hashRing chunkHash world rfl
        (selects.mono faulty_of_sparing)
      rwa [same]
  | insufficient selects few =>
      obtain ⟨_, rfl⟩ := triple_selectStorageNodes hashRing chunkHash world rfl
        (selects.mono faulty_of_sparing)
      exact held
  | written selects enough writes all =>
      obtain ⟨_, rfl⟩ := triple_selectStorageNodes hashRing chunkHash world rfl
        (selects.mono faulty_of_sparing)
      have faults := Pool.runs_mono (Semantics.withLocals_mono faulty_of_sparing) writes
      refine (writeRun_of_writes faults all).1.keeps_bytes (fun event member => ?_) remains agrees
        held
      rcases Pool.happens_of_runs writes event member with old | happens
      · cases old
      · exact happens

/-- **A call that resolves returns a quorum of nodes, which hold the chunk.** -/
theorem ReplicatesChunk.located {lost : NodeId}
    (replicates : ReplicatesChunk hashRing storageNodes (sparing lost) chunkHash chunkData timestamp
      createdAt world (.ok locations) after) :
    ((locations.map ReplicaLocation.nodeId).Nodup ∧ quorumWrite ≤ locations.length) ∧
      ∀ location ∈ locations, after.bytes location.nodeId chunkHash = some chunkData := by
  generalize settles : Except.ok locations = outcome at replicates
  cases replicates with
  | unselected selects => cases settles
  | insufficient selects few => cases settles
  | @written selected middle settled reached selects enough spared all =>
      have writes := Pool.runs_mono (Semantics.withLocals_mono faulty_of_sparing) spared
      obtain ⟨rfl, rfl⟩ := triple_selectStorageNodes hashRing chunkHash world rfl
        (selects.mono faulty_of_sparing)
      have resolved : quorumResult reached.state.2 = .ok locations := settles.symm
      have same := eq_of_quorumResult resolved
      have many := quorumResult_ok_iff.mp ⟨locations, resolved⟩
      have distinct : ((selectedNodes hashRing middle.store chunkHash).map
          StorageNodeInfo.nodeId).Nodup := nodup_selectedNodes
      have run := (writeRun_of_writes writes all).1
      have listed := reported_perm distinct writes all
      rw [same] at listed
      have apart : ((storedNodes storageNodes reached.history
          (selectedNodes hashRing middle.store chunkHash)).map StorageNodeInfo.nodeId).Nodup :=
        distinct.sublist ((List.filter_sublist.trans List.filter_sublist).map _)
      refine ⟨⟨listed.nodup_iff.mpr apart, ?_⟩, fun location member => ?_⟩
      · -- a counted write has put its location on the list
        have counted : (succeeded storageNodes reached.history
            (selectedNodes hashRing middle.store chunkHash)).length ≤
              (storedNodes storageNodes reached.history
                (selectedNodes hashRing middle.store chunkHash)).length := by
          refine (List.Nodup.of_map _ (nodup_succeeded distinct reached.history)).subperm
            (fun nodeInfo succeeds => ?_) |>.length_le
          obtain ⟨chosen, both⟩ := List.mem_filter.mp succeeds
          exact mem_storedNodes.mpr ⟨chosen, .inl (of_decide_eq_true both)⟩
        have length := listed.length_eq
        rw [List.length_map, List.length_map] at length
        rw [successCount_eq distinct writes all] at many
        exact many.trans (counted.trans length.ge)
      · have stored := listed.mem_iff.mp (List.mem_map_of_mem member)
        obtain ⟨nodeInfo, written, node⟩ := List.mem_map.mp stored
        have wrote := (List.mem_filter.mp written).2
        rw [node] at wrote
        exact run.bytes_of_written (injective_handledNodes storageNodes distinct) wrote

/-! ## Histories -/

/-- A history of replications, with each chunk and the locations that were returned for it. The ring
and the handles may be others in each call, and any call of a service may fail, but no write over a
file that is there. In between the metadata may change in any way, and one node may lose or change
what it has. -/
inductive ReplicationHistory (sha256 : Sha256) (supplied : Buffer → Prop) (lost : NodeId)
    (start : World) : List (Buffer × List ReplicaLocation) → World → Prop where
  | start : ReplicationHistory sha256 supplied lost start [] start
  | resolves {replicated : List (Buffer × List ReplicaLocation)} {before after : World}
      {hashRing : ConsistentHashRing ChunkHash} {storageNodes : List NodeId} {chunkData : Buffer}
      {timestamp createdAt : NodeId → Time} {locations : List ReplicaLocation}
      (earlier : ReplicationHistory sha256 supplied lost start replicated before)
      (given : supplied chunkData)
      (replicates : ReplicatesChunk hashRing storageNodes (sparing lost) (sha256.digest chunkData)
        chunkData timestamp createdAt before (.ok locations) after) :
      ReplicationHistory sha256 supplied lost start (replicated ++ [(chunkData, locations)]) after
  | rejects {replicated : List (Buffer × List ReplicaLocation)} {before after : World}
      {hashRing : ConsistentHashRing ChunkHash} {storageNodes : List NodeId} {chunkData : Buffer}
      {timestamp createdAt : NodeId → Time} {failure : Failure}
      (earlier : ReplicationHistory sha256 supplied lost start replicated before)
      (given : supplied chunkData)
      (replicates : ReplicatesChunk hashRing storageNodes (sparing lost) (sha256.digest chunkData)
        chunkData timestamp createdAt before (.error failure) after) :
      ReplicationHistory sha256 supplied lost start replicated after
  | changesMetadata {replicated : List (Buffer × List ReplicaLocation)} {before : World}
      (earlier : ReplicationHistory sha256 supplied lost start replicated before) (db : Database) :
      ReplicationHistory sha256 supplied lost start replicated (before.setStore db)
  | loses {replicated : List (Buffer × List ReplicaLocation)} {before : World}
      (earlier : ReplicationHistory sha256 supplied lost start replicated before)
      (node : StorageNode) :
      ReplicationHistory sha256 supplied lost start replicated (before.setNode lost node)

/-- The chunk can be read from the node: a call has returned it, and it is not the lost one. -/
def Serves (replicated : List (Buffer × List ReplicaLocation)) (lost : NodeId)
    (chunkData : Buffer) (nodeId : NodeId) : Prop :=
  nodeId ≠ lost ∧ ∃ locations, (chunkData, locations) ∈ replicated ∧
    nodeId ∈ locations.map ReplicaLocation.nodeId

variable {sha256 : Sha256} {supplied : Buffer → Prop} {lost : NodeId} {start : World}
  {replicated : List (Buffer × List ReplicaLocation)}

/-- What is known of the chunks that were replicated. -/
structure Replicated (sha256 : Sha256) (supplied : Buffer → Prop) (lost : NodeId)
    (replicated : List (Buffer × List ReplicaLocation)) (world : World) : Prop where
  given : ∀ entry ∈ replicated, supplied entry.1
  quorum : ∀ entry ∈ replicated, (entry.2.map ReplicaLocation.nodeId).Nodup ∧
    quorumWrite ≤ entry.2.length
  held : ∀ chunkData nodeId, Serves replicated lost chunkData nodeId →
    world.bytes nodeId (sha256.digest chunkData) = some chunkData

/-- A call keeps the chunks that were replicated before. -/
theorem Replicated.keeps {outcome : Except Failure (List ReplicaLocation)}
    (so : Replicated sha256 supplied lost replicated world)
    (collisionFree : ∀ first second, supplied first → supplied second →
      sha256.digest first = sha256.digest second → first = second)
    (given : supplied chunkData)
    (replicates : ReplicatesChunk hashRing storageNodes (sparing lost) (sha256.digest chunkData)
      chunkData timestamp createdAt world outcome after) :
    Replicated sha256 supplied lost replicated after where
  given := so.given
  quorum := so.quorum
  held := by
    rintro other nodeId ⟨remains, locations, member, node⟩
    refine replicates.keeps_bytes remains
      (collisionFree other chunkData (so.given _ member) given) ?_
    exact so.held other nodeId ⟨remains, locations, member, node⟩

/-- **What a history of replications leaves.** -/
theorem ReplicationHistory.leaves
    (collisionFree : ∀ first second, supplied first → supplied second →
      sha256.digest first = sha256.digest second → first = second)
    (history : ReplicationHistory sha256 supplied lost start replicated world) :
    Replicated sha256 supplied lost replicated world := by
  induction history with
  | start =>
      refine ⟨List.forall_mem_nil _, List.forall_mem_nil _, ?_⟩
      rintro data nodeId ⟨_, locations, member, _⟩
      exact absurd member List.not_mem_nil
  | @resolves replicated before after _ _ chunkData _ _ locations earlier given replicates ih =>
      have kept := ih.keeps collisionFree given replicates
      obtain ⟨quorum, holds⟩ := replicates.located
      refine ⟨?_, ?_, ?_⟩
      · exact List.forall_mem_append.mpr ⟨kept.given, List.forall_mem_singleton.mpr given⟩
      · exact List.forall_mem_append.mpr ⟨kept.quorum, List.forall_mem_singleton.mpr quorum⟩
      · rintro data nodeId ⟨remains, listed, member, node⟩
        rcases List.mem_append.mp member with old | new
        · exact kept.held data nodeId ⟨remains, listed, old, node⟩
        · obtain ⟨rfl, rfl⟩ := Prod.mk.inj (List.mem_singleton.mp new)
          obtain ⟨location, inList, rfl⟩ := List.mem_map.mp node
          exact holds location inList
  | rejects earlier given replicates ih => exact ih.keeps collisionFree given replicates
  | changesMetadata earlier db ih => exact ⟨ih.given, ih.quorum, ih.held⟩
  | loses earlier node ih =>
      refine ⟨ih.given, ih.quorum, fun data nodeId serves => ?_⟩
      rw [World.bytes_setNode, if_neg serves.1]
      exact ih.held data nodeId serves

/-- One of the locations of a chunk is left. -/
theorem Replicated.exists_serves (so : Replicated sha256 supplied lost replicated world)
    (member : (chunkData, locations) ∈ replicated) :
    ∃ nodeId, Serves replicated lost chunkData nodeId := by
  obtain ⟨distinct, many⟩ := so.quorum _ member
  match locations, distinct, many with
  | first :: second :: rest, distinct, _ =>
      have apart : first.nodeId ≠ second.nodeId := by
        intro same
        simp [same] at distinct
      by_cases gone : first.nodeId = lost
      · exact ⟨second.nodeId, gone ▸ apart.symm, _, member, by simp⟩
      · exact ⟨first.nodeId, gone, _, member, by simp⟩

/-! ## A file -/

/-- Read the chunks of a file, each from a node of its own. -/
def readChunks (chunks : List (ChunkMetadata × NodeId)) : Async (List Buffer) :=
  Program.mapEach (fun chunk => StorageNodeImpl.readChunk chunk.2 chunk.1.contentHash) chunks

/-- Whatever nodes the chunks are read from, the reads resolve to the pieces. -/
theorem Replicated.run_readChunks (so : Replicated sha256 supplied lost replicated world)
    (fileId : String) {chunks : List Buffer} {sources : List NodeId}
    (serve : List.Forall₂ (Serves replicated lost) chunks sources) (first : ℕ) :
    (readChunks ((ChunkManagerImpl.describe sha256.digest fileId first chunks).zip sources)).run exec
        world =
      (.ok chunks, world) := by
  induction serve generalizing first with
  | nil => rfl
  | cons serves rest ih =>
      have read := run_readChunk_found (sha256.valid _) (so.held _ _ serves)
      have later := ih (first + 1)
      unfold readChunks at later ⊢
      rw [ChunkManagerImpl.describe, List.zip_cons_cons, mapEach, run_bind_ok exec read,
        run_bind_ok exec later]
      rfl

/-- **A file survives the loss of a node.** When the chunks of a file have been replicated, in any
order and among other calls, one node may lose its disk at any time. Each chunk is then left on one
of the locations that were returned for it, and whichever of these the chunks are read from, what
has been read assembles to the file. -/
theorem reassembles_after_loss
    (collisionFree : ∀ first second, supplied first → supplied second →
      sha256.digest first = sha256.digest second → first = second)
    (history : ReplicationHistory sha256 supplied lost start replicated world)
    (size : ℕ+) (fileId : String) (fileData : Buffer)
    (whole : ∀ chunkData ∈ pieces size fileData, ∃ locations, (chunkData, locations) ∈ replicated) :
    (∃ sources, List.Forall₂ (Serves replicated lost) (pieces size fileData) sources) ∧
      ∀ sources, List.Forall₂ (Serves replicated lost) (pieces size fileData) sources →
        ∃ buffers,
          (readChunks ((ChunkManagerImpl.chunkFile sha256.digest size fileId fileData).zip
            sources)).run exec world = (.ok buffers, world) ∧
          (ChunkManagerImpl.createAssemblyStream buffers).contents = fileData := by
  have so := history.leaves collisionFree
  constructor
  · generalize pieces size fileData = chunks at whole
    induction chunks with
    | nil => exact ⟨[], .nil⟩
    | cons chunk chunks ih =>
        obtain ⟨locations, member⟩ := whole chunk List.mem_cons_self
        obtain ⟨nodeId, serves⟩ := so.exists_serves member
        obtain ⟨sources, rest⟩ := ih fun other inside => whole other (List.mem_cons_of_mem _ inside)
        exact ⟨nodeId :: sources, .cons serves rest⟩
  · intro sources serve
    refine ⟨pieces size fileData, ?_, ?_⟩
    · rw [ChunkManagerImpl.chunkFile_eq]
      exact so.run_readChunks fileId serve 0
    · rw [AssemblyStream.contents, ChunkManagerImpl.pushed_createAssemblyStream, flatten_pieces]

/-- The byte 7 on three nodes, one without a record, after the first node has lost its disk. -/
def lostFirst : World :=
  (faultyWrites (unrecorded "n3")).2.state.1.setNode "n1" ⟨.empty, 0⟩

/-- A write that rejects by itself has found no file. -/
theorem sparing_of_exec (lost : NodeId) (op : Call) (before : World)
    (outcome : Except Failure op.Result) (after : World)
    (works : exec.semantics op before outcome after) : sparing lost op before outcome after := by
  refine ⟨.inl works, ?_⟩
  rintro nodeId path data rfl ⟨failure, rfl⟩
  right
  cases written : (before.nodes nodeId).disk.writeFile path data with
  | error other => exact Disk.contents_eq_none_of_writeFile_error written
  | ok disk =>
      have resolved : (exec (.disk nodeId (.writeFile path data)) before).1 = .ok () :=
        congrArg (fun result => (before.flush nodeId result).1) written
      rw [works] at resolved
      cases resolved

theorem sparing_unrecorded (lost nodeId : NodeId) (op : Call) (world : World) :
    sparing lost op world (failingCalls (unrecorded nodeId) op world).1
      (failingCalls (unrecorded nodeId) op world).2 := by
  cases op with
  | store op => exact ⟨withFaults_failingOn _ _ world, nofun⟩
  | disk other op =>
      refine sparing_of_exec lost _ world _ _ ?_
      show exec (.disk other op) world = failingCalls (unrecorded nodeId) (.disk other op) world
      rw [failingCalls, Handler.failingOn]
      split <;> rename_i fault
      · split at fault <;> cases fault
      · rfl

theorem reassembles_after_loss_seven :
    ∃ buffers, (readChunks ((ChunkManagerImpl.chunkFile knownDigests.digest
        ChunkManagerImpl.chunkSize "notes" [7]).zip ["n3"])).run exec lostFirst =
          (.ok buffers, lostFirst) ∧
      (ChunkManagerImpl.createAssemblyStream buffers).contents = [7] := by
  let progress := (faultyWrites (unrecorded "n3")).2.state.2
  have whole : pieces ChunkManagerImpl.chunkSize ([7] : Buffer) = [[7]] :=
    pieces_of_length_le _ (by decide) (by decide)
  have resolved : quorumResult progress = .ok progress.replicaLocations := by decide +kernel
  have selects : Runs (sparing "n1") (selectStorageNodes threeNodes (knownDigests.digest [7])
      replicationFactor) recordedChunk (.ok (selectedNodes threeNodes recordedChunk.store
        (knownDigests.digest [7]))) recordedChunk :=
    (runs_semantics_iff.mpr (run_selectStorageNodes threeNodes _ recordedChunk)).mono
      (sparing_of_exec "n1")
  have replicates : ReplicatesChunk threeNodes ["n1", "n2", "n3"] (sparing "n1")
      (knownDigests.digest [7]) [7] (fun _ => 1) (fun _ => 1) recordedChunk (quorumResult progress)
      (faultyWrites (unrecorded "n3")).2.state.1 :=
    .written selects (by decide +kernel)
      (runs_faultyWrites (unrecorded "n3") (sparing_unrecorded "n1" "n3")) (by decide +kernel)
  rw [resolved] at replicates
  have given : ([7] : Buffer) ∈ ([[7]] : List Buffer) := List.mem_singleton_self _
  have history : ReplicationHistory knownDigests (· ∈ ([[7]] : List Buffer)) "n1" recordedChunk
      [([7], progress.replicaLocations)] lostFirst :=
    .loses (.resolves .start given replicates) ⟨.empty, 0⟩
  have collisionFree (first second : Buffer) (one : first ∈ ([[7]] : List Buffer))
      (other : second ∈ ([[7]] : List Buffer))
      (_ : knownDigests.digest first = knownDigests.digest second) : first = second :=
    (List.mem_singleton.mp one).trans (List.mem_singleton.mp other).symm
  refine (reassembles_after_loss collisionFree history ChunkManagerImpl.chunkSize "notes" [7]
    ?_).2 ["n3"] ?_
  · rw [whole]
    exact List.forall_mem_singleton.mpr ⟨_, List.mem_singleton_self _⟩
  · rw [whole]
    refine .cons ⟨by decide, _, List.mem_singleton_self _, ?_⟩ .nil
    decide +kernel

end DistributedFileStorage.Replication.ReplicationServiceImpl
