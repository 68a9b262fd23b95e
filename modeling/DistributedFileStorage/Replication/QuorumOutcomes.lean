import DistributedFileStorage.Async.Histories
import DistributedFileStorage.Async.OwnCalls
import DistributedFileStorage.Replication.Selection
import DistributedFileStorage.Replication.VerifiedWrites
import Mathlib.Algebra.BigOperators.Fin

/-!
# The quorum

A selected node has no handle, or its write fails, or the record of its replica fails, or both
succeed. `replicateChunk` counts the nodes of the last kind (`successCount_eq`), whatever the order
of the writes and records, and so it resolves exactly when there are enough of them. Those nodes
then hold the chunk (`quorum_write`). Any call may fail.
-/

set_option autoImplicit false

namespace DistributedFileStorage.Replication.ReplicationServiceImpl

open Async Store Services Nodes Placement Relational

/-- What `replicateChunk` settles to when its writes have settled. -/
def quorumResult (progress : WriteProgress) : Except Failure (List ReplicaLocation) :=
  if progress.successCount < quorumWrite then
    .error (.error (s!"Quorum write failed: need {quorumWrite} successful writes, " ++
      s!"got {progress.successCount}"))
  else .ok progress.replicaLocations

theorem quorumResult_ok_iff {progress : WriteProgress} :
    (∃ locations, quorumResult progress = .ok locations) ↔ quorumWrite ≤ progress.successCount := by
  unfold quorumResult
  split
  · rename_i few
    exact iff_of_false nofun (Nat.not_le.mpr few)
  · rename_i enough
    exact iff_of_true ⟨_, rfl⟩ (Nat.not_lt.mp enough)

/-! ## The outcomes of the writes -/

/-- A call of one of the writes. -/
abbrev WriteEvent (ι : Type) : Type := Event writing ι (World × WriteProgress)

/-- What has become of a selected node. -/
inductive WriteOutcome where
  | noHandle
  | chunkWriteFails
  | replicaRecordFails
  | bothSucceed
  deriving DecidableEq

variable {ι : Type}

/-- The call has written a file on the node. The counter of the node, which is what is left of
`writeChunk`, cannot fail. -/
def writesChunk (nodeId : NodeId) (event : WriteEvent ι) : Bool :=
  match event.op with
  | .inl (.disk other (.writeFile _ _)) => other = nodeId && !event.fails
  | _ => false

/-- The call has recorded a replica on the node. -/
def recordsReplica (nodeId : NodeId) (event : WriteEvent ι) : Bool :=
  match event.op with
  | .inl (.store (.createChunkReplica replica)) => replica.nodeId = nodeId && !event.fails
  | _ => false

/-- What has become of a selected node in a run of the writes. -/
def writeOutcome (storageNodes : List NodeId) (history : List (WriteEvent ι)) (nodeId : NodeId) :
    WriteOutcome :=
  if nodeId ∉ storageNodes then .noHandle
  else if history.any (writesChunk nodeId) = false then .chunkWriteFails
  else if history.any (recordsReplica nodeId) = false then .replicaRecordFails
  else .bothSucceed

theorem writeOutcome_eq_bothSucceed {storageNodes : List NodeId} {history : List (WriteEvent ι)}
    {nodeId : NodeId} : writeOutcome storageNodes history nodeId = .bothSucceed ↔
      nodeId ∈ storageNodes ∧ history.any (writesChunk nodeId) = true ∧
        history.any (recordsReplica nodeId) = true := by
  unfold writeOutcome
  by_cases handled : nodeId ∈ storageNodes <;> cases history.any (writesChunk nodeId) <;>
    cases history.any (recordsReplica nodeId) <;> simp [handled]

/-! ## The calls of a write -/

/-- The calls of the write to a node, each with the calls that come before it. -/
inductive WriteRule (chunkHash : ChunkHash) (chunkData : Buffer) (nodeId : NodeId)
    (calls : List (WriteEvent ι)) : writing.Op → Prop where
  | mkdir : WriteRule chunkHash chunkData nodeId calls (.inl (.disk nodeId (.mkdir
      (chunkPrefix chunkHash))))
  | writeFile (made : ∃ event ∈ calls, event.fails = false ∧
        event.op = .inl (.disk nodeId (.mkdir (chunkPrefix chunkHash))))
      (first : calls.any (writesChunk nodeId) = false) :
      WriteRule chunkHash chunkData nodeId calls (.inl (.disk nodeId (.writeFile
        (getChunkPath chunkHash) chunkData)))
  | countChunk : WriteRule chunkHash chunkData nodeId calls (.inl (.disk nodeId .countChunk))
  | pushLocation (location : ReplicaLocation) :
      WriteRule chunkHash chunkData nodeId calls (.inr (.pushLocation location))
  | createChunkReplica (replica : ChunkReplicaRecord) (hash : replica.chunkHash = chunkHash)
      (node : replica.nodeId = nodeId) :
      WriteRule chunkHash chunkData nodeId calls (.inl (.store (.createChunkReplica replica)))
  | countSuccess : WriteRule chunkHash chunkData nodeId calls (.inr WriteProgress.countSuccess)

/-- By how much the calls have raised a measure of the local variables. -/
def gained (measure : WriteProgress → ℕ) (calls : List (WriteEvent ι)) : ℕ :=
  (calls.map fun event => measure event.after.2 - measure event.before.2).sum

theorem gained_append (measure : WriteProgress → ℕ) (calls : List (WriteEvent ι))
    (event : WriteEvent ι) :
    gained measure (calls ++ [event]) =
      gained measure calls + (measure event.after.2 - measure event.before.2) := by
  simp [gained]

/-- By how much the calls have raised `successCount`. -/
def raised (calls : List (WriteEvent ι)) : ℕ :=
  (calls.map fun event => event.after.2.successCount - event.before.2.successCount).sum

/-- What has become of a write that has settled: it is counted when it has written and recorded,
and otherwise a call of it has failed. -/
structure Settles (chunkHash : ChunkHash) (nodeId : NodeId) (calls : List (WriteEvent ι)) :
    Prop where
  counted : raised calls =
    if calls.any (writesChunk nodeId) = true ∧ calls.any (recordsReplica nodeId) = true then 1
    else 0
  failed : validChunkHash chunkHash = true →
    (calls.any (writesChunk nodeId) = true ∧ calls.any (recordsReplica nodeId) = true) ∨
      ∃ event ∈ calls, event.fails = true

/-- What the calls of a write have done so far. -/
structure SoFar (nodeId : NodeId) (written recorded : Bool) (count : ℕ)
    (calls : List (WriteEvent ι)) : Prop where
  written : calls.any (writesChunk nodeId) = written
  recorded : calls.any (recordsReplica nodeId) = recorded
  raised : raised calls = count

variable {nodeId : NodeId} {written recorded : Bool} {count : ℕ} {calls : List (WriteEvent ι)}

theorem raised_append (calls : List (WriteEvent ι)) (event : WriteEvent ι) :
    raised (calls ++ [event]) =
      raised calls + (event.after.2.successCount - event.before.2.successCount) :=
  gained_append WriteProgress.successCount calls event

/-- A call that fails neither writes nor records. -/
theorem not_writes_of_fails {event : WriteEvent ι} (fails : event.fails = true) :
    writesChunk nodeId event = false ∧ recordsReplica nodeId event = false := by
  unfold writesChunk recordsReplica
  constructor <;> split <;> simp [fails]

theorem SoFar.append (so : SoFar nodeId written recorded count calls) (event : WriteEvent ι) :
    SoFar nodeId (written || writesChunk nodeId event) (recorded || recordsReplica nodeId event)
      (count + (event.after.2.successCount - event.before.2.successCount)) (calls ++ [event]) where
  written := by simp [so.written]
  recorded := by simp [so.recorded]
  raised := by rw [raised_append, so.raised]

section Follows

variable [DecidableEq ι] {task : ι} {node : ι → NodeId} {chunkHash : ChunkHash}
  {chunkData : Buffer}

/-- The writes of a pool, any of whose calls may fail, keep their rules. -/
abbrev FollowsWrite {α : Type} (node : ι → NodeId) (chunkHash : ChunkHash) (chunkData : Buffer)
    (task : ι) (program : Program writing α) (calls : List (WriteEvent ι))
    (resolved : α → List (WriteEvent ι) → Prop) (rejected : List (WriteEvent ι) → Prop) : Prop :=
  Follows (Semantics.withLocals faulty WriteProgress)
    (fun task => WriteRule chunkHash chunkData (node task)) task program calls resolved rejected

/-- The calls so far, one of which has failed. -/
def Stopped (nodeId : NodeId) (written : Bool) (calls : List (WriteEvent ι)) : Prop :=
  SoFar nodeId written false 0 calls ∧ ∃ event ∈ calls, event.fails = true

/-- The rule of a call of a service. -/
theorem follows_call {op : Call} {resolved : op.Result → List (WriteEvent ι) → Prop}
    (allowed : WriteRule chunkHash chunkData (node task) calls (.inl op))
    (so : SoFar (node task) written false 0 calls)
    (ends : ∀ value, ∀ event : WriteEvent ι, event.op = .inl op → event.fails = false →
      SoFar (node task) (written || writesChunk (node task) event)
        (recordsReplica (node task) event) 0 (calls ++ [event]) →
          resolved value (calls ++ [event])) :
    FollowsWrite node chunkHash chunkData task (Program.lift (Program.perform (I := system) op))
      calls resolved (Stopped (node task) written) := by
  refine Follows.perform (I := writing) allowed fun before outcome after happens => ?_
  have locals : after.2 = before.2 := happens.2
  have next := so.append ⟨task, .inl op, outcome, before, after⟩
  rw [Bool.false_or, locals, Nat.sub_self] at next
  cases outcome with
  | ok value => exact ends value _ rfl rfl next
  | error failure =>
      have failed : (⟨task, .inl op, .error failure, before, after⟩ : WriteEvent ι).fails =
        true := rfl
      have nothing : writesChunk (node task) _ = false ∧ recordsReplica (node task) _ = false :=
        not_writes_of_fails failed
      rw [nothing.1, nothing.2, Bool.or_false] at next
      exact ⟨next, _, List.mem_append_right _ (List.mem_singleton_self _), rfl⟩

/-- The rule of an assignment. -/
theorem follows_assign {update : WriteProgress → WriteProgress}
    {resolved : List (WriteEvent ι) → Prop} {rejected : List (WriteEvent ι) → Prop}
    (allowed : WriteRule chunkHash chunkData (node task) calls (.inr update))
    (so : SoFar (node task) written recorded count calls)
    (ends : ∀ event : WriteEvent ι, ∀ before : WriteProgress, SoFar (node task) written recorded
      (count + ((update before).successCount - before.successCount)) (calls ++ [event]) →
        resolved (calls ++ [event])) :
    FollowsWrite node chunkHash chunkData task (Program.assign update) calls (fun _ => resolved)
      rejected := by
  refine Follows.perform (I := writing) allowed fun before outcome after happens => ?_
  obtain ⟨rfl, rfl⟩ := happens
  have next := so.append ⟨task, .inr update, .ok (), before, (before.1, update before.2)⟩
  simp only [writesChunk, recordsReplica, Bool.or_false] at next
  exact ends _ before.2 next

/-- Writing the chunk: the subdirectory, the file and the counter. -/
theorem follows_storeChunk (so : SoFar (node task) false false 0 calls) :
    FollowsWrite node chunkHash chunkData task
      (Program.lift do
        disk (node task) (.mkdir (chunkPrefix chunkHash))
        disk (node task) (.writeFile (getChunkPath chunkHash) chunkData)
        disk (node task) .countChunk) calls
      (fun _ => SoFar (node task) true false 0)
      fun later => ∃ written, Stopped (node task) written later := by
  rw [Program.lift_bind]
  refine .bind ((follows_call .mkdir so fun _ made isMkdir worked so => ?_).consequence
    (fun _ _ => id) fun _ stopped => ⟨false, stopped⟩)
  rw [Program.lift_bind]
  have unwritten : SoFar (node task) false false 0 (calls ++ [made]) := by
    simpa [writesChunk, recordsReplica, isMkdir] using so
  refine .bind ((follows_call (.writeFile ⟨made, by simp, worked, isMkdir⟩ unwritten.written)
    unwritten fun _ event isWrite worked so => ?_).consequence (fun _ _ => id) fun _ stopped =>
      ⟨false, stopped⟩)
  have stored : SoFar (node task) true false 0 (calls ++ [made] ++ [event]) := by
    simpa [writesChunk, recordsReplica, isWrite, worked] using so
  refine (follows_call .countChunk stored fun _ event isCount worked so => ?_).consequence
    (fun _ _ => id) fun _ stopped => ⟨true, stopped⟩
  simpa [writesChunk, recordsReplica, isCount] using so

/-- A write that rejects has had a failed call, or the hash is not valid. -/
theorem follows_writeChunk (so : SoFar (node task) false false 0 calls) :
    FollowsWrite node chunkHash chunkData task
      (Program.lift (StorageNodeImpl.writeChunk (node task) chunkHash chunkData)) calls
      (fun _ => SoFar (node task) true false 0)
      fun later => ∃ written, SoFar (node task) written false 0 later ∧
        (validChunkHash chunkHash = true → ∃ event ∈ later, event.fails = true) := by
  rw [StorageNodeImpl.writeChunk, StorageNodeImpl.validateChunkHash]
  by_cases valid : validChunkHash chunkHash = true
  · rw [if_pos valid]
    show FollowsWrite node chunkHash chunkData task (Program.lift (Program.tryCatch _ _)) _ _ _
    rw [Program.lift_tryCatch]
    refine (follows_storeChunk so).tryCatch fun failure later ends => .throw ?_
    obtain ⟨written, so, failed⟩ := ends
    exact ⟨written, so, fun _ => failed⟩
  · rw [if_neg valid]
    exact .throw ⟨false, so, fun holds => absurd holds valid⟩

/-- The record of the replica, which comes after the write, and the count. -/
theorem follows_record {replica : ChunkReplicaRecord} (hash : replica.chunkHash = chunkHash)
    (same : replica.nodeId = node task) (so : SoFar (node task) true false 0 calls) :
    FollowsWrite node chunkHash chunkData task
      (do
        Program.lift (store (.createChunkReplica replica))
        Program.assign WriteProgress.countSuccess) calls
      (fun _ => SoFar (node task) true true 1) (Stopped (node task) true) := by
  refine .bind (follows_call (.createChunkReplica replica hash same) so
    fun _ event isRecord worked so => ?_)
  have stored : SoFar (node task) true true 0 (calls ++ [event]) := by
    simpa [writesChunk, recordsReplica, isRecord, worked, same] using so
  refine follows_assign .countSuccess stored fun event before so => ?_
  simpa [WriteProgress.countSuccess] using so

/-- **One of the parallel writes.** -/
theorem follows_writePromise (timestamp createdAt : NodeId → Time) {nodeInfo : StorageNodeInfo}
    (same : nodeInfo.nodeId = node task) :
    FollowsWrite node chunkHash chunkData task
      (writePromise chunkHash chunkData timestamp createdAt nodeInfo) []
      (fun _ => Settles chunkHash (node task)) (fun _ => False) := by
  have start : SoFar (node task) false false 0 ([] : List (WriteEvent ι)) := ⟨rfl, rfl, rfl⟩
  have caught : ∀ {later : List (WriteEvent ι)} {written : Bool},
      SoFar (node task) written false 0 later →
      (validChunkHash chunkHash = true → ∃ event ∈ later, event.fails = true) →
        Settles chunkHash (node task) later := fun so failed =>
    ⟨by rw [so.raised, so.recorded]; simp, fun valid => .inr (failed valid)⟩
  refine .tryCatch ?_ fun _ later (settles : Settles chunkHash (node task) later) => .pure settles
  rw [same]
  refine .bind ((follows_writeChunk start).consequence (fun _ written so => ?_)
    fun _ ⟨_, so, failed⟩ => caught so failed)
  refine .bind (follows_assign (.pushLocation _) so fun event before so => ?_)
  rw [WriteProgress.pushLocation, Nat.sub_self] at so
  refine Follows.consequence (follows_record ?_ ?_ so) (fun _ later so => ⟨?_, fun _ => .inl ?_⟩)
    fun _ stopped => caught stopped.1 fun _ => stopped.2
  · rfl
  · rfl
  · rw [so.raised, so.written, so.recorded]
    rfl
  · exact ⟨so.written, so.recorded⟩

end Follows

/-! ## Counting the successes -/

section Counting

variable {node : ι → NodeId} {chunkHash : ChunkHash} {chunkData : Buffer}
  {origin : World × WriteProgress} {moment : Moment writing ι (World × WriteProgress)}

/-- The runs of the writes, as far as their calls go. -/
abbrev WriteRun [DecidableEq ι] (node : ι → NodeId) (chunkHash : ChunkHash) (chunkData : Buffer)
    (origin : World × WriteProgress) (moment : Moment writing ι (World × WriteProgress)) : Prop :=
  LawfulRun (Semantics.withLocals faulty WriteProgress) (fun history task =>
    WriteRule chunkHash chunkData (node task) (callsOf task history)) origin moment

/-- What the assignments of a write do not lower never falls. -/
theorem WriteRule.mono {measure : WriteProgress → ℕ}
    (pushes : ∀ location progress, measure progress ≤ measure (progress.pushLocation location))
    (counts : ∀ progress, measure progress ≤ measure progress.countSuccess)
    {task : ι} {op : writing.Op} (rule : WriteRule chunkHash chunkData (node task) calls op)
    {before after : World × WriteProgress} {outcome : writing.Outcome _}
    (happens : Semantics.withLocals faulty WriteProgress op before outcome after) :
    measure before.2 ≤ measure after.2 := by
  cases rule with
  | mkdir => exact le_of_eq (congrArg _ happens.2.symm)
  | writeFile made => exact le_of_eq (congrArg _ happens.2.symm)
  | countChunk => exact le_of_eq (congrArg _ happens.2.symm)
  | createChunkReplica replica hash node => exact le_of_eq (congrArg _ happens.2.symm)
  | pushLocation location =>
      rw [happens.2]
      exact pushes location _
  | countSuccess =>
      rw [happens.2]
      exact counts _

/-- **A measure of the local variables is the sum of what the writes have added to it.** -/
theorem measure_eq_sum [DecidableEq ι] [Fintype ι] (measure : WriteProgress → ℕ) (world : World)
    (zero : measure {} = 0)
    (pushes : ∀ location progress, measure progress ≤ measure (progress.pushLocation location))
    (counts : ∀ progress, measure progress ≤ measure progress.countSuccess)
    (run : WriteRun node chunkHash chunkData (world, {}) moment) :
    measure moment.state.2 = ∑ task, gained measure (callsOf task moment.history) := by
  induction run with
  | start => exact zero.trans (Finset.sum_eq_zero fun task _ => rfl).symm
  | @next before task op outcome after earlier rule happens ih =>
      have more := Moment.sum_calls_next (gained measure) before task op outcome after
      have grows := rule.mono pushes counts happens
      rw [gained_append] at more
      simp only [Moment.calls_eq] at more
      rw [Moment.state_next]
      omega

/-- **The counter is the sum of what the writes have added to it.** -/
theorem successCount_eq_sum [DecidableEq ι] [Fintype ι] (world : World)
    (run : WriteRun node chunkHash chunkData (world, {}) moment) :
    moment.state.2.successCount = ∑ task, raised (callsOf task moment.history) :=
  measure_eq_sum WriteProgress.successCount world rfl (fun _ _ => le_rfl) (fun _ => Nat.le_succ _)
    run

section Runs

variable [DecidableEq ι]

/-- A call that writes to a node or records a replica on it is a call of the write to the node. -/
theorem node_of_writes {event : WriteEvent ι} {nodeId : NodeId}
    (run : WriteRun node chunkHash chunkData origin moment) (member : event ∈ moment.history)
    (concerns : writesChunk nodeId event = true ∨ recordsReplica nodeId event = true) :
    node event.task = nodeId := by
  obtain ⟨_, _, _, _, rule, _⟩ := run.exists_prior member
  obtain ⟨task, op, outcome, before, after⟩ := event
  dsimp only at rule ⊢
  cases rule with
  | mkdir => simp [writesChunk, recordsReplica] at concerns
  | countChunk => simp [writesChunk, recordsReplica] at concerns
  | pushLocation location => simp [writesChunk, recordsReplica] at concerns
  | countSuccess => simp [writesChunk, recordsReplica] at concerns
  | writeFile made =>
      simp only [writesChunk, recordsReplica, Bool.and_eq_true, decide_eq_true_eq,
        Bool.false_eq_true, or_false] at concerns
      exact concerns.1
  | createChunkReplica replica hash same =>
      simp only [writesChunk, recordsReplica, Bool.and_eq_true, decide_eq_true_eq,
        Bool.false_eq_true, false_or] at concerns
      exact same.symm.trans concerns.1

/-- What the run has done to a node is what its write has done. -/
theorem any_callsOf (distinct : Function.Injective node) {test : WriteEvent ι → Bool} (task : ι)
    (run : WriteRun node chunkHash chunkData origin moment)
    (concerns : ∀ event, test event = true →
      writesChunk (node task) event = true ∨ recordsReplica (node task) event = true) :
    (callsOf task moment.history).any test = moment.history.any test := by
  rw [Bool.eq_iff_iff, List.any_eq_true, List.any_eq_true]
  constructor
  · rintro ⟨event, member, holds⟩
    exact ⟨event, (mem_callsOf.mp member).1, holds⟩
  · rintro ⟨event, member, holds⟩
    have own := distinct (node_of_writes run member (concerns event holds))
    exact ⟨event, mem_callsOf.mpr ⟨member, own⟩, holds⟩

end Runs

/-! ## What the writes leave -/

/-- Writing the file of the chunk, whether it works or not. -/
theorem stores_writeFile {nodeId : NodeId} (before : World) :
    Stores [nodeId] chunkHash chunkData before
      (exec (.disk nodeId (.writeFile (getChunkPath chunkHash) chunkData)) before).2 := by
  cases written : (before.nodes nodeId).disk.writeFile (getChunkPath chunkHash) chunkData with
  | error failure =>
      have fails : exec (.disk nodeId (.writeFile (getChunkPath chunkHash) chunkData)) before =
          (.error failure, before) := congrArg (before.flush nodeId) written
      rw [fails]
      exact .refl _
  | ok disk =>
      have works : exec (.disk nodeId (.writeFile (getChunkPath chunkHash) chunkData)) before =
          (.ok (), before.setNode nodeId { before.nodes nodeId with disk := disk }) :=
        congrArg (before.flush nodeId) written
      rw [works]
      exact .of_sets (List.mem_singleton_self _) (exec_writeFile works)
        (directories_setNode (Disk.directories_writeFile written ▸ List.Subset.refl _))

/-- Recording the replica, whether it works or not. -/
theorem stores_createChunkReplica {replica : ChunkReplicaRecord}
    (hash : replica.chunkHash = chunkHash) (before : World) :
    Stores [replica.nodeId] chunkHash chunkData before
      (exec (.store (.createChunkReplica replica)) before).2 := by
  cases created : before.store.createChunkReplica replica with
  | error failure =>
      have fails : exec (.store (.createChunkReplica replica)) before = (.error failure, before) :=
        congrArg before.commit created
      rw [fails]
      exact .refl _
  | ok db =>
      have works : exec (.store (.createChunkReplica replica)) before =
          (.ok (), before.setStore db) := congrArg before.commit created
      rw [works]
      exact (Stores.of_createChunkReplica hash (List.mem_singleton_self _) created).1

/-- What a call of a write leaves, whether it works or fails: directories and rows stay, and so do
the bytes on the other nodes. -/
structure Touches (nodeId : NodeId) (chunkHash : ChunkHash) (before after : World) : Prop where
  directories : ∀ other,
    (before.nodes other).disk.directories ⊆ (after.nodes other).disk.directories
  elsewhere : ∀ other, other ≠ nodeId → after.bytes other chunkHash = before.bytes other chunkHash
  kept : before.store.getChunkReplicas chunkHash ⊆ after.store.getChunkReplicas chunkHash

theorem touches_of_stores {nodeId : NodeId} {data : Buffer} {before after : World}
    (stores : Stores [nodeId] chunkHash data before after) :
    Touches nodeId chunkHash before after :=
  ⟨stores.directories, fun other different => (stores.bytes other).resolve_right
    fun put => different (List.mem_singleton.mp put.1), stores.kept⟩

/-- What a call of a write does when it works. -/
theorem WriteRule.stores {nodeId : NodeId} {op : Call}
    (rule : WriteRule chunkHash chunkData nodeId calls (.inl op)) (before : World) :
    Stores [nodeId] chunkHash chunkData before (exec op before).2 := by
  cases rule with
  | mkdir =>
      exact .of_same (sameChunks_setNode fun path => rfl)
        (directories_setNode (Disk.directories_subset_mkdir _ _))
  | countChunk =>
      exact .of_same (sameChunks_setNode fun path => rfl)
        (directories_setNode (List.Subset.refl _))
  | writeFile made first => exact stores_writeFile before
  | createChunkReplica replica hash same => exact same ▸ stores_createChunkReplica hash before

/-- What a call of a write leaves when it fails: the call that writes the file may have written
other bytes. -/
theorem WriteRule.leaves {nodeId : NodeId} {op : Call}
    (rule : WriteRule chunkHash chunkData nodeId calls (.inl op)) (damage : Option Buffer)
    (before : World) :
    op.leaves damage before = before ∨
      op = .disk nodeId (.writeFile (getChunkPath chunkHash) chunkData) ∧
        calls.any (writesChunk nodeId) = false ∧
        ∃ left, op.leaves damage before =
          (exec (.disk nodeId (.writeFile (getChunkPath chunkHash) left)) before).2 := by
  cases rule with
  | mkdir => exact .inl rfl
  | countChunk => exact .inl rfl
  | createChunkReplica replica hash same => exact .inl rfl
  | writeFile made first =>
      cases damage with
      | none => exact .inl rfl
      | some left => exact .inr ⟨rfl, first, left, rfl⟩

/-- **What a call of a write does to the chunk.** -/
theorem WriteRule.touches {nodeId : NodeId} {op : Call}
    (rule : WriteRule chunkHash chunkData nodeId calls (.inl op)) {before after : World}
    {outcome : Except Failure op.Result} (happens : faulty op before outcome after) :
    Touches nodeId chunkHash before after := by
  rcases happens with works | ⟨_, _, damage, rfl⟩
  · have reached : after = (exec op before).2 := (congrArg Prod.snd works).symm
    exact reached ▸ touches_of_stores (rule.stores before)
  · rcases rule.leaves damage before with same | ⟨_, _, left, same⟩
    · have stores : Stores [nodeId] chunkHash chunkData before (op.leaves damage before) :=
        same.symm ▸ .refl before
      exact touches_of_stores stores
    · have stores : Stores [nodeId] chunkHash left before (op.leaves damage before) :=
        same.symm ▸ stores_writeFile before
      exact touches_of_stores stores

/-- A call of a write changes the bytes under its own hash on its own node only, and before anything
has been written there. They become those of the chunk, unless it fails. -/
theorem WriteRule.overwrites {nodeId : NodeId} {op : Call}
    (rule : WriteRule chunkHash chunkData nodeId calls (.inl op)) {before after : World}
    {outcome : Except Failure op.Result} (happens : faulty op before outcome after)
    (holder : NodeId) (hash : ChunkHash) :
    after.bytes holder hash = before.bytes holder hash ∨
      calls.any (writesChunk nodeId) = false ∧ holder = nodeId ∧ hash = chunkHash ∧
        (after.bytes holder hash = some chunkData ∨
          op = .disk nodeId (.writeFile (getChunkPath chunkHash) chunkData) ∧
            ∃ failure, outcome = .error failure) := by
  have write (data : Buffer) :=
    (@PutsChunk.of_writeFile nodeId chunkHash data before).bytes holder hash
  rcases happens with works | ⟨_, failed, damage, rfl⟩
  · have reached : after = (exec op before).2 := (congrArg Prod.snd works).symm
    subst reached
    cases rule with
    | mkdir =>
        have same : SameChunks before
            (exec (.disk nodeId (.mkdir (chunkPrefix chunkHash))) before).2 :=
          sameChunks_setNode fun path => rfl
        exact .inl (same.bytes holder hash)
    | countChunk =>
        have same : SameChunks before (exec (.disk nodeId .countChunk) before).2 :=
          sameChunks_setNode fun path => rfl
        exact .inl (same.bytes holder hash)
    | writeFile made first =>
        exact (write chunkData).imp_right fun put => ⟨first, put.1, put.2.1, .inl put.2.2⟩
    | createChunkReplica replica hash same =>
        refine .inl ?_
        show (before.commit _).2.bytes holder _ = _
        cases before.store.createChunkReplica replica <;> rfl
  · rcases rule.leaves damage before with same | ⟨rfl, first, left, torn⟩
    · exact .inl (congrArg (World.bytes · holder hash) same)
    · rcases write left with same | put
      · exact .inl ((congrArg (World.bytes · holder hash) torn).trans same)
      · exact .inr ⟨first, put.1, put.2.1, .inr ⟨rfl, failed⟩⟩

/-- The node holds the chunk, and has a row for it. -/
structure HoldsReplica (chunkHash : ChunkHash) (chunkData : Buffer) (world : World)
    (nodeId : NodeId) : Prop where
  bytes : world.bytes nodeId chunkHash = some chunkData
  row : ∃ replica ∈ world.store.getChunkReplicas chunkHash, replica.nodeId = nodeId

variable [DecidableEq ι]

/-- What the call of a write has stored stays. -/
theorem WriteRun.stays (run : WriteRun node chunkHash chunkData origin moment)
    (holds : World → Prop)
    (keeps : ∀ nodeId before after, Touches nodeId chunkHash before after →
      holds before → holds after) {event : WriteEvent ι} (member : event ∈ moment.history)
    (here : holds event.after.1) : holds moment.state.1 := by
  refine LawfulRun.stays (fun state => holds state.1) ?_ run member here
  rintro history task (op | update) before outcome after rule happens held
  · exact keeps _ _ _ (rule.touches happens.1) held
  · rw [happens.2]
    exact held

theorem bytes_of_writesChunk {nodeId : NodeId} {event : WriteEvent ι}
    (run : WriteRun node chunkHash chunkData origin moment) (member : event ∈ moment.history)
    (writes : writesChunk nodeId event = true) :
    event.after.1.bytes nodeId chunkHash = some chunkData := by
  obtain ⟨_, _, _, _, rule, happens⟩ := run.exists_prior member
  obtain ⟨task, op, outcome, before, after⟩ := event
  dsimp only at rule happens ⊢
  cases rule with
  | mkdir => cases writes
  | countChunk => cases writes
  | pushLocation location => cases writes
  | countSuccess => cases writes
  | createChunkReplica replica hash same => cases writes
  | writeFile made =>
      simp only [writesChunk, Bool.and_eq_true, decide_eq_true_eq, Bool.not_eq_true'] at writes
      obtain ⟨rfl, worked⟩ := writes
      rcases happens.1 with works | ⟨_, ⟨failure, rfl⟩, _⟩
      · cases outcome with
        | error failure => cases worked
        | ok value => exact ((exec_writeFile works).bytes _ _).trans (if_pos ⟨rfl, rfl⟩)
      · cases worked

/-- **What has been written to a node stays**: no other write is to the node, and its own write does
not write twice. -/
theorem WriteRun.bytes_of_written (apart : Function.Injective node)
    (run : WriteRun node chunkHash chunkData origin moment) {nodeId : NodeId}
    (written : moment.history.any (writesChunk nodeId) = true) :
    moment.state.1.bytes nodeId chunkHash = some chunkData := by
  induction run with
  | start => cases written
  | @next before task op outcome after earlier rule happens ih =>
      have later : WriteRun node chunkHash chunkData origin (before.next task op outcome after) :=
        .next earlier rule happens
      rw [Moment.history_next, List.any_append, Bool.or_eq_true] at written
      rcases written with old | new
      · have held := ih old
        rw [Moment.state_next]
        rcases op with op | update
        · rcases rule.overwrites happens.1 nodeId chunkHash with same | ⟨first, rfl, _, _⟩
          · exact same.trans held
          · rw [any_callsOf apart task earlier fun _ => .inl, old] at first
            cases first
        · rw [happens.2]
          exact held
      · have wrote : writesChunk nodeId ⟨task, op, outcome, before.state, after⟩ = true := by
          simpa using new
        have member : (⟨task, op, outcome, before.state, after⟩ : WriteEvent ι) ∈
            (before.next task op outcome after).history := by simp [Moment.history_next]
        exact bytes_of_writesChunk later member wrote

theorem row_of_recordsReplica {nodeId : NodeId} {event : WriteEvent ι}
    (run : WriteRun node chunkHash chunkData origin moment) (member : event ∈ moment.history)
    (records : recordsReplica nodeId event = true) :
    ∃ replica ∈ event.after.1.store.getChunkReplicas chunkHash, replica.nodeId = nodeId := by
  obtain ⟨_, _, _, _, rule, happens⟩ := run.exists_prior member
  obtain ⟨task, op, outcome, before, after⟩ := event
  dsimp only at rule happens ⊢
  cases rule with
  | mkdir => cases records
  | countChunk => cases records
  | pushLocation location => cases records
  | countSuccess => cases records
  | writeFile made => cases records
  | createChunkReplica replica hash same =>
      simp only [recordsReplica, Bool.and_eq_true, decide_eq_true_eq, Bool.not_eq_true'] at records
      obtain ⟨rfl, worked⟩ := records
      rcases happens.1 with works | ⟨_, ⟨failure, rfl⟩, _⟩
      · rcases World.commit_cases works with ⟨_, _, rfl, _⟩ | ⟨db, created, _, reached⟩
        · cases worked
        · rw [reached]
          have stored : Stores [replica.nodeId] chunkHash chunkData _ _ ∧ _ :=
            Stores.of_createChunkReplica hash (List.mem_singleton_self _) created
          obtain ⟨row, listed, here⟩ := stored.2
          exact ⟨row, listed, List.mem_singleton.mp here⟩
      · cases worked

/-- **A node on which both succeed holds the replica** from then on. -/
theorem holdsReplica_of_bothSucceed {storageNodes : List NodeId} {nodeId : NodeId}
    (apart : Function.Injective node) (run : WriteRun node chunkHash chunkData origin moment)
    (succeeds : writeOutcome storageNodes moment.history nodeId = .bothSucceed) :
    HoldsReplica chunkHash chunkData moment.state.1 nodeId := by
  obtain ⟨_, written, recorded⟩ := writeOutcome_eq_bothSucceed.mp succeeds
  obtain ⟨record, memberRecord, records⟩ := List.any_eq_true.mp recorded
  constructor
  · exact run.bytes_of_written apart written
  · refine run.stays (fun world => ∃ replica ∈ world.store.getChunkReplicas chunkHash,
      replica.nodeId = nodeId) (fun _ _ _ touches => ?_) memberRecord
      (row_of_recordsReplica run memberRecord records)
    rintro ⟨row, listed, same⟩
    exact ⟨row, touches.kept listed, same⟩

end Counting

/-! ## The quorum -/

section Quorum

variable {hashRing : ConsistentHashRing ChunkHash} {storageNodes : List NodeId}
  {chunkHash : ChunkHash} {chunkData : Buffer} {timestamp createdAt : NodeId → Time}
  {world middle : World} {selected : List StorageNodeInfo}

/-- The nodes on which both steps of the write have succeeded. -/
def succeeded (storageNodes : List NodeId) (history : List (WriteEvent ι))
    (selected : List StorageNodeInfo) : List StorageNodeInfo :=
  selected.filter fun nodeInfo => writeOutcome storageNodes history nodeInfo.nodeId = .bothSucceed

theorem nodup_succeeded (distinct : (selected.map StorageNodeInfo.nodeId).Nodup)
    (history : List (WriteEvent ι)) :
    ((succeeded storageNodes history selected).map StorageNodeInfo.nodeId).Nodup :=
  distinct.sublist (List.filter_sublist.map _)

/-- Both steps succeed on nodes with a handle only. -/
theorem succeeded_eq (storageNodes : List NodeId) (history : List (WriteEvent ι))
    (selected : List StorageNodeInfo) :
    succeeded storageNodes history selected =
      (handledNodes storageNodes selected).filter fun nodeInfo =>
        writeOutcome storageNodes history nodeInfo.nodeId = .bothSucceed := by
  rw [succeeded, handledNodes, List.filter_filter]
  refine List.filter_congr fun nodeInfo _ => ?_
  rw [Bool.eq_iff_iff, Bool.and_eq_true, decide_eq_true_eq, decide_eq_true_eq,
    writeOutcome_eq_bothSucceed]
  exact (and_iff_left_of_imp And.left).symm

theorem sum_ite_eq_length {α : Type} (items : List α) (test : α → Bool) :
    ∑ index : Fin items.length, (if test (items.get index) = true then 1 else 0) =
      (items.filter test).length := by
  rw [← List.countP_eq_length_filter]
  induction items with
  | nil => rfl
  | cons item items ih =>
      rw [List.countP_cons, ← ih, add_comm]
      exact Fin.sum_univ_succ (n := items.length) fun index =>
        if test ((item :: items).get index) = true then 1 else 0

variable {settled : Pool writing (Fin (handledNodes storageNodes selected).length) Unit}
  {reached : Moment writing (Fin (handledNodes storageNodes selected).length)
    (World × WriteProgress)}

/-- **The writes keep their rules, and settle as they should.** -/
theorem writeRun_of_writes
    (writes : PoolRuns (Semantics.withLocals faulty WriteProgress)
      (writePromises chunkHash chunkData timestamp createdAt (handledNodes storageNodes selected),
        .start (middle, {})) (settled, reached))
    (all : ∀ index, (settled index).isSettled = true) :
    WriteRun (fun index => ((handledNodes storageNodes selected).get index).nodeId) chunkHash
        chunkData (middle, {}) reached ∧
      ∀ index, Settles chunkHash ((handledNodes storageNodes selected).get index).nodeId
        (callsOf index reached.history) := by
  have starts : ∀ index, FollowsWrite
      (fun index => ((handledNodes storageNodes selected).get index).nodeId) chunkHash chunkData
      index (writePromises chunkHash chunkData timestamp createdAt
        (handledNodes storageNodes selected) index)
      [] (fun _ => Settles chunkHash ((handledNodes storageNodes selected).get index).nodeId)
      (fun _ => False) := fun index => follows_writePromise timestamp createdAt rfl
  exact ⟨(Pool.follows starts writes).1, Pool.follows_of_isSettled starts writes all⟩

/-- No two writes have the same node. -/
theorem injective_handledNodes (storageNodes : List NodeId)
    (distinct : (selected.map StorageNodeInfo.nodeId).Nodup) :
    Function.Injective fun index : Fin (handledNodes storageNodes selected).length =>
      ((handledNodes storageNodes selected).get index).nodeId := by
  have names : ((handledNodes storageNodes selected).map StorageNodeInfo.nodeId).Nodup :=
    distinct.sublist (List.filter_sublist.map _)
  intro first second same
  refine List.nodup_iff_injective_get.mp names.of_map ?_
  exact List.inj_on_of_nodup_map names (List.get_mem _ _) (List.get_mem _ _) same

/-- **The counter is the number of nodes on which both steps have succeeded.** -/
theorem successCount_eq (distinct : (selected.map StorageNodeInfo.nodeId).Nodup)
    (writes : PoolRuns (Semantics.withLocals faulty WriteProgress)
      (writePromises chunkHash chunkData timestamp createdAt (handledNodes storageNodes selected),
        .start (middle, {})) (settled, reached))
    (all : ∀ index, (settled index).isSettled = true) :
    reached.state.2.successCount = (succeeded storageNodes reached.history selected).length := by
  obtain ⟨run, settles⟩ := writeRun_of_writes writes all
  have apart := injective_handledNodes storageNodes distinct
  have each : ∀ index, raised (callsOf index reached.history) =
      if decide (writeOutcome storageNodes reached.history
        ((handledNodes storageNodes selected).get index).nodeId = .bothSucceed) = true then 1
      else 0 := by
    intro index
    have handled := List.of_mem_filter (List.get_mem (handledNodes storageNodes selected) index)
    rw [(settles index).counted, any_callsOf apart index run fun _ => .inl,
      any_callsOf apart index run fun _ => .inr]
    simp only [decide_eq_true_eq, writeOutcome_eq_bothSucceed, of_decide_eq_true handled, true_and]
  have counted := sum_ite_eq_length (handledNodes storageNodes selected) fun nodeInfo =>
    decide (writeOutcome storageNodes reached.history nodeInfo.nodeId = .bothSucceed)
  rw [successCount_eq_sum middle run, Finset.sum_congr rfl fun index _ => each index, counted,
    succeeded_eq]

/-- **The quorum write.** When three distinct active nodes have been selected, a call resolves
exactly when both steps succeed on two of them, and then these hold the chunk. Any call may fail,
and the writes and records complete in any order. -/
theorem quorum_write
    (selects : Runs faulty (selectStorageNodes hashRing chunkHash replicationFactor) world
      (.ok selected) middle)
    (enough : replicationFactor ≤ selected.length)
    (writes : PoolRuns (Semantics.withLocals faulty WriteProgress)
      (writePromises chunkHash chunkData timestamp createdAt (handledNodes storageNodes selected),
        .start (middle, {})) (settled, reached))
    (all : ∀ index, (settled index).isSettled = true) :
    ReplicatesChunk hashRing storageNodes faulty chunkHash chunkData timestamp createdAt world
        (quorumResult reached.state.2) reached.state.1 ∧
      (selected.length = 3 ∧ (selected.map StorageNodeInfo.nodeId).Nodup ∧
        ∀ nodeInfo ∈ selected, Active world.store nodeInfo.nodeId) ∧
      ((∃ locations, quorumResult reached.state.2 = .ok locations) ↔
        2 ≤ (succeeded storageNodes reached.history selected).length) ∧
      ((∃ locations, quorumResult reached.state.2 = .ok locations) →
        ∃ holders : List NodeId, holders.Nodup ∧ 2 ≤ holders.length ∧ ∀ nodeId ∈ holders,
          Active world.store nodeId ∧ HoldsReplica chunkHash chunkData reached.state.1 nodeId) := by
  obtain ⟨rfl, rfl⟩ := triple_selectStorageNodes hashRing chunkHash world rfl selects
  have distinct : ((selectedNodes hashRing middle.store chunkHash).map
      StorageNodeInfo.nodeId).Nodup := nodup_selectedNodes
  have counted := successCount_eq distinct writes all
  have resolves : (∃ locations, quorumResult reached.state.2 = .ok locations) ↔
      2 ≤ (succeeded storageNodes reached.history
        (selectedNodes hashRing middle.store chunkHash)).length := by
    rw [quorumResult_ok_iff, counted, quorumWrite]
  refine ⟨.written selects enough writes all, ⟨?_, distinct, fun _ => active_of_mem_selectedNodes⟩,
    resolves, fun resolved => ⟨(succeeded storageNodes reached.history _).map
      StorageNodeInfo.nodeId, nodup_succeeded distinct reached.history, ?_, ?_⟩⟩
  · rw [length_selectedNodes] at enough ⊢
    exact Nat.le_antisymm (Nat.min_le_left _ _) enough
  · rw [List.length_map]
    exact resolves.mp resolved
  · intro nodeId member
    obtain ⟨nodeInfo, succeeds, rfl⟩ := List.mem_map.mp member
    obtain ⟨chosen, both⟩ := List.mem_filter.mp succeeds
    exact ⟨active_of_mem_selectedNodes chosen,
      holdsReplica_of_bothSucceed (injective_handledNodes storageNodes distinct)
        (writeRun_of_writes writes all).1 (of_decide_eq_true both)⟩

theorem selects_recordedChunk :
    Runs faulty (selectStorageNodes threeNodes sevenMetadata.contentHash replicationFactor)
      recordedChunk (.ok (selectedNodes threeNodes recordedChunk.store sevenMetadata.contentHash))
      recordedChunk :=
  runs_withFaults_of_run (run_selectStorageNodes threeNodes _ recordedChunk)

/-- Two of three nodes are a quorum when there is no handle on the third one. -/
theorem quorum_write_two_handles :
    ∃ holders : List NodeId, holders.Nodup ∧ 2 ≤ holders.length ∧ ∀ nodeId ∈ holders,
      Active recordedChunk.store nodeId ∧ HoldsReplica sevenMetadata.contentHash [7]
        (sequentialWrites threeNodes ["n1", "n2"] sevenMetadata.contentHash [7] (fun _ => 1)
          (fun _ => 1) recordedChunk).2.state.1 nodeId := by
  have writes : PoolRuns (Semantics.withLocals faulty WriteProgress)
      (writePromises sevenMetadata.contentHash [7] (fun _ => 1) (fun _ => 1)
        (handledNodes ["n1", "n2"] (selectedNodes threeNodes recordedChunk.store
          sevenMetadata.contentHash)), .start (recordedChunk, {}))
      (sequentialWrites threeNodes ["n1", "n2"] sevenMetadata.contentHash [7] (fun _ => 1)
        (fun _ => 1) recordedChunk) := by
    refine Pool.runs_runSchedule (fun op state => ?_) _ _
    cases op with
    | inl op => exact ⟨.inl rfl, rfl⟩
    | inr update => exact ⟨rfl, rfl⟩
  have quorum := quorum_write selects_recordedChunk (by decide +kernel) writes (by decide +kernel)
  exact quorum.2.2.2 (quorum.2.2.1.mpr (by decide +kernel))

end Quorum

end DistributedFileStorage.Replication.ReplicationServiceImpl
