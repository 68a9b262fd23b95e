import DistributedFileStorage.Async.Linearization
import DistributedFileStorage.Nodes.ChunkMap

/-!
# Calls on a storage node next to each other

A write creates the subdirectory of its chunk before it writes the file, and a check reads before
it compares. Between these steps other calls change the same directory. Any file system call may
fail, other than with the claim that there is no such file.

To its callers the node is still a map from hashes to bytes. A write takes effect when it writes
the file, a deletion when it removes it, a read and a check when they read. A call whose file
system call fails gives up, and changes nothing unless it is a write, which may leave any bytes
(`chunkCalls_linearizable`).
-/

set_option autoImplicit false

namespace DistributedFileStorage.Nodes

open Async Store Services

/-! ## The specification -/

/-- The file system calls work or fail, where those that write a file may be taken to work. They do
not claim that a file is missing when it is there. -/
def unreliable (tearing : Bool) : Semantics system World := fun op before outcome after =>
  exec op before = (outcome, after) ∨
    (Call.faultsOn fun _ => tearing).fallible op = true ∧
      (∃ failure, failure ≠ .noEntry ∧ outcome = .error failure) ∧
      ∃ damage, after = op.leaves damage before

namespace ChunkCall

/-- What a call answers when the file system fails with a message. -/
def givesUp (message : String) : ChunkCall → Except Failure ChunkAnswer
  | writeChunk chunkHash _ => .error (.error s!"Failed to write chunk {chunkHash}: {message}")
  | readChunk chunkHash => .error (.error s!"Failed to read chunk {chunkHash}: {message}")
  | deleteChunk chunkHash => .error (.error s!"Failed to delete chunk {chunkHash}: {message}")
  | verifyChunkIntegrity _ => .ok (.intact false)

/-- What a call that gives up leaves of the map: a write whose file system call fails may leave
any bytes under its hash. -/
def Abandons (tearing : Bool) (call : ChunkCall) (map changed : ChunkMap) : Prop :=
  changed = map ∨ tearing = true ∧ ∃ chunkHash data left, call = .writeChunk chunkHash data ∧
    changed = Function.update map chunkHash (some left)

/-- **The specification of a call**: it answers and changes the map as the map says, or gives
up. -/
def Effect (sha256 : Sha256) (tearing : Bool) (call : ChunkCall) (map : ChunkMap)
    (answer : Except Failure ChunkAnswer) (changed : ChunkMap) : Prop :=
  answer = call.answer sha256 map ∧ changed = call.after map ∨
    (∃ message, answer = call.givesUp message) ∧ call.Abandons tearing map changed

end ChunkCall

/-! ## The file system calls -/

/-- No subdirectory of the node is removed. -/
def KeepsDirectories (nodeId : NodeId) (before after : World) : Prop :=
  (before.nodes nodeId).disk.directories ⊆ (after.nodes nodeId).disk.directories

namespace KeepsDirectories

variable {nodeId : NodeId} {first second third : World}

theorem refl : KeepsDirectories nodeId first first := List.Subset.refl _

theorem trans (earlier : KeepsDirectories nodeId first second)
    (later : KeepsDirectories nodeId second third) : KeepsDirectories nodeId first third :=
  List.Subset.trans earlier later

end KeepsDirectories

variable {nodeId : NodeId} {chunkHash : ChunkHash} {data : Buffer} {sha256 : Sha256}
  {before after : World} {tearing : Bool}

theorem directories_setNode (world : World) (node : StorageNode) :
    ((world.setNode nodeId node).nodes nodeId).disk.directories = node.disk.directories := by
  rw [World.nodes_setNode, if_pos rfl]

theorem unreliable_mkdir {directory : String} {outcome : Except Failure Unit}
    (happens : unreliable tearing (.disk nodeId (.mkdir directory)) before outcome after) :
    KeepsDirectories nodeId before after ∧ after.bytes nodeId = before.bytes nodeId ∧
      (outcome = .ok () → directory ∈ (after.nodes nodeId).disk.directories) := by
  rcases happens with works | ⟨_, ⟨failure, _, rfl⟩, damage, rfl⟩
  · obtain ⟨rfl, rfl⟩ := Prod.mk.inj works
    have same : SameChunks before (exec (.disk nodeId (.mkdir directory)) before).2 :=
      sameChunks_setNode fun path => rfl
    refine ⟨?_, funext (same.bytes nodeId), ?_⟩
    · unfold KeepsDirectories
      rw [directories_setNode]
      exact Disk.directories_subset_mkdir _ _
    · rw [directories_setNode]
      exact fun _ => Disk.mem_directories_mkdir _ _
  · exact ⟨.refl, rfl, nofun⟩

/-- A write into a subdirectory that exists writes. -/
theorem exec_writeFile_present
    (present : chunkPrefix chunkHash ∈ (before.nodes nodeId).disk.directories) :
    (exec (.disk nodeId (.writeFile (getChunkPath chunkHash) data)) before).1 = .ok () ∧
      KeepsDirectories nodeId before
        (exec (.disk nodeId (.writeFile (getChunkPath chunkHash) data)) before).2 ∧
      (exec (.disk nodeId (.writeFile (getChunkPath chunkHash) data)) before).2.bytes nodeId =
        Function.update (before.bytes nodeId) chunkHash (some data) := by
  have inside : (getChunkPath chunkHash).1 ∈ (before.nodes nodeId).disk.directories := present
  obtain ⟨disk, written, directories⟩ := Disk.exists_writeFile inside data
  have writes : exec (.disk nodeId (.writeFile (getChunkPath chunkHash) data)) before =
      (.ok (), before.setNode nodeId { before.nodes nodeId with disk := disk }) :=
    congrArg (before.flush nodeId) written
  have sets := exec_writeFile writes
  rw [writes]
  refine ⟨rfl, ?_, ?_⟩
  · unfold KeepsDirectories
    rw [directories_setNode, directories]
    exact List.Subset.refl _
  · funext other
    rw [sets.bytes, Function.update_apply]
    simp only [true_and]

/-- Or it fails, and has done nothing or written any bytes. -/
theorem unreliable_writeFile {outcome : Except Failure Unit}
    (present : chunkPrefix chunkHash ∈ (before.nodes nodeId).disk.directories)
    (happens : unreliable tearing (.disk nodeId (.writeFile (getChunkPath chunkHash) data)) before
      outcome after) :
    KeepsDirectories nodeId before after ∧
      ((outcome = .ok () ∧
          after.bytes nodeId = Function.update (before.bytes nodeId) chunkHash (some data)) ∨
        (∃ failure, outcome = .error failure) ∧
          (ChunkCall.writeChunk chunkHash data).Abandons tearing (before.bytes nodeId)
            (after.bytes nodeId)) := by
  have wrote (bytes : Buffer) := @exec_writeFile_present nodeId chunkHash bytes before present
  rcases happens with works | ⟨fails, ⟨failure, _, rfl⟩, damage, rfl⟩
  · obtain ⟨resolved, kept, written⟩ := wrote data
    rw [works] at resolved kept written
    exact ⟨kept, .inl ⟨resolved, written⟩⟩
  · cases damage with
    | none => exact ⟨.refl, .inr ⟨⟨failure, rfl⟩, .inl rfl⟩⟩
    | some left =>
        obtain ⟨_, kept, written⟩ := wrote left
        exact ⟨kept, .inr ⟨⟨failure, rfl⟩, .inr ⟨fails, chunkHash, data, left, rfl, written⟩⟩⟩

/-- A deletion removes the chunk, or finds it missing, or fails and changes nothing. -/
theorem unreliable_unlink {outcome : Except Failure Unit}
    (happens : unreliable tearing (.disk nodeId (.unlink (getChunkPath chunkHash))) before outcome
      after) :
    KeepsDirectories nodeId before after ∧
      ((outcome = .ok () ∨ outcome = .error .noEntry) ∧
          after.bytes nodeId = Function.update (before.bytes nodeId) chunkHash none ∨
        (∃ failure, failure ≠ .noEntry ∧ outcome = .error failure) ∧ after = before) := by
  rcases happens with works | ⟨_, failed, damage, rfl⟩
  · cases unlinked : (before.nodes nodeId).disk.unlink (getChunkPath chunkHash) with
    | error failure =>
        have missing : failure = .noEntry := by
          unfold Disk.unlink at unlinked
          split at unlinked
          · cases unlinked
          · exact (Except.error.inj unlinked).symm
        have absent : before.bytes nodeId chunkHash = none :=
          Disk.contents_eq_none_of_unlink_error unlinked
        have fails : exec (.disk nodeId (.unlink (getChunkPath chunkHash))) before =
            (.error failure, before) := congrArg (before.flush nodeId) unlinked
        obtain ⟨rfl, rfl⟩ := Prod.mk.inj (fails.symm.trans works)
        refine ⟨.refl, .inl ⟨.inr (by rw [missing]), ?_⟩⟩
        rw [← absent, Function.update_eq_self]
    | ok disk =>
        have removes : exec (.disk nodeId (.unlink (getChunkPath chunkHash))) before =
            (.ok (), before.setNode nodeId { before.nodes nodeId with disk := disk }) :=
          congrArg (before.flush nodeId) unlinked
        obtain ⟨rfl, rfl⟩ := Prod.mk.inj (removes.symm.trans works)
        have sets := exec_unlink removes
        refine ⟨?_, .inl ⟨.inl rfl, ?_⟩⟩
        · unfold KeepsDirectories
          rw [directories_setNode, Disk.directories_unlink unlinked]
          exact List.Subset.refl _
        · funext other
          rw [sets.bytes, Function.update_apply]
          simp only [true_and]
  · exact ⟨.refl, .inr ⟨failed, rfl⟩⟩

/-- A read answers with the bytes of the chunk, or fails. -/
theorem unreliable_readFile {outcome : Except Failure Buffer}
    (happens :
      unreliable tearing (.disk nodeId (.readFile (getChunkPath chunkHash))) before outcome after) :
    after = before ∧
      ((outcome = match before.bytes nodeId chunkHash with
          | some data => .ok data
          | none => .error .noEntry) ∨
        ∃ failure, failure ≠ .noEntry ∧ outcome = .error failure) := by
  rcases happens with works | ⟨_, failed, damage, rfl⟩
  · have reads : ((before.nodes nodeId).disk.readFile (getChunkPath chunkHash), before) =
        (outcome, after) := works
    obtain ⟨rfl, rfl⟩ := Prod.mk.inj reads
    exact ⟨rfl, .inl (Disk.readFile_eq _ _)⟩
  · exact ⟨rfl, .inr failed⟩

/-- The counter in memory always changes, and is not part of the map. -/
theorem unreliable_counter {op : DiskOp} (counts : op = .countChunk ∨ op = .uncountChunk)
    {outcome : Except Failure op.Result}
    (happens : unreliable tearing (.disk nodeId op) before outcome after) :
    KeepsDirectories nodeId before after ∧ after.bytes nodeId = before.bytes nodeId ∧
      ∃ value, outcome = .ok value := by
  rcases counts with rfl | rfl <;> rcases happens with works | ⟨fallible, _⟩
  · obtain ⟨rfl, rfl⟩ := Prod.mk.inj works
    have same : SameChunks before (exec (.disk nodeId .countChunk) before).2 :=
      sameChunks_setNode fun path => rfl
    refine ⟨?_, funext (same.bytes nodeId), (), rfl⟩
    unfold KeepsDirectories
    rw [directories_setNode]
    exact List.Subset.refl _
  · cases fallible
  · obtain ⟨rfl, rfl⟩ := Prod.mk.inj works
    have same : SameChunks before (exec (.disk nodeId .uncountChunk) before).2 :=
      sameChunks_setNode fun path => rfl
    refine ⟨?_, funext (same.bytes nodeId), (), rfl⟩
    unfold KeepsDirectories
    rw [directories_setNode]
    exact List.Subset.refl _
  · cases fallible

/-! ## The methods -/

namespace ChunkCall

variable {state : World}

/-- The condition on a method of the node. -/
abbrev TakesItsEffect (sha256 : Sha256) (tearing : Bool) (nodeId : NodeId) (call : ChunkCall)
    (state : World) : Prop :=
  TakesEffectOnce (unreliable tearing) (KeepsDirectories nodeId) (fun world => world.bytes nodeId)
    (call.Effect sha256 tearing) (call.program sha256 nodeId) state

/-- A call with a malformed hash makes no call of the file system. -/
theorem program_of_malformed {call : ChunkCall}
    (malformed : validChunkHash call.chunkHash = false) :
    call.program sha256 nodeId =
      .done (.error (.error s!"Invalid chunk hash format: {call.chunkHash}")) := by
  have rejects : StorageNodeImpl.validateChunkHash call.chunkHash =
      .done (.error (.error s!"Invalid chunk hash format: {call.chunkHash}")) := by
    rw [StorageNodeImpl.validateChunkHash, if_neg (by simp [malformed])]
    rfl
  cases call with
  | writeChunk chunkHash data =>
      rw [program, StorageNodeImpl.writeChunk]
      exact congrArg (fun first => (first >>= _) >>= _) rejects
  | readChunk chunkHash =>
      rw [program, StorageNodeImpl.readChunk]
      exact congrArg (fun first => (first >>= _) >>= _) rejects
  | deleteChunk chunkHash =>
      rw [program, StorageNodeImpl.deleteChunk]
      exact congrArg (fun first => (first >>= _) >>= _) rejects
  | verifyChunkIntegrity chunkHash =>
      rw [program, StorageNodeImpl.verifyChunkIntegrity]
      exact congrArg (fun first => (first >>= _) >>= _) rejects

theorem validateChunkHash_eq (valid : validChunkHash chunkHash = true) :
    StorageNodeImpl.validateChunkHash chunkHash = pure () := by
  rw [StorageNodeImpl.validateChunkHash, if_pos valid]

theorem takesEffect_writeChunk (valid : validChunkHash chunkHash = true) :
    (writeChunk chunkHash data).TakesItsEffect sha256 tearing nodeId state := by
  have gaveUp : ∀ (failure : Failure) {map changed : ChunkMap},
      (writeChunk chunkHash data).Abandons tearing map changed →
      (writeChunk chunkHash data).Effect sha256 tearing map
        ((writeChunk chunkHash data).givesUp failure.message) changed :=
    fun failure _ _ abandons => .inr ⟨⟨_, rfl⟩, abandons⟩
  unfold TakesItsEffect
  rw [program, StorageNodeImpl.writeChunk, validateChunkHash_eq valid]
  refine .bind (.bind (.tryCatch (.bind (.perform ?_))))
  intro before _ outcome after happens
  obtain ⟨kept, same, created⟩ := unreliable_mkdir happens
  cases outcome with
  | error failure =>
      refine ⟨kept, .inr ⟨rfl, _, ?_, rfl⟩⟩
      rw [same]
      exact gaveUp failure (.inl rfl)
  | ok value =>
      refine ⟨kept, .inl ⟨same, .bind (.perform ?_)⟩⟩
      intro before reaches outcome after happens
      obtain ⟨kept, ⟨rfl, written⟩ | ⟨⟨failure, rfl⟩, abandons⟩⟩ :=
        unreliable_writeFile (reaches (created rfl)) happens
      · have effect : (writeChunk chunkHash data).Effect sha256 tearing (before.bytes nodeId)
            (.ok .done) (after.bytes nodeId) :=
          .inl ⟨(if_pos valid).symm, written.trans (if_pos valid).symm⟩
        refine ⟨kept, .inr ⟨rfl, _, effect, .perform ?_⟩⟩
        intro before _ outcome after happens
        obtain ⟨kept, same, value, rfl⟩ := unreliable_counter (.inl rfl) happens
        exact ⟨kept, .inl ⟨same, rfl⟩⟩
      · exact ⟨kept, .inr ⟨rfl, _, gaveUp failure abandons, rfl⟩⟩

theorem takesEffect_deleteChunk (valid : validChunkHash chunkHash = true) :
    (deleteChunk chunkHash).TakesItsEffect sha256 tearing nodeId state := by
  unfold TakesItsEffect
  rw [program, StorageNodeImpl.deleteChunk, validateChunkHash_eq valid]
  refine .bind (.bind (.tryCatch (.bind (.perform ?_))))
  intro before _ outcome after happens
  obtain ⟨kept, ⟨ended, removed⟩ | ⟨⟨failure, present, rfl⟩, rfl⟩⟩ := unreliable_unlink happens
  · have effect : (deleteChunk chunkHash).Effect sha256 tearing (before.bytes nodeId) (.ok .done)
        (after.bytes nodeId) :=
      .inl ⟨(if_pos valid).symm, removed.trans (if_pos valid).symm⟩
    refine ⟨kept, .inr ⟨rfl, _, effect, ?_⟩⟩
    rcases ended with rfl | rfl
    · refine .perform ?_
      intro before _ outcome after happens
      obtain ⟨kept, same, value, rfl⟩ := unreliable_counter (.inr rfl) happens
      exact ⟨kept, .inl ⟨same, rfl⟩⟩
    · exact rfl
  · refine ⟨kept, .inr ⟨rfl, (deleteChunk chunkHash).givesUp failure.message,
      .inr ⟨⟨_, rfl⟩, .inl rfl⟩, ?_⟩⟩
    dsimp only
    rw [if_neg present]
    exact rfl

/-- The file system reads, and the caller goes on with what it has read. -/
theorem takesEffect_readChunk (valid : validChunkHash chunkHash = true) :
    (readChunk chunkHash).TakesItsEffect sha256 tearing nodeId state := by
  unfold TakesItsEffect
  rw [program, StorageNodeImpl.readChunk, validateChunkHash_eq valid]
  refine .bind (.bind (.tryCatch (.perform ?_)))
  intro before _ outcome after happens
  obtain ⟨rfl, found | ⟨failure, present, rfl⟩⟩ := unreliable_readFile happens
  · have same : (readChunk chunkHash).after (after.bytes nodeId) = after.bytes nodeId :=
      if_pos valid
    have answered : (readChunk chunkHash).answer sha256 (after.bytes nodeId) =
        match after.bytes nodeId chunkHash with
        | some data => .ok (.bytes data)
        | none => .error (.error s!"Chunk not found: {chunkHash}") := if_pos valid
    refine ⟨.refl, .inr ⟨rfl, _, .inl ⟨rfl, same.symm⟩, ?_⟩⟩
    rw [answered, found]
    cases after.bytes nodeId chunkHash with
    | some data => exact rfl
    | none => exact rfl
  · refine ⟨.refl, .inr ⟨rfl, (readChunk chunkHash).givesUp failure.message,
      .inr ⟨⟨_, rfl⟩, .inl rfl⟩, ?_⟩⟩
    dsimp only
    rw [if_neg present]
    exact rfl

theorem takesEffect_verifyChunkIntegrity (valid : validChunkHash chunkHash = true) :
    (verifyChunkIntegrity chunkHash).TakesItsEffect sha256 tearing nodeId state := by
  unfold TakesItsEffect
  rw [program, StorageNodeImpl.verifyChunkIntegrity, StorageNodeImpl.readChunk,
    validateChunkHash_eq valid]
  refine .bind (.bind (.tryCatch (.bind (.bind (.tryCatch (.perform ?_))))))
  intro before _ outcome after happens
  obtain ⟨rfl, found | ⟨failure, present, rfl⟩⟩ := unreliable_readFile happens
  · have same : (verifyChunkIntegrity chunkHash).after (after.bytes nodeId) =
        after.bytes nodeId := if_pos valid
    have answered : (verifyChunkIntegrity chunkHash).answer sha256 (after.bytes nodeId) =
        .ok (.intact ((after.bytes nodeId chunkHash).any
          fun data => sha256.digest data = chunkHash)) := if_pos valid
    refine ⟨.refl, .inr ⟨rfl, _, .inl ⟨rfl, same.symm⟩, ?_⟩⟩
    rw [answered, found]
    cases after.bytes nodeId chunkHash with
    | some data => exact rfl
    | none => exact rfl
  · refine ⟨.refl, .inr ⟨rfl, .ok (.intact false), .inr ⟨⟨"", rfl⟩, .inl rfl⟩, ?_⟩⟩
    dsimp only
    rw [if_neg present]
    exact rfl

/-- **Every call with a valid hash takes effect at one of its file system calls.** -/
theorem takesItsEffect {call : ChunkCall} (valid : validChunkHash call.chunkHash = true)
    (state : World) : call.TakesItsEffect sha256 tearing nodeId state := by
  cases call with
  | writeChunk chunkHash data => exact takesEffect_writeChunk valid
  | readChunk chunkHash => exact takesEffect_readChunk valid
  | deleteChunk chunkHash => exact takesEffect_deleteChunk valid
  | verifyChunkIntegrity chunkHash => exact takesEffect_verifyChunkIntegrity valid

/-- Only a call with a malformed hash has settled from the start. -/
theorem malformed_of_settled {call : ChunkCall} {outcome : Except Failure ChunkAnswer}
    (settled : call.program sha256 nodeId = .done outcome) :
    validChunkHash call.chunkHash = false ∧
      outcome = .error (.error s!"Invalid chunk hash format: {call.chunkHash}") := by
  cases valid : validChunkHash call.chunkHash with
  | false => exact ⟨rfl, Program.done.inj (settled.symm.trans (program_of_malformed valid))⟩
  | true =>
      have takes : call.TakesItsEffect sha256 true nodeId (.ofStore .empty) :=
        takesItsEffect valid _
      unfold TakesItsEffect TakesEffectOnce at takes
      rw [settled] at takes
      cases takes

/-- A call has settled from the start, or takes effect at one of its file system calls. -/
theorem starts (call : ChunkCall) (state : World) :
    (∃ outcome, call.program sha256 nodeId = .done outcome) ∨
      call.TakesItsEffect sha256 tearing nodeId state := by
  cases valid : validChunkHash call.chunkHash with
  | false => exact .inl ⟨_, program_of_malformed valid⟩
  | true => exact .inr (takesItsEffect valid state)

end ChunkCall

/-! ## The interleavings -/

/-- Two writes of one hash with different bytes, a check, and deletions. -/
def racingCalls : ℕ → ChunkCall
  | 0 => .writeChunk (knownDigests.digest [7]) [75]
  | 1 => .writeChunk (knownDigests.digest [7]) [7]
  | 2 => .verifyChunkIntegrity (knownDigests.digest [7])
  | _ => .deleteChunk (knownDigests.digest [7])

/-- Both writes create the subdirectory before either writes its file, and the deletion begins
before the writes have counted their chunk. -/
def racingRun : Pool system ℕ ChunkAnswer × Moment system ℕ World :=
  Pool.runSchedule exec [0, 1, 0, 1, 2, 3, 0, 1, 3]
    (fun task => (racingCalls task).program knownDigests "node", .start (.ofStore .empty))

end DistributedFileStorage.Nodes
