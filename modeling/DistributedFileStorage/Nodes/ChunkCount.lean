import DistributedFileStorage.Nodes.ChunkMap
import Mathlib.Algebra.BigOperators.Group.List.Basic
import Mathlib.Algebra.Order.Ring.Rat

/-!
# The number of chunks that a storage node reports

A storage node counts its chunks in memory: a write adds one, and a deletion that removes a file
takes one away. `getHealthMetrics` reports this counter and does not look at the disk, and
`getChunkCount` counts the files. A write of a chunk that is there already replaces its file and
adds one all the same.

From an empty directory the counter is the number of chunks together with the number of such writes
(`chunkCount_eq`). So it is right exactly when every write is of a chunk that is not there
(`reportsChunks_iff`). The counter is never below the number of chunks, and its clamp at zero never
acts.
-/

set_option autoImplicit false

namespace DistributedFileStorage.Nodes

open Async Store Services Relational

/-! ## Health -/

structure NodeHealth where
  nodeId : NodeId
  availabilityZone : String
  diskUsagePercent : ℚ
  cpuUsagePercent : ℚ
  networkLatency : ℕ
  chunkCount : ℕ
  lastHeartbeat : Time

namespace StorageNodeImpl

/-- The bytes of all files in percent of one terabyte. -/
def getDiskUsage (disk : Disk) : ℚ :=
  let totalSize := (disk.directories.map fun subdir => ((disk.names subdir).map fun file =>
    ((disk.contents (subdir, file)).getD []).length).sum).sum
  let capacity := 1024 * 1024 * 1024 * 1024
  totalSize / capacity * 100

/-- The usage of the processors is what the operating system says. -/
def getHealthMetrics (nodeId : NodeId) (availabilityZone : String) (cpuUsage : ℚ) (now : Time)
    (node : StorageNode) : NodeHealth where
  nodeId := nodeId
  availabilityZone := availabilityZone
  diskUsagePercent := getDiskUsage node.disk
  cpuUsagePercent := cpuUsage
  networkLatency := 0
  chunkCount := node.chunkCount
  lastHeartbeat := now

end StorageNodeImpl

/-! ## Writes of chunks that are there -/

namespace ChunkCall

/-- The call writes a chunk that is there already. -/
def overwrites (map : ChunkMap) : ChunkCall → Bool
  | writeChunk chunkHash _ => validChunkHash chunkHash && (map chunkHash).isSome
  | _ => false

/-- The number of writes of chunks that are there already. -/
def overwritten : ChunkMap → List ChunkCall → ℕ
  | _, [] => 0
  | map, call :: rest => (call.overwrites map).toNat + overwritten (call.after map) rest

theorem overwritten_eq_zero_iff {map : ChunkMap} {calls : List ChunkCall} :
    overwritten map calls = 0 ↔ ∀ earlier call later, calls = earlier ++ call :: later →
      call.overwrites (earlier.foldl after map) = false := by
  induction calls generalizing map with
  | nil => simp [overwritten]
  | cons first rest ih =>
      rw [overwritten, Nat.add_eq_zero_iff, ih, Bool.toNat_eq_zero]
      constructor
      · rintro ⟨here, there⟩ earlier call later split
        cases earlier with
        | nil =>
            obtain ⟨rfl, rfl⟩ := List.cons.inj split
            exact here
        | cons other earlier =>
            obtain ⟨rfl, next⟩ := List.cons.inj split
            exact there earlier call later next
      · intro all
        refine ⟨all [] first rest rfl, fun earlier call later split => ?_⟩
        exact all (first :: earlier) call later (congrArg (first :: ·) split)

end ChunkCall

/-! ## The counter -/

section Counter

variable {disk changed : Disk} {map other : ChunkMap}

/-- Disks with the same chunks have the same number of files. -/
theorem Represents.length_eq (first : Represents disk map) (second : Represents changed other)
    (same : ∀ name, (other name).isSome = (map name).isSome) :
    changed.allNames.length = disk.allNames.length := by
  apply List.Perm.length_eq
  rw [List.perm_ext_iff_of_nodup second.allNames.1 first.allNames.1]
  intro name
  rw [first.allNames.2, second.allNames.2, same]

/-- One more chunk is one more file. -/
theorem Represents.length_succ (chunkHash : ChunkHash) (first : Represents disk map)
    (second : Represents changed other) (absent : map chunkHash = none)
    (present : (other chunkHash).isSome = true)
    (same : ∀ name, name ≠ chunkHash → (other name).isSome = (map name).isSome) :
    changed.allNames.length = disk.allNames.length + 1 := by
  have fresh : chunkHash ∉ disk.allNames := by
    rw [first.allNames.2, absent]
    exact Bool.false_ne_true
  have more : changed.allNames.Perm (chunkHash :: disk.allNames) := by
    rw [List.perm_ext_iff_of_nodup second.allNames.1 (first.allNames.1.cons fresh)]
    intro name
    rw [second.allNames.2, List.mem_cons, first.allNames.2]
    by_cases here : name = chunkHash
    · subst here
      exact iff_of_true present (.inl rfl)
    · rw [same name here]
      exact (or_iff_right here).symm
  exact more.length_eq

/-- **One call** moves the counter and the number of the chunks alike, and the counter goes up by
one more when a chunk is overwritten. -/
theorem countAfter_eq (call : ChunkCall) (before : Represents disk map)
    (after : Represents changed (call.after map)) (drift : ℕ) :
    call.countAfter map (disk.allNames.length + drift) =
      changed.allNames.length + (drift + (call.overwrites map).toNat) := by
  unfold ChunkCall.after at after
  unfold ChunkCall.countAfter
  by_cases valid : validChunkHash call.chunkHash = true
  · rw [if_pos valid] at after ⊢
    cases call with
    | writeChunk chunkHash data =>
        have wellFormed : validChunkHash chunkHash = true := valid
        dsimp only [ChunkCall.overwrites] at after ⊢
        rw [wellFormed, Bool.true_and]
        cases held : map chunkHash with
        | none =>
            rw [before.length_succ chunkHash after held (by simp)
              fun name different => by simp [different]]
            simp only [Option.isSome_none, Bool.toNat_false]
            omega
        | some old =>
            have same : ∀ name,
                (Function.update map chunkHash (some data) name).isSome = (map name).isSome := by
              intro name
              by_cases here : name = chunkHash
              · simp [here, held]
              · simp [here]
            rw [before.length_eq after same]
            rfl
    | deleteChunk chunkHash =>
        dsimp only [ChunkCall.overwrites] at after ⊢
        cases held : map chunkHash with
        | none =>
            have same : Function.update map chunkHash none = map := by
              rw [← held, Function.update_eq_self]
            rw [same] at after
            rw [before.length_eq after fun _ => rfl]
            rfl
        | some old =>
            -- the file is there, so that the counter is not zero
            rw [after.length_succ chunkHash before (Function.update_self ..) (by simp [held])
              fun name different => by simp [different]]
            simp only [Option.isSome_some, if_true, Bool.toNat_false]
            omega
    | readChunk chunkHash =>
        rw [before.length_eq after fun _ => rfl]
        rfl
    | verifyChunkIntegrity chunkHash =>
        rw [before.length_eq after fun _ => rfl]
        rfl
  · have nothing : call.overwrites map = false := by
      cases call with
      | writeChunk chunkHash data => exact Bool.and_eq_false_imp.mpr fun here => absurd here valid
      | _ => rfl
    rw [if_neg valid] at after ⊢
    rw [before.length_eq after fun _ => rfl, nothing]
    rfl

/-- **A sequence of calls**: the counter is the number of the chunks, together with what it was too
high before and the number of the chunks that have been overwritten. -/
theorem chunkCount_eq {sha256 : Sha256} {nodeId : NodeId} {calls : List ChunkCall}
    {before reached : World} {answers : List (Except Failure ChunkAnswer)} (drift : ℕ)
    (made : CallsMade sha256 nodeId calls before answers reached)
    (represents : Represents (before.nodes nodeId).disk map)
    (counted : (before.nodes nodeId).chunkCount =
      (before.nodes nodeId).disk.allNames.length + drift) :
    (reached.nodes nodeId).chunkCount =
      (reached.nodes nodeId).disk.allNames.length + (drift + ChunkCall.overwritten map calls) := by
  induction made generalizing map drift with
  | none world => exact counted
  | @next call calls before middle reached answer answers here later ih =>
      have ran := run_of_listsNothing (call.allCalls_program sha256) here
      obtain ⟨after, works, holds, _, counts⟩ := call.run_program sha256 represents
      obtain ⟨rfl, rfl⟩ := Prod.mk.inj (ran.symm.trans works)
      rw [counted, countAfter_eq call represents holds] at counts
      rw [ih _ holds counts, ChunkCall.overwritten, add_assoc]

end Counter

/-! ## The report -/

section Reports

variable {nodeId : NodeId}

/-- The report has the number of the chunks on the disk, which is what `getChunkCount` resolves
to. -/
structure ReportsChunks (nodeId : NodeId) (health : NodeHealth) (world : World) : Prop where
  distinct : ∃ chunks : List ChunkHash, chunks.Nodup ∧
    (∀ chunkHash, chunkHash ∈ chunks ↔ (world.bytes nodeId chunkHash).isSome) ∧
      health.chunkCount = chunks.length
  counts : ∀ outcome after,
    Runs AnyOrder (StorageNodeImpl.getChunkCount nodeId) world outcome after →
      outcome = .ok health.chunkCount

/-- Every write is of a chunk that was not written before, or was deleted since. -/
def WritesNew (calls : List ChunkCall) : Prop :=
  ∀ earlier chunkHash data later, calls = earlier ++ .writeChunk chunkHash data :: later →
    ¬ ∃ bytes, LastWrites earlier chunkHash bytes

theorem writesNew_iff {calls : List ChunkCall} :
    WritesNew calls ↔ ChunkCall.overwritten (fun _ => none) calls = 0 := by
  rw [ChunkCall.overwritten_eq_zero_iff]
  have here : ∀ earlier chunkHash data,
      (ChunkCall.writeChunk chunkHash data).overwrites (ChunkMap.reached earlier) = false ↔
        ¬ ∃ bytes, LastWrites earlier chunkHash bytes := by
    intro earlier chunkHash data
    rw [← Bool.not_eq_true, not_iff_not]
    unfold ChunkCall.overwrites
    rw [Bool.and_eq_true, Option.isSome_iff_exists]
    constructor
    · rintro ⟨_, bytes, held⟩
      exact ⟨bytes, reached_eq_some_iff.mp held⟩
    · rintro ⟨bytes, writes⟩
      exact ⟨writes.1, bytes, reached_eq_some_iff.mpr writes⟩
  constructor
  · intro new earlier call later split
    cases call with
    | writeChunk chunkHash data =>
        exact (here earlier chunkHash data).mpr (new earlier chunkHash data later split)
    | _ => rfl
  · intro none earlier chunkHash data later split
    exact (here earlier chunkHash data).mp (none earlier _ later split)

/-- The number of files decides whether a report is right. -/
theorem reportsChunks_iff_length {map : ChunkMap} {world : World} {health : NodeHealth}
    (represents : Represents (world.nodes nodeId).disk map) :
    ReportsChunks nodeId health world ↔
      health.chunkCount = (world.nodes nodeId).disk.allNames.length := by
  have members : ∀ chunkHash, chunkHash ∈ (world.nodes nodeId).disk.allNames ↔
      (world.bytes nodeId chunkHash).isSome := by
    intro chunkHash
    rw [represents.allNames.2, World.bytes, represents.contents]
  constructor
  · rintro ⟨⟨chunks, distinct, listed, counted⟩, _⟩
    rw [counted]
    apply List.Perm.length_eq
    rw [List.perm_ext_iff_of_nodup distinct represents.allNames.1]
    intro name
    rw [listed, members]
  · intro counted
    refine ⟨⟨_, represents.allNames.1, members, counted⟩, fun outcome after run => ?_⟩
    have ends := triple_getChunkCount rfl run
    cases outcome with
    | error failure => exact ends.elim
    | ok count => rw [ends.1, counted]

/-- **The report is right exactly when no chunk is written that is there already**, after any
sequence of calls on a new storage node with an empty directory. -/
theorem reportsChunks_iff (sha256 : Sha256) {origin reached : World} {calls : List ChunkCall}
    {answers : List (Except Failure ChunkAnswer)} (availabilityZone : String) (cpuUsage : ℚ)
    (now : Time) (fresh : origin.nodes nodeId = ⟨.empty, 0⟩)
    (made : CallsMade sha256 nodeId calls origin answers reached) :
    ReportsChunks nodeId (StorageNodeImpl.getHealthMetrics nodeId availabilityZone cpuUsage now
      (reached.nodes nodeId)) reached ↔ WritesNew calls := by
  have start : Represents (origin.nodes nodeId).disk fun _ => none := fresh ▸ .empty
  have represents := (answers_eq made start).2
  have counted := chunkCount_eq 0 made start (by rw [fresh]; rfl)
  rw [reportsChunks_iff_length represents, writesNew_iff]
  show (reached.nodes nodeId).chunkCount = _ ↔ _
  rw [counted, Nat.zero_add]
  exact Nat.add_eq_left

/-- A write, a deletion and a write of one chunk, and a deletion of a chunk that is not there. -/
theorem reportsChunks_writtenAgain :
    ∃ answers reached, CallsMade knownDigests "node"
        [.writeChunk (knownDigests.digest [7]) [7], .deleteChunk (knownDigests.digest [7]),
          .deleteChunk (knownDigests.digest [75]), .writeChunk (knownDigests.digest [7]) [7]]
        (.ofStore .empty) answers reached ∧
      ReportsChunks "node" (StorageNodeImpl.getHealthMetrics "node" "default" 0 0
        (reached.nodes "node")) reached := by
  obtain ⟨answers, reached, made⟩ := exists_callsMade knownDigests "node" _ (.ofStore .empty)
  refine ⟨answers, reached, made, ?_⟩
  exact (reportsChunks_iff knownDigests "default" 0 0 rfl made).mpr
    (writesNew_iff.mpr (by decide +kernel))

/-- **Two writes of one chunk are counted twice**, where one file is on the disk. -/
theorem overwrite_isCounted :
    ∃ answers reached, CallsMade knownDigests "node"
        [.writeChunk (knownDigests.digest [7]) [7], .writeChunk (knownDigests.digest [7]) [7]]
        (.ofStore .empty) answers reached ∧ answers = [.ok .done, .ok .done] ∧
      (StorageNodeImpl.getHealthMetrics "node" "default" 0 0 (reached.nodes "node")).chunkCount =
        2 ∧
      ∀ outcome after, Runs AnyOrder (StorageNodeImpl.getChunkCount "node") reached outcome after →
        outcome = .ok 1 := by
  obtain ⟨answers, reached, made⟩ := exists_callsMade knownDigests "node"
    [.writeChunk (knownDigests.digest [7]) [7], .writeChunk (knownDigests.digest [7]) [7]]
    (.ofStore .empty)
  have start : Represents ((World.ofStore .empty).nodes "node").disk fun _ => none := .empty
  obtain ⟨answered, represents⟩ := answers_eq made start
  have files : (reached.nodes "node").disk.allNames.length = 1 := by
    refine start.length_succ (knownDigests.digest [7]) represents rfl ?_ ?_
    · decide +kernel
    · intro name different
      simp [ChunkCall.after, ChunkCall.chunkHash, knownDigests.valid, different]
  have counted := chunkCount_eq 0 made start rfl
  refine ⟨answers, reached, made, answered.trans (by decide +kernel), ?_, ?_⟩
  · show (reached.nodes "node").chunkCount = 2
    rw [counted, files]
    decide +kernel
  · intro outcome after run
    have ends := triple_getChunkCount rfl run
    cases outcome with
    | error failure => exact ends.elim
    | ok count => rw [ends.1, files]

end Reports

end DistributedFileStorage.Nodes
