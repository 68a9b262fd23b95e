import DistributedFileStorage.Placement.Membership
import DistributedFileStorage.Sequences.Loops
import Mathlib.Order.Bounds.Basic

/-!
# The nodes that a walk meets first

`getNodes` is two loops: a binary search for the first virtual node that is not below a chunk hash,
and a walk clockwise that collects physical nodes. Both are steps on the variables of the code
here, so that one can say which indices they look at. On a ring whose three collections belong
together both loops end and stay inside the array (`searchesInside`, `walksInside`).

What `getNodes` should answer is the list of the first nodes in the order in which the walk meets
them. The walk passes over a node with the empty identifier, which still counts as a physical
node. So the answer is right exactly when that node is not among the nodes to answer
(`answersFirst_iff`).
-/

set_option autoImplicit false

namespace DistributedFileStorage.Placement

open Relational Sequences Store StateTransition

variable {Hash : Type} [LinearOrder Hash]

namespace ConsistentHashRing

/-! ## Rings that calls lead to -/

/-- The rings that calls lead to, with the calls. A number of virtual nodes that is missing or zero
stands for the default. -/
inductive Reachable (computeHash : String → Hash) (virtualNodesPerPhysical : ℤ) :
    List RingCall → ConsistentHashRing Hash → Prop
  | new : Reachable computeHash virtualNodesPerPhysical [] (.new virtualNodesPerPhysical)
  | addNode {calls : List RingCall} {hashRing : ConsistentHashRing Hash} (nodeId : NodeId)
      (virtualNodeCount : Option ℤ) (positive : 0 < hashRing.virtualNodes virtualNodeCount)
      (reachable : Reachable computeHash virtualNodesPerPhysical calls hashRing) :
      Reachable computeHash virtualNodesPerPhysical
        (calls ++ [.addNode nodeId (hashRing.virtualNodes virtualNodeCount) positive])
        (hashRing.addNode computeHash nodeId virtualNodeCount)
  | removeNode {calls : List RingCall} {hashRing : ConsistentHashRing Hash} (nodeId : NodeId)
      (reachable : Reachable computeHash virtualNodesPerPhysical calls hashRing) :
      Reachable computeHash virtualNodesPerPhysical (calls ++ [.removeNode nodeId])
        (hashRing.removeNode nodeId)
  | clear {calls : List RingCall} {hashRing : ConsistentHashRing Hash}
      (reachable : Reachable computeHash virtualNodesPerPhysical calls hashRing) :
      Reachable computeHash virtualNodesPerPhysical (calls ++ [.clear]) hashRing.clear

/-- A positive number of virtual nodes may be written out. -/
theorem addNode_virtualNodes (computeHash : String → Hash) (hashRing : ConsistentHashRing Hash)
    (nodeId : NodeId) {virtualNodeCount : Option ℤ}
    (positive : 0 < hashRing.virtualNodes virtualNodeCount) :
    hashRing.addNode computeHash nodeId (some (hashRing.virtualNodes virtualNodeCount)) =
      hashRing.addNode computeHash nodeId virtualNodeCount := by
  have number : hashRing.virtualNodes (some (hashRing.virtualNodes virtualNodeCount : ℤ)) =
      hashRing.virtualNodes virtualNodeCount := by
    rw [virtualNodes, if_neg (by omega), Int.toNat_natCast]
  simp only [addNode, number]

/-- The calls decide what the ring is. -/
theorem Reachable.eq_reached {computeHash : String → Hash} {virtualNodesPerPhysical : ℤ}
    {calls : List RingCall} {hashRing : ConsistentHashRing Hash}
    (reachable : Reachable computeHash virtualNodesPerPhysical calls hashRing) :
    hashRing = RingCall.reached computeHash virtualNodesPerPhysical calls := by
  induction reachable with
  | new => rfl
  | addNode nodeId virtualNodeCount positive _ ih =>
      rw [RingCall.reached, List.foldl_concat, ← RingCall.reached, ← ih]
      exact (addNode_virtualNodes computeHash _ nodeId positive).symm
  | removeNode nodeId _ ih =>
      rw [RingCall.reached, List.foldl_concat, ← RingCall.reached, ← ih]
      rfl
  | clear _ ih =>
      rw [RingCall.reached, List.foldl_concat, ← RingCall.reached, ← ih]
      rfl

theorem Reachable.inStep {computeHash : String → Hash} {virtualNodesPerPhysical : ℤ}
    {calls : List RingCall} {hashRing : ConsistentHashRing Hash}
    (reachable : Reachable computeHash virtualNodesPerPhysical calls hashRing)
    (free : Set.InjOn computeHash (RingCall.virtualNodeIds calls)) : hashRing.InStep := by
  rw [reachable.eq_reached]
  exact (represents_reached free virtualNodesPerPhysical).inStep

/-! ## The loops -/

/-- The variables of the binary search. -/
structure SearchState where
  left : ℕ
  right : ℕ

def SearchState.mid (state : SearchState) : ℕ := (state.left + state.right) / 2

/-- The variables of the walk. -/
structure WalkState where
  currentIndex : ℕ
  attempts : ℕ
  selectedNodes : List NodeId

variable (hashRing : ConsistentHashRing Hash)

/-- An iteration of the loop of `findStartIndex`. -/
def searchStep (hash : Hash) (state : SearchState) : Option SearchState :=
  if state.left < state.right then
    if hashRing.isBelow hash state.mid then some { state with left := state.mid + 1 }
    else some { state with right := state.mid }
  else none

/-- The body of the loop of `getNodes`. -/
def walkBody (state : WalkState) : WalkState where
  currentIndex := (state.currentIndex + 1) % hashRing.sortedHashes.length
  attempts := state.attempts + 1
  selectedNodes :=
    match hashRing.nodeAt state.currentIndex with
    | some nodeId =>
        if nodeId ∈ state.selectedNodes then state.selectedNodes
        else state.selectedNodes ++ [nodeId]
    | none => state.selectedNodes

/-- An iteration of the loop of `getNodes`. -/
def walkStep (count : ℤ) (state : WalkState) : Option WalkState :=
  if (state.selectedNodes.length : ℤ) < count ∧ state.attempts < hashRing.sortedHashes.length then
    some (hashRing.walkBody state)
  else none

/-- The binary search on an array that is not empty ends, and every index that it looks at is
inside the array. -/
structure SearchesInside (hash : Hash) : Prop where
  ends : ∃ final ∈ eval (hashRing.searchStep hash) ⟨0, hashRing.sortedHashes.length - 1⟩,
    final.left < hashRing.sortedHashes.length ∧
      hashRing.findStartIndex hash = if hashRing.isBelow hash final.left then 0 else final.left
  inside : ∀ state, Reaches (hashRing.searchStep hash) ⟨0, hashRing.sortedHashes.length - 1⟩ state →
    state.left < state.right → state.mid < hashRing.sortedHashes.length

/-- The walk ends with the answer of `getNodes`, and every index that it looks at is inside the
array. -/
structure WalksInside (chunkHash : Hash) (count : ℤ) : Prop where
  ends : ∃ final ∈ eval (hashRing.walkStep (min count hashRing.getPhysicalNodeCount))
      ⟨hashRing.findStartIndex chunkHash, 0, []⟩,
    final.selectedNodes = hashRing.getNodes chunkHash count
  inside : ∀ state, Reaches (hashRing.walkStep (min count hashRing.getPhysicalNodeCount))
      ⟨hashRing.findStartIndex chunkHash, 0, []⟩ state →
    state.currentIndex < hashRing.sortedHashes.length

variable {hashRing}

/-- The loop of the search ends with the result of the search. -/
theorem search_ends (hashRing : ConsistentHashRing Hash) (hash : Hash) (fuel left right : ℕ)
    (enough : right - left ≤ fuel) :
    ∃ final ∈ eval (hashRing.searchStep hash) ⟨left, right⟩,
      final.left = hashRing.search hash fuel left right := by
  induction fuel generalizing left right with
  | zero =>
      refine ⟨⟨left, right⟩, ends_here ?_, rfl⟩
      exact if_neg (by simpa using Nat.sub_eq_zero_iff_le.mp (Nat.le_zero.mp enough))
  | succ fuel ih =>
      by_cases active : left < right
      · by_cases smaller : hashRing.isBelow hash ((left + right) / 2) = true
        · obtain ⟨final, ends, same⟩ := ih ((left + right) / 2 + 1) right (by omega)
          refine ⟨final, ends_after ?_ ends, ?_⟩
          · exact (if_pos active).trans (if_pos smaller)
          · simp only [search, if_pos active, if_pos smaller, same]
        · obtain ⟨final, ends, same⟩ := ih left ((left + right) / 2) (by omega)
          refine ⟨final, ends_after ?_ ends, ?_⟩
          · exact (if_pos active).trans (if_neg smaller)
          · simp only [search, if_pos active, if_neg smaller, same]
      · refine ⟨⟨left, right⟩, ends_here (if_neg active), ?_⟩
        simp only [search, if_neg active]

theorem searchesInside (ascending : hashRing.sortedHashes.Pairwise (· < ·)) (hash : Hash)
    (nonempty : hashRing.sortedHashes.length ≠ 0) : hashRing.SearchesInside hash where
  ends := by
    have room : hashRing.sortedHashes.length - 1 - 0 ≤ hashRing.sortedHashes.length := by omega
    obtain ⟨final, ends, same⟩ := search_ends hashRing hash _ _ _ room
    have found := search_spec ascending hashRing.sortedHashes.length 0
      (hashRing.sortedHashes.length - 1) room (Nat.zero_le _) (by omega)
      (by simp : ∀ key ∈ hashRing.sortedHashes.take 0, key < hash) (.inl (by omega))
    refine ⟨final, ends, same ▸ found.1, ?_⟩
    rw [findStartIndex, if_neg nonempty, same]
  inside state reached active := by
    have right : state.right < hashRing.sortedHashes.length := by
      refine invariant_of_reaches (fun state =>
        state.right < hashRing.sortedHashes.length) ?_
        (Nat.sub_lt (Nat.pos_of_ne_zero nonempty) Nat.one_pos) reached
      intro state next bound stepped
      unfold searchStep at stepped
      split at stepped
      · rename_i active
        split at stepped <;> cases stepped
        · exact bound
        · have middle : state.mid < state.right := by
            unfold SearchState.mid
            omega
          exact middle.trans bound
      · cases stepped
    unfold SearchState.mid
    omega

/-- **The binary search gives the least index whose hash is not below the target**, or 0 when all
hashes are below it, in every array that is ascending. The loop ends, and reads inside the array. -/
theorem findStartIndex_isLeast (ascending : hashRing.sortedHashes.Pairwise (· < ·)) (hash : Hash) :
    (hashRing.sortedHashes.length ≠ 0 → hashRing.SearchesInside hash) ∧
      ((∃ key ∈ hashRing.sortedHashes, hash ≤ key) →
        IsLeast {index | ∃ key, hashRing.sortedHashes[index]? = some key ∧ hash ≤ key}
          (hashRing.findStartIndex hash)) ∧
      ((∀ key ∈ hashRing.sortedHashes, key < hash) → hashRing.findStartIndex hash = 0) := by
  refine ⟨searchesInside ascending hash, ?_⟩
  rcases findStartIndex_cases ascending hash with ⟨wraps, below⟩ | ⟨inside, below, first⟩
  · refine ⟨?_, fun _ => wraps⟩
    rintro ⟨key, member, above⟩
    exact absurd (below key member) (not_lt.mpr above)
  · refine ⟨fun _ => ⟨⟨_, List.getElem?_eq_getElem inside, first⟩, ?_⟩, fun all => ?_⟩
    · rintro index ⟨key, found, above⟩
      by_contra earlier
      obtain ⟨bound, rfl⟩ := List.getElem?_eq_some_iff.mp found
      refine absurd (below _ ?_) (not_lt.mpr above)
      exact List.mem_take_iff_getElem.mpr ⟨index, lt_min (not_le.mp earlier) bound, rfl⟩
    · exact absurd (all _ (List.getElem_mem inside)) (not_lt.mpr first)

/-- A ring of three hashes. -/
def threeHashes : ConsistentHashRing String where
  virtualNodesPerPhysical := 1
  ring := .empty _
  sortedHashes := ["3a", "7f", "c0"]
  physicalNodes := .empty _

/-- The target is between the second and the third hash. -/
theorem findStartIndex_isLeast_threeHashes :
    threeHashes.sortedHashes.Pairwise (· < ·) ∧ threeHashes.SearchesInside "80" ∧
      threeHashes.findStartIndex "80" = 2 ∧
        IsLeast {index | ∃ key, threeHashes.sortedHashes[index]? = some key ∧ "80" ≤ key}
          (threeHashes.findStartIndex "80") := by
  have ascending : threeHashes.sortedHashes.Pairwise (· < ·) := by decide +kernel
  obtain ⟨searches, least, _⟩ := findStartIndex_isLeast ascending "80"
  exact ⟨ascending, searches (by decide +kernel), by decide +kernel,
    least ⟨"c0", by decide +kernel, by decide +kernel⟩⟩

/-- The loop of the walk ends with the result of the walk. -/
theorem walk_ends (hashRing : ConsistentHashRing Hash) (count : ℤ) (remaining : ℕ)
    (state : WalkState)
    (total : state.attempts + remaining = hashRing.sortedHashes.length) :
    ∃ final ∈ eval (hashRing.walkStep count) state,
      final.selectedNodes =
        hashRing.walk count remaining state.currentIndex state.selectedNodes := by
  induction remaining generalizing state with
  | zero => exact ⟨state, ends_here (if_neg (by omega)), rfl⟩
  | succ remaining ih =>
      by_cases few : (state.selectedNodes.length : ℤ) < count
      · have one : (hashRing.walkBody state).attempts = state.attempts + 1 := rfl
        obtain ⟨final, ends, same⟩ := ih (hashRing.walkBody state) (by omega)
        refine ⟨final, ends_after (if_pos ⟨few, by omega⟩) ends, ?_⟩
        rw [same, walk, if_pos few]
        rfl
      · refine ⟨state, ends_here (if_neg fun both => few both.1), ?_⟩
        rw [walk, if_neg few]

theorem walksInside (inStep : hashRing.InStep) (chunkHash : Hash) (count : ℤ)
    (nonempty : hashRing.sortedHashes.length ≠ 0)
    (populated : hashRing.physicalNodes.rows.length ≠ 0) :
    hashRing.WalksInside chunkHash count where
  ends := by
    obtain ⟨final, ends, same⟩ := walk_ends hashRing
      (min count hashRing.getPhysicalNodeCount) hashRing.sortedHashes.length
      ⟨hashRing.findStartIndex chunkHash, 0, []⟩ (Nat.zero_add _)
    refine ⟨final, ends, ?_⟩
    rw [same, getNodes, if_neg populated]
    rfl
  inside state reached := by
    refine invariant_of_reaches (fun state =>
      state.currentIndex < hashRing.sortedHashes.length) ?_
      (findStartIndex_lt inStep.ascending chunkHash nonempty) reached
    intro state next _ stepped
    unfold walkStep at stepped
    split at stepped
    · cases stepped
      exact Nat.mod_lt _ (Nat.pos_of_ne_zero nonempty)
    · cases stepped

/-! ## First appearances -/

variable (hashRing)

/-- The physical nodes in the order in which a walk from a chunk hash meets them first. -/
def firstAppearances (chunkHash : Hash) : List NodeId :=
  ((cyclicFrom chunkHash hashRing.sortedHashes).filterMap fun hash =>
    (hashRing.ring.find? hash).map Prod.snd).eraseDups

/-- `getNodes` answers the first nodes that the walk meets, as many as asked for and as there are,
and its loops end and look at indices inside the array only. -/
structure AnswersFirst (chunkHash : Hash) (count : ℤ) : Prop where
  length : ((hashRing.getNodes chunkHash count).length : ℤ) =
    max 0 (min count hashRing.getPhysicalNodeCount)
  distinct : (hashRing.getNodes chunkHash count).Nodup
  current : ∀ nodeId ∈ hashRing.getNodes chunkHash count, hashRing.hasNode nodeId = true
  first : hashRing.getNodes chunkHash count =
    (hashRing.firstAppearances chunkHash).take count.toNat
  searches : hashRing.sortedHashes.length ≠ 0 → hashRing.SearchesInside chunkHash
  walks : hashRing.getPhysicalNodeCount ≠ 0 → hashRing.WalksInside chunkHash count

variable {hashRing}

theorem mem_firstAppearances (inStep : hashRing.InStep) {chunkHash : Hash} {nodeId : NodeId} :
    nodeId ∈ hashRing.firstAppearances chunkHash ↔ nodeId ∈ hashRing.physicalNodes.rows := by
  simp only [firstAppearances, List.mem_eraseDups, List.mem_filterMap, mem_cyclicFrom,
    inStep.values, Option.map_eq_some_iff, Table.find?_eq_some_iff]
  constructor
  · rintro ⟨hash, _, entry, ⟨member, _⟩, named⟩
    exact ⟨entry, member, named⟩
  · rintro ⟨entry, member, named⟩
    exact ⟨entry.1, (inStep.keys entry.1).mpr (Table.key_mem_keys member), entry,
      ⟨member, rfl⟩, named⟩

theorem length_firstAppearances (inStep : hashRing.InStep) (chunkHash : Hash) :
    (hashRing.firstAppearances chunkHash).length = hashRing.physicalNodes.rows.length := by
  have distinct : hashRing.physicalNodes.rows.Nodup := hashRing.physicalNodes.nodup_rows
  have perm : (hashRing.firstAppearances chunkHash).Perm hashRing.physicalNodes.rows :=
    (List.perm_ext_iff_of_nodup (nodup_eraseDups _) distinct).mpr fun nodeId =>
      mem_firstAppearances inStep
  exact perm.length_eq

/-- The nodes that `getNodes` prefers are those that the walk meets, but the nameless one. -/
theorem preferenceList_eq_filter (chunkHash : Hash) :
    hashRing.preferenceList chunkHash =
      (hashRing.firstAppearances chunkHash).filter fun nodeId => nodeId ≠ "" := by
  rw [preferenceList, firstAppearances, ← eraseDups_filter, List.filter_filterMap]
  congr 2
  funext hash
  unfold owner
  cases hashRing.ring.find? hash with
  | none => rfl
  | some entry =>
      by_cases nameless : entry.2 = ""
      · simp [nameless, Option.filter]
      · simp [nameless, Option.filter]

/-- **The first nodes that the walk meets.** On a ring that calls lead to, `getNodes` answers the
first distinct nodes of the walk, as many as asked for and as there are, exactly when the nameless
node is not among them. -/
theorem answersFirst_iff {computeHash : String → Hash} {virtualNodesPerPhysical : ℤ}
    {calls : List RingCall} {hashRing : ConsistentHashRing Hash}
    (reachable : Reachable computeHash virtualNodesPerPhysical calls hashRing)
    (free : Set.InjOn computeHash (RingCall.virtualNodeIds calls)) (chunkHash : Hash) (count : ℤ) :
    hashRing.AnswersFirst chunkHash count ↔
      "" ∉ (hashRing.firstAppearances chunkHash).take count.toNat := by
  have inStep := reachable.inStep free
  have answer : hashRing.getNodes chunkHash count =
      ((hashRing.firstAppearances chunkHash).filter fun nodeId =>
        nodeId ≠ "").take count.toNat := by
    rw [getNodes_eq inStep, preferenceList_eq_filter]
  rw [← take_filter_ne, ← answer]
  refine ⟨AnswersFirst.first, fun first => ?_⟩
  exact
    { length := by
        rw [first, List.length_take, length_firstAppearances inStep]
        unfold getPhysicalNodeCount
        omega
      distinct := nodup_getNodes chunkHash count
      current := fun nodeId member => decide_eq_true (mem_of_mem_getNodes inStep member)
      first := first
      searches := searchesInside inStep.ascending chunkHash
      walks := fun populated => by
        obtain ⟨nodeId, member⟩ := List.exists_mem_of_length_pos (Nat.pos_of_ne_zero populated)
        obtain ⟨entry, present, _⟩ := (inStep.values nodeId).mp member
        have listed := (inStep.keys entry.1).mpr (Table.key_mem_keys present)
        exact walksInside inStep chunkHash count (List.length_pos_of_mem listed).ne' populated }

/-- A ring of two nodes, one of them nameless. -/
def namelessRing : ConsistentHashRing String :=
  ((new 150).addNode id "a" (some 1)).addNode id "" (some 1)

def namelessCalls : List RingCall := [.addNode "a" 1 Nat.one_pos, .addNode "" 1 Nat.one_pos]

theorem reachable_namelessRing : Reachable id 150 namelessCalls namelessRing :=
  .addNode "" (some 1) (by decide) (.addNode "a" (some 1) (by decide) .new)

/-- One node is asked for, and the walk meets the one with a name first. -/
theorem answersFirst_named : namelessRing.AnswersFirst "a" 1 :=
  (answersFirst_iff reachable_namelessRing (Set.injOn_id _) "a" 1).mpr (by decide)

/-- **The nameless node is passed over**: two nodes are asked for and there are two, but one comes
back. -/
theorem nameless_node_missing :
    Reachable id 150 namelessCalls namelessRing ∧
      Set.InjOn id (RingCall.virtualNodeIds namelessCalls) ∧
      namelessRing.getPhysicalNodeCount = 2 ∧ namelessRing.getNodes "hash" 2 = ["a"] ∧
      ¬namelessRing.AnswersFirst "hash" 2 := by
  have short : namelessRing.getNodes "hash" 2 = ["a"] := by decide +kernel
  have two : namelessRing.getPhysicalNodeCount = 2 := by decide +kernel
  refine ⟨reachable_namelessRing, Set.injOn_id _, two, short, fun answers => ?_⟩
  have both := answers.length
  rw [short, two] at both
  exact absurd both (by decide)

end ConsistentHashRing

end DistributedFileStorage.Placement
