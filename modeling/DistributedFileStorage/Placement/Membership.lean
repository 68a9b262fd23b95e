import DistributedFileStorage.Placement.ConsistentHashRing
import Mathlib.Data.Set.Function
import Mathlib.Data.String.Basic
import Mathlib.Order.MinMax

/-!
# Membership changes of the ring

The membership of a ring gives, for each node, the largest number of virtual nodes that
it was added with since it was last removed. A ring represents a membership when its
entries are the virtual nodes of the members, its nodes are the members, and its hashes
are sorted. Every history of calls leads to a ring that represents the membership of the
history (`represents_reached`), as long as the hash function does not collide on the
virtual nodes that the history creates.

Two rings that represent the same membership answer every question alike, so the answers
do not depend on the history (`getNodes_eq_of_membership_eq`). When the memberships
differ by one node, so do the preference lists (`preferenceList_of_removed`), and a change
of the membership moves chunks from the node or to the node that it is about
(`minimal_movement`).
-/

set_option autoImplicit false

namespace DistributedFileStorage.Placement

open Relational Sequences Store

/-! ## Histories -/

/-- A call on a ring. The count of an added node is positive. -/
inductive RingCall where
  | addNode (nodeId : NodeId) (virtualNodeCount : ℕ) (positive : 0 < virtualNodeCount)
  | removeNode (nodeId : NodeId)
  | clear

/-- The number of virtual nodes of each member, zero for a node that is no member. -/
abbrev Members := NodeId → ℕ

namespace RingCall

variable {Hash : Type} [LinearOrder Hash] (computeHash : String → Hash)

/-- The ring after a call. -/
def after (hashRing : ConsistentHashRing Hash) : RingCall → ConsistentHashRing Hash
  | addNode nodeId virtualNodeCount _ => hashRing.addNode computeHash nodeId (some virtualNodeCount)
  | removeNode nodeId => hashRing.removeNode nodeId
  | clear => hashRing.clear

/-- The ring after a history. -/
def reached (virtualNodesPerPhysical : ℤ) (calls : List RingCall) : ConsistentHashRing Hash :=
  calls.foldl (after computeHash) (.new virtualNodesPerPhysical)

/-- The members after a call. -/
def change (members : Members) : RingCall → Members
  | addNode nodeId virtualNodeCount _ =>
      Function.update members nodeId (max (members nodeId) virtualNodeCount)
  | removeNode nodeId => Function.update members nodeId 0
  | clear => fun _ => 0

/-- The members after a history: for each node the largest count it was added with since
it was removed last. -/
def membership (calls : List RingCall) : Members := calls.foldl change fun _ => 0

theorem membership_append (calls : List RingCall) (call : RingCall) :
    membership (calls ++ [call]) = change (membership calls) call :=
  List.foldl_concat _ _ _ _

/-- The virtual nodes that a history creates. -/
def virtualNodeIds (calls : List RingCall) : Set String :=
  {id | ∃ nodeId count positive i, addNode nodeId count positive ∈ calls ∧ i < count ∧
    virtualNodeId nodeId i = id}

theorem virtualNodeIds_mono {calls more : List RingCall} (part : calls ⊆ more) :
    virtualNodeIds calls ⊆ virtualNodeIds more := by
  rintro id ⟨nodeId, count, positive, i, member, below, rfl⟩
  exact ⟨nodeId, count, positive, i, part member, below, rfl⟩

/-- The virtual nodes of the members were created. -/
theorem mem_virtualNodeIds_of_lt {calls : List RingCall} {nodeId : NodeId} {i : ℕ}
    (below : i < membership calls nodeId) : virtualNodeId nodeId i ∈ virtualNodeIds calls := by
  induction calls using List.reverseRecOn with
  | nil => exact absurd below (Nat.not_lt_zero _)
  | append_singleton calls call ih =>
      have earlier := virtualNodeIds_mono (List.subset_append_left calls [call])
      rw [membership_append] at below
      cases call with
      | addNode other count positive =>
          by_cases same : nodeId = other
          · subst same
            have either : i < max (membership calls nodeId) count := by
              simpa [change] using below
            rcases lt_max_iff.mp either with old | new
            · exact earlier (ih old)
            · exact ⟨nodeId, count, positive, i, by simp, new, rfl⟩
          · exact earlier (ih (by simpa [change, same] using below))
      | removeNode other =>
          by_cases same : nodeId = other
          · simp [change, same] at below
          · exact earlier (ih (by simpa [change, same] using below))
      | clear => simp [change] at below

end RingCall

namespace ConsistentHashRing

variable {Hash : Type} [LinearOrder Hash]

/-! ## Rings that represent a membership -/

/-- The entries are the virtual nodes of the members, the nodes are the members, and the
hashes are the sorted keys. -/
structure Represents (computeHash : String → Hash) (hashRing : ConsistentHashRing Hash)
    (members : Members) : Prop where
  entries : ∀ entry, entry ∈ hashRing.ring.rows ↔
    ∃ i < members entry.2, computeHash (virtualNodeId entry.2 i) = entry.1
  nodes : ∀ nodeId, nodeId ∈ hashRing.physicalNodes.rows ↔ 0 < members nodeId
  sorted : hashRing.sortedHashes = sortHashes hashRing.ring.keys

theorem strictlyAscending_sortHashes {hashes : List Hash} (distinct : hashes.Nodup) :
    (sortHashes hashes).Pairwise (· < ·) := by
  have ascending : (sortHashes hashes).Pairwise (· ≤ ·) := List.pairwise_insertionSort _ _
  have nodup : (sortHashes hashes).Nodup := (List.perm_insertionSort _ _).nodup_iff.mpr distinct
  exact (ascending.and nodup).imp fun both => lt_of_le_of_ne both.1 both.2

/-- Two strictly ascending lists with the same elements are the same list. -/
theorem eq_of_ascending {first second : List Hash} (ascendingFirst : first.Pairwise (· < ·))
    (ascendingSecond : second.Pairwise (· < ·)) (same : ∀ hash, hash ∈ first ↔ hash ∈ second) :
    first = second := by
  have perm : first.Perm second := (List.perm_ext_iff_of_nodup
    (ascendingFirst.imp fun less => less.ne) (ascendingSecond.imp fun less => less.ne)).mpr same
  exact perm.eq_of_pairwise (fun one other _ _ before after => absurd after before.asymm)
    ascendingFirst ascendingSecond

/-- **The three collections of a ring that represents a membership belong together.** -/
theorem Represents.inStep {computeHash : String → Hash} {hashRing : ConsistentHashRing Hash}
    {members : Members} (represents : hashRing.Represents computeHash members) :
    hashRing.InStep where
  ascending := represents.sorted ▸ strictlyAscending_sortHashes hashRing.ring.distinct
  keys hash := by
    rw [represents.sorted]
    exact List.mem_insertionSort _
  values nodeId := by
    rw [represents.nodes]
    constructor
    · intro member
      have entry := (represents.entries (computeHash (virtualNodeId nodeId 0), nodeId)).mpr
        ⟨0, member, rfl⟩
      exact ⟨_, entry, rfl⟩
    · rintro ⟨entry, present, rfl⟩
      obtain ⟨i, below, _⟩ := (represents.entries entry).mp present
      exact Nat.zero_lt_of_lt below

/-- The entries after the loop of `addNode`. -/
theorem mem_foldl_upsert {computeHash : String → Hash} {nodeId : NodeId} {count : ℕ}
    {ring : Table (Prod.fst : Hash × NodeId → Hash)} {entry : Hash × NodeId} :
    entry ∈ ((List.range count).foldl
        (fun ring i => ring.upsert (computeHash (virtualNodeId nodeId i), nodeId)) ring).rows ↔
      (∃ i < count, entry = (computeHash (virtualNodeId nodeId i), nodeId)) ∨
        entry ∈ ring.rows ∧ ∀ i < count, entry.1 ≠ computeHash (virtualNodeId nodeId i) := by
  induction count with
  | zero => simp
  | succ count ih =>
      rw [List.range_succ, List.foldl_append, List.foldl_cons, List.foldl_nil, Table.mem_upsert,
        ih]
      constructor
      · rintro (rfl | ⟨⟨i, below, rfl⟩ | ⟨old, apart⟩, different⟩)
        · exact .inl ⟨count, Nat.lt_succ_self count, rfl⟩
        · exact .inl ⟨i, Nat.lt_succ_of_lt below, rfl⟩
        · refine .inr ⟨old, fun i below => ?_⟩
          rcases Nat.lt_succ_iff_lt_or_eq.mp below with earlier | rfl
          · exact apart i earlier
          · exact different
      · rintro (⟨i, below, rfl⟩ | ⟨old, apart⟩)
        · by_cases same : computeHash (virtualNodeId nodeId i) =
              computeHash (virtualNodeId nodeId count)
          · exact .inl (by rw [same])
          · rcases Nat.lt_succ_iff_lt_or_eq.mp below with earlier | rfl
            · exact .inr ⟨.inl ⟨i, earlier, rfl⟩, same⟩
            · exact absurd rfl same
        · exact .inr ⟨.inr ⟨old, fun i below => apart i (Nat.lt_succ_of_lt below)⟩,
            apart count (Nat.lt_succ_self count)⟩

theorem Represents.new (computeHash : String → Hash) (virtualNodesPerPhysical : ℤ) :
    (new virtualNodesPerPhysical : ConsistentHashRing Hash).Represents computeHash
      fun _ => 0 where
  entries entry := by simp [ConsistentHashRing.new]
  nodes nodeId := by simp [ConsistentHashRing.new]
  sorted := rfl

theorem Represents.addNode {computeHash : String → Hash} {hashRing : ConsistentHashRing Hash}
    {members : Members} (represents : hashRing.Represents computeHash members)
    {used : Set String} (free : Set.InjOn computeHash used)
    (created : ∀ nodeId i, i < members nodeId → virtualNodeId nodeId i ∈ used)
    {nodeId : NodeId} {count : ℕ} (positive : 0 < count)
    (creates : ∀ i < count, virtualNodeId nodeId i ∈ used) :
    (hashRing.addNode computeHash nodeId (some count)).Represents computeHash
      (Function.update members nodeId (max (members nodeId) count)) where
  entries entry := by
    have number : hashRing.virtualNodes (some (count : ℤ)) = count := by
      simp [virtualNodes, positive.ne']
    simp only [ConsistentHashRing.addNode, number, mem_foldl_upsert, represents.entries]
    constructor
    · rintro (⟨i, below, rfl⟩ | ⟨⟨i, below, hash⟩, _⟩)
      · exact ⟨i, by simp [below], rfl⟩
      · refine ⟨i, ?_, hash⟩
        by_cases same : entry.2 = nodeId
        · simp [same ▸ below, same]
        · simp [below, same]
    · rintro ⟨i, below, hash⟩
      by_cases new : ∃ j < count, computeHash (virtualNodeId nodeId j) = entry.1
      · -- the hash belongs to the added node, so the entry is one of its entries
        obtain ⟨j, few, sameHash⟩ := new
        have known : virtualNodeId entry.2 i ∈ used := by
          by_cases same : entry.2 = nodeId
          · rw [same, Function.update_self] at below
            rcases lt_max_iff.mp below with old | fresh
            · exact created _ _ (same ▸ old)
            · exact same ▸ creates i fresh
          · rw [Function.update_of_ne same] at below
            exact created _ _ below
        have sameId := free (creates j few) known (sameHash.trans hash.symm)
        obtain ⟨node, _⟩ := virtualNodeId_inj sameId
        exact .inl ⟨j, few, Prod.ext sameHash.symm node.symm⟩
      · push Not at new
        refine .inr ⟨⟨i, ?_, hash⟩, fun j few same => new j few same.symm⟩
        by_cases same : entry.2 = nodeId
        · rw [same, Function.update_self] at below
          rcases lt_max_iff.mp below with old | fresh
          · exact same ▸ old
          · exact absurd (same ▸ hash) (new i fresh)
        · rwa [Function.update_of_ne same] at below
  nodes other := by
    simp only [ConsistentHashRing.addNode, Table.mem_insertIfAbsent, represents.nodes]
    by_cases same : other = nodeId
    · subst same
      rw [Function.update_self]
      refine iff_of_true ?_ (positive.trans_le (le_max_right _ _))
      rcases Nat.eq_zero_or_pos (members other) with absent | present
      · refine .inr ⟨fun taken => ?_, rfl⟩
        have member := (represents.nodes other).mp (by simpa [Table.keys] using taken)
        omega
      · exact .inl present
    · simp [same]
  sorted := rfl

theorem Represents.removeNode {computeHash : String → Hash} {hashRing : ConsistentHashRing Hash}
    {members : Members} (represents : hashRing.Represents computeHash members)
    (nodeId : NodeId) :
    (hashRing.removeNode nodeId).Represents computeHash (Function.update members nodeId 0) where
  entries entry := by
    simp only [ConsistentHashRing.removeNode, Table.mem_foldl_delete, represents.entries]
    have member : (∃ i < members entry.2, computeHash (virtualNodeId entry.2 i) = entry.1) ↔
        entry ∈ hashRing.ring.rows := (represents.entries entry).symm
    by_cases same : entry.2 = nodeId
    · subst same
      refine iff_of_false ?_ (by simp)
      rintro ⟨present, kept⟩
      exact kept (List.mem_map.mpr ⟨entry, by simpa using member.mp present, rfl⟩)
    · rw [Function.update_of_ne same]
      apply and_iff_left_of_imp
      intro present removed
      obtain ⟨other, doomed, sameHash⟩ := List.mem_map.mp removed
      obtain ⟨inside, owned⟩ := List.mem_filter.mp doomed
      have equal : other = entry := Table.eq_of_key_eq inside (member.mp present) sameHash
      exact same (equal ▸ by simpa using owned)
  nodes other := by
    simp only [ConsistentHashRing.removeNode, Table.mem_delete, represents.nodes]
    by_cases same : other = nodeId
    · simp [same]
    · simp [same]
  sorted := rfl

theorem Represents.clear {computeHash : String → Hash} (hashRing : ConsistentHashRing Hash) :
    hashRing.clear.Represents computeHash fun _ => 0 where
  entries entry := by simp [ConsistentHashRing.clear]
  nodes nodeId := by simp [ConsistentHashRing.clear]
  sorted := rfl

/-- **A history leads to a ring that represents its membership**, when the hash function
does not collide on the virtual nodes of the history. -/
theorem represents_reached {computeHash : String → Hash} {calls : List RingCall}
    (free : Set.InjOn computeHash (RingCall.virtualNodeIds calls))
    (virtualNodesPerPhysical : ℤ) :
    (RingCall.reached computeHash virtualNodesPerPhysical calls).Represents computeHash
      (RingCall.membership calls) := by
  induction calls using List.reverseRecOn with
  | nil => exact .new computeHash virtualNodesPerPhysical
  | append_singleton calls call ih =>
      have earlier := RingCall.virtualNodeIds_mono (List.subset_append_left calls [call])
      have before := ih (free.mono earlier)
      rw [RingCall.membership_append, RingCall.reached, List.foldl_concat]
      cases call with
      | addNode nodeId count positive =>
          refine before.addNode free (fun node i below => ?_) positive fun i below => ?_
          · exact earlier (RingCall.mem_virtualNodeIds_of_lt below)
          · exact ⟨nodeId, count, positive, i, by simp, below, rfl⟩
      | removeNode nodeId => exact before.removeNode nodeId
      | clear => exact .clear _

/-! ## Equal memberships -/

/-- What a ring answers is determined by the membership that it represents. -/
theorem preferenceList_eq {computeHash : String → Hash} {first second : ConsistentHashRing Hash}
    {members : Members} (representsFirst : first.Represents computeHash members)
    (representsSecond : second.Represents computeHash members) :
    first.preferenceList = second.preferenceList := by
  have rows : ∀ entry, entry ∈ first.ring.rows ↔ entry ∈ second.ring.rows := fun entry =>
    (representsFirst.entries entry).trans (representsSecond.entries entry).symm
  have owners : first.owner = second.owner := by
    funext hash
    apply Option.ext
    intro nodeId
    rw [owner_eq_some_iff, owner_eq_some_iff, rows]
  have hashes : first.sortedHashes = second.sortedHashes := by
    refine eq_of_ascending representsFirst.inStep.ascending representsSecond.inStep.ascending ?_
    intro hash
    rw [representsFirst.inStep.keys, representsSecond.inStep.keys, Table.mem_keys, Table.mem_keys]
    simp only [rows]
  funext chunkHash
  rw [preferenceList, preferenceList, owners, hashes]

/-- **The answers of a ring do not depend on its history, and its three collections
belong together in every state reached.** -/
theorem getNodes_eq_of_membership_eq {computeHash : String → Hash} {first second : List RingCall}
    (freeFirst : Set.InjOn computeHash (RingCall.virtualNodeIds first))
    (freeSecond : Set.InjOn computeHash (RingCall.virtualNodeIds second))
    (virtualNodesFirst virtualNodesSecond : ℤ) :
    (RingCall.membership first = RingCall.membership second → ∀ chunkHash count,
        (RingCall.reached computeHash virtualNodesFirst first).getNodes chunkHash count =
          (RingCall.reached computeHash virtualNodesSecond second).getNodes chunkHash count) ∧
      (RingCall.reached computeHash virtualNodesFirst first).InStep := by
  have representsFirst := represents_reached freeFirst virtualNodesFirst
  refine ⟨fun same chunkHash count => ?_, representsFirst.inStep⟩
  have representsSecond := represents_reached freeSecond virtualNodesSecond
  rw [same] at representsFirst
  rw [getNodes_eq representsFirst.inStep, getNodes_eq representsSecond.inStep,
    preferenceList_eq representsFirst representsSecond]

/-- Two nodes of which one is removed again, and a ring that is cleared first. -/
theorem getNodes_eq_after_clear :
    (RingCall.reached id 150 [.addNode "a" 1 (by decide), .addNode "b" 2 (by decide),
        .removeNode "b"]).getNodes "hash" 3 =
      (RingCall.reached id 150 [.addNode "c" 1 (by decide), .clear,
        .addNode "a" 1 (by decide)]).getNodes "hash" 3 := by
  refine (getNodes_eq_of_membership_eq (Set.injOn_id _) (Set.injOn_id _) 150 150).1 ?_ "hash" 3
  funext nodeId
  by_cases a : nodeId = "a"
  · subst a
    decide
  · by_cases b : nodeId = "b"
    · subst b
      decide
    · simp [RingCall.membership, RingCall.change, a, b]

/-! ## One node less, one node more -/

/-- **Without a node the preference list is the old one without that node.** -/
theorem preferenceList_of_removed {computeHash : String → Hash}
    {whole without : ConsistentHashRing Hash} {members : Members} {nodeId : NodeId}
    (representsWhole : whole.Represents computeHash members)
    (representsWithout : without.Represents computeHash (Function.update members nodeId 0))
    (chunkHash : Hash) :
    without.preferenceList chunkHash =
      (whole.preferenceList chunkHash).filter fun other => other ≠ nodeId := by
  have rows : ∀ entry, entry ∈ without.ring.rows ↔
      entry ∈ whole.ring.rows ∧ entry.2 ≠ nodeId := by
    intro entry
    rw [representsWithout.entries, representsWhole.entries]
    by_cases same : entry.2 = nodeId
    · simp [same]
    · simp [same]
  -- a hash stays when its entry is not one of the node
  let stays : Hash → Bool := fun hash => (hash, nodeId) ∉ whole.ring.rows
  have hashes : without.sortedHashes = whole.sortedHashes.filter stays := by
    refine eq_of_ascending representsWithout.inStep.ascending
      (representsWhole.inStep.ascending.filter _) fun hash => ?_
    rw [List.mem_filter, representsWithout.inStep.keys, representsWhole.inStep.keys,
      Table.mem_keys, Table.mem_keys]
    simp only [rows, stays, decide_eq_true_eq]
    constructor
    · rintro ⟨entry, ⟨member, other⟩, rfl⟩
      refine ⟨⟨entry, member, rfl⟩, fun owned => other ?_⟩
      have same : entry = (entry.1, nodeId) := Table.eq_of_key_eq member owned rfl
      exact congrArg Prod.snd same
    · rintro ⟨⟨entry, member, rfl⟩, free⟩
      refine ⟨entry, ⟨member, fun owned => free ?_⟩, rfl⟩
      exact owned ▸ member
  have owners : ∀ hash, (if stays hash = true then without.owner hash else none) =
      (whole.owner hash).filter fun other => other ≠ nodeId := by
    intro hash
    apply Option.ext
    intro other
    rw [Option.filter_eq_some_iff, owner_eq_some_iff]
    by_cases kept : stays hash = true
    · rw [if_pos kept, owner_eq_some_iff, rows]
      simp [and_right_comm]
    · rw [if_neg kept]
      have owned : (hash, nodeId) ∈ whole.ring.rows := by simpa [stays] using kept
      refine iff_of_false (by simp) ?_
      rintro ⟨⟨member, _⟩, different⟩
      have same : (hash, other) = (hash, nodeId) := Table.eq_of_key_eq member owned rfl
      have here : other = nodeId := congrArg Prod.snd same
      simp [here] at different
  rw [preferenceList, preferenceList, hashes, cyclicFrom_filter, ← eraseDups_filter,
    List.filterMap_filter, List.filter_filterMap]
  simp only [owners]

theorem hasNode_eq_false_iff {computeHash : String → Hash}
    {hashRing : ConsistentHashRing Hash} {members : Members}
    (represents : hashRing.Represents computeHash members) {nodeId : NodeId} :
    hashRing.hasNode nodeId = false ↔ members nodeId = 0 := by
  rw [hasNode, decide_eq_false_iff_not, represents.nodes, Nat.not_lt, Nat.le_zero]

/-- **Minimal data movement.** Without a node, a chunk goes to the first nodes of the old
preference list that are left. With a new node, it goes to that node and to an initial
segment of the nodes it went to before. -/
theorem minimal_movement {computeHash : String → Hash} {calls : List RingCall}
    (free : Set.InjOn computeHash (RingCall.virtualNodeIds calls)) (virtualNodesPerPhysical : ℤ)
    (nodeId : NodeId) (chunkHash : Hash) (count : ℤ) :
    let hashRing := RingCall.reached computeHash virtualNodesPerPhysical calls
    (hashRing.removeNode nodeId).getNodes chunkHash count =
        ((hashRing.getNodes chunkHash hashRing.getPhysicalNodeCount).filter
          fun other => other ≠ nodeId).take count.toNat ∧
      ∀ (virtualNodeCount : ℕ) (positive : 0 < virtualNodeCount), hashRing.hasNode nodeId = false →
        Set.InjOn computeHash (RingCall.virtualNodeIds
          (calls ++ [.addNode nodeId virtualNodeCount positive])) →
        ((hashRing.addNode computeHash nodeId (some virtualNodeCount)).getNodes chunkHash
            count).filter (fun other => other ≠ nodeId) <+:
          hashRing.getNodes chunkHash count := by
  intro hashRing
  have represents := represents_reached free virtualNodesPerPhysical
  constructor
  · have without := represents.removeNode nodeId
    have whole : hashRing.getNodes chunkHash hashRing.getPhysicalNodeCount =
        hashRing.preferenceList chunkHash := by
      rw [getNodes_eq represents.inStep, Int.toNat_natCast]
      exact List.take_of_length_le (length_preferenceList_le represents.inStep chunkHash)
    rw [whole, getNodes_eq without.inStep, preferenceList_of_removed represents without]
  · intro virtualNodeCount positive absent freeAfter
    have more := represents_reached freeAfter virtualNodesPerPhysical
    rw [RingCall.membership_append, RingCall.reached, List.foldl_concat] at more
    have before : hashRing.Represents computeHash (Function.update (RingCall.change
        (RingCall.membership calls) (.addNode nodeId virtualNodeCount positive)) nodeId 0) := by
      have same := (hasNode_eq_false_iff represents).mp absent
      rw [RingCall.change, Function.update_idem, ← same, Function.update_eq_self]
      exact represents
    have listed := preferenceList_of_removed more before chunkHash
    rw [getNodes_eq represents.inStep, listed]
    have after := getNodes_eq more.inStep chunkHash count
    exact after ▸ filter_take_prefix _ _ _

/-- Two nodes with one virtual node each. -/
def twoNodes : List RingCall := [.addNode "a" 1 (by decide), .addNode "b" 1 (by decide)]

/-- One of the two nodes is removed, or a third one joins them. -/
theorem minimal_movement_two_nodes :
    ((RingCall.reached id 150 twoNodes).removeNode "a").getNodes "hash" 1 = ["b"] ∧
      (((RingCall.reached id 150 twoNodes).addNode id "c" (some (1 : ℕ))).getNodes "hash" 2).filter
        (fun other => other ≠ "c") <+: (RingCall.reached id 150 twoNodes).getNodes "hash" 2 := by
  have free : Set.InjOn id (RingCall.virtualNodeIds twoNodes) := Set.injOn_id _
  have removed := (minimal_movement free 150 "a" "hash" 1).1
  have added := (minimal_movement free 150 "c" "hash" 2).2 1 (by decide) (by decide)
    (Set.injOn_id _)
  exact ⟨removed.trans (by decide), added⟩

end ConsistentHashRing

end DistributedFileStorage.Placement
