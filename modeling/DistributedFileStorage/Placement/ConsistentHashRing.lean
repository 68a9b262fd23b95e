import DistributedFileStorage.Relational.Table
import DistributedFileStorage.Sequences.Cyclic
import DistributedFileStorage.Store.Records
import Mathlib.Data.List.Sort

/-!
# The consistent hash ring

The ring maps the hashes of virtual nodes to physical nodes and keeps the hashes
sorted. `getNodes` finds the first virtual node at or after a chunk hash by binary
search, walks clockwise and collects distinct physical nodes.

The hash function is a parameter, and hashes are the elements of a linear order. A node
identifier may be any string. The empty one is special: `getNodes` skips it, because the
code tests the identifier for truth.

When the hashes are sorted and are the keys of the ring, `getNodes` returns an initial
segment of the preference list of the chunk hash (`getNodes_eq`).
-/

set_option autoImplicit false

namespace DistributedFileStorage.Placement

open Relational Sequences Store

/-! ## Virtual nodes -/

/-- The identifier `${nodeId}:vnode:${i}` of a virtual node. -/
def virtualNodeId (nodeId : NodeId) (i : ℕ) : String := s!"{nodeId}:vnode:{i}"

/-- A list is determined by what stands before and after its last separator. -/
theorem split_at_last_separator {α : Type} {separator : α} {first second before after : List α}
    (same : first ++ separator :: before = second ++ separator :: after)
    (lastFirst : separator ∉ before) (lastSecond : separator ∉ after) :
    first = second ∧ before = after := by
  rcases List.append_eq_append_iff.mp same with
    ⟨middle, longer, rest⟩ | ⟨middle, longer, rest⟩
  · cases middle with
    | nil => simp_all
    | cons item middle =>
        obtain ⟨_, inside⟩ := List.cons.inj rest
        exact absurd (inside ▸ List.mem_append_right _ List.mem_cons_self) lastFirst
  · cases middle with
    | nil => simp_all
    | cons item middle =>
        obtain ⟨_, inside⟩ := List.cons.inj rest
        exact absurd (inside ▸ List.mem_append_right _ List.mem_cons_self) lastSecond

theorem colon_not_mem_toDigits (i : ℕ) : ':' ∉ Nat.toDigits 10 i := by
  intro member
  have digit := Nat.isDigit_of_mem_toDigits (by decide) (by decide) member
  revert digit
  decide

/-- **Distinct pairs of a node identifier and an index give distinct virtual node
identifiers**, also when a node identifier contains `:vnode:`. -/
theorem virtualNodeId_inj {nodeId otherId : NodeId} {i j : ℕ}
    (same : virtualNodeId nodeId i = virtualNodeId otherId j) : nodeId = otherId ∧ i = j := by
  have characters := congrArg String.toList same
  simp only [virtualNodeId, String.toList_append, toString, Nat.toList_repr] at characters
  have split : nodeId.toList ++ ":vnode".toList = otherId.toList ++ ":vnode".toList ∧
      Nat.toDigits 10 i = Nat.toDigits 10 j :=
    split_at_last_separator (by simpa using characters) (colon_not_mem_toDigits i)
      (colon_not_mem_toDigits j)
  constructor
  · exact String.toList_inj.mp (List.append_left_inj _ |>.mp split.1)
  · rw [← Nat.ofDigitChars_ten_toDigits (n := i), split.2, Nat.ofDigitChars_ten_toDigits]

/-! ## The ring -/

variable {Hash : Type} [LinearOrder Hash]

structure ConsistentHashRing (Hash : Type) [LinearOrder Hash] where
  virtualNodesPerPhysical : ℤ
  ring : Table (Prod.fst : Hash × NodeId → Hash)
  sortedHashes : List Hash
  physicalNodes : Table (id : NodeId → NodeId)

/-- `Array.from(hashes).sort()`. -/
def sortHashes (hashes : List Hash) : List Hash :=
  hashes.insertionSort fun first second => first ≤ second

namespace ConsistentHashRing

/-- A new ring, with 150 virtual nodes for each node by default. -/
def new (virtualNodesPerPhysical : ℤ) : ConsistentHashRing Hash :=
  ⟨virtualNodesPerPhysical, .empty _, [], .empty _⟩

variable (computeHash : String → Hash) (hashRing : ConsistentHashRing Hash)

/-- The number of virtual nodes that `addNode` creates: a count that is missing or
zero stands for the default. -/
def virtualNodes (virtualNodeCount : Option ℤ) : ℕ :=
  match virtualNodeCount with
  | none => hashRing.virtualNodesPerPhysical.toNat
  | some count => if count = 0 then hashRing.virtualNodesPerPhysical.toNat else count.toNat

def addNode (nodeId : NodeId) (virtualNodeCount : Option ℤ) : ConsistentHashRing Hash :=
  let ring := (List.range (hashRing.virtualNodes virtualNodeCount)).foldl
    (fun ring i => ring.upsert (computeHash (virtualNodeId nodeId i), nodeId)) hashRing.ring
  { hashRing with
    physicalNodes := hashRing.physicalNodes.insertIfAbsent nodeId
    ring := ring
    sortedHashes := sortHashes ring.keys }

def removeNode (nodeId : NodeId) : ConsistentHashRing Hash :=
  let hashesToRemove := (hashRing.ring.rows.filter fun entry => entry.2 = nodeId).map Prod.fst
  let ring := hashesToRemove.foldl Table.delete hashRing.ring
  { hashRing with
    physicalNodes := hashRing.physicalNodes.delete nodeId
    ring := ring
    sortedHashes := sortHashes ring.keys }

def clear : ConsistentHashRing Hash :=
  { hashRing with
    ring := .empty _
    sortedHashes := []
    physicalNodes := .empty _ }

/-- The test `this.sortedHashes[index] < hash`, false past the end. -/
def isBelow (hash : Hash) (index : ℕ) : Bool :=
  match hashRing.sortedHashes[index]? with
  | some other => other < hash
  | none => false

/-- The loop of the binary search. Each iteration makes the interval smaller, so its
length bounds their number. -/
def search (hash : Hash) : ℕ → ℕ → ℕ → ℕ
  | 0, left, _ => left
  | fuel + 1, left, right =>
      if left < right then
        let mid := (left + right) / 2
        if hashRing.isBelow hash mid then search hash fuel (mid + 1) right
        else search hash fuel left mid
      else left

def findStartIndex (hash : Hash) : ℕ :=
  if hashRing.sortedHashes.length = 0 then 0
  else
    let left :=
      hashRing.search hash hashRing.sortedHashes.length 0 (hashRing.sortedHashes.length - 1)
    if hashRing.isBelow hash left then 0 else left

/-- The physical node at an index, when there is one and its identifier is true. -/
def nodeAt (index : ℕ) : Option NodeId := do
  let hash ← hashRing.sortedHashes[index]?
  let entry ← hashRing.ring.find? hash
  if entry.2 = "" then none else some entry.2

/-- The walk of `getNodes`, with the attempts that are left. -/
def walk (count : ℤ) : ℕ → ℕ → List NodeId → List NodeId
  | 0, _, selectedNodes => selectedNodes
  | attempts + 1, currentIndex, selectedNodes =>
      if (selectedNodes.length : ℤ) < count then
        walk count attempts ((currentIndex + 1) % hashRing.sortedHashes.length)
          (match hashRing.nodeAt currentIndex with
            | some nodeId =>
                if nodeId ∈ selectedNodes then selectedNodes else selectedNodes ++ [nodeId]
            | none => selectedNodes)
      else selectedNodes

def getNodes (chunkHash : Hash) (count : ℤ) : List NodeId :=
  if hashRing.physicalNodes.rows.length = 0 then []
  else
    hashRing.walk (min count hashRing.physicalNodes.rows.length) hashRing.sortedHashes.length
      (hashRing.findStartIndex chunkHash) []

def getPhysicalNodeCount : ℕ := hashRing.physicalNodes.rows.length

def hasNode (nodeId : NodeId) : Bool := nodeId ∈ hashRing.physicalNodes.rows

/-! ## The preference list -/

/-- The physical node that a hash of the ring stands for. -/
def owner (hash : Hash) : Option NodeId :=
  (hashRing.ring.find? hash).bind fun entry => if entry.2 = "" then none else some entry.2

/-- All nodes in the order in which a walk from a chunk hash meets them first. -/
def preferenceList (chunkHash : Hash) : List NodeId :=
  ((cyclicFrom chunkHash hashRing.sortedHashes).filterMap hashRing.owner).eraseDups

/-- The three collections of the ring belong together: the hashes are the sorted keys,
and the nodes are the values. -/
structure InStep : Prop where
  ascending : hashRing.sortedHashes.Pairwise (· < ·)
  keys : ∀ hash, hash ∈ hashRing.sortedHashes ↔ hash ∈ hashRing.ring.keys
  values : ∀ nodeId, nodeId ∈ hashRing.physicalNodes.rows ↔
    ∃ entry ∈ hashRing.ring.rows, entry.2 = nodeId

variable {hashRing}

/-- The collections belong together when the hashes and the nodes are permutations of the keys and
the values. -/
theorem InStep.of_perm (ascending : hashRing.sortedHashes.Pairwise (· < ·))
    (keys : hashRing.sortedHashes.Perm hashRing.ring.keys)
    (values : hashRing.physicalNodes.rows.Perm (hashRing.ring.rows.map Prod.snd)) :
    hashRing.InStep where
  ascending := ascending
  keys _ := keys.mem_iff
  values _ := values.mem_iff.trans List.mem_map

theorem nodeAt_eq {index : ℕ} (inside : index < hashRing.sortedHashes.length) :
    hashRing.nodeAt index = hashRing.owner hashRing.sortedHashes[index] := by
  simp only [nodeAt, owner, List.getElem?_eq_getElem inside]
  rfl

theorem isBelow_iff {hash : Hash} {index : ℕ} (inside : index < hashRing.sortedHashes.length) :
    hashRing.isBelow hash index = true ↔ hashRing.sortedHashes[index] < hash := by
  simp [isBelow, List.getElem?_eq_getElem inside]

/-- **The binary search.** Every hash before the result is below the target, and the
result is the last index or not below the target. -/
theorem search_spec {hash : Hash} (ascending : hashRing.sortedHashes.Pairwise (· < ·))
    (fuel left right : ℕ) (enough : right - left ≤ fuel) (ordered : left ≤ right)
    (inside : right < hashRing.sortedHashes.length)
    (below : ∀ key ∈ hashRing.sortedHashes.take left, key < hash)
    (above : right + 1 = hashRing.sortedHashes.length ∨ hashRing.isBelow hash right = false) :
    let result := hashRing.search hash fuel left right
    result < hashRing.sortedHashes.length ∧
      (∀ key ∈ hashRing.sortedHashes.take result, key < hash) ∧
      (result + 1 = hashRing.sortedHashes.length ∨ hashRing.isBelow hash result = false) := by
  induction fuel generalizing left right with
  | zero =>
      have same : left = right := by omega
      subst same
      exact ⟨inside, below, above⟩
  | succ fuel ih =>
      rw [search]
      by_cases active : left < right
      · rw [if_pos active]
        have midInside : (left + right) / 2 < hashRing.sortedHashes.length := by omega
        by_cases smaller : hashRing.isBelow hash ((left + right) / 2) = true
        · simp only [smaller, if_true]
          refine ih _ right (by omega) (by omega) inside (fun key member => ?_) above
          obtain ⟨index, bound, rfl⟩ := List.mem_iff_getElem.mp member
          rw [List.length_take] at bound
          rw [List.getElem_take]
          have middle := (isBelow_iff midInside).mp smaller
          rcases Nat.lt_or_ge index ((left + right) / 2) with before | here
          · exact (List.pairwise_iff_getElem.mp ascending _ _ _ midInside before).trans middle
          · have last : index = (left + right) / 2 := by omega
            subst last
            exact middle
        · have notBelow : hashRing.isBelow hash ((left + right) / 2) = false := by
            simpa using smaller
          simp only [notBelow, Bool.false_eq_true, if_false]
          exact ih left _ (by omega) (by omega) midInside below (.inr notBelow)
      · rw [if_neg active]
        have same : left = right := by omega
        subst same
        exact ⟨inside, below, above⟩

/-- The search gives the first hash that is not below the chunk hash, or the start of the array when
all hashes are below it. -/
theorem findStartIndex_cases (ascending : hashRing.sortedHashes.Pairwise (· < ·)) (hash : Hash) :
    (hashRing.findStartIndex hash = 0 ∧ ∀ key ∈ hashRing.sortedHashes, key < hash) ∨
      ∃ inside : hashRing.findStartIndex hash < hashRing.sortedHashes.length,
        (∀ key ∈ hashRing.sortedHashes.take (hashRing.findStartIndex hash), key < hash) ∧
          hash ≤ hashRing.sortedHashes[hashRing.findStartIndex hash] := by
  unfold findStartIndex
  split
  · rename_i empty
    refine .inl ⟨rfl, fun key member => ?_⟩
    rw [List.length_eq_zero_iff.mp empty] at member
    cases member
  · rename_i nonempty
    have room : hashRing.sortedHashes.length - 1 - 0 ≤ hashRing.sortedHashes.length := by omega
    obtain ⟨inside, below, above⟩ := search_spec ascending
      hashRing.sortedHashes.length 0 (hashRing.sortedHashes.length - 1) room (by omega) (by omega)
      (by simp : ∀ key ∈ hashRing.sortedHashes.take 0, key < hash) (.inl (by omega))
    dsimp only
    generalize hashRing.search hash hashRing.sortedHashes.length 0
      (hashRing.sortedHashes.length - 1) = start at inside below above ⊢
    by_cases wraps : hashRing.isBelow hash start = true
    · rw [if_pos wraps]
      have last : start + 1 = hashRing.sortedHashes.length := by
        rcases above with last | notBelow
        · exact last
        · rw [notBelow] at wraps
          cases wraps
      refine .inl ⟨rfl, fun key member => ?_⟩
      have everything : hashRing.sortedHashes =
          hashRing.sortedHashes.take start ++ [hashRing.sortedHashes[start]] := by
        rw [← List.take_succ_eq_append_getElem inside, last, List.take_length]
      rw [everything, List.mem_append, List.mem_singleton] at member
      rcases member with earlier | rfl
      · exact below key earlier
      · exact (isBelow_iff inside).mp wraps
    · simp only [if_neg wraps]
      exact .inr ⟨inside, below, not_lt.mp fun smaller => wraps ((isBelow_iff inside).mpr smaller)⟩

/-- **The walk starts at the first hash that is not below the chunk hash.** -/
theorem rotate_findStartIndex {hash : Hash} (ascending : hashRing.sortedHashes.Pairwise (· < ·)) :
    hashRing.sortedHashes.rotate (hashRing.findStartIndex hash) =
      cyclicFrom hash hashRing.sortedHashes := by
  rcases findStartIndex_cases ascending hash with ⟨wraps, below⟩ | ⟨inside, below, first⟩
  · rw [wraps, List.rotate_zero, cyclicFrom_eq_self below]
  · refine (cyclicFrom_eq_rotate inside.le below fun key member => ?_).symm
    rw [List.drop_eq_getElem_cons inside, List.mem_cons] at member
    rcases member with rfl | later
    · exact first
    · have sorted : (hashRing.sortedHashes.drop (hashRing.findStartIndex hash)).Pairwise (· < ·) :=
        ascending.sublist (List.drop_sublist _ _)
      rw [List.drop_eq_getElem_cons inside, List.pairwise_cons] at sorted
      exact first.trans (sorted.1 key later).le

theorem findStartIndex_lt (ascending : hashRing.sortedHashes.Pairwise (· < ·)) (hash : Hash)
    (nonempty : hashRing.sortedHashes.length ≠ 0) :
    hashRing.findStartIndex hash < hashRing.sortedHashes.length := by
  rcases findStartIndex_cases ascending hash with ⟨wraps, _⟩ | ⟨inside, _⟩
  · rw [wraps]
    exact Nat.pos_of_ne_zero nonempty
  · exact inside

/-- **The walk collects distinct nodes**, whatever the ring is. -/
theorem nodup_walk (count : ℤ) (attempts currentIndex : ℕ) {selectedNodes : List NodeId}
    (distinct : selectedNodes.Nodup) :
    (hashRing.walk count attempts currentIndex selectedNodes).Nodup := by
  induction attempts generalizing currentIndex selectedNodes with
  | zero => exact distinct
  | succ attempts ih =>
      rw [walk]
      split
      · refine ih _ ?_
        split
        · split
          · exact distinct
          · rename_i fresh
            exact distinct.append (List.nodup_singleton _) (List.disjoint_singleton.mpr fresh)
        · exact distinct
      · exact distinct

theorem nodup_getNodes (chunkHash : Hash) (count : ℤ) :
    (hashRing.getNodes chunkHash count).Nodup := by
  unfold getNodes
  split
  · exact List.nodup_nil
  · exact nodup_walk _ _ _ List.nodup_nil

/-- **The walk collects nodes of the ring**, whatever the ring is. -/
theorem mem_ring_of_mem_walk {count : ℤ} {attempts currentIndex : ℕ} {selectedNodes : List NodeId}
    (inside : ∀ nodeId ∈ selectedNodes, ∃ entry ∈ hashRing.ring.rows, entry.2 = nodeId) :
    ∀ nodeId ∈ hashRing.walk count attempts currentIndex selectedNodes,
      ∃ entry ∈ hashRing.ring.rows, entry.2 = nodeId := by
  induction attempts generalizing currentIndex selectedNodes with
  | zero => exact inside
  | succ attempts ih =>
      rw [walk]
      split
      · refine ih ?_
        split
        · rename_i nodeId here
          split
          · exact inside
          · refine fun other member => (List.mem_append.mp member).elim (inside other) fun last => ?_
            obtain ⟨hash, _, entry, found, named⟩ : ∃ hash,
                hashRing.sortedHashes[currentIndex]? = some hash ∧ ∃ entry,
                  hashRing.ring.find? hash = some entry ∧
                    (if entry.2 = "" then none else some entry.2) = some nodeId := by
              simpa only [nodeAt, Option.bind_eq_bind, Option.bind_eq_some_iff] using here
            split at named
            · cases named
            · refine ⟨entry, (Table.find?_eq_some_iff.mp found).1, ?_⟩
              exact (Option.some.inj named).trans (List.mem_singleton.mp last).symm
        · exact inside
      · exact inside

theorem mem_ring_of_mem_getNodes {chunkHash : Hash} {count : ℤ} {nodeId : NodeId}
    (member : nodeId ∈ hashRing.getNodes chunkHash count) :
    ∃ entry ∈ hashRing.ring.rows, entry.2 = nodeId := by
  unfold getNodes at member
  split at member
  · cases member
  · exact mem_ring_of_mem_walk (fun _ none => absurd none List.not_mem_nil) nodeId member

/-- The walk collects the owners of the hashes it visits. -/
theorem walk_eq (count : ℤ) (attempts currentIndex : ℕ) (selectedNodes : List NodeId)
    (atMost : attempts ≤ hashRing.sortedHashes.length)
    (inside : currentIndex < hashRing.sortedHashes.length) :
    hashRing.walk count attempts currentIndex selectedNodes =
      collectDistinct count selectedNodes
        (((hashRing.sortedHashes.rotate currentIndex).take attempts).filterMap hashRing.owner) := by
  induction attempts generalizing currentIndex selectedNodes with
  | zero => rfl
  | succ attempts ih =>
      rw [take_rotate_succ inside atMost, walk]
      by_cases few : (selectedNodes.length : ℤ) < count
      · have next : (currentIndex + 1) % hashRing.sortedHashes.length <
            hashRing.sortedHashes.length := Nat.mod_lt _ (by omega)
        rw [if_pos few, ih _ _ (by omega) next, nodeAt_eq inside]
        cases owned : hashRing.owner hashRing.sortedHashes[currentIndex] with
        | none => rw [List.filterMap_cons_none owned]
        | some nodeId =>
            rw [List.filterMap_cons_some owned, collectDistinct, if_pos few]
      · rw [if_neg few, collectDistinct_of_le (not_lt.mp few)]

theorem owner_eq_some_iff {hash : Hash} {nodeId : NodeId} :
    hashRing.owner hash = some nodeId ↔ (hash, nodeId) ∈ hashRing.ring.rows ∧ nodeId ≠ "" := by
  unfold owner
  constructor
  · intro owned
    obtain ⟨entry, found, named⟩ := Option.bind_eq_some_iff.mp owned
    obtain ⟨member, same⟩ := Table.find?_eq_some_iff.mp found
    split at named
    · cases named
    · rename_i nonempty
      cases named
      exact ⟨same ▸ member, nonempty⟩
  · rintro ⟨member, nonempty⟩
    have found : hashRing.ring.find? hash = some (hash, nodeId) :=
      Table.find?_eq_some_iff.mpr ⟨member, rfl⟩
    rw [found]
    exact if_neg nonempty

/-- The nodes to prefer are all nodes that have a name. -/
theorem mem_preferenceList (inStep : hashRing.InStep) {chunkHash : Hash} {nodeId : NodeId} :
    nodeId ∈ hashRing.preferenceList chunkHash ↔
      nodeId ∈ hashRing.physicalNodes.rows ∧ nodeId ≠ "" := by
  simp only [preferenceList, List.mem_eraseDups, List.mem_filterMap, mem_cyclicFrom, inStep.values,
    owner_eq_some_iff]
  constructor
  · rintro ⟨hash, _, member, named⟩
    exact ⟨⟨_, member, rfl⟩, named⟩
  · rintro ⟨⟨entry, member, rfl⟩, named⟩
    exact ⟨entry.1, (inStep.keys entry.1).mpr (Table.key_mem_keys member), member, named⟩

/-- There are at most as many nodes to prefer as there are nodes. -/
theorem length_preferenceList_le (inStep : hashRing.InStep) (chunkHash : Hash) :
    (hashRing.preferenceList chunkHash).length ≤ hashRing.physicalNodes.rows.length := by
  apply (nodup_eraseDups _).length_le_of_subset
  exact fun nodeId member => ((mem_preferenceList inStep).mp member).1

/-- **`getNodes` returns the first so many nodes of the preference list.** -/
theorem getNodes_eq (inStep : hashRing.InStep) (chunkHash : Hash) (count : ℤ) :
    hashRing.getNodes chunkHash count = (hashRing.preferenceList chunkHash).take count.toNat := by
  have short := length_preferenceList_le inStep chunkHash
  unfold getNodes
  by_cases empty : hashRing.physicalNodes.rows.length = 0
  · have none : hashRing.preferenceList chunkHash = [] :=
      List.length_eq_zero_iff.mp (by omega)
    rw [if_pos empty, none, List.take_nil]
  · rw [if_neg empty]
    obtain ⟨nodeId, member⟩ := List.exists_mem_of_length_pos (Nat.pos_of_ne_zero empty)
    obtain ⟨entry, present, _⟩ := (inStep.values nodeId).mp member
    have listed := (inStep.keys entry.1).mpr (Table.key_mem_keys present)
    have nonempty : hashRing.sortedHashes.length ≠ 0 := (List.length_pos_of_mem listed).ne'
    have inside := findStartIndex_lt inStep.ascending chunkHash nonempty
    have whole : (hashRing.sortedHashes.rotate (hashRing.findStartIndex chunkHash)).take
        hashRing.sortedHashes.length = cyclicFrom chunkHash hashRing.sortedHashes := by
      rw [List.take_of_length_le (List.length_rotate _ _).le,
        rotate_findStartIndex inStep.ascending]
    rw [walk_eq _ _ _ _ le_rfl inside, whole, collectDistinct_nil]
    refine List.take_eq_take_iff.mpr ?_
    unfold preferenceList at short
    omega

/-- When all nodes have names, `getNodes` returns as many as there are, up to the count. -/
theorem length_getNodes (inStep : hashRing.InStep) (chunkHash : Hash) (count : ℤ)
    (named : ∀ nodeId ∈ hashRing.physicalNodes.rows, nodeId ≠ "") :
    (hashRing.getNodes chunkHash count).length =
      min count.toNat hashRing.physicalNodes.rows.length := by
  have all : hashRing.physicalNodes.rows.length ≤ (hashRing.preferenceList chunkHash).length := by
    apply hashRing.physicalNodes.nodup_rows.length_le_of_subset
    exact fun nodeId member => (mem_preferenceList inStep).mpr ⟨member, named nodeId member⟩
  have most := length_preferenceList_le inStep chunkHash
  rw [getNodes_eq inStep, List.length_take, Nat.le_antisymm most all]

theorem mem_of_mem_getNodes (inStep : hashRing.InStep) {chunkHash : Hash} {count : ℤ}
    {nodeId : NodeId} (member : nodeId ∈ hashRing.getNodes chunkHash count) :
    nodeId ∈ hashRing.physicalNodes.rows := by
  rw [getNodes_eq inStep] at member
  exact ((mem_preferenceList inStep).mp (List.mem_of_mem_take member)).1

end ConsistentHashRing

end DistributedFileStorage.Placement
