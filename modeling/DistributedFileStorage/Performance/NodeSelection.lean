import DistributedFileStorage.Sequences.KnownMinimum
import DistributedFileStorage.Store.Records
import Mathlib.Algebra.Order.Field.Rat
import Mathlib.Tactic.Linarith

/-!
# The node to read a chunk from

`selectBestNode` leaves out the nodes that are too full, unless all of them are, and takes one with
the lowest latency of the rest. The latency of a node may be missing. The choice goes through the
nodes one by one and compares two latencies only when it has both. So a node without a latency that
comes first is chosen, whatever the latencies of the others are (`selectsLowestLatency_iff`).

A latency is an element of a linear order. It is a field of the record that the table of the storage
nodes does not have.
-/

set_option autoImplicit false

namespace DistributedFileStorage.Performance

open Sequences Store

variable {Latency : Type}

/-- The record of a storage node with the latency that its health metrics report. -/
structure MeasuredNode (Latency : Type) extends StorageNodeRecord where
  networkLatency : Option Latency := none
  deriving DecidableEq

/-- 80 percent. -/
def HIGH_CAPACITY_THRESHOLD : ℚ := 8 / 10

def filterHighCapacityNodes (nodes : List (MeasuredNode Latency)) : List (MeasuredNode Latency) :=
  let healthy := nodes.filter fun n =>
    n.capacity > 0 && (n.usedSpace : ℚ) / n.capacity < HIGH_CAPACITY_THRESHOLD
  -- all nodes, when all of them are too full
  if healthy.length > 0 then healthy else nodes

section Selection

variable [LinearOrder Latency]

def selectLowestLatencyNode (nodes : List (MeasuredNode Latency)) :
    Except Failure (MeasuredNode Latency) :=
  match nodes with
  | [] => .error (.error "No storage nodes available")
  | first :: rest => .ok (rest.foldl (fun best node =>
      match node.networkLatency, best.networkLatency with
      | some latency, some lowest => if latency < lowest then node else best
      | _, _ => best) first)

def selectBestNode (nodes : List (MeasuredNode Latency)) : Except Failure (MeasuredNode Latency) :=
  selectLowestLatencyNode (filterHighCapacityNodes nodes)

end Selection

/-! ## Candidates -/

/-- The node has a capacity, and less than four fifths of it are used. -/
def HasRoom (node : MeasuredNode Latency) : Prop :=
  0 < node.capacity ∧ 5 * node.usedSpace < 4 * node.capacity

instance : DecidablePred (HasRoom : MeasuredNode Latency → Prop) :=
  fun _ => inferInstanceAs (Decidable (_ ∧ _))

/-- The nodes that have room, or all nodes if none has. -/
def candidates (nodes : List (MeasuredNode Latency)) : List (MeasuredNode Latency) :=
  if ∃ node ∈ nodes, HasRoom node then nodes.filter fun node => HasRoom node else nodes

theorem usage_lt_iff {used capacity : ℕ} (positive : 0 < capacity) :
    (used : ℚ) / capacity < HIGH_CAPACITY_THRESHOLD ↔ 5 * used < 4 * capacity := by
  have room : (0 : ℚ) < capacity := Nat.cast_pos.mpr positive
  unfold HIGH_CAPACITY_THRESHOLD
  rw [div_lt_iff₀ room]
  constructor
  · intro below
    have scaled : (5 * used : ℚ) < 4 * capacity := by linarith
    exact_mod_cast scaled
  · intro below
    have scaled : (5 * used : ℚ) < 4 * capacity := by exact_mod_cast below
    linarith

theorem filterHighCapacityNodes_eq (nodes : List (MeasuredNode Latency)) :
    filterHighCapacityNodes nodes = candidates nodes := by
  have healthy : (nodes.filter fun n =>
      n.capacity > 0 && (n.usedSpace : ℚ) / n.capacity < HIGH_CAPACITY_THRESHOLD) =
        nodes.filter fun node => HasRoom node := by
    apply List.filter_congr
    intro node _
    by_cases positive : 0 < node.capacity
    · simp [HasRoom, positive, usage_lt_iff positive]
    · simp [HasRoom, positive]
  unfold filterHighCapacityNodes candidates
  rw [healthy]
  simp only [List.length_pos_iff_exists_mem, List.mem_filter, decide_eq_true_eq]

theorem candidates_ne_nil {nodes : List (MeasuredNode Latency)} (nonempty : nodes ≠ []) :
    candidates nodes ≠ [] := by
  unfold candidates
  split
  · rename_i roomy
    obtain ⟨node, member, room⟩ := roomy
    exact List.ne_nil_of_mem (List.mem_filter.mpr ⟨member, decide_eq_true room⟩)
  · exact nonempty

/-! ## The choice -/

section Selection

variable [LinearOrder Latency]

/-- **The chosen node is a candidate**, and has the lowest known latency exactly when the latency
of the first candidate is known, or that of no candidate. -/
theorem selectsLowestLatency_iff (nodes : List (MeasuredNode Latency)) (nonempty : nodes ≠ []) :
    ∃ selected, selectBestNode nodes = .ok selected ∧ selected ∈ candidates nodes ∧
      (KnownMinimum MeasuredNode.networkLatency (candidates nodes) selected ↔
        (∀ first ∈ (candidates nodes).head?, first.networkLatency.isSome) ∨
          ∀ node ∈ candidates nodes, node.networkLatency = none) := by
  unfold selectBestNode
  rw [filterHighCapacityNodes_eq]
  obtain ⟨first, rest, split⟩ := List.exists_cons_of_ne_nil (candidates_ne_nil nonempty)
  rw [split]
  refine ⟨rest.foldl (improve MeasuredNode.networkLatency) first, rfl, mem_reduce first rest, ?_⟩
  rw [knownMinimum_reduce_iff]
  simp

end Selection

/-- A node of a capacity of ten bytes. -/
def nodeOf (nodeId : NodeId) (usedSpace : ℕ) (networkLatency : Option ℕ) : MeasuredNode ℕ where
  nodeId := nodeId
  ipAddress := "127.0.0.1"
  port := 8080
  availabilityZone := "us-east-1a"
  region := "us-east-1"
  capacity := 10
  usedSpace := usedSpace
  status := .active
  registeredAt := 0
  lastHeartbeat := 0
  networkLatency := networkLatency

/-- The node that is too full comes first, and is no candidate. -/
theorem selectsLowestLatency_fullFirst :
    ∃ selected, selectBestNode [nodeOf "full" 9 none, nodeOf "near" 0 (some 5),
        nodeOf "silent" 0 none, nodeOf "nearest" 7 (some 3)] = .ok selected ∧
      KnownMinimum MeasuredNode.networkLatency (candidates [nodeOf "full" 9 none,
        nodeOf "near" 0 (some 5), nodeOf "silent" 0 none, nodeOf "nearest" 7 (some 3)])
          selected := by
  obtain ⟨selected, selects, _, lowest⟩ := selectsLowestLatency_iff
    [nodeOf "full" 9 none, nodeOf "near" 0 (some 5), nodeOf "silent" 0 none,
      nodeOf "nearest" 7 (some 3)] (List.cons_ne_nil _ _)
  exact ⟨selected, selects, lowest.mpr (.inl (by decide +kernel))⟩

/-- **A node without a latency that comes first is chosen**, although the other node has one. -/
theorem selects_unknownLatency :
    selectBestNode [nodeOf "silent" 0 none, nodeOf "near" 0 (some 5)] =
        .ok (nodeOf "silent" 0 none) ∧
      candidates [nodeOf "silent" 0 none, nodeOf "near" 0 (some 5)] =
        [nodeOf "silent" 0 none, nodeOf "near" 0 (some 5)] ∧
      ¬ KnownMinimum MeasuredNode.networkLatency
        (candidates [nodeOf "silent" 0 none, nodeOf "near" 0 (some 5)])
          (nodeOf "silent" 0 none) := by
  refine ⟨by decide +kernel, by decide +kernel, fun lowest => ?_⟩
  obtain ⟨value, known, _⟩ :=
    lowest.least ⟨nodeOf "near" 0 (some 5), by decide +kernel, by decide +kernel⟩
  cases known

end DistributedFileStorage.Performance
