import DistributedFileStorage.Relational.Table
import Mathlib.Order.Lattice

/-!
# Tables by recency

A cache can keep the time of the last use in each of its rows, or keep its rows in the order of
these times. The second is the rows of the first, the latest in front (`ByRecency`), and the
module says what the operations on a table are on the list: a deletion is a filter, and a row
that is used at a later time than all others goes to the front. The row to evict is the last
one.
-/

set_option autoImplicit false

namespace DistributedFileStorage.Caching

open Relational

variable {Key Row Time : Type} {key : Row → Key} [LinearOrder Time] {stamp : Row → Time}

/-- The rows of a table, the one that was used last in front. -/
structure ByRecency (stamp : Row → Time) (table : Table key) (rows : List Row) : Prop where
  perm : rows.Perm table.rows
  descending : rows.Pairwise fun recent older => stamp older < stamp recent

namespace ByRecency

variable {table : Table key} {rows : List Row} {row : Row}

theorem empty : ByRecency stamp (Table.empty key) [] := ⟨.refl [], .nil⟩

theorem distinct (recency : ByRecency stamp table rows) : (rows.map key).Nodup :=
  (recency.perm.map key).nodup_iff.mpr table.distinct

variable [DecidableEq Key]

theorem find?_eq (recency : ByRecency stamp table rows) (k : Key) :
    rows.find? (fun row => key row = k) = table.find? k := by
  have listed : (⟨rows, recency.distinct⟩ : Table key).find? k = table.find? k :=
    Table.find?_congr fun row _ => recency.perm.mem_iff
  exact listed

theorem filter_key_eq (recency : ByRecency stamp table rows) (member : row ∈ table.rows) :
    rows.filter (fun other => key other = key row) = [row] :=
  Table.filter_key_eq_singleton recency.distinct (recency.perm.mem_iff.mpr member)

theorem delete (recency : ByRecency stamp table rows) (k : Key) :
    ByRecency stamp (table.delete k) (rows.filter fun row => key row ≠ k) where
  perm := by
    have deleted : (table.delete k).rows = table.rows.filter fun row => !decide (key row = k) := rfl
    simp only [decide_not, deleted]
    exact recency.perm.filter _
  descending := recency.descending.filter _

/-- Using a row moves it to the front. -/
theorem update (recency : ByRecency stamp table rows) (member : row ∈ table.rows)
    {change : Row → Row} {keeps : ∀ row, key (change row) = key row}
    (latest : ∀ other ∈ table.rows, stamp other < stamp (change row)) :
    ByRecency stamp (table.update (key row) change keeps)
      (change row :: rows.filter fun other => key other ≠ key row) where
  perm := ((recency.delete (key row)).perm.cons _).trans (Table.perm_update member).symm
  descending := by
    refine List.pairwise_cons.mpr ⟨fun other kept => ?_, recency.descending.filter _⟩
    exact latest other (recency.perm.mem_iff.mp (List.mem_filter.mp kept).1)

/-- A new row goes to the front. -/
theorem upsert (recency : ByRecency stamp table rows) (absent : key row ∉ table.keys)
    (latest : ∀ other ∈ table.rows, stamp other < stamp row) :
    ByRecency stamp (table.upsert row) (row :: rows) where
  perm := by
    rw [Table.upsert, if_neg absent, Table.rows_insertIfAbsent absent]
    exact (recency.perm.cons row).trans (List.perm_append_singleton row table.rows).symm
  descending := by
    refine List.pairwise_cons.mpr ⟨fun other kept => ?_, recency.descending⟩
    exact latest other (recency.perm.mem_iff.mp kept)

/-- Deleting the last row leaves the others. -/
theorem delete_last (recency : ByRecency stamp table rows) {earlier : List Row}
    (split : rows = earlier ++ [row]) : ByRecency stamp (table.delete (key row)) earlier := by
  have deleted := recency.delete (key row)
  have distinct := recency.distinct
  rw [split] at deleted distinct
  have kept : (earlier ++ [row]).filter (fun other => key other ≠ key row) = earlier := by
    rw [List.filter_append, List.filter_eq_self.mpr fun other member => ?_]
    · simp
    · rw [List.map_append] at distinct
      have apart := (List.nodup_append.mp distinct).2.2 (key other) (List.mem_map_of_mem member)
        (key row) (by simp)
      simpa using apart
  rwa [kept] at deleted

end ByRecency

end DistributedFileStorage.Caching
