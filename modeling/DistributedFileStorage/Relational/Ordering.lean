import Mathlib.Data.List.Sort

/-!
# Ordered scans

`ORDER BY column` and a sort by the difference of a numeric column both arrange
rows by the value of an integer column. When the column takes distinct values on
the rows, the arrangement does not depend on the order the rows were scanned in
(`orderBy_eq_of_perm`), and it is strictly ascending in the column
(`strictlyAscending_orderBy`).
-/

set_option autoImplicit false

namespace DistributedFileStorage.Relational

variable {Row : Type}

/-- The rows in ascending order of a column. -/
def orderBy (column : Row → ℤ) (rows : List Row) : List Row :=
  rows.insertionSort fun first second => column first ≤ column second

/-- The rows in descending order of a column. -/
def orderByDesc (column : Row → ℤ) (rows : List Row) : List Row :=
  rows.insertionSort fun first second => column second ≤ column first

@[simp] theorem mem_orderBy {column : Row → ℤ} {rows : List Row} {row : Row} :
    row ∈ orderBy column rows ↔ row ∈ rows := List.mem_insertionSort _

@[simp] theorem mem_orderByDesc {column : Row → ℤ} {rows : List Row} {row : Row} :
    row ∈ orderByDesc column rows ↔ row ∈ rows := List.mem_insertionSort _

theorem perm_orderBy (column : Row → ℤ) (rows : List Row) : (orderBy column rows).Perm rows :=
  List.perm_insertionSort _ _

theorem perm_orderByDesc (column : Row → ℤ) (rows : List Row) :
    (orderByDesc column rows).Perm rows := List.perm_insertionSort _ _

theorem ascending_orderBy (column : Row → ℤ) (rows : List Row) :
    (orderBy column rows).Pairwise fun first second => column first ≤ column second := by
  have total : Std.Total fun first second : Row => column first ≤ column second :=
    ⟨fun first second => le_total _ _⟩
  have trans : IsTrans Row fun first second => column first ≤ column second :=
    ⟨fun _ _ _ => le_trans⟩
  exact List.pairwise_insertionSort _ _

/-- Distinct values of the column come out strictly ascending. -/
theorem strictlyAscending_orderBy {column : Row → ℤ} {rows : List Row}
    (distinct : (rows.map column).Nodup) :
    ((orderBy column rows).map column).Pairwise (· < ·) := by
  have nodup : ((orderBy column rows).map column).Nodup :=
    ((perm_orderBy column rows).map column).nodup_iff.mpr distinct
  have ascending : ((orderBy column rows).map column).Pairwise (· ≤ ·) :=
    List.pairwise_map.mpr (ascending_orderBy column rows)
  exact (ascending.and nodup).imp fun both => lt_of_le_of_ne both.1 both.2

/-- **The arrangement by a column with distinct values does not depend on the
order of the scan.** -/
theorem orderBy_eq_of_perm {column : Row → ℤ} {first second : List Row}
    (perm : first.Perm second) (distinct : (second.map column).Nodup) :
    orderBy column first = orderBy column second := by
  have distinctFirst : (first.map column).Nodup := (perm.map column).nodup_iff.mpr distinct
  have same : (orderBy column first).Perm (orderBy column second) :=
    ((perm_orderBy column first).trans perm).trans (perm_orderBy column second).symm
  have strict : ∀ rows : List Row, (rows.map column).Nodup →
      (orderBy column rows).Pairwise fun one other => column one < column other :=
    fun rows nodup => List.pairwise_map.mp (strictlyAscending_orderBy nodup)
  refine same.eq_of_pairwise ?_ (strict first distinctFirst) (strict second distinct)
  intro one other _ _ before after
  exact absurd (before.trans after) (lt_irrefl _)

end DistributedFileStorage.Relational
