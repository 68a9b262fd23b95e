import Mathlib.Data.List.Nodup
import Mathlib.Algebra.BigOperators.Group.List.Basic
import Mathlib.Algebra.GroupWithZero.Nat

/-!
# Tables with a primary key

A table is a list of rows no two of which have the same key. The list is the
order in which a scan without `ORDER BY` returns the rows; the key is a function
of the row, so a composite key is a key in a product.

The distinctness of the keys is a field of the table. The four operations below
(insert unless the key is taken, insert or replace, change rows without changing
their keys, delete the rows of a predicate) are the statements a database runs
on one table, and each keeps the field. A map that remembers the order of its
insertions is the table of its pairs under the first projection.

The last section gives the arithmetic of sums over the rows: what each operation
does to a sum is what it does to the rows it touches.
-/

set_option autoImplicit false

namespace DistributedFileStorage.Relational

variable {Key Row : Type} {key : Row → Key}

/-- A list of rows with distinct keys. -/
@[ext] structure Table (key : Row → Key) where
  rows : List Row
  distinct : (rows.map key).Nodup

namespace Table

/-- The table without rows. -/
def empty (key : Row → Key) : Table key := ⟨[], List.nodup_nil⟩

/-- The keys in use, in the order of the rows. -/
def keys (table : Table key) : List Key := table.rows.map key

@[simp] theorem rows_empty : (empty key).rows = [] := rfl

@[simp] theorem keys_empty : (empty key).keys = [] := rfl

theorem mem_keys {table : Table key} {k : Key} :
    k ∈ table.keys ↔ ∃ row ∈ table.rows, key row = k := List.mem_map

theorem key_mem_keys {table : Table key} {row : Row} (member : row ∈ table.rows) :
    key row ∈ table.keys := List.mem_map_of_mem member

/-- Two rows with the same key are the same row. -/
theorem eq_of_key_eq {table : Table key} {first second : Row} (memberFirst : first ∈ table.rows)
    (memberSecond : second ∈ table.rows) (same : key first = key second) : first = second :=
  List.inj_on_of_nodup_map table.distinct memberFirst memberSecond same

theorem nodup_rows (table : Table key) : table.rows.Nodup := List.Nodup.of_map _ table.distinct

/-! ## Operations -/

/-- Delete the rows of a predicate. -/
def deleteWhere (table : Table key) (doomed : Row → Bool) : Table key where
  rows := table.rows.filter fun row => !doomed row
  distinct := table.distinct.sublist (List.filter_sublist.map key)

/-- Change rows without changing their keys. -/
def mapRows (table : Table key) (change : Row → Row) (keeps : ∀ row, key (change row) = key row) :
    Table key where
  rows := table.rows.map change
  distinct := by
    have same : (table.rows.map change).map key = table.rows.map key := by
      simp only [List.map_map, Function.comp_def, keeps]
    rw [same]
    exact table.distinct

variable [DecidableEq Key]

/-- The row with a key. -/
def find? (table : Table key) (k : Key) : Option Row :=
  table.rows.find? fun row => key row = k

/-- Insert a row unless its key is taken. -/
def insertIfAbsent (table : Table key) (row : Row) : Table key :=
  if taken : key row ∈ table.keys then table
  else
    { rows := table.rows ++ [row]
      distinct := by
        rw [List.map_append, List.map_singleton, ← List.concat_eq_append]
        exact table.distinct.concat taken }

/-- Delete the row with a key. -/
def delete (table : Table key) (k : Key) : Table key := table.deleteWhere fun row => key row = k

/-- Change the row with a key. -/
def update (table : Table key) (k : Key) (change : Row → Row)
    (keeps : ∀ row, key (change row) = key row) : Table key :=
  table.mapRows (fun row => if key row = k then change row else row) fun row => by
    split
    · exact keeps row
    · rfl

/-- Insert a row, or replace the row with its key. -/
def upsert (table : Table key) (row : Row) : Table key :=
  if key row ∈ table.keys then
    { rows := table.rows.map fun old => if key old = key row then row else old
      distinct := by
        have same : (table.rows.map fun old => if key old = key row then row else old).map key =
            table.rows.map key := by
          rw [List.map_map]
          apply List.map_congr_left
          intro old _
          by_cases here : key old = key row
          · simp [here]
          · simp [here]
        rw [same]
        exact table.distinct }
  else table.insertIfAbsent row

/-- In a list without two rows of one key, the rows with the key of a row are that row. -/
theorem filter_key_eq_singleton {rows : List Row} {row : Row} (distinct : (rows.map key).Nodup)
    (member : row ∈ rows) : rows.filter (fun other => key other = key row) = [row] := by
  refine List.perm_singleton.mp ((List.perm_ext_iff_of_nodup
    ((List.Nodup.of_map key distinct).filter _) (List.nodup_singleton row)).mpr fun other => ?_)
  rw [List.mem_filter, List.mem_singleton, decide_eq_true_eq]
  constructor
  · exact fun both => List.inj_on_of_nodup_map distinct both.1 member both.2
  · rintro rfl
    exact ⟨member, rfl⟩

/-! ## Rows and keys after an operation -/

omit [DecidableEq Key] in
@[simp] theorem mem_deleteWhere {table : Table key} {doomed : Row → Bool} {row : Row} :
    row ∈ (table.deleteWhere doomed).rows ↔ row ∈ table.rows ∧ doomed row = false := by
  simp [deleteWhere]

omit [DecidableEq Key] in
@[simp] theorem keys_mapRows {table : Table key} {change : Row → Row}
    {keeps : ∀ row, key (change row) = key row} :
    (table.mapRows change keeps).keys = table.keys := by
  simp only [keys, mapRows, List.map_map, Function.comp_def, keeps]

@[simp] theorem keys_update {table : Table key} {k : Key} {change : Row → Row}
    {keeps : ∀ row, key (change row) = key row} :
    (table.update k change keeps).keys = table.keys := keys_mapRows

@[simp] theorem mem_delete {table : Table key} {k : Key} {row : Row} :
    row ∈ (table.delete k).rows ↔ row ∈ table.rows ∧ key row ≠ k := by
  simp [delete]

theorem mem_keys_delete {table : Table key} {k other : Key} :
    other ∈ (table.delete k).keys ↔ other ∈ table.keys ∧ other ≠ k := by
  simp only [mem_keys, mem_delete]
  constructor
  · rintro ⟨row, ⟨member, different⟩, rfl⟩
    exact ⟨⟨row, member, rfl⟩, different⟩
  · rintro ⟨⟨row, member, rfl⟩, different⟩
    exact ⟨row, ⟨member, different⟩, rfl⟩

theorem insertIfAbsent_of_taken {table : Table key} {row : Row} (taken : key row ∈ table.keys) :
    table.insertIfAbsent row = table := by
  rw [insertIfAbsent, dif_pos taken]

theorem rows_insertIfAbsent {table : Table key} {row : Row} (absent : key row ∉ table.keys) :
    (table.insertIfAbsent row).rows = table.rows ++ [row] := by
  rw [insertIfAbsent, dif_neg absent]

theorem mem_insertIfAbsent {table : Table key} {row other : Row} :
    other ∈ (table.insertIfAbsent row).rows ↔
      other ∈ table.rows ∨ key row ∉ table.keys ∧ other = row := by
  by_cases taken : key row ∈ table.keys
  · simp [insertIfAbsent_of_taken taken, taken]
  · simp [rows_insertIfAbsent taken, taken]

@[simp] theorem mem_keys_insertIfAbsent {table : Table key} {row : Row} {k : Key} :
    k ∈ (table.insertIfAbsent row).keys ↔ k ∈ table.keys ∨ k = key row := by
  by_cases taken : key row ∈ table.keys
  · rw [insertIfAbsent_of_taken taken]
    exact ⟨.inl, fun either => either.elim id fun same => same ▸ taken⟩
  · simp [keys, rows_insertIfAbsent taken]

/-! ## Lookups -/

theorem find?_eq_some_iff {table : Table key} {k : Key} {row : Row} :
    table.find? k = some row ↔ row ∈ table.rows ∧ key row = k := by
  constructor
  · intro found
    exact ⟨List.mem_of_find?_eq_some found, by simpa using List.find?_some found⟩
  · rintro ⟨member, rfl⟩
    cases found : table.find? (key row) with
    | none =>
        have never := List.find?_eq_none.mp found row member
        simp at never
    | some other =>
        have same : key other = key row := by simpa using List.find?_some found
        rw [eq_of_key_eq (List.mem_of_find?_eq_some found) member same]

theorem find?_key {table : Table key} {row : Row} (member : row ∈ table.rows) :
    table.find? (key row) = some row := find?_eq_some_iff.mpr ⟨member, rfl⟩

theorem find?_eq_none_iff {table : Table key} {k : Key} :
    table.find? k = none ↔ k ∉ table.keys := by
  simp [find?, List.find?_eq_none, mem_keys]

theorem isSome_find?_iff {table : Table key} {k : Key} :
    (table.find? k).isSome ↔ k ∈ table.keys := by
  rw [← not_iff_not, ← find?_eq_none_iff]
  simp

/-- A lookup that finds a row of the table by its key finds that row; a table is
determined by its rows, so this is how lookups are computed after an operation. -/
theorem find?_congr {table : Table key} {other : Table key} {k : Key}
    (same : ∀ row, key row = k → (row ∈ table.rows ↔ row ∈ other.rows)) :
    table.find? k = other.find? k := by
  apply Option.ext
  intro row
  rw [find?_eq_some_iff, find?_eq_some_iff]
  constructor
  · rintro ⟨member, here⟩
    exact ⟨(same row here).mp member, here⟩
  · rintro ⟨member, here⟩
    exact ⟨(same row here).mpr member, here⟩

theorem find?_mapRows {table : Table key} {change : Row → Row}
    {keeps : ∀ row, key (change row) = key row} {k : Key} :
    (table.mapRows change keeps).find? k = (table.find? k).map change := by
  unfold find? mapRows
  rw [List.find?_map]
  simp only [Function.comp_def, keeps]

theorem find?_update_self {table : Table key} {k : Key} {change : Row → Row}
    {keeps : ∀ row, key (change row) = key row} :
    (table.update k change keeps).find? k = (table.find? k).map change := by
  rw [update, find?_mapRows]
  cases found : table.find? k with
  | none => rfl
  | some row =>
      have here := (find?_eq_some_iff.mp found).2
      simp [here]

theorem find?_update_of_ne {table : Table key} {k other : Key} {change : Row → Row}
    {keeps : ∀ row, key (change row) = key row} (different : other ≠ k) :
    (table.update k change keeps).find? other = table.find? other := by
  rw [update, find?_mapRows]
  cases found : table.find? other with
  | none => rfl
  | some row =>
      have here := (find?_eq_some_iff.mp found).2
      simp [here, different]

theorem find?_delete_self {table : Table key} {k : Key} : (table.delete k).find? k = none := by
  rw [find?_eq_none_iff, mem_keys_delete]
  exact fun member => member.2 rfl

theorem find?_delete_of_ne {table : Table key} {k other : Key} (different : other ≠ k) :
    (table.delete k).find? other = table.find? other :=
  find?_congr fun row here => by
    rw [mem_delete]
    exact ⟨And.left, fun member => ⟨member, fun same => different (here.symm.trans same)⟩⟩

theorem find?_insertIfAbsent_self {table : Table key} {row : Row}
    (absent : key row ∉ table.keys) : (table.insertIfAbsent row).find? (key row) = some row := by
  rw [find?_eq_some_iff, mem_insertIfAbsent]
  exact ⟨.inr ⟨absent, rfl⟩, rfl⟩

theorem find?_insertIfAbsent_of_ne {table : Table key} {row : Row} {k : Key}
    (different : k ≠ key row) : (table.insertIfAbsent row).find? k = table.find? k :=
  find?_congr fun other here => by
    rw [mem_insertIfAbsent]
    constructor
    · rintro (member | ⟨_, rfl⟩)
      · exact member
      · exact absurd here.symm different
    · exact .inl

theorem find?_upsert_self {table : Table key} {row : Row} :
    (table.upsert row).find? (key row) = some row := by
  by_cases taken : key row ∈ table.keys
  · obtain ⟨old, member, same⟩ := mem_keys.mp taken
    rw [find?_eq_some_iff, upsert, if_pos taken]
    exact ⟨List.mem_map.mpr ⟨old, member, if_pos same⟩, rfl⟩
  · rw [upsert, if_neg taken]
    exact find?_insertIfAbsent_self taken

theorem find?_upsert_of_ne {table : Table key} {row : Row} {k : Key} (different : k ≠ key row) :
    (table.upsert row).find? k = table.find? k := by
  by_cases taken : key row ∈ table.keys
  · refine find?_congr fun other here => ?_
    rw [upsert, if_pos taken]
    simp only [List.mem_map]
    constructor
    · rintro ⟨old, member, rfl⟩
      by_cases same : key old = key row
      · rw [if_pos same] at here
        exact absurd here.symm different
      · rwa [if_neg same]
    · intro member
      exact ⟨other, member, if_neg fun same => different (here.symm.trans same)⟩
  · rw [upsert, if_neg taken]
    exact find?_insertIfAbsent_of_ne different

theorem mem_keys_upsert {table : Table key} {row : Row} {k : Key} :
    k ∈ (table.upsert row).keys ↔ k ∈ table.keys ∨ k = key row := by
  rw [← isSome_find?_iff, ← isSome_find?_iff]
  by_cases same : k = key row
  · subst same
    simp [find?_upsert_self]
  · simp [find?_upsert_of_ne same, same]

theorem mem_upsert {table : Table key} {row other : Row} :
    other ∈ (table.upsert row).rows ↔ other = row ∨ other ∈ table.rows ∧ key other ≠ key row := by
  by_cases same : key other = key row
  · have here : other ∈ (table.upsert row).rows ↔ other = row := by
      constructor
      · intro member
        have found := find?_eq_some_iff.mpr ⟨member, same⟩
        rw [find?_upsert_self] at found
        exact (Option.some.inj found).symm
      · rintro rfl
        exact (find?_eq_some_iff.mp find?_upsert_self).1
    simp [here, same]
  · have different : other ≠ row := fun equal => same (equal ▸ rfl)
    have kept : (table.upsert row).find? (key other) = table.find? (key other) :=
      find?_upsert_of_ne same
    have member : ∀ some : Table key, other ∈ some.rows ↔ some.find? (key other) = .some other :=
      fun some => ⟨find?_key, fun found => (find?_eq_some_iff.mp found).1⟩
    rw [member, kept, ← member]
    simp [same, different]

/-- Deleting a list of keys. -/
theorem mem_foldl_delete {table : Table key} {doomed : List Key} {row : Row} :
    row ∈ (doomed.foldl delete table).rows ↔ row ∈ table.rows ∧ key row ∉ doomed := by
  induction doomed generalizing table with
  | nil => simp
  | cons k rest ih => rw [List.foldl_cons, ih, mem_delete, List.mem_cons, not_or, and_assoc]

/-! ## Sums over the rows -/

/-- Inserting a row adds its summand. -/
theorem sum_insertIfAbsent {table : Table key} {row : Row} (absent : key row ∉ table.keys)
    (summand : Row → ℕ) :
    ((table.insertIfAbsent row).rows.map summand).sum =
      (table.rows.map summand).sum + summand row := by
  rw [rows_insertIfAbsent absent]
  simp

omit [DecidableEq Key] in
/-- Deleting rows takes their summands away. -/
theorem sum_deleteWhere_add (table : Table key) (doomed : Row → Bool) (summand : Row → ℕ) :
    ((table.deleteWhere doomed).rows.map summand).sum +
        ((table.rows.filter doomed).map summand).sum = (table.rows.map summand).sum := by
  have perm := (List.filter_append_perm doomed table.rows).map summand
  rw [← perm.sum_eq, List.map_append, List.sum_append, Nat.add_comm]
  rfl

/-- A table is a row and the rest. -/
theorem perm_cons_delete {table : Table key} {row : Row} (member : row ∈ table.rows) :
    table.rows.Perm (row :: (table.delete (key row)).rows) := by
  refine (List.perm_ext_iff_of_nodup table.nodup_rows ?_).mpr fun other => ?_
  · refine List.nodup_cons.mpr ⟨fun still => ?_, (table.delete (key row)).nodup_rows⟩
    exact (mem_delete.mp still).2 rfl
  · rw [List.mem_cons, mem_delete]
    constructor
    · intro here
      by_cases same : key other = key row
      · exact .inl (eq_of_key_eq here member same)
      · exact .inr ⟨here, same⟩
    · rintro (rfl | ⟨here, _⟩)
      · exact member
      · exact here

/-- The rows with one key are one row. -/
theorem sum_ite_key {table : Table key} {row : Row} (member : row ∈ table.rows)
    (summand : Row → ℕ) :
    (table.rows.map fun other => if key other = key row then summand other else 0).sum =
      summand row := by
  have rest : (table.delete (key row)).rows.map (fun other =>
      if key other = key row then summand other else 0) =
      (table.delete (key row)).rows.map fun _ => 0 :=
    List.map_congr_left fun other kept => if_neg (mem_delete.mp kept).2
  rw [((perm_cons_delete member).map _).sum_eq, List.map_cons, List.sum_cons, if_pos rfl, rest]
  simp

/-- Changing a row leaves the rest. -/
theorem perm_update {table : Table key} {row : Row} (member : row ∈ table.rows)
    {change : Row → Row} {keeps : ∀ row, key (change row) = key row} :
    (table.update (key row) change keeps).rows.Perm
      (change row :: (table.delete (key row)).rows) := by
  have mapped := (perm_cons_delete member).map fun other =>
    if key other = key row then change other else other
  have rest : (table.delete (key row)).rows.map (fun other =>
      if key other = key row then change other else other) = (table.delete (key row)).rows := by
    refine (List.map_congr_left fun other kept => ?_).trans (List.map_id _)
    exact if_neg (mem_delete.mp kept).2
  rwa [List.map_cons, if_pos rfl, rest] at mapped

/-- Deleting a row takes its summand away. -/
theorem sum_delete_add {table : Table key} {row : Row} (member : row ∈ table.rows)
    (summand : Row → ℕ) :
    ((table.delete (key row)).rows.map summand).sum + summand row =
      (table.rows.map summand).sum := by
  rw [((perm_cons_delete member).map summand).sum_eq, List.map_cons, List.sum_cons, Nat.add_comm]

end Table

end DistributedFileStorage.Relational
