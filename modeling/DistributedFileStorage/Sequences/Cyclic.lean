import Mathlib.Data.List.Rotate
import Mathlib.Data.Int.Order.Basic
import Mathlib.Order.Lattice

/-!
# Walks around a sorted cycle

A walk around a cycle of keys starts at the first key that is not below a target and
goes on past the end to the keys below it. On a list of keys this is a rearrangement
of the list (`cyclicFrom`), and it commutes with leaving out keys (`cyclicFrom_filter`).
An index that splits the keys at the target gives the same walk as a rotation.

A walk that picks up distinct values until it has enough of them ends with an initial
segment of the list of first occurrences (`collectDistinct_nil`). Leaving a value out of
the walk leaves it out of the first occurrences, so the picks of the two walks differ by
that value only.
-/

set_option autoImplicit false

namespace DistributedFileStorage.Sequences

/-! ## The rearrangement -/

section Cyclic

variable {Key : Type} [LinearOrder Key]

/-- The keys that are not below the target, and then the keys below it. -/
def cyclicFrom (target : Key) (keys : List Key) : List Key :=
  (keys.filter fun key => target ≤ key) ++ keys.filter fun key => key < target

theorem mem_cyclicFrom {target key : Key} {keys : List Key} :
    key ∈ cyclicFrom target keys ↔ key ∈ keys := by
  rw [cyclicFrom, List.mem_append, List.mem_filter, List.mem_filter, ← and_or_left]
  simp [le_or_gt]

/-- **Leaving out keys before or after the rearrangement is the same.** -/
theorem cyclicFrom_filter (target : Key) (keys : List Key) (keep : Key → Bool) :
    cyclicFrom target (keys.filter keep) = (cyclicFrom target keys).filter keep := by
  unfold cyclicFrom
  rw [List.filter_append]
  congr 1
  · exact List.filter_comm _ _ keys
  · exact List.filter_comm _ _ keys

/-- An index that splits the keys at the target. -/
theorem cyclicFrom_eq_rotate {target : Key} {keys : List Key} {index : ℕ}
    (inside : index ≤ keys.length) (below : ∀ key ∈ keys.take index, key < target)
    (above : ∀ key ∈ keys.drop index, target ≤ key) :
    cyclicFrom target keys = keys.rotate index := by
  have first : (keys.take index).filter (fun key => target ≤ key) = [] :=
    List.filter_eq_nil_iff.mpr fun key member => by simpa using below key member
  have second : (keys.drop index).filter (fun key => target ≤ key) = keys.drop index :=
    List.filter_eq_self.mpr fun key member => by simpa using above key member
  have third : (keys.take index).filter (fun key => key < target) = keys.take index :=
    List.filter_eq_self.mpr fun key member => by simpa using below key member
  have fourth : (keys.drop index).filter (fun key => key < target) = [] :=
    List.filter_eq_nil_iff.mpr fun key member => by simpa using above key member
  calc cyclicFrom target keys
      = cyclicFrom target (keys.take index ++ keys.drop index) := by rw [List.take_append_drop]
    _ = keys.drop index ++ keys.take index := by
      simp only [cyclicFrom, List.filter_append, first, second, third, fourth, List.nil_append,
        List.append_nil]
    _ = keys.rotate index := (List.rotate_eq_drop_append_take inside).symm

/-- When every key is below the target the walk starts at the first one. -/
theorem cyclicFrom_eq_self {target : Key} {keys : List Key}
    (below : ∀ key ∈ keys, key < target) : cyclicFrom target keys = keys := by
  have whole : cyclicFrom target keys = keys.rotate keys.length := by
    refine cyclicFrom_eq_rotate le_rfl (fun key member => ?_) fun key member => ?_
    · exact below key (List.mem_of_mem_take member)
    · rw [List.drop_length] at member
      cases member
  rw [whole, List.rotate_length]

end Cyclic

/-- The rotation by an index inside the list starts with the entry there and goes on
with the entries after it. -/
theorem rotate_eq_cons {α : Type} {items : List α} {index : ℕ} (inside : index < items.length) :
    items.rotate index = items[index] :: (items.drop (index + 1) ++ items.take index) := by
  rw [List.rotate_eq_drop_append_take inside.le, List.drop_eq_getElem_cons inside, List.cons_append]

/-- The next step of a walk around a list: the entries but the last one that the
rotation by an index gives after its first entry are those of the next rotation. -/
theorem take_rotate_succ {α : Type} {items : List α} {index steps : ℕ}
    (inside : index < items.length) (fewer : steps < items.length) :
    (items.rotate index).take (steps + 1) =
      items[index] :: (items.rotate ((index + 1) % items.length)).take steps := by
  rw [List.rotate_mod, rotate_eq_cons inside, List.take_succ_cons,
    List.rotate_eq_drop_append_take (Nat.succ_le_of_lt inside)]
  have initial : items.take (index + 1) = items.take index ++ [items[index]] :=
    List.take_succ_eq_append_getElem inside
  have room : steps ≤ (items.drop (index + 1) ++ items.take index).length := by
    rw [List.length_append, List.length_drop, List.length_take]
    omega
  rw [initial, ← List.append_assoc, List.take_append_of_le_length room]

/-! ## First occurrences -/

section Distinct

variable {α : Type} [DecidableEq α]

/-- Leaving out values before or after erasing repetitions is the same. -/
theorem eraseDups_filter (keep : α → Bool) (items : List α) :
    (items.filter keep).eraseDups = items.eraseDups.filter keep := by
  induction count : items.length using Nat.strong_induction_on generalizing items with
  | h length ih =>
      cases items with
      | nil => rfl
      | cons item rest =>
          have shorter : (rest.filter fun other => !other == item).length < length := by
            rw [← count]
            exact Nat.lt_succ_of_le (List.length_filter_le _ _)
          have later := ih _ shorter (rest.filter fun other => !other == item) rfl
          rw [List.eraseDups_cons]
          by_cases kept : keep item = true
          · rw [List.filter_cons_of_pos kept, List.filter_cons_of_pos kept, List.eraseDups_cons,
              List.filter_comm, later]
          · rw [List.filter_cons_of_neg kept, List.filter_cons_of_neg kept, ← later,
              List.filter_filter]
            congr 1
            apply List.filter_congr
            intro other _
            by_cases same : other = item
            · subst same
              simp [kept]
            · simp [same]

theorem nodup_eraseDups (items : List α) : items.eraseDups.Nodup := by
  induction count : items.length using Nat.strong_induction_on generalizing items with
  | h length ih =>
      cases items with
      | nil => exact List.nodup_nil
      | cons item rest =>
          have shorter : (rest.filter fun other => !other == item).length < length := by
            rw [← count]
            exact Nat.lt_succ_of_le (List.length_filter_le _ _)
          rw [List.eraseDups_cons, List.nodup_cons]
          refine ⟨fun again => ?_, ih _ shorter _ rfl⟩
          simp [List.mem_eraseDups] at again

/-- Pick up the values that have not been picked up yet, until there are enough. -/
def collectDistinct (count : ℤ) : List α → List α → List α
  | selected, [] => selected
  | selected, item :: rest =>
      if (selected.length : ℤ) < count then
        collectDistinct count (if item ∈ selected then selected else selected ++ [item]) rest
      else selected

theorem collectDistinct_of_le {count : ℤ} {selected : List α}
    (enough : count ≤ selected.length) (items : List α) :
    collectDistinct count selected items = selected := by
  cases items with
  | nil => rfl
  | cons item rest => rw [collectDistinct, if_neg (not_lt.mpr enough)]

/-- The walk continues what it has with the first occurrences of what is new. -/
theorem collectDistinct_eq {count : ℤ} {selected : List α} (items : List α)
    (few : (selected.length : ℤ) ≤ count) :
    collectDistinct count selected items =
      (selected ++ (items.filter fun item => item ∉ selected).eraseDups).take count.toNat := by
  induction items generalizing selected with
  | nil =>
      rw [collectDistinct, List.filter_nil, List.eraseDups_nil, List.append_nil,
        List.take_of_length_le (by omega)]
  | cons item rest ih =>
      by_cases enough : (selected.length : ℤ) < count
      · rw [collectDistinct, if_pos enough]
        by_cases member : item ∈ selected
        · rw [if_pos member, ih few, List.filter_cons_of_neg (by simpa using member)]
        · have longer : ((selected ++ [item]).length : ℤ) ≤ count := by
            rw [List.length_append, List.length_singleton]
            omega
          rw [if_neg member, ih longer, List.filter_cons_of_pos (by simpa using member),
            List.eraseDups_cons, List.filter_filter, List.append_assoc, List.singleton_append]
          congr 4
          apply List.filter_congr
          intro other _
          simp only [List.mem_append, List.mem_singleton, not_or]
          by_cases same : other = item
          · simp [same]
          · simp [same]
      · have full : count.toNat = selected.length := by omega
        rw [collectDistinct_of_le (not_lt.mp enough), full, List.take_left]

/-- **A walk that starts with nothing ends with the first so many distinct values.** -/
theorem collectDistinct_nil (count : ℤ) (items : List α) :
    collectDistinct count [] items = items.eraseDups.take count.toNat := by
  rcases le_or_gt 0 count with natural | negative
  · rw [collectDistinct_eq items natural]
    simp
  · rw [collectDistinct_of_le negative.le, Int.toNat_of_nonpos negative.le, List.take_zero]

/-- A value that is not among the first so many may be left out before taking them. -/
theorem take_filter_ne (item : α) (items : List α) (count : ℕ) :
    (items.filter fun other => other ≠ item).take count = items.take count ↔
      item ∉ items.take count := by
  constructor
  · intro same member
    rw [← same] at member
    simpa using List.mem_filter.mp (List.mem_of_mem_take member)
  · intro absent
    induction items generalizing count with
    | nil => rfl
    | cons first rest ih =>
        cases count with
        | zero => rfl
        | succ count =>
            rw [List.take_succ_cons, List.mem_cons, not_or] at absent
            rw [List.filter_cons_of_pos (by simpa using Ne.symm absent.1), List.take_succ_cons,
              List.take_succ_cons, ih count absent.2]

omit [DecidableEq α] in
/-- What comes early in a list comes early in a part of it. -/
theorem mem_take_of_sublist {item : α} {part items : List α} (sublist : part.Sublist items)
    (distinct : items.Nodup) (member : item ∈ part) {count : ℕ} (early : item ∈ items.take count) :
    item ∈ part.take count := by
  induction sublist generalizing count with
  | slnil => cases member
  | cons first rest ih =>
      obtain ⟨fresh, distinct⟩ := List.nodup_cons.mp distinct
      cases count with
      | zero => cases early
      | succ count =>
          have later := (List.mem_cons.mp early).resolve_left fun same =>
            fresh (same ▸ rest.subset member)
          exact (List.take_sublist_take_left (Nat.le_succ count)).subset (ih distinct member later)
  | cons_cons first rest ih =>
      obtain ⟨fresh, distinct⟩ := List.nodup_cons.mp distinct
      cases count with
      | zero => cases early
      | succ count =>
          rcases List.mem_cons.mp early with rfl | later
          · exact List.mem_cons_self
          · refine List.mem_cons_of_mem _ (ih distinct ?_ later)
            exact (List.mem_cons.mp member).resolve_left fun same =>
              fresh (same ▸ List.mem_of_mem_take later)

omit [DecidableEq α] in
/-- Leaving out values of an initial segment gives an initial segment of what is left. -/
theorem filter_take_prefix (keep : α → Bool) (count : ℕ) (items : List α) :
    (items.take count).filter keep <+: (items.filter keep).take count := by
  have initial : (items.take count).filter keep <+: items.filter keep :=
    (List.take_prefix count items).filter keep
  have short : ((items.take count).filter keep).length ≤ count :=
    (List.length_filter_le _ _).trans (List.length_take_le _ _)
  exact List.prefix_take_iff.mpr ⟨initial, short⟩

/-- Leaving out the kept values of an initial segment, and taking as many fewer, gives the values of
the segment that are not kept. -/
theorem take_filter_not_mem {items : List α} (distinct : items.Nodup) (keep : α → Bool)
    (count : ℕ) :
    (items.filter (· ∉ (items.take count).filter keep)).take
        (count - ((items.take count).filter keep).length) =
      (items.take count).filter (!keep ·) := by
  induction items generalizing count with
  | nil => simp
  | cons first rest ih =>
      obtain ⟨fresh, distinct⟩ := List.nodup_cons.mp distinct
      cases count with
      | zero => simp
      | succ count =>
          have unseen : first ∉ (rest.take count).filter keep := fun member =>
            fresh (List.mem_of_mem_take (List.mem_of_mem_filter member))
          have short : ((rest.take count).filter keep).length ≤ count :=
            (List.length_filter_le _ _).trans (List.length_take_le _ _)
          rw [List.take_succ_cons]
          by_cases kept : keep first = true
          · have others : rest.filter (· ∉ first :: (rest.take count).filter keep) =
                rest.filter (· ∉ (rest.take count).filter keep) :=
              List.filter_congr fun item member => by
                have different : item ≠ first := fun same => fresh (same ▸ member)
                simp [different]
            rw [List.filter_cons_of_pos kept, List.filter_cons_of_neg (by simp), others,
              List.length_cons, Nat.succ_sub_succ, ih distinct count,
              List.filter_cons_of_neg (by simp [kept])]
          · rw [List.filter_cons_of_neg kept,
              List.filter_cons_of_pos (by simpa only [decide_eq_true_eq] using unseen),
              Nat.succ_sub short, List.take_succ_cons, ih distinct count,
              List.filter_cons_of_pos (by simp [kept])]

end Distinct

end DistributedFileStorage.Sequences
