import Mathlib.Data.Finset.Card
import Mathlib.Data.List.Nodup
import Mathlib.Data.List.Perm.Basic

/-!
# The first of each class

In a list whose items fall into classes, the leaders are the items that are the first of their
class. To prefer different classes is to take the leaders before the others. This only changes the
order of the items (`leadersFirst_perm`). A number of items that is taken so has as many classes as
it can have (`card_classes_take`), and with an item it has the first of its class (`leader_taken`).
-/

set_option autoImplicit false

namespace DistributedFileStorage.Sequences

variable {α κ : Type} [DecidableEq κ] (classOf : α → κ)

/-- The items that are the first of their class, when some classes have been used before. -/
def leaders : List κ → List α → List α
  | _, [] => []
  | used, item :: rest =>
      if classOf item ∈ used then leaders used rest
      else item :: leaders (used ++ [classOf item]) rest

/-- The leaders, and then the others. -/
def leadersFirst [DecidableEq α] (items : List α) : List α :=
  leaders classOf [] items ++ items.filter fun item => item ∉ leaders classOf [] items

variable {classOf} {items : List α}

theorem leaders_sublist (used : List κ) : (leaders classOf used items).Sublist items := by
  induction items generalizing used with
  | nil => exact .slnil
  | cons item rest ih =>
      unfold leaders
      split
      · exact .cons item (ih used)
      · exact (ih _).cons_cons item

/-- The classes of the leaders are the classes that have not been used before. -/
theorem mem_classes_leaders {used : List κ} {label : κ} :
    label ∈ (leaders classOf used items).map classOf ↔
      label ∈ items.map classOf ∧ label ∉ used := by
  induction items generalizing used with
  | nil => simp [leaders]
  | cons item rest ih =>
      unfold leaders
      split
      · rename_i known
        rw [ih, List.map_cons, List.mem_cons]
        constructor
        · exact fun ⟨later, fresh⟩ => ⟨.inr later, fresh⟩
        · rintro ⟨rfl | later, fresh⟩
          · exact absurd known fresh
          · exact ⟨later, fresh⟩
      · rename_i fresh
        rw [List.map_cons, List.mem_cons, ih, List.map_cons, List.mem_cons, List.mem_append,
          List.mem_singleton]
        constructor
        · rintro (rfl | ⟨later, unused⟩)
          · exact ⟨.inl rfl, fresh⟩
          · exact ⟨.inr later, fun known => unused (.inl known)⟩
        · rintro ⟨rfl | later, unused⟩
          · exact .inl rfl
          · by_cases same : label = classOf item
            · exact .inl same
            · exact .inr ⟨later, fun either => either.elim unused same⟩

/-- Different leaders have different classes. -/
theorem nodup_classes_leaders (used : List κ) :
    ((leaders classOf used items).map classOf).Nodup := by
  induction items generalizing used with
  | nil => exact List.nodup_nil
  | cons item rest ih =>
      unfold leaders
      split
      · exact ih used
      · rw [List.map_cons, List.nodup_cons]
        refine ⟨fun again => ?_, ih _⟩
        have unused := (mem_classes_leaders.mp again).2
        exact unused (List.mem_append_right used (List.mem_singleton.mpr rfl))

/-- The leaders are as many as there are classes. -/
theorem length_leaders :
    (leaders classOf [] items).length = (items.map classOf).toFinset.card := by
  have classes : (items.map classOf).toFinset =
      ((leaders classOf [] items).map classOf).toFinset := by
    ext label
    simp only [List.mem_toFinset, mem_classes_leaders, List.not_mem_nil, not_false_iff, and_true]
  rw [classes, List.toFinset_card_of_nodup (nodup_classes_leaders []), List.length_map]

/-- The first item of a class that has not been used before leads it. -/
theorem mem_leaders_of_find? {used : List κ} {item : α}
    (found : items.find? (fun other => classOf other = classOf item) = some item)
    (fresh : classOf item ∉ used) : item ∈ leaders classOf used items := by
  induction items generalizing used with
  | nil => cases found
  | cons first rest ih =>
      by_cases same : classOf first = classOf item
      · rw [List.find?_cons_of_pos (by simpa using same)] at found
        cases found
        rw [leaders, if_neg fresh]
        exact List.mem_cons_self
      · rw [List.find?_cons_of_neg (by simpa using same)] at found
        unfold leaders
        split
        · exact ih found fresh
        · refine List.mem_cons_of_mem _ (ih found fun known => ?_)
          rcases List.mem_append.mp known with before | here
          · exact fresh before
          · exact same (List.mem_singleton.mp here).symm

/-- A leader is the only leader of its class. -/
theorem eq_of_mem_leaders {used : List κ} {first second : α}
    (one : first ∈ leaders classOf used items) (other : second ∈ leaders classOf used items)
    (same : classOf first = classOf second) : first = second :=
  List.inj_on_of_nodup_map (nodup_classes_leaders used) one other same

variable [DecidableEq α]

theorem mem_leadersFirst {item : α} : item ∈ leadersFirst classOf items ↔ item ∈ items := by
  rw [leadersFirst, List.mem_append, List.mem_filter, decide_eq_true_eq]
  constructor
  · rintro (leads | ⟨member, _⟩)
    · exact (leaders_sublist []).subset leads
    · exact member
  · intro member
    by_cases leads : item ∈ leaders classOf [] items
    · exact .inl leads
    · exact .inr ⟨member, leads⟩

/-- **Taking the leaders first changes the order of distinct items only.** -/
theorem leadersFirst_perm (distinct : items.Nodup) : (leadersFirst classOf items).Perm items := by
  have nodup : (leadersFirst classOf items).Nodup := by
    refine List.Nodup.append ((leaders_sublist []).nodup distinct) (distinct.filter _) ?_
    intro item leads other
    exact of_decide_eq_true (List.mem_filter.mp other).2 leads
  exact (List.perm_ext_iff_of_nodup nodup distinct).mpr fun item => mem_leadersFirst

/-- Taking some leaders first and filling up with what is left is taking the leaders first. -/
theorem take_leadersFirst (count : ℕ) :
    (leadersFirst classOf items).take count =
      (leaders classOf [] items).take count ++
        (items.filter fun item => item ∉ (leaders classOf [] items).take count).take
          (count - ((leaders classOf [] items).take count).length) := by
  rw [leadersFirst, List.take_append, List.length_take]
  congr 1
  rcases Nat.le_total (leaders classOf [] items).length count with all | some
  · rw [List.take_of_length_le all, Nat.min_eq_right all]
  · rw [Nat.min_eq_left some, Nat.sub_self, Nat.sub_eq_zero_of_le some, List.take_zero,
      List.take_zero]

/-- **Taking the leaders first takes as many classes as possible.** -/
theorem card_classes_take (count : ℕ) :
    (((leadersFirst classOf items).take count).map classOf).toFinset.card =
      min count (items.map classOf).toFinset.card := by
  have number := @length_leaders α κ _ classOf items
  rcases Nat.le_total count (leaders classOf [] items).length with some | all
  · have distinct : (((leaders classOf [] items).take count).map classOf).Nodup :=
      (nodup_classes_leaders []).sublist ((List.take_sublist count _).map classOf)
    rw [leadersFirst, List.take_append_of_le_length some, List.toFinset_card_of_nodup distinct,
      List.length_map, List.length_take, number]
  · have classes : (((leadersFirst classOf items).take count).map classOf).toFinset =
        (items.map classOf).toFinset := by
      ext label
      rw [List.mem_toFinset, List.mem_toFinset]
      constructor
      · intro member
        obtain ⟨item, taken, rfl⟩ := List.mem_map.mp member
        exact List.mem_map_of_mem (mem_leadersFirst.mp (List.mem_of_mem_take taken))
      · intro member
        have leads : label ∈ (leaders classOf [] items).map classOf :=
          mem_classes_leaders.mpr ⟨member, List.not_mem_nil⟩
        obtain ⟨item, leader, rfl⟩ := List.mem_map.mp leads
        refine List.mem_map_of_mem ?_
        rw [take_leadersFirst, List.take_of_length_le all]
        exact List.mem_append_left _ leader
    rw [classes, Nat.min_eq_right (number ▸ all)]

/-- **Taking the leaders first takes, with an item, the first of its class.** -/
theorem leader_taken {count : ℕ} {item leader : α}
    (taken : item ∈ (leadersFirst classOf items).take count)
    (found : items.find? (fun other => classOf other = classOf item) = some leader) :
    leader ∈ (leadersFirst classOf items).take count := by
  have same : classOf leader = classOf item := by simpa using List.find?_some found
  have leads : leader ∈ leaders classOf [] items :=
    mem_leaders_of_find? (same ▸ found) List.not_mem_nil
  rcases Nat.le_total count (leaders classOf [] items).length with some | all
  · have early : item ∈ (leaders classOf [] items).take count := by
      rwa [leadersFirst, List.take_append_of_le_length some] at taken
    rwa [eq_of_mem_leaders leads (List.mem_of_mem_take early) same]
  · rw [take_leadersFirst, List.take_of_length_le all]
    exact List.mem_append_left _ leads

end DistributedFileStorage.Sequences
