import Mathlib.Order.Lattice

/-!
# Minima where some keys are not known

A fold keeps the best item of a list so far, and compares two items only when the keys of both are
known. An item without a key that comes first is never replaced. So the fold finds an item of the
least known key exactly when the first item has a key, or no item has one
(`knownMinimum_reduce_iff`).
-/

set_option autoImplicit false

namespace DistributedFileStorage.Sequences

variable {α κ : Type} [LinearOrder κ] (key : α → Option κ)

/-- Replace the best item by one with a smaller key, when both keys are known. -/
def improve (best item : α) : α :=
  match key item, key best with
  | some candidate, some least => if candidate < least then item else best
  | _, _ => best

/-- The item is one of the items, and when the key of any item is known, so is its own, and no
known key is smaller. -/
structure KnownMinimum (items : List α) (best : α) : Prop where
  mem : best ∈ items
  least : (∃ item ∈ items, (key item).isSome) →
    ∃ value, key best = some value ∧ ∀ item ∈ items, ∀ other, key item = some other → value ≤ other

theorem improve_eq_or (best item : α) : improve key best item = best ∨
    improve key best item = item := by
  unfold improve
  split
  · split
    · exact .inr rfl
    · exact .inl rfl
  · exact .inl rfl

variable {key}

/-- The fold gives one of the items. -/
theorem mem_reduce (first : α) (rest : List α) : rest.foldl (improve key) first ∈ first :: rest := by
  induction rest generalizing first with
  | nil => exact List.mem_singleton_self first
  | cons item rest ih =>
      rw [List.foldl_cons]
      rcases improve_eq_or key first item with same | same
      · rw [same]
        rcases List.mem_cons.mp (ih first) with here | later
        · exact List.mem_cons.mpr (.inl here)
        · exact List.mem_cons_of_mem _ (List.mem_cons_of_mem _ later)
      · rw [same]
        exact List.mem_cons_of_mem _ (ih item)

/-- An item without a key is not replaced. -/
theorem reduce_of_unknown {first : α} (unknown : key first = none) (rest : List α) :
    rest.foldl (improve key) first = first := by
  induction rest with
  | nil => rfl
  | cons item rest ih =>
      have stays : improve key first item = first := by
        unfold improve
        rw [unknown]
        split
        · rename_i known
          cases known
        · rfl
      rw [List.foldl_cons, stays, ih]

/-- A step keeps the smaller one of two keys. -/
theorem key_improve {best : α} {least : κ} (known : key best = some least) (item : α) :
    ∃ value, key (improve key best item) = some value ∧ value ≤ least ∧
      ∀ other, key item = some other → value ≤ other := by
  unfold improve
  rw [known]
  cases candidate : key item with
  | none => exact ⟨least, known, le_rfl, nofun⟩
  | some other =>
      dsimp only
      split
      · rename_i smaller
        refine ⟨other, candidate, smaller.le, fun _ same => ?_⟩
        exact (Option.some.inj same).le
      · rename_i larger
        refine ⟨least, known, le_rfl, fun _ same => ?_⟩
        exact (not_lt.mp larger).trans (Option.some.inj same).le

/-- **When the key of the first item is known, no known key is smaller than the one that the fold
finds.** -/
theorem reduce_of_known {first : α} {least : κ} (known : key first = some least) (rest : List α) :
    ∃ value, key (rest.foldl (improve key) first) = some value ∧
      ∀ item ∈ first :: rest, ∀ other, key item = some other → value ≤ other := by
  induction rest generalizing first least with
  | nil =>
      refine ⟨least, known, fun item member other same => ?_⟩
      rw [List.mem_singleton.mp member, known] at same
      exact (Option.some.inj same).le
  | cons item rest ih =>
      obtain ⟨kept, here, below, smaller⟩ := key_improve known item
      obtain ⟨value, found, minimal⟩ := ih here
      have least_of_kept : value ≤ kept := minimal _ List.mem_cons_self kept here
      refine ⟨value, found, fun candidate member other same => ?_⟩
      rcases List.mem_cons.mp member with rfl | later
      · rw [known] at same
        exact (least_of_kept.trans below).trans (Option.some.inj same).le
      · rcases List.mem_cons.mp later with rfl | rest
        · exact least_of_kept.trans (smaller other same)
        · exact minimal candidate (List.mem_cons_of_mem _ rest) other same

/-- **The fold finds the least known key exactly when the key of the first item is known**, or no
key at all. -/
theorem knownMinimum_reduce_iff (first : α) (rest : List α) :
    KnownMinimum key (first :: rest) (rest.foldl (improve key) first) ↔
      (key first).isSome ∨ ∀ item ∈ first :: rest, key item = none := by
  cases start : key first with
  | some least =>
      refine iff_of_true ⟨mem_reduce first rest, fun _ => reduce_of_known start rest⟩ (.inl rfl)
  | none =>
      rw [reduce_of_unknown start]
      constructor
      · rintro ⟨_, finds⟩
        refine .inr fun item member => Option.not_isSome_iff_eq_none.mp fun known => ?_
        obtain ⟨value, here, _⟩ := finds ⟨item, member, known⟩
        cases start.symm.trans here
      · rintro (known | nothing)
        · cases known
        · refine ⟨List.mem_cons_self, ?_⟩
          rintro ⟨item, member, known⟩
          rw [nothing item member] at known
          cases known

end DistributedFileStorage.Sequences
