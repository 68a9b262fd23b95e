import Mathlib.Data.Int.Interval
import Mathlib.Data.List.Sort

/-!
# Distinct integers in a range

A list of distinct integers between zero and a bound has as many elements as the range
exactly when it has all of them. When it has all of them and is in ascending order, it is
the range itself, so the element at an index is the index.
-/

set_option autoImplicit false

namespace DistributedFileStorage.Sequences

variable {numbers : List ℤ} {total : ℤ}

/-- **Counting distinct integers of a range decides whether all of them are there.** -/
theorem length_eq_iff_complete (nonneg : 0 ≤ total) (distinct : numbers.Nodup)
    (inRange : ∀ number ∈ numbers, 0 ≤ number ∧ number < total) :
    (numbers.length : ℤ) = total ↔ ∀ number, 0 ≤ number → number < total → number ∈ numbers := by
  have inside : numbers.toFinset ⊆ Finset.Ico 0 total := by
    intro number member
    exact Finset.mem_Ico.mpr (inRange number (List.mem_toFinset.mp member))
  have counted : numbers.toFinset.card = numbers.length := List.toFinset_card_of_nodup distinct
  have size : (Finset.Ico 0 total).card = total.toNat := by
    rw [Int.card_Ico, sub_zero]
  constructor
  · intro full number lower upper
    have enough : (Finset.Ico 0 total).card ≤ numbers.toFinset.card := by omega
    have same := Finset.eq_of_subset_of_card_le inside enough
    exact List.mem_toFinset.mp (same ▸ Finset.mem_Ico.mpr ⟨lower, upper⟩)
  · intro complete
    have covered : Finset.Ico 0 total ⊆ numbers.toFinset := by
      intro number member
      obtain ⟨lower, upper⟩ := Finset.mem_Ico.mp member
      exact List.mem_toFinset.mpr (complete number lower upper)
    have same := congrArg Finset.card (inside.antisymm covered)
    omega

/-- All integers of a range in ascending order are the range. -/
theorem eq_range_of_complete (ascending : numbers.Pairwise (· < ·))
    (inRange : ∀ number ∈ numbers, 0 ≤ number ∧ number < total)
    (complete : ∀ number, 0 ≤ number → number < total → number ∈ numbers) :
    numbers = (List.range total.toNat).map Nat.cast := by
  have counting : ((List.range total.toNat).map (Nat.cast : ℕ → ℤ)).Pairwise (· < ·) := by
    refine List.pairwise_map.mpr (List.pairwise_lt_range.imp ?_)
    intro first second before
    exact Int.ofNat_lt.mpr before
  have same : numbers.Perm ((List.range total.toNat).map Nat.cast) := by
    refine (List.perm_ext_iff_of_nodup (ascending.imp ne_of_lt) (counting.imp ne_of_lt)).mpr ?_
    intro number
    simp only [List.mem_map, List.mem_range]
    constructor
    · intro member
      obtain ⟨lower, upper⟩ := inRange number member
      exact ⟨number.toNat, by omega, by omega⟩
    · rintro ⟨index, below, rfl⟩
      exact complete index (by omega) (by omega)
  refine same.eq_of_pairwise ?_ ascending counting
  intro first second _ _ before after
  exact absurd (before.trans after) (lt_irrefl first)

end DistributedFileStorage.Sequences
