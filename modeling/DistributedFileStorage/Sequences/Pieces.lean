import Mathlib.Algebra.Order.Floor.Div
import Mathlib.Data.PNat.Basic

/-!
# Cutting a list into pieces

`pieces size items` cuts a list into consecutive pieces of one positive size, with a
shorter piece at the end when the length is no multiple of the size. It is what a loop
over offsets computes, and also what a buffer computes that gives off a piece whenever it
is full: pieces that were given off early can be put in front (`pieces_flatten_append`).
Joined again the pieces are the list (`flatten_pieces`).
-/

set_option autoImplicit false

namespace DistributedFileStorage.Sequences

variable {α : Type} (size : ℕ+)

/-- Consecutive pieces of the given size, the last one possibly shorter. -/
def pieces (items : List α) : List (List α) :=
  if items = [] then [] else items.take size :: pieces (items.drop size)
termination_by items.length
decreasing_by
  have positive := size.pos
  have nonempty : 0 < items.length := List.length_pos_iff.mpr ‹_›
  rw [List.length_drop]
  omega

@[simp] theorem pieces_nil : pieces size ([] : List α) = [] := by
  rw [pieces, if_pos rfl]

theorem pieces_of_ne_nil {items : List α} (nonempty : items ≠ []) :
    pieces size items = items.take size :: pieces size (items.drop size) := by
  rw [pieces, if_neg nonempty]

/-- What fits into one piece is one piece. -/
theorem pieces_of_length_le {items : List α} (nonempty : items ≠ [])
    (short : items.length ≤ size) : pieces size items = [items] := by
  rw [pieces_of_ne_nil size nonempty, List.take_of_length_le short, List.drop_of_length_le short,
    pieces_nil]

/-- A list of the size of a piece in front is the first piece. -/
theorem pieces_append {whole : List α} (full : whole.length = size) (rest : List α) :
    pieces size (whole ++ rest) = whole :: pieces size rest := by
  have positive := size.pos
  have nonempty : whole ++ rest ≠ [] := by
    intro empty
    have length := congrArg List.length empty
    rw [List.length_append, List.length_nil] at length
    omega
  rw [pieces_of_ne_nil size nonempty, ← full, List.take_left, List.drop_left]

/-- **Whole pieces in front are the first pieces.** -/
theorem pieces_flatten_append {wholes : List (List α)} (full : ∀ whole ∈ wholes, whole.length = size)
    (rest : List α) : pieces size (wholes.flatten ++ rest) = wholes ++ pieces size rest := by
  induction wholes with
  | nil => rfl
  | cons whole wholes ih =>
      rw [List.flatten_cons, List.append_assoc,
        pieces_append size (full whole List.mem_cons_self),
        ih fun other member => full other (List.mem_cons_of_mem whole member)]
      rfl

/-! ## The positions of the pieces -/

/-- **The pieces in order are the list.** -/
theorem flatten_pieces (items : List α) : (pieces size items).flatten = items := by
  induction items using pieces.induct size with
  | case1 => rw [pieces_nil, List.flatten_nil]
  | case2 items nonempty ih =>
      rw [pieces_of_ne_nil size nonempty, List.flatten_cons, ih, List.take_append_drop]

/-- The number of pieces is the length divided by the size, rounded up. -/
theorem length_pieces (items : List α) : (pieces size items).length = items.length ⌈/⌉ (size : ℕ) := by
  have positive := size.pos
  induction items using pieces.induct size with
  | case1 => rw [pieces_nil, List.length_nil, List.length_nil, zero_ceilDiv]
  | case2 items nonempty ih =>
      have some : 0 < items.length := List.length_pos_iff.mpr nonempty
      rw [pieces_of_ne_nil size nonempty, List.length_cons, ih, List.length_drop,
        Nat.ceilDiv_eq_add_pred_div, Nat.ceilDiv_eq_add_pred_div]
      rcases le_or_gt items.length size with short | long
      · have one : (items.length + size - 1) / (size : ℕ) = 1 :=
          Nat.div_eq_of_lt_le (by omega) (by omega)
        have none : (items.length - size + size - 1) / (size : ℕ) = 0 :=
          Nat.div_eq_of_lt (by omega)
        rw [one, none]
      · have later : items.length + size - 1 = (items.length - size + size - 1) + size := by omega
        rw [later, Nat.add_div_right _ positive]

/-- A piece begins at a multiple of the size. -/
theorem getElem?_pieces (items : List α) (index : ℕ) (inside : index * size < items.length) :
    (pieces size items)[index]? = some ((items.drop (index * size)).take size) := by
  induction index generalizing items with
  | zero =>
      have nonempty : items ≠ [] := List.ne_nil_of_length_pos (by omega)
      rw [pieces_of_ne_nil size nonempty, List.getElem?_cons_zero, Nat.zero_mul, List.drop_zero]
  | succ index ih =>
      have nonempty : items ≠ [] := List.ne_nil_of_length_pos (by omega)
      have positions : (index + 1) * (size : ℕ) = size + index * size := by
        rw [Nat.succ_mul, Nat.add_comm]
      have left : index * (size : ℕ) < (items.drop size).length := by
        rw [List.length_drop]
        omega
      rw [pieces_of_ne_nil size nonempty, List.getElem?_cons_succ, ih _ left, List.drop_drop,
        positions]

end DistributedFileStorage.Sequences
