import Mathlib.Algebra.Order.Group.Unbundled.Int
import Mathlib.Data.List.TakeWhile
import Mathlib.Data.String.Basic

/-!
# Decimal numbers in texts

`parseInt` with the radix 10 skips white space, takes a sign, and reads the digits up to the first
character that is none. It gives back the number that a text was made from (`parseInt_repr`), so
that two numbers with the same text are the same (`int_repr_injective`).
-/

set_option autoImplicit false

namespace DistributedFileStorage.Encoding

/-- The digits at the beginning of a text, as a number. Without any the result is `NaN`. -/
def readDigits (text : List Char) : Option ℕ :=
  match text.takeWhile Char.isDigit with
  | [] => none
  | digits => some (Nat.ofDigitChars 10 digits 0)

/-- White space and line ends, as the language counts them. -/
def isStrWhiteSpace (character : Char) : Bool :=
  let code := character.toNat
  (9 ≤ code && code ≤ 13) || (0x2000 ≤ code && code ≤ 0x200A) ||
    [0x20, 0xA0, 0x1680, 0x2028, 0x2029, 0x202F, 0x205F, 0x3000, 0xFEFF].contains code

/-- `parseInt(text, 10)`, for numbers that are exact. `NaN` is `none`. -/
def parseInt (text : String) : Option ℤ :=
  match text.toList.dropWhile isStrWhiteSpace with
  | '-' :: digits => (readDigits digits).map fun value : ℕ => -(value : ℤ)
  | '+' :: digits => (readDigits digits).map Nat.cast
  | digits => (readDigits digits).map Nat.cast

theorem toList_repr (value : ℤ) :
    value.repr.toList = (if value < 0 then ['-'] else []) ++ Nat.toDigits 10 value.natAbs := by
  cases value with
  | ofNat n => simp [Int.repr, Nat.toList_repr]
  | negSucc n => simp [Int.repr, Nat.toList_repr, String.toList_append]

theorem isDigit_of_mem_toDigits {character : Char} {n : ℕ}
    (member : character ∈ Nat.toDigits 10 n) : character.isDigit = true :=
  Nat.isDigit_of_mem_toDigits (by decide) (by decide) member

theorem not_mem_toList_repr {character : Char} (value : ℤ) (sign : character ≠ '-')
    (digit : character.isDigit = false) : character ∉ value.repr.toList := by
  rw [toList_repr, List.mem_append]
  rintro (minus | inside)
  · split at minus
    · exact sign (List.mem_singleton.mp minus)
    · cases minus
  · have isDigit := isDigit_of_mem_toDigits inside
    rw [digit] at isDigit
    cases isDigit

theorem readDigits_toDigits (n : ℕ) : readDigits (Nat.toDigits 10 n) = some n := by
  unfold readDigits
  rw [List.takeWhile_eq_self_iff.mpr fun _ member => isDigit_of_mem_toDigits member]
  cases digits : Nat.toDigits 10 n with
  | nil => exact absurd digits Nat.toDigits_ne_nil
  | cons first rest =>
      dsimp only
      rw [← digits, Nat.ofDigitChars_ten_toDigits]

theorem isStrWhiteSpace_of_isDigit {character : Char} (digit : character.isDigit = true) :
    isStrWhiteSpace character = false := by
  simp only [Char.isDigit, Bool.and_eq_true, decide_eq_true_eq] at digit
  obtain ⟨low, high⟩ := digit
  have low : 48 ≤ character.toNat := low
  have high : character.toNat ≤ 57 := high
  simp [isStrWhiteSpace]
  omega

/-- The digits of a number start neither with white space nor with a sign. -/
theorem exists_toDigits_eq_cons (n : ℕ) : ∃ first rest, Nat.toDigits 10 n = first :: rest ∧
    isStrWhiteSpace first = false ∧ first ≠ '-' ∧ first ≠ '+' := by
  cases digits : Nat.toDigits 10 n with
  | nil => exact absurd digits Nat.toDigits_ne_nil
  | cons first rest =>
      have digit : first.isDigit = true :=
        isDigit_of_mem_toDigits (n := n) (digits ▸ List.mem_cons_self)
      refine ⟨first, rest, rfl, isStrWhiteSpace_of_isDigit digit, ?_, ?_⟩
      · rintro rfl
        cases digit
      · rintro rfl
        cases digit

/-- **The text of a number is read back as the number.** -/
theorem parseInt_repr (value : ℤ) : parseInt value.repr = some value := by
  unfold parseInt
  rw [toList_repr]
  have read := readDigits_toDigits value.natAbs
  obtain ⟨first, rest, digits, space, minus, plus⟩ := exists_toDigits_eq_cons value.natAbs
  by_cases negative : value < 0
  · rw [if_pos negative]
    show (readDigits (Nat.toDigits 10 value.natAbs)).map (fun value : ℕ => -(value : ℤ)) = _
    rw [read, Option.map_some]
    congr 1
    omega
  · rw [digits] at read ⊢
    rw [if_neg negative, List.nil_append, List.dropWhile_cons_of_neg (by rw [space]; nofun)]
    split
    · rename_i same
      exact absurd (List.cons.inj same).1 minus
    · rename_i same
      exact absurd (List.cons.inj same).1 plus
    · rw [read, Option.map_some]
      congr 1
      omega

theorem int_repr_injective : Function.Injective Int.repr := by
  intro value other same
  have read := congrArg parseInt same
  rw [parseInt_repr, parseInt_repr] at read
  exact Option.some.inj read

end DistributedFileStorage.Encoding
