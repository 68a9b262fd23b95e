import Mathlib.Algebra.Order.Ring.Nat
import Mathlib.Data.Nat.Init
import Mathlib.Data.String.Basic

/-!
# UUIDs in texts

A UUID is a number of 128 bits. Its text has 32 hexadecimal digits in five groups. A reader accepts
more than this text: digits of either case, a hyphen or none after every fourth digit, and braces
around the whole. So a UUID has many spellings. Its text is the canonical one, and is read as the
UUID itself (`parse_text`).
-/

set_option autoImplicit false

namespace DistributedFileStorage.Encoding

structure Uuid where
  value : BitVec 128
  deriving DecidableEq

namespace Uuid

instance (number : ℕ) : OfNat Uuid number := ⟨⟨BitVec.ofNat 128 number⟩⟩

/-! ## Reading -/

def hexValue (character : Char) : Option ℕ :=
  if '0' ≤ character ∧ character ≤ '9' then some (character.toNat - 48)
  else if 'a' ≤ character ∧ character ≤ 'f' then some (character.toNat - 87)
  else if 'A' ≤ character ∧ character ≤ 'F' then some (character.toNat - 55)
  else none

/-- Four digits, and the rest of the text. -/
def readGroup : List Char → Option (ℕ × List Char)
  | first :: second :: third :: fourth :: rest => do
      let first ← hexValue first
      let second ← hexValue second
      let third ← hexValue third
      let fourth ← hexValue fourth
      some (((first * 16 + second) * 16 + third) * 16 + fourth, rest)
  | _ => none

def skipHyphen : List Char → List Char
  | '-' :: rest => rest
  | text => text

/-- A number of groups, after those that have been read. A hyphen may follow each but the last. -/
def readGroups : ℕ → ℕ → List Char → Option (ℕ × List Char)
  | 0, value, text => some (value, text)
  | groups + 1, value, text => do
      let (group, rest) ← readGroup text
      readGroups groups (value * 65536 + group) (if groups = 0 then rest else skipHyphen rest)

/-- The UUID that a text spells. -/
def parse (text : String) : Option Uuid :=
  match text.toList with
  | '{' :: characters =>
      match readGroups 8 0 characters with
      | some (value, ['}']) => some ⟨BitVec.ofNat 128 value⟩
      | _ => none
  | characters =>
      match readGroups 8 0 characters with
      | some (value, []) => some ⟨BitVec.ofNat 128 value⟩
      | _ => none

/-! ## The characters of an accepted text -/

/-- The character can stand in a text that is read. -/
def isUuidCharacter (character : Char) : Bool :=
  (hexValue character).isSome || character = '-' || character = '{' || character = '}'

theorem all_of_readGroup {text rest : List Char} {group : ℕ}
    (read : readGroup text = some (group, rest)) (others : rest.all isUuidCharacter) :
    text.all isUuidCharacter := by
  unfold readGroup at read
  split at read
  · simp only [Option.bind_eq_bind, Option.bind_eq_some_iff, Option.some.injEq, Prod.mk.injEq]
      at read
    obtain ⟨_, first, _, second, _, third, _, fourth, _, rfl⟩ := read
    simp [isUuidCharacter, first, second, third, fourth, others]
  · cases read

theorem all_of_skipHyphen {text : List Char} (others : (skipHyphen text).all isUuidCharacter) :
    text.all isUuidCharacter := by
  unfold skipHyphen at others
  split at others
  · rw [List.all_cons, others]
    decide
  · exact others

theorem all_of_readGroups {groups value total : ℕ} {text rest : List Char}
    (read : readGroups groups value text = some (total, rest))
    (others : rest.all isUuidCharacter) : text.all isUuidCharacter := by
  induction groups generalizing value text with
  | zero =>
      obtain ⟨_, rfl⟩ := Prod.mk.inj (Option.some.inj read)
      exact others
  | succ groups ih =>
      obtain ⟨⟨group, last⟩, first, later⟩ := Option.bind_eq_some_iff.mp read
      refine all_of_readGroup first ?_
      have more := ih later
      split at more
      · exact more
      · exact all_of_skipHyphen more

/-- **A text that is read has digits, hyphens and braces only.** -/
theorem all_of_parse {text : String} {id : Uuid} (read : parse text = some id) :
    text.toList.all isUuidCharacter := by
  unfold parse at read
  split at read
  · rename_i characters braced
    rw [braced]
    split at read
    · rename_i value groups
      rw [List.all_cons, all_of_readGroups groups (by decide)]
      decide
    · cases read
  · split at read
    · rename_i value groups
      exact all_of_readGroups groups rfl
    · cases read

/-! ## Writing -/

/-- One of the eight groups of four digits. -/
def group (id : Uuid) (below : ℕ) : ℕ := id.value.toNat / 65536 ^ below % 65536

def groupText (group : ℕ) : List Char :=
  [(group / 4096).digitChar, (group / 256 % 16).digitChar, (group / 16 % 16).digitChar,
    (group % 16).digitChar]

/-- The canonical text. -/
def text (id : Uuid) : String :=
  String.ofList (groupText (id.group 7) ++ groupText (id.group 6) ++ '-' :: (groupText (id.group 5) ++
    '-' :: (groupText (id.group 4) ++ '-' :: (groupText (id.group 3) ++
      '-' :: (groupText (id.group 2) ++ groupText (id.group 1) ++ groupText (id.group 0))))))

instance : ToString Uuid := ⟨text⟩

example : (0xA0EEBC999C0B4EF8BB6D6BB9BD380A11 : Uuid).text =
    "a0eebc99-9c0b-4ef8-bb6d-6bb9bd380a11" := by decide +kernel

example :
    parse "\x7bA0EEBC999C0B-4EF8BB6D6BB9BD380A11\x7d" = some 0xA0EEBC999C0B4EF8BB6D6BB9BD380A11 ∧
    parse "a0eebc9-99c0b-4ef8-bb6d-6bb9bd380a11" = none := by decide +kernel

/-! ## The canonical text -/

theorem hexValue_digitChar {digit : ℕ} (small : digit < 16) :
    hexValue digit.digitChar = some digit := by
  have all : ∀ digit < 16, hexValue digit.digitChar = some digit := by decide
  exact all digit small

theorem readGroup_groupText {group : ℕ} (small : group < 65536) (rest : List Char) :
    readGroup (groupText group ++ rest) = some (group, rest) := by
  have digits : ((group / 4096 * 16 + group / 256 % 16) * 16 + group / 16 % 16) * 16 + group % 16 =
      group := by omega
  simp only [groupText, List.cons_append, List.nil_append, readGroup,
    hexValue_digitChar (show group / 4096 < 16 by omega),
    hexValue_digitChar (show group / 256 % 16 < 16 by omega),
    hexValue_digitChar (show group / 16 % 16 < 16 by omega),
    hexValue_digitChar (show group % 16 < 16 by omega), Option.bind_eq_bind, Option.bind_some, digits]

theorem group_lt (id : Uuid) (below : ℕ) : id.group below < 65536 := Nat.mod_lt _ (by decide)

/-- The next group of a UUID, after those above it. -/
theorem readGroups_group (id : Uuid) (groups : ℕ) (rest : List Char) :
    readGroups (groups + 1) (id.value.toNat / 65536 ^ (groups + 1))
        (groupText (id.group groups) ++ rest) =
      readGroups groups (id.value.toNat / 65536 ^ groups)
        (if groups = 0 then rest else skipHyphen rest) := by
  have value : id.value.toNat / 65536 ^ (groups + 1) * 65536 + id.group groups =
      id.value.toNat / 65536 ^ groups := by
    rw [pow_succ, ← Nat.div_div_eq_div_mul]
    exact Nat.div_add_mod' _ _
  rw [readGroups, readGroup_groupText (id.group_lt groups)]
  simp only [Option.bind_eq_bind, Option.bind_some, value]

/-- A digit is neither a hyphen nor a brace. -/
theorem digitChar_ne {digit : ℕ} (small : digit < 16) {character : Char}
    (other : character = '-' ∨ character = '{') : digit.digitChar ≠ character := by
  have all : ∀ digit < 16, digit.digitChar ≠ '-' ∧ digit.digitChar ≠ '{' := by decide
  rcases other with rfl | rfl
  · exact (all digit small).1
  · exact (all digit small).2

theorem skipHyphen_groupText {group : ℕ} (small : group < 65536) (rest : List Char) :
    skipHyphen (groupText group ++ rest) = groupText group ++ rest := by
  unfold skipHyphen groupText
  split
  · rename_i same
    exact absurd (List.cons.inj same).1 (digitChar_ne (by omega) (.inl rfl))
  · rfl

/-- A group that another one follows at once. -/
theorem readGroups_joined (id : Uuid) (groups : ℕ) (rest : List Char) :
    readGroups (groups + 2) (id.value.toNat / 65536 ^ (groups + 2))
        (groupText (id.group (groups + 1)) ++ (groupText (id.group groups) ++ rest)) =
      readGroups (groups + 1) (id.value.toNat / 65536 ^ (groups + 1))
        (groupText (id.group groups) ++ rest) := by
  rw [readGroups_group, if_neg (Nat.succ_ne_zero groups), skipHyphen_groupText (id.group_lt groups)]

/-- A group that a hyphen follows. -/
theorem readGroups_hyphen (id : Uuid) (groups : ℕ) (rest : List Char) :
    readGroups (groups + 2) (id.value.toNat / 65536 ^ (groups + 2))
        (groupText (id.group (groups + 1)) ++ '-' :: rest) =
      readGroups (groups + 1) (id.value.toNat / 65536 ^ (groups + 1)) rest := by
  rw [readGroups_group, if_neg (Nat.succ_ne_zero groups)]
  rfl

/-- The groups of the canonical text. -/
theorem readGroups_text (id : Uuid) : readGroups 8 0 id.text.toList = some (id.value.toNat, []) := by
  have bounded : readGroups 8 0 = readGroups 8 (id.value.toNat / 65536 ^ 8) :=
    congrArg (readGroups 8) (Nat.div_eq_of_lt id.value.isLt).symm
  have whole : id.value.toNat / 65536 ^ 0 = id.value.toNat := Nat.div_one _
  have last := readGroups_group id 0 []
  rw [List.append_nil, if_pos rfl, readGroups, whole] at last
  rw [text, String.toList_ofList, bounded, List.append_assoc, List.append_assoc,
    readGroups_joined, readGroups_hyphen, readGroups_hyphen, readGroups_hyphen,
    readGroups_hyphen, readGroups_joined, ← List.append_nil (groupText (id.group 0)),
    readGroups_joined, List.append_nil]
  exact last

/-- **The text of a UUID is read as the UUID.** -/
theorem parse_text (id : Uuid) : parse id.text = some id := by
  have read := readGroups_text id
  unfold parse
  split
  · rename_i characters same
    rw [text, String.toList_ofList] at same
    exact absurd (List.cons.inj same).1 (digitChar_ne (by have := id.group_lt 7; omega) (.inr rfl))
  · rw [read]
    simp

end Uuid

end DistributedFileStorage.Encoding
