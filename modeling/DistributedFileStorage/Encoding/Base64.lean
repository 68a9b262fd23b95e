import Mathlib.Data.List.TakeWhile
import Mathlib.Data.String.Basic

/-!
# Base64

Base64 writes three bytes as four characters of an alphabet of 64, and fills the last group
up with `=`. The decoder takes the URL alphabet too, ignores every other character, and
stops at the first `=`. Decoding what was encoded gives the bytes back (`decode_encode`).
-/

set_option autoImplicit false

namespace DistributedFileStorage.Encoding.Base64

/-- The characters for the values 0 to 63. -/
def alphabet : List Char :=
  "ABCDEFGHIJKLMNOPQRSTUVWXYZabcdefghijklmnopqrstuvwxyz0123456789+/".toList

/-- The character for a value. -/
def character (sextet : ℕ) : Char := alphabet.getD sextet '='

/-- The value of a character, in the standard or in the URL alphabet. -/
def value? (char : Char) : Option ℕ :=
  if char = '-' then some 62
  else if char = '_' then some 63
  else alphabet.idxOf? char

/-- The bytes cut into groups of six bits. A group at the end is filled with zeros. -/
def sextets : List UInt8 → List ℕ
  | [] => []
  | [first] => [first.toNat / 4, first.toNat % 4 * 16]
  | [first, second] =>
      [first.toNat / 4, first.toNat % 4 * 16 + second.toNat / 16, second.toNat % 16 * 4]
  | first :: second :: third :: rest =>
      first.toNat / 4 :: (first.toNat % 4 * 16 + second.toNat / 16) ::
        (second.toNat % 16 * 4 + third.toNat / 64) :: third.toNat % 64 :: sextets rest

/-- The bytes of some groups of six bits. Bits that do not fill a byte are dropped. -/
def bytes : List ℕ → List UInt8
  | first :: second :: third :: fourth :: rest =>
      UInt8.ofNat (first * 4 + second / 16) :: UInt8.ofNat (second % 16 * 16 + third / 4) ::
        UInt8.ofNat (third % 4 * 64 + fourth) :: bytes rest
  | [first, second, third] =>
      [UInt8.ofNat (first * 4 + second / 16), UInt8.ofNat (second % 16 * 16 + third / 4)]
  | [first, second] => [UInt8.ofNat (first * 4 + second / 16)]
  | _ => []

/-- `data.toString('base64')`. -/
def encode (data : List UInt8) : String :=
  String.ofList ((sextets data).map character ++ List.replicate ((3 - data.length % 3) % 3) '=')

/-- `Buffer.from(text, 'base64')`. -/
def decode (text : String) : List UInt8 :=
  bytes ((text.toList.takeWhile (· ≠ '=')).filterMap value?)

theorem value?_character : ∀ sextet < 64, value? (character sextet) = some sextet := by
  decide +kernel

theorem character_ne_padding : ∀ sextet < 64, character sextet ≠ '=' := by
  decide +kernel

theorem sextets_lt (data : List UInt8) : ∀ sextet ∈ sextets data, sextet < 64 := by
  induction data using sextets.induct with
  | case1 => simp [sextets]
  | case2 first =>
      have firstSmall := first.toNat_lt
      simp [sextets]
      omega
  | case3 first second =>
      have firstSmall := first.toNat_lt
      have secondSmall := second.toNat_lt
      simp [sextets]
      omega
  | case4 first second third rest ih =>
      have firstSmall := first.toNat_lt
      have secondSmall := second.toNat_lt
      have thirdSmall := third.toNat_lt
      simp only [sextets, List.forall_mem_cons]
      exact ⟨by omega, by omega, by omega, by omega, ih⟩

theorem bytes_sextets (data : List UInt8) : bytes (sextets data) = data := by
  have whole : ∀ (number : ℕ) (byte : UInt8), number = byte.toNat → UInt8.ofNat number = byte := by
    rintro _ byte rfl
    exact UInt8.ofNat_toNat
  induction data using sextets.induct with
  | case1 => rfl
  | case2 first =>
      have firstSmall := first.toNat_lt
      rw [sextets, bytes, whole _ first (by omega)]
  | case3 first second =>
      have firstSmall := first.toNat_lt
      have secondSmall := second.toNat_lt
      rw [sextets, bytes, whole _ first (by omega), whole _ second (by omega)]
  | case4 first second third rest ih =>
      have firstSmall := first.toNat_lt
      have secondSmall := second.toNat_lt
      have thirdSmall := third.toNat_lt
      rw [sextets, bytes, ih, whole _ first (by omega), whole _ second (by omega),
        whole _ third (by omega)]

/-- **Decoding what was encoded gives the bytes back.** -/
theorem decode_encode (data : List UInt8) : decode (encode data) = data := by
  have small := sextets_lt data
  have text : ((sextets data).map character ++
      List.replicate ((3 - data.length % 3) % 3) '=').takeWhile (· ≠ '=') =
        (sextets data).map character := by
    rw [List.takeWhile_append_of_pos]
    · have padding : ∀ count, (List.replicate count '=').takeWhile (· ≠ '=') = [] := by
        intro count
        cases count <;> rfl
      rw [padding, List.append_nil]
    · intro char member
      obtain ⟨sextet, inside, rfl⟩ := List.mem_map.mp member
      simpa using character_ne_padding sextet (small sextet inside)
  have values : ((sextets data).map character).filterMap value? = sextets data := by
    have same : (sextets data).filterMap (value? ∘ character) = (sextets data).filterMap some :=
      List.filterMap_congr fun sextet inside => value?_character sextet (small sextet inside)
    rw [List.filterMap_map, same, List.filterMap_some]
  rw [decode, encode, String.toList_ofList, text, values, bytes_sextets]

end DistributedFileStorage.Encoding.Base64
