import DistributedFileStorage.Paths.PosixPath

/-!
# The path of a URL

`pathname` is the path of a parsed `http` URL. The parser reads the text after the host. A slash or
a backslash ends a segment, a question mark or a number sign ends the path. A segment that is
exactly a dot segment is resolved, also when its dots are percent-encoded; every other segment
stays, whatever dots it has. The characters that may not stand in a path are percent-encoded.

`segments_pathname` says that splitting the text of a path between its slashes gives the segments
of the URL back.
-/

set_option autoImplicit false

namespace DistributedFileStorage.Paths

/-- A number below 256 as two hexadecimal digits. -/
def hexByte (number : ℕ) : List Char := (Nat.toDigits 16 number).leftpad 2 '0'

/-- The characters that are percent-encoded in a path: all but ASCII, controls, the space, quotation
and number sign, angle brackets, question mark, grave accent and braces. -/
def isPathPercentEncoded (character : Char) : Bool :=
  let code := character.toNat
  code < 0x20 || 0x7E < code ||
    [0x20, 0x22, 0x23, 0x3C, 0x3E, 0x3F, 0x60, 0x7B, 0x7D].contains code

def percentEncode (character : Char) : List Char :=
  if isPathPercentEncoded character then
    (String.utf8EncodeChar character).flatMap fun byte =>
      '%' :: (hexByte byte.toNat).map Char.toUpper
  else [character]

example : percentEncode 'é' = "%C3%A9".toList := by decide

/-- A dot that may be percent-encoded. -/
def dots : List (List Char) := [".".toList, "%2e".toList, "%2E".toList]

def isSingleDot (segment : List Char) : Bool := segment ∈ dots

def isDoubleDot (segment : List Char) : Bool :=
  segment ∈ dots.flatMap fun first => dots.map fun second => first ++ second

/-- The segments of a path with the segment that ends here. The last segment of a path is empty
where it is a dot segment. -/
def endSegment (path : List String) (buffer : List Char) (separated : Bool) : List String :=
  if isDoubleDot buffer then (if separated then path.dropLast else path.dropLast ++ [""])
  else if isSingleDot buffer then (if separated then path else path ++ [""])
  else path ++ [String.ofList buffer]

/-- The segments of the rest of a path, with those that have ended and the one that has begun. -/
def pathState (path : List String) (buffer : List Char) : List Char → List String
  | [] => endSegment path buffer false
  | character :: rest =>
      if character = '/' ∨ character = '\\' then pathState (endSegment path buffer true) [] rest
      else if character = '?' ∨ character = '#' then endSegment path buffer false
      else pathState path (buffer ++ percentEncode character) rest

/-- The segments of the path of a URL, read from the text after the host. -/
def urlSegments (text : String) : List String :=
  match text.toList with
  | '/' :: rest => pathState [] [] rest
  | '\\' :: rest => pathState [] [] rest
  | rest => pathState [] [] rest

/-- The text of a path. -/
def serialize (path : List String) : String := "/" ++ "/".intercalate path

def pathname (text : String) : String := serialize (urlSegments text)

example : pathname "/a/./b\\%2E./c..?d" = "/a/c.." := by decide

/-! ## The segments and the text -/

theorem slash_not_mem_percentEncode {character : Char} (other : character ≠ '/') :
    '/' ∉ percentEncode character := by
  unfold percentEncode
  split
  · rw [List.mem_flatMap]
    rintro ⟨byte, -, member⟩
    have digits : ∀ number < 256, '/' ∉ '%' :: (hexByte number).map Char.toUpper := by
      decide +kernel
    exact digits byte.toNat byte.toNat_lt member
  · simpa using other.symm

/-- The segments hold no slash. -/
def Whole (path : List String) : Prop := ∀ segment ∈ path, '/' ∉ segment.toList

theorem whole_append {path rest : List String} : Whole (path ++ rest) ↔ Whole path ∧ Whole rest :=
  List.forall_mem_append

theorem whole_singleton {segment : String} : Whole [segment] ↔ '/' ∉ segment.toList :=
  List.forall_mem_singleton

theorem whole_endSegment {path : List String} {buffer : List Char} (whole : Whole path)
    (buffered : '/' ∉ buffer) (separated : Bool) : Whole (endSegment path buffer separated) := by
  have shorter : Whole path.dropLast :=
    fun segment member => whole segment (List.dropLast_subset path member)
  have empty : Whole [""] := whole_singleton.mpr (by decide)
  unfold endSegment
  split
  · split
    · exact shorter
    · exact whole_append.mpr ⟨shorter, empty⟩
  · split
    · split
      · exact whole
      · exact whole_append.mpr ⟨whole, empty⟩
    · exact whole_append.mpr ⟨whole, whole_singleton.mpr (by simpa using buffered)⟩

theorem endSegment_ne_nil (path : List String) (buffer : List Char) :
    endSegment path buffer false ≠ [] := by
  unfold endSegment
  split
  · simp
  · split <;> simp

theorem pathState_whole (text : List Char) {path : List String} {buffer : List Char}
    (whole : Whole path) (buffered : '/' ∉ buffer) :
    Whole (pathState path buffer text) ∧ pathState path buffer text ≠ [] := by
  induction text generalizing path buffer with
  | nil => exact ⟨whole_endSegment whole buffered false, endSegment_ne_nil path buffer⟩
  | cons character text ih =>
      unfold pathState
      split
      · exact ih (whole_endSegment whole buffered true) List.not_mem_nil
      · rename_i inside
        split
        · exact ⟨whole_endSegment whole buffered false, endSegment_ne_nil path buffer⟩
        · refine ih whole ?_
          rw [List.mem_append, not_or]
          exact ⟨buffered, slash_not_mem_percentEncode (not_or.mp inside).1⟩

theorem urlSegments_whole (text : String) : Whole (urlSegments text) ∧ urlSegments text ≠ [] := by
  have none : Whole [] := fun _ member => nomatch member
  unfold urlSegments
  split
  · exact pathState_whole _ none List.not_mem_nil
  · exact pathState_whole _ none List.not_mem_nil
  · exact pathState_whole _ none List.not_mem_nil

theorem segments_serialize {path : List String} (whole : Whole path) (nonempty : path ≠ []) :
    segments (serialize path) = "" :: path := by
  unfold serialize
  rw [segments_slash_append, segments_intercalate nonempty whole]

/-- **The text of a path splits into the segments of the URL.** -/
theorem segments_pathname (text : String) : segments (pathname text) = "" :: urlSegments text :=
  segments_serialize (urlSegments_whole text).1 (urlSegments_whole text).2

end DistributedFileStorage.Paths
