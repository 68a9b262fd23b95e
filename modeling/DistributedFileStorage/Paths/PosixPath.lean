import Mathlib.Data.List.Basic

/-!
# POSIX paths

A path is a text. What it names is found by a walk: the segments of the text between slashes are
followed one after the other, from the root directory or from the current one. A location is the
result of the walk, the names on the way from it up to the root.

The operations on texts are those of the `path` module of Node.js for POSIX, `normalize` and `join`.
They resolve `.` and `..` on the text. A normalized path names what the path names
(`locate_normalize`), and a joined path is walked argument after argument (`locate_join`).
Symbolic links are not followed.
-/

set_option autoImplicit false

namespace DistributedFileStorage.Paths

/-! ## Segments -/

/-- What stands between the slashes of a text. -/
def segments (text : String) : List String := (text.toList.splitOn '/').map String.ofList

theorem segments_ne_nil (text : String) : segments text ≠ [] := by
  unfold segments
  simp [List.splitOn_ne_nil]

@[simp] theorem segments_empty : segments "" = [""] := rfl

theorem segments_append_slash (text rest : String) :
    segments (text ++ "/" ++ rest) = segments text ++ segments rest := by
  unfold segments
  have slash : (text ++ "/" ++ rest).toList = text.toList ++ '/' :: rest.toList := by simp
  rw [slash, List.splitOn_append_cons_self, List.map_append]

theorem segments_eq_singleton {text : String} (whole : '/' ∉ text.toList) :
    segments text = [text] := by
  unfold segments
  rw [List.splitOn_eq_singleton whole]
  simp

theorem slash_not_mem_of_mem_splitOn (text : List Char) :
    ∀ segment ∈ text.splitOn '/', '/' ∉ segment := by
  induction text with
  | nil => simp
  | cons character text ih =>
      rw [List.splitOn_cons_eq_if_modifyHead]
      split
      · simpa using ih
      · rename_i other
        have nonempty : text.splitOn '/' ≠ [] := List.splitOn_ne_nil '/' text
        obtain ⟨first, rest, parts⟩ := List.exists_cons_of_ne_nil nonempty
        rw [parts] at ih ⊢
        have differs : '/' ≠ character := by
          rintro rfl
          simp at other
        simp only [List.modifyHead_cons, List.mem_cons, forall_eq_or_imp] at ih ⊢
        refine ⟨?_, ih.2⟩
        rintro (same | inside)
        · exact differs same
        · exact ih.1 inside

theorem slash_not_mem_of_mem_segments {text segment : String} (member : segment ∈ segments text) :
    '/' ∉ segment.toList := by
  obtain ⟨part, inside, rfl⟩ := List.mem_map.mp member
  simpa using slash_not_mem_of_mem_splitOn text.toList part inside

theorem segments_intercalate {parts : List String} (nonempty : parts ≠ [])
    (whole : ∀ part ∈ parts, '/' ∉ part.toList) : segments ("/".intercalate parts) = parts := by
  induction parts with
  | nil => exact absurd rfl nonempty
  | cons part rest ih =>
      have first : segments part = [part] := segments_eq_singleton (whole part List.mem_cons_self)
      cases rest with
      | nil => simpa using first
      | cons next rest =>
          rw [String.intercalate_cons_cons, segments_append_slash, first,
            ih (List.cons_ne_nil next rest)
              fun other member => whole other (List.mem_cons_of_mem part member)]
          rfl

/-! ## Walks -/

/-- One step of a walk. The parent of the root directory is the root directory. -/
def follow (location : List String) (segment : String) : List String :=
  if segment = "" ∨ segment = "." then location
  else if segment = ".." then location.tail
  else segment :: location

/-- The path starts at the root directory. -/
def isAbsolute (path : String) : Bool := path.toList.head? = some '/'

/-- The location that a path names for a process with a current directory. -/
def locate (cwd : List String) (path : String) : List String :=
  (segments path).foldl follow (if isAbsolute path then [] else cwd)

@[simp] theorem follow_empty (location : List String) : follow location "" = location := rfl

theorem follow_name {location : List String} {name : String} (nonempty : name ≠ "")
    (other : name ≠ ".") (descends : name ≠ "..") : follow location name = name :: location := by
  unfold follow
  rw [if_neg (not_or.mpr ⟨nonempty, other⟩), if_neg descends]

/-! ## The operations on texts -/

/-- A segment that is appended to a normalized path, whose last segment comes first. -/
def pushSegment (allowAboveRoot : Bool) (path : List String) (segment : String) : List String :=
  if segment = "" ∨ segment = "." then path
  else if segment = ".." then
    match path with
    | [] => if allowAboveRoot then [".."] else []
    | last :: rest =>
        if last = ".." then (if allowAboveRoot then ".." :: path else path) else rest
  else segment :: path

/-- The segments of a path that stay when the dot segments are resolved. -/
def normalizeString (path : String) (allowAboveRoot : Bool) : String :=
  "/".intercalate ((segments path).foldl (pushSegment allowAboveRoot) []).reverse

/-- The text of a normalized path, of its resolved segments. -/
def frame (absolute trailingSeparator : Bool) (resolved : String) : String :=
  if resolved = "" then
    if absolute then "/" else if trailingSeparator then "./" else "."
  else
    let path := if trailingSeparator then resolved ++ "/" else resolved
    if absolute then "/" ++ path else path

def normalize (path : String) : String :=
  if path = "" then "."
  else
    frame (isAbsolute path) (path.toList.getLast? = some '/')
      (normalizeString path (!isAbsolute path))

def join (args : List String) : String :=
  match args.filter (· ≠ "") with
  | [] => "."
  | parts => normalize ("/".intercalate parts)

theorem frame_ne_empty (absolute trailingSeparator : Bool) (resolved : String) :
    frame absolute trailingSeparator resolved ≠ "" := by
  unfold frame
  split
  · cases absolute <;> cases trailingSeparator <;> decide
  · rename_i nonempty
    cases absolute <;> cases trailingSeparator <;> simp [nonempty]

theorem normalize_ne_empty (path : String) : normalize path ≠ "" := by
  unfold normalize
  split
  · decide
  · exact frame_ne_empty _ _ _

theorem join_ne_empty (args : List String) : join args ≠ "" := by
  unfold join
  split
  · decide
  · exact normalize_ne_empty _

/-! ## What resolving keeps -/

/-- A segment that resolving leaves: a name, or `..` where the path may lead above its start. -/
structure Stays (allowAboveRoot : Bool) (segment : String) : Prop where
  whole : '/' ∉ segment.toList
  nonempty : segment ≠ ""
  other : segment ≠ "."
  above : segment = ".." → allowAboveRoot = true

/-- The segments of a path are resolved. -/
def Resolved (allowAboveRoot : Bool) (path : List String) : Prop :=
  ∀ segment ∈ path, Stays allowAboveRoot segment

theorem resolved_cons {allowAboveRoot : Bool} {path : List String} {segment : String} :
    Resolved allowAboveRoot (segment :: path) ↔
      Stays allowAboveRoot segment ∧ Resolved allowAboveRoot path :=
  List.forall_mem_cons

theorem stays_up : Stays true ".." := ⟨by decide, by decide, by decide, fun _ => rfl⟩

theorem resolved_pushSegment {allowAboveRoot : Bool} {path : List String} {segment : String}
    (resolved : Resolved allowAboveRoot path) (whole : '/' ∉ segment.toList) :
    Resolved allowAboveRoot (pushSegment allowAboveRoot path segment) := by
  unfold pushSegment
  split
  · exact resolved
  · rename_i name
    obtain ⟨nonempty, other⟩ := not_or.mp name
    split
    · cases path with
      | nil =>
          cases allowAboveRoot
          · exact resolved
          · exact resolved_cons.mpr ⟨stays_up, resolved⟩
      | cons last rest =>
          dsimp only
          split
          · cases allowAboveRoot
            · exact resolved
            · exact resolved_cons.mpr ⟨stays_up, resolved⟩
          · exact (resolved_cons.mp resolved).2
    · rename_i descends
      have kept : Stays allowAboveRoot segment :=
        ⟨whole, nonempty, other, fun up => absurd up descends⟩
      exact resolved_cons.mpr ⟨kept, resolved⟩

/-- The walk along a resolved path, whose last segment comes first. -/
def walk (start path : List String) : List String :=
  path.foldr (fun segment location => follow location segment) start

/-- **Pushing a segment is one more step of the walk.** -/
theorem walk_pushSegment {allowAboveRoot : Bool} {start path : List String}
    (root : allowAboveRoot = false → start = []) (resolved : Resolved allowAboveRoot path)
    (segment : String) :
    walk start (pushSegment allowAboveRoot path segment) = follow (walk start path) segment := by
  unfold pushSegment
  split
  · rename_i stays
    rw [follow, if_pos stays]
  · split
    · rename_i up
      subst up
      cases path with
      | nil =>
          cases allowAboveRoot
          · rw [root rfl]
            rfl
          · rfl
      | cons last rest =>
          have stays := resolved last List.mem_cons_self
          dsimp only
          split
          · rename_i up
            rw [stays.above up]
            rfl
          · rename_i name
            show walk start rest = follow (follow (walk start rest) last) ".."
            rw [follow_name stays.nonempty stays.other name]
            rfl
    · rfl

/-- The segments of a path lead to where its resolved segments lead. -/
theorem foldl_pushSegment {allowAboveRoot : Bool} {start path parts : List String}
    (root : allowAboveRoot = false → start = []) (resolved : Resolved allowAboveRoot path)
    (whole : ∀ part ∈ parts, '/' ∉ part.toList) :
    Resolved allowAboveRoot (parts.foldl (pushSegment allowAboveRoot) path) ∧
      walk start (parts.foldl (pushSegment allowAboveRoot) path) =
        parts.foldl follow (walk start path) := by
  induction parts generalizing path with
  | nil => exact ⟨resolved, rfl⟩
  | cons part parts ih =>
      obtain ⟨here, later⟩ := List.forall_mem_cons.mp whole
      have next := ih (resolved_pushSegment resolved here) later
      rw [walk_pushSegment root resolved part] at next
      exact next

/-! ## What a path names -/

theorem segments_slash_append (text : String) : segments ("/" ++ text) = "" :: segments text := by
  simpa using segments_append_slash "" text

theorem isAbsolute_slash_append (text : String) : isAbsolute ("/" ++ text) = true := by
  simp [isAbsolute]

theorem exists_of_isAbsolute {path : String} (absolute : isAbsolute path = true) :
    ∃ rest, path = "/" ++ rest := by
  obtain ⟨rest, text⟩ : ∃ rest, path.toList = '/' :: rest := by
    simpa [isAbsolute, List.head?_eq_some_iff] using absolute
  refine ⟨String.ofList rest, ?_⟩
  rw [← String.toList_inj, text]
  simp

theorem isAbsolute_append {text : String} (nonempty : text ≠ "") (rest : String) :
    isAbsolute (text ++ rest) = isAbsolute text := by
  have characters : text.toList ≠ [] := by simpa using nonempty
  unfold isAbsolute
  rw [String.toList_append, List.head?_append_of_ne_nil _ characters]

theorem locate_absolute (cwd : List String) (text : String) :
    locate cwd ("/" ++ text) = (segments text).foldl follow [] := by
  unfold locate
  rw [isAbsolute_slash_append, segments_slash_append]
  rfl

theorem locate_append_slash (cwd : List String) {text : String} (nonempty : text ≠ "")
    (rest : String) :
    locate cwd (text ++ "/" ++ rest) = (segments rest).foldl follow (locate cwd text) := by
  unfold locate
  rw [segments_append_slash, List.foldl_append, String.append_assoc, isAbsolute_append nonempty]

/-- A trailing slash does not change what a path names. -/
theorem locate_trailing_slash (cwd : List String) {text : String} (nonempty : text ≠ "") :
    locate cwd (text ++ "/") = locate cwd text := by
  simpa using locate_append_slash cwd nonempty ""

/-- The text of resolved segments is relative. -/
theorem isAbsolute_intercalate {allowAboveRoot : Bool} {parts : List String} (nonempty : parts ≠ [])
    (resolved : Resolved allowAboveRoot parts) : isAbsolute ("/".intercalate parts) = false := by
  rw [Bool.eq_false_iff]
  intro absolute
  obtain ⟨rest, text⟩ := exists_of_isAbsolute absolute
  have names := segments_intercalate nonempty fun part member => (resolved part member).whole
  rw [text, segments_slash_append] at names
  exact (resolved "" (names ▸ List.mem_cons_self)).nonempty rfl

theorem intercalate_ne_empty {allowAboveRoot : Bool} {parts : List String} (nonempty : parts ≠ [])
    (resolved : Resolved allowAboveRoot parts) : "/".intercalate parts ≠ "" := by
  intro text
  have names := segments_intercalate nonempty fun part member => (resolved part member).whole
  rw [text] at names
  exact (resolved "" (names ▸ List.mem_cons_self)).nonempty rfl

theorem locate_frame_empty (cwd : List String) (absolute trailingSeparator : Bool) :
    locate cwd (frame absolute trailingSeparator "") = if absolute then [] else cwd := by
  cases absolute <;> cases trailingSeparator <;> rfl

theorem locate_frame (cwd : List String) (absolute trailingSeparator : Bool) {text : String}
    (nonempty : text ≠ "") (relative : isAbsolute text = false) :
    locate cwd (frame absolute trailingSeparator text) =
      (segments text).foldl follow (if absolute then [] else cwd) := by
  have bare : locate cwd text = (segments text).foldl follow cwd := by
    rw [locate, relative]
    rfl
  unfold frame
  rw [if_neg nonempty]
  cases absolute
  · cases trailingSeparator
    · exact bare
    · exact (locate_trailing_slash cwd nonempty).trans bare
  · cases trailingSeparator
    · exact locate_absolute cwd text
    · show locate cwd ("/" ++ (text ++ "/")) = _
      rw [← String.append_assoc, locate_trailing_slash cwd (by simp)]
      exact locate_absolute cwd text

/-- **A normalized path names what the path names.** -/
theorem locate_normalize (cwd : List String) (path : String) :
    locate cwd (normalize path) = locate cwd path := by
  unfold normalize
  split
  · rename_i empty
    rw [empty]
    rfl
  · generalize begins : (if isAbsolute path then [] else cwd) = start
    have root : (!isAbsolute path) = false → start = [] := by
      intro absolute
      rw [← begins, if_pos (by simpa using absolute)]
    have none : Resolved (!isAbsolute path) [] := fun _ member => nomatch member
    have whole : ∀ part ∈ segments path, '/' ∉ part.toList :=
      fun part member => slash_not_mem_of_mem_segments member
    obtain ⟨resolved, leads⟩ := foldl_pushSegment root none whole
    have target : locate cwd path =
        walk start ((segments path).foldl (pushSegment (!isAbsolute path)) []) := by
      rw [leads, locate, begins]
      rfl
    rw [target]
    unfold normalizeString
    generalize (segments path).foldl (pushSegment (!isAbsolute path)) [] = stack at resolved
    by_cases none : stack = []
    · rw [none, List.reverse_nil, String.intercalate_nil, locate_frame_empty, begins]
      rfl
    · have nonempty : stack.reverse ≠ [] := by simpa using none
      have names : Resolved (!isAbsolute path) stack.reverse :=
        fun name member => resolved name (List.mem_reverse.mp member)
      rw [locate_frame cwd _ _ (intercalate_ne_empty nonempty names)
        (isAbsolute_intercalate nonempty names), begins,
        segments_intercalate nonempty fun name member => (names name member).whole,
        List.foldl_reverse]
      rfl

/-- Empty arguments add nothing to the walk. -/
theorem foldl_segments_intercalate (start : List String) (first : String) (rest : List String) :
    (segments ("/".intercalate (first :: rest.filter (· ≠ "")))).foldl follow start =
      rest.foldl (fun location arg => (segments arg).foldl follow location)
        ((segments first).foldl follow start) := by
  induction rest generalizing start first with
  | nil => simp
  | cons arg rest ih =>
      by_cases empty : arg = ""
      · rw [List.filter_cons_of_neg (by simpa using empty), ih, empty]
        rfl
      · rw [List.filter_cons_of_pos (by simpa using empty), String.intercalate_cons_cons,
          segments_append_slash, List.foldl_append, ih]
        rfl

/-- **A joined path is walked argument after argument.** -/
theorem locate_join (cwd : List String) {first : String} (nonempty : first ≠ "")
    (rest : List String) :
    locate cwd (join (first :: rest)) =
      rest.foldl (fun location arg => (segments arg).foldl follow location) (locate cwd first) := by
  have absolute (others : List String) :
      isAbsolute ("/".intercalate (first :: others)) = isAbsolute first := by
    cases others with
    | nil => rw [String.intercalate_singleton]
    | cons next others =>
        rw [String.intercalate_cons_cons, String.append_assoc, isAbsolute_append nonempty]
  unfold join
  rw [List.filter_cons_of_pos (by simpa using nonempty)]
  dsimp only
  rw [locate_normalize, locate, foldl_segments_intercalate, absolute]
  rfl

end DistributedFileStorage.Paths
