import DistributedFileStorage.Encoding.Decimal
import DistributedFileStorage.Encoding.Uuid
import Mathlib.Algebra.Order.Ring.Rat
import Mathlib.Logic.Function.Basic

/-!
# Values in columns

A statement assigns values of a program to the columns of a row. A column stores a value of its
type, a number or a time when it is in range, and `NULL` when it may be empty. The driver gives back
what was stored, but a column of the type `BIGINT` as a decimal text.

Not every text is stored as it is. A text of the server has no character NUL. A column of the type
`UUID` takes any spelling of a UUID, and gives back the canonical one. A column of the type
`VARCHAR(n)` takes a text of at most `n` characters, and cuts off what is longer by spaces only. What
a column gives back is the value itself exactly when it preserves the value
(`ColumnType.load_eq_iff`).

A row whose key is new, and that refers to rows that exist, is appended (`Schema.insert_of_fresh`).
-/

set_option autoImplicit false

namespace DistributedFileStorage.Relational.Columns

open Encoding

/-! ## Values -/

/-- What a property of an object holds. -/
inductive Value where
  | undefined
  | null
  | nan
  | number (value : ℚ)
  | text (value : String)
  | date (time : ℤ)
  | texts (values : List String)
  deriving DecidableEq

namespace Value

def isNullish : Value → Bool
  | undefined => true
  | null => true
  | _ => false

def isFalsy : Value → Bool
  | undefined => true
  | null => true
  | nan => true
  | number value => value = 0
  | text value => value = ""
  | _ => false

/-- `value || null`. -/
def orNull (value : Value) : Value := if value.isFalsy then null else value

/-- `parseInt(value)`, of a text. What the driver gives instead of one has no digits. -/
def parsed : Value → Value
  | text value => match parseInt value with
      | some result => number result
      | none => nan
  | _ => nan

/-- Two values are the same, where an absent value is `null` or `undefined`. -/
def Agrees (value other : Value) : Prop :=
  value = other ∨ (value.isNullish = true ∧ other.isNullish = true)

instance (value other : Value) : Decidable (value.Agrees other) :=
  inferInstanceAs (Decidable (_ ∨ _))

end Value

/-- Only an absent value agrees with another one. -/
theorem Value.agrees_iff_of_present {value other : Value} (present : other.isNullish = false) :
    value.Agrees other ↔ value = other := by
  refine ⟨fun agrees => agrees.resolve_right fun absent => ?_, .inl⟩
  rw [present] at absent
  exact nomatch absent.2

/-- An object, by the values of its properties. -/
abbrev Object : Type := String → Value

/-! ## Texts -/

/-- A text of the server, which has no character NUL. -/
def plainText (text : String) : Option String :=
  if Char.ofNat 0 ∈ text.toList then none else some text

/-- A text in a column for a number of characters. Spaces at its end that are too many are cut
off. -/
def characterVarying (limit : ℕ) (text : String) : Option String :=
  if text.toList.length ≤ limit then some text
  else if (text.toList.drop limit).all fun character => character = ' ' then
    some (String.ofList (text.toList.take limit))
  else none

theorem eq_of_plainText {text plain : String} (same : plainText text = some plain) :
    plain = text := by
  unfold plainText at same
  split at same
  · cases same
  · exact (Option.some.inj same).symm

/-- A text that is stored is not cut exactly when it is short enough. -/
theorem characterVarying_eq_iff {limit : ℕ} {text stored : String}
    (stores : characterVarying limit text = some stored) :
    stored = text ↔ text.toList.length ≤ limit := by
  unfold characterVarying at stores
  by_cases short : text.toList.length ≤ limit
  · rw [if_pos short] at stores
    exact iff_of_true (Option.some.inj stores).symm short
  · rw [if_neg short] at stores
    split at stores
    · refine iff_of_false (fun same => short ?_) short
      rw [← same, ← Option.some.inj stores, String.toList_ofList]
      exact List.length_take_le _ _
    · cases stores

example : characterVarying 3 "abc " = some "abc" ∧ characterVarying 3 "abcd" = none := by
  decide +kernel

/-! ## Columns -/

/-- What a column of a row holds. -/
inductive Cell where
  | null
  | integer (value : ℤ)
  | bigint (value : ℤ)
  | uuid (id : Uuid)
  | text (value : String)
  | timestamp (time : ℤ)
  | texts (values : List String)
  deriving DecidableEq

inductive ColumnType where
  | integer
  | bigint
  | uuid
  | varchar (limit : ℕ)
  | timestamp
  /-- `TEXT[]` -/
  | texts
  deriving DecidableEq

/-- The numbers that the column can hold. A time is a number of milliseconds since the epoch; the
first one is in the year 4714 before the common era. -/
def ColumnType.InRange (type : ColumnType) (value : ℤ) : Prop :=
  match type with
  | .integer => -2 ^ 31 ≤ value ∧ value < 2 ^ 31
  | .bigint => -2 ^ 63 ≤ value ∧ value < 2 ^ 63
  | .timestamp => -210866803200000 ≤ value ∧ value < 9224318016000000
  | _ => False

instance (type : ColumnType) (value : ℤ) : Decidable (type.InRange value) :=
  match type with
  | .integer => inferInstanceAs (Decidable (_ ∧ _))
  | .bigint => inferInstanceAs (Decidable (_ ∧ _))
  | .timestamp => inferInstanceAs (Decidable (_ ∧ _))
  | .uuid => .isFalse id
  | .varchar _ => .isFalse id
  | .texts => .isFalse id

/-- What a value is as one of the type, when it can be one. -/
def ColumnType.cast : ColumnType → Value → Option Cell
  | _, .undefined => some .null
  | _, .null => some .null
  | .integer, .number value =>
      if value.den = 1 ∧ ColumnType.integer.InRange value.num then some (.integer value.num)
      else none
  | .bigint, .number value =>
      if value.den = 1 ∧ ColumnType.bigint.InRange value.num then some (.bigint value.num) else none
  | .uuid, .text value => (Uuid.parse value).map .uuid
  | .varchar _, .text value => (plainText value).map .text
  | .timestamp, .date time =>
      if ColumnType.timestamp.InRange time then some (.timestamp time) else none
  | .texts, .texts values =>
      if values.all fun value => (plainText value).isSome then some (.texts values) else none
  | _, _ => none

/-- What the column stores of a value of its type. -/
def ColumnType.limited : ColumnType → Cell → Option Cell
  | .varchar limit, .text value => (characterVarying limit value).map .text
  | _, cell => some cell

/-- What the column stores of a value, when it accepts it. -/
def ColumnType.store (type : ColumnType) (value : Value) : Option Cell :=
  (type.cast value).bind type.limited

/-- The column gives the value back as it is: a UUID in its canonical text, a text that fits. -/
def ColumnType.preserves : ColumnType → Value → Bool
  | .uuid, .text value => (Uuid.parse value).map Uuid.text = some value
  | .varchar limit, .text value => (plainText value).isSome && value.toList.length ≤ limit
  | .timestamp, .date time => ColumnType.timestamp.InRange time
  | .texts, .texts values => values.all fun value => (plainText value).isSome
  | _, _ => true

/-- What the driver gives for a cell. -/
def Cell.load : Cell → Value
  | null => .null
  | integer value => .number value
  | bigint value => .text value.repr
  | uuid id => .text id.text
  | text value => .text value
  | timestamp time => .date time
  | texts values => .texts values

structure Column where
  name : String
  type : ColumnType
  nullable : Bool := false
  deriving DecidableEq

/-- The column refers to a column of another table. -/
structure ForeignKey where
  column : String
  table : String
  references : String

structure Schema where
  name : String
  columns : List Column
  primaryKey : List String
  foreignKeys : List ForeignKey := []

/-! ## Statements -/

abbrev Row : Type := String → Cell

/-- The rows of each table. -/
abbrev Tables : Type := String → List Row

inductive OnConflict where
  | reject
  | doNothing
  | doUpdate (columns : List String)

inductive Rejection where
  | invalid
  | uniqueViolation
  | foreignKeyViolation

/-- The cell of a column for the values that a statement assigns, unless it is not accepted. -/
def Column.cell (column : Column) (assigned : List (String × Value)) : Option Cell :=
  (column.type.store ((assigned.lookup column.name).getD .undefined)).filter fun cell =>
    column.nullable || cell ≠ .null

namespace Schema

variable (schema : Schema)

def column? (name : String) : Option Column := schema.columns.find? fun column => column.name = name

/-- The row for the values that a statement assigns. -/
def rowOf (assigned : List (String × Value)) : Option Row :=
  if schema.columns.all fun column => (column.cell assigned).isSome then
    some fun name => ((schema.column? name).bind fun column => column.cell assigned).getD .null
  else none

def sameKey (row other : Row) : Bool :=
  schema.primaryKey.all fun column => row column = other column

/-- The row refers to rows that exist. -/
def referencesExist (tables : Tables) (row : Row) : Bool :=
  schema.foreignKeys.all fun key => row key.column = .null ||
    (tables key.table).any fun other => other key.references = row key.column

/-- `INSERT INTO`. -/
def insert (onConflict : OnConflict) (assigned : List (String × Value)) (tables : Tables) :
    Except Rejection Tables :=
  match schema.rowOf assigned with
  | none => .error .invalid
  | some row =>
      if (tables schema.name).any (schema.sameKey row) then
        match onConflict with
        | .reject => .error .uniqueViolation
        | .doNothing => .ok tables
        | .doUpdate columns => .ok (Function.update tables schema.name
            ((tables schema.name).map fun old column =>
              if schema.sameKey row old ∧ column ∈ columns then row column else old column))
      else if schema.referencesExist tables row then
        .ok (Function.update tables schema.name (tables schema.name ++ [row]))
      else .error .foreignKeyViolation

/-- The row has the value in the column. Nothing equals `NULL`, and no row has a value that is none
of the type. -/
def holds (row : Row) (condition : String × Value) : Bool :=
  match (schema.column? condition.1).bind fun column => column.type.cast condition.2 with
  | none => false
  | some cell => cell ≠ .null && row condition.1 = cell

/-- `SELECT *`, with conditions. -/
def select (conditions : List (String × Value)) (tables : Tables) : List Row :=
  (tables schema.name).filter fun row => conditions.all (schema.holds row)

/-- The row as the driver gives it. -/
def fetch (row : Row) : Object := fun name =>
  if (schema.column? name).isSome then (row name).load else .undefined

end Schema

/-! ## What is stored -/

theorem Value.isFalsy_of_isNullish {value : Value} (absent : value.isNullish = true) :
    value.isFalsy = true := by
  cases value with
  | undefined => rfl
  | null => rfl
  | _ => cases absent

theorem ColumnType.limited_null (type : ColumnType) : type.limited .null = some .null := by
  cases type <;> rfl

theorem ColumnType.store_of_isNullish {value : Value} (absent : value.isNullish = true)
    (type : ColumnType) : type.store value = some .null := by
  have null : type.cast value = some .null := by
    cases value with
    | undefined => cases type <;> rfl
    | null => cases type <;> rfl
    | _ => cases absent
  unfold store
  rw [null, Option.bind_some, limited_null]

theorem ColumnType.preserves_of_isNullish {value : Value} (absent : value.isNullish = true)
    (type : ColumnType) : type.preserves value = true := by
  cases value with
  | undefined => cases type <;> rfl
  | null => cases type <;> rfl
  | _ => cases absent

/-- **What comes back is the value** exactly when the column preserves it. -/
theorem ColumnType.load_eq_iff {type : ColumnType} {value : Value} {cell : Cell}
    (present : value.isNullish = false) (stores : type.store value = some cell) :
    (if type = .bigint then cell.load.parsed else cell.load) = value ↔
      type.preserves value = true := by
  obtain ⟨whole, casts, limits⟩ := Option.bind_eq_some_iff.mp stores
  cases value with
  | number value =>
      refine iff_of_true ?_ (by cases type <;> rfl)
      cases type with
      | integer =>
          obtain ⟨⟨integral, _⟩, ⟨⟩⟩ := Option.ite_none_right_eq_some.mp casts
          obtain rfl := Option.some.inj limits
          exact congrArg Value.number (Rat.den_eq_one_iff value |>.mp integral)
      | bigint =>
          obtain ⟨⟨integral, _⟩, ⟨⟩⟩ := Option.ite_none_right_eq_some.mp casts
          obtain rfl := Option.some.inj limits
          rw [if_pos rfl, Cell.load, Value.parsed, parseInt_repr]
          exact congrArg Value.number (Rat.den_eq_one_iff value |>.mp integral)
      | _ => cases casts
  | text text =>
      cases type with
      | uuid =>
          obtain ⟨id, parsed, rfl⟩ := Option.map_eq_some_iff.mp casts
          obtain rfl := Option.some.inj limits
          show Value.text id.text = .text text ↔ decide ((Uuid.parse text).map Uuid.text = _) = true
          rw [parsed, decide_eq_true_eq, Option.map_some, Option.some_inj, Value.text.injEq]
      | varchar limit =>
          obtain ⟨plain, isPlain, rfl⟩ := Option.map_eq_some_iff.mp casts
          obtain rfl := eq_of_plainText isPlain
          obtain ⟨stored, fits, rfl⟩ := Option.map_eq_some_iff.mp limits
          show Value.text stored = .text plain ↔ ((plainText plain).isSome && decide _) = true
          rw [isPlain, Option.isSome_some, Bool.true_and, decide_eq_true_eq, Value.text.injEq]
          exact characterVarying_eq_iff fits
      | _ => cases casts
  | date time =>
      cases type with
      | timestamp =>
          obtain ⟨inRange, ⟨⟩⟩ := Option.ite_none_right_eq_some.mp casts
          obtain rfl := Option.some.inj limits
          exact iff_of_true rfl (decide_eq_true inRange)
      | _ => cases casts
  | texts texts =>
      cases type with
      | texts =>
          obtain ⟨plain, ⟨⟩⟩ := Option.ite_none_right_eq_some.mp casts
          obtain rfl := Option.some.inj limits
          exact iff_of_true rfl plain
      | _ => cases casts
  | nan => cases type <;> cases casts
  | undefined => cases present
  | null => cases present

theorem Column.cell_eq {column : Column} {assigned : List (String × Value)} {value : Value}
    {cell : Cell} (assigns : assigned.lookup column.name = some value)
    (stores : column.type.store value = some cell)
    (accepted : column.nullable = true ∨ cell ≠ .null) : column.cell assigned = some cell := by
  unfold Column.cell
  rw [assigns, Option.getD_some, stores]
  refine Option.filter_some_pos ?_
  rcases accepted with nullable | present
  · rw [nullable, Bool.true_or]
  · rw [decide_eq_true present, Bool.or_true]

namespace Schema

variable {schema : Schema} {assigned : List (String × Value)} {row : Row}

theorem name_of_column? {name : String} {column : Column}
    (found : schema.column? name = some column) : column.name = name := by
  have named := List.find?_some (p := fun column : Column => decide (column.name = name)) found
  exact of_decide_eq_true named

/-- A row holds what each of its columns stores. -/
theorem apply_of_rowOf (made : schema.rowOf assigned = some row) {name : String} {column : Column}
    {cell : Cell} (found : schema.column? name = some column)
    (stored : column.cell assigned = some cell) : row name = cell := by
  unfold rowOf at made
  split at made
  · obtain rfl := Option.some.inj made
    dsimp only
    rw [found, Option.bind_some, stored, Option.getD_some]
  · cases made

/-- Each column accepts what a row has been made of. -/
theorem cell_of_rowOf (made : schema.rowOf assigned = some row) {name : String} {column : Column}
    (found : schema.column? name = some column) : column.cell assigned = some (row name) := by
  have accepted : (column.cell assigned).isSome = true := by
    unfold rowOf at made
    split at made
    · rename_i all
      exact List.all_eq_true.mp all column (List.mem_of_find?_eq_some found)
    · cases made
  obtain ⟨cell, stored⟩ := Option.isSome_iff_exists.mp accepted
  rw [stored, apply_of_rowOf made found stored]

theorem exists_rowOf
    (accepted : ∀ column ∈ schema.columns, ∃ cell, column.cell assigned = some cell) :
    ∃ row, schema.rowOf assigned = some row := by
  unfold rowOf
  rw [if_pos]
  · exact ⟨_, rfl⟩
  · refine List.all_eq_true.mpr fun column member => ?_
    obtain ⟨cell, stored⟩ := accepted column member
    rw [stored]
    rfl

/-- **A row whose key is new is appended**, when the rows it refers to exist. -/
theorem insert_of_fresh {onConflict : OnConflict} {tables : Tables}
    (made : schema.rowOf assigned = some row)
    (fresh : ∀ old ∈ tables schema.name, schema.sameKey row old = false)
    (refers : schema.referencesExist tables row = true) :
    schema.insert onConflict assigned tables =
      .ok (Function.update tables schema.name (tables schema.name ++ [row])) := by
  have noConflict : ¬ (tables schema.name).any (schema.sameKey row) = true := by
    rw [List.any_eq_true]
    rintro ⟨old, member, same⟩
    rw [fresh old member] at same
    cases same
  unfold insert
  rw [made]
  dsimp only
  rw [if_neg noConflict, if_pos refers]

/-- What is selected after a row has been appended. -/
theorem select_append {tables : Tables} (conditions : List (String × Value)) :
    schema.select conditions (Function.update tables schema.name (tables schema.name ++ [row])) =
      schema.select conditions tables ++
        if conditions.all (schema.holds row) then [row] else [] := by
  unfold select
  rw [Function.update_self, List.filter_append]
  congr 1
  split
  · rename_i all
    exact List.filter_eq_self.mpr fun _ member => List.mem_singleton.mp member ▸ all
  · rename_i some
    exact List.filter_eq_nil_iff.mpr fun _ member => List.mem_singleton.mp member ▸ some

theorem sameKey_self (row : Row) : schema.sameKey row row = true :=
  List.all_eq_true.mpr fun _ _ => decide_eq_true rfl

end Schema

end DistributedFileStorage.Relational.Columns
