import DistributedFileStorage.Relational.Columns

/-!
# Objects that are kept in rows

A statement names the columns of a row and gives a parameter for each of them, and a mapper makes an
object of the row that is read back. The lists are written by hand and need not fit together. A
mapping is such a statement with its mapper, for one table and one interface.

A field is wired when the mapper reads it from the column that its parameter is written to, with the
conversion that the type of the column needs. In a mapping whose columns are all wired, the object
that is read back is the object that was stored exactly when no field is lost and the columns preserve
its values (`Mapping.readsBack_iff`). A field is lost when it is not wired and has a value, or when
`|| null` stands in its parameter and its value is falsy.
-/

set_option autoImplicit false

namespace DistributedFileStorage.Relational.Columns

open Encoding

/-! ## Mappings -/

/-- A parameter of a statement: `record.field`, or `record.field || null`. -/
structure Parameter where
  field : String
  orNull : Bool := false

def Parameter.value (parameter : Parameter) (record : Object) : Value :=
  if parameter.orNull then (record parameter.field).orNull else record parameter.field

/-- An entry of a mapper: `field: row.column`, or `field: parseInt(row.column)`. -/
structure Reader where
  field : String
  column : String
  parse : Bool := false

def Reader.value (reader : Reader) (row : Object) : Value :=
  if reader.parse then (row reader.column).parsed else row reader.column

inductive FieldType where
  | number
  | text
  | oneOf (options : List String)
  | date
  | texts
  deriving DecidableEq

structure Field where
  name : String
  type : FieldType
  optional : Bool := false
  deriving DecidableEq

structure Mapping where
  schema : Schema
  /-- the interface of the objects -/
  fields : List Field
  /-- the columns that the `INSERT` names, and its parameters -/
  columns : List String
  parameters : List Parameter
  onConflict : OnConflict := .reject
  /-- the conditions of the `SELECT`: a column, and the field that it has to equal -/
  conditions : List (String × String)
  /-- the operation reads the first row that is selected, or all of them -/
  single : Bool := true
  /-- the mapper -/
  readers : List Reader

namespace Mapping

variable (mapping : Mapping)

def assigned (record : Object) : List (String × Value) :=
  mapping.columns.zip (mapping.parameters.map fun parameter => parameter.value record)

/-- The statement that stores the object. -/
def insert (record : Object) (tables : Tables) : Except Rejection Tables :=
  mapping.schema.insert mapping.onConflict (mapping.assigned record) tables

/-- The rows that are selected for the object. -/
def select (record : Object) (tables : Tables) : List Row :=
  mapping.schema.select
    (mapping.conditions.map fun condition => (condition.1, record condition.2)) tables

/-- The object that the mapper makes of a row. -/
def decode (row : Row) : Object := fun name =>
  match mapping.readers.find? fun reader => reader.field = name with
  | none => .undefined
  | some reader => reader.value (mapping.schema.fetch row)

/-- `rows.length === 0 ? null : mapTo(rows[0])`. -/
def readOne (record : Object) (tables : Tables) : Option Object :=
  (mapping.select record tables).head?.map mapping.decode

/-- `rows.map(mapTo)`. -/
def readAll (record : Object) (tables : Tables) : List Object :=
  (mapping.select record tables).map mapping.decode

/-- The row of the table has the key of the object. -/
def hasKey (record : Object) (row : Row) : Bool :=
  (mapping.schema.rowOf (mapping.assigned record)).any fun own => mapping.schema.sameKey own row

end Mapping

/-! ## Wired fields -/

/-- The column fits the type of the field. -/
def FieldType.suits : FieldType → ColumnType → Bool
  | .number, .integer => true
  | .number, .bigint => true
  | .text, .uuid => true
  | .text, .varchar _ => true
  | .oneOf _, .varchar _ => true
  | .date, .timestamp => true
  | .texts, .texts => true
  | _, _ => false

/-- The value is of the type. A number is an integer in the range of its column, if it has one. -/
def FieldType.Holds (type : FieldType) (column : Option ColumnType) (value : Value) : Prop :=
  match type with
  | .number => match column with
      | none => ∃ number, value = .number number
      | some column => ∃ number : ℤ, value = .number number ∧ column.InRange number
  | .text => ∃ text, value = .text text
  | .oneOf options => ∃ text ∈ options, value = .text text
  | .date => ∃ time, value = .date time
  | .texts => ∃ texts, value = .texts texts

/-- Some value of the type is falsy. -/
def FieldType.hasFalsy : FieldType → Bool
  | .number => true
  | .text => true
  | .oneOf options => options.any fun option => option = ""
  | .date => false
  | .texts => false

/-- The way of a field through a row. -/
structure Wire where
  parameter : Parameter
  column : Column
  reader : Reader

/-- The parameter is that of the field, its column accepts all values of the field, and what is read
from a `BIGINT` is parsed and nothing else is. -/
def Wire.fits (wire : Wire) (field : Field) : Bool :=
  let present := !field.optional && !wire.parameter.orNull
  wire.parameter.field = field.name && field.type.suits wire.column.type &&
    (wire.column.nullable || present) && wire.reader.parse = decide (wire.column.type = .bigint) &&
      (!wire.reader.parse || present)

namespace Mapping

variable (mapping : Mapping)

/-- The wire of a field: the mapper reads it from a column that its parameter is written to. -/
def wire (field : Field) : Option Wire := do
  let reader ← mapping.readers.find? fun reader => reader.field = field.name
  let column ← mapping.schema.column? reader.column
  let parameter ← (mapping.columns.zip mapping.parameters).lookup reader.column
  if Wire.fits ⟨parameter, column, reader⟩ field then some ⟨parameter, column, reader⟩ else none

/-- Every field is wired or not read at all, and every column is that of a wired field. The
conditions of the `SELECT` compare columns with the fields that they keep, and the whole key when
one row is read. -/
structure Sound : Prop where
  fields : ∀ field ∈ mapping.fields, (mapping.wire field).isSome = true ∨
    (mapping.readers.find? fun reader => reader.field = field.name).isNone = true
  columns : ∀ column ∈ mapping.schema.columns, ∃ field ∈ mapping.fields,
    (mapping.wire field).any (fun wire => wire.column = column) = true
  conditions : ∀ condition ∈ mapping.conditions, ∃ field ∈ mapping.fields,
    field.name = condition.2 ∧ field.optional = false ∧ (mapping.wire field).any (fun wire =>
      wire.column.name = condition.1 && !wire.parameter.orNull) = true
  key : mapping.single = true → ∀ column ∈ mapping.schema.primaryKey,
    ∃ condition ∈ mapping.conditions, condition.1 = column

instance : Decidable mapping.Sound :=
  decidable_of_iff (_ ∧ _ ∧ _ ∧ _) ⟨fun ⟨fields, columns, conditions, key⟩ =>
    ⟨fields, columns, conditions, key⟩, fun sound =>
      ⟨sound.fields, sound.columns, sound.conditions, sound.key⟩⟩

/-- The object is one of the interface, with numbers in the ranges of their columns. -/
def WellTyped (record : Object) : Prop :=
  ∀ field ∈ mapping.fields, (field.optional = true ∧ (record field.name).isNullish = true) ∨
    field.type.Holds ((mapping.wire field).map fun wire => wire.column.type) (record field.name)

/-- The columns give the values of the object back as they are. -/
def Preserved (record : Object) : Prop :=
  ∀ field ∈ mapping.fields,
    (mapping.wire field).all (fun wire => wire.column.type.preserves (record field.name)) = true

instance (record : Object) : Decidable (mapping.Preserved record) :=
  inferInstanceAs (Decidable (∀ _ ∈ _, _))

/-- The object can be inserted: its row refers to rows that exist, and no row has its key. -/
structure Fresh (record : Object) (tables : Tables) : Prop where
  key : ∀ row ∈ tables mapping.schema.name, mapping.hasKey record row = false
  references : ∀ row, mapping.schema.rowOf (mapping.assigned record) = some row →
    mapping.schema.referencesExist tables row = true

instance (record : Object) (tables : Tables) : Decidable (mapping.Fresh record tables) :=
  decidable_of_iff ((∀ row ∈ tables mapping.schema.name, mapping.hasKey record row = false) ∧
    (mapping.schema.rowOf (mapping.assigned record)).all
      (mapping.schema.referencesExist tables) = true)
    ⟨fun ⟨key, references⟩ => ⟨key, (Option.all_eq_true _ _).mp references⟩,
      fun fresh => ⟨fresh.key, (Option.all_eq_true _ _).mpr fresh.references⟩⟩

/-- The object is inserted, and exactly one object that is then read has its key. This object has
the same fields, and where one row is read it is that of this object. -/
def ReadsBack (record : Object) (tables : Tables) : Prop :=
  ∃ stored, mapping.insert record tables = .ok stored ∧
    ∃ row, (mapping.select record stored).filter (mapping.hasKey record) = [row] ∧
      (mapping.single = true → mapping.readOne record stored = some (mapping.decode row)) ∧
      mapping.decode row ∈ mapping.readAll record stored ∧
      ∀ field ∈ mapping.fields, (mapping.decode row field.name).Agrees (record field.name)

/-- The field is not lost. -/
def Keeps (field : Field) (value : Value) : Prop :=
  match mapping.wire field with
  | none => value.isNullish = true
  | some wire =>
      wire.parameter.orNull = true → value.isFalsy = true → value.isNullish = true

/-- Some value of the field is lost. -/
def loses (field : Field) : Bool :=
  match mapping.wire field with
  | none => true
  | some wire => wire.parameter.orNull && field.type.hasFalsy

end Mapping

/-! ## The way of a value -/

/-- A text is stored in a column that preserves it. -/
theorem ColumnType.exists_store_text {column : ColumnType} {text : String}
    (suits : FieldType.text.suits column = true) (preserved : column.preserves (.text text) = true) :
    ∃ cell, column.store (.text text) = some cell ∧ cell ≠ .null := by
  cases column with
  | uuid =>
      obtain ⟨id, parsed, _⟩ := Option.map_eq_some_iff.mp (of_decide_eq_true preserved)
      refine ⟨.uuid id, Option.bind_eq_some_iff.mpr ⟨.uuid id, ?_, rfl⟩, nofun⟩
      exact Option.map_eq_some_iff.mpr ⟨id, parsed, rfl⟩
  | varchar limit =>
      obtain ⟨plain, short⟩ := Bool.and_eq_true_iff.mp preserved
      obtain ⟨same, isPlain⟩ := Option.isSome_iff_exists.mp plain
      obtain rfl := eq_of_plainText isPlain
      refine ⟨.text same, Option.bind_eq_some_iff.mpr ⟨.text same, ?_, ?_⟩, nofun⟩
      · exact Option.map_eq_some_iff.mpr ⟨same, isPlain, rfl⟩
      · exact Option.map_eq_some_iff.mpr ⟨same, if_pos (of_decide_eq_true short), rfl⟩
  | _ => cases suits

/-- A value of the type is stored in a column that suits it and preserves it. -/
theorem FieldType.exists_store {type : FieldType} {column : ColumnType} {value : Value}
    (suits : type.suits column = true) (holds : type.Holds (some column) value)
    (preserved : column.preserves value = true) :
    ∃ cell, column.store value = some cell ∧ cell ≠ .null := by
  cases type with
  | number =>
      obtain ⟨number, rfl, inRange⟩ := holds
      cases column with
      | integer =>
          exact ⟨.integer number, Option.bind_eq_some_iff.mpr ⟨_, if_pos ⟨rfl, inRange⟩, rfl⟩, nofun⟩
      | bigint =>
          exact ⟨.bigint number, Option.bind_eq_some_iff.mpr ⟨_, if_pos ⟨rfl, inRange⟩, rfl⟩, nofun⟩
      | _ => cases suits
  | text =>
      obtain ⟨text, rfl⟩ := holds
      exact ColumnType.exists_store_text suits preserved
  | oneOf options =>
      obtain ⟨text, _, rfl⟩ := holds
      refine ColumnType.exists_store_text ?_ preserved
      cases column with
      | varchar limit => rfl
      | _ => cases suits
  | date =>
      obtain ⟨time, rfl⟩ := holds
      cases column with
      | timestamp =>
          have inRange := of_decide_eq_true preserved
          exact ⟨.timestamp time, Option.bind_eq_some_iff.mpr ⟨_, if_pos inRange, rfl⟩, nofun⟩
      | _ => cases suits
  | texts =>
      obtain ⟨texts, rfl⟩ := holds
      cases column with
      | texts => exact ⟨.texts texts, Option.bind_eq_some_iff.mpr ⟨_, if_pos preserved, rfl⟩, nofun⟩
      | _ => cases suits

/-- A value that is preserved is compared as it is stored. -/
theorem ColumnType.cast_of_store {type : ColumnType} {value : Value} {cell : Cell}
    (stores : type.store value = some cell) (preserved : type.preserves value = true) :
    type.cast value = some cell := by
  obtain ⟨whole, casts, limits⟩ := Option.bind_eq_some_iff.mp stores
  rw [casts, ← limits]
  cases type with
  | varchar limit =>
      cases value with
      | text text =>
          obtain ⟨plain, isPlain, rfl⟩ := Option.map_eq_some_iff.mp casts
          obtain rfl := eq_of_plainText isPlain
          have short := of_decide_eq_true (Bool.and_eq_true_iff.mp preserved).2
          exact (Option.map_eq_some_iff.mpr ⟨plain, if_pos short, rfl⟩).symm
      | undefined =>
          obtain rfl := Option.some.inj casts
          rfl
      | null =>
          obtain rfl := Option.some.inj casts
          rfl
      | _ => cases casts
  | _ => rfl

/-- A value of a type is present. -/
theorem FieldType.isNullish_of_holds {type : FieldType} {column : Option ColumnType}
    {value : Value} (holds : type.Holds column value) : value.isNullish = false := by
  cases type with
  | number =>
      cases column with
      | none =>
          obtain ⟨_, rfl⟩ := holds
          rfl
      | some column =>
          obtain ⟨_, rfl, _⟩ := holds
          rfl
  | oneOf options =>
      obtain ⟨_, _, rfl⟩ := holds
      rfl
  | _ =>
      obtain ⟨_, rfl⟩ := holds
      rfl

theorem FieldType.isFalsy_of_holds {type : FieldType} {column : Option ColumnType} {value : Value}
    (holds : type.Holds column value) (never : type.hasFalsy = false) : value.isFalsy = false := by
  cases type with
  | oneOf options =>
      obtain ⟨text, member, rfl⟩ := holds
      have present := List.any_eq_false.mp never text member
      exact decide_eq_false fun empty => present (decide_eq_true empty)
  | date =>
      obtain ⟨_, rfl⟩ := holds
      rfl
  | texts =>
      obtain ⟨_, rfl⟩ := holds
      rfl
  | _ => cases never

/-- What `Holds` says of a value, computed. -/
def FieldType.holds : FieldType → Option ColumnType → Value → Bool
  | .number, none, .number _ => true
  | .number, some column, .number value => value.den = 1 && column.InRange value.num
  | .text, _, .text _ => true
  | .oneOf options, _, .text value => value ∈ options
  | .date, _, .date _ => true
  | .texts, _, .texts _ => true
  | _, _, _ => false

theorem FieldType.holds_iff {type : FieldType} {column : Option ColumnType} {value : Value} :
    type.holds column value = true ↔ type.Holds column value := by
  cases type with
  | number =>
      cases column with
      | none => cases value <;> simp [FieldType.holds, FieldType.Holds]
      | some column =>
          cases value with
          | number value =>
              simp only [FieldType.holds, FieldType.Holds, Bool.and_eq_true, decide_eq_true_eq]
              constructor
              · rintro ⟨whole, inRange⟩
                exact ⟨value.num, congrArg _ (Rat.den_eq_one_iff value |>.mp whole).symm, inRange⟩
              · rintro ⟨number, same, inRange⟩
                obtain rfl := Value.number.inj same
                exact ⟨rfl, inRange⟩
          | _ => simp [FieldType.holds, FieldType.Holds]
  | _ => cases value <;> simp [FieldType.holds, FieldType.Holds]

instance (type : FieldType) (column : Option ColumnType) (value : Value) :
    Decidable (type.Holds column value) :=
  decidable_of_iff _ FieldType.holds_iff

theorem lookup_zip_map {α β : Type} (read : α → β) (names : List String) (values : List α)
    (name : String) :
    (names.zip (values.map read)).lookup name = ((names.zip values).lookup name).map read := by
  induction names generalizing values with
  | nil => rfl
  | cons first names ih =>
      cases values with
      | nil => rfl
      | cons value values =>
          simp only [List.map_cons, List.zip_cons_cons, List.lookup_cons]
          split
          · rfl
          · exact ih values

namespace Mapping

variable {mapping : Mapping} {field : Field} {wire : Wire} {record : Object}

theorem wire_eq_some (wired : mapping.wire field = some wire) :
    (mapping.readers.find? fun reader => reader.field = field.name) = some wire.reader ∧
      mapping.schema.column? wire.reader.column = some wire.column ∧
      (mapping.columns.zip mapping.parameters).lookup wire.reader.column = some wire.parameter ∧
      wire.fits field = true := by
  unfold Mapping.wire at wired
  obtain ⟨reader, reads, wired⟩ := Option.bind_eq_some_iff.mp wired
  obtain ⟨column, found, wired⟩ := Option.bind_eq_some_iff.mp wired
  obtain ⟨parameter, writes, wired⟩ := Option.bind_eq_some_iff.mp wired
  split at wired
  · rename_i fits
    obtain rfl := Option.some.inj wired
    exact ⟨reads, found, writes, fits⟩
  · cases wired

/-- What `fits` says. -/
structure Fits (wire : Wire) (field : Field) : Prop where
  same : wire.parameter.field = field.name
  suits : field.type.suits wire.column.type = true
  accepts : wire.column.nullable = true ∨
    (field.optional = false ∧ wire.parameter.orNull = false)
  parses : wire.reader.parse = decide (wire.column.type = .bigint)
  present : wire.reader.parse = true →
    field.optional = false ∧ wire.parameter.orNull = false

theorem fits_iff : wire.fits field = true ↔ Fits wire field := by
  simp only [Wire.fits, Bool.and_eq_true, Bool.or_eq_true, decide_eq_true_eq, Bool.not_eq_true']
  constructor
  · rintro ⟨⟨⟨⟨same, suits⟩, accepts⟩, parses⟩, present⟩
    refine ⟨same, suits, accepts, parses, fun parse => present.resolve_left ?_⟩
    rw [parse]
    nofun
  · rintro ⟨same, suits, accepts, parses, present⟩
    refine ⟨⟨⟨⟨same, suits⟩, accepts⟩, parses⟩, ?_⟩
    cases parse : wire.reader.parse with
    | true => exact .inr (present parse)
    | false => exact .inl rfl

/-- What comes back of a value. -/
def kept (wire : Wire) (value : Value) : Value :=
  if value.isNullish || (wire.parameter.orNull && value.isFalsy) then .null else value

/-- The parameter of a wired field gives what comes back, or nothing. -/
theorem parameter_value (record : Object) (fits : Fits wire field) :
    (wire.parameter.value record).isNullish = true ∧ kept wire (record field.name) = .null ∨
      wire.parameter.value record = record field.name ∧
        kept wire (record field.name) = record field.name ∧
        (record field.name).isNullish = false := by
  unfold Parameter.value kept
  rw [fits.same]
  cases absent : (record field.name).isNullish with
  | true =>
      refine .inl ⟨?_, rfl⟩
      split
      · unfold Value.orNull
        rw [Value.isFalsy_of_isNullish absent]
        rfl
      · exact absent
  | false =>
      cases orNull : wire.parameter.orNull with
      | false => exact .inr ⟨rfl, rfl, rfl⟩
      | true =>
          unfold Value.orNull
          cases falsy : (record field.name).isFalsy with
          | true => exact .inl ⟨rfl, rfl⟩
          | false => exact .inr ⟨rfl, rfl, rfl⟩

/-- What a wired field assigns to its column. -/
theorem lookup_assigned (wired : mapping.wire field = some wire) :
    (mapping.assigned record).lookup wire.column.name = some (wire.parameter.value record) := by
  obtain ⟨_, found, writes, _⟩ := wire_eq_some wired
  unfold assigned
  rw [lookup_zip_map, Schema.name_of_column? found, writes]
  rfl

/-- The column of a wired field holds a value that is present. -/
theorem exists_cell_of_holds (wired : mapping.wire field = some wire)
    (same : wire.parameter.value record = record field.name)
    (holds : field.type.Holds (some wire.column.type) (record field.name))
    (preserved : wire.column.type.preserves (record field.name) = true) :
    ∃ cell, wire.column.type.store (record field.name) = some cell ∧ cell ≠ .null ∧
      wire.column.cell (mapping.assigned record) = some cell := by
  have fits := fits_iff.mp (wire_eq_some wired).2.2.2
  obtain ⟨cell, stores, some⟩ := FieldType.exists_store fits.suits holds preserved
  exact ⟨cell, stores, some, Column.cell_eq (lookup_assigned wired) (same ▸ stores) (.inr some)⟩

/-- **The column of a wired field accepts the object.** -/
theorem exists_cell (wired : mapping.wire field = some wire)
    (typed : (field.optional = true ∧ (record field.name).isNullish = true) ∨
      field.type.Holds (some wire.column.type) (record field.name))
    (preserved : wire.column.type.preserves (record field.name) = true) :
    ∃ cell, wire.column.cell (mapping.assigned record) = some cell := by
  have fits := fits_iff.mp (wire_eq_some wired).2.2.2
  rcases parameter_value record fits with ⟨absent, _⟩ | ⟨same, _, present⟩
  · -- a field that may be absent has a column that may be empty
    have maybe : ¬ (field.optional = false ∧ wire.parameter.orNull = false) := by
      rintro ⟨required, plain⟩
      have holds := typed.resolve_left fun absent => by
        rw [required] at absent
        exact nomatch absent.1
      unfold Parameter.value at absent
      rw [plain, fits.same, if_neg nofun, FieldType.isNullish_of_holds holds] at absent
      cases absent
    exact ⟨.null, Column.cell_eq (lookup_assigned wired) (ColumnType.store_of_isNullish absent _)
      (.inl (fits.accepts.resolve_right maybe))⟩
  · have holds := typed.resolve_left fun absent => by
      rw [present] at absent
      exact nomatch absent.2
    obtain ⟨cell, _, _, stored⟩ := exists_cell_of_holds wired same holds preserved
    exact ⟨cell, stored⟩

/-- A wired field is read from its column. -/
theorem decode_of_wire (wired : mapping.wire field = some wire) (row : Row) :
    mapping.decode row field.name = if wire.reader.parse then (row wire.column.name).load.parsed
      else (row wire.column.name).load := by
  obtain ⟨reads, found, _, _⟩ := wire_eq_some wired
  have fetched : mapping.schema.fetch row wire.reader.column = (row wire.column.name).load := by
    unfold Schema.fetch
    rw [found, Option.isSome_some, if_pos rfl, Schema.name_of_column? found]
  unfold decode
  rw [reads]
  show (if wire.reader.parse then (mapping.schema.fetch row wire.reader.column).parsed
    else mapping.schema.fetch row wire.reader.column) = _
  rw [fetched]

/-- What the column of a wired field stores. -/
theorem store_of_made {row : Row} (wired : mapping.wire field = some wire)
    (made : mapping.schema.rowOf (mapping.assigned record) = some row) :
    wire.column.type.store (wire.parameter.value record) = some (row wire.column.name) := by
  obtain ⟨_, found, _, _⟩ := wire_eq_some wired
  have stored := Schema.cell_of_rowOf made found
  rw [← Schema.name_of_column? found] at stored
  unfold Column.cell at stored
  rw [lookup_assigned wired, Option.getD_some] at stored
  exact (Option.filter_eq_some_iff.mp stored).1

/-- What comes back is the value, unless it is lost. -/
theorem agrees_kept {value : Value} :
    (kept wire value).Agrees value ↔
      (wire.parameter.orNull = true → value.isFalsy = true → value.isNullish = true) := by
  unfold kept Value.Agrees
  cases absent : value.isNullish with
  | true => exact iff_of_true (.inr ⟨rfl, rfl⟩) fun _ _ => rfl
  | false =>
      by_cases lost : wire.parameter.orNull = true ∧ value.isFalsy = true
      · rw [lost.1, lost.2]
        refine iff_of_false ?_ fun keeps => nomatch keeps rfl rfl
        rintro (same | absent)
        · rw [← same] at absent
          cases absent
        · cases absent.2
      · refine iff_of_true (.inl (if_neg ?_)) fun orNull falsy => absurd ⟨orNull, falsy⟩ lost
        rwa [Bool.false_or, Bool.and_eq_true]

/-- A value of which nothing comes back is absent, unless it is lost. -/
theorem isNullish_of_kept {value : Value} (nothing : kept wire value = .null)
    (keeps : wire.parameter.orNull = true → value.isFalsy = true → value.isNullish = true) :
    value.isNullish = true := by
  unfold kept at nothing
  split at nothing
  · rename_i absent
    rcases (Bool.or_eq_true _ _).mp absent with absent | lost
    · exact absent
    · exact keeps (Bool.and_eq_true_iff.mp lost).1 (Bool.and_eq_true_iff.mp lost).2
  · rw [nothing]
    rfl

/-- **A field that is read back** agrees with what was stored exactly when it is not lost and its
column preserves it. -/
theorem agrees_iff {row : Row} (sound : mapping.Sound) (member : field ∈ mapping.fields)
    (made : mapping.schema.rowOf (mapping.assigned record) = some row)
    (typed : mapping.WellTyped record) :
    (mapping.decode row field.name).Agrees (record field.name) ↔
      mapping.Keeps field (record field.name) ∧
        (mapping.wire field).all (fun wire =>
          wire.column.type.preserves (record field.name)) = true := by
  have typed := typed field member
  unfold Keeps
  cases wired : mapping.wire field with
  | none =>
      have unread := (sound.fields field member).resolve_left (by rw [wired]; nofun)
      have nothing : mapping.decode row field.name = .undefined := by
        unfold decode
        rw [Option.isNone_iff_eq_none.mp unread]
      rw [nothing]
      constructor
      · rintro (same | ⟨_, absent⟩)
        · dsimp only
          rw [← same]
          exact ⟨rfl, rfl⟩
        · exact ⟨absent, rfl⟩
      · exact fun absent => .inr ⟨rfl, absent.1⟩
  | some wire =>
      rw [wired] at typed
      rw [decode_of_wire wired, Option.all_some]
      have fits := fits_iff.mp (wire_eq_some wired).2.2.2
      have stores := store_of_made wired made
      rcases parameter_value record fits with ⟨absent, nothing⟩ | ⟨same, all, present⟩
      · rw [ColumnType.store_of_isNullish absent] at stores
        have plain : wire.reader.parse = false := by
          refine Bool.eq_false_iff.mpr fun parses => ?_
          obtain ⟨required, always⟩ := fits.present parses
          have holds := typed.resolve_left fun absent => by
            rw [required] at absent
            exact nomatch absent.1
          unfold Parameter.value at absent
          rw [always, fits.same, if_neg nofun, FieldType.isNullish_of_holds holds] at absent
          cases absent
        rw [← Option.some.inj stores, plain, if_neg nofun]
        show Value.null.Agrees _ ↔ _
        rw [← nothing, agrees_kept]
        refine ⟨fun keeps => ⟨keeps, ?_⟩, And.left⟩
        exact ColumnType.preserves_of_isNullish (isNullish_of_kept nothing keeps) _
      · rw [same] at stores
        have keeps := agrees_kept.mp (.inl all)
        rw [and_iff_right keeps, ← ColumnType.load_eq_iff present stores, fits.parses]
        have decides : (if decide (wire.column.type = .bigint) = true then
            (row wire.column.name).load.parsed else (row wire.column.name).load) =
              if wire.column.type = .bigint then (row wire.column.name).load.parsed
              else (row wire.column.name).load := by
          simp only [decide_eq_true_eq]
        rw [decides, Value.agrees_iff_of_present present]

/-- The statement accepts the object. -/
theorem exists_row (sound : mapping.Sound) (typed : mapping.WellTyped record)
    (preserved : mapping.Preserved record) :
    ∃ row, mapping.schema.rowOf (mapping.assigned record) = some row := by
  refine Schema.exists_rowOf fun column member => ?_
  obtain ⟨field, declared, wired⟩ := sound.columns column member
  obtain ⟨wire, found, same⟩ := (Option.any_eq_true _ _).mp wired
  obtain rfl := of_decide_eq_true same
  have typed := typed field declared
  have preserved := preserved field declared
  rw [found] at typed preserved
  exact exists_cell found typed preserved

/-- The row of the object has the values of the conditions. -/
theorem holds_conditions {row : Row} (sound : mapping.Sound) (typed : mapping.WellTyped record)
    (preserved : mapping.Preserved record)
    (made : mapping.schema.rowOf (mapping.assigned record) = some row) :
    (mapping.conditions.map fun condition => (condition.1, record condition.2)).all
      (mapping.schema.holds row) = true := by
  refine List.all_eq_true.mpr fun condition member => ?_
  obtain ⟨⟨name, _⟩, listed, rfl⟩ := List.mem_map.mp member
  obtain ⟨field, declared, rfl, required, wired⟩ := sound.conditions _ listed
  obtain ⟨wire, written, named⟩ := (Option.any_eq_true _ _).mp wired
  obtain ⟨named, plain⟩ := Bool.and_eq_true_iff.mp named
  obtain rfl : wire.column.name = name := of_decide_eq_true named
  obtain ⟨_, found, _, fits⟩ := wire_eq_some written
  rw [← Schema.name_of_column? found] at found
  have typed := typed field declared
  have preserved := preserved field declared
  rw [written] at typed preserved
  have holds := typed.resolve_left fun absent => by
    rw [required] at absent
    exact nomatch absent.1
  have same : wire.parameter.value record = record field.name := by
    unfold Parameter.value
    rw [(fits_iff.mp fits).same, if_neg (by simpa using plain)]
  obtain ⟨cell, stores, some, stored⟩ := exists_cell_of_holds written same holds preserved
  unfold Schema.holds
  rw [found, Option.bind_some, ColumnType.cast_of_store stores preserved]
  dsimp only
  rw [Schema.apply_of_rowOf made found stored, decide_eq_true some, decide_eq_true rfl]
  rfl

/-- Two rows that satisfy a condition have the same cell in its column. -/
theorem cell_eq_of_holds {schema : Schema} {row other : Row} {condition : String × Value}
    (here : schema.holds row condition = true) (there : schema.holds other condition = true) :
    row condition.1 = other condition.1 := by
  unfold Schema.holds at here there
  split at here
  · cases here
  · rename_i cell stores
    rw [stores] at there
    have same := (Bool.and_eq_true_iff.mp here).2
    have alike := (Bool.and_eq_true_iff.mp there).2
    exact (of_decide_eq_true same).trans (of_decide_eq_true alike).symm

/-- Where one row is read, the conditions compare the whole key. -/
theorem hasKey_of_selected {row old : Row} {tables : Tables} (sound : mapping.Sound)
    (typed : mapping.WellTyped record) (preserved : mapping.Preserved record)
    (made : mapping.schema.rowOf (mapping.assigned record) = some row)
    (single : mapping.single = true) (selected : old ∈ mapping.select record tables) :
    mapping.hasKey record old = true := by
  have both := (List.mem_filter.mp selected).2
  have own := holds_conditions sound typed preserved made
  unfold hasKey
  rw [made]
  refine List.all_eq_true.mpr fun column member => decide_eq_true ?_
  obtain ⟨condition, listed, rfl⟩ := sound.key single column member
  have here := List.all_eq_true.mp both _ (List.mem_map_of_mem listed)
  have there := List.all_eq_true.mp own _ (List.mem_map_of_mem listed)
  exact cell_eq_of_holds there here

theorem hasKey_eq {row : Row} (made : mapping.schema.rowOf (mapping.assigned record) = some row) :
    mapping.hasKey record = mapping.schema.sameKey row := by
  funext other
  unfold hasKey
  rw [made]
  rfl

theorem insert_of_fresh {tables : Tables} {row : Row}
    (made : mapping.schema.rowOf (mapping.assigned record) = some row)
    (fresh : mapping.Fresh record tables) :
    mapping.insert record tables = .ok (Function.update tables mapping.schema.name
      (tables mapping.schema.name ++ [row])) := by
  refine Schema.insert_of_fresh made (fun old member => ?_) (fresh.references row made)
  rw [← hasKey_eq made]
  exact fresh.key old member

/-- The row of the object is selected after the rows that were selected before. -/
theorem select_inserted {row : Row} (sound : mapping.Sound) (typed : mapping.WellTyped record)
    (preserved : mapping.Preserved record)
    (made : mapping.schema.rowOf (mapping.assigned record) = some row) (tables : Tables) :
    mapping.select record (Function.update tables mapping.schema.name
      (tables mapping.schema.name ++ [row])) = mapping.select record tables ++ [row] := by
  unfold select
  rw [Schema.select_append, if_pos (holds_conditions sound typed preserved made)]

/-- What is read of the key of an object after its row has been inserted is this row. -/
theorem eq_of_selected {tables : Tables} {row other : Row}
    (fresh : mapping.Fresh record tables)
    (only : (mapping.select record (Function.update tables mapping.schema.name
      (tables mapping.schema.name ++ [row]))).filter (mapping.hasKey record) = [other]) :
    other = row := by
  have selected : other ∈ (mapping.select record (Function.update tables mapping.schema.name
      (tables mapping.schema.name ++ [row]))).filter (mapping.hasKey record) := by
    rw [only]
    exact List.mem_singleton_self other
  obtain ⟨here, own⟩ := List.mem_filter.mp selected
  have stored := (List.mem_filter.mp here).1
  rw [Function.update_self] at stored
  rcases List.mem_append.mp stored with old | new
  · rw [fresh.key other old] at own
    cases own
  · exact List.mem_singleton.mp new

/-- A statement that is accepted has made its row. -/
theorem exists_row_of_insert {tables stored : Tables}
    (inserted : mapping.insert record tables = .ok stored) :
    ∃ row, mapping.schema.rowOf (mapping.assigned record) = some row := by
  unfold insert Schema.insert at inserted
  split at inserted
  · cases inserted
  · rename_i row made
    exact ⟨row, made⟩

/-- **An object is read back** with the same fields exactly when no field is lost and the columns
preserve its values, in every sound mapping and whatever else is in the tables. -/
theorem readsBack_iff {tables : Tables} (sound : mapping.Sound) (typed : mapping.WellTyped record)
    (fresh : mapping.Fresh record tables) :
    mapping.ReadsBack record tables ↔
      (∀ field ∈ mapping.fields, mapping.Keeps field (record field.name)) ∧
        mapping.Preserved record := by
  constructor
  · rintro ⟨stored, inserted, other, only, _, _, agrees⟩
    obtain ⟨row, made⟩ := exists_row_of_insert inserted
    obtain rfl := Except.ok.inj ((insert_of_fresh made fresh).symm.trans inserted)
    obtain rfl := eq_of_selected fresh only
    have both := fun field member => (agrees_iff sound member made typed).mp (agrees field member)
    exact ⟨fun field member => (both field member).1, fun field member => (both field member).2⟩
  · rintro ⟨keeps, preserved⟩
    obtain ⟨row, made⟩ := exists_row sound typed preserved
    have split := select_inserted sound typed preserved made tables
    have absent : ∀ old ∈ mapping.select record tables, mapping.hasKey record old = false :=
      fun old member => fresh.key old (List.mem_filter.mp member).1
    refine ⟨_, insert_of_fresh made fresh, row, ?_, fun single => ?_, ?_, fun field member =>
      (agrees_iff sound member made typed).mpr ⟨keeps field member, preserved field member⟩⟩
    · have others : (mapping.select record tables).filter (mapping.hasKey record) = [] := by
        refine List.filter_eq_nil_iff.mpr fun old member => ?_
        rw [absent old member]
        nofun
      rw [split, List.filter_append, others, List.nil_append, hasKey_eq made]
      refine List.filter_eq_self.mpr fun other member => ?_
      rw [List.mem_singleton.mp member]
      exact Schema.sameKey_self row
    · have empty : mapping.select record tables = [] := by
        refine List.eq_nil_iff_forall_not_mem.mpr fun old member => ?_
        have here := hasKey_of_selected sound typed preserved made single member
        rw [absent old member] at here
        cases here
      unfold readOne
      rw [split, empty]
      rfl
    · unfold readAll
      rw [split]
      exact List.mem_map_of_mem (List.mem_append_right _ List.mem_cons_self)

/-! ## The fields that can be lost -/

instance : Decidable (mapping.WellTyped record) :=
  inferInstanceAs (Decidable (∀ field ∈ mapping.fields, _))

/-- The fields that keep all their values need not be considered. -/
theorem forall_keeps_iff (typed : mapping.WellTyped record) :
    (∀ field ∈ mapping.fields, mapping.Keeps field (record field.name)) ↔
      ∀ field ∈ mapping.fields.filter mapping.loses,
        mapping.Keeps field (record field.name) := by
  constructor
  · intro keeps field member
    exact keeps field (List.mem_filter.mp member).1
  · intro keeps field member
    cases loses : mapping.loses field with
    | true => exact keeps field (List.mem_filter.mpr ⟨member, loses⟩)
    | false =>
        unfold Mapping.loses at loses
        unfold Keeps
        split at loses
        · cases loses
        · intro orNull falsy
          rw [orNull, Bool.true_and] at loses
          rcases typed field member with ⟨_, absent⟩ | holds
          · exact absent
          · rw [FieldType.isFalsy_of_holds holds loses] at falsy
            cases falsy

/-- A field that is not wired loses every value. -/
theorem keeps_of_isNone {value : Value} (unwired : (mapping.wire field).isNone = true) :
    mapping.Keeps field value ↔ value.isNullish = true := by
  unfold Keeps
  rw [Option.isNone_iff_eq_none.mp unwired]

/-- A text that is written with `|| null` is lost when it is empty. -/
theorem keeps_text (typed : mapping.WellTyped record) (member : field ∈ mapping.fields)
    (text : field.type = .text)
    (wired : (mapping.wire field).any (fun wire => wire.parameter.orNull) = true) :
    mapping.Keeps field (record field.name) ↔ record field.name ≠ .text "" := by
  obtain ⟨wire, found, orNull⟩ := (Option.any_eq_true _ _).mp wired
  unfold Keeps
  rw [found]
  dsimp only
  constructor
  · intro keeps empty
    rw [empty] at keeps
    cases keeps orNull rfl
  · intro present _ falsy
    rcases typed field member with ⟨_, absent⟩ | holds
    · exact absent
    · rw [text] at holds
      obtain ⟨value, same⟩ := holds
      rw [same] at falsy present
      exact absurd (congrArg Value.text (of_decide_eq_true falsy)) present

end Mapping

end DistributedFileStorage.Relational.Columns
