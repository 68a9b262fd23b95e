import DistributedFileStorage.Relational.RowMapping
import Mathlib.Data.List.Nodup
import Mathlib.Data.List.Range

/-!
# Updates of rows

An operation takes some fields of an object and builds an `UPDATE` of one row: for each of its
fields that is present it adds an assignment with the next placeholder to the text, and the value to
the parameters. The placeholders are the numbers from one on, and each stands for its own value
(`Update.matched`).

The row that is read back afterwards has the fields that are present, and every other field and row
is as before, exactly when the columns preserve their values, and no field is present that the
operation passes over, or it has the value already (`Update.applies_iff`).
-/

set_option autoImplicit false

namespace DistributedFileStorage.Relational.Columns

open Encoding

/-! ## Statements -/

namespace Schema

variable (schema : Schema)

/-- The row after an assignment to some of its columns. -/
def assign (assigned : List (String × Value)) (row : Row) : Row := fun name =>
  if (assigned.lookup name).isSome then
    ((schema.column? name).bind fun column => column.cell assigned).getD .null
  else row name

/-- The value can be one of the type of the column. -/
def takes (assignment : String × Value) : Bool :=
  ((schema.column? assignment.1).bind fun column => column.type.cast assignment.2).isSome

/-- The column stores the value, and may be empty if it is `NULL`. -/
def accepts (assigned : List (String × Value)) (assignment : String × Value) : Bool :=
  ((schema.column? assignment.1).bind fun column => column.cell assigned).isSome

/-- `UPDATE … SET … WHERE`. A value of another type is rejected in any case, and one that is too long
or `NULL` when a row would get it. -/
def update (assigned : List (String × Value)) (condition : String × Value) (tables : Tables) :
    Except Rejection Tables :=
  if assigned.all schema.takes then
    if (tables schema.name).any (fun row => schema.holds row condition) ∧
        ¬ assigned.all (schema.accepts assigned) then .error .invalid
    else .ok (Function.update tables schema.name ((tables schema.name).map fun row =>
      if schema.holds row condition then schema.assign assigned row else row))
  else .error .invalid

end Schema

/-- `column = $placeholder`. -/
structure SetClause where
  column : String
  placeholder : ℕ
  deriving DecidableEq

def SetClause.text (clause : SetClause) : String := s!"{clause.column} = ${clause.placeholder}"

/-- An `UPDATE` with placeholders, and the values for them. -/
structure UpdateQuery where
  table : String
  fields : List SetClause
  keyColumn : String
  keyPlaceholder : ℕ
  values : List Value
  deriving DecidableEq

namespace UpdateQuery

variable (query : UpdateQuery)

def text : String :=
  let clauses := ", ".intercalate (query.fields.map SetClause.text)
  s!"UPDATE {query.table} SET {clauses} WHERE {query.keyColumn} = ${query.keyPlaceholder}"

/-- The placeholders in the order of the text. -/
def placeholders : List ℕ := query.fields.map SetClause.placeholder ++ [query.keyPlaceholder]

/-- The value for a placeholder. -/
def parameter (placeholder : ℕ) : Option Value :=
  if placeholder = 0 then none else query.values[placeholder - 1]?

/-- Run the statement. There has to be one value for each number up to the largest placeholder, and
a placeholder for each value. -/
def execute (schema : Schema) (tables : Tables) : Except Rejection Tables :=
  if (query.placeholders.all fun placeholder => (query.parameter placeholder).isSome) ∧
      ∀ number ∈ List.range' 1 query.values.length, number ∈ query.placeholders then
    schema.update
      (query.fields.map fun clause =>
        (clause.column, (query.parameter clause.placeholder).getD .null))
      (query.keyColumn, (query.parameter query.keyPlaceholder).getD .null) tables
  else .error .invalid

variable {query}

theorem parameter_add_one (index : ℕ) : query.parameter (1 + index) = query.values[index]? := by
  unfold parameter
  rw [if_neg (by omega), Nat.add_sub_cancel_left]

/-- A statement whose placeholders are the numbers of its values runs. -/
theorem execute_of_order {schema : Schema} {tables : Tables}
    (order : query.placeholders = List.range' 1 query.values.length) :
    query.execute schema tables = schema.update
      (query.fields.map fun clause =>
        (clause.column, (query.parameter clause.placeholder).getD .null))
      (query.keyColumn, (query.parameter query.keyPlaceholder).getD .null) tables := by
  refine if_pos ⟨List.all_eq_true.mpr fun placeholder member => ?_, fun number member => ?_⟩
  · rw [order, List.mem_range'_1] at member
    obtain ⟨index, rfl⟩ := Nat.exists_eq_add_of_le member.1
    rw [parameter_add_one, List.getElem?_eq_getElem (by omega)]
    rfl
  · rwa [order]

end UpdateQuery

/-! ## Operations -/

/-- `if (updates.field !== undefined)`, with an assignment to the column. -/
structure UpdateEntry where
  field : String
  column : String
  deriving DecidableEq

/-- The variables `fields`, `values` and `paramIndex`. -/
structure Building where
  fields : List SetClause := []
  values : List Value := []
  paramIndex : ℕ := 1

/-- An operation that updates the row with a key. -/
structure Update where
  mapping : Mapping
  entries : List UpdateEntry
  keyColumn : String

namespace Update

variable (update : Update) (updates : Object) (key : Value)

/-- One field of the update. -/
def push (building : Building) (entry : UpdateEntry) : Building :=
  if updates entry.field ≠ .undefined then
    { fields := building.fields ++ [⟨entry.column, building.paramIndex⟩]
      values := building.values ++ [updates entry.field]
      paramIndex := building.paramIndex + 1 }
  else building

def build : Building := update.entries.foldl (push updates) {}

/-- The statement, unless no field is present. -/
def query : Option UpdateQuery :=
  let built := update.build updates
  if built.fields.length = 0 then none
  else some
    { table := update.mapping.schema.name
      fields := built.fields
      keyColumn := update.keyColumn
      keyPlaceholder := built.paramIndex
      values := built.values ++ [key] }

def run (tables : Tables) : Except Rejection Tables :=
  match update.query updates key with
  | none => .ok tables
  | some query => query.execute update.mapping.schema tables

/-- The entries whose fields are present. -/
def present : List UpdateEntry := update.entries.filter fun entry => updates entry.field ≠ .undefined

/-- The lists of the operation fit together: each field is one of the object, is read from the column
that it is written to, with the conversion that the type needs, from no other column that is written,
and the row is read by the column of the key, which is not written. -/
structure Sound : Prop where
  columns : (update.entries.map UpdateEntry.column).Nodup
  fields : (update.entries.map UpdateEntry.field).Nodup
  declared : ∀ entry ∈ update.entries, ∃ field ∈ update.mapping.fields, field.name = entry.field
  wired : ∀ entry ∈ update.entries,
    ((update.mapping.readers.find? fun reader => reader.field = entry.field).any fun reader =>
      reader.column = entry.column &&
        (update.mapping.schema.column? entry.column).any fun column =>
          reader.parse = decide (column.type = .bigint) && (!reader.parse || !column.nullable)) =
      true
  others : ∀ reader ∈ update.mapping.readers,
    reader.field ∉ update.entries.map UpdateEntry.field →
      reader.column ∉ update.entries.map UpdateEntry.column
  key : update.keyColumn ∉ update.entries.map UpdateEntry.column
  condition : update.mapping.conditions.map Prod.fst = [update.keyColumn]

instance : Decidable update.Sound :=
  decidable_of_iff (_ ∧ _ ∧ _ ∧ _ ∧ _ ∧ _ ∧ _)
    ⟨fun ⟨columns, fields, declared, wired, others, key, condition⟩ =>
      ⟨columns, fields, declared, wired, others, key, condition⟩, fun sound =>
        ⟨sound.columns, sound.fields, sound.declared, sound.wired, sound.others, sound.key,
          sound.condition⟩⟩

/-- The row with the key, as it is read. -/
def read (tables : Tables) : Option Object := update.mapping.readOne (fun _ => key) tables

/-- The row has the key. -/
def hasKey (row : Row) : Bool := update.mapping.schema.holds row (update.keyColumn, key)

/-- The placeholders of the statement are the numbers of its values in their order, and each stands
for the value of the field that its column is for, the last one for the key. -/
structure Matched (query : UpdateQuery) : Prop where
  order : query.placeholders = List.range' 1 query.values.length
  fields : ∀ clause ∈ query.fields, ∃ entry ∈ update.entries, entry.column = clause.column ∧
    query.parameter clause.placeholder = some (updates entry.field)
  key : query.parameter query.keyPlaceholder = some key

/-- The row with the key is read as before, with the fields that are present replaced, and all other
rows are as before. -/
structure Applies (before after : Tables) : Prop where
  matched : ∀ query ∈ update.query updates key, update.Matched updates key query
  record : ∃ old new, update.read key before = some old ∧ update.read key after = some new ∧
    ∀ field ∈ update.mapping.fields,
      if updates field.name = .undefined then new field.name = old field.name
      else (new field.name).Agrees (updates field.name)
  others : (after update.mapping.schema.name).filter (fun row => !update.hasKey key row) =
    (before update.mapping.schema.name).filter fun row => !update.hasKey key row
  elsewhere : ∀ table, table ≠ update.mapping.schema.name → after table = before table

/-- The columns give the values that are present back as they are. -/
def Preserves : Prop :=
  ∀ entry ∈ update.present updates, (update.mapping.schema.column? entry.column).all
    (fun column => column.type.preserves (updates entry.field)) = true

instance : Decidable (update.Preserves updates) := inferInstanceAs (Decidable (∀ _ ∈ _, _))

/-- A field that is present and has no entry has its value already. -/
def KeepsOthers (old : Object) : Prop :=
  ∀ field ∈ update.mapping.fields, field.name ∉ update.entries.map UpdateEntry.field →
    updates field.name ≠ .undefined → (old field.name).Agrees (updates field.name)

instance (old : Object) : Decidable (update.KeepsOthers updates old) :=
  inferInstanceAs (Decidable (∀ _ ∈ _, _))

/-! ## The statement -/

/-- What the statement assigns. -/
def assigned : List (String × Value) :=
  (update.present updates).map fun entry => (entry.column, updates entry.field)

/-- The clauses with the placeholders from a number on. -/
def clauses (entries : List UpdateEntry) (first : ℕ) : List SetClause :=
  entries.mapIdx fun index entry => ⟨entry.column, first + index⟩

variable {update updates key}

theorem foldl_push (entries : List UpdateEntry) (building : Building) :
    entries.foldl (push updates) building =
      let present := entries.filter fun entry => updates entry.field ≠ .undefined
      { fields := building.fields ++ clauses present building.paramIndex
        values := building.values ++ present.map fun entry => updates entry.field
        paramIndex := building.paramIndex + present.length } := by
  induction entries generalizing building with
  | nil => simp [clauses]
  | cons entry entries ih =>
      rw [List.foldl_cons, ih]
      unfold push
      by_cases absent : updates entry.field = .undefined
      · simp [absent]
      · simp [absent, clauses, List.mapIdx_cons, Nat.add_assoc, Nat.add_comm 1]

/-- The statement when a field is present. -/
def statement (update : Update) (updates : Object) (key : Value) : UpdateQuery where
  table := update.mapping.schema.name
  fields := clauses (update.present updates) 1
  keyColumn := update.keyColumn
  keyPlaceholder := 1 + (update.present updates).length
  values := (update.present updates).map (fun entry => updates entry.field) ++ [key]

theorem query_eq : update.query updates key =
    if update.present updates = [] then none else some (update.statement updates key) := by
  unfold query build
  rw [foldl_push]
  simp [clauses, present, statement]

theorem placeholders_statement : (update.statement updates key).placeholders =
    List.range' 1 (update.statement updates key).values.length := by
  have clausesFrom : (clauses (update.present updates) 1).map SetClause.placeholder =
      List.range' 1 (update.present updates).length := by
    apply List.ext_getElem
    · simp [clauses]
    · intro index bound _
      simp [clauses]
  unfold UpdateQuery.placeholders statement
  rw [clausesFrom, List.length_append, List.length_map, List.length_singleton, List.range'_concat,
    Nat.one_mul]

/-- The placeholder of a field stands for its value. -/
theorem parameter_statement {index : ℕ} (bound : index < (update.present updates).length) :
    (update.statement updates key).parameter (1 + index) =
      some (updates (update.present updates)[index].field) := by
  rw [UpdateQuery.parameter_add_one]
  unfold statement
  rw [List.getElem?_append_left (by rwa [List.length_map]), List.getElem?_map,
    List.getElem?_eq_getElem bound]
  rfl

theorem parameter_key : (update.statement updates key).parameter
    (1 + (update.present updates).length) = some key := by
  rw [UpdateQuery.parameter_add_one]
  simp [statement]

/-- **The placeholders and the values of the statement match.** -/
theorem matched : ∀ query ∈ update.query updates key, update.Matched updates key query := by
  intro query built
  rw [query_eq] at built
  split at built
  · cases built
  · obtain rfl := Option.some.inj built
    refine ⟨placeholders_statement, fun clause member => ?_, parameter_key⟩
    obtain ⟨index, bound, rfl⟩ := List.mem_mapIdx.mp member
    refine ⟨(update.present updates)[index], ?_, rfl, parameter_statement bound⟩
    exact (List.mem_filter.mp (List.getElem_mem bound)).1

/-- The statement does what it says: it assigns each value that is present to the column of its
field, in the row with the key. -/
theorem run_eq (tables : Tables) : update.run updates key tables =
    if update.present updates = [] then .ok tables
    else update.mapping.schema.update (update.assigned updates) (update.keyColumn, key) tables := by
  unfold run
  rw [query_eq]
  by_cases nothing : update.present updates = []
  · rw [if_pos nothing, if_pos nothing]
  · have assigns : (update.statement updates key).fields.map (fun clause => (clause.column,
        ((update.statement updates key).parameter clause.placeholder).getD .null)) =
          update.assigned updates := by
      apply List.ext_getElem
      · simp [statement, clauses, assigned]
      · intro index bound _
        have fields : (update.statement updates key).fields =
            clauses (update.present updates) 1 := rfl
        have here : index < (update.present updates).length := by
          simpa [fields, clauses] using bound
        simp only [fields, clauses, assigned, List.getElem_map, List.getElem_mapIdx,
          parameter_statement here, Option.getD_some]
    rw [if_neg nothing, if_neg nothing]
    dsimp only
    rw [UpdateQuery.execute_of_order placeholders_statement, assigns]
    show update.mapping.schema.update _ (update.keyColumn, ((update.statement updates key).parameter
      (1 + (update.present updates).length)).getD .null) tables = _
    rw [parameter_key]
    rfl

end Update

/-! ## The rows -/

/-- What is read from a column agrees with the value that it stores, exactly when it preserves the
value. -/
theorem ColumnType.agrees_iff_of_store {type : ColumnType} {value : Value} {cell : Cell}
    (stored : type.store value = some cell) (present : type = .bigint → cell ≠ .null) :
    (if type = .bigint then cell.load.parsed else cell.load).Agrees value ↔
      type.preserves value = true := by
  cases absent : value.isNullish with
  | true =>
      rw [ColumnType.store_of_isNullish absent] at stored
      obtain rfl := Option.some.inj stored
      rw [if_neg fun big => present big rfl]
      exact iff_of_true (.inr ⟨rfl, absent⟩) (ColumnType.preserves_of_isNullish absent type)
  | false =>
      rw [Value.agrees_iff_of_present absent]
      exact ColumnType.load_eq_iff absent stored

namespace Schema

variable {schema : Schema} {assigned : List (String × Value)} {condition : String × Value}
  {tables after : Tables}

/-- What an update that is not rejected does. -/
theorem update_eq_ok (updated : schema.update assigned condition tables = .ok after) :
    ((tables schema.name).any (fun row => schema.holds row condition) = true →
      ∀ assignment ∈ assigned, schema.accepts assigned assignment = true) ∧
    after = Function.update tables schema.name ((tables schema.name).map fun row =>
      if schema.holds row condition then schema.assign assigned row else row) := by
  unfold update at updated
  split at updated
  · split at updated
    · cases updated
    · rename_i accepted
      refine ⟨fun some => ?_, (Except.ok.inj updated).symm⟩
      exact List.all_eq_true.mp (not_not.mp fun rejects => accepted ⟨some, rejects⟩)
  · cases updated

theorem assign_of_not_mem {row : Row} {name : String} (other : name ∉ assigned.map Prod.fst) :
    schema.assign assigned row name = row name := by
  unfold assign
  rw [if_neg]
  intro present
  obtain ⟨value, found⟩ := Option.isSome_iff_exists.mp present
  obtain ⟨_, _, split, _⟩ := List.lookup_eq_some_iff.mp found
  exact other (List.mem_map.mpr ⟨(name, value), by simp [split], rfl⟩)

/-- An assigned column stores its value. -/
theorem assign_of_lookup (row : Row) {name : String} {value : Value}
    (found : assigned.lookup name = some value)
    (accepted : schema.accepts assigned (name, value) = true) :
    ∃ column cell, schema.column? name = some column ∧ column.type.store value = some cell ∧
      (column.nullable = true ∨ cell ≠ .null) ∧ schema.assign assigned row name = cell := by
  obtain ⟨cell, accepts⟩ := Option.isSome_iff_exists.mp accepted
  obtain ⟨column, here, stored⟩ := Option.bind_eq_some_iff.mp accepts
  change schema.column? name = some column at here
  have written : schema.assign assigned row name = cell := by
    unfold assign
    rw [found, Option.isSome_some, if_pos rfl, here, Option.bind_some, stored, Option.getD_some]
  unfold Column.cell at stored
  rw [name_of_column? here, found, Option.getD_some, Option.filter_eq_some_iff, Bool.or_eq_true,
    decide_eq_true_eq] at stored
  exact ⟨column, cell, here, stored.1, stored.2, written⟩

end Schema

/-! ## What is read -/

namespace Update

variable {update : Update} {updates : Object} {key : Value} {before after : Tables}

/-- The row after the operation. -/
def updated (update : Update) (updates : Object) (row : Row) : Row :=
  update.mapping.schema.assign (update.assigned updates) row

theorem select_eq (sound : update.Sound) (tables : Tables) :
    update.mapping.select (fun _ => key) tables =
      (tables update.mapping.schema.name).filter (update.hasKey key) := by
  have conditions : update.mapping.conditions.map (fun condition => (condition.1, key)) =
      [(update.keyColumn, key)] := by
    have names := congrArg (List.map fun name => (name, key)) sound.condition
    rwa [List.map_map] at names
  unfold Mapping.select Schema.select
  rw [conditions]
  apply List.filter_congr
  intro row _
  rw [List.all_cons, List.all_nil, Bool.and_true]
  rfl

/-- The columns that are assigned are columns of the entries. -/
theorem mem_columns_of_assigned {name : String}
    (member : name ∈ (update.assigned updates).map Prod.fst) :
    ∃ entry ∈ update.entries, entry.column = name ∧ updates entry.field ≠ .undefined := by
  obtain ⟨_, listed, rfl⟩ := List.mem_map.mp member
  obtain ⟨entry, present, rfl⟩ := List.mem_map.mp listed
  obtain ⟨known, here⟩ := List.mem_filter.mp present
  exact ⟨entry, known, rfl, of_decide_eq_true here⟩

/-- The operation does not change which rows have the key. -/
theorem hasKey_updated (sound : update.Sound) (row : Row) :
    update.hasKey key (update.updated updates row) = update.hasKey key row := by
  have same : update.updated updates row update.keyColumn = row update.keyColumn := by
    refine Schema.assign_of_not_mem fun member => sound.key ?_
    obtain ⟨entry, known, named, _⟩ := mem_columns_of_assigned member
    exact List.mem_map.mpr ⟨entry, known, named⟩
  unfold hasKey Schema.holds
  rw [same]

/-- The operation changes the row with the key. -/
def rowAfter (update : Update) (updates : Object) (key : Value) (row : Row) : Row :=
  if update.hasKey key row then update.updated updates row else row

theorem hasKey_rowAfter (sound : update.Sound) (row : Row) :
    update.hasKey key (update.rowAfter updates key row) = update.hasKey key row := by
  unfold rowAfter
  split
  · exact hasKey_updated sound row
  · rfl

/-- **What an operation that resolves does**: the row with the key gets the values that are present,
in columns that accept them. -/
theorem after_eq (resolved : update.run updates key before = .ok after) :
    ((before update.mapping.schema.name).any (update.hasKey key) = true →
      ∀ assignment ∈ update.assigned updates,
        update.mapping.schema.accepts (update.assigned updates) assignment = true) ∧
    after = Function.update before update.mapping.schema.name
      ((before update.mapping.schema.name).map (update.rowAfter updates key)) := by
  rw [run_eq] at resolved
  split at resolved
  · rename_i nothing
    obtain rfl := Except.ok.inj resolved
    have none : update.assigned updates = [] := by
      unfold assigned
      rw [nothing, List.map_nil]
    have same : update.rowAfter updates key = id := by
      funext row
      unfold rowAfter updated
      rw [none]
      exact ite_self row
    refine ⟨fun _ assignment member => ?_, ?_⟩
    · rw [none] at member
      cases member
    · rw [same, List.map_id, Function.update_eq_self]
  · exact Schema.update_eq_ok resolved

/-- The row that is read is the row with the key. -/
theorem read_eq (sound : update.Sound) (resolved : update.run updates key before = .ok after) :
    update.read key before = ((before update.mapping.schema.name).find? (update.hasKey key)).map
        update.mapping.decode ∧
      update.read key after = ((before update.mapping.schema.name).find? (update.hasKey key)).map
        fun row => update.mapping.decode (update.updated updates row) := by
  have first : ∀ tables, update.read key tables =
      ((tables update.mapping.schema.name).find? (update.hasKey key)).map
        update.mapping.decode := by
    intro tables
    unfold read Mapping.readOne
    rw [select_eq sound, List.head?_filter]
  refine ⟨first before, ?_⟩
  have keeps : update.hasKey key ∘ update.rowAfter updates key = update.hasKey key :=
    funext (hasKey_rowAfter sound)
  rw [first, (after_eq resolved).2, Function.update_self, List.find?_map, keeps, Option.map_map]
  cases found : (before update.mapping.schema.name).find? (update.hasKey key) with
  | none => rfl
  | some row =>
      have here : update.hasKey key row = true := List.find?_some found
      simp only [Option.map_some, Function.comp_apply, rowAfter, here, if_true]

/-- The other rows stay as they are, in their order. -/
theorem filter_others_eq (sound : update.Sound)
    (resolved : update.run updates key before = .ok after) :
    (after update.mapping.schema.name).filter (fun row => !update.hasKey key row) =
      (before update.mapping.schema.name).filter fun row => !update.hasKey key row := by
  have keeps : (fun row => !update.hasKey key row) ∘ update.rowAfter updates key =
      fun row => !update.hasKey key row := by
    funext row
    exact congrArg not (hasKey_rowAfter sound row)
  rw [(after_eq resolved).2, Function.update_self, List.filter_map, keeps]
  refine (List.map_congr_left fun other member => ?_).trans (List.map_id _)
  have different := (List.mem_filter.mp member).2
  unfold rowAfter
  rw [if_neg (by simpa using different)]
  rfl

/-- The way of the field of an entry. -/
theorem exists_wired (sound : update.Sound) {entry : UpdateEntry}
    (known : entry ∈ update.entries) :
    ∃ reader column, update.mapping.readers.find? (fun reader => reader.field = entry.field) =
        some reader ∧ reader.column = entry.column ∧
      update.mapping.schema.column? entry.column = some column ∧
      reader.parse = decide (column.type = .bigint) ∧
      (column.type = .bigint → column.nullable = false) := by
  obtain ⟨reader, found, fits⟩ := (Option.any_eq_true _ _).mp (sound.wired entry known)
  obtain ⟨named, typed⟩ := Bool.and_eq_true_iff.mp fits
  obtain ⟨column, here, parses⟩ := (Option.any_eq_true _ _).mp typed
  obtain ⟨parse, required⟩ := Bool.and_eq_true_iff.mp parses
  have conversion : reader.parse = decide (column.type = .bigint) := of_decide_eq_true parse
  refine ⟨reader, column, found, of_decide_eq_true named, here, conversion, fun big => ?_⟩
  rw [conversion, decide_eq_true big, Bool.not_true, Bool.false_or] at required
  exact Bool.not_eq_true' _ |>.mp required

/-- What is assigned to the column of a field that is present. -/
theorem lookup_assigned (sound : update.Sound) {entry : UpdateEntry}
    (known : entry ∈ update.entries) (present : updates entry.field ≠ .undefined) :
    (update.assigned updates).lookup entry.column = some (updates entry.field) := by
  have listed : entry ∈ update.present updates :=
    List.mem_filter.mpr ⟨known, decide_eq_true present⟩
  obtain ⟨earlier, later, split⟩ := List.append_of_mem listed
  have distinct : ((update.present updates).map UpdateEntry.column).Nodup :=
    sound.columns.sublist (List.filter_sublist.map _)
  rw [split, List.map_append, List.map_cons] at distinct
  refine List.lookup_eq_some_iff.mpr ⟨earlier.map fun entry => (entry.column, updates entry.field),
    later.map fun entry => (entry.column, updates entry.field), ?_, ?_⟩
  · unfold assigned
    rw [split, List.map_append, List.map_cons]
  · intro assignment member
    obtain ⟨other, before, rfl⟩ := List.mem_map.mp member
    refine bne_iff_ne.mpr fun same => ?_
    exact (List.nodup_append.mp distinct).2.2 _ (List.mem_map_of_mem before) _
      List.mem_cons_self same.symm

/-- A field whose column is not assigned is read as before. -/
theorem decode_updated_of_absent (sound : update.Sound) (row : Row) {name : String}
    (absent : updates name = .undefined ∨ name ∉ update.entries.map UpdateEntry.field) :
    update.mapping.decode (update.updated updates row) name = update.mapping.decode row name := by
  unfold Mapping.decode
  cases reads : update.mapping.readers.find? fun reader => reader.field = name with
  | none => rfl
  | some reader =>
      have named : reader.field = name :=
        of_decide_eq_true (List.find?_some (p := fun reader : Reader => decide (reader.field = name))
          reads)
      have same : update.updated updates row reader.column = row reader.column := by
        refine Schema.assign_of_not_mem fun member => ?_
        obtain ⟨entry, known, column, present⟩ := mem_columns_of_assigned member
        by_cases own : name ∈ update.entries.map UpdateEntry.field
        · -- the entry of the field would be another one for the same column
          obtain ⟨other, listed, rfl⟩ := List.mem_map.mp own
          obtain ⟨own, _, found, here, _⟩ := exists_wired sound listed
          obtain rfl := Option.some.inj (reads.symm.trans found)
          obtain rfl : entry = other :=
            List.inj_on_of_nodup_map sound.columns known listed (column.trans here)
          rcases absent with undefined | unknown
          · exact present undefined
          · exact unknown own
        · exact sound.others reader (List.mem_of_find?_eq_some reads) (named ▸ own)
            (List.mem_map.mpr ⟨entry, known, column⟩)
      dsimp only
      unfold Reader.value Schema.fetch
      rw [same]

/-- **A field that is present is read with its value** exactly when its column preserves it. -/
theorem decode_updated_of_present (sound : update.Sound) (row : Row) {entry : UpdateEntry}
    (accepted : ∀ assignment ∈ update.assigned updates,
      update.mapping.schema.accepts (update.assigned updates) assignment = true)
    (known : entry ∈ update.entries) (present : updates entry.field ≠ .undefined) :
    (update.mapping.decode (update.updated updates row) entry.field).Agrees
        (updates entry.field) ↔
      (update.mapping.schema.column? entry.column).all (fun column =>
        column.type.preserves (updates entry.field)) = true := by
  obtain ⟨reader, column, reads, named, here, parses, required⟩ := exists_wired sound known
  have member : (entry.column, updates entry.field) ∈ update.assigned updates :=
    List.mem_map.mpr ⟨entry, List.mem_filter.mpr ⟨known, decide_eq_true present⟩, rfl⟩
  obtain ⟨same, cell, found, stored, empty, written⟩ :=
    Schema.assign_of_lookup row (lookup_assigned sound known present) (accepted _ member)
  obtain rfl := Option.some.inj (here.symm.trans found)
  have agrees := ColumnType.agrees_iff_of_store stored fun big =>
    empty.resolve_left (by rw [required big]; exact Bool.false_ne_true)
  unfold Mapping.decode
  rw [reads]
  dsimp only
  unfold Reader.value Schema.fetch updated
  rw [named, here, Option.isSome_some, if_pos rfl, written, parses, Option.all_some]
  by_cases big : column.type = .bigint
  · rw [if_pos big] at agrees
    rwa [if_pos (decide_eq_true big)]
  · rw [if_neg big] at agrees
    rwa [if_neg (by simpa using big)]

/-- **An operation that resolves replaces the fields that are present, and nothing else, exactly
when the columns preserve their values and it passes over no field with a new value.** -/
theorem applies_iff (sound : update.Sound) {old : Object}
    (existing : update.read key before = some old)
    (resolved : update.run updates key before = .ok after) :
    update.Applies updates key before after ↔
      update.Preserves updates ∧ update.KeepsOthers updates old := by
  obtain ⟨accepted, same⟩ := after_eq resolved
  obtain ⟨was, is⟩ := read_eq sound resolved
  rw [was] at existing
  obtain ⟨row, found, rfl⟩ := Option.map_eq_some_iff.mp existing
  rw [found, Option.map_some] at was is
  have some : (before update.mapping.schema.name).any (update.hasKey key) = true :=
    List.any_eq_true.mpr ⟨row, List.mem_of_find?_eq_some found, List.find?_some found⟩
  constructor
  · rintro ⟨_, ⟨_, new, first, second, fields⟩, _, _⟩
    obtain rfl := Option.some.inj (was.symm.trans first)
    obtain rfl := Option.some.inj (is.symm.trans second)
    refine ⟨fun entry listed => ?_, fun field member unknown present => ?_⟩
    · obtain ⟨known, present⟩ := List.mem_filter.mp listed
      have present := of_decide_eq_true present
      obtain ⟨field, member, named⟩ := sound.declared entry known
      have read := fields field member
      rw [named, if_neg present] at read
      exact (decode_updated_of_present sound row (accepted some) known present).mp read
    · have read := fields field member
      rw [if_neg present, decode_updated_of_absent sound row (.inr unknown)] at read
      exact read
  · rintro ⟨preserves, keeps⟩
    refine ⟨matched, ⟨_, _, was, is, fun field member => ?_⟩, filter_others_eq sound resolved,
      fun table different => ?_⟩
    · split
      · rename_i absent
        exact decode_updated_of_absent sound row (.inl absent)
      · rename_i present
        by_cases known : field.name ∈ update.entries.map UpdateEntry.field
        · obtain ⟨entry, listed, named⟩ := List.mem_map.mp known
          rw [← named] at present ⊢
          have taken : entry ∈ update.present updates :=
            List.mem_filter.mpr ⟨listed, decide_eq_true present⟩
          exact (decode_updated_of_present sound row (accepted some) listed present).mpr
            (preserves entry taken)
        · rw [decode_updated_of_absent sound row (.inr known)]
          exact keeps field member known present
    · rw [same, Function.update_of_ne different]

end Update

end DistributedFileStorage.Relational.Columns
