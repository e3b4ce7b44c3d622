import OpenEmarsys.Contacts.Registry
import OpenEmarsys.Postgres.Logic

/-! `filterSql`: the filters of the contact search, as conditions on the jsonb `data`.

Each type of field has conditions of its own, and a contact without the field makes some of them null.
A contact is selected when the condition is true.
-/

set_option autoImplicit false

namespace OpenEmarsys.Contacts

open Javascript Postgres

inductive Op where
  | eq
  | neq
  | contains
  | starts_with
  | gt
  | gte
  | lt
  | lte
  | empty
  | not_empty
  deriving DecidableEq

def Op.text : Op → String
  | .eq => "eq"
  | .neq => "neq"
  | .contains => "contains"
  | .starts_with => "starts_with"
  | .gt => "gt"
  | .gte => "gte"
  | .lt => "lt"
  | .lte => "lte"
  | .empty => "empty"
  | .not_empty => "not_empty"

def OPS : List Op := [.eq, .neq, .contains, .starts_with, .gt, .gte, .lt, .lte, .empty, .not_empty]

/-- `CMP`: what the order of the two sides must be. -/
def CMP : Op → Option (Ordering → Bool)
  | .gt => some (· == .gt)
  | .gte => some (· != .lt)
  | .lt => some (· == .lt)
  | .lte => some (· != .gt)
  | _ => none

/-- What the database and its driver decide. -/
structure Database where
  /-- `text ILIKE pattern`. -/
  ilike : String → String → Bool
  /-- The order of texts. -/
  collation : String → String → Ordering
  /-- A number as a parameter of type `numeric`. -/
  numeric : Number → Number
  /-- The text of a `numeric`. -/
  numericText : Number → String

structure Condition where
  /-- Its parameters can be sent and cast. -/
  executable : Bool
  truth : Data → Truth

/-- `value ->> '...'`. -/
def Database.text (db : Database) : Value → String
  | .string text => text
  | .number n => db.numericText n
  | .boolean b => if b then "true" else "false"
  | .options ids => "[" ++ ", ".intercalate (ids.map db.numericText) ++ "]"

def Value.isNumber : Value → Bool
  | .number _ => true
  | _ => false

/-- The order of a jsonb value and a number: numbers by their value, then by type. -/
def Value.order (value : Value) (n : Number) : Ordering :=
  match value with
  | .number m => (Float.Model.UnpackedFloat.compare m.unpack n.unpack).getD .gt
  | .string _ => .lt
  | .options [] => .lt
  | .options _ => .gt
  | .boolean _ => .gt

def escapeLike (text : String) : String :=
  String.ofList (text.toList.flatMap fun c => if c ∈ ['\\', '%', '_'] then ['\\', c] else [c])

def FieldType.name : FieldType → String
  | .text => "text"
  | .number => "number"
  | .date => "date"
  | .boolean => "boolean"
  | .single_choice => "single_choice"
  | .multi_choice => "multi_choice"

section
variable (db : Database) (definition : FieldDefinition)

/-- `data ->> key` and `data -> key`. -/
def FieldDefinition.text (data : Data) : Option String := (data (toString definition.fieldId)).map db.text

def FieldDefinition.json (data : Data) : Option Value := data (toString definition.fieldId)

def badOperator (op : Op) : String :=
  s!"operator {op.text} is not valid for {definition.type.name} field {definition.fieldId}"

def textCondition (op : Op) (value : String) : Except String Condition :=
  let condition (truth : Option String → Truth) : Except String Condition :=
    .ok ⟨storableText value, fun data => truth (definition.text db data)⟩
  match op with
  | .eq => condition fun text => text.map fun found => decide (found = value)
  | .neq => condition fun text => Truth.isDistinctFrom text value
  | .starts_with => condition fun text => text.map fun found => db.ilike found (escapeLike value ++ "%")
  | .contains =>
      if definition.type = .text then condition fun text => text.map
        fun found => db.ilike found ("%" ++ escapeLike value ++ "%")
      else .error (badOperator definition op)
  | _ =>
      match CMP op with
      | some cmp => condition fun text => text.map fun found => cmp (db.collation found value)
      | none => .error (badOperator definition op)

def numberCmp : Op → Option (Ordering → Bool)
  | .eq => some (· == .eq)
  | .neq => some (! · == .eq)
  | op => CMP op

def numberCondition (op : Op) (value : String) : Except String Condition :=
  match if (trim value).isEmpty then none else (toNumber value).filter Number.isFinite with
  | none => .error s!"filter value for field {definition.fieldId} must be a number"
  | some n =>
      match numberCmp op with
      | some cmp => .ok ⟨true, fun data => Truth.and ((definition.json data).map Value.isNumber)
          ((definition.json data).map fun found => cmp (found.order (db.numeric n)))⟩
      | none => .error (badOperator definition op)

def booleanCondition (op : Op) (value : String) : Except String Condition :=
  let is (found : Value) : Bool := found = .boolean (value = "true" || value = "1")
  match op with
  | .eq => .ok ⟨true, fun data => (definition.json data).map is⟩
  | .neq => .ok ⟨true, fun data => (definition.json data).map fun found => !is found⟩
  | _ => .error (badOperator definition op)

/-- The option that the value names, by its ID or its name. -/
def optionOf (value : String) : Option Choice := definition.choices.find?
    fun c => toString c.id == value || c.api_name == value

/-- The largest `int`. -/
def maxInt : Nat := 2 ^ 31 - 1

def choiceCondition (op : Op) (value : String) : Except String Condition :=
  if op ≠ .eq ∧ op ≠ .neq then .error (badOperator definition op)
  else
    match optionOf definition value with
    | none => .error s!"unknown option {value} for field {definition.fieldId}"
    | some choice =>
        let has (data : Data) : Truth := (definition.json data).map fun found => found.contains choice.id
        .ok ⟨decide (choice.id ≤ maxInt), fun data => if op = .eq then has data
          else Truth.not (Truth.coalesce (has data) false)⟩

/-- The condition of an operator and a value on a field. -/
def conditionOf (op : Op) (value : String) : Except String Condition :=
  match op with
  | .empty => .ok ⟨true, fun data => Truth.or (Truth.isNull (definition.text db data))
    ((definition.text db data).map (· == ""))⟩
  | .not_empty => .ok ⟨true, fun data => Truth.and (Truth.isNotNull (definition.text db data))
    ((definition.text db data).map (!· == ""))⟩
  | op =>
      match definition.type with
      | .text => textCondition db definition op value
      | .date => textCondition db definition op value
      | .number => numberCondition db definition op value
      | .boolean => booleanCondition definition op value
      | .single_choice => choiceCondition definition op value
      | .multi_choice => choiceCondition definition op value

end

/-- What stands before the first colon, and after it. -/
def atColon (chars : List Char) : Option (List Char × List Char) :=
  match chars.dropWhile (· ≠ ':') with
  | _ :: rest => some (chars.takeWhile (· ≠ ':'), rest)
  | [] => none

/-- `<fieldId>:<op>:<value>`. -/
def parseFilter (raw : String) : Option (String × Op × String) := do
  let (key, rest) ← atColon raw.toList
  let (name, value) ← atColon rest
  let op ← OPS.find? fun op => op.text.toList == name
  if isFieldId (String.ofList key) then some (String.ofList key, op, String.ofList value) else none

/-- The condition of a filter, typed by the field's definition. -/
def filterSql (db : Database) (raw : String) (defs : Definitions) : Except String Condition :=
  match parseFilter raw with
  | none => .error s!"invalid filter: {raw}"
  | some (key, op, value) =>
      match defs.get (fieldNumber key) with
      | none => .error s!"filter on unknown field {key}"
      | some definition => conditionOf db definition op value

/-! ## Which contacts are selected -/

def Condition.selects (condition : Condition) (data : Data) : Bool :=
  condition.executable && decide (condition.truth data).Holds

def selects (db : Database) (defs : Definitions) (raw : String) (contact : Contact) : Bool :=
  match filterSql db raw defs with
  | .ok condition => condition.selects contact.data
  | .error _ => false

def filterText (key : String) (op : Op) (value : String) : String := key ++ ":" ++ op.text ++ ":" ++ value

/-- The field's value, if there is one, is what `normalizeValue` makes of some input. -/
def Conforms (definition : FieldDefinition) (data : Data) : Prop :=
  ∀ stored, definition.json data = some stored →
      ∃ raw value, normalizeValue definition.type definition.choices raw = .ok (some value) ∧
      stored = value.stored

/-- Exactly one of the two filters finds the contact. -/
def Divided (db : Database) (defs : Definitions) (first second : String) (contact : Contact) : Prop :=
  selects db defs first contact = true ↔ ¬ selects db defs second contact = true

/-- The filter compares with something the database takes, and with a value where null is not provided for. -/
def Decided (definition : FieldDefinition) (value : String) (data : Data) : Prop :=
  match definition.type with
  | .text => storableText value = true
  | .date => storableText value = true
  | .number => (definition.json data).isSome = true
  | .boolean => (definition.json data).isSome = true
  | .single_choice => ∀ choice, optionOf definition value = some choice → choice.id ≤ maxInt
  | .multi_choice => ∀ choice, optionOf definition value = some choice → choice.id ≤ maxInt

section Parsing

theorem atColon_append {before : List Char} (plain : ':' ∉ before) (rest : List Char) :
    atColon (before ++ ':' :: rest) = some (before, rest) := by
  have free : ∀ c ∈ before, (decide (c ≠ ':')) = true := by
    intro c member
    rw [decide_eq_true_eq]
    rintro rfl
    exact plain member
  rw [atColon, List.dropWhile_append_of_pos free, List.takeWhile_append_of_pos free]
  simp

theorem colon_not_key {key : String} (isField : isFieldId key = true) : ':' ∉ key.toList := by
  intro member
  simp only [isFieldId, isDigits, Bool.and_eq_true, List.all_eq_true] at isField
  have digit := isField.1.2 ':' member
  exact absurd digit (by decide)

theorem colon_not_op (op : Op) : ':' ∉ op.text.toList := by
  cases op <;> decide

theorem find_op (op : Op) : OPS.find? (fun other => other.text.toList == op.text.toList) = some op := by
  cases op <;> decide

theorem parseFilter_text {key : String} (isField : isFieldId key = true) (op : Op) (value : String) :
    parseFilter (filterText key op value) = some (key, op, value) := by
  have chars : (filterText key op value).toList = key.toList ++
      ':' :: (op.text.toList ++ ':' :: value.toList) := by
    simp [filterText, String.toList_append]
  rw [parseFilter, chars, atColon_append (colon_not_key isField)]
  simp only [Option.bind_eq_bind, Option.bind_some]
  rw [atColon_append (colon_not_op op)]
  simp only [Option.bind_some]
  rw [find_op]
  simp [isField]

end Parsing

section Split
variable {db : Database} {definition : FieldDefinition} {value : String} {data : Data}

theorem selects_split {executable : Bool} {left right : Data → Truth} :
    (Condition.selects ⟨executable, left⟩ data = true ↔ ¬ Condition.selects ⟨executable, right⟩ data = true) ↔
      executable = true ∧ Truth.Split (left data) (right data) := by
  simp only [Condition.selects, Bool.and_eq_true, decide_eq_true_eq, Truth.Split]
  tauto

theorem stored_number {choices : List Choice} {raw : Json} {found : Value}
    (is : normalizeValue .number choices raw = .ok (some found)) :
    found.stored.isNumber = true := by
  have checked (n : Number) (is : (if n.isFinite then good (.number n)
    else bad "expected a decimal number") = .ok (some found)) :
      found.stored.isNumber = true := by
    split at is
    · cases is
      rfl
    · cases is
  cases raw with
  | null => cases is
  | boolean b => cases is
  | number n =>
    simp only [normalizeValue] at is
    exact checked n is
  | string text =>
    simp only [normalizeValue] at is
    cases reads : parseDecimal text with
    | none =>
      rw [reads] at is
      cases is
    | some n =>
      rw [reads] at is
      exact checked n is
  | array elements => cases is
  | object members => cases is

theorem text_split {equal different : Condition} (eqIs : textCondition db definition .eq value = .ok equal)
    (neqIs : textCondition db definition .neq value = .ok different) :
    (equal.selects data = true ↔ ¬ different.selects data = true) ↔ storableText value = true := by
  cases eqIs
  cases neqIs
  rw [selects_split]
  exact and_iff_left (Truth.split_distinct (definition.text db data) value)

theorem number_split {equal different : Condition}
    (eqIs : numberCondition db definition .eq value = .ok equal)
    (neqIs : numberCondition db definition .neq value = .ok different)
    (numeric : ∀ found, definition.json data = some found → found.isNumber = true) :
    (equal.selects data = true ↔ ¬ different.selects data = true) ↔ (definition.json data).isSome = true := by
  unfold numberCondition at eqIs neqIs
  split at eqIs
  · cases eqIs
  · next n is =>
    rw [is] at neqIs
    cases eqIs
    cases neqIs
    rw [selects_split]
    refine (and_iff_right rfl).trans ?_
    cases here : definition.json data with
    | none => simp [Truth.Split, Truth.and]
    | some found =>
      have split := Truth.split_strict (fun other : Value => other.order (db.numeric n) == .eq) (some found)
      simpa [numeric found here, Truth.and] using split

theorem boolean_split {equal different : Condition} (eqIs : booleanCondition definition .eq value = .ok equal)
    (neqIs : booleanCondition definition .neq value = .ok different) :
    (equal.selects data = true ↔ ¬ different.selects data = true) ↔ (definition.json data).isSome = true := by
  cases eqIs
  cases neqIs
  rw [selects_split]
  exact (and_iff_right rfl).trans (Truth.split_strict _ _)

theorem choice_split {equal different : Condition} (eqIs : choiceCondition definition .eq value = .ok equal)
    (neqIs : choiceCondition definition .neq value = .ok different) :
    (equal.selects data = true ↔ ¬ different.selects data = true) ↔
      ∀ choice, optionOf definition value = some choice → choice.id ≤ maxInt := by
  unfold choiceCondition at eqIs neqIs
  cases found : optionOf definition value with
  | none =>
    rw [found] at eqIs
    cases eqIs
  | some choice =>
    rw [found] at eqIs neqIs
    cases eqIs
    cases neqIs
    rw [selects_split]
    refine (and_iff_left (Truth.split_coalesce _)).trans ?_
    simp

-- By the type of the field: the conditions of text, dates and options provide for null, the others do
-- not.
theorem eq_neq_split {equal different : Condition} (eqIs : conditionOf db definition .eq value = .ok equal)
    (neqIs : conditionOf db definition .neq value = .ok different) (conforms : Conforms definition data) :
    (equal.selects data = true ↔ ¬ different.selects data = true) ↔ Decided definition value data := by
  simp only [conditionOf] at eqIs neqIs
  unfold Decided
  cases type : definition.type with
  | text =>
    rw [type] at eqIs neqIs
    exact text_split eqIs neqIs
  | date =>
    rw [type] at eqIs neqIs
    exact text_split eqIs neqIs
  | number =>
    rw [type] at eqIs neqIs
    refine number_split eqIs neqIs fun found here => ?_
    obtain ⟨raw, given, is, rfl⟩ := conforms found here
    rw [type] at is
    exact stored_number is
  | boolean =>
    rw [type] at eqIs neqIs
    exact boolean_split eqIs neqIs
  | single_choice =>
    rw [type] at eqIs neqIs
    exact choice_split eqIs neqIs
  | multi_choice =>
    rw [type] at eqIs neqIs
    exact choice_split eqIs neqIs

end Split

section Search
variable {db : Database} {defs : Definitions} {key value : String} {definition : FieldDefinition}

theorem filterSql_text (isField : isFieldId key = true) (known : defs.get (fieldNumber key) = some definition)
    (op : Op) :
    filterSql db (filterText key op value) defs = conditionOf db definition op value := by
  rw [filterSql, parseFilter_text isField]
  dsimp only
  rw [known]

theorem empty_divided (isField : isFieldId key = true) (known : defs.get (fieldNumber key) = some definition)
    (contact : Contact) :
    Divided db defs (filterText key .empty value) (filterText key .not_empty value) contact := by
  rw [Divided, selects, selects, filterSql_text isField known, filterSql_text isField known]
  refine selects_split.mpr ⟨rfl, ?_⟩
  exact Truth.split_empty (· == "") (definition.text db contact.data)

/-- The two operators divide the contacts if and only if the filter is decided for each of them. -/
theorem filters_divide_iff (contacts : Set Contact) (isField : isFieldId key = true)
    (known : defs.get (fieldNumber key) = some definition)
    (accepted : ∀ op ∈ [Op.eq, Op.neq], (filterSql db (filterText key op value) defs).isOk = true)
    (conforming : ∀ contact ∈ contacts, Conforms definition contact.data) :
    (∀ contact ∈ contacts, Divided db defs (filterText key .eq value) (filterText key .neq value) contact ∧
      Divided db defs (filterText key .empty value) (filterText key .not_empty value) contact) ↔
      ∀ contact ∈ contacts, Decided definition value contact.data := by
  refine forall₂_congr fun contact member => (and_iff_left (empty_divided isField known contact)).trans ?_
  have eqOk := accepted .eq (by decide)
  have neqOk := accepted .neq (by decide)
  rw [filterSql_text isField known] at eqOk neqOk
  rw [Divided, selects, selects, filterSql_text isField known, filterSql_text isField known]
  cases eqIs : conditionOf db definition .eq value with
  | error error =>
    rw [eqIs] at eqOk
    cases eqOk
  | ok equal =>
    cases neqIs : conditionOf db definition .neq value with
    | error error =>
      rw [neqIs] at neqOk
      cases neqOk
    | ok different => exact eq_neq_split eqIs neqIs (conforming contact member)

def plainDatabase : Database := ⟨fun _ _ => false, compare, id, Number.toString⟩

def someFields : Definitions := [⟨7, "visits", .number, [], false, false, false, none⟩,
    ⟨8, "city", .text, [], false, false, false, none⟩]

def blank : Contact := ⟨5, fun _ => none, none, none, 1, 0, 0, none, []⟩

/-- A contact without a city is not in Lima. -/
theorem filters_divide_city : Divided plainDatabase someFields (filterText "8" .eq "Lima")
    (filterText "8" .neq "Lima") blank ∧
    Divided plainDatabase someFields (filterText "8" .empty "Lima")
    (filterText "8" .not_empty "Lima") blank := by
  have known : Definitions.get someFields (fieldNumber "8") = some ⟨8, "city", .text, [], false,
    false, false, none⟩ := rfl
  have accepted : ∀ op ∈ [Op.eq, Op.neq],
    (filterSql plainDatabase (filterText "8" op "Lima") someFields).isOk = true := by decide
  have conforming : ∀ contact ∈ ({blank} : Set Contact),
      Conforms ⟨8, "city", .text, [], false, false, false, none⟩ contact.data := by
    intro contact member
    cases member
    exact nofun
  exact (filters_divide_iff {blank} (by decide) known accepted conforming).mpr
    (fun _ _ => show storableText "Lima" = true by decide) blank rfl

/-- Neither operator of a number finds the contact. -/
theorem visits_vanish : ¬ ∀ (db : Database) (defs : Definitions) (key value : String)
    (definition : FieldDefinition) (contacts : Set Contact),
    isFieldId key = true → defs.get (fieldNumber key) = some definition →
    (∀ op ∈ [Op.eq, Op.neq], (filterSql db (filterText key op value) defs).isOk = true) →
    (∀ contact ∈ contacts, Conforms definition contact.data) →
      ∀ contact ∈ contacts, Divided db defs (filterText key .eq value) (filterText key .neq value) contact ∧
      Divided db defs (filterText key .empty value) (filterText key .not_empty value) contact := by
  intro all
  have divided := all plainDatabase someFields "7" "3" _ {blank} (by decide) rfl (by decide)
    (fun contact member => by cases member; exact nofun) blank rfl
  have neither : selects plainDatabase someFields (filterText "7" .eq "3") blank = false ∧
      selects plainDatabase someFields (filterText "7" .neq "3") blank = false := by decide
  rw [Divided, neither.1, neither.2] at divided
  exact absurd divided.1 (by decide)

end Search

end OpenEmarsys.Contacts
