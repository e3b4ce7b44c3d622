import OpenEmarsys.Contacts.Rows

/-! Field definitions, what they accept, and the contacts a key names.

`FieldRegistry` caches the promise of the definitions, so calls that find it in the
cache wait for the query of the call that put it there.
-/

set_option autoImplicit false

namespace OpenEmarsys.Contacts

open Javascript Postgres

/-- A value to store, none for `null`, or a reply code and a text. -/
abbrev ValidationResult := Except (Nat × String) (Option Value)

def bad (text : String) : ValidationResult := .error (2010, text)

def good (value : Value) : ValidationResult := .ok (some value)

/-- `choiceIds.has(n) ? n : undefined`. -/
def choiceId (choices : List Choice) (n : Number) : Option Number :=
  if choices.any fun choice => Number.ofNat choice.id == n then some n else none

def asId (choices : List Choice) : Json → Option Number
  | .string text =>
      if isDigits text then choiceId choices (Float.Model.ofScientific (natOfDigits text.toList) 0) else none
  | .number n => choiceId choices n
  | _ => none

/-- `[...new Set(ids)]`. -/
def distinctIds : List Number → List Number
  | [] => []
  | id :: rest => id :: (distinctIds rest).filter (fun other => !(id == other))

def normalizeValue (type : FieldType) (choices : List Choice) (raw : Json) : ValidationResult :=
  match raw with
  | .null => .ok none
  | _ =>
      match type with
      | .text =>
          match raw with
          | .string text => good (.string text)
          | _ => bad "expected a string"
      | .number =>
          let n := match raw with
            | .string text => parseDecimal text
            | .number n => some n
            | _ => none
          match n with
          | some n => if n.isFinite then good (.number n) else bad "expected a decimal number"
          | none => bad "expected a decimal number"
      | .date =>
          match raw with
          | .string text => if isDate text then good (.string text) else bad "expected a date as YYYY-MM-DD"
          | _ => bad "expected a date as YYYY-MM-DD"
      | .boolean =>
          match raw with
          | .boolean b => good (.boolean b)
          | .string text =>
              if text = "true" ∨ text = "1" then good (.boolean true)
              else if text = "false" ∨ text = "0" then good (.boolean false)
              else bad "expected a boolean"
          | .number n =>
              if n == Number.ofNat 1 then good (.boolean true)
              else if n == Number.ofNat 0 then good (.boolean false)
              else bad "expected a boolean"
          | _ => bad "expected a boolean"
      | .single_choice =>
          match asId choices raw with
          | some id => good (.number id)
          | none => bad "expected the ID of one of the field options"
      | .multi_choice =>
          match raw with
          | .array elements =>
              match elements.mapM (asId choices) with
              | some ids => good (.options (distinctIds ids))
              | none => bad "expected an array of option IDs of the field"
          | _ => bad "expected an array of option IDs of the field"

/-- `Map<number, FieldDefinition>`, by field ID. -/
abbrev Definitions := List FieldDefinition

def Definitions.get (definitions : Definitions) (fieldId : Nat) : Option FieldDefinition :=
  definitions.find? fun definition => definition.fieldId == fieldId

def liveDefinition : Row → Bool := Row.isDefinition fun definition => definition.deletedAt.isNone

def byFieldId (rows : List Row) : Definitions :=
  (rows.filterMap Row.definition?).insertionSort fun a b => a.fieldId ≤ b.fieldId

/-- `FieldRegistry.fields`, in one process. -/
def fields (process : Nat) : CoreScript Definitions := do
  let found : Lookup ← call (.lookup process)
  match found with
  | .hit promise =>
      let result : Option Definitions ← call (.settled promise)
      match result with
      | some definitions => pure definitions
      | none => throw .definitions
  | .miss promise =>
      let query : CoreScript Definitions := do
        let rows ← transaction .read (sql (.select liveDefinition))
        call (.settle process promise (some (byFieldId rows)))
        pure (byFieldId rows)
      query.handle fun error => do
        call (.settle process promise none)
        throw error

/-- Throws 2009 unless `keyId` is `id` or an existing, unique field. -/
def assertKey (process : Nat) (keyId : String) : CoreScript Unit := do
  if keyId = "id" then pure ()
  else
    let definition ← if isDigits keyId
      then do pure ((← fields process).get (fieldNumber keyId)) else pure none
    match definition with
    | some definition =>
        if definition.unique then pure ()
        else throw (.publicApi 2009 s!"key_id {keyId} does not exist or is not unique")
    | none => throw (.publicApi 2009 s!"key_id {keyId} does not exist or is not unique")

/-- Same normalization as the unique indexes: email lowercased, external_id trimmed. -/
def normFor (core : Core) (fieldId value : String) : String :=
  if fieldId = "3" then core.toLowerCase (trim value) else if fieldId = "4" then trim value else value

/-- The rows `query` reads: live contacts, and the unique values of a custom field. -/
def matchesKey (keyId : String) (keys : List String) : Row → Bool
  | .contact contact => contact.deletedAt.isNone &&
      if keyId = "id" then (keys.map uuidOf).contains contact.id
      else if keyId = "3" then contact.emailNorm.any keys.contains
      else if keyId = "4" then contact.externalId.any keys.contains
      else true
  | .uniqueValue value =>
      keyId ≠ "id" && keyId ≠ "3" && keyId ≠ "4" && value.fieldId == fieldNumber keyId &&
        keys.contains value.value
  | _ => false

/-- The columns `k` and `id` of `query`. -/
def keyColumns (keyId : String) (rows : List Row) : List (String × Uuid) :=
  let contacts := rows.filterMap Row.contact?
  if keyId = "id" then contacts.map fun contact => (uuidText contact.id, contact.id)
  else if keyId = "3" then contacts.filterMap fun contact => contact.emailNorm.map (·, contact.id)
  else if keyId = "4" then contacts.filterMap fun contact => contact.externalId.map (·, contact.id)
  else (rows.filterMap Row.uniqueValue?).filterMap fun value =>
    if contacts.any fun contact => contact.id == value.contactId
      then some (value.value, value.contactId) else none

def storableText (text : String) : Bool := !text.toList.contains '\x00'

/-- Each given value that names a live contact, with its ID. -/
def resolve (core : Core) (process : Nat) (keyId : String) (values : List String) :
    CoreScript (List (String × Uuid)) := do
  assertKey process keyId
  let keys := (values.map (normFor core keyId)).dedup.filter fun key => keyId ≠ "id" || isUuid key
  let found ← if keys.isEmpty then pure [] else
    transaction .read do
      if !keys.all storableText then throw (.sql .untranslatable)
      let rows ← sql (.select (matchesKey keyId keys))
      pure (keyColumns keyId rows)
  pure (values.filterMap fun value => (found.lookup (normFor core keyId value)).map (value, ·))

end OpenEmarsys.Contacts
