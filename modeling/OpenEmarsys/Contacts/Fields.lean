import OpenEmarsys.Contacts.Registry

/-! `FieldsService`: definitions are created, changed and removed.

`remove` leaves the purge to run in the background; here it is the end of the call.
-/

set_option autoImplicit false

namespace OpenEmarsys.Contacts

open Javascript Postgres

structure ChoiceInput where
  id : Option Nat
  api_name : String

structure FieldCreate where
  api_name : String
  type : FieldType
  choices : List ChoiceInput
  unique : Bool

structure FieldUpdate where
  api_name : Option String
  choices : Option (List ChoiceInput)

def nameInUse (apiName : String) : Failure := .publicApi 2015 s!"field name {apiName} is already in use"

def numberChoices : Nat → List ChoiceInput → List Choice
  | _, [] => []
  | next, input :: rest =>
      match input.id with
      | some id => ⟨id, input.api_name⟩ :: numberChoices next rest
      | none => ⟨next, input.api_name⟩ :: numberChoices (increment next) rest

/-- Options keep their ID; entries without one get the next free ID (never reused within the field). -/
def withChoiceIds (input : List ChoiceInput) (current : List Choice) : List Choice :=
  numberChoices (increment ((current.map Choice.id).foldl max 0)) input

/-- Runs `body`, naming a violated unique index, and drops the cached definitions whatever happens. -/
def invalidating {α : Type} (process : Nat) (apiName : String) (body : CoreScript α) : CoreScript α := do
  let result ← body.handle fun error => do
    call (.invalidate process)
    throw (if error = .sql .unique then nameInUse apiName else error)
  call (.invalidate process)
  pure result

/-- `next_custom_field_id`: 1000, 1001, …; the upsert locks the tenant's counter. -/
def nextCustomFieldId : CoreScript Nat := do
  let next : Row → Row
    | .counter lastId => .counter (lastId + 1)
    | row => row
  let updated ← sql (.update Row.isCounter next)
  let rows ← if updated.isEmpty then do
      let inserted ← sql (.insert [.counter 1000] true)
      if inserted.isEmpty then sql (.update Row.isCounter next) else pure inserted
    else pure updated
  match rows with
  | .counter lastId :: _ => pure lastId
  | _ => throw (.error "no row")

def create (process : Nat) (input : FieldCreate) : CoreScript FieldDefinition :=
  invalidating process input.api_name <| transaction .createField do
    let id ← nextCustomFieldId
    let definition : FieldDefinition :=
      ⟨id, input.api_name, input.type, withChoiceIds input.choices [], false, input.unique, false, none⟩
    let _ ← sql (.insert [.definition definition] false)
    pure definition

def findDefinition (fieldId : Nat) : CoreScript FieldDefinition := do
  let rows ← sql (.select (Row.isDefinition fun definition => definition.fieldId == fieldId &&
    definition.deletedAt.isNone))
  match rows.filterMap Row.definition? with
  | definition :: _ => pure definition
  | [] => throw (.notFound s!"field {fieldId} not found")

/-- Throws 409 when a live contact has one of the options, whose IDs are cast to `int`. -/
def checkUnused (fieldId : Nat) : List Choice → CoreScript Unit
  | [] => pure ()
  | gone :: rest => do
      if 2 ^ 31 ≤ gone.id then throw (.error "integer out of range")
      let used ← sql (.select (Row.isContact fun contact =>
        contact.deletedAt.isNone && (contact.data (toString fieldId)).any
          fun value => value.contains gone.id))
      if !used.isEmpty then throw (.conflict s!"choice {gone.id} is in use by contacts")
      checkUnused fieldId rest

/-- What `update` writes: the new options, when they may replace the current ones. -/
def newChoices (definition : FieldDefinition) (fieldId : Nat) (input : List ChoiceInput) :
    CoreScript (List Choice) := do
  let current := definition.choices
  let kept := input.map ChoiceInput.id
  if definition.isSystem && (input.length ≠ current.length ||
    current.any (fun c => !kept.contains (some c.id)) ||
      input.any fun c => some c.api_name ≠ (current.find? fun o => some o.id == c.id).map Choice.api_name)
        then
    throw (.forbidden "system fields only accept labels")
  if input.any fun c => c.id.any fun id => !(current.any fun o => o.id == id) then
    throw (.publicApi 2010 "choice id does not belong to the field")
  checkUnused fieldId (current.filter fun c => !kept.contains (some c.id))
  pure (withChoiceIds input current)

/-- `fieldDefinition.update` by primary key, which fails when there is no such row. -/
def setDefinition (fieldId : Nat) (f : FieldDefinition → FieldDefinition) : CoreScript FieldDefinition := do
  let rows ← sql (.update (Row.isDefinition fun definition => definition.fieldId == fieldId)
    (Row.mapDefinition f))
  match rows.filterMap Row.definition? with
  | definition :: _ => pure definition
  | [] => throw (.error "No record was found for an update.")

def updateField (process : Nat) (fieldId : Nat) (input : FieldUpdate) : CoreScript FieldDefinition :=
  invalidating process (input.api_name.getD "") <| transaction (.updateField fieldId) do
    let definition ← findDefinition fieldId
    let renamed := input.api_name.any fun name => name ≠ definition.apiName
    if renamed && definition.isSystem then throw (.forbidden "system fields only accept labels")
    let choices ← match input.choices with
      | some choices => do pure (some (← newChoices definition fieldId choices))
      | none => pure none
    setDefinition fieldId fun current =>
      { current with
        apiName := if renamed then input.api_name.getD current.apiName else current.apiName
        choices := choices.getD current.choices }

/-- Removes the deleted field's key (and unique values) from the tenant's contacts. -/
def purge (core : Core) (fieldId : Nat) : CoreScript Unit :=
  transaction (.purge fieldId) do
    let _ ← sql (.update (Row.isContact fun contact => (contact.data (toString fieldId)).isSome)
      (Row.mapContact fun contact => contact.withData core (contact.data.erase (toString fieldId))))
    let _ ← sql (.delete (Row.isUniqueValue fun value => value.fieldId == fieldId))
    pure ()

/-- Marks a custom field deleted and strips its key from contact data in the background. -/
def remove (core : Core) (process : Nat) (fieldId : Nat) : CoreScript Unit := do
  let definition ← transaction .read (findDefinition fieldId)
  if definition.isSystem then throw (.forbidden "system fields cannot be deleted")
  let now ← call .now
  let _ ← transaction (.removeField fieldId) (setDefinition fieldId
    fun definition => { definition with deletedAt := some now })
  call (.invalidate process)
  Interleaving.Script.handle (purge core fieldId) fun _ => pure ()

end OpenEmarsys.Contacts
