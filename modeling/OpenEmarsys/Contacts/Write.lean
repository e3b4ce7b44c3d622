import OpenEmarsys.Contacts.Outbox

/-! `ContactsWriteService`, with the hook `ConsentsService` registers.

Results are mutable objects in the source; here each step returns the pending items
with their results as it leaves them, and an attempt that throws leaves none.
-/

set_option autoImplicit false

namespace OpenEmarsys.Contacts

open Javascript Postgres

/-- `create` only inserts (existing key → 2012), `update` only changes (missing key → 2008), `upsert` both. -/
inductive WriteMode where
  | create
  | update
  | upsert
  deriving DecidableEq, Repr

structure ItemError where
  code : Nat
  text : String
  field_id : Option String
  deriving DecidableEq, Repr

structure ItemResult where
  index : Nat
  key : Option String
  id : Option Uuid
  created : Bool
  changed : List String
  error : Option ItemError
  deriving DecidableEq, Repr

/-- An item as `Object.entries` lists it: field IDs in ascending order, then other keys. -/
structure Item where
  entries : List (String × Json)
  distinct : (entries.map Prod.fst).Nodup

/-- A contact written by a batch, as handed to hooks. -/
structure ContactChange where
  contactId : Uuid
  created : Bool
  before : Data
  after : Data
  changed : List String
  source : String

structure Pending where
  r : ItemResult
  /-- The values sent, none for one that removes its key. -/
  set : List (String × Option Value)

def fail (r : ItemResult) (code : Nat) (text : String) (fieldId : Option String) : ItemResult :=
  { r with error := some ⟨code, text, fieldId⟩, id := none, created := false, changed := [] }

def Pending.fail (p : Pending) (code : Nat) (text : String) (fieldId : Option String) : Pending :=
  { p with r := Contacts.fail p.r code text fieldId }

def Pending.valid (p : Pending) : Bool := p.r.error.isNone

/-- `String(raw)` of a string or a number, else nothing. -/
def keyText : Option Json → String
  | some (.string text) => text
  | some (.number n) => n.toString
  | _ => ""

/-- Results for every item, and whether its key is usable and not repeated. -/
def keyedFrom (core : Core) (keyId : String) : Nat → List String → List Item → List (ItemResult × Bool)
  | _, _, [] => []
  | index, seen, item :: rest =>
      let key := keyText (item.entries.lookup keyId)
      let r : ItemResult := ⟨index, if key.isEmpty then none else some key, none, false, [], none⟩
      if (trim key).isEmpty then
        (fail r 2014 s!"key field {keyId} is missing" none, false) ::
          keyedFrom core keyId (index + 1) seen rest
      else if seen.contains (normFor core keyId key) then
        (fail r 2014 s!"key {key} is repeated in the request" none, false) ::
          keyedFrom core keyId (index + 1) seen rest
      else
        (r, true) :: keyedFrom core keyId (index + 1) (normFor core keyId key :: seen) rest

def keyed (core : Core) (keyId : String) (items : List Item) : List ItemResult × List Pending :=
  let found := keyedFrom core keyId 0 [] items
  (found.map Prod.fst, (found.filter Prod.snd).map fun (r, _) => ⟨r, []⟩)

/-- The results of the call, once those of the pending items are known. -/
def results (all : List ItemResult) (pending : List Pending) : List ItemResult :=
  all.map fun r => ((pending.find? fun p => p.r.index == r.index).map Pending.r).getD r

def readEntries (definitions : Definitions) (keyId : String) : List (String × Json) → Pending → Pending
  | [], p => p
  | (k, raw) :: rest, p =>
      if k = "id" ∧ keyId = "id" then readEntries definitions keyId rest p
      else
        match if isFieldId k then definitions.get (fieldNumber k) else none with
        | none => p.fail 2011 s!"field {k} does not exist" (some k)
        | some definition =>
            if definition.readOnly then p.fail 2013 s!"field {k} is read-only" (some k)
            else
              match normalizeValue definition.type definition.choices raw with
              | .error (code, text) => p.fail code s!"field {k}: {text}" (some k)
              | .ok value => readEntries definitions keyId rest { p with set := p.set ++ [(k, value)] }

def readItem (definitions : Definitions) (keyId : String) (items : List Item) (p : Pending) : Pending :=
  readEntries definitions keyId ((items[p.r.index]?.map Item.entries).getD []) p

def Pending.key (p : Pending) : String := p.r.key.getD ""

/-- Gives each valid item its contact, existing or to be created. -/
def assignIds (mode : WriteMode) (keyId : String) (found : List (String × Uuid)) :
    List Pending → CoreScript (List Pending)
  | [] => pure []
  | p :: rest => do
      let p ← if !p.valid then pure p else
        match found.lookup p.key with
        | some id =>
            if mode = .create then pure (p.fail 2012 "contact already exists" none)
            else pure { p with r := { p.r with id := some id, created := false } }
        | none =>
            if mode = .update ∨ keyId = "id" then pure (p.fail 2008 "contact not found" none)
            else do
              let id ← call .uuidv7
              pure { p with r := { p.r with id := some id, created := true } }
      let rest ← assignIds mode keyId found rest
      pure (p :: rest)

def setText (fieldId : String) (p : Pending) : Option String :=
  match (p.set.lookup fieldId).join with
  | some value => if (trim value.toString).isEmpty then none else some value.toString
  | none => none

def checkSetters (core : Core) (fieldId : String) (owners : List (String × Uuid)) :
    List String → List Pending → List Pending
  | _, [] => []
  | seen, p :: rest =>
      match if p.valid then setText fieldId p else none with
      | none => p :: checkSetters core fieldId owners seen rest
      | some value =>
          let norm := normFor core fieldId value
          let checked :=
            if seen.contains norm
              then p.fail 2014 s!"value of field {fieldId} is repeated in the request" (some fieldId)
            else
              match owners.lookup value with
              | some owner =>
                  if p.r.id ≠ some owner
                    then p.fail 2012 s!"value of field {fieldId} belongs to another contact" (some fieldId)
                  else p
              | none => p
          checked :: checkSetters core fieldId owners (norm :: seen) rest

/-- Fails items that set a unique field to a value another contact (or an earlier item) holds. -/
def checkUnique (core : Core) (process : Nat) (keyId : String) :
    Definitions → List Pending → CoreScript (List Pending)
  | [], pending => pure pending
  | definition :: rest, pending => do
      let fieldId := toString definition.fieldId
      let pending ← if !definition.unique || fieldId == keyId then pure pending else
        let values := (pending.filter Pending.valid).filterMap (setText fieldId)
        if values.isEmpty then pure pending
        else do
          let owners ← resolve core process fieldId values
          pure (checkSetters core fieldId owners [] pending)
      checkUnique core process keyId rest pending

/-- `{ ...old }` with the sent keys set or deleted. -/
def merge (old : Data) : List (String × Option Value) → Data
  | [] => old
  | (k, some value) :: rest => merge (old.set k value) rest
  | (k, none) :: rest => merge (old.erase k) rest

def storableData (set : List (String × Option Value)) : Bool :=
  set.all fun (_, value) => value.all Value.storable

/-- The change an item makes to the contact it names, if any. -/
def changeOf (olds : List Contact) (source : String) (p : Pending) : Option ContactChange := do
  let id ← p.r.id
  let old ← olds.find? fun contact => contact.id == id
  let next := merge old.data p.set
  let changed := (p.set.map Prod.fst).filter fun k => old.data k ≠ next k
  if changed.isEmpty then none else some ⟨id, false, old.data, next, changed, source⟩

def ofChange {α : Type} (changes : List ContactChange) (contactId : Uuid)
    (take : ContactChange → α) : Option α :=
  (changes.find? fun change => change.contactId == contactId).map take

/-- Merges the sent keys into existing contacts; unchanged contacts are left alone (no version bump). -/
def update (core : Core) (now : Time) (items : List Pending) (source : String) :
    CoreScript (List ContactChange) :=
  if items.isEmpty then pure []
  else do
    let ids := items.filterMap fun p => p.r.id
    let rows ← sql (.lockRows (Row.isContact fun contact => contact.deletedAt.isNone &&
      ids.contains contact.id))
    if rows.length ≠ items.length then throw (.retry "a contact was deleted concurrently")
    let changes := items.filterMap (changeOf (rows.filterMap Row.contact?) source)
    if changes.isEmpty then pure changes
    else
      if !items.all fun p => storableData p.set then throw (.sql .untranslatable)
      let _ ← sql (.update (Row.isContact fun contact =>
        (changes.map ContactChange.contactId).contains contact.id)
        (Row.mapContact fun contact => Contact.recorded
          { contact.withData core
              (Data.stored ((ofChange changes contact.id ContactChange.after).getD contact.data)) with
            version := contact.version + 1, updatedAt := now }))
      pure changes

def insertChange (source : String) (p : Pending) : ContactChange :=
  let after := merge (fun _ => none) p.set
  ⟨p.r.id.getD 0, true, fun _ => none, after, (p.set.filter
    fun (_, value) => value.isSome).map Prod.fst, source⟩

def newContact (core : Core) (now : Time) (change : ContactChange) : Contact :=
  (Contact.withData core change.after.stored ⟨change.contactId, fun _ => none, none, none, 1, now,
    now, none, []⟩).recorded

/-- Inserts new contacts; `ON CONFLICT DO NOTHING` on the partial uniques turns a lost race into a retry. -/
def insert (core : Core) (now : Time) (items : List Pending) (source : String) :
    CoreScript (List ContactChange) :=
  if items.isEmpty then pure []
  else do
    let changes := items.map (insertChange source)
    if !items.all fun p => storableData p.set then throw (.sql .untranslatable)
    let inserted ← sql (.insert (changes.map fun change => .contact (newContact core now change)) true)
    if inserted.length ≠ items.length then throw (.retry "a key was taken concurrently")
    pure changes

/-- The custom unique fields a change touches (3 and 4 are indexed columns). -/
def clearedOf (definitions : Definitions) (changes : List ContactChange) : List (Uuid × Nat) :=
  changes.flatMap fun change =>
    (change.changed.filter fun k => k ≠ "3" ∧ k ≠ "4" ∧
      (definitions.get (fieldNumber k)).any FieldDefinition.unique).map
      fun k => (change.contactId, fieldNumber k)

def valuesOf (definitions : Definitions) (changes : List ContactChange) : List UniqueValue :=
  changes.flatMap fun change =>
    (change.changed.filter fun k => k ≠ "3" ∧ k ≠ "4" ∧
      (definitions.get (fieldNumber k)).any FieldDefinition.unique).filterMap
      fun k => (change.after k).bind fun value =>
        if (trim value.toString).isEmpty then none else some ⟨fieldNumber k, value.toString, change.contactId⟩

def checkForeignKey (contactIds : List Uuid) : CoreScript Unit := do
  let parents ← sql (.shareKey (Row.isContact fun contact => contactIds.contains contact.id))
  if !contactIds.all fun id => parents.any (Row.isContact fun contact => contact.id == id)
    then throw .foreignKey

/-- Keeps `unique_values` in step with custom unique fields. -/
def syncUniqueValues (definitions : Definitions) (changes : List ContactChange) : CoreScript Unit := do
  let cleared := clearedOf definitions changes
  let values := valuesOf definitions changes
  if !cleared.isEmpty then
    let _ ← sql (.delete (Row.isUniqueValue fun value => cleared.contains (value.contactId, value.fieldId)))
  if !values.isEmpty then
    let inserted ← sql (.insert (values.map Row.uniqueValue) true)
    checkForeignKey ((inserted.filterMap Row.uniqueValue?).map UniqueValue.contactId)
    if inserted.length ≠ values.length then throw (.retry "a unique value was taken concurrently")

structure ConsentInput where
  channel : ConsentChannel
  /-- 1 yes, 2 no, none unknown. -/
  value : Option Nat
  source : String
  text : Option String
  actor : Option String

/-- `CONSENT_FIELDS`. -/
def consentField : ConsentChannel → String
  | .email => "31"
  | .sms => "32"
  | .push => "33"

/-- `CHANNEL_OF`. -/
def channelOf (fieldId : String) : Option ConsentChannel :=
  [ConsentChannel.email, .sms, .push].find? fun channel => consentField channel = fieldId

/-- The consent a changed field records, before it has an id. -/
def consentOf (explicit : Option ConsentInput) (now : Time) (change : ContactChange)
    (channel : ConsentChannel) : Consent :=
  let e := explicit.filter fun input => input.channel = channel
  ⟨0, change.contactId, channel, (change.after (consentField channel)).map Value.stored,
    (e.map ConsentInput.source).getD change.source, e.bind ConsentInput.text, e.bind ConsentInput.actor, now⟩

def consentsOf (explicit : Option ConsentInput) (now : Time) (changes : List ContactChange) : List Consent :=
  changes.flatMap fun change => (change.changed.filterMap channelOf).map (consentOf explicit now change)

def consentRows : List Consent → CoreScript (List Row)
  | [] => pure []
  | consent :: rest => do
      let id ← call .uuidv7
      let rows ← consentRows rest
      pure (.consent { consent with id := id } :: rows)

def record (core : Core) (explicit : Option ConsentInput) (now : Time)
    (changes : List ContactChange) : CoreScript Unit := do
  let consents := consentsOf explicit now changes
  if consents.isEmpty then pure ()
  else
    let rows ← consentRows consents
    let _ ← sql (.insert rows false)
    insertEvents core "consent.changed" (consents.map fun consent =>
      (consent.contactId, .consentChanged consent.channel consent.value consent.source consent.text))

def writeBody (core : Core) (definitions : Definitions) (valid : List Pending) (source : String)
    (explicit : Option ConsentInput) : CoreScript (List ContactChange) := do
  let now ← call .now
  let updated ← update core now (valid.filter fun p => !p.r.created) source
  let inserted ← insert core now (valid.filter fun p => p.r.created) source
  let changes := updated ++ inserted
  syncUniqueValues definitions changes
  record core explicit now changes
  upserted core (changes.map fun change => (change.contactId, change.changed))
  pure changes

def withChanged (changes : List ContactChange) (pending : List Pending) : List Pending :=
  pending.map fun p => { p with r := { p.r with changed :=
    (p.r.id.bind fun id => ofChange changes id ContactChange.changed).getD p.r.changed } }

def sentBy (items : List Pending) : List (Uuid × List (String × Option Value)) :=
  items.filterMap fun p => p.r.id.map fun id => (id, p.set)

def attempt (core : Core) (process : Nat) (keyId : String) (mode : WriteMode) (items : List Item)
    (source : String) (explicit : Option ConsentInput) : CoreScript (List ItemResult) := do
  let definitions ← fields process
  let (all, pending) := keyed core keyId items
  let pending := pending.map (readItem definitions keyId items)
  let found ← resolve core process keyId ((pending.filter Pending.valid).map Pending.key)
  let pending ← assignIds mode keyId found pending
  let pending ← checkUnique core process keyId definitions pending
  let valid := pending.filter Pending.valid
  if valid.isEmpty then pure (results all pending)
  else
    let changes ← transaction (.write definitions (sentBy valid))
      (writeBody core definitions valid source explicit)
    pure (results all (withChanged changes pending))

def retryable : Failure → Bool
  | .retry _ => true
  | .sql .unique => true
  | _ => false

def ATTEMPTS : Nat := 3

/-- Runs the attempt, again up to `more` times after a lost race. -/
def attempts {α : Type} (run : CoreScript α) : Nat → CoreScript α
  | 0 => run
  | more + 1 => run.handle fun error => if retryable error then attempts run more else throw error

/-- `write`: one result per item, in order. Invalid items fail alone; `null` removes a field. -/
def write (core : Core) (process : Nat) (keyId : String) (mode : WriteMode) (items : List Item)
    (source : String) (explicit : Option ConsentInput) : CoreScript (List ItemResult) := do
  assertKey process keyId
  attempts (attempt core process keyId mode items source explicit) (ATTEMPTS - 1)

/-- Sets `deleted_at` (and frees unique values) on live contacts; returns the IDs deleted. -/
def softDelete (core : Core) (ids : List Uuid) : CoreScript (List Uuid) :=
  if ids.isEmpty then pure []
  else transaction (.softDelete ids) do
    let now ← call .now
    let rows ← sql (.update (Row.isContact fun contact => contact.deletedAt.isNone && ids.contains contact.id)
      (Row.mapContact fun contact => Contact.recorded
        { contact with deletedAt := some now, updatedAt := now, version := contact.version + 1 }))
    let gone := (rows.filterMap Row.contact?).map Contact.id
    if gone.isEmpty then pure gone
    else
      let _ ← sql (.delete (Row.isUniqueValue fun value => gone.contains value.contactId))
      deleted core gone "api"
      pure gone

def Pending.aim (found : List (String × Uuid)) (p : Pending) : Pending :=
  match found.lookup p.key with
  | some id => { p with r := { p.r with id := some id } }
  | none => p.fail 2008 "contact not found" none

/-- Another call may have deleted the contact since its key was resolved. -/
def Pending.confirm (deleted : List Uuid) (p : Pending) : Pending :=
  if p.r.id.any fun id => !deleted.contains id then p.fail 2008 "contact not found" none else p

/-- `delete`: soft-deletes the contacts matching the items' keys; unknown keys fail with 2008. -/
def delete (core : Core) (process : Nat) (keyId : String) (items : List Item) :
    CoreScript (List ItemResult) := do
  assertKey process keyId
  let (all, pending) := keyed core keyId items
  let found ← resolve core process keyId (pending.map Pending.key)
  let pending := pending.map (Pending.aim found)
  let deleted ← softDelete core (pending.filterMap fun p => p.r.id)
  pure (results all (pending.map (Pending.confirm deleted)))

/-- `{ id: contactId, [CONSENT_FIELDS[channel]]: value }`. -/
def consentItem (contactId : String) (input : ConsentInput) : Item where
  entries := [(consentField input.channel, (input.value.map
    fun value => Json.number (.ofNat value)).getD .null),
    ("id", .string contactId)]
  distinct := by cases input.channel <;> simp [consentField]

/-- `ConsentsService.set`. -/
def setConsent (core : Core) (process : Nat) (contactId : String) (input : ConsentInput) :
    CoreScript Unit := do
  let results ← write core process "id" .update [consentItem contactId input] input.source (some input)
  match results.head?.bind ItemResult.error with
  | some error =>
    if error.code = 2008 then throw (.notFound "contact not found") else throw (.error error.text)
  | none => pure ()

end OpenEmarsys.Contacts
