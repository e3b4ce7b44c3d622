import OpenEmarsys.Contacts.Registry

/-! The outbox of contacts events: `OutboxRelay` and `ContactsOutbox`.

The loop of a relay calls `drain` again and again, so its runs are runs of `drain`
calls; `kick` and the timer only decide when.
-/

set_option autoImplicit false

namespace OpenEmarsys.Contacts

open Javascript Postgres

def BATCH : Nat := 500

def outboxId : Row → Uuid
  | .outbox row => row.id
  | _ => 0

/-- `ORDER BY id`. -/
def outboxOrder (row other : Row) : Bool := outboxId row ≤ outboxId other

def send (row : OutboxRow) : CoreScript Unit := do
  let acknowledged ← call (.publish row)
  if acknowledged then pure () else throw .publish

def sendAll : List OutboxRow → CoreScript Unit
  | [] => pure ()
  | row :: rest => do
      send row
      sendAll rest

/-- Publishes and removes up to `BATCH` pending rows; returns how many. -/
def drain : CoreScript Nat :=
  transaction .drain do
    let rows ← sql (.lockSkip (Row.isOutbox fun _ => true) outboxOrder BATCH)
    let pending := rows.filterMap Row.outbox?
    sendAll pending
    if pending.isEmpty then pure pending.length
    else
      let _ ← sql (.delete (Row.isOutbox fun row => (pending.map OutboxRow.id).contains row.id))
      pure pending.length

def subjectFor (type tenantId : String) : String := s!"oe.{type}.{tenantId}"

def buildEnvelope (core : Core) (type : String) (contactId : Uuid) (data : EventData) :
    CoreScript EventEnvelope := do
  let id ← call .uuidv7
  let now ← call .now
  pure { id := id, type := type, tenant_id := core.tenantId, occurred_at := toISOString now, source := core.source,
         contact_id := contactId, data := data }

/-- The rows of an event of `type` for each contact. -/
def outboxRows (core : Core) (type : String) : List (Uuid × EventData) → CoreScript (List Row)
  | [] => pure []
  | (contactId, data) :: rest => do
      let envelope ← buildEnvelope core type contactId data
      let rows ← outboxRows core type rest
      pure (.outbox ⟨envelope.id, subjectFor type core.tenantId, envelope⟩ :: rows)

/-- `ContactsOutbox.insert`. -/
def insertEvents (core : Core) (type : String) (events : List (Uuid × EventData)) : CoreScript Unit :=
  if events.isEmpty then pure ()
  else do
    let rows ← outboxRows core type events
    let _ ← sql (.insert rows false)
    pure ()

/-- 40 and 41 are read-only system fields backed by the row's timestamps. -/
def snapshotFields (contact : Contact) : Data :=
  (contact.data.set "40" (.string (toISOString contact.createdAt))).set "41"
    (.string (toISOString contact.updatedAt))

/-- The lists of a contact among the rows read. -/
def listsOf (rows : List Row) (contactId : Uuid) : List Uuid :=
  ((rows.filterMap Row.member?).filter fun member => member.contactId == contactId).map ListMember.listId

/-- Contacts and their memberships, as `upserted` joins them. -/
def snapshotRows (contacts : List Uuid) : Row → Bool
  | .contact contact => contacts.contains contact.id
  | .member member => contacts.contains member.contactId
  | _ => false

def upsertedEvent (rows : List Row) (changed : List (Uuid × List String))
    (contact : Contact) : Uuid × EventData :=
  (contact.id, .upserted contact.version (snapshotFields contact) ((changed.lookup contact.id).getD [])
    (listsOf rows contact.id))

/-- One `contacts.upserted` per contact with its full snapshot as of `tx`. -/
def upserted (core : Core) (changed : List (Uuid × List String)) : CoreScript Unit :=
  if changed.isEmpty then pure ()
  else do
    let rows ← sql (.select (snapshotRows (changed.map Prod.fst)))
    insertEvents core "contacts.upserted" ((rows.filterMap Row.contact?).map (upsertedEvent rows changed))

/-- One `contacts.deleted` per contact. -/
def deleted (core : Core) (contactIds : List Uuid) (reason : String) : CoreScript Unit :=
  insertEvents core "contacts.deleted" (contactIds.map fun contactId => (contactId, .deleted reason))

end OpenEmarsys.Contacts
