import OpenEmarsys.Javascript.Values
import OpenEmarsys.Postgres.Stages

/-! `GdprService`: access and erasure requests, carried out by any number of core processes.

The tables hold the rows of one tenant, as far as the service reads or writes them; what tells a
row of a child table from the others of its contact is one `key`.
-/

set_option autoImplicit false

namespace OpenEmarsys.Gdpr

open Javascript Postgres

inductive RequestKind where
  | export
  | forget
  deriving DecidableEq, Repr

inductive RequestStatus where
  | pending
  | running
  | done
  | failed
  deriving DecidableEq, Repr

/-- `done` or `failed`. -/
def RequestStatus.ended : RequestStatus → Bool
  | .pending | .running => false
  | .done | .failed => true

/-- `gdpr/${tenantId}/${req.id}.json` in the `exports` bucket. -/
structure ExportKey where
  tenantId : Uuid
  requestId : Uuid
  deriving DecidableEq, Repr

structure GdprRequest where
  id : Uuid
  contactId : Option Uuid
  subjectHash : Option String := none
  kind : RequestKind
  status : RequestStatus := .pending
  requestedBy : Option String
  resultKey : Option ExportKey := none
  error : Option String := none
  requestedAt : Time
  completedAt : Option Time := none
  deriving DecidableEq

/-- The tables whose rows belong to a contact. -/
inductive Child where
  | uniqueValues
  | listMembers
  | relationalRows
  | identityLinks
  deriving DecidableEq, Repr

inductive Row where
  | contact (id : Uuid)
  | child (table : Child) (key : String) (contactId : Uuid)
  | consent (id contactId : Uuid) (text : Option String)
  | request (request : GdprRequest)
  /-- An outbox row of `contacts.deleted`, with reason `gdpr`. -/
  | deleted (id contactId : Uuid)
  deriving DecidableEq

inductive IndexKey where
  | contact (id : Uuid)
  | child (table : Child) (key : String) (contactId : Uuid)
  | consent (id : Uuid)
  | request (id : Uuid)
  | deleted (id : Uuid)
  deriving DecidableEq

instance : Indexed Row where
  Key := IndexKey
  decideKey := inferInstance
  primary
    | .contact id => .contact id
    | .child table key contactId => .child table key contactId
    | .consent id _ _ => .consent id
    | .request request => .request request.id
    | .deleted id _ => .deleted id
  uniques _ := []

inductive Area where
  | contacts
  | children (table : Child)
  | consents
  | requests
  | outbox
  deriving DecidableEq

instance : Tabled Row where
  Table := Area
  decideTable := inferInstance
  table
    | .contact _ => .contacts
    | .child table _ _ => .children table
    | .consent _ => .consents
    | .request _ => .requests
    | .deleted _ => .outbox

namespace Row

def isContact (id : Uuid) : Row → Bool
  | .contact contactId => contactId == id
  | _ => false

def isChild (table : Child) (id : Uuid) : Row → Bool
  | .child other _ contactId => other == table && contactId == id
  | _ => false

def isConsent (p : Uuid → Option String → Bool) : Row → Bool
  | .consent _ contactId text => p contactId text
  | _ => false

def isRequest (p : GdprRequest → Bool) : Row → Bool
  | .request row => p row
  | _ => false

def request? : Row → Option GdprRequest
  | .request row => some row
  | _ => none

def mapRequest (f : GdprRequest → GdprRequest) : Row → Row
  | .request row => .request { f row with id := row.id }
  | other => other

/-- `UPDATE contacts.consents SET text = NULL`. -/
def withoutText : Row → Row
  | .consent id contactId _ => .consent id contactId none
  | other => other

end Row

/-- What a transaction is for. The ones that change a request name it. -/
inductive Label where
  | read
  | create
  | claim (id : Uuid)
  /-- The end of a request to export. -/
  | record (id : Uuid)
  | forget (id : Uuid)
  /-- The end of a request to forget whose contact is gone already. -/
  | close (id : Uuid)
  | fail (id : Uuid)
  deriving DecidableEq, Repr

inductive GdprError where
  /-- An `Error` with this message. -/
  | error (message : String)
  | notFound (message : String)
  /-- P2025, there is no row to find or to update. -/
  | recordNotFound
  | sql (error : SqlError)
  deriving DecidableEq, Repr

instance : ClientError GdprError := ⟨.sql⟩

inductive Request where
  | now
  | newV7
  /-- Whether the answer of the server to a commit arrives. -/
  | answer
  /-- The field definitions, what the contributors add, and the JSON of it all. -/
  | document (contactId : Uuid) (found : List Row)
  | put (key : ExportKey) (body : String)
  | remove (key : ExportKey)
  /-- The text of an error of the database client. -/
  | describe (error : GdprError)

abbrev Request.Reply : Request → Type
  | .now => Time
  | .newV7 => Uuid
  | .answer => Option String
  | .document .. => Except String String
  | .put .. => Option String
  | .remove _ => Option String
  | .describe _ => String

abbrev GdprScript (α : Type) := Client Row Label Request.Reply GdprError α

def call (request : Request) : GdprScript request.Reply := ask request

/-- What the client hears of a call that may fail. -/
def orElse {α : Type} (value : α) (failure : Option String) : GdprScript α :=
  match failure with
  | none => .ret value
  | some message => .fail (.error message)

/-- A transaction whose commit may be carried out without the client hearing of it. -/
def answered {α : Type} (label : Label) (body : GdprScript α) : GdprScript α := do
  let value ← transaction label body
  let lost ← call .answer
  orElse value lost

/-- A Prisma call outside `$transaction`. -/
def query (label : Label) (statement : Statement Row) : GdprScript (List Row) :=
  answered label (sql statement)

/-- `update` by primary key: the row has to be there. -/
def updateRequest (id : Uuid) (data : GdprRequest → GdprRequest) : GdprScript Unit := do
  let rows ← sql (.update (Row.isRequest fun row => row.id == id) (Row.mapRequest data))
  if rows = [] then throw .recordNotFound else return ()

/-- What a core process knows: the tenant, and SHA-256 in hex. -/
structure Core where
  tenantId : Uuid
  sha256 : Uuid → String

namespace Core

variable (core : Core)

def subjectHash (contactId : Uuid) : String := core.sha256 contactId

def claimed (row : GdprRequest) : GdprRequest := { row with status := .running }

def exported (key : ExportKey) (now : Time) (row : GdprRequest) : GdprRequest :=
  { row with status := .done, resultKey := some key, completedAt := some now }

def closed (now : Time) (row : GdprRequest) : GdprRequest :=
  { row with status := .done, completedAt := some now }

def failed (now : Time) (message : String) (row : GdprRequest) : GdprRequest :=
  { row with status := .failed, error := some message, completedAt := some now }

def erased (contactId : Uuid) (row : GdprRequest) : GdprRequest :=
  { row with contactId := none, subjectHash := some (core.subjectHash contactId), resultKey := none }

/-- Any contact of the tenant, soft-deleted ones included. The request is then queued in this process. -/
def request (contactId : Uuid) (kind : RequestKind) (requestedBy : Option String) : GdprScript Uuid := do
  let contacts ← query .read (.select (Row.isContact contactId))
  if contacts = [] then throw (.notFound "contact not found")
  else
    let id ← call .newV7
    let now ← call .now
    let _ ← query .create (.insert [.request {
      id := id, contactId := some contactId, kind := kind, requestedBy :=
        requestedBy, requestedAt := now }] false)
    return id

/-- The contact with what else is stored about it; none when it is gone. -/
def find (contactId : Uuid) : GdprScript (Option (List Row)) :=
  answered .read do
    let contact ← sql (.select (Row.isContact contactId))
    if contact = [] then return none
    else
      let consents ← sql (.select (Row.isConsent fun other _ => other == contactId))
      let lists ← sql (.select (Row.isChild .listMembers contactId))
      let relational ← sql (.select (Row.isChild .relationalRows contactId))
      return some (contact ++ consents ++ lists ++ relational)

/-- Access: what is stored about the contact, as JSON in `exports`. -/
def export_ (req : GdprRequest) : GdprScript Unit :=
  match req.contactId with
  | none => throw (.error "contact not found")
  | some contactId => do
      match ← find contactId with
      | none => throw (.error "contact not found")
      | some found =>
          match ← call (.document contactId found) with
          | .error message => throw (.error message)
          | .ok doc =>
              let key : ExportKey := ⟨core.tenantId, req.id⟩
              let failure ← call (.put key doc)
              orElse () failure
              let now ← call .now
              answered (.record req.id) (updateRequest req.id (exported key now))

/-- The event of a contact whose row has been deleted. -/
def announce (contactId : Uuid) (contacts : List Row) : GdprScript Unit :=
  if contacts = [] then return ()
  else do
    let event ← call .newV7
    let _ ← sql (.insert [.deleted event contactId] false)
    return ()

/-- Physically deletes the contact and everything keyed by it. -/
def deleteContact (contactId : Uuid) : GdprScript Unit := do
  let _ ← sql (.delete (Row.isChild .uniqueValues contactId))
  let _ ← sql (.delete (Row.isChild .listMembers contactId))
  let _ ← sql (.delete (Row.isChild .relationalRows contactId))
  let _ ← sql (.delete (Row.isChild .identityLinks contactId))
  let contacts ← sql (.delete (Row.isContact contactId))
  announce contactId contacts

/-- The transaction of an erasure; returns the keys of earlier exports. -/
def erase (req : GdprRequest) (contactId : Uuid) : GdprScript (List ExportKey) := do
  deleteContact contactId
  -- the CTE locks the rows before they are updated
  let old ← sql (.lockRows (Row.isRequest fun row => row.contactId == some contactId))
  let ids := (old.filterMap Row.request?).map GdprRequest.id
  let _ ← sql (.update (Row.isRequest fun row => ids.contains row.id)
    (Row.mapRequest (core.erased contactId)))
  let now ← call .now
  updateRequest req.id (closed now)
  let _ ← sql (.update (Row.isConsent fun other text => other == contactId && text.isSome) Row.withoutText)
  return (old.filterMap Row.request?).filterMap GdprRequest.resultKey

/-- Erasure of the contact in one transaction, then of its earlier exports. -/
def forget (req : GdprRequest) : GdprScript Unit :=
  match req.contactId with
  | none => do
      let now ← call .now
      answered (.close req.id) (updateRequest req.id (closed now))
  | some contactId => do
      let staleExports ← answered (.forget req.id) (core.erase req contactId)
      -- an object that cannot be removed is only logged
      staleExports.forM fun key => do
        let _ ← call (.remove key)
        return ()

def message : GdprError → GdprScript String
  | .error text => return text
  | .notFound text => return text
  | error => call (.describe error)

/-- The `catch` of `run`; when it fails itself, this is only logged. -/
def markFailed (id : Uuid) (error : GdprError) : GdprScript Unit :=
  let mark : GdprScript Unit := do
    let text ← message error
    let now ← call .now
    answered (.fail id) (updateRequest id (failed now text))
  mark.handle fun _ => return ()

def run (id : Uuid) : GdprScript Unit :=
  let execution : GdprScript Unit := do
    let rows ← query (.claim id) (.update (Row.isRequest
      fun row => row.id == id && !row.status.ended) (Row.mapRequest claimed))
    if rows = [] then return ()
    else
      let found ← query .read (.select (Row.isRequest fun row => row.id == id))
      match found.filterMap Row.request? with
      | [] => throw .recordNotFound
      | req :: _ =>
          match req.kind with
          | .export => core.export_ req
          | .forget => core.forget req
  execution.handle (markFailed id)

end Core

/-- A request made through the API, or one request taken from the queue of a process. A process that
starts puts all that are pending or running in its queue, so a request may be in several. -/
inductive Operation where
  | request (contactId : Uuid) (kind : RequestKind) (requestedBy : Option String)
  | run (id : Uuid)

def Operation.code (core : Core) : Operation → GdprScript Unit
  | .request contactId kind requestedBy => do
      let _ ← Core.request contactId kind requestedBy
      return ()
  | .run id => core.run id

/-- The objects of the `exports` bucket. -/
abbrev Bucket := List ExportKey

/-- A value for a request, or an error; `applied` when the object was nevertheless stored or removed. -/
inductive Draw where
  | time (now : Time)
  | uuid (id : Uuid)
  | lost (failure : Option String)
  | document (result : Except String String)
  | storage (applied : Bool) (failure : Option String)
  | text (message : String)

abbrev State := Shared Row Label Bucket

def respond (_ : Tid) : (request : Request) → Draw → State → Option (request.Reply × Bucket)
  | .now, .time now, shared => some (now, shared.world)
  | .newV7, .uuid id, shared => some (id, shared.world)
  | .answer, .lost failure, shared => some (failure, shared.world)
  | .document .., .document result, shared => some (result, shared.world)
  | .put key _, .storage applied failure, shared =>
      if applied || failure.isSome then some (failure, if applied then key :: shared.world
        else shared.world) else none
  | .remove key, .storage applied failure, shared =>
      if applied || failure.isSome then
        some (failure, if applied then shared.world.filter (· ≠ key) else shared.world)
      else none
  | .describe _, .text message, shared => some (message, shared.world)
  | _, _, _ => none

abbrev Log := List (Commit Row Label)

abbrev Config := Interleaving.Config Operation (Action Row Label Request)
    (Answer Request.Reply) GdprError Unit State

def State.opening (rows : List Row) : State := ⟨.holding rows, []⟩

end OpenEmarsys.Gdpr
