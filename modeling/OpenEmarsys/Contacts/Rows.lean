import OpenEmarsys.Javascript.Values
import OpenEmarsys.Postgres.Server

/-! The tables of the `contacts` schema for one tenant, and what core calls besides
the database: clocks, identifiers, the stream and the caches of its processes.
-/

set_option autoImplicit false

namespace OpenEmarsys.Contacts

open Javascript Postgres

/-- What `normalizeValue` lets into a contact; `null` is never stored. -/
inductive Value where
  | string (text : String)
  | number (n : Number)
  | boolean (b : Bool)
  /-- The chosen options of a multi choice field. -/
  | options (ids : List Number)
  deriving DecidableEq

namespace Value

/-- `String(v)`. -/
protected def toString : Value → String
  | .string text => text
  | .number n => n.toString
  | .boolean b => if b then "true" else "false"
  | .options ids => ",".intercalate (ids.map Number.toString)

def stored : Value → Value
  | .number n => .number n.stored
  | .options ids => .options (ids.map Number.stored)
  | value => value

/-- The strings of the value can be text in the database. -/
def storable : Value → Bool
  | .string text => !text.toList.contains '\x00'
  | _ => true

/-- `data ->> key` where the key holds a string, as email and external id do. -/
def text : Value → String := Value.toString

/-- `value @> to_jsonb(id)`. -/
def contains (value : Value) (id : Nat) : Bool :=
  match value with
  | .number n => n == Number.ofNat id
  | .options ids => ids.any (· == Number.ofNat id)
  | _ => false

end Value

/-- The jsonb column `data`: field IDs and their values. -/
abbrev Data := String → Option Value

def Data.set (data : Data) (key : String) (value : Value) : Data := Function.update data key (some value)

/-- `data - key`, or `delete data[key]`. -/
def Data.erase (data : Data) (key : String) : Data := Function.update data key none

def Data.stored (data : Data) : Data := fun key => (data key).map Value.stored

/-- Postgres `trim`: blanks only. -/
def pgTrim (text : String) : String := strip (· == ' ') text

/-- `nullif(text, '')`. -/
def nullifEmpty (text : String) : Option String := if text.isEmpty then none else some text

/-- What a core service runs with. -/
structure Core where
  tenantId : String
  /-- `NATS_MODULE_OPTIONS.source`. -/
  source : String
  /-- `String.prototype.toLowerCase`. -/
  toLowerCase : String → String
  /-- Postgres `lower`, of the database's locale. -/
  lower : String → String

def Core.emailNorm (core : Core) (data : Data) : Option String :=
  (data "3").bind fun value => nullifEmpty (core.lower (pgTrim value.text))

def externalId (data : Data) : Option String :=
  (data "4").bind fun value => nullifEmpty (pgTrim value.text)

structure Contact where
  id : Uuid
  data : Data
  emailNorm : Option String
  externalId : Option String
  version : Nat
  createdAt : Time
  updatedAt : Time
  deletedAt : Option Time
  /-- The data of each version as it was written, the last one first. A history variable: no column, and
  read by no script. -/
  past : List Data

def Contact.recorded (contact : Contact) : Contact := { contact with past := contact.data :: contact.past }

def Contact.dataAt (contact : Contact) (version : Nat) : Option Data :=
  if version ≤ contact.version then contact.past[contact.version - version]? else none

/-- The columns `email_norm` and `external_id` are generated from `data`. -/
def Contact.withData (core : Core) (data : Data) (contact : Contact) : Contact :=
  { contact with data := data, emailNorm := core.emailNorm data, externalId := Contacts.externalId data }

structure UniqueValue where
  fieldId : Nat
  value : String
  contactId : Uuid

structure ContactList where
  id : Uuid
  name : String

structure ListMember where
  listId : Uuid
  contactId : Uuid

inductive ConsentChannel where
  | email
  | sms
  | push
  deriving DecidableEq, Repr

structure Consent where
  id : Uuid
  contactId : Uuid
  channel : ConsentChannel
  value : Option Value
  source : String
  text : Option String
  actor : Option String
  changedAt : Time

inductive FieldType where
  | text
  | number
  | date
  | boolean
  | single_choice
  | multi_choice
  deriving DecidableEq, Repr

structure Choice where
  id : Nat
  api_name : String
  deriving DecidableEq

structure FieldDefinition where
  fieldId : Nat
  apiName : String
  type : FieldType
  choices : List Choice
  isSystem : Bool
  unique : Bool
  readOnly : Bool
  deletedAt : Option Time
  deriving DecidableEq

inductive EventData where
  | upserted (version : Nat) (fields : Data) (changed : List String) (lists : List Uuid)
  | deleted (reason : String)
  | consentChanged (channel : ConsentChannel) (value : Option Value) (source : String) (text : Option String)

structure EventEnvelope where
  id : Uuid
  type : String
  tenant_id : String
  occurred_at : String
  source : String
  contact_id : Uuid
  data : EventData

structure OutboxRow where
  id : Uuid
  subject : String
  envelope : EventEnvelope

inductive Row where
  | contact (contact : Contact)
  | uniqueValue (value : UniqueValue)
  | list (list : ContactList)
  | member (member : ListMember)
  | consent (consent : Consent)
  | definition (definition : FieldDefinition)
  /-- `field_id_counters`, one row a tenant. -/
  | counter (lastId : Nat)
  | outbox (row : OutboxRow)

inductive IndexKey where
  | contact (id : Uuid)
  | email (norm : String)
  | externalId (id : String)
  | uniqueValue (fieldId : Nat) (value : String)
  | list (id : Uuid)
  | listName (name : String)
  | member (listId contactId : Uuid)
  | consent (id : Uuid)
  | definition (fieldId : Nat)
  | apiName (name : String)
  | counter
  | outbox (id : Uuid)
  deriving DecidableEq

/-- Of the unique indexes, those of email, external id and api name leave out deleted rows. -/
instance : Indexed Row where
  Key := IndexKey
  decideKey := inferInstance
  primary
    | .contact contact => .contact contact.id
    | .uniqueValue value => .uniqueValue value.fieldId value.value
    | .list list => .list list.id
    | .member member => .member member.listId member.contactId
    | .consent consent => .consent consent.id
    | .definition definition => .definition definition.fieldId
    | .counter _ => .counter
    | .outbox row => .outbox row.id
  uniques
    | .contact contact =>
        if contact.deletedAt.isNone then
          (contact.emailNorm.map IndexKey.email).toList ++ (contact.externalId.map IndexKey.externalId).toList
        else []
    | .list list => [.listName list.name]
    | .definition definition => if definition.deletedAt.isNone then [.apiName definition.apiName] else []
    | _ => []

namespace Row

def contact? : Row → Option Contact
  | .contact found => some found
  | _ => none

def uniqueValue? : Row → Option UniqueValue
  | .uniqueValue found => some found
  | _ => none

def member? : Row → Option ListMember
  | .member found => some found
  | _ => none

def definition? : Row → Option FieldDefinition
  | .definition found => some found
  | _ => none

def outbox? : Row → Option OutboxRow
  | .outbox found => some found
  | _ => none

/-- `WHERE` clauses, each about one table. -/
def isContact (p : Contact → Bool) (row : Row) : Bool := row.contact?.any p

def isUniqueValue (p : UniqueValue → Bool) (row : Row) : Bool := row.uniqueValue?.any p

def isMember (p : ListMember → Bool) (row : Row) : Bool := row.member?.any p

def isDefinition (p : FieldDefinition → Bool) (row : Row) : Bool := row.definition?.any p

def isList (p : ContactList → Bool) : Row → Bool
  | .list found => p found
  | _ => false

def isConsent (p : Consent → Bool) : Row → Bool
  | .consent found => p found
  | _ => false

def isCounter : Row → Bool
  | .counter _ => true
  | _ => false

def isOutbox (p : OutboxRow → Bool) (row : Row) : Bool := row.outbox?.any p

/-- `SET` clauses, each about one table. -/
def mapContact (f : Contact → Contact) : Row → Row
  | .contact found => .contact { f found with id := found.id }
  | row => row

def mapConsent (f : Consent → Consent) : Row → Row
  | .consent found => .consent { f found with id := found.id }
  | row => row

def mapDefinition (f : FieldDefinition → FieldDefinition) : Row → Row
  | .definition found => .definition { f found with fieldId := found.fieldId }
  | row => row

end Row

/-! ## What core calls -/

/-- What a transaction is about, for the conditions under which runs are considered. -/
inductive Label where
  | read
  /-- The definitions it was validated against, and what it sends to which contact. -/
  | write (definitions : List FieldDefinition) (items : List (Uuid × List (String × Option Value)))
  | softDelete (contacts : List Uuid)
  | forget (contact : Uuid)
  | change (list : String) (contacts : List String)
  | removeList (list : String)
  | createField
  | updateField (fieldId : Nat)
  | removeField (fieldId : Nat)
  | purge (fieldId : Nat)
  | drain
  deriving DecidableEq

inductive Failure where
  | sql (error : SqlError)
  /-- 23503, a foreign key violation. -/
  | foreignKey
  /-- The batch lost a race on a unique value or a row; rerun it from key resolution. -/
  | retry (text : String)
  | publicApi (replyCode : Nat) (text : String)
  | notFound (text : String)
  | forbidden (text : String)
  | conflict (text : String)
  /-- The field definitions could not be read, by the call that shares them. -/
  | definitions
  | publish
  | error (text : String)
  deriving DecidableEq

instance : ClientError Failure := ⟨.sql⟩

/-- The promise `FieldRegistry.fields` returned, the first time or from the cache. -/
inductive Lookup where
  | hit (promise : Nat)
  | miss (promise : Nat)

inductive Request where
  | uuidv7
  | now
  /-- `jetstream().publish` with `msgID`. -/
  | publish (row : OutboxRow)
  /-- `cache.get`, and `cache.set` of a new promise when there is none. -/
  | lookup (process : Nat)
  /-- `await` of a promise of definitions. -/
  | settled (promise : Nat)
  | settle (process promise : Nat) (definitions : Option (List FieldDefinition))
  | invalidate (process : Nat)

abbrev Response : Request → Type
  | .uuidv7 => Uuid
  | .now => Time
  | .publish _ => Bool
  | .lookup _ => Lookup
  | .settled _ => Option (List FieldDefinition)
  | .settle .. => Unit
  | .invalidate _ => Unit

inductive Choices where
  | uuid (ms : Time) (a : BitVec 12) (b : BitVec 62)
  | time (now : Time)
  /-- Whether a message arrives, and whether its acknowledgement does. -/
  | delivery (arrives acknowledged : Bool)
  | none

structure World where
  /-- The identifiers drawn so far and who drew them. A history variable. -/
  drawn : List (Tid × Uuid)
  /-- The messages of the stream, oldest first. -/
  stream : List OutboxRow
  /-- The cache of each process: its promise of definitions. -/
  caches : Nat → Option Nat
  /-- Promises of definitions: pending, rejected or resolved. -/
  promises : List (Option (Option (List FieldDefinition)))

abbrev State := Shared Row Label World

def World.store (world : World) (row : OutboxRow) : World :=
  if world.stream.any fun message => message.id == row.id then world
  else { world with stream := world.stream ++ [row] }

/-- The environment of core. Identifiers never repeat; the stream drops a message whose
identifier it has stored. -/
def respond (tid : Tid) : (request : Request) → Choices → State → Option (Response request × World)
  | .uuidv7, .uuid ms a b, shared =>
      let id := Javascript.uuidv7 ms a b
      if shared.world.drawn.any fun (_, other) => other == id then none
      else some (id, { shared.world with drawn := (tid, id) :: shared.world.drawn })
  | .now, .time now, shared => some (now, shared.world)
  | .publish row, .delivery arrives acknowledged, shared =>
      some (arrives && acknowledged, if arrives then shared.world.store row else shared.world)
  | .lookup process, _, shared =>
      match shared.world.caches process with
      | some promise => some (.hit promise, shared.world)
      | none =>
          let promise := shared.world.promises.length
          some (.miss promise, { shared.world with
            caches := Function.update shared.world.caches process (some promise)
            promises := shared.world.promises ++ [none] })
  | .settled promise, _, shared =>
      match shared.world.promises[promise]? with
      | some (some result) => some (result, shared.world)
      | _ => none
  | .settle process promise result, _, shared =>
      some ((), { shared.world with
        caches := if result.isNone then Function.update shared.world.caches process none
          else shared.world.caches
        promises := shared.world.promises.set promise (some result) })
  | .invalidate process, _, shared =>
      some ((), { shared.world with caches := Function.update shared.world.caches process none })
  | _, _, _ => none

abbrev CoreScript (α : Type) := Client Row Label Response Failure α

abbrev call (request : Request) : CoreScript (Response request) := ask request

end OpenEmarsys.Contacts
