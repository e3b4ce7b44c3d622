import OpenEmarsys.Interleaving.Runs
import OpenEmarsys.Contacts.Rows

/-! Tenants: `TenantsService.create`, and `SystemFieldsSeeder` at the other end of its event.

A transaction that inserts rows of its own only is one step, and so are every other
statement, publish and answer to the stream. The replicas of core run any number of
requests and of rounds of the consumer's loop at once.
-/

set_option autoImplicit false

namespace OpenEmarsys.Tenants

open Interleaving (Script)
open Contacts (FieldDefinition FieldType Choice)

abbrev Uuid := Nat

inductive PermissionAction where
  | view
  | edit
  | launch
  | admin
  deriving DecidableEq

def PERMISSION_MODULES : List String :=
  ["platform", "identity", "contacts", "events", "segments", "email", "campaigns", "automation",
    "predict", "channels",
    "analytics", "loyalty", "integrations"]

def PERMISSION_ACTIONS : List PermissionAction := [.view, .edit, .launch, .admin]

def MARKETING_MODULES : List String := PERMISSION_MODULES.filter
    fun module => module ≠ "platform" && module ≠ "identity"

structure RoleGrant where
  module : String
  action : PermissionAction
  deriving DecidableEq

structure DefaultRoleSpec where
  name : String
  permissions : List RoleGrant

def grants (modules : List String) (actions : List PermissionAction) : List RoleGrant :=
  modules.flatMap fun module => actions.map fun action => ⟨module, action⟩

def DEFAULT_TENANT_ROLES : List DefaultRoleSpec :=
  [⟨"Admin", grants PERMISSION_MODULES PERMISSION_ACTIONS⟩,
    ⟨"Marketer", grants MARKETING_MODULES [.view, .edit, .launch]⟩,
    ⟨"Viewer", grants MARKETING_MODULES [.view]⟩]

def system (fieldId : Nat) (apiName : String) (type : FieldType) (unique readOnly : Bool)
    (choices : List Choice) : FieldDefinition :=
  ⟨fieldId, apiName, type, choices, true, unique, readOnly, none⟩

def yesNo : List Choice := [⟨1, "yes"⟩, ⟨2, "no"⟩]

/-- `contracts/dsl/system-fields.json` -/
def SYSTEM_FIELDS : List FieldDefinition :=
  [system 1 "first_name" .text false false [], system 2 "last_name" .text false false [],
    system 3 "email" .text true false [],
      system 4 "external_id" .text true false [], system 5 "phone" .text false false [],
      system 6 "birth_date" .date false false [],
    system 7 "gender" .single_choice false false [⟨1, "male"⟩, ⟨2, "female"⟩, ⟨3, "other"⟩],
      system 8 "city" .text false false [],
    system 9 "country" .text false false [], system 10 "zip" .text false false [],
      system 11 "language" .text false false [],
    system 12 "timezone" .text false false [], system 13 "company" .text false false [],
      system 31 "optin_email" .single_choice false false yesNo,
      system 32 "optin_sms" .single_choice false false yesNo,
    system 33 "optin_push" .single_choice false false yesNo, system 40 "created_at" .date false true [],
    system 41 "updated_at" .date false true []]

structure TenantLimits where
  max_contacts : Option Nat := none
  max_emails_per_month : Option Nat := none
  max_users : Option Nat := none
  max_api_requests_per_minute : Option Nat := none

inductive Locale where
  | es
  | pt
  | en

structure Admin where
  email : String
  password : String

structure TenantCreateInput where
  name : String
  timezone : String
  default_locale : Locale
  limits : Option TenantLimits
  admin : Option Admin

structure Tenant where
  id : Uuid
  name : String
  timezone : String
  defaultLocale : Locale
  limits : TenantLimits
  suspended : Bool

structure Role where
  id : Uuid
  tenantId : Uuid
  name : String
  isDefault : Bool

structure RolePermission where
  roleId : Uuid
  tenantId : Uuid
  grant : RoleGrant

structure User where
  id : Uuid
  tenantId : Uuid
  email : String
  passwordHash : String
  locale : Locale
  active : Bool

structure UserRole where
  userId : Uuid
  roleId : Uuid
  tenantId : Uuid

structure Definition where
  tenantId : Uuid
  field : FieldDefinition
  deriving DecidableEq

/-- A `system.tenant.created` message of the SYSTEM stream, which keeps it for good, and what its consumer
knows of it. -/
structure Event where
  tenantId : Uuid
  deliveries : Nat
  settled : Bool
  deriving DecidableEq

structure State where
  nextId : Uuid
  tenants : List Tenant
  roles : List Role
  rolePermissions : List RolePermission
  users : List User
  userRoles : List UserRole
  definitions : List Definition
  stream : List Event
  deadLetters : List Uuid

def MAX_DELIVER := 5

def Event.deliverable (event : Event) : Bool := !event.settled && event.deliveries < MAX_DELIVER

inductive Failure where
  | badRequest (pointer detail : String)
  /-- The database or the broker could not be reached, or did not answer. -/
  | unavailable
  deriving DecidableEq

structure Delivery where
  seq : Nat
  tenantId : Uuid
  /-- `msg.info.redeliveryCount` -/
  redeliveryCount : Nat

inductive Act where
  /-- The transaction of `create`. -/
  | transaction (input : TenantCreateInput) (adminPasswordHash : Option String)
  /-- `nats.publish('system.tenant.created', …)` -/
  | publish (tenantId : Uuid)
  /-- The next message of the consumer. -/
  | next
  /-- `fieldDefinition.createMany` with `skipDuplicates`. -/
  | createMany (data : List Definition)
  | ack (seq : Nat)
  | nak (seq delay : Nat)
  | term (seq : Nat)
  | publishDeadLetter (tenantId : Uuid)

abbrev Act.Reply : Act → Type
  | .transaction .. => Except Failure Tenant
  | .next => Delivery
  | .publish _ | .createMany _ | .publishDeadLetter _ => Except Failure Unit
  | _ => Unit

abbrev CoreScript (α : Type) := Script Act Act.Reply Failure α

def ask (act : Act) : CoreScript act.Reply := Script.await act

def unwrap {α : Type} : Except Failure α → CoreScript α
  | .ok value => pure value
  | .error failure => throw failure

section
-- `isCommonPassword`, and `hash` of argon2
variable (isCommonPassword : String → Bool) (hash : String → String)

def create (input : TenantCreateInput) : CoreScript Tenant :=
  if input.admin.any fun admin => isCommonPassword admin.password then
    throw (.badRequest "/admin/password" "this password is too common")
  else do
    let adminPasswordHash := input.admin.map fun admin => hash admin.password
    let tenant ← unwrap (← ask (.transaction input adminPasswordHash))
    unwrap (← ask (.publish tenant.id))
    return tenant

/-- Idempotent; redeliveries skip the definitions already there. -/
def seed (tenantId : Uuid) : CoreScript Unit := do
  unwrap (← ask (.createMany (SYSTEM_FIELDS.map fun f => ⟨tenantId, f⟩)))

def onTenantCreated (tenantId : Uuid) : CoreScript Unit := seed tenantId

def DEFAULT_BACKOFF_MS : List Nat := [1000, 5000, 15000]

def deadLetter (msg : Delivery) : CoreScript Unit := do
  unwrap (← ask (.publishDeadLetter msg.tenantId))

/-- `backoffMs[Math.min(attempt - 1, backoffMs.length - 1)]` -/
def backoff (attempt : Nat) : Nat := DEFAULT_BACKOFF_MS.getD
    (min (attempt - 1) (DEFAULT_BACKOFF_MS.length - 1)) 1000

def process (msg : Delivery) : CoreScript Unit :=
  let attempt := msg.redeliveryCount + 1
  Script.handle (do
    onTenantCreated msg.tenantId
    ask (.ack msg.seq)) fun _ =>
      if MAX_DELIVER ≤ attempt then do
        deadLetter msg
        ask (.term msg.seq)
      else ask (.nak msg.seq (backoff attempt))

def round : CoreScript Unit := do
  process (← ask .next)

inductive Call where
  | create (input : TenantCreateInput)
  | round

inductive Answer where
  | tenant (tenant : Tenant)
  | done

def code : Call → CoreScript Answer
  | .create input => do
      let tenant ← create isCommonPassword hash input
      return .tenant tenant
  | .round => do
      round
      return .done

end

def State.insertRole (state : State) (tenantId : Uuid) (spec : DefaultRoleSpec) : State :=
  { state with
    nextId := state.nextId + 1
    roles := ⟨state.nextId, tenantId, spec.name, true⟩ :: state.roles
    rolePermissions := (spec.permissions.map fun grant => ⟨state.nextId, tenantId, grant⟩) ++
      state.rolePermissions }

/-- Creates the default roles and their permissions; the id is of the `Admin` role. -/
def createDefaultTenantRoles (tenantId : Uuid) (state : State) : Uuid × State :=
  DEFAULT_TENANT_ROLES.foldl (fun (adminRoleId, state) spec =>
    (if spec.name = "Admin" then state.nextId else adminRoleId, state.insertRole tenantId spec)) (0, state)

def State.insertAdmin (state : State) (tenant : Tenant) (adminRoleId : Uuid) (admin : Admin)
    (passwordHash : String) : State :=
  { state with
    nextId := state.nextId + 1
    users := ⟨state.nextId, tenant.id, admin.email, passwordHash, tenant.defaultLocale, true⟩ :: state.users
    userRoles := ⟨state.nextId, adminRoleId, tenant.id⟩ :: state.userRoles }

def insertTenant (input : TenantCreateInput) (adminPasswordHash : Option String)
    (state : State) : Tenant × State :=
  let created : Tenant := ⟨state.nextId, input.name, input.timezone, input.default_locale,
    input.limits.getD {}, false⟩
  let (adminRoleId, next) :=
    createDefaultTenantRoles created.id
      { state with nextId := state.nextId + 1, tenants := created :: state.tenants }
  match input.admin, adminPasswordHash with
  | some admin, some passwordHash => (created, next.insertAdmin created adminRoleId admin passwordHash)
  | _, _ => (created, next)

/-- The row a new definition would clash with: by the primary key, or by the name of one not deleted. -/
def Definition.clashes (data other : Definition) : Bool :=
  other.tenantId == data.tenantId &&
    (other.field.fieldId == data.field.fieldId || (other.field.deletedAt.isNone &&
      other.field.apiName == data.field.apiName))

def insertDefinition (rows : List Definition) (data : Definition) : List Definition :=
  if rows.any data.clashes then rows else rows ++ [data]

def createMany (data rows : List Definition) : List Definition := data.foldl insertDefinition rows

/-- How a statement or a publish goes: `lost` when it is carried out and the caller sees an error. -/
inductive Outcome where
  | done
  | lost
  | failed
  deriving DecidableEq

def Outcome.apply {α : Type} (outcome : Outcome) (value : α) (before after : State) :
    Except Failure α × State :=
  match outcome with
  | .done => (.ok value, after)
  | .lost => (.error .unavailable, after)
  | .failed => (.error .unavailable, before)

/-- What `FieldsService` commits: custom fields, numbered from 1000. -/
inductive FieldChange where
  | create (field : FieldDefinition)
  | rename (fieldId : Nat) (apiName : String)
  | remove (fieldId : Nat) (deletedAt : Nat)

inductive Fate where
  | outcome (outcome : Outcome)
  | delivers (seq : Nat)
  | field (tenantId : Uuid) (change : FieldChange)

def State.withStream (state : State) (stream : List Event) : State := { state with stream := stream }

def State.settle (state : State) (seq : Nat) : State :=
  state.withStream (state.stream.modify seq fun event => { event with settled := true })

def State.withDefinitions (state : State) (definitions : List Definition) : State :=
  { state with definitions := definitions }

/-- One answer. There is none yet where the consumer has nothing to deliver. -/
def perform (redeliveryCount : Nat → Nat) (act : Act) (fate : Fate) (state : State) :
    Option (act.Reply × State) :=
  match act, fate with
  | .transaction input adminPasswordHash, .outcome outcome =>
      let (tenant, after) := insertTenant input adminPasswordHash state
      some (outcome.apply tenant state after)
  | .publish tenantId, .outcome outcome =>
    some (outcome.apply () state (state.withStream (state.stream ++ [⟨tenantId, 0, false⟩])))
  | .createMany data, .outcome outcome =>
      some (outcome.apply () state (state.withDefinitions (createMany data state.definitions)))
  | .publishDeadLetter tenantId, .outcome outcome =>
      some (outcome.apply () state { state with deadLetters := tenantId :: state.deadLetters })
  | .ack seq, .outcome outcome => some ((), (outcome.apply () state (state.settle seq)).2)
  | .nak _ _, .outcome _ => some ((), state)
  | .term seq, .outcome outcome => some ((), (outcome.apply () state (state.settle seq)).2)
  | .next, .delivers seq =>
      match state.stream[seq]? with
      | some event =>
          if event.deliverable then
            some (⟨seq, event.tenantId, redeliveryCount (event.deliveries + 1)⟩,
              state.withStream (state.stream.modify seq
                fun event => { event with deliveries := event.deliveries + 1 }))
          else none
      | none => none
  | _, _ => none

def changeFields (rows : List Definition) (tenantId : Uuid) : FieldChange → Option (List Definition)
  | .create field =>
      let data : Definition := ⟨tenantId, field⟩
      if 1000 ≤ field.fieldId ∧ field.isSystem = false ∧ field.deletedAt = none ∧
        rows.any data.clashes = false then some (rows ++ [data])
      else none
  | .rename fieldId apiName =>
      if rows.any (fun row => row.tenantId == tenantId && row.field.deletedAt.isNone &&
        row.field.apiName == apiName) then none
      else some (rows.map fun row =>
        if row.tenantId = tenantId ∧ row.field.fieldId = fieldId ∧ row.field.deletedAt = none ∧
          row.field.isSystem = false then
          ⟨tenantId, { row.field with apiName := apiName }⟩
        else row)
  | .remove fieldId deletedAt =>
      some (rows.map fun row =>
        if row.tenantId = tenantId ∧ row.field.fieldId = fieldId ∧ row.field.deletedAt = none ∧
          row.field.isSystem = false then
          ⟨tenantId, { row.field with deletedAt := some deletedAt }⟩
        else row)

/-- Calls in any interleaving. `redeliveryCount` is what the client says at the n-th delivery. -/
def machine (redeliveryCount : Nat → Nat) : Interleaving.Machine Act Act.Reply Fate State where
  act _ := perform redeliveryCount
  disturb _ fate state :=
    match fate with
    | .field tenantId change => (changeFields state.definitions tenantId change).map state.withDefinitions
    | _ => none
  crash _ state := state

abbrev Config := Interleaving.Config Call Act Act.Reply Failure Answer State

end OpenEmarsys.Tenants
