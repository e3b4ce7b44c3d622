import Mathlib.Data.List.Basic

/-! The tenant in context and the Prisma client that scopes every operation to it.

A program is the tree of the asynchronous calls it makes. Async-local storage follows
that tree, so every call has the context of the calls around it. A model operation is a
value: Prisma's promises are lazy, so it runs where it is first awaited, or with the
array it is given in.
-/

set_option autoImplicit false

namespace OpenEmarsys.Tenancy

def isHex (c : Char) : Bool :=
  c.isDigit || ('a' ≤ c && c ≤ 'f') || ('A' ≤ c && c ≤ 'F')

/-- `/^[0-9a-f]{8}-[0-9a-f]{4}-[0-9a-f]{4}-[0-9a-f]{4}-[0-9a-f]{12}$/i` -/
def UUID (text : String) : Bool :=
  text.toList.length == 36 && text.toList.zipIdx.all fun (c, i) =>
    if i = 8 ∨ i = 13 ∨ i = 18 ∨ i = 23 then c == '-' else isHex c

/-- A tenant id that has passed the check of `TenantContext.run`. -/
structure TenantId where
  text : String
  valid : UUID text = true

def tenantId (text : String) : Option TenantId :=
  if valid : UUID text = true then some ⟨text, valid⟩ else none

/-- The row policies compare uuids, so the case of the letters does not matter. -/
def TenantId.uuid (tenant : TenantId) : String := String.ofList (tenant.text.toList.map Char.toLower)

/-- The async-local storages `storage`, `systemScope` and `inScopedTx`. -/
structure AsyncContext where
  tenant : Option TenantId
  systemScope : Bool
  inScopedTx : Bool

namespace AsyncContext

def empty : AsyncContext := ⟨none, false, false⟩

def withTenant (context : AsyncContext) (tenant : TenantId) : AsyncContext :=
  { context with tenant := some tenant }
def inSystem (context : AsyncContext) : AsyncContext := { context with systemScope := true }
def inTx (context : AsyncContext) : AsyncContext := { context with inScopedTx := true }

end AsyncContext

/-- `/^[a-z_][a-z0-9_]*$/` -/
def isRole (text : String) : Bool :=
  match text.toList with
  | [] => false
  | first :: rest => (('a' ≤ first && first ≤ 'z') || first == '_') &&
      rest.all fun c => ('a' ≤ c && c ≤ 'z') || c.isDigit || c == '_'

structure Role where
  name : String
  valid : isRole name = true

/-- The options with which `withTenantScope` makes a client, or throws. -/
def checkRole : Option String → Except String (Option Role)
  | none => .ok none
  | some name =>
      if valid : isRole name = true then .ok (some ⟨name, valid⟩) else .error ("invalid systemRole: " ++ name)

structure Statement where
  sql : String
  params : List String
  deriving DecidableEq, Repr

def setTenant (tenant : String) : Statement := ⟨"select set_config('app.tenant_id', $1, true)", [tenant]⟩
def setRole (role : Role) : Statement := ⟨"set local role \"" ++ role.name ++ "\"", []⟩

def requireTenant (context : AsyncContext) : Except String TenantId :=
  match context.tenant with
  | some tenant => .ok tenant
  | none => .error "no tenant in context: wrap the call in TenantContext.run() or withSystemScope()"

/-- The statement that scopes the current transaction, or none (system scope without a role). -/
def scopeStatement (systemRole : Option Role) (context : AsyncContext) : Except String (Option Statement) :=
  if context.systemScope then .ok (systemRole.map setRole)
  else (requireTenant context).map fun tenant => some (setTenant tenant.text)

/-- The scoping statements executed so far in a database transaction. -/
abbrev Transaction := List Statement

/-- The `$allOperations` hook: the transaction in which the operation executes.
`query` is the one its client is bound to, empty for a client outside transactions. -/
def allOperations (systemRole : Option Role) (context : AsyncContext) (query : Transaction) :
    Except String Transaction :=
  if context.inScopedTx then .ok query
  else
    match scopeStatement systemRole context with
    | .error error => .error error
    | .ok none => .ok query
    | .ok (some statement) => .ok [statement]

inductive Client where
  /-- The client `withTenantScope` returned. -/
  | extended
  /-- The client handed to an enclosing callback, innermost first. -/
  | tx (depth : Nat)

/-- Operations are numbered as they are made, whatever variables carry them to where they are awaited.
`withSystemScope` and `$transaction` await what their callback returns inside, `TenantContext.run` does
not. -/
inductive Program (Args : Type) where
  | nothing
  | both (first second : Program Args)
  /-- Make an operation; nothing runs yet. -/
  | operation (client : Client) (args : Args)
  | await (i : Nat)
  | run (tenantId : String) (body : Program Args)
  | withSystemScope (body : Program Args)
  | transaction (callback : Program Args)
  /-- `$transaction` with an array of operations. -/
  | batch (elements : List Nat)

structure Made (Args : Type) where
  args : Args
  /-- Where it was called. -/
  called : AsyncContext
  /-- The number of the transaction its client is bound to. -/
  bound : Option Nat
  /-- It was awaited, and its promise is kept. -/
  settled : Bool

/-- The operations made so far, and how many transactions were opened for callbacks. -/
structure Operations (Args : Type) where
  made : List (Made Args)
  opened : Nat

/-- An operation that ran: where it was called, and what became of it. -/
structure Event (Args : Type) where
  args : Args
  called : AsyncContext
  outcome : Except String Transaction

section Exec
variable {Args : Type}

/-- A transaction client out of scope is an undefined variable. -/
def Client.bound (enclosing : List Nat) : Client → Option (Option Nat)
  | .extended => some none
  | .tx depth => enclosing[depth]?.map some

def Operations.make (state : Operations Args) (operation : Made Args) : Operations Args :=
  { state with made := state.made ++ [operation] }

def Operations.settle (state : Operations Args) (i : Nat) : Operations Args :=
  { state with made := state.made.modify i fun operation => { operation with settled := true } }

/-- The transaction an operation is sent to: outside of transactions, in that of its client while it is open,
or in `own`, that of the array it is given in. -/
def operate (systemRole : Option Role) (context : AsyncContext) (enclosing : List (Nat × Transaction))
    (own : Transaction) (operation : Made Args) : Except String Transaction :=
  match operation.bound with
  | none => allOperations systemRole context own
  | some number =>
      match enclosing.lookup number with
      | some transaction => allOperations systemRole context transaction
      | none => .error "Transaction already closed"

/-- The operations at hand after a program. What is called after a throw is called because somebody
caught it. -/
def after (systemRole : Option Role) : AsyncContext → List Nat → Program Args →
    Operations Args → Operations Args
  | _, _, .nothing, state => state
  | context, enclosing, .both first second, state =>
      after systemRole context enclosing second (after systemRole context enclosing first state)
  | context, enclosing, .operation client args, state =>
      match client.bound enclosing with
      | some bound => state.make ⟨args, context, bound, false⟩
      | none => state
  | _, _, .await i, state => state.settle i
  | context, enclosing, .run text body, state =>
      match tenantId text with
      | some tenant => after systemRole (context.withTenant tenant) enclosing body state
      | none => state
  | context, enclosing, .withSystemScope body, state => after systemRole context.inSystem enclosing body state
  | context, enclosing, .transaction callback, state =>
      match scopeStatement systemRole context with
      | .ok _ => after systemRole context.inTx (state.opened :: enclosing) callback
        { state with opened := state.opened + 1 }
      | .error _ => state
  -- an operation given in an array keeps no promise
  | _, _, .batch _, state => state

def exec (systemRole : Option Role) : AsyncContext → List (Nat × Transaction) → Program Args →
    Operations Args → List (Event Args)
  | _, _, .nothing, _ => []
  | context, enclosing, .both first second, state =>
      exec systemRole context enclosing first state ++
        exec systemRole context enclosing second (after systemRole context
          (enclosing.map Prod.fst) first state)
  | _, _, .operation _ _, _ => []
  | context, enclosing, .await i, state =>
      match state.made[i]? with
      | none => []
      | some operation =>
          if operation.settled then []
          else [⟨operation.args, operation.called, operate systemRole context enclosing [] operation⟩]
  | context, enclosing, .run text body, state =>
      match tenantId text with
      | some tenant => exec systemRole (context.withTenant tenant) enclosing body state
      | none => []
  | context, enclosing, .withSystemScope body, state => exec systemRole context.inSystem enclosing body state
  | context, enclosing, .transaction callback, state =>
      match scopeStatement systemRole context with
      | .ok statement => exec systemRole context.inTx ((state.opened, statement.toList) :: enclosing) callback
          { state with opened := state.opened + 1 }
      | .error _ => []
  | context, enclosing, .batch elements, state =>
      match scopeStatement systemRole context, elements.mapM fun i => state.made[i]? with
      | .ok statement, some operations => operations.map fun operation =>
          ⟨operation.args, operation.called,
            operate systemRole (if statement.isSome then context.inTx
              else context) enclosing statement.toList operation⟩
      -- without a tenant, or with an element that is no operation, it throws before anything runs
      | _, _ => []

def execute (systemRole : Option Role) (program : Program Args) : List (Event Args) :=
  exec systemRole .empty [] program ⟨[], 0⟩

end Exec

end OpenEmarsys.Tenancy
