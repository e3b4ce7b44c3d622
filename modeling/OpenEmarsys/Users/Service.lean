import OpenEmarsys.Postgres.Stages

/-! `UsersService` and `RolesService`: how users and roles of a tenant are changed and removed.

Every Prisma call outside `$transaction` is a transaction of its own; what it includes is read
by a second statement. A foreign key is checked, and its rows are deleted in cascade, by
statements of the same transaction. The tables hold the rows of one tenant.
-/

set_option autoImplicit false

namespace OpenEmarsys.Users

open Postgres

abbrev Uuid := Nat

inductive UserStatus where
  | invited
  | active
  | disabled
  deriving DecidableEq, Repr

structure User where
  id : Uuid
  name : Option String
  status : UserStatus
  failedLogins : Nat
  lockedUntil : Option Nat
  deriving DecidableEq, Repr

structure Role where
  id : Uuid
  name : String
  isDefault : Bool
  deriving DecidableEq, Repr

structure Permission where
  module : String
  action : String
  deriving DecidableEq, Repr

inductive Row where
  | user (user : User)
  | role (role : Role)
  | userRole (userId roleId : Uuid)
  | rolePermission (roleId : Uuid) (permission : Permission)
  deriving DecidableEq, Repr

inductive IndexKey where
  | user (id : Uuid)
  | role (id : Uuid)
  | roleName (name : String)
  | userRole (userId roleId : Uuid)
  | rolePermission (roleId : Uuid) (permission : Permission)
  deriving DecidableEq

instance : Indexed Row where
  Key := IndexKey
  decideKey := inferInstance
  primary
    | .user user => .user user.id
    | .role role => .role role.id
    | .userRole userId roleId => .userRole userId roleId
    | .rolePermission roleId permission => .rolePermission roleId permission
  uniques
    | .role role => [.roleName role.name]
    | _ => []

inductive Area where
  | users
  | roles
  | userRoles
  | rolePermissions
  deriving DecidableEq

instance : Tabled Row where
  Table := Area
  decideTable := inferInstance
  table
    | .user _ => .users
    | .role _ => .roles
    | .roleName _ => .roles
    | .userRole .. => .userRoles
    | .rolePermission .. => .rolePermissions

namespace Row

def user? : Row → Option User
  | .user row => some row
  | _ => none

def role? : Row → Option Role
  | .role row => some row
  | _ => none

def isUser (id : Uuid) : Row → Bool
  | .user row => row.id == id
  | _ => false

def isRole (p : Role → Bool) : Row → Bool
  | .role row => p row
  | _ => false

def isUserRole (p : Uuid → Uuid → Bool) : Row → Bool
  | .userRole userId roleId => p userId roleId
  | _ => false

def isPermissionOf (id : Uuid) : Row → Bool
  | .rolePermission roleId _ => roleId == id
  | _ => false

def mapUser (f : User → User) : Row → Row
  | .user row => .user { f row with id := row.id }
  | other => other

def mapRole (f : Role → Role) : Row → Row
  | .role row => .role { f row with id := row.id }
  | other => other

end Row

def roleIds (rows : List Row) : List Uuid :=
  rows.filterMap fun
    | .userRole _ roleId => some roleId
    | _ => none

inductive ServiceError where
  | notFound (message : String)
  | conflict (message : String)
  /-- P2025, the record to update or to delete is missing. -/
  | recordNotFound
  /-- P2003, the row a foreign key points to is missing. -/
  | foreignKey
  | sql (error : SqlError)
  deriving DecidableEq, Repr

instance : ClientError ServiceError := ⟨.sql⟩

/-- What transactions are for. The first read of a user is told apart, for it starts a change of that user. -/
inductive Label where
  | find
  | read
  | write
  deriving DecidableEq

inductive Request

abbrev Request.Reply : Request → Type := fun _ => Unit

abbrev ServiceScript (α : Type) := Client Row Label Request.Reply ServiceError α

inductive NewStatus where
  | active
  | disabled
  deriving DecidableEq, Repr

structure UpdateUserInput where
  name : Option String := none
  role_ids : Option (List Uuid) := none
  status : Option NewStatus := none

/-- The one role every tenant gets at creation that "last Admin" protection tracks. -/
def ADMIN_ROLE_NAME := "Admin"

/-- `findUnique` with `include: { roles: true }`. -/
def findUser (id : Uuid) : ServiceScript (Option (User × List Uuid)) :=
  transaction .find do
    let rows ← sql (.select (Row.isUser id))
    match rows.filterMap Row.user? with
    | [] => return none
    | user :: _ =>
        let roles ← sql (.select (Row.isUserRole fun userId _ => userId == id))
        return some (user, roleIds roles)

def query (statement : Statement Row) : ServiceScript (List Row) := transaction .read (sql statement)

def findAdminRole : ServiceScript (Option Role) := do
  let rows ← query (.select (Row.isRole fun role => role.isDefault && role.name == ADMIN_ROLE_NAME))
  return (rows.filterMap Row.role?).head?

def hasAdminRole (ids : List Uuid) : ServiceScript Bool :=
  if ids = [] then pure false
  else do
    let adminRole ← findAdminRole
    return adminRole.any fun role => ids.contains role.id

/-- The active users with the role, but for one: `userRole.count` joined with the users. -/
def otherActive (rows : List Row) (roleId changingUserId : Uuid) : List Row :=
  rows.filter <| Row.isUserRole fun userId id => id == roleId && userId != changingUserId &&
    rows.any fun
      | .user user => user.id == userId && user.status == .active
      | _ => false

/-- Blocks the change when it would leave zero active users holding the Admin role. -/
def assertNotLastAdmin (changingUserId : Uuid) : ServiceScript Unit := do
  let adminRole ← findAdminRole
  match adminRole with
  | none => return ()
  | some role =>
      let rows ← query (.select fun
        | .user _ => true
        | .userRole .. => true
        | _ => false)
      if otherActive rows role.id changingUserId = []
        then throw (.conflict "cannot remove the last Admin of the tenant")
      else return ()

def assertRolesBelongToTenant (ids : List Uuid) : ServiceScript Unit :=
  if ids = [] then pure ()
  else do
    let rows ← query (.select (Row.isRole fun role => ids.contains role.id))
    if rows.length ≠ ids.length then throw (.notFound "one or more roles not found")
    else return ()

/-- The foreign keys of new `user_roles`. -/
def checkKeys (userId : Uuid) : List Uuid → ServiceScript Unit
  | [] => pure ()
  | roleId :: rest => do
      let users ← sql (.shareKey (Row.isUser userId))
      let roles ← sql (.shareKey (Row.isRole fun role => role.id == roleId))
      if users = [] ∨ roles = [] then throw .foreignKey
      else checkKeys userId rest

def setRoles (id : Uuid) (ids : List Uuid) : ServiceScript Unit := do
  let _ ← sql (.delete (Row.isUserRole fun userId _ => userId == id))
  if ids = [] then return ()
  else
    let _ ← sql (.insert (ids.map fun roleId => .userRole id roleId) false)
    checkKeys id ids

def UpdateUserInput.apply (input : UpdateUserInput) (user : User) : User :=
  let named := { user with name := input.name.elim user.name some }
  match input.status with
  | none => named
  | some .active => { named with status := .active, failedLogins := 0, lockedUntil := none }
  | some .disabled => { named with status := .disabled }

def saveUser (id : Uuid) (input : UpdateUserInput) : ServiceScript (User × List Uuid) :=
  transaction .write do
    input.role_ids.forM (setRoles id)
    let updated ← sql (.update (Row.isUser id) (Row.mapUser input.apply))
    match updated.filterMap Row.user? with
    | [] => throw .recordNotFound
    | user :: _ =>
        let roles ← sql (.select (Row.isUserRole fun userId _ => userId == id))
        return (user, roleIds roles)

def losesRole (input : UpdateUserInput) : ServiceScript Bool :=
  match input.role_ids with
  | none => pure false
  | some ids => do
      let stays ← hasAdminRole ids
      return !stays

def update (id : Uuid) (input : UpdateUserInput) : ServiceScript (User × List Uuid) := do
  match ← findUser id with
  | none => throw (.notFound "user not found")
  | some (_, roles) =>
      input.role_ids.forM assertRolesBelongToTenant
      let currentlyAdmin ← hasAdminRole roles
      let losesRole ← losesRole input
      let disabling := input.status == some .disabled
      if currentlyAdmin && (losesRole || disabling) then assertNotLastAdmin id
      saveUser id input

/-- `user.delete`; its `user_roles` go with it. -/
def deleteUser (id : Uuid) : ServiceScript Unit :=
  transaction .write do
    let deleted ← sql (.delete (Row.isUser id))
    if deleted = [] then throw .recordNotFound
    else
      let _ ← sql (.delete (Row.isUserRole fun userId _ => userId == id))
      return ()

def remove (id : Uuid) : ServiceScript Unit := do
  match ← findUser id with
  | none => throw (.notFound "user not found")
  | some (_, roles) =>
      let isAdmin ← hasAdminRole roles
      if isAdmin then assertNotLastAdmin id
      deleteUser id

structure RoleUpdateInput where
  name : Option String := none
  permissions : Option (List Permission) := none

def findRole (id : Uuid) : ServiceScript Role := do
  let rows ← query (.select (Row.isRole fun role => role.id == id))
  match rows.filterMap Row.role? with
  | [] => throw (.notFound "role not found")
  | role :: _ => return role

def setPermissions (id : Uuid) (permissions : List Permission) : ServiceScript Unit := do
  let _ ← sql (.delete (Row.isPermissionOf id))
  if permissions = [] then return ()
  else
    let _ ← sql (.insert (permissions.map fun permission => .rolePermission id permission) false)
    let roles ← sql (.shareKey (Row.isRole fun role => role.id == id))
    if roles = [] then throw .foreignKey
    else return ()

def saveRole (id : Uuid) (input : RoleUpdateInput) : ServiceScript Role :=
  transaction .write do
    input.permissions.forM (setPermissions id)
    let updated ← sql (.update (Row.isRole fun role => role.id == id) (Row.mapRole fun role =>
      { role with name := input.name.getD role.name }))
    match updated.filterMap Row.role? with
    | [] => throw .recordNotFound
    | role :: _ => return role

def updateRole (id : Uuid) (input : RoleUpdateInput) : ServiceScript Role := do
  let _ ← findRole id
  Interleaving.Script.handle (saveRole id input) fun error =>
    throw (if error = .sql .unique then .conflict "a role with this name already exists" else error)

/-- `role.delete`; its permissions and its `user_roles` go with it. -/
def deleteRole (id : Uuid) : ServiceScript Unit :=
  transaction .write do
    let deleted ← sql (.delete (Row.isRole fun role => role.id == id))
    if deleted = [] then throw .recordNotFound
    else
      let _ ← sql (.delete (Row.isPermissionOf id))
      let _ ← sql (.delete (Row.isUserRole fun _ roleId => roleId == id))
      return ()

def removeRole (id : Uuid) : ServiceScript Unit := do
  let role ← findRole id
  if role.isDefault then throw (.conflict "default roles cannot be deleted")
  else
    let assigned ← query (.select (Row.isUserRole fun _ roleId => roleId == id))
    if assigned ≠ [] then throw (.conflict "role is assigned to users")
    else deleteRole id

inductive Call where
  | update (id : Uuid) (input : UpdateUserInput)
  | remove (id : Uuid)
  | updateRole (id : Uuid) (input : RoleUpdateInput)
  | removeRole (id : Uuid)

inductive Answer where
  | user (user : User) (roles : List Uuid)
  | role (role : Role)
  | done

def code : Call → ServiceScript Answer
  | .update id input => do
      let (user, roles) ← update id input
      return .user user roles
  | .remove id => do
      remove id
      return .done
  | .updateRole id input => do
      let role ← updateRole id input
      return .role role
  | .removeRole id => do
      removeRole id
      return .done

def respond (_ : Tid) (request : Request) (_ : Unit) (_ : Shared Row Label Unit) :
    Option (request.Reply × Unit) := nomatch request

abbrev State := Shared Row Label Unit

abbrev Config := Interleaving.Config Call (Action Row Label Request)
    (Postgres.Answer Request.Reply) ServiceError Answer State

def initial (rows : List Row) : Config := .start ⟨.holding rows, ()⟩

abbrev Log := List (Commit Row Label)

end OpenEmarsys.Users
