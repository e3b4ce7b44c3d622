import OpenEmarsys.Javascript.Values
import OpenEmarsys.Postgres.Columns
import OpenEmarsys.Users.Service

/-! `InvitationsService.accept`, beside `UsersService.update`.

The rows are those of the users with two things more: the password hash of each user, which an
update does not know, and the invitations. The tables hold the rows of one tenant.
-/

set_option autoImplicit false

namespace OpenEmarsys.Invitations

open Postgres Javascript
open Users (User Role Permission roleIds)

structure Invitation where
  id : Uuid
  tenantId : Uuid
  userId : Option Uuid
  tokenHash : String
  expiresAt : Time
  acceptedAt : Option Time
  deriving DecidableEq, Repr

inductive Row where
  | user (user : User) (passwordHash : Option String)
  | role (role : Role)
  | userRole (userId roleId : Uuid)
  | rolePermission (roleId : Uuid) (permission : Permission)
  | invitation (invitation : Invitation)
  deriving DecidableEq, Repr

inductive IndexKey where
  | users (key : Users.IndexKey)
  | invitation (id : Uuid)
  | tokenHash (hash : String)
  deriving DecidableEq

instance : Indexed Row where
  Key := IndexKey
  decideKey := inferInstance
  primary
    | .user user _ => .users (.user user.id)
    | .role role => .users (.role role.id)
    | .userRole userId roleId => .users (.userRole userId roleId)
    | .rolePermission roleId permission => .users (.rolePermission roleId permission)
    | .invitation invitation => .invitation invitation.id
  uniques
    | .role role => [.users (.roleName role.name)]
    | .invitation invitation => [.tokenHash invitation.tokenHash]
    | _ => []

inductive Area where
  | users (area : Users.Area)
  | invitations
  deriving DecidableEq

instance : Tabled Row where
  Table := Area
  decideTable := inferInstance
  table
    | .users key => .users ((Tabled.table : Key Users.Row → Table Users.Row) key)
    | .invitation _ => .invitations
    | .tokenHash _ => .invitations

namespace Row

def user? : Row → Option User
  | .user row _ => some row
  | _ => none

def invitation? : Row → Option Invitation
  | .invitation row => some row
  | _ => none

def isUser (id : Uuid) : Row → Bool
  | .user row _ => row.id == id
  | _ => false

def isUserRole (p : Uuid → Uuid → Bool) : Row → Bool
  | .userRole userId roleId => p userId roleId
  | _ => false

def isInvitation (p : Invitation → Bool) : Row → Bool
  | .invitation row => p row
  | _ => false

def mapUser (f : User → User) (g : Option String → Option String) : Row → Row
  | .user row passwordHash => .user { f row with id := row.id } (g passwordHash)
  | other => other

/-- Neither the key of an invitation nor the hash of its token is ever written again. -/
def mapInvitation (f : Invitation → Invitation) : Row → Row
  | .invitation row => .invitation { f row with id := row.id, tokenHash := row.tokenHash }
  | other => other

end Row

inductive AcceptError where
  | notFound (message : String)
  | gone (message : String)
  | badRequest (pointer detail : String)
  /-- P2025, the record to update is missing. -/
  | recordNotFound
  /-- Prisma refuses the query: an id is null. -/
  | validation
  | users (error : Users.ServiceError)
  | sql (error : SqlError)
  deriving DecidableEq, Repr

instance : ClientError AcceptError := ⟨.sql⟩

/-- What transactions are for: to look up the invitation of a token, to accept it, or a part of another
service's call. -/
inductive Label where
  | find (tokenHash : String)
  | accept (tokenHash : String)
  | users (label : Users.Label)
  deriving DecidableEq

inductive Request where
  | now
  /-- `hash` of argon2. -/
  | hashPassword (password : String)
  deriving DecidableEq

abbrev Request.Reply : Request → Type
  | .now => Time
  | .hashPassword _ => String

abbrev InvitationScript (α : Type) := Client Row Label Request.Reply AcceptError α

/-- What is computed outside the service. -/
structure Crypto where
  /-- SHA-256, in hex. -/
  sha256 : String → String
  /-- `String.prototype.toLowerCase`. -/
  toLowerCase : String → String

def COMMON : List String :=
  ["123456789012", "1234567890123", "12345678901234", "password1234", "password12345",
    "passw0rd1234", "qwertyuiop123",
      "qwertyuiop1234", "qwertyqwerty", "letmein123456", "letmein12345", "iloveyou1234",
      "iloveyou12345", "trustno12345",
    "welcome123456", "welcome12345", "admin12345678", "administrator", "changeme12345",
      "football12345", "baseball12345",
    "superman12345", "princess12345", "sunshine12345", "monkey1234567", "dragon1234567", "shadow1234567",
    "master1234567", "freedom123456", "whatever12345", "starwars12345", "summer12345678", "winter12345678",
      "autumn12345678", "hunter12345678", "1qaz2wsx3edc", "zaq12wsx3edc4", "q1w2e3r4t5y6",
      "1q2w3e4r5t6y", "abcdefghijkl",
    "abc123abc123", "correcthorse", "correcthorsebattery", "p@ssw0rd12345"]

def isSequential (password : String) : Bool :=
  let codes := password.toList.map fun c => c.val.toNat
  let neighbours := codes.zip codes.tail
  isDigits password && (neighbours.all (fun pair => pair.2 == pair.1 + 1) || neighbours.all
    fun pair => pair.2 + 1 == pair.1)

/-- A string is compared with its first code unit, so no character beyond the basic plane repeats. -/
def isSingleCharacter (password : String) : Bool :=
  match password.toList with
  | [] => false
  | first :: rest => first.val.toNat < 0x10000 && rest.all (· == first)

def isCommonPassword (crypto : Crypto) (password : String) : Bool :=
  let lower := crypto.toLowerCase password
  COMMON.contains lower || isSequential password || isSingleCharacter lower

structure AcceptInvitationInput where
  name : String
  password : String

def hashToken (crypto : Crypto) (rawToken : String) : String := crypto.sha256 rawToken

/-- The tenant and the secret of a token `<tenant-id>.<random>`. -/
def splitToken (token : String) : Option (Uuid × String) :=
  let tenantId := String.ofList (token.toList.takeWhile (· != '.'))
  let rawToken := String.ofList ((token.toList.dropWhile (· != '.')).drop 1)
  if isUuid tenantId && !rawToken.isEmpty then some (uuidOf tenantId, rawToken) else none

def findInvitation (tenantId : Uuid) (tokenHash : String) : InvitationScript (Option Invitation) := do
  let rows ← transaction (.find tokenHash) <| sql <| .select <| Row.isInvitation fun row =>
    row.tenantId == tenantId && row.tokenHash == tokenHash
  return (rows.filterMap Row.invitation?).head?

/-- The transaction of an acceptance; the label says whose token it is. -/
def save (tokenHash : String) (invitation : Invitation) (name passwordHash : String) :
    InvitationScript (User × List Uuid) :=
  transaction (.accept tokenHash) do
    let acceptedAt ← ask .now
    let accepted ← sql (.update (Row.isInvitation fun row => row.id == invitation.id)
      (Row.mapInvitation fun row => { row with acceptedAt := some acceptedAt }))
    if accepted.isEmpty then throw .recordNotFound
    match invitation.userId with
    | none => throw .validation
    | some userId =>
        let updated ← sql (.update (Row.isUser userId)
          (Row.mapUser (fun user => { user with name := some name, status := .active })
            fun _ => some passwordHash))
        match updated.filterMap Row.user? with
        | [] => throw .recordNotFound
        | user :: _ =>
            let roles ← sql (.select (Row.isUserRole fun id _ => id == userId))
            return (user, roles.filterMap fun
              | .userRole _ roleId => some roleId
              | _ => none)

def accept (crypto : Crypto) (compositeToken : String) (input : AcceptInvitationInput) :
    InvitationScript (User × List Uuid) :=
  match splitToken compositeToken with
  | none => throw (.notFound "invitation not found")
  | some (tenantId, rawToken) => do
      match ← findInvitation tenantId (hashToken crypto rawToken) with
      | none => throw (.notFound "invitation not found")
      | some invitation =>
          if invitation.acceptedAt.isSome then throw (.gone "invitation already used")
          let now ← ask .now
          if invitation.expiresAt < now then throw (.gone "invitation expired")
          if isCommonPassword crypto input.password
            then throw (.badRequest "/password" "this password is too common")
          let passwordHash ← ask (.hashPassword input.password)
          save (hashToken crypto rawToken) invitation input.name passwordHash

def staff : View Users.Row Row where
  get
    | .user user _ => some (.user user)
    | .role role => some (.role role)
    | .userRole userId roleId => some (.userRole userId roleId)
    | .rolePermission roleId permission => some (.rolePermission roleId permission)
    | .invitation _ => none
  set
    | .user user, .user _ passwordHash => .user user passwordHash
    | .role role, .role _ => .role role
    | _, row => row
  new
    | .user user => .user user none
    | .role role => .role role
    | .userRole userId roleId => .userRole userId roleId
    | .rolePermission roleId permission => .rolePermission roleId permission

def wide : Widening Users.Row Row Users.Label Label Users.Request.Reply Request.Reply
    Users.ServiceError AcceptError where
  view := staff
  label := .users
  extra request := nomatch request
  reply request := nomatch request
  error
    | .sql error => .sql error
    | other => .users other

def update (id : Uuid) (input : Users.UpdateUserInput) : InvitationScript (User × List Uuid) :=
  wide.client (Users.update id input)

inductive Call where
  | accept (compositeToken : String) (input : AcceptInvitationInput)
  | update (id : Uuid) (input : Users.UpdateUserInput)

def code (crypto : Crypto) : Call → InvitationScript (User × List Uuid)
  | .accept compositeToken input => accept crypto compositeToken input
  | .update id input => update id input

/-- A value for a request: a clock reading, or a salted hash. -/
inductive Draw where
  | time (ms : Time)
  | text (hash : String)

def respond (_ : Tid) : (request : Request) → Draw → Shared Row Label Unit → Option (request.Reply × Unit)
  | .now, .time ms, _ => some (ms, ())
  | .hashPassword _, .text hash, _ => some (hash, ())
  | _, _, _ => none

abbrev State := Shared Row Label Unit

abbrev Config := Interleaving.Config Call (Action Row Label Request) (Answer Request.Reply) AcceptError
    (User × List Uuid) State

def initial (rows : List Row) : Config := .start ⟨.holding rows, ()⟩

abbrev Log := List (Commit Row Label)

end OpenEmarsys.Invitations
