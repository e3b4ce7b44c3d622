import OpenEmarsys.Postgres.Server

/-! `AuthService`: login, MFA, refresh and logout as scripts on the identity tables.

Every Prisma call outside `$transaction` is a transaction of its own. Hashes,
signatures, the clock, random values and the checks of credentials come from outside.
-/

set_option autoImplicit false

namespace OpenEmarsys.Auth

open Postgres

abbrev Uuid := Nat

abbrev Time := Nat

inductive UserStatus where
  | invited
  | active
  | disabled
  deriving DecidableEq, Repr

inductive TenantStatus where
  | active
  | suspended
  deriving DecidableEq, Repr

inductive PermissionAction where
  | view
  | edit
  | launch
  | admin
  deriving DecidableEq, Repr

structure User where
  id : Uuid
  tenantId : Option Uuid
  email : String
  passwordHash : Option String
  status : UserStatus
  mfaEnabled : Bool
  mfaSecret : Option String
  failedLogins : Nat
  lockedUntil : Option Time
  lastLoginAt : Option Time
  deriving DecidableEq, Repr

structure Tenant where
  id : Uuid
  status : TenantStatus
  deriving DecidableEq, Repr

structure RefreshToken where
  id : Uuid
  userId : Uuid
  tenantId : Option Uuid
  familyId : Uuid
  tokenHash : String
  expiresAt : Time
  rotatedAt : Option Time
  revokedAt : Option Time
  deriving DecidableEq, Repr

structure MfaRecoveryCode where
  id : Uuid
  userId : Uuid
  codeHash : String
  usedAt : Option Time
  deriving DecidableEq, Repr

inductive Row where
  | user (user : User)
  | tenant (tenant : Tenant)
  | refreshToken (token : RefreshToken)
  | recoveryCode (code : MfaRecoveryCode)
  | userRole (userId roleId : Uuid)
  | rolePermission (roleId : Uuid) (module_ : String) (action : PermissionAction)
  deriving DecidableEq, Repr

inductive IndexKey where
  | user (id : Uuid)
  | tenant (id : Uuid)
  | refreshToken (id : Uuid)
  | tokenHash (hash : String)
  | recoveryCode (id : Uuid)
  | userRole (userId roleId : Uuid)
  | rolePermission (roleId : Uuid) (module_ : String) (action : PermissionAction)
  deriving DecidableEq

instance : Indexed Row where
  Key := IndexKey
  decideKey := inferInstance
  primary
    | .user user => .user user.id
    | .tenant tenant => .tenant tenant.id
    | .refreshToken token => .refreshToken token.id
    | .recoveryCode code => .recoveryCode code.id
    | .userRole userId roleId => .userRole userId roleId
    | .rolePermission roleId module_ action => .rolePermission roleId module_ action
  uniques
    | .refreshToken token => [.tokenHash token.tokenHash]
    | _ => []

namespace Row

def user? : Row → Option User
  | .user row => some row
  | _ => none

def tenant? : Row → Option Tenant
  | .tenant row => some row
  | _ => none

def isUser (p : User → Bool) : Row → Bool
  | .user row => p row
  | _ => false

def isToken (p : RefreshToken → Bool) : Row → Bool
  | .refreshToken row => p row
  | _ => false

def mapUser (f : User → User) : Row → Row
  | .user row => .user { f row with id := row.id }
  | other => other

/-- Neither the key of a token nor its hash is ever written again. -/
def mapToken (f : RefreshToken → RefreshToken) : Row → Row
  | .refreshToken row => .refreshToken { f row with id := row.id, tokenHash := row.tokenHash }
  | other => other

end Row

/-- What is computed outside the service. -/
structure Crypto where
  sha256 : String → String
  /-- SQL `lower`. -/
  lower : String → String
  /-- `String.prototype.toLowerCase` -/
  toLowerCase : String → String
  /-- Sorts strings as `Array.prototype.sort` does. -/
  sort : List String → List String
  signAccess : Uuid → Option Uuid → List String → Time → String
  signMfa : Uuid → Option Uuid → Time → String
  /-- The subject of a valid MFA token. -/
  verifyMfaToken : String → Time → Option Uuid

inductive AuthError where
  | unauthorized (message : String)
  | locked (retryAfter : Nat)
  | forbidden (message : String)
  /-- P2025, the record to update or to find is missing. -/
  | notFound
  /-- P2003, the row a foreign key points to is missing. -/
  | foreignKey
  | sql (error : SqlError)
  deriving DecidableEq, Repr

instance : ClientError AuthError := ⟨.sql⟩

inductive Request where
  | now
  /-- `randomUUID()`, never the same twice. -/
  | randomUUID
  /-- `randomBytes(32).toString('base64url')` -/
  | randomBytes
  /-- The id the database gives a new row. -/
  | rowId
  /-- `verify` of argon2, on the hash of an account. -/
  | verify (account : Uuid) (passwordHash password : String)
  /-- `verify` on `dummyHash`, the hash of a random password. -/
  | verifyDummy (password : String)
  /-- `checkTotp(sealedSecret, code)`, on the secret of an account. -/
  | checkTotp (account : Uuid) (sealedSecret code : String)
  deriving DecidableEq

abbrev Request.Reply : Request → Type
  | .now => Time
  | .randomUUID => Uuid
  | .randomBytes => String
  | .rowId => Uuid
  | .verify .. => Bool
  | .verifyDummy _ => Bool
  | .checkTotp .. => Bool

abbrev AuthScript (α : Type) := Client Row Unit Request.Reply AuthError α

def ACCESS_TTL := 15 * 60
def REFRESH_TTL_MS := 30 * 24 * 3600000
def MAX_FAILURES := 5
def LOCK_MS := 15 * 60000

structure TokenPair where
  access_token : String
  refresh_token : String
  token_type : String
  expires_in : Nat
  deriving DecidableEq, Repr

inductive LoginResult where
  | pair (tokens : TokenPair)
  | mfa_required (mfa_token : String)
  deriving DecidableEq, Repr

def query (statement : Statement Row) : AuthScript (List Row) := transaction () (sql statement)

/-- Users with their tenants, `include: { tenant: true }`. -/
def findUsers (p : User → Bool) : AuthScript (List (User × Option Tenant)) :=
  transaction () do
    let users ← sql (.select (Row.isUser p))
    let tenants ← sql (.select fun
      | .tenant tenant => (users.filterMap Row.user?).any fun user => user.tenantId == some tenant.id
      | _ => false)
    return (users.filterMap Row.user?).map fun user =>
      (user, (tenants.filterMap Row.tenant?).find? fun tenant => user.tenantId == some tenant.id)

def updateUser (id : Uuid) (f : User → User) : AuthScript User := do
  let rows ← query (.update (Row.isUser fun user => user.id == id) (Row.mapUser f))
  match rows.filterMap Row.user? with
  | user :: _ => return user
  | [] => throw .notFound

/-- Seconds the account stays locked, 0 if it is not. -/
def lockedFor (user : User) (now : Time) : Nat := (user.lockedUntil.getD 0 - now + 999) / 1000

def invalidCredentials : AuthError := .unauthorized "Invalid email or password"

def checkActive (user : User) (tenant : Option Tenant) : AuthScript Unit :=
  if user.status ≠ .active then throw invalidCredentials
  else if tenant.any fun tenant => tenant.status == .suspended then throw (.forbidden "Tenant is suspended")
  else return ()

/-- Counts a failure; the fifth in a row locks the account for 15 minutes. -/
def recordFailure (userId : Uuid) (now : Time) : AuthScript Unit := do
  let user ← updateUser userId fun user => { user with failedLogins := user.failedLogins + 1 }
  if user.failedLogins < MAX_FAILURES then return ()
  else
    let _ ← updateUser userId fun user => { user with failedLogins := 0, lockedUntil := some (now + LOCK_MS) }
    throw (.locked (LOCK_MS / 1000))

def PermissionAction.text : PermissionAction → String
  | .view => "view"
  | .edit => "edit"
  | .launch => "launch"
  | .admin => "admin"

/-- The `module:action` pairs of the roles of a user. -/
def permissions (userId : Uuid) (rows : List Row) : List String :=
  let roles := rows.filterMap fun
    | .userRole owner roleId => if owner = userId then some roleId else none
    | _ => none
  (rows.filterMap fun
    | .rolePermission roleId module_ action =>
        if roleId ∈ roles then some (module_ ++ ":" ++ action.text) else none
    | _ => none).dedup

section
variable (crypto : Crypto)

def issue (user : User) (familyId : Uuid) (now : Time) : AuthScript TokenPair := do
  let grants ← query (.select fun
    | .userRole owner _ => owner == user.id
    | .rolePermission .. => true
    | _ => false)
  let perms := crypto.sort (permissions user.id grants)
  let access_token := crypto.signAccess user.id user.tenantId perms now
  let refresh_token ← ask .randomBytes
  let id ← ask .rowId
  transaction () do
    let owner ← sql (.shareKey (Row.isUser fun owner => owner.id == user.id))
    if owner.isEmpty then throw .foreignKey
    let _ ← sql (.insert [.refreshToken {
      id := id
      userId := user.id
      tenantId := user.tenantId
      familyId := familyId
      tokenHash := crypto.sha256 refresh_token
      expiresAt := now + REFRESH_TTL_MS
      rotatedAt := none
      revokedAt := none }] false)
    let updated ← sql (.update (Row.isUser fun other => other.id == user.id) (Row.mapUser fun user =>
      { user with failedLogins := 0, lockedUntil := none, lastLoginAt := some now }))
    if updated.isEmpty then throw .notFound
  return { access_token, refresh_token, token_type := "Bearer", expires_in := ACCESS_TTL }

/-- `verify(u.passwordHash!, password)` -/
def verifyPassword (user : User) (password : String) : AuthScript Bool :=
  match user.passwordHash with
  | some hash => ask (Request.verify user.id hash password)
  | none => pure false

/-- Takes as long as it would with an account. -/
def verifyNobody (free : List (User × Option Tenant)) (password : String) : AuthScript Bool :=
  if free.isEmpty then ask (Request.verifyDummy password) else pure false

/-- Verifies the password for one account after the other, until it is right. -/
def findVerified (password : String) : List (User × Option Tenant) → AuthScript
    (Option (User × Option Tenant))
  | [] => return none
  | (user, tenant) :: rest => do
      let right ← verifyPassword user password
      if right then return some (user, tenant) else findVerified password rest

def login (email password : String) : AuthScript LoginResult := do
  let now ← ask .now
  let ids ← query (.select (Row.isUser fun user => crypto.lower user.email == crypto.lower email))
  let users ← findUsers fun user =>
    (ids.filterMap Row.user?).any (fun found => found.id == user.id) && user.passwordHash.isSome
  let free := users.filter fun (user, _) => lockedFor user now == 0
  let chosen ← findVerified password free
  let _ ← verifyNobody free password
  match chosen with
  | none =>
      match users.find? fun (user, _) => lockedFor user now != 0 with
      | some (locked, _) => throw (.locked (lockedFor locked now))
      | none =>
          free.forM fun (user, _) => recordFailure user.id now
          throw invalidCredentials
  | some (user, tenant) =>
      checkActive user tenant
      if user.mfaEnabled then return .mfa_required (crypto.signMfa user.id user.tenantId now)
      else
        let family ← ask .randomUUID
        let tokens ← issue crypto user family now
        return .pair tokens

def normalizeRecovery (code : String) : String :=
  String.ofList ((crypto.toLowerCase code).toList.filter fun c => ('a' ≤ c && c ≤ 'z') || c.isDigit)

def verifyMfa (mfaToken code : String) : AuthScript TokenPair := do
  let now ← ask .now
  let invalid := AuthError.unauthorized "Invalid or expired MFA token"
  let sub ← match crypto.verifyMfaToken mfaToken now with
    | some sub => pure sub
    | none => throw invalid
  let found ← findUsers fun user => user.id == sub
  match found with
  | [] => throw invalid
  | (user, tenant) :: _ =>
      match user.mfaEnabled, user.mfaSecret with
      | true, some secret =>
          if lockedFor user now ≠ 0 then throw (.locked (lockedFor user now))
          checkActive user tenant
          let ok ← if code.toList.length == 6 && code.toList.all Char.isDigit then
              ask (Request.checkTotp user.id secret code)
            else do
              let used ← query (.update
                (fun
                  | .recoveryCode row => row.userId == user.id &&
                      row.codeHash == crypto.sha256 (normalizeRecovery crypto code) && row.usedAt.isNone
                  | _ => false)
                (fun
                  | .recoveryCode row => .recoveryCode { row with usedAt := some now }
                  | row => row))
              pure (used.length == 1)
          if ok then
            let family ← ask .randomUUID
            issue crypto user family now
          else
            recordFailure user.id now
            throw (.unauthorized "Invalid code")
      | _, _ => throw invalid

def revokeFamily (familyId : Uuid) (now : Time) : AuthScript Unit := do
  let _ ← query (.update (Row.isToken fun token => token.familyId == familyId && token.revokedAt.isNone)
    (Row.mapToken fun token => { token with revokedAt := some now }))

def findToken (token : String) : AuthScript (Option RefreshToken) := do
  let rows ← query (.select (Row.isToken fun row => row.tokenHash == crypto.sha256 token))
  return rows.findSome? fun
    | .refreshToken row => some row
    | _ => none

/-- Rotates a refresh token. Presenting one already rotated or revoked revokes its family. -/
def refresh (token : String) : AuthScript TokenPair := do
  let now ← ask .now
  let invalid := AuthError.unauthorized "Invalid refresh token"
  match ← findToken crypto token with
  | none => throw invalid
  | some row =>
      if row.expiresAt ≤ now then throw invalid
      let claimed ← query (.update
        (Row.isToken fun token => token.id == row.id && token.rotatedAt.isNone && token.revokedAt.isNone)
        (Row.mapToken fun token => { token with rotatedAt := some now }))
      if claimed.isEmpty then
        revokeFamily row.familyId now
        throw invalid
      else
        match ← findUsers fun user => user.id == row.userId with
        | [] => throw .notFound
        | (user, tenant) :: _ =>
            checkActive user tenant
            issue crypto user row.familyId now

/-- Ends the session the refresh token belongs to, if it is the caller's. -/
def logout (userId : Uuid) (token : String) : AuthScript Unit := do
  match ← findToken crypto token with
  | none => return ()
  | some row =>
      if row.userId = userId then
        let now ← ask .now
        revokeFamily row.familyId now

end

inductive Call where
  | login (email password : String)
  | verifyMfa (mfaToken code : String)
  | refresh (token : String)
  | logout (userId : Uuid) (token : String)

def code (crypto : Crypto) : Call → AuthScript (Option TokenPair)
  | .login email password => do
      match ← login crypto email password with
      | .pair tokens => return some tokens
      | .mfa_required _ => return none
  | .verifyMfa mfaToken code => do
      let tokens ← verifyMfa crypto mfaToken code
      return some tokens
  | .refresh token => do
      let tokens ← refresh crypto token
      return some tokens
  | .logout userId token => do
      logout crypto userId token
      return none

/-- The UUIDs drawn so far, with the process that drew each; those of the rows
already stored belong to none. -/
structure World where
  drawn : List (Option Tid × Uuid)

/-- A value for a request: a clock reading, something random, or whether a credential is right. -/
inductive Draw where
  | time (ms : Time)
  | uuid (id : Uuid)
  | bytes (text : String)
  | verdict (right : Bool)

def respond (tid : Tid) : (request : Request) → Draw → Shared Row Unit World → Option (request.Reply × World)
  | .now, .time ms, shared => some (ms, shared.world)
  | .randomUUID, .uuid id, shared =>
      if id ∈ shared.world.drawn.map Prod.snd then none
      else some (id, ⟨(some tid, id) :: shared.world.drawn⟩)
  | .randomBytes, .bytes text, shared => some (text, shared.world)
  | .rowId, .uuid id, shared => some (id, shared.world)
  | .verify .., .verdict right, shared => some (right, shared.world)
  | .verifyDummy _, .verdict right, shared => some (right, shared.world)
  | .checkTotp .., .verdict right, shared => some (right, shared.world)
  | _, _, _ => none

abbrev State := Shared Row Unit World

abbrev Config := Interleaving.Config Call (Action Row Unit Request) (Answer Request.Reply) AuthError
    (Option TokenPair) State

end OpenEmarsys.Auth
