import OpenEmarsys.Interleaving.Runs
import Mathlib.Data.List.Sort

/-! API clients: `OAuthService.clientToken` and `revocations`, `ApiClientsService.revoke`.

Every Prisma call is one statement and a step of its own; so are the clock readings and
the signing. The replicas of core share the table and each count failures for themselves.
One clock, in nanoseconds, ticks for them all; `Date` cuts it to milliseconds and tokens
carry seconds.
-/

set_option autoImplicit false

namespace OpenEmarsys.OAuth

open Interleaving (Script)

abbrev Uuid := Nat

abbrev Clock := Nat

/-- `Date.getTime()` -/
def Clock.millis (clock : Clock) : Nat := clock / 1000000

def Clock.seconds (clock : Clock) : Nat := clock / 1000000000

def CLIENT_TOKEN_TTL := 3600
def REVOCATION_WINDOW_MS := (CLIENT_TOKEN_TTL + 60) * 1000
def MAX_FAILURES := 10
def FAILURE_WINDOW_MS := 60000

structure ApiClient where
  id : Uuid
  tenantId : Uuid
  clientId : String
  secretHash : String
  scopes : List String
  revokedAt : Option Nat
  lastUsedAt : Option Nat
  deriving DecidableEq

/-- A `typ=client` token: its claims. -/
structure Token where
  sub : String
  tenantId : Uuid
  scopes : List String
  iat : Nat
  exp : Nat
  deriving DecidableEq

structure Failure where
  clientId : String
  count : Nat
  resetAt : Nat
  deriving DecidableEq

inductive OAuthError where
  /-- 429, with `Retry-After`. -/
  | tooMany (retryAfter : Nat)
  | invalidClient
  | invalidScope (extra : List String)
  | notFound
  deriving DecidableEq

/-- What a call has been told: the time, the client it looked up last, and the list if it was told that
last of all. -/
structure Memory where
  now : Nat := 0
  client : Option (String × ApiClient) := none
  listed : Option (List (String × Nat)) := none

structure State where
  clock : Clock
  clients : List ApiClient
  suspended : List Uuid
  /-- The failures each replica has counted. -/
  failures : Nat → List Failure
  /-- Every client token that was ever signed. -/
  issued : List Token
  /-- What was published on `system.api_client.revoked`. -/
  published : List (String × Nat)
  /-- What the calls have read. A history variable. -/
  memory : Nat → Memory := fun _ => {}

inductive Act where
  | now
  | failure (replica : Nat) (clientId : String)
  | recordFailure (replica : Nat) (clientId : String) (now : Nat)
  | forgetFailures (replica : Nat) (clientId : String)
  /-- The client with whether its tenant is suspended. -/
  | findClient (clientId : String)
  | touch (id : Uuid) (now : Nat)
  /-- `signer.sign` with CLIENT_TOKEN_TTL. -/
  | sign (sub : String) (tenantId : Uuid) (scopes : List String)
  | revoke (tenantId id : Uuid) (date : Nat)
  | findById (tenantId id : Uuid)
  | publish (clientId : String) (revokedAt : Nat)
  | revokedSince (since : Int)

abbrev Act.Reply : Act → Type
  | .now => Nat
  | .failure .. => Option Failure
  | .findClient _ => Option (ApiClient × Bool)
  | .sign .. => Token
  | .findById .. => Option ApiClient
  | .revokedSince _ => List (String × Nat)
  | _ => Unit

abbrev OAuthScript (α : Type) := Script Act Act.Reply OAuthError α

def ask (act : Act) : OAuthScript act.Reply := Script.await act

/-- What the failures are after one more at `now`; a long list is cleared of what is over. -/
def countFailure (failures : List Failure) (clientId : String) (now : Nat) : List Failure :=
  let kept := if failures.length > 10000 then failures.filter
    fun failure => now < failure.resetAt else failures
  let others := kept.filter fun failure => failure.clientId != clientId
  match kept.find? fun failure => failure.clientId == clientId with
  | some failure =>
      if failure.resetAt ≤ now then ⟨clientId, 1, now + FAILURE_WINDOW_MS⟩ :: others
      else { failure with count := failure.count + 1 } :: others
  | none => ⟨clientId, 1, now + FAILURE_WINDOW_MS⟩ :: others

section
-- `verify` of argon2, on the hash and the secret
variable (verify : String → String → Bool)

/-- `grant_type=client_credentials`. `scope` narrows the scopes of the client. -/
def clientToken (replica : Nat) (clientId secret : String) (scope : Option String) : OAuthScript Token := do
  let now ← ask .now
  let f ← ask (.failure replica clientId)
  if f.any fun f => now < f.resetAt && MAX_FAILURES ≤ f.count then
    throw (.tooMany ((f.elim 0 fun f => f.resetAt - now + 999) / 1000))
  else
    match ← ask (.findClient clientId) with
    | none =>
        ask (.recordFailure replica clientId now)
        throw .invalidClient
    | some (row, suspended) =>
        if verify row.secretHash secret then
          if row.revokedAt.isSome || suspended then throw .invalidClient
          else
            let requested := ((scope.toList.flatMap fun text => text.splitOn " ").filter (· ≠ "")).eraseDups
            let extra := requested.filter fun s => !row.scopes.contains s
            if extra ≠ [] then throw (.invalidScope extra)
            else
              let scopes := if requested = [] then row.scopes else requested
              ask (.forgetFailures replica clientId)
              ask (.touch row.id now)
              ask (.sign clientId row.tenantId scopes)
        else
          ask (.recordFailure replica clientId now)
          throw .invalidClient

/-- Idempotent; publishes the event each time. -/
def revoke (tenantId id : Uuid) : OAuthScript Unit := do
  let date ← ask .now
  ask (.revoke tenantId id date)
  match ← ask (.findById tenantId id) with
  | none => throw .notFound
  | some row => ask (.publish row.clientId (row.revokedAt.getD 0))

/-- Clients revoked recently enough that tokens issued to them may still be unexpired. -/
def revocations : OAuthScript (List (String × Nat)) := do
  let now ← ask .now
  ask (.revokedSince (now - REVOCATION_WINDOW_MS))

inductive Call where
  | clientToken (replica : Nat) (clientId secret : String) (scope : Option String)
  | revoke (tenantId id : Uuid)
  | revocations

inductive Answer where
  | token (token : Token)
  | done
  | items (items : List (String × Nat))

def code : Call → OAuthScript Answer
  | .clientToken replica clientId secret scope => do
      let token ← clientToken verify replica clientId secret scope
      return .token token
  | .revoke tenantId id => do
      revoke tenantId id
      return .done
  | .revocations => do
      let items ← revocations
      return .items items

end

/-- Clients revoked after `since`, the first revoked first. -/
def revokedSince (clients : List ApiClient) (since : Int) : List (String × Nat) :=
  (clients.filterMap fun row => row.revokedAt.bind fun date => if since < date then some (row.clientId, date)
    else none).insertionSort
    fun a b => a.2 ≤ b.2

def State.setFailures (state : State) (replica : Nat) (failures : List Failure) : State :=
  { state with failures := Function.update state.failures replica failures }

def State.mapClients (state : State) (f : ApiClient → ApiClient) : State :=
  { state with clients := state.clients.map f }

def perform (act : Act) (state : State) : act.Reply × State :=
  match act with
  | .now => (state.clock.millis, state)
  | .failure replica clientId => ((state.failures replica).find?
    fun failure => failure.clientId == clientId, state)
  | .recordFailure replica clientId now =>
      ((), state.setFailures replica (countFailure (state.failures replica) clientId now))
  | .forgetFailures replica clientId =>
      ((), state.setFailures replica ((state.failures replica).filter
        fun failure => failure.clientId != clientId))
  | .findClient clientId =>
      ((state.clients.find? fun row => row.clientId == clientId).map
        fun row => (row, state.suspended.contains row.tenantId), state)
  | .touch id now =>
      ((), state.mapClients fun row => if row.id = id then { row with lastUsedAt := some now } else row)
  | .sign sub tenantId scopes =>
      let token : Token := ⟨sub, tenantId, scopes, state.clock.seconds,
        state.clock.seconds + CLIENT_TOKEN_TTL⟩
      (token, { state with issued := token :: state.issued })
  | .revoke tenantId id date =>
      ((), state.mapClients fun row =>
        if row.id = id ∧ row.tenantId = tenantId ∧ row.revokedAt = none
          then { row with revokedAt := some date } else row)
  | .findById tenantId id => (state.clients.find? fun row => row.id == id && row.tenantId == tenantId, state)
  | .publish clientId revokedAt =>
    ((), { state with published := state.published ++ [(clientId, revokedAt)] })
  | .revokedSince since => (revokedSince state.clients since, state)

def Memory.after : (act : Act) → act.Reply → Memory → Memory
  | .now, now, memory => { memory with now := now, listed := none }
  | .findClient clientId, found, memory =>
    { memory with client := found.map fun (row, _) => (clientId, row), listed := none }
  | .revokedSince _, items, memory => { memory with listed := some items }
  | _, _, memory => { memory with listed := none }

def State.remember (state : State) (pid : Nat) (memory : Memory) : State :=
  { state with memory := Function.update state.memory pid memory }

/-- Calls in any interleaving; between any two steps time passes. -/
def machine : Interleaving.Machine Act Act.Reply Nat State where
  act pid act _ state :=
    let (reply, next) := perform act state
    some (reply, next.remember pid ((state.memory pid).after act reply))
  disturb _ passed state := some { state with clock := state.clock + passed }
  crash _ state := state

abbrev Config := Interleaving.Config Call Act Act.Reply OAuthError Answer State

end OpenEmarsys.OAuth
