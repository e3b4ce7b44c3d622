import OpenEmarsys.Golang.Values
import Mathlib.Data.List.Chain
import Mathlib.Data.List.Induction

/-! The key set of the Go verifier: fetched on the first use, every ten minutes, and for a kid
that is unknown at most once a minute.

A call of `key` holds the mutex until it returns, so calls come one after the other.
-/

set_option autoImplicit false

namespace OpenEmarsys.Jwks

open Golang

def minute : Int := 60000000000

def jwksRefreshEvery : Int := 10 * minute

def unknownKidBackoff : Int := minute

/-- `time.Sub`: a difference that is out of range is the nearest one that is not. -/
def sub (time other : Int) : Int := max (-9223372036854775808) (min (time - other) 9223372036854775807)

theorem sub_lt_refresh {time other : Int} : sub time other < jwksRefreshEvery ↔
    time - other < jwksRefreshEvery := by
  simp only [sub, jwksRefreshEvery, minute]
  omega

theorem backoff_le_sub {time other : Int} : unknownKidBackoff ≤ sub time other ↔
    other + unknownKidBackoff ≤ time := by
  simp only [sub, unknownKidBackoff, minute]
  omega

structure PublicKey where
  N : Nat
  E : Nat
  deriving DecidableEq

structure Jwk where
  kty : String
  kid : String
  use : String
  alg : String
  n : String
  e : String

def setBytes (bytes : Bytes) : Nat := bytes.foldl (fun value byte => value * 256 + byte.toNat) 0

/-- The key that a JWK holds, unless it is skipped. -/
def publicKey (jwk : Jwk) : Option PublicKey :=
  if jwk.kty ≠ "RSA" ∨ jwk.kid = "" ∨ (jwk.use ≠ "" ∧ jwk.use ≠ "sig") ∨
    (jwk.alg ≠ "" ∧ jwk.alg ≠ "RS256") then none
  else
    (decodeString jwk.n).bind fun n =>
      (decodeString jwk.e).bind fun e =>
        if e.length = 0 ∨ 4 < e.length then none else some ⟨setBytes n, setBytes e⟩

abbrev Keys := GoMap String PublicKey

def insertKey (keys : Keys) (jwk : Jwk) : Keys :=
  match publicKey jwk with
  | some key => keys.insert jwk.kid key
  | none => keys

def keySet (jwks : List Jwk) : Keys := jwks.foldl insertKey GoMap.empty

inductive Error where
  /-- There is no request, or it has no response. -/
  | request (err : String)
  /-- `auth: fetch jwks: status %d`. -/
  | status (code : Nat)
  /-- `auth: decode jwks: %w`. -/
  | decode (err : String)
  /-- `auth: unknown kid %q`. -/
  | unknownKid (kid : String)

/-- What the request for the key set comes to. -/
inductive Response where
  | failed (err : String)
  /-- With what the JSON decoder makes of the body. -/
  | answered (statusCode : Nat) (body : Except String (List Jwk))

def Response.keys : Response → Except Error Keys
  | failed err => .error (.request err)
  | answered statusCode body =>
      if statusCode ≠ 200 then .error (.status statusCode)
      else match body with
        | .error err => .error (.decode err)
        | .ok jwks => .ok (keySet jwks)

structure Attempt where
  time : Int
  response : Response

structure Verifier where
  keys : Keys
  fetchedAt : Int
  /-- The requests for the key set, the last one first. The code keeps no record of them. -/
  attempts : List Attempt

def newVerifier : Verifier where
  keys := .empty
  fetchedAt := 0
  attempts := []

structure Call where
  kid : String
  now : Int
  /-- What a fetch comes to, if the call makes one. -/
  response : Response

namespace Verifier

def fetch (v : Verifier) (call : Call) : Verifier × Option Error :=
  let asked := { v with attempts := ⟨call.now, call.response⟩ :: v.attempts }
  match call.response.keys with
  | .error err => (asked, some err)
  | .ok keys => ({ asked with keys }, none)

def known (v : Verifier) (kid : String) : Except Error PublicKey :=
  match v.keys.get kid with
  | some k => .ok k
  | none => .error (.unknownKid kid)

def key (v : Verifier) (call : Call) : Verifier × Except Error PublicKey :=
  let since := sub call.now v.fetchedAt
  if (v.keys.get call.kid).isSome ∧ since < jwksRefreshEvery then (v, v.known call.kid)
  else if unknownKidBackoff ≤ since then
    match ({ v with fetchedAt := call.now }).fetch call with
    | (v, some err) => if v.keys.len = 0 then (v, .error err) else (v, v.known call.kid)
    | (v, none) => (v, v.known call.kid)
  else (v, v.known call.kid)

end Verifier

def after (calls : List Call) : Verifier := calls.foldl (fun v call => (v.key call).1) newVerifier

@[simp] theorem after_concat (calls : List Call) (call : Call) :
    after (calls ++ [call]) = ((after calls).key call).1 :=
  List.foldl_concat ..

/-- The verifier once the call has made its attempt: a set that comes replaces the old one. -/
def Verifier.attempted (v : Verifier) (call : Call) : Verifier where
  keys := call.response.keys.toOption.getD v.keys
  fetchedAt := call.now
  attempts := ⟨call.now, call.response⟩ :: v.attempts

theorem key_call (v : Verifier) (call : Call) :
    ((v.key call).1 = v ∧ ((v.keys.get call.kid).isSome → sub call.now v.fetchedAt < jwksRefreshEvery)) ∨
      ((v.key call).1 = v.attempted call ∧ unknownKidBackoff ≤ sub call.now v.fetchedAt) := by
  simp only [Verifier.key]
  split_ifs with fresh due
  · exact .inl ⟨rfl, fun _ => fresh.2⟩
  · right
    refine ⟨?_, due⟩
    cases came : call.response.keys with
    | error err =>
      simp only [Verifier.fetch, Verifier.attempted, came]
      split_ifs <;> rfl
    | ok keys =>
      simp only [Verifier.fetch, Verifier.attempted, came]
      rfl
  · left
    refine ⟨rfl, fun _ => ?_⟩
    -- It is not even time for an attempt.
    simp only [unknownKidBackoff, jwksRefreshEvery, minute] at due ⊢
    omega

theorem key_answer {v : Verifier} {call : Call} {k : PublicKey} :
    (v.key call).2 = .ok k ↔ (v.key call).1.keys.get call.kid = some k := by
  have known (v : Verifier) : v.known call.kid = .ok k ↔ v.keys.get call.kid = some k := by
    unfold Verifier.known
    cases v.keys.get call.kid <;> simp
  simp only [Verifier.key]
  split_ifs
  · exact known v
  · cases came : call.response.keys with
    | error err =>
      simp only [Verifier.fetch, came]
      split_ifs with none
      · constructor
        · intro answered
          cases answered
        · intro found
          exact absurd none (GoMap.len_of_get found)
      · exact known _
    | ok keys =>
      simp only [Verifier.fetch, came]
      exact known _
  · exact known v

def lastSet (attempts : List Attempt) : Option Keys := attempts.findSome?
    fun attempt => attempt.response.keys.toOption

/-- Two consecutive attempts are a minute apart or more; the last one comes first. -/
def Spaced (attempts : List Attempt) : Prop := attempts.IsChain
    fun later earlier => earlier.time + minute ≤ later.time

structure Kept (v : Verifier) : Prop where
  keys : v.keys = (lastSet v.attempts).getD .empty
  stamped : ∀ attempt ∈ v.attempts.head?, v.fetchedAt = attempt.time
  spaced : Spaced v.attempts

theorem kept_attempted {v : Verifier} {call : Call} (kept : Kept v)
    (due : unknownKidBackoff ≤ sub call.now v.fetchedAt) :
    Kept (v.attempted call) where
  keys := by
    simp only [Verifier.attempted, lastSet, List.findSome?_cons]
    cases call.response.keys.toOption with
    | none => exact kept.keys
    | some keys => rfl
  stamped attempt last := by
    cases last
    rfl
  spaced := by
    apply List.isChain_cons.mpr
    refine ⟨fun earlier last => ?_, kept.spaced⟩
    rw [← kept.stamped earlier last]
    exact backoff_le_sub.mp due

theorem kept_key {v : Verifier} (kept : Kept v) (call : Call) : Kept (v.key call).1 := by
  rcases key_call v call with ⟨same, -⟩ | ⟨attempted, due⟩
  · rwa [same]
  · rw [attempted]
    exact kept_attempted kept due

theorem kept_after (calls : List Call) : Kept (after calls) := by
  induction calls using List.reverseRecOn with
  | nil => exact { keys := rfl, stamped := fun attempt last => (by cases last), spaced := .nil }
  | append_singleton calls call ih =>
    rw [after_concat]
    exact kept_key ih call

theorem attempt_after {calls : List Call} {attempt : Attempt} (made : attempt ∈ (after calls).attempts) :
    ∃ call ∈ calls, call.now = attempt.time := by
  induction calls using List.reverseRecOn with
  | nil => cases made
  | append_singleton calls call ih =>
    have earlier (before : attempt ∈ (after calls).attempts) :
        ∃ other ∈ calls ++ [call], other.now = attempt.time := by
      obtain ⟨other, member, is⟩ := ih before
      exact ⟨other, List.mem_append_left _ member, is⟩
    rw [after_concat] at made
    rcases key_call (after calls) call with ⟨same, -⟩ | ⟨attempted, -⟩
    · rw [same] at made
      exact earlier made
    · rw [attempted] at made
      rcases List.mem_cons.mp made with rfl | before
      · exact ⟨call, List.mem_concat_self, rfl⟩
      · exact earlier before

-- A key is in the set of the last successful fetch, if it is in any.
theorem get_keys {v : Verifier} (kept : Kept v) {kid : String} {k : PublicKey} :
    v.keys.get kid = some k ↔ ∃ keys, lastSet v.attempts = some keys ∧ keys.get kid = some k := by
  rw [kept.keys]
  cases lastSet v.attempts with
  | none => simp
  | some keys => simp

theorem recent_of_get {v : Verifier} (kept : Kept v) {call : Call} {k : PublicKey}
    (found : (v.key call).1.keys.get call.kid = some k) :
    ∃ attempt, (v.key call).1.attempts.head? = some attempt ∧ call.now - attempt.time < jwksRefreshEvery := by
  rcases key_call v call with ⟨same, fresh⟩ | ⟨attempted, -⟩
  · rw [same] at found ⊢
    have recent := sub_lt_refresh.mp (fresh (Option.isSome_iff_exists.mpr ⟨k, found⟩))
    cases made : v.attempts with
    | nil =>
      rw [kept.keys, made] at found
      cases found
    | cons attempt others =>
      rw [kept.stamped attempt (by simp [made])] at recent
      exact ⟨attempt, rfl, recent⟩
  · rw [attempted]
    refine ⟨_, rfl, ?_⟩
    simp [jwksRefreshEvery, minute]

/-- Over all calls in the order of their times: attempts are a minute apart, a key that is returned
belongs to the set that came last and the last attempt is less than ten minutes old, every key of
that set is returned when it is asked for, and a fetch that fails leaves the set alone. -/
theorem key_disciplined (earlier : List Call) (call : Call) (v : Verifier) (answer : Except Error PublicKey)
    (ordered : (earlier ++ [call]).Pairwise fun first second => first.now ≤ second.now)
    (called : (after earlier).key call = (v, answer)) :
    Spaced v.attempts ∧
      (∀ k, answer = .ok k →
          (∃ keys, lastSet v.attempts = some keys ∧ keys.get call.kid = some k) ∧
          ∃ attempt, v.attempts.head? = some attempt ∧ attempt.time ≤ call.now ∧
          call.now - attempt.time < 10 * minute) ∧
      (∀ keys k, lastSet v.attempts = some keys → keys.get call.kid = some k → answer = .ok k) ∧
      (∀ err, call.response.keys = .error err → v.keys = (after earlier).keys) := by
  have left : v = ((after earlier).key call).1 := by rw [called]
  have answered : answer = ((after earlier).key call).2 := by rw [called]
  have kept : Kept v := by
    rw [left]
    exact kept_key (kept_after earlier) call
  have last : v = after (earlier ++ [call]) := by rw [left, after_concat]
  refine ⟨kept.spaced, ?_, ?_, ?_⟩
  · intro k returned
    have found : v.keys.get call.kid = some k := by
      rw [left]
      exact key_answer.mp (answered.symm.trans returned)
    refine ⟨(get_keys kept).mp found, ?_⟩
    rw [left] at found
    obtain ⟨attempt, latest, recent⟩ := recent_of_get (kept_after earlier) found
    rw [← left] at latest
    refine ⟨attempt, latest, ?_, recent⟩
    have made : attempt ∈ (after (earlier ++ [call])).attempts := last ▸ List.mem_of_head? latest
    obtain ⟨other, member, time⟩ := attempt_after made
    rw [← time]
    rcases List.mem_append.mp member with before | same
    · exact (List.pairwise_append.mp ordered).2.2 other before call List.mem_cons_self
    · exact Int.le_of_eq (congrArg Call.now (List.mem_singleton.mp same))
  · intro keys k came found
    have stored : v.keys.get call.kid = some k := (get_keys kept).mpr ⟨keys, came, found⟩
    rw [answered]
    exact key_answer.mpr (left ▸ stored)
  · intro err failed
    rcases key_call (after earlier) call with ⟨same, -⟩ | ⟨attempted, -⟩
    · rw [left, same]
    · rw [left, attempted, Verifier.attempted, failed]
      rfl

def published : Call where
  kid := "a"
  now := 1000000000000000000
  response := .answered 200
    (.ok [{ kty := "RSA", kid := "a", use := "sig", alg := "RS256", n := "AQAB", e := "Aw" }])

def later : Call where
  kid := "a"
  now := 1000000000000000000 + 11 * minute
  response := .failed "connection refused"

theorem key_disciplined_outage :
    ((after [published]).key later).2 = .ok ⟨65537, 3⟩ ∧
        ∃ attempt, ((after [published]).key later).1.attempts.head? = some attempt ∧ attempt.time ≤ later.now ∧
        later.now - attempt.time < 10 * minute := by
  have returned : ((after [published]).key later).2 = .ok ⟨65537, 3⟩ := by rfl
  have ordered : ([published] ++ [later]).Pairwise fun first second => first.now ≤ second.now := by
    simp [published, later, minute]
  exact ⟨returned, ((key_disciplined [published] later _ _ ordered rfl).2.1 _ returned).2⟩

end OpenEmarsys.Jwks
