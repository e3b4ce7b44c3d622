import OpenEmarsys.Auth.Accounts

/-! The credential checks of a call, seen from outside the service.

A password is checked by `verify`, a TOTP code by `checkTotp`, and a recovery code by the
`UPDATE` that spends it. Nothing here looks into the service: what is seen are the calls
its script makes, with their answers.
-/

set_option autoImplicit false

namespace OpenEmarsys.Auth

open Interleaving Postgres

/-- A complete call with what it gets from outside. -/
structure Visit where
  call : Call
  replies : (request : Request) → request.Reply

def Visit.now (visit : Visit) : Time := visit.replies .now

def Call.codeHash (crypto : Crypto) : Call → Option String
  | .verifyMfa _ code => some (crypto.sha256 (normalizeRecovery crypto code))
  | .login .. | .refresh _ | .logout .. => none

/-- The credential check in one call of a script: whose credential it is, and whether it is right.
An update checks the recovery code of each account whose code it would spend. -/
def checkSeen (accounts : List Uuid) (codeHash : Option String) :
    (action : Action Row Unit Request) → Answer Request.Reply action → List (Uuid × Bool)
  | .other (.verify account _ _), right => [(account, right)]
  | .other (.checkTotp account _ _), right => [(account, right)]
  | .exec (.update p _), .ok spent =>
      codeHash.toList.flatMap fun hash =>
        (accounts.filter fun account => p (.recoveryCode ⟨0, account, hash, none⟩)).map
          fun account => (account, spent.length == 1)
  | _, _ => []

def Visit.run (crypto : Crypto) (visit : Visit) (rows : List Row) :
    Except AuthError (Option TokenPair) × List Row :=
  alone visit.replies (code crypto visit.call) rows

def Visit.checks (crypto : Crypto) (visit : Visit) (rows : List Row) : List (Uuid × Bool) :=
  seen visit.replies (checkSeen ((users rows).map (·.id)) (visit.call.codeHash crypto))
    (code crypto visit.call) rows

section Unchecked
variable {accounts : List Uuid} {codeHash : Option String} {α : Type}

/-- No credential is checked, whatever the answers. -/
abbrev Unchecked (accounts : List Uuid) (codeHash : Option String) (script : AuthScript α) : Prop :=
  script.Calls (Unseen (checkSeen accounts codeHash))

theorem Unchecked.transaction {body : AuthScript α} (unchecked : Unchecked accounts codeHash body) :
    Unchecked accounts codeHash (Postgres.transaction () body) :=
  transaction_calls (fun _ => rfl) (fun _ => rfl) (fun _ => rfl) unchecked

theorem Unchecked.sql {statement : Statement Row}
    (unseen : Unseen (checkSeen accounts codeHash) (.exec statement)) :
    Unchecked accounts codeHash (Postgres.sql statement) := sql_calls (fun _ => rfl) unseen

theorem Unchecked.query {statement : Statement Row}
    (unseen : Unseen (checkSeen accounts codeHash) (.exec statement)) :
    Unchecked accounts codeHash (query statement) := .transaction (.sql unseen)

theorem Unchecked.ask {request : Request} (unseen : Unseen (checkSeen accounts codeHash) (.other request)) :
    Unchecked accounts codeHash (Postgres.ask request) := ⟨unseen, fun _ => trivial⟩

theorem unseen_select (p : Row → Bool) : Unseen (checkSeen accounts codeHash)
    (.exec (.select p)) := fun _ => rfl

theorem unseen_update {p : Row → Bool} (f : Row → Row) (others : ∀ code, p (.recoveryCode code) = false) :
    Unseen (checkSeen accounts codeHash) (.exec (.update p f)) := by
  intro reply
  cases reply with
  | error error => rfl
  | ok spent => simp [checkSeen, others]

theorem findUsers_unchecked (p : User → Bool) : Unchecked accounts codeHash (findUsers p) :=
  Unchecked.transaction (Script.Calls.bind (Unchecked.sql (unseen_select _)) fun _ =>
    Script.Calls.bind (Unchecked.sql (unseen_select _)) fun _ => trivial)

theorem checkActive_unchecked (user : User) (tenant : Option Tenant) :
    Unchecked accounts codeHash (checkActive user tenant) := by
  unfold checkActive
  split
  · trivial
  · split <;> trivial

theorem updateUser_unchecked (id : Uuid) (f : User → User) :
    Unchecked accounts codeHash (updateUser id f) := by
  refine Script.Calls.bind (Unchecked.query (unseen_update _ fun _ => rfl)) fun rows => ?_
  split <;> trivial

theorem recordFailure_unchecked (id : Uuid) (now : Time) :
    Unchecked accounts codeHash (recordFailure id now) := by
  refine Script.Calls.bind (updateUser_unchecked id _) fun user => ?_
  split
  · trivial
  · exact Script.Calls.bind (updateUser_unchecked id _) fun _ => trivial

theorem recordFailures_unchecked (free : List (User × Option Tenant)) (now : Time) :
    Unchecked accounts codeHash (free.forM fun entry => recordFailure entry.1.id now) := by
  induction free with
  | nil => trivial
  | cons entry rest ih => exact Script.Calls.bind (recordFailure_unchecked _ now) fun _ => ih

variable (crypto : Crypto)

theorem issue_unchecked (user : User) (family : Uuid) (now : Time) :
    Unchecked accounts codeHash (issue crypto user family now) := by
  refine Script.Calls.bind (Unchecked.query (unseen_select _)) fun grants => ?_
  refine Script.Calls.bind (Unchecked.ask fun _ => rfl) fun token => ?_
  refine Script.Calls.bind (Unchecked.ask fun _ => rfl) fun id => ?_
  refine Script.Calls.bind (Unchecked.transaction ?_) fun _ => trivial
  refine Script.Calls.bind (Unchecked.sql fun _ => rfl) fun owner => ?_
  split
  · trivial
  · refine Script.Calls.bind (Unchecked.sql fun _ => rfl) fun _ => ?_
    refine Script.Calls.bind (Unchecked.sql (unseen_update _ fun _ => rfl)) fun updated => ?_
    split <;> trivial

theorem loginAs_unchecked (users free : List (User × Option Tenant)) (now : Time)
    (chosen : Option (User × Option Tenant)) :
    Unchecked accounts codeHash (loginAs crypto users free now chosen) := by
  cases chosen with
  | none =>
    dsimp only [loginAs]
    split
    · trivial
    · exact Script.Calls.bind (recordFailures_unchecked free now) fun _ => trivial
  | some entry =>
    refine Script.Calls.bind (checkActive_unchecked _ _) fun _ => ?_
    split
    · trivial
    · refine Script.Calls.bind (Unchecked.ask fun _ => rfl) fun family => ?_
      exact Script.Calls.bind (issue_unchecked crypto _ family now) fun _ => trivial

theorem redeem_unchecked (user : User) (now : Time) (ok : Bool) :
    Unchecked accounts codeHash (redeem crypto user now ok) := by
  unfold redeem
  split
  · exact Script.Calls.bind (Unchecked.ask fun _ => rfl) fun family => issue_unchecked crypto user family now
  · exact Script.Calls.bind (recordFailure_unchecked user.id now) fun _ => trivial

theorem findToken_unchecked (token : String) : Unchecked accounts codeHash (findToken crypto token) :=
  Script.Calls.bind (Unchecked.query (unseen_select _)) fun _ => trivial

theorem revokeFamily_unchecked (family : Uuid) (now : Time) :
    Unchecked accounts codeHash (revokeFamily family now) :=
  Script.Calls.bind (Unchecked.query (unseen_update _ fun _ => rfl)) fun _ => trivial

theorem refresh_unchecked (token : String) : Unchecked accounts codeHash (refresh crypto token) := by
  refine Script.Calls.bind (Unchecked.ask fun _ => rfl) fun now => ?_
  refine Script.Calls.bind (findToken_unchecked crypto token) fun found => ?_
  split
  · trivial
  · next row =>
    split
    · trivial
    · refine Script.Calls.bind (Unchecked.query (unseen_update _ fun _ => rfl)) fun claimed => ?_
      split
      · exact Script.Calls.bind (revokeFamily_unchecked _ _) fun _ => trivial
      · refine Script.Calls.bind (findUsers_unchecked _) fun found => ?_
        split
        · trivial
        · exact Script.Calls.bind (checkActive_unchecked _ _) fun _ => issue_unchecked crypto _ _ _

theorem logout_unchecked (userId : Uuid) (token : String) :
    Unchecked accounts codeHash (logout crypto userId token) := by
  refine Script.Calls.bind (findToken_unchecked crypto token) fun found => ?_
  split
  · trivial
  · split
    · exact Script.Calls.bind (Unchecked.ask fun _ => rfl) fun now => revokeFamily_unchecked _ now
    · trivial

end Unchecked

/-- The passwords verified, one account after the other until it is right. -/
def compared (replies : (request : Request) → request.Reply) (password : String) :
    List (User × Option Tenant) → List (Uuid × Bool)
  | [] => []
  | entry :: rest =>
      if passes replies password entry then [(entry.1.id, true)]
        else (entry.1.id, false) :: compared replies password rest

section Seen
variable (crypto : Crypto) {rows : List Row} {visit : Visit}

theorem compared_none {replies : (request : Request) → request.Reply} {password : String}
    {entries : List (User × Option Tenant)}
    (none_ : entries.find? (passes replies password) = none) :
    compared replies password entries = entries.map fun entry => (entry.1.id, false) := by
  induction entries with
  | nil => rfl
  | cons entry rest ih =>
    rw [List.find?_cons] at none_
    split at none_
    · cases none_
    · next wrong => rw [compared, if_neg (Bool.eq_false_iff.mp wrong), ih none_, List.map_cons]

theorem findVerified_seen {replies : (request : Request) → request.Reply} {accounts : List Uuid}
    {codeHash : Option String} {password : String} {free : List (User × Option Tenant)}
    (hashed : ∀ entry ∈ free, entry.1.passwordHash.isSome = true) :
    seen replies (checkSeen accounts codeHash)
    (findVerified password free) rows = compared replies password free := by
  induction free with
  | nil => rfl
  | cons entry rest ih =>
    obtain ⟨user, tenant⟩ := entry
    obtain ⟨hash, has⟩ := Option.isSome_iff_exists.mp (hashed _ (List.mem_cons_self ..))
    have verdict : passes replies password (user, tenant) = replies (.verify user.id hash password) := by
      rw [passes, has]
      rfl
    have verifies : verifyPassword user password = ask (Request.verify user.id hash password) := by
      rw [verifyPassword, has]
    have first : seen replies (checkSeen accounts codeHash)
      (findVerified password ((user, tenant) :: rest)) rows =
        [(user.id, replies (.verify user.id hash password))] ++ seen replies (checkSeen accounts codeHash)
          (if replies (.verify user.id hash password) then pure (some (user, tenant))
              else findVerified password rest) rows := by
      rw [findVerified, verifies]
      exact (Runs.ask _).seen_bind
    rw [first, compared, verdict]
    cases replies (.verify user.id hash password) with
    | true => rfl
    | false => exact congrArg _ (ih fun other member => hashed other (List.mem_cons_of_mem _ member))

theorem mem_candidates {email : String} {entry : User × Option Tenant}
    (member : entry ∈ candidates crypto email rows) :
    entry.1.passwordHash.isSome = true := (Bool.and_eq_true_iff.mp (mem_withTenants member).2).2

theorem login_checks {email password : String} (is : visit.call = .login email password) :
    visit.checks crypto rows =
      compared visit.replies password ((candidates crypto email rows).filter (unlocked visit.now)) := by
  rw [Visit.checks, is]
  refine (seen_first fun _ => ?_).trans ?_
  · split <;> trivial
  refine (Runs.seen_next (.ask Request.now) (Unchecked.ask fun _ => rfl)).trans ?_
  refine (Runs.seen_next (query_select visit.replies _) (Unchecked.query (unseen_select _))).trans ?_
  refine (Runs.seen_next (findUsers_runs visit.replies _) (findUsers_unchecked _)).trans ?_
  refine (seen_first fun chosen => ?_).trans (findVerified_seen fun entry member => ?_)
  · refine Script.Calls.bind ?_ fun _ => loginAs_unchecked crypto _ _ _ chosen
    unfold verifyNobody
    split
    · exact Unchecked.ask fun _ => rfl
    · trivial
  · exact mem_candidates crypto (List.mem_filter.mp member).1

-- The recovery code of an account is the only one its update would spend.
theorem spends_own (apart : rows.Pairwise NoClash) {user : User} (present : user ∈ users rows)
    (code : String) :
    (((users rows).map (·.id)).filter fun account =>
      spendable crypto user code (.recoveryCode ⟨0, account, crypto.sha256 (normalizeRecovery crypto code),
        none⟩)) = [user.id] := by
  have own : (fun account => spendable crypto user code
      (.recoveryCode ⟨0, account, crypto.sha256 (normalizeRecovery crypto code), none⟩)) =
          (· == user.id) := by
    funext account
    simp [spendable]
  have distinct : ((users rows).map (·.id)).Nodup := List.pairwise_map.mpr (users_distinct apart)
  rw [own, List.filter_beq, List.count_eq_one_of_mem distinct (List.mem_map_of_mem present)]
  rfl

theorem mfaLogin_seen (apart : rows.Pairwise NoClash) {replies : (request : Request) → request.Reply}
    {user : User} {tenant : Option Tenant} {secret : String} (present : user ∈ users rows)
    (enabled : user.mfaEnabled = true)
    (sealed_ : user.mfaSecret = some secret) (free : lockedFor user (replies .now) = 0)
    (active : isActive user tenant = true) (code : String) :
    seen replies (checkSeen ((users rows).map (·.id)) (some (crypto.sha256 (normalizeRecovery crypto code))))
      (mfaLogin crypto user tenant code (replies .now)) rows =
      [(user.id, codeIsRight crypto replies rows user secret code)] := by
  have checked : Runs replies (checkActive user tenant) rows (.ok ()) rows := by
    rcases checkActive_runs replies user tenant with ⟨-, run⟩ | ⟨inactive, -⟩
    · exact run
    · cases active.symm.trans inactive
  unfold mfaLogin codeIsRight
  simp only [enabled, sealed_, free, ne_eq, not_true_eq_false, if_false]
  refine (Runs.seen_next checked (checkActive_unchecked user tenant)).trans ?_
  split
  · refine (seen_first fun ok => redeem_unchecked crypto user _ ok).trans ?_
    rfl
  · obtain ⟨after, applies, -⟩ :=
      update_applies (spend_keys (replies .now)) apart (p := spendable crypto user code)
    refine (seen_first fun used => redeem_unchecked crypto user _ _).trans ?_
    refine (seen_query (fun _ => rfl) (fun _ => rfl) (fun _ => rfl) applies).trans ?_
    rw [checkSeen, Option.toList, List.flatMap_singleton, spends_own crypto apart present,
      List.map_singleton, List.length_map]

theorem verifyMfa_unchecked {mfaToken code : String} (is : visit.call = .verifyMfa mfaToken code)
    (refused : mfaAccount crypto mfaToken visit.now rows = none) : visit.checks crypto rows = [] := by
  rw [Visit.checks, is]
  refine (seen_first fun _ => ?_).trans
    ((Runs.seen_next (.ask Request.now) (Unchecked.ask fun _ => rfl)).trans ?_)
  · trivial
  dsimp only
  cases valid : crypto.verifyMfaToken mfaToken (visit.replies .now) with
  | none => rfl
  | some sub =>
    refine (Runs.seen_next (.ret sub) trivial).trans
      ((Runs.seen_next (findUsers_runs visit.replies _) (findUsers_unchecked _)).trans ?_)
    cases found : withTenants (fun user => user.id == sub) rows with
    | nil => rfl
    | cons head rest =>
      obtain ⟨user, tenant⟩ := head
      simp only [mfaAccount, Visit.now, valid, found] at refused
      dsimp only
      split
      · next enabled secret =>
        simp only [enabled, secret] at refused
        by_cases free : lockedFor user (visit.replies .now) = 0
        · rcases checkActive_runs visit.replies user tenant with ⟨active, -⟩ | ⟨-, error, inactive⟩
          · simp [free, active] at refused
          · rw [if_neg (not_not.mpr free)]
            exact (Runs.seen_error inactive).trans (seen_unseen (checkActive_unchecked user tenant))
        · rw [if_pos free]
          rfl
      · rfl

theorem verifyMfa_checks (apart : rows.Pairwise NoClash) {mfaToken code : String}
    (is : visit.call = .verifyMfa mfaToken code) {user : User} {secret : String}
    (found : mfaAccount crypto mfaToken visit.now rows = some (user, secret)) :
    visit.checks crypto rows = [(user.id, codeIsRight crypto visit.replies rows user secret code)] := by
  obtain ⟨sub, tenant, rest, valid, list, enabled, sealed_, free, active⟩ := mfaAccount_some crypto found
  rw [Visit.checks, is]
  refine (seen_first fun _ => ?_).trans
    ((Runs.seen_next (.ask Request.now) (Unchecked.ask fun _ => rfl)).trans ?_)
  · trivial
  dsimp only
  rw [show crypto.verifyMfaToken mfaToken (visit.replies .now) = some sub from valid]
  refine (Runs.seen_next (.ret sub) trivial).trans
    ((Runs.seen_next (findUsers_runs visit.replies _) (findUsers_unchecked _)).trans ?_)
  rw [list]
  exact mfaLogin_seen crypto apart (mfaAccount_present crypto found).1 enabled sealed_ free active code

theorem refresh_checks {token : String} (is : visit.call = .refresh token) :
    visit.checks crypto rows = [] := by
  rw [Visit.checks, is]
  exact seen_unseen (Script.Calls.bind (refresh_unchecked crypto token) fun _ => trivial)

theorem logout_checks {userId : Uuid} {token : String} (is : visit.call = .logout userId token) :
    visit.checks crypto rows = [] := by
  rw [Visit.checks, is]
  exact seen_unseen (Script.Calls.bind (logout_unchecked crypto userId token) fun _ => trivial)

end Seen

end OpenEmarsys.Auth
