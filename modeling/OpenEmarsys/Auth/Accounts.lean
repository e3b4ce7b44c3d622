import OpenEmarsys.Auth.Rotation
import OpenEmarsys.Postgres.Alone

/-! The calls of `AuthService` one at a time: what each part does to the accounts. -/

set_option autoImplicit false

namespace OpenEmarsys.Auth

open Postgres

def users (rows : List Row) : List User := rows.filterMap Row.user?

@[simp] theorem mem_users {rows : List Row} {user : User} : user ∈ users rows ↔ Row.user user ∈ rows := by
  rw [users, List.mem_filterMap]
  constructor
  · rintro ⟨row, member, same⟩
    cases row with
    | user other =>
      cases same
      exact member
    | _ => cases same
  · exact fun member => ⟨_, member, rfl⟩

/-- Every account has been changed like this, and no tenant. -/
structure Changes (change : User → User) (rows after : List Row) : Prop where
  apart : after.Pairwise NoClash
  users : ∀ user, user ∈ users after ↔ ∃ old ∈ users rows, change old = user
  tenants : ∀ tenant, Row.tenant tenant ∈ after ↔ Row.tenant tenant ∈ rows

def Row.isAccount : Row → Bool
  | .user _ => true
  | .tenant _ => true
  | _ => false

def only (id : Uuid) (f : User → User) (user : User) : User := if user.id = id then f user else user

def among (ids : List Uuid) (f : User → User) (user : User) : User := if user.id ∈ ids then f user else user

theorem users_apart {rows : List Row} (apart : rows.Pairwise NoClash) {user other : User}
    (here : user ∈ users rows) (there : other ∈ users rows) (same : user.id = other.id) : user = other := by
  have equal := eq_of_primary apart (mem_users.mp here) (mem_users.mp there) (by simp [primary, same])
  exact Row.user.inj equal

namespace Changes

variable {rows middle after : List Row} {change : User → User}

theorem refl (apart : rows.Pairwise NoClash) : Changes id rows rows :=
  ⟨apart, fun user => by simp, fun _ => .rfl⟩

theorem trans {later : User → User} (first : Changes change rows middle)
    (second : Changes later middle after) :
    Changes (later ∘ change) rows after := by
  refine ⟨second.apart, fun user => ?_, fun tenant => (second.tenants tenant).trans (first.tenants tenant)⟩
  rw [second.users]
  constructor
  · rintro ⟨between, member, rfl⟩
    obtain ⟨old, present, rfl⟩ := (first.users between).mp member
    exact ⟨old, present, rfl⟩
  · rintro ⟨old, present, rfl⟩
    exact ⟨change old, (first.users _).mpr ⟨old, present, rfl⟩, rfl⟩

theorem congr {other : User → User} (changes : Changes change rows after)
    (same : ∀ user ∈ Auth.users rows, change user = other user) :
    Changes other rows after := by
  refine ⟨changes.apart, fun user => (changes.users user).trans ?_, changes.tenants⟩
  exact exists_congr fun old => and_congr_right fun member => by rw [same old member]

end Changes

theorem mapToken_keys (f : RefreshToken → RefreshToken) (row : Row) :
    keys (Row.mapToken f row) = keys row := by
  cases row <;> rfl

theorem mapToken_account (f : RefreshToken → RefreshToken) (row : Row) :
    (Row.mapToken f row).isAccount = row.isAccount := by
  cases row <;> rfl

theorem isToken_others (p : RefreshToken → Bool) (row : Row) (is : Row.isToken p row = true) :
    row.isAccount = false := by
  cases row with
  | user other => cases is
  | tenant other => cases is
  | _ => rfl

theorem mapUser_keys (f : User → User) (row : Row) : keys (Row.mapUser f row) = keys row := by
  cases row <;> rfl

theorem filter_account {rows : List Row} (apart : rows.Pairwise NoClash) {user : User}
    (present : user ∈ users rows) :
    rows.filter (Row.isUser fun other => other.id == user.id) = [.user user] := by
  have each : ∀ row ∈ rows.filter (Row.isUser fun other => other.id == user.id), row = .user user := by
    intro row member
    obtain ⟨here, matches_⟩ := List.mem_filter.mp member
    cases row with
    | user other =>
      exact congrArg Row.user (users_apart apart (mem_users.mpr here) present
        (by simpa [Row.isUser] using matches_))
    | _ => cases matches_
  have there : Row.user user ∈ rows.filter (Row.isUser fun other => other.id == user.id) :=
    List.mem_filter.mpr ⟨mem_users.mp present, by simp [Row.isUser]⟩
  have distinct := apart.filter (Row.isUser fun other => other.id == user.id)
  generalize rows.filter _ = found at each there distinct
  cases found with
  | nil => cases there
  | cons head rest =>
    have isHead := each head (List.mem_cons_self ..)
    cases rest with
    | nil => rw [isHead]
    | cons next others =>
      have clear := (List.pairwise_cons.mp distinct).1 next (List.mem_cons_self ..)
      rw [isHead, each next (by simp), NoClash, clash_refl] at clear
      cases clear

theorem accounts_kept {p : Row → Bool} {f : Row → Row} {rows after : List Row}
    (rewritten : Rewritten p f rows after)
    (others : ∀ row, p row = true → row.isAccount = false) (kept : ∀ row, (f row).isAccount = row.isAccount)
    (row : Row) (is : row.isAccount = true) : row ∈ after ↔ row ∈ rows := by
  rw [rewritten.mem]
  constructor
  · rintro (⟨here, -⟩ | ⟨old, -, matches_, rfl⟩)
    · exact here
    · rw [kept, others old matches_] at is
      cases is
  · refine fun here => .inl ⟨here, ?_⟩
    rw [Bool.eq_false_iff]
    intro matches_
    cases is.symm.trans (others row matches_)

section Parts
variable (replies : (request : Request) → request.Reply) {rows : List Row}

theorem query_select (p : Row → Bool) : Runs replies (query (.select p)) rows (.ok (rows.filter p)) rows :=
  Runs.transaction (.sql rfl)

variable (apart : rows.Pairwise NoClash)
include apart

theorem query_others {p : Row → Bool} {f : Row → Row} (keyed : ∀ row, keys (f row) = keys row)
    (others : ∀ row, p row = true → row.isAccount = false) (kept : ∀ row, (f row).isAccount = row.isAccount) :
    ∃ after, Runs replies (query (.update p f)) rows (.ok ((rows.filter p).map f)) after ∧
    Changes id rows after := by
  obtain ⟨after, applies, rewritten⟩ := update_applies keyed apart
  have same := accounts_kept rewritten others kept
  refine ⟨after, Runs.transaction (.sql applies), rewritten.apart, fun user => ?_, fun tenant => same _ rfl⟩
  simp [same (.user user) rfl]

theorem update_account {user : User} (present : user ∈ users rows) (f : User → User)
    (keeps : ∀ user, (f user).id = user.id) :
    ∃ after, (Statement.update (Row.isUser fun other => other.id == user.id) (Row.mapUser f)).apply rows =
      .ok ([.user (f user)], after) ∧ Changes (only user.id f) rows after := by
  have same : ∀ other, Row.mapUser f (.user other) = .user (f other) := fun other => by
    simp only [Row.mapUser, ← keeps other]
  obtain ⟨after, applies, rewritten⟩ := update_applies (mapUser_keys f) apart
  rw [filter_account apart present, List.map_singleton, same] at applies
  have tenants : ∀ tenant, Row.tenant tenant ∈ after ↔ Row.tenant tenant ∈ rows := by
    intro tenant
    rw [rewritten.mem]
    constructor
    · rintro (⟨here, -⟩ | ⟨old, -, matches_, is⟩)
      · exact here
      · cases old with
        | user old => cases is
        | _ => cases matches_
    · exact fun here => .inl ⟨here, rfl⟩
  refine ⟨after, applies, rewritten.apart, fun changed => ?_, tenants⟩
  simp only [mem_users, rewritten.mem, only]
  constructor
  · rintro (⟨here, other⟩ | ⟨old, here, matches_, is⟩)
    · refine ⟨changed, here, if_neg ?_⟩
      simpa [Row.isUser] using other
    · cases old with
      | user old =>
        rw [same] at is
        refine ⟨old, here, ?_⟩
        rw [if_pos (by simpa [Row.isUser] using matches_)]
        exact Row.user.inj is
      | _ => cases matches_
  · rintro ⟨old, here, rfl⟩
    by_cases mine : old.id = user.id
    · rw [if_pos mine]
      exact .inr ⟨.user old, here, by simp [Row.isUser, mine], same old⟩
    · rw [if_neg mine]
      exact .inl ⟨here, by simp [Row.isUser, mine]⟩

theorem updateUser_runs {user : User} (present : user ∈ users rows) (f : User → User)
    (keeps : ∀ user, (f user).id = user.id) :
    ∃ after, Runs replies (updateUser user.id f) rows (.ok (f user)) after ∧ Changes
    (only user.id f) rows after := by
  obtain ⟨after, applies, changes⟩ := update_account apart present f keeps
  exact ⟨after, Runs.bind (Runs.transaction (.sql applies)) (.ret _), changes⟩

/-- What a failed check does to the account it is recorded for. -/
def failedOnce (now : Time) (user : User) : User :=
  if user.failedLogins + 1 < MAX_FAILURES then { user with failedLogins := user.failedLogins + 1 }
  else { user with failedLogins := 0, lockedUntil := some (now + LOCK_MS) }

def loggedIn (now : Time) (user : User) : User :=
  { user with failedLogins := 0, lockedUntil := none, lastLoginAt := some now }

theorem recordFailure_runs {user : User} (present : user ∈ users rows) (now : Time) :
    ∃ after, Runs replies (recordFailure user.id now) rows
        (if user.failedLogins + 1 < MAX_FAILURES then .ok () else .error (.locked (LOCK_MS / 1000))) after ∧
      Changes (only user.id (failedOnce now)) rows after := by
  obtain ⟨middle, counts, first⟩ := updateUser_runs replies apart present
    (fun user => { user with failedLogins := user.failedLogins + 1 }) fun _ => rfl
  by_cases few : user.failedLogins + 1 < MAX_FAILURES
  · rw [if_pos few]
    refine ⟨middle, Runs.bind counts ?_, first.congr fun other there => ?_⟩
    · rw [if_pos few]
      exact .ret ()
    · simp only [only]
      split
      · next same =>
        rw [users_apart apart there present same, failedOnce, if_pos few]
      · rfl
  · rw [if_neg few]
    have counted : { user with failedLogins := user.failedLogins + 1 } ∈ users middle :=
      (first.users _).mpr ⟨user, present, if_pos rfl⟩
    obtain ⟨after, locks, second⟩ := updateUser_runs replies first.apart counted
      (fun user => { user with failedLogins := 0, lockedUntil := some (now + LOCK_MS) }) fun _ => rfl
    refine ⟨after, Runs.bind counts ?_, (first.trans second).congr fun other there => ?_⟩
    · rw [if_neg few]
      exact Runs.bind locks (.fail _)
    · simp only [only, Function.comp]
      by_cases same : other.id = user.id
      · rw [users_apart apart there present same]
        simp [failedOnce, few]
      · simp [same]

-- Failures are recorded for one account after the other, up to the first that locks one.
theorem recordFailures_runs {checked : List (User × Option Tenant)}
    (present : ∀ entry ∈ checked, entry.1 ∈ users rows)
    (distinct : checked.Pairwise fun entry other => entry.1.id ≠ other.1.id) (now : Time)
    (few : ∀ entry ∈ checked.dropLast, entry.1.failedLogins + 1 < MAX_FAILURES) :
    ∃ result after, Runs replies (checked.forM fun (user, _) => recordFailure user.id now) rows result after ∧
      Changes (among (checked.map (·.1.id)) (failedOnce now)) rows after := by
  induction checked generalizing rows with
  | nil => exact ⟨_, rows, Runs.ret _, (Changes.refl apart).congr fun _ _ => by simp [among]⟩
  | cons head rest ih =>
    obtain ⟨later, others⟩ := List.pairwise_cons.mp distinct
    obtain ⟨middle, records, first⟩ :=
      recordFailure_runs replies apart (present head (List.mem_cons_self ..)) now
    by_cases last : rest = []
    · subst last
      have changes : Changes (among ([head].map (·.1.id)) (failedOnce now)) rows middle :=
        first.congr fun user _ => by simp [only, among]
      split at records
      · exact ⟨_, middle, Runs.bind records (.ret ()), changes⟩
      · exact ⟨_, middle, Runs.bind_error records, changes⟩
    · have early : head.1.failedLogins + 1 < MAX_FAILURES :=
        few head (by simp [List.dropLast_cons_of_ne_nil last])
      rw [if_pos early] at records
      have stays : ∀ entry ∈ rest, entry.1 ∈ users middle := by
        intro entry member
        refine (first.users _).mpr ⟨entry.1, present entry (List.mem_cons_of_mem _ member), if_neg ?_⟩
        exact (later entry member).symm
      obtain ⟨result, after, run, second⟩ := ih first.apart stays others fun entry member => few entry
        (by simp [List.dropLast_cons_of_ne_nil last, member])
      refine ⟨result, after, Runs.bind records run, (first.trans second).congr fun user here => ?_⟩
      -- the id of the head stays its own, and the rest have others
      have same : (failedOnce now user).id = user.id := by
        unfold failedOnce
        split <;> rfl
      have notRest : user.id = head.1.id → user.id ∉ rest.map (·.1.id) := by
        intro isHead member
        obtain ⟨entry, inRest, sameId⟩ := List.mem_map.mp member
        exact later entry inRest (isHead.symm.trans sameId.symm)
      by_cases isHead : user.id = head.1.id
      · have changed : only head.1.id (failedOnce now) user = failedOnce now user := if_pos isHead
        simp only [Function.comp, changed, among, same, List.map_cons, List.mem_cons]
        rw [if_neg (notRest isHead), if_pos (.inl isHead)]
      · have kept : only head.1.id (failedOnce now) user = user := if_neg isHead
        simp only [Function.comp, kept, among, List.map_cons, List.mem_cons, isHead, false_or]

theorem issue_runs (crypto : Crypto) {user : User} (present : user ∈ users rows) (family : Uuid)
    (now : Time) :
    ∃ result after, Runs replies (issue crypto user family now) rows result after ∧
      ((∃ pair, result = .ok pair) ∧ Changes (only user.id (loggedIn now)) rows after ∨
        (∃ error, result = .error error) ∧ after = rows) := by
  let token : RefreshToken := ⟨replies .rowId, user.id, user.tenantId, family,
    crypto.sha256 (replies .randomBytes),
    now + REFRESH_TTL_MS, none, none⟩
  have owner :
    RunsIn replies (sql (.shareKey (Row.isUser fun owner => owner.id == user.id)) : AuthScript (List Row))
    rows
      (.ok [.user user]) rows := .sql (by rw [← filter_account apart present]; rfl)
  by_cases clashes : rows.any (clash (.refreshToken token)) = true
  · refine ⟨.error (.sql .unique), rows, ?_, .inr ⟨⟨_, rfl⟩, rfl⟩⟩
    refine Runs.bind (query_select replies _) (Runs.bind (.ask _) (Runs.bind (.ask _) (Runs.bind_error ?_)))
    have refused : RunsIn replies (sql (.insert [.refreshToken token] false) : AuthScript (List Row)) rows
        (.error (ClientError.sql .unique)) rows := .sql_error (by simp [Statement.apply, insertRows, clashes])
    exact Runs.transaction_error (RunsIn.bind owner (RunsIn.bind_error refused))
  · have free : ∀ row ∈ rows, clash row (.refreshToken token) = false := by
      intro row member
      rw [Bool.eq_false_iff, clash_comm]
      exact fun meets => clashes (List.any_eq_true.mpr ⟨row, member, meets⟩)
    have apartNext : (rows ++ [Row.refreshToken token]).Pairwise NoClash := by
      refine List.pairwise_append.mpr ⟨apart, List.pairwise_singleton .., fun row member other is => ?_⟩
      rw [List.mem_singleton.mp is]
      exact free row member
    have still : user ∈ users (rows ++ [Row.refreshToken token]) := by
      rw [mem_users] at present ⊢
      exact List.mem_append_left _ present
    obtain ⟨after, applies, changes⟩ := update_account apartNext still (loggedIn now) fun _ => rfl
    have inserts : RunsIn replies (sql (.insert [.refreshToken token] false) : AuthScript (List Row)) rows
        (.ok [.refreshToken token]) (rows ++ [.refreshToken token]) :=
      .sql (by simp [Statement.apply, insertRows, clashes])
    have run : ∃ pair, Runs replies (issue crypto user family now) rows (.ok pair) after := by
      refine ⟨_, Runs.bind (query_select replies _) (Runs.bind (.ask _)
        (Runs.bind (.ask _) (Runs.seq ?_ (.ret _))))⟩
      exact Runs.transaction (RunsIn.bind owner (RunsIn.bind inserts (RunsIn.bind (.sql applies) (.ret ()))))
    obtain ⟨pair, run⟩ := run
    refine ⟨.ok pair, after, run, .inl ⟨⟨pair, rfl⟩, changes.apart, fun changed => ?_, fun tenant => ?_⟩⟩
    · rw [changes.users]
      simp
    · rw [changes.tenants]
      simp

end Parts

/-! ## The calls -/

/-- What `findUsers` finds. -/
def withTenants (p : User → Bool) (rows : List Row) : List (User × Option Tenant) :=
  let found := users (rows.filter (Row.isUser p))
  let tenants := rows.filter fun
    | .tenant tenant => found.any fun user => user.tenantId == some tenant.id
    | _ => false
  found.map fun user => (user, (tenants.filterMap Row.tenant?).find?
    fun tenant => user.tenantId == some tenant.id)

theorem mem_withTenants {p : User → Bool} {rows : List Row} {entry : User × Option Tenant}
    (member : entry ∈ withTenants p rows) :
    entry.1 ∈ users rows ∧ p entry.1 = true := by
  obtain ⟨user, found, rfl⟩ := List.mem_map.mp member
  obtain ⟨here, matches_⟩ := List.mem_filter.mp (mem_users.mp found)
  exact ⟨mem_users.mpr here, matches_⟩

theorem users_distinct {rows : List Row} (apart : rows.Pairwise NoClash) :
    (users rows).Pairwise fun user other => user.id ≠ other.id := by
  refine List.Pairwise.filterMap _ (fun row other clear user same user' same' equal => ?_) apart
  cases row <;> cases same
  cases other <;> cases same'
  have meets : clash (Row.user user) (.user user') = true :=
    clash_of_sameRow (sameRow_iff.mpr (congrArg IndexKey.user equal))
  rw [NoClash, meets] at clear
  cases clear

theorem withTenants_distinct (p : User → Bool) {rows : List Row} (apart : rows.Pairwise NoClash) :
    (withTenants p rows).Pairwise fun entry other => entry.1.id ≠ other.1.id := by
  rw [withTenants, List.pairwise_map]
  exact users_distinct (apart.filter (Row.isUser p))

theorem withTenants_tenant {p : User → Bool} {rows : List Row} (apart : rows.Pairwise NoClash)
    {entry : User × Option Tenant}
    (member : entry ∈ withTenants p rows) {tenant : Tenant} (stored : Row.tenant tenant ∈ rows)
    (own : entry.1.tenantId = some tenant.id) : entry.2 = some tenant := by
  obtain ⟨user, found, rfl⟩ := List.mem_map.mp member
  dsimp only at own ⊢
  have listed : tenant ∈ (rows.filter fun
      | .tenant tenant => (users (rows.filter (Row.isUser p))).any fun user => user.tenantId == some tenant.id
      | _ => false).filterMap Row.tenant? := by
    refine List.mem_filterMap.mpr ⟨.tenant tenant, List.mem_filter.mpr ⟨stored, ?_⟩, rfl⟩
    exact List.any_eq_true.mpr ⟨user, found, by simp [own]⟩
  have finds := (List.find?_isSome (p := fun tenant : Tenant => user.tenantId == some tenant.id)).mpr ⟨tenant,
    listed, by simp [own]⟩
  obtain ⟨other, is⟩ := Option.isSome_iff_exists.mp finds
  rw [is]
  have sameId : other.id = tenant.id := by
    have matches_ := List.find?_some is
    rw [own, beq_iff_eq, Option.some_inj] at matches_
    exact matches_.symm
  obtain ⟨row, member, same⟩ := List.mem_filterMap.mp (List.mem_of_find?_eq_some is)
  cases row with
  | tenant row =>
    cases same
    have equal := eq_of_primary apart (List.mem_filter.mp member).1 stored (by simp [primary, sameId])
    rw [Row.tenant.inj equal]
  | _ => cases same

/-- What `checkActive` asks for. -/
def isActive (user : User) (tenant : Option Tenant) : Bool :=
  user.status == .active && !tenant.any fun tenant => tenant.status == .suspended

/-- Whether a row is the suspended tenant of this account. -/
def suspends (user : User) : Row → Bool
  | .tenant tenant => user.tenantId == some tenant.id && tenant.status == .suspended
  | _ => false

/-- The accounts that have this email, in any tenant, and a password. -/
def candidates (crypto : Crypto) (email : String) (rows : List Row) : List (User × Option Tenant) :=
  let ids := rows.filter (Row.isUser fun user => crypto.lower user.email == crypto.lower email)
  withTenants (fun user => (users ids).any (fun found => found.id == user.id) &&
    user.passwordHash.isSome) rows

def unlocked (now : Time) (entry : User × Option Tenant) : Bool := lockedFor entry.1 now == 0

def passes (replies : (request : Request) → request.Reply) (password : String)
    (entry : User × Option Tenant) : Bool :=
  entry.1.passwordHash.any fun hash => replies (.verify entry.1.id hash password)

def spendable (crypto : Crypto) (user : User) (code : String) : Row → Bool
  | .recoveryCode row =>
    row.userId == user.id && row.codeHash == crypto.sha256 (normalizeRecovery crypto code) &&
      row.usedAt.isNone
  | _ => false

def spend (now : Time) : Row → Row
  | .recoveryCode row => .recoveryCode { row with usedAt := some now }
  | row => row

theorem spend_keys (now : Time) (row : Row) : keys (spend now row) = keys row := by
  cases row <;> rfl

theorem spend_account (now : Time) (row : Row) : (spend now row).isAccount = row.isAccount := by
  cases row <;> rfl

theorem spendable_others (crypto : Crypto) (user : User) (code : String) (row : Row)
    (is : spendable crypto user code row = true) :
    row.isAccount = false := by
  cases row with
  | user other => cases is
  | tenant other => cases is
  | _ => rfl

/-- Whether the MFA code of an account is right: a TOTP code or an unused recovery code. -/
def codeIsRight (crypto : Crypto) (replies : (request : Request) → request.Reply) (rows : List Row)
    (user : User) (secret code : String) : Bool :=
  if code.toList.length == 6 && code.toList.all Char.isDigit then replies (.checkTotp user.id secret code)
  else (rows.filter (spendable crypto user code)).length == 1

section Calls
variable (crypto : Crypto) (replies : (request : Request) → request.Reply) {rows : List Row}

theorem findUsers_runs (p : User → Bool) : Runs replies (findUsers p) rows (.ok (withTenants p rows)) rows :=
  Runs.transaction (RunsIn.bind (.sql rfl) (RunsIn.bind (.sql rfl) (.ret _)))

theorem checkActive_runs (user : User) (tenant : Option Tenant) :
    (isActive user tenant = true ∧ Runs replies (checkActive user tenant) rows (.ok ()) rows) ∨
      isActive user tenant = false ∧ ∃ error, Runs replies (checkActive user tenant) rows
      (.error error) rows := by
  unfold checkActive isActive
  split
  · next inactive => exact .inr ⟨by simp [inactive], _, .fail _⟩
  · next active =>
    split
    · next suspended => exact .inr ⟨by simp [suspended], _, .fail _⟩
    · next open_ => exact .inl ⟨by simp_all, .ret ()⟩

theorem verifyNobody_runs (free : List (User × Option Tenant)) (password : String) :
    ∃ told, Runs replies (verifyNobody free password) rows (.ok told) rows := by
  unfold verifyNobody
  split
  · exact ⟨_, .ask (Request.verifyDummy password)⟩
  · exact ⟨_, .ret false⟩

theorem findVerified_runs (password : String) (free : List (User × Option Tenant)) :
    Runs replies (findVerified password free) rows (.ok (free.find? (passes replies password))) rows := by
  induction free with
  | nil => exact .ret none
  | cons entry rest ih =>
    obtain ⟨user, tenant⟩ := entry
    have checks : Runs replies (verifyPassword user password) rows
        (.ok (passes replies password (user, tenant))) rows := by
      unfold verifyPassword passes
      cases user.passwordHash with
      | some hash => exact .ask (Request.verify user.id hash password)
      | none => exact .ret false
    refine Runs.bind checks ?_
    rw [List.find?_cons]
    cases passes replies password (user, tenant) with
    | true => exact .ret _
    | false => exact ih

def loginAs (users free : List (User × Option Tenant)) (now : Time) :
    Option (User × Option Tenant) → AuthScript LoginResult
  | none =>
      match users.find? fun (user, _) => lockedFor user now != 0 with
      | some (locked, _) => throw (.locked (lockedFor locked now))
      | none => do
          free.forM fun (user, _) => recordFailure user.id now
          throw invalidCredentials
  | some (user, tenant) => do
      checkActive user tenant
      if user.mfaEnabled then return .mfa_required (crypto.signMfa user.id user.tenantId now)
      else
        let family ← ask .randomUUID
        let tokens ← issue crypto user family now
        return .pair tokens

theorem login_reads {email password : String} {result : Except AuthError LoginResult} {after : List Row}
    (tail : Runs replies (loginAs crypto (candidates crypto email rows)
      ((candidates crypto email rows).filter (unlocked (replies .now)))
      (replies .now)
      (((candidates crypto email rows).filter (unlocked (replies .now))).find? (passes replies password)))
      rows result after) :
    Runs replies (login crypto email password) rows result after := by
  refine Runs.bind (.ask _) (Runs.bind (query_select replies _) (Runs.bind (findUsers_runs replies _) ?_))
  refine Runs.bind (findVerified_runs replies password _) ?_
  obtain ⟨told, asks⟩ :=
    verifyNobody_runs replies ((candidates crypto email rows).filter (unlocked (replies .now))) password
  exact Runs.bind asks tail

/-- A call that may log an account in: it answers with tokens and resets the account, or changes nothing. -/
def LogsIn (user : User) (now : Time) (rows : List Row) (result : Except AuthError (Option TokenPair))
    (after : List Row) : Prop :=
  (∃ pair, result = .ok (some pair)) ∧ Changes (only user.id (loggedIn now)) rows after ∨
    (∀ pair, result ≠ .ok (some pair)) ∧ after = rows

variable (apart : rows.Pairwise NoClash)
include apart

theorem issue_logsIn {user : User} (present : user ∈ users rows) (family : Uuid) (now : Time) :
    ∃ result after, Runs replies (issue crypto user family now) rows result after ∧ LogsIn user now rows
    (result.map some) after := by
  obtain ⟨result, after, run, ends⟩ := issue_runs replies apart crypto present family now
  refine ⟨result, after, run, ends.imp (fun ⟨⟨pair, same⟩, changes⟩ =>
    ⟨⟨pair, by rw [same]; rfl⟩, changes⟩) ?_⟩
  rintro ⟨⟨error, same⟩, kept⟩
  refine ⟨fun pair absurd_ => ?_, kept⟩
  rw [same] at absurd_
  cases absurd_

theorem login_matched (email password : String) {entry : User × Option Tenant}
    (chosen : ((candidates crypto email rows).filter (unlocked (replies .now))).find?
      (passes replies password) = some entry) :
    ∃ result after, Runs replies (Auth.code crypto (.login email password)) rows result after ∧
      LogsIn entry.1 (replies .now) rows result after := by
  have present : entry.1 ∈ users rows :=
    (mem_withTenants (List.mem_filter.mp (List.mem_of_find?_eq_some chosen)).1).1
  have reads : ∀ {result after}, Runs replies (do
      checkActive entry.1 entry.2
      if entry.1.mfaEnabled then return LoginResult.mfa_required (crypto.signMfa entry.1.id entry.1.tenantId (replies .now))
      else
        let family ← ask .randomUUID
        let tokens ← issue crypto entry.1 family (replies .now)
        return LoginResult.pair tokens) rows result after →
      Runs replies (login crypto email password) rows result after := by
    intro result after tail
    refine login_reads crypto replies ?_
    rw [chosen]
    exact tail
  rcases checkActive_runs replies entry.1 entry.2 with ⟨-, active⟩ | ⟨-, error, inactive⟩
  · by_cases mfa : entry.1.mfaEnabled = true
    · have pending : Runs replies (login crypto email password) rows
          (.ok (.mfa_required (crypto.signMfa entry.1.id entry.1.tenantId (replies .now)))) rows := by
        refine reads (Runs.seq active ?_)
        rw [if_pos mfa]
        exact .ret _
      exact ⟨.ok none, rows, Runs.bind pending (.ret none), .inr ⟨fun pair => by simp, rfl⟩⟩
    · obtain ⟨result, after, run, ends⟩ :=
        issue_logsIn crypto replies apart present (replies .randomUUID) (replies .now)
      have issues : ∀ {result' after'}, Runs replies (do
          let tokens ← issue crypto entry.1 (replies .randomUUID) (replies .now)
          return LoginResult.pair tokens) rows result' after' →
          Runs replies (login crypto email password) rows result' after' := by
        intro result' after' tail
        refine reads (Runs.seq active ?_)
        rw [if_neg mfa]
        exact Runs.bind (.ask Request.randomUUID) tail
      cases result with
      | ok pair =>
        have done : Runs replies (login crypto email password) rows (.ok (.pair pair)) after :=
          issues (Runs.bind run (.ret _))
        exact ⟨.ok (some pair), after, Runs.bind done (.ret _), ends⟩
      | error error => exact ⟨.error error, after, Runs.bind_error (issues (Runs.bind_error run)), ends⟩
  · refine ⟨.error error, rows, Runs.bind_error (reads (Runs.bind_error inactive)),
      .inr ⟨fun pair => by simp, rfl⟩⟩

omit apart in
theorem login_locked (email password : String)
    (unmatched : ((candidates crypto email rows).filter (unlocked (replies .now))).find?
      (passes replies password) = none)
    (locked : (candidates crypto email rows).all (unlocked (replies .now)) = false) :
    ∃ error, Runs replies (Auth.code crypto (.login email password)) rows (.error error) rows := by
  have found : ((candidates crypto email rows).find? fun (user, _) =>
    lockedFor user (replies .now) != 0).isSome = true := by
    rw [List.find?_isSome]
    rw [← Bool.not_eq_true, List.all_eq_true] at locked
    push Not at locked
    obtain ⟨entry, member, is⟩ := locked
    exact ⟨entry, member, by simpa [unlocked] using is⟩
  obtain ⟨entry, is⟩ := Option.isSome_iff_exists.mp found
  refine ⟨.locked (lockedFor entry.1 (replies .now)), Runs.bind_error (login_reads crypto replies ?_)⟩
  rw [unmatched, loginAs, is]
  exact .fail _

theorem login_failed (email password : String)
    (unmatched : ((candidates crypto email rows).filter (unlocked (replies .now))).find?
      (passes replies password) = none)
    (free : (candidates crypto email rows).all (unlocked (replies .now)) = true)
    (few : ∀ entry ∈ (candidates crypto email rows).dropLast, entry.1.failedLogins + 1 < MAX_FAILURES) :
    ∃ error after, Runs replies (Auth.code crypto (.login email password)) rows (.error error) after ∧
      Changes (among ((candidates crypto email rows).map (·.1.id))
        (failedOnce (replies .now))) rows after := by
  have absent : ((candidates crypto email rows).find? fun (user, _) =>
    lockedFor user (replies .now) != 0) = none := by
    rw [List.find?_eq_none]
    intro entry member
    have is := List.all_eq_true.mp free entry member
    simpa [unlocked] using is
  have all : (candidates crypto email rows).filter (unlocked (replies .now)) = candidates crypto email rows :=
    List.filter_eq_self.mpr (List.all_eq_true.mp free)
  obtain ⟨result, after, run, changes⟩ :=
    recordFailures_runs replies apart (fun entry member => (mem_withTenants member).1)
    (withTenants_distinct _ apart) (replies .now) few
  have reads : ∀ {result' after'}, Runs replies (do
      (candidates crypto email rows).forM fun (user, _) => recordFailure user.id (replies .now)
      throw invalidCredentials : AuthScript LoginResult) rows result' after' →
      Runs replies (login crypto email password) rows result' after' := by
    intro result' after' tail
    refine login_reads crypto replies ?_
    rw [unmatched, loginAs, absent, all]
    exact tail
  have fails : ∃ error, Runs replies (login crypto email password) rows (.error error) after := by
    cases result with
    | ok value => exact ⟨invalidCredentials, reads (Runs.seq run (.fail _))⟩
    | error error => exact ⟨error, reads (Runs.bind_error run)⟩
  obtain ⟨error, fails⟩ := fails
  exact ⟨error, after, Runs.bind_error fails, changes⟩

def mfaAccount (mfaToken : String) (now : Time) (rows : List Row) : Option (User × String) :=
  match crypto.verifyMfaToken mfaToken now with
  | none => none
  | some sub =>
      match withTenants (fun user => user.id == sub) rows with
      | [] => none
      | (user, tenant) :: _ =>
          match user.mfaEnabled, user.mfaSecret with
          | true, some secret => if lockedFor user now == 0 && isActive user tenant
            then some (user, secret) else none
          | _, _ => none

omit apart in
theorem mfaAccount_some {mfaToken : String} {now : Time} {user : User} {secret : String}
    (found : mfaAccount crypto mfaToken now rows = some (user, secret)) :
    ∃ sub tenant rest, crypto.verifyMfaToken mfaToken now = some sub ∧
      withTenants (fun user => user.id == sub) rows = (user, tenant) :: rest ∧ user.mfaEnabled = true ∧
      user.mfaSecret = some secret ∧ lockedFor user now = 0 ∧ isActive user tenant = true := by
  unfold mfaAccount at found
  split at found
  · cases found
  · next sub valid =>
    split at found
    · cases found
    · next head tenant rest list =>
      split at found
      · next enabled sealed_ =>
        split at found
        · next open_ =>
          cases found
          rw [Bool.and_eq_true, beq_iff_eq] at open_
          exact ⟨sub, tenant, rest, valid, list, enabled, sealed_, open_⟩
        · cases found
      · cases found

omit apart in
theorem mfaAccount_present {mfaToken : String} {now : Time} {user : User} {secret : String}
    (found : mfaAccount crypto mfaToken now rows = some (user, secret)) :
    user ∈ users rows ∧ lockedFor user now = 0 := by
  obtain ⟨sub, tenant, rest, -, list, -, -, free, -⟩ := mfaAccount_some crypto found
  exact ⟨(mem_withTenants (list ▸ List.mem_cons_self ..)).1, free⟩

/-- What follows from the check of an MFA code. -/
def redeem (user : User) (now : Time) (ok : Bool) : AuthScript TokenPair :=
  if ok then do
    let family ← ask .randomUUID
    issue crypto user family now
  else do
    recordFailure user.id now
    throw (.unauthorized "Invalid code")

def mfaLogin (user : User) (tenant : Option Tenant) (code : String) (now : Time) : AuthScript TokenPair :=
  match user.mfaEnabled, user.mfaSecret with
  | true, some secret => do
      if lockedFor user now ≠ 0 then throw (.locked (lockedFor user now))
      checkActive user tenant
      if code.toList.length == 6 && code.toList.all Char.isDigit then do
        let ok ← ask (Request.checkTotp user.id secret code)
        redeem crypto user now ok
      else do
        let used ← query (.update (spendable crypto user code) (spend now))
        redeem crypto user now (used.length == 1)
  | _, _ => throw (.unauthorized "Invalid or expired MFA token")

omit apart in
theorem verifyMfa_reads (mfaToken code : String) {sub : Uuid} {user : User} {tenant : Option Tenant}
    {rest : List (User × Option Tenant)}
    (valid : crypto.verifyMfaToken mfaToken (replies .now) = some sub)
    (found : withTenants (fun user => user.id == sub) rows = (user, tenant) :: rest)
    {result : Except AuthError TokenPair} {after : List Row}
    (tail : Runs replies (mfaLogin crypto user tenant code (replies .now)) rows result after) :
    Runs replies (verifyMfa crypto mfaToken code) rows result after := by
  refine Runs.bind (.ask _) ?_
  dsimp only
  rw [valid]
  refine Runs.bind (.ret sub) (Runs.bind (findUsers_runs replies _) ?_)
  rw [found]
  exact tail

omit apart in
theorem verifyMfa_refused (mfaToken code : String)
    (refused : mfaAccount crypto mfaToken (replies .now) rows = none) :
    ∃ error, Runs replies (Auth.code crypto (.verifyMfa mfaToken code)) rows (.error error) rows := by
  cases valid : crypto.verifyMfaToken mfaToken (replies .now) with
  | none =>
    refine ⟨.unauthorized "Invalid or expired MFA token", Runs.bind_error (Runs.bind (.ask _) ?_)⟩
    dsimp only
    rw [valid]
    exact Runs.bind_error (.fail _)
  | some sub =>
    cases found : withTenants (fun user => user.id == sub) rows with
    | nil =>
      refine ⟨.unauthorized "Invalid or expired MFA token", Runs.bind_error (Runs.bind (.ask _) ?_)⟩
      dsimp only
      rw [valid]
      refine Runs.bind (.ret sub) (Runs.bind (findUsers_runs replies _) ?_)
      rw [found]
      exact .fail _
    | cons head rest =>
      obtain ⟨user, tenant⟩ := head
      have ends : ∃ error, Runs replies (mfaLogin crypto user tenant code (replies .now)) rows
          (.error error) rows := by
        simp only [mfaAccount, valid, found] at refused
        unfold mfaLogin
        split
        · next enabled secret =>
          simp only [enabled, secret] at refused
          by_cases free : lockedFor user (replies .now) = 0
          · rw [if_neg (not_not.mpr free)]
            rcases checkActive_runs replies user tenant with ⟨active, -⟩ | ⟨-, error, inactive⟩
            · simp [free, active] at refused
            · exact ⟨error, Runs.bind_error inactive⟩
          · rw [if_pos free]
            exact ⟨_, .fail _⟩
        · exact ⟨_, .fail _⟩
      obtain ⟨error, ends⟩ := ends
      exact ⟨error, Runs.bind_error (verifyMfa_reads crypto replies mfaToken code valid found ends)⟩

/-- How a check of an MFA code ends, for better or worse. -/
def Redeems (user : User) (now : Time) (ok : Bool) (rows : List Row)
    (result : Except AuthError (Option TokenPair)) (after : List Row) : Prop :=
  if ok then ∃ middle, Changes id rows middle ∧ LogsIn user now middle result after
  else (∃ error, result = .error error) ∧ Changes (only user.id (failedOnce now)) rows after

omit apart in
theorem redeem_runs {middle : List Row} (spent : Changes id rows middle) {user : User}
    (present : user ∈ users rows) (now : Time) (ok : Bool) :
    ∃ result after, Runs replies (redeem crypto user now ok) middle result after ∧
      Redeems user now ok rows (result.map some) after := by
  have still : user ∈ users middle := (spent.users user).mpr ⟨user, present, rfl⟩
  cases ok with
  | true =>
    obtain ⟨result, after, run, ends⟩ :=
      issue_logsIn crypto replies spent.apart still (replies .randomUUID) now
    exact ⟨result, after, Runs.bind (.ask Request.randomUUID) run, middle, spent, ends⟩
  | false =>
    obtain ⟨after, records, changes⟩ := recordFailure_runs replies spent.apart still now
    split at records
    · exact ⟨_, after, Runs.seq records (.fail _), ⟨_, rfl⟩, spent.trans changes⟩
    · exact ⟨_, after, Runs.bind_error records, ⟨_, rfl⟩, spent.trans changes⟩

theorem spend_runs (user : User) (code : String) (now : Time) :
    ∃ used after, Runs replies (query (.update (spendable crypto user code) (spend now))) rows
    (.ok used) after ∧
      used.length = (rows.filter (spendable crypto user code)).length ∧ Changes id rows after := by
  obtain ⟨after, run, changes⟩ :=
    query_others replies apart (spend_keys now) (spendable_others crypto user code) (spend_account now)
  exact ⟨_, after, run, by rw [List.length_map], changes⟩

theorem verifyMfa_checked (mfaToken code : String) {user : User} {secret : String}
    (found : mfaAccount crypto mfaToken (replies .now) rows = some (user, secret)) :
    ∃ result after, Runs replies (Auth.code crypto (.verifyMfa mfaToken code)) rows result after ∧
      Redeems user (replies .now) (codeIsRight crypto replies rows user secret code) rows result after := by
  have present := (mfaAccount_present crypto found).1
  obtain ⟨sub, tenant, rest, valid, list, enabled, sealed_, free, active⟩ := mfaAccount_some crypto found
  have login :
    ∃ result after, Runs replies (mfaLogin crypto user tenant code (replies .now)) rows result after ∧
      Redeems user (replies .now) (codeIsRight crypto replies rows user secret code) rows
          (result.map some) after := by
    have checked : Runs replies (checkActive user tenant) rows (.ok ()) rows := by
      rcases checkActive_runs replies user tenant with ⟨-, run⟩ | ⟨inactive, -⟩
      · exact run
      · cases active.symm.trans inactive
    unfold mfaLogin codeIsRight
    simp only [enabled, sealed_, free, ne_eq, not_true_eq_false, if_false]
    split
    · obtain ⟨result, after, run, ends⟩ := redeem_runs crypto replies (.refl apart) present (replies .now)
        (replies (.checkTotp user.id secret code))
      exact ⟨result, after, Runs.seq checked (Runs.bind (.ask (Request.checkTotp user.id secret code)) run),
        ends⟩
    · obtain ⟨used, middle, spends, count, spent⟩ := spend_runs crypto replies apart user code (replies .now)
      obtain ⟨result, after, run, ends⟩ :=
        redeem_runs crypto replies spent present (replies .now) (used.length == 1)
      refine ⟨result, after, Runs.seq checked (Runs.bind spends run), ?_⟩
      rw [← count]
      exact ends
  obtain ⟨result, after, run, ends⟩ := login
  exact ⟨_, after, (verifyMfa_reads crypto replies mfaToken code valid list run).map some, ends⟩

theorem revokeFamily_runs (family : Uuid) (now : Time) :
    ∃ after, Runs replies (revokeFamily family now) rows (.ok ()) after ∧ Changes id rows after := by
  obtain ⟨after, run, changes⟩ :=
    query_others replies apart (mapToken_keys _) (isToken_others _) (mapToken_account _)
  exact ⟨after, Runs.bind run (.ret ()), changes⟩

omit apart in
theorem findToken_runs (rows : List Row) (token : String) :
    ∃ found, Runs replies (findToken crypto token) rows (.ok found) rows ∧
      ∀ row, found = some row → Row.refreshToken row ∈ rows ∧ row.tokenHash = crypto.sha256 token := by
  refine ⟨_, Runs.bind (query_select replies _) (.ret _), fun row found => ?_⟩
  obtain ⟨stored, member, same⟩ := List.exists_of_findSome?_eq_some found
  obtain ⟨here, matches_⟩ := List.mem_filter.mp member
  cases stored with
  | refreshToken stored =>
    cases same
    exact ⟨here, by simpa [Row.isToken] using matches_⟩
  | _ => cases same

theorem logout_runs (userId : Uuid) (token : String) :
    ∃ result after, Runs replies (Auth.code crypto (.logout userId token)) rows result after ∧
      (∀ pair, result ≠ .ok (some pair)) ∧ Changes id rows after := by
  obtain ⟨found, finds, -⟩ := findToken_runs crypto replies rows token
  have run : ∃ after, Runs replies (logout crypto userId token) rows (.ok ()) after ∧
      Changes id rows after := by
    cases found with
    | none => exact ⟨rows, Runs.bind finds (.ret ()), .refl apart⟩
    | some row =>
      by_cases mine : row.userId = userId
      · obtain ⟨after, revokes, changes⟩ := revokeFamily_runs replies apart row.familyId (replies .now)
        refine ⟨after, Runs.bind finds ?_, changes⟩
        dsimp only
        rw [if_pos mine]
        exact Runs.bind (.ask Request.now) revokes
      · refine ⟨rows, Runs.bind finds ?_, .refl apart⟩
        dsimp only
        rw [if_neg mine]
        exact .ret ()
  obtain ⟨after, run, changes⟩ := run
  exact ⟨.ok none, after, Runs.seq run (.ret none), fun pair => by simp, changes⟩

/-- Whether `refresh` gets as far as issuing tokens for this account. -/
def refreshes (token : String) (now : Time) (rows : List Row) (user : User) : Bool :=
  rows.any (Row.isToken fun row => row.tokenHash == crypto.sha256 token && now < row.expiresAt &&
    row.rotatedAt.isNone &&
    row.revokedAt.isNone && row.userId == user.id) &&
  user.status == .active && !rows.any (suspends user)

/-- How a refresh ends: an account is logged in, or none is changed. -/
def Refreshed (token : String) (now : Time) (rows : List Row) (result : Except AuthError (Option TokenPair))
    (after : List Row) : Prop :=
  (∀ pair, result ≠ .ok (some pair)) ∧ Changes id rows after ∨
      ∃ user ∈ users rows, refreshes crypto token now rows user = true ∧
      ∃ middle, Changes id rows middle ∧ LogsIn user now middle result after

theorem claim_runs {row : RefreshToken} (stored : Row.refreshToken row ∈ rows) (now : Time) :
    ∃ claimed after, Runs replies (query (.update
        (Row.isToken fun token => token.id == row.id && token.rotatedAt.isNone && token.revokedAt.isNone)
        (Row.mapToken fun token => { token with rotatedAt := some now }))) rows (.ok claimed) after ∧
      Changes id rows after ∧ (claimed.isEmpty = false → row.rotatedAt = none ∧ row.revokedAt = none) := by
  obtain ⟨after, run, changes⟩ :=
    query_others replies apart (mapToken_keys _) (isToken_others _) (mapToken_account _)
  refine ⟨_, after, run, changes, fun some_ => ?_⟩
  rw [List.isEmpty_eq_false_iff_exists_mem] at some_
  obtain ⟨_, member⟩ := some_
  obtain ⟨old, hit, -⟩ := List.mem_map.mp member
  obtain ⟨here, matches_⟩ := List.mem_filter.mp hit
  cases old with
  | refreshToken old =>
    simp only [Row.isToken, Bool.and_eq_true, beq_iff_eq, Option.isNone_iff_eq_none] at matches_
    have same : Row.refreshToken old = .refreshToken row :=
      eq_of_primary apart here stored (by simp [primary, matches_.1.1])
    cases same
    exact ⟨matches_.1.2, matches_.2⟩
  | _ => cases matches_

/-- A refresh once its token has been found unexpired. -/
def rotate (row : RefreshToken) (now : Time) : AuthScript TokenPair := do
  let claimed ← query (.update
    (Row.isToken fun token => token.id == row.id && token.rotatedAt.isNone && token.revokedAt.isNone)
    (Row.mapToken fun token => { token with rotatedAt := some now }))
  if claimed.isEmpty then
    revokeFamily row.familyId now
    throw (.unauthorized "Invalid refresh token")
  else
    match ← findUsers fun user => user.id == row.userId with
    | [] => throw .notFound
    | (user, tenant) :: _ =>
        checkActive user tenant
        issue crypto user row.familyId now

theorem rotate_runs (row : RefreshToken) (token : String) (stored : Row.refreshToken row ∈ rows)
    (hash : row.tokenHash = crypto.sha256 token) (unexpired : replies .now < row.expiresAt) :
    ∃ result after, Runs replies (rotate crypto row (replies .now)) rows result after ∧
      Refreshed crypto token (replies .now) rows (result.map some) after := by
  have refused : ∀ error after, Runs replies (rotate crypto row (replies .now)) rows (.error error) after →
      Changes id rows after →
        ∃ result after, Runs replies (rotate crypto row (replies .now)) rows result after ∧
        Refreshed crypto token (replies .now) rows (result.map some) after := fun error after run changes =>
    ⟨.error error, after, run, .inl ⟨fun pair => by simp [Except.map], changes⟩⟩
  obtain ⟨claimed, middle, claims, changes, live⟩ := claim_runs replies apart stored (replies .now)
  cases empty : claimed.isEmpty with
  | true =>
    obtain ⟨after, revokes, revoked⟩ := revokeFamily_runs replies changes.apart row.familyId (replies .now)
    refine refused (.unauthorized "Invalid refresh token") after (Runs.bind claims ?_) (changes.trans revoked)
    rw [if_pos empty]
    exact Runs.seq revokes (.fail _)
  | false =>
    have finds : ∀ {result after}, Runs replies (do
        match ← findUsers fun user => user.id == row.userId with
        | [] => throw .notFound
        | (user, tenant) :: _ =>
            checkActive user tenant
            issue crypto user row.familyId (replies .now)) middle result after →
        Runs replies (rotate crypto row (replies .now)) rows result after := by
      intro result after tail
      refine Runs.bind claims ?_
      rw [if_neg (Bool.eq_false_iff.mp empty)]
      exact tail
    cases list : withTenants (fun user => user.id == row.userId) middle with
    | nil =>
      refine refused .notFound middle (finds (Runs.bind (findUsers_runs replies _) ?_)) changes
      rw [list]
      exact .fail _
    | cons head rest =>
      obtain ⟨user, tenant⟩ := head
      have entry : (user, tenant) ∈ withTenants (fun user => user.id == row.userId) middle :=
        list ▸ List.mem_cons_self ..
      obtain ⟨present, owns⟩ := mem_withTenants entry
      rcases checkActive_runs replies user tenant with ⟨active, checks⟩ | ⟨-, error, inactive⟩
      · obtain ⟨result, after, issues, ends⟩ :=
          issue_logsIn crypto replies changes.apart present row.familyId (replies .now)
        refine ⟨result, after, finds (Runs.bind (findUsers_runs replies _) ?_),
          .inr ⟨user, ?_, ?_, middle, changes, ends⟩⟩
        · rw [list]
          exact Runs.seq checks issues
        · obtain ⟨_, here, rfl⟩ := (changes.users user).mp present
          exact here
        · have claimable := live empty
          have open_ : rows.any (suspends user) = false := by
            rw [← Bool.not_eq_true, List.any_eq_true]
            rintro ⟨suspended, here, is⟩
            cases suspended with
            | tenant suspended =>
              simp only [suspends, Bool.and_eq_true, beq_iff_eq] at is
              have same := withTenants_tenant changes.apart entry ((changes.tenants suspended).mpr here) is.1
              dsimp only at same
              simp [isActive, same, is.2] at active
            | _ => cases is
          simp only [isActive, Bool.and_eq_true, beq_iff_eq] at active owns
          rw [refreshes, open_]
          have token : rows.any (Row.isToken fun row => row.tokenHash == crypto.sha256 token &&
            replies .now < row.expiresAt &&
              row.rotatedAt.isNone && row.revokedAt.isNone && row.userId == user.id) = true :=
            List.any_eq_true.mpr ⟨.refreshToken row, stored,
              by simp [Row.isToken, hash, unexpired, claimable, owns]⟩
          simp [token, active.1]
      · refine refused error middle (finds (Runs.bind (findUsers_runs replies _) ?_)) changes
        rw [list]
        exact Runs.bind_error inactive

theorem refresh_runs (token : String) :
    ∃ result after, Runs replies (Auth.code crypto (.refresh token)) rows result after ∧
      Refreshed crypto token (replies .now) rows result after := by
  obtain ⟨found, finds, stored⟩ := findToken_runs crypto replies rows token
  have refused : ∀ error, Runs replies (refresh crypto token) rows (.error error) rows →
        ∃ result after, Runs replies (Auth.code crypto (.refresh token)) rows result after ∧
        Refreshed crypto token (replies .now) rows result after := fun error run =>
    ⟨.error error, rows, Runs.bind_error run, .inl ⟨fun pair => by simp, .refl apart⟩⟩
  cases found with
  | none =>
    exact refused (.unauthorized "Invalid refresh token") (Runs.bind (.ask _) (Runs.bind finds (.fail _)))
  | some row =>
    obtain ⟨here, hash⟩ := stored row rfl
    by_cases expired : row.expiresAt ≤ replies .now
    · refine refused (.unauthorized "Invalid refresh token") (Runs.bind (.ask _) (Runs.bind finds ?_))
      dsimp only
      rw [if_pos expired]
      exact Runs.bind_error (.fail _)
    · obtain ⟨result, after, run, ends⟩ :=
        rotate_runs crypto replies apart row token here hash (Nat.lt_of_not_le expired)
      have reads : Runs replies (refresh crypto token) rows result after := by
        refine Runs.bind (.ask _) (Runs.bind finds ?_)
        dsimp only
        rw [if_neg expired]
        exact run
      exact ⟨_, after, reads.map some, ends⟩

end Calls

end OpenEmarsys.Auth
