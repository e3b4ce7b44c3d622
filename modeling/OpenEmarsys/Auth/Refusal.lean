import OpenEmarsys.Auth.Lockout
import OpenEmarsys.Postgres.Faults

/-! What a refused refresh costs: the token is rotated before anything else is checked.

The rotation commits on its own, nine calls into `refresh`; the user, the tenant and the
new row come after it.
-/

set_option autoImplicit false

namespace OpenEmarsys.Auth

open Postgres

/-- The calls of `refresh` up to the commit of the rotation, which is the last of them. -/
def rotationCalls : Nat := 9

/-- All calls of a `refresh` that is granted. -/
def refreshCalls : Nat := 29

/-- Nothing stands against a refresh: the user is active, the tenant not suspended, and the
id and the hash of the new row are free. -/
def admits (crypto : Crypto) (replies : (request : Request) → request.Reply) (row : RefreshToken)
    (rows : List Row) : Bool :=
  rows.any (Row.isUser fun user => user.id == row.userId && user.status == .active &&
    !rows.any (suspends user)) &&
    !rows.any (Row.isToken fun other => other.id == replies .rowId ||
      other.tokenHash == crypto.sha256 (replies .randomBytes))

/-- The token is as it was, and as long as it is there a refresh that nothing stands against is granted. -/
structure Unspent (crypto : Crypto) (token : String) (row : RefreshToken) (after : List Row) : Prop where
  kept : Row.refreshToken row ∈ after
  granted : ∀ (replies : (request : Request) → request.Reply) (later : List Row), later.Pairwise NoClash →
    Row.refreshToken row ∈ later → replies .now < row.expiresAt → admits crypto replies row later = true →
    ∃ pair, (alone replies (refresh crypto token) later).1 = .ok pair

def Row.token? : Row → Option RefreshToken
  | .refreshToken row => some row
  | _ => none

structure Rotated (row : RefreshToken) (now : Time) (rows after : List Row) : Prop where
  apart : after.Pairwise NoClash
  accounts : ∀ other : Row, other.isAccount = true → (other ∈ after ↔ other ∈ rows)
  tokens : ∀ other, Row.refreshToken other ∈ after ↔
    (Row.refreshToken other ∈ rows ∧ other.id ≠ row.id) ∨ other = { row with rotatedAt := some now }

section
variable (crypto : Crypto) (replies : (request : Request) →
  request.Reply) {rows : List Row} (apart : rows.Pairwise NoClash)

theorem query_steps {statement : Statement Row} {found after : List Row}
    (applies : statement.apply rows = .ok (found, after)) :
    Steps replies rows 4 (query statement) ⟨rows, none⟩ (.ret found) ⟨after, none⟩ :=
  .transaction (.sql applies)

include apart

theorem findToken_steps {row : RefreshToken} (stored : Row.refreshToken row ∈ rows) {token : String}
    (hash : row.tokenHash = crypto.sha256 token) :
    Steps replies rows 4 (findToken crypto token) ⟨rows, none⟩ (.ret (some row)) ⟨rows, none⟩ := by
  have steps : ∃ found, Steps replies rows 4 (findToken crypto token) ⟨rows, none⟩ (.ret found) ⟨rows, none⟩ ∧
      found = some row := by
    refine ⟨_, (query_steps replies rfl).next (.refl _ _), ?_⟩
    show (rows.filter _).findSome? Row.token? = some row
    have some_ :
        ((rows.filter (Row.isToken fun row => row.tokenHash == crypto.sha256 token)).findSome?
        Row.token?).isSome = true :=
      List.findSome?_isSome_iff.mpr ⟨.refreshToken row,
        List.mem_filter.mpr ⟨stored, by simp [Row.isToken, hash]⟩, rfl⟩
    obtain ⟨other, is⟩ := Option.isSome_iff_exists.mp some_
    refine is.trans ?_
    obtain ⟨hit, member, same⟩ := List.exists_of_findSome?_eq_some is
    obtain ⟨here, matches_⟩ := List.mem_filter.mp member
    cases hit with
    | refreshToken hit =>
      cases same
      have meets : clash (Row.refreshToken other) (.refreshToken row) = true := by
        have hashes : other.tokenHash = crypto.sha256 token := by simpa [Row.isToken] using matches_
        exact clash_iff.mpr ⟨.tokenHash row.tokenHash, by simp [keys, Indexed.uniques, hashes, hash]⟩
      rw [Row.refreshToken.inj (eq_of_clash apart here stored meets)]
    | _ => cases same
  obtain ⟨found, run, rfl⟩ := steps
  exact run

theorem rotation_steps {row : RefreshToken} (stored : Row.refreshToken row ∈ rows)
    (rotatable : row.rotatedAt = none)
    (unrevoked : row.revokedAt = none) (now : Time) :
    ∃ claimed after, Steps replies rows 4 (query (.update
        (Row.isToken fun token => token.id == row.id && token.rotatedAt.isNone && token.revokedAt.isNone)
        (Row.mapToken fun token => { token with rotatedAt := some now }))) ⟨rows,
        none⟩ (.ret claimed) ⟨after, none⟩ ∧
      claimed.isEmpty = false ∧ Rotated row now rows after := by
  obtain ⟨after, applies, rewritten⟩ := update_applies (p := Row.isToken fun token =>
    token.id == row.id && token.rotatedAt.isNone && token.revokedAt.isNone) (mapToken_keys
      fun token => { token with rotatedAt := some now }) apart
  refine ⟨_, after, query_steps replies applies, ?_, rewritten.apart,
    fun other account => ?_, fun other => ?_⟩
  · rw [List.isEmpty_eq_false_iff_exists_mem]
    exact ⟨_, List.mem_map_of_mem (List.mem_filter.mpr ⟨stored, by simp [Row.isToken, rotatable, unrevoked]⟩)⟩
  · exact accounts_kept rewritten (isToken_others _) (mapToken_account _) other account
  · have own {old : RefreshToken} (here : Row.refreshToken old ∈ rows) (same : old.id = row.id) : old = row :=
      Row.refreshToken.inj (eq_of_primary apart here stored (by simp [primary, same]))
    rw [rewritten.mem]
    constructor
    · rintro (⟨here, unmatched⟩ | ⟨old, here, matches_, is⟩)
      · refine .inl ⟨here, fun same => ?_⟩
        rw [own here same] at unmatched
        simp [Row.isToken, rotatable, unrevoked] at unmatched
      · cases old with
        | refreshToken old =>
          simp only [Row.isToken, Bool.and_eq_true, beq_iff_eq] at matches_
          rw [own here matches_.1.1] at is
          exact .inr (Row.refreshToken.inj is).symm
        | _ => cases matches_
    · rintro (⟨here, differs⟩ | rfl)
      · exact .inl ⟨here, by simp [Row.isToken, differs]⟩
      · exact .inr ⟨.refreshToken row, stored, by simp [Row.isToken, rotatable, unrevoked], rfl⟩

/-- What `refresh` does once the token is rotated. -/
def grant (row : RefreshToken) (now : Time) : AuthScript TokenPair := do
  match ← findUsers fun user => user.id == row.userId with
  | [] => throw .notFound
  | (user, tenant) :: _ =>
      checkActive user tenant
      issue crypto user row.familyId now

def issued (user : User) (row : RefreshToken) : RefreshToken :=
  ⟨replies .rowId, user.id, user.tenantId, row.familyId, crypto.sha256 (replies .randomBytes),
    replies .now + REFRESH_TTL_MS, none, none⟩

omit apart in
theorem findUsers_steps (p : User → Bool) :
    Steps replies rows 6 (findUsers p) ⟨rows, none⟩ (.ret (withTenants p rows)) ⟨rows, none⟩ :=
  .transaction ((Steps.sql rfl).next ((Steps.sql rfl).next (.refl _ _)))

omit apart in
theorem withTenants_stored {p : User → Bool} {user : User} {tenant : Tenant}
    (entry : (user, some tenant) ∈ withTenants p rows) :
    Row.tenant tenant ∈ rows ∧ user.tenantId = some tenant.id := by
  obtain ⟨owner, -, same⟩ := List.mem_map.mp entry
  obtain ⟨rfl, found⟩ := Prod.mk.inj same
  have owns := List.find?_some found
  obtain ⟨stored, member, is⟩ := List.mem_filterMap.mp (List.mem_of_find?_eq_some found)
  cases stored with
  | tenant stored =>
    cases is
    exact ⟨(List.mem_filter.mp member).1, by simpa using owns⟩
  | _ => cases is

theorem isActive_eq {p : User → Bool} {user : User} {tenant : Option Tenant}
    (entry : (user, tenant) ∈ withTenants p rows) :
    isActive user tenant = (user.status == .active && !rows.any (suspends user)) := by
  have tenants : tenant.any (fun tenant => tenant.status == .suspended) = rows.any (suspends user) := by
    rw [Bool.eq_iff_iff, List.any_eq_true]
    constructor
    · intro suspended
      cases tenant with
      | none => cases suspended
      | some tenant =>
        obtain ⟨stored, owns⟩ := withTenants_stored entry
        exact ⟨.tenant tenant, stored, by simpa [suspends, owns] using suspended⟩
    · rintro ⟨stored, here, is⟩
      cases stored with
      | tenant stored =>
        simp only [suspends, Bool.and_eq_true, beq_iff_eq] at is
        have same : tenant = some stored := withTenants_tenant apart entry here is.1
        simp [same, is.2]
      | _ => cases is
  rw [isActive, tenants]

theorem admits_eq {row : RefreshToken} {user : User} {tenant : Option Tenant}
    (entry : (user, tenant) ∈ withTenants (fun user => user.id == row.userId) rows) :
    admits crypto replies row rows =
    (isActive user tenant && !rows.any (clash (.refreshToken (issued crypto replies user row)))) := by
  obtain ⟨present, owns⟩ := mem_withTenants entry
  replace owns : user.id = row.userId := by simpa using owns
  dsimp only at present
  have keys : ∀ other : Row, clash (.refreshToken (issued crypto replies user row)) other =
      Row.isToken (fun other => other.id == replies .rowId ||
          other.tokenHash == crypto.sha256 (replies .randomBytes)) other := by
    intro other
    cases other with
    | refreshToken other =>
      rw [Bool.eq_iff_iff]
      simp only [clash, Postgres.keys, primary, Indexed.uniques, Row.isToken, issued]
      simp only [List.any_cons, List.any_nil, Bool.or_false, Bool.or_eq_true, decide_eq_true_iff,
        List.mem_cons, List.not_mem_nil,
        or_false, reduceCtorEq, false_or, beq_iff_eq]
      exact or_congr ⟨fun same => (IndexKey.refreshToken.inj same).symm,
        fun same => congrArg IndexKey.refreshToken same.symm⟩
        ⟨fun same => (IndexKey.tokenHash.inj same).symm, fun same => congrArg IndexKey.tokenHash same.symm⟩
    | _ => rfl
  have account : rows.any (Row.isUser fun user => user.id == row.userId && user.status == .active &&
    !rows.any (suspends user)) =
      (user.status == .active && !rows.any (suspends user)) := by
    rw [Bool.eq_iff_iff, List.any_eq_true]
    constructor
    · rintro ⟨stored, here, is⟩
      cases stored with
      | user stored =>
        simp only [Row.isUser, Bool.and_eq_true, beq_iff_eq] at is
        have same := users_apart apart (mem_users.mpr here) present (is.1.1.trans owns.symm)
        rw [same] at is
        simp [is.1.2, is.2]
      | _ => cases is
    · intro is
      refine ⟨.user user, mem_users.mp present, ?_⟩
      simp only [Row.isUser, owns, beq_self_eq_true, Bool.true_and]
      exact is
  rw [admits, account, isActive_eq apart entry, funext keys]

theorem issue_steps {row : RefreshToken} {user : User} (present : user ∈ users rows)
    (free : rows.any (clash (.refreshToken (issued crypto replies user row))) = false) :
    ∃ pair after, Steps replies rows 14 (issue crypto user row.familyId (replies .now)) ⟨rows, none⟩
    (.ret pair) ⟨after, none⟩ ∧
      ∀ other, Row.refreshToken other ∈ after ↔ Row.refreshToken other ∈ rows ∨
      other = issued crypto replies user row := by
  let token := issued crypto replies user row
  have apartNext : (rows ++ [Row.refreshToken token]).Pairwise NoClash := by
    refine List.pairwise_append.mpr ⟨apart, List.pairwise_singleton .., fun other member _ is => ?_⟩
    rw [List.mem_singleton.mp is, NoClash, clash_comm, Bool.eq_false_iff]
    exact fun meets => Bool.eq_false_iff.mp free (List.any_eq_true.mpr ⟨other, member, meets⟩)
  have still : user ∈ users (rows ++ [Row.refreshToken token]) := by
    rw [mem_users] at present ⊢
    exact List.mem_append_left _ present
  obtain ⟨after, applies, rewritten⟩ := update_applies (p := Row.isUser fun other => other.id == user.id)
    (mapUser_keys (loggedIn (replies .now))) apartNext
  rw [filter_account apartNext still] at applies
  have owner :
    Steps replies rows 2 (sql (.shareKey (Row.isUser fun owner => owner.id == user.id)) : AuthScript
    (List Row))
      ⟨rows, some rows⟩ (.ret [.user user]) ⟨rows, some rows⟩ :=
        .sql (by rw [← filter_account apart present]; rfl)
  have inserts : Steps replies rows 2 (sql (.insert [.refreshToken token] false) : AuthScript (List Row))
      ⟨rows, some rows⟩ (.ret [.refreshToken token]) ⟨rows, some (rows ++ [.refreshToken token])⟩ :=
    .sql (by simp [Statement.apply, insertRows, token, free])
  refine ⟨_, after, (query_steps replies rfl).next ((Steps.ask Request.randomBytes).next
    ((Steps.ask Request.rowId).next
    (Steps.next (.transaction (owner.next (inserts.next ((Steps.sql applies).next (.refl (.ret ()) _)))))
      (.refl _ _)))), fun other => ?_⟩
  rw [rewritten.mem, List.mem_append, List.mem_singleton, Row.refreshToken.injEq]
  constructor
  · rintro (⟨here, -⟩ | ⟨old, -, matches_, is⟩)
    · exact here
    · cases old with
      | user old => cases is
      | _ => cases matches_
  · exact fun here => .inl ⟨here, rfl⟩

theorem issue_refused {row : RefreshToken} {user : User} (present : user ∈ users rows)
    (taken : rows.any (clash (.refreshToken (issued crypto replies user row))) = true) :
    ∃ count error, Steps replies rows count (issue crypto user row.familyId (replies .now)) ⟨rows, none⟩
    (.fail error) ⟨rows, none⟩ := by
  have owner :
    Steps replies rows 2 (sql (.shareKey (Row.isUser fun owner => owner.id == user.id)) : AuthScript
    (List Row))
      ⟨rows, some rows⟩ (.ret [.user user]) ⟨rows, some rows⟩ :=
        .sql (by rw [← filter_account apart present]; rfl)
  have refused :
    Steps replies rows 2 (sql (.insert [.refreshToken (issued crypto replies user row)]
    false) : AuthScript (List Row))
      ⟨rows, some rows⟩ (.fail (ClientError.sql .unique)) ⟨rows, some rows⟩ :=
        .sql_error (by simp [Statement.apply, insertRows, taken])
  exact ⟨_, _, (query_steps replies rfl).next ((Steps.ask Request.randomBytes).next
    ((Steps.ask Request.rowId).next
    (Steps.throws (.transaction_error (owner.next refused.throws)))))⟩

omit apart in
theorem checkActive_steps (rows : List Row) (user : User) (tenant : Option Tenant) :
    (isActive user tenant = true ∧
      Steps replies rows 0 (checkActive user tenant) ⟨rows, none⟩ (.ret ()) ⟨rows, none⟩) ∨
        isActive user tenant = false ∧
        ∃ error, Steps replies rows 0 (checkActive user tenant) ⟨rows, none⟩ (.fail error) ⟨rows, none⟩ := by
  unfold checkActive isActive
  split
  · next inactive => exact .inr ⟨by simp [inactive], _, .refl _ _⟩
  · next active =>
    split
    · next suspended => exact .inr ⟨by simp [suspended], _, .refl _ _⟩
    · next open_ => exact .inl ⟨by simp_all, .refl _ _⟩

-- Once the token is rotated, the refresh is granted, or it throws and leaves everything as it is.
theorem grant_steps (row : RefreshToken) :
    (admits crypto replies row rows = true ∧ ∃ pair after user,
      Steps replies rows 20 (grant crypto row (replies .now))
        ⟨rows, none⟩ (.ret pair) ⟨after, none⟩ ∧
        ∀ other, Row.refreshToken other ∈ after ↔ Row.refreshToken other ∈ rows ∨
        other = issued crypto replies user row) ∨
      (admits crypto replies row rows = false ∧ ∃ count error,
        Steps replies rows count (grant crypto row (replies .now))
        ⟨rows, none⟩ (.fail error) ⟨rows, none⟩) := by
  have finds {count all : Nat} {rest : AuthScript TokenPair} {last : Alone Row}
      (tail : Steps replies rows count (match withTenants (fun user => user.id == row.userId) rows with
        | [] => throw .notFound
        | (user, tenant) :: _ => do
            checkActive user tenant
            issue crypto user row.familyId (replies .now)) ⟨rows, none⟩ rest last) (sum : 6 + count = all) :
      Steps replies rows all (grant crypto row (replies .now)) ⟨rows, none⟩ rest last :=
    (findUsers_steps replies _).next tail sum
  cases list : withTenants (fun user => user.id == row.userId) rows with
  | nil =>
    rw [list] at finds
    refine .inr ⟨?_, 6, .notFound, finds (.refl _ _) rfl⟩
    rw [Bool.eq_false_iff]
    intro is
    rw [admits, Bool.and_eq_true, List.any_eq_true] at is
    obtain ⟨⟨stored, here, matches_⟩, -⟩ := is
    cases stored with
    | user user =>
      simp only [Row.isUser, Bool.and_eq_true] at matches_
      have found : user ∈ users (rows.filter (Row.isUser fun user => user.id == row.userId)) :=
        mem_users.mpr (List.mem_filter.mpr ⟨here, matches_.1.1⟩)
      have entry : _ ∈ withTenants (fun user => user.id == row.userId) rows := List.mem_map_of_mem found
      rw [list] at entry
      cases entry
    | _ => cases matches_
  | cons head rest =>
    obtain ⟨user, tenant⟩ := head
    rw [list] at finds
    have entry : (user, tenant) ∈ withTenants (fun user => user.id == row.userId) rows :=
      list ▸ List.mem_cons_self ..
    have present := (mem_withTenants entry).1
    rw [admits_eq crypto replies apart entry]
    rcases checkActive_steps replies rows user tenant with ⟨active, checks⟩ | ⟨inactive, error, checks⟩
    · cases taken : rows.any (clash (.refreshToken (issued crypto replies user row))) with
      | false =>
        obtain ⟨pair, after, issues, tokens⟩ := issue_steps crypto replies apart present taken
        exact .inl ⟨by simp [active], pair, after, user, finds (checks.next issues) rfl, tokens⟩
      | true =>
        obtain ⟨count, error, issues⟩ := issue_refused crypto replies apart present taken
        exact .inr ⟨by simp, _, error, finds (checks.next issues) rfl⟩
    · exact .inr ⟨by simp [inactive], _, error, finds checks.throws rfl⟩

theorem admits_rotated {row : RefreshToken} (stored : Row.refreshToken row ∈ rows) {now : Time}
    {middle : List Row} (rotated : Rotated row now rows middle) :
    admits crypto replies row middle = admits crypto replies row rows := by
  have accounts {p : Row → Bool} (only : ∀ other : Row, p other = true → other.isAccount = true) :
      middle.any p = rows.any p := by
    rw [Bool.eq_iff_iff, List.any_eq_true, List.any_eq_true]
    exact exists_congr fun other => and_congr_left fun is => rotated.accounts other (only other is)
  have suspended (user : User) : middle.any (suspends user) = rows.any (suspends user) := by
    refine accounts fun other is => ?_
    cases other with
    | tenant _ => rfl
    | _ => cases is
  have owner (p : User → Bool) : middle.any (Row.isUser p) = rows.any (Row.isUser p) := by
    refine accounts fun other is => ?_
    cases other with
    | user _ => rfl
    | _ => cases is
  have taken : middle.any (Row.isToken fun other => other.id == replies .rowId ||
    other.tokenHash == crypto.sha256 (replies .randomBytes)) =
      rows.any (Row.isToken fun other => other.id == replies .rowId ||
          other.tokenHash == crypto.sha256 (replies .randomBytes)) := by
    rw [Bool.eq_iff_iff, List.any_eq_true, List.any_eq_true]
    constructor
    · rintro ⟨other, here, is⟩
      cases other with
      | refreshToken other =>
        rcases (rotated.tokens other).mp here with ⟨before, -⟩ | rfl
        · exact ⟨_, before, is⟩
        · exact ⟨_, stored, is⟩
      | _ => cases is
    · rintro ⟨other, here, is⟩
      cases other with
      | refreshToken other =>
        by_cases same : other.id = row.id
        · have equal : other = row :=
            Row.refreshToken.inj (eq_of_primary apart here stored (by simp [primary, same]))
          exact ⟨_, (rotated.tokens _).mpr (.inr rfl), equal ▸ is⟩
        · exact ⟨_, (rotated.tokens other).mpr (.inl ⟨here, same⟩), is⟩
      | _ => cases is
  simp only [admits, suspended, owner, taken]

/-! ## The whole call -/

variable {row : RefreshToken} (stored : Row.refreshToken row ∈ rows) (rotatable : row.rotatedAt = none)
  (unrevoked : row.revokedAt = none)
  (unexpired : replies .now < row.expiresAt) {token : String} (hash : row.tokenHash = crypto.sha256 token)
include stored rotatable unrevoked unexpired hash

-- The calls that rotate the token, and what is left of `refresh` then.
theorem refresh_steps :
    ∃ middle, Steps replies rows rotationCalls (refresh crypto token) ⟨rows, none⟩
    (grant crypto row (replies .now)) ⟨middle, none⟩ ∧
      Rotated row (replies .now) rows middle := by
  obtain ⟨claimed, middle, rotates, some_, rotated⟩ :=
    rotation_steps replies apart stored rotatable unrevoked (replies .now)
  refine ⟨middle, (Steps.ask Request.now).next ((findToken_steps crypto replies apart stored hash).next
    (?_ : Steps replies rows 4 _ _ _ _)), rotated⟩
  dsimp only
  rw [if_neg (Nat.not_le_of_lt unexpired)]
  refine rotates.next (?_ : Steps replies rows 0 _ _ _ _)
  rw [if_neg (Bool.eq_false_iff.mp some_)]
  exact .refl _ _

variable (fault : Option Nat) (error : AuthError)

-- A refresh that outlives the rotation is granted, or it throws and the token is gone.
theorem refresh_outcome (late : ∀ calls ∈ fault, rotationCalls ≤ calls) :
    (admits crypto replies row rows = true ∧ (∀ calls ∈ fault, refreshCalls < calls) ∧
        ∃ pair, (alone replies (faulty error fault (refresh crypto token)) rows).1 = .ok pair) ∨
      ((admits crypto replies row rows = false ∨ ∃ calls ∈ fault, calls ≤ refreshCalls) ∧
        (∃ thrown, (alone replies (faulty error fault (refresh crypto token)) rows).1 = .error thrown) ∧
        Row.refreshToken row ∉ (alone replies (faulty error fault (refresh crypto token)) rows).2) := by
  obtain ⟨middle, steps, rotated⟩ :=
    refresh_steps crypto replies apart stored rotatable unrevoked unexpired hash
  have gone : Row.refreshToken row ∉ middle := by
    rw [rotated.tokens]
    rintro (⟨-, differs⟩ | same)
    · exact differs rfl
    · have rotated := congrArg RefreshToken.rotatedAt same
      rw [rotatable] at rotated
      cases rotated
  have admitted := admits_rotated crypto replies apart stored rotated
  have within {calls : Nat} (member : calls ∈ fault.map (· - rotationCalls)) :
      ∃ all ∈ fault, calls = all - rotationCalls ∧ rotationCalls ≤ all := by
    obtain ⟨all, found, rfl⟩ := Option.map_eq_some_iff.mp member
    exact ⟨all, found, rfl, late all found⟩
  rw [steps.alone_late late, ← admitted]
  rcases grant_steps crypto replies rotated.apart row with ⟨open_, pair, after, user, grants,
    tokens⟩ | ⟨refused, count, thrown, throws⟩
  · have goneAfter : Row.refreshToken row ∉ after := by
      rw [tokens]
      refine not_or.mpr ⟨gone, fun same => ?_⟩
      -- the id of the new row was free
      rw [admitted, admits, Bool.and_eq_true, Bool.not_eq_true'] at open_
      refine Bool.eq_false_iff.mp open_.2 (List.any_eq_true.mpr ⟨.refreshToken row, stored, ?_⟩)
      simp [Row.isToken, congrArg RefreshToken.id same, issued]
    have few {calls : Nat} (member : calls ∈ fault.map (· - rotationCalls)) (early : calls ≤ 20) :
        ∃ all ∈ fault, all ≤ refreshCalls := by
      obtain ⟨all, found, rfl, some_⟩ := within member
      exact ⟨all, found, by simp only [rotationCalls, refreshCalls] at *; omega⟩
    rcases alone_returns error (fault.map (· - rotationCalls)) grants with ⟨ends,
      more⟩ | ⟨ends | ends, calls, member, early⟩
    · rw [ends]
      refine .inl ⟨open_, fun calls found => ?_, pair, rfl⟩
      have enough := more (calls - rotationCalls) (Option.map_eq_some_iff.mpr ⟨calls, found, rfl⟩)
      simp only [rotationCalls, refreshCalls] at *
      omega
    · rw [ends]
      exact .inr ⟨.inr (few member early), ⟨error, rfl⟩, gone⟩
    · rw [ends]
      exact .inr ⟨.inr (few member early), ⟨error, rfl⟩, goneAfter⟩
  · obtain ⟨last, ends⟩ := alone_throws error (fault.map (· - rotationCalls)) throws
    rw [ends]
    exact .inr ⟨.inl refused, ⟨last, rfl⟩, gone⟩

end

/-- A refused refresh costs nothing exactly if the connection is lost before the rotation commits; or else
it may not be refused: nothing stands against it, and the connection outlives it. -/
theorem refusal_free_iff (crypto : Crypto) (replies : (request : Request) → request.Reply) {rows : List Row}
    (apart : rows.Pairwise NoClash)
    {row : RefreshToken} (stored : Row.refreshToken row ∈ rows) (rotatable : row.rotatedAt = none)
    (unrevoked : row.revokedAt = none)
    (unexpired : replies .now < row.expiresAt) {token : String} (hash : row.tokenHash = crypto.sha256 token)
    (fault : Option Nat) (error : AuthError) :
    (∀ thrown, (alone replies (faulty error fault (refresh crypto token)) rows).1 = .error thrown →
        Unspent crypto token row (alone replies (faulty error fault (refresh crypto token)) rows).2) ↔
      (∃ calls ∈ fault, calls < rotationCalls) ∨ (admits crypto replies row rows = true ∧
        ∀ calls ∈ fault, refreshCalls < calls) := by
  have outcome := refresh_outcome crypto replies apart stored rotatable unrevoked unexpired hash fault error
  constructor
  · intro free
    by_cases early : ∃ calls ∈ fault, calls < rotationCalls
    · exact .inl early
    · push Not at early
      rcases outcome early with ⟨admitted, more, -⟩ | ⟨-, ⟨thrown, throws⟩, gone⟩
      · exact .inr ⟨admitted, more⟩
      · exact absurd (free thrown throws).kept gone
  · rintro (⟨calls, rfl, early⟩ | ⟨admitted, more⟩) thrown throws
    · obtain ⟨middle, steps, -⟩ :=
        refresh_steps crypto replies apart stored rotatable unrevoked unexpired hash
      rw [steps.alone_early early]
      refine ⟨stored, fun replies later apart stored unexpired admitted => ?_⟩
      rcases refresh_outcome crypto replies apart stored rotatable unrevoked unexpired hash
        none error (by simp) with
        ⟨-, -, granted⟩ | ⟨refused | ⟨_, absurd_, -⟩, -⟩
      · exact granted
      · cases refused.symm.trans admitted
      · cases absurd_
    · rcases outcome fun calls found => Nat.le_of_lt (Nat.lt_trans (by decide) (more calls found)) with
        ⟨-, -, pair, granted⟩ | ⟨refused | ⟨calls, found, few⟩, -⟩
      · cases granted.symm.trans throws
      · cases refused.symm.trans admitted
      · exact absurd (more calls found) (Nat.not_lt_of_le few)

def annsToken : RefreshToken := ⟨10, 1, none, 100, "token", 1000000, none, none⟩

def disabledAnn : List Row := [.user { ann with status := .disabled }, .refreshToken annsToken]

theorem disabledAnn_apart : disabledAnn.Pairwise NoClash := by decide

theorem annsToken_stored : Row.refreshToken annsToken ∈ disabledAnn := by decide

/-- The connection is lost while the token is being looked up. -/
theorem refusal_free_lost :
    Unspent plain "token" annsToken
      (alone (guess 1).replies (faulty (.sql .closed) (some 3) (refresh plain "token")) disabledAnn).2 := by
  have unexpired : (guess 1).replies .now < annsToken.expiresAt := by decide
  have hash : annsToken.tokenHash = plain.sha256 "token" := rfl
  have thrown :
    (alone (guess 1).replies (faulty (.sql .closed) (some 3) (refresh plain "token")) disabledAnn).1 =
    .error (.sql .closed) := rfl
  exact (refusal_free_iff plain (guess 1).replies disabledAnn_apart annsToken_stored rfl rfl unexpired hash
    (some 3) (.sql .closed)).mpr
    (.inl ⟨3, rfl, by decide⟩) (.sql .closed) thrown

/-- The refresh of a disabled user throws, and rotates the token all the same. -/
theorem refused_rotates : ¬ ∀ (crypto : Crypto) (replies : (request : Request) → request.Reply)
    (rows : List Row),
      rows.Pairwise NoClash → ∀ row, Row.refreshToken row ∈ rows → row.rotatedAt = none → row.revokedAt = none →
        replies .now < row.expiresAt → ∀ token, row.tokenHash = crypto.sha256 token → ∀ fault error thrown,
          (alone replies (faulty error fault (refresh crypto token)) rows).1 = .error thrown →
          Unspent crypto token row (alone replies (faulty error fault (refresh crypto token)) rows).2 := by
  intro free
  have unexpired : (guess 1).replies .now < annsToken.expiresAt := by decide
  have hash : annsToken.tokenHash = plain.sha256 "token" := rfl
  have refused : admits plain (guess 1).replies annsToken disabledAnn = false := by decide
  rcases refresh_outcome plain (guess 1).replies disabledAnn_apart annsToken_stored rfl rfl unexpired
    hash none (.sql .closed)
      (by simp) with ⟨admitted, -⟩ | ⟨-, ⟨thrown, throws⟩, gone⟩
  · cases refused.symm.trans admitted
  · exact gone (free plain (guess 1).replies disabledAnn disabledAnn_apart annsToken annsToken_stored rfl rfl
      unexpired "token" hash
      none (.sql .closed) thrown throws).kept

end OpenEmarsys.Auth
