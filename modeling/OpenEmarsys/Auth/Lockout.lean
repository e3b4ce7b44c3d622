import OpenEmarsys.Auth.Checks

/-! The lock-out of accounts, over sequences of complete calls.

An event is a credential check of an account, with its outcome, or a login of it: tokens
issued after a check. Each call reads the clock once, at any time before or after the
readings of the others, and that is the time of its events.
-/

set_option autoImplicit false

namespace OpenEmarsys.Auth

open Postgres

inductive Verdict where
  /-- A wrong password or MFA code. -/
  | failed
  /-- A right password or MFA code. -/
  | passed
  /-- Tokens issued for them. -/
  | loggedIn
  deriving DecidableEq

structure Event where
  account : Uuid
  time : Time
  verdict : Verdict
  deriving DecidableEq

section Events
variable (crypto : Crypto)

/-- The checks of a call, and the login if its last one led to tokens. -/
def Visit.events (visit : Visit) (rows : List Row) : List Event :=
  let checks := visit.checks crypto rows
  let logins := match (visit.run crypto rows).1 with
    | .ok (some _) => checks.getLast?.toList.map fun (account, _) => ⟨account, visit.now, .loggedIn⟩
    | _ => []
  checks.map (fun (account, right) => ⟨account, visit.now, if right then .passed else .failed⟩) ++ logins

def history : List Visit → List Row → List Event
  | [], _ => []
  | visit :: later, rows => visit.events crypto rows ++ history later (visit.run crypto rows).2

end Events

/-- What an observer of the events of one account expects of it. -/
structure Watch where
  /-- Failures since the last login. -/
  failures : Nat
  /-- The ends of the lock-outs since the last login. -/
  locks : List Time
  deriving DecidableEq

/-- The fifth failure since the last login and each one after it lock the account out. -/
def Watch.next (watch : Watch) (event : Event) : Watch :=
  match event.verdict with
  | .failed =>
      if watch.failures + 1 < 5 then { watch with failures := watch.failures + 1 }
      else { failures := watch.failures + 1, locks := (event.time + LOCK_MS) :: watch.locks }
  | .passed => watch
  | .loggedIn => { failures := 0, locks := [] }

/-- While an account is locked out nobody logs in to it or has a credential of it checked. -/
def Guarded : Watch → List Event → Prop
  | _, [] => True
  | watch, event :: later => (∀ limit ∈ watch.locks, limit ≤ event.time) ∧ Guarded (watch.next event) later

/-- What an account stored like this has behind it: a lock stands for five failures. -/
def User.watch (user : User) : Watch :=
  ⟨if user.lockedUntil.isSome then 5 else user.failedLogins, user.lockedUntil.toList⟩

section Conditions
variable (crypto : Crypto)

/-- A failed check of the account comes before any lock since its last login, or no later call is made
before the lock-out it calls for is over. -/
def CountsFailure (now : Time) (later : List Time) (user : User) : Prop :=
  user.lockedUntil = none ∨ ∀ time ∈ later, now + LOCK_MS ≤ time

/-- Each account a login checks is counted for: no wrong one comes before the right one, no locked one hides
the others, and only the last can be locked out by it. -/
def LoginCounts (replies : (request : Request) → request.Reply) (email password : String) (later : List Time)
    (rows : List Row) : Prop :=
  let found := candidates crypto email rows
  let free := found.filter (unlocked (replies .now))
  match free.find? (passes replies password) with
  | some chosen => free.head? = some chosen
  | none => free = [] ∨ free = found ∧ (∀ entry ∈ found.dropLast, entry.1.failedLogins + 1 < MAX_FAILURES) ∧
      ∀ entry ∈ found, CountsFailure (replies .now) later entry.1

def MfaCounts (replies : (request : Request) → request.Reply) (mfaToken code : String) (later : List Time)
    (rows : List Row) : Prop :=
  match mfaAccount crypto mfaToken (replies .now) rows with
  | some (user, secret) => codeIsRight crypto replies rows user secret code = false →
    CountsFailure (replies .now) later user
  | none => True

def RefreshCounts (token : String) (now : Time) (rows : List Row) : Prop :=
  ∀ user ∈ users rows, refreshes crypto token now rows user = true → user.failedLogins = 0 ∧
    user.lockedUntil = none

def Counts (visit : Visit) (later : List Time) (rows : List Row) : Prop :=
  match visit.call with
  | .login email password => LoginCounts crypto visit.replies email password later rows
  | .verifyMfa mfaToken code => MfaCounts crypto visit.replies mfaToken code later rows
  | .refresh token => RefreshCounts crypto token visit.now rows
  | .logout .. => True

def AllCount : List Visit → List Row → Prop
  | [], _ => True
  | visit :: later, rows => Counts crypto visit (later.map Visit.now) rows ∧
    AllCount later (visit.run crypto rows).2

end Conditions

/-- The ways a call can end whose checks all count. -/
inductive Ends (now : Time) (later : List Time) (rows : List Row) : List Event → List Row → Prop where
  | quiet {after : List Row} : Changes id rows after → Ends now later rows [] after
  | failed {ids : List Uuid} {after : List Row} : ids.Nodup →
      (∀ user ∈ users rows, user.id ∈ ids → lockedFor user now = 0 ∧ CountsFailure now later user) →
      Changes (among ids (failedOnce now)) rows after →
      Ends now later rows (ids.map fun id => ⟨id, now, .failed⟩) after
  | passed {user : User} {after : List Row} : user ∈ users rows → lockedFor user now = 0 →
      Changes id rows after →
      Ends now later rows [⟨user.id, now, .passed⟩] after
  | entered {user : User} {after : List Row} : user ∈ users rows → lockedFor user now = 0 →
      Changes (only user.id (loggedIn now)) rows after →
      Ends now later rows [⟨user.id, now, .passed⟩, ⟨user.id, now, .loggedIn⟩] after
  | refreshed {user : User} {after : List Row} : user ∈ users rows → user.failedLogins = 0 →
      user.lockedUntil = none →
      Changes (only user.id (loggedIn now)) rows after → Ends now later rows [] after

/-- The observer's state, as far as the calls still to come can tell. Once a lock is stored the observer
counts on alone. -/
structure Follows (later : List Time) (watch : Watch) (user : User) : Prop where
  failures : user.lockedUntil = none → watch.failures = user.failedLogins
  locks : ∀ limit ∈ watch.locks, user.lockedUntil = some limit ∨ ∀ time ∈ later, limit ≤ time

theorem User.follows (later : List Time) (user : User) : Follows later user.watch user := by
  refine ⟨fun open_ => ?_, fun limit member => .inl (Option.mem_toList.mp member)⟩
  rw [User.watch, open_]
  rfl

def eventsOf (account : Uuid) (events : List Event) : List Event :=
  events.filter fun event => event.account == account

theorem seconds_eq_zero (limit now : Nat) : (limit - now + 999) / 1000 = 0 ↔ limit ≤ now := by
  omega

theorem lockedFor_eq_zero {user : User} {now : Time} : lockedFor user now = 0 ↔
    ∀ limit ∈ user.lockedUntil, limit ≤ now := by
  unfold lockedFor
  cases user.lockedUntil with
  | none => simp
  | some limit =>
    simp only [Option.getD_some, Option.mem_def, Option.some.injEq, forall_eq']
    exact seconds_eq_zero limit now

section Follows
variable {now : Time} {later : List Time} {watch : Watch} {user : User}

theorem Follows.tail (follows : Follows (now :: later) watch user) : Follows later watch user :=
  ⟨follows.failures, fun limit member =>
    (follows.locks limit member).imp_right fun expired time is => expired time (List.mem_cons_of_mem _ is)⟩

theorem Follows.expired (follows : Follows (now :: later) watch user) (free : lockedFor user now = 0) :
    ∀ limit ∈ watch.locks, limit ≤ now := by
  intro limit member
  rcases follows.locks limit member with stored | expired
  · exact lockedFor_eq_zero.mp free limit stored
  · exact expired now (List.mem_cons_self ..)

-- A failure of an account that has not been locked since its last login.
theorem Follows.failed (follows : Follows later watch user) (open_ : user.lockedUntil = none) (id : Uuid) :
    Follows later (watch.next ⟨id, now, .failed⟩) (failedOnce now user) := by
  have expired : ∀ limit ∈ watch.locks, ∀ time ∈ later, limit ≤ time := by
    intro limit member
    rcases follows.locks limit member with stored | expired
    · cases open_.symm.trans stored
    · exact expired
  by_cases few : user.failedLogins + 1 < 5
  · have counts : failedOnce now user = { user with failedLogins := user.failedLogins + 1 } := if_pos few
    have next : watch.next ⟨id, now, .failed⟩ = { watch with failures := user.failedLogins + 1 } := by
      rw [← follows.failures open_] at few ⊢
      exact if_pos few
    rw [counts, next]
    exact ⟨fun _ => rfl, fun limit member => .inr (expired limit member)⟩
  · have locks : failedOnce now user = { user with failedLogins := 0, lockedUntil := some (now + LOCK_MS) } :=
      if_neg few
    have next : watch.next ⟨id, now, .failed⟩ = ⟨watch.failures + 1, (now + LOCK_MS) :: watch.locks⟩ := by
      rw [← follows.failures open_] at few
      exact if_neg few
    rw [locks, next]
    refine ⟨fun none_ => (Option.some_ne_none _ none_).elim, fun limit member => ?_⟩
    rcases List.mem_cons.mp member with rfl | old
    · exact .inl rfl
    · exact .inr (expired limit old)

-- A failure of an account with a lock that has run out, when all later calls come late enough.
theorem Follows.failed_late (follows : Follows (now :: later) watch user) (free : lockedFor user now = 0)
    (locked : user.lockedUntil ≠ none) (late : ∀ time ∈ later, now + LOCK_MS ≤ time) (id : Uuid) :
    Follows later (watch.next ⟨id, now, .failed⟩) (failedOnce now user) := by
  have still : (failedOnce now user).lockedUntil ≠ none := by
    unfold failedOnce
    split
    · exact locked
    · exact Option.some_ne_none _
  refine ⟨fun none_ => absurd none_ still, fun limit member => .inr fun time is => ?_⟩
  have old : ∀ limit ∈ watch.locks, limit ≤ time := fun limit member =>
    (follows.expired free limit member).trans ((Nat.le_add_right ..).trans (late time is))
  unfold Watch.next at member
  dsimp only at member
  split at member
  · exact old limit member
  · rcases List.mem_cons.mp member with rfl | past
    · exact late time is
    · exact old limit past

theorem Follows.fails (follows : Follows (now :: later) watch user) (free : lockedFor user now = 0)
    (counts : CountsFailure now later user) (id : Uuid) :
    Follows later (watch.next ⟨id, now, .failed⟩) (failedOnce now user) := by
  by_cases open_ : user.lockedUntil = none
  · exact follows.tail.failed open_ id
  · exact follows.failed_late free open_ (counts.resolve_left open_) id

theorem Follows.refreshed (follows : Follows later watch user) (none_ : user.failedLogins = 0)
    (open_ : user.lockedUntil = none) :
    Follows later watch (loggedIn now user) := by
  refine ⟨fun _ => (follows.failures open_).trans none_, fun limit member => ?_⟩
  exact (follows.locks limit member).imp_left fun stored => open_.symm.trans stored

end Follows

theorem guarded_append {watch : Watch} {events others : List Event} :
    Guarded watch (events ++ others) ↔ Guarded watch events ∧ Guarded
    (events.foldl Watch.next watch) others := by
  induction events generalizing watch with
  | nil => simp [Guarded]
  | cons event rest ih => simp [Guarded, ih, and_assoc]

theorem eventsOf_failed {ids : List Uuid} (distinct : ids.Nodup) (now : Time) (account : Uuid) :
    eventsOf account (ids.map fun id => ⟨id, now, .failed⟩) = if account ∈ ids then
    [⟨account, now, .failed⟩] else [] := by
  induction ids with
  | nil => rfl
  | cons head rest ih =>
    obtain ⟨fresh, distinct⟩ := List.nodup_cons.mp distinct
    rw [List.map_cons, eventsOf, List.filter_cons, ← eventsOf, ih distinct]
    by_cases same : head = account
    · subst same
      simp [fresh]
    · simp [same, Ne.symm same]

theorem eventsOf_own {account : Uuid} {events : List Event}
    (own : ∀ event ∈ events, event.account = account) :
    eventsOf account events = events := List.filter_eq_self.mpr fun event member => beq_iff_eq.mpr
    (own event member)

theorem eventsOf_other {account other : Uuid} {events : List Event}
    (own : ∀ event ∈ events, event.account = other)
    (differs : other ≠ account) : eventsOf account events = [] :=
  List.filter_eq_nil_iff.mpr fun event member => by rw [own event member, beq_iff_eq]; exact differs

theorem Ends.follows {now : Time} {later : List Time} {rows after : List Row} (apart : rows.Pairwise NoClash)
    {events : List Event}
    (ends : Ends now later rows events after) {user : User} (present : user ∈ users rows) {watch : Watch}
    (follows : Follows (now :: later) watch user) :
    Guarded watch (eventsOf user.id events) ∧
      ∃ next ∈ users after, next.id = user.id ∧ Follows later
      ((eventsOf user.id events).foldl Watch.next watch) next := by
  cases ends with
  | quiet changes => exact ⟨trivial, user, (changes.users user).mpr ⟨user, present, rfl⟩, rfl, follows.tail⟩
  | @failed ids _ distinct free changes =>
    have still : among ids (failedOnce now) user ∈ users after := (changes.users _).mpr ⟨user, present, rfl⟩
    rw [eventsOf_failed distinct]
    split
    · next member =>
      rw [among, if_pos member] at still
      obtain ⟨open_, counts⟩ := free user present member
      refine ⟨⟨follows.expired open_, trivial⟩, _, still, ?_, follows.fails open_ counts _⟩
      unfold failedOnce
      split <;> rfl
    · next other =>
      rw [among, if_neg other] at still
      exact ⟨trivial, user, still, rfl, follows.tail⟩
  | @passed checked _ here free changes =>
    have still : user ∈ users after := (changes.users user).mpr ⟨user, present, rfl⟩
    by_cases same : checked.id = user.id
    · have equal := users_apart apart here present same
      subst equal
      rw [eventsOf_own (by simp)]
      exact ⟨⟨follows.expired free, trivial⟩, checked, still, rfl, follows.tail⟩
    · rw [eventsOf_other (by simp) same]
      exact ⟨trivial, user, still, rfl, follows.tail⟩
  | @entered checked _ here free changes =>
    have still : only checked.id (loggedIn now) user ∈ users after :=
      (changes.users _).mpr ⟨user, present, rfl⟩
    by_cases same : checked.id = user.id
    · have equal := users_apart apart here present same
      subst equal
      rw [only, if_pos rfl] at still
      rw [eventsOf_own (by simp)]
      have expired := follows.expired free
      exact ⟨⟨expired, expired, trivial⟩, _, still, rfl,
        ⟨fun _ => rfl, fun _ member => absurd member List.not_mem_nil⟩⟩
    · rw [only, if_neg (Ne.symm same)] at still
      rw [eventsOf_other (by simp) same]
      exact ⟨trivial, user, still, rfl, follows.tail⟩
  | @refreshed other _ here none_ open_ changes =>
    have still : only other.id (loggedIn now) user ∈ users after := (changes.users _).mpr ⟨user, present, rfl⟩
    refine ⟨trivial, _, still, ?_⟩
    by_cases same : other.id = user.id
    · have equal := users_apart apart here present same
      subst equal
      rw [only, if_pos rfl]
      exact ⟨rfl, follows.tail.refreshed none_ open_⟩
    · rw [only, if_neg (Ne.symm same)]
      exact ⟨rfl, follows.tail⟩

section Calls
variable (crypto : Crypto) {rows : List Row} {visit : Visit}

theorem run_eq {call : Call} (is : visit.call = call) {result : Except AuthError (Option TokenPair)}
    {after : List Row} (runs : Runs visit.replies (code crypto call) rows result after) :
    visit.run crypto rows = (result, after) := by
  rw [Visit.run, is]
  exact runs.alone

theorem events_unchecked (none_ : visit.checks crypto rows = []) : visit.events crypto rows = [] := by
  unfold Visit.events
  rw [none_]
  split <;> rfl

theorem events_refused {error : AuthError} {after : List Row}
    (run : visit.run crypto rows = (.error error, after)) :
    visit.events crypto rows =
      (visit.checks crypto rows).map fun (account, right) => ⟨account, visit.now, if right
        then .passed else .failed⟩ := by
  unfold Visit.events
  rw [run]
  exact List.append_nil _

theorem ends_checked {later : List Time} {user : User} {result : Except AuthError (Option TokenPair)}
    {middle after : List Row}
    (present : user ∈ users rows) (free : lockedFor user visit.now = 0) (kept : Changes id rows middle)
    (ends : LogsIn user visit.now middle result after) (checks : visit.checks crypto rows = [(user.id, true)])
    (run : visit.run crypto rows = (result, after)) : Ends visit.now later rows
    (visit.events crypto rows) after := by
  unfold Visit.events
  rw [checks, run]
  rcases ends with ⟨⟨pair, rfl⟩, changes⟩ | ⟨noTokens, rfl⟩
  · exact .entered present free ((kept.trans changes).congr fun _ _ => rfl)
  · cases result with
    | error error => exact .passed present free kept
    | ok tokens =>
      cases tokens with
      | none => exact .passed present free kept
      | some pair => exact absurd rfl (noTokens pair)

variable (apart : rows.Pairwise NoClash)
include apart

theorem login_visit (email password : String) (is : visit.call = .login email password) {later : List Time}
    (counts : Counts crypto visit later rows) :
    Ends visit.now later rows (visit.events crypto rows) (visit.run crypto rows).2 := by
  rw [Counts, is] at counts
  dsimp only [LoginCounts] at counts
  rw [← Visit.now] at counts
  have checks : visit.checks crypto rows =
      compared visit.replies password ((candidates crypto email rows).filter (unlocked visit.now)) :=
        login_checks crypto is
  split at counts
  · next chosen found =>
    obtain ⟨result, after, run, ends⟩ := login_matched crypto visit.replies apart email password found
    have run := run_eq crypto is run
    have here := List.mem_filter.mp (List.mem_of_find?_eq_some found)
    obtain ⟨rest, list⟩ := List.head?_eq_some_iff.mp counts
    rw [list, compared, if_pos (List.find?_some found)] at checks
    rw [run]
    exact ends_checked crypto (mem_withTenants here.1).1 (beq_iff_eq.mp here.2) (.refl apart) ends checks run
  · next unmatched =>
    cases all : (candidates crypto email rows).all (unlocked visit.now) with
    | false =>
      obtain ⟨error, run⟩ := login_locked crypto visit.replies email password unmatched all
      have none_ : (candidates crypto email rows).filter (unlocked visit.now) = [] := by
        rcases counts with none_ | ⟨whole, -⟩
        · exact none_
        · rw [List.filter_eq_self, ← List.all_eq_true, all] at whole
          cases whole
      rw [none_, compared] at checks
      rw [events_unchecked crypto checks, run_eq crypto is run]
      exact .quiet (.refl apart)
    | true =>
      have whole := List.filter_eq_self.mpr (List.all_eq_true.mp all)
      have few : (∀ entry ∈ (candidates crypto email rows).dropLast,
        entry.1.failedLogins + 1 < MAX_FAILURES) ∧
          ∀ entry ∈ candidates crypto email rows, CountsFailure visit.now later entry.1 := by
        rcases counts with none_ | ⟨-, few⟩
        · rw [← whole, none_]
          simp
        · exact few
      obtain ⟨error, after, run, changes⟩ :=
        login_failed crypto visit.replies apart email password unmatched all few.1
      have run := run_eq crypto is run
      rw [events_refused crypto run, run, checks, compared_none unmatched, whole, List.map_map]
      have distinct : ((candidates crypto email rows).map (·.1.id)).Nodup :=
        List.pairwise_map.mpr (withTenants_distinct _ apart)
      have free : ∀ user ∈ users rows, user.id ∈ (candidates crypto email rows).map (·.1.id) →
          lockedFor user visit.now = 0 ∧ CountsFailure visit.now later user := by
        intro user present member
        obtain ⟨entry, found, same⟩ := List.mem_map.mp member
        rw [users_apart apart present (mem_withTenants found).1 same.symm]
        exact ⟨beq_iff_eq.mp (List.all_eq_true.mp all entry found), few.2 entry found⟩
      have failures : Ends visit.now later rows _ after := Ends.failed distinct free changes
      rw [List.map_map] at failures
      exact failures

theorem verifyMfa_visit (mfaToken code : String) (is : visit.call = .verifyMfa mfaToken code)
    {later : List Time} (counts : Counts crypto visit later rows) :
    Ends visit.now later rows (visit.events crypto rows) (visit.run crypto rows).2 := by
  rw [Counts, is] at counts
  dsimp only [MfaCounts] at counts
  rw [← Visit.now] at counts
  split at counts
  · next user secret found =>
    obtain ⟨present, free⟩ := mfaAccount_present crypto found
    obtain ⟨result, after, run, ends⟩ := verifyMfa_checked crypto visit.replies apart mfaToken code found
    have run := run_eq crypto is run
    have checks := verifyMfa_checks crypto apart is found
    unfold Redeems at ends
    split at ends
    · next right =>
      obtain ⟨middle, kept, ends⟩ := ends
      rw [run]
      exact ends_checked crypto present free kept ends (checks.trans (by rw [right])) run
    · next wrong =>
      obtain ⟨⟨error, rfl⟩, changes⟩ := ends
      rw [Bool.not_eq_true] at wrong
      rw [events_refused crypto run, run, checks, wrong]
      refine .failed (List.nodup_singleton user.id) (fun other here member => ?_)
        (changes.congr fun _ _ => by simp [only, among, Visit.now])
      rw [users_apart apart here present (List.mem_singleton.mp member)]
      exact ⟨free, counts wrong⟩
  · next found =>
    obtain ⟨error, run⟩ := verifyMfa_refused crypto visit.replies mfaToken code found
    rw [events_unchecked crypto (verifyMfa_unchecked crypto is found), run_eq crypto is run]
    exact .quiet (.refl apart)

theorem refresh_visit (token : String) (is : visit.call = .refresh token) {later : List Time}
    (counts : Counts crypto visit later rows) :
    Ends visit.now later rows (visit.events crypto rows) (visit.run crypto rows).2 := by
  obtain ⟨result, after, run, ends⟩ := refresh_runs crypto visit.replies apart token
  rw [events_unchecked crypto (refresh_checks crypto is), run_eq crypto is run]
  rcases ends with ⟨-, changes⟩ | ⟨user, present, refreshed, middle, kept, ends⟩
  · exact .quiet changes
  · rcases ends with ⟨-, changes⟩ | ⟨-, same⟩
    · rw [Counts, is] at counts
      obtain ⟨none_, open_⟩ := counts user present refreshed
      exact .refreshed present none_ open_ ((kept.trans changes).congr fun _ _ => rfl)
    · rw [same]
      exact .quiet kept

theorem logout_visit (userId : Uuid) (token : String) (is : visit.call = .logout userId token)
    (later : List Time) :
    Ends visit.now later rows (visit.events crypto rows) (visit.run crypto rows).2 := by
  obtain ⟨result, after, run, -, changes⟩ := logout_runs crypto visit.replies apart userId token
  rw [events_unchecked crypto (logout_checks crypto is), run_eq crypto is run]
  exact .quiet changes

theorem visit_ends {later : List Time} (counts : Counts crypto visit later rows) :
    Ends visit.now later rows (visit.events crypto rows) (visit.run crypto rows).2 := by
  cases is : visit.call with
  | login email password => exact login_visit crypto apart email password is counts
  | verifyMfa mfaToken code => exact verifyMfa_visit crypto apart mfaToken code is counts
  | refresh token => exact refresh_visit crypto apart token is counts
  | logout userId token => exact logout_visit crypto apart userId token is later

end Calls

/-! ## Sequences of calls -/

theorem Ends.apart {now : Time} {later : List Time} {rows after : List Row} {events : List Event}
    (ends : Ends now later rows events after) : after.Pairwise NoClash := by
  cases ends <;> exact Changes.apart ‹_›

-- The events of each account guard it, from whatever is stored about it at first.
theorem accounts_guarded (crypto : Crypto) (visits : List Visit) {rows : List Row}
    (apart : rows.Pairwise NoClash)
    (count : AllCount crypto visits rows) {user : User} (present : user ∈ users rows) {watch : Watch}
    (follows : Follows (visits.map Visit.now) watch user) :
    Guarded watch (eventsOf user.id (history crypto visits rows)) := by
  induction visits generalizing rows user watch with
  | nil => trivial
  | cons visit later ih =>
    obtain ⟨counts, others⟩ := count
    have ends := visit_ends crypto apart counts
    obtain ⟨guarded, next, still, same, follows⟩ := ends.follows apart present follows
    have rest := ih ends.apart others still follows
    rw [same] at rest
    rw [history, eventsOf, List.filter_append]
    exact guarded_append.mpr ⟨guarded, rest⟩

instance Guarded.decide : (watch : Watch) → (events : List Event) → Decidable (Guarded watch events)
  | _, [] => .isTrue trivial
  | watch, event :: later =>
      have := Guarded.decide (watch.next event) later
      inferInstanceAs (Decidable ((∀ limit ∈ watch.locks, limit ≤ event.time) ∧
        Guarded (watch.next event) later))

instance CountsFailure.decide (now : Time) (later : List Time) (user : User) :
    Decidable (CountsFailure now later user) :=
  inferInstanceAs (Decidable (user.lockedUntil = none ∨ ∀ time ∈ later, now + LOCK_MS ≤ time))

instance LoginCounts.decide (crypto : Crypto) (replies : (request : Request) → request.Reply)
    (email password : String) (later : List Time) (rows : List Row) :
    Decidable (LoginCounts crypto replies email password later rows) :=
  match found : ((candidates crypto email rows).filter (unlocked (replies .now))).find?
    (passes replies password) with
  | some chosen => decidable_of_iff
      (((candidates crypto email rows).filter (unlocked (replies .now))).head? = some chosen) (by
      simp only [LoginCounts, found])
  | none => decidable_of_iff ((candidates crypto email rows).filter (unlocked (replies .now)) = [] ∨
        (candidates crypto email rows).filter (unlocked (replies .now)) = candidates crypto email rows ∧
        (∀ entry ∈ (candidates crypto email rows).dropLast, entry.1.failedLogins + 1 < MAX_FAILURES) ∧
        ∀ entry ∈ candidates crypto email rows, CountsFailure (replies .now) later entry.1) (by
      simp only [LoginCounts, found])

instance MfaCounts.decide (crypto : Crypto) (replies : (request : Request) → request.Reply)
    (mfaToken code : String)
    (later : List Time) (rows : List Row) : Decidable (MfaCounts crypto replies mfaToken code later rows) :=
  match found : mfaAccount crypto mfaToken (replies .now) rows with
  | some (user, secret) => decidable_of_iff (codeIsRight crypto replies rows user secret code = false →
      CountsFailure (replies .now) later user) (by simp only [MfaCounts, found])
  | none => .isTrue (by simp only [MfaCounts, found])

instance Counts.decide (crypto : Crypto) (visit : Visit) (later : List Time) (rows : List Row) :
    Decidable (Counts crypto visit later rows) :=
  match visit with
  | ⟨.login email password, replies⟩ => LoginCounts.decide crypto replies email password later rows
  | ⟨.verifyMfa mfaToken code, replies⟩ => MfaCounts.decide crypto replies mfaToken code later rows
  | ⟨.refresh token, replies⟩ => inferInstanceAs (Decidable (∀ user ∈ users rows,
        refreshes crypto token (replies .now) rows user = true → user.failedLogins = 0 ∧
        user.lockedUntil = none))
  | ⟨.logout .., _⟩ => .isTrue trivial

instance AllCount.decide (crypto : Crypto) : (visits : List Visit) → (rows : List Row) → Decidable
    (AllCount crypto visits rows)
  | [], _ => .isTrue trivial
  | visit :: later, rows =>
      have := AllCount.decide crypto later (visit.run crypto rows).2
      inferInstanceAs (Decidable (Counts crypto visit (later.map Visit.now) rows ∧
        AllCount crypto later (visit.run crypto rows).2))

def plain : Crypto where
  sha256 := id
  lower := id
  toLowerCase := id
  sort := id
  signAccess _ _ _ _ := ""
  signMfa _ _ _ := ""
  verifyMfaToken _ _ := none

def ann : User := ⟨1, none, "ann", some "secret", .active, false, none, 0, none, none⟩

/-- Ann with a session whose refresh token is "token". -/
def annsRows : List Row := [.user ann, .refreshToken ⟨10, 1, none, 100, "token", 1000000, none, none⟩]

def at_ (time : Time) (call : Call) (bytes : String) (id : Uuid) : Visit where
  call := call
  replies
    | .now => time
    | .randomUUID => id
    | .randomBytes => bytes
    | .rowId => id
    | .verify _ hash password => hash == password
    | .verifyDummy _ => false
    | .checkTotp .. => false

def guess (time : Time) : Visit := at_ time (.login "ann" "guess") "" 0

/-- Five wrong passwords lock Ann out, a refresh in between unlocks her again. -/
def unlockedByRefresh : List Visit :=
  [guess 1, guess 2, guess 3, guess 4, guess 5, at_ 6 (.refresh "token") "next" 11,
    at_ 7 (.login "ann" "secret") "own" 12]

/-- Ann is locked out, tries the right password at once and later, and refreshes her session. -/
def lockedFifteenMinutes : List Visit :=
  [guess 1, guess 2, guess 3, guess 4, guess 5, at_ 6 (.login "ann" "secret") "" 0,
    at_ (5 + LOCK_MS) (.login "ann" "secret") "own" 12, at_ (6 + LOCK_MS) (.refresh "token") "next" 11]

end OpenEmarsys.Auth
