import OpenEmarsys.Auth.Commits
import OpenEmarsys.Postgres.Undisturbed

/-! Revoked families stay dead, as long as no token is issued once a revocation has begun.

`revokeFamily` stamps the tokens it sees. A refresh that has rotated its token but not
yet inserted the next one adds to the family afterwards, and that token is accepted.
-/

set_option autoImplicit false

namespace OpenEmarsys.Auth

open Postgres Interleaving

section Calls

variable {first : List Row} {clock : Tid → Time} {rules : Rules Call (Action Row Unit Request) State}
  {pid : Tid} (crypto : Crypto)

/-- Any token with this hash that was there by then is the one found. -/
def Identified (first : List Row) (past : Log) (hash : String) (found : Option RefreshToken) : Prop :=
  ∀ row ∈ tokens (rowsAfter first past), row.tokenHash = hash → ∃ now, found = some now ∧ Later row now

/-- What a call that started at `past` knows once it has looked for its token. -/
structure Looked (first : List Row) (past : Log) (hash : String) (row : RefreshToken) (log : Log) : Prop where
  since : past <+: log
  hash : row.tokenHash = hash
  there : Once (fun past => row ∈ tokens (rowsAfter first past)) log

theorem looked_persists (first : List Row) (past : Log) (hash : String) (row : RefreshToken) :
    Persists (Looked first past hash row) :=
  fun _ _ grown looked => ⟨looked.since.trans grown, looked.hash, once_persists _ _ _ grown looked.there⟩

variable {past : Log} (apart : first.Pairwise NoClash)
include apart

theorem learns_findToken (token : String) :
    Learns first clock rules pid (fun log => past <+: log) (findToken crypto token) fun found log =>
      Identified first past (crypto.sha256 token) found ∧ past <+: log ∧
        ∀ row, found = some row → Looked first past (crypto.sha256 token) row log := by
  have since : Persists fun log : Log => past <+: log := fun _ _ grown earlier => earlier.trans grown
  refine learns_bind (learns_select since _) fun rows => ?_
  have lasts : Persists fun log :
    Log => Identified first past (crypto.sha256 token) (rows.findSome? asToken) ∧ past <+: log ∧
      ∀ row, rows.findSome? asToken = some row → Looked first past (crypto.sha256 token) row log :=
    (persists_const _).and (since.and fun log next grown held row same =>
      looked_persists first past _ row log next grown (held row same))
  refine (PublicProtocol.Step.ret _ (knows_steady lasts pid)).strengthen fun state app held => ?_
  obtain ⟨earlier, at_, within, began, read⟩ := held
  have hashes : ∀ row, rows.findSome? asToken = some row →
      row.tokenHash = crypto.sha256 token ∧ row ∈ tokens (rowsAfter first at_) := by
    intro row same
    obtain ⟨source, member, is⟩ := List.exists_of_findSome?_eq_some same
    obtain ⟨matches_, present⟩ := (read source).mp member
    cases source with
    | refreshToken other =>
      cases is
      exact ⟨by simpa [Row.isToken] using matches_, mem_tokens.mpr present⟩
    | _ => cases is
  refine ⟨fun row present hash => ?_, earlier, fun row same =>
    ⟨earlier, (hashes row same).1, at_, within, (hashes row same).2⟩⟩
  have journal := app.journal.prefix_ within
  obtain ⟨now, here, later⟩ := later_version apart journal began present
  have matched : Row.refreshToken now ∈ rows :=
    (read _).mpr ⟨by simp [Row.isToken, later.tokenHash, hash], mem_tokens.mp here⟩
  cases looked : rows.findSome? asToken with
  | none => exact absurd (List.findSome?_eq_none_iff.mp looked _ matched) (by simp [asToken])
  | some other =>
    obtain ⟨sameHash, there⟩ := hashes other looked
    have equal := tokens_apart (journal.apart apart) there here
      (.inr (sameHash.trans (hash.symm.trans later.tokenHash.symm)))
    exact ⟨other, looked, equal ▸ later⟩

omit apart

/-- What a client hears when its token is unknown, expired or has been used before. -/
def invalidRefresh : AuthError := .unauthorized "Invalid refresh token"

abbrev FailsOther {α : Type} (script : AuthScript α) : Prop := script.Fails (· ≠ invalidRefresh)

theorem sql_other (error : SqlError) : (ClientError.sql error : AuthError) ≠ invalidRefresh := by
  intro same
  cases same

theorem query_other (statement : Statement Row) : FailsOther (query statement) :=
  transaction_fails sql_other () (sql_fails sql_other statement)

theorem findToken_other (token : String) : FailsOther (findToken crypto token) :=
  (query_other _).bind fun _ => trivial

theorem revokeFamily_other (family : Uuid) (now : Time) : FailsOther (revokeFamily family now) :=
  (query_other _).bind fun _ => trivial

theorem findUsers_other (p : User → Bool) : FailsOther (findUsers p) :=
  transaction_fails sql_other () ((sql_fails sql_other _).bind
    fun _ => (sql_fails sql_other _).bind fun _ => trivial)

theorem checkActive_other (user : User) (tenant : Option Tenant) : FailsOther (checkActive user tenant) := by
  unfold checkActive
  split
  · exact fun same => by simp [invalidCredentials, invalidRefresh] at same
  · split
    · exact fun same => by cases same
    · trivial

theorem issue_other (user : User) (family : Uuid) (now : Time) :
    FailsOther (issue crypto user family now) := by
  refine (query_other _).bind fun grants => (ask_fails _).bind fun _ => (ask_fails _).bind fun _ => ?_
  refine Script.Fails.bind (transaction_fails sql_other () ?_) fun _ => trivial
  refine (sql_fails sql_other _).bind fun owner => ?_
  split
  · exact fun same => by cases same
  refine (sql_fails sql_other _).bind fun _ => (sql_fails sql_other _).bind fun updated => ?_
  split
  · exact fun same => by cases same
  · trivial

/-- The family of the token the call was given, if it was there by then, is dead. -/
def Shuts (crypto : Crypto) (first : List Row) (past : Log) (token : String) (meant : RefreshToken → Prop)
    (log : Log) : Prop :=
  ∀ row ∈ tokens (rowsAfter first past), row.tokenHash = crypto.sha256 token → meant row →
    Dead first row.familyId log

theorem shuts_persists (first : List Row) (past : Log) (token : String) (meant : RefreshToken → Prop) :
    Persists (Shuts crypto first past token meant) :=
  fun _ _ grown shuts row present hash is => dead_persists _ _ _ _ grown (shuts row present hash is)

/-- A refusal because the token has been used shuts its family. -/
def Refused (crypto : Crypto) (first : List Row) (clock : Tid → Time) (past : Log) (pid : Tid)
    (token : String) (error : AuthError) (log : Log) : Prop :=
  error = invalidRefresh → Shuts crypto first past token (fun row => clock pid < row.expiresAt) log

theorem refused_persists (past : Log) (token : String) (error : AuthError) :
    Persists (Refused crypto first clock past pid token error) :=
  fun _ _ grown refused same => shuts_persists crypto first past token _ _ _ grown (refused same)

include apart

theorem refresh_ends (token : String) :
    PublicProtocol.Ends (families first).public_ (respondAt clock) rules pid (fun state => past <+: state.log)
    (refresh crypto token)
      (PublicProtocol.Either (fun _ state => Claimed past pid (crypto.sha256 token) state.log)
        fun error state => Refused crypto first clock past pid token error state.log) := by
  have harmless : ∀ (error : AuthError) (state : Seen), error ≠ invalidRefresh →
      Refused crypto first clock past pid token error state.log :=
        fun error state other same => absurd same other
  have refuses : PublicProtocol.Steady (families first).public_ pid fun state =>
      Refused crypto first clock past pid token invalidRefresh state.log :=
    knows_steady (refused_persists crypto past token invalidRefresh) pid
  have since : Persists fun log : Log => past <+: log := fun _ _ grown earlier => earlier.trans grown
  refine PublicProtocol.Ends.bind _ (.step (learns_now since) (ask_fails _) harmless) fun (now : Time) => ?_
  dsimp only
  refine PublicProtocol.Ends.fact fun isNow => ?_
  refine PublicProtocol.Ends.bind _ (.step (learns_findToken crypto apart token)
    (findToken_other crypto token) harmless) fun found => ?_
  refine PublicProtocol.Ends.fact fun identified => ?_
  cases found with
  | none =>
    refine (PublicProtocol.Ends.fail refuses).strengthen fun state _ _ _ row present hash => ?_
    obtain ⟨_, absurd_, -⟩ := identified row present hash
    cases absurd_
  | some row =>
    have same : ∀ other ∈ tokens (rowsAfter first past),
        other.tokenHash = crypto.sha256 token → Later other row := by
      intro other present hash
      obtain ⟨now, is, later⟩ := identified other present hash
      cases is
      exact later
    refine PublicProtocol.Ends.strengthen ?_ fun state _ held => held.2 row rfl
    have knows := looked_persists first past (crypto.sha256 token) row
    dsimp only
    split
    · next expired =>
      refine (PublicProtocol.Ends.fail refuses).strengthen fun state _ _ _ other present hash unexpired => ?_
      rw [isNow, (same other present hash).expiresAt] at expired
      exact absurd expired (Nat.not_le.mpr unexpired)
    · refine PublicProtocol.Ends.bind _
        (.step (learns_rotate apart knows (fun _ looked => looked.since) (fun _ looked => looked.there) now)
        (query_other _) harmless) fun claimed => ?_
      split
      · -- somebody has used it
        refine PublicProtocol.Ends.bind _ (.step ((learns_revoke apart knows now ?_).strengthen
          fun state _ held => held.1)
          (revokeFamily_other _ _) harmless) fun _ => ?_
        · exact fun log looked => ⟨looked.there.choose, looked.there.choose_spec.1, row,
            looked.there.choose_spec.2, rfl⟩
        · refine (PublicProtocol.Ends.fail refuses).strengthen fun state _ held _ other present hash _ => ?_
          exact (same other present hash).familyId ▸ held.2
      · next nonempty =>
        have claims := claimed_persists past pid (crypto.sha256 token)
        refine PublicProtocol.Ends.strengthen ?_ fun state _ held => held.1.hash ▸ held.2
          fun empty => nonempty (by rw [empty]; rfl)
        refine PublicProtocol.Ends.bind _ (.step (learns_findUsers claims _) (findUsers_other _) harmless)
          fun users => ?_
        cases users with
        | nil =>
          refine (PublicProtocol.Ends.fail ?_).strengthen fun state _ _ => harmless .notFound state
            fun same => by cases same
          exact knows_steady (refused_persists crypto past token _) pid
        | cons head rest =>
          refine PublicProtocol.Ends.bind _ (.step (learns_checkActive claims _ _)
            (checkActive_other _ _) harmless) fun _ => ?_
          exact .step (learns_issue crypto claims _ _ _) (issue_other crypto _ _ _) harmless

theorem logout_learns (userId : Uuid) (token : String) :
    Learns first clock rules pid (fun log => past <+: log) (logout crypto userId token) fun _ log =>
      Shuts crypto first past token (fun row => row.userId = userId) log := by
  have lasts := shuts_persists crypto first past token fun row => row.userId = userId
  refine learns_bind (learns_findToken crypto apart token) fun found => ?_
  refine PublicProtocol.Step.fact fun identified => ?_
  cases found with
  | none =>
    refine (PublicProtocol.Step.ret _ (knows_steady lasts pid)).strengthen
      fun state _ _ row present hash _ => ?_
    obtain ⟨_, absurd_, -⟩ := identified row present hash
    cases absurd_
  | some row =>
    have same : ∀ other ∈ tokens (rowsAfter first past),
        other.tokenHash = crypto.sha256 token → Later other row := by
      intro other present hash
      obtain ⟨now, is, later⟩ := identified other present hash
      cases is
      exact later
    refine PublicProtocol.Step.strengthen ?_ fun state _ held => held.2 row rfl
    have knows := looked_persists first past (crypto.sha256 token) row
    dsimp only
    split
    · refine learns_bind (learns_ask knows .now) fun (now : Time) => ?_
      refine (learns_revoke apart knows now ?_).weaken fun _ state _ held other present hash _ => ?_
      · exact fun log looked => ⟨looked.there.choose, looked.there.choose_spec.1, row,
          looked.there.choose_spec.2, rfl⟩
      · exact (same other present hash).familyId ▸ held.2
    · next another =>
      refine (PublicProtocol.Step.ret _ (knows_steady lasts pid)).strengthen
        fun state _ _ other present hash mine => ?_
      exact absurd ((same other present hash).userId.trans mine) another

/-- What the end of a call that started at `past` says of the log. -/
def Outcome (crypto : Crypto) (first : List Row) (clock : Tid → Time) (past : Log) (pid : Tid) :
    Call → Except AuthError (Option TokenPair) → Log → Prop
  | .refresh token, .ok _ => Claimed past pid (crypto.sha256 token)
  | .refresh token, .error error => Refused crypto first clock past pid token error
  | .logout userId token, .ok _ => Shuts crypto first past token fun row => row.userId = userId
  | _, _ => fun _ => True

omit apart in
theorem ends_anyhow {script : AuthScript (Option TokenPair)}
    (learns : Learns first clock rules pid (fun log => past <+: log) script
    fun _ _ => True) (call : Call) (unasked : ∀ result log,
    Outcome crypto first clock past pid call result log) :
    PublicProtocol.Ends (families first).public_ (respondAt clock) rules pid
    (fun state => past <+: state.log) script
      fun result state => Outcome crypto first clock past pid call result state.log :=
  Triple.weaken learns fun result _ _ done => ⟨done.1, unasked result _⟩

theorem code_ends (call : Call) :
    PublicProtocol.Ends (families first).public_ (respondAt clock) rules pid (fun state => past <+: state.log)
    (code crypto call)
      fun result state => Outcome crypto first clock past pid call result state.log := by
  have since : Persists fun log : Log => past <+: log := fun _ _ grown earlier => earlier.trans grown
  have done : ∀ value : Option TokenPair,
      Learns first clock rules pid (fun log => past <+: log) (.ret value) fun _ _ => True :=
    fun value => (learns_ret since value).weaken fun _ _ _ _ => trivial
  cases call with
  | login email password =>
    refine ends_anyhow crypto (learns_bind (learns_login crypto since email password)
      fun result => ?_) _ fun _ _ => trivial
    cases result <;> exact done _
  | verifyMfa mfaToken code =>
    exact ends_anyhow crypto (learns_bind (learns_verifyMfa crypto since mfaToken code)
      fun _ => done _) _ fun _ _ => trivial
  | refresh token =>
    have ends : PublicProtocol.Ends (families first).public_ (respondAt clock) rules pid
      (fun state => past <+: state.log)
        (code crypto (.refresh token))
        (PublicProtocol.Either (fun _ state => Claimed past pid (crypto.sha256 token) state.log)
          fun error state => Refused crypto first clock past pid token error state.log) :=
      PublicProtocol.Ends.bind _ (refresh_ends crypto apart token) fun tokens =>
        .ret (fun _ state => Claimed past pid (crypto.sha256 token) state.log)
          (knows_steady (claimed_persists past pid (crypto.sha256 token)) pid)
    refine ends.weaken fun result state _ held => ?_
    cases result <;> exact held
  | logout userId token =>
    have learns : Learns first clock rules pid (fun log => past <+: log) (code crypto (.logout userId token))
        fun _ log =>
        Shuts crypto first past token (fun row => row.userId = userId) log :=
      learns_bind (logout_learns crypto apart userId token)
        fun _ => learns_ret (shuts_persists crypto first past token _) _
    refine Triple.weaken learns fun result shared _ done => ⟨done.1, ?_⟩
    cases result with
    | ok value => exact done.2
    | error error => trivial

end Calls

/-! ## Every run -/

/-- A call given a token of the family, stored when the call started, has found it used or has logged it
out. -/
inductive Revoking (crypto : Crypto) (clock : Tid → Time) (started config : Config) (pid : Tid) : Uuid →
  Prop where
  | reuse {token : String} {row : RefreshToken} : row ∈ tokens started.state.server.rows →
      row.tokenHash = crypto.sha256 token →
      clock pid < row.expiresAt → config.procs pid = .running (.refresh token) (.fail invalidRefresh) →
      Revoking crypto clock started config pid row.familyId
  | logout {token : String} {row : RefreshToken} : row ∈ tokens started.state.server.rows →
      row.tokenHash = crypto.sha256 token →
        config.procs pid = .running (.logout row.userId token) (.ret none) →
        Revoking crypto clock started config pid row.familyId

/-- From a state on no refresh token of the family is accepted. -/
structure StaysDead (crypto : Crypto) (config later : Config) (family : Uuid) : Prop where
  revoked : ∀ token ∈ tokens later.state.server.rows, token.familyId = family → token.revokedAt.isSome = true
  /-- No refresh claims one, also none that is under way. -/
  unclaimed : ∀ past commit, config.state.server.log <+: past → past ++ [commit] <+: later.state.server.log →
    ∀ token ∈ tokens commit.tx.added, token.Rotated → token.familyId ≠ family
  /-- No refresh that starts then answers one with tokens. -/
  unanswered : ∀ pid token pair, config.procs pid = .idle →
    later.procs pid = .running (.refresh token) (.ret (some pair)) →
    ∀ row ∈ tokens later.state.server.rows, row.tokenHash = crypto.sha256 token → row.familyId ≠ family

section Runs
variable {crypto : Crypto} {clock : Tid → Time} {rows : List Row} {started config later : Config}

theorem code_learns (apart : rows.Pairwise NoClash) (pid : Tid) (call : Call) :
    Learns rows clock {} pid (fun _ => True) (code crypto call) fun _ _ => True := by
  have ends : PublicProtocol.Ends (families rows).public_ (respondAt clock) {} pid
    (fun state => [] <+: state.log)
      (code crypto call) fun result state => Outcome crypto rows clock [] pid call result state.log :=
        code_ends crypto apart call
  refine Triple.conseq ends (fun shared _ held => ⟨held.1, List.nil_prefix⟩)
    fun result _ _ done => ⟨done.1, ?_⟩
  cases result <;> trivial

theorem run_families (apart : rows.Pairwise NoClash)
    (run : (machine (respondAt clock)).Reaches (code crypto) {} (initial rows) config) :
    (families rows).Kept config.state.public :=
  (PublicProtocol.reaches (fun _ => knows_steady (persists_const True) _)
    (fun pid call => code_learns apart pid call) run
    (sane_holding apart) ⟨.start, rfl, trivial⟩ fun _ => ⟨rfl, trivial⟩).2.1

theorem outcome_since (apart : rows.Pairwise NoClash)
    (before : (machine (respondAt clock)).Reaches (code crypto) {} (initial rows) started)
    (more : (machine (respondAt clock)).Reaches (code crypto) {} started config) {pid : Tid}
    (unstarted : started.procs pid = .idle)
    (call : Call) (result : Except AuthError (Option TokenPair)) (ended : config.Ended pid call result) :
    Outcome crypto rows clock started.state.server.log pid call result config.state.server.log := by
  have since : Persists fun log : Log => started.state.server.log <+: log :=
    fun _ _ grown earlier => earlier.trans grown
  exact PublicProtocol.since (fun pid => knows_steady since pid) (fun pid call => code_learns apart pid call)
    (fun pid call => code_ends crypto apart call) before more (sane_holding apart) ⟨.start, rfl,
      trivial⟩ (fun _ => rfl)
    List.prefix_rfl unstarted ended

theorem dead_of_revoking (apart : rows.Pairwise NoClash)
    (before : (machine (respondAt clock)).Reaches (code crypto) {} (initial rows) started)
    (more : (machine (respondAt clock)).Reaches (code crypto) {} started config) {pid : Tid}
    (unstarted : started.procs pid = .idle)
    {family : Uuid} (revoking : Revoking crypto clock started config pid family) :
    Dead rows family config.state.server.log := by
  have kept := run_families apart before
  cases revoking with
  | @reuse token row present hash unexpired refused =>
    have outcome := outcome_since apart before more unstarted (.refresh token) (.error invalidRefresh) refused
    exact outcome rfl _ (kept.server ▸ present) hash unexpired
  | @logout token row present hash returned =>
    have outcome := outcome_since apart before more unstarted (.logout row.userId token) (.ok none) returned
    exact outcome _ (kept.server ▸ present) hash rfl

/-- A family that a call has revoked stays dead if none of its tokens is issued once a revocation of it
has begun. -/
theorem families_stay_dead (apart : rows.Pairwise NoClash)
    (before : (machine (respondAt clock)).Reaches (code crypto) {} (initial rows) started)
    (during : (machine (respondAt clock)).Reaches (code crypto) {} started config)
    (after : (machine (respondAt clock)).Reaches (code crypto) {} config later) {pid : Tid}
    (unstarted : started.procs pid = .idle)
    {family : Uuid} (revoking : Revoking crypto clock started config pid family)
    (timely : Timely family later.state.server.log) :
    StaysDead crypto config later family := by
  have run := before.trans during
  have whole := run.trans after
  have grown := reaches_log after
  have kept := run_families apart whole
  have journal := kept.journal
  obtain ⟨past, earlier, shut⟩ :=
    dead_of_revoking apart before during unstarted revoking (timely.earlier grown)
  have stays : ∀ log, config.state.server.log <+: log → log <+: later.state.server.log →
      Shut family (rowsAfter rows log) :=
    fun log since within => shut_stays apart (journal.prefix_ within) (timely.earlier within)
      (earlier.trans since) shut
  have last := stays _ grown List.prefix_rfl
  have unclaimed : ∀ past commit, config.state.server.log <+: past →
      past ++ [commit] <+: later.state.server.log →
      ∀ token ∈ tokens commit.tx.added, token.Rotated → token.familyId ≠ family := by
    intro past commit since within token added rotated ours
    obtain ⟨start, effect⟩ := journal.entry within
    have closed := stays past since ((List.prefix_append past [commit]).trans within)
    rcases effect.added token added with live | ⟨old, present, turn⟩
    · have stamped := rotated.1
      simp [live.1] at stamped
    · have revoked := closed.revoked old (start ▸ present) (turn.later.familyId.symm.trans ours)
      have absurd_ := turn.later.revoked revoked
      simp [rotated.2] at absurd_
  refine ⟨fun token present => last.revoked token (kept.server ▸ present), unclaimed,
    fun other token pair idle answered row present hash ours => ?_⟩
  have claimed := outcome_since apart run after idle (.refresh token) (.ok (some pair)) answered
  obtain ⟨past, commit, since, within, -, rotated, added, isRotated, sameHash⟩ := claimed
  refine unclaimed past commit since within rotated added isRotated ?_
  have there := journal.prefix_ within
  have inAfter : rotated ∈ tokens (rowsAfter rows (past ++ [commit])) := by
    rw [rowsAfter_append]
    exact tokens_after.mpr (.inr added)
  obtain ⟨now, here, version⟩ := later_version apart journal within inAfter
  have equal : now = row := tokens_apart (journal.apart apart) here (kept.server ▸ present)
    (.inr (version.tokenHash.trans (sameHash.trans hash.symm)))
  exact version.familyId.symm.trans (equal ▸ ours)

end Runs

/-- The token of a refresh that was refused because it had been used. -/
def refused (config : Config) (pid : Tid) : Option String :=
  match config.procs pid with
  | .running (.refresh token) (.fail error) => if error = invalidRefresh then some token else none
  | _ => none

theorem procs_of_refused {config : Config} {pid : Tid} {token : String}
    (found : refused config pid = some token) :
    config.procs pid = .running (.refresh token) (.fail invalidRefresh) := by
  unfold refused at found
  split at found
  · next same =>
    split at found
    · next is =>
      cases found
      rw [same, is]
    · cases found
  · cases found

/-- The token of a refresh that was answered with tokens, and those. -/
def answered (config : Config) (pid : Tid) : Option (String × TokenPair) :=
  match config.procs pid with
  | .running (.refresh token) (.ret (some pair)) => some (token, pair)
  | _ => none

theorem procs_of_answered {config : Config} {pid : Tid} {token : String} {pair : TokenPair}
    (found : answered config pid = some (token, pair)) :
    config.procs pid = .running (.refresh token) (.ret (some pair)) := by
  unfold answered at found
  split at found
  · next same =>
    cases found
    exact same
  · cases found

def unstarted (config : Config) (pid : Tid) : Bool :=
  match config.procs pid with
  | .idle => true
  | _ => false

theorem procs_of_unstarted {config : Config} {pid : Tid} (found : unstarted config pid = true) :
    config.procs pid = .idle := by
  unfold unstarted at found
  split at found
  · next same => exact same
  · cases found

def plainClock : Tid → Time := fun _ => 7

/-- Calls of one process that need nothing from outside but the time. -/
def acts (pid : Tid) (count : Nat) : List (Move Call Draw) := List.replicate count (.act pid (.time 7))

/-- What a refresh does once it has rotated its token. -/
def issues (pid : Tid) (token : String) (id : Uuid) : List (Move Call Draw) :=
  acts pid 10 ++ [.act pid (.bytes token), .act pid (.uuid id)] ++ acts pid 8

/-- Two refreshes of one token: the second is refused and revokes the family. -/
def reuseMoves : List (Move Call Draw) :=
  [.spawn 0 (.refresh "t1")] ++ acts 0 9 ++ issues 0 "t2" 4 ++ [.spawn 1 (.refresh "t1")] ++ acts 1 13

def presentNext : List (Move Call Draw) := [.spawn 2 (.refresh "t2")] ++ acts 2 13

def sessionToken : RefreshToken := ⟨2, 1, none, 3, "t1", 100, none, none⟩

theorem revoking_session {config : Config} {pid : Tid} (found : refused config pid = some "t1") :
    Revoking plainCrypto plainClock (initial sessionRows) config pid 3 := by
  have here : sessionToken ∈ tokens (initial sessionRows).state.server.rows := by decide
  exact .reuse here rfl (by simp [plainClock, sessionToken]) (procs_of_refused found)

theorem families_stay_dead_reuse : ∃ config later,
      (machine (respondAt plainClock)).moves (code plainCrypto) reuseMoves (initial sessionRows) = some config ∧
      (machine (respondAt plainClock)).moves (code plainCrypto) presentNext config = some later ∧
      refused config 1 = some "t1" ∧ StaysDead plainCrypto config later 3 := by
  have first :
    ((machine (respondAt plainClock)).moves (code plainCrypto) reuseMoves
    (initial sessionRows)).map (refused · 1) =
      some (some "t1") := by decide
  have next : ((machine (respondAt plainClock)).moves (code plainCrypto) reuseMoves
    (initial sessionRows)).bind
      (fun config => ((machine (respondAt plainClock)).moves (code plainCrypto) presentNext config).map
        fun later => decide (Timely 3 later.state.server.log)) = some true := by decide
  obtain ⟨config, moved, found⟩ := Option.map_eq_some_iff.mp first
  rw [moved, Option.bind_some] at next
  obtain ⟨later, more, timely⟩ := Option.map_eq_some_iff.mp next
  have before := (machine (respondAt plainClock)).reaches_moves (code plainCrypto) .refl reuseMoves moved
  have after := (machine (respondAt plainClock)).reaches_moves (code plainCrypto) .refl presentNext more
  exact ⟨config, later, moved, more, found,
    families_stay_dead (by decide) .refl before after rfl (revoking_session found)
    (of_decide_eq_true timely)⟩

/-- The second of two refreshes is refused before the first has inserted the next token, which a third
then presents. -/
def lateMoves : List (Move Call Draw) :=
  [.spawn 0 (.refresh "t1"), .spawn 1 (.refresh "t1")] ++ acts 0 5 ++ acts 1 5 ++ acts 0 4 ++ acts 1 8

def presentLate : List (Move Call Draw) := issues 0 "t2" 4 ++
    [.spawn 2 (.refresh "t2")] ++ acts 2 9 ++ issues 2 "t3" 5

theorem late_token_accepted :
    ¬ ∀ (crypto : Crypto) (clock : Tid → Time) (rows : List Row) (started config later : Config) (pid : Tid)
    (family : Uuid),
      rows.Pairwise NoClash → (machine (respondAt clock)).Reaches (code crypto) {} (initial rows) started →
      (machine (respondAt clock)).Reaches (code crypto) {} started config →
      (machine (respondAt clock)).Reaches (code crypto) {} config later → started.procs pid = .idle →
      Revoking crypto clock started config pid family → StaysDead crypto config later family := by
  intro stays
  have first : ((machine (respondAt plainClock)).moves (code plainCrypto) lateMoves (initial sessionRows)).map
      (fun config => (refused config 1, unstarted config 2)) = some (some "t1", true) := by decide
  have next : ((machine (respondAt plainClock)).moves (code plainCrypto) lateMoves (initial sessionRows)).bind
      (fun config => ((machine (respondAt plainClock)).moves (code plainCrypto) presentLate config).map
          fun later =>
        (answered later 2, (tokens later.state.server.rows).any
          fun token => token.tokenHash == "t2" && token.familyId == 3)) =
      some (some ("t2", ⟨"access", "t3", "Bearer", 900⟩), true) := by decide
  obtain ⟨config, moved, found⟩ := Option.map_eq_some_iff.mp first
  obtain ⟨isRefused, isUnstarted⟩ := Prod.mk.inj found
  rw [moved, Option.bind_some] at next
  obtain ⟨later, more, ends⟩ := Option.map_eq_some_iff.mp next
  obtain ⟨isAnswered, there⟩ := Prod.mk.inj ends
  obtain ⟨token, present, is⟩ := List.any_eq_true.mp there
  simp only [Bool.and_eq_true, beq_iff_eq] at is
  have before := (machine (respondAt plainClock)).reaches_moves (code plainCrypto) .refl lateMoves moved
  have after := (machine (respondAt plainClock)).reaches_moves (code plainCrypto) .refl presentLate more
  have dead := stays plainCrypto plainClock sessionRows _ config later 1 3 (by decide) .refl before after rfl
    (revoking_session isRefused)
  exact dead.unanswered 2 "t2" _ (procs_of_unstarted isUnstarted) (procs_of_answered isAnswered)
    token present is.1 is.2

end OpenEmarsys.Auth
