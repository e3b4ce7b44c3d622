import OpenEmarsys.Auth.Rotation

/-! The calls of `AuthService` keep to the rotation protocol.

A call starts fresh, so the only permits it ever has are the one for the family it
drew and the one it got by rotating the token it was given.
-/

set_option autoImplicit false

namespace OpenEmarsys.Auth

open Postgres Postgres.PublicProtocol Interleaving

variable {rules : Rules Call (Action Row Unit Request) State} {pid : Tid}

/-- A script that starts and ends outside transactions, under the rotation protocol. -/
abbrev Does {α : Type} (rules : Rules Call (Action Row Unit Request) State) (pid : Tid) (pre : Seen → Prop)
    (script : AuthScript α) (post : α → Seen → Prop) : Prop :=
  Step rotation respond rules pid pre script post

section Calm
variable {holds : Seen → Prop}

theorem sameTokens_idle (state : Seen) {commit : Commit Row Unit} (idle : commit.tx.added = []) :
    SameTokens state { state with log := state.log ++ [commit] } :=
  sameTokens_commit (fun _ => .rfl) (fun _ absurd_ => by simp [idle] at absurd_)

theorem Calm.select (calm : Calm pid holds) (p : Row → Bool) :
    Does rules pid holds (query (.select p)) fun _ => holds := by
  refine PublicProtocol.select calm.steady (fun _ _ held => held) (fun _ => calm.steady)
    fun state _ _ idle app held => ?_
  have same := sameTokens_idle state idle
  exact ⟨Facts.same app same, fun other _ => same.grows other, calm.same _ _ same held⟩

theorem Calm.update (calm : Calm pid holds) {p : Row → Bool} {f : Row → Row}
    (keyed : ∀ row, primary (f row) = primary row)
    (other : ∀ row, p row = true → ∀ token, f row ≠ .refreshToken token)
    (apart : ∀ token, p (.refreshToken token) = false) :
    Does rules pid holds (query (.update p f)) fun _ => holds := by
  refine PublicProtocol.update keyed calm.steady
    (fun state hits rows commit app _ held _ matched replaced inserted => ?_)
    (fun _ => calm.steady)
  have none_ : ∀ token, Row.refreshToken token ∉ hits.map f := by
    intro token member
    obtain ⟨old, hit, same⟩ := List.mem_map.mp member
    exact other old (matched old hit).2 token same
  have same : SameTokens state ⟨rows, state.log ++ [commit], state.world⟩ := by
    refine sameTokens_commit (fun token => ?_) fun token member => none_ token ((inserted _).mp member)
    rw [replaced]
    constructor
    · rintro (⟨present, -⟩ | new)
      · exact present
      · exact absurd new (none_ token)
    · refine fun present => .inl ⟨present, fun old hit same => ?_⟩
      obtain ⟨-, matches_⟩ := matched old hit
      cases old with
      | refreshToken found => rw [apart] at matches_; cases matches_
      | _ => simp [primary] at same
  exact ⟨Facts.same app same, fun third _ => same.grows third, calm.same _ _ same held⟩

theorem Calm.ask (calm : Calm pid holds) {request : Request} (plain : request ≠ .randomUUID) :
    Does rules pid holds (ask request) fun _ => holds := by
  refine Step.ask calm.steady (fun shared choice reply world app held answered => ?_) fun _ => calm.steady
  have same : world = shared.world := by
    cases request <;> cases choice <;> simp_all [respond]
  subst same
  exact ⟨app, fun other _ => rotation.refl other _, held⟩

theorem Calm.findUsers (calm : Calm pid holds) (p : User → Bool) :
    Does rules pid holds (findUsers p) fun _ => holds := by
  refine readonly calm.steady ?_ fun state _ idle app held => ?_
  · have discipline := (rotation.protocol : Protocol Row Unit World).discipline respond rules
    refine Triple.bind discipline (fun _ => Protocol.Unless pid (Untouched pid holds))
      (untouched_select calm.steady _) fun users => ?_
    refine Triple.bind discipline (fun _ => Protocol.Unless pid (Untouched pid holds))
      (untouched_select calm.steady _) fun tenants => ?_
    exact Triple.ret discipline (Protocol.Returns fun _ => Protocol.Unless pid (Untouched pid holds))
      (untouched_lasting calm.steady).stable
  · have same := sameTokens_idle state idle
    exact ⟨Facts.same app same, fun other _ => same.grows other, calm.same _ _ same held⟩

theorem Calm.updateUser (calm : Calm pid holds) (id : Uuid) (f : User → User) :
    Does rules pid holds (updateUser id f) fun _ => holds := by
  refine Step.bind (fun _ => holds) (calm.update ?_ ?_ ?_) fun rows => ?_
  · intro row; cases row <;> rfl
  · intro row matches_ token
    cases row <;> simp_all [Row.isUser, Row.mapUser]
  · intro token; rfl
  · split
    · exact Step.keep calm.steady
    · exact Step.fail

theorem Calm.checkActive (calm : Calm pid holds) (user : User) (tenant : Option Tenant) :
    Does rules pid holds (checkActive user tenant) fun _ => holds := by
  unfold Auth.checkActive
  split
  · exact Step.fail
  · split
    · exact Step.fail
    · exact Step.keep calm.steady

theorem Calm.recordFailure (calm : Calm pid holds) (id : Uuid) (now : Time) :
    Does rules pid holds (recordFailure id now) fun _ => holds := by
  refine Step.bind (fun _ => holds) (calm.updateUser id _) fun user => ?_
  split
  · exact Step.keep calm.steady
  · exact Step.bind (fun _ => holds) (calm.updateUser id _) fun _ => Step.fail

theorem Calm.recordFailures (calm : Calm pid holds) (users : List (User × Option Tenant)) (now : Time) :
    Does rules pid holds (users.forM fun (user, _) => Auth.recordFailure user.id now) fun _ => holds := by
  induction users with
  | nil => exact Step.keep calm.steady
  | cons head rest ih => exact Step.bind (fun _ => holds) (calm.recordFailure head.1.id now) fun _ => ih

end Calm

def asToken : Row → Option RefreshToken
  | .refreshToken token => some token
  | _ => none

theorem rewrites_of_update {pid : Tid} {state : Seen} {hits rows : List Row} {commit : Commit Row Unit}
    (mine : commit.tid = pid) {q : RefreshToken → Bool}
    {g : RefreshToken → RefreshToken}
    (keeps : ∀ old, { g old with id := old.id, tokenHash := old.tokenHash } = g old)
    (matched : ∀ old ∈ hits, old ∈ state.rows ∧ Row.isToken q old = true)
    (replaced : ∀ row, row ∈ rows ↔ (row ∈ state.rows ∧ ∀ old ∈ hits, primary old ≠ primary row) ∨
      row ∈ hits.map (Row.mapToken g))
    (inserted : ∀ row, row ∈ commit.tx.added ↔ row ∈ hits.map (Row.mapToken g)) :
    ∃ olds, (∀ old, old ∈ olds ↔ Row.refreshToken old ∈ hits) ∧ (∀ old ∈ olds, q old = true) ∧
      Rewrites pid g olds state ⟨rows, state.log ++ [commit], state.world⟩ := by
  have tokens : ∀ row ∈ hits, ∃ old, row = .refreshToken old := by
    intro row member
    obtain ⟨-, matches_⟩ := matched row member
    cases row with
    | refreshToken old => exact ⟨old, rfl⟩
    | _ => cases matches_
  have images : ∀ token, Row.refreshToken token ∈ hits.map (Row.mapToken g) ↔
      ∃ old, Row.refreshToken old ∈ hits ∧ token = g old := by
    intro token
    constructor
    · intro member
      obtain ⟨row, hit, same⟩ := List.mem_map.mp member
      obtain ⟨old, rfl⟩ := tokens row hit
      exact ⟨old, hit, (keeps old ▸ Row.refreshToken.inj same).symm⟩
    · rintro ⟨old, hit, rfl⟩
      exact List.mem_map.mpr ⟨.refreshToken old, hit, congrArg Row.refreshToken (keeps old)⟩
  refine ⟨hits.filterMap asToken, fun old => ?_, ?_, ?_⟩
  · simp only [List.mem_filterMap]
    constructor
    · rintro ⟨row, hit, same⟩
      obtain ⟨found, rfl⟩ := tokens row hit
      cases same
      exact hit
    · exact fun hit => ⟨_, hit, rfl⟩
  · intro old member
    obtain ⟨row, hit, same⟩ := List.mem_filterMap.mp member
    obtain ⟨found, rfl⟩ := tokens row hit
    cases same
    exact (matched _ hit).2
  · have member : ∀ old, old ∈ hits.filterMap asToken ↔ Row.refreshToken old ∈ hits := by
      intro old
      simp only [List.mem_filterMap]
      constructor
      · rintro ⟨row, hit, same⟩
        obtain ⟨found, rfl⟩ := tokens row hit
        cases same
        exact hit
      · exact fun hit => ⟨_, hit, rfl⟩
    refine ⟨fun old isOld => (matched _ ((member old).mp isOld)).1, fun token => ?_,
      fun other token => ?_, rfl⟩
    · simp only [Token, replaced, images, member]
      refine or_congr_left (and_congr_right
        fun _ => ⟨fun differs old hit same => differs _ hit ?_, fun differs row hit => ?_⟩)
      · exact congrArg IndexKey.refreshToken same
      · obtain ⟨old, rfl⟩ := tokens row hit
        exact fun same => differs old hit (IndexKey.refreshToken.inj same)
    · rw [logged_append, mine, inserted, images]
      simp only [member]

theorem Rewrites.single {state next : Seen} {g : RefreshToken → RefreshToken} {olds : List RefreshToken}
    {old : RefreshToken}
    (rewrites : Rewrites pid g olds state next) (member : old ∈ olds) (all : ∀ other ∈ olds, other = old) :
    Rewrites pid g [old] state next := by
  have only : ∀ other, other ∈ olds ↔ other = old := fun other => ⟨all other, fun same => same ▸ member⟩
  refine ⟨?_, fun token => (rewrites.token token).trans ?_,
    fun other token => (rewrites.logged other token).trans ?_,
    rewrites.world⟩
  · simpa using rewrites.present old member
  · simp [only]
  · simp [only]

variable (crypto : Crypto)

/-! ## Calls -/

theorem revokeFamily_calm {holds : Seen → Prop} (steady : Steady rotation pid holds) (family : Uuid)
    (now : Time) :
    Does rules pid holds (revokeFamily family now) fun _ _ => True := by
  refine Step.bind (fun _ _ => True) (PublicProtocol.update ?_ steady ?_ fun _ _ _ _ _ _ _ => trivial)
    fun _ => Step.keep fun _ _ _ _ _ _ => trivial
  · intro row; cases row <;> rfl
  · intro state hits rows commit app apart _ mine matched replaced inserted
    obtain ⟨olds, -, -, rewrites⟩ := rewrites_of_update mine (fun _ => rfl) matched replaced inserted
    have tokens := apart_of_noClash apart
    exact ⟨Facts.revoke app tokens rewrites, fun other distinct =>
      rewrites.grows tokens (fun _ => ⟨rfl, rfl, rfl⟩) distinct,
      trivial⟩

theorem findToken_known (token : String) :
    Does rules pid (Fresh pid) (findToken crypto token) fun found state =>
      Fresh pid state ∧ ∀ row, found = some row → row.tokenHash = crypto.sha256 token ∧ Known row state := by
  have calm : ∀ rows : List Row, Calm pid fun state => Fresh pid state ∧
      ∀ row, Row.refreshToken row ∈ rows → row.tokenHash = crypto.sha256 token ∧ Known row state := by
    intro rows
    refine (fresh_calm pid).and ⟨fun state next app later grows held row member => ?_,
      fun state next same held row member => ?_⟩
    · exact ⟨(held row member).1, (known_calm pid row).steady state next app later grows (held row member).2⟩
    · exact ⟨(held row member).1, (known_calm pid row).same state next same (held row member).2⟩
  refine Step.bind (fun rows state => Fresh pid state ∧
      ∀ row, Row.refreshToken row ∈ rows → row.tokenHash = crypto.sha256 token ∧ Known row state)
    (PublicProtocol.select (fresh_calm pid).steady (fun state _ fresh => ⟨fresh, fun row member => ?_⟩)
      (fun rows => (calm rows).steady) fun state _ rows idle app held => ?_) fun rows => ?_
  · obtain ⟨present, matches_⟩ := List.mem_filter.mp member
    exact ⟨by simpa [Row.isToken] using matches_, row, present, rfl, rfl, rfl⟩
  · have same := sameTokens_idle state idle
    exact ⟨Facts.same app same, fun other _ => same.grows other, (calm rows).same _ _ same held⟩
  · refine Step.strengthen (Step.ret _ ?_) fun state _ held => ⟨held.1, fun row found => held.2 row ?_⟩
    · intro state next app later grows held
      refine ⟨(fresh_calm pid).steady state next app later grows held.1, fun row found => ?_⟩
      exact ⟨(held.2 row found).1,
        (known_calm pid row).steady state next app later grows (held.2 row found).2⟩
    · obtain ⟨found_, member, is⟩ := List.exists_of_findSome?_eq_some found
      cases found_ <;> simp_all

-- A successful rotation: the process may issue the next token, once.
theorem rotate_permits (row : RefreshToken) (now : Time) :
    Does rules pid (fun state => Fresh pid state ∧ Known row state)
      (query (.update (Row.isToken fun token => token.id == row.id && token.rotatedAt.isNone &&
        token.revokedAt.isNone)
        (Row.mapToken fun token => { token with rotatedAt := some now })))
      fun claimed state => claimed.isEmpty = true ∨ (Permit pid row.familyId state ∧
        Exchanged pid row.tokenHash state) := by
  have after : ∀ claimed : List Row, Steady rotation pid fun state =>
      claimed.isEmpty = true ∨ (Permit pid row.familyId state ∧ Exchanged pid row.tokenHash state) := by
    intro claimed state next app later grows held
    exact held.imp id (((permit_calm pid _).and (exchanged_calm pid _)).steady state next app later grows)
  refine PublicProtocol.update ?_ ((fresh_calm pid).and (known_calm pid row)).steady ?_ after
  · intro row; cases row <;> rfl
  · rintro state hits rows commit app apart ⟨fresh, current, present, id, family,
      hash⟩ mine matched replaced inserted
    obtain ⟨olds, members, claims, rewrites⟩ :=
      rewrites_of_update mine (fun _ => rfl) matched replaced inserted
    have tokens := apart_of_noClash apart
    have grows : ∀ other, other ≠ pid → Grows other state _ := fun other distinct =>
      rewrites.grows tokens (fun _ => ⟨rfl, rfl, rfl⟩) distinct
    have isCurrent : ∀ old ∈ olds, old = current := by
      intro old member
      have same := claims old member
      simp only [Bool.and_eq_true, beq_iff_eq] at same
      exact tokens old current (rewrites.present old member) present (.inl (same.1.1.trans id.symm))
    cases olds with
    | nil =>
        have same : SameTokens state ⟨rows, state.log ++ [commit], state.world⟩ :=
          ⟨fun token => (rewrites.token token).trans (by simp),
            fun other token => (rewrites.logged other token).trans (by simp), rfl⟩
        refine ⟨Facts.same app same, grows, .inl ?_⟩
        have empty : hits = [] := by
          refine List.eq_nil_iff_forall_not_mem.mpr fun hit member => ?_
          obtain ⟨-, matches_⟩ := matched hit member
          cases hit with
          | refreshToken old => cases (members old).mpr member
          | _ => cases matches_
        simp [empty]
    | cons old rest =>
        have isOld := isCurrent old (List.mem_cons_self ..)
        subst isOld
        have live : old.Live := by
          have same := claims old (List.mem_cons_self ..)
          simp only [Bool.and_eq_true, beq_iff_eq, Option.isNone_iff_eq_none] at same
          exact ⟨same.1.2, same.2⟩
        have rewrite_ := rewrites.single (List.mem_cons_self ..) isCurrent
        have logged : Logged ⟨rows, state.log ++ [commit],
            state.world⟩ pid { old with rotatedAt := some now } :=
          (rewrite_.logged pid _).mpr (.inr ⟨rfl, old, List.mem_singleton.mpr rfl, rfl⟩)
        have rotated : ({ old with rotatedAt := some now } : RefreshToken).Rotated := ⟨rfl, live.2⟩
        refine ⟨Facts.rotate app tokens live rewrite_, grows,
          .inr ⟨⟨.inl ⟨_, logged, rotated, family⟩, ?_⟩, ⟨_, logged, rotated, hash⟩⟩⟩
        rintro ⟨token, found, alive, -⟩
        rcases (rewrite_.logged pid token).mp found with earlier | ⟨-, other, -, rfl⟩
        · exact fresh.1 token earlier
        · exact absurd alive.1 (by simp)

/-- The transaction of `issue`, its token inserted. -/
structure Issuing (pid : Tid) (new : RefreshToken) (holds : Seen → Prop) (shared : State) : Prop where
  added : ∀ token, Row.refreshToken token ∈ (shared.server.txs pid).added ↔ token = new
  removed : ∀ key ∈ (shared.server.txs pid).removed, ∃ id, key = IndexKey.user id
  holds : holds shared.public

theorem issuing_lasting {new : RefreshToken} {holds : Seen → Prop} (steady : Steady rotation pid holds) :
    (rotation.protocol : Protocol Row Unit World).Lasting pid (Issuing pid new holds) := by
  rintro shared next inv later ⟨added, removed, held⟩ same - grow
  refine ⟨?_, ?_, steady _ _ inv.2 later.2 grow held⟩ <;> rw [same]
  · exact added
  · exact removed

theorem issuing_commit {new : RefreshToken} {holds : Seen → Prop} {shared : State}
    (facts : Facts shared.public) (live : new.Live)
    (keeps : ∀ next : Seen, (∀ token, Logged shared.public pid token → Logged next pid token) →
      holds shared.public → holds next)
    (issuing : Issuing pid new (fun state => Permit pid new.familyId state ∧ holds state) shared) :
    let next : State := { shared with server := shared.server.commit pid }
    Facts next.public ∧ (∀ other, other ≠ pid → Grows other shared.public next.public) ∧
        holds next.public := by
  intro next
  obtain ⟨added, removed, permit, held⟩ := issuing
  have token : ∀ token, Token next.public token ↔ Token shared.public token ∨ token = new := by
    intro token
    refine Tx.mem_view.trans (or_congr ⟨fun present => present.1, fun present => ⟨present, ?_⟩⟩ (added token))
    rw [Bool.eq_false_iff, ne_eq, Tx.removes_iff]
    intro gone
    obtain ⟨id, same⟩ := removed _ gone
    cases same
  have logged : ∀ other token, Logged next.public other token ↔
      Logged shared.public other token ∨ (other = pid ∧ token = new) := by
    intro other token
    have grown : Logged ⟨next.server.rows, shared.public.log ++
      [⟨pid, shared.server.rows, shared.server.txs pid⟩], shared.world⟩
        other token ↔ _ := logged_append
    exact grown.trans (or_congr_right (and_congr_right fun _ => added token))
  refine ⟨facts.issue live permit token logged rfl, fun other distinct =>
    ⟨fun token => ?_, fun _ => .rfl, ?_⟩, ?_⟩
  · exact (logged other token).trans (by simp [distinct])
  · exact fun found present => ⟨found, (token found).mpr (.inl present), rfl, rfl, rfl⟩
  · exact keeps next.public (fun found earlier => (logged pid found).mpr (.inl earlier)) held

/-- What survives the commit of the next token: anything that only needs what the process has committed. -/
structure Kept (pid : Tid) (holds : Seen → Prop) : Prop extends Calm pid holds where
  keeps : ∀ state next : Seen, (∀ token, Logged state pid token → Logged next pid token) →
    holds state → holds next

theorem issue_kept {holds : Seen → Prop} (kept : Kept pid holds) (user : User) (family : Uuid) (now : Time) :
    Does rules pid (fun state => Permit pid family state ∧ holds state)
    (issue crypto user family now) fun _ => holds := by
  have calm := (permit_calm pid family).and kept.toCalm
  have discipline := (rotation.protocol : Protocol Row Unit World).discipline respond rules
  refine Step.bind (fun _ state => Permit pid family state ∧ holds state) (calm.select _) fun grants => ?_
  refine Step.bind (fun _ state => Permit pid family state ∧ holds state) (calm.ask (by simp))
    fun refresh_token => ?_
  refine Step.bind (fun _ state => Permit pid family state ∧ holds state) (calm.ask (by simp)) fun id => ?_
  refine Step.bind (fun _ => holds) ?_ fun _ => Step.keep kept.steady
  let new : RefreshToken := ⟨id, user.id, user.tenantId, family, crypto.sha256 refresh_token,
    now + REFRESH_TTL_MS, none, none⟩
  refine Protocol.transaction (Untouched pid fun state => Permit pid family state ∧ holds state)
    (fun _ => Issuing pid new fun state => Permit pid family state ∧ holds state) calm.steady.stable
    (fun shared inv _ held _ => ⟨inv.2, fun other _ => rotation.refl other _, untouched_begin held⟩) ?_
    (fun _ => issuing_lasting calm.steady) ?_ (fun _ => kept.steady.stable)
  · refine Triple.bind discipline (fun _ => Protocol.Unless pid (Untouched pid
      fun state => Permit pid family state ∧ holds state))
      (Protocol.sql (untouched_lasting calm.steady) (fun _ _ => untouched_setTx)
        (fun _ => untouched_lasting calm.steady) ?_)
      fun owner => ?_
    · rintro started shared rows tx - - - ⟨added, removed, held⟩ - - run
      obtain ⟨-, rfl⟩ := execute_shareKey run
      exact ⟨by simpa using added, by simpa using removed, held⟩
    split
    · exact fun shared inv _ later moved => ⟨(moved inv).1, trivial⟩
    refine Triple.bind discipline
      (fun _ => Protocol.Unless pid (Issuing pid new fun state => Permit pid family state ∧ holds state))
      (Protocol.sql (untouched_lasting calm.steady) (fun _ _ => untouched_setTx)
        (fun _ => issuing_lasting calm.steady) ?_)
      fun inserted => ?_
    · rintro started shared rows tx - - - ⟨added, removed, held⟩ - - run
      obtain ⟨change, -, all⟩ := execute_insert run
      have rows_ := all rfl
      subst rows_
      refine ⟨fun token => ?_, fun key member => ?_, held⟩
      · simp only [Server.setTx_same, change.added, added]
        simp [new]
      · simp only [Server.setTx_same] at member
        rcases change.removed key member with old | ⟨_, absurd_, -⟩
        · simp [removed] at old
        · cases absurd_
    refine Triple.bind discipline
      (fun _ => Protocol.Unless pid (Issuing pid new fun state => Permit pid family state ∧ holds state))
      (Protocol.sql (issuing_lasting calm.steady) ?_ (fun _ => issuing_lasting calm.steady) ?_)
        fun updated => ?_
    · rintro shared tx ⟨added, removed, held⟩ same
      refine ⟨?_, ?_, held⟩ <;> simp only [Server.setTx_same] <;> rw [same]
      · exact added
      · exact removed
    · rintro started shared rows tx - inv - ⟨added, removed, held⟩ - - run
      obtain ⟨rfl, change⟩ := execute_update inv.1 (fun row => by cases row <;> rfl) run
      have users : ∀ old ∈ shared.server.hits pid (Row.isUser fun other => other.id == user.id), ∃ user,
          old = .user user := by
        intro old member
        obtain ⟨-, matches_, -⟩ := mem_hits.mp member
        cases old with
        | user user => exact ⟨user, rfl⟩
        | _ => cases matches_
      refine ⟨fun token => ?_, fun key member => ?_, held⟩
      · simp only [Server.setTx_same, change.added, added]
        constructor
        · rintro (⟨same, -⟩ | changed)
          · exact same
          · obtain ⟨old, hit, image⟩ := List.mem_map.mp changed
            obtain ⟨user, rfl⟩ := users old hit
            cases image
        · refine fun same => .inl ⟨same, fun old hit clash => ?_⟩
          obtain ⟨user, rfl⟩ := users old hit
          cases clash
      · simp only [Server.setTx_same] at member
        rcases change.removed key member with old | ⟨old, hit, rfl⟩
        · exact removed key old
        · obtain ⟨user, rfl⟩ := users old hit
          exact ⟨user.id, rfl⟩
    split
    · exact fun shared inv _ later moved => ⟨(moved inv).1, trivial⟩
    · exact Triple.ret discipline
        (Protocol.Returns fun _ => Protocol.Unless pid (Issuing pid new
          fun state => Permit pid family state ∧ holds state))
        (issuing_lasting calm.steady).stable
  · exact fun _ shared inv _ issuing _ => issuing_commit inv.2 ⟨rfl, rfl⟩ (kept.keeps shared.public) issuing

theorem Kept.true_ (pid : Tid) : Kept pid fun _ => True := ⟨.true_ pid, fun _ _ _ _ => trivial⟩

theorem exchanged_kept (pid : Tid) (hash : String) : Kept pid (Exchanged pid hash) :=
  ⟨exchanged_calm pid hash, fun _ _ keeps ⟨token, logged, rest⟩ => ⟨token, keeps token logged, rest⟩⟩

theorem randomUUID_permits :
    Does rules pid (Fresh pid) (ask .randomUUID) fun family state => Permit pid family state ∧ True := by
  refine Step.ask (fresh_calm pid).steady (fun shared choice family world app fresh answered => ?_)
    fun family => ((permit_calm pid family).and (.true_ pid)).steady
  cases choice with
  | uuid id =>
      simp only [respond] at answered
      split at answered
      · cases answered
      · next unused =>
          cases answered
          refine ⟨Facts.draw app unused, fun other distinct =>
            ⟨fun _ => .rfl, fun group => ?_, fun token present => ?_⟩, ?_, trivial⟩
          · refine List.mem_cons.trans (or_iff_right fun same => distinct ?_)
            exact Option.some.inj (congrArg Prod.fst same)
          · exact ⟨token, present, rfl, rfl, rfl⟩
          · exact ⟨.inr (List.mem_cons_self ..), fun ⟨token, logged, _⟩ => fresh.1 token logged⟩
  | _ => cases answered

theorem findVerified_does (password : String) (free : List (User × Option Tenant)) :
    Does rules pid (Fresh pid) (findVerified password free) fun _ => Fresh pid := by
  have calm := fresh_calm pid
  induction free with
  | nil => exact Step.keep calm.steady
  | cons entry rest ih =>
    obtain ⟨user, tenant⟩ := entry
    refine Step.bind (fun _ => Fresh pid) ?_ fun right => ?_
    · unfold verifyPassword
      cases user.passwordHash with
      | some hash => exact calm.ask (by simp)
      | none => exact Step.keep calm.steady
    · cases right with
      | true => exact Step.keep calm.steady
      | false => exact ih

theorem login_does (email password : String) :
    Does rules pid (Fresh pid) (login crypto email password) fun _ _ => True := by
  have calm := fresh_calm pid
  refine Step.bind (fun _ => Fresh pid) (calm.ask (by simp)) fun now => ?_
  refine Step.bind (fun _ => Fresh pid) (calm.select _) fun ids => ?_
  refine Step.bind (fun _ => Fresh pid) (calm.findUsers _) fun users => ?_
  refine Step.bind (fun _ => Fresh pid) (findVerified_does password _) fun chosen => ?_
  refine Step.bind (fun _ => Fresh pid) ?_ fun _ => ?_
  · unfold verifyNobody
    split
    · exact calm.ask (by simp)
    · exact Step.keep calm.steady
  cases chosen with
  | none =>
      generalize List.find? _ users = locked
      cases locked with
      | none => exact Step.bind (fun _ => Fresh pid) (calm.recordFailures _ _) fun _ => Step.fail
      | some locked => exact Step.fail
  | some chosen =>
      refine Step.bind (fun _ => Fresh pid) (calm.checkActive _ _) fun _ => ?_
      split
      · exact Step.strengthen (Step.keep (Kept.true_ pid).steady) fun _ _ _ => trivial
      · refine Step.bind (fun family state => Permit pid family state ∧
          True) randomUUID_permits fun family => ?_
        exact Step.bind (fun _ _ => True) (issue_kept crypto (.true_ pid) _ family _)
          fun _ => Step.keep (Kept.true_ pid).steady

theorem verifyMfa_does (mfaToken code : String) :
    Does rules pid (Fresh pid) (verifyMfa crypto mfaToken code) fun _ _ => True := by
  have calm := fresh_calm pid
  refine Step.bind (fun _ => Fresh pid) (calm.ask (by simp)) fun now => ?_
  dsimp only
  cases crypto.verifyMfaToken mfaToken now with
  | none => exact Step.fail
  | some sub =>
      refine Step.bind (fun _ => Fresh pid) (Step.keep calm.steady) fun sub => ?_
      refine Step.bind (fun _ => Fresh pid) (calm.findUsers _) fun found => ?_
      cases found with
      | nil => exact Step.fail
      | cons first rest =>
          obtain ⟨user, tenant⟩ := first
          -- what follows the check of the code, whichever code it was
          have finish : ∀ ok : Bool, Does rules pid (Fresh pid)
              (if ok = true then do
                let family ← ask .randomUUID
                issue crypto user family now
              else do
                recordFailure user.id now
                throw (.unauthorized "Invalid code")) fun _ _ => True := by
            intro ok
            split
            · exact Step.bind (fun family state => Permit pid family state ∧
                  True) randomUUID_permits fun family =>
                issue_kept crypto (.true_ pid) _ family _
            · exact Step.bind (fun _ => Fresh pid) (calm.recordFailure _ _) fun _ => Step.fail
          dsimp only
          split
          · split
            · exact Step.fail
            · refine Step.bind (fun _ => Fresh pid) (calm.checkActive _ _) fun _ => ?_
              split
              · exact Step.bind (fun _ => Fresh pid) (calm.ask (by simp)) fun ok => finish ok
              · refine Step.bind (fun _ => Fresh pid) (calm.update ?_ ?_ ?_) fun used => finish _
                · intro row; cases row <;> rfl
                · intro row matches_ token
                  cases row <;> simp at matches_ ⊢
                · intro token; rfl
          · exact Step.fail

theorem refresh_exchanges (token : String) :
    Does rules pid (Fresh pid) (refresh crypto token) fun _ => Exchanged pid (crypto.sha256 token) := by
  have calm := fresh_calm pid
  refine Step.bind (fun _ => Fresh pid) (calm.ask (by simp)) fun now => ?_
  dsimp only
  refine Step.bind _ (findToken_known crypto token) fun found => ?_
  cases found with
  | none => exact Step.fail
  | some row =>
      have known : ∀ state, (Fresh pid state ∧ ∀ found, some row = some found →
          found.tokenHash = crypto.sha256 token ∧ Known found state) →
          row.tokenHash = crypto.sha256 token ∧ Fresh pid state ∧ Known row state :=
        fun state held => ⟨(held.2 row rfl).1, held.1, (held.2 row rfl).2⟩
      refine Step.strengthen (Step.fact fun hash => ?_) fun state _ => known state
      dsimp only
      split
      · exact Step.fail
      · refine Step.bind _ (rotate_permits row now) fun claimed => ?_
        split
        · exact Step.bind (fun _ _ => True) (Step.strengthen (revokeFamily_calm (Kept.true_ pid).steady _ _)
            fun _ _ _ => trivial)
            fun _ => Step.fail
        · next nonempty =>
            have permit := (permit_calm pid row.familyId).and (exchanged_calm pid row.tokenHash)
            refine Step.strengthen ?_ fun state _ held => held.resolve_left nonempty
            refine Step.bind (fun _ state => Permit pid row.familyId state ∧
              Exchanged pid row.tokenHash state)
              (permit.findUsers _) fun users => ?_
            cases users with
            | nil => exact Step.fail
            | cons first rest =>
                refine Step.bind (fun _ state => Permit pid row.familyId state ∧
                  Exchanged pid row.tokenHash state)
                  (permit.checkActive _ _) fun _ => ?_
                exact hash ▸ issue_kept crypto (exchanged_kept pid row.tokenHash) _ _ _

theorem logout_does (userId : Uuid) (token : String) :
    Does rules pid (Fresh pid) (logout crypto userId token) fun _ _ => True := by
  refine Step.bind _ (findToken_known crypto token) fun found => ?_
  have steady := (Kept.true_ pid).steady
  refine Step.strengthen ?_ fun _ _ _ => trivial
  cases found with
  | none => exact Step.keep steady
  | some row =>
      dsimp only
      split
      · exact Step.bind (fun _ _ => True) ((Calm.true_ pid).ask (by simp))
          fun now => revokeFamily_calm steady _ _
      · exact Step.keep steady

/-- What a call that has answered with tokens has done. -/
def Answered (crypto : Crypto) (pid : Tid) (call : Call) (answer : Option TokenPair) (state : Seen) : Prop :=
  ∀ token, call = .refresh token → answer.isSome = true → Exchanged pid (crypto.sha256 token) state

theorem code_answers (call : Call) :
    Does rules pid (Fresh pid) (code crypto call) fun answer => Answered crypto pid call answer := by
  have steady := (Kept.true_ pid).steady
  -- a call that is not a refresh has nothing to answer for
  have quiet : ∀ {script : AuthScript (Option TokenPair)}, (∀ token, call ≠ .refresh token) →
      Does rules pid (Fresh pid) script (fun _ _ => True) →
      Does rules pid (Fresh pid) script fun answer => Answered crypto pid call answer :=
    fun not_ does => Step.weaken does fun _ _ _ _ token same => absurd same (not_ token)
  cases call with
  | login email password =>
      refine quiet (by simp) (Step.bind (fun _ _ => True) (login_does crypto email password) fun result => ?_)
      cases result <;> exact Step.keep steady
  | verifyMfa mfaToken code =>
      exact quiet (by simp) (Step.bind (fun _ _ => True) (verifyMfa_does crypto mfaToken code)
        fun _ => Step.keep steady)
  | refresh token =>
      have exchanged : Does rules pid (Fresh pid) (code crypto (.refresh token))
          fun _ => Exchanged pid (crypto.sha256 token) :=
        Step.bind (fun _ => Exchanged pid (crypto.sha256 token)) (refresh_exchanges crypto token)
          fun _ => Step.keep (exchanged_calm pid _).steady
      refine Step.weaken exchanged fun answer state _ held other same _ => ?_
      cases same
      exact held
  | logout userId token =>
      exact quiet (by simp) (Step.bind (fun _ _ => True) (logout_does crypto userId token)
        fun _ => Step.keep steady)

/-! ## Every run -/

/-- The service on a database that holds these rows, before any call. -/
def initial (rows : List Row) : Config :=
  .start ⟨.holding rows, ⟨rows.filterMap fun | .refreshToken token => some (none, token.familyId) | _ => none⟩⟩

theorem facts_initial {rows : List Row}
    (one : ∀ first second, Row.refreshToken first ∈ rows → Row.refreshToken second ∈ rows →
      first.Live → second.Live →
      first.familyId = second.familyId → first = second) : Facts (initial rows).state.public := by
  have unlogged : ∀ pid token, ¬ Logged (initial rows).state.public pid token := by
    rintro pid token ⟨_, member, -⟩
    cases member
  have undrawn : ∀ pid family, ¬ Drew (initial rows).state.public pid family := by
    intro pid family drew
    obtain ⟨row, -, same⟩ := List.mem_filterMap.mp drew
    cases row <;> simp at same
  have unpermitted : ∀ pid family, ¬ Permit pid family (initial rows).state.public := by
    rintro pid family ⟨⟨token, logged, -⟩ | drew, -⟩
    · exact unlogged pid token logged
    · exact undrawn pid family drew
  refine ⟨one, fun pid _ family permit => absurd permit (unpermitted pid family),
    fun pid token permit => absurd permit (unpermitted pid _), fun token present => ?_,
      fun pid token logged => absurd logged (unlogged pid token),
      fun pid token logged => absurd logged (unlogged pid token),
    fun pid _ token _ logged => absurd logged (unlogged pid token)⟩
  exact List.mem_map.mpr ⟨(none, token.familyId),
    List.mem_filterMap.mpr ⟨.refreshToken token, present, rfl⟩, rfl⟩

/-- In every interleaving a refresh token is exchanged by at most one call, and a family
never has two tokens that could still be. -/
theorem refresh_once {rows : List Row} (apart : rows.Pairwise NoClash)
    (one : ∀ first second, Row.refreshToken first ∈ rows → Row.refreshToken second ∈ rows →
      first.Live → second.Live →
      first.familyId = second.familyId → first = second)
    {config : Config} (run : (machine respond).Reaches (code crypto) {} (initial rows) config) :
    (∀ first second token pair other, config.procs first = .running (.refresh token) (.ret (some pair)) →
      config.procs second = .running (.refresh token) (.ret (some other)) → first = second) ∧
    ∀ first second, Row.refreshToken first ∈ config.state.server.rows →
      Row.refreshToken second ∈ config.state.server.rows →
      first.Live → second.Live → first.familyId = second.familyId → first = second := by
  have sane : Sane (initial rows).state.server := sane_holding apart
  have fresh : ∀ pid, Fresh pid (initial rows).state.public := by
    refine fun pid => ⟨fun token logged => ?_, fun family drew => ?_⟩
    · obtain ⟨_, member, -⟩ := logged
      cases member
    · obtain ⟨row, -, same⟩ := List.mem_filterMap.mp drew
      cases row <;> simp at same
  obtain ⟨-, facts, answers⟩ := reaches (fun pid => (fresh_calm pid).steady)
    (fun pid call => code_answers crypto call) run
    sane (facts_initial one) fun pid => ⟨rfl, fresh pid⟩
  refine ⟨fun first second token pair other finished also => ?_, facts.one⟩
  obtain ⟨left, logged, rotated, hash⟩ := answers first _ _ finished token rfl rfl
  obtain ⟨right, also_, rotated', hash'⟩ := answers second _ _ also token rfl rfl
  exact facts.once first second left right logged also_ rotated rotated' (hash.trans hash'.symm)

/-- Cryptography that hides nothing, to run the service by hand. -/
def plainCrypto : Crypto where
  sha256 := id
  lower := id
  toLowerCase := id
  sort := id
  signAccess _ _ _ _ := "access"
  signMfa _ _ _ := "mfa"
  verifyMfaToken _ _ := none

def sessionRows : List Row := [
  .user ⟨1, none, "gus@acme.test", some "secret", .active, false, none, 0, none, none⟩,
  .refreshToken ⟨2, 1, none, 3, "t1", 100, none, none⟩]

/-- Two clients read the same token; the second finds it claimed and revokes the family
before the first inserts the next one. -/
def replayMoves : List (Move Call Draw) :=
  [.spawn 0 (.refresh "t1"), .spawn 1 (.refresh "t1")] ++ List.replicate 5 (.act 0 (.time 7)) ++
    List.replicate 5 (.act 1 (.time 8)) ++ List.replicate 4 (.act 0 (.time 9)) ++
      List.replicate 8 (.act 1 (.time 9)) ++
    List.replicate 10 (.act 0 (.time 9)) ++ [.act 0 (.bytes "t2"), .act 0 (.uuid 4)] ++
      List.replicate 8 (.act 0 (.time 9))

theorem refresh_once_replay :
    ∃ config, (machine respond).moves (code plainCrypto) replayMoves (initial sessionRows) = some config ∧
        ((config.procs 0).outcome, (config.procs 1).outcome) =
        (some (.ok (some ⟨"access", "t2", "Bearer", 900⟩)),
          some (.error (.unauthorized "Invalid refresh token"))) ∧
      (∀ first second token pair other, config.procs first = .running (.refresh token) (.ret (some pair)) →
        config.procs second = .running (.refresh token) (.ret (some other)) → first = second) ∧
      ∀ first second, Row.refreshToken first ∈ config.state.server.rows →
        Row.refreshToken second ∈ config.state.server.rows →
        first.Live → second.Live → first.familyId = second.familyId → first = second := by
  have ran : ((machine respond).moves (code plainCrypto) replayMoves (initial sessionRows)).map
      (fun config => ((config.procs 0).outcome, (config.procs 1).outcome)) =
        some (some (.ok (some ⟨"access", "t2", "Bearer", 900⟩)),
            some (.error (.unauthorized "Invalid refresh token"))) := by
    decide
  obtain ⟨config, moved, outcome⟩ := Option.map_eq_some_iff.mp ran
  have apart : sessionRows.Pairwise NoClash := by decide
  have reached := (machine respond).reaches_moves (code plainCrypto) .refl replayMoves moved
  refine ⟨config, moved, outcome,
    refresh_once plainCrypto apart (fun first second here there _ _ _ => ?_) reached⟩
  simp [sessionRows] at here there
  rw [here, there]

end OpenEmarsys.Auth
