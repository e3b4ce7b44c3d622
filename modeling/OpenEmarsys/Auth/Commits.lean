import OpenEmarsys.Auth.Families
import OpenEmarsys.Postgres.Endings

/-! The transactions of `AuthService`, each taken to the effect of its commit.

Whatever a call knows of the log before a transaction it still knows afterwards, and
of the tokens it has rewritten it knows what it matched and when.
-/

set_option autoImplicit false

namespace OpenEmarsys.Auth

open Postgres Interleaving

/-- The journal of a service that started with these rows. -/
def families (rows : List Row) : Chronicle Row Unit World where
  first := rows
  Effect := Effect rows
  Outside _ _ := True
  outside _ _ := trivial

/-- The world, with the clock reading of each call. A call reads the clock once. -/
def respondAt (clock : Tid → Time) (tid : Tid) : (request : Request) → Draw → State → Option
    (request.Reply × World)
  | .now, .time ms, shared => if ms = clock tid then some (ms, shared.world) else none
  | .now, _, _ => none
  | .randomUUID, draw, shared => respond tid .randomUUID draw shared
  | .randomBytes, draw, shared => respond tid .randomBytes draw shared
  | .rowId, draw, shared => respond tid .rowId draw shared
  | .verify account passwordHash password, draw, shared =>
    respond tid (.verify account passwordHash password) draw shared
  | .verifyDummy password, draw, shared => respond tid (.verifyDummy password) draw shared
  | .checkTotp account sealedSecret code, draw, shared =>
    respond tid (.checkTotp account sealedSecret code) draw shared

section Calls

variable {first : List Row} {clock : Tid →
  Time} {rules : Rules Call (Action Row Unit Request) State} {pid : Tid}
  {known : Log → Prop} {stage : Stage Row Unit}

/-- What a script does to the log, and what is known of the log afterwards. -/
abbrev Learns {α : Type} (first : List Row) (clock : Tid → Time)
    (rules : Rules Call (Action Row Unit Request) State) (pid : Tid)
    (known : Log → Prop) (script : AuthScript α) (post : α → Log → Prop) : Prop :=
  PublicProtocol.Step (families first).public_ (respondAt clock) rules pid
    (fun state => known state.log) script
    fun value state => post value state.log

theorem knows_steady (persists : Persists known) (pid : Tid) :
    PublicProtocol.Steady (families first).public_ pid fun state => known state.log :=
  Chronicle.steady persists pid

theorem learns_ret {α : Type} (persists : Persists known) (value : α) :
    Learns first clock rules pid known (.ret value) fun _ => known :=
  PublicProtocol.Step.keep (knows_steady persists pid)

theorem learns_bind {α β : Type} {script : AuthScript α} {next : α → AuthScript β} {middle : α → Log → Prop}
    {post : β → Log → Prop} (head : Learns first clock rules pid known script middle)
    (tail : ∀ value, Learns first clock rules pid (middle value) (next value) post) :
    Learns first clock rules pid known (script >>= next) post :=
  PublicProtocol.Step.bind (fun value state => middle value state.log) head tail

theorem learns_ask (persists : Persists known) (request : Request) :
    Learns first clock rules pid known (ask request) fun _ => known :=
  PublicProtocol.Step.ask (knows_steady persists pid) (fun _ _ _ _ app held _ =>
    ⟨⟨app.journal, app.rows, trivial⟩, fun _ _ => List.prefix_rfl, held⟩) fun _ => knows_steady persists pid

theorem learns_now (persists : Persists known) :
    Learns first clock rules pid known (ask .now) fun now log => now = clock pid ∧ known log := by
  refine PublicProtocol.Step.ask (knows_steady persists pid)
    (fun shared choice now world app held answered => ?_)
    fun now => knows_steady ((persists_const _).and persists) pid
  refine ⟨⟨app.journal, app.rows, trivial⟩, fun _ _ => List.prefix_rfl, ?_, held⟩
  cases choice with
  | time ms =>
    simp only [respondAt] at answered
    split at answered
    · next same =>
      cases answered
      exact same
    · cases answered
  | _ => cases answered

theorem effect_of_stage {shared : State} {done : Log → Prop} (at_ : Stage.At first pid stage done shared)
    (new : ∀ token ∈ tokens (stage.contents .tokens).new, token.Live ∨
      ∃ old ∈ tokens (stage.contents .tokens).gone, Turn old token)
    (gone : ∀ old ∈ tokens (stage.contents .tokens).gone,
      ∃ token ∈ tokens (stage.contents .tokens).new, Turn old token)
    (covers : let commit : Commit Row Unit := ⟨pid, shared.server.rows, shared.server.txs pid⟩
      ∀ token ∈ tokens (stage.contents .tokens).new, token.revokedAt.isSome = true →
          ∃ start, start <+: shared.server.log ∧ commit.tx.begun ≤ start.length ∧ ∀ open_ ∈ tokens commit.after,
          open_.familyId = token.familyId → open_.revokedAt = none →
          open_ ∈ tokens commit.before ∧ ∀ old ∈ tokens (rowsAfter first start), old.id ≠ open_.id) :
    Effect first shared.server.log ⟨pid, shared.server.rows, shared.server.txs pid⟩ := by
  have added : ∀ token, token ∈ tokens (shared.server.txs pid).added ↔
      token ∈ tokens (stage.contents .tokens).new := fun token => by
    simp only [mem_tokens, at_.contents.added]
    rfl
  have present : ∀ old, old ∈ tokens (stage.contents .tokens).gone →
      old ∈ tokens shared.server.rows := fun old member =>
    mem_tokens.mpr (at_.contents.gone .tokens _ (mem_tokens.mp member)).2
  refine ⟨fun token member => ?_, fun id removed => ?_,
    fun token member => covers token ((added token).mp member)⟩
  · rcases new token ((added token).mp member) with live | ⟨old, hit, turn⟩
    · exact .inl live
    · exact .inr ⟨old, present old hit, turn⟩
  · obtain ⟨old, member, same⟩ := (at_.contents.removed _).mp removed
    cases old with
    | refreshToken old =>
      have hit := mem_tokens.mpr member
      obtain ⟨token, written, turn⟩ := gone old hit
      exact ⟨old, present old hit, by cases same; rfl, token, (added token).mpr written, turn⟩
    | _ => cases same

theorem effect_quiet {shared : State} {done : Log → Prop} (at_ : Stage.At first pid stage done shared)
    (quiet : stage.contents .tokens = ⟨[], []⟩) :
    Effect first shared.server.log ⟨pid, shared.server.rows, shared.server.txs pid⟩ := by
  refine effect_of_stage at_ ?_ ?_ ?_ <;> simp [quiet, tokens]

/-- A transaction has got somewhere without touching a token. -/
def Untouched (first : List Row) (pid : Tid) (done : Log → Prop) (shared : State) : Prop :=
  ∃ stage : Stage Row Unit, Stage.At first pid stage done shared ∧ stage.contents .tokens = ⟨[], []⟩

theorem untouched_lasting {done : Log → Prop} (persists : Persists done) :
    (families first).protocol.Lasting pid (Untouched first pid done) := by
  rintro shared next inv later ⟨stage, at_, quiet⟩ same alongside grown
  exact ⟨stage, Stage.At.lasting persists shared next inv later at_ same alongside grown, quiet⟩

theorem learns_quiet {α : Type} (persists : Persists known) {body : AuthScript α} (done : α → Log → Prop)
    (lasts : ∀ value, Persists (done value))
    (runs : ∀ opened, (families first).protocol.Proves (respondAt clock) rules pid
      (Stage.Here (families first) pid ⟨(), opened, [], .empty⟩ known) body
      (Protocol.Returns fun value => Protocol.Unless pid (Untouched first pid (done value)))) :
    Learns first clock rules pid known (transaction () body) done := by
  refine Stage.transaction persists (fun value => Untouched first pid (done value)) done runs
    (fun value => untouched_lasting (lasts value)) ?_ lasts
  rintro value shared - ⟨stage, at_, quiet⟩
  exact ⟨effect_quiet at_ quiet, lasts value _ _ (List.prefix_append ..) at_.known⟩

/-- What a query replies, as the table was at some time. -/
def Read (first : List Row) (known : Log → Prop) (p : Row → Bool) (rows : List Row) : Log → Prop :=
  Once fun past => known past ∧ ∀ row, row ∈ rows ↔ p row = true ∧ row ∈ rowsAfter first past

theorem learns_select (persists : Persists known) (p : Row → Bool) :
    Learns first clock rules pid known (query (.select p)) fun rows log => known log ∧
    Read first known p rows log := by
  refine learns_quiet persists _ (fun rows => persists.and (once_persists _)) fun opened => ?_
  refine (Stage.select persists p).weaken fun result shared _ held => ?_
  cases result with
  | error error => trivial
  | ok rows =>
    refine held.imp id fun at_ => ⟨_, at_.weaken ?_, rfl⟩
    rintro log ⟨here, past, earlier, since, -, found⟩
    exact ⟨here, past, earlier, since.known, fun row => by rw [found row, Contents.sees_empty]; rfl⟩

theorem learns_findUsers (persists : Persists known) (p : User → Bool) :
    Learns first clock rules pid known (findUsers p) fun _ => known := by
  refine learns_quiet persists _ (fun _ => persists) fun opened => ?_
  refine Stage.bind _ (Stage.select persists _) fun users => ?_
  refine Stage.bind _ (Stage.select (persists.and (once_persists _)) _) fun tenants => ?_
  refine (Stage.ret (fun _ => Protocol.Unless pid (Untouched first pid known))
    (untouched_lasting persists).stable).strengthen
    fun shared _ held => ?_
  exact held.imp (fun closed => closed) fun at_ => ⟨_, at_.weaken fun log here => here.1.1, rfl⟩

theorem learns_update (persists : Persists known) (p : Row → Bool) (f : Row → Row)
    (accounts : ∀ row, p row = true → tableOf row = .accounts)
    (keyed : ∀ row, primary (f row) = primary row) :
    Learns first clock rules pid known (query (.update p f)) fun _ => known := by
  refine learns_quiet persists _ (fun _ => persists) fun opened => ?_
  refine (Stage.update persists p f accounts keyed rfl).weaken fun result shared _ held => ?_
  cases result with
  | error error => trivial
  | ok rows =>
    refine held.imp id ?_
    rintro ⟨⟨check, hits⟩, at_⟩
    exact ⟨_, at_.weaken fun log here => here.1, rfl⟩

theorem isUser_area {p : User → Bool} {row : Row} (matches_ : Row.isUser p row = true) :
    tableOf row = .accounts := by
  cases row <;> first | rfl | cases matches_

theorem mapUser_keyed (f : User → User) (row : Row) : primary (Row.mapUser f row) = primary row := by
  cases row <;> rfl

theorem learns_updateUser (persists : Persists known) (id : Uuid) (f : User → User) :
    Learns first clock rules pid known (updateUser id f) fun _ => known := by
  refine learns_bind (learns_update persists _ _ (fun _ => isUser_area) (mapUser_keyed _)) fun rows => ?_
  split
  · exact learns_ret persists _
  · exact PublicProtocol.Step.fail

/-! ## Tokens -/

theorem tokens_map {hits : List Row} {f : RefreshToken → RefreshToken}
    (keeps : ∀ old, { f old with id := old.id, tokenHash := old.tokenHash } = f old) (token : RefreshToken) :
    token ∈ tokens (hits.map (Row.mapToken f)) ↔ ∃ old ∈ tokens hits, token = f old := by
  rw [mem_tokens, List.mem_map]
  constructor
  · rintro ⟨row, member, same⟩
    cases row with
    | refreshToken old =>
      cases same
      exact ⟨old, mem_tokens.mpr member, keeps old⟩
    | _ => cases same
  · rintro ⟨old, member, rfl⟩
    exact ⟨.refreshToken old, mem_tokens.mp member, congrArg Row.refreshToken (keeps old)⟩

theorem isToken_area {q : RefreshToken → Bool} {row : Row} (matches_ : Row.isToken q row = true) :
    tableOf row = .tokens := by
  cases row <;> first | rfl | cases matches_

theorem mapToken_keyed (f : RefreshToken → RefreshToken) (row : Row) :
    primary (Row.mapToken f row) = primary row := by
  cases row <;> rfl

/-- A transaction that has rewritten the tokens its update matched, which started at `start`
and took effect at `now`. -/
structure Rewriting (first : List Row) (pid : Tid) (known : Log → Prop) (q : RefreshToken → Bool)
    (f : RefreshToken → RefreshToken)
    (start now : Log) (hits : List Row) (stage : Stage Row Unit) (shared : State) : Prop where
  at_ : Stage.At first pid stage known shared
  contents : stage.contents .tokens = ⟨hits, hits.map (Row.mapToken f)⟩
  opened : stage.opened <+: start
  known : known start
  started : start <+: now
  within : now <+: shared.server.log
  matched : ∀ row, row ∈ hits ↔ Row.isToken q row = true ∧ row ∈ rowsAfter first now ∧
    ∃ old, Row.isToken q old = true ∧ old ∈ rowsAfter first start ∧ primary old = primary row

section Rewrite
variable {q : RefreshToken → Bool} {f : RefreshToken → RefreshToken} {start now : Log}
  {hits : List Row} {shared : State}

theorem Rewriting.matches_ (rewriting : Rewriting first pid known q f start now hits stage shared)
    {old : RefreshToken}
    (hit : old ∈ tokens hits) : q old = true := ((rewriting.matched _).mp (mem_tokens.mp hit)).1

theorem Rewriting.effect (rewriting : Rewriting first pid known q f start now hits stage shared)
    (keeps : ∀ old, { f old with id := old.id, tokenHash := old.tokenHash } = f old)
    (turns : ∀ old, q old = true → Turn old (f old))
    (covers : let commit : Commit Row Unit := ⟨pid, shared.server.rows, shared.server.txs pid⟩
      ∀ old ∈ tokens hits, (f old).revokedAt.isSome = true →
          ∃ start, start <+: shared.server.log ∧ commit.tx.begun ≤ start.length ∧ ∀ open_ ∈ tokens commit.after,
          open_.familyId = old.familyId → open_.revokedAt = none →
          open_ ∈ tokens commit.before ∧ ∀ old ∈ tokens (rowsAfter first start), old.id ≠ open_.id) :
    Effect first shared.server.log ⟨pid, shared.server.rows, shared.server.txs pid⟩ := by
  have contents := rewriting.contents
  refine effect_of_stage rewriting.at_ (fun token new => ?_) (fun old gone => ?_) fun token new revoked => ?_
  · rw [contents] at new ⊢
    obtain ⟨old, hit, rfl⟩ := (tokens_map keeps token).mp new
    exact .inr ⟨old, hit, turns old (rewriting.matches_ hit)⟩
  · rw [contents] at gone ⊢
    exact ⟨f old, (tokens_map keeps _).mpr ⟨old, gone, rfl⟩, turns old (rewriting.matches_ gone)⟩
  · rw [contents] at new
    obtain ⟨old, hit, rfl⟩ := (tokens_map keeps token).mp new
    rw [(turns old (rewriting.matches_ hit)).later.familyId]
    exact covers old hit revoked

-- An update of tokens, from what was known before it to what its commit does.
theorem learns_rewrite (persists : Persists known) (done : List Row → Log → Prop)
    (lasts : ∀ rows, Persists (done rows))
    (commits : ∀ (shared : State) start now hits stage, (families first).protocol.Inv shared →
      Rewriting first pid known q f start now hits stage shared →
      let commit : Commit Row Unit := ⟨pid, shared.server.rows, shared.server.txs pid⟩
      Effect first shared.server.log commit ∧
        done (hits.map (Row.mapToken f)) (shared.server.log ++ [commit])) :
    Learns first clock rules pid known (query (.update (Row.isToken q) (Row.mapToken f))) done := by
  refine Stage.transaction persists
    (fun rows shared => ∃ start now hits stage, Rewriting first pid known q f start now hits stage shared ∧
      rows = hits.map (Row.mapToken f)) done (fun opened => ?_) (fun rows => ?_) ?_ lasts
  · refine (Stage.update persists _ _ (fun _ => isToken_area) (mapToken_keyed _) rfl).weaken
      fun result shared _ held => ?_
    cases result with
    | error error => trivial
    | ok rows =>
      refine held.imp (fun closed => closed) ?_
      rintro ⟨⟨check, hits⟩, at_⟩
      obtain ⟨-, reply, -, -, -, -, start, since, started, matched⟩ := at_.known
      refine ⟨start, check.log, hits, _, ⟨at_.weaken fun log here => here.1, ?_, since.opened, since.known,
        started, ?_, ?_⟩, reply⟩
      · simp
      · exact (at_.checks check (List.mem_cons_self ..)).earlier
      · simp only [Contents.Hits, Contents.sees_empty] at matched
        exact matched
  · rintro shared next inv later ⟨start, now, hits, stage, rewriting, reply⟩ same alongside grown
    exact ⟨start, now, hits, stage, { rewriting with
      at_ := Stage.At.lasting persists shared next inv later rewriting.at_ same alongside grown
      within := rewriting.within.trans grown }, reply⟩
  · rintro rows shared inv ⟨start, now, hits, stage, rewriting, rfl⟩
    exact commits shared start now hits stage inv rewriting

end Rewrite

/-- The process has rotated a token with this hash, after `past`. -/
def Claimed (past : Log) (pid : Tid) (hash : String) (log : Log) : Prop :=
  ∃ before commit, past <+: before ∧ before ++ [commit] <+: log ∧ commit.tid = pid ∧
    ∃ token ∈ tokens commit.tx.added, token.Rotated ∧ token.tokenHash = hash

theorem claimed_persists (past : Log) (pid : Tid) (hash : String) : Persists (Claimed past pid hash) := by
  rintro log next grown ⟨before, commit, since, within, rest⟩
  exact ⟨before, commit, since, within.trans grown, rest⟩

theorem learns_rotate (apart : first.Pairwise NoClash) (persists : Persists known) {past : Log}
    (since : ∀ log, known log → past <+: log)
    {row : RefreshToken} (there : ∀ log, known log →
      Once (fun past => row ∈ tokens (rowsAfter first past)) log) (now : Time) :
    Learns first clock rules pid known (query (.update
      (Row.isToken fun token => token.id == row.id && token.rotatedAt.isNone && token.revokedAt.isNone)
      (Row.mapToken fun token => { token with rotatedAt := some now })))
      fun rows log => known log ∧ (rows ≠ [] → Claimed past pid row.tokenHash log) := by
  refine learns_rewrite persists _ (fun rows => persists.and fun log next grown claimed some_ =>
    claimed_persists past pid row.tokenHash log next grown (claimed some_)) ?_
  intro shared start at_ hits stage inv rewriting
  refine ⟨rewriting.effect (fun _ => rfl) (fun old matches_ => ?_)
    fun old hit revoked => ?_, ?_, fun some_ => ?_⟩
  · simp only [Bool.and_eq_true, beq_iff_eq, Option.isNone_iff_eq_none] at matches_
    exact .rotate now ⟨matches_.1.2, matches_.2⟩
  · have matches_ := rewriting.matches_ hit
    simp only [Bool.and_eq_true, Option.isNone_iff_eq_none] at matches_
    simp [matches_.2] at revoked
  · exact persists _ _ (List.prefix_append ..) rewriting.at_.known
  · -- some row was matched, so the commit adds its rotation
    obtain ⟨found, hit⟩ := List.exists_mem_of_ne_nil hits fun empty => some_ (by rw [empty]; rfl)
    cases found with
    | refreshToken old =>
      have matches_ := rewriting.matches_ (mem_tokens.mpr hit)
      simp only [Bool.and_eq_true, beq_iff_eq, Option.isNone_iff_eq_none] at matches_
      have written : { old with rotatedAt := some now } ∈ tokens (stage.contents .tokens).new := by
        rw [rewriting.contents]
        exact (tokens_map (fun _ => rfl) _).mpr ⟨old, mem_tokens.mpr hit, rfl⟩
      have hash : old.tokenHash = row.tokenHash := by
        obtain ⟨past, earlier, present⟩ := there start rewriting.known
        have journal := inv.2.journal.prefix_ rewriting.within
        obtain ⟨last, here, later⟩ := later_version apart journal (earlier.trans rewriting.started) present
        have atNow := mem_tokens.mpr ((rewriting.matched _).mp hit).2.1
        have equal := tokens_apart (journal.apart apart) atNow here (.inl (matches_.1.1.trans later.id.symm))
        exact equal ▸ later.tokenHash
      refine ⟨shared.server.log, _, since _ rewriting.at_.known, List.prefix_rfl, rfl,
        { old with rotatedAt := some now }, ?_,
        ⟨rfl, matches_.2⟩, hash⟩
      exact mem_tokens.mpr ((rewriting.at_.contents.added _).mpr (mem_tokens.mp written))
    | _ => cases ((rewriting.matched _).mp hit).1

/-- The family has been seen with all its tokens revoked, unless a token was issued too late. -/
def Dead (first : List Row) (family : Uuid) (log : Log) : Prop :=
  Timely family log → Once (fun past => Shut family (rowsAfter first past)) log

theorem dead_persists (first : List Row) (family : Uuid) : Persists (Dead first family) :=
  fun _ _ grown dead timely => once_persists _ _ _ grown (dead (timely.earlier grown))

section Revoke
variable {family : Uuid} {f : RefreshToken → RefreshToken} {start now log : Log}
  {hits : List Row} {shared : State}
  (apart : first.Pairwise NoClash)
include apart

-- A revocation matches every token of the family it could see and that is not revoked later.
theorem Rewriting.sees (journal : Journal first (Effect first) log)
    (rewriting : Rewriting first pid known (fun token => token.familyId == family &&
      token.revokedAt.isNone) f start now hits stage shared)
    (within : now <+: log) {open_ old : RefreshToken} (present : open_ ∈ tokens (rowsAfter first log))
    (same : open_.familyId = family)
    (unrevoked : open_.revokedAt = none) (there : old ∈ tokens (rowsAfter first start))
    (id : old.id = open_.id) :
    ∃ seen ∈ tokens hits, seen.id = open_.id := by
  have open_before : ∀ {token : RefreshToken}, Later token open_ →
      (token.familyId == family && token.revokedAt.isNone) = true := by
    intro token later
    have notYet : token.revokedAt = none := by
      by_contra revoked
      have absurd_ := later.revoked (Option.isSome_iff_ne_none.mpr revoked)
      simp [unrevoked] at absurd_
    simp [notYet, ← later.familyId, same]
  have journalNow := journal.prefix_ within
  obtain ⟨middle, atNow, firstLater⟩ := later_version apart journalNow rewriting.started there
  obtain ⟨last, atLog, secondLater⟩ := later_version apart journal within atNow
  have equal : last = open_ :=
    tokens_apart (journal.apart apart) atLog present (.inl (secondLater.id.trans (firstLater.id.trans id)))
  subst equal
  refine ⟨middle, mem_tokens.mpr ((rewriting.matched _).mpr ⟨open_before secondLater, mem_tokens.mp atNow,
    .refreshToken old, ?_,
    mem_tokens.mp there, ?_⟩), secondLater.id.symm⟩
  · exact open_before (firstLater.trans secondLater)
  · simp [primary, firstLater.id]

theorem learns_revoke (persists : Persists known) (now : Time)
    (there : ∀ log, known log → Once (fun past => ∃ token ∈ tokens (rowsAfter first past),
      token.familyId = family) log) :
    Learns first clock rules pid known (revokeFamily family now) fun _ log => known log ∧
    Dead first family log := by
  refine learns_bind ?_ fun _ => learns_ret (persists.and (dead_persists first family)) _
  refine learns_rewrite persists _ (fun _ => persists.and (dead_persists first family)) ?_
  intro shared start at_ hits stage inv rewriting
  let commit : Commit Row Unit := ⟨pid, shared.server.rows, shared.server.txs pid⟩
  have journal := inv.2.journal
  have rows : shared.server.rows = rowsAfter first shared.server.log := inv.2.server
  have ours : ∀ old ∈ tokens hits, old.familyId = family ∧ old.revokedAt = none := by
    intro old hit
    simpa using rewriting.matches_ hit
  have effect : Effect first shared.server.log commit := by
    refine rewriting.effect (fun _ => rfl) (fun old matches_ => ?_) fun old hit _ => ?_
    · simp only [Bool.and_eq_true, Option.isNone_iff_eq_none] at matches_
      exact .revoke now matches_.2
    · refine ⟨start, rewriting.started.trans rewriting.within, ?_, fun open_ present same unrevoked => ?_⟩
      · exact rewriting.at_.begun ▸ rewriting.opened.length_le
      · have isOurs := same.trans (ours old hit).1
        rcases tokens_after.mp present with ⟨before, stays⟩ | added
        · refine ⟨before, fun token there id => stays ?_⟩
          -- it would have been matched, and so be gone
          obtain ⟨seen, matched, sameId⟩ :=
            rewriting.sees apart journal rewriting.within (rows ▸ before) isOurs unrevoked there id
          refine (rewriting.at_.contents.removed _).mpr ⟨.refreshToken seen, ?_,
            congrArg IndexKey.refreshToken sameId⟩
          change _ ∈ (stage.contents .tokens).gone
          rw [rewriting.contents]
          exact mem_tokens.mp matched
        · have new := (rewriting.at_.contents.added _).mp (mem_tokens.mp added)
          change _ ∈ (stage.contents .tokens).new at new
          rw [rewriting.contents, ← mem_tokens] at new
          obtain ⟨stamped, -, equal⟩ := (tokens_map (fun _ => rfl) _).mp new
          simp [equal] at unrevoked
  refine ⟨effect, persists _ _ (List.prefix_append ..) rewriting.at_.known, fun timely => ?_⟩
  have whole : Journal first (Effect first) (shared.server.log ++ [commit]) :=
    journal.commit rows ((inv.1.fits pid).view_apart inv.1) effect
  by_cases empty : hits = []
  · -- there was nothing left to revoke
    have within : at_ <+: shared.server.log ++ [commit] := rewriting.within.trans (List.prefix_append ..)
    obtain ⟨past, earlier, token, present, same⟩ := there start rewriting.known
    have atStart := journal.prefix_ (rewriting.started.trans rewriting.within)
    obtain ⟨known, here, later⟩ := later_version apart atStart earlier present
    refine ⟨at_, within, ?_⟩
    refine shut_by_tokens apart (journal.prefix_ rewriting.within) (timely.earlier within)
      rewriting.started here
      (later.familyId.trans same) fun open_ member isOurs ⟨old, atStart, id⟩ => ?_
    by_contra unrevoked
    rw [Bool.not_eq_true, Option.isSome_eq_false_iff, Option.isNone_iff_eq_none] at unrevoked
    obtain ⟨seen, matched, -⟩ := rewriting.sees apart (journal.prefix_ rewriting.within) List.prefix_rfl
      member isOurs unrevoked
      atStart id
    simp [empty, tokens] at matched
  · obtain ⟨row, hit⟩ := List.exists_mem_of_ne_nil hits empty
    cases row with
    | refreshToken old =>
      have isOurs := ours old (mem_tokens.mpr hit)
      have stamped : { old with revokedAt := some now } ∈ tokens commit.tx.added := by
        refine mem_tokens.mpr ((rewriting.at_.contents.added _).mpr ?_)
        change _ ∈ (stage.contents .tokens).new
        rw [rewriting.contents, ← mem_tokens]
        exact (tokens_map (fun _ => rfl) _).mpr ⟨old, mem_tokens.mpr hit, rfl⟩
      exact ⟨_, List.prefix_rfl, shut_by_revocation whole timely List.prefix_rfl stamped rfl isOurs.1⟩
    | _ => cases ((rewriting.matched _).mp hit).1

end Revoke

/-! ## The calls -/

variable (crypto : Crypto)

theorem learns_issue (persists : Persists known) (user : User) (family : Uuid) (now : Time) :
    Learns first clock rules pid known (issue crypto user family now) fun _ => known := by
  refine learns_bind (learns_select persists _) fun grants => ?_
  refine PublicProtocol.Step.strengthen ?_ fun state _ (held : known state.log ∧ _) => held.1
  refine learns_bind (learns_ask persists .randomBytes) fun refresh_token => ?_
  refine learns_bind (learns_ask persists .rowId) fun id => ?_
  refine learns_bind ?_ fun _ => learns_ret persists _
  let new : RefreshToken := ⟨id, user.id, user.tenantId, family, crypto.sha256 refresh_token,
    now + REFRESH_TTL_MS, none, none⟩
  let Issuing : State → Prop := fun shared => ∃ stage : Stage Row Unit,
    Stage.At first pid stage known shared ∧
    stage.contents .tokens = ⟨[], [.refreshToken new]⟩
  have lasting : (families first).protocol.Lasting pid Issuing := by
    rintro shared next inv later ⟨stage, at_, contents⟩ same alongside grown
    exact ⟨stage, Stage.At.lasting persists shared next inv later at_ same alongside grown, contents⟩
  have isToken : ∀ row ∈ [Row.refreshToken new], tableOf row = Area.tokens := fun row member => by
    rw [List.mem_singleton.mp member]
    rfl
  refine Stage.transaction persists (fun _ => Issuing) _ (fun opened => ?_) (fun _ => lasting) ?_
    fun _ => persists
  · refine Stage.bind _ (Stage.shareKey persists _) fun owner => Stage.choose fun check => ?_
    split
    · exact Stage.fail
    refine Stage.bind _ (Stage.insert (persists.and (persists_const _)) _ false isToken) fun inserted => ?_
    refine Stage.bind _ (Stage.update ((persists.and (persists_const _)).and (persists_const _)) _ _
      (fun _ => isUser_area)
      (mapUser_keyed _) rfl) fun updated => ?_
    split
    · exact Stage.fail
    refine (Stage.ret (fun _ => Protocol.Unless pid Issuing) lasting.stable).strengthen
      fun shared _ held => ?_
    refine held.imp (fun closed => closed) ?_
    rintro ⟨⟨last, hits⟩, at_⟩
    obtain ⟨⟨-, -, all⟩, -⟩ := at_.known
    refine ⟨_, at_.weaken fun log here => here.1.1.1, ?_⟩
    change (⟨[], [] ++ inserted⟩ : Held Row) = _
    rw [all rfl]
    rfl
  · rintro _ shared - ⟨stage, at_, contents⟩
    refine ⟨effect_of_stage at_ ?_ ?_ ?_, persists _ _ (List.prefix_append ..) at_.known⟩
    · rw [contents]
      intro token member
      have same : token = new := List.mem_singleton.mp member
      exact .inl (same ▸ ⟨rfl, rfl⟩)
    · rw [contents]
      simp [tokens]
    · rw [contents]
      intro commit token member revoked
      have same : token = new := List.mem_singleton.mp member
      simp [same, new] at revoked

theorem learns_checkActive (persists : Persists known) (user : User) (tenant : Option Tenant) :
    Learns first clock rules pid known (checkActive user tenant) fun _ => known := by
  unfold Auth.checkActive
  split
  · exact PublicProtocol.Step.fail
  · split
    · exact PublicProtocol.Step.fail
    · exact learns_ret persists _

theorem learns_recordFailure (persists : Persists known) (id : Uuid) (now : Time) :
    Learns first clock rules pid known (recordFailure id now) fun _ => known := by
  refine learns_bind (learns_updateUser persists id _) fun user => ?_
  split
  · exact learns_ret persists _
  · exact learns_bind (learns_updateUser persists id _) fun _ => PublicProtocol.Step.fail

theorem learns_recordFailures (persists : Persists known) (users : List (User × Option Tenant)) (now : Time) :
    Learns first clock rules pid known
    (users.forM fun (user, _) => recordFailure user.id now) fun _ => known := by
  induction users with
  | nil => exact learns_ret persists _
  | cons head rest ih => exact learns_bind (learns_recordFailure persists head.1.id now) fun _ => ih

theorem learns_verifyPassword (persists : Persists known) (user : User) (password : String) :
    Learns first clock rules pid known (verifyPassword user password) fun _ => known := by
  unfold verifyPassword
  split
  · exact learns_ask persists _
  · exact learns_ret persists _

theorem learns_verifyNobody (persists : Persists known) (free : List (User × Option Tenant))
    (password : String) :
    Learns first clock rules pid known (verifyNobody free password) fun _ => known := by
  unfold verifyNobody
  split
  · exact learns_ask persists _
  · exact learns_ret persists _

theorem learns_findVerified (persists : Persists known) (password : String)
    (free : List (User × Option Tenant)) :
    Learns first clock rules pid known (findVerified password free) fun _ => known := by
  induction free with
  | nil => exact learns_ret persists _
  | cons entry rest ih =>
    obtain ⟨user, tenant⟩ := entry
    refine learns_bind (learns_verifyPassword persists user password) fun right => ?_
    cases right with
    | true => exact learns_ret persists _
    | false => exact ih

theorem learns_login (persists : Persists known) (email password : String) :
    Learns first clock rules pid known (login crypto email password) fun _ => known := by
  refine learns_bind (learns_ask persists .now) fun (now : Time) => ?_
  refine learns_bind ((learns_select persists _).weaken fun _ _ _ held => held.1) fun ids => ?_
  refine learns_bind (learns_findUsers persists _) fun users => ?_
  refine learns_bind (learns_findVerified persists password _) fun chosen => ?_
  refine learns_bind (learns_verifyNobody persists _ password) fun _ => ?_
  cases chosen with
  | none =>
    generalize List.find? _ users = locked
    cases locked with
    | none => exact learns_bind (learns_recordFailures persists _ _) fun _ => PublicProtocol.Step.fail
    | some locked => exact PublicProtocol.Step.fail
  | some chosen =>
    refine learns_bind (learns_checkActive persists _ _) fun _ => ?_
    split
    · exact learns_ret persists _
    · refine learns_bind (learns_ask persists .randomUUID) fun (family : Uuid) => ?_
      exact learns_bind (learns_issue crypto persists _ family _) fun _ => learns_ret persists _

theorem learns_verdict (persists : Persists known) (user : User) (now : Time) (ok : Bool) :
    Learns first clock rules pid known
      (if ok = true then do
        let family ← ask .randomUUID
        issue crypto user family now
      else do
        recordFailure user.id now
        throw (.unauthorized "Invalid code")) fun _ => known := by
  split
  · exact learns_bind (learns_ask persists .randomUUID)
      fun (family : Uuid) => learns_issue crypto persists _ family _
  · exact learns_bind (learns_recordFailure persists _ _) fun _ => PublicProtocol.Step.fail

theorem learns_verifyMfa (persists : Persists known) (mfaToken code : String) :
    Learns first clock rules pid known (verifyMfa crypto mfaToken code) fun _ => known := by
  refine learns_bind (learns_ask persists .now) fun (now : Time) => ?_
  dsimp only
  cases crypto.verifyMfaToken mfaToken now with
  | none => exact PublicProtocol.Step.fail
  | some sub =>
    refine learns_bind (learns_ret persists sub) fun sub => ?_
    refine learns_bind (learns_findUsers persists _) fun found => ?_
    cases found with
    | nil => exact PublicProtocol.Step.fail
    | cons head rest =>
      obtain ⟨user, tenant⟩ := head
      dsimp only
      split
      · split
        · exact PublicProtocol.Step.fail
        refine learns_bind (learns_checkActive persists _ _) fun _ => ?_
        split
        · exact learns_bind (learns_ask persists _) fun (ok : Bool) =>
            learns_verdict crypto persists user now ok
        · refine learns_bind (learns_update persists _ _ (fun row matches_ => ?_) fun row => ?_) fun used =>
            learns_verdict crypto persists user now _
          · cases row <;> first | rfl | cases matches_
          · cases row <;> rfl
      · exact PublicProtocol.Step.fail

end Calls

end OpenEmarsys.Auth
