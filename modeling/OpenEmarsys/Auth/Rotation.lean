import OpenEmarsys.Auth.Service
import OpenEmarsys.Postgres.Public

/-! Refresh tokens under any interleaving of the calls that use them.

A family has at most one token that can still be exchanged or one permit to issue
its next token, never both: drawing a fresh family or rotating the live token gives
a process the permit, inserting the next token spends it.
-/

set_option autoImplicit false

namespace OpenEmarsys.Auth

open Postgres Postgres.PublicProtocol Interleaving

abbrev Seen := Public Row Unit World

def RefreshToken.Live (token : RefreshToken) : Prop := token.rotatedAt = none ∧ token.revokedAt = none

def RefreshToken.Rotated (token : RefreshToken) : Prop :=
  token.rotatedAt.isSome = true ∧ token.revokedAt = none

def Token (state : Seen) (token : RefreshToken) : Prop := Row.refreshToken token ∈ state.rows

/-- A version of a token that a process has committed. -/
def Logged (state : Seen) (pid : Tid) (token : RefreshToken) : Prop :=
  ∃ commit ∈ state.log, commit.tid = pid ∧ Row.refreshToken token ∈ commit.tx.added

def Drew (state : Seen) (pid : Tid) (family : Uuid) : Prop := (some pid, family) ∈ state.world.drawn

/-- The process may insert the next token of the family. -/
def Permit (pid : Tid) (family : Uuid) (state : Seen) : Prop :=
  ((∃ token, Logged state pid token ∧ token.Rotated ∧ token.familyId = family) ∨ Drew state pid family) ∧
    ¬ ∃ token, Logged state pid token ∧ token.Live ∧ token.familyId = family

def Used (state : Seen) (family : Uuid) : Prop := family ∈ state.world.drawn.map Prod.snd

structure Facts (state : Seen) : Prop where
  one : ∀ first second, Token state first → Token state second → first.Live → second.Live →
    first.familyId = second.familyId → first = second
  permit : ∀ first second family, Permit first family state → Permit second family state → first = second
  spent : ∀ pid token, Permit pid token.familyId state → Token state token → ¬ token.Live
  known : ∀ token, Token state token → Used state token.familyId
  logged : ∀ pid token, Logged state pid token → Used state token.familyId
  rotated : ∀ pid token, Logged state pid token → token.rotatedAt.isSome = true →
    ∃ now, Token state now ∧ now.tokenHash = token.tokenHash ∧ now.rotatedAt.isSome = true
  once : ∀ first second token other, Logged state first token → Logged state second other → token.Rotated →
    other.Rotated → token.tokenHash = other.tokenHash → first = second

/-- A token keeps its identity, its family and its hash as long as the table has it,
and no token is deleted. -/
def Known (token : RefreshToken) (state : Seen) : Prop :=
  ∃ now, Token state now ∧ now.id = token.id ∧ now.familyId = token.familyId ∧ now.tokenHash = token.tokenHash

/-- What the other processes do to what a process knows. -/
structure Grows (pid : Tid) (state next : Seen) : Prop where
  logged : ∀ token, Logged next pid token ↔ Logged state pid token
  drew : ∀ family, Drew next pid family ↔ Drew state pid family
  known : ∀ token, Token state token → Known token next

theorem Known.trans {token : RefreshToken} {before after : Seen} (known : Known token before)
    (later : ∀ token, Token before token → Known token after) : Known token after := by
  obtain ⟨now, present, id, family, hash⟩ := known
  obtain ⟨last, there, id', family', hash'⟩ := later now present
  exact ⟨last, there, id'.trans id, family'.trans family, hash'.trans hash⟩

def rotation : PublicProtocol Row Unit World where
  App := Facts
  Grow := Grows
  refl _ _ := ⟨fun _ => .rfl, fun _ => .rfl, fun token present => ⟨token, present, rfl, rfl, rfl⟩⟩
  trans first second :=
    ⟨fun token => (second.logged token).trans (first.logged token),
      fun family => (second.drew family).trans (first.drew family),
      fun token present => (first.known token present).trans second.known⟩

structure SameTokens (state next : Seen) : Prop where
  token : ∀ token, Token next token ↔ Token state token
  logged : ∀ pid token, Logged next pid token ↔ Logged state pid token
  world : next.world = state.world

theorem SameTokens.permit {state next : Seen} (same : SameTokens state next) (pid : Tid) (family : Uuid) :
    Permit pid family next ↔ Permit pid family state := by
  simp only [Permit, same.logged, Drew, same.world]

theorem Facts.same {state next : Seen} (facts : Facts state) (same : SameTokens state next) : Facts next := by
  have used : ∀ family, Used next family ↔ Used state family := fun family => by simp [Used, same.world]
  refine ⟨?_, ?_, ?_, ?_, ?_, ?_, ?_⟩
  · exact fun first second here there => facts.one first second ((same.token _).mp here)
      ((same.token _).mp there)
  · exact fun first second family left right =>
      facts.permit first second family ((same.permit _ _).mp left) ((same.permit _ _).mp right)
  · exact fun pid token permit present => facts.spent pid token ((same.permit _ _).mp permit)
      ((same.token _).mp present)
  · exact fun token present => (used _).mpr (facts.known token ((same.token _).mp present))
  · exact fun pid token logged => (used _).mpr (facts.logged pid token ((same.logged _ _).mp logged))
  · intro pid token logged rotated
    obtain ⟨now, present, rest⟩ := facts.rotated pid token ((same.logged _ _).mp logged) rotated
    exact ⟨now, (same.token _).mpr present, rest⟩
  · exact fun first second token other left right =>
      facts.once first second token other ((same.logged _ _).mp left) ((same.logged _ _).mp right)

theorem SameTokens.grows {state next : Seen} (same : SameTokens state next) (pid : Tid) :
    Grows pid state next :=
  ⟨same.logged pid, fun family => by simp only [Drew, same.world],
    fun token present => ⟨token, (same.token _).mpr present, rfl, rfl, rfl⟩⟩

theorem logged_append {state : Seen} {rows : List Row} {commit : Commit Row Unit} {world : World}
    {other : Tid} {token : RefreshToken} : Logged ⟨rows, state.log ++ [commit], world⟩ other token ↔
      Logged state other token ∨ (other = commit.tid ∧ Row.refreshToken token ∈ commit.tx.added) := by
  constructor
  · rintro ⟨entry, member, rfl, found⟩
    rcases List.mem_append.mp member with before | now
    · exact .inl ⟨entry, before, rfl, found⟩
    · cases List.mem_singleton.mp now
      exact .inr ⟨rfl, found⟩
  · rintro (⟨entry, member, tid, found⟩ | ⟨rfl, found⟩)
    · exact ⟨entry, List.mem_append_left _ member, tid, found⟩
    · exact ⟨commit, List.mem_append_right _ (List.mem_singleton.mpr rfl), rfl, found⟩

theorem sameTokens_commit {state : Seen} {rows : List Row} {commit : Commit Row Unit}
    (kept : ∀ token, Row.refreshToken token ∈ rows ↔ Row.refreshToken token ∈ state.rows)
    (none_ : ∀ token, Row.refreshToken token ∉ commit.tx.added) :
    SameTokens state ⟨rows, state.log ++ [commit], state.world⟩ :=
  ⟨kept, fun _ _ => logged_append.trans (by simp [none_]), rfl⟩

/-- What a process knows and does not lose by leaving the tokens alone. -/
structure Calm (pid : Tid) (holds : Seen → Prop) : Prop where
  steady : Steady rotation pid holds
  same : ∀ state next, SameTokens state next → holds state → holds next

/-- The process has committed no token, and drawn no family. -/
def Fresh (pid : Tid) (state : Seen) : Prop :=
  (∀ token, ¬ Logged state pid token) ∧ ∀ family, ¬ Drew state pid family

/-- The process has rotated the token with this hash. -/
def Exchanged (pid : Tid) (hash : String) (state : Seen) : Prop :=
  ∃ token, Logged state pid token ∧ token.Rotated ∧ token.tokenHash = hash

theorem fresh_calm (pid : Tid) : Calm pid (Fresh pid) where
  steady _ _ _ _ grows fresh :=
    ⟨fun token logged => fresh.1 token ((grows.logged token).mp logged),
      fun family drew => fresh.2 family ((grows.drew family).mp drew)⟩
  same _ _ same fresh :=
    ⟨fun token logged => fresh.1 token ((same.logged pid token).mp logged),
      fun family drew => fresh.2 family (by simpa [Drew, same.world] using drew)⟩

theorem permit_calm (pid : Tid) (family : Uuid) : Calm pid (Permit pid family) where
  steady _ _ _ _ grows permit := by
    simpa only [Permit, grows.logged, grows.drew] using permit
  same _ _ same permit := (same.permit pid family).mpr permit

theorem exchanged_calm (pid : Tid) (hash : String) : Calm pid (Exchanged pid hash) where
  steady _ _ _ _ grows exchanged := by
    simpa only [Exchanged, grows.logged] using exchanged
  same _ _ same exchanged := by
    simpa only [Exchanged, same.logged] using exchanged

theorem known_calm (pid : Tid) (token : RefreshToken) : Calm pid (Known token) where
  steady _ _ _ _ grows known := known.trans grows.known
  same _ _ same known := by
    simpa only [Known, same.token] using known

theorem Calm.and {pid : Tid} {left right : Seen → Prop} (first : Calm pid left) (second : Calm pid right) :
    Calm pid fun state => left state ∧ right state where
  steady state next app later grows held :=
    ⟨first.steady state next app later grows held.1, second.steady state next app later grows held.2⟩
  same state next same held := ⟨first.same state next same held.1, second.same state next same held.2⟩

theorem Calm.true_ (pid : Tid) : Calm pid fun _ => True :=
  ⟨fun _ _ _ _ _ _ => trivial, fun _ _ _ _ => trivial⟩

/-! ## Commits that change tokens -/

/-- The tokens `olds` have been rewritten by `g`, in one commit of `pid`. -/
structure Rewrites (pid : Tid) (g : RefreshToken → RefreshToken) (olds : List RefreshToken)
    (state next : Seen) : Prop where
  present : ∀ old ∈ olds, Token state old
  token : ∀ token, Token next token ↔
    (Token state token ∧ ∀ old ∈ olds, old.id ≠ token.id) ∨ ∃ old ∈ olds, token = g old
  logged : ∀ other token, Logged next other token ↔
    Logged state other token ∨ (other = pid ∧ ∃ old ∈ olds, token = g old)
  world : next.world = state.world

/-- Tokens agree as soon as their ids or their hashes do. -/
def Apart (state : Seen) : Prop :=
  ∀ first second, Token state first → Token state second → first.id = second.id ∨
    first.tokenHash = second.tokenHash →
    first = second

theorem apart_of_noClash {state : Seen} (apart : state.rows.Pairwise NoClash) : Apart state := by
  intro first second here there same
  have meets : clash (Row.refreshToken first) (.refreshToken second) = true := by
    rw [clash_iff]
    rcases same with id | hash
    · exact ⟨.refreshToken first.id, by simp [keys, primary], by simp [keys, primary, id]⟩
    · exact ⟨.tokenHash first.tokenHash,
        by simp [keys, Indexed.uniques], by simp [keys, Indexed.uniques, hash]⟩
  exact Row.refreshToken.inj (eq_of_clash apart here there meets)

section Commits
variable {pid : Tid} {state next : Seen} {g : RefreshToken → RefreshToken} {olds : List RefreshToken}

-- A rewrite keeps every token's identity, so what other processes know stays true.
theorem Rewrites.grows (rewrites : Rewrites pid g olds state next) (apart : Apart state)
    (keeps : ∀ old, (g old).id = old.id ∧ (g old).familyId = old.familyId ∧ (g old).tokenHash = old.tokenHash)
    {other : Tid} (distinct : other ≠ pid) : Grows other state next := by
  refine ⟨fun token => (rewrites.logged other token).trans (by simp [distinct]), fun family => ?_,
    fun token present => ?_⟩
  · simp only [Drew, rewrites.world]
  · by_cases hit : ∃ old ∈ olds, old.id = token.id
    · obtain ⟨old, member, same⟩ := hit
      have equal := apart old token (rewrites.present old member) present (.inl same)
      subst equal
      exact ⟨g old, (rewrites.token _).mpr (.inr ⟨old, member, rfl⟩), keeps old⟩
    · exact ⟨token, (rewrites.token _).mpr (.inl ⟨present, fun old member same => hit ⟨old, member, same⟩⟩),
        rfl, rfl, rfl⟩

theorem Facts.used_of_permit (facts : Facts state) {family : Uuid} (permit : Permit pid family state) :
    Used state family := by
  rcases permit.1 with ⟨token, logged, -, rfl⟩ | drew
  · exact facts.logged pid token logged
  · exact List.mem_map_of_mem drew

-- Rotating the live token of a family gives its process the permit for the next one.
theorem Facts.rotate (facts : Facts state) (apart : Apart state) {old : RefreshToken} {now : Time}
    (live : old.Live)
    (rewrites : Rewrites pid (fun token => { token with rotatedAt := some now }) [old] state next) :
    Facts next := by
  have present := rewrites.present old (List.mem_singleton.mpr rfl)
  have token : ∀ token, Token next token ↔
      (Token state token ∧ old.id ≠ token.id) ∨ token = { old with rotatedAt := some now } := fun token => by
    simpa using rewrites.token token
  have logged : ∀ other token, Logged next other token ↔
      Logged state other token ∨ (other = pid ∧ token = { old with rotatedAt := some now }) :=
        fun other token => by
    simpa using rewrites.logged other token
  have used : ∀ family, Used next family ↔ Used state family := fun family => by simp [Used, rewrites.world]
  have notLive : ¬ ({ old with rotatedAt := some now } : RefreshToken).Live := fun live => by
    simp [RefreshToken.Live] at live
  have permits : ∀ other family, Permit other family next →
      Permit other family state ∨ (other = pid ∧ family = old.familyId) := by
    rintro other family ⟨right, unspent⟩
    have before : ¬ ∃ token, Logged state other token ∧ token.Live ∧ token.familyId = family :=
      fun ⟨token, found, rest⟩ => unspent ⟨token, (logged other token).mpr (.inl found), rest⟩
    rcases right with ⟨token, found, rotated, rfl⟩ | drew
    · rcases (logged other token).mp found with earlier | ⟨rfl, rfl⟩
      · exact .inl ⟨.inl ⟨token, earlier, rotated, rfl⟩, before⟩
      · exact .inr ⟨rfl, rfl⟩
    · exact .inl ⟨.inr (by simpa [Drew, rewrites.world] using drew), before⟩
  have unpermitted : ∀ other, ¬ Permit other old.familyId state := fun other permit =>
    facts.spent other old permit present live
  refine ⟨?_, ?_, ?_, ?_, ?_, ?_, ?_⟩
  · intro first second here there liveFirst liveSecond family
    rcases (token first).mp here with ⟨inFirst, -⟩ | rfl
    · rcases (token second).mp there with ⟨inSecond, -⟩ | rfl
      · exact facts.one first second inFirst inSecond liveFirst liveSecond family
      · exact absurd liveSecond notLive
    · exact absurd liveFirst notLive
  · intro first second family left right
    rcases permits first family left with before | ⟨rfl, rfl⟩
    · rcases permits second family right with also | ⟨rfl, rfl⟩
      · exact facts.permit first second family before also
      · exact absurd before (unpermitted first)
    · rcases permits second old.familyId right with also | ⟨rfl, -⟩
      · exact absurd also (unpermitted second)
      · rfl
  · intro other token' permit here live'
    rcases (token token').mp here with ⟨inState, differs⟩ | rfl
    · rcases permits other token'.familyId permit with before | ⟨-, family⟩
      · exact facts.spent other token' before inState live'
      · exact differs (congrArg RefreshToken.id (facts.one old token' present inState live live' family.symm))
    · exact notLive live'
  · intro token' here
    rcases (token token').mp here with ⟨inState, -⟩ | rfl
    · exact (used _).mpr (facts.known token' inState)
    · exact (used _).mpr (facts.known old present)
  · intro other token' found
    rcases (logged other token').mp found with earlier | ⟨-, rfl⟩
    · exact (used _).mpr (facts.logged other token' earlier)
    · exact (used _).mpr (facts.known old present)
  · intro other token' found rotated
    rcases (logged other token').mp found with earlier | ⟨-, rfl⟩
    · obtain ⟨current, inState, hash, isRotated⟩ := facts.rotated other token' earlier rotated
      refine ⟨current, (token current).mpr (.inl ⟨inState, fun same => ?_⟩), hash, isRotated⟩
      have equal := apart old current present inState (.inl same)
      rw [← equal, live.1] at isRotated
      cases isRotated
    · exact ⟨_, (token _).mpr (.inr rfl), rfl, rfl⟩
  · -- a second rotation of the same hash would have found the token rotated already
    have first_ : ∀ other token', Logged state other token' → token'.Rotated →
        token'.tokenHash ≠ old.tokenHash := by
      intro other token' earlier rotated hash
      obtain ⟨current, inState, same, isRotated⟩ := facts.rotated other token' earlier rotated.1
      have equal := apart old current present inState (.inr (hash.symm.trans same.symm))
      rw [← equal, live.1] at isRotated
      cases isRotated
    intro first second token' other left right rotatedLeft rotatedRight hash
    rcases (logged first token').mp left with inFirst | ⟨rfl, rfl⟩
    · rcases (logged second other).mp right with inSecond | ⟨rfl, rfl⟩
      · exact facts.once first second token' other inFirst inSecond rotatedLeft rotatedRight hash
      · exact absurd hash (first_ first token' inFirst rotatedLeft)
    · rcases (logged second other).mp right with inSecond | ⟨rfl, rfl⟩
      · exact absurd hash.symm (first_ second other inSecond rotatedRight)
      · rfl

theorem Facts.revoke (facts : Facts state) (apart : Apart state) {now : Time}
    (rewrites : Rewrites pid (fun token => { token with revokedAt := some now }) olds state next) :
    Facts next := by
  have used : ∀ family, Used next family ↔ Used state family := fun family => by simp [Used, rewrites.world]
  have permits : ∀ other family, Permit other family next → Permit other family state := by
    rintro other family ⟨right, unspent⟩
    refine ⟨?_, fun ⟨token, found, rest⟩ => unspent ⟨token,
      (rewrites.logged other token).mpr (.inl found), rest⟩⟩
    rcases right with ⟨token, found, rotated, family⟩ | drew
    · rcases (rewrites.logged other token).mp found with earlier | ⟨-, old, -, rfl⟩
      · exact .inl ⟨token, earlier, rotated, family⟩
      · exact absurd rotated.2 (by simp)
    · exact .inr (by simpa [Drew, rewrites.world] using drew)
  have live : ∀ token, Token next token → token.Live → Token state token := by
    intro token here alive
    rcases (rewrites.token token).mp here with ⟨inState, -⟩ | ⟨old, -, rfl⟩
    · exact inState
    · exact absurd alive.2 (by simp)
  refine ⟨?_, ?_, ?_, ?_, ?_, ?_, ?_⟩
  · exact fun first second here there liveFirst liveSecond =>
      facts.one first second (live first here liveFirst) (live second there liveSecond) liveFirst liveSecond
  · exact fun first second family left right =>
      facts.permit first second family (permits first family left) (permits second family right)
  · exact fun other token permit here alive => facts.spent other token (permits other _ permit)
      (live token here alive) alive
  · intro token here
    rcases (rewrites.token token).mp here with ⟨inState, -⟩ | ⟨old, member, rfl⟩
    · exact (used _).mpr (facts.known token inState)
    · exact (used _).mpr (facts.known old (rewrites.present old member))
  · intro other token found
    rcases (rewrites.logged other token).mp found with earlier | ⟨-, old, member, rfl⟩
    · exact (used _).mpr (facts.logged other token earlier)
    · exact (used _).mpr (facts.known old (rewrites.present old member))
  · intro other token found isRotated
    rcases (rewrites.logged other token).mp found with earlier | ⟨-, old, member, rfl⟩
    · obtain ⟨current, inState, hash, stays⟩ := facts.rotated other token earlier isRotated
      by_cases hit : ∃ old ∈ olds, old.id = current.id
      · obtain ⟨old, member, same⟩ := hit
        have equal := apart old current (rewrites.present old member) inState (.inl same)
        subst equal
        exact ⟨_, (rewrites.token _).mpr (.inr ⟨old, member, rfl⟩), hash, stays⟩
      · exact ⟨current, (rewrites.token _).mpr (.inl ⟨inState,
          fun old member same => hit ⟨old, member, same⟩⟩), hash, stays⟩
    · exact ⟨_, (rewrites.token _).mpr (.inr ⟨old, member, rfl⟩), rfl, isRotated⟩
  · have earlier : ∀ other token, Logged next other token → token.Rotated → Logged state other token := by
      intro other token found rotated
      rcases (rewrites.logged other token).mp found with before | ⟨-, old, -, rfl⟩
      · exact before
      · exact absurd rotated.2 (by simp)
    exact fun first second token other left right rotatedLeft rotatedRight =>
      facts.once first second token other (earlier first token left rotatedLeft)
        (earlier second other right rotatedRight)
        rotatedLeft rotatedRight

theorem Facts.issue (facts : Facts state) {new : RefreshToken} (live : new.Live)
    (permit : Permit pid new.familyId state)
    (token : ∀ token, Token next token ↔ Token state token ∨ token = new)
    (logged : ∀ other token, Logged next other token ↔ Logged state other token ∨ (other = pid ∧ token = new))
    (world : next.world = state.world) : Facts next := by
  have used : ∀ family, Used next family ↔ Used state family := fun family => by simp [Used, world]
  have isNew := facts.used_of_permit permit
  have notRotated : ¬ new.Rotated := fun rotated => by simp [RefreshToken.Rotated, live.1] at rotated
  have permits : ∀ other family, Permit other family next → Permit other family state ∧
      family ≠ new.familyId := by
    rintro other family ⟨right, unspent⟩
    have before : Permit other family state := by
      refine ⟨?_, fun ⟨token, found, rest⟩ => unspent ⟨token, (logged other token).mpr (.inl found), rest⟩⟩
      rcases right with ⟨token, found, rotated, family⟩ | drew
      · rcases (logged other token).mp found with earlier | ⟨-, rfl⟩
        · exact .inl ⟨token, earlier, rotated, family⟩
        · exact absurd rotated notRotated
      · exact .inr (by simpa [Drew, world] using drew)
    refine ⟨before, fun same => ?_⟩
    subst same
    have mine := facts.permit other pid _ before permit
    exact unspent ⟨new, (logged other new).mpr (.inr ⟨mine, rfl⟩), live, rfl⟩
  refine ⟨?_, ?_, ?_, ?_, ?_, ?_, ?_⟩
  · intro first second here there liveFirst liveSecond family
    rcases (token first).mp here with inFirst | rfl
    · rcases (token second).mp there with inSecond | rfl
      · exact facts.one first second inFirst inSecond liveFirst liveSecond family
      · exact absurd liveFirst (facts.spent pid first (family ▸ permit) inFirst)
    · rcases (token second).mp there with inSecond | rfl
      · exact absurd liveSecond (facts.spent pid second (family ▸ permit) inSecond)
      · rfl
  · exact fun first second family left right =>
      facts.permit first second family (permits first family left).1 (permits second family right).1
  · intro other token' held here alive
    rcases (token token').mp here with inState | rfl
    · exact facts.spent other token' (permits other _ held).1 inState alive
    · exact (permits other _ held).2 rfl
  · intro token' here
    rcases (token token').mp here with inState | rfl
    · exact (used _).mpr (facts.known token' inState)
    · exact (used _).mpr isNew
  · intro other token' found
    rcases (logged other token').mp found with earlier | ⟨-, rfl⟩
    · exact (used _).mpr (facts.logged other token' earlier)
    · exact (used _).mpr isNew
  · intro other token' found rotated
    rcases (logged other token').mp found with earlier | ⟨-, rfl⟩
    · obtain ⟨current, inState, rest⟩ := facts.rotated other token' earlier rotated
      exact ⟨current, (token current).mpr (.inl inState), rest⟩
    · simp [live.1] at rotated
  · have earlier : ∀ other token', Logged next other token' → token'.Rotated → Logged state other token' := by
      intro other token' found rotated
      rcases (logged other token').mp found with before | ⟨-, rfl⟩
      · exact before
      · exact absurd rotated notRotated
    exact fun first second token' other left right rotatedLeft rotatedRight =>
      facts.once first second token' other (earlier first token' left rotatedLeft)
        (earlier second other right rotatedRight)
        rotatedLeft rotatedRight

theorem Facts.draw (facts : Facts state) {family : Uuid} (unused : ¬ Used state family) :
    Facts { state with world := ⟨(some pid, family) :: state.world.drawn⟩ } := by
  have permits :
    ∀ other group, Permit other group { state with world := ⟨(some pid, family) :: state.world.drawn⟩ } →
      Permit other group state ∨ (other = pid ∧ group = family) := by
    rintro other group ⟨right, unspent⟩
    rcases right with logged | drew
    · exact .inl ⟨.inl logged, unspent⟩
    · rcases List.mem_cons.mp drew with same | earlier
      · simp only [Prod.mk.injEq, Option.some.injEq] at same
        exact .inr same
      · exact .inl ⟨.inr earlier, unspent⟩
  have unpermitted : ∀ other, ¬ Permit other family state :=
    fun other permit => unused (facts.used_of_permit permit)
  have grown : ∀ group, Used state group →
      Used { state with world := ⟨(some pid, family) :: state.world.drawn⟩ } group :=
    fun group used => List.mem_cons_of_mem _ used
  refine ⟨facts.one, ?_, ?_, fun token here => grown _ (facts.known token here),
    fun other token found => grown _ (facts.logged other token found), facts.rotated, facts.once⟩
  · intro first second group left right
    rcases permits first group left with before | ⟨rfl, rfl⟩
    · rcases permits second group right with also | ⟨rfl, rfl⟩
      · exact facts.permit first second group before also
      · exact absurd before (unpermitted first)
    · rcases permits second _ right with also | ⟨rfl, -⟩
      · exact absurd also (unpermitted second)
      · rfl
  · intro other token permit here
    rcases permits other token.familyId permit with before | ⟨-, same⟩
    · exact facts.spent other token before here
    · exact absurd (same ▸ facts.known token here) unused

end Commits

end OpenEmarsys.Auth
