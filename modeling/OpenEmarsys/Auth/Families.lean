import OpenEmarsys.Auth.Safety
import OpenEmarsys.Postgres.Stages

/-! The journal of the refresh tokens: what commits do to the families.

A commit issues, rotates or revokes tokens. A revocation stamps the tokens its
statement saw, so the only tokens of the family it leaves alone are those issued
between the start of that statement and its commit.
-/

set_option autoImplicit false

namespace OpenEmarsys.Auth

open Postgres Interleaving

abbrev Log := List (Commit Row Unit)

inductive Area where
  | tokens
  | accounts
  deriving DecidableEq

instance : Tabled Row where
  Table := Area
  decideTable := inferInstance
  table
    | .refreshToken _ => .tokens
    | _ => .accounts

def tokens (rows : List Row) : List RefreshToken := rows.filterMap asToken

@[simp] theorem mem_tokens {rows : List Row} {token : RefreshToken} :
    token ∈ tokens rows ↔ Row.refreshToken token ∈ rows := by
  rw [tokens, List.mem_filterMap]
  constructor
  · rintro ⟨row, member, same⟩
    cases row with
    | refreshToken other =>
      cases same
      exact member
    | _ => cases same
  · exact fun member => ⟨_, member, rfl⟩

/-- What a commit may do to a token that is there. -/
inductive Turn (old : RefreshToken) : RefreshToken → Prop where
  | rotate (now : Time) : old.Live → Turn old { old with rotatedAt := some now }
  | revoke (now : Time) : old.revokedAt = none → Turn old { old with revokedAt := some now }

/-- A later version of a token: the same token, and still revoked if it was. -/
structure Later (old new : RefreshToken) : Prop where
  id : new.id = old.id
  userId : new.userId = old.userId
  familyId : new.familyId = old.familyId
  tokenHash : new.tokenHash = old.tokenHash
  expiresAt : new.expiresAt = old.expiresAt
  revoked : old.revokedAt.isSome = true → new.revokedAt.isSome = true

theorem Later.refl (token : RefreshToken) : Later token token :=
  ⟨rfl, rfl, rfl, rfl, rfl, fun revoked => revoked⟩

theorem Later.trans {old middle new : RefreshToken} (first : Later old middle)
    (second : Later middle new) : Later old new :=
  ⟨second.id.trans first.id, second.userId.trans first.userId, second.familyId.trans first.familyId,
      second.tokenHash.trans first.tokenHash, second.expiresAt.trans first.expiresAt,
      fun revoked => second.revoked (first.revoked revoked)⟩

theorem Turn.later {old new : RefreshToken} (turn : Turn old new) : Later old new := by
  cases turn with
  | rotate now live => exact ⟨rfl, rfl, rfl, rfl, rfl, fun revoked => revoked⟩
  | revoke now unrevoked => exact ⟨rfl, rfl, rfl, rfl, rfl, fun _ => rfl⟩

structure Effect (first : List Row) (past : Log) (commit : Commit Row Unit) : Prop where
  added : ∀ token ∈ tokens commit.tx.added, token.Live ∨ ∃ old ∈ tokens commit.before, Turn old token
  removed : ∀ id, IndexKey.refreshToken id ∈ commit.tx.removed →
    ∃ old ∈ tokens commit.before, old.id = id ∧ ∃ token ∈ tokens commit.tx.added, Turn old token
  /-- What a revocation leaves alone was not there when its statement started. -/
  covers : ∀ token ∈ tokens commit.tx.added, token.revokedAt.isSome = true →
      ∃ start, start <+: past ∧ commit.tx.begun ≤ start.length ∧ ∀ open_ ∈ tokens commit.after,
      open_.familyId = token.familyId → open_.revokedAt = none →
      open_ ∈ tokens commit.before ∧ ∀ old ∈ tokens (rowsAfter first start), old.id ≠ open_.id

section Journal
variable {first : List Row} {log past : Log}

theorem tokens_apart {rows : List Row} (apart : rows.Pairwise NoClash) {token other : RefreshToken}
    (here : token ∈ tokens rows)
    (there : other ∈ tokens rows) (same : token.id = other.id ∨ token.tokenHash = other.tokenHash) :
    token = other :=
  @apart_of_noClash ⟨rows, [], ⟨[]⟩⟩ apart token other (mem_tokens.mp here) (mem_tokens.mp there) same

theorem tokens_after {commit : Commit Row Unit} {token : RefreshToken} : token ∈ tokens commit.after ↔
    (token ∈ tokens commit.before ∧ IndexKey.refreshToken token.id ∉ commit.tx.removed) ∨
    token ∈ tokens commit.tx.added := by
  simp only [mem_tokens, Commit.after, Tx.mem_view]
  rw [Bool.eq_false_iff, ne_eq, Tx.removes_iff]
  rfl

theorem later_version (apart : first.Pairwise NoClash) (journal : Journal first (Effect first) log)
    (earlier : past <+: log) {token : RefreshToken} (present : token ∈ tokens (rowsAfter first past)) :
    ∃ now ∈ tokens (rowsAfter first log), Later token now := by
  refine journal.invariant (fun log => past <+: log → ∃ now ∈ tokens (rowsAfter first log),
    Later token now) ?_ ?_ earlier
  · intro within
    rw [List.prefix_nil.mp within] at present
    exact ⟨token, present, .refl token⟩
  · intro log commit journal before _ effect ih within
    rcases List.prefix_concat_iff.mp within with rfl | shorter
    · exact ⟨token, present, .refl token⟩
    · obtain ⟨now, here, later⟩ := ih shorter
      rw [← before] at here
      simp only [rowsAfter_append, tokens_after]
      by_cases gone : IndexKey.refreshToken now.id ∈ commit.tx.removed
      · obtain ⟨old, there, same, new, added, turn⟩ := effect.removed now.id gone
        have equal := tokens_apart (before ▸ journal.apart apart) there here (.inl same)
        subst equal
        exact ⟨new, .inr added, later.trans turn.later⟩
      · exact ⟨now, .inl ⟨here, gone⟩, later⟩

def IssuedSince (past log : Log) (family : Uuid) : Prop :=
  ∃ middle commit, past <+: middle ∧ middle ++ [commit] <+: log ∧
    ∃ new ∈ tokens commit.tx.added, new.Live ∧ new.familyId = family

theorem IssuedSince.longer {family : Uuid} {commit : Commit Row Unit} (issued : IssuedSince past log family) :
    IssuedSince past (log ++ [commit]) family := by
  obtain ⟨middle, issue, since, until_, new⟩ := issued
  exact ⟨middle, issue, since, until_.trans (List.prefix_append ..), new⟩

theorem issued_since (journal : Journal first (Effect first) log) (earlier : past <+: log)
    {token : RefreshToken} (present : token ∈ tokens (rowsAfter first log)) :
    (∃ old ∈ tokens (rowsAfter first past), old.id = token.id) ∨ IssuedSince past log token.familyId := by
  refine journal.invariant (fun log => past <+: log → ∀ token ∈ tokens (rowsAfter first log),
      (∃ old ∈ tokens (rowsAfter first past), old.id = token.id) ∨
      IssuedSince past log token.familyId) ?_ ?_ earlier token present
  · intro within token here
    rw [List.prefix_nil.mp within]
    exact .inl ⟨token, here, rfl⟩
  · intro log commit _ before _ effect ih within token here
    rcases List.prefix_concat_iff.mp within with rfl | shorter
    · exact .inl ⟨token, here, rfl⟩
    · have known : ∀ old ∈ tokens commit.before, Later old token →
              (∃ old ∈ tokens (rowsAfter first past), old.id = token.id) ∨
              IssuedSince past (log ++ [commit]) token.familyId := by
        intro old there later
        rw [later.id, later.familyId]
        exact (ih shorter old (before ▸ there)).imp id IssuedSince.longer
      rw [rowsAfter_append] at here
      rcases tokens_after.mp here with ⟨there, -⟩ | added
      · exact known token there (.refl token)
      · rcases effect.added token added with live | ⟨old, there, turn⟩
        · exact .inr ⟨log, commit, shorter, List.prefix_rfl, token, added, live, rfl⟩
        · exact known old there turn.later

-- A token that has been revoked since, was by a commit.
theorem revoked_since (apart : first.Pairwise NoClash) (journal : Journal first (Effect first) log)
    (earlier : past <+: log) {token : RefreshToken} (present : token ∈ tokens (rowsAfter first past))
    (unrevoked : token.revokedAt = none) :
    (∃ now ∈ tokens (rowsAfter first log), Later token now ∧ now.revokedAt = none) ∨
      ∃ middle commit, middle ++ [commit] <+: log ∧ ∃ new ∈ tokens commit.tx.added,
        new.revokedAt.isSome = true ∧
        new.familyId = token.familyId := by
  refine journal.invariant (fun log => past <+: log → (∃ now ∈ tokens (rowsAfter first log), Later token now ∧
    now.revokedAt = none) ∨
        ∃ middle commit, middle ++ [commit] <+: log ∧ ∃ new ∈ tokens commit.tx.added,
        new.revokedAt.isSome = true ∧
        new.familyId = token.familyId) ?_ ?_ earlier
  · intro within
    rw [List.prefix_nil.mp within] at present
    exact .inl ⟨token, present, .refl token, unrevoked⟩
  · intro log commit journal before _ effect ih within
    rcases List.prefix_concat_iff.mp within with rfl | shorter
    · exact .inl ⟨token, present, .refl token, unrevoked⟩
    · rcases ih shorter with ⟨now, here, later, open_⟩ | ⟨middle, revocation, until_, new⟩
      · rw [← before] at here
        simp only [rowsAfter_append, tokens_after]
        by_cases gone : IndexKey.refreshToken now.id ∈ commit.tx.removed
        · obtain ⟨old, there, same, new, added, turn⟩ := effect.removed now.id gone
          have equal := tokens_apart (before ▸ journal.apart apart) there here (.inl same)
          subst equal
          cases turn with
          | rotate time live => exact .inl ⟨_, .inr added, later.trans (Turn.rotate time live).later, open_⟩
          | revoke time _ => exact .inr ⟨log, commit, List.prefix_rfl, _, added, rfl, later.familyId⟩
        · exact .inl ⟨now, .inl ⟨here, gone⟩, later, open_⟩
      · exact .inr ⟨middle, revocation, until_.trans (List.prefix_append ..), new⟩

end Journal

/-- All tokens of the family are revoked. -/
structure Shut (family : Uuid) (rows : List Row) : Prop where
  known : ∃ token ∈ tokens rows, token.familyId = family
  revoked : ∀ token ∈ tokens rows, token.familyId = family → token.revokedAt.isSome = true

/-- No token of the family is issued once one of it is revoked, and none of it while a
revocation of the family is under way. -/
def InTime (family : Uuid) (past : Log) (commit : Commit Row Unit) : Prop :=
  (∀ token ∈ tokens commit.tx.added, token.Live → token.familyId = family →
    ∀ other ∈ tokens commit.before, other.familyId = family → other.revokedAt = none) ∧
  ∀ token ∈ tokens commit.tx.added, token.revokedAt.isSome = true → token.familyId = family →
    ∀ during ∈ past.drop commit.tx.begun, ∀ new ∈ tokens during.tx.added, new.Live → new.familyId ≠ family

def Timely (family : Uuid) (log : Log) : Prop := ∀ past commit, past ++ [commit] <+: log →
    InTime family past commit

theorem Timely.earlier {family : Uuid} {log past : Log} (timely : Timely family log)
    (earlier : past <+: log) : Timely family past :=
  fun start commit within => timely start commit (within.trans earlier)

instance (token : RefreshToken) : Decidable token.Live := inferInstanceAs (Decidable (_ ∧ _))

instance (family : Uuid) (past : Log) (commit : Commit Row Unit) : Decidable (InTime family past commit) :=
  inferInstanceAs (Decidable (_ ∧ _))

instance (family : Uuid) (log : Log) : Decidable (Timely family log) :=
  decidable_of_iff _ forall_commits_iff.symm

section Shut
variable {first : List Row} {log past : Log} {family : Uuid} (apart : first.Pairwise NoClash)
  (journal : Journal first (Effect first) log) (timely : Timely family log)
include apart journal timely

theorem shut_stays (earlier : past <+: log) (shut : Shut family (rowsAfter first past)) :
    Shut family (rowsAfter first log) := by
  refine journal.invariant (fun log => Timely family log → past <+: log →
    Shut family (rowsAfter first log)) ?_ ?_ timely earlier
  · intro _ within
    exact List.prefix_nil.mp within ▸ shut
  · intro log commit journal before noClash effect ih timely within
    rcases List.prefix_concat_iff.mp within with rfl | shorter
    · exact shut
    · have here := ih (timely.earlier (List.prefix_append ..)) shorter
      rw [← before] at here
      obtain ⟨token, present, same⟩ := here.known
      obtain ⟨now, there, later⟩ :=
        later_version apart (journal.commit before noClash effect) (List.prefix_append log [commit])
        (before ▸ present)
      refine ⟨⟨now, there, later.familyId.trans same⟩, fun other member family => ?_⟩
      rw [rowsAfter_append] at member
      rcases tokens_after.mp member with ⟨stays, -⟩ | added
      · exact here.revoked other stays family
      · rcases effect.added other added with live | ⟨old, stays, turn⟩
        · have unrevoked := (timely log commit List.prefix_rfl).1 other added live family token present same
          have revoked := here.revoked token present same
          simp [unrevoked] at revoked
        · exact turn.later.revoked (here.revoked old stays (turn.later.familyId.symm.trans family))

omit apart in
theorem shut_by_revocation {commit : Commit Row Unit} (within : past ++ [commit] <+: log)
    {token : RefreshToken}
    (added : token ∈ tokens commit.tx.added) (revoked : token.revokedAt.isSome = true)
    (ours : token.familyId = family) :
    Shut family (rowsAfter first (past ++ [commit])) := by
  obtain ⟨before, effect⟩ := journal.entry within
  rw [rowsAfter_append]
  refine ⟨⟨token, tokens_after.mpr (.inr added), ours⟩, fun open_ present isOurs => ?_⟩
  by_contra unrevoked
  rw [Bool.not_eq_true, Option.isSome_eq_false_iff, Option.isNone_iff_eq_none] at unrevoked
  obtain ⟨start, earlier, begun, covered⟩ := effect.covers token added revoked
  obtain ⟨there, absent⟩ := covered open_ present (isOurs.trans ours.symm) unrevoked
  have prior := journal.prefix_ ((List.prefix_append past [commit]).trans within)
  rcases issued_since prior earlier (before ▸ there) with ⟨old, member, same⟩ | ⟨middle, issue, since, until_,
    new, fresh, live, same⟩
  · exact absent old member same
  · -- the transaction of the revocation was open by then
    have during : issue ∈ past.drop commit.tx.begun := by
      obtain ⟨rest, rfl⟩ := until_
      have length : commit.tx.begun ≤ middle.length := begun.trans since.length_le
      rw [List.append_assoc, List.drop_append_of_le_length length]
      simp
    exact (timely past commit within).2 token added revoked ours issue during new fresh
      live (same.trans isOurs)

-- A family is shut when all its tokens that were there at some time have been revoked since.
theorem shut_by_tokens (earlier : past <+: log) {token : RefreshToken}
    (present : token ∈ tokens (rowsAfter first past))
    (ours : token.familyId = family)
    (revoked : ∀ now ∈ tokens (rowsAfter first log), now.familyId = family →
      (∃ old ∈ tokens (rowsAfter first past), old.id = now.id) → now.revokedAt.isSome = true) :
    Shut family (rowsAfter first log) := by
  obtain ⟨now, here, later⟩ := later_version apart journal earlier present
  refine ⟨⟨now, here, later.familyId.trans ours⟩, fun open_ member isOurs => ?_⟩
  rcases issued_since journal earlier member with there | ⟨middle, issue, since, until_,
    new, fresh, live, same⟩
  · exact revoked open_ member isOurs there
  · -- it was issued before the family was revoked, so the revocation has stamped it too
    have start : middle <+: log := (List.prefix_append middle [issue]).trans until_
    obtain ⟨before, -⟩ := journal.entry until_
    obtain ⟨then_, inMiddle, sameThen⟩ := later_version apart (journal.prefix_ start) since present
    have oursThen : then_.familyId = family := sameThen.familyId.trans ours
    have unrevoked := (timely middle issue until_).1 new fresh live (same.trans isOurs) then_
      (before ▸ inMiddle) oursThen
    rcases revoked_since apart journal start inMiddle unrevoked with
      ⟨last, there, sameLast, stillOpen⟩ | ⟨past, commit, within, stamp, added, isRevoked, sameStamp⟩
    · have equal : last = now := tokens_apart (journal.apart apart) there here
        (.inl (sameLast.id.trans (sameThen.id.trans later.id.symm)))
      have stamped := revoked now here (later.familyId.trans ours) ⟨token, present, later.id.symm⟩
      simp [← equal, stillOpen] at stamped
    · have shut := shut_by_revocation journal timely within added isRevoked (sameStamp.trans oursThen)
      exact (shut_stays apart journal timely within shut).revoked open_ member isOurs

end Shut

end OpenEmarsys.Auth
