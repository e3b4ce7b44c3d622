import OpenEmarsys.Users.Service

/-! The journal of users and roles: what a commit does to the admins of the tenant.

A commit that takes the Admin role from a user was preceded by a read of that user, and some
time after that read began another admin was there. So as long as two such commits do
not overlap, an admin is left.
-/

set_option autoImplicit false

namespace OpenEmarsys.Users

open Postgres

/-- The user is active and has the role. -/
structure Holds (admin : Uuid) (rows : List Row) (id : Uuid) : Prop where
  active : ∃ user, Row.user user ∈ rows ∧ user.id = id ∧ user.status = .active
  granted : Row.userRole id admin ∈ rows

def HasAdmin (admin : Uuid) (rows : List Row) : Prop := ∃ id, Holds admin rows id

def HasRole (admin : Uuid) (rows : List Row) : Prop := ∃ role, Row.role role ∈ rows ∧
    role.id = admin ∧ role.isDefault = true

/-- A commit after which an admin is none any more. -/
def Takes (admin : Uuid) (commit : Commit Row Label) : Prop :=
  ∃ id, Holds admin commit.before id ∧ ¬ Holds admin commit.after id

def Unrenamed (admin : Uuid) (log : Log) : Prop :=
  ∀ commit ∈ log, ∀ role, Row.role role ∈ commit.after → role.id = admin → role.name = ADMIN_ROLE_NAME

/-- What takes the role from a user commits with no other such commit since its call began to read the
user. -/
def TakesAlone (admin : Uuid) (past : Log) (commit : Commit Row Label) : Prop :=
  Takes admin commit → ∀ find ∈ past, find.tid = commit.tid → find.tx.label = some .find →
    ∀ during ∈ past.drop find.tx.begun, ¬ Takes admin during

def Apart (admin : Uuid) (log : Log) : Prop := ∀ past commit, past ++ [commit] <+: log →
    TakesAlone admin past commit

theorem Unrenamed.earlier {admin : Uuid} {log past : Log} (unrenamed : Unrenamed admin log)
    (earlier : past <+: log) :
    Unrenamed admin past := fun commit member => unrenamed commit (earlier.subset member)

theorem Apart.earlier {admin : Uuid} {log past : Log} (apart : Apart admin log)
    (earlier : past <+: log) : Apart admin past :=
  fun start commit within => apart start commit (within.trans earlier)

/-- Since the process began to read the user: the user has not had the role, or another admin was there. -/
def Warranted (first : List Row) (admin : Uuid) (tid : Tid) (id : Uuid) (log : Log) : Prop :=
  ∃ find ∈ log, find.tid = tid ∧ find.tx.label = some .find ∧
    ∃ start, find.tx.begun ≤ start.length ∧ start <+: log ∧
    (Row.userRole id admin ∉ rowsAfter first start ∨ ∃ other, other ≠ id ∧
      Holds admin (rowsAfter first start) other)

structure Effect (first : List Row) (admin : Uuid) (past : Log) (commit : Commit Row Label) : Prop where
  role : HasRole admin commit.before → HasRole admin commit.after
  takes : Unrenamed admin past → ∀ id, Holds admin commit.before id → ¬ Holds admin commit.after id →
      (∀ other, other ≠ id → Holds admin commit.before other → Holds admin commit.after other) ∧
      Warranted first admin commit.tid id past

section Journal
variable {first : List Row} {admin : Uuid} {log : Log}

theorem role_stays (initial : HasRole admin first) (journal : Journal first (Effect first admin) log) :
    HasRole admin (rowsAfter first log) := by
  refine journal.invariant (fun log => HasRole admin (rowsAfter first log)) initial
    fun log commit _ before _ effect here => ?_
  rw [rowsAfter_append]
  exact effect.role (before ▸ here)

theorem name_of_role (named : ∀ role, Row.role role ∈ first → role.id = admin → role.name = ADMIN_ROLE_NAME)
    (unrenamed : Unrenamed admin log) {role : Role} (present : Row.role role ∈ rowsAfter first log)
    (same : role.id = admin) :
    role.name = ADMIN_ROLE_NAME := by
  rcases List.eq_nil_or_concat log with rfl | ⟨start, last, rfl⟩
  · exact named role present same
  · rw [List.concat_eq_append] at unrenamed present
    rw [rowsAfter_append] at present
    exact unrenamed last (by simp) role present same

theorem holds_stays {past : Log} (journal : Journal first (Effect first admin) log) (earlier : past <+: log)
    (kept : ∀ commit ∈ log.drop past.length, ¬ Takes admin commit) {id : Uuid}
    (holds : Holds admin (rowsAfter first past) id) :
    Holds admin (rowsAfter first log) id := by
  refine journal.invariant (fun log => past <+: log →
    (∀ commit ∈ log.drop past.length, ¬ Takes admin commit) →
    Holds admin (rowsAfter first log) id) ?_ ?_ earlier kept
  · intro within _
    exact List.prefix_nil.mp within ▸ holds
  · intro log commit _ before _ _ ih within kept
    rcases List.prefix_concat_iff.mp within with rfl | shorter
    · exact holds
    · rw [List.drop_append_of_le_length shorter.length_le] at kept
      have here := ih shorter fun commit member => kept commit (List.mem_append_left _ member)
      rw [← before] at here
      rw [rowsAfter_append]
      by_contra lost
      exact kept commit (by simp) ⟨id, here, lost⟩

-- An admin is left, when no two commits that take the role from users overlap.
theorem admin_left (initial : HasAdmin admin first) (journal : Journal first (Effect first admin) log)
    (unrenamed : Unrenamed admin log) (apart : Apart admin log) {past : Log} (earlier : past <+: log) :
    HasAdmin admin (rowsAfter first past) := by
  refine journal.invariant (fun log => Unrenamed admin log → Apart admin log → ∀ past, past <+: log →
    HasAdmin admin (rowsAfter first past))
    ?_ ?_ unrenamed apart past earlier
  · intro _ _ past within
    exact List.prefix_nil.mp within ▸ initial
  · intro log commit journal before _ effect ih unrenamed apart past within
    have shorter : log <+: log ++ [commit] := List.prefix_append ..
    have each := ih (unrenamed.earlier shorter) (apart.earlier shorter)
    rcases List.prefix_concat_iff.mp within with rfl | within
    · rw [rowsAfter_append]
      obtain ⟨id, holds⟩ := each log List.prefix_rfl
      rw [← before] at holds
      by_cases stays : Holds admin commit.after id
      · exact ⟨id, stays⟩
      · obtain ⟨others, find, read, own, label, start, begun, since, warrant⟩ :=
          effect.takes (unrenamed.earlier shorter) id holds stays
        have witness : ∃ other, other ≠ id ∧ Holds admin (rowsAfter first start) other := by
          rcases warrant with absent | there
          · obtain ⟨other, was⟩ := each start since
            exact ⟨other, fun same => absent (same ▸ was.granted), was⟩
          · exact there
        obtain ⟨other, distinct, was⟩ := witness
        have during : ∀ commit ∈ log.drop start.length, ¬ Takes admin commit := by
          intro between member
          exact apart log commit List.prefix_rfl ⟨id, holds, stays⟩ find read own label between
            (List.drop_subset_drop_left _ begun member)
        exact ⟨other, others other distinct (before ▸ holds_stays journal since during was)⟩
    · exact each past within

end Journal

end OpenEmarsys.Users
