import OpenEmarsys.Users.Commits

/-! Whether the last admin of a tenant stays, over all runs of the four calls. -/

set_option autoImplicit false

namespace OpenEmarsys.Users

open Postgres Interleaving

/-- A tenant with its default Admin role and an admin. -/
structure Staffed (admin : Uuid) (rows : List Row) : Prop where
  apart : rows.Pairwise NoClash
  role : Row.role ⟨admin, ADMIN_ROLE_NAME, true⟩ ∈ rows
  admin : HasAdmin admin rows

theorem Staffed.hasRole {admin : Uuid} {rows : List Row}
    (staffed : Staffed admin rows) : HasRole admin rows :=
  ⟨_, staffed.role, rfl, rfl⟩

theorem Staffed.named {admin : Uuid} {rows : List Row} (staffed : Staffed admin rows) :
    ∀ role, Row.role role ∈ rows → role.id = admin → role.name = ADMIN_ROLE_NAME :=
  fun _ present is => congrArg Role.name (roles_apart staffed.apart present staffed.role (.inl is))

section Calls
variable {first : List Row} {admin : Uuid} {rules : Rules Call (Action Row Label Request) State}
  {pid : Tid} {known : Log → Prop}

theorem learns_assertRoles (persists : Persists known) (ids : List Uuid) :
    Learns first admin rules pid known (assertRolesBelongToTenant ids) fun _ => known := by
  unfold assertRolesBelongToTenant
  split
  · exact Chronicle.Learns.keep persists ()
  · refine Chronicle.Learns.bind (learns_select persists _) fun rows => ?_
    split
    · exact PublicProtocol.Step.fail
    · exact Chronicle.Learns.ret persists fun _ _ held => held.1

theorem learns_assertGiven (persists : Persists known) (given : Option (List Uuid)) :
    Learns first admin rules pid known (given.forM assertRolesBelongToTenant) fun _ => known := by
  cases given with
  | none => exact Chronicle.Learns.keep persists ()
  | some ids => exact learns_assertRoles persists ids

theorem Seen.absent {id : Uuid} {roles : List Uuid} {log : Log} (seen : Seen first pid id roles log)
    (none_ : admin ∉ roles) :
    Warranted first admin pid id log := by
  obtain ⟨past, find, within, own, label, start, begun, since, same⟩ := seen
  have earlier : past <+: log := (List.prefix_append ..).trans within
  exact ⟨find, within.subset (by simp), own, label, start, begun, since.trans earlier, .inl
    fun there => none_ ((same admin).mpr there)⟩

theorem Seen.counted {id other : Uuid} {roles : List Uuid} {log past : Log} (earlier : past <+: log)
    (seen : Seen first pid id roles past)
    (distinct : other ≠ id) (holds : Holds admin (rowsAfter first past) other) :
    Warranted first admin pid id log := by
  obtain ⟨start, find, within, own, label, begun, since, before, -⟩ := seen
  have length : find.tx.begun ≤ past.length :=
    since.trans (before.length_le.trans ((List.prefix_append start [find]).trans within).length_le)
  exact ⟨find, earlier.subset (within.subset (by simp)), own, label, past, length, earlier,
    .inr ⟨other, distinct, holds⟩⟩

section Staffed
variable (staffed : Staffed admin first)
include staffed

theorem learns_losesRole (persists : Persists known) (input : UpdateUserInput) :
    Learns first admin rules pid known (losesRole input) fun loses log =>
      known log ∧ Named admin (fun _ => loses = false → ∀ ids ∈ input.role_ids, admin ∈ ids) log := by
  have lasts : ∀ loses : Bool, Persists fun log =>
      known log ∧ Named admin (fun _ => loses = false → ∀ ids ∈ input.role_ids, admin ∈ ids) log :=
    fun loses => persists.and (named_persists admin (persists_const _))
  unfold losesRole
  split
  · next none_ => exact Chronicle.Learns.ret (lasts false) fun _ _ held => ⟨held, fun _ _ => by simp [none_]⟩
  · next ids given =>
    refine Chronicle.Learns.bind (learns_hasAdminRole staffed.apart staffed.hasRole staffed.named
      persists ids) fun stays => ?_
    refine Chronicle.Learns.ret (lasts _) fun state _ held => ⟨held.1, fun unrenamed kept => ?_⟩
    have iff_ := held.2 unrenamed
    simp only [Bool.not_eq_false'] at kept
    simpa [given] using iff_.mp kept

theorem learns_update (id : Uuid) (input : UpdateUserInput) :
    Learns first admin rules pid (fun _ => True) (update id input) fun _ _ => True := by
  refine Chronicle.Learns.bind (learns_findUser (persists_const True) id) fun found => ?_
  cases found with
  | none => exact PublicProtocol.Step.fail
  | some found =>
    obtain ⟨user, roles⟩ := found
    have seen : Persists fun log => True ∧ Seen first pid id roles log :=
      (persists_const True).and (seen_persists first pid id roles)
    refine Chronicle.Learns.bind (learns_assertGiven seen _) fun _ => ?_
    refine Chronicle.Learns.bind (learns_hasAdminRole staffed.apart staffed.hasRole staffed.named seen roles)
      fun currentlyAdmin => ?_
    have facts := seen.and (named_persists admin (persists_const (currentlyAdmin = true ↔ admin ∈ roles)))
    refine Chronicle.Learns.bind (learns_losesRole staffed facts input) fun loses => ?_
    have more :=
      facts.and (named_persists admin (persists_const (loses = false → ∀ ids ∈ input.role_ids, admin ∈ ids)))
    dsimp only
    split
    · have counts :=
        more.and (named_persists admin (once_persists fun past => (((True ∧ Seen first pid id roles past) ∧
        Named admin (fun _ => currentlyAdmin = true ↔ admin ∈ roles) past) ∧
        Named admin (fun _ => loses = false → ∀ ids ∈ input.role_ids, admin ∈ ids) past) ∧
        ∃ other, other ≠ id ∧ Holds admin (rowsAfter first past) other))
      refine Chronicle.Learns.bind (learns_assertNotLastAdmin staffed.apart staffed.hasRole
        staffed.named more id) fun _ => ?_
      refine learns_saveUser staffed.apart counts id input fun log held unrenamed => .inl ?_
      obtain ⟨past, earlier, ⟨⟨⟨-, seen⟩, -⟩, -⟩, other, distinct, holds⟩ := held.2 unrenamed
      exact seen.counted earlier distinct holds
    · next unchecked =>
      refine learns_saveUser staffed.apart more id input fun log held unrenamed => ?_
      obtain ⟨⟨⟨-, seen⟩, had⟩, keeps⟩ := held
      cases isAdmin : currentlyAdmin with
      | false =>
        refine .inl (seen.absent fun there => ?_)
        rw [(had unrenamed).mpr there] at isAdmin
        cases isAdmin
      | true =>
        simp only [isAdmin, Bool.true_and, Bool.or_eq_true, beq_iff_eq, not_or, Bool.not_eq_true] at unchecked
        exact .inr ⟨keeps unrenamed unchecked.1, unchecked.2⟩

theorem learns_remove (id : Uuid) : Learns first admin rules pid (fun _ => True)
    (remove id) fun _ _ => True := by
  refine Chronicle.Learns.bind (learns_findUser (persists_const True) id) fun found => ?_
  cases found with
  | none => exact PublicProtocol.Step.fail
  | some found =>
    obtain ⟨user, roles⟩ := found
    have seen : Persists fun log => True ∧ Seen first pid id roles log :=
      (persists_const True).and (seen_persists first pid id roles)
    refine Chronicle.Learns.bind (learns_hasAdminRole staffed.apart staffed.hasRole staffed.named seen roles)
      fun isAdmin => ?_
    have facts := seen.and (named_persists admin (persists_const (isAdmin = true ↔ admin ∈ roles)))
    dsimp only
    split
    · have counts :=
        facts.and (named_persists admin (once_persists fun past => ((True ∧ Seen first pid id roles past) ∧
        Named admin (fun _ => isAdmin = true ↔ admin ∈ roles) past) ∧ ∃ other, other ≠ id ∧
          Holds admin (rowsAfter first past) other))
      refine Chronicle.Learns.bind (learns_assertNotLastAdmin staffed.apart staffed.hasRole
        staffed.named facts id) fun _ => ?_
      refine learns_deleteUser counts id fun log held unrenamed => ?_
      obtain ⟨past, earlier, ⟨⟨-, seen⟩, -⟩, other, distinct, holds⟩ := held.2 unrenamed
      exact seen.counted earlier distinct holds
    · next unchecked =>
      refine learns_deleteUser facts id fun log held unrenamed => held.1.2.absent fun there => ?_
      exact unchecked ((held.2 unrenamed).mpr there)

theorem learns_updateRole (id : Uuid) (input : RoleUpdateInput) :
    Learns first admin rules pid (fun _ => True) (updateRole id input) fun _ _ => True := by
  refine Chronicle.Learns.bind (learns_findRole (persists_const True) id) fun role => ?_
  refine PublicProtocol.Step.handle (learns_saveRole staffed.apart
    ((persists_const True).and (once_persists _)) id input) fun error => ?_
  exact PublicProtocol.Step.fail

theorem Known.other {id : Uuid} {log : Log} (journal : Journal first (Effect first admin) log)
    (known : Known first id false log) : id ≠ admin := by
  rintro rfl
  obtain ⟨past, earlier, role, present, is, isDefault⟩ := known
  have before := journal.prefix_ earlier
  obtain ⟨default, there, same, marked⟩ := role_stays staffed.hasRole before
  have equal := roles_apart (before.apart staffed.apart) present there (.inl (is.trans same.symm))
  rw [equal, marked] at isDefault
  cases isDefault

theorem learns_removeRole (id : Uuid) : Learns first admin rules pid (fun _ => True)
    (removeRole id) fun _ _ => True := by
  have found : Learns first admin rules pid (fun _ => True) (findRole id)
      fun role _ => role.isDefault = false → id ≠ admin :=
    .conclude (learns_findRole (persists_const True) id)
      fun role log journal held plain => Known.other staffed journal (plain ▸ held.2)
  refine Chronicle.Learns.bind found fun role => ?_
  have other : Persists fun _ : Log => role.isDefault = false → id ≠ admin := persists_const _
  split
  · exact PublicProtocol.Step.fail
  · next isDefault =>
    refine Chronicle.Learns.bind (learns_select other _) fun assigned => ?_
    split
    · exact PublicProtocol.Step.fail
    · exact learns_deleteRole (other.and (once_persists _)) id
        fun log held => held.1 (Bool.eq_false_of_not_eq_true isDefault)

theorem code_learns (call : Call) : Learns first admin rules pid (fun _ => True)
    (code call) fun _ _ => True := by
  have done : ∀ answer : Answer, Learns first admin rules pid (fun _ => True) (.ret answer) fun _ _ => True :=
    Chronicle.Learns.keep (persists_const True)
  cases call with
  | update id input => exact Chronicle.Learns.bind (learns_update staffed id input) fun _ => done _
  | remove id => exact Chronicle.Learns.bind (learns_remove staffed id) fun _ => done _
  | updateRole id input => exact Chronicle.Learns.bind (learns_updateRole staffed id input) fun _ => done _
  | removeRole id => exact Chronicle.Learns.bind (learns_removeRole staffed id) fun _ => done _

end Staffed
end Calls

/-- A tenant keeps an admin in every run in which its Admin role keeps its name, and no two commits
overlap that take it from users. -/
theorem admin_kept {admin : Uuid} {rows : List Row} {config : Config} (staffed : Staffed admin rows)
    (run : (machine respond).Reaches code {} (initial rows) config)
    (unrenamed : Unrenamed admin config.state.server.log)
    (apart : Apart admin config.state.server.log) : HasAdmin admin config.state.server.rows := by
  have kept : (staff rows admin).Kept config.state.public :=
    Chronicle.journaled staffed.apart (fun pid call => code_learns staffed call) trivial run
  exact kept.server ▸ admin_left staffed.admin kept.journal unrenamed apart List.prefix_rfl

section Checks
variable (admin : Uuid)

def holders (rows : List Row) : List Uuid :=
  rows.filterMap fun
    | .userRole userId roleId => if roleId = admin then some userId else none
    | _ => none

theorem mem_holders {rows : List Row} {id : Uuid} : id ∈ holders admin rows ↔
    Row.userRole id admin ∈ rows := by
  rw [holders, List.mem_filterMap]
  constructor
  · rintro ⟨row, member, same⟩
    cases row with
    | userRole userId roleId =>
      simp only [Option.ite_none_right_eq_some, Option.some.injEq] at same
      obtain ⟨rfl, rfl⟩ := same
      exact member
    | _ => cases same
  · exact fun member => ⟨_, member, if_pos rfl⟩

theorem holds_iff {rows : List Row} {id : Uuid} :
    Holds admin rows id ↔ (∃ user ∈ rows.filterMap Row.user?, user.id = id ∧ user.status = .active) ∧
    Row.userRole id admin ∈ rows := by
  have users : ∀ user, user ∈ rows.filterMap Row.user? ↔ Row.user user ∈ rows := by
    intro user
    rw [List.mem_filterMap]
    constructor
    · rintro ⟨row, member, same⟩
      cases row with
      | user other =>
        cases same
        exact member
      | _ => cases same
    · exact fun member => ⟨_, member, rfl⟩
  simp only [users]
  exact ⟨fun holds => ⟨holds.active, holds.granted⟩, fun holds => ⟨holds.1, holds.2⟩⟩

instance (rows : List Row) (id : Uuid) : Decidable (Holds admin rows id) :=
  decidable_of_iff _ (holds_iff admin).symm

theorem hasAdmin_iff {rows : List Row} : HasAdmin admin rows ↔
    ∃ id ∈ holders admin rows, Holds admin rows id :=
  exists_congr fun _ => ⟨fun holds => ⟨(mem_holders admin).mpr holds.granted, holds⟩, fun held => held.2⟩

instance (rows : List Row) : Decidable (HasAdmin admin rows) := decidable_of_iff _ (hasAdmin_iff admin).symm

theorem takes_iff {commit : Commit Row Label} :
    Takes admin commit ↔ ∃ id ∈ holders admin commit.before, Holds admin commit.before id ∧
    ¬ Holds admin commit.after id :=
  exists_congr fun _ => ⟨fun taken => ⟨(mem_holders admin).mpr taken.1.granted, taken⟩, fun taken => taken.2⟩

instance (commit : Commit Row Label) : Decidable (Takes admin commit) :=
  decidable_of_iff _ (takes_iff admin).symm

instance (past : Log) (commit : Commit Row Label) : Decidable (TakesAlone admin past commit) :=
  inferInstanceAs (Decidable (Takes admin commit → ∀ find ∈ past, find.tid = commit.tid →
    find.tx.label = some .find →
    ∀ during ∈ past.drop find.tx.begun, ¬ Takes admin during))

instance (log : Log) : Decidable (Apart admin log) := decidable_of_iff _ forall_commits_iff.symm

theorem unrenamed_iff {log : Log} : Unrenamed admin log ↔
    ∀ commit ∈ log, ∀ role ∈ commit.after.filterMap Row.role?, role.id = admin →
    role.name = ADMIN_ROLE_NAME := by
  simp only [mem_roles]
  rfl

instance (log : Log) : Decidable (Unrenamed admin log) := decidable_of_iff _ (unrenamed_iff admin).symm

end Checks

def roles : List Row := [.role ⟨1, "Admin", true⟩, .role ⟨2, "Marketer", true⟩, .role ⟨3, "Viewer", true⟩]

def activeUser (id : Uuid) : Row := .user ⟨id, none, .active, 0, none⟩

def oneAdmin : List Row := roles ++ [activeUser 10, .userRole 10 1]

def twoAdmins : List Row := oneAdmin ++ [activeUser 11, .userRole 11 1]

theorem staffed_of {rows : List Row} (apart : rows.Pairwise NoClash)
    (role : Row.role ⟨1, "Admin", true⟩ ∈ rows)
    (user : Row.user ⟨10, none, .active, 0, none⟩ ∈ rows)
    (granted : Row.userRole 10 1 ∈ rows) : Staffed 1 rows :=
  ⟨apart, role, 10, ⟨_, user, rfl, rfl⟩, granted⟩

def acts (pid count : Nat) : List (Move Call Unit) := List.replicate count (.act pid ())

/-- The Admin role is renamed, and then the only admin removed. -/
def renamed : List (Move Call Unit) :=
  .spawn 0 (.updateRole 1 { name := some "Owner" }) :: acts 0 8 ++ .spawn 1 (.remove 10) :: acts 1 16

theorem renamed_role_unprotected :
    ¬ ∀ (admin : Uuid) (rows : List Row) (config : Config), Staffed admin rows →
      (machine respond).Reaches code {} (initial rows) config → HasAdmin admin config.state.server.rows := by
  intro kept
  have runs : ((machine respond).moves code renamed (initial oneAdmin)).map
      (fun config => decide (HasAdmin 1 config.state.server.rows)) = some false := by decide
  obtain ⟨config, ran, lost⟩ := Option.map_eq_some_iff.mp runs
  have staffed : Staffed 1 oneAdmin := staffed_of (by decide) (by decide) (by decide) (by decide)
  exact of_decide_eq_false lost (kept 1 oneAdmin config staffed
    ((machine respond).reaches_moves code .refl renamed ran))

def removed : List (Move Call Unit) := .spawn 0 (.remove 11) :: acts 0 24

theorem admin_kept_removing : ∃ config : Config, (machine respond).Reaches code {}
    (initial twoAdmins) config ∧
    activeUser 11 ∉ config.state.server.rows ∧ HasAdmin 1 config.state.server.rows := by
  have runs : ((machine respond).moves code removed (initial twoAdmins)).map (fun config =>
      (decide (activeUser 11 ∉ config.state.server.rows), decide (Unrenamed 1 config.state.server.log),
        decide (Apart 1 config.state.server.log))) = some (true, true, true) := by decide
  obtain ⟨config, ran, found⟩ := Option.map_eq_some_iff.mp runs
  simp only [Prod.mk.injEq, decide_eq_true_eq] at found
  have reached := (machine respond).reaches_moves code .refl removed ran
  have staffed : Staffed 1 twoAdmins := staffed_of (by decide) (by decide) (by decide) (by decide)
  exact ⟨config, reached, found.1, admin_kept staffed reached found.2.1 found.2.2⟩

end OpenEmarsys.Users
