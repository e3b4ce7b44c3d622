import OpenEmarsys.Users.Admins
import OpenEmarsys.Postgres.Endings
import OpenEmarsys.Postgres.Holding

/-! The transactions of `UsersService` and `RolesService`, each taken to the effect of its commit. -/

set_option autoImplicit false

namespace OpenEmarsys.Users

open Postgres Interleaving

/-- The journal of a tenant that started with these rows. -/
def staff (rows : List Row) (admin : Uuid) : Chronicle Row Label Unit where
  first := rows
  Effect := Effect rows admin
  Outside _ _ := True
  outside _ _ := trivial

section Calls

variable {first : List Row} {admin : Uuid} {rules : Rules Call (Action Row Label Request) State}
  {pid : Tid} {known : Log → Prop}

/-- What a script does to the log, and what is known of the log afterwards. -/
abbrev Learns {α : Type} (first : List Row) (admin : Uuid)
    (rules : Rules Call (Action Row Label Request) State) (pid : Tid)
    (known : Log → Prop) (script : ServiceScript α) (post : α → Log → Prop) : Prop :=
  (staff first admin).Learns respond rules pid known script post

abbrev Makes {α : Type} (first : List Row) (admin : Uuid)
    (rules : Rules Call (Action Row Label Request) State) (pid : Tid)
    (pre : State → Prop) (script : ServiceScript α) (post : α → State → Prop) : Prop :=
  (staff first admin).Makes respond rules pid pre script post

variable {label : Label} {contents : Contents Row}

theorem mem_after {shared : State} (holding : Holding first pid label contents known shared) (row : Row) :
    row ∈ (⟨pid, shared.server.rows, shared.server.txs pid⟩ : Commit Row Label).after ↔
    contents.Sees shared.server.rows row := by
  obtain ⟨history, at_⟩ := holding
  exact at_.contents.view _ row

theorem effect_of_others {shared : State} (holding : Holding first pid label contents known shared)
    (users : contents .users = ⟨[], []⟩) (roles : contents .roles = ⟨[], []⟩)
    (userRoles : contents .userRoles = ⟨[], []⟩) :
    Effect first admin shared.server.log ⟨pid, shared.server.rows, shared.server.txs pid⟩ := by
  have user : ∀ row, tableOf row = Area.users ∨ tableOf row = Area.roles ∨ tableOf row = Area.userRoles →
      row ∈ shared.server.rows →
      row ∈ (⟨pid, shared.server.rows, shared.server.txs pid⟩ : Commit Row Label).after := by
    intro row area here
    refine (mem_after holding row).mpr (.inl ⟨here, ?_⟩)
    rcases area with is | is | is <;> simp [is, users, roles, userRoles]
  refine ⟨?_, fun _ id holds lost => absurd ?_ lost⟩
  · rintro ⟨role, present, is⟩
    exact ⟨role, user _ (.inr (.inl rfl)) present, is⟩
  · obtain ⟨⟨row, present, is⟩, granted⟩ := holds
    exact ⟨⟨row, user _ (.inl rfl) present, is⟩, user _ (.inr (.inr rfl)) granted⟩

theorem learns_quiet {α : Type} (persists : Persists known) {body : ServiceScript α} (done : α → Log → Prop)
    (lasts : ∀ value, Persists (done value))
    (runs : ∀ opened, Makes first admin rules pid (Stage.Here (staff first admin) pid ⟨label, opened,
      [], .empty⟩ known) body
      fun value => Has first pid label .empty (done value)) :
    Learns first admin rules pid known (transaction label body) done := by
  refine Stage.transaction persists (fun value => Holding first pid label .empty (done value)) done runs
    (fun value => holding_lasting (lasts value)) (fun value shared _ holding => ?_) lasts
  refine ⟨effect_of_others holding rfl rfl rfl, ?_⟩
  obtain ⟨history, at_⟩ := holding
  exact lasts value _ _ (List.prefix_append ..) at_.known

/-- What a query replies, as the table was at some time. -/
def Read (first : List Row) (known : Log → Prop) (p : Row → Bool) (rows : List Row) : Log → Prop :=
  Once fun past => known past ∧ ∀ row, row ∈ rows ↔ p row = true ∧ row ∈ rowsAfter first past

theorem learns_select (persists : Persists known) (p : Row → Bool) :
    Learns first admin rules pid known (query (.select p)) fun rows log => known log ∧
    Read first known p rows log := by
  refine learns_quiet persists _ (fun rows => persists.and (once_persists _)) fun opened => ?_
  refine (Stage.select persists p).weaken fun result shared _ held => ?_
  cases result with
  | error error => trivial
  | ok rows =>
    refine held.imp id fun at_ => ⟨(opened, []), at_.weaken ?_⟩
    rintro log ⟨here, past, earlier, since, -, found⟩
    exact ⟨here, past, earlier, since.known, fun row => by rw [found row, Contents.sees_empty]; rfl⟩

/-- The roles of the user, as they were some time after the process began to read the user. -/
def Seen (first : List Row) (pid : Tid) (id : Uuid) (roles : List Uuid) (log : Log) : Prop :=
  ∃ past find, past ++ [find] <+: log ∧ find.tid = pid ∧ find.tx.label = some .find ∧
      ∃ start, find.tx.begun ≤ start.length ∧ start <+: past ∧ ∀ roleId, roleId ∈ roles ↔
      Row.userRole id roleId ∈ rowsAfter first start

theorem seen_persists (first : List Row) (pid : Tid) (id : Uuid) (roles : List Uuid) :
    Persists (Seen first pid id roles) := by
  rintro log next grown ⟨past, find, within, rest⟩
  exact ⟨past, find, within.trans grown, rest⟩

theorem mem_roleIds {rows : List Row} {roleId : Uuid} :
    roleId ∈ roleIds rows ↔ ∃ userId, Row.userRole userId roleId ∈ rows := by
  rw [roleIds, List.mem_filterMap]
  constructor
  · rintro ⟨row, member, same⟩
    cases row with
    | userRole userId other =>
      cases same
      exact ⟨userId, member⟩
    | _ => cases same
  · rintro ⟨userId, member⟩
    exact ⟨_, member, rfl⟩

/-- The roles of the user, as they were since the transaction began. -/
def SeenSince (first : List Row) (opened : Log) (id : Uuid) (roles : List Uuid) (log : Log) : Prop :=
  ∃ start, opened <+: start ∧ start <+: log ∧ ∀ roleId, roleId ∈ roles ↔
    Row.userRole id roleId ∈ rowsAfter first start

theorem seenSince_persists (opened : Log) (id : Uuid) (roles : List Uuid) :
    Persists (SeenSince first opened id roles) := by
  rintro log next grown ⟨start, since, within, same⟩
  exact ⟨start, since, within.trans grown, same⟩

def Found (seen : List Uuid → Log → Prop) : Option (User × List Uuid) → Log → Prop
  | none, _ => True
  | some (_, roles), log => seen roles log

theorem found_persists {seen : List Uuid → Log → Prop} (persists : ∀ roles, Persists (seen roles))
    (found : Option (User × List Uuid)) :
    Persists (Found seen found) := by
  cases found with
  | none => exact persists_const True
  | some found => exact persists found.2

theorem learns_findUser (persists : Persists known) (id : Uuid) :
    Learns first admin rules pid known (findUser id) fun found log => known log ∧ Found
    (Seen first pid id) found log := by
  let last (found : Option (User × List Uuid)) (shared : State) : Prop :=
    ∃ opened : Log, Stage.At first pid ⟨.find, opened, [], .empty⟩
    (fun log => known log ∧ Found (SeenSince first opened id) found log) shared
  have facts : ∀ opened found, Persists fun log => known log ∧ Found (SeenSince first opened id) found log :=
    fun opened found => persists.and (found_persists (seenSince_persists opened id) found)
  have lasting : ∀ found, (staff first admin).protocol.Lasting pid (last found) := by
    rintro found shared next inv later ⟨opened, at_⟩ same alongside grown
    exact ⟨opened, Stage.At.lasting (facts opened found) shared next inv later at_ same alongside grown⟩
  refine Stage.transaction persists last (fun found log => known log ∧
    Found (Seen first pid id) found log) (fun opened => ?_) lasting ?_
    fun found => persists.and (found_persists (seen_persists first pid id) found)
  · refine Stage.bind _ (Stage.select persists _) fun rows => ?_
    split
    · refine (Stage.ret (fun found => Protocol.Unless pid (last found)) (lasting _).stable).strengthen
        fun shared _ held => ?_
      exact held.imp (fun closed => closed) fun at_ => ⟨opened, at_.weaken fun log here => ⟨here.1, trivial⟩⟩
    · refine Stage.bind _ (Stage.select (persists.and (once_persists _)) _) fun roles => ?_
      refine (Stage.ret (fun found => Protocol.Unless pid (last found)) (lasting _).stable).strengthen
        fun shared _ held => ?_
      refine held.imp (fun closed => closed) fun at_ => ⟨opened, at_.weaken ?_⟩
      rintro log ⟨here, past, earlier, since, -, found⟩
      refine ⟨here.1, past, since.opened, earlier, fun roleId => ?_⟩
      rw [mem_roleIds]
      constructor
      · rintro ⟨userId, member⟩
        obtain ⟨matches_, sees⟩ := (found _).mp member
        obtain rfl : userId = id := by simpa [Row.isUserRole] using matches_
        exact Contents.sees_empty.mp sees
      · exact fun present => ⟨id, (found _).mpr ⟨by simp [Row.isUserRole], Contents.sees_empty.mpr present⟩⟩
  · rintro found shared - ⟨opened, at_⟩
    refine ⟨effect_of_others ⟨(opened, []), at_⟩ rfl rfl rfl,
      persists _ _ (List.prefix_append ..) at_.known.1, ?_⟩
    cases found with
    | none => trivial
    | some found =>
      obtain ⟨-, start, since, within, same⟩ := at_.known
      exact ⟨shared.server.log, _, List.prefix_rfl, rfl, at_.label, start,
        at_.begun ▸ since.length_le, within, same⟩

/-- What holds as long as the Admin role keeps its name. -/
def Named (admin : Uuid) (fact : Log → Prop) (log : Log) : Prop := Unrenamed admin log → fact log

theorem named_persists (admin : Uuid) {fact : Log → Prop} (persists : Persists fact) :
    Persists (Named admin fact) :=
  fun log next grown held unrenamed => persists log next grown (held (unrenamed.earlier grown))

theorem roles_apart {rows : List Row} (apart : rows.Pairwise NoClash) {role other : Role}
    (here : Row.role role ∈ rows)
    (there : Row.role other ∈ rows) (same : role.id = other.id ∨ role.name = other.name) : role = other := by
  have meets : clash (Row.role role) (Row.role other) = true := by
    rcases same with same | same <;> simp [clash, keys, primary, Indexed.uniques, same]
  exact Row.role.inj (eq_of_clash apart here there meets)

theorem mem_roles {rows : List Row} {role : Role} : role ∈ rows.filterMap Row.role? ↔
    Row.role role ∈ rows := by
  rw [List.mem_filterMap]
  constructor
  · rintro ⟨row, member, same⟩
    cases row with
    | role other =>
      cases same
      exact member
    | _ => cases same
  · exact fun member => ⟨_, member, rfl⟩

section Admin
variable (apart : first.Pairwise NoClash) (initial : HasRole admin first)
  (named : ∀ role, Row.role role ∈ first → role.id = admin → role.name = ADMIN_ROLE_NAME)
include apart initial named

-- The role is found as long as it keeps its name.
theorem learns_findAdminRole (persists : Persists known) :
    Learns first admin rules pid known findAdminRole fun found log =>
      known log ∧ Named admin (fun _ => ∃ role, found = some role ∧ role.id = admin) log := by
  refine Chronicle.Learns.bind (learns_select persists _) fun rows => ?_
  refine Chronicle.Learns.ret (persists.and (named_persists admin (persists_const _)))
    fun state app held => ?_
  obtain ⟨here, past, earlier, -, found⟩ := held
  refine ⟨here, fun unrenamed => ?_⟩
  have journal := app.journal.prefix_ earlier
  obtain ⟨role, present, is, isDefault⟩ := role_stays initial journal
  have name := name_of_role named (unrenamed.earlier earlier) present is
  have hit : role ∈ rows.filterMap Row.role? :=
    mem_roles.mpr ((found _).mpr ⟨by simp [Row.isRole, isDefault, name], present⟩)
  cases others : rows.filterMap Row.role? with
  | nil =>
    rw [others] at hit
    cases hit
  | cons head rest =>
    have member : Row.role head ∈ rows := mem_roles.mp (by rw [others]; exact List.mem_cons_self ..)
    obtain ⟨matches_, there⟩ := (found _).mp member
    simp only [Row.isRole, Bool.and_eq_true, beq_iff_eq] at matches_
    have same := roles_apart (journal.apart apart) there present (.inr (matches_.2.trans name.symm))
    exact ⟨head, rfl, same ▸ is⟩

theorem learns_hasAdminRole (persists : Persists known) (ids : List Uuid) :
    Learns first admin rules pid known (hasAdminRole ids) fun has log =>
      known log ∧ Named admin (fun _ => has = true ↔ admin ∈ ids) log := by
  have lasts : ∀ has : Bool, Persists fun log => known log ∧
      Named admin (fun _ => has = true ↔ admin ∈ ids) log :=
    fun has => persists.and (named_persists admin (persists_const _))
  unfold hasAdminRole
  split
  · next none_ =>
    refine Chronicle.Learns.ret (lasts false) fun state _ held => ⟨held, fun _ => ?_⟩
    simp [none_]
  · refine Chronicle.Learns.bind (learns_findAdminRole apart initial named persists) fun found => ?_
    refine Chronicle.Learns.ret (lasts _) fun state _ held => ⟨held.1, fun unrenamed => ?_⟩
    obtain ⟨role, rfl, is⟩ := held.2 unrenamed
    simp [is]

theorem learns_assertNotLastAdmin (persists : Persists known) (id : Uuid) :
    Learns first admin rules pid known (assertNotLastAdmin id) fun _ log =>
      known log ∧ Named admin (Once fun past => known past ∧ ∃ other, other ≠ id ∧
        Holds admin (rowsAfter first past) other) log := by
  have lasts : Persists fun log => known log ∧ Named admin (Once fun past => known past ∧
      ∃ other, other ≠ id ∧ Holds admin (rowsAfter first past) other) log :=
        persists.and (named_persists admin (once_persists _))
  refine Chronicle.Learns.bind (learns_findAdminRole apart initial named persists) fun found => ?_
  cases found with
  | none =>
    refine Chronicle.Learns.ret lasts fun state _ held => ⟨held.1, fun unrenamed => ?_⟩
    obtain ⟨role, none_, -⟩ := held.2 unrenamed
    cases none_
  | some role =>
    refine Chronicle.Learns.bind (learns_select (persists.and (named_persists admin (persists_const _))) _)
      fun rows => ?_
    split
    · exact PublicProtocol.Step.fail
    · next some_ =>
      refine Chronicle.Learns.ret lasts fun state _ held => ⟨held.1.1, fun unrenamed => ?_⟩
      obtain ⟨⟨-, finds⟩, past, earlier, since, found⟩ := held
      obtain ⟨other, same, is⟩ := finds unrenamed
      cases same
      refine ⟨past, earlier, since.1, ?_⟩
      obtain ⟨row, member⟩ := List.exists_mem_of_ne_nil _ some_
      obtain ⟨here, matches_⟩ := List.mem_filter.mp member
      cases row with
      | userRole userId roleId =>
        simp only [Row.isUserRole, Bool.and_eq_true, beq_iff_eq, bne_iff_ne, ne_eq,
          List.any_eq_true] at matches_
        obtain ⟨⟨ofRole, distinct⟩, row, there, active⟩ := matches_
        cases row with
        | user user =>
          simp only [Bool.and_eq_true, beq_iff_eq] at active
          refine ⟨userId, distinct, ⟨user, ((found _).mp there).2, active⟩, ?_⟩
          rw [← is, ← ofRole]
          exact ((found _).mp here).2
        | _ => cases active
      | _ => cases matches_

end Admin

/-! ## Changes of one user -/

theorem isUser_area {id : Uuid} {row : Row} (matches_ : Row.isUser id row = true) :
    tableOf row = Area.users := by
  cases row <;> first | rfl | cases matches_

theorem isUserRole_area {q : Uuid → Uuid → Bool} {row : Row} (matches_ : Row.isUserRole q row = true) :
    tableOf row = Area.userRoles := by
  cases row <;> first | rfl | cases matches_

theorem isRole_area {q : Role → Bool} {row : Row} (matches_ : Row.isRole q row = true) :
    tableOf row = Area.roles := by
  cases row <;> first | rfl | cases matches_

theorem isPermissionOf_area {id : Uuid} {row : Row} (matches_ : Row.isPermissionOf id row = true) :
    tableOf row = Area.rolePermissions := by
  cases row <;> first | rfl | cases matches_

theorem mapUser_keyed (f : User → User) (row : Row) : primary (Row.mapUser f row) = primary row := by
  cases row <;> rfl

theorem mapRole_keyed (f : Role → Role) (row : Row) : primary (Row.mapRole f row) = primary row := by
  cases row <;> rfl

abbrev commitOf (pid : Tid) (shared : State) : Commit Row Label :=
  ⟨pid, shared.server.rows, shared.server.txs pid⟩

theorem stays_after {shared : State} (holding : Holding first pid label contents known shared) {row : Row}
    (here : row ∈ shared.server.rows)
    (kept : ∀ old ∈ (contents (tableOf row)).gone, primary old ≠ primary row) :
    row ∈ (commitOf pid shared).after :=
  (mem_after holding row).mpr (.inl ⟨here, kept⟩)

theorem effect_of_one {shared : State} {id : Uuid} (holding : Holding first pid label contents known shared)
    (roles : contents .roles = ⟨[], []⟩) (users : ∀ row ∈ (contents .users).gone, Row.isUser id row = true)
    (userRoles : ∀ row ∈ (contents .userRoles).gone, Row.isUserRole (fun userId _ => userId == id) row = true)
    (warrant : Unrenamed admin shared.server.log → Holds admin shared.server.rows id →
      Warranted first admin pid id shared.server.log ∨ Holds admin (commitOf pid shared).after id) :
    Effect first admin shared.server.log (commitOf pid shared) := by
  have others : ∀ other, other ≠ id → Holds admin shared.server.rows other →
      Holds admin (commitOf pid shared).after other := by
    rintro other distinct ⟨⟨user, present, rfl, active⟩, granted⟩
    refine ⟨⟨user, stays_after holding present fun old gone same => ?_, rfl, active⟩,
      stays_after holding granted fun old gone same => ?_⟩
    · have matches_ := users old gone
      cases old with
      | user old =>
        simp only [Row.isUser, beq_iff_eq] at matches_
        exact distinct ((IndexKey.user.inj same).symm.trans matches_)
      | _ => cases matches_
    · have matches_ := userRoles old gone
      cases old with
      | userRole userId roleId =>
        simp only [Row.isUserRole, beq_iff_eq] at matches_
        exact distinct ((IndexKey.userRole.inj same).1.symm.trans matches_)
      | _ => cases matches_
  refine ⟨?_, fun unrenamed changed holds lost => ?_⟩
  · rintro ⟨role, present, is⟩
    refine ⟨role, stays_after holding present fun old gone => ?_, is⟩
    change old ∈ (contents .roles).gone at gone
    rw [roles] at gone
    cases gone
  · by_cases same : changed = id
    · subst same
      exact ⟨others, (warrant unrenamed holds).resolve_right lost⟩
    · exact absurd (others changed same holds) lost

def Keeps (admin : Uuid) (input : UpdateUserInput) : Prop :=
  (∀ ids ∈ input.role_ids, admin ∈ ids) ∧ input.status ≠ some .disabled

def granted (id : Uuid) (input : UpdateUserInput) : List Row := (input.role_ids.getD []).map (Row.userRole id)

/-- What `saveUser` has done before it commits. -/
def Saving (first : List Row) (pid : Tid) (known : Log → Prop) (id : Uuid) (input : UpdateUserInput)
    (shared : State) : Prop :=
  ∃ gone hits, Holding first pid .write
    (((Contents.empty : Contents Row).set Area.userRoles ⟨gone, granted id input⟩).set Area.users
      ⟨hits, hits.map (Row.mapUser input.apply)⟩)
    (fun log => known log ∧ (∀ row ∈ gone, Row.isUserRole (fun userId _ => userId == id) row = true) ∧
      (input.role_ids = none → gone = []) ∧ ∀ row ∈ hits, Row.isUser id row = true) shared

theorem apply_active {input : UpdateUserInput} {user : User} (active : user.status = .active)
    (enabled : input.status ≠ some .disabled) :
    (input.apply user).status = .active := by
  unfold UpdateUserInput.apply
  split
  · exact active
  · rfl
  · next disabled => exact absurd disabled enabled

theorem Saving.effect {shared : State} {id : Uuid} {input : UpdateUserInput} (apart : first.Pairwise NoClash)
    (inv : (staff first admin).protocol.Inv shared) (saving : Saving first pid known id input shared)
    (entitled : known shared.server.log → Named admin (fun log => Warranted first admin pid id log ∨
      Keeps admin input) shared.server.log) :
    Effect first admin shared.server.log (commitOf pid shared) := by
  obtain ⟨gone, hits, holding⟩ := saving
  obtain ⟨history, at_⟩ := holding
  obtain ⟨knows, ofUser, unchanged, areUser⟩ := at_.known
  refine effect_of_one ⟨history, at_⟩ rfl (fun row member => areUser row member)
    (fun row member => ofUser row member)
    fun unrenamed holds => (entitled knows unrenamed).imp_right fun keeps => ?_
  obtain ⟨⟨user, present, rfl, active⟩, granted⟩ := holds
  have rows : shared.server.rows.Pairwise NoClash := inv.2.server ▸ inv.2.journal.apart apart
  refine ⟨?_, ?_⟩
  · by_cases hit : Row.user user ∈ hits
    · refine ⟨{ input.apply user with id := user.id }, (mem_after ⟨history, at_⟩ _).mpr (.inr ?_), rfl,
        apply_active active keeps.2⟩
      exact List.mem_map_of_mem hit
    · refine ⟨user, stays_after ⟨history, at_⟩ present fun old replaced same => hit ?_, rfl, active⟩
      have there := (at_.contents.gone .users old replaced).2
      exact eq_of_primary rows there present same ▸ replaced
  · cases given : input.role_ids with
    | none =>
      refine stays_after ⟨history, at_⟩ granted fun old replaced => ?_
      have empty : old ∈ gone := replaced
      rw [unchanged given] at empty
      cases empty
    | some ids =>
      refine (mem_after ⟨history, at_⟩ _).mpr (.inr ?_)
      change Row.userRole user.id admin ∈ Users.granted user.id input
      rw [Users.granted, given]
      exact List.mem_map_of_mem (keeps.1 ids given)

theorem makes_fail {α : Type} {error : ServiceError} {pre : State → Prop} {post : α → State → Prop} :
    Makes first admin rules pid pre (.fail error) post := Stage.fail

theorem makes_checkKeys (persists : Persists known) (id : Uuid) (ids : List Uuid) :
    Makes first admin rules pid (Has first pid label contents known)
    (checkKeys id ids) fun _ => Has first pid label contents known := by
  induction ids with
  | nil => exact Chronicle.Makes.keep persists ()
  | cons roleId rest ih =>
    refine Stage.bind _ (Chronicle.Makes.shareKey persists _) fun users => ?_
    refine Stage.bind _ (Chronicle.Makes.shareKey persists _) fun roles => ?_
    split
    · exact makes_fail
    · exact ih

/-- The roles of the user have been replaced, if they were to be. -/
def Granting (first : List Row) (pid : Tid) (known : Log → Prop) (id : Uuid) (input : UpdateUserInput)
    (gone : List Row) : State → Prop :=
  Holding first pid .write ((Contents.empty : Contents Row).set Area.userRoles ⟨gone, granted id input⟩)
    fun log => known log ∧ (∀ row ∈ gone, Row.isUserRole (fun userId _ => userId == id) row = true) ∧
      (input.role_ids = none → gone = [])

theorem granting_persists (persists : Persists known) (id : Uuid) (input : UpdateUserInput)
    (gone : List Row) :
    Persists fun log => known log ∧ (∀ row ∈ gone, Row.isUserRole (fun userId _ => userId == id) row = true) ∧
      (input.role_ids = none → gone = []) := persists.and (persists_const _)

theorem granting_lasting (persists : Persists known) (id : Uuid) (input : UpdateUserInput) :
    (staff first admin).protocol.Lasting pid fun shared => ∃ gone,
    Granting first pid known id input gone shared := by
  rintro shared next inv later ⟨gone, holding⟩ same alongside grown
  exact ⟨gone, holding_lasting (granting_persists persists id input gone) shared next inv later
    holding same alongside grown⟩

theorem makes_setRoles (persists : Persists known) (id : Uuid) {input : UpdateUserInput} {ids : List Uuid}
    (given : input.role_ids = some ids) :
    Makes first admin rules pid (Has first pid .write .empty known) (setRoles id ids)
      fun _ => Protocol.Unless pid fun shared => ∃ gone, Granting first pid known id input gone shared := by
  have lasting : Stable (staff first admin).protocol.Rely (staff first admin).protocol.Inv pid
      (Protocol.Unless pid fun shared => ∃ gone, Granting first pid known id input gone shared) :=
        (granting_lasting persists id input).stable
  refine Stage.bind _ (Chronicle.Makes.delete Area.userRoles persists (fun _ => isUserRole_area) rfl)
    fun gone => ?_
  have facts : Persists fun log => known log ∧ ∀ row ∈ gone,
      Row.isUserRole (fun userId _ => userId == id) row = true :=
    persists.and (persists_const _)
  split
  · next none_ =>
    refine (Stage.ret (fun _ => Protocol.Unless pid fun shared => ∃ gone,
      Granting first pid known id input gone shared) lasting).strengthen
      fun shared _ held => held.imp (fun closed => closed) fun holding => ⟨gone, ?_⟩
    have none_ : granted id input = [] := by rw [granted, given, none_]; rfl
    rw [Granting, none_]
    exact holding.weaken fun log here => ⟨here.1, here.2, by simp [given]⟩
  · refine Stage.bind _ (Chronicle.Makes.insert Area.userRoles facts fun row member => ?_) fun _ => ?_
    · obtain ⟨roleId, -, rfl⟩ := List.mem_map.mp member
      rfl
    refine (makes_checkKeys facts id ids).weaken fun result shared _ held => ?_
    cases result with
    | error error => trivial
    | ok _ =>
      refine held.imp (fun closed => closed) fun holding => ⟨gone, ?_⟩
      have new : granted id input = ids.map (Row.userRole id) := by rw [granted, given]; rfl
      rw [Granting, new]
      simp only [Contents.set_set, Contents.set_same, Contents.empty_gone, List.nil_append] at holding
      exact holding.weaken fun log here => ⟨here.1, here.2, by simp [given]⟩

theorem saving_lasting (persists : Persists known) (id : Uuid) (input : UpdateUserInput) :
    (staff first admin).protocol.Lasting pid (Saving first pid known id input) := by
  rintro shared next inv later ⟨gone, hits, holding⟩ same alongside grown
  have facts : Persists fun log => known log ∧
      (∀ row ∈ gone, Row.isUserRole (fun userId _ => userId == id) row = true) ∧
      (input.role_ids = none → gone = []) ∧ ∀ row ∈ hits, Row.isUser id row = true :=
        persists.and (persists_const _)
  exact ⟨gone, hits, holding_lasting facts shared next inv later holding same alongside grown⟩

theorem makes_grants (persists : Persists known) (id : Uuid) (input : UpdateUserInput) :
    Makes first admin rules pid (Has first pid .write .empty known)
      (input.role_ids.forM (setRoles id)) fun _ => Protocol.Unless pid
      fun shared => ∃ gone, Granting first pid known id input gone shared := by
  cases given : input.role_ids with
  | some ids => exact makes_setRoles persists id given
  | none =>
    refine (Stage.ret (fun _ => Protocol.Unless pid fun shared => ∃ gone,
      Granting first pid known id input gone shared)
      (granting_lasting persists id input).stable).strengthen
        fun shared _ held => held.imp (fun closed => closed) fun holding => ⟨[], ?_⟩
    have unset : (Contents.empty : Contents Row).set Area.userRoles ⟨[], granted id input⟩ = .empty := by
      rw [granted, given]
      exact Function.update_eq_self ..
    rw [Granting, unset]
    exact holding.weaken fun log here => ⟨here, (fun row absurd_ => by cases absurd_), fun _ => rfl⟩

theorem learns_saveUser (apart : first.Pairwise NoClash) (persists : Persists known) (id : Uuid)
    (input : UpdateUserInput)
    (entitled : ∀ log, known log → Named admin (fun log => Warranted first admin pid id log ∨
      Keeps admin input) log) :
    Learns first admin rules pid known (saveUser id input) fun _ _ => True := by
  refine Stage.transaction persists (fun _ => Saving first pid known id input)
    (fun _ _ => True) (fun opened => ?_)
    (fun _ => saving_lasting persists id input) (fun _ shared inv saving =>
      ⟨saving.effect apart inv (entitled _), trivial⟩)
    fun _ => persists_const True
  have begins : ∀ shared : State, Stage.Here (staff first admin) pid ⟨.write, opened, [],
    .empty⟩ known shared →
      Has first pid .write .empty known shared := fun shared held => held.imp_right
        fun at_ => ⟨(opened, []), at_⟩
  refine Stage.bind _ ((makes_grants persists id input).strengthen
    fun shared _ held => begins shared held) fun _ => ?_
  have lasting : Stable (staff first admin).protocol.Rely (staff first admin).protocol.Inv pid
      (Protocol.Unless pid (Saving first pid known id input)) := (saving_lasting persists id input).stable
  refine Stage.choose fun gone =>
    Stage.bind _ (Chronicle.Makes.update Area.users (granting_persists persists id input gone)
    (fun _ => isUser_area) (mapUser_keyed _) ?_) fun updated => ?_
  · exact Contents.set_other _ _ fun same => by cases same
  split
  · exact makes_fail
  · have facts : ∀ hits : List Row, Persists fun log => (known log ∧
        (∀ row ∈ gone, Row.isUserRole (fun userId _ => userId == id) row = true) ∧
        (input.role_ids = none → gone = [])) ∧ ∀ row ∈ hits, Row.isUser id row = true :=
      fun hits => (granting_persists persists id input gone).and (persists_const _)
    refine Stage.bind (fun _ => Protocol.Unless pid (Saving first pid known id input))
      (Triple.strengthen (Stage.choose fun hits => (Chronicle.Makes.reads (facts hits) _).weaken
        fun result shared _ held => ?_)
        fun shared _ held => held.imp_right fun ⟨hits, _, areUser, holding⟩ =>
          ⟨hits, holding.weaken fun log here => ⟨here, areUser⟩⟩) fun roles =>
      Stage.ret (fun _ => Protocol.Unless pid (Saving first pid known id input)) lasting
    cases result with
    | error error => trivial
    | ok rows =>
      exact held.imp (fun closed => closed) fun holding =>
        ⟨gone, hits, holding.weaken fun log here =>
          ⟨here.1.1, here.1.2.1, here.1.2.2, here.2⟩⟩

theorem learns_deleteUser (persists : Persists known) (id : Uuid)
    (warranted : ∀ log, known log → Named admin (Warranted first admin pid id) log) :
    Learns first admin rules pid known (deleteUser id) fun _ _ => True := by
  let contents (users roles : List Row) : Contents Row :=
    ((Contents.empty : Contents Row).set Area.users ⟨users, []⟩).set Area.userRoles ⟨roles, []⟩
  let facts (users roles : List Row) (log : Log) : Prop :=
    (known log ∧ ∀ row ∈ users, Row.isUser id row = true) ∧
    ∀ row ∈ roles, Row.isUserRole (fun userId _ => userId == id) row = true
  let last (shared : State) : Prop :=
    ∃ users roles, Holding first pid .write (contents users roles) (facts users roles) shared
  have lasting : (staff first admin).protocol.Lasting pid last := by
    rintro shared next inv later ⟨users, roles, holding⟩ same alongside grown
    exact ⟨users, roles, holding_lasting ((persists.and (persists_const _)).and (persists_const _)) shared
      next inv later holding
      same alongside grown⟩
  refine Stage.transaction persists (fun _ => last) (fun _ _ => True) (fun opened => ?_) (fun _ => lasting) ?_
    fun _ => persists_const True
  · have begins : ∀ shared : State, Stage.Here (staff first admin) pid ⟨.write, opened, [],
      .empty⟩ known shared →
        Has first pid .write .empty known shared := fun shared held => held.imp_right
          fun at_ => ⟨(opened, []), at_⟩
    refine Stage.bind _ ((Chronicle.Makes.delete Area.users persists (fun _ => isUser_area) rfl).strengthen
      fun shared _ held => begins shared held) fun users => ?_
    split
    · exact makes_fail
    · refine Stage.bind _ (Chronicle.Makes.delete Area.userRoles (persists.and (persists_const _))
        (fun _ => isUserRole_area) ?_) fun roles => ?_
      · exact congrArg Held.new (Contents.set_other _ _ fun same => by cases same)
      · refine (Stage.ret (fun _ => Protocol.Unless pid last) lasting.stable).strengthen
          fun shared _ held => ?_
        exact held.imp (fun closed => closed) fun holding => ⟨users, roles, holding⟩
  · rintro _ shared - ⟨users, roles, holding⟩
    obtain ⟨history, at_⟩ := holding
    obtain ⟨⟨knows, areUser⟩, ofUser⟩ := at_.known
    exact ⟨effect_of_one ⟨history, at_⟩ rfl (fun row member => areUser row member)
      (fun row member => ofUser row member)
      fun unrenamed _ => .inl (warranted _ knows unrenamed), trivial⟩

/-! ## Roles -/

def Known (first : List Row) (id : Uuid) (isDefault : Bool) : Log → Prop :=
  Once fun past => ∃ role, Row.role role ∈ rowsAfter first past ∧ role.id = id ∧ role.isDefault = isDefault

theorem learns_findRole (persists : Persists known) (id : Uuid) :
    Learns first admin rules pid known (findRole id) fun role log => known log ∧
    Known first id role.isDefault log := by
  refine Chronicle.Learns.bind (learns_select persists _) fun rows => ?_
  split
  · exact PublicProtocol.Step.fail
  · next role rest some_ =>
    refine Chronicle.Learns.ret (persists.and (once_persists _)) fun state _ held => ⟨held.1, ?_⟩
    obtain ⟨-, past, earlier, -, found⟩ := held
    have member : Row.role role ∈ rows := mem_roles.mp (by rw [some_]; exact List.mem_cons_self ..)
    obtain ⟨matches_, there⟩ := (found _).mp member
    exact ⟨past, earlier, role, there, by simpa [Row.isRole] using matches_, rfl⟩

-- A commit that leaves users and their roles alone, but for the roles it removes.
theorem effect_of_roles {shared : State} (holding : Holding first pid label contents known shared)
    (users : contents .users = ⟨[], []⟩)
    (userRoles : ∀ row ∈ (contents .userRoles).gone,
      Row.isUserRole (fun _ roleId => roleId != admin) row = true)
    (role : HasRole admin shared.server.rows → HasRole admin (commitOf pid shared).after) :
    Effect first admin shared.server.log (commitOf pid shared) := by
  refine ⟨role, fun _ id holds lost => absurd ?_ lost⟩
  obtain ⟨⟨user, present, is⟩, granted⟩ := holds
  refine ⟨⟨user, stays_after holding present fun old gone => ?_, is⟩, stays_after holding granted
    fun old gone same => ?_⟩
  · change old ∈ (contents .users).gone at gone
    rw [users] at gone
    cases gone
  · have matches_ := userRoles old gone
    cases old with
    | userRole userId roleId => simp [Row.isUserRole, (IndexKey.userRole.inj same).2] at matches_
    | _ => cases matches_

def Permitting (first : List Row) (pid : Tid) (known : Log → Prop)
    (held : List Row × List Row) : State → Prop :=
  Holding first pid .write ((Contents.empty : Contents Row).set Area.rolePermissions ⟨held.1, held.2⟩) known

theorem permitting_lasting (persists : Persists known) :
    (staff first admin).protocol.Lasting pid fun shared => ∃ held,
    Permitting first pid known held shared := by
  rintro shared next inv later ⟨held, holding⟩ same alongside grown
  exact ⟨held, holding_lasting persists shared next inv later holding same alongside grown⟩

theorem makes_setPermissions (persists : Persists known) (id : Uuid) (given : Option (List Permission)) :
    Makes first admin rules pid (Has first pid .write .empty known) (given.forM (setPermissions id))
      fun _ => Protocol.Unless pid fun shared => ∃ held, Permitting first pid known held shared := by
  have lasting : Stable (staff first admin).protocol.Rely (staff first admin).protocol.Inv pid
      (Protocol.Unless pid fun shared => ∃ held, Permitting first pid known held shared) :=
        (permitting_lasting persists).stable
  cases given with
  | none =>
    refine (Stage.ret (fun _ => Protocol.Unless pid fun shared => ∃ held,
      Permitting first pid known held shared) lasting).strengthen
      fun shared _ held => held.imp (fun closed => closed) fun holding => ⟨([], []), ?_⟩
    have unset : (Contents.empty : Contents Row).set Area.rolePermissions ⟨[], []⟩ = .empty :=
      Function.update_eq_self ..
    rw [Permitting, unset]
    exact holding
  | some permissions =>
    refine Stage.bind _ (Chronicle.Makes.delete Area.rolePermissions persists
      (fun _ => isPermissionOf_area) rfl) fun gone => ?_
    have facts : Persists fun log => known log ∧ ∀ row ∈ gone, Row.isPermissionOf id row = true :=
      persists.and (persists_const _)
    split
    · refine (Stage.ret (fun _ => Protocol.Unless pid fun shared => ∃ held,
        Permitting first pid known held shared) lasting).strengthen
        fun shared _ held => held.imp (fun closed => closed)
          fun holding => ⟨(gone, []), holding.weaken fun log here => here.1⟩
    · refine Stage.bind _ (Chronicle.Makes.insert Area.rolePermissions facts fun row member => ?_) fun _ => ?_
      · obtain ⟨permission, -, rfl⟩ := List.mem_map.mp member
        rfl
      refine Stage.bind _ (Chronicle.Makes.shareKey facts _) fun roles => ?_
      split
      · exact makes_fail
      · refine (Stage.ret (fun _ => Protocol.Unless pid
          fun shared => ∃ held, Permitting first pid known held shared) lasting).strengthen
          fun shared _ held => held.imp (fun closed => closed)
            fun holding => ⟨(gone, permissions.map (Row.rolePermission id)), ?_⟩
        simp only [Contents.set_set, Contents.set_same, Contents.empty_gone, List.nil_append] at holding
        exact holding.weaken fun log here => here.1

theorem learns_saveRole (apart : first.Pairwise NoClash) (persists : Persists known) (id : Uuid)
    (input : RoleUpdateInput) :
    Learns first admin rules pid known (saveRole id input) fun _ _ => True := by
  let rename (role : Role) : Role := { role with name := input.name.getD role.name }
  let last (shared : State) : Prop := ∃ (held : List Row × List Row) (hits : List Row),
    Holding first pid .write
    (((Contents.empty : Contents Row).set Area.rolePermissions ⟨held.1, held.2⟩).set Area.roles ⟨hits,
      hits.map (Row.mapRole rename)⟩)
    known shared
  have lasting : (staff first admin).protocol.Lasting pid last := by
    rintro shared next inv later ⟨held, hits, holding⟩ same alongside grown
    exact ⟨held, hits, holding_lasting persists shared next inv later holding same alongside grown⟩
  refine Stage.transaction persists (fun _ => last) (fun _ _ => True) (fun opened => ?_) (fun _ => lasting) ?_
    fun _ => persists_const True
  · have begins : ∀ shared : State, Stage.Here (staff first admin) pid ⟨.write, opened, [],
      .empty⟩ known shared →
        Has first pid .write .empty known shared := fun shared held => held.imp_right
          fun at_ => ⟨(opened, []), at_⟩
    refine Stage.bind _ ((makes_setPermissions persists id _).strengthen
      fun shared _ held => begins shared held) fun _ => ?_
    refine Stage.choose fun held =>
      Stage.bind _ (Chronicle.Makes.update Area.roles persists (fun _ => isRole_area) (mapRole_keyed _) ?_)
      fun updated => ?_
    · exact Contents.set_other _ _ fun same => by cases same
    split
    · exact makes_fail
    · refine (Stage.ret (fun _ => Protocol.Unless pid last) lasting.stable).strengthen fun shared _ done => ?_
      exact done.imp (fun closed => closed) fun ⟨hits, _, _, holding⟩ => ⟨held, hits, holding⟩
  · rintro _ shared inv ⟨held, hits, holding⟩
    refine ⟨effect_of_roles holding rfl (fun row absurd_ => by cases absurd_) ?_, trivial⟩
    rintro ⟨role, present, is, isDefault⟩
    have rows : shared.server.rows.Pairwise NoClash := inv.2.server ▸ inv.2.journal.apart apart
    by_cases hit : Row.role role ∈ hits
    · exact ⟨{ rename role with id := role.id },
        (mem_after holding _).mpr (.inr (List.mem_map_of_mem hit)), is, isDefault⟩
    · refine ⟨role, stays_after holding present fun old replaced same => hit ?_, is, isDefault⟩
      obtain ⟨history, at_⟩ := holding
      have there := (at_.contents.gone Area.roles old replaced).2
      exact eq_of_primary rows there present same ▸ replaced

theorem learns_deleteRole (persists : Persists known) (id : Uuid) (other : ∀ log, known log → id ≠ admin) :
    Learns first admin rules pid known (deleteRole id) fun _ _ => True := by
  let contents (roles permissions granted : List Row) : Contents Row :=
    (((Contents.empty : Contents Row).set Area.roles ⟨roles, []⟩).set
    Area.rolePermissions ⟨permissions, []⟩).set Area.userRoles ⟨granted, []⟩
  let facts (roles permissions granted : List Row) (log : Log) : Prop := ((known log ∧
    ∀ row ∈ roles, Row.isRole (fun role => role.id == id) row = true) ∧
      ∀ row ∈ permissions, Row.isPermissionOf id row = true) ∧
    ∀ row ∈ granted, Row.isUserRole (fun _ roleId => roleId == id) row = true
  let last (shared : State) : Prop := ∃ roles permissions granted,
    Holding first pid .write (contents roles permissions granted)
    (facts roles permissions granted) shared
  have lasting : (staff first admin).protocol.Lasting pid last := by
    rintro shared next inv later ⟨roles, permissions, granted, holding⟩ same alongside grown
    exact ⟨roles, permissions, granted,
      holding_lasting (((persists.and (persists_const _)).and (persists_const _)).and (persists_const _))
      shared next inv later holding same alongside grown⟩
  refine Stage.transaction persists (fun _ => last) (fun _ _ => True) (fun opened => ?_) (fun _ => lasting) ?_
    fun _ => persists_const True
  · have begins : ∀ shared : State, Stage.Here (staff first admin) pid ⟨.write, opened, [],
      .empty⟩ known shared →
        Has first pid .write .empty known shared := fun shared held => held.imp_right
          fun at_ => ⟨(opened, []), at_⟩
    refine Stage.bind _ ((Chronicle.Makes.delete Area.roles persists (fun _ => isRole_area) rfl).strengthen
      fun shared _ held => begins shared held) fun roles => ?_
    split
    · exact makes_fail
    · refine Stage.bind _ (Chronicle.Makes.delete Area.rolePermissions (persists.and (persists_const _))
        (fun _ => isPermissionOf_area) ?_)
        fun permissions => ?_
      · exact congrArg Held.new (Contents.set_other _ _ fun same => by cases same)
      refine Stage.bind _ (Chronicle.Makes.delete Area.userRoles
        ((persists.and (persists_const _)).and (persists_const _))
        (fun _ => isUserRole_area) ?_) fun granted => ?_
      · exact congrArg Held.new ((Contents.set_other _ _
          fun same => by cases same).trans (Contents.set_other _ _ fun same => by cases same))
      refine (Stage.ret (fun _ => Protocol.Unless pid last) lasting.stable).strengthen fun shared _ held => ?_
      exact held.imp (fun closed => closed) fun holding => ⟨roles, permissions, granted, holding⟩
  · rintro _ shared - ⟨roles, permissions, granted, holding⟩
    obtain ⟨history, at_⟩ := holding
    obtain ⟨⟨⟨knows, areRole⟩, -⟩, ofRole⟩ := at_.known
    have distinct := other _ knows
    refine ⟨effect_of_roles ⟨history, at_⟩ rfl (fun row member => ?_) ?_, trivial⟩
    · have matches_ := ofRole row member
      cases row with
      | userRole userId roleId =>
        simp only [Row.isUserRole, beq_iff_eq] at matches_
        simp [Row.isUserRole, matches_, distinct]
      | _ => cases matches_
    · rintro ⟨role, present, is, isDefault⟩
      refine ⟨role, stays_after ⟨history, at_⟩ present fun old gone same => ?_, is, isDefault⟩
      have matches_ := areRole old gone
      cases old with
      | role old =>
        simp only [Row.isRole, beq_iff_eq] at matches_
        exact distinct (matches_.symm.trans ((IndexKey.role.inj same).trans is))
      | _ => cases matches_

end Calls

end OpenEmarsys.Users
