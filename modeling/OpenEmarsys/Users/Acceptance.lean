import OpenEmarsys.Users.Invitations

/-! Whether an invitation is accepted at most once, over all runs of `accept` and `UsersService.update`.

The journal says what each commit does to the invitations. A commit that accepts one was preceded by
a commit that found it unused; so two can accept it only when the second had begun to look it up
before the first has committed.
-/

set_option autoImplicit false

namespace OpenEmarsys.Invitations

open Postgres Interleaving Javascript
open Users (User)

/-- The invitation with the hash of this token has been accepted. -/
def Accepted (hash : String) (rows : List Row) : Prop :=
  ∃ invitation, Row.invitation invitation ∈ rows ∧ invitation.tokenHash = hash ∧ invitation.acceptedAt ≠ none

/-- Since the process began to look the invitation up, it has been there unused. -/
def Warranted (first : List Row) (tid : Tid) (hash : String) (log : Log) : Prop :=
  ∃ find ∈ log, find.tid = tid ∧ find.tx.label = some (.find hash) ∧
    ∃ start, find.tx.begun ≤ start.length ∧ start <+: log ∧ ¬ Accepted hash (rowsAfter first start)

structure Effect (first : List Row) (past : Log) (commit : Commit Row Label) : Prop where
  kept : ∀ invitation, Row.invitation invitation ∈ commit.before →
    ∃ later, Row.invitation later ∈ commit.after ∧
      later.id = invitation.id ∧ later.tokenHash = invitation.tokenHash ∧
      (invitation.acceptedAt ≠ none → later.acceptedAt ≠ none)
  finds : ∀ hash, commit.tx.label = some (.find hash) → ∀ row, row ∈ commit.after ↔ row ∈ commit.before
  accepts : ∀ hash, commit.tx.label = some (.accept hash) → Accepted hash commit.after ∧
    Warranted first commit.tid hash past

/-- A call that accepts the invitation commits with no other acceptance since it began to look the
invitation up. -/
def AcceptsAlone (hash : String) (past : Log) (commit : Commit Row Label) : Prop :=
  commit.tx.label = some (.accept hash) → ∀ find ∈ past, find.tid = commit.tid →
    find.tx.label = some (.find hash) →
    ∀ during ∈ past.drop find.tx.begun, during.tx.label ≠ some (.accept hash)

def Undisturbed (hash : String) (log : Log) : Prop := ∀ past commit, past ++ [commit] <+: log →
    AcceptsAlone hash past commit

section Journal
variable {first : List Row} {hash : String} {log : Log}

theorem invitation_stays {past : Log} (journal : Journal first (Effect first) log) (earlier : past <+: log)
    {invitation : Invitation} (present : Row.invitation invitation ∈ rowsAfter first past) :
    ∃ later, Row.invitation later ∈ rowsAfter first log ∧ later.id = invitation.id ∧
      later.tokenHash = invitation.tokenHash ∧
      (invitation.acceptedAt ≠ none → later.acceptedAt ≠ none) := by
  refine journal.invariant (fun log => past <+: log → ∃ later, Row.invitation later ∈ rowsAfter first log ∧
    later.id = invitation.id ∧
    later.tokenHash = invitation.tokenHash ∧ (invitation.acceptedAt ≠ none →
      later.acceptedAt ≠ none)) ?_ ?_ earlier
  · intro within
    exact ⟨invitation, List.prefix_nil.mp within ▸ present, rfl, rfl, id⟩
  · intro log commit _ before _ effect ih within
    rcases List.prefix_concat_iff.mp within with rfl | shorter
    · exact ⟨invitation, present, rfl, rfl, id⟩
    · obtain ⟨middle, here, sameId, sameHash, used⟩ := ih shorter
      rw [← before] at here
      obtain ⟨later, there, laterId, laterHash, still⟩ := effect.kept middle here
      rw [rowsAfter_append]
      exact ⟨later, there, laterId.trans sameId, laterHash.trans sameHash, fun was => still (used was)⟩

theorem accepted_stays {past : Log} (journal : Journal first (Effect first) log) (earlier : past <+: log)
    (accepted : Accepted hash (rowsAfter first past)) : Accepted hash (rowsAfter first log) := by
  obtain ⟨invitation, present, rfl, used⟩ := accepted
  obtain ⟨later, there, -, sameHash, still⟩ := invitation_stays journal earlier present
  exact ⟨later, there, sameHash, still used⟩

theorem accepted_by_one (journal : Journal first (Effect first) log) (undisturbed : Undisturbed hash log)
    {past later : Log} {commit other : Commit Row Label} (before : past ++ [commit] <+: later)
    (within : later ++ [other] <+: log)
    (accepts : commit.tx.label = some (.accept hash)) : other.tx.label ≠ some (.accept hash) := by
  intro again
  have journaled := journal.prefix_ ((List.prefix_append later [other]).trans within)
  obtain ⟨find, member, own, label, start, begun, since, unused⟩ :=
    ((journal.entry within).2.accepts hash again).2
  have accepted : Accepted hash (rowsAfter first (past ++ [commit])) := by
    rw [rowsAfter_append]
    exact ((journaled.entry before).2.accepts hash accepts).1
  rcases List.prefix_or_prefix_of_prefix before since with seen | older
  · exact unused (accepted_stays (journaled.prefix_ since) seen accepted)
  · rcases List.prefix_concat_iff.mp older with rfl | shorter
    · exact unused accepted
    · -- the commit came after the look-up had begun
      obtain ⟨tail, rfl⟩ := before
      refine undisturbed _ other within again find member own label commit
        (List.drop_subset_drop_left _ begun ?_) accepts
      rw [List.append_assoc, List.drop_append_of_le_length shorter.length_le]
      exact List.mem_append_right _ (by simp)

end Journal

/-- The journal of a tenant that started with these rows. -/
def chronicle (rows : List Row) : Chronicle Row Label Unit where
  first := rows
  Effect := Effect rows
  Outside _ _ := True
  outside _ _ := trivial

theorem invitations_apart {rows : List Row} (apart : rows.Pairwise NoClash) {invitation other : Invitation}
    (here : Row.invitation invitation ∈ rows) (there : Row.invitation other ∈ rows)
    (same : invitation.id = other.id ∨ invitation.tokenHash = other.tokenHash) : invitation = other := by
  have meets : clash (Row.invitation invitation) (Row.invitation other) = true := by
    rcases same with same | same <;> simp [clash, keys, primary, Indexed.uniques, same]
  exact Row.invitation.inj (eq_of_clash apart here there meets)

theorem isInvitation_iff {p : Invitation → Bool} {row : Row} :
    Row.isInvitation p row = true ↔ ∃ invitation, row = .invitation invitation ∧ p invitation = true := by
  cases row <;> simp [Row.isInvitation]

theorem isInvitation_area {p : Invitation → Bool} {row : Row} (is : Row.isInvitation p row = true) :
    tableOf row = Area.invitations := by
  obtain ⟨invitation, rfl, -⟩ := isInvitation_iff.mp is
  rfl

theorem isUser_area {id : Uuid} {row : Row} (is : Row.isUser id row = true) :
    tableOf row = Area.users .users := by
  cases row with
  | user user passwordHash => rfl
  | _ => cases is

theorem mapInvitation_keyed (f : Invitation → Invitation) (row : Row) :
    primary (row.mapInvitation f) = primary row := by
  cases row <;> rfl

theorem mapUser_keyed (f : User → User) (g : Option String → Option String) (row : Row) :
    primary (row.mapUser f g) = primary row := by
  cases row <;> rfl

section Effects
variable {first : List Row} {pid : Tid} {known : Log → Prop} {shared : State}

theorem effect_of_staff {label : Users.Label}
    (leaving : Chronicle.Leaving pid (.users label) Area.invitations shared) :
    Effect first shared.server.log ⟨pid, shared.server.rows, shared.server.txs pid⟩ := by
  refine ⟨fun invitation present => ?_, fun hash same => ?_, fun hash same => ?_⟩
  · exact ⟨invitation, (leaving.spares.view _ rfl).mpr present, rfl, rfl, id⟩
  · exact nomatch leaving.label.symm.trans same
  · exact nomatch leaving.label.symm.trans same

theorem effect_of_find {hash : String} (holding : Holding first pid (.find hash) .empty known shared) :
    Effect first shared.server.log ⟨pid, shared.server.rows, shared.server.txs pid⟩ := by
  have same (row : Row) : row ∈ (shared.server.txs pid).view shared.server.rows ↔
      row ∈ shared.server.rows := by
    rw [holding.in_.view, Contents.sees_empty]
  refine ⟨fun invitation present => ?_, fun _ _ row => same row, fun other label => ?_⟩
  · exact ⟨invitation, (same _).mpr present, rfl, rfl, id⟩
  · exact nomatch holding.labelled.symm.trans label

/-- The invitation of this token, as it was some time after the process began to look it up. -/
def Seen (first : List Row) (pid : Tid) (hash : String) (invitation : Invitation) (log : Log) : Prop :=
  ∃ past find, past ++ [find] <+: log ∧ find.tid = pid ∧ find.tx.label = some (.find hash) ∧
      ∃ start, find.tx.begun ≤ start.length ∧ start <+: past ∧
      Row.invitation invitation ∈ rowsAfter first start ∧
      invitation.tokenHash = hash

theorem seen_persists (first : List Row) (pid : Tid) (hash : String) (invitation : Invitation) :
    Persists (Seen first pid hash invitation) := by
  rintro log next grown ⟨past, find, within, rest⟩
  exact ⟨past, find, within.trans grown, rest⟩

theorem Seen.unused {hash : String} {invitation : Invitation} {log : Log}
    (journal : Journal first (Effect first) log)
    (apart : first.Pairwise NoClash) (seen : Seen first pid hash invitation log)
    (unused : invitation.acceptedAt = none) :
    Warranted first pid hash log := by
  obtain ⟨past, find, within, own, label, start, begun, since, present, sameHash⟩ := seen
  have earlier : start <+: log := since.trans ((List.prefix_append past [find]).trans within)
  refine ⟨find, within.subset (by simp), own, label, start, begun, earlier, ?_⟩
  rintro ⟨other, there, otherHash, used⟩
  have same := invitations_apart ((journal.prefix_ earlier).apart apart) present there
    (.inr (sameHash.trans otherHash.symm))
  exact used (same ▸ unused)

/-- The new version of an invitation that is accepted. -/
def stamp (acceptedAt : Time) : Row → Row := Row.mapInvitation
    fun row => { row with acceptedAt := some acceptedAt }

/-- Invitations accepted, and whatever is done to a user. -/
def acceptance (acceptedAt : Time) (hits : List Row) (held : Held Row) : Contents Row :=
  ((Contents.empty : Contents Row).set Area.invitations ⟨hits, hits.map (stamp acceptedAt)⟩).set
    (Area.users .users) held

theorem acceptance_invitations (acceptedAt : Time) (hits : List Row) (held : Held Row) :
    acceptance acceptedAt hits held Area.invitations = ⟨hits, hits.map (stamp acceptedAt)⟩ := by
  have apart : (Area.invitations : Table Row) ≠ Area.users .users := fun same => by cases same
  exact (Contents.set_other _ held apart).trans (Contents.set_same _ _ _)

structure Accepting (first : List Row) (pid : Tid) (hash : String) (invitation : Invitation)
    (acceptedAt : Time) (hits : List Row)
    (held : Held Row) (shared : State) : Prop where
  holding : Holding first pid (.accept hash) (acceptance acceptedAt hits held)
    (Seen first pid hash invitation) shared
  some_ : hits ≠ []
  named : ∀ row ∈ hits, row.isInvitation (fun row => row.id == invitation.id) = true

theorem Accepting.effect {hash : String} {invitation : Invitation} {acceptedAt : Time} {hits : List Row}
    {held : Held Row} (apart : first.Pairwise NoClash) (inv : (chronicle first).protocol.Inv shared)
    (accepting : Accepting first pid hash invitation acceptedAt hits held shared)
    (unused : invitation.acceptedAt = none) :
    Effect first shared.server.log ⟨pid, shared.server.rows, shared.server.txs pid⟩ := by
  obtain ⟨holding, some_, named⟩ := accepting
  have journal : Journal first (Effect first) shared.server.log := inv.2.journal
  have rows : shared.server.rows = rowsAfter first shared.server.log := inv.2.rows
  have here : shared.server.rows.Pairwise NoClash := rows ▸ journal.apart apart
  have sees (row : Invitation) : Row.invitation row ∈ (shared.server.txs pid).view shared.server.rows ↔
        (Row.invitation row ∈ shared.server.rows ∧ ∀ old ∈ hits, primary old ≠ primary (Row.invitation row)) ∨
        Row.invitation row ∈ hits.map (stamp acceptedAt) := by
    rw [holding.in_.view, Contents.Sees]
    have table : tableOf (Row.invitation row) = Area.invitations := rfl
    rw [table, acceptance_invitations]
  have present (row : Row) (hit : row ∈ hits) : row ∈ shared.server.rows := by
    refine (holding.in_.gone Area.invitations row ?_).2
    rw [acceptance_invitations]
    exact hit
  refine ⟨fun old before => ?_, fun other label => ?_, fun other label => ?_⟩
  · by_cases hit : Row.invitation old ∈ hits
    · exact ⟨{ old with acceptedAt := some acceptedAt }, (sees _).mpr (.inr (List.mem_map.mpr ⟨_, hit, rfl⟩)),
        rfl, rfl, fun _ open_ => by cases open_⟩
    · refine ⟨old, (sees old).mpr (.inl ⟨before, fun row member same => hit ?_⟩), rfl, rfl, id⟩
      have equal := eq_of_clash here (present row member) before
        (clash_of_sameRow (by simpa [sameRow] using same))
      exact equal ▸ member
  · cases holding.labelled.symm.trans label
  · obtain rfl : hash = other := by simpa using holding.labelled.symm.trans label
    refine ⟨?_, holding.knows.unused journal apart unused⟩
    obtain ⟨row, hit⟩ := List.exists_mem_of_ne_nil hits some_
    obtain ⟨stored, rfl, sameId⟩ := isInvitation_iff.mp (named row hit)
    refine ⟨{ stored with acceptedAt := some acceptedAt },
      (sees _).mpr (.inr (List.mem_map.mpr ⟨_, hit, rfl⟩)), ?_, fun same => by cases same⟩
    -- the row it updates by its id is still that of the token
    obtain ⟨past, find, within, -, -, start, -, since, was, sameHash⟩ := holding.knows
    obtain ⟨later, there, laterId, laterHash, -⟩ :=
      invitation_stays journal (since.trans ((List.prefix_append past [find]).trans within)) was
    have same := invitations_apart (journal.apart apart) there (rows ▸ present _ hit)
      (.inl (laterId.trans (beq_iff_eq.mp sameId).symm))
    exact (congrArg Invitation.tokenHash same).symm.trans (laterHash.trans sameHash)

end Effects

/-! ## Calls -/

section Calls
variable {first : List Row} {rules : Rules Call (Action Row Label Request) State}
  {pid : Tid} {known : Log → Prop}

/-- What a script does to the log, and what is known of the log afterwards. -/
abbrev Learns {α : Type} (first : List Row) (rules : Rules Call (Action Row Label Request) State) (pid : Tid)
    (known : Log → Prop) (script : InvitationScript α) (post : α → Log → Prop) : Prop :=
  (chronicle first).Learns respond rules pid known script post

/-- A script of that service, in a transaction, changes no invitation. -/
abbrev Spares {α : Type} (first : List Row) (rules : Rules Call (Action Row Label Request) State) (pid : Tid)
    (label : Users.Label) (script : Users.ServiceScript α) : Prop :=
  (chronicle first).Spares respond rules pid (.users label) Area.invitations (wide.client script)

/-- A script of that service is nothing to the journal. -/
abbrev Aside {α : Type} (first : List Row) (rules : Rules Call (Action Row Label Request) State) (pid : Tid)
    (script : Users.ServiceScript α) : Prop := Learns first rules pid (fun _ => True)
    (wide.client script) fun _ _ => True

theorem wide_sql (error : SqlError) : wide.error (ClientError.sql error) = ClientError.sql error := rfl

theorem staff_spares {row : Row} (seen : (staff.get row).isSome = true) : tableOf row ≠ Area.invitations := by
  cases row with
  | invitation invitation => cases seen
  | _ => exact fun same => by cases same

theorem set_keyed {narrow new : Users.Row} {row : Row} (seen : staff.get row = some narrow)
    (same : primary new = primary narrow) :
    primary (staff.set new row) = primary row := by
  cases row with
  | invitation invitation => cases seen
  | _ =>
    cases seen
    cases new with
    | user user => simp_all [staff, primary]
    | role role => simp_all [staff, primary]
    | _ => rfl

theorem statement_spares (statement : Statement Users.Row)
    (keyed : ∀ p f, statement = .update p f → ∀ row, primary (f row) = primary row) :
    (staff.statement statement).Spares (Area.invitations : Table Row) := by
  have sees {p : Users.Row → Bool} {row : Row} (matches_ : (staff.get row).any p = true) :
      tableOf row ≠ Area.invitations := by
    refine staff_spares ?_
    cases found : staff.get row with
    | none => rw [found] at matches_; cases matches_
    | some narrow => rfl
  cases statement with
  | delete p => exact fun row => sees
  | update p f =>
    refine ⟨fun row => sees, fun row => ?_⟩
    unfold View.modify
    split
    · next narrow seen => exact set_keyed seen (keyed p f rfl narrow)
    · rfl
  | insert rows ignore =>
    intro row member
    obtain ⟨narrow, -, rfl⟩ := List.mem_map.mp member
    cases narrow <;> exact fun same => by cases same
  | _ => trivial

theorem spares_sql {label : Users.Label} (statement : Statement Users.Row)
    (keyed : ∀ p f, statement = .update p f → ∀ row, primary (f row) = primary row) :
    Spares first rules pid label (sql statement) := by
  rw [Spares, client_sql wide_sql]
  exact Chronicle.Spares.bind (Chronicle.Spares.sql (statement_spares statement keyed))
    fun rows => Chronicle.Spares.ret _

theorem spares_bind {α β : Type} {label : Users.Label} {script : Users.ServiceScript α}
    {next : α → Users.ServiceScript β}
    (head : Spares first rules pid label script) (tail : ∀ value, Spares first rules pid label (next value)) :
    Spares first rules pid label (script >>= next) := by
  rw [Spares, client_bind]
  exact Chronicle.Spares.bind head tail

theorem aside_bind {α β : Type} {script : Users.ServiceScript α} {next : α → Users.ServiceScript β}
    (head : Aside first rules pid script) (tail : ∀ value, Aside first rules pid (next value)) :
    Aside first rules pid (script >>= next) := by
  rw [Aside, client_bind]
  have rest (value : α) : Learns first rules pid (fun _ => True) (wide.client (next value))
    fun _ _ => True := tail value
  exact Chronicle.Learns.bind head rest

theorem aside_ret {α : Type} (value : α) : Aside first rules pid (.ret value) :=
  Chronicle.Learns.keep (persists_const True) value

theorem aside_fail {α : Type} (error : Users.ServiceError) :
    Aside first rules pid (.fail error : Users.ServiceScript α) := by
  rw [Aside, client_fail]
  exact Chronicle.Learns.fail

theorem aside_transaction {α : Type} {label : Users.Label} {body : Users.ServiceScript α}
    (spares : Spares first rules pid label body) :
    Aside first rules pid (transaction label body) := by
  rw [Aside, client_transaction wide_sql]
  exact Chronicle.Spares.transaction spares fun shared _ leaving => effect_of_staff leaving

theorem aside_select (p : Users.Row → Bool) : Aside first rules pid (Users.query (.select p)) :=
  aside_transaction (spares_sql _ nofun)

theorem aside_findUser (id : Uuid) : Aside first rules pid (Users.findUser id) := by
  refine aside_transaction (spares_bind (spares_sql _ nofun) fun rows => ?_)
  split
  · exact Chronicle.Spares.ret _
  · exact spares_bind (spares_sql _ nofun) fun roles => Chronicle.Spares.ret _

theorem aside_hasAdminRole (ids : List Uuid) : Aside first rules pid (Users.hasAdminRole ids) := by
  unfold Users.hasAdminRole
  split
  · exact aside_ret false
  · exact aside_bind (aside_bind (aside_select _) fun rows => aside_ret _) fun adminRole => aside_ret _

theorem aside_assertNotLastAdmin (id : Uuid) : Aside first rules pid (Users.assertNotLastAdmin id) := by
  refine aside_bind (aside_bind (aside_select _) fun rows => aside_ret _) fun adminRole => ?_
  split
  · exact aside_ret ()
  · refine aside_bind (aside_select _) fun rows => ?_
    split
    · exact aside_fail _
    · exact aside_ret ()

theorem aside_assertRolesBelongToTenant (ids : List Uuid) :
    Aside first rules pid (Users.assertRolesBelongToTenant ids) := by
  unfold Users.assertRolesBelongToTenant
  split
  · exact aside_ret ()
  · refine aside_bind (aside_select _) fun rows => ?_
    split
    · exact aside_fail _
    · exact aside_ret ()

theorem aside_losesRole (input : Users.UpdateUserInput) : Aside first rules pid (Users.losesRole input) := by
  unfold Users.losesRole
  split
  · exact aside_ret false
  · exact aside_bind (aside_hasAdminRole _) fun stays => aside_ret _

theorem spares_checkKeys {label : Users.Label} (id : Uuid) (ids : List Uuid) :
    Spares first rules pid label (Users.checkKeys id ids) := by
  induction ids with
  | nil => exact Chronicle.Spares.ret ()
  | cons roleId rest ih =>
    refine spares_bind (spares_sql _ nofun) fun users => ?_
    refine spares_bind (spares_sql _ nofun) fun roles => ?_
    split
    · exact Chronicle.Spares.fail _
    · exact ih

theorem spares_setRoles {label : Users.Label} (id : Uuid) (ids : List Uuid) :
    Spares first rules pid label (Users.setRoles id ids) := by
  refine spares_bind (spares_sql _ nofun) fun deleted => ?_
  split
  · exact Chronicle.Spares.ret ()
  · exact spares_bind (spares_sql _ nofun) fun inserted => spares_checkKeys id ids

theorem aside_saveUser (id : Uuid) (input : Users.UpdateUserInput) :
    Aside first rules pid (Users.saveUser id input) := by
  refine aside_transaction (spares_bind ?_ fun _ => spares_bind (spares_sql _ ?_) fun updated => ?_)
  · cases input.role_ids with
    | none => exact Chronicle.Spares.ret ()
    | some ids => exact spares_setRoles id ids
  · intro p f same row
    cases same
    cases row <;> rfl
  · split
    · exact Chronicle.Spares.fail _
    · exact spares_bind (spares_sql _ nofun) fun roles => Chronicle.Spares.ret _

theorem aside_update (id : Uuid) (input : Users.UpdateUserInput) :
    Learns first rules pid (fun _ => True) (update id input) fun _ _ => True := by
  refine aside_bind (aside_findUser id) fun found => ?_
  split
  · exact aside_fail _
  · refine aside_bind ?_ fun _ => aside_bind (aside_hasAdminRole _)
      fun currentlyAdmin => aside_bind (aside_losesRole input) fun loses => ?_
    · cases input.role_ids with
      | none => exact aside_ret ()
      | some ids => exact aside_assertRolesBelongToTenant ids
    · dsimp only
      split
      · exact aside_bind (aside_assertNotLastAdmin id) fun _ => aside_saveUser id input
      · exact aside_saveUser id input

abbrev Makes {α : Type} (first : List Row) (rules : Rules Call (Action Row Label Request) State) (pid : Tid)
    (pre : State → Prop) (script : InvitationScript α) (post : α → State → Prop) : Prop :=
  (chronicle first).Makes respond rules pid pre script post

theorem mem_invitations {rows : List Row} {invitation : Invitation} :
    invitation ∈ rows.filterMap Row.invitation? ↔ Row.invitation invitation ∈ rows := by
  rw [List.mem_filterMap]
  constructor
  · rintro ⟨row, member, same⟩
    cases row with
    | invitation other =>
      cases same
      exact member
    | _ => cases same
  · exact fun member => ⟨_, member, rfl⟩

/-- The rows a look-up has found, as they were since its transaction began. -/
def FoundSince (first : List Row) (opened : Log) (p : Row → Bool) (rows : List Row) (log : Log) : Prop :=
  ∃ start, opened <+: start ∧ start <+: log ∧ ∀ row ∈ rows, p row = true ∧ row ∈ rowsAfter first start

theorem foundSince_persists (opened : Log) (p : Row → Bool) (rows : List Row) :
    Persists (FoundSince first opened p rows) := by
  rintro log next grown ⟨start, since, within, found⟩
  exact ⟨start, since, within.trans grown, found⟩

theorem learns_findInvitation (tenantId : Uuid) (hash : String) :
    Learns first rules pid (fun _ => True) (findInvitation tenantId hash) fun found log =>
      ∀ invitation ∈ found, Seen first pid hash invitation log := by
  let p := Row.isInvitation fun row => row.tenantId == tenantId && row.tokenHash == hash
  let seen (rows : List Row) (log : Log) : Prop := ∀ row ∈ rows, ∀ invitation, row = .invitation invitation →
    Seen first pid hash invitation log
  have lasts (rows : List Row) : Persists (seen rows) := fun log next grown held row member invitation same =>
    seen_persists first pid hash invitation log next grown (held row member invitation same)
  let last (rows : List Row) (shared : State) : Prop :=
    ∃ opened : Log, Stage.At first pid ⟨.find hash, opened, [], .empty⟩
    (FoundSince first opened p rows) shared
  have lasting : ∀ rows, (chronicle first).protocol.Lasting pid (last rows) := by
    rintro rows shared next inv later ⟨opened, at_⟩ same alongside grown
    exact ⟨opened, Stage.At.lasting (foundSince_persists opened p rows) shared next inv later
      at_ same alongside grown⟩
  have looked : Learns first rules pid (fun _ => True) (transaction (.find hash) (sql (.select p))) seen := by
    refine Stage.transaction (persists_const True) last seen (fun opened => ?_) lasting ?_ lasts
    · refine (Stage.select (persists_const True) p).weaken fun result shared _ held => ?_
      cases result with
      | error error => trivial
      | ok rows =>
        refine held.imp (fun closed => closed) fun at_ => ⟨opened, at_.weaken ?_⟩
        rintro log ⟨-, past, earlier, since, -, found⟩
        exact ⟨past, since.opened, earlier, fun row member =>
          ⟨((found row).mp member).1, Contents.sees_empty.mp ((found row).mp member).2⟩⟩
    · rintro rows shared - ⟨opened, at_⟩
      refine ⟨effect_of_find ⟨(opened, []), at_⟩, ?_⟩
      rintro row member invitation rfl
      obtain ⟨start, since, within, found⟩ := at_.known
      obtain ⟨matches_, present⟩ := found _ member
      obtain ⟨other, same, named⟩ := isInvitation_iff.mp matches_
      cases same
      exact ⟨shared.server.log, _, List.prefix_rfl, rfl, at_.label, start,
        at_.begun ▸ since.length_le, within, present,
        beq_iff_eq.mp (Bool.and_eq_true_iff.mp named).2⟩
  refine Chronicle.Learns.bind looked
    fun rows => Chronicle.Learns.ret (fun log next grown held invitation found => ?_)
    fun log _ held invitation found => ?_
  · exact seen_persists first pid hash invitation log next grown (held invitation found)
  · exact held _ (mem_invitations.mp (List.mem_of_mem_head? found)) invitation rfl

def Took (pid : Tid) (hash : String) (log : Log) : Prop :=
  ∃ past commit, past ++ [commit] <+: log ∧ commit.tid = pid ∧ commit.tx.label = some (.accept hash)

theorem took_persists (pid : Tid) (hash : String) : Persists (Took pid hash) := by
  rintro log next grown ⟨past, commit, within, rest⟩
  exact ⟨past, commit, within.trans grown, rest⟩

theorem learns_save (apart : first.Pairwise NoClash) (hash : String) (invitation : Invitation)
    (name passwordHash : String) (unused : invitation.acceptedAt = none) :
    Learns first rules pid (Seen first pid hash invitation)
    (save hash invitation name passwordHash) fun _ => Took pid hash := by
  have persists := seen_persists first pid hash invitation
  let last (shared : State) : Prop := ∃ accepted : Time × List Row × Held Row,
    Accepting first pid hash invitation accepted.1 accepted.2.1 accepted.2.2 shared
  have lasting : (chronicle first).protocol.Lasting pid last := by
    rintro shared next inv later ⟨accepted, holding, some_, named⟩ same alongside grown
    exact ⟨accepted, holding_lasting persists shared next inv later holding same alongside grown, some_,
      named⟩
  refine Chronicle.Learns.transaction persists (fun _ => last) (fun _ => Took pid hash)
    ?_ (fun _ => lasting) ?_
    fun _ => took_persists pid hash
  · refine Chronicle.Makes.bind (Chronicle.Makes.ask persists Request.now
      fun _ _ _ _ _ _ => trivial) fun acceptedAt => ?_
    refine Chronicle.Makes.bind (Chronicle.Makes.update Area.invitations persists (fun _ => isInvitation_area)
      (mapInvitation_keyed _) rfl)
      fun accepted => ?_
    -- which rows have been accepted is known from here on
    let fact (hits : List Row) : Prop := hits ≠ [] ∧ ∀ row ∈ hits,
      row.isInvitation (fun row => row.id == invitation.id) = true
    have facts (hits : List Row) : Persists fun log => Seen first pid hash invitation log ∧ fact hits :=
      persists.and (persists_const _)
    by_cases none_ : accepted.isEmpty = true
    · rw [if_pos none_]
      exact Stage.fail
    · rw [if_neg none_]
      refine Triple.strengthen (Stage.choose (fun hits => ?_ : ∀ hits : List Row, Makes first rules pid
        (Has first pid (.accept hash) ((Contents.empty : Contents Row).set Area.invitations ⟨hits,
          hits.map (stamp acceptedAt)⟩)
          fun log => Seen first pid hash invitation log ∧ fact hits) _ fun _ => Protocol.Unless pid last))
        fun shared _ held => held.imp_right ?_
      · split
        · exact Stage.fail
        · refine Chronicle.Makes.bind (Chronicle.Makes.update (Area.users .users) (facts hits)
            (fun _ => isUser_area) (mapUser_keyed _ _) ?_)
            fun updated => ?_
          · exact Contents.set_other _ _ fun same => by cases same
          · split
            · exact Stage.fail
            · refine Triple.strengthen
                (Stage.choose (fun others => ?_ : ∀ others : List Row, Makes first rules pid
                (Has first pid (.accept hash) (acceptance acceptedAt hits ⟨others, others.map _⟩)
                  fun log => Seen first pid hash invitation log ∧ fact hits) _
                    fun _ => Protocol.Unless pid last))
                fun shared _ changed => changed.imp_right fun ⟨others, _, _, holding⟩ => ⟨others, holding⟩
              refine Chronicle.Makes.bind (Chronicle.Makes.reads (facts hits) _)
                fun roles => Chronicle.Makes.done last lasting ?_
              exact fun shared _ holding => ⟨(acceptedAt, hits, _), holding.weaken
                fun log here => here.1, holding.knows.2.1, holding.knows.2.2⟩
      · rintro ⟨hits, rfl, named, holding⟩
        exact ⟨hits, holding.and ⟨fun empty => none_ (by rw [empty]; rfl), named⟩⟩
  · rintro _ shared inv ⟨accepted, accepting⟩
    exact ⟨accepting.effect apart inv unused, shared.server.log, _, List.prefix_rfl, rfl,
      accepting.holding.labelled⟩

/-- The hash of the token's secret, of a token that is one. -/
def hashOf (crypto : Crypto) (token : String) : Option String :=
  (splitToken token).map fun parts => hashToken crypto parts.2

theorem learns_accept (crypto : Crypto) (apart : first.Pairwise NoClash) (token : String)
    (input : AcceptInvitationInput) :
    Learns first rules pid (fun _ => True) (accept crypto token input)
    fun _ log => ∀ hash ∈ hashOf crypto token, Took pid hash log := by
  unfold accept
  split
  · exact Chronicle.Learns.fail
  · next tenantId rawToken parts =>
    let hash := hashToken crypto rawToken
    have is : hashOf crypto token = some hash := by rw [hashOf, parts]; rfl
    refine Chronicle.Learns.bind (learns_findInvitation tenantId hash) fun found => ?_
    split
    · exact Chronicle.Learns.fail
    · next invitation =>
      have persists := seen_persists first pid hash invitation
      refine Chronicle.Learns.strengthen ?_ fun log held => held invitation rfl
      by_cases used : invitation.acceptedAt.isSome = true
      · rw [if_pos used]
        exact Chronicle.Learns.fail
      · rw [if_neg used]
        have unused : invitation.acceptedAt = none := by simpa using used
        refine Chronicle.Learns.bind (Chronicle.Learns.ask persists Request.now
          fun _ _ _ _ _ _ => trivial) fun now => ?_
        by_cases expired : invitation.expiresAt < now
        · rw [if_pos expired]
          exact Chronicle.Learns.fail
        · rw [if_neg expired]
          by_cases common : isCommonPassword crypto input.password = true
          · rw [if_pos common]
            exact Chronicle.Learns.fail
          · rw [if_neg common]
            refine Chronicle.Learns.bind (Chronicle.Learns.ask persists (Request.hashPassword input.password)
              fun _ _ _ _ _ _ => trivial)
              fun passwordHash => ?_
            refine (learns_save apart hash invitation input.name passwordHash unused).weaken
              fun value log took other same => ?_
            cases is.symm.trans same
            exact took

end Calls

/-! ## Runs -/

/-- The call has returned, having accepted the invitation with this token hash. -/
def Succeeded (crypto : Crypto) (hash : String) (config : Config) (pid : Tid) : Prop :=
  ∃ token input value, config.procs pid = .running (.accept token input) (.ret value) ∧
    hashOf crypto token = some hash

/-- What holds of every run up to `config` and on to `later`: one call at most has accepted the
invitation, and once it has returned no commit of another one changes a user. -/
structure AcceptedOnce (crypto : Crypto) (hash : String) (config later : Config) : Prop where
  once : ∀ pid other, Succeeded crypto hash later pid → Succeeded crypto hash later other → pid = other
  final : (∃ pid, Succeeded crypto hash config pid) → ∀ past commit,
    past ++ [commit] <+: later.state.server.log →
      config.state.server.log <+: past → commit.tx.label = some (.find hash) ∨
      commit.tx.label = some (.accept hash) →
    ∀ user passwordHash, Row.user user passwordHash ∈ commit.after ↔
      Row.user user passwordHash ∈ commit.before

def Call.done (crypto : Crypto) (pid : Tid) : Call → Log → Prop
  | .accept token _, log => ∀ hash ∈ hashOf crypto token, Took pid hash log
  | .update .., _ => True

theorem journaled (crypto : Crypto) {rows : List Row} (apart : rows.Pairwise NoClash) {config : Config}
    (run : (machine respond).Reaches (code crypto) {} (initial rows) config) :
    Journal rows (Effect rows) config.state.server.log ∧
      ∀ pid hash, Succeeded crypto hash config pid → Took pid hash config.state.server.log := by
  have calls (pid : Tid) (call : Call) : PublicProtocol.Step (chronicle rows).public_ respond
      ({} : Rules Call (Action Row Label Request) State) pid (fun _ => True) (code crypto call)
      fun _ state => call.done crypto pid state.log := by
    cases call with
    | accept token input => exact learns_accept crypto apart token input
    | update id input => exact aside_update id input
  have ends := PublicProtocol.reaches (fun _ _ _ _ _ _ _ => trivial) calls run (sane_holding apart)
    ⟨.start, rfl, trivial⟩
    fun _ => ⟨rfl, trivial⟩
  refine ⟨ends.2.1.journal, ?_⟩
  rintro pid hash ⟨token, input, value, finished, is⟩
  exact ends.2.2 pid (.accept token input) value finished hash is

/-- An invitation is accepted once, in every run in which no two calls that accept it overlap. -/
theorem accepted_once (crypto : Crypto) (hash : String) {rows : List Row} {config later : Config}
    (apart : rows.Pairwise NoClash) (run : (machine respond).Reaches (code crypto) {} (initial rows) config)
    (goesOn : (machine respond).Reaches (code crypto) {} config later)
    (undisturbed : Undisturbed hash later.state.server.log) :
    AcceptedOnce crypto hash config later := by
  obtain ⟨journal, tookLater⟩ := journaled crypto apart (run.trans goesOn)
  obtain ⟨-, tookBefore⟩ := journaled crypto apart run
  constructor
  · intro pid other succeeded again
    obtain ⟨past, commit, within, rfl, label⟩ := tookLater pid hash succeeded
    obtain ⟨start, second, inside, rfl, accepts⟩ := tookLater other hash again
    -- the earlier of the two excludes the other
    rcases List.prefix_or_prefix_of_prefix within inside with first | first
    · rcases List.prefix_concat_iff.mp first with same | before
      · rw [List.singleton_inj.mp (List.append_inj' same rfl).2]
      · exact absurd accepts (accepted_by_one journal undisturbed before inside label)
    · rcases List.prefix_concat_iff.mp first with same | before
      · rw [List.singleton_inj.mp (List.append_inj' same rfl).2]
      · exact absurd label (accepted_by_one journal undisturbed before within accepts)
  · rintro ⟨pid, succeeded⟩ past commit within since (finds | accepts) user passwordHash
    · exact (journal.entry within).2.finds hash finds _
    · obtain ⟨start, earlier, before, -, label⟩ := tookBefore pid hash succeeded
      exact absurd accepts (accepted_by_one journal undisturbed (before.trans since) within label)

instance (hash : String) (past : Log) (commit : Commit Row Label) :
    Decidable (AcceptsAlone hash past commit) :=
  inferInstanceAs (Decidable (commit.tx.label = some (.accept hash) → ∀ find ∈ past, find.tid = commit.tid →
      find.tx.label = some (.find hash) → ∀ during ∈ past.drop find.tx.begun,
      during.tx.label ≠ some (.accept hash)))

instance (hash : String) (log : Log) : Decidable (Undisturbed hash log) :=
  decidable_of_iff _ forall_commits_iff.symm

def acceptedToken (config : Config) (pid : Tid) : Option String :=
  match config.procs pid with
  | .running (.accept token _) (.ret _) => some token
  | _ => none

theorem succeeded_of_token {crypto : Crypto} {hash token : String} {config : Config} {pid : Tid}
    (returned : acceptedToken config pid = some token) (is : hashOf crypto token = some hash) :
    Succeeded crypto hash config pid := by
  unfold acceptedToken at returned
  split at returned
  · next other input value running =>
    cases returned
    exact ⟨token, input, value, running, is⟩
  · cases returned

def plain : Crypto := ⟨id, id⟩

def bobsToken : String := "00000000-0000-0000-0000-000000000001.secret"

def invitedBob : List Row := [.user ⟨7, none, .invited, 0, none⟩ none,
    .invitation ⟨1, 1, some 7, "secret", 100, none⟩]

theorem invitedBob_apart : invitedBob.Pairwise NoClash := by decide

theorem bobsToken_hash : hashOf plain bobsToken = some "secret" := by decide +kernel

def acts (pid count : Nat) : List (Move Call Draw) := List.replicate count (.act pid (.time 5))

/-- A call looks the invitation up and hashes its password. -/
def looks (pid : Nat) (name : String) : List (Move Call Draw) :=
  .spawn pid (.accept bobsToken ⟨name, "tr0ub4dor and more"⟩) :: acts pid 5 ++ [.act pid (.text name)]

def accepts (pid : Nat) : List (Move Call Draw) := acts pid 9

/-- Two calls with the same link look it up before either accepts: both succeed. -/
theorem accepted_twice : ¬ ∀ (crypto : Crypto) (hash : String) (rows : List Row)
    (config later : Config), rows.Pairwise NoClash →
    (machine respond).Reaches (code crypto) {} (initial rows) config → (machine respond).Reaches (code crypto)
    {} config later →
      AcceptedOnce crypto hash config later := by
  intro once
  have runs : ((machine respond).moves (code plain) (looks 0 "Bob" ++ looks 1 "Eve" ++ accepts 0 ++
    accepts 1) (initial invitedBob)).map
      (fun config => (acceptedToken config 0, acceptedToken config 1)) = some (some bobsToken,
        some bobsToken) := by decide +kernel
  obtain ⟨config, ran, found⟩ := Option.map_eq_some_iff.mp runs
  simp only [Prod.mk.injEq] at found
  have reached := (machine respond).reaches_moves (code plain) .refl _ ran
  have same := (once plain "secret" invitedBob config config invitedBob_apart reached .refl).once 0 1
    (succeeded_of_token found.1 bobsToken_hash) (succeeded_of_token found.2 bobsToken_hash)
  cases same

/-- The link is used again after its call has returned. -/
theorem accepted_once_again : ∃ config later : Config, Succeeded plain "secret" config 0 ∧
    acceptedToken later 1 = none ∧
    AcceptedOnce plain "secret" config later := by
  have runs : ((machine respond).moves (code plain) (looks 0 "Bob" ++ accepts 0) (initial invitedBob)).map
      (fun config => (acceptedToken config 0,
        ((machine respond).moves (code plain) (.spawn 1 (.accept bobsToken ⟨"Eve", "tr0ub4dor"⟩) :: acts 1 4)
        config).map fun later => (acceptedToken later 1,
          decide (Undisturbed "secret" later.state.server.log)))) =
      some (some bobsToken, some (none, true)) := by decide +kernel
  obtain ⟨config, ran, found⟩ := Option.map_eq_some_iff.mp runs
  simp only [Prod.mk.injEq] at found
  obtain ⟨later, goesOn, refused⟩ := Option.map_eq_some_iff.mp found.2
  simp only [Prod.mk.injEq, decide_eq_true_eq] at refused
  exact ⟨config, later, succeeded_of_token found.1 bobsToken_hash, refused.1,
    accepted_once plain "secret" invitedBob_apart
    ((machine respond).reaches_moves (code plain) .refl _ ran)
      ((machine respond).reaches_moves (code plain) .refl _ goesOn) refused.2⟩

end OpenEmarsys.Invitations
