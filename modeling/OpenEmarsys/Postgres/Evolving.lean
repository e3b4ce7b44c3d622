import OpenEmarsys.Postgres.Effects

/-! Rows that only move forward.

If every statement turns a row into a later version of it, and deletes none that stays, then
transactions see later versions of the committed rows, whatever commits beside them.
-/

set_option autoImplicit false

namespace OpenEmarsys.Postgres

/-- What may become of rows: which are never deleted, and an order of their versions. -/
structure Evolution (Row : Type) [Indexed Row] where
  Stays : Row → Prop
  Before : Row → Row → Prop
  keyed : ∀ {row next}, Before row next → primary row = primary next
  refl : ∀ row, Before row row
  trans : ∀ {first second third}, Before first second → Before second third → Before first third

variable {Row Label : Type} [Indexed Row] {evolution : Evolution Row}

/-- Of the rows seen, those a statement updates become later versions, and those it deletes need not stay. -/
def Statement.Advances (evolution : Evolution Row) (seen : Row → Prop) : Statement Row → Prop
  | .update p f => (∀ row, primary (f row) = primary row) ∧
        ∀ row, seen row → p row = true → evolution.Stays row → evolution.Stays (f row) ∧
        evolution.Before row (f row)
  | .delete p => ∀ row, seen row → p row = true → ¬ evolution.Stays row
  | _ => True

/-- Every row that stays has a later version in `next`. -/
def Forward (evolution : Evolution Row) (rows next : List Row) : Prop :=
  ∀ row ∈ rows, evolution.Stays row → ∃ now ∈ next, evolution.Stays now ∧ evolution.Before row now

theorem Forward.refl (rows : List Row) : Forward evolution rows rows :=
  fun row member stays => ⟨row, member, stays, evolution.refl row⟩

theorem Forward.trans {first second third : List Row} (here : Forward evolution first second)
    (there : Forward evolution second third) :
    Forward evolution first third := by
  intro row member stays
  obtain ⟨middle, found, remains, before⟩ := here row member stays
  obtain ⟨now, present, kept, later⟩ := there middle found remains
  exact ⟨now, present, kept, evolution.trans before later⟩

/-- What a transaction removes from the committed rows is there. -/
def Tx.Covered (rows : List Row) (tx : Tx Row Label) : Prop :=
  ∀ key ∈ tx.removed, ∃ old ∈ rows, primary old = key

section Covered
variable {server : Server Row Label} {tid : Tid} {tx after : Tx Row Label} {rows : List Row}

theorem Tx.Covered.remove (covered : tx.Covered rows) {row : Row} (sees : row ∈ tx.view rows) :
    (tx.remove row).Covered rows := by
  intro key member
  by_cases mine : tx.added.any (sameRow row) = true
  · simp only [Tx.remove, mine, if_true] at member
    exact covered key member
  · rcases Tx.mem_remove_removed tx row member with old | rfl
    · exact covered key old
    · rcases Tx.mem_view.mp sees with ⟨here, -⟩ | added
      · exact ⟨row, here, rfl⟩
      · exact absurd (List.any_eq_true.mpr ⟨row, added, sameRow_refl row⟩) mine

theorem Tx.view_remove {gone row : Row} (sees : row ∈ tx.view rows) (other : primary gone ≠ primary row) :
    row ∈ (tx.remove gone).view rows := by
  rcases Tx.mem_view.mp sees with ⟨here, kept⟩ | added
  · refine Tx.mem_view.mpr (.inl ⟨here, ?_⟩)
    by_contra removed
    rw [Bool.not_eq_false, Tx.removes_iff] at removed
    rcases Tx.mem_remove_removed tx gone removed with old | same
    · rw [Tx.removes_iff.mpr old] at kept
      cases kept
    · exact other same.symm
  · exact Tx.mem_view.mpr (.inr (mem_remove_added.mpr ⟨added, other⟩))

theorem updates_covered {f : Row → Row} {found updated : List Row} (covered : tx.Covered server.rows)
    (distinct : found.Pairwise fun row other => primary row ≠ primary other)
    (sees : ∀ row ∈ found, row ∈ tx.view server.rows)
    (run : server.updates tid f found tx = some (.ok (updated, after))) : after.Covered server.rows := by
  induction found generalizing tx updated with
  | nil =>
    cases run
    exact covered
  | cons hit rest ih =>
    obtain ⟨first, later⟩ := List.pairwise_cons.mp distinct
    have locked : (tx.lock false hit).Covered server.rows := covered
    have replaced : (((tx.lock false hit).remove hit).add (f hit)).Covered server.rows :=
      locked.remove (sees hit (List.mem_cons_self ..))
    simp only [Server.updates] at run
    split at run
    · cases run
    · cases run
    · split at run
      · next found =>
        cases run
        refine ih replaced later (fun row member => ?_) found
        have seen : row ∈ (tx.lock false hit).view server.rows := sees row (List.mem_cons_of_mem _ member)
        rw [Tx.add_view]
        exact List.mem_append_left _ (Tx.view_remove seen (first row member))
      · cases run
      · cases run

theorem deletes_covered {found : List Row} (covered : tx.Covered rows)
    (distinct : found.Pairwise fun row other => primary row ≠ primary other)
    (sees : ∀ row ∈ found, row ∈ tx.view rows) :
    (found.foldl (fun tx row => (tx.lock true row).remove row) tx).Covered rows := by
  induction found generalizing tx with
  | nil => exact covered
  | cons hit rest ih =>
    obtain ⟨first, later⟩ := List.pairwise_cons.mp distinct
    have locked : (tx.lock true hit).Covered rows := covered
    refine ih (locked.remove (sees hit (List.mem_cons_self ..))) later fun row member => ?_
    have seen : row ∈ (tx.lock true hit).view rows := sees row (List.mem_cons_of_mem _ member)
    exact Tx.view_remove seen (first row member)

theorem execute_covered (sane : Sane server) {statement : Statement Row} {reply : List Row}
    (covered : (server.txs tid).Covered server.rows)
    (run : server.execute tid statement = some (.ok (reply, after))) :
    after.Covered server.rows := by
  have visible (p : Row → Bool) : ∀ row ∈ server.hits tid p, row ∈ (server.txs tid).view server.rows :=
    fun row hit => (mem_hits.mp hit).1
  cases statement with
  | select p =>
    obtain ⟨-, rfl⟩ := execute_select run
    exact covered
  | lockRows p =>
    obtain ⟨-, locked⟩ := execute_lockRows sane run
    exact fun key member => covered key (locked.removed ▸ member)
  | lockSkip p le limit =>
    obtain ⟨-, locked⟩ := execute_lockSkip sane run
    exact fun key member => covered key (locked.removed ▸ member)
  | shareKey p =>
    obtain ⟨-, rfl⟩ := execute_shareKey run
    exact covered
  | delete p =>
    simp only [Server.execute] at run
    split at run
    · cases run
    · cases run
      exact deletes_covered covered (hits_distinct sane p) (visible p)
  | update p f =>
    simp only [Server.execute] at run
    split at run
    · cases run
    · exact updates_covered covered (hits_distinct sane p) (visible p) run
  | insert rows ignore =>
    obtain ⟨change, -, -⟩ := execute_insert run
    intro key member
    rcases change.removed key member with old | ⟨gone, absurd_, -⟩
    · exact covered key old
    · cases absurd_

end Covered

/-- A sane server whose transactions all see the committed rows or later versions of them. -/
structure Evolving (evolution : Evolution Row) (server : Server Row Label) : Prop where
  sane : Sane server
  views : ∀ tid, Forward evolution server.rows ((server.txs tid).view server.rows)
  covered : ∀ tid, (server.txs tid).Covered server.rows

section Server
variable {server : Server Row Label} {pid : Tid}

theorem Tx.view_untouched (tx : Tx Row Label) (rows : List Row) (removed : tx.removed = [])
    (added : tx.added = []) :
    tx.view rows = rows := by
  simp [Tx.view, Tx.removes, removed, added]

theorem evolving_holding {rows : List Row} (apart : rows.Pairwise NoClash) :
    Evolving evolution (Server.holding rows : Server Row Label) := by
  refine ⟨sane_holding apart, fun tid => ?_, fun tid key member => by cases member⟩
  have same : (Tx.idle : Tx Row Label).view rows = rows := Tx.view_untouched .idle rows rfl rfl
  exact same.symm ▸ Forward.refl rows

theorem Evolving.update (evolving : Evolving evolution server) (pid : Tid) (tx : Tx Row Label)
    (views : Forward evolution server.rows (tx.view server.rows)) (covered : tx.Covered server.rows) :
    (∀ tid, Forward evolution server.rows ((Function.update server.txs pid tx tid).view server.rows)) ∧
      ∀ tid, (Function.update server.txs pid tx tid).Covered server.rows := by
  constructor <;> intro tid <;> by_cases same : tid = pid
  · subst same
    rwa [Function.update_self]
  · rw [Function.update_of_ne same]
    exact evolving.views tid
  · subst same
    rwa [Function.update_self]
  · rw [Function.update_of_ne same]
    exact evolving.covered tid

theorem Evolving.begin (evolving : Evolving evolution server) (pid : Tid) (label : Label) :
    Evolving evolution (server.begin pid label) := by
  have same : Tx.view { (Tx.idle : Tx Row Label) with label := some label, begun := server.log.length }
      server.rows = server.rows :=
    Tx.view_untouched _ _ rfl rfl
  obtain ⟨views, covered⟩ :=
    evolving.update pid { (Tx.idle : Tx Row Label) with label := some label, begun := server.log.length }
    (same.symm ▸ Forward.refl _) fun key member => by cases member
  exact ⟨evolving.sane.begin pid label, views, covered⟩

theorem Evolving.rollback (evolving : Evolving evolution server) (pid : Tid) :
    Evolving evolution (server.rollback pid) := by
  have same : (Tx.idle : Tx Row Label).view server.rows = server.rows := Tx.view_untouched _ _ rfl rfl
  obtain ⟨views, covered⟩ := evolving.update pid .idle (same.symm ▸ Forward.refl _)
    fun key member => by cases member
  exact ⟨evolving.sane.rollback pid, views, covered⟩

theorem Evolving.start (evolving : Evolving evolution server)
    (opened : (server.txs pid).label.isSome = true) :
    Evolving evolution (server.start pid) := by
  obtain ⟨views, covered⟩ :=
    evolving.update pid { server.txs pid with snapshot := (server.txs pid).view server.rows }
    (evolving.views pid) (evolving.covered pid)
  exact ⟨evolving.sane.start opened, views, covered⟩

theorem Evolving.forward (evolving : Evolving evolution server) {statement : Statement Row} {reply : List Row}
    {after : Tx Row Label} (advances : statement.Advances evolution (· ∈ (server.txs pid).view server.rows))
    (run : server.execute pid statement = some (.ok (reply, after))) :
    Forward evolution ((server.txs pid).view server.rows) (after.view server.rows) := by
  have apart := (evolving.sane.fits pid).view_apart evolving.sane
  cases statement with
  | select p =>
    obtain ⟨-, rfl⟩ := execute_select run
    exact Forward.refl _
  | lockRows p =>
    obtain ⟨-, locked⟩ := execute_lockRows evolving.sane run
    have same : after.view server.rows = (server.txs pid).view server.rows := by
      simp only [Tx.view, Tx.removes, locked.removed, locked.added]
    exact same ▸ Forward.refl _
  | lockSkip p le limit =>
    obtain ⟨-, locked⟩ := execute_lockSkip evolving.sane run
    have same : after.view server.rows = (server.txs pid).view server.rows := by
      simp only [Tx.view, Tx.removes, locked.removed, locked.added]
    exact same ▸ Forward.refl _
  | shareKey p =>
    obtain ⟨-, rfl⟩ := execute_shareKey run
    exact Forward.refl _
  | delete p =>
    obtain ⟨rfl, change⟩ := execute_delete evolving.sane run
    intro row member stays
    refine ⟨row, (change.view row).mpr (.inl ⟨member, fun old hit same => ?_⟩), stays, evolution.refl row⟩
    obtain ⟨sees, holds, -⟩ := mem_hits.mp hit
    have equal := eq_of_primary apart sees member same
    subst equal
    exact advances old sees holds stays
  | update p f =>
    obtain ⟨rfl, change⟩ := execute_update evolving.sane advances.1 run
    intro row member stays
    by_cases hit : ∃ old ∈ server.hits pid p, primary old = primary row
    · obtain ⟨old, found, same⟩ := hit
      obtain ⟨sees, holds, -⟩ := mem_hits.mp found
      have equal := eq_of_primary apart sees member same
      subst equal
      obtain ⟨kept, before⟩ := advances.2 old sees holds stays
      exact ⟨f old, (change.view _).mpr (.inr (List.mem_map_of_mem found)), kept, before⟩
    · push Not at hit
      exact ⟨row, (change.view row).mpr (.inl ⟨member, hit⟩), stays, evolution.refl row⟩
  | insert rows ignore =>
    obtain ⟨change, -, -⟩ := execute_insert run
    exact fun row member stays =>
      ⟨row, (change.view row).mpr (.inl ⟨member, fun old absurd_ => by cases absurd_⟩),
        stays, evolution.refl row⟩

theorem Evolving.execute (evolving : Evolving evolution server) {statement : Statement Row} {reply : List Row}
    {after : Tx Row Label} (advances : statement.Advances evolution (· ∈ (server.txs pid).view server.rows))
    (opened : (server.txs pid).label.isSome = true)
    (run : server.execute pid statement = some (.ok (reply, after))) :
    Evolving evolution (server.setTx pid after) := by
  obtain ⟨views, covered⟩ :=
    evolving.update pid after ((evolving.views pid).trans (evolving.forward advances run))
    (execute_covered evolving.sane (evolving.covered pid) run)
  exact ⟨evolving.sane.execute opened run, views, covered⟩

-- What one transaction commits, another sees unless it has removed it before.
theorem Evolving.sees (evolving : Evolving evolution server) {other : Tid} (distinct : other ≠ pid) :
    Forward evolution ((server.txs pid).view server.rows)
    ((server.txs other).view ((server.txs pid).view server.rows)) := by
  intro row member stays
  have fits := evolving.sane.fits other
  rcases Tx.mem_view.mp member with ⟨here, -⟩ | added
  · obtain ⟨now, sees, kept, before⟩ := evolving.views other row here stays
    rcases Tx.mem_view.mp sees with ⟨present, unremoved⟩ | mine
    · have equal := eq_of_primary evolving.sane.rows here present (evolution.keyed before)
      subst equal
      exact ⟨row, Tx.mem_view.mpr (.inl ⟨member, unremoved⟩), kept, before⟩
    · exact ⟨now, Tx.mem_view.mpr (.inr mine), kept, before⟩
  · refine ⟨row, Tx.mem_view.mpr (.inl ⟨member, ?_⟩), stays, evolution.refl row⟩
    -- both transactions would hold the lock of the row they superseded
    by_contra removed
    rw [Bool.not_eq_false, Tx.removes_iff] at removed
    obtain ⟨old, present, same⟩ := evolving.covered other _ removed
    have clashes : clash row old = true := clash_of_sameRow (sameRow_iff.mpr same.symm)
    have superseded := Tx.removes_iff.mp ((evolving.sane.fits pid).apart row added old present clashes)
    rw [same] at superseded
    exact (evolving.sane.fits pid).locks other distinct _ ((evolving.sane.fits pid).removed _ superseded)
      (fits.removed _ removed)

-- What a transaction sees when another one commits are later versions of what it saw.
theorem Evolving.stands (evolving : Evolving evolution server) {other : Tid} (distinct : other ≠ pid) :
    Forward evolution ((server.txs other).view server.rows)
    ((server.txs other).view ((server.txs pid).view server.rows)) := by
  intro row member stays
  rcases Tx.mem_view.mp member with ⟨here, -⟩ | added
  · exact (evolving.views pid).trans (evolving.sees distinct) row here stays
  · exact ⟨row, Tx.mem_view.mpr (.inr added), stays, evolution.refl row⟩

theorem Evolving.commit (evolving : Evolving evolution server) (pid : Tid) :
    Evolving evolution (server.commit pid) := by
  refine ⟨evolving.sane.commit pid, fun tid => ?_, fun tid => ?_⟩ <;> simp only [Server.commit]
    <;> by_cases same : tid = pid
  · subst same
    rw [Function.update_self, Tx.view_untouched .idle _ rfl rfl]
    exact Forward.refl _
  · rw [Function.update_of_ne same]
    exact evolving.sees same
  · subst same
    rw [Function.update_self]
    exact fun key member => by cases member
  · rw [Function.update_of_ne same]
    intro key member
    obtain ⟨old, present, is⟩ := evolving.covered tid key member
    refine ⟨old, Tx.mem_view.mpr (.inl ⟨present, ?_⟩), is⟩
    by_contra removed
    rw [Bool.not_eq_false, Tx.removes_iff, is] at removed
    exact (evolving.sane.fits pid).locks tid same key ((evolving.sane.fits pid).removed key removed)
      ((evolving.sane.fits tid).removed key member)

end Server

end OpenEmarsys.Postgres
