import OpenEmarsys.Postgres.Isolation

/-! What each statement changes, row by row.

One lemma for what a transaction has added, one for what it has removed and one for
what it then sees; which rows a statement acts on is said once, by `mem_hits`.
-/

set_option autoImplicit false

namespace OpenEmarsys.Postgres

variable {Row Label : Type} [Indexed Row]

theorem sameRow_iff {row other : Row} : sameRow row other = true ↔ primary row = primary other := by
  simp [sameRow]

-- Rows that may stand together are told apart by any key of a unique index.
theorem eq_of_clash {rows : List Row} (apart : rows.Pairwise NoClash) {row other : Row}
    (first : row ∈ rows) (second : other ∈ rows) (meets : clash row other = true) : row = other := by
  induction rows with
  | nil => cases first
  | cons head rest ih =>
      obtain ⟨clear, later⟩ := List.pairwise_cons.mp apart
      rcases List.mem_cons.mp first with rfl | inFirst
      · rcases List.mem_cons.mp second with rfl | inSecond
        · rfl
        · have absurd_ := clear other inSecond
          rw [NoClash, meets] at absurd_
          cases absurd_
      · rcases List.mem_cons.mp second with rfl | inSecond
        · have absurd_ := (clear row inFirst).symm
          rw [NoClash, meets] at absurd_
          cases absurd_
        · exact ih later inFirst inSecond

theorem eq_of_primary {rows : List Row} (apart : rows.Pairwise NoClash) {row other : Row}
    (first : row ∈ rows) (second : other ∈ rows) (same : primary row = primary other) : row = other :=
  eq_of_clash apart first second (clash_of_sameRow (sameRow_iff.mpr same))

section Effects
variable {server : Server Row Label} {tid : Tid} {tx after : Tx Row Label} {row : Row}

theorem mem_hits {p : Row → Bool} : row ∈ server.hits tid p ↔
      row ∈ (server.txs tid).view server.rows ∧ p row = true ∧
      ∃ old ∈ (server.txs tid).snapshot, p old = true ∧ primary old = primary row := by
  simp [Server.hits, sameRow_iff]

theorem mem_remove_added {gone : Row} : row ∈ (tx.remove gone).added ↔ row ∈ tx.added ∧
    primary gone ≠ primary row := by
  rw [Tx.remove_added, List.mem_filter]
  simp [sameRow]

theorem Tx.remove_kept (tx : Tx Row Label) (gone : Row) {key : Key Row} (member : key ∈ tx.removed) :
    key ∈ (tx.remove gone).removed := by
  unfold Tx.remove
  split
  · exact member
  · exact List.mem_cons_of_mem _ member

theorem Tx.remove_gone (tx : Tx Row Label) (gone : Row)
    (foreign : ∀ mine ∈ tx.added, primary mine ≠ primary gone) :
    primary gone ∈ (tx.remove gone).removed := by
  have absent : ¬ tx.added.any (sameRow gone) = true := fun found => by
    obtain ⟨mine, member, same⟩ := List.any_eq_true.mp found
    exact foreign mine member (sameRow_iff.mp same).symm
  simp [Tx.remove, absent]

-- The rows seen after a removal, of a row whose versions do not stand together.
theorem mem_remove_view {rows : List Row} (apart : (tx.view rows).Pairwise NoClash) (gone row : Row) :
    row ∈ (tx.remove gone).view rows ↔ row ∈ tx.view rows ∧ primary gone ≠ primary row := by
  rw [Tx.mem_view, Tx.mem_view, mem_remove_added]
  by_cases mine : tx.added.any (sameRow gone) = true
  · have removed : (tx.remove gone).removes row = tx.removes row := by simp [Tx.remove, mine, Tx.removes]
    rw [removed]
    constructor
    · rintro (⟨present, stays⟩ | ⟨added, differs⟩)
      · refine ⟨.inl ⟨present, stays⟩, fun same => ?_⟩
        -- the committed row and the version the transaction added would both be visible
        obtain ⟨version, member, isGone⟩ := List.any_eq_true.mp mine
        have visible : row ∈ tx.view rows := Tx.mem_view.mpr (.inl ⟨present, stays⟩)
        have added : version ∈ tx.view rows := Tx.mem_view.mpr (.inr member)
        have equal := eq_of_primary apart visible added (same.symm.trans (sameRow_iff.mp isGone))
        subst equal
        rw [Tx.view, List.pairwise_append] at apart
        have clear := apart.2.2 row (List.mem_filter.mpr ⟨present, by simpa using stays⟩) row member
        rw [NoClash, clash_refl] at clear
        cases clear
      · exact ⟨.inr added, differs⟩
    · rintro ⟨⟨present, stays⟩ | added, differs⟩
      · exact .inl ⟨present, stays⟩
      · exact .inr ⟨added, differs⟩
  · have removed : (tx.remove gone).removes row =
        (decide (primary row = primary gone) || tx.removes row) := by
      simp [Tx.remove, mine, Tx.removes]
    rw [removed]
    constructor
    · rintro (⟨present, stays⟩ | ⟨added, differs⟩)
      · simp only [Bool.or_eq_false_iff, decide_eq_false_iff_not] at stays
        exact ⟨.inl ⟨present, stays.2⟩, fun same => stays.1 same.symm⟩
      · exact ⟨.inr added, differs⟩
    · rintro ⟨⟨present, stays⟩ | added, differs⟩
      · exact .inl ⟨present, by simp [stays, differs.symm]⟩
      · exact .inr ⟨added, differs⟩

/-- Rows `gone` have been replaced by rows `new`. -/
structure Change (rows : List Row) (tx after : Tx Row Label) (gone new : List Row) : Prop where
  label : after.label = tx.label
  snapshot : after.snapshot = tx.snapshot
  shares : after.shares = tx.shares
  added : ∀ row, row ∈ after.added ↔ (row ∈ tx.added ∧ ∀ old ∈ gone, primary old ≠ primary row) ∨ row ∈ new
  view : ∀ row, row ∈ after.view rows ↔ (row ∈ tx.view rows ∧
    ∀ old ∈ gone, primary old ≠ primary row) ∨ row ∈ new
  locks : ∀ key, after.Locks key ↔ tx.Locks key ∨ ∃ old ∈ gone, key = primary old
  removed : ∀ key ∈ after.removed, key ∈ tx.removed ∨ ∃ old ∈ gone, key = primary old
  kept : ∀ key ∈ tx.removed, key ∈ after.removed
  gone : ∀ old ∈ gone, (∀ mine ∈ tx.added, primary mine ≠ primary old) → primary old ∈ after.removed

theorem Change.refl (rows : List Row) (tx : Tx Row Label) : Change rows tx tx [] [] := by
  constructor <;> simp +contextual

theorem inserts_change {ignore : Bool} {new inserted : List Row}
    (run : server.inserts tid ignore new tx = some (.ok (inserted, after))) :
    Change server.rows tx after [] inserted ∧ inserted.Sublist new ∧ (ignore = false → inserted = new) := by
  induction new generalizing tx inserted with
  | nil =>
      simp only [Server.inserts, Option.some.injEq, Except.ok.injEq, Prod.mk.injEq] at run
      obtain ⟨rfl, rfl⟩ := run
      exact ⟨.refl _ _, .slnil, fun _ => rfl⟩
  | cons row rest ih =>
      simp only [Server.inserts] at run
      split at run
      · cases run
      · split at run
        · next ignored =>
            obtain ⟨change, sub, -⟩ := ih run
            exact ⟨change, sub.cons row, fun not => by simp [not] at ignored⟩
        · simp at run
      · split at run
        · next found =>
            simp only [Option.some.injEq, Except.ok.injEq, Prod.mk.injEq] at run
            obtain ⟨rfl, rfl⟩ := run
            obtain ⟨change, sub, all⟩ := ih found
            refine ⟨⟨change.label, change.snapshot, change.shares, fun other => ?_,
              fun other => ?_, change.locks,
              change.removed, change.kept, fun _ member => by cases member⟩, sub.cons_cons row,
              fun not => by rw [all not]⟩
            · rw [change.added other]
              simp [or_assoc]
            · rw [change.view other, Tx.add_view]
              simp [or_assoc]
        · simp at run
        · cases run

theorem updates_change (sane : Sane server) {f : Row → Row} {found updated : List Row}
    (fits : Fits server tid tx) (unheld : ∀ row ∈ found, server.held tid row = false)
    (distinct : found.Pairwise fun row other => primary row ≠ primary other)
    (keyed : ∀ row ∈ found, primary (f row) = primary row)
    (run : server.updates tid f found tx = some (.ok (updated, after))) :
    updated = found.map f ∧ Change server.rows tx after found (found.map f) := by
  induction found generalizing tx updated with
  | nil =>
      simp only [Server.updates, Option.some.injEq, Except.ok.injEq, Prod.mk.injEq] at run
      obtain ⟨rfl, rfl⟩ := run
      exact ⟨rfl, .refl _ _⟩
  | cons hit rest ih =>
      simp only [Server.updates] at run
      split at run
      · cases run
      · simp at run
      · next free =>
          obtain ⟨first, later⟩ := List.pairwise_cons.mp distinct
          have locked : Fits server tid (tx.lock false hit) :=
            fits.lock sane (unheld hit (List.mem_cons_self ..)) (fun strong => by cases strong)
          have removed := locked.remove ((Tx.locks_lock tx hit false).mpr (.inl rfl))
          have seen := mem_remove_view (locked.view_apart sane) hit
          split at run
          · next found =>
              simp only [Option.some.injEq, Except.ok.injEq, Prod.mk.injEq] at run
              obtain ⟨rfl, rfl⟩ := run
              obtain ⟨rfl, change⟩ :=
                ih (removed.add sane free) (fun row member => unheld row (List.mem_cons_of_mem _ member))
                later (fun row member => keyed row (List.mem_cons_of_mem _ member)) found
              have own := keyed hit (List.mem_cons_self ..)
              have stays : ∀ old ∈ rest, primary old ≠ primary (f hit) := fun old member same =>
                first old member (own.symm.trans same.symm)
              refine ⟨rfl, ⟨change.label.trans (by simp), change.snapshot.trans (by simp),
                change.shares.trans (by simp),
                fun row => ?_, fun row => ?_, fun key => ?_, fun key member => ?_, fun key member => ?_,
                fun old member foreign => ?_⟩⟩
              · rw [change.added row]
                simp only [Tx.add_added, List.mem_append, mem_remove_added, Tx.lock_added, List.mem_cons,
                  List.not_mem_nil, or_false, forall_eq_or_imp, List.map_cons]
                constructor
                · rintro (⟨⟨added, differs⟩ | rfl, apart⟩ | new)
                  · exact .inl ⟨added, differs, apart⟩
                  · exact .inr (.inl rfl)
                  · exact .inr (.inr new)
                · rintro (⟨added, differs, apart⟩ | rfl | new)
                  · exact .inl ⟨.inl ⟨added, differs⟩, apart⟩
                  · exact .inl ⟨.inr rfl, stays⟩
                  · exact .inr new
              · rw [change.view row]
                simp only [Tx.add_view, List.mem_append, seen, Tx.lock_view, List.mem_cons,
                  List.not_mem_nil, or_false, forall_eq_or_imp, List.map_cons]
                constructor
                · rintro (⟨⟨added, differs⟩ | rfl, apart⟩ | new)
                  · exact .inl ⟨added, differs, apart⟩
                  · exact .inr (.inl rfl)
                  · exact .inr (.inr new)
                · rintro (⟨added, differs, apart⟩ | rfl | new)
                  · exact .inl ⟨.inl ⟨added, differs⟩, apart⟩
                  · exact .inl ⟨.inr rfl, stays⟩
                  · exact .inr new
              · rw [change.locks key]
                have locks : (((tx.lock false hit).remove hit).add (f hit)).Locks key ↔
                    (tx.lock false hit).Locks key := by
                  simp [Tx.Locks]
                rw [locks, Tx.locks_lock]
                simp only [List.mem_cons, exists_eq_or_imp]
                tauto
              · rcases change.removed key member with old | ⟨old, inRest, same⟩
                · rcases Tx.mem_remove_removed (tx.lock false hit) hit old with before | rfl
                  · exact .inl before
                  · exact .inr ⟨hit, List.mem_cons_self .., rfl⟩
                · exact .inr ⟨old, List.mem_cons_of_mem _ inRest, same⟩
              · exact change.kept key (Tx.remove_kept (tx.lock false hit) hit member)
              · rcases List.mem_cons.mp member with rfl | inRest
                · exact change.kept _ (Tx.remove_gone (tx.lock false old) old foreign)
                · refine change.gone old inRest fun mine added same => ?_
                  rcases List.mem_append.mp added with before | new
                  · exact foreign mine (mem_remove_added.mp before).1 same
                  · cases List.mem_singleton.mp new
                    exact stays old inRest same.symm
          · simp at run
          · cases run

theorem deletes_change (sane : Sane server) {found : List Row} (fits : Fits server tid tx)
    (free : ∀ row ∈ found, server.refuses tid row = false) :
    Change server.rows tx (found.foldl (fun tx row => (tx.lock true row).remove row) tx) found [] := by
  induction found generalizing tx with
  | nil => exact .refl _ _
  | cons hit rest ih =>
      have here := free hit (List.mem_cons_self ..)
      have unheld : server.held tid hit = false := by
        simp only [Server.refuses, Bool.or_eq_false_iff] at here
        exact here.1
      have locked := fits.lock sane unheld fun _ : true = true => here
      have removed := locked.remove ((Tx.locks_lock tx hit true).mpr (.inl rfl))
      have seen := mem_remove_view (locked.view_apart sane) hit
      have change := ih removed fun row member => free row (List.mem_cons_of_mem _ member)
      refine ⟨change.label.trans (by simp), change.snapshot.trans (by simp), change.shares.trans (by simp),
        fun row => ?_, fun row => ?_, fun key => ?_, fun key member => ?_, fun key member => ?_,
        fun old member foreign => ?_⟩
      · rw [List.foldl_cons, change.added row]
        simp [mem_remove_added, and_assoc]
      · rw [List.foldl_cons, change.view row]
        simp [seen, and_assoc]
      · rw [List.foldl_cons, change.locks key]
        have locks : ((tx.lock true hit).remove hit).Locks key ↔
          (tx.lock true hit).Locks key := by simp [Tx.Locks]
        rw [locks, Tx.locks_lock]
        simp only [List.mem_cons, exists_eq_or_imp]
        tauto
      · rcases change.removed key member with old | ⟨old, inRest, same⟩
        · rcases Tx.mem_remove_removed (tx.lock true hit) hit old with before | rfl
          · exact .inl before
          · exact .inr ⟨hit, List.mem_cons_self .., rfl⟩
        · exact .inr ⟨old, List.mem_cons_of_mem _ inRest, same⟩
      · exact change.kept key (Tx.remove_kept (tx.lock true hit) hit member)
      · rcases List.mem_cons.mp member with rfl | inRest
        · exact change.kept _ (Tx.remove_gone (tx.lock true old) old foreign)
        · exact change.gone old inRest fun mine added => foreign mine (mem_remove_added.mp added).1

theorem lock_all_same (found : List Row) (tx : Tx Row Label) (strong : Bool) :
    let locked := found.foldl (fun tx row => tx.lock strong row) tx
    locked.added = tx.added ∧ locked.removed = tx.removed ∧
      ∀ key, locked.Locks key ↔ tx.Locks key ∨ ∃ row ∈ found, key = primary row := by
  induction found generalizing tx with
  | nil => simp
  | cons head rest ih =>
      obtain ⟨added, removed, locks⟩ := ih (tx.lock strong head)
      refine ⟨added, removed, fun key => (locks key).trans ?_⟩
      rw [Tx.locks_lock]
      simp only [List.mem_cons, exists_eq_or_imp]
      tauto

/-! ## Statements -/

theorem hits_distinct (sane : Sane server) (p : Row → Bool) :
    (server.hits tid p).Pairwise fun row other => primary row ≠ primary other := by
  refine ((sane.fits tid).view_apart sane).filter _ |>.imp fun {row other} clear same => ?_
  rw [NoClash, clash_of_sameRow (sameRow_iff.mpr same)] at clear
  cases clear

theorem execute_select {p : Row → Bool} {rows : List Row}
    (run : server.execute tid (.select p) = some (.ok (rows, after))) :
    rows = (server.txs tid).snapshot.filter p ∧ after = server.txs tid := by
  simp only [Server.execute, Option.some.injEq, Except.ok.injEq, Prod.mk.injEq] at run
  exact ⟨run.1.symm, run.2.symm⟩

structure Locked (tx after : Tx Row Label) (found : List Row) : Prop where
  label : after.label = tx.label
  added : after.added = tx.added
  removed : after.removed = tx.removed
  locks : ∀ key, after.Locks key ↔ tx.Locks key ∨ ∃ row ∈ found, key = primary row

theorem lock_all_locked (found : List Row) (tx : Tx Row Label)
    (label : (found.foldl (fun tx row => tx.lock true row) tx).label = tx.label) :
    Locked tx (found.foldl (fun tx row => tx.lock true row) tx) found := by
  obtain ⟨added, removed, locks⟩ := lock_all_same found tx true
  exact ⟨label, added, removed, locks⟩

theorem execute_lockRows (sane : Sane server) {p : Row → Bool} {rows : List Row}
    (run : server.execute tid (.lockRows p) = some (.ok (rows, after))) :
    rows = server.hits tid p ∧ Locked (server.txs tid) after rows := by
  have fits := execute_fits sane run
  simp only [Server.execute] at run
  split at run
  · cases run
  · simp only [Option.some.injEq, Except.ok.injEq, Prod.mk.injEq] at run
    obtain ⟨rfl, rfl⟩ := run
    exact ⟨rfl, lock_all_locked _ _ fits.2⟩

theorem execute_lockSkip (sane : Sane server) {p : Row → Bool} {le : Row → Row → Bool} {limit : Nat}
    {rows : List Row} (run : server.execute tid (.lockSkip p le limit) = some (.ok (rows, after))) :
    rows = (((server.hits tid p).filter fun row => !server.refuses tid row).insertionSort
        (fun a b => le a b = true)).take limit ∧ Locked (server.txs tid) after rows := by
  have fits := execute_fits sane run
  simp only [Server.execute, Option.some.injEq, Except.ok.injEq, Prod.mk.injEq] at run
  obtain ⟨rfl, rfl⟩ := run
  exact ⟨rfl, lock_all_locked _ _ fits.2⟩

theorem execute_shareKey {p : Row → Bool} {rows : List Row}
    (run : server.execute tid (.shareKey p) = some (.ok (rows, after))) :
    rows = ((server.txs tid).view server.rows).filter p ∧
      after = { server.txs tid with shares := (server.txs tid).shares ++ rows.map primary } := by
  simp only [Server.execute] at run
  split at run
  · cases run
  · simp only [Option.some.injEq, Except.ok.injEq, Prod.mk.injEq] at run
    obtain ⟨rfl, rfl⟩ := run
    exact ⟨rfl, rfl⟩

theorem execute_delete (sane : Sane server) {p : Row → Bool} {rows : List Row}
    (run : server.execute tid (.delete p) = some (.ok (rows, after))) :
    rows = server.hits tid p ∧ Change server.rows (server.txs tid) after rows [] := by
  simp only [Server.execute] at run
  split at run
  · cases run
  · next free =>
      simp only [Option.some.injEq, Except.ok.injEq, Prod.mk.injEq] at run
      obtain ⟨rfl, rfl⟩ := run
      exact ⟨rfl, deletes_change sane (sane.fits tid) (by simpa using free)⟩

theorem execute_update (sane : Sane server) {p : Row → Bool} {f : Row → Row} {rows : List Row}
    (keyed : ∀ row, primary (f row) = primary row)
    (run : server.execute tid (.update p f) = some (.ok (rows, after))) :
    rows = (server.hits tid p).map f ∧ Change server.rows (server.txs tid) after
    (server.hits tid p) rows := by
  simp only [Server.execute] at run
  split at run
  · cases run
  · next free =>
      obtain ⟨rfl, change⟩ := updates_change sane (sane.fits tid) (by simpa using free) (hits_distinct sane p)
        (fun row _ => keyed row) run
      exact ⟨rfl, change⟩

theorem execute_insert {new rows : List Row} {ignore : Bool}
    (run : server.execute tid (.insert new ignore) = some (.ok (rows, after))) :
    Change server.rows (server.txs tid) after [] rows ∧ rows.Sublist new ∧ (ignore = false → rows = new) :=
  inserts_change run

/-- A later state of a transaction: what it has locked stays locked. -/
structure Continues (tx after : Tx Row Label) : Prop where
  label : after.label = tx.label
  begun : after.begun = tx.begun
  locks : tx.locks ⊆ after.locks
  shares : tx.shares ⊆ after.shares

namespace Continues

variable {middle : Tx Row Label}

theorem refl (tx : Tx Row Label) : Continues tx tx := ⟨rfl, rfl, List.Subset.refl _, List.Subset.refl _⟩

theorem trans (first : Continues tx middle) (second : Continues middle after) : Continues tx after :=
  ⟨second.label.trans first.label, second.begun.trans first.begun, List.Subset.trans first.locks second.locks,
    List.Subset.trans first.shares second.shares⟩

theorem lock (tx : Tx Row Label) (strong : Bool) (row : Row) : Continues tx (tx.lock strong row) :=
  ⟨rfl, rfl, List.subset_cons_self .., List.Subset.refl _⟩

theorem remove (tx : Tx Row Label) (row : Row) : Continues tx (tx.remove row) :=
  ⟨by simp, by simp, by simp, by simp⟩

theorem add (tx : Tx Row Label) (row : Row) : Continues tx (tx.add row) :=
  ⟨rfl, rfl, List.Subset.refl _, List.Subset.refl _⟩

theorem locked (continues : Continues tx after) {key : Key Row} (locks : tx.Locks key) : after.Locks key := by
  obtain ⟨lock, member, same⟩ := locks
  exact ⟨lock, continues.locks member, same⟩

theorem strong (continues : Continues tx after) {key : Key Row} (strong : tx.Strong key) :
    after.Strong key := by
  obtain ⟨lock, member, is, same⟩ := strong
  exact ⟨lock, continues.locks member, is, same⟩

theorem foldl {f : Tx Row Label → Row → Tx Row Label} (each : ∀ tx row, Continues tx (f tx row))
    (found : List Row) (tx : Tx Row Label) : Continues tx (found.foldl f tx) := by
  induction found generalizing tx with
  | nil => exact .refl tx
  | cons head rest ih => exact (each tx head).trans (ih (f tx head))

end Continues

theorem inserts_continues {ignore : Bool} {new inserted : List Row}
    (run : server.inserts tid ignore new tx = some (.ok (inserted, after))) : Continues tx after := by
  induction new generalizing tx inserted with
  | nil =>
      simp only [Server.inserts, Option.some.injEq, Except.ok.injEq, Prod.mk.injEq] at run
      exact run.2 ▸ .refl tx
  | cons row rest ih =>
      simp only [Server.inserts] at run
      split at run
      · cases run
      · split at run
        · exact ih run
        · simp at run
      · split at run
        · next found =>
            simp only [Option.some.injEq, Except.ok.injEq, Prod.mk.injEq] at run
            obtain ⟨-, rfl⟩ := run
            exact (Continues.add tx row).trans (ih found)
        · simp at run
        · cases run

theorem updates_continues {f : Row → Row} {found updated : List Row}
    (run : server.updates tid f found tx = some (.ok (updated, after))) : Continues tx after := by
  induction found generalizing tx updated with
  | nil =>
      simp only [Server.updates, Option.some.injEq, Except.ok.injEq, Prod.mk.injEq] at run
      exact run.2 ▸ .refl tx
  | cons row rest ih =>
      simp only [Server.updates] at run
      split at run
      · cases run
      · simp at run
      · split at run
        · next later =>
            simp only [Option.some.injEq, Except.ok.injEq, Prod.mk.injEq] at run
            obtain ⟨-, rfl⟩ := run
            have replaced := ((Continues.lock tx false row).trans (.remove _ row)).trans (.add _ (f row))
            exact replaced.trans (ih later)
        · simp at run
        · cases run

theorem execute_continues {statement : Statement Row} {rows : List Row}
    (run : server.execute tid statement = some (.ok (rows, after))) : Continues (server.txs tid) after := by
  have each : ∀ (tx : Tx Row Label) row, Continues tx ((tx.lock true row).remove row) := fun tx row =>
    (Continues.lock tx true row).trans (.remove _ row)
  cases statement with
  | select p =>
      simp only [Server.execute, Option.some.injEq, Except.ok.injEq, Prod.mk.injEq] at run
      exact run.2 ▸ .refl _
  | lockRows p =>
      simp only [Server.execute] at run
      split at run
      · cases run
      · simp only [Option.some.injEq, Except.ok.injEq, Prod.mk.injEq] at run
        exact run.2 ▸ .foldl (Continues.lock · true) _ _
  | lockSkip p le limit =>
      simp only [Server.execute, Option.some.injEq, Except.ok.injEq, Prod.mk.injEq] at run
      exact run.2 ▸ .foldl (Continues.lock · true) _ _
  | shareKey p =>
      simp only [Server.execute] at run
      split at run
      · cases run
      · simp only [Option.some.injEq, Except.ok.injEq, Prod.mk.injEq] at run
        obtain ⟨-, rfl⟩ := run
        exact ⟨rfl, rfl, List.Subset.refl _, List.subset_append_left ..⟩
  | delete p =>
      simp only [Server.execute] at run
      split at run
      · cases run
      · simp only [Option.some.injEq, Except.ok.injEq, Prod.mk.injEq] at run
        exact run.2 ▸ .foldl each _ _
  | update p f =>
      simp only [Server.execute] at run
      split at run
      · cases run
      · exact updates_continues run
  | insert rows ignore => exact inserts_continues run

theorem execute_lockRows_strong {p : Row → Bool} {rows : List Row}
    (run : server.execute tid (.lockRows p) = some (.ok (rows, after))) :
    ∀ row ∈ rows, after.Strong (primary row) := by
  simp only [Server.execute] at run
  split at run
  · cases run
  · simp only [Option.some.injEq, Except.ok.injEq, Prod.mk.injEq] at run
    obtain ⟨rfl, rfl⟩ := run
    intro row member
    obtain ⟨before, later, split⟩ := List.append_of_mem member
    rw [split, List.foldl_append, List.foldl_cons]
    exact (Continues.foldl (Continues.lock · true) later _).strong ⟨⟨primary row, true⟩,
      List.mem_cons_self .., rfl, rfl⟩

end Effects

end OpenEmarsys.Postgres
