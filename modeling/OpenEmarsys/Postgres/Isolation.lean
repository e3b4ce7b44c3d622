import OpenEmarsys.Postgres.Server

/-! What keeps open transactions apart.

`Fits` says what one transaction holds may stand beside the committed rows and the
other transactions; `Sane` that every transaction fits. Statements keep it, so a
commit always leaves a table whose unique indexes hold.
-/

set_option autoImplicit false

namespace OpenEmarsys.Postgres

variable {Row Label : Type} [Indexed Row]

def NoClash (row other : Row) : Prop := clash row other = false

instance (row other : Row) : Decidable (NoClash row other) :=
  inferInstanceAs (Decidable (clash row other = false))

theorem NoClash.symm {row other : Row} (apart : NoClash row other) : NoClash other row := by
  unfold NoClash at *
  rw [clash_comm, apart]

namespace Tx

def Locks (tx : Tx Row Label) (key : Key Row) : Prop := ∃ lock ∈ tx.locks, lock.key = key

def Strong (tx : Tx Row Label) (key : Key Row) : Prop :=
  ∃ lock ∈ tx.locks, lock.strong = true ∧ lock.key = key

theorem locked_iff {tx : Tx Row Label} {row : Row} : tx.locked row = true ↔ tx.Locks (primary row) := by
  simp [locked, Locks]

theorem removes_iff {tx : Tx Row Label} {row : Row} : tx.removes row = true ↔ primary row ∈ tx.removed := by
  simp [removes]

theorem mem_view {tx : Tx Row Label} {rows : List Row} {row : Row} :
    row ∈ tx.view rows ↔ (row ∈ rows ∧ tx.removes row = false) ∨ row ∈ tx.added := by
  simp [view]

section Fields
variable (tx : Tx Row Label) (row : Row) (strong : Bool)

@[simp] theorem lock_label : (tx.lock strong row).label = tx.label := rfl
@[simp] theorem lock_added : (tx.lock strong row).added = tx.added := rfl
@[simp] theorem lock_removed : (tx.lock strong row).removed = tx.removed := rfl
@[simp] theorem lock_snapshot : (tx.lock strong row).snapshot = tx.snapshot := rfl
@[simp] theorem lock_begun : (tx.lock strong row).begun = tx.begun := rfl
@[simp] theorem lock_shares : (tx.lock strong row).shares = tx.shares := rfl
@[simp] theorem lock_removes (old : Row) : (tx.lock strong row).removes old = tx.removes old := rfl
@[simp] theorem lock_view (rows : List Row) : (tx.lock strong row).view rows = tx.view rows := rfl
@[simp] theorem add_label : (tx.add row).label = tx.label := rfl
@[simp] theorem add_added : (tx.add row).added = tx.added ++ [row] := rfl
@[simp] theorem add_removed : (tx.add row).removed = tx.removed := rfl
@[simp] theorem add_begun : (tx.add row).begun = tx.begun := rfl
@[simp] theorem add_locks : (tx.add row).locks = tx.locks := rfl
@[simp] theorem add_snapshot : (tx.add row).snapshot = tx.snapshot := rfl
@[simp] theorem add_shares : (tx.add row).shares = tx.shares := rfl
@[simp] theorem add_removes (old : Row) : (tx.add row).removes old = tx.removes old := rfl

theorem add_view (rows : List Row) : (tx.add row).view rows = tx.view rows ++ [row] := by
  simp only [view, add_added, add_removes, List.append_assoc]

@[simp] theorem remove_label : (tx.remove row).label = tx.label := by
  unfold remove; split <;> rfl

@[simp] theorem remove_begun : (tx.remove row).begun = tx.begun := by
  unfold remove; split <;> rfl

@[simp] theorem remove_locks : (tx.remove row).locks = tx.locks := by
  unfold remove; split <;> rfl

@[simp] theorem remove_snapshot : (tx.remove row).snapshot = tx.snapshot := by
  unfold remove; split <;> rfl

@[simp] theorem remove_shares : (tx.remove row).shares = tx.shares := by
  unfold remove; split <;> rfl

theorem remove_added : (tx.remove row).added = tx.added.filter fun other => !sameRow row other := by
  unfold remove
  split
  · rfl
  · next absent =>
      symm
      rw [List.filter_eq_self]
      intro other member
      simpa using fun same => absent (List.any_eq_true.mpr ⟨other, member, same⟩)

theorem mem_remove_removed {key : Key Row} (member : key ∈ (tx.remove row).removed) :
    key ∈ tx.removed ∨ key = primary row := by
  unfold remove at member
  split at member
  · exact .inl member
  · rcases List.mem_cons.mp member with same | old
    · exact .inr same
    · exact .inl old

theorem removes_remove {old : Row} (removed : tx.removes old = true) :
    (tx.remove row).removes old = true := by
  rw [removes_iff] at removed ⊢
  unfold remove
  split
  · exact removed
  · exact List.mem_cons_of_mem _ removed

theorem locks_lock {key : Key Row} : (tx.lock strong row).Locks key ↔ key = primary row ∨ tx.Locks key := by
  constructor
  · rintro ⟨found, member, rfl⟩
    rcases List.mem_cons.mp member with rfl | old
    · exact .inl rfl
    · exact .inr ⟨found, old, rfl⟩
  · rintro (rfl | ⟨found, member, rfl⟩)
    · exact ⟨_, List.mem_cons_self .., rfl⟩
    · exact ⟨found, List.mem_cons_of_mem _ member, rfl⟩

theorem strong_lock {key : Key Row} (taken : (tx.lock strong row).Strong key) :
    (strong = true ∧ key = primary row) ∨ tx.Strong key := by
  obtain ⟨found, member, is, rfl⟩ := taken
  rcases List.mem_cons.mp member with rfl | old
  · exact .inl ⟨is, rfl⟩
  · exact .inr ⟨found, old, is, rfl⟩

end Fields
end Tx

/-- What `tid` holds, `tx`, stands beside the committed rows and the other transactions. -/
structure Fits (server : Server Row Label) (tid : Tid) (tx : Tx Row Label) : Prop where
  added : tx.added.Pairwise NoClash
  apart : ∀ row ∈ tx.added, ∀ old ∈ server.rows, clash row old = true → tx.removes old = true
  foreign : ∀ other, other ≠ tid → ∀ row ∈ tx.added, ∀ theirs ∈ (server.txs other).added, NoClash row theirs
  locks : ∀ other, other ≠ tid → ∀ key, tx.Locks key → ¬ (server.txs other).Locks key
  shared : ∀ other, other ≠ tid → ∀ key ∈ tx.shares, ¬ (server.txs other).Strong key
  strong : ∀ other, other ≠ tid → ∀ key ∈ (server.txs other).shares, ¬ tx.Strong key
  removed : ∀ key ∈ tx.removed, tx.Locks key

structure Sane (server : Server Row Label) : Prop where
  rows : server.rows.Pairwise NoClash
  unknown : ∀ tid, tid ∉ server.tids → server.txs tid = .idle
  closed : ∀ tid, (server.txs tid).label = none → server.txs tid = .idle
  fits : ∀ tid, Fits server tid (server.txs tid)

theorem Fits.idle (server : Server Row Label) (tid : Tid) : Fits server tid .idle := by
  constructor <;> simp [Tx.idle, Tx.Locks, Tx.Strong]

theorem Fits.same {server : Server Row Label} {tid : Tid} {tx next : Tx Row Label} (fits : Fits server tid tx)
    (added : next.added = tx.added) (removed : next.removed = tx.removed) (locks : next.locks = tx.locks)
    (shares : next.shares = tx.shares) : Fits server tid next := by
  obtain ⟨_, _, _, nextRemoved, nextAdded, nextLocks, nextShares⟩ := next
  subst added removed locks shares
  exact ⟨fits.added, fits.apart, fits.foreign, fits.locks, fits.shared, fits.strong, fits.removed⟩

theorem sane_holding {rows : List Row} (apart : rows.Pairwise NoClash) :
    Sane (Server.holding rows : Server Row Label) :=
  ⟨apart, fun _ _ => rfl, fun _ _ => rfl, fun tid => Fits.idle _ tid⟩

namespace Server

variable {server : Server Row Label} {tid : Tid}

@[simp] theorem setTx_rows (tx : Tx Row Label) : (server.setTx tid tx).rows = server.rows := rfl
@[simp] theorem setTx_tids (tx : Tx Row Label) : (server.setTx tid tx).tids = server.tids := rfl
@[simp] theorem setTx_log (tx : Tx Row Label) : (server.setTx tid tx).log = server.log := rfl
@[simp] theorem setTx_same (tx : Tx Row Label) : (server.setTx tid tx).txs tid = tx := by simp [setTx]

theorem setTx_other {other : Tid} (tx : Tx Row Label) (distinct : other ≠ tid) :
    (server.setTx tid tx).txs other = server.txs other := by
  simp [setTx, distinct]

end Server

section Steps
variable {server : Server Row Label} {tid : Tid} {tx : Tx Row Label}

theorem Sane.mem_others (sane : Sane server) {other : Tid} (distinct : other ≠ tid)
    (busy : server.txs other ≠ .idle) : server.txs other ∈ server.others tid := by
  have known : other ∈ server.tids := by
    by_contra absent
    exact busy (sane.unknown other absent)
  exact List.mem_map_of_mem (List.mem_filter.mpr ⟨known, by simpa using distinct⟩)

theorem Sane.not_held (sane : Sane server) {row : Row} (free : server.held tid row = false) {other : Tid}
    (distinct : other ≠ tid) : ¬ (server.txs other).Locks (primary row) := by
  intro locks
  have busy : server.txs other ≠ .idle := by
    intro idle
    simp [idle, Tx.idle, Tx.Locks] at locks
  have found : server.held tid row = true :=
    List.any_eq_true.mpr ⟨_, sane.mem_others distinct busy, Tx.locked_iff.mpr locks⟩
  rw [free] at found
  cases found

theorem Sane.not_shared (sane : Sane server) {row : Row} (free : server.refuses tid row = false) {other : Tid}
    (distinct : other ≠ tid) : primary row ∉ (server.txs other).shares := by
  intro shared
  have busy : server.txs other ≠ .idle := by
    intro idle
    simp [idle, Tx.idle] at shared
  have found : ((server.others tid).any fun other => decide (primary row ∈ other.shares)) = true :=
    List.any_eq_true.mpr ⟨_, sane.mem_others distinct busy, by simpa using shared⟩
  simp [Server.refuses, found] at free

theorem Sane.setTx (sane : Sane server) (opened : tx.label.isSome = true) (known : tid ∈ server.tids)
    (fits : Fits server tid tx) : Sane (server.setTx tid tx) := by
  refine ⟨sane.rows, fun other absent => ?_, fun other closed => ?_, fun other => ?_⟩
  · have distinct : other ≠ tid := fun same => absent (same ▸ known)
    rw [Server.setTx_other tx distinct]
    exact sane.unknown other absent
  · by_cases same : other = tid
    · subst same
      rw [Server.setTx_same] at closed
      simp [closed] at opened
    · rw [Server.setTx_other tx same] at closed ⊢
      exact sane.closed other closed
  · by_cases same : other = tid
    · subst same
      rw [Server.setTx_same]
      refine ⟨fits.added, fits.apart, ?_, ?_, ?_, ?_, fits.removed⟩ <;> intro third distinct <;>
        rw [Server.setTx_other tx distinct]
      · exact fits.foreign third distinct
      · exact fits.locks third distinct
      · exact fits.shared third distinct
      · exact fits.strong third distinct
    · rw [Server.setTx_other tx same]
      have own := sane.fits other
      refine ⟨own.added, own.apart, ?_, ?_, ?_, ?_, own.removed⟩ <;> intro third distinct <;>
        by_cases mine : third = tid
      · subst mine
        rw [Server.setTx_same]
        exact fun row member theirs added => (fits.foreign other same theirs added row member).symm
      · rw [Server.setTx_other tx mine]; exact own.foreign third distinct
      · subst mine
        rw [Server.setTx_same]
        exact fun key locks theirs => fits.locks other same key theirs locks
      · rw [Server.setTx_other tx mine]; exact own.locks third distinct
      · subst mine
        rw [Server.setTx_same]
        exact fun key shares => fits.strong other same key shares
      · rw [Server.setTx_other tx mine]; exact own.shared third distinct
      · subst mine
        rw [Server.setTx_same]
        exact fun key shares => fits.shared other same key shares
      · rw [Server.setTx_other tx mine]; exact own.strong third distinct

/-! ## What a statement adds to a transaction -/

theorem Fits.lock (fits : Fits server tid tx) (sane : Sane server) {strong : Bool} {row : Row}
    (free : server.held tid row = false) (unshared : strong = true → server.refuses tid row = false) :
    Fits server tid (tx.lock strong row) := by
  refine ⟨fits.added, fits.apart, fits.foreign, ?_, fits.shared, ?_, ?_⟩
  · intro other distinct key locks
    rcases (Tx.locks_lock tx row strong).mp locks with rfl | old
    · exact sane.not_held free distinct
    · exact fits.locks other distinct key old
  · intro other distinct key shares taken
    rcases Tx.strong_lock tx row strong taken with ⟨is, rfl⟩ | old
    · exact sane.not_shared (unshared is) distinct shares
    · exact fits.strong other distinct key shares old
  · intro key member
    exact (Tx.locks_lock tx row strong).mpr (.inr (fits.removed key member))

theorem Fits.remove (fits : Fits server tid tx) {row : Row} (locked : tx.Locks (primary row)) :
    Fits server tid (tx.remove row) := by
  have sub : ∀ {other}, other ∈ (tx.remove row).added → other ∈ tx.added := fun member => by
    rw [Tx.remove_added] at member
    exact List.mem_of_mem_filter member
  have locks : ∀ {key}, (tx.remove row).Locks key ↔ tx.Locks key := by simp [Tx.Locks]
  have strong : ∀ {key}, (tx.remove row).Strong key ↔ tx.Strong key := by simp [Tx.Strong]
  refine ⟨?_, ?_, ?_, ?_, ?_, ?_, ?_⟩
  · rw [Tx.remove_added]
    exact fits.added.filter _
  · intro added member old present meets
    exact Tx.removes_remove tx row (fits.apart added (sub member) old present meets)
  · exact fun other distinct added member => fits.foreign other distinct added (sub member)
  · exact fun other distinct key held => fits.locks other distinct key (locks.mp held)
  · exact fun other distinct key shares => fits.shared other distinct key (by simpa using shares)
  · exact fun other distinct key shares taken => fits.strong other distinct key shares (strong.mp taken)
  · intro key member
    rcases Tx.mem_remove_removed tx row member with old | rfl
    · exact locks.mpr (fits.removed key old)
    · exact locks.mpr locked

-- The unique indexes admit the row, whatever the other transactions do.
theorem admission_free (sane : Sane server) {row : Row} (free : server.admission tid tx row = .free) :
    (∀ other, other ≠ tid → ∀ theirs ∈ (server.txs other).added, NoClash row theirs) ∧
      ∀ seen ∈ tx.view server.rows, NoClash row seen := by
  unfold Server.admission at free
  split at free
  · cases free
  · next calm =>
      split at free
      · cases free
      · next new =>
          simp only [List.any_eq_true, Bool.or_eq_true, not_exists, not_and, not_or] at calm new
          constructor
          · intro other distinct theirs member
            have busy : server.txs other ≠ .idle := by
              intro idle
              simp [idle, Tx.idle] at member
            have clear := (calm _ (sane.mem_others distinct busy)).1 theirs member
            simpa [NoClash] using clear
          · intro seen member
            simpa [NoClash] using new seen member

theorem Fits.add (fits : Fits server tid tx) (sane : Sane server) {row : Row}
    (free : server.admission tid tx row = .free) : Fits server tid (tx.add row) := by
  obtain ⟨others, own⟩ := admission_free sane free
  have mine : ∀ added ∈ tx.added, NoClash row added :=
    fun added member => own added (Tx.mem_view.mpr (.inr member))
  refine ⟨?_, ?_, ?_, fits.locks, fits.shared, fits.strong, fits.removed⟩
  · rw [Tx.add_added, List.pairwise_append]
    refine ⟨fits.added, List.pairwise_singleton .., ?_⟩
    intro added member new isRow
    cases List.mem_singleton.mp isRow
    exact (mine added member).symm
  · intro added member old present meets
    rcases List.mem_append.mp member with earlier | isRow
    · exact fits.apart added earlier old present meets
    · cases List.mem_singleton.mp isRow
      by_contra kept
      have seen := own old (Tx.mem_view.mpr (.inl ⟨present, by simpa using kept⟩))
      rw [NoClash, meets] at seen
      cases seen
  · intro other distinct added member theirs
    rcases List.mem_append.mp member with earlier | isRow
    · exact fits.foreign other distinct added earlier theirs
    · cases List.mem_singleton.mp isRow
      exact others other distinct theirs

theorem inserts_fits (sane : Sane server) {ignore : Bool} {new inserted : List Row} {after : Tx Row Label}
    (fits : Fits server tid tx) (run : server.inserts tid ignore new tx = some (.ok (inserted, after))) :
    Fits server tid after ∧ after.label = tx.label := by
  induction new generalizing tx inserted with
  | nil =>
      simp only [Server.inserts, Option.some.injEq, Except.ok.injEq, Prod.mk.injEq] at run
      exact run.2 ▸ ⟨fits, rfl⟩
  | cons row rest ih =>
      simp only [Server.inserts] at run
      split at run
      · cases run
      · split at run
        · exact ih fits run
        · simp at run
      · next free =>
          split at run
          · next found =>
              simp only [Option.some.injEq, Except.ok.injEq, Prod.mk.injEq] at run
              obtain ⟨-, rfl⟩ := run
              have later := ih (fits.add sane free) found
              exact later
          · simp at run
          · cases run

theorem updates_fits (sane : Sane server) {f : Row → Row} {found updated : List Row} {after : Tx Row Label}
    (unheld : ∀ row ∈ found, server.held tid row = false) (fits : Fits server tid tx)
    (run : server.updates tid f found tx = some (.ok (updated, after))) :
    Fits server tid after ∧ after.label = tx.label := by
  induction found generalizing tx updated with
  | nil =>
      simp only [Server.updates, Option.some.injEq, Except.ok.injEq, Prod.mk.injEq] at run
      exact run.2 ▸ ⟨fits, rfl⟩
  | cons row rest ih =>
      simp only [Server.updates] at run
      split at run
      · cases run
      · simp at run
      · next free =>
          have locked : Fits server tid (tx.lock false row) :=
            fits.lock sane (unheld row (List.mem_cons_self ..)) (fun strong => by cases strong)
          have removed := locked.remove ((Tx.locks_lock tx row false).mpr (.inl rfl))
          split at run
          · next later =>
              simp only [Option.some.injEq, Except.ok.injEq, Prod.mk.injEq] at run
              obtain ⟨-, rfl⟩ := run
              obtain ⟨fit, same⟩ := ih (fun row member => unheld row (List.mem_cons_of_mem _ member))
                (removed.add sane free) later
              exact ⟨fit, by simpa using same⟩
          · simp at run
          · cases run

theorem lock_all_fits (sane : Sane server) {found : List Row}
    (free : ∀ row ∈ found, server.refuses tid row = false) (fits : Fits server tid tx) :
    Fits server tid (found.foldl (fun tx row => tx.lock true row) tx) ∧
      (found.foldl (fun tx row => tx.lock true row) tx).label = tx.label := by
  induction found generalizing tx with
  | nil => exact ⟨fits, rfl⟩
  | cons row rest ih =>
      have here := free row (List.mem_cons_self ..)
      have unheld : server.held tid row = false := by
        simp only [Server.refuses, Bool.or_eq_false_iff] at here
        exact here.1
      exact ih (fun row member => free row (List.mem_cons_of_mem _ member))
        (fits.lock sane unheld fun _ => here)

theorem delete_all_fits (sane : Sane server) {found : List Row}
    (free : ∀ row ∈ found, server.refuses tid row = false) (fits : Fits server tid tx) :
    Fits server tid (found.foldl (fun tx row => (tx.lock true row).remove row) tx) ∧
      (found.foldl (fun tx row => (tx.lock true row).remove row) tx).label = tx.label := by
  induction found generalizing tx with
  | nil => exact ⟨fits, rfl⟩
  | cons row rest ih =>
      have here := free row (List.mem_cons_self ..)
      have unheld : server.held tid row = false := by
        simp only [Server.refuses, Bool.or_eq_false_iff] at here
        exact here.1
      have locked := (fits.lock sane unheld fun _ => here).remove ((Tx.locks_lock tx row true).mpr (.inl rfl))
      obtain ⟨fit, same⟩ := ih (fun row member => free row (List.mem_cons_of_mem _ member)) locked
      exact ⟨fit, by simpa using same⟩

theorem execute_fits (sane : Sane server) {statement : Statement Row} {reply : List Row}
    {after : Tx Row Label} (run : server.execute tid statement = some (.ok (reply, after))) :
    Fits server tid after ∧ after.label = (server.txs tid).label := by
  have fits := sane.fits tid
  cases statement with
  | select p =>
      simp only [Server.execute, Option.some.injEq, Except.ok.injEq, Prod.mk.injEq] at run
      exact run.2 ▸ ⟨fits, rfl⟩
  | lockRows p =>
      simp only [Server.execute] at run
      split at run
      · cases run
      · next free =>
          simp only [Option.some.injEq, Except.ok.injEq, Prod.mk.injEq] at run
          exact run.2 ▸ lock_all_fits sane (by simpa using free) fits
  | lockSkip p le limit =>
      simp only [Server.execute, Option.some.injEq, Except.ok.injEq, Prod.mk.injEq] at run
      refine run.2 ▸ lock_all_fits sane (fun row member => ?_) fits
      have sorted := (List.perm_insertionSort _ _).mem_iff.mp (List.mem_of_mem_take member)
      simpa using (List.mem_filter.mp sorted).2
  | shareKey p =>
      simp only [Server.execute] at run
      split at run
      · cases run
      · next free =>
          simp only [Option.some.injEq, Except.ok.injEq, Prod.mk.injEq] at run
          obtain ⟨-, rfl⟩ := run
          refine ⟨⟨fits.added, fits.apart, fits.foreign, fits.locks, ?_, fits.strong, fits.removed⟩, rfl⟩
          intro other distinct key member strong
          rcases List.mem_append.mp member with old | new
          · exact fits.shared other distinct key old strong
          · obtain ⟨row, found, rfl⟩ := List.mem_map.mp new
            obtain ⟨lock, held, is, same⟩ := strong
            have busy : server.txs other ≠ .idle := by
              intro idle
              simp [idle, Tx.idle] at held
            refine free (List.any_eq_true.mpr ⟨_, sane.mem_others distinct busy, ?_⟩)
            exact List.any_eq_true.mpr ⟨row, found, List.any_eq_true.mpr ⟨lock, held, by simp [is, same]⟩⟩
  | delete p =>
      simp only [Server.execute] at run
      split at run
      · cases run
      · next free =>
          simp only [Option.some.injEq, Except.ok.injEq, Prod.mk.injEq] at run
          exact run.2 ▸ delete_all_fits sane (by simpa using free) fits
  | update p f =>
      simp only [Server.execute] at run
      split at run
      · cases run
      · next free => exact updates_fits sane (by simpa using free) fits run
  | insert rows ignore => exact inserts_fits sane fits run

/-! ## Steps of the server -/

theorem Sane.known (sane : Sane server) (opened : (server.txs tid).label.isSome = true) :
    tid ∈ server.tids := by
  by_contra absent
  simp [sane.unknown tid absent, Tx.idle] at opened

theorem Sane.execute (sane : Sane server) (opened : (server.txs tid).label.isSome = true)
    {statement : Statement Row} {reply : List Row} {after : Tx Row Label}
    (run : server.execute tid statement = some (.ok (reply, after))) : Sane (server.setTx tid after) := by
  obtain ⟨fits, same⟩ := execute_fits sane run
  exact sane.setTx (same ▸ opened) (sane.known opened) fits

theorem Sane.start (sane : Sane server) (opened : (server.txs tid).label.isSome = true) :
    Sane (server.start tid) :=
  sane.setTx opened (sane.known opened) ((sane.fits tid).same rfl rfl rfl rfl)

-- A transaction that ends, having changed the committed rows to `rows`.
theorem Sane.ends (sane : Sane server) (rows : List Row) (log : List (Commit Row Label))
    (apart : rows.Pairwise NoClash)
    (fits : ∀ other, other ≠ tid → ∀ row ∈ (server.txs other).added, ∀ old ∈ rows, clash row old = true →
      (server.txs other).removes old = true) :
    Sane ({ server with rows := rows, txs := Function.update server.txs tid .idle, log := log }) := by
  have others : ∀ {other}, other ≠ tid → Function.update server.txs tid .idle other = server.txs other :=
    fun distinct => Function.update_of_ne distinct ..
  refine ⟨apart, fun other absent => ?_, fun other closed => ?_, fun other => ?_⟩
  · by_cases same : other = tid
    · subst same; exact Function.update_self ..
    · exact (others same).trans (sane.unknown other absent)
  · by_cases same : other = tid
    · subst same; exact Function.update_self ..
    · have before : (server.txs other).label = none := by simpa [others same] using closed
      exact (others same).trans (sane.closed other before)
  · by_cases same : other = tid
    · subst same
      simp only [Function.update_self]
      exact Fits.idle _ _
    · simp only [others same]
      have own := sane.fits other
      refine ⟨own.added, fits other same, ?_, ?_, ?_, ?_, own.removed⟩ <;> intro third distinct <;>
        by_cases ended : third = tid
      all_goals first
        | subst ended; simp [Tx.idle, Tx.Locks, Tx.Strong]
        | simp only [others ended]
      · exact own.foreign third distinct
      · exact own.locks third distinct
      · exact own.shared third distinct
      · exact own.strong third distinct

theorem Fits.view_apart (fits : Fits server tid tx) (sane : Sane server) :
    (tx.view server.rows).Pairwise NoClash := by
  rw [Tx.view, List.pairwise_append]
  refine ⟨sane.rows.filter _, fits.added, fun old kept row added => ?_⟩
  obtain ⟨present, stays⟩ := List.mem_filter.mp kept
  by_contra meets
  have clashes : clash row old = true := by
    rw [clash_comm]
    simpa [NoClash] using meets
  simp [fits.apart row added old present clashes] at stays

theorem Sane.commit (sane : Sane server) (tid : Tid) : Sane (server.commit tid) := by
  refine sane.ends _ _ ((sane.fits tid).view_apart sane) fun other distinct row added old present meets => ?_
  rcases Tx.mem_view.mp present with ⟨before, -⟩ | mine
  · exact (sane.fits other).apart row added old before meets
  · have clear := (sane.fits other).foreign tid distinct.symm row added old mine
    rw [NoClash, meets] at clear
    cases clear

theorem Sane.rollback (sane : Sane server) (tid : Tid) : Sane (server.rollback tid) :=
  sane.ends _ _ sane.rows fun other _ => (sane.fits other).apart

theorem Sane.begin (sane : Sane server) (tid : Tid) (label : Label) : Sane (server.begin tid label) := by
  have rolled := sane.rollback tid
  have empty :
      Fits (server.rollback tid) tid
      { (Tx.idle : Tx Row Label) with label := some label, begun := server.log.length } :=
    (Fits.idle _ tid).same rfl rfl rfl rfl
  have known : Sane ({ server.rollback tid with tids := tid :: server.tids } : Server Row Label) :=
    ⟨rolled.rows, fun other absent => rolled.unknown other fun old => absent (List.mem_cons_of_mem _ old),
      rolled.closed, fun other => by
        have own := rolled.fits other
        exact ⟨own.added, own.apart, own.foreign, own.locks, own.shared, own.strong, own.removed⟩⟩
  have opened : Sane (Server.setTx { server.rollback tid with tids := tid :: server.tids } tid
      { (Tx.idle : Tx Row Label) with label := some label, begun := server.log.length }) :=
    known.setTx rfl (List.mem_cons_self ..)
      ⟨empty.added, empty.apart, empty.foreign, empty.locks, empty.shared, empty.strong, empty.removed⟩
  simpa [Server.begin, Server.setTx, Server.rollback] using opened

end Steps

end OpenEmarsys.Postgres
