import OpenEmarsys.Postgres.Journal

/-! Stages of a transaction: for each table, which committed rows it has replaced by which.

Between two statements this is all that is known of the transaction, beside what it
has read and since when it holds its locks. One rule for each kind of statement.
-/

set_option autoImplicit false

namespace OpenEmarsys.Postgres

open Interleaving

class Tabled (Row : Type) [Indexed Row] where
  Table : Type
  decideTable : DecidableEq Table
  table : Key Row → Table

export Tabled (Table)

variable {Row Label World : Type} [Indexed Row] [Tabled Row]

instance : DecidableEq (Table Row) := Tabled.decideTable

def tableOf (row : Row) : Table Row := Tabled.table (primary row)

/-- What a transaction has done to one table. -/
structure Held (Row : Type) where
  gone : List Row
  new : List Row

abbrev Contents (Row : Type) [Indexed Row] [Tabled Row] : Type := Table Row → Held Row

namespace Contents

def empty : Contents Row := fun _ => ⟨[], []⟩

def set (contents : Contents Row) (table : Table Row) (held : Held Row) : Contents Row :=
  Function.update contents table held

@[simp] theorem empty_gone (table : Table Row) : (empty table : Held Row).gone = [] := rfl

@[simp] theorem empty_new (table : Table Row) : (empty table : Held Row).new = [] := rfl

@[simp] theorem set_same (contents : Contents Row) (table : Table Row) (held : Held Row) :
    contents.set table held table = held := by simp [set]

theorem set_other (contents : Contents Row) {table other : Table Row} (held : Held Row)
    (differs : other ≠ table) :
    contents.set table held other = contents other := by simp [set, differs]

@[simp] theorem set_set (contents : Contents Row) (table : Table Row) (held later : Held Row) :
    (contents.set table held).set table later = contents.set table later := by simp [set]

/-- A row that is visible besides the committed `rows`. -/
def Sees (contents : Contents Row) (rows : List Row) (row : Row) : Prop :=
  (row ∈ rows ∧ ∀ old ∈ (contents (tableOf row)).gone, primary old ≠ primary row) ∨
    row ∈ (contents (tableOf row)).new

@[simp] theorem sees_empty {rows : List Row} {row : Row} :
    (empty : Contents Row).Sees rows row ↔ row ∈ rows := by
  simp [Sees]

/-- The transaction has these contents, beside the committed `rows`. -/
structure In (contents : Contents Row) (rows : List Row) (tx : Tx Row Label) : Prop where
  added : ∀ row, row ∈ tx.added ↔ row ∈ (contents (tableOf row)).new
  removed : ∀ key, key ∈ tx.removed ↔ ∃ old ∈ (contents (Tabled.table key)).gone, primary old = key
  gone : ∀ table, ∀ old ∈ (contents table).gone, tableOf old = table ∧ old ∈ rows
  new : ∀ table, ∀ row ∈ (contents table).new, tableOf row = table

variable {contents : Contents Row} {rows : List Row} {tx after : Tx Row Label}
  {server : Server Row Label} {tid : Tid}
  {table : Table Row}

theorem In.view (held : contents.In rows tx) (now : List Row) (row : Row) :
    row ∈ tx.view now ↔ contents.Sees now row := by
  rw [Tx.mem_view, Sees, held.added]
  refine or_congr_left (and_congr_right fun _ => ?_)
  rw [Bool.eq_false_iff, ne_eq, Tx.removes_iff, held.removed]
  push Not
  rfl

-- Only the changes of the transaction matter, and that the rows it has replaced are there.
theorem In.moved {next : Tx Row Label} {now : List Row} (held : contents.In rows tx)
    (added : next.added = tx.added)
    (removed : next.removed = tx.removed) (kept : ∀ table, ∀ old ∈ (contents table).gone, old ∈ now) :
    contents.In now next :=
  ⟨fun row => by rw [added]; exact held.added row, fun key => by rw [removed]; exact held.removed key,
    fun table old member => ⟨(held.gone table old member).1, kept table old member⟩, held.new⟩

theorem In.locked (held : contents.In rows tx) (fits : Fits server tid tx) {old : Row}
    (member : old ∈ (contents table).gone) :
    tx.Locks (primary old) := by
  refine fits.removed _ ((held.removed _).mpr ⟨old, ?_, rfl⟩)
  rwa [(held.gone table old member).1.symm] at member

theorem in_empty (rows : List Row) {tx : Tx Row Label} (added : tx.added = []) (removed : tx.removed = []) :
    (empty : Contents Row).In rows tx := by
  constructor <;> simp [added, removed]

theorem In.inserts {new inserted : List Row} (held : contents.In rows tx)
    (within : ∀ row ∈ new, tableOf row = table)
    (sub : inserted.Sublist new) (change : Change rows tx after [] inserted) :
    (contents.set table ⟨(contents table).gone, (contents table).new ++ inserted⟩).In rows after := by
  have fits : ∀ row ∈ inserted, tableOf row = table := fun row member => within row (sub.subset member)
  refine ⟨fun row => ?_, fun key => ?_, fun other => ?_, fun other => ?_⟩
  · rw [change.added]
    by_cases here : tableOf row = table
    · rw [here, set_same]
      simp [held.added, here]
    · rw [set_other _ _ here, ← held.added]
      simp only [List.not_mem_nil, false_implies, implies_true, and_true, or_iff_left_iff_imp]
      exact fun member => absurd (fits row member) here
  · have same : key ∈ after.removed ↔ key ∈ tx.removed :=
      ⟨fun member => (change.removed key member).resolve_right (by simp), change.kept key⟩
    rw [same, held.removed]
    by_cases here : Tabled.table key = table
    · rw [here, set_same]
    · rw [set_other _ _ here]
  · by_cases here : other = table
    · subst here
      rw [set_same]
      exact held.gone other
    · rw [set_other _ _ here]
      exact held.gone other
  · by_cases here : other = table
    · subst here
      rw [set_same]
      intro row member
      rcases List.mem_append.mp member with before | now
      · exact held.new other row before
      · exact fits row now
    · rw [set_other _ _ here]
      exact held.new other

-- Rows of one table, none of them new, replaced by new ones under the same keys.
theorem In.replaces {hits new : List Row} (held : contents.In rows tx) (none_ : (contents table).new = [])
    (within : ∀ old ∈ hits, tableOf old = table ∧ old ∈ rows)
    (keyed : ∀ row ∈ new, ∃ old ∈ hits, primary row = primary old)
    (change : Change rows tx after hits new) :
    (contents.set table ⟨(contents table).gone ++ hits, new⟩).In rows after := by
  have foreign : ∀ row, row ∈ tx.added → tableOf row ≠ table := fun row member here => by
    have found := (held.added row).mp member
    rw [here, none_] at found
    cases found
  refine ⟨fun row => ?_, fun key => ?_, fun other => ?_, fun other => ?_⟩
  · rw [change.added]
    by_cases here : tableOf row = table
    · rw [here, set_same]
      constructor
      · rintro (⟨mine, -⟩ | member)
        · exact absurd here (foreign row mine)
        · exact member
      · exact .inr
    · rw [set_other _ _ here, ← held.added]
      constructor
      · rintro (⟨mine, -⟩ | member)
        · exact mine
        · obtain ⟨old, hit, same⟩ := keyed row member
          exact absurd ((congrArg Tabled.table same).trans (within old hit).1) here
      · refine fun mine => .inl ⟨mine, fun old hit same => here ?_⟩
        exact (congrArg Tabled.table same).symm.trans (within old hit).1
  · by_cases here : Tabled.table key = table
    · rw [here, set_same]
      constructor
      · intro member
        rcases change.removed key member with before | ⟨old, hit, rfl⟩
        · obtain ⟨old, gone, same⟩ := (held.removed key).mp before
          rw [here] at gone
          exact ⟨old, List.mem_append_left _ gone, same⟩
        · exact ⟨old, List.mem_append_right _ hit, rfl⟩
      · rintro ⟨old, member, rfl⟩
        rcases List.mem_append.mp member with before | hit
        · exact change.kept _ ((held.removed _).mpr ⟨old, by rwa [here], rfl⟩)
        · refine change.gone old hit fun mine member same => foreign mine member ?_
          exact (congrArg Tabled.table same).trans here
    · rw [set_other _ _ here, ← held.removed]
      refine ⟨fun member => (change.removed key member).resolve_right ?_, change.kept key⟩
      rintro ⟨old, hit, rfl⟩
      exact here (within old hit).1
  · by_cases here : other = table
    · subst here
      rw [set_same]
      intro old member
      rcases List.mem_append.mp member with before | hit
      · exact held.gone other old before
      · exact within old hit
    · rw [set_other _ _ here]
      exact held.gone other
  · by_cases here : other = table
    · subst here
      rw [set_same]
      intro row member
      obtain ⟨old, hit, same⟩ := keyed row member
      exact (congrArg Tabled.table same).trans (within old hit).1
    · rw [set_other _ _ here]
      exact held.new other

/-- The rows a statement acts on that started at `start` and takes effect `now`. -/
def Hits (contents : Contents Row) (p : Row → Bool) (start now : List Row) (row : Row) : Prop :=
  p row = true ∧ contents.Sees now row ∧ ∃ old, p old = true ∧ contents.Sees start old ∧
    primary old = primary row

theorem Hits.here {p : Row → Bool} {start now : List Row} {row : Row} (hits : contents.Hits p start now row)
    (within : ∀ row, p row = true → tableOf row = table) (none_ : (contents table).new = []) :
    tableOf row = table ∧ row ∈ now := by
  obtain ⟨matches_, sees, -⟩ := hits
  have here := within row matches_
  refine ⟨here, ?_⟩
  rcases sees with ⟨present, -⟩ | new
  · exact present
  · rw [here, none_] at new
    cases new

end Contents

/-! ## Stages -/

structure Stage (Row Label : Type) [Indexed Row] [Tabled Row] where
  label : Label
  /-- What had committed when the transaction began. -/
  opened : List (Commit Row Label)
  checks : List (Checkpoint Row Label)
  contents : Contents Row

namespace Stage

/-- The transaction of `pid` has got here, and this is known of the log. -/
structure At (first : List Row) (pid : Tid) (stage : Stage Row Label) (known : List (Commit Row Label) → Prop)
    (shared : Shared Row Label World) : Prop where
  label : (shared.server.txs pid).label = some stage.label
  begun : (shared.server.txs pid).begun = stage.opened.length
  opened : stage.opened <+: shared.server.log
  checks : ∀ check ∈ stage.checks, check.Since first shared.server.log (shared.server.txs pid)
  contents : stage.contents.In shared.server.rows (shared.server.txs pid)
  known : known shared.server.log

/-- A time since the transaction has got here. -/
structure Past (stage : Stage Row Label) (known : List (Commit Row Label) → Prop)
    (past : List (Commit Row Label)) : Prop where
  opened : stage.opened <+: past
  checks : ∀ check ∈ stage.checks, check.log <+: past
  known : known past

variable {chronicle : Chronicle Row Label World} {pid : Tid} {stage : Stage Row Label}
  {known : List (Commit Row Label) → Prop}

theorem At.past {first : List Row} {shared : Shared Row Label World} (at_ : At first pid stage known shared) :
    Past stage known shared.server.log :=
  ⟨at_.opened, fun check member => (at_.checks check member).earlier, at_.known⟩

theorem At.weaken {first : List Row} {shared : Shared Row Label World}
    {weaker : List (Commit Row Label) → Prop}
    (at_ : At first pid stage known shared) (implies : ∀ log, known log → weaker log) :
    At first pid stage weaker shared :=
  { at_ with known := implies _ at_.known }

theorem At.lasting (persists : Persists known) : chronicle.protocol.Lasting pid
    (At chronicle.first pid stage known) := by
  rintro shared next ⟨sane, app⟩ - at_ same alongside grown
  refine ⟨same ▸ at_.label, same ▸ at_.begun, at_.opened.trans grown, fun check member => ?_, ?_,
    persists _ _ grown at_.known⟩
  · rw [same]
    exact (at_.checks check member).alongside app.rows alongside
  · rw [same]
    refine at_.contents.moved rfl rfl fun table old member => ?_
    exact alongside.rows old (at_.contents.gone table old member).2
      (at_.contents.locked (sane.fits pid) member)

theorem At.snapshot {first : List Row} {shared : Shared Row Label World} {tx : Tx Row Label}
    (at_ : At first pid stage known shared)
    (same : tx = { shared.server.txs pid with snapshot := tx.snapshot }) :
    At first pid stage known { shared with server := shared.server.setTx pid tx } := by
  have continues : Continues (shared.server.txs pid) tx := by rw [same]; exact ⟨rfl, rfl, by simp, by simp⟩
  refine ⟨?_, ?_, at_.opened, fun check member => ?_, ?_, at_.known⟩ <;> simp only [Server.setTx_same]
  · exact continues.label.trans at_.label
  · exact continues.begun.trans at_.begun
  · exact (at_.checks check member).follow continues
  · exact at_.contents.moved (by rw [same]) (by rw [same])
      fun table old member => (at_.contents.gone table old member).2

-- What a statement has seen and when: its snapshot, and the rows when it took effect.
theorem At.reads {started shared : Shared Row Label World} (first : chronicle.Kept started.public)
    (before : At chronicle.first pid stage known started) (snapshot : Protocol.SnapshotOf pid started shared)
    (row : Row) :
    row ∈ (shared.server.txs pid).snapshot ↔ stage.contents.Sees
    (rowsAfter chronicle.first started.server.log) row := by
  rw [snapshot.1, ← first.server]
  exact before.contents.view _ row

theorem At.hits {started shared : Shared Row Label World} (first : chronicle.Kept started.public)
    (app : chronicle.Kept shared.public)
    (before : At chronicle.first pid stage known started) (at_ : At chronicle.first pid stage known shared)
    (snapshot : Protocol.SnapshotOf pid started shared) (p : Row → Bool) (row : Row) :
    row ∈ shared.server.hits pid p ↔ stage.contents.Hits p (rowsAfter chronicle.first started.server.log)
      (rowsAfter chronicle.first shared.server.log) row := by
  rw [mem_hits, at_.contents.view, Contents.Hits, ← app.server]
  simp only [before.reads first snapshot]
  constructor
  · rintro ⟨sees, matches_, old, saw, matched, same⟩
    exact ⟨matches_, sees, old, matched, saw, same⟩
  · rintro ⟨matches_, sees, old, matched, saw, same⟩
    exact ⟨sees, matches_, old, saw, matched, same⟩

theorem At.after {first : List Row} {shared : Shared Row Label World} {tx : Tx Row Label}
    {contents : Contents Row}
    (at_ : At first pid stage known shared) (continues : Continues (shared.server.txs pid) tx)
    (held : contents.In shared.server.rows tx) :
    At first pid { stage with contents := contents } known
    { shared with server := shared.server.setTx pid tx } := by
  refine ⟨?_, ?_, at_.opened, fun check member => ?_, ?_, at_.known⟩ <;> simp only [Server.setTx_same]
  · exact continues.label.trans at_.label
  · exact continues.begun.trans at_.begun
  · exact (at_.checks check member).follow continues
  · exact held

theorem At.check {first : List Row} {shared : Shared Row Label World}
    (at_ : At first pid stage known shared) :
    At first pid
    { stage with checks := ⟨shared.server.log, shared.server.txs pid⟩ :: stage.checks } known shared := by
  refine ⟨at_.label, at_.begun, at_.opened, fun check member => ?_, at_.contents, at_.known⟩
  rcases List.mem_cons.mp member with rfl | before
  · exact .now ..
  · exact at_.checks check before

end Stage

namespace Stage

variable {Call Choice Extra : Type} {ExtraReply : Extra → Type} {ε α β : Type}
  {extra : Tid → (call : Extra) → Choice → Shared Row Label World → Option (ExtraReply call × World)}
  {rules : Rules Call (Action Row Label Extra) (Shared Row Label World)}
  {chronicle : Chronicle Row Label World} {pid : Tid} {stage : Stage Row Label}
    {known : List (Commit Row Label) → Prop}
  {p : Row → Bool} {table : Table Row}

/-- The transaction is at a stage, or the server has closed it. -/
abbrev Here (chronicle : Chronicle Row Label World) (pid : Tid) (stage : Stage Row Label)
    (known : List (Commit Row Label) → Prop) : Shared Row Label World → Prop :=
  Protocol.Unless pid (At chronicle.first pid stage known)

theorem here_stable (persists : Persists known) :
    Stable chronicle.protocol.Rely chronicle.protocol.Inv pid (Here chronicle pid stage known) :=
  (At.lasting persists).stable

section Control
omit [Tabled Row]

theorem bind {script : Client Row Label ExtraReply ε β} {next : β → Client Row Label ExtraReply ε α}
    {pre : Shared Row Label World → Prop} (middle : β → Shared Row Label World → Prop)
    {post : α → Shared Row Label World → Prop}
    (head : chronicle.protocol.Proves extra rules pid pre script (Protocol.Returns middle))
    (tail : ∀ value, chronicle.protocol.Proves extra rules pid (middle value) (next value)
      (Protocol.Returns post)) :
    chronicle.protocol.Proves extra rules pid pre (script >>= next) (Protocol.Returns post) := by
  refine Triple.bind (chronicle.protocol.discipline extra rules) middle (head.weaken
    fun result _ _ held => ?_) tail
  cases result with
  | ok value => exact held
  | error error => trivial

theorem fail {error : ε} {pre : Shared Row Label World → Prop} {post : α → Shared Row Label World → Prop} :
    chronicle.protocol.Proves extra rules pid pre (.fail error : Client Row Label ExtraReply ε α)
    (Protocol.Returns post) :=
  fun _ inv _ _ moved => ⟨(moved inv).1, trivial⟩

-- What is open about the state is fixed, as far as the transaction is still open.
theorem choose {ι : Type*} [Nonempty ι] {holds : ι → Shared Row Label World → Prop}
    {script : Client Row Label ExtraReply ε α}
    {post : α → Shared Row Label World → Prop}
    (each : ∀ i, chronicle.protocol.Proves extra rules pid (Protocol.Unless pid (holds i)) script
      (Protocol.Returns post)) :
    chronicle.protocol.Proves extra rules pid (Protocol.Unless pid fun shared => ∃ i, holds i shared) script
    (Protocol.Returns post) := by
  rintro shared inv (closed | ⟨i, held⟩)
  · exact each (Classical.arbitrary ι) shared inv (.inl closed)
  · exact each i shared inv (.inr held)

theorem ret {value : α} (post : α → Shared Row Label World → Prop)
    (stable : Stable chronicle.protocol.Rely chronicle.protocol.Inv pid (post value)) :
    chronicle.protocol.Proves extra rules pid (post value) (.ret value : Client Row Label ExtraReply ε α)
    (Protocol.Returns post) :=
  Triple.ret (chronicle.protocol.discipline extra rules) (Protocol.Returns post) stable

end Control

variable [ClientError ε]

theorem select (persists : Persists known) (p : Row → Bool) :
    chronicle.protocol.Proves extra rules pid (Here chronicle pid stage known)
      (sql (.select p) : Client Row Label ExtraReply ε (List Row))
      (Protocol.Returns fun rows => Here chronicle pid stage fun log => known log ∧
        Once (fun past => Past stage known past ∧
        rows.Pairwise NoClash ∧ ∀ row, row ∈ rows ↔ p row = true ∧ stage.contents.Sees
        (rowsAfter chronicle.first past) row) log) := by
  refine Protocol.sql (At.lasting persists) (fun _ _ at_ same => at_.snapshot same)
    (fun rows => At.lasting (persists.and (once_persists _))) ?_
  intro started shared rows tx first inv before at_ snapshot grown run
  obtain ⟨rfl, rfl⟩ := execute_select run
  have here := at_.after (.refl _) at_.contents
  refine { here with known := ⟨at_.known, started.server.log, grown, before.past, ?_, fun row => ?_⟩ }
  · rw [snapshot.1]
    exact ((first.1.fits pid).view_apart first.1).filter _
  · rw [List.mem_filter, before.reads first.2 snapshot]
    exact and_comm

omit [Tabled Row] in
theorem reads (p : Row → Bool) :
    chronicle.protocol.Proves extra rules pid (fun _ => True)
    (sql (.select p) : Client Row Label ExtraReply ε (List Row))
      (Protocol.Returns fun _ _ => True) := by
  have step : chronicle.protocol.Proves extra rules pid (Protocol.Unless pid fun _ => True)
      (sql (.select p) : Client Row Label ExtraReply ε (List Row)) (Protocol.Returns
          fun _ => Protocol.Unless pid fun _ => True) :=
    Protocol.sql (fun _ _ _ _ _ _ _ _ => trivial) (fun _ _ _ _ => trivial) (fun _ _ _ _ _ _ _ _ _ => trivial)
      fun _ _ _ _ _ _ _ _ _ _ _ => trivial
  refine step.conseq (fun _ _ _ => .inr trivial) fun result _ _ _ => ?_
  cases result <;> trivial

-- Rows of a table locked `FOR UPDATE`, none of them new: they stay.
theorem lockRows (persists : Persists known) (p : Row → Bool) :
    chronicle.protocol.Proves extra rules pid (Here chronicle pid stage known)
      (sql (.lockRows p) : Client Row Label ExtraReply ε (List Row))
      (Protocol.Returns fun rows => Protocol.Unless pid fun shared => ∃ check : Checkpoint Row Label,
        At chronicle.first pid { stage with checks := check :: stage.checks } (fun log => known log ∧
          Past stage known check.log ∧ (∀ row ∈ rows, check.tx.Strong (primary row)) ∧ rows.Pairwise NoClash ∧
            ∃ start, Past stage known start ∧ start <+: check.log ∧ ∀ row, row ∈ rows ↔
            stage.contents.Hits p (rowsAfter chronicle.first start)
            (rowsAfter chronicle.first check.log) row) shared) := by
  refine Protocol.sql (At.lasting persists) (fun _ _ at_ same => at_.snapshot same) (fun rows => ?_) ?_
  · rintro shared next inv later ⟨check, at_⟩ same alongside grown
    exact ⟨check, At.lasting (persists.and (persists_const _)) shared next inv later at_ same alongside grown⟩
  · intro started shared rows tx first inv before at_ snapshot grown run
    obtain ⟨rfl, locked⟩ := execute_lockRows inv.1 run
    have held := at_.contents.moved locked.added locked.removed
      fun table old member => (at_.contents.gone table old member).2
    have here := (at_.after (execute_continues run) held).check
    rw [Server.setTx_same] at here
    refine ⟨⟨shared.server.log, tx⟩,
      { here with known := ⟨at_.known, at_.past, execute_lockRows_strong run, ?_, started.server.log,
      before.past, grown, before.hits first.2 inv.2 at_ snapshot p⟩ }⟩
    exact ((inv.1.fits pid).view_apart inv.1).filter _

-- Free rows of a table locked with `SKIP LOCKED`, none of them new: they stay.
theorem lockSkip (persists : Persists known) (p : Row → Bool) (le : Row → Row → Bool) (limit : Nat)
    (within : ∀ row, p row = true → tableOf row = table) (none_ : (stage.contents table).new = []) :
    chronicle.protocol.Proves extra rules pid (Here chronicle pid stage known)
      (sql (.lockSkip p le limit) : Client Row Label ExtraReply ε (List Row))
      (Protocol.Returns fun rows => Protocol.Unless pid fun shared => ∃ check : Checkpoint Row Label,
        At chronicle.first pid { stage with checks := check :: stage.checks } (fun log => known log ∧
            Past stage known check.log ∧ ∀ row ∈ rows, check.tx.Locks (primary row) ∧ p row = true ∧
            row ∈ rowsAfter chronicle.first check.log) shared) := by
  refine Protocol.sql (At.lasting persists) (fun _ _ at_ same => at_.snapshot same) (fun rows => ?_) ?_
  · rintro shared next inv later ⟨check, at_⟩ same alongside grown
    exact ⟨check, At.lasting (persists.and (persists_const _)) shared next inv later at_ same alongside grown⟩
  · intro started shared rows tx first inv before at_ snapshot grown run
    obtain ⟨rfl, locked⟩ := execute_lockSkip inv.1 run
    have hits := before.hits first.2 inv.2 at_ snapshot p
    have held := at_.contents.moved locked.added locked.removed
      fun table old member => (at_.contents.gone table old member).2
    have here := (at_.after (execute_continues run) held).check
    rw [Server.setTx_same] at here
    refine ⟨⟨shared.server.log, tx⟩, { here with known := ⟨at_.known, at_.past, fun row member => ?_⟩ }⟩
    have found : row ∈ shared.server.hits pid p := by
      have sorted := List.mem_of_mem_take member
      rw [List.mem_insertionSort] at sorted
      exact (List.mem_filter.mp sorted).1
    refine ⟨(locked.locks _).mpr (.inr ⟨row, member, rfl⟩), ((hits row).mp found).1,
      (((hits row).mp found).here within none_).2⟩

theorem shareKey (persists : Persists known) (p : Row → Bool) :
    chronicle.protocol.Proves extra rules pid (Here chronicle pid stage known)
      (sql (.shareKey p) : Client Row Label ExtraReply ε (List Row))
      (Protocol.Returns fun rows => Protocol.Unless pid fun shared => ∃ check : Checkpoint Row Label,
        At chronicle.first pid { stage with checks := check :: stage.checks } (fun log => known log ∧
          Past stage known check.log ∧ (∀ row ∈ rows, primary row ∈ check.tx.shares) ∧
          ∀ row, row ∈ rows ↔ p row = true ∧ stage.contents.Sees
          (rowsAfter chronicle.first check.log) row) shared) := by
  refine Protocol.sql (At.lasting persists) (fun _ _ at_ same => at_.snapshot same) (fun rows => ?_) ?_
  · rintro shared next inv later ⟨check, at_⟩ same alongside grown
    exact ⟨check, At.lasting (persists.and (persists_const _)) shared next inv later at_ same alongside grown⟩
  · intro started shared rows tx first inv before at_ snapshot grown run
    obtain ⟨rfl, same⟩ := execute_shareKey run
    have held := at_.contents.moved (by rw [same] : tx.added = _) (by rw [same] : tx.removed = _)
      fun table old member => (at_.contents.gone table old member).2
    have here := (at_.after (execute_continues run) held).check
    rw [Server.setTx_same] at here
    refine ⟨⟨shared.server.log, tx⟩,
      { here with known := ⟨at_.known, at_.past, fun row member => ?_, fun row => ?_⟩ }⟩
    · rw [same]
      exact List.mem_append_right _ (List.mem_map_of_mem member)
    · rw [List.mem_filter, at_.contents.view, inv.2.server]
      exact and_comm

theorem delete (persists : Persists known) (p : Row → Bool)
    (within : ∀ row, p row = true → tableOf row = table)
    (none_ : (stage.contents table).new = []) :
    chronicle.protocol.Proves extra rules pid (Here chronicle pid stage known)
      (sql (.delete p) : Client Row Label ExtraReply ε (List Row))
      (Protocol.Returns fun rows => Here chronicle pid
        { stage with contents := stage.contents.set table ⟨(stage.contents table).gone ++ rows, []⟩ }
        fun log => known log ∧
          Once (fun now => Past stage known now ∧
            Once (fun start => Past stage known start ∧ ∀ row, row ∈ rows ↔
            stage.contents.Hits p (rowsAfter chronicle.first start)
            (rowsAfter chronicle.first now) row) now) log) := by
  refine Protocol.sql (At.lasting persists) (fun _ _ at_ same => at_.snapshot same)
    (fun rows => At.lasting (persists.and (once_persists _))) ?_
  intro started shared rows tx first inv before at_ snapshot grown run
  obtain ⟨rfl, change⟩ := execute_delete inv.1 run
  have hits := before.hits first.2 inv.2 at_ snapshot p
  have held :=
    at_.contents.replaces none_ (fun old member => inv.2.server ▸ ((hits old).mp member).here within none_)
    (fun row absurd_ => by cases absurd_) change
  exact { at_.after (execute_continues run) held with
    known := ⟨at_.known, shared.server.log, List.prefix_rfl, at_.past, started.server.log,
      grown, before.past, hits⟩ }

-- An update of rows of a table the transaction has not changed before, with what is `seen` of the rows
-- it matches: this holds even if the server then closes the transaction.
theorem updateSeen (persists : Persists known) (p : Row → Bool) (f : Row → Row)
    (within : ∀ row, p row = true → tableOf row = table)
    (keyed : ∀ row, primary (f row) = primary row) (none_ : stage.contents table = ⟨[], []⟩)
    (seen : List Row → List (Commit Row Label) → Prop) (lasts : ∀ hits, Persists (seen hits))
    (permits : ∀ shared hits, chronicle.protocol.Inv shared → At chronicle.first pid stage known shared →
      rules.act pid (.exec (.update p f)) shared → (∀ old ∈ hits, old ∈ shared.server.rows ∧ p old = true) →
      seen hits shared.server.log) :
    chronicle.protocol.Proves extra rules pid (Here chronicle pid stage known)
      (sql (.update p f) : Client Row Label ExtraReply ε (List Row))
      (Protocol.Returns fun rows shared => Protocol.Unless pid
        (fun shared => ∃ found : Checkpoint Row Label × List Row,
        At chronicle.first pid { stage with
            checks := found.1 :: stage.checks, contents := stage.contents.set table ⟨found.2, found.2.map f⟩ }
          (fun log => known log ∧ rows = found.2.map f ∧ seen found.2 log ∧ Past stage known found.1.log ∧
            (∀ old ∈ found.2, found.1.tx.Locks (primary old)) ∧ found.2.Pairwise NoClash ∧
              ∃ start, Past stage known start ∧ start <+: found.1.log ∧ ∀ row, row ∈ found.2 ↔
              stage.contents.Hits p (rowsAfter chronicle.first start)
                (rowsAfter chronicle.first found.1.log) row) shared) shared ∧
        ∃ hits : List Row, rows = hits.map f ∧ seen hits shared.server.log) := by
  refine Protocol.sqlKnown (At.lasting persists) (fun _ _ at_ same => at_.snapshot same)
    (fun rows => ?_) (fun rows => ?_) ?_
  · rintro shared next inv later ⟨found, at_⟩ same alongside grown
    exact ⟨found, At.lasting (persists.and ((persists_const _).and ((lasts _).and (persists_const _))))
      shared next inv later at_
      same alongside grown⟩
  · refine .exists_ fun hits => .and (.const _) ?_
    exact Chronicle.stable (lasts hits) pid
  · intro started shared rows tx first inv before at_ snapshot grown permitted run
    obtain ⟨rfl, change⟩ := execute_update inv.1 keyed run
    have hits := before.hits first.2 inv.2 at_ snapshot p
    have here_ : ∀ old ∈ shared.server.hits pid p, tableOf old = table ∧
        old ∈ shared.server.rows := fun old member =>
      inv.2.server ▸ ((hits old).mp member).here within (by rw [none_])
    have held := at_.contents.replaces (by rw [none_]) here_ (fun row member => by
        obtain ⟨old, hit, rfl⟩ := List.mem_map.mp member
        exact ⟨old, hit, keyed old⟩) change
    rw [none_, List.nil_append] at held
    have here := (at_.after (execute_continues run) held).check
    rw [Server.setTx_same] at here
    have sees := permits shared (shared.server.hits pid p) inv at_ permitted fun old member =>
      ⟨(here_ old member).2, ((hits old).mp member).1⟩
    refine ⟨⟨(⟨shared.server.log, tx⟩, shared.server.hits pid p),
      { here with known := ⟨at_.known, rfl, sees, at_.past,
      fun old member => ?_, ?_, started.server.log, before.past, grown, hits⟩ }⟩,
        shared.server.hits pid p, rfl, sees⟩
    · exact (change.locks _).mpr (.inr ⟨old, member, rfl⟩)
    · exact ((inv.1.fits pid).view_apart inv.1).filter _

theorem update (persists : Persists known) (p : Row → Bool) (f : Row → Row)
    (within : ∀ row, p row = true → tableOf row = table)
    (keyed : ∀ row, primary (f row) = primary row) (none_ : stage.contents table = ⟨[], []⟩) :
    chronicle.protocol.Proves extra rules pid (Here chronicle pid stage known)
      (sql (.update p f) : Client Row Label ExtraReply ε (List Row))
      (Protocol.Returns fun rows => Protocol.Unless pid
        fun shared => ∃ found : Checkpoint Row Label × List Row,
        At chronicle.first pid { stage with
            checks := found.1 :: stage.checks, contents := stage.contents.set table ⟨found.2, found.2.map f⟩ }
          (fun log => known log ∧ rows = found.2.map f ∧ True ∧ Past stage known found.1.log ∧
            (∀ old ∈ found.2, found.1.tx.Locks (primary old)) ∧ found.2.Pairwise NoClash ∧
              ∃ start, Past stage known start ∧ start <+: found.1.log ∧ ∀ row, row ∈ found.2 ↔
              stage.contents.Hits p (rowsAfter chronicle.first start)
                  (rowsAfter chronicle.first found.1.log) row) shared) := by
  refine (updateSeen persists p f within keyed none_ (fun _ _ => True) (fun _ => persists_const True)
    fun _ _ _ _ _ _ => trivial).weaken fun result shared _ held => ?_
  cases result with
  | ok rows => exact held.1
  | error error => trivial

theorem insert (persists : Persists known) (new : List Row) (ignore : Bool)
    (within : ∀ row ∈ new, tableOf row = table) :
    chronicle.protocol.Proves extra rules pid (Here chronicle pid stage known)
      (sql (.insert new ignore) : Client Row Label ExtraReply ε (List Row))
      (Protocol.Returns fun rows => Here chronicle pid
        { stage with
          contents := stage.contents.set table ⟨(stage.contents table).gone, (stage.contents table).new ++ rows⟩ }
        fun log => known log ∧ rows.Sublist new ∧ (ignore = false → rows = new)) := by
  refine Protocol.sql (At.lasting persists) (fun _ _ at_ same => at_.snapshot same)
    (fun rows => At.lasting (persists.and (persists_const _))) ?_
  intro started shared rows tx _ inv _ at_ _ _ run
  obtain ⟨change, sub, all⟩ := execute_insert run
  have held := at_.contents.inserts within sub change
  exact { at_.after (execute_continues run) held with known := ⟨at_.known, sub, all⟩ }

omit [ClientError ε] in
theorem ask (persists : Persists known) (request : Extra) (fact : ExtraReply request → Prop)
    (effect : ∀ shared choice reply world, chronicle.Outside shared.server.log shared.world →
      extra pid request choice shared = some (reply, world) →
      chronicle.Outside shared.server.log world ∧ fact reply) :
    chronicle.protocol.Proves extra rules pid (Here chronicle pid stage known)
      (Postgres.ask request : Client Row Label ExtraReply ε (ExtraReply request))
      (Protocol.Returns fun reply => Here chronicle pid stage fun log => known log ∧ fact reply) := by
  refine Protocol.ask (here_stable persists) ?_ fun reply => here_stable (persists.and (persists_const _))
  intro shared choice reply world inv held _ answered
  obtain ⟨outside, holds⟩ := effect shared choice reply world inv.2.outside answered
  refine ⟨⟨inv.2.journal, inv.2.rows, outside⟩, fun other _ => List.prefix_rfl, held.imp id fun at_ => ?_⟩
  exact ⟨at_.label, at_.begun, at_.opened, at_.checks, at_.contents, at_.known, holds⟩

omit [ClientError ε] in
theorem At.begin {label : Label} {shared : Shared Row Label World} (held : known shared.server.log) :
    At chronicle.first pid ⟨label, shared.server.log, [], .empty⟩ known
    { shared with server := shared.server.begin pid label } := by
  refine ⟨?_, ?_, List.prefix_rfl, (fun check absurd_ => by cases absurd_), ?_, held⟩
  · simp [Server.begin]
  · simp [Server.begin]
  · exact Contents.in_empty _ (by simp [Server.begin, Tx.idle]) (by simp [Server.begin, Tx.idle])

section Whole
variable {label : Label} {body : Client Row Label ExtraReply ε α} (persists : Persists known)
  (last : α → Shared Row Label World → Prop) (done : α → List (Commit Row Label) → Prop)
  (runs : ∀ opened, chronicle.protocol.Proves extra rules pid
    (Here chronicle pid ⟨label, opened, [], .empty⟩ known) body
    (Protocol.Returns fun value => Protocol.Unless pid (last value)))
  (lasting : ∀ value, chronicle.protocol.Lasting pid (last value))
  (commits : ∀ value shared, chronicle.protocol.Inv shared → last value shared →
    let commit : Commit Row Label := ⟨pid, shared.server.rows, shared.server.txs pid⟩
    chronicle.Effect shared.server.log commit ∧ done value (shared.server.log ++ [commit]))
  (after : ∀ value, Persists (done value))
include persists runs lasting commits after

theorem transaction :
    PublicProtocol.Step chronicle.public_ extra rules pid (fun state => known state.log)
      (Postgres.transaction label body) fun value state => done value state.log := by
  refine Protocol.transaction
    (fun shared => ∃ opened, At chronicle.first pid ⟨label, opened, [], .empty⟩ known shared) last
      (Chronicle.stable persists pid)
    (fun shared inv _ held _ => ⟨inv.2, fun other _ => List.prefix_rfl, shared.server.log,
      .begin held⟩) (choose runs)
    lasting (fun value shared inv _ held _ => ?_) fun value => Chronicle.stable (after value) pid
  obtain ⟨effect, ends⟩ := commits value shared inv held
  obtain ⟨kept, grown⟩ := Chronicle.commits inv effect
  exact ⟨kept, fun _ _ => grown, ends⟩

end Whole

section Whole
variable {label : Label} {body : Client Row Label ExtraReply ε α} (persists : Persists known)
  (last : α → Shared Row Label World → Prop) (done told : α → List (Commit Row Label) → Prop)
  (runs : ∀ opened, chronicle.protocol.Proves extra rules pid
    (Here chronicle pid ⟨label, opened, [], .empty⟩ known) body
    (Protocol.Returns fun value shared => Protocol.Unless pid (last value) shared ∧
      told value shared.server.log))
  (lasting : ∀ value, chronicle.protocol.Lasting pid (last value))
  (commits : ∀ value shared, chronicle.protocol.Inv shared → last value shared →
    let commit : Commit Row Label := ⟨pid, shared.server.rows, shared.server.txs pid⟩
    chronicle.Effect shared.server.log commit ∧ done value (shared.server.log ++ [commit]))
  (after : ∀ value, Persists (done value)) (tells : ∀ value, Persists (told value))
include persists runs lasting commits after tells

omit [ClientError ε] in
-- The same for one whose value is looked at even when its commit is refused.
theorem inTx :
    PublicProtocol.Step chronicle.public_ extra rules pid (fun state => known state.log)
      (Postgres.inTx label body) fun given state => (given.2 = none → done given.1 state.log) ∧
      told given.1 state.log := by
  refine Protocol.inTx
    (fun shared => ∃ opened, At chronicle.first pid ⟨label, opened, [], .empty⟩ known shared) last
      (Chronicle.stable persists pid)
    (fun shared inv _ held _ => ⟨inv.2, fun other _ => List.prefix_rfl, shared.server.log,
      .begin held⟩) (choose runs)
    lasting (fun value shared inv _ held learnt _ => ?_) (fun value => Chronicle.stable (after value) pid)
    fun value => Chronicle.stable (tells value) pid
  obtain ⟨effect, ends⟩ := commits value shared inv held
  obtain ⟨kept, grown⟩ := Chronicle.commits inv effect
  exact ⟨kept, fun _ _ => grown, ends, tells value _ _ grown learnt⟩

end Whole

end Stage

end OpenEmarsys.Postgres
