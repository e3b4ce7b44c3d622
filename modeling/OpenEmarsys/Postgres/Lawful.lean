import OpenEmarsys.Postgres.Evolving
import OpenEmarsys.Interleaving.Superposition

/-! Laws about rows that other rows stand for, in every run.

A law says of a row what has to be there beside it, and goes on holding while rows become
later versions. What a transaction has read is known of the rows from then on, also beyond
its commit, so a script may rely on it for what it inserts, updates and tells others.
-/

set_option autoImplicit false

namespace OpenEmarsys.Postgres

open Interleaving

/-- What holds of a row among the rows of the database, and holds on while they evolve. -/
structure Law (Row : Type) [Indexed Row] extends Evolution Row where
  Holds : List Row → Row → Prop
  forward : ∀ {rows next row}, Forward toEvolution rows next → Holds rows row → Holds next row

variable {Row Label Extra World Choice Call : Type} [Indexed Row] {ExtraReply : Extra → Type} {ε α β : Type}
  {extra : Tid → (call : Extra) → Choice → Shared Row Label World → Option (ExtraReply call × World)}
  {law : Law Row} {emits : Extra → Option Row} {Shows : World → Row → Prop}

namespace Law

/-- What is known of a row once it was read: it is there in a later version, and lawful. -/
structure Known (law : Law Row) (rows : List Row) (row : Row) : Prop where
  there : law.Stays row → ∃ now ∈ rows, law.Stays now ∧ law.Before row now
  lawful : law.Holds rows row

def Knows (law : Law Row) (rows known : List Row) : Prop := ∀ row ∈ known, law.Known rows row

def Ruled (law : Law Row) (rows : List Row) : Prop := ∀ row ∈ rows, law.Holds rows row

theorem Knows.forward {rows next known : List Row} (knows : law.Knows rows known)
    (forward : Forward law.toEvolution rows next) :
    law.Knows next known := by
  intro row member
  obtain ⟨there, lawful⟩ := knows row member
  refine ⟨fun stays => ?_, law.forward forward lawful⟩
  obtain ⟨middle, present, remains, before⟩ := there stays
  obtain ⟨now, found, kept, later⟩ := forward middle present remains
  exact ⟨now, found, kept, law.trans before later⟩

theorem Ruled.known {rows : List Row} (ruled : law.Ruled rows) {row : Row}
    (member : row ∈ rows) : law.Known rows row :=
  ⟨fun stays => ⟨row, member, stays, law.refl row⟩, ruled row member⟩

theorem Knows.nil {rows : List Row} : law.Knows rows [] := fun _ absurd_ => by cases absurd_

theorem Knows.append {rows first second : List Row} (left : law.Knows rows first)
    (right : law.Knows rows second) :
    law.Knows rows (first ++ second) := by
  intro row member
  rcases List.mem_append.mp member with here | there
  · exact left row here
  · exact right row there

theorem Knows.before {rows known : List Row} (knows : law.Knows rows known) (apart : rows.Pairwise NoClash)
    {row old : Row}
    (member : row ∈ rows) (read : old ∈ known) (stays : law.Stays old) (same : primary old = primary row) :
    law.Before old row := by
  obtain ⟨now, present, -, before⟩ := (knows old read).there stays
  have equal := eq_of_primary apart present member ((law.keyed before).symm.trans same)
  exact equal ▸ before

end Law

def Apart (rows : List Row) : Prop := rows.Pairwise fun row other => primary row ≠ primary other

/-- Where a script is: outside of transactions, or in one that has changed something or not, a statement
having been started there or not; and in one, which rows it has locked and not changed since. -/
inductive Phase (Row : Type) where
  | outside
  | reading (held : List Row)
  | writing (held : List Row)
  | started (writes : Bool) (held : List Row)

namespace Phase

def held : Phase Row → List Row
  | .outside => []
  | .reading held | .writing held | .started _ held => held

def start : Phase Row → Phase Row
  | .outside => .outside
  | .reading held => .started false held
  | .writing held => .started true held
  | .started writes held => .started writes held

def ended : Phase Row → Phase Row
  | .started false held => .reading held
  | .started true held => .writing held
  | phase => phase

def holding (held : List Row) : Phase Row → Phase Row
  | .outside => .outside
  | .reading _ => .reading held
  | .writing _ => .writing held
  | .started writes _ => .started writes held

def Ready : Phase Row → Prop
  | .reading _ | .writing _ => False
  | _ => True

def Clean : Phase Row → Prop
  | .outside | .reading _ => True
  | _ => False

omit [Indexed Row] in
theorem ready_start (phase : Phase Row) : phase.start.Ready := by
  cases phase <;> trivial

omit [Indexed Row] in
@[simp] theorem ended_start (phase : Phase Row) : phase.start.ended = phase.ended := by
  cases phase <;> rfl

omit [Indexed Row] in
@[simp] theorem held_start (phase : Phase Row) : phase.start.held = phase.held := by
  cases phase <;> rfl

omit [Indexed Row] in
@[simp] theorem held_ended (phase : Phase Row) : phase.ended.held = phase.held := by
  rcases phase with _ | _ | _ | ⟨_ | _, _⟩ <;> rfl

end Phase

namespace Statement

/-- What a statement may reply when these rows are known, and these held. -/
def Replies (law : Law Row) (known held : List Row) : Statement Row → List Row → Prop
  | .select p, rows | .lockSkip p _ _, rows | .shareKey p, rows | .delete p,
    rows => ∀ row ∈ rows, p row = true
  | .lockRows p, rows => (∀ row ∈ rows, p row = true) ∧ Apart rows
  -- a known row that the condition cannot miss is among those updated, and so is one that is held
  | .update p f, rows => (∀ row ∈ rows, ∃ old, p old = true ∧ row = f old) ∧
      (∀ old ∈ known, law.Stays old → (∀ later, law.Before old later → p later = true) →
        ∃ later, law.Before old later ∧ f later ∈ rows) ∧
      ∀ old ∈ held, p old = true → f old ∈ rows
  | .insert new ignore, rows => rows.Sublist new ∧ (ignore = false → rows = new) ∧ Apart rows ∧
      ∀ row ∈ rows, ∀ old ∈ known, law.Stays old → primary old ≠ primary row

def writes : Statement Row → Bool
  | .delete _ | .update .. | .insert .. => true
  | _ => false

/-- The rows that are held after a statement with this reply. -/
def holds (rows held : List Row) : Statement Row → List Row
  | .lockRows _ => rows ++ held
  | .update p _ | .delete p => held.filter fun row => !p row
  | _ => held

def next (statement : Statement Row) (rows : List Row) (phase : Phase Row) : Phase Row :=
  if statement.writes then .writing (statement.holds rows phase.held)
  else phase.ended.holding (statement.holds rows phase.held)

omit [Indexed Row] in
@[simp] theorem next_start (statement : Statement Row) (rows : List Row) (phase : Phase Row) :
    statement.next rows phase.start = statement.next rows phase := by
  simp [next]

end Statement

/-- A row is what has become of each of the known rows with its key. -/
def Succeeds (law : Law Row) (known : List Row) (row : Row) : Prop :=
  ∀ old ∈ known, law.Stays old → primary old = primary row → law.Before old row

/-- The statement, made when these rows are known, takes rows forward and keeps the law. -/
def Statement.Obeys (law : Law Row) (known : List Row) : Statement Row → Prop
  | .update p f => (∀ row, primary (f row) = primary row) ∧ ∀ row, Succeeds law known row → p row = true →
        (law.Stays row → law.Stays (f row) ∧ law.Before row (f row)) ∧
        ∀ rows, law.Knows rows known → law.Holds rows row → law.Holds rows (f row)
  | .delete p => ∀ row, p row = true → ¬ law.Stays row
  | .insert new _ => ∀ rows, law.Knows rows known → ∀ row ∈ new, law.Holds rows row
  | _ => True

/-- From a phase and known rows on, the statements obey the law, and what is told to others has been read
from committed rows. -/
def Abides (law : Law Row) (emits : Extra → Option Row) (post : Except ε α → Phase Row → List Row → Prop) :
    Phase Row → List Row → Client Row Label ExtraReply ε α → Prop
  | phase, known, .ret value => post (.ok value) phase known
  | phase, known, .fail error => post (.error error) phase known
  | phase, known, .call (.begin _) rest => phase = .outside ∧
    Abides law emits post (.reading []) known (rest ())
  | phase, known, .call .start rest => Abides law emits post phase.start known (rest ())
  | phase, known, .call (.exec statement) rest => phase.Ready ∧ statement.Obeys law known ∧
      (∀ rows, statement.Replies law known phase.held rows →
        Abides law emits post (statement.next rows phase) (rows ++ known) (rest (.ok rows))) ∧
        ∀ error, Abides law emits post phase.ended [] (rest (.error error))
  | _, known, .call .commit rest => Abides law emits post .outside known (rest (.ok ())) ∧
      ∀ error, Abides law emits post .outside [] (rest (.error error))
  | _, _, .call .rollback rest => Abides law emits post .outside [] (rest ())
  | phase, known, .call (.other request) rest => (∀ row, emits request = some row →
    phase.Clean ∧ row ∈ known) ∧
      ∀ reply, Abides law emits post phase known (rest reply)

section Rules
variable {post : Except ε α → Phase Row → List Row → Prop} {phase : Phase Row} {known : List Row}

theorem Abides.mono {weaker : Except ε α → Phase Row → List Row → Prop}
    {script : Client Row Label ExtraReply ε α}
    (abides : Abides law emits post phase known script)
    (imp : ∀ result phase known, post result phase known → weaker result phase known) :
    Abides law emits weaker phase known script := by
  induction script generalizing phase known with
  | ret value => exact imp _ _ _ abides
  | fail error => exact imp _ _ _ abides
  | call action rest ih =>
    cases action with
    | begin label => exact ⟨abides.1, ih _ abides.2⟩
    | start => exact ih _ abides
    | exec statement =>
      exact ⟨abides.1, abides.2.1, fun rows replies => ih _ (abides.2.2.1 rows replies),
        fun error => ih _ (abides.2.2.2 error)⟩
    | commit => exact ⟨ih _ abides.1, fun error => ih _ (abides.2 error)⟩
    | rollback => exact ih _ abides
    | other request => exact ⟨abides.1, fun reply => ih _ (abides.2 reply)⟩

/-- What a script has to end with for the rest to go on. -/
def Then (law : Law Row) (emits : Extra → Option Row) (post : Except ε α → Phase Row → List Row → Prop)
    (next : β → Client Row Label ExtraReply ε α) : Except ε β → Phase Row → List Row → Prop
  | .ok value, phase, known => Abides law emits post phase known (next value)
  | .error error, phase, known => post (.error error) phase known

theorem Abides.bind {script : Client Row Label ExtraReply ε β} {next : β → Client Row Label ExtraReply ε α}
    (abides : Abides law emits (Then law emits post next) phase known script) :
    Abides law emits post phase known (script >>= next) := by
  induction script generalizing phase known with
  | ret value => exact abides
  | fail error => exact abides
  | call action rest ih =>
    cases action with
    | begin label => exact ⟨abides.1, ih _ abides.2⟩
    | start => exact ih () abides
    | exec statement =>
      exact ⟨abides.1, abides.2.1, fun rows replies => ih _ (abides.2.2.1 rows replies),
        fun error => ih _ (abides.2.2.2 error)⟩
    | commit => exact ⟨ih _ abides.1, fun error => ih _ (abides.2 error)⟩
    | rollback => exact ih () abides
    | other request => exact ⟨abides.1, fun reply => ih reply (abides.2 reply)⟩

/-- What a script has to end with for a handler to take over. -/
def Else (law : Law Row) (emits : Extra → Option Row) (post : Except ε α → Phase Row → List Row → Prop)
    (handler : ε → Client Row Label ExtraReply ε α) : Except ε α → Phase Row → List Row → Prop
  | .ok value, phase, known => post (.ok value) phase known
  | .error error, phase, known => Abides law emits post phase known (handler error)

theorem Abides.handle {script : Client Row Label ExtraReply ε α}
    {handler : ε → Client Row Label ExtraReply ε α}
    (abides : Abides law emits (Else law emits post handler) phase known script) :
    Abides law emits post phase known (script.handle handler) := by
  induction script generalizing phase known with
  | ret value => exact abides
  | fail error => exact abides
  | call action rest ih =>
    cases action with
    | begin label => exact ⟨abides.1, ih () abides.2⟩
    | start => exact ih () abides
    | exec statement =>
      exact ⟨abides.1, abides.2.1, fun rows replies => ih _ (abides.2.2.1 rows replies),
        fun error => ih _ (abides.2.2.2 error)⟩
    | commit => exact ⟨ih _ abides.1, fun error => ih _ (abides.2 error)⟩
    | rollback => exact ih () abides
    | other request => exact ⟨abides.1, fun reply => ih reply (abides.2 reply)⟩

theorem Abides.sql [ClientError ε] {statement : Statement Row}
    {post : Except ε (List Row) → Phase Row → List Row → Prop}
    (obeys : statement.Obeys law known)
    (replies : ∀ rows, statement.Replies law known phase.held rows →
      post (.ok rows) (statement.next rows phase) (rows ++ known))
    (errors : ∀ error, post (.error (ClientError.sql error)) phase.ended []) :
    Abides law emits post phase known
    (Postgres.sql statement : Client Row Label ExtraReply ε (List Row)) := by
  refine ⟨phase.ready_start, obeys, fun rows told => ?_, fun error => ?_⟩
  · rw [Phase.held_start] at told
    rw [Statement.next_start]
    exact replies rows told
  · rw [Phase.ended_start]
    exact errors error

theorem Abides.ask {request : Extra} {post : Except ε (ExtraReply request) → Phase Row → List Row → Prop}
    (told : ∀ row, emits request = some row → phase.Clean ∧ row ∈ known)
    (replies : ∀ reply, post (.ok reply) phase known) :
    Abides law emits post phase known
    (Postgres.ask request : Client Row Label ExtraReply ε (ExtraReply request)) := ⟨told, replies⟩

/-- What the body of a transaction has to end with: what it knows then lasts beyond the commit. -/
def Commits (post : Except ε α → Phase Row → List Row → Prop) : Except ε α → Phase Row → List Row → Prop
  | .ok value, _, known => post (.ok value) .outside known
  | .error _, _, _ => True

theorem Abides.transaction [ClientError ε] {label : Label} {body : Client Row Label ExtraReply ε α}
    (abides : Abides law emits (Commits post) (.reading []) known body)
    (errors : ∀ error, post (.error error) .outside []) :
    Abides law emits post .outside known (Postgres.transaction label body) := by
  refine ⟨rfl, Abides.handle (Abides.bind (abides.mono fun result phase known done => ?_))⟩
  cases result with
  | ok value => exact ⟨done, fun error => errors _⟩
  | error error => exact errors error

end Rules

/-! ## Servers -/

/-- An evolving server whose rows are lawful for every transaction. -/
structure Lawful (law : Law Row) (server : Server Row Label) : Prop where
  evolving : Evolving law.toEvolution server
  committed : law.Ruled server.rows
  views : ∀ tid, law.Ruled ((server.txs tid).view server.rows)
  snapshots : ∀ tid, law.Knows ((server.txs tid).view server.rows) (server.txs tid).snapshot

/-- What is known of the committed rows, nothing having been changed. -/
def Reads (law : Law Row) (server : Server Row Label) (pid : Tid) (known : List Row) : Prop :=
  law.Knows server.rows known ∧
  ((server.txs pid).label.isSome = true → (server.txs pid).removed = [] ∧ (server.txs pid).added = [])

/-- What is known of the rows the transaction sees. -/
def Writes (law : Law Row) (server : Server Row Label) (pid : Tid) (known : List Row) : Prop :=
  (server.txs pid).label.isSome = true → law.Knows ((server.txs pid).view server.rows) known

/-- What is known of the rows a statement was started on. -/
def Sees (law : Law Row) (server : Server Row Label) (pid : Tid) (known : List Row) : Prop :=
  (server.txs pid).label.isSome = true → law.Knows (server.txs pid).snapshot known

/-- What a process in this phase knows. The server may have closed its transaction. -/
def Learnt (law : Law Row) (server : Server Row Label) (pid : Tid) : Phase Row → List Row → Prop
  | .outside, known => (server.txs pid).label = none ∧ law.Knows server.rows known
  | .reading _, known => Reads law server pid known
  | .writing _, known => Writes law server pid known
  | .started false _, known => Reads law server pid known ∧ Sees law server pid known
  | .started true _, known => Writes law server pid known ∧ Sees law server pid known

/-- The transaction sees the row, as it has locked it. -/
def Tx.Retains (tx : Tx Row Label) (rows : List Row) (row : Row) : Prop :=
  row ∈ tx.view rows ∧ tx.Locks (primary row)

/-- The rows a process holds are there, and a statement was started on them. -/
def Retained (server : Server Row Label) (pid : Tid) (phase : Phase Row) : Prop :=
  (server.txs pid).label.isSome = true → ∀ row ∈ phase.held,
    (server.txs pid).Retains server.rows row ∧ (phase.Ready → row ∈ (server.txs pid).snapshot)

/-- A process is in this phase, and knows this. -/
structure Matches (law : Law Row) (server : Server Row Label) (pid : Tid) (phase : Phase Row)
    (known : List Row) : Prop where
  learnt : Learnt law server pid phase known
  holds : Retained server pid phase

/-- What a process sees of what another one has done. -/
structure Aside (law : Law Row) (server next : Server Row Label) (pid : Tid) : Prop where
  own : next.txs pid = server.txs pid
  rows : Forward law.toEvolution server.rows next.rows
  view : Forward law.toEvolution ((server.txs pid).view server.rows) ((server.txs pid).view next.rows)
  keeps : ∀ row, (server.txs pid).Retains server.rows row → (server.txs pid).Retains next.rows row

section Server
variable {server next : Server Row Label} {pid : Tid} {phase : Phase Row} {known : List Row}

theorem Reads.aside (here : Reads law server pid known) (aside : Aside law server next pid) :
    Reads law next pid known :=
  ⟨here.1.forward aside.rows, aside.own.symm ▸ here.2⟩

theorem Writes.aside (here : Writes law server pid known) (aside : Aside law server next pid) :
    Writes law next pid known := by
  intro opened
  rw [aside.own] at opened ⊢
  exact (here opened).forward aside.view

theorem Sees.aside (here : Sees law server pid known) (aside : Aside law server next pid) :
    Sees law next pid known := by
  intro opened
  rw [aside.own] at opened ⊢
  exact here opened

theorem Learnt.aside (here : Learnt law server pid phase known) (aside : Aside law server next pid) :
    Learnt law next pid phase known := by
  cases phase with
  | outside => exact ⟨aside.own.symm ▸ here.1, here.2.forward aside.rows⟩
  | reading => exact Reads.aside here aside
  | writing => exact Writes.aside here aside
  | started writes =>
    cases writes with
    | false => exact ⟨here.1.aside aside, here.2.aside aside⟩
    | true => exact ⟨here.1.aside aside, here.2.aside aside⟩

theorem Matches.aside (here : Matches law server pid phase known) (aside : Aside law server next pid) :
    Matches law next pid phase known := by
  refine ⟨here.learnt.aside aside, fun opened row member => ?_⟩
  rw [aside.own] at opened ⊢
  obtain ⟨keeps, started⟩ := here.holds opened row member
  exact ⟨aside.keeps row keeps, started⟩

theorem Matches.ended (here : Matches law server pid phase known) :
    Matches law server pid phase.ended known := by
  refine ⟨?_, fun opened row member => ?_⟩
  · cases phase with
    | started writes =>
      cases writes with
      | false => exact here.learnt.1
      | true => exact here.learnt.1
    | _ => exact here.learnt
  · rw [Phase.held_ended] at member
    refine ⟨(here.holds opened row member).1, fun ready => ?_⟩
    cases phase with
    | outside => cases member
    | started writes => cases writes <;> exact absurd ready id
    | _ => exact absurd ready id

theorem Aside.quiet {other : Tid} (own : next.txs other = server.txs other) (rows : next.rows = server.rows) :
    Aside law server next other := by
  refine ⟨own, ?_, ?_, ?_⟩ <;> rw [rows]
  · exact Forward.refl _
  · exact Forward.refl _
  · exact fun row keeps => keeps

theorem Aside.update {tx : Tx Row Label} {other : Tid} (distinct : other ≠ pid) :
    Aside law server (server.setTx pid tx) other :=
  .quiet (Server.setTx_other tx distinct) rfl

theorem lawful_holding {rows : List Row} (apart : rows.Pairwise NoClash) (ruled : law.Ruled rows) :
    Lawful law (Server.holding rows : Server Row Label) := by
  have same : (Tx.idle : Tx Row Label).view rows = rows := Tx.view_untouched _ rows rfl rfl
  exact ⟨evolving_holding apart, ruled, fun _ => same.symm ▸ ruled, fun _ => Law.Knows.nil⟩

theorem Lawful.update (lawful : Lawful law server) {tx : Tx Row Label}
    (evolving : Evolving law.toEvolution (server.setTx pid tx))
    (ruled : law.Ruled (tx.view server.rows)) (snapshot : law.Knows (tx.view server.rows) tx.snapshot) :
    Lawful law (server.setTx pid tx) := by
  refine ⟨evolving, lawful.committed, fun tid => ?_, fun tid => ?_⟩ <;> by_cases same : tid = pid
  · subst same
    rwa [Server.setTx_same, Server.setTx_rows]
  · rw [Server.setTx_other tx same]
    exact lawful.views tid
  · subst same
    rwa [Server.setTx_same, Server.setTx_rows]
  · rw [Server.setTx_other tx same]
    exact lawful.snapshots tid

theorem Lawful.rollback (lawful : Lawful law server) (pid : Tid) : Lawful law (server.rollback pid) := by
  refine lawful.update (lawful.evolving.rollback pid) ?_ Law.Knows.nil
  rw [Tx.view_untouched _ _ rfl rfl]
  exact lawful.committed

theorem Lawful.begin (lawful : Lawful law server) (pid : Tid) (label : Label) :
    Lawful law (server.begin pid label) := by
  have begun := lawful.evolving.begin pid label
  have same : Tx.view { (Tx.idle : Tx Row Label) with label := some label, begun := server.log.length }
      server.rows = server.rows :=
    Tx.view_untouched _ _ rfl rfl
  refine ⟨begun, lawful.committed, fun tid => ?_, fun tid => ?_⟩ <;> simp only [Server.begin]
    <;> by_cases mine : tid = pid
  · subst mine
    rw [Function.update_self, same]
    exact lawful.committed
  · rw [Function.update_of_ne mine]
    exact lawful.views tid
  · subst mine
    rw [Function.update_self]
    exact Law.Knows.nil
  · rw [Function.update_of_ne mine]
    exact lawful.snapshots tid

theorem Lawful.start (lawful : Lawful law server) (opened : (server.txs pid).label.isSome = true) :
    Lawful law (server.start pid) :=
  lawful.update (lawful.evolving.start opened) (lawful.views pid)
    fun _ member => (lawful.views pid).known member

theorem Lawful.commit (lawful : Lawful law server) (pid : Tid) : Lawful law (server.commit pid) := by
  have committed := lawful.views pid
  refine ⟨lawful.evolving.commit pid, committed, fun tid => ?_, fun tid => ?_⟩ <;> simp only [Server.commit]
    <;> by_cases same : tid = pid
  · subst same
    rw [Function.update_self, Tx.view_untouched _ _ rfl rfl]
    exact committed
  · rw [Function.update_of_ne same]
    have stands := lawful.evolving.stands same
    intro row member
    rcases Tx.mem_view.mp member with ⟨here, -⟩ | added
    · exact law.forward (lawful.evolving.sees same) (committed row here)
    · exact law.forward stands (lawful.views tid row (Tx.mem_view.mpr (.inr added)))
  · subst same
    rw [Function.update_self]
    exact Law.Knows.nil
  · rw [Function.update_of_ne same]
    exact (lawful.snapshots tid).forward (lawful.evolving.stands same)

theorem Lawful.asideCommit (lawful : Lawful law server) {other : Tid} (distinct : other ≠ pid) :
    Aside law server (server.commit pid) other := by
  refine ⟨Function.update_of_ne distinct _ _, lawful.evolving.views pid,
    lawful.evolving.stands distinct, fun row keeps => ?_⟩
  obtain ⟨sees, locks⟩ := keeps
  have fits := lawful.evolving.sane.fits pid
  refine ⟨?_, locks⟩
  rcases Tx.mem_view.mp sees with ⟨here, unremoved⟩ | added
  · refine Tx.mem_view.mpr (.inl ⟨Tx.mem_view.mpr (.inl ⟨here, ?_⟩), unremoved⟩)
    -- who removes a row has locked it
    by_contra removed
    rw [Bool.not_eq_false, Tx.removes_iff] at removed
    exact fits.locks other distinct _ (fits.removed _ removed) locks
  · exact Tx.mem_view.mpr (.inr added)

theorem Statement.Obeys.advances {statement : Statement Row} {rows : List Row}
    (obeys : statement.Obeys law known)
    (knows : law.Knows rows known) (apart : rows.Pairwise NoClash) :
    statement.Advances law.toEvolution (· ∈ rows) := by
  cases statement with
  | update p f =>
    refine ⟨obeys.1, fun row member holds stays => ?_⟩
    exact (obeys.2 row (fun old read kept same => knows.before apart member read kept same) holds).1 stays
  | delete p => exact fun row _ holds => obeys row holds
  | _ => trivial

/-- What a statement has done to the view of its transaction, and what its reply tells. -/
structure Executed (law : Law Row) (rows known held : List Row) (statement : Statement Row)
    (tx after : Tx Row Label) (reply : List Row) : Prop where
  replies : statement.Replies law known held reply
  forward : Forward law.toEvolution (tx.view rows) (after.view rows)
  ruled : law.Ruled (after.view rows)
  knows : law.Knows (after.view rows) reply
  reads : statement.writes = false → after.removed = tx.removed ∧ after.added = tx.added
  snapshot : after.snapshot = tx.snapshot
  holds : ∀ row ∈ statement.holds reply held, after.Retains rows row

theorem Executed.read {rows held reply : List Row} {statement : Statement Row} {tx after : Tx Row Label}
    (removed : after.removed = tx.removed) (added : after.added = tx.added)
    (snapshot : after.snapshot = tx.snapshot)
    (replies : statement.Replies law known held reply) (ruled : law.Ruled (tx.view rows))
    (knows : law.Knows (tx.view rows) reply)
    (holds : ∀ row ∈ statement.holds reply held, row ∈ tx.view rows ∧ after.Locks (primary row)) :
    Executed law rows known held statement tx after reply := by
  have same : after.view rows = tx.view rows := by simp only [Tx.view, Tx.removes, removed, added]
  refine ⟨replies, same.symm ▸ Forward.refl _, same.symm ▸ ruled, same.symm ▸ knows,
    fun _ => ⟨removed, added⟩, snapshot,
    fun row member => ?_⟩
  rw [Tx.Retains, same]
  exact holds row member

theorem lock_all_snapshot (found : List Row) (tx : Tx Row Label) :
    (found.foldl (fun tx row => tx.lock true row) tx).snapshot = tx.snapshot := by
  induction found generalizing tx with
  | nil => rfl
  | cons head rest ih => exact ih (tx.lock true head)

theorem Executed.changed {rows held reply gone new : List Row} {statement : Statement Row}
    {tx after : Tx Row Label} (change : Change rows tx after gone new) (writes : statement.writes = true)
    (replies : statement.Replies law known held reply)
    (forward : Forward law.toEvolution (tx.view rows) (after.view rows)) (ruled : law.Ruled (tx.view rows))
    (lawful : ∀ row ∈ new, law.Holds (tx.view rows) row)
    (told : ∀ row ∈ reply, row ∈ new ∨ row ∈ tx.view rows ∧ ¬ law.Stays row)
    (holds : ∀ row ∈ statement.holds reply held, tx.Retains rows row ∧
      ∀ old ∈ gone, primary old ≠ primary row) :
    Executed law rows known held statement tx after reply := by
  have ruledAfter : law.Ruled (after.view rows) := by
    intro row member
    rcases (change.view row).mp member with ⟨here, -⟩ | there
    · exact law.forward forward (ruled row here)
    · exact law.forward forward (lawful row there)
  refine ⟨replies, forward, ruledAfter, fun row member => ?_, fun not => ?_,
    change.snapshot, fun row member => ?_⟩
  · rcases told row member with there | ⟨here, leaves⟩
    · exact ruledAfter.known ((change.view row).mpr (.inr there))
    · exact ⟨fun stays => absurd stays leaves, law.forward forward (ruled row here)⟩
  · rw [writes] at not
    cases not
  · obtain ⟨⟨sees, locks⟩, apart⟩ := holds row member
    exact ⟨(change.view row).mpr (.inl ⟨sees, apart⟩), (change.locks _).mpr (.inl locks)⟩

theorem hit_known {p : Row → Bool} (knows : law.Knows ((server.txs pid).view server.rows) known)
    (sees : law.Knows (server.txs pid).snapshot known) {old : Row} (read : old ∈ known)
    (stays : law.Stays old) (holds : ∀ later, law.Before old later → p later = true) :
    ∃ later ∈ server.hits pid p, law.Before old later := by
  obtain ⟨now, present, -, reached⟩ := (knows old read).there stays
  obtain ⟨first, started, -, before⟩ := (sees old read).there stays
  -- the row as the statement started and as it is now are versions of the known one
  have same : primary first = primary now := (law.keyed before).symm.trans (law.keyed reached)
  exact ⟨now, mem_hits.mpr ⟨present, holds now reached, first, started, holds first before, same⟩, reached⟩

theorem apart_of_noClash {rows : List Row} (clear : rows.Pairwise NoClash) : Apart rows := by
  apply clear.imp
  intro row other free same
  rw [NoClash, clash_of_sameRow (sameRow_iff.mpr same)] at free
  cases free

theorem inserts_apart (sane : Sane server) {ignore : Bool} {new inserted : List Row} {tx after : Tx Row Label}
    (run : server.inserts pid ignore new tx = some (.ok (inserted, after))) :
    inserted.Pairwise NoClash ∧ ∀ row ∈ inserted, ∀ seen ∈ tx.view server.rows, NoClash row seen := by
  induction new generalizing tx inserted with
  | nil =>
    simp only [Server.inserts, Option.some.injEq, Except.ok.injEq, Prod.mk.injEq] at run
    obtain ⟨rfl, rfl⟩ := run
    exact ⟨.nil, fun row member => by cases member⟩
  | cons row rest ih =>
    simp only [Server.inserts] at run
    split at run
    · cases run
    · split at run
      · exact ih run
      · simp at run
    · next free =>
      split at run
      · next found =>
        simp only [Option.some.injEq, Except.ok.injEq, Prod.mk.injEq] at run
        obtain ⟨rfl, rfl⟩ := run
        obtain ⟨apart, clear⟩ := ih found
        rw [Tx.add_view] at clear
        refine ⟨List.pairwise_cons.mpr ⟨fun other member => ?_, apart⟩, fun other member seen present => ?_⟩
        · exact (clear other member row (by simp)).symm
        · rcases List.mem_cons.mp member with rfl | later
          · exact (admission_free sane free).2 seen present
          · exact clear other later seen (by simp [present])
      · simp at run
      · cases run

/-- A server on which a statement is executed: what is known and held is so of what its transaction sees. -/
structure Prepared (law : Law Row) (server : Server Row Label) (pid : Tid) (known held : List Row) : Prop where
  lawful : Lawful law server
  knows : law.Knows ((server.txs pid).view server.rows) known
  sees : law.Knows (server.txs pid).snapshot known
  holds : ∀ row ∈ held, (server.txs pid).Retains server.rows row ∧ row ∈ (server.txs pid).snapshot

namespace Prepared

variable {held reply : List Row} {after : Tx Row Label}

theorem apart (ready : Prepared law server pid known held) :
    ((server.txs pid).view server.rows).Pairwise NoClash :=
  (ready.lawful.evolving.sane.fits pid).view_apart ready.lawful.evolving.sane

theorem visible {p : Row → Bool} {row : Row} (hit : row ∈ server.hits pid p) :
    row ∈ (server.txs pid).view server.rows ∧ p row = true :=
  ⟨(mem_hits.mp hit).1, (mem_hits.mp hit).2.1⟩

theorem retained (ready : Prepared law server pid known held)
    (locks : ∀ key, (server.txs pid).Locks key → after.Locks key) :
    ∀ row ∈ held, row ∈ (server.txs pid).view server.rows ∧ after.Locks (primary row) :=
  fun row member => ⟨(ready.holds row member).1.1, locks _ (ready.holds row member).1.2⟩

-- a row that is held and does not match is not replaced
theorem spared (ready : Prepared law server pid known held) (p : Row → Bool) :
    ∀ row ∈ held.filter (fun row => !p row),
      (server.txs pid).Retains server.rows row ∧ ∀ old ∈ server.hits pid p, primary old ≠ primary row := by
  intro row member
  obtain ⟨here, missed⟩ := List.mem_filter.mp member
  refine ⟨(ready.holds row here).1, fun old hit same => ?_⟩
  obtain ⟨seen, matched⟩ := visible hit
  have equal := eq_of_primary ready.apart seen (ready.holds row here).1.1 same
  simp [← equal, matched] at missed

theorem lockRows (ready : Prepared law server pid known held) {p : Row → Bool}
    (run : server.execute pid (.lockRows p) = some (.ok (reply, after))) :
    Executed law server.rows known held (.lockRows p) (server.txs pid) after reply := by
  have sane := ready.lawful.evolving.sane
  have ruled := ready.lawful.views pid
  obtain ⟨rfl, locked⟩ := execute_lockRows sane run
  have snapshot : after.snapshot = (server.txs pid).snapshot := by
    simp only [Server.execute] at run
    split at run <;> cases run
    exact lock_all_snapshot _ _
  refine .read locked.removed locked.added snapshot ⟨fun row member => (visible member).2,
    hits_distinct sane p⟩ ruled
    (fun row member => ruled.known (visible member).1) fun row member => ?_
  rcases List.mem_append.mp member with now | before
  · exact ⟨(visible now).1, (locked.locks _).mpr (.inr ⟨row, now, rfl⟩)⟩
  · exact ⟨(ready.holds row before).1.1, (locked.locks _).mpr (.inl (ready.holds row before).1.2)⟩

theorem lockSkip (ready : Prepared law server pid known held) {p : Row → Bool} {le : Row → Row → Bool}
    {limit : Nat} (run : server.execute pid (.lockSkip p le limit) = some (.ok (reply, after))) :
    Executed law server.rows known held (.lockSkip p le limit) (server.txs pid) after reply := by
  have ruled := ready.lawful.views pid
  obtain ⟨rfl, locked⟩ := execute_lockSkip ready.lawful.evolving.sane run
  have snapshot : after.snapshot = (server.txs pid).snapshot := by
    simp only [Server.execute, Option.some.injEq, Except.ok.injEq, Prod.mk.injEq] at run
    exact run.2 ▸ lock_all_snapshot _ _
  have taken : ∀ row ∈ (((server.hits pid p).filter fun row => !server.refuses pid row).insertionSort
      (fun a b => le a b = true)).take limit, row ∈ server.hits pid p := fun row member =>
    (List.mem_filter.mp ((List.mem_insertionSort _).mp (List.mem_of_mem_take member))).1
  exact .read locked.removed locked.added snapshot
    (fun row member => (visible (taken row member)).2) ruled
    (fun row member => ruled.known (visible (taken row member)).1)
    (ready.retained fun _ before => (locked.locks _).mpr (.inl before))

theorem update (ready : Prepared law server pid known held) {p : Row → Bool} {f : Row → Row}
    (obeys : (Statement.update p f).Obeys law known)
    (forward : Forward law.toEvolution ((server.txs pid).view server.rows) (after.view server.rows))
    (run : server.execute pid (.update p f) = some (.ok (reply, after))) :
    Executed law server.rows known held (.update p f) (server.txs pid) after reply := by
  obtain ⟨rfl, change⟩ := execute_update ready.lawful.evolving.sane obeys.1 run
  refine .changed change rfl ⟨fun row member => ?_, fun old read stays holds => ?_,
    fun old member matched => ?_⟩ forward (ready.lawful.views pid)
    (fun row member => ?_) (fun row member => .inl member) (ready.spared p)
  · obtain ⟨old, hit, rfl⟩ := List.mem_map.mp member
    exact ⟨old, (visible hit).2, rfl⟩
  · obtain ⟨later, hit, before⟩ := hit_known ready.knows ready.sees read stays holds
    exact ⟨later, before, List.mem_map_of_mem hit⟩
  · obtain ⟨⟨here, -⟩, started⟩ := ready.holds old member
    exact List.mem_map_of_mem (mem_hits.mpr ⟨here, matched, old, started, matched, rfl⟩)
  · obtain ⟨old, hit, rfl⟩ := List.mem_map.mp member
    have succeeds : Succeeds law known old :=
      fun earlier read kept same => ready.knows.before ready.apart (visible hit).1 read kept same
    exact (obeys.2 old succeeds (visible hit).2).2 _ ready.knows (ready.lawful.views pid old (visible hit).1)

theorem insert (ready : Prepared law server pid known held) {rows : List Row} {ignore : Bool}
    (obeys : (Statement.insert rows ignore).Obeys law known)
    (forward : Forward law.toEvolution ((server.txs pid).view server.rows) (after.view server.rows))
    (run : server.execute pid (.insert rows ignore) = some (.ok (reply, after))) :
    Executed law server.rows known held (.insert rows ignore) (server.txs pid) after reply := by
  obtain ⟨change, sub, all⟩ := execute_insert run
  obtain ⟨clear, fresh⟩ := inserts_apart ready.lawful.evolving.sane run
  refine .changed change rfl ⟨sub, all, apart_of_noClash clear,
    fun row member old read stays same => ?_⟩ forward (ready.lawful.views pid)
    (fun row member => obeys _ ready.knows row (sub.subset member)) (fun row member => .inl member)
    fun row member => ⟨(ready.holds row member).1, fun old gone => by cases gone⟩
  obtain ⟨now, present, -, before⟩ := (ready.knows old read).there stays
  have free := fresh row member now present
  rw [NoClash, clash_of_sameRow (sameRow_iff.mpr (same.symm.trans (law.keyed before)))] at free
  cases free

theorem execute (ready : Prepared law server pid known held) {statement : Statement Row}
    (obeys : statement.Obeys law known) (run : server.execute pid statement = some (.ok (reply, after))) :
    Executed law server.rows known held statement (server.txs pid) after reply := by
  have ruled := ready.lawful.views pid
  have forward := ready.lawful.evolving.forward (obeys.advances ready.knows ready.apart) run
  cases statement with
  | select p =>
    obtain ⟨rfl, rfl⟩ := execute_select run
    exact .read rfl rfl rfl (fun row member => (List.mem_filter.mp member).2) ruled
      (fun row member => ready.lawful.snapshots pid row (List.mem_filter.mp member).1)
      (ready.retained fun _ locks => locks)
  | lockRows p => exact ready.lockRows run
  | lockSkip p le limit => exact ready.lockSkip run
  | shareKey p =>
    obtain ⟨rfl, rfl⟩ := execute_shareKey run
    exact .read rfl rfl rfl (fun row member => (List.mem_filter.mp member).2) ruled
      (fun row member => ruled.known (List.mem_filter.mp member).1) (ready.retained fun _ locks => locks)
  | delete p =>
    obtain ⟨rfl, change⟩ := execute_delete ready.lawful.evolving.sane run
    exact .changed change rfl (fun row member => (visible member).2) forward ruled
      (fun row member => by cases member)
      (fun row member => .inr ⟨(visible member).1, obeys row (visible member).2⟩) (ready.spared p)
  | update p f => exact ready.update obeys forward run
  | insert rows ignore => exact ready.insert obeys forward run

end Prepared

end Server

/-! ## Runs -/

/-- What holds between two moves: the server is lawful, what others were told is too, and each script goes on
from what it knows, to an end as `post` says. -/
structure Abiding (law : Law Row) (emits : Extra → Option Row) (Shows : World → Row → Prop)
    (post : Call → Except ε α → Phase Row → List Row → Prop)
    (config : Interleaving.Config Call (Action Row Label Extra) (Answer ExtraReply) ε α
    (Shared Row Label World)) : Prop where
  lawful : Lawful law config.state.server
  shown : ∀ row, Shows config.state.world row → law.Holds config.state.server.rows row
  idle : ∀ pid, config.procs pid = .idle → (config.state.server.txs pid).label = none
  running : ∀ pid call script, config.procs pid = .running call script → ∃ phase known,
    Abides law emits (post call) phase known script ∧ Matches law config.state.server pid phase known

/-- What a call of a script leaves, for it and for the others. -/
structure Onwards (law : Law Row) (emits : Extra → Option Row) (Shows : World → Row → Prop)
    (post : Except ε α → Phase Row → List Row → Prop) (pid : Tid) (shared next : Shared Row Label World)
    (script : Client Row Label ExtraReply ε α) : Prop where
  lawful : Lawful law next.server
  shown : ∀ row, Shows next.world row → law.Holds next.server.rows row
  own : ∃ phase known, Abides law emits post phase known script ∧ Matches law next.server pid phase known
  others : ∀ other, other ≠ pid → Aside law shared.server next.server other

section Runs
variable {shared next : Shared Row Label World} {pid : Tid}

theorem Reads.knows {server : Server Row Label} {known : List Row} (lawful : Lawful law server)
    (here : Reads law server pid known) :
    law.Knows ((server.txs pid).view server.rows) known := here.1.forward (lawful.evolving.views pid)

-- What a process with an open transaction knows, it knows of what the transaction sees.
theorem Matches.knows {server : Server Row Label} {phase : Phase Row} {known : List Row}
    (lawful : Lawful law server)
    (here : Matches law server pid phase known) (opened : (server.txs pid).label.isSome = true) :
    law.Knows ((server.txs pid).view server.rows) known := by
  have learnt := here.learnt
  cases phase with
  | outside => simp [learnt.1] at opened
  | reading => exact Reads.knows lawful learnt
  | writing => exact learnt opened
  | started writes =>
    cases writes with
    | false => exact learnt.1.knows lawful
    | true => exact learnt.1 opened

theorem Matches.start {server : Server Row Label} {phase : Phase Row} {known : List Row}
    (lawful : Lawful law server)
    (here : Matches law server pid phase known) (opened : (server.txs pid).label.isSome = true) :
    Matches law (server.start pid) pid phase.start known := by
  have knows := here.knows lawful opened
  have learnt := here.learnt
  have sees : Sees law (server.start pid) pid known := by
    intro _
    simpa only [Server.start, Server.setTx_same] using knows
  have writes : Writes law (server.start pid) pid known := by
    intro _
    simp only [Server.start, Server.setTx_same]
    exact knows
  have reads (before : Reads law server pid known) : Reads law (server.start pid) pid known :=
    ⟨before.1, by simpa [Server.start] using before.2⟩
  refine ⟨?_, fun _ row member => ?_⟩
  · cases phase with
    | outside => simp [learnt.1] at opened
    | reading => exact ⟨reads learnt, sees⟩
    | writing => exact ⟨writes, sees⟩
    | started changed =>
      cases changed with
      | false => exact ⟨reads learnt.1, sees⟩
      | true => exact ⟨writes, sees⟩
  · rw [Phase.held_start] at member
    obtain ⟨retains, -⟩ := here.holds opened row member
    simp only [Server.start, Server.setTx_same]
    exact ⟨retains, fun _ => retains.1⟩

theorem Matches.executed {server : Server Row Label} {phase : Phase Row} {known reply : List Row}
    {statement : Statement Row}
    {after : Tx Row Label} (lawful : Lawful law server) (here : Matches law server pid phase known)
    (opened : (server.txs pid).label.isSome = true)
    (done : Executed law server.rows known phase.held statement (server.txs pid) after reply) :
    Matches law (server.setTx pid after) pid (statement.next reply phase) (reply ++ known) := by
  have knows : law.Knows (after.view server.rows) (reply ++ known) :=
    done.knows.append ((here.knows lawful opened).forward done.forward)
  have writing : Writes law (server.setTx pid after) pid (reply ++ known) := by
    intro _
    rwa [Server.setTx_same]
  have learnt := here.learnt
  have retained : ∀ row ∈ statement.holds reply phase.held,
      ((server.setTx pid after).txs pid).Retains server.rows row := by
    intro row member
    rw [Server.setTx_same]
    exact done.holds row member
  cases writes : statement.writes with
  | true =>
    rw [Statement.next, if_pos writes]
    exact ⟨writing, fun _ row member => ⟨retained row member, fun absurd_ => absurd_.elim⟩⟩
  | false =>
    obtain ⟨removed, added⟩ := done.reads writes
    have reading (before : Reads law server pid known) :
        Reads law (server.setTx pid after) pid (reply ++ known) := by
      obtain ⟨empty, none_⟩ := before.2 opened
      rw [Tx.view_untouched _ _ (removed.trans empty) (added.trans none_)] at knows
      exact ⟨knows, fun _ => by rw [Server.setTx_same]; exact ⟨removed.trans empty, added.trans none_⟩⟩
    rw [Statement.next, if_neg (by simp [writes])]
    cases phase with
    | outside => simp [learnt.1] at opened
    | reading =>
      exact ⟨reading learnt, fun _ row member =>
        ⟨retained row member, fun absurd_ => absurd_.elim⟩⟩
    | writing => exact ⟨writing, fun _ row member => ⟨retained row member, fun absurd_ => absurd_.elim⟩⟩
    | started changed =>
      cases changed with
      | false =>
        exact ⟨reading learnt.1, fun _ row member =>
          ⟨retained row member, fun absurd_ => absurd_.elim⟩⟩
      | true => exact ⟨writing, fun _ row member => ⟨retained row member, fun absurd_ => absurd_.elim⟩⟩

theorem Matches.forget {server : Server Row Label} {phase : Phase Row} {known : List Row}
    (here : Matches law server pid phase known) :
    Matches law server pid phase [] := by
  have learnt := here.learnt
  have sees : Sees law server pid [] := fun _ => Law.Knows.nil
  have writes : Writes law server pid [] := fun _ => Law.Knows.nil
  refine ⟨?_, here.holds⟩
  cases phase with
  | outside => exact ⟨learnt.1, Law.Knows.nil⟩
  | reading => exact ⟨Law.Knows.nil, learnt.2⟩
  | writing => exact writes
  | started changed =>
    cases changed with
    | false => exact ⟨⟨Law.Knows.nil, learnt.1.2⟩, sees⟩
    | true => exact ⟨writes, sees⟩

theorem Matches.started {server : Server Row Label} {phase : Phase Row} {known : List Row}
    (here : Matches law server pid phase known)
    (closed : (server.txs pid).label = none) : Matches law server pid phase.start known := by
  have learnt := here.learnt
  have sees : Sees law server pid known := fun opened => by simp [closed] at opened
  refine ⟨?_, fun opened => by simp [closed] at opened⟩
  cases phase with
  | reading => exact ⟨learnt, sees⟩
  | writing => exact ⟨learnt, sees⟩
  | _ => exact learnt

-- What is known when a statement has been started, is known of the rows it was started on.
theorem Matches.sees {server : Server Row Label} {phase : Phase Row} {known : List Row}
    (here : Matches law server pid phase known)
    (ready : phase.Ready) (opened : (server.txs pid).label.isSome = true) :
    law.Knows (server.txs pid).snapshot known := by
  have learnt := here.learnt
  cases phase with
  | outside => simp [learnt.1] at opened
  | reading => exact ready.elim
  | writing => exact ready.elim
  | started writes =>
    cases writes with
    | false => exact learnt.2 opened
    | true => exact learnt.2 opened

theorem matches_outside {server : Server Row Label} {known : List Row}
    (closed : (server.txs pid).label = none)
    (knows : law.Knows server.rows known) : Matches law server pid .outside known :=
  ⟨⟨closed, knows⟩, fun _ row member => by cases member⟩

theorem label_idle (server : Server Row Label) : (Function.update server.txs pid .idle pid).label = none := by
  rw [Function.update_self]
  rfl

-- One call. `faithful` says that the world shows others only what it is told.
theorem Abides.act (faithful : ∀ tid request choice (shared : Shared Row Label World) reply world,
      extra tid request choice shared = some (reply, world) → ∀ row, Shows world row →
      Shows shared.world row ∨ emits request = some row)
    {phase : Phase Row} {known : List Row} {action : Action Row Label Extra} {choice : Choice}
    {reply : Answer ExtraReply action} {rest : Answer ExtraReply action → Client Row Label ExtraReply ε α}
    {post : Except ε α → Phase Row → List Row → Prop}
    (abides : Abides law emits post phase known (.call action rest)) (lawful : Lawful law shared.server)
    (shown : ∀ row, Shows shared.world row → law.Holds shared.server.rows row)
    (here : Matches law shared.server pid phase known)
    (taken : (machine extra).act pid action choice shared = some (reply, next)) :
    Onwards law emits Shows post pid shared next (rest reply) := by
  cases action with
  | begin label =>
    cases taken
    obtain ⟨rfl, goes⟩ := abides
    have begun : Reads law (shared.server.begin pid label) pid known :=
      ⟨here.learnt.2, fun _ => by simp [Server.begin, Tx.idle]⟩
    refine ⟨lawful.begin pid label, shown, ⟨.reading [], known, goes, begun, fun _ row member => ?_⟩,
      fun other distinct => ?_⟩
    · cases member
    · exact .quiet (Function.update_of_ne distinct _ _) rfl
  | start =>
    simp only [machine, Option.some.injEq, Prod.mk.injEq] at taken
    obtain ⟨-, rfl⟩ := taken
    split
    · next opened =>
      exact ⟨lawful.start opened, shown, ⟨phase.start, known, abides, here.start lawful opened⟩,
        fun other distinct => .update distinct⟩
    · next closed =>
      exact ⟨lawful, shown, ⟨phase.start, known, abides, here.started (by simpa using closed)⟩,
        fun other _ => .quiet rfl rfl⟩
  | exec statement =>
    obtain ⟨ready, obeys, replied, failed⟩ := abides
    have refused (error : SqlError) : Onwards law emits Shows post pid shared shared (rest (.error error)) :=
      ⟨lawful, shown, ⟨phase.ended, [], failed error, here.ended.forget⟩, fun other _ => .quiet rfl rfl⟩
    simp only [machine] at taken
    split at taken
    · next opened =>
      split at taken
      · cases taken
      · next rows tx run =>
        cases taken
        have prepared : Prepared law shared.server pid known phase.held :=
          ⟨lawful, here.knows lawful opened, here.sees ready opened,
            fun row member => (here.holds opened row member).imp_right fun started => started ready⟩
        have done := prepared.execute obeys run
        have snapshot : law.Knows (tx.view shared.server.rows) tx.snapshot :=
          done.snapshot ▸ (lawful.snapshots pid).forward done.forward
        have evolving : Evolving law.toEvolution (shared.server.setTx pid tx) :=
          lawful.evolving.execute (obeys.advances prepared.knows prepared.apart) opened run
        exact ⟨lawful.update evolving done.ruled snapshot, shown,
          ⟨statement.next rows phase, rows ++ known, replied rows done.replies,
            here.executed lawful opened done⟩,
          fun other distinct => .update distinct⟩
      · cases taken
        exact refused _
    · cases taken
      exact refused _
  | commit =>
    simp only [machine] at taken
    split at taken
    · next opened =>
      cases taken
      refine ⟨lawful.commit pid, fun row shows => law.forward (lawful.evolving.views pid) (shown row shows),
          ⟨.outside, known, abides.1, matches_outside (label_idle _) (here.knows lawful opened)⟩,
          fun other distinct => lawful.asideCommit distinct⟩
    · next closed =>
      cases taken
      exact ⟨lawful, shown, ⟨.outside, [], abides.2 _, matches_outside (by simpa using closed) Law.Knows.nil⟩,
        fun other _ => .quiet rfl rfl⟩
  | rollback =>
    cases taken
    exact ⟨lawful.rollback pid, shown, ⟨.outside, [], abides, matches_outside (label_idle _) Law.Knows.nil⟩,
      fun other distinct => .update distinct⟩
  | other request =>
    simp only [machine, Option.map_eq_some_iff, Prod.exists, Prod.mk.injEq] at taken
    obtain ⟨given, world, answered, rfl, rfl⟩ := taken
    refine ⟨lawful, fun row shows => ?_, ⟨phase, known, abides.2 given, here⟩, fun other _ => .quiet rfl rfl⟩
    rcases faithful pid request choice shared given world answered row shows with before | told
    · exact shown row before
    · obtain ⟨clean, read⟩ := abides.1 row told
      have learnt := here.learnt
      cases phase with
      | outside => exact (learnt.2 row read).lawful
      | reading => exact (learnt.1 row read).lawful
      | _ => exact clean.elim

theorem Matches.rolledBack {server : Server Row Label} {phase : Phase Row} {known : List Row} {process : Tid}
    (here : Matches law server process phase known) (pid : Tid) :
    Matches law (server.rollback pid) process phase known := by
  by_cases same : process = pid
  · subst same
    have closed : ((server.rollback process).txs process).label = none := label_idle server
    have sees : Sees law (server.rollback process) process known := fun opened => by simp [closed] at opened
    have writes : Writes law (server.rollback process) process known := fun opened => by
      simp [closed] at opened
    have reads (before : Reads law server process known) :
        Reads law (server.rollback process) process known :=
      ⟨before.1, fun opened => by simp [closed] at opened⟩
    have learnt := here.learnt
    refine ⟨?_, fun opened => by simp [closed] at opened⟩
    cases phase with
    | outside => exact ⟨closed, learnt.2⟩
    | reading => exact reads learnt
    | writing => exact writes
    | started changed =>
      cases changed with
      | false => exact ⟨reads learnt.1, sees⟩
      | true => exact ⟨writes, sees⟩
  · exact here.aside (.update same)

section Config
variable {config after first last : Interleaving.Config Call (Action Row Label Extra) (Answer ExtraReply) ε α
  (Shared Row Label World)}
  {post : Call → Except ε α → Phase Row → List Row → Prop}

theorem Abiding.rollback (abiding : Abiding law emits Shows post config) (pid : Tid) :
    Abiding law emits Shows post
    { config with state := { config.state with server := config.state.server.rollback pid } } := by
  refine ⟨abiding.lawful.rollback pid, abiding.shown, fun other is => ?_, fun other call script found => ?_⟩
  · by_cases same : other = pid
    · subst same
      exact label_idle _
    · simpa [Server.rollback, Server.setTx_other _ same] using abiding.idle other is
  · obtain ⟨phase, known, abides, here⟩ := abiding.running other call script found
    exact ⟨phase, known, abides, here.rolledBack pid⟩

theorem Abiding.put (abiding : Abiding law emits Shows post config) {pid : Tid}
    {next : Shared Row Label World}
    {status : Status Call (Action Row Label Extra) (Answer ExtraReply) ε α} (lawful : Lawful law next.server)
    (shown : ∀ row, Shows next.world row → law.Holds next.server.rows row)
    (others : ∀ other, other ≠ pid → Aside law config.state.server next.server other)
    (started : status ≠ .idle) (own : ∀ call script, status = .running call script → ∃ phase known,
      Abides law emits (post call) phase known script ∧ Matches law next.server pid phase known) :
    Abiding law emits Shows post (config.put pid next status) := by
  refine ⟨lawful, shown, fun other is => ?_, fun other call script found => ?_⟩
    <;> by_cases same : other = pid
  · subst same
    exact absurd ((Config.put_same config other next status).symm.trans is) started
  · rw [Config.put_other config _ _ same] at is
    exact ((others other same).own.symm ▸ abiding.idle other is :)
  · subst same
    exact own call script ((Config.put_same config other next status).symm.trans found)
  · rw [Config.put_other config _ _ same] at found
    obtain ⟨phase, known, abides, here⟩ := abiding.running other call script found
    exact ⟨phase, known, abides, here.aside (others other same)⟩

variable {code : Call → Client Row Label ExtraReply ε α} {permitted : Call → Prop}

theorem Abiding.step (faithful : ∀ tid request choice (shared : Shared Row Label World) reply world,
      extra tid request choice shared = some (reply, world) → ∀ row, Shows world row →
      Shows shared.world row ∨ emits request = some row)
    (abides : ∀ call, permitted call → Abides law emits (post call) .outside [] (code call))
    (abiding : Abiding law emits Shows post config) {move : Interleaving.Move Call Choice}
    (legal : Interleaving.Machine.Legal { spawn := fun _ call _ => permitted call } config move)
    (taken : (machine extra).step code config move = some after) :
    Abiding law emits Shows post after ∧
    Forward law.toEvolution config.state.server.rows after.state.server.rows := by
  cases move with
  | spawn pid call =>
    simp only [Interleaving.Machine.step] at taken
    split at taken
    · next is =>
      cases taken
      refine ⟨abiding.put abiding.lawful abiding.shown (fun other _ => .quiet rfl rfl) (fun is => by cases is)
        fun started script same => ?_,
        Forward.refl _⟩
      cases same
      exact ⟨.outside, [], abides call legal, matches_outside (abiding.idle pid is) Law.Knows.nil⟩
    · cases taken
  | act pid choice =>
    simp only [Interleaving.Machine.step] at taken
    split at taken
    · next call action rest found =>
      split at taken
      · next reply next answered =>
        cases taken
        obtain ⟨phase, known, goes, here⟩ := abiding.running pid call _ found
        have onwards := goes.act faithful abiding.lawful abiding.shown here answered
        refine ⟨abiding.put onwards.lawful onwards.shown onwards.others (fun is => by cases is)
          fun started script same => ?_,
          (onwards.others (pid + 1) (Nat.succ_ne_self pid)).rows⟩
        cases same
        exact onwards.own
      · cases taken
    · cases taken
  | disturb pid choice =>
    simp only [Interleaving.Machine.step, machine] at taken
    split at taken
    · next next disturbed =>
      split at disturbed
      · cases disturbed
        cases taken
        exact ⟨abiding.rollback pid, Forward.refl _⟩
      · cases disturbed
    · cases taken
  | crash pid =>
    simp only [Interleaving.Machine.step] at taken
    split at taken
    · cases taken
      have rolled := abiding.rollback pid
      exact ⟨rolled.put rolled.lawful rolled.shown (fun other _ => .quiet rfl rfl) (fun is => by cases is)
        fun _ _ is => (by cases is),
        Forward.refl _⟩
    · cases taken

-- In every run of scripts that obey the law: rows and what others were told stay lawful, and the rows
-- of the start have moved on.
theorem abiding_reaches (faithful : ∀ tid request choice (shared : Shared Row Label World) reply world,
      extra tid request choice shared = some (reply, world) → ∀ row, Shows world row →
      Shows shared.world row ∨ emits request = some row)
    (abides : ∀ call, permitted call → Abides law emits (post call) .outside [] (code call))
    (run : (machine extra).Reaches code { spawn := fun _ call _ => permitted call } first last)
    (initial : Abiding law emits Shows post first) :
    Abiding law emits Shows post last ∧
    Forward law.toEvolution first.state.server.rows last.state.server.rows := by
  induction run with
  | refl => exact ⟨initial, Forward.refl _⟩
  | move move _ legal taken ih =>
    obtain ⟨abiding, forward⟩ := ih.1.step faithful abides legal taken
    exact ⟨abiding, ih.2.trans forward⟩

-- A call that has ended, with what its process knows since.
theorem Abiding.ended (abiding : Abiding law emits Shows post config) {pid : Tid} {call : Call} {value : α}
    (ended : config.procs pid = .running call (.ret value)) :
    ∃ phase known, post call (.ok value) phase known ∧ Matches law config.state.server pid phase known :=
  abiding.running pid call (.ret value) ended

theorem abiding_start {rows : List Row} {world : World} (apart : rows.Pairwise NoClash)
    (ruled : law.Ruled rows) (shown : ∀ row, Shows world row → law.Holds rows row)
    (first : Interleaving.Config Call (Action Row Label Extra) (Answer ExtraReply)
      ε α (Shared Row Label World)) (starts : first = .start ⟨.holding rows, world⟩) : Abiding law emits
      Shows post first := by
  subst starts
  exact ⟨lawful_holding apart ruled, shown, fun _ _ => rfl, fun _ _ _ => nofun⟩

end Config

end Runs

/-! ## Scripts that need not remember -/

/-- What a script knows at its end, if it returns, it has kept. -/
def Gains (known : List Row) : Except ε α → Phase Row → List Row → Prop
  | .ok _, _, later => known ⊆ later
  | .error _, _, _ => True

/-- A part of a transaction that obeys the law whatever is known, and forgets nothing. -/
def Inside (law : Law Row) (emits : Extra → Option Row) (script : Client Row Label ExtraReply ε α) : Prop :=
  ∀ phase known, Abides law emits (Gains known) phase known script

/-- A script that obeys the law between transactions, whatever is known. -/
def Outside (law : Law Row) (emits : Extra → Option Row) (script : Client Row Label ExtraReply ε α) : Prop :=
  ∀ known, Abides law emits (fun _ phase _ => phase = .outside) .outside known script

section Walks
variable {phase : Phase Row} {known : List Row}

theorem Abides.andThen {script : Client Row Label ExtraReply ε β} {next : β → Client Row Label ExtraReply ε α}
    {middle : Except ε β → Phase Row → List Row → Prop} {post : Except ε α → Phase Row → List Row → Prop}
    (first : Abides law emits middle phase known script)
    (rest : ∀ value phase known, middle (.ok value) phase known →
      Abides law emits post phase known (next value))
    (errors : ∀ error phase known, middle (.error error) phase known → post (.error error) phase known) :
    Abides law emits post phase known (script >>= next) := by
  refine Abides.bind (first.mono fun result phase known done => ?_)
  cases result with
  | ok value => exact rest value phase known done
  | error error => exact errors error phase known done

-- What a script returns whatever the replies, it returns here too.
theorem Abides.gives {script : Client Row Label ExtraReply ε α}
    {post : Except ε α → Phase Row → List Row → Prop} {answers : α → Prop}
    (abides : Abides law emits post phase known script) (gives : script.Gives answers) :
    Abides law emits (fun result after later => post result after later ∧
      ∀ value, result = .ok value → answers value)
      phase known script := by
  induction script generalizing phase known with
  | ret value =>
    refine ⟨abides, fun other same => ?_⟩
    cases same
    exact gives
  | fail error => exact ⟨abides, fun _ absurd_ => by cases absurd_⟩
  | call action rest ih =>
    cases action with
    | begin label => exact ⟨abides.1, ih () abides.2 (gives ())⟩
    | start => exact ih () abides (gives ())
    | exec statement =>
      exact ⟨abides.1, abides.2.1, fun rows replies => ih _ (abides.2.2.1 rows replies) (gives _),
        fun error => ih _ (abides.2.2.2 error) (gives _)⟩
    | commit => exact ⟨ih _ abides.1 (gives _), fun error => ih _ (abides.2 error) (gives _)⟩
    | rollback => exact ih () abides (gives ())
    | other request => exact ⟨abides.1, fun reply => ih reply (abides.2 reply) (gives reply)⟩

theorem Abides.asking {script : Client Row Label ExtraReply ε α} {answers : α → Prop}
    (asks : script.Calls fun action => ∃ request, action = .other request ∧ emits request = none)
    (gives : script.Gives answers) :
    Abides law emits (fun result after later => after = phase ∧ later = known ∧
      ∀ value, result = .ok value → answers value)
      phase known script := by
  induction script with
  | ret value =>
    refine ⟨rfl, rfl, fun other same => ?_⟩
    cases same
    exact gives
  | fail error => exact ⟨rfl, rfl, nofun⟩
  | call action rest ih =>
    obtain ⟨⟨request, rfl, quiet⟩, later⟩ := asks
    exact ⟨fun row told => by simp [quiet] at told, fun reply => ih reply (later reply) (gives reply)⟩

namespace Inside
variable {script : Client Row Label ExtraReply ε α}

theorem ret (value : α) : Inside law emits (.ret value : Client Row Label ExtraReply ε α) :=
  fun _ _ _ member => member

theorem fail (error : ε) : Inside law emits (.fail error : Client Row Label ExtraReply ε α) :=
  fun _ _ => trivial

theorem bind {first : Client Row Label ExtraReply ε β} {next : β → Client Row Label ExtraReply ε α}
    (inside : Inside law emits first)
    (rest : ∀ value, Inside law emits (next value)) : Inside law emits (first >>= next) := by
  intro phase known
  refine (inside phase known).andThen (fun value later knows gained => ?_) fun _ _ _ _ => trivial
  refine (rest value later knows).mono fun result _ last done => ?_
  cases result with
  | ok value => exact List.Subset.trans gained done
  | error error => trivial

theorem check {p : Prop} [Decidable p] {error : ε} (inside : Inside law emits script) :
    Inside law emits (if p then .fail error else script) := by
  split
  · exact fail error
  · exact inside

theorem sql [ClientError ε] {statement : Statement Row} (obeys : ∀ known, statement.Obeys law known) :
    Inside law emits (Postgres.sql statement : Client Row Label ExtraReply ε (List Row)) := fun _ known =>
  Abides.sql (obeys known) (fun _ _ => List.subset_append_right ..) fun _ => trivial

theorem ask {request : Extra} (quiet : emits request = none) :
    Inside law emits (Postgres.ask request : Client Row Label ExtraReply ε (ExtraReply request)) := fun _ _ =>
  Abides.ask (fun _ told => by simp [quiet] at told) fun _ _ member => member

end Inside

namespace Outside
variable {script : Client Row Label ExtraReply ε α}

theorem ret (value : α) : Outside law emits (.ret value : Client Row Label ExtraReply ε α) := fun _ => rfl

theorem fail (error : ε) : Outside law emits (.fail error : Client Row Label ExtraReply ε α) := fun _ => rfl

theorem bind {first : Client Row Label ExtraReply ε β} {next : β → Client Row Label ExtraReply ε α}
    (outside : Outside law emits first)
    (rest : ∀ value, Outside law emits (next value)) : Outside law emits (first >>= next) := fun known =>
  (outside known).andThen (fun value _ knows is => is ▸ rest value knows) fun _ _ _ is => is

theorem handle {handler : ε → Client Row Label ExtraReply ε α} (outside : Outside law emits script)
    (rescue : ∀ error, Outside law emits (handler error)) : Outside law emits (script.handle handler) := by
  refine fun known => Abides.handle ((outside known).mono fun result phase knows is => ?_)
  cases result with
  | ok value => exact is
  | error error => exact is ▸ rescue error knows

theorem ask {request : Extra} (quiet : emits request = none) :
    Outside law emits (Postgres.ask request : Client Row Label ExtraReply ε (ExtraReply request)) := fun _ =>
  Abides.ask (fun _ told => by simp [quiet] at told) fun _ => rfl

theorem transacting [ClientError ε] (label : Label)
    (abides : ∀ known, Abides law emits (fun _ _ _ => True) (.reading []) known script) :
    Outside law emits (Postgres.transaction label script) := by
  refine fun known => Abides.transaction ((abides known).mono fun result _ _ _ => ?_) fun _ => rfl
  cases result with
  | ok value => rfl
  | error error => trivial

theorem transaction [ClientError ε] (label : Label) (inside : Inside law emits script) :
    Outside law emits (Postgres.transaction label script) :=
  transacting label fun known => (inside (.reading []) known).mono fun _ _ _ _ => trivial

end Outside

end Walks

end OpenEmarsys.Postgres
