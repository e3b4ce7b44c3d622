import OpenEmarsys.Postgres.Holding

/-! Clients that know some of the columns and some of the tables.

A client written for fewer columns runs on the wider rows: what it does not know of a row stays
as it is, and a table it does not know is left alone in each of its transactions.
-/

set_option autoImplicit false

namespace OpenEmarsys.Postgres

open Interleaving

/-- How rows are seen by a client that knows only some columns. -/
structure View (Narrow Wide : Type) where
  /-- None of a row whose table the client does not know. -/
  get : Wide → Option Narrow
  /-- The row with these columns changed. -/
  set : Narrow → Wide → Wide
  /-- A new row, its other columns as they are by default. -/
  new : Narrow → Wide

namespace View

variable {Narrow Wide : Type} (view : View Narrow Wide)

def modify (f : Narrow → Narrow) (row : Wide) : Wide :=
  match view.get row with
  | some narrow => view.set (f narrow) row
  | none => row

def statement : Statement Narrow → Statement Wide
  | .select p => .select fun row => (view.get row).any p
  | .lockRows p => .lockRows fun row => (view.get row).any p
  | .lockSkip p le limit =>
      .lockSkip (fun row => (view.get row).any p) (fun row other => (view.get row).any
        fun a => (view.get other).any (le a)) limit
  | .shareKey p => .shareKey fun row => (view.get row).any p
  | .delete p => .delete fun row => (view.get row).any p
  | .update p f => .update (fun row => (view.get row).any p) (view.modify f)
  | .insert rows ignore => .insert (rows.map view.new) ignore

end View

section Widen

variable {Narrow Wide Label WideLabel Extra WideExtra : Type} {Reply : Extra → Type} {WideReply : WideExtra →
  Type} {ε δ α β : Type}

/-- What the wider client puts for the labels, the other calls and the errors of the narrow one. -/
structure Widening (Narrow Wide Label WideLabel : Type) {Extra WideExtra : Type} (Reply : Extra → Type)
    (WideReply : WideExtra → Type) (ε δ : Type) where
  view : View Narrow Wide
  label : Label → WideLabel
  extra : Extra → WideExtra
  reply : ∀ extra_, WideReply (extra extra_) → Reply extra_
  error : ε → δ

variable (wide : Widening Narrow Wide Label WideLabel Reply WideReply ε δ)

def Widening.client : Client Narrow Label Reply ε α → Client Wide WideLabel WideReply δ α
  | .ret value => .ret value
  | .fail error => .fail (wide.error error)
  | .call (.begin label) rest => .call (.begin (wide.label label)) fun _ => Widening.client (rest ())
  | .call .start rest => .call .start fun _ => Widening.client (rest ())
  | .call (.exec statement) rest => .call (.exec (wide.view.statement statement)) fun reply =>
      Widening.client (rest (reply.map fun rows => rows.filterMap wide.view.get))
  | .call .commit rest => .call .commit fun reply => Widening.client (rest reply)
  | .call .rollback rest => .call .rollback fun _ => Widening.client (rest ())
  | .call (.other extra) rest => .call (.other (wide.extra extra))
    fun reply => Widening.client (rest (wide.reply extra reply))

section Rules

variable {wide}

@[simp] theorem client_fail (error : ε) : wide.client (.fail error : Client Narrow Label Reply ε α) = .fail
    (wide.error error) := rfl

theorem client_bind (first : Client Narrow Label Reply ε α) (next : α → Client Narrow Label Reply ε β) :
    wide.client (first >>= next) = wide.client first >>= fun value => wide.client (next value) := by
  induction first with
  | ret value => rfl
  | fail error => rfl
  | call act rest ih => cases act <;> simp only [Script.bind_call, Widening.client, ih]

-- A handler that fails with what it is given, as that of a transaction does.
theorem client_handle (script : Client Narrow Label Reply ε α) {handler : ε → Client Narrow Label Reply ε α}
    (wider : δ → Client Wide WideLabel WideReply δ α)
    (same : ∀ error, wide.client (handler error) = wider (wide.error error)) :
    wide.client (script.handle handler) = (wide.client script).handle wider := by
  induction script with
  | ret value => rfl
  | fail error => exact same error
  | call act rest ih => cases act <;> simp only [Script.handle, Widening.client, ih]

variable [ClientError ε] [ClientError δ] (errors : ∀ error,
  wide.error (ClientError.sql error) = ClientError.sql error)
include errors

theorem client_sql (statement : Statement Narrow) :
    wide.client (sql statement : Client Narrow Label Reply ε (List Narrow)) =
      sql (wide.view.statement statement) >>= fun rows => .ret (rows.filterMap wide.view.get) := by
  have replies (reply : Except SqlError (List Wide)) :
      wide.client (orThrow (reply.map fun rows => rows.filterMap wide.view.get)) =
        (orThrow reply >>= fun rows => .ret (rows.filterMap wide.view.get) : Client Wide WideLabel WideReply
            δ (List Narrow)) := by
    cases reply with
    | ok rows => rfl
    | error error => exact congrArg Script.fail (errors error)
  simp only [sql, Widening.client, Script.bind_call, replies]

theorem client_transaction (label : Label) (body : Client Narrow Label Reply ε α) :
    wide.client (transaction label body) = transaction (wide.label label) (wide.client body) := by
  have commit (value : α) : wide.client (commitOrThrow value) = commitOrThrow value := by
    refine congrArg (Script.call Action.commit) (funext fun reply => ?_)
    cases (reply : Except SqlError Unit) with
    | ok done => rfl
    | error error => exact congrArg Script.fail (errors error)
  simp only [transaction, Widening.client]
  refine congrArg (Script.call (Action.begin (wide.label label))) (funext fun _ => ?_)
  refine (client_handle _ (fun error => .call .rollback fun _ => .fail error) fun error => rfl).trans ?_
  simp only [client_bind, commit]

end Rules

end Widen

section Spares

variable {Row Label World : Type} [Indexed Row] [Tabled Row] {table : Table Row}

def Statement.Spares (table : Table Row) : Statement Row → Prop
  | .delete p => ∀ row, p row = true → tableOf row ≠ table
  | .update p f => (∀ row, p row = true → tableOf row ≠ table) ∧ ∀ row, primary (f row) = primary row
  | .insert rows _ => ∀ row ∈ rows, tableOf row ≠ table
  | _ => True

/-- The transaction has changed no row of the table. -/
structure Tx.Spares (table : Table Row) (tx : Tx Row Label) : Prop where
  added : ∀ row ∈ tx.added, tableOf row ≠ table
  removed : ∀ key ∈ tx.removed, Tabled.table key ≠ table

variable {tx after : Tx Row Label}

theorem Tx.Spares.view (spares : tx.Spares table) (rows : List Row) {row : Row} (here : tableOf row = table) :
    row ∈ tx.view rows ↔ row ∈ rows := by
  rw [Tx.mem_view]
  constructor
  · rintro (⟨present, -⟩ | added)
    · exact present
    · exact absurd here (spares.added row added)
  · refine fun present => .inl ⟨present, Bool.eq_false_iff.mpr fun removes => ?_⟩
    exact spares.removed _ (Tx.removes_iff.mp removes) here

theorem Change.spares {rows gone new : List Row} (change : Change rows tx after gone new)
    (spares : tx.Spares table)
    (old : ∀ row ∈ gone, tableOf row ≠ table) (now : ∀ row ∈ new, tableOf row ≠ table) :
    after.Spares table := by
  constructor
  · intro row member
    rcases (change.added row).mp member with ⟨mine, -⟩ | new
    · exact spares.added row mine
    · exact now row new
  · intro key member
    rcases change.removed key member with mine | ⟨row, gone, rfl⟩
    · exact spares.removed key mine
    · exact old row gone

theorem Tx.Spares.moved (spares : tx.Spares table) (added : after.added = tx.added)
    (removed : after.removed = tx.removed) :
    after.Spares table :=
  ⟨fun row member => spares.added row (added ▸ member),
    fun key member => spares.removed key (removed ▸ member)⟩

theorem execute_spares {server : Server Row Label} {pid : Tid} {statement : Statement Row} {reply : List Row}
    (sane : Sane server) (leaves : statement.Spares table) (spares : (server.txs pid).Spares table)
    (run : server.execute pid statement = some (.ok (reply, after))) : after.Spares table := by
  cases statement with
  | select p =>
    obtain ⟨-, rfl⟩ := execute_select run
    exact spares
  | lockRows p =>
    obtain ⟨-, locked⟩ := execute_lockRows sane run
    exact spares.moved locked.added locked.removed
  | lockSkip p le limit =>
    obtain ⟨-, locked⟩ := execute_lockSkip sane run
    exact spares.moved locked.added locked.removed
  | shareKey p =>
    obtain ⟨-, rfl⟩ := execute_shareKey run
    exact spares.moved rfl rfl
  | delete p =>
    obtain ⟨rfl, change⟩ := execute_delete sane run
    exact change.spares spares (fun row hit => leaves row (mem_hits.mp hit).2.1) nofun
  | update p f =>
    obtain ⟨rfl, change⟩ := execute_update sane leaves.2 run
    have old : ∀ row ∈ server.hits pid p, tableOf row ≠ table :=
      fun row hit => leaves.1 row (mem_hits.mp hit).2.1
    refine change.spares spares old fun row member => ?_
    obtain ⟨hit, found, rfl⟩ := List.mem_map.mp member
    have same : tableOf (f hit) = tableOf hit := congrArg Tabled.table (leaves.2 hit)
    exact same ▸ old hit found
  | insert rows ignore =>
    obtain ⟨change, sub, -⟩ := execute_insert run
    exact change.spares spares nofun fun row member => leaves row (sub.subset member)

end Spares

namespace Chronicle

variable {Row Label World Call Choice Extra : Type} {ExtraReply : Extra →
  Type} {ε α β : Type} [Indexed Row] [Tabled Row]
  {chronicle : Chronicle Row Label World}
  {extra : Tid → (call : Extra) → Choice → Shared Row Label World → Option (ExtraReply call × World)}
  {rules : Rules Call (Action Row Label Extra) (Shared Row Label World)} {pid : Tid}
    {label : Label} {table : Table Row}

/-- An open transaction, what it is for, and that it leaves the table alone. -/
structure Leaving (pid : Tid) (label : Label) (table : Table Row)
    (shared : Shared Row Label World) : Prop where
  label : (shared.server.txs pid).label = some label
  spares : (shared.server.txs pid).Spares table

theorem leaving_lasting : chronicle.protocol.Lasting pid (Leaving pid label table) :=
  fun _ _ _ _ leaving same _ _ => ⟨same ▸ leaving.label, same ▸ leaving.spares⟩

theorem leaving_begun {first : List Row} {opened : List (Commit Row Label)}
    {known : List (Commit Row Label) → Prop}
    {shared : Shared Row Label World} (at_ : Stage.At first pid ⟨label, opened, [], .empty⟩ known shared) :
    Leaving pid label table shared := by
  refine ⟨at_.label, fun row added => ?_, fun key removed => ?_⟩
  · cases (at_.contents.added row).mp added
  · obtain ⟨old, gone, -⟩ := (at_.contents.removed key).mp removed
    cases gone

variable (chronicle extra rules pid label table) in
/-- The script, in a transaction for `label`, leaves the table alone. -/
abbrev Spares (script : Client Row Label ExtraReply ε α) : Prop :=
  chronicle.Makes extra rules pid (Protocol.Unless pid (Leaving pid label table)) script
    fun _ => Protocol.Unless pid (Leaving pid label table)

theorem Spares.ret (value : α) :
    chronicle.Spares extra rules pid label table (.ret value : Client Row Label ExtraReply ε α) :=
  Stage.ret (fun _ => Protocol.Unless pid (Leaving pid label table)) leaving_lasting.stable

theorem Spares.fail (error : ε) :
    chronicle.Spares extra rules pid label table (.fail error : Client Row Label ExtraReply ε α) := Stage.fail

theorem Spares.bind {first : Client Row Label ExtraReply ε β} {next : β → Client Row Label ExtraReply ε α}
    (head : chronicle.Spares extra rules pid label table first)
    (tail : ∀ value, chronicle.Spares extra rules pid label table (next value)) :
    chronicle.Spares extra rules pid label table (first >>= next) := Stage.bind _ head tail

variable [ClientError ε]

theorem Spares.sql {statement : Statement Row} (leaves : statement.Spares table) :
    chronicle.Spares extra rules pid label table
    (Postgres.sql statement : Client Row Label ExtraReply ε (List Row)) := by
  refine Protocol.sql leaving_lasting (fun shared tx leaving same => ?_) (fun _ => leaving_lasting) ?_
  · constructor
    · rw [Server.setTx_same, same]
      exact leaving.label
    · rw [Server.setTx_same]
      exact leaving.spares.moved (by rw [same]) (by rw [same])
  · intro started shared rows tx _ inv _ leaving _ _ run
    constructor
    · rw [Server.setTx_same]
      exact (execute_continues run).label.trans leaving.label
    · rw [Server.setTx_same]
      exact execute_spares inv.1 leaves leaving.spares run

-- A transaction that leaves the table alone, when such a commit is as the journal wants it.
theorem Spares.transaction {body : Client Row Label ExtraReply ε α}
    (spares : chronicle.Spares extra rules pid label table body)
    (commits : ∀ shared, chronicle.protocol.Inv shared → Leaving pid label table shared →
      chronicle.Effect shared.server.log ⟨pid, shared.server.rows, shared.server.txs pid⟩) :
    chronicle.Learns extra rules pid (fun _ => True) (Postgres.transaction label body) fun _ _ => True := by
  refine Stage.transaction (persists_const True) (fun _ => Leaving pid label table)
    (fun _ _ => True) (fun opened => ?_)
    (fun _ => leaving_lasting) (fun value shared inv leaving => ⟨commits shared inv leaving, trivial⟩)
      fun _ => persists_const True
  exact spares.strengthen fun shared _ held => held.imp id leaving_begun

end Chronicle

end OpenEmarsys.Postgres
