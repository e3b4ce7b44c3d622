import OpenEmarsys.Postgres.Superposition

/-! Properties of single rows, such as what a generated column or a check constraint says.

If every statement of every script keeps the property, all rows have it, in every run: those
committed and those of open transactions.
-/

set_option autoImplicit false

namespace OpenEmarsys.Postgres

open Interleaving

variable {Row Label Extra World Choice Call : Type} [Indexed Row] {ExtraReply : Extra → Type} {ε α : Type}
  {extra : Tid → (call : Extra) → Choice → Shared Row Label World →
    Option (ExtraReply call × World)} {P : Row → Prop}

/-- The rows a statement inserts have the property, and those it updates keep it and their primary key. -/
def Statement.Keeps (P : Row → Prop) : Statement Row → Prop
  | .insert rows _ => ∀ row ∈ rows, P row
  | .update p f => (∀ row, primary (f row) = primary row) ∧ ∀ row, p row = true → P row → P (f row)
  | _ => True

def Action.Keeps (P : Row → Prop) : Action Row Label Extra → Prop
  | .exec statement => statement.Keeps P
  | _ => True

/-- The script, whatever the replies, has statements that keep the property only. -/
abbrev Keeping (P : Row → Prop) (script : Client Row Label ExtraReply ε α) : Prop :=
  script.Calls (Action.Keeps P)

theorem Keeping.sql [ClientError ε] {statement : Statement Row} (keeps : statement.Keeps P) :
    Keeping P (Postgres.sql statement : Client Row Label ExtraReply ε (List Row)) := sql_calls trivial keeps

theorem Keeping.transaction [ClientError ε] (label : Label) {body : Client Row Label ExtraReply ε α}
    (keeping : Keeping P body) :
    Keeping P (Postgres.transaction label body) := transaction_calls trivial trivial trivial keeping

theorem Keeping.ask (request : Extra) :
    Keeping P (Postgres.ask request : Client Row Label ExtraReply ε (ExtraReply request)) :=
  ⟨trivial, fun _ => trivial⟩

/-- A sane server all of whose rows have the property. -/
structure Rowwise (P : Row → Prop) (server : Server Row Label) : Prop where
  sane : Sane server
  rows : ∀ row ∈ server.rows, P row
  added : ∀ tid, ∀ row ∈ (server.txs tid).added, P row

section Server
variable {server : Server Row Label} {pid : Tid}

theorem Rowwise.view (rowwise : Rowwise P server) {row : Row}
    (sees : row ∈ (server.txs pid).view server.rows) : P row := by
  rcases Tx.mem_view.mp sees with ⟨here, -⟩ | mine
  · exact rowwise.rows row here
  · exact rowwise.added pid row mine

theorem Rowwise.update (rowwise : Rowwise P server) {tx : Tx Row Label} (added : ∀ row ∈ tx.added, P row)
    (tid : Tid) :
    ∀ row ∈ (Function.update server.txs pid tx tid).added, P row := by
  by_cases same : tid = pid
  · subst same
    rwa [Function.update_self]
  · rw [Function.update_of_ne same]
    exact rowwise.added tid

theorem Rowwise.execute (rowwise : Rowwise P server) {statement : Statement Row} {reply : List Row}
    {after : Tx Row Label}
    (keeps : statement.Keeps P) (run : server.execute pid statement = some (.ok (reply, after))) :
    ∀ row ∈ after.added, P row := by
  have own := rowwise.added pid
  cases statement with
  | select p =>
    obtain ⟨-, rfl⟩ := execute_select run
    exact own
  | lockRows p =>
    obtain ⟨-, locked⟩ := execute_lockRows rowwise.sane run
    exact locked.added ▸ own
  | lockSkip p le limit =>
    obtain ⟨-, locked⟩ := execute_lockSkip rowwise.sane run
    exact locked.added ▸ own
  | shareKey p =>
    obtain ⟨-, rfl⟩ := execute_shareKey run
    exact own
  | delete p =>
    obtain ⟨rfl, change⟩ := execute_delete rowwise.sane run
    intro row member
    rcases (change.added row).mp member with ⟨mine, -⟩ | new
    · exact own row mine
    · cases new
  | update p f =>
    obtain ⟨rfl, change⟩ := execute_update rowwise.sane keeps.1 run
    intro row member
    rcases (change.added row).mp member with ⟨mine, -⟩ | new
    · exact own row mine
    · obtain ⟨hit, found, rfl⟩ := List.mem_map.mp new
      obtain ⟨sees, holds, -⟩ := mem_hits.mp found
      exact keeps.2 hit holds (rowwise.view sees)
  | insert rows ignore =>
    obtain ⟨change, sub, -⟩ := execute_insert run
    intro row member
    rcases (change.added row).mp member with ⟨mine, -⟩ | new
    · exact own row mine
    · exact keeps row (sub.subset new)

theorem Rowwise.rollback (rowwise : Rowwise P server) (pid : Tid) : Rowwise P (server.rollback pid) :=
  ⟨rowwise.sane.rollback pid, rowwise.rows, rowwise.update fun _ member => by cases member⟩

end Server

theorem rowwise_act {shared next : Shared Row Label World} {pid : Tid} {action : Action Row Label Extra}
    {choice : Choice}
    {reply : Answer ExtraReply action} (rowwise : Rowwise P shared.server) (keeps : action.Keeps P)
    (taken : (machine extra).act pid action choice shared = some (reply, next)) : Rowwise P next.server := by
  cases action with
  | begin label =>
    cases taken
    exact ⟨rowwise.sane.begin pid label, rowwise.rows, rowwise.update fun _ member => by cases member⟩
  | start =>
    simp only [machine, Option.some.injEq, Prod.mk.injEq] at taken
    obtain ⟨-, rfl⟩ := taken
    split
    · next opened => exact ⟨rowwise.sane.start opened, rowwise.rows, rowwise.update (rowwise.added pid)⟩
    · exact rowwise
  | exec statement =>
    simp only [machine] at taken
    split at taken
    · next opened =>
      split at taken
      · cases taken
      · next rows tx run =>
        cases taken
        exact ⟨rowwise.sane.execute opened run, rowwise.rows, rowwise.update (rowwise.execute keeps run)⟩
      · cases taken
        exact rowwise
    · cases taken
      exact rowwise
  | commit =>
    simp only [machine] at taken
    split at taken
    · cases taken
      exact ⟨rowwise.sane.commit pid, fun row member => rowwise.view member, rowwise.update
        fun _ member => by cases member⟩
    · cases taken
      exact rowwise
  | rollback =>
    cases taken
    exact rowwise.rollback pid
  | other request =>
    simp only [machine, Option.map_eq_some_iff, Prod.exists, Prod.mk.injEq] at taken
    obtain ⟨given, world, -, -, rfl⟩ := taken
    exact rowwise

-- In every run of scripts that keep a property of rows, all rows have it.
theorem rowwise_reaches {code : Call → Client Row Label ExtraReply ε α}
    (keeping : ∀ call, Keeping P (code call))
    {shared : Shared Row Label World}
    {last : Interleaving.Config Call (Action Row Label Extra) (Answer ExtraReply) ε α
    (Shared Row Label World)}
    (run : (machine extra).Reaches code {} (.start shared) last) (initial : Rowwise P shared.server) :
    Rowwise P last.state.server := by
  let holds (state : Shared Row Label World) : Prop := Rowwise P state.server
  suffices all : holds last.state from all
  refine (run.calls keeping fun _ => rfl).1.invariant initial ?_ ?_ ?_
  · exact fun pid action choice state reply next rowwise keeps taken => rowwise_act rowwise keeps taken
  · intro pid choice state next rowwise _ disturbed
    simp only [machine] at disturbed
    split at disturbed
    · cases disturbed
      exact rowwise.rollback pid
    · cases disturbed
  · exact fun pid state rowwise _ => rowwise.rollback pid

end OpenEmarsys.Postgres
