import OpenEmarsys.Postgres.Effects
import OpenEmarsys.Postgres.Superposition

/-! Scripts that have the database to themselves: each statement applies at once.

For sequences of complete calls this is all there is to the server. A script is run
by `Script.eval`; the rules below take it apart at its statements and transactions.
An observer who sees something of some calls sees it of the whole run, in order.
-/

set_option autoImplicit false

namespace OpenEmarsys.Postgres

open Interleaving

variable {Row Label Extra : Type} [Indexed Row] {ExtraReply : Extra → Type} {ε α β : Type}

structure Alone (Row : Type) where
  rows : List Row
  /-- What the open transaction sees. -/
  working : Option (List Row)

def Alone.answer (replies : (request : Extra) → ExtraReply request) :
    (action : Action Row Label Extra) → Alone Row → Answer ExtraReply action × Alone Row
  | .begin _, db => ((), { db with working := some db.rows })
  | .start, db => ((), db)
  | .exec statement, db =>
      match db.working with
      | none => (.error .closed, db)
      | some rows =>
          match statement.apply rows with
          | .ok (found, after) => (.ok found, { db with working := some after })
          | .error error => (.error error, db)
  | .commit, db =>
      match db.working with
      | none => (.error .closed, db)
      | some rows => (.ok (), ⟨rows, none⟩)
  | .rollback, db => ((), { db with working := none })
  | .other request, db => (replies request, db)

variable (replies : (request : Extra) → ExtraReply request)

/-- What a script ends with when it runs alone, and the rows it leaves. -/
def alone (script : Client Row Label ExtraReply ε α) (rows : List Row) : Except ε α × List Row :=
  let (result, db) := script.eval (Alone.answer replies) ⟨rows, none⟩
  (result, db.rows)

def Runs (script : Client Row Label ExtraReply ε α) (rows : List Row) (result : Except ε α)
    (after : List Row) : Prop :=
  script.eval (Alone.answer replies) ⟨rows, none⟩ = (result, ⟨after, none⟩)

def RunsIn (script : Client Row Label ExtraReply ε α) (rows : List Row) (result : Except ε α)
    (after : List Row) : Prop :=
  ∀ committed, script.eval (Alone.answer replies) ⟨committed, some rows⟩ = (result, ⟨committed, some after⟩)

variable {replies}

namespace Runs

variable {rows middle after : List Row} {script : Client Row Label ExtraReply ε α} {result : Except ε α}

theorem alone (runs : Runs replies script rows result after) :
    Postgres.alone replies script rows = (result, after) := by
  rw [Postgres.alone, show _ = _ from runs]

theorem ret (value : α) : Runs replies (.ret value : Client Row Label ExtraReply ε α) rows
    (.ok value) rows := rfl

theorem fail (error : ε) : Runs replies (.fail error : Client Row Label ExtraReply ε α) rows
    (.error error) rows := rfl

theorem ask (request : Extra) :
    Runs replies (Postgres.ask request : Client Row Label ExtraReply ε (ExtraReply request)) rows
    (.ok (replies request)) rows := rfl

variable {first : Client Row Label ExtraReply ε β} {next : β → Client Row Label ExtraReply ε α}

theorem bind {value : β} (head : Runs replies first rows (.ok value) middle)
    (tail : Runs replies (next value) middle result after) :
    Runs replies (first >>= next) rows result after := by
  rw [Runs, Script.eval_bind, show _ = _ from head]
  exact tail

theorem seq {first : Client Row Label ExtraReply ε Unit} {next : Unit → Client Row Label ExtraReply ε α}
    (head : Runs replies first rows (.ok ()) middle) (tail : Runs replies (next ()) middle result after) :
    Runs replies (first >>= next) rows result after := head.bind tail

theorem bind_error {error : ε} (head : Runs replies first rows (.error error) after) :
    Runs replies (first >>= next) rows (.error error) after := by
  rw [Runs, Script.eval_bind, show _ = _ from head]

theorem map (runs : Runs replies script rows result after) (f : α → β) :
    Runs replies (script >>= fun value => .ret (f value)) rows (result.map f) after := by
  cases result with
  | ok value => exact runs.bind (.ret _)
  | error error => exact runs.bind_error

end Runs

namespace RunsIn

variable {rows middle after : List Row} {result : Except ε α}

theorem ret (value : α) : RunsIn replies (.ret value : Client Row Label ExtraReply ε α) rows
    (.ok value) rows := fun _ => rfl

theorem fail (error : ε) : RunsIn replies (.fail error : Client Row Label ExtraReply ε α) rows
    (.error error) rows := fun _ => rfl

variable {first : Client Row Label ExtraReply ε β} {next : β → Client Row Label ExtraReply ε α}

theorem bind {value : β} (head : RunsIn replies first rows (.ok value) middle)
    (tail : RunsIn replies (next value) middle result after) :
    RunsIn replies (first >>= next) rows result after := by
  intro committed
  rw [Script.eval_bind, head committed]
  exact tail committed

theorem bind_error {error : ε} (head : RunsIn replies first rows (.error error) after) :
    RunsIn replies (first >>= next) rows (.error error) after := by
  intro committed
  rw [Script.eval_bind, head committed]

variable [ClientError ε] {statement : Statement Row}

theorem sql {found : List Row} (applies : statement.apply rows = .ok (found, after)) :
    RunsIn replies (Postgres.sql statement : Client Row Label ExtraReply ε (List Row)) rows
    (.ok found) after := by
  intro committed
  simp [Postgres.sql, Alone.answer, applies, orThrow]

theorem sql_error {error : SqlError} (fails : statement.apply rows = .error error) :
    RunsIn replies (Postgres.sql statement : Client Row Label ExtraReply ε (List Row)) rows
    (.error (ClientError.sql error)) rows := by
  intro committed
  simp [Postgres.sql, Alone.answer, fails, orThrow]

end RunsIn

section Transactions
variable [ClientError ε] {label : Label} {body : Client Row Label ExtraReply ε α} {rows after : List Row}

theorem Runs.transaction {value : α} (runs : RunsIn replies body rows (.ok value) after) :
    Runs replies (Postgres.transaction label body) rows (.ok value) after := by
  simp only [Runs, Postgres.transaction, Script.eval_call, Script.eval_handle, Script.eval_bind,
    Alone.answer, runs rows]
  rfl

theorem Runs.transaction_error {error : ε} (runs : RunsIn replies body rows (.error error) after) :
    Runs replies (Postgres.transaction label body) rows (.error error) rows := by
  simp only [Runs, Postgres.transaction, Script.eval_call, Script.eval_handle, Script.eval_bind,
    Alone.answer, runs rows]
  rfl

end Transactions

section Seen
variable {Sight : Type} (replies) (see : (action : Action Row Label Extra) →
  Answer ExtraReply action → List Sight)

/-- What is seen of a script that has the database to itself. -/
def seen (script : Client Row Label ExtraReply ε α) (rows : List Row) : List Sight :=
  script.sights (Alone.answer replies) see ⟨rows, none⟩

/-- Nothing is seen of the call, whatever its answer. -/
def Unseen (action : Action Row Label Extra) : Prop := ∀ reply, see action reply = []

variable {replies see} {rows middle : List Row} {first : Client Row Label ExtraReply ε β} {next : β →
  Client Row Label ExtraReply ε α}

theorem sights_unseen {script : Client Row Label ExtraReply ε α} (quiet : script.Calls (Unseen see))
    (db : Alone Row) :
    script.sights (Alone.answer replies) see db = [] := by
  induction script generalizing db with
  | ret value => rfl
  | fail error => rfl
  | call action rest ih =>
    obtain ⟨unseen, later⟩ := quiet
    exact (congrArg (· ++ _) (unseen _)).trans (ih _ (later _) _)

theorem seen_unseen {script : Client Row Label ExtraReply ε α} (quiet : script.Calls (Unseen see)) :
    seen replies see script rows = [] :=
  sights_unseen quiet _

theorem Runs.seen_bind {value : β} (runs : Runs replies first rows (.ok value) middle) :
    seen replies see (first >>= next) rows = seen replies see first rows ++ seen replies see
    (next value) middle := by
  rw [seen, Script.sights_bind, show _ = _ from runs]
  rfl

theorem Runs.seen_error {error : ε} (runs : Runs replies first rows (.error error) middle) :
    seen replies see (first >>= next) rows = seen replies see first rows := by
  rw [seen, Script.sights_bind, show _ = _ from runs, List.append_nil]
  rfl

theorem Runs.seen_next {value : β} (runs : Runs replies first rows (.ok value) middle)
    (quiet : first.Calls (Unseen see)) :
    seen replies see (first >>= next) rows = seen replies see (next value) middle := by
  rw [runs.seen_bind, seen_unseen quiet, List.nil_append]

theorem seen_first (quiet : ∀ value, (next value).Calls (Unseen see)) :
    seen replies see (first >>= next) rows = seen replies see first rows := by
  rw [seen, Script.sights_bind]
  split
  · rw [sights_unseen (quiet _), List.append_nil]
    rfl
  · exact List.append_nil _

theorem seen_query [ClientError ε] {label : Label} {statement : Statement Row} {found after : List Row}
    (begins : Unseen see (.begin label)) (starts : Unseen see .start) (commits : Unseen see .commit)
    (applies : statement.apply rows = .ok (found, after)) :
    seen replies see (transaction label (sql statement) : Client Row Label ExtraReply ε (List Row)) rows =
      see (.exec statement) (.ok found) := by
  simp only [seen, transaction, sql, Script.bind_call, Script.handle, Script.sights, Alone.answer, applies,
    orThrow, commitOrThrow,
    Script.bind_ret, begins (), starts (), commits (.ok ()), List.nil_append, List.append_nil]

end Seen

structure Rewritten (p : Row → Bool) (f : Row → Row) (rows after : List Row) : Prop where
  apart : after.Pairwise NoClash
  mem : ∀ row, row ∈ after ↔ (row ∈ rows ∧ p row = false) ∨ ∃ old ∈ rows, p old = true ∧ f old = row

theorem updateRows_keyed {f : Row → Row} (keyed : ∀ row, keys (f row) = keys row) {hits db : List Row}
    (apart : db.Pairwise NoClash) (within : ∀ row ∈ hits, row ∈ db) (distinct : hits.Pairwise NoClash) :
    ∃ after, updateRows f hits db = .ok (hits.map f, after) ∧ after.Pairwise NoClash ∧
      ∀ row, row ∈ after ↔ (row ∈ db ∧ row ∉ hits) ∨ row ∈ hits.map f := by
  induction hits generalizing db with
  | nil => exact ⟨db, rfl, apart, by simp⟩
  | cons hit rest ih =>
    obtain ⟨clear, later⟩ := List.pairwise_cons.mp distinct
    have present := within hit (List.mem_cons_self ..)
    have others : ∀ row, row ∈ db.filter (fun other => !sameRow hit other) ↔ row ∈ db ∧ row ≠ hit := by
      intro row
      rw [List.mem_filter, Bool.not_eq_eq_eq_not, Bool.not_true, Bool.eq_false_iff, ne_eq, sameRow_iff]
      refine and_congr_right fun member => not_congr ⟨fun same => ?_, fun same => by rw [same]⟩
      exact (eq_of_primary apart present member same).symm
    have free : ∀ row ∈ db.filter (fun other => !sameRow hit other), clash (f hit) row = false := by
      intro row member
      obtain ⟨here, differs⟩ := (others row).mp member
      rw [Bool.eq_false_iff]
      intro meets
      have meets : clash hit row = true := by
        rw [clash_iff] at meets ⊢
        rwa [keyed] at meets
      exact differs (eq_of_clash apart present here meets).symm
    have unclashed : ¬ (db.filter (fun other => !sameRow hit other)).any (clash (f hit)) = true := by
      rw [List.any_eq_true]
      rintro ⟨row, member, meets⟩
      rw [free row member] at meets
      cases meets
    have apartNext : (db.filter (fun other => !sameRow hit other) ++ [f hit]).Pairwise NoClash := by
      refine List.pairwise_append.mpr ⟨apart.filter _, List.pairwise_singleton ..,
        fun row member other is => ?_⟩
      rw [List.mem_singleton.mp is, NoClash, clash_comm]
      exact free row member
    have withinNext : ∀ row ∈ rest, row ∈ db.filter (fun other => !sameRow hit other) ++ [f hit] := by
      intro row member
      refine List.mem_append_left _
        ((others row).mpr ⟨within row (List.mem_cons_of_mem _ member), fun same => ?_⟩)
      have absurd_ := clear row member
      rw [same, NoClash, clash_refl] at absurd_
      cases absurd_
    obtain ⟨after, run, apartAfter, mem⟩ := ih apartNext withinNext later
    refine ⟨after, ?_, apartAfter, fun row => ?_⟩
    · simp only [updateRows]
      rw [if_neg unclashed, run]
      rfl
    · have notRest : f hit ∉ rest := fun member => by
        have absurd_ := clear (f hit) member
        have meets : clash hit (f hit) = true := clash_of_sameRow (sameRow_iff.mpr (by
          have same := congrArg List.head? (keyed hit)
          simpa [keys] using same.symm))
        rw [NoClash, meets] at absurd_
        cases absurd_
      rw [mem, List.mem_append, others, List.mem_singleton, List.mem_cons, List.map_cons, List.mem_cons]
      constructor
      · rintro (⟨⟨here, differs⟩ | rfl, notRest⟩ | member)
        · exact .inl ⟨here, not_or.mpr ⟨differs, notRest⟩⟩
        · exact .inr (.inl rfl)
        · exact .inr (.inr member)
      · rintro (⟨here, not_⟩ | rfl | member)
        · exact .inl ⟨.inl ⟨here, (not_or.mp not_).1⟩, (not_or.mp not_).2⟩
        · exact .inl ⟨.inr rfl, notRest⟩
        · exact .inr member

theorem update_applies {p : Row → Bool} {f : Row → Row} (keyed : ∀ row, keys (f row) = keys row)
    {rows : List Row} (apart : rows.Pairwise NoClash) :
    ∃ after, (Statement.update p f).apply rows = .ok ((rows.filter p).map f, after) ∧
    Rewritten p f rows after := by
  obtain ⟨after, run, apartAfter, mem⟩ :=
    updateRows_keyed keyed apart (fun row member => (List.mem_filter.mp member).1)
    (apart.filter p)
  refine ⟨after, run, apartAfter, fun row => ?_⟩
  rw [mem, List.mem_map]
  refine or_congr (and_congr_right fun here => ?_) ?_
  · simp [here]
  · simp [List.mem_filter, and_assoc]

end OpenEmarsys.Postgres
