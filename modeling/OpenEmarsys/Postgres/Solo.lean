import OpenEmarsys.Postgres.Effects

/-! One client that has the database to itself, whatever else it asks.

Statements apply at once, as in `Alone`; how its other requests are answered is left
open, as in the machine. `Leads` says what a script comes to under every answer.
-/

set_option autoImplicit false

namespace OpenEmarsys.Postgres

open Interleaving

structure Solo (Row World : Type) where
  rows : List Row
  /-- What the open transaction sees. -/
  working : Option (List Row)
  world : World

section
variable {Row Label Extra World Choice : Type} [Indexed Row] {ExtraReply : Extra → Type} {ε α β : Type}
  (extra : Tid → (request : Extra) → Choice → Shared Row Label World → Option (ExtraReply request × World))

def Solo.answer : (action : Action Row Label Extra) → Choice → Solo Row World →
    Option (Answer ExtraReply action × Solo Row World)
  | .begin _, _, db => some ((), { db with working := some db.rows })
  | .start, _, db => some ((), db)
  | .exec statement, _, db =>
      match db.working with
      | none => some (.error .closed, db)
      | some rows =>
          match statement.apply rows with
          | .ok (found, after) => some (.ok found, { db with working := some after })
          | .error error => some (.error error, db)
  | .commit, _, db =>
      match db.working with
      | none => some (.error .closed, db)
      | some rows => some (.ok (), { db with rows := rows, working := none })
  | .rollback, _, db => some ((), { db with working := none })
  | .other request, choice, db =>
      (extra 0 request choice ⟨.holding db.rows, db.world⟩).map
        fun (reply, world) => (reply, { db with world := world })

/-- Outside transactions: the rows and the world a script comes to, with its result. -/
def Leads (script : Client Row Label ExtraReply ε α) (rows : List Row) (world : World)
    (post : Except ε α → List Row → World → Prop) : Prop :=
  script.Ends (Solo.answer extra)
    (fun result db => ∃ rows world, db = ⟨rows, none, world⟩ ∧ post result rows world) ⟨rows, none, world⟩

/-- The same inside an open transaction, of what it sees. -/
def LeadsIn (script : Client Row Label ExtraReply ε α) (rows : List Row) (world : World)
    (post : Except ε α → List Row → World → Prop) : Prop :=
  ∀ committed, script.Ends (Solo.answer extra)
    (fun result db => ∃ rows world, db = ⟨committed, some rows, world⟩ ∧
      post result rows world) ⟨committed, some rows, world⟩

variable {extra} {rows : List Row} {world : World} {post : Except ε α → List Row → World → Prop}
  {script : Client Row Label ExtraReply ε α} {first : Client Row Label ExtraReply ε β}
  {next : β → Client Row Label ExtraReply ε α}

namespace Leads

theorem ret {value : α} (holds : post (.ok value) rows world) :
    Leads extra (.ret value : Client Row Label ExtraReply ε α) rows world post := ⟨rows, world, rfl, holds⟩

theorem fail {error : ε} (holds : post (.error error) rows world) :
    Leads extra (.fail error : Client Row Label ExtraReply ε α) rows world post := ⟨rows, world, rfl, holds⟩

theorem mono {weaker : Except ε α → List Row → World → Prop} (leads : Leads extra script rows world post)
    (imp : ∀ result rows world, post result rows world → weaker result rows world) :
    Leads extra script rows world weaker := by
  refine Script.Ends.mono leads fun result db ended => ?_
  obtain ⟨rows, world, rfl, holds⟩ := ended
  exact ⟨rows, world, rfl, imp result rows world holds⟩

theorem bind (leads : Leads extra first rows world fun result rows world =>
      match result with
      | .ok value => Leads extra (next value) rows world post
      | .error error => post (.error error) rows world) :
    Leads extra (first >>= next) rows world post := by
  refine Script.Ends.bind (Script.Ends.mono leads fun result db ended => ?_)
  obtain ⟨rows, world, rfl, holds⟩ := ended
  cases result with
  | ok value => exact holds
  | error error => exact ⟨rows, world, rfl, holds⟩

theorem handle {handler : ε → Client Row Label ExtraReply ε α}
    (leads : Leads extra script rows world fun result rows world =>
      match result with
      | .ok value => post (.ok value) rows world
      | .error error => Leads extra (handler error) rows world post) :
    Leads extra (script.handle handler) rows world post := by
  refine Script.Ends.handle (Script.Ends.mono leads fun result db ended => ?_)
  obtain ⟨rows, world, rfl, holds⟩ := ended
  cases result with
  | ok value => exact ⟨rows, world, rfl, holds⟩
  | error error => exact holds

theorem ask {request : Extra} {post : Except ε (ExtraReply request) → List Row → World → Prop}
    (holds : ∀ choice reply after, extra 0 request choice ⟨.holding rows, world⟩ = some (reply, after) →
      post (.ok reply) rows after) :
    Leads extra (Postgres.ask request : Client Row Label ExtraReply ε
      (ExtraReply request)) rows world post := by
  intro choice reply db taken
  simp only [Solo.answer, Option.map_eq_some_iff, Prod.exists, Prod.mk.injEq] at taken
  obtain ⟨given, after, found, rfl, rfl⟩ := taken
  exact ⟨rows, after, rfl, holds choice given after found⟩

end Leads

namespace LeadsIn

theorem ret {value : α} (holds : post (.ok value) rows world) :
    LeadsIn extra (.ret value : Client Row Label ExtraReply ε α) rows world post :=
  fun _ => ⟨rows, world, rfl, holds⟩

theorem fail {error : ε} (holds : post (.error error) rows world) :
    LeadsIn extra (.fail error : Client Row Label ExtraReply ε α) rows world post :=
  fun _ => ⟨rows, world, rfl, holds⟩

theorem mono {weaker : Except ε α → List Row → World → Prop} (leads : LeadsIn extra script rows world post)
    (imp : ∀ result rows world, post result rows world → weaker result rows world) :
    LeadsIn extra script rows world weaker := by
  refine fun committed => (leads committed).mono fun result db ended => ?_
  obtain ⟨rows, world, rfl, holds⟩ := ended
  exact ⟨rows, world, rfl, imp result rows world holds⟩

theorem bind (leads : LeadsIn extra first rows world fun result rows world =>
      match result with
      | .ok value => LeadsIn extra (next value) rows world post
      | .error error => post (.error error) rows world) :
    LeadsIn extra (first >>= next) rows world post := by
  refine fun committed => Script.Ends.bind ((leads committed).mono fun result db ended => ?_)
  obtain ⟨rows, world, rfl, holds⟩ := ended
  cases result with
  | ok value => exact holds committed
  | error error => exact ⟨rows, world, rfl, holds⟩

variable [ClientError ε]

theorem sql {statement : Statement Row} {post : Except ε (List Row) → List Row → World → Prop}
    (holds : match statement.apply rows with
      | .ok (found, after) => post (.ok found) after world
      | .error error => post (.error (ClientError.sql error)) rows world) :
    LeadsIn extra (Postgres.sql statement : Client Row Label ExtraReply ε (List Row)) rows world post := by
  intro committed choice reply db taken
  cases taken
  intro choice reply db taken
  cases result : statement.apply rows with
  | ok found =>
      simp only [Solo.answer, result, Option.some.injEq, Prod.mk.injEq] at taken holds
      obtain ⟨rfl, rfl⟩ := taken
      exact ⟨_, world, rfl, holds⟩
  | error error =>
      simp only [Solo.answer, result, Option.some.injEq, Prod.mk.injEq] at taken holds
      obtain ⟨rfl, rfl⟩ := taken
      exact ⟨_, world, rfl, holds⟩

theorem select {p : Row → Bool} {post : Except ε (List Row) → List Row → World → Prop}
    (holds : post (.ok (rows.filter p)) rows world) :
    LeadsIn extra (Postgres.sql (.select p) : Client Row Label ExtraReply ε (List Row)) rows world post :=
  sql holds

end LeadsIn

variable [ClientError ε]

theorem Leads.transaction {label : Label} {body : Client Row Label ExtraReply ε α}
    (leads : LeadsIn extra body rows world fun result after later =>
      match result with
      | .ok value => post (.ok value) after later
      | .error error => post (.error error) rows later) :
    Leads extra (Postgres.transaction label body) rows world post := by
  intro choice reply db taken
  cases taken
  refine Script.Ends.handle (Script.Ends.bind ((leads rows).mono fun result db ended => ?_))
  obtain ⟨after, later, rfl, holds⟩ := ended
  cases result with
  | ok value =>
      intro choice reply db taken
      cases taken
      exact ⟨after, later, rfl, holds⟩
  | error error =>
      intro choice reply db taken
      cases taken
      exact ⟨rows, later, rfl, holds⟩

theorem Leads.returns {label : Label} {body : Client Row Label ExtraReply ε α} {post : α → List Row → Prop}
    (leads : LeadsIn extra body rows world fun result after _ => ∀ value,
      result = .ok value → post value after) :
    Leads extra (Postgres.transaction label body) rows world
    fun result after _ => ∀ value, result = .ok value → post value after := by
  refine Leads.transaction (leads.mono fun result after later holds => ?_)
  cases result with
  | ok value => exact holds
  | error error => exact fun value same => by cases same

end

end OpenEmarsys.Postgres
