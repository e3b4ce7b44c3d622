import OpenEmarsys.Postgres.Alone

/-! A script alone with the database, and a connection that is lost on the way.

The calls before the fault take effect. Then the script throws, for its handlers only
roll back and rethrow, and an open transaction is rolled back.
-/

set_option autoImplicit false

namespace OpenEmarsys.Postgres

open Interleaving

variable {Row Label Extra : Type} [Indexed Row] {ExtraReply : Extra → Type} {ε α β : Type}

section
variable (error : ε)

/-- The connection is lost when so many calls have taken effect; if that is all of them,
the reply to the last one is lost. -/
def cut : Nat → Client Row Label ExtraReply ε α → Client Row Label ExtraReply ε α
  | 0, _ => .call .rollback fun _ => .fail error
  | _ + 1, .ret value => .ret value
  | _ + 1, .fail thrown => .fail thrown
  | more + 1, .call act rest => .call act fun reply => cut more (rest reply)

def faulty (fault : Option Nat) (script : Client Row Label ExtraReply ε α) :
    Client Row Label ExtraReply ε α :=
  match fault with
  | none => script
  | some calls => cut error calls script

end

section
variable (replies : (request : Extra) → ExtraReply request) (rows : List Row)

/-- So many calls lead from one point of a script to another; before each of them, these rows are the
committed ones. -/
inductive Steps : Nat → Client Row Label ExtraReply ε α → Alone Row → Client Row Label ExtraReply ε α →
  Alone Row → Prop where
  | refl (script : Client Row Label ExtraReply ε α) (db : Alone Row) : Steps 0 script db script db
  | call {act : Action Row Label Extra} {rest : Answer ExtraReply act →
    Client Row Label ExtraReply ε α} {db last : Alone Row}
      {count : Nat} {script : Client Row Label ExtraReply ε α} (committed : db.rows = rows)
      (later : Steps count (rest (Alone.answer replies act db).1)
        (Alone.answer replies act db).2 script last) :
      Steps (count + 1) (.call act rest) db script last

end

namespace Steps

variable {replies : (request : Extra) → ExtraReply request} {rows seen after : List Row} {count more : Nat}
  {script last final : Client Row Label ExtraReply ε α} {db middle done : Alone Row}

theorem trans (first : Steps replies rows count script db last middle)
    (second : Steps replies rows more last middle final done) :
    Steps replies rows (count + more) script db final done := by
  induction first with
  | refl => rwa [Nat.zero_add]
  | call committed _ ih =>
    rw [Nat.add_right_comm]
    exact .call committed (ih second)

theorem bind {first rest : Client Row Label ExtraReply ε β}
    (steps : Steps replies rows count first db rest middle)
    (next : β → Client Row Label ExtraReply ε α) : Steps replies rows count (first >>= next) db
    (rest >>= next) middle := by
  induction steps with
  | refl => exact .refl _ _
  | call committed _ ih => exact .call committed ih

theorem handle (steps : Steps replies rows count script db last middle)
    (handler : ε → Client Row Label ExtraReply ε α) :
    Steps replies rows count (script.handle handler) db (last.handle handler) middle := by
  induction steps with
  | refl => exact .refl _ _
  | call committed _ ih => exact .call committed ih

theorem next {first : Client Row Label ExtraReply ε β} {value : β}
    {following : β → Client Row Label ExtraReply ε α} {all : Nat}
    (head : Steps replies rows count first db (.ret value) middle)
    (tail : Steps replies rows more (following value) middle final done)
    (sum : count + more = all := by rfl) : Steps replies rows all (first >>= following) db final done :=
  sum ▸ (head.bind following).trans tail

theorem throws {first : Client Row Label ExtraReply ε β} {error : ε}
    {following : β → Client Row Label ExtraReply ε α}
    (head : Steps replies rows count first db (.fail error) middle) :
    Steps replies rows count (first >>= following) db (.fail error) middle := head.bind following

theorem ask (request : Extra) :
    Steps replies rows 1 (Postgres.ask request : Client Row Label ExtraReply ε (ExtraReply request)) ⟨rows,
      none⟩
      (.ret (replies request)) ⟨rows, none⟩ := .call rfl (.refl _ _)

section Sql
variable [ClientError ε] {statement : Statement Row}

theorem sql {found : List Row} (applies : statement.apply seen = .ok (found, after)) :
    Steps replies rows 2 (Postgres.sql statement : Client Row Label ExtraReply ε (List Row)) ⟨rows, some seen⟩
    (.ret found)
      ⟨rows, some after⟩ := by
  refine .call rfl (.call rfl ?_)
  simp only [Alone.answer, applies, orThrow]
  exact .refl _ _

theorem sql_error {error : SqlError} (fails : statement.apply seen = .error error) :
    Steps replies rows 2 (Postgres.sql statement : Client Row Label ExtraReply ε (List Row)) ⟨rows, some seen⟩
      (.fail (ClientError.sql error)) ⟨rows, some seen⟩ := by
  refine .call rfl (.call rfl ?_)
  simp only [Alone.answer, fails, orThrow]
  exact .refl _ _

variable {label : Label} {body : Client Row Label ExtraReply ε α}

theorem transaction {value : α} (inside : Steps replies rows count body ⟨rows,
    some rows⟩ (.ret value) ⟨rows, some after⟩) :
    Steps replies rows (count + 2) (Postgres.transaction label body) ⟨rows, none⟩
    (.ret value) ⟨after, none⟩ := by
  refine .call rfl (((inside.bind commitOrThrow).handle _).trans ?_)
  exact .call rfl (.refl _ _)

theorem transaction_error {error : ε}
    (inside : Steps replies rows count body ⟨rows, some rows⟩ (.fail error) ⟨rows, some after⟩) :
    Steps replies rows (count + 2) (Postgres.transaction label body) ⟨rows, none⟩
    (.fail error) ⟨rows, none⟩ := by
  refine .call rfl (((inside.bind commitOrThrow).handle _).trans ?_)
  exact .call rfl (.refl _ _)

end Sql

variable {error : ε} {calls : Nat}

theorem eval_early (steps : Steps replies rows count script db last middle) (early : calls < count) :
    (cut error calls script).eval (Alone.answer replies) db = (.error error, ⟨rows, none⟩) := by
  induction steps generalizing calls with
  | refl => cases early
  | call committed _ ih =>
    cases calls with
    | zero => simp [cut, Alone.answer, committed]
    | succ calls => exact ih (Nat.lt_of_succ_lt_succ early)

theorem eval_late (steps : Steps replies rows count script db last middle) (late : count ≤ calls) :
    (cut error calls script).eval (Alone.answer replies) db = (cut error (calls - count) last).eval
    (Alone.answer replies) middle := by
  induction steps generalizing calls with
  | refl => rfl
  | call committed _ ih =>
    cases calls with
    | zero => cases late
    | succ calls =>
      rw [Nat.add_sub_add_right]
      exact ih (Nat.le_of_succ_le_succ late)

theorem eval (steps : Steps replies rows count script db last middle) :
    script.eval (Alone.answer replies) db = last.eval (Alone.answer replies) middle := by
  induction steps with
  | refl => rfl
  | call committed _ ih => exact ih

variable {fault : Option Nat}

theorem alone_early (steps : Steps replies rows count script ⟨rows, none⟩ last middle)
    (early : calls < count) :
    alone replies (faulty error (some calls) script) rows = (.error error, rows) := by
  rw [alone, faulty, steps.eval_early early]

theorem alone_late (steps : Steps replies rows count script ⟨rows, none⟩ last ⟨after, none⟩)
    (late : ∀ calls ∈ fault, count ≤ calls) :
    alone replies (faulty error fault script) rows = alone replies
    (faulty error (fault.map (· - count)) last) after := by
  cases fault with
  | none => rw [alone, faulty, steps.eval]; rfl
  | some calls => rw [alone, faulty, steps.eval_late (late calls rfl)]; rfl

end Steps

variable {replies : (request : Extra) → ExtraReply request} {rows : List Row} {error : ε} {fault : Option Nat}

theorem alone_fail (thrown : ε) :
    ∃ thrown', alone replies (faulty error fault (.fail thrown : Client Row Label ExtraReply ε α)) rows =
    (.error thrown', rows) := by
  match fault with
  | none => exact ⟨thrown, rfl⟩
  | some 0 => exact ⟨error, rfl⟩
  | some (_ + 1) => exact ⟨thrown, rfl⟩

-- The end of a script is reached unless the reply to its last call is lost.
theorem alone_ret (value : α) :
    alone replies (faulty error fault (.ret value : Client Row Label ExtraReply ε α)) rows =
      (if fault = some 0 then .error error else .ok value, rows) :=
  match fault with
  | none => rfl
  | some 0 => rfl
  | some (_ + 1) => rfl

-- A script that throws does so wherever the connection is lost.
theorem alone_throws (error : ε) (fault : Option Nat) {script : Client Row Label ExtraReply ε α} {count : Nat}
    {thrown : ε} (steps : Steps replies rows count script ⟨rows, none⟩ (.fail thrown) ⟨rows, none⟩) :
    ∃ thrown', alone replies (faulty error fault script) rows = (.error thrown', rows) := by
  by_cases late : ∀ calls ∈ fault, count ≤ calls
  · obtain ⟨last, ends⟩ : ∃ last,
      alone replies (faulty error (fault.map (· - count)) (.fail thrown : Client Row Label ExtraReply ε α))
        rows = (.error last, rows) := alone_fail thrown
    exact ⟨last, (steps.alone_late late).trans ends⟩
  · push Not at late
    obtain ⟨calls, rfl, early⟩ := late
    exact ⟨error, steps.alone_early early⟩

-- A script that returns does so if the connection outlives its last call.
theorem alone_returns (error : ε) (fault : Option Nat) {script : Client Row Label ExtraReply ε α}
    {after : List Row} {count : Nat} {value : α}
    (steps : Steps replies rows count script ⟨rows, none⟩ (.ret value) ⟨after, none⟩) :
    alone replies (faulty error fault script) rows = (.ok value, after) ∧ (∀ calls ∈ fault, count < calls) ∨
      (alone replies (faulty error fault script) rows = (.error error, rows) ∨
        alone replies (faulty error fault script) rows = (.error error, after)) ∧
        ∃ calls ∈ fault, calls ≤ count := by
  by_cases late : ∀ calls ∈ fault, count ≤ calls
  · rw [steps.alone_late late, alone_ret]
    by_cases lost : fault = some count
    · subst lost
      exact .inr ⟨.inr (by simp), count, rfl, Nat.le_refl count⟩
    · have more : ∀ calls ∈ fault, count < calls := fun calls member =>
        Nat.lt_of_le_of_ne (late calls member) fun same => lost (same ▸ member)
      refine .inl ⟨?_, more⟩
      rw [if_neg]
      intro none_
      obtain ⟨calls, member, gone⟩ := Option.map_eq_some_iff.mp none_
      have := more calls member
      omega
  · push Not at late
    obtain ⟨calls, rfl, early⟩ := late
    exact .inr ⟨.inl (steps.alone_early early), calls, rfl, Nat.le_of_lt early⟩

end OpenEmarsys.Postgres
