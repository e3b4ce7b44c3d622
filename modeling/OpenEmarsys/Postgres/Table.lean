import Mathlib.Data.List.Sort
import Mathlib.Data.List.Basic

/-! Rows and statements of a PostgreSQL database, one transaction at a time.

A database is the list of its rows, whatever their table. A row has a primary key
and the entries it puts into the other unique indexes.
-/

set_option autoImplicit false

namespace OpenEmarsys.Postgres

/-- Unique indexes: rows that share a key cannot both be in the table. -/
class Indexed (Row : Type) where
  Key : Type
  decideKey : DecidableEq Key
  primary : Row → Key
  uniques : Row → List Key

instance {Row : Type} [Indexed Row] : DecidableEq (Indexed.Key Row) := Indexed.decideKey

instance {Row : Type} [Indexed Row] : LawfulBEq (Indexed.Key Row) := inferInstance

export Indexed (Key primary)

variable {Row : Type} [Indexed Row]

def keys (row : Row) : List (Key Row) := primary row :: Indexed.uniques row

def clash (row other : Row) : Bool := (keys row).any fun key => decide (key ∈ keys other)

def sameRow (row other : Row) : Bool := decide (primary row = primary other)

inductive SqlError where
  /-- 23505, a unique violation. -/
  | unique
  /-- 22P05 or 22021, a string that text and jsonb cannot hold. -/
  | untranslatable
  /-- The server has rolled the transaction back: timeout, deadlock, lost connection. -/
  | closed
  deriving DecidableEq, Repr

inductive Statement (Row : Type) where
  | select (p : Row → Bool)
  /-- `SELECT … FOR UPDATE`. -/
  | lockRows (p : Row → Bool)
  /-- `SELECT … ORDER BY … LIMIT … FOR UPDATE SKIP LOCKED`. -/
  | lockSkip (p : Row → Bool) (le : Row → Row → Bool) (limit : Nat)
  /-- `SELECT … FOR KEY SHARE`, what a foreign key check does to the parent row. -/
  | shareKey (p : Row → Bool)
  | delete (p : Row → Bool)
  | update (p : Row → Bool) (f : Row → Row)
  /-- `INSERT`, with `ON CONFLICT DO NOTHING` when `ignore`. Replies with the rows inserted. -/
  | insert (rows : List Row) (ignore : Bool)

def insertRows (ignore : Bool) : List Row → List Row → Except SqlError (List Row × List Row)
  | [], db => .ok ([], db)
  | row :: rest, db =>
      if db.any (clash row) then
        if ignore then insertRows ignore rest db else .error .unique
      else
        match insertRows ignore rest (db ++ [row]) with
        | .ok (inserted, after) => .ok (row :: inserted, after)
        | .error error => .error error

/-- Rows are updated one after the other, each new version checked against the
unique indexes as they are at that moment. -/
def updateRows (f : Row → Row) : List Row → List Row → Except SqlError (List Row × List Row)
  | [], db => .ok ([], db)
  | row :: rest, db =>
      let others := db.filter fun other => !sameRow row other
      if others.any (clash (f row)) then .error .unique
      else
        match updateRows f rest (others ++ [f row]) with
        | .ok (updated, after) => .ok (f row :: updated, after)
        | .error error => .error error

/-- What a statement replies and leaves behind when no other transaction is open.
A statement that fails leaves nothing. -/
def Statement.apply : Statement Row → List Row → Except SqlError (List Row × List Row)
  | .select p, db => .ok (db.filter p, db)
  | .lockRows p, db => .ok (db.filter p, db)
  | .lockSkip p le limit, db =>
      .ok (((db.filter p).insertionSort (fun a b => le a b = true)).take limit, db)
  | .shareKey p, db => .ok (db.filter p, db)
  | .delete p, db => .ok (db.filter p, db.filter fun row => !p row)
  | .update p f, db => updateRows f (db.filter p) db
  | .insert rows ignore, db => insertRows ignore rows db

@[simp] theorem sameRow_refl (row : Row) : sameRow row row = true := by simp [sameRow]

theorem clash_refl (row : Row) : clash row row = true := by simp [clash, keys]

theorem clash_iff {row other : Row} : clash row other = true ↔ ∃ key, key ∈ keys row ∧ key ∈ keys other := by
  simp [clash]

theorem clash_comm (row other : Row) : clash row other = clash other row := by
  rw [Bool.eq_iff_iff, clash_iff, clash_iff]
  exact exists_congr fun key => And.comm

theorem clash_of_sameRow {row other : Row} (same : sameRow row other = true) : clash row other = true := by
  rw [clash_iff]
  have equal : primary row = primary other := by simpa [sameRow] using same
  exact ⟨primary row, List.mem_cons_self .., by simp [keys, equal]⟩

end OpenEmarsys.Postgres
