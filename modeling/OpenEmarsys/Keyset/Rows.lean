import Mathlib.Data.Prod.Lex
import OpenEmarsys.Javascript.Cursors
import OpenEmarsys.Javascript.Instants
import OpenEmarsys.Javascript.Uuids
import OpenEmarsys.Keyset.Pages

/-! Rows in descending order of a time and an id, and the cursors that are made of both.

Times are of the database's clock. How they are read back from text is limited to the texts that are
made of them.
-/

set_option autoImplicit false

namespace OpenEmarsys.Keyset

open Javascript

/-- The columns of `ORDER BY`. -/
abbrev Key := Nat ×ₗ Nat

/-- `(time, id) < (otherTime, otherId)`. -/
def rowLess (time id otherTime otherId : Nat) : Bool :=
  decide (time < otherTime) || (time == otherTime && decide (id < otherId))

theorem rowLess_eq (time id otherTime otherId : Nat) :
    rowLess time id otherTime otherId = decide ((toLex (time, id) : Key) < toLex (otherTime, otherId)) := by
  rw [rowLess, Bool.eq_iff_iff, decide_eq_true_eq, Prod.Lex.toLex_lt_toLex]
  simp

def day : Nat := 86400000000

def uuids : Nat := 340282366920938463463374607431768211456

theorem uuids_eq : uuids = 2 ^ 128 := by decide

/-- Rows whose times are microseconds, none more than 24 hours ahead of the clock. -/
structure Table (Row Primary : Type) (primary : Row → Primary) (id time : Row → Nat) (now : Nat) where
  rows : List Row
  distinct : (rows.map primary).Nodup
  ids : ∀ row ∈ rows, id row < uuids
  dated : ∀ row ∈ rows, time row ≤ now + day

inductive Failure where
  | badRequest (text : String)
  | notFound (text : String)
  | error (text : String)
  deriving DecidableEq

def invalidCursor : Failure := .badRequest "invalid cursor"

/-- What the database, or its driver, makes of a parameter that it cannot read. -/
def unreadable : Failure := .error "invalid input syntax"

def given (text : Option String) : Option String := text.filter (· ≠ "")

/-- `text::timestamptz` and `text::uuid`. -/
def readTime (text : String) : Except Failure Time := (parseISO text).elim (.error unreadable) .ok

def readId (text : String) : Except Failure Uuid := if isUuid text then .ok (uuidOf text)
    else .error unreadable

/-- The parts of a cursor as parameters of the query. -/
def castPair (pair : String × String) : Except Failure (Time × Uuid) := do
  let time ← readTime pair.1
  let id ← readId pair.2
  pure (time, id)

theorem readTime_toISOString {time : Time} (early : Early (time / 1000)) :
    readTime (toISOString time) = .ok time := by
  rw [readTime, parseISO_toISOString early]
  rfl

theorem readId_uuidText {id : Uuid} (small : id < 2 ^ 128) : readId (uuidText id) = .ok id := by
  obtain ⟨is, same⟩ := uuidText_isUuid small
  rw [readId, if_pos is, same]

theorem castPair_texts {time : Time} {id : Uuid} (early : Early (time / 1000)) (small : id < 2 ^ 128) :
    castPair (toISOString time, uuidText id) = .ok (time, id) := by
  simp only [castPair, readTime_toISOString early, readId_uuidText small]
  rfl

theorem encode_ne {parts : List String} (nonempty : parts ≠ []) : encode parts ≠ "" := by
  intro nothing
  have read := decode_encode parts nonempty
  rw [nothing] at read
  cases read

theorem given_encode {parts : List String} (nonempty : parts ≠ []) :
    given (some (encode parts)) = some (encode parts) := by
  rw [given, Option.filter_some, if_pos (decide_eq_true (encode_ne nonempty))]

section Table
variable {Row Primary : Type} {primary : Row → Primary} {id time : Row → Nat} {now : Nat}

theorem Table.small (table : Table Row Primary primary id time now) {row : Row} (member : row ∈ table.rows) :
    id row < 2 ^ 128 := by
  rw [← uuids_eq]
  exact table.ids row member

theorem Table.early (table : Table Row Primary primary id time now) (clock : Early ((now + day) / 1000000))
    {row : Row} (member : row ∈ table.rows) : Early (time row / 1000000) :=
  Nat.lt_of_le_of_lt (Nat.div_le_div_right (table.dated row member)) clock

end Table

end OpenEmarsys.Keyset
