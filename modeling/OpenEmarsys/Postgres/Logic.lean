import Mathlib.Logic.Basic

/-! Conditions of SQL: three truth values, of which a `WHERE` clause selects one.

A comparison with null is null. Two conditions split the rows if each row is selected by exactly one of
them; a condition and its negation need not.
-/

set_option autoImplicit false

namespace OpenEmarsys.Postgres

/-- A truth value; `none` is null. -/
abbrev Truth := Option Bool

namespace Truth

def Holds (truth : Truth) : Prop := truth = some true

instance (truth : Truth) : Decidable truth.Holds := inferInstanceAs (Decidable (truth = some true))

def and : Truth → Truth → Truth
  | some true, right => right
  | some false, _ => some false
  | none, some false => some false
  | none, _ => none

def or : Truth → Truth → Truth
  | some false, right => right
  | some true, _ => some true
  | none, some true => some true
  | none, _ => none

def not : Truth → Truth := Option.map Bool.not

def coalesce (truth : Truth) (otherwise : Bool) : Truth := some (truth.getD otherwise)

variable {α : Type}

def isNull (value : Option α) : Truth := some value.isNone

def isNotNull (value : Option α) : Truth := some value.isSome

def isDistinctFrom [DecidableEq α] (value : Option α) (other : α) : Truth :=
  some (decide (value ≠ some other))

/-- Exactly one of the two conditions selects the row. -/
def Split (left right : Truth) : Prop := left.Holds ↔ ¬ right.Holds

@[simp] theorem holds_some (b : Bool) : Holds (some b) ↔ b = true := Option.some_inj

@[simp] theorem not_holds_none : ¬ Holds none := nofun

theorem or_holds (left right : Truth) : (or left right).Holds ↔ left.Holds ∨ right.Holds := by
  cases left with
  | none => cases right with
    | none => simp [or, Holds]
    | some b => cases b <;> simp [or, Holds]
  | some a => cases a <;> simp [or, Holds]

theorem split_strict (p : α → Bool) (value : Option α) :
    Split (value.map p) (value.map fun found => !p found) ↔ value.isSome = true := by
  cases value with
  | none => simp [Split]
  | some found => cases h : p found <;> simp [Split, h]

theorem split_distinct [DecidableEq α] (value : Option α) (other : α) :
    Split (value.map fun found => decide (found = other)) (isDistinctFrom value other) := by
  cases value with
  | none => simp [Split, isDistinctFrom]
  | some found => by_cases same : found = other <;> simp [Split, isDistinctFrom, same]

theorem split_coalesce (truth : Truth) : Split truth (not (coalesce truth false)) := by
  cases truth with
  | none => simp [Split, coalesce, not]
  | some b => cases b <;> simp [Split, coalesce, not]

theorem split_empty (p : α → Bool) (value : Option α) :
    Split (or (isNull value) (value.map p)) (and (isNotNull value) (value.map fun found => !p found)) := by
  cases value with
  | none => simp [Split, isNull, isNotNull, or, and]
  | some found => cases h : p found <;> simp [Split, isNull, isNotNull, or, and, h]

end Truth

end OpenEmarsys.Postgres
