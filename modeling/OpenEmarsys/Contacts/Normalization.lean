import OpenEmarsys.Contacts.Registry
import OpenEmarsys.Javascript.Calendar

/-! `normalizeValue` over any kind of numbers, and what it accepts.

With the doubles of the runtime it is the function the services call; with the rationals a decimal
text denotes exactly one number. What is said here holds of both.
-/

set_option autoImplicit false

namespace OpenEmarsys.Contacts

open Javascript

/-- Numbers, as JSON has them and as texts denote them. -/
class Numerals (N : Type) where
  ofNat : Nat → N
  /-- `Number(text)` of a string of digits. -/
  digits : String → N
  /-- `Number(text)` of decimal text, once trimmed. -/
  decimal : String → Option N
  isFinite : N → Bool
  /-- `===`. -/
  same : N → N → Bool

export Numerals (same)

class LawfulNumerals (N : Type) [Numerals N] : Prop where
  symm : ∀ m n : N, same m n = true → same n m = true
  trans : ∀ l m n : N, same l m = true → same m n = true → same l n = true

inductive Raw (N : Type) where
  | null
  | boolean (value : Bool)
  | number (value : N)
  | string (value : String)
  | array (elements : List (Raw N))
  | object

inductive Stored (N : Type) where
  | string (text : String)
  | number (n : N)
  | boolean (b : Bool)
  | options (ids : List N)
  deriving DecidableEq

/-- The JSON of what is stored, `null` for nothing. -/
def Stored.raw {N : Type} : Option (Stored N) → Raw N
  | none => .null
  | some (.string text) => .string text
  | some (.number n) => .number n
  | some (.boolean b) => .boolean b
  | some (.options ids) => .array (ids.map .number)

section Normalize
variable {N : Type} [Numerals N]

def choiceOf (choices : List Choice) (n : N) : Option N :=
  if choices.any fun choice => same (Numerals.ofNat choice.id) n then some n else none

def idOf (choices : List Choice) : Raw N → Option N
  | .string text => if isDigits text then choiceOf choices (Numerals.digits text) else none
  | .number n => choiceOf choices n
  | _ => none

/-- `[...new Set(ids)]`. -/
def distinct : List N → List N
  | [] => []
  | id :: rest => id :: (distinct rest).filter fun other => !same id other

def refused (text : String) : Except (Nat × String) (Option (Stored N)) := .error (2010, text)

def accepted (value : Stored N) : Except (Nat × String) (Option (Stored N)) := .ok (some value)

def numberOf : Raw N → Option N
  | .string text => Numerals.decimal text
  | .number n => some n
  | _ => none

def booleanOf : Raw N → Option Bool
  | .boolean b => some b
  | .string text => if text = "true" ∨ text = "1" then some true else if text = "false" ∨ text = "0"
    then some false else none
  | .number n =>
      if same n (Numerals.ofNat 1) then some true else if same n (Numerals.ofNat 0) then some false else none
  | _ => none

/-- `normalizeValue`. -/
def normalize (type : FieldType) (choices : List Choice) : Raw N → Except (Nat × String) (Option (Stored N))
  | .null => .ok none
  | raw =>
      match type with
      | .text =>
          match raw with
          | .string text => accepted (.string text)
          | _ => refused "expected a string"
      | .number =>
          match numberOf raw with
          | some n => if Numerals.isFinite n then accepted (.number n)
            else refused "expected a decimal number"
          | none => refused "expected a decimal number"
      | .date =>
          match raw with
          | .string text => if isDate text then accepted (.string text)
            else refused "expected a date as YYYY-MM-DD"
          | _ => refused "expected a date as YYYY-MM-DD"
      | .boolean =>
          match booleanOf raw with
          | some b => accepted (.boolean b)
          | none => refused "expected a boolean"
      | .single_choice =>
          match idOf choices raw with
          | some id => accepted (.number id)
          | none => refused "expected the ID of one of the field options"
      | .multi_choice =>
          match raw with
          | .array elements =>
              match elements.mapM (idOf choices) with
              | some ids => accepted (.options (distinct ids))
              | none => refused "expected an array of option IDs of the field"
          | _ => refused "expected an array of option IDs of the field"

end Normalize

section Accepted
variable {N : Type} [Numerals N] {choices : List Choice}

/-- The ID that a text of digits or a number is. -/
def denoted : Raw N → Option N
  | .string text => if isDigits text then some (Numerals.digits text) else none
  | .number n => some n
  | _ => none

def IsChoice (choices : List Choice) (n : N) : Prop := ∃ choice ∈ choices, same
    (Numerals.ofNat choice.id) n = true

/-- Options of the field, none twice, and exactly those that the elements name. -/
structure Selects (choices : List Choice) (elements : List (Raw N)) (ids : List N) : Prop where
  distinct : ids.Pairwise fun id other => same id other = false
  choices : ∀ id ∈ ids, IsChoice choices id
  named : ∀ id ∈ ids, ∃ element ∈ elements, denoted element = some id
  complete : ∀ element ∈ elements, ∃ n, denoted element = some n ∧ ∃ id ∈ ids, same id n = true

/-- What is stored of a field of the type, when this was sent for it. -/
def Shape (choices : List Choice) (raw : Raw N) : FieldType → Stored N → Prop
  | .text, .string _ => True
  | .number, .number n => Numerals.isFinite n = true
  | .date, .string text => ∃ day : CalendarDay, text = day.text
  | .boolean, .boolean _ => True
  | .single_choice, .number id => IsChoice choices id
  | .multi_choice, .options ids => ∃ elements, raw = .array elements ∧ Selects choices elements ids
  | _, _ => False

theorem choiceOf_eq_some {n id : N} : choiceOf choices n = some id ↔ n = id ∧ IsChoice choices id := by
  unfold choiceOf
  split
  · next found =>
    obtain ⟨choice, member, is⟩ := List.any_eq_true.mp found
    constructor
    · intro same
      cases same
      exact ⟨rfl, choice, member, is⟩
    · intro ⟨equal, _⟩
      rw [equal]
  · next missing =>
    constructor
    · intro same
      cases same
    · intro ⟨equal, choice, member, is⟩
      subst equal
      exact absurd (List.any_eq_true.mpr ⟨choice, member, is⟩) missing

theorem idOf_eq_some {raw : Raw N} {id : N} : idOf choices raw = some id ↔ denoted raw = some id ∧
    IsChoice choices id := by
  cases raw with
  | string text =>
    simp only [idOf, denoted]
    split
    · rw [choiceOf_eq_some, Option.some.injEq]
    · simp
  | number n => simp only [idOf, denoted, choiceOf_eq_some, Option.some.injEq]
  | null | boolean b | array elements | object => simp [idOf, denoted]

theorem idOf_number {id : N} (is : IsChoice choices id) : idOf choices (.number id) = some id :=
  idOf_eq_some.mpr ⟨rfl, is⟩

theorem mapM_number {ids : List N} (are : ∀ id ∈ ids, IsChoice choices id) :
    (ids.map Raw.number).mapM (idOf choices) = some ids := by
  induction ids with
  | nil => rfl
  | cons id rest ih =>
    rw [List.map_cons, List.mapM_cons, idOf_number (are id (List.mem_cons_self ..)),
      ih fun other member => are other (List.mem_cons_of_mem _ member)]
    rfl

theorem mem_mapM {elements : List (Raw N)} {ids : List N} (all : elements.mapM (idOf choices) = some ids) :
    (∀ id ∈ ids, ∃ element ∈ elements, idOf choices element = some id) ∧
      ∀ element ∈ elements, ∃ id ∈ ids, idOf choices element = some id := by
  induction elements generalizing ids with
  | nil =>
    cases all
    exact ⟨by simp, by simp⟩
  | cons element rest ih =>
    rw [List.mapM_cons] at all
    cases first : idOf choices element with
    | none =>
      rw [first] at all
      cases all
    | some id =>
      rw [first] at all
      cases others : rest.mapM (idOf choices) with
      | none =>
        rw [others] at all
        cases all
      | some tail =>
        rw [others] at all
        cases all
        obtain ⟨named, complete⟩ := ih others
        constructor
        · intro other member
          rcases List.mem_cons.mp member with same | member
          · exact ⟨element, List.mem_cons_self .., by rw [first, same]⟩
          · obtain ⟨found, here, is⟩ := named other member
            exact ⟨found, List.mem_cons_of_mem _ here, is⟩
        · intro other member
          rcases List.mem_cons.mp member with same | member
          · exact ⟨id, List.mem_cons_self .., by rw [same, first]⟩
          · obtain ⟨found, here, is⟩ := complete other member
            exact ⟨found, List.mem_cons_of_mem _ here, is⟩

theorem mem_of_mem_distinct {ids : List N} {id : N} (member : id ∈ distinct ids) : id ∈ ids := by
  induction ids with
  | nil => exact member
  | cons first rest ih =>
    rcases List.mem_cons.mp member with same | member
    · exact same ▸ List.mem_cons_self ..
    · exact List.mem_cons_of_mem _ (ih (List.mem_of_mem_filter member))

theorem pairwise_distinct (ids : List N) : (distinct ids).Pairwise fun id other => same id other = false := by
  induction ids with
  | nil => exact .nil
  | cons first rest ih =>
    apply List.Pairwise.cons
    · intro other member
      simpa using (List.mem_filter.mp member).2
    · exact ih.filter _

theorem distinct_eq {ids : List N} (pairwise : ids.Pairwise fun id other => same id other = false) :
    distinct ids = ids := by
  induction ids with
  | nil => rfl
  | cons first rest ih =>
    obtain ⟨apart, pairwise⟩ := List.pairwise_cons.mp pairwise
    rw [distinct, ih pairwise]
    congr 1
    apply List.filter_eq_self.mpr
    intro other member
    simp [apart other member]

variable [LawfulNumerals N]

theorem IsChoice.same_self {n : N} (is : IsChoice choices n) : same n n = true := by
  obtain ⟨choice, _, equal⟩ := is
  exact LawfulNumerals.trans _ _ _ (LawfulNumerals.symm _ _ equal) equal

theorem exists_mem_distinct {ids : List N} {id : N} (member : id ∈ ids) (reflects : same id id = true) :
    ∃ kept ∈ distinct ids, same kept id = true := by
  induction ids with
  | nil => cases member
  | cons first rest ih =>
    rcases List.mem_cons.mp member with equal | member
    · exact ⟨id, equal ▸ List.mem_cons_self .., reflects⟩
    · obtain ⟨kept, here, equal⟩ := ih member
      -- the one kept of the rest is dropped when it is the same as the first, which then stands for it
      cases dropped : same first kept with
      | true => exact ⟨first, List.mem_cons_self .., LawfulNumerals.trans _ _ _ dropped equal⟩
      | false => exact ⟨kept, List.mem_cons_of_mem _ (List.mem_filter.mpr ⟨here, by simp [dropped]⟩), equal⟩

theorem distinct_selects {elements : List (Raw N)} {ids : List N}
    (all : elements.mapM (idOf choices) = some ids) :
    Selects choices elements (distinct ids) := by
  obtain ⟨named, complete⟩ := mem_mapM all
  constructor
  · exact pairwise_distinct ids
  · intro id member
    obtain ⟨element, _, is⟩ := named id (mem_of_mem_distinct member)
    exact (idOf_eq_some.mp is).2
  · intro id member
    obtain ⟨element, here, is⟩ := named id (mem_of_mem_distinct member)
    exact ⟨element, here, (idOf_eq_some.mp is).1⟩
  · intro element member
    obtain ⟨id, here, is⟩ := complete element member
    obtain ⟨denotes, choice⟩ := idOf_eq_some.mp is
    exact ⟨id, denotes, exists_mem_distinct here choice.same_self⟩

section
omit [LawfulNumerals N]

theorem normalize_number {raw : Raw N} (given : raw ≠ .null) : normalize .number choices raw =
    match numberOf raw with
    | some n => if Numerals.isFinite n then accepted (.number n) else refused "expected a decimal number"
    | none => refused "expected a decimal number" := by
  cases raw with
  | null => exact absurd rfl given
  | boolean b | number n | string text | array elements | object => rfl

theorem normalize_boolean {raw : Raw N} (given : raw ≠ .null) : normalize .boolean choices raw =
    match booleanOf raw with
    | some b => accepted (.boolean b)
    | none => refused "expected a boolean" := by
  cases raw with
  | null => exact absurd rfl given
  | boolean b | number n | string text | array elements | object => rfl

theorem normalize_single {raw : Raw N} (given : raw ≠ .null) : normalize .single_choice choices raw =
    match idOf choices raw with
    | some id => accepted (.number id)
    | none => refused "expected the ID of one of the field options" := by
  cases raw with
  | null => exact absurd rfl given
  | boolean b | number n | string text | array elements | object => rfl

end

-- A value other than `null` is stored as one of the shape, which is accepted as it is.
theorem normalize_settles {type : FieldType} {raw : Raw N} {value : Option (Stored N)} (given : raw ≠ .null)
    (accepts : normalize type choices raw = .ok value) :
    ∃ stored, value = some stored ∧ Shape choices raw type stored ∧
      normalize type choices (Stored.raw (some stored)) = .ok (some stored) := by
  cases type with
  | text =>
    cases raw with
    | null => exact absurd rfl given
    | string text =>
      cases accepts
      exact ⟨.string text, rfl, trivial, rfl⟩
    | boolean b | number n | array elements | object => cases accepts
  | number =>
    rw [normalize_number given] at accepts
    split at accepts
    · split at accepts
      · next n _ finite =>
        cases accepts
        exact ⟨.number n, rfl, finite, if_pos finite⟩
      · cases accepts
    · cases accepts
  | date =>
    cases raw with
    | null => exact absurd rfl given
    | string text =>
      simp only [normalize] at accepts
      split at accepts
      · next date =>
        cases accepts
        exact ⟨.string text, rfl, (isDate_iff text).mp date, if_pos date⟩
      · cases accepts
    | boolean b | number n | array elements | object => cases accepts
  | boolean =>
    rw [normalize_boolean given] at accepts
    split at accepts
    · next b _ =>
      cases accepts
      exact ⟨.boolean b, rfl, trivial, rfl⟩
    · cases accepts
  | single_choice =>
    rw [normalize_single given] at accepts
    split at accepts
    · next id found =>
      cases accepts
      have choice := (idOf_eq_some.mp found).2
      refine ⟨.number id, rfl, choice, ?_⟩
      simp only [Stored.raw, normalize, idOf_number choice]
      rfl
    · cases accepts
  | multi_choice =>
    cases raw with
    | null => exact absurd rfl given
    | array elements =>
      simp only [normalize] at accepts
      split at accepts
      · next ids found =>
        cases accepts
        have selects := distinct_selects found
        refine ⟨.options (distinct ids), rfl, ⟨elements, rfl, selects⟩, ?_⟩
        simp only [Stored.raw, normalize, mapM_number selects.choices, distinct_eq selects.distinct]
        rfl
      · cases accepts
    | boolean b | number n | string text | object => cases accepts

end Accepted

/-! ## The doubles of the runtime -/

section Doubles
open Float.Model

/-- What two doubles that are `===` have in common; NaN has nothing. -/
def essence : UnpackedFloat → Option (Option (UnpackedFloat.Sign × Option (Nat × Int)))
  | .notANumber => none
  | .zero _ => some none
  | .infinity sign => some (some (sign, none))
  | .finite sign mantissa exponent _ => some (some (sign, some (mantissa, exponent)))

theorem compare_nat_eq {m n : Nat} : compareOfLessAndEq m n = .eq ↔ m = n :=
  compareOfLessAndEq_eq_eq Nat.le_refl Nat.not_le

theorem compare_int_eq {m n : Int} : compareOfLessAndEq m n = .eq ↔ m = n :=
  compareOfLessAndEq_eq_eq Int.le_refl Int.not_le

theorem beq_iff_compare (a b : UnpackedFloat) : a.beq b = true ↔ a.compare b = some .eq := beq_iff_eq

theorem beq_iff_essence (a b : UnpackedFloat) : a.beq b = true ↔ essence a = essence b ∧
    essence a ≠ none := by
  rw [beq_iff_compare]
  rcases a with ⟨_ | _⟩ | _ | ⟨_ | _⟩ | ⟨_ | _, m, e, _⟩
    <;> rcases b with ⟨_ | _⟩ | _ | ⟨_ | _⟩ | ⟨_ | _, m', e', _⟩ <;>
    dsimp only [UnpackedFloat.compare, essence] <;>
    simp [compare, Ordering.then_eq_eq, compare_nat_eq, compare_int_eq, and_comm]

end Doubles

instance : Numerals Number where
  ofNat := Number.ofNat
  digits text := Float.Model.ofScientific (natOfDigits text.toList) 0
  decimal := parseDecimal
  isFinite := Number.isFinite
  same m n := m == n

instance : LawfulNumerals Number where
  symm m n equal := by
    obtain ⟨same, number⟩ := (beq_iff_essence m.unpack n.unpack).mp equal
    exact (beq_iff_essence n.unpack m.unpack).mpr ⟨same.symm, same ▸ number⟩
  trans l m n first second := by
    obtain ⟨same, number⟩ := (beq_iff_essence l.unpack m.unpack).mp first
    obtain ⟨again, _⟩ := (beq_iff_essence m.unpack n.unpack).mp second
    exact (beq_iff_essence l.unpack n.unpack).mpr ⟨same.trans again, number⟩

mutual

def rawOf : Json → Raw Number
  | .null => .null
  | .boolean b => .boolean b
  | .number n => .number n
  | .string text => .string text
  | .array elements => .array (rawsOf elements)
  | .object _ => .object

def rawsOf : List Json → List (Raw Number)
  | [] => []
  | element :: rest => rawOf element :: rawsOf rest

end

def valueOf : Stored Number → Value
  | .string text => .string text
  | .number n => .number n
  | .boolean b => .boolean b
  | .options ids => .options ids

theorem asId_eq (choices : List Choice) (raw : Json) : asId choices raw = idOf choices (rawOf raw) := by
  cases raw with
  | null | boolean b | number n | string text | array elements | object members =>
    simp only [rawOf]
    rfl

theorem asIds_eq (choices : List Choice) (elements : List Json) :
    elements.mapM (asId choices) = (rawsOf elements).mapM (idOf choices) := by
  induction elements with
  | nil => rw [rawsOf]; rfl
  | cons element rest ih => rw [rawsOf, List.mapM_cons, List.mapM_cons, asId_eq, ih]

theorem distinctIds_eq (ids : List Number) : distinctIds ids = distinct ids := by
  induction ids with
  | nil => rfl
  | cons id rest ih => rw [distinctIds, distinct, ih]; rfl

theorem decimal_double (text : String) : (Numerals.decimal text : Option Number) = parseDecimal text := rfl

theorem isFinite_double (n : Number) : Numerals.isFinite n = n.isFinite := rfl

theorem same_double (n m : Number) : same n m = (n == m) := rfl

theorem ofNat_double (k : Nat) : (Numerals.ofNat k : Number) = Number.ofNat k := rfl

theorem normalizeValue_eq (type : FieldType) (choices : List Choice) (raw : Json) :
    normalizeValue type choices raw = (normalize type choices (rawOf raw)).map (Option.map valueOf) := by
  cases type with
  | text =>
    cases raw <;> (simp only [rawOf]; rfl)
  | number =>
    cases raw with
    | number n =>
      simp only [rawOf, normalizeValue, normalize, numberOf, isFinite_double]
      split <;> rfl
    | string text =>
      simp only [rawOf, normalizeValue, normalize, numberOf, isFinite_double, decimal_double]
      cases parseDecimal text with
      | none => rfl
      | some n =>
        dsimp only
        split <;> rfl
    | _ =>
      simp only [rawOf]
      rfl
  | date =>
    cases raw with
    | string text =>
      simp only [rawOf, normalizeValue, normalize]
      split <;> rfl
    | _ =>
      simp only [rawOf]
      rfl
  | boolean =>
    cases raw with
    | number n =>
      simp only [rawOf, normalizeValue, normalize, booleanOf, same_double, ofNat_double]
      by_cases one : (n == Number.ofNat 1) = true
      · rw [if_pos one, if_pos one]
        rfl
      · rw [if_neg one, if_neg one]
        split <;> rfl
    | string text =>
      simp only [rawOf, normalizeValue, normalize, booleanOf]
      by_cases yes : text = "true" ∨ text = "1"
      · rw [if_pos yes, if_pos yes]
        rfl
      · rw [if_neg yes, if_neg yes]
        split <;> rfl
    | _ =>
      simp only [rawOf]
      rfl
  | single_choice =>
    cases raw with
    | null =>
      simp only [rawOf]
      rfl
    | _ =>
      simp only [normalizeValue, asId_eq]
      simp only [rawOf, normalize]
      split <;> simp only [*] <;> rfl
  | multi_choice =>
    cases raw with
    | array elements =>
      simp only [rawOf, normalizeValue, normalize, asIds_eq]
      cases (rawsOf elements).mapM (idOf choices) with
      | none => rfl
      | some ids =>
        simp only [distinctIds_eq]
        rfl
    | _ =>
      simp only [rawOf]
      rfl

def exactDecimal (text : String) : Option Rat :=
  let chars := (trim text).toList
  let (negative, digits) := match chars with
    | '-' :: rest => (true, rest)
    | _ => (false, chars)
  let whole := digits.takeWhile isDigit
  let number (fraction : List Char) : Rat :=
    let n : Int := natOfDigits (whole ++ fraction)
    mkRat (if negative then -n else n) (10 ^ fraction.length)
  if whole.isEmpty then none
  else
    match digits.dropWhile isDigit with
    | [] => some (number [])
    | '.' :: fraction => if !fraction.isEmpty && fraction.all isDigit then some (number fraction) else none
    | _ => none

instance : Numerals Rat where
  ofNat n := n
  digits text := natOfDigits text.toList
  decimal := exactDecimal
  isFinite _ := true
  same q r := decide (q = r)

instance : LawfulNumerals Rat where
  symm _ _ equal := decide_eq_true (of_decide_eq_true equal).symm
  trans _ _ _ first second := decide_eq_true ((of_decide_eq_true first).trans (of_decide_eq_true second))

/-- What is accepted has the shape of the type, is accepted again as it is, and is nothing only for `null`. -/
theorem normalize_stable {N : Type} [Numerals N] [LawfulNumerals N] (type : FieldType) (choices : List Choice)
    (raw : Raw N) (value : Option (Stored N)) (accepts : normalize type choices raw = .ok value) :
    (∀ stored, value = some stored → Shape choices raw type stored) ∧
      normalize type choices (Stored.raw value) = .ok value ∧ (value = none ↔ raw = .null) := by
  by_cases null : raw = .null
  · subst null
    cases accepts
    exact ⟨fun stored same => (by cases same), rfl, by simp⟩
  · obtain ⟨stored, rfl, shape, again⟩ := normalize_settles null accepts
    refine ⟨fun other same => ?_, again, by simp [null]⟩
    cases same
    exact shape

/-- Two options given by padded text and by number, one of them twice. -/
def sizes : List Choice := [⟨1, "small"⟩, ⟨12, "large"⟩]

theorem normalize_stable_sizes :
    Shape sizes (.array [.string "012", .number 1, .number 12]) .multi_choice (.options [(12 : Rat), 1]) ∧
      normalize .multi_choice sizes (Stored.raw (some (.options [(12 : Rat), 1]))) = .ok
      (some (.options [12, 1])) ∧
      normalize .boolean [] (Stored.raw (some (.boolean true) : Option (Stored Number))) = .ok
      (some (.boolean true)) :=
  have selected := normalize_stable .multi_choice sizes (.array [.string "012", .number 1, .number 12])
    (some (.options [(12 : Rat), 1])) (by decide +kernel)
  ⟨selected.1 _ rfl, selected.2.1,
    (normalize_stable .boolean [] (.number (Number.ofNat 1)) (some (.boolean true)) (by rfl)).2.1⟩

end OpenEmarsys.Contacts
