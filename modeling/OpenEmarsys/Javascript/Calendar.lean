import Mathlib.Data.List.Induction
import OpenEmarsys.Javascript.Values

/-! Days of the calendar, and their texts.

`isDate` accepts a text exactly when it is the one of a day there is.
-/

set_option autoImplicit false

namespace OpenEmarsys.Javascript

/-- The last `width` decimal digits. -/
def decimals : Nat → Nat → List Char
  | 0, _ => []
  | width + 1, n => decimals width (n / 10) ++ [Nat.digitChar (n % 10)]

theorem decimals_length (width n : Nat) : (decimals width n).length = width := by
  induction width generalizing n with
  | zero => rfl
  | succ width ih => rw [decimals, List.length_append, ih]; rfl

theorem natOfDigits_concat (digits : List Char) (c : Char) :
    natOfDigits (digits ++ [c]) = 10 * natOfDigits digits + (c.val.toNat - 48) := List.foldl_append

theorem digitChar_digit {c : Char} (digit : isDigit c = true) :
    c.val.toNat - 48 < 10 ∧ Nat.digitChar (c.val.toNat - 48) = c := by
  simp only [isDigit, Bool.and_eq_true, decide_eq_true_eq, Char.le_def, UInt32.le_iff_toNat_le] at digit
  obtain ⟨low, high⟩ := digit
  change 48 ≤ c.val.toNat at low
  change c.val.toNat ≤ 57 at high
  have small : c.val.toNat - 48 < 10 := by omega
  have table : ∀ n < 10, (Nat.digitChar n).val.toNat = n + 48 := by decide
  refine ⟨small, Char.ext (UInt32.toNat_inj.mp ?_)⟩
  rw [table _ small]
  omega

theorem digitChar_isDigit {n : Nat} (small : n < 10) :
    isDigit (Nat.digitChar n) = true ∧ (Nat.digitChar n).val.toNat - 48 = n := by
  have table : ∀ n < 10, isDigit (Nat.digitChar n) = true ∧ (Nat.digitChar n).val.toNat - 48 = n := by decide
  exact table n small

theorem decimals_natOfDigits {digits : List Char} (all : ∀ c ∈ digits, isDigit c = true) :
    decimals digits.length (natOfDigits digits) = digits := by
  induction digits using List.reverseRecOn with
  | nil => rfl
  | append_singleton digits c ih =>
    obtain ⟨small, same⟩ := digitChar_digit (all c (by simp))
    have before := ih fun other member => all other (by simp [member])
    have quotient : (10 * natOfDigits digits + (c.val.toNat - 48)) / 10 = natOfDigits digits := by omega
    have rest : (10 * natOfDigits digits + (c.val.toNat - 48)) % 10 = c.val.toNat - 48 := by omega
    rw [List.length_append, List.length_singleton, decimals, natOfDigits_concat, quotient, rest, before, same]

theorem natOfDigits_decimals {width n : Nat} (small : n < 10 ^ width) :
    natOfDigits (decimals width n) = n := by
  induction width generalizing n with
  | zero =>
    have zero : n = 0 := by omega
    rw [zero]
    rfl
  | succ width ih =>
    have less : n / 10 < 10 ^ width := Nat.div_lt_of_lt_mul (by rw [Nat.pow_succ'] at small; exact small)
    rw [decimals, natOfDigits_concat, ih less, (digitChar_isDigit (Nat.mod_lt n (by omega))).2]
    omega

theorem decimals_isDigit {width n : Nat} {c : Char} (member : c ∈ decimals width n) : isDigit c = true := by
  induction width generalizing n with
  | zero => cases member
  | succ width ih =>
    rcases List.mem_append.mp member with before | last
    · exact ih before
    · rw [List.mem_singleton.mp last]
      exact (digitChar_isDigit (Nat.mod_lt n (by omega))).1

def isLeap (year : Nat) : Prop := year % 4 = 0 ∧ (year % 100 ≠ 0 ∨ year % 400 = 0)

instance (year : Nat) : Decidable (isLeap year) := inferInstanceAs (Decidable (_ ∧ _))

def daysOfMonth (year month : Nat) : Nat :=
  if month = 2 then if isLeap year then 29 else 28 else if month ∈ [4, 6, 9, 11] then 30 else 31

structure CalendarDay where
  year : Nat
  month : Nat
  day : Nat
  year_lt : year < 10000
  month_range : 1 ≤ month ∧ month ≤ 12
  day_range : 1 ≤ day ∧ day ≤ daysOfMonth year month

/-- `YYYY-MM-DD`. -/
def CalendarDay.text (date : CalendarDay) : String :=
  String.ofList (decimals 4 date.year ++ '-' :: decimals 2 date.month ++ '-' :: decimals 2 date.day)

theorem daysOfMonth_le (year month : Nat) : daysOfMonth year month ≤ 31 := by
  unfold daysOfMonth
  split
  · split <;> omega
  · split <;> omega

theorem natOfDigits_lt {digits : List Char} (all : ∀ c ∈ digits, isDigit c = true) :
    natOfDigits digits < 10 ^ digits.length := by
  induction digits using List.reverseRecOn with
  | nil => decide
  | append_singleton digits c ih =>
    have before := ih fun other member => all other (by simp [member])
    have digit := (digitChar_digit (all c (by simp))).1
    rw [natOfDigits_concat, List.length_append, List.length_singleton, Nat.pow_succ]
    omega

theorem exists_day {text : String} (is : isDate text = true) : ∃ date : CalendarDay, text = date.text := by
  unfold isDate at is
  split at is
  · next y1 y2 y3 y4 m1 m2 d1 d2 chars =>
    obtain ⟨digits, range⟩ := Bool.and_eq_true_iff.mp is
    have all := List.all_eq_true.mp digits
    simp only [List.forall_mem_cons] at all
    obtain ⟨a, b, c, d, e, f, g, h, _⟩ := all
    have years : ∀ c ∈ [y1, y2, y3, y4], isDigit c = true := by simp [a, b, c, d]
    have months : ∀ c ∈ [m1, m2], isDigit c = true := by simp [e, f]
    have days : ∀ c ∈ [d1, d2], isDigit c = true := by simp [g, h]
    obtain ⟨first, last, low, high⟩ := of_decide_eq_true range
    have year_lt : natOfDigits [y1, y2, y3, y4] < 10 ^ 4 := natOfDigits_lt years
    refine ⟨{ year := natOfDigits [y1, y2, y3, y4], month := natOfDigits [m1, m2], day := natOfDigits [d1, d2],
              year_lt, month_range := ⟨first, last⟩, day_range := ⟨low, ?_⟩ }, ?_⟩
    · exact high
    · apply String.toList_injective
      rw [chars, CalendarDay.text, String.toList_ofList]
      have year := decimals_natOfDigits years
      have month := decimals_natOfDigits months
      have day := decimals_natOfDigits days
      simp only [List.length_cons, List.length_nil, Nat.zero_add, Nat.reduceAdd] at year month day
      rw [year, month, day]
      rfl
  · cases is

theorem isDate_text (date : CalendarDay) : isDate date.text = true := by
  obtain ⟨y1, y2, y3, y4, year⟩ : ∃ a b c d, decimals 4 date.year = [a, b, c, d] := ⟨_, _, _, _, rfl⟩
  obtain ⟨m1, m2, month⟩ : ∃ a b, decimals 2 date.month = [a, b] := ⟨_, _, rfl⟩
  obtain ⟨d1, d2, day⟩ : ∃ a b, decimals 2 date.day = [a, b] := ⟨_, _, rfl⟩
  have chars : date.text.toList = [y1, y2, y3, y4, '-', m1, m2, '-', d1, d2] := by
    rw [CalendarDay.text, String.toList_ofList, year, month, day]
    rfl
  have days := Nat.le_trans date.day_range.2 (daysOfMonth_le date.year date.month)
  have year_eq : natOfDigits [y1, y2, y3, y4] = date.year := year ▸ natOfDigits_decimals date.year_lt
  have month_eq : natOfDigits [m1, m2] = date.month :=
    month ▸ natOfDigits_decimals (Nat.lt_of_le_of_lt date.month_range.2 (by decide))
  have day_eq : natOfDigits [d1, d2] = date.day :=
    day ▸ natOfDigits_decimals (Nat.lt_of_le_of_lt days (by decide))
  have digits : ∀ c ∈ [y1, y2, y3, y4] ++ [m1, m2] ++ [d1, d2], isDigit c = true := by
    intro c member
    rcases List.mem_append.mp member with front | back
    · rcases List.mem_append.mp front with front | middle
      · exact decimals_isDigit (year ▸ front)
      · exact decimals_isDigit (month ▸ middle)
    · exact decimals_isDigit (day ▸ back)
  unfold isDate
  rw [chars]
  refine Bool.and_eq_true_iff.mpr ⟨List.all_eq_true.mpr digits, decide_eq_true ?_⟩
  rw [year_eq, month_eq, day_eq]
  exact ⟨date.month_range.1, date.month_range.2, date.day_range.1, date.day_range.2⟩

theorem isDate_iff (text : String) : isDate text = true ↔ ∃ date : CalendarDay, text = date.text :=
  ⟨exists_day, fun ⟨date, same⟩ => same ▸ isDate_text date⟩

end OpenEmarsys.Javascript
