import Mathlib.Order.Monotone.Basic
import OpenEmarsys.Javascript.Calendar

/-! The texts of points in time, read back.

The calendar is counted in days from 1 March 0000, so that a leap day is the last one of its year.
-/

set_option autoImplicit false

namespace OpenEmarsys.Javascript

/-- The days of an era before a year of it. -/
def yearStart (yearOfEra : Nat) : Nat := 365 * yearOfEra + yearOfEra / 4 - yearOfEra / 100

/-- A day of an era without the leap days before it. -/
def withoutLeaps (ofEra : Nat) : Nat := ofEra - ofEra / 1460 + ofEra / 36524 - ofEra / 146096

structure Civil where
  year : Nat
  month : Nat
  day : Nat

/-- The day after so many days, by eras of 400 years. -/
def civil (number : Nat) : Civil :=
  let ofEra := number % 146097
  let yearOfEra := withoutLeaps ofEra / 365
  let ofYear := ofEra - yearStart yearOfEra
  let march := (5 * ofYear + 2) / 153
  let month := if march < 10 then march + 3 else march - 9
  ⟨yearOfEra + number / 146097 * 400 + if month ≤ 2 then 1 else 0, month, ofYear - (153 * march + 2) / 5 + 1⟩

/-- The days from 1 March 0000 to a day. -/
def dayNumber (year month day : Nat) : Nat :=
  let y := if month ≤ 2 then year - 1 else year
  let march := if month ≤ 2 then month + 9 else month - 3
  y / 400 * 146097 + yearStart (y % 400) + (153 * march + 2) / 5 + day - 1

theorem withoutLeaps_mono : Monotone withoutLeaps := by
  apply monotone_nat_of_le_succ
  intro ofEra
  simp only [withoutLeaps]
  omega

theorem withoutLeaps_turns : ∀ yearOfEra < 400, 365 * yearOfEra ≤ withoutLeaps (yearStart yearOfEra) ∧
    (yearOfEra ≠ 0 → withoutLeaps (yearStart yearOfEra - 1) < 365 * yearOfEra) := by
  decide +kernel

theorem year_length (yearOfEra : Nat) : yearStart (yearOfEra + 1) ≤ yearStart yearOfEra + 366 := by
  simp only [yearStart]
  omega

theorem era_year {ofEra : Nat} (inEra : ofEra < 146097) :
    yearStart (withoutLeaps ofEra / 365) ≤ ofEra ∧ ofEra < yearStart (withoutLeaps ofEra / 365) + 366 ∧
      withoutLeaps ofEra / 365 < 400 := by
  have most : withoutLeaps ofEra ≤ withoutLeaps 146096 := withoutLeaps_mono (Nat.le_of_lt_succ inEra)
  have last : withoutLeaps 146096 = 145999 := rfl
  have year := Nat.div_mul_le_self (withoutLeaps ofEra) 365
  have next := Nat.lt_div_mul_add (a := withoutLeaps ofEra) (b := 365) (by decide)
  refine ⟨?_, ?_, by omega⟩
  · by_contra early
    have turn := (withoutLeaps_turns (withoutLeaps ofEra / 365) (by omega)).2 fun zero => by
      rw [zero] at early
      exact early (Nat.zero_le _)
    have before : withoutLeaps ofEra ≤ withoutLeaps (yearStart (withoutLeaps ofEra / 365) - 1) :=
      withoutLeaps_mono (by omega)
    omega
  · by_contra late
    by_cases more : withoutLeaps ofEra / 365 + 1 < 400
    · have turn := (withoutLeaps_turns _ more).1
      have long := year_length (withoutLeaps ofEra / 365)
      have after : withoutLeaps (yearStart (withoutLeaps ofEra / 365 + 1)) ≤ withoutLeaps ofEra :=
        withoutLeaps_mono (by omega)
      omega
    · have last : withoutLeaps ofEra / 365 = 399 := by omega
      rw [last] at late
      exact late inEra

theorem dayNumber_parts (era : Nat) {yearOfEra ofYear march month : Nat} (small : yearOfEra < 400)
    (within : ofYear < 366) (isMarch : march = (5 * ofYear + 2) / 153) (isMonth : month = if march < 10
      then march + 3 else march - 9) :
    dayNumber (yearOfEra + era * 400 + if month ≤ 2 then 1 else 0) month
    (ofYear - (153 * march + 2) / 5 + 1) =
      era * 146097 + yearStart yearOfEra + ofYear := by
  have quotient : (yearOfEra + era * 400) / 400 = era := by omega
  have rest : (yearOfEra + era * 400) % 400 = yearOfEra := by omega
  have last : march ≤ 11 := by omega
  by_cases first : march < 10
  · have late : ¬ month ≤ 2 := by
      rw [isMonth, if_pos first]
      omega
    simp only [dayNumber, if_neg late, Nat.add_zero, quotient, rest]
    rw [isMonth, if_pos first]
    omega
  · have early : month ≤ 2 := by
      rw [isMonth, if_neg first]
      omega
    simp only [dayNumber, if_pos early, Nat.add_sub_cancel, quotient, rest]
    rw [isMonth, if_neg first]
    omega

theorem dayNumber_civil (number : Nat) : dayNumber (civil number).year (civil number).month
    (civil number).day = number := by
  obtain ⟨starts, within, small⟩ := era_year (Nat.mod_lt number (show 0 < 146097 by decide))
  have whole := Nat.div_add_mod number 146097
  refine (dayNumber_parts (number / 146097) small (by omega) rfl rfl).trans ?_
  omega

theorem civil_small (number : Nat) : (civil number).month < 100 ∧ (civil number).day < 100 := by
  obtain ⟨starts, within, -⟩ := era_year (Nat.mod_lt number (show 0 < 146097 by decide))
  simp only [civil]
  constructor
  · split <;> omega
  · omega

theorem civil_year {number : Nat} (before : number < 3652365) : (civil number).year < 10000 := by
  obtain ⟨starts, -, small⟩ := era_year (Nat.mod_lt number (show 0 < 146097 by decide))
  simp only [civil]
  generalize withoutLeaps (number % 146097) / 365 = yearOfEra at *
  by_cases last : yearOfEra = 399 ∧ number / 146097 = 24
  · obtain ⟨rfl, last⟩ := last
    have start : yearStart 399 = 145731 := rfl
    have march : (5 * (number % 146097 - yearStart 399) + 2) / 153 < 10 := by omega
    rw [if_pos march, if_neg (by omega)]
    omega
  · have one (early : Prop) [Decidable early] : (if early then 1 else 0) ≤ 1 := by split <;> omega
    refine Nat.lt_of_le_of_lt (Nat.add_le_add_left (one _) _) ?_
    omega

theorem zeros_eq (width : Nat) : Number.zeros width = decimals width 0 := by
  induction width with
  | zero => rfl
  | succ width ih => rw [decimals, ← ih, Number.zeros, List.replicate_succ']; rfl

theorem padded_eq {width n : Nat} (small : n < 10 ^ (width + 1)) :
    padded (width + 1) n = decimals (width + 1) n := by
  have digits : (toString n).toList = Nat.toDigits 10 n := by
    rw [Nat.toString_eq_ofList_toDigits, String.toList_ofList]
  simp only [padded, digits]
  clear digits
  induction width generalizing n with
  | zero =>
    rw [Nat.toDigits_of_lt_base (by omega)]
    have one : n % 10 = n := Nat.mod_eq_of_lt (by omega)
    simp [Number.zeros, decimals, one]
  | succ width ih =>
    by_cases digit : n < 10
    · rw [Nat.toDigits_of_lt_base digit, decimals, Nat.div_eq_of_lt digit, Nat.mod_eq_of_lt digit, ← zeros_eq]
      rfl
    · have less : n / 10 < 10 ^ (width + 1) :=
        Nat.div_lt_of_lt_mul (by rw [Nat.pow_succ'] at small; exact small)
      rw [Nat.toDigits_of_base_le (by decide) (by omega), List.length_append,
        ← List.append_assoc, decimals, ← ih less]
      simp

theorem natOfDigits_padded {width n : Nat} (small : n < 10 ^ (width + 1)) :
    natOfDigits (padded (width + 1) n) = n := by
  rw [padded_eq small, natOfDigits_decimals small]

theorem padded_length {width n : Nat} (small : n < 10 ^ (width + 1)) :
    (padded (width + 1) n).length = width + 1 := by
  rw [padded_eq small, decimals_length]

def dateTime (seconds : Nat) : List Char :=
  let date := civil (seconds / 86400 + 719468)
  padded 4 date.year ++ '-' :: padded 2 date.month ++ '-' :: padded 2 date.day ++
    'T' :: padded 2 (seconds / 3600 % 24) ++ ':' :: padded 2 (seconds / 60 % 60) ++
      ':' :: padded 2 (seconds % 60)

theorem toISOString_civil (time : Nat) :
    toISOString time = String.ofList (padded 4 (civil (time / 86400000 + 719468)).year ++ '-' ::
      padded 2 (civil (time / 86400000 + 719468)).month ++ '-' :: padded 2
      (civil (time / 86400000 + 719468)).day ++
      'T' :: padded 2 (time / 3600000 % 24) ++ ':' :: padded 2 (time / 60000 % 60) ++
      ':' :: padded 2 (time / 1000 % 60) ++ '.' :: padded 3 (time % 1000) ++ ['Z']) := by
  unfold toISOString
  generalize time / 86400000 + 719468 = day
  rfl

theorem toISOString_toList (time : Nat) : (toISOString time).toList = dateTime
    (time / 1000) ++ '.' :: padded 3 (time % 1000) ++ ['Z'] := by
  have day : time / 1000 / 86400 = time / 86400000 := by omega
  have hour : time / 1000 / 3600 = time / 3600000 := by omega
  have minute : time / 1000 / 60 = time / 60000 := by omega
  rw [toISOString_civil, String.toList_ofList]
  simp only [dateTime, day, hour, minute]

def field (text : List Char) (first count : Nat) : Nat := natOfDigits ((text.drop first).take count)

theorem field_between {front digits rest : List Char} {first count : Nat} (start : front.length = first)
    (length : digits.length = count) :
    field (front ++ (digits ++ rest)) first count = natOfDigits digits := by
  rw [field, List.drop_left' start, List.take_left' length]

/-- The seconds since the epoch that the text is of. -/
def secondsOf (text : List Char) : Nat :=
  (dayNumber (field text 0 4) (field text 5 2) (field text 8 2) - 719468) * 86400 +
    field text 11 2 * 3600 + field text 14 2 * 60 + field text 17 2

/-- Before the year 10000. -/
def Early (seconds : Nat) : Prop := seconds < 253402300800

theorem early_day {seconds : Nat} (early : Early seconds) : seconds / 86400 + 719468 < 3652365 := by
  unfold Early at early
  omega

theorem secondsOf_dateTime {seconds : Nat} (early : Early seconds) (rest : List Char) :
    secondsOf (dateTime seconds ++ rest) = seconds := by
  have year := civil_year (early_day early)
  obtain ⟨month, day⟩ := civil_small (seconds / 86400 + 719468)
  have hour : seconds / 3600 % 24 < 100 := by omega
  have minute : seconds / 60 % 60 < 100 := by omega
  have second : seconds % 60 < 100 := by omega
  have two (n : Nat) : ∃ a b, decimals 2 n = [a, b] := ⟨_, _, rfl⟩
  obtain ⟨y1, y2, y3, y4, years⟩ : ∃ a b c d, decimals 4 (civil (seconds / 86400 + 719468)).year = [a, b, c,
    d] := ⟨_, _, _, _, rfl⟩
  obtain ⟨m1, m2, months⟩ := two (civil (seconds / 86400 + 719468)).month
  obtain ⟨d1, d2, days⟩ := two (civil (seconds / 86400 + 719468)).day
  obtain ⟨h1, h2, hours⟩ := two (seconds / 3600 % 24)
  obtain ⟨i1, i2, minutes⟩ := two (seconds / 60 % 60)
  obtain ⟨s1, s2, ends⟩ := two (seconds % 60)
  have text : dateTime seconds = [y1, y2, y3, y4, '-', m1, m2, '-', d1, d2, 'T', h1, h2, ':', i1,
      i2, ':', s1, s2] := by
    simp only [dateTime]
    rw [padded_eq year, padded_eq month, padded_eq day, padded_eq hour, padded_eq minute,
      padded_eq second, years, months, days,
      hours, minutes, ends]
    rfl
  have value {width n : Nat} {digits : List Char} (small : n < 10 ^ width)
      (same : decimals width n = digits) : natOfDigits digits = n := by
    rw [← same, natOfDigits_decimals small]
  have number : dayNumber (natOfDigits [y1, y2, y3, y4]) (natOfDigits [m1, m2]) (natOfDigits [d1, d2]) =
      seconds / 86400 + 719468 := by
    rw [value year years, value month months, value day days, dayNumber_civil]
  have fields : secondsOf (dateTime seconds ++ rest) =
      (dayNumber (natOfDigits [y1, y2, y3, y4]) (natOfDigits [m1, m2])
        (natOfDigits [d1, d2]) - 719468) * 86400 +
        natOfDigits [h1, h2] * 3600 + natOfDigits [i1, i2] * 60 + natOfDigits [s1, s2] := by
    rw [text]
    rfl
  rw [fields, number, value hour hours, value minute minutes, value second ends]
  omega

theorem dateTime_chars {seconds : Nat} (early : Early seconds) {c : Char} (member : c ∈ dateTime seconds) :
    isDigit c = true ∨ c = '-' ∨ c = 'T' ∨ c = ':' := by
  have year := civil_year (early_day early)
  obtain ⟨month, day⟩ := civil_small (seconds / 86400 + 719468)
  have hour : seconds / 3600 % 24 < 100 := by omega
  have minute : seconds / 60 % 60 < 100 := by omega
  have second : seconds % 60 < 100 := by omega
  simp only [dateTime] at member
  rw [padded_eq year, padded_eq month, padded_eq day, padded_eq hour, padded_eq minute,
    padded_eq second] at member
  simp only [List.mem_append, List.mem_cons] at member
  have digit {width n : Nat} (among : c ∈ decimals width n) : isDigit c = true := decimals_isDigit among
  grind

theorem dateTime_length {seconds : Nat} (early : Early seconds) : (dateTime seconds).length = 19 := by
  have year := civil_year (early_day early)
  obtain ⟨month, day⟩ := civil_small (seconds / 86400 + 719468)
  have hour : seconds / 3600 % 24 < 100 := by omega
  have minute : seconds / 60 % 60 < 100 := by omega
  have second : seconds % 60 < 100 := by omega
  simp only [dateTime]
  rw [padded_eq year, padded_eq month, padded_eq day, padded_eq hour, padded_eq minute, padded_eq second]
  simp [decimals_length]

/-- What `new Date` and `::timestamptz` make of a text of `toISOString`. They read other texts too,
which is left out. -/
def parseISO (text : String) : Option Time :=
  let time := secondsOf text.toList * 1000 + field text.toList 20 3
  if toISOString time = text then some time else none

theorem parseISO_toISOString {time : Nat} (early : Early (time / 1000)) :
    parseISO (toISOString time) = some time := by
  have seconds : secondsOf (toISOString time).toList = time / 1000 := by
    rw [toISOString_toList, List.append_assoc, secondsOf_dateTime early]
  have fraction : field (toISOString time).toList 20 3 = time % 1000 := by
    have small : time % 1000 < 10 ^ (2 + 1) := by omega
    have front : (dateTime (time / 1000) ++ ['.']).length = 20 := by
      rw [List.length_append, dateTime_length early]; rfl
    have text : (toISOString time).toList = (dateTime (time / 1000) ++ ['.']) ++
        (padded 3 (time % 1000) ++ ['Z']) := by
      rw [toISOString_toList]
      simp
    rw [text, field_between front (padded_length small), natOfDigits_padded small]
  have same : time / 1000 * 1000 + time % 1000 = time := by omega
  simp only [parseISO, seconds, fraction, same, if_pos]

end OpenEmarsys.Javascript
