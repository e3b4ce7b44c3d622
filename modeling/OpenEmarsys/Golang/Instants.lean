import OpenEmarsys.Javascript.Instants

/-! `time.RFC3339Nano` in UTC, of points in time that the database has stored in microseconds. -/

set_option autoImplicit false

namespace OpenEmarsys.Golang

open Javascript (Early dateTime natOfDigits padded secondsOf isDigit decimals)

def trimZeros : List Char → List Char
  | [] => []
  | c :: rest =>
      let trimmed := trimZeros rest
      if trimmed.isEmpty && c == '0' then [] else c :: trimmed

/-- The fraction of a second with no more digits than it needs. -/
def fraction (micros : Nat) : List Char := if micros = 0 then [] else '.' :: trimZeros (padded 6 micros)

/-- `t.Format(time.RFC3339Nano)`. -/
def format (time : Nat) : String :=
  String.ofList (dateTime (time / 1000000) ++ fraction (time % 1000000) ++ ['Z'])

def microsOf (text : List Char) : Nat :=
  let digits := (text.drop 1).takeWhile isDigit
  natOfDigits (digits ++ List.replicate (6 - digits.length) '0')

/-- `time.Parse(time.RFC3339Nano, text)` of a text of `format`. It reads other texts too, which is left
out. -/
def parse (text : String) : Option Nat :=
  let time := secondsOf text.toList * 1000000 + microsOf (text.toList.drop 19)
  if format time = text then some time else none

theorem trimZeros_append (digits : List Char) :
    trimZeros digits ++ List.replicate (digits.length - (trimZeros digits).length) '0' = digits := by
  induction digits with
  | nil => rfl
  | cons c rest ih =>
    rw [trimZeros]
    split
    · next zero =>
      simp only [Bool.and_eq_true, List.isEmpty_iff, beq_iff_eq] at zero
      obtain ⟨nothing, rfl⟩ := zero
      rw [nothing, List.nil_append, List.length_nil, Nat.sub_zero] at ih
      rw [List.nil_append, List.length_nil, Nat.sub_zero, List.length_cons, List.replicate_succ, ih]
    · rw [List.cons_append, List.length_cons, List.length_cons, Nat.add_sub_add_right, ih]

theorem mem_trimZeros {digits : List Char} {c : Char} (member : c ∈ trimZeros digits) : c ∈ digits := by
  rw [← trimZeros_append digits]
  exact List.mem_append_left _ member

theorem microsOf_fraction {micros : Nat} (small : micros < 1000000) :
    microsOf (fraction micros ++ ['Z']) = micros := by
  unfold fraction
  split
  · next none_ =>
    rw [none_]
    rfl
  · have digits : padded 6 micros = decimals 6 micros := Javascript.padded_eq small
    have all : ∀ c ∈ trimZeros (padded 6 micros), isDigit c = true := by
      intro c member
      rw [digits] at member
      exact Javascript.decimals_isDigit (mem_trimZeros member)
    have taken : (trimZeros (padded 6 micros) ++ ['Z']).takeWhile isDigit = trimZeros (padded 6 micros) := by
      rw [List.takeWhile_append_of_pos all, List.takeWhile_cons_of_neg (by decide), List.append_nil]
    have length : (padded 6 micros).length = 6 := Javascript.padded_length small
    have whole := trimZeros_append (padded 6 micros)
    rw [length] at whole
    simp only [microsOf, List.cons_append, List.drop_succ_cons, List.drop_zero, taken, whole]
    exact Javascript.natOfDigits_padded small

theorem parse_format {time : Nat} (early : Early (time / 1000000)) : parse (format time) = some time := by
  have text : (format time).toList = dateTime (time / 1000000) ++ (fraction (time % 1000000) ++ ['Z']) := by
    rw [format, String.toList_ofList, List.append_assoc]
  have seconds : secondsOf (format time).toList = time / 1000000 := by
    rw [text, Javascript.secondsOf_dateTime early]
  have micros : microsOf ((format time).toList.drop 19) = time % 1000000 := by
    rw [text, List.drop_left' (Javascript.dateTime_length early),
      microsOf_fraction (Nat.mod_lt _ (by decide))]
  have same : time / 1000000 * 1000000 + time % 1000000 = time := by omega
  simp only [parse, seconds, micros, same, if_pos]

theorem bar_not_format {time : Nat} (early : Early (time / 1000000)) : '|' ∉ (format time).toList := by
  have digit {n : Nat} (small : n < 1000000) : '|' ∉ trimZeros (padded 6 n) := by
    intro member
    have decimal := mem_trimZeros member
    rw [Javascript.padded_eq small] at decimal
    exact absurd (Javascript.decimals_isDigit decimal) (by decide)
  rw [format, String.toList_ofList, fraction]
  intro member
  have few : time % 1000000 < 1000000 := Nat.mod_lt _ (by decide)
  rcases List.mem_append.mp member with front | last
  · rcases List.mem_append.mp front with date | part
    · have marks := Javascript.dateTime_chars early date
      exact absurd marks (by decide)
    · split at part
      · cases part
      · rcases List.mem_cons.mp part with point | among
        · exact absurd point (by decide)
        · exact digit few among
  · exact absurd last (by decide)

end OpenEmarsys.Golang
