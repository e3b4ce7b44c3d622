import OpenEmarsys.Golang.Values

/-! `unicode/utf8`: runes, valid texts, and what is left of one that is cut. -/

set_option autoImplicit false

namespace OpenEmarsys.Golang

def isTail (c : UInt8) : Bool := 0x80 ≤ c && c ≤ 0xBF

/-- The bytes of the rune at the start of a text, 0 if it is not UTF-8 there. -/
def runeLength : Bytes → Nat
  | a :: b :: c :: d :: _ => if wide a b c d then 4 else if three a b c then 3
  else if two a b then 2 else one a
  | [a, b, c] => if three a b c then 3 else if two a b then 2 else one a
  | [a, b] => if two a b then 2 else one a
  | [a] => one a
  | [] => 0
where
  one (a : UInt8) : Nat := if a < 0x80 then 1 else 0
  two (a b : UInt8) : Bool := 0xC2 ≤ a && a ≤ 0xDF && isTail b
  three (a b c : UInt8) : Bool :=
    0xE0 ≤ a && a ≤ 0xEF && isTail b && isTail c && (a != 0xE0 || 0xA0 ≤ b) && (a != 0xED || b ≤ 0x9F)
  wide (a b c d : UInt8) : Bool :=
    0xF0 ≤ a && a ≤ 0xF4 && isTail b && isTail c && isTail d && (a != 0xF0 || 0x90 ≤ b) &&
      (a != 0xF4 || b ≤ 0x8F)

def valid : Bytes → Bool
  | [] => true
  | c :: rest => runeLength (c :: rest) != 0 && valid (rest.drop (runeLength (c :: rest) - 1))
  termination_by text => text.length
  decreasing_by simp only [List.length_drop, List.length_cons]; omega

section
open runeLength
variable {a b c d : UInt8}

theorem wide_first (is : wide a b c d = true) : 0xF0 ≤ a := by
  simp only [wide, Bool.and_eq_true, decide_eq_true_eq] at is
  exact is.1.1.1.1.1.1

theorem three_first (is : three a b c = true) : 0xE0 ≤ a ∧ a ≤ 0xEF := by
  simp only [three, Bool.and_eq_true, decide_eq_true_eq] at is
  exact ⟨is.1.1.1.1.1, is.1.1.1.1.2⟩

theorem two_first (is : two a b = true) : 0xC2 ≤ a ∧ a ≤ 0xDF := by
  simp only [two, Bool.and_eq_true, decide_eq_true_eq] at is
  exact is.1

theorem not_wide (first : a ≤ 0xEF) : wide a b c d = false := by
  cases is : wide a b c d with
  | false => rfl
  | true =>
    have bound := wide_first is
    exact absurd (UInt8.le_trans bound first) (by decide)

theorem not_three (first : a ≤ 0xDF) : three a b c = false := by
  cases is : three a b c with
  | false => rfl
  | true =>
    have bound := (three_first is).1
    exact absurd (UInt8.le_trans bound first) (by decide)

theorem not_two (first : a ≤ 0x7F) : two a b = false := by
  cases is : two a b with
  | false => rfl
  | true =>
    have bound := (two_first is).1
    exact absurd (UInt8.le_trans bound first) (by decide)

theorem one_eq : one a = 1 ↔ a ≤ 0x7F := by
  unfold one
  rw [UInt8.le_iff_toNat_le, show (0x7F : UInt8).toNat = 127 from rfl]
  split
  · next below =>
    rw [UInt8.lt_iff_toNat_lt, show (0x80 : UInt8).toNat = 128 from rfl] at below
    omega
  · next above =>
    rw [UInt8.lt_iff_toNat_lt, show (0x80 : UInt8).toNat = 128 from rfl] at above
    omega

theorem one_le (a : UInt8) : one a ≤ 1 := by
  unfold one
  split <;> omega

theorem runeLength_ascii (first : a ≤ 0x7F) (rest : Bytes) : runeLength (a :: rest) = 1 := by
  have below : a ≤ 0xDF := UInt8.le_trans first (by decide)
  have under : a ≤ 0xEF := UInt8.le_trans first (by decide)
  rcases rest with _ | ⟨b, _ | ⟨c, _ | ⟨d, rest⟩⟩⟩
  · simp [runeLength, one_eq.mpr first]
  · simp [runeLength, one_eq.mpr first, not_two first]
  · simp [runeLength, one_eq.mpr first, not_two first, not_three below]
  · simp [runeLength, one_eq.mpr first, not_two first, not_three below, not_wide under]

theorem runeLength_two (is : two a b = true) (rest : Bytes) : runeLength (a :: b :: rest) = 2 := by
  have below := (two_first is).2
  have under : a ≤ 0xEF := UInt8.le_trans below (by decide)
  rcases rest with _ | ⟨c, _ | ⟨d, rest⟩⟩
  · simp [runeLength, is]
  · simp [runeLength, is, not_three below]
  · simp [runeLength, is, not_three below, not_wide under]

theorem runeLength_three (is : three a b c = true) (rest : Bytes) : runeLength (a :: b :: c :: rest) = 3 := by
  have below := (three_first is).2
  rcases rest with _ | ⟨d, rest⟩
  · simp [runeLength, is]
  · simp [runeLength, is, not_wide below]

theorem runeLength_wide (is : wide a b c d = true) (rest : Bytes) :
    runeLength (a :: b :: c :: d :: rest) = 4 := by
  simp [runeLength, is]

inductive Rune : Bytes → Prop where
  | one {a : UInt8} : a ≤ 0x7F → Rune [a]
  | two {a b : UInt8} : two a b = true → Rune [a, b]
  | three {a b c : UInt8} : three a b c = true → Rune [a, b, c]
  | wide {a b c d : UInt8} : wide a b c d = true → Rune [a, b, c, d]

theorem Rune.ascii {rune : Bytes} (is : Rune rune) : (∃ a : UInt8, a ≤ 0x7F ∧ rune = [a]) ∨
    ∀ b ∈ rune, 0x80 ≤ b := by
  have tail {b : UInt8} (is : isTail b = true) : 0x80 ≤ b := by
    rw [isTail, Bool.and_eq_true, decide_eq_true_eq] at is
    exact is.1
  cases is with
  | @one a first => exact .inl ⟨a, first, rfl⟩
  | @two a b is =>
    have first : 0x80 ≤ a := UInt8.le_trans (by decide) (two_first is).1
    simp only [runeLength.two, Bool.and_eq_true] at is
    refine .inr (List.forall_mem_cons.mpr ⟨first, List.forall_mem_cons.mpr ⟨tail is.2, ?_⟩⟩)
    exact fun b absurd_ => by cases absurd_
  | @three a b c is =>
    have first : 0x80 ≤ a := UInt8.le_trans (by decide) (three_first is).1
    simp only [runeLength.three, Bool.and_eq_true] at is
    refine .inr (List.forall_mem_cons.mpr ⟨first, List.forall_mem_cons.mpr ⟨tail is.1.1.1.2,
      List.forall_mem_cons.mpr ⟨tail is.1.1.2, ?_⟩⟩⟩)
    exact fun b absurd_ => by cases absurd_
  | @wide a b c d is =>
    have first : 0x80 ≤ a := UInt8.le_trans (by decide) (wide_first is)
    simp only [runeLength.wide, Bool.and_eq_true] at is
    refine .inr (List.forall_mem_cons.mpr ⟨first, List.forall_mem_cons.mpr ⟨tail is.1.1.1.1.2,
      List.forall_mem_cons.mpr ⟨tail is.1.1.1.2, List.forall_mem_cons.mpr ⟨tail is.1.1.2, ?_⟩⟩⟩⟩)
    exact fun b absurd_ => by cases absurd_

theorem Rune.length {rune : Bytes} (is : Rune rune) (rest : Bytes) :
    runeLength (rune ++ rest) = rune.length := by
  cases is with
  | one first => exact runeLength_ascii first rest
  | two is => exact runeLength_two is rest
  | three is => exact runeLength_three is rest
  | wide is => exact runeLength_wide is rest

theorem rune_of_read {text : Bytes} (read : runeLength text ≠ 0) :
    ∃ rune rest, Rune rune ∧ text = rune ++ rest := by
  have ascii {a : UInt8} {rest : Bytes} (single : one a ≠ 0) : ∃ rune tail, Rune rune ∧
      a :: rest = rune ++ tail := by
    have bound := one_le a
    exact ⟨[a], rest, .one (one_eq.mp (by omega)), rfl⟩
  unfold runeLength at read
  split at read
  · next a b c d rest =>
    split at read
    · next is => exact ⟨[a, b, c, d], rest, .wide is, rfl⟩
    · split at read
      · next is => exact ⟨[a, b, c], d :: rest, .three is, rfl⟩
      · split at read
        · next is => exact ⟨[a, b], c :: d :: rest, .two is, rfl⟩
        · exact ascii read
  · next a b c =>
    split at read
    · next is => exact ⟨[a, b, c], [], .three is, rfl⟩
    · split at read
      · next is => exact ⟨[a, b], [c], .two is, rfl⟩
      · exact ascii read
  · next a b =>
    split at read
    · next is => exact ⟨[a, b], [], .two is, rfl⟩
    · exact ascii read
  · exact ascii read
  · exact absurd rfl read

end

inductive Text : Bytes → Prop where
  | nil : Text []
  | append {rune rest : Bytes} : Rune rune → Text rest → Text (rune ++ rest)

theorem Rune.ne_nil {rune : Bytes} (is : Rune rune) : rune ≠ [] := by
  cases is <;> simp

theorem valid_append {rune : Bytes} (is : Rune rune) (rest : Bytes) : valid (rune ++ rest) = valid rest := by
  have length := is.length rest
  cases rune with
  | nil => exact absurd rfl is.ne_nil
  | cons a tail =>
    rw [List.cons_append] at length ⊢
    rw [valid, length]
    simp

theorem valid_iff (text : Bytes) : valid text = true ↔ Text text := by
  constructor
  · intro holds
    induction n : text.length using Nat.strongRecOn generalizing text with
    | ind n ih =>
      cases text with
      | nil => exact .nil
      | cons c tail =>
        have read : runeLength (c :: tail) ≠ 0 := by
          intro zero
          rw [valid, zero] at holds
          simp at holds
        obtain ⟨rune, rest, is, same⟩ := rune_of_read read
        rw [same] at holds n ⊢
        rw [valid_append is] at holds
        have shorter : 0 < rune.length := List.length_pos_of_ne_nil is.ne_nil
        rw [List.length_append] at n
        exact .append is (ih rest.length (by omega) rest holds rfl)
  · intro text
    induction text with
    | nil => simp [valid]
    | append is _ ih => rw [valid_append is, ih]

theorem Text.both {first second : Bytes} (front : Text first) (back : Text second) :
    Text (first ++ second) := by
  induction front with
  | nil => exact back
  | append is _ ih =>
    rw [List.append_assoc]
    exact .append is ih

theorem Text.take {text : Bytes} (is : Text text) (n : Nat) :
    ∃ whole part, text.take n = whole ++ part ∧ Text whole ∧ part.length ≤ 3 := by
  induction is generalizing n with
  | nil => exact ⟨[], [], by simp, .nil, by simp⟩
  | @append rune rest is _ ih =>
    by_cases inside : n < rune.length
    · refine ⟨[], rune.take n, ?_, .nil, ?_⟩
      · rw [List.nil_append, List.take_append_of_le_length (Nat.le_of_lt inside)]
      · have bound : rune.length ≤ 4 := by cases is <;> simp
        rw [List.length_take]
        omega
    · obtain ⟨whole, part, same, front, small⟩ := ih (n - rune.length)
      refine ⟨rune ++ whole, part, ?_, .append is front, small⟩
      rw [List.take_append, List.take_of_length_le (Nat.not_lt.mp inside), same, List.append_assoc]

end OpenEmarsys.Golang
