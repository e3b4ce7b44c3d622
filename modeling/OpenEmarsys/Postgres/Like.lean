import Mathlib.Data.List.Infix

/-! `LIKE` with its default escape character, and `ILIKE`.

`%` matches any text, `_` any character, and a backslash makes the character after it stand for itself. A
pattern that ends with a backslash of its own is an error.
-/

set_option autoImplicit false

namespace OpenEmarsys.Postgres

inductive Token where
  | any
  | one
  | exactly (c : Char)

def wildcards : List Char := ['\\', '%', '_']

/-- What a pattern asks for, unless it is malformed. -/
def tokens : List Char → Option (List Token)
  | [] => some []
  | [c] => if c = '\\' then none else some [if c = '%' then .any else if c = '_' then .one else .exactly c]
  | c :: next :: rest =>
      if c = '\\' then (tokens rest).map (.exactly next :: ·)
      else (tokens (next :: rest)).map ((if c = '%' then .any else if c = '_' then .one else .exactly c) :: ·)

def fits : List Token → List Char → Bool
  | [], text => text.isEmpty
  | .any :: rest, text => text.tails.any (fits rest)
  | .one :: _, [] => false
  | .one :: rest, _ :: text => fits rest text
  | .exactly _ :: _, [] => false
  | .exactly c :: rest, d :: text => c = d && fits rest text

def like (pattern text : List Char) : Option Bool := (tokens pattern).map fun asked => fits asked text

def escaped (text : List Char) : List Char := text.flatMap fun c => if c ∈ wildcards then ['\\', c] else [c]

theorem escaped_cons (c : Char) (text : List Char) :
    escaped (c :: text) = (if c ∈ wildcards then ['\\', c] else [c]) ++ escaped text := by
  rw [escaped, List.flatMap_cons]
  rfl

theorem tokens_plain {c : Char} (plain : c ∉ wildcards) (rest : List Char) :
    tokens (c :: rest) = (tokens rest).map (.exactly c :: ·) := by
  have notEscape : c ≠ '\\' := fun is => plain (by simp [wildcards, is])
  have notAny : c ≠ '%' := fun is => plain (by simp [wildcards, is])
  have notOne : c ≠ '_' := fun is => plain (by simp [wildcards, is])
  cases rest with
  | nil => simp [tokens, notEscape, notAny, notOne]
  | cons next rest => simp [tokens, notEscape, notAny, notOne]

theorem tokens_escape (c : Char) (rest : List Char) : tokens ('\\' :: c :: rest) = (tokens rest).map
    (.exactly c :: ·) := by
  rw [tokens, if_pos rfl]

theorem tokens_escaped (text rest : List Char) :
    tokens (escaped text ++ rest) = (tokens rest).map (text.map .exactly ++ ·) := by
  induction text with
  | nil => simp [escaped]
  | cons c text ih =>
    rw [escaped_cons, List.append_assoc]
    by_cases wild : c ∈ wildcards
    · rw [if_pos wild]
      change tokens ('\\' :: c :: (escaped text ++ rest)) = _
      rw [tokens_escape, ih, Option.map_map]
      rfl
    · rw [if_neg wild]
      change tokens (c :: (escaped text ++ rest)) = _
      rw [tokens_plain wild, ih, Option.map_map]
      rfl

theorem fits_exactly (text subject : List Char) (rest : List Token) :
    fits (text.map .exactly ++ rest) subject = true ↔ ∃ tail, subject = text ++ tail ∧
    fits rest tail = true := by
  induction text generalizing subject with
  | nil => simp
  | cons c text ih =>
    cases subject with
    | nil => simp [fits]
    | cons d subject =>
      rw [List.map_cons, List.cons_append, fits, Bool.and_eq_true, ih]
      simp only [decide_eq_true_eq, List.cons_append, List.cons.injEq]
      constructor
      · rintro ⟨rfl, tail, rest, follows⟩
        exact ⟨tail, ⟨rfl, rest⟩, follows⟩
      · rintro ⟨tail, ⟨same, rest⟩, follows⟩
        exact ⟨same.symm, tail, rest, follows⟩

theorem fits_any (rest : List Token) (subject : List Char) :
    fits (.any :: rest) subject = true ↔ ∃ front tail, subject = front ++ tail ∧ fits rest tail = true := by
  rw [fits, List.any_eq_true]
  constructor
  · rintro ⟨tail, member, follows⟩
    obtain ⟨front, same⟩ := (List.mem_tails _ _).mp member
    exact ⟨front, tail, same.symm, follows⟩
  · rintro ⟨front, tail, rfl, follows⟩
    exact ⟨tail, (List.mem_tails _ _).mpr (List.suffix_append front tail), follows⟩

theorem fits_all (subject : List Char) : fits [.any] subject = true := by
  rw [fits_any]
  exact ⟨subject, [], by simp, rfl⟩

theorem fits_start (text subject : List Char) :
    fits (text.map .exactly ++ [.any]) subject = true ↔ text <+: subject := by
  rw [fits_exactly]
  constructor
  · rintro ⟨tail, rfl, -⟩
    exact List.prefix_append text tail
  · rintro ⟨tail, rfl⟩
    exact ⟨tail, rfl, fits_all tail⟩

-- An escaped text and `%` match what starts with the text.
theorem like_start (text subject : List Char) : like (escaped text ++ ['%']) subject = some
    (decide (text <+: subject)) := by
  have asked : tokens ['%'] = some [.any] := rfl
  rw [like, tokens_escaped, asked, Option.map_some, Option.map_some, Option.some.injEq,
    Bool.eq_iff_iff, decide_eq_true_eq]
  exact fits_start text subject

-- An escaped text between two `%` matches what it occurs in.
theorem like_within (text subject : List Char) :
    like ('%' :: escaped text ++ ['%']) subject = some (decide (text <:+: subject)) := by
  have asked : tokens ('%' :: escaped text ++ ['%']) = some (.any :: (text.map .exactly ++ [.any])) := by
    have rest := tokens_escaped text ['%']
    rw [show tokens ['%'] = some [.any] from rfl, Option.map_some] at rest
    cases more : escaped text ++ ['%'] with
    | nil => simp at more
    | cons next tail =>
      rw [more] at rest
      rw [List.cons_append, more, tokens, if_neg (by decide), rest]
      rfl
  rw [like, asked, Option.map_some, Option.some.injEq, Bool.eq_iff_iff, decide_eq_true_eq, fits_any]
  constructor
  · rintro ⟨front, tail, rfl, follows⟩
    exact ((fits_start text tail).mp follows).isInfix.trans (List.suffix_append front tail).isInfix
  · rintro ⟨front, tail, rfl⟩
    refine ⟨front, text ++ tail, by simp, (fits_start text _).mpr (List.prefix_append text tail)⟩

/-- What a character becomes in lower case, whatever stands beside it. Wildcards stay, and no other character
becomes one. -/
structure Folding where
  fold : Char → List Char
  fixed : ∀ c ∈ wildcards, fold c = [c]
  fresh : ∀ c, c ∉ wildcards → ∀ d ∈ fold c, d ∉ wildcards

namespace Folding

def text (folding : Folding) (subject : List Char) : List Char := subject.flatMap folding.fold

/-- The capital letters from `A` to `Z` with the small ones. -/
def letters : List (Char × Char) := (List.range 26).map fun n => (Char.ofNat (65 + n), Char.ofNat (97 + n))

def ascii : Folding where
  fold c := [((letters.find? fun letter => letter.1 == c).map Prod.snd).getD c]
  fixed c member := by
    simp only [wildcards, List.mem_cons, List.not_mem_nil, or_false] at member
    rcases member with rfl | rfl | rfl <;> decide
  fresh c plain d member := by
    have small : letters.all (fun letter => letter.2 ∉ wildcards) = true := by decide
    rw [List.mem_singleton.mp member]
    cases found : letters.find? fun letter => letter.1 == c with
    | none => exact plain
    | some letter =>
      exact of_decide_eq_true (List.all_eq_true.mp small letter
        (List.mem_of_find?_eq_some found))

end Folding

def ilike (folding : Folding) (pattern subject : List Char) : Option Bool :=
  like (folding.text pattern) (folding.text subject)

theorem escaped_plain {text : List Char} (plain : ∀ c ∈ text, c ∉ wildcards) : escaped text = text := by
  induction text with
  | nil => rfl
  | cons c text ih =>
    rw [escaped_cons, if_neg (plain c (List.mem_cons_self ..)), ih
      fun d member => plain d (List.mem_cons_of_mem _ member)]
    rfl

theorem escaped_append (first second : List Char) : escaped
    (first ++ second) = escaped first ++ escaped second := by
  rw [escaped, List.flatMap_append]
  rfl

theorem folding_append (folding : Folding) (first second : List Char) :
    folding.text (first ++ second) = folding.text first ++ folding.text second := by
  rw [Folding.text, List.flatMap_append]
  rfl

theorem folding_escaped (folding : Folding) (subject : List Char) :
    folding.text (escaped subject) = escaped (folding.text subject) := by
  induction subject with
  | nil => rfl
  | cons c subject ih =>
    have head : folding.text (c :: subject) = folding.fold c ++ folding.text subject := by
      rw [Folding.text, List.flatMap_cons]
      rfl
    rw [escaped_cons, folding_append, ih, head, escaped_append]
    congr 1
    by_cases wild : c ∈ wildcards
    · have escape : folding.fold '\\' = ['\\'] := folding.fixed '\\' (List.mem_cons_self ..)
      simp [Folding.text, wild, folding.fixed c wild, escape, escaped]
    · rw [if_neg wild, escaped_plain (folding.fresh c wild)]
      simp [Folding.text]

end OpenEmarsys.Postgres
