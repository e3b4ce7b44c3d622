import OpenEmarsys.Contacts.Filters
import OpenEmarsys.Postgres.Like

/-! The texts of a contact search: `q`, and the filters `contains` and `starts_with`.

All of them are escaped and become patterns of `LIKE` or `ILIKE`.
-/

set_option autoImplicit false

namespace OpenEmarsys.Contacts

open Javascript Postgres

/-- The columns that `q` is compared with. -/
structure Searched where
  emailNorm : Option String
  /-- `data->>'1'` -/
  firstName : Option String
  /-- `data->>'2'` -/
  lastName : Option String
  externalId : Option String

/-- A comparison with a column, which may be null. -/
def compares (test : List Char → Option Bool) : Option String → Option Truth
  | none => some none
  | some text => (test text.toList).map some

/-- The condition on `q`: whether it holds, unless the database refuses a pattern. `lower` is the folding
of `toLowerCase`, character by character (the sigma at the end of a Greek word, which it makes another
letter than elsewhere, is left out), `folding` the one of the database. -/
def searchCondition (lower folding : Folding) (q : String) (row : Searched) : Option Truth := do
  let pattern := (escapeLike q ++ "%").toList
  let email ← compares (like (lower.text pattern)) row.emailNorm
  let first ← compares (ilike folding pattern) row.firstName
  let last ← compares (ilike folding pattern) row.lastName
  let external ← compares (like pattern) row.externalId
  pure (Truth.or (Truth.or (Truth.or email first) last) external)

theorem escapeLike_toList (text : String) : (escapeLike text).toList = escaped text.toList := by
  simp [escapeLike, escaped, wildcards]

section
variable (folding : Folding) (v s : String)

theorem start_pattern : (escapeLike v ++ "%").toList = escaped v.toList ++ ['%'] := by
  simp [escapeLike_toList]

theorem within_pattern : ("%" ++ escapeLike v ++ "%").toList = '%' :: escaped v.toList ++ ['%'] := by
  simp [escapeLike_toList]

theorem folding_percent : folding.text ['%'] = ['%'] := by
  have fixed : folding.fold '%' = ['%'] := folding.fixed '%' (by decide)
  simp [Folding.text, fixed]

theorem folded_start : folding.text (escaped v.toList ++ ['%']) = escaped (folding.text v.toList) ++
    ['%'] := by
  rw [folding_append, folding_escaped, folding_percent]

theorem folded_within :
    folding.text ('%' :: escaped v.toList ++ ['%']) = '%' :: escaped (folding.text v.toList) ++ ['%'] := by
  have split : '%' :: escaped v.toList ++ ['%'] = ['%'] ++ (escaped v.toList ++ ['%']) := rfl
  rw [split, folding_append, folded_start, folding_percent]
  rfl

theorem escapeLike_starts : ilike folding (escapeLike v ++ "%").toList s.toList =
    some (decide (folding.text v.toList <+: folding.text s.toList)) := by
  rw [start_pattern, ilike, folded_start]
  exact like_start _ _

/-- The patterns that are made of a text match exactly what the text occurs in, or what starts with it. -/
theorem escapeLike_exact :
    like ("%" ++ escapeLike v ++ "%").toList s.toList = some (decide (v.toList <:+: s.toList)) ∧
      like (escapeLike v ++ "%").toList s.toList = some (decide (v.toList <+: s.toList)) ∧
        ilike folding ("%" ++ escapeLike v ++ "%").toList s.toList =
        some (decide (folding.text v.toList <:+: folding.text s.toList)) ∧
      ilike folding (escapeLike v ++ "%").toList s.toList =
        some (decide (folding.text v.toList <+: folding.text s.toList)) := by
  refine ⟨?_, ?_, ?_, escapeLike_starts folding v s⟩
  · rw [within_pattern]
    exact like_within _ _
  · rw [start_pattern]
    exact like_start _ _
  · rw [within_pattern, ilike, folded_within]
    exact like_within _ _

/-- A wildcard that is searched for stands for itself, and the letters beside it match in either case. -/
example : ilike .ascii (escapeLike "a_" ++ "%").toList "A_B".toList = some true ∧
    ilike .ascii (escapeLike "a_" ++ "%").toList "ABB".toList = some false := by decide +kernel

end

theorem compares_holds {test : List Char → Option Bool} {is : String → Prop} [DecidablePred is]
    (decides : ∀ text : String, test text.toList = some (decide (is text))) (column : Option String) :
    ∃ truth, compares test column = some truth ∧ (truth.Holds ↔ ∃ text, column = some text ∧ is text) := by
  cases column with
  | none =>
    refine ⟨none, rfl, ?_⟩
    constructor
    · intro absurd_
      cases absurd_
    · rintro ⟨text, absurd_, -⟩
      cases absurd_
  | some text =>
    refine ⟨some (decide (is text)), by rw [compares, decides]; rfl, ?_⟩
    rw [Truth.holds_some, decide_eq_true_eq]
    constructor
    · intro holds
      exact ⟨text, rfl, holds⟩
    · rintro ⟨other, same, holds⟩
      cases same
      exact holds

-- The search finds a contact by the start of its address, in lower case, of a name, in any case, or of
-- its external ID.
theorem search_finds (lower folding : Folding) (q : String) (row : Searched) :
    ∃ truth, searchCondition lower folding q row = some truth ∧
      (truth.Holds ↔ (((∃ email, row.emailNorm = some email ∧ lower.text q.toList <+: email.toList) ∨
        (∃ name, row.firstName = some name ∧ folding.text q.toList <+: folding.text name.toList)) ∨
        (∃ name, row.lastName = some name ∧ folding.text q.toList <+: folding.text name.toList)) ∨
        ∃ id, row.externalId = some id ∧ q.toList <+: id.toList) := by
  have pattern := start_pattern q
  have name (text : String) : ilike folding (escapeLike q ++ "%").toList text.toList =
      some (decide (folding.text q.toList <+: folding.text text.toList)) := (escapeLike_starts folding q text)
  have address (text : String) : like (lower.text (escapeLike q ++ "%").toList) text.toList =
      some (decide (lower.text q.toList <+: text.toList)) := by
    rw [pattern, folded_start]
    exact like_start _ _
  have id (text : String) : like (escapeLike q ++ "%").toList text.toList =
      some (decide (q.toList <+: text.toList)) := by
    rw [pattern]
    exact like_start _ _
  obtain ⟨email, emailFound, emailHolds⟩ := compares_holds address row.emailNorm
  obtain ⟨first, firstFound, firstHolds⟩ := compares_holds name row.firstName
  obtain ⟨last, lastFound, lastHolds⟩ := compares_holds name row.lastName
  obtain ⟨external, externalFound, externalHolds⟩ := compares_holds id row.externalId
  refine ⟨Truth.or (Truth.or (Truth.or email first) last) external, ?_, ?_⟩
  · simp only [searchCondition, emailFound, firstFound, lastFound, externalFound]
    rfl
  · rw [Truth.or_holds, Truth.or_holds, Truth.or_holds, emailHolds, firstHolds, lastHolds, externalHolds]

end OpenEmarsys.Contacts
