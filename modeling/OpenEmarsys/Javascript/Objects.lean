import OpenEmarsys.Javascript.Values

/-! Own properties of an object: `Object.entries` and `Object.fromEntries`.

Keys that are array indices come first, in ascending order; the others follow in the order in which they
were set.
-/

set_option autoImplicit false

namespace OpenEmarsys.Javascript

theorem mem_of_lookup {α β : Type} [BEq α] [LawfulBEq α] {entries : List (α × β)} {key : α} {id : β}
    (found : entries.lookup key = some id) : (key, id) ∈ entries := by
  obtain ⟨before, after, rfl, -⟩ := List.lookup_eq_some_iff.mp found
  simp

theorem lookup_iff_mem {α β : Type} [BEq α] [LawfulBEq α] {entries : List (α × β)} {key : α} {id : β}
    (once : ∀ id other, (key, id) ∈ entries → (key, other) ∈ entries → id = other) :
    entries.lookup key = some id ↔ (key, id) ∈ entries := by
  refine ⟨mem_of_lookup, fun member => ?_⟩
  cases found : entries.lookup key with
  | none => exact absurd (List.lookup_eq_none_iff.mp found (key, id) member) (by simp)
  | some other => rw [once other id (mem_of_lookup found) member]

theorem Json.induct {holds : Json → Prop} (null : holds .null) (boolean : ∀ value, holds (.boolean value))
    (number : ∀ value, holds (.number value)) (string : ∀ value, holds (.string value))
    (array : ∀ elements, (∀ v ∈ elements, holds v) → holds (.array elements))
    (object : ∀ members, (∀ entry ∈ members, holds entry.2) → holds (.object members))
    (v : Json) : holds v := by
  refine @Json.rec holds (fun elements => ∀ v ∈ elements,
    holds v) (fun members => ∀ entry ∈ members, holds entry.2)
    (fun entry => holds entry.2) null boolean number string array object ?_ ?_ ?_ ?_ ?_ v
  · exact fun v absurd_ => by cases absurd_
  · exact fun head rest here later => List.forall_mem_cons.mpr ⟨here, later⟩
  · exact fun entry absurd_ => by cases absurd_
  · exact fun head rest here later => List.forall_mem_cons.mpr ⟨here, later⟩
  · exact fun key value here => here

/-- The number that a list of digits stands for, without leading zeros. -/
def canonicalNumber (digits : List Char) : Option Nat :=
  if digits ≠ [] ∧ digits.all Char.isDigit ∧ (digits.head? = some '0' → digits = ['0'])
  then some (digits.foldl (fun n c => n * 10 + (c.toNat - '0'.toNat)) 0) else none

def arrayIndex (key : String) : Option Nat :=
  (canonicalNumber key.toList).filter fun n => n < 2 ^ 32 - 1

def precedes (key other : String) : Bool :=
  match arrayIndex key, arrayIndex other with
  | some n, some m => n < m
  | some _, none => true
  | none, _ => false

section
variable {α β : Type}

def place (key : String) (value : α) : List (String × α) → List (String × α)
  | [] => [(key, value)]
  | other :: rest => if precedes key other.1 then (key, value) :: other :: rest
    else other :: place key value rest

/-- `object[key] = value`. -/
def setProperty (members : List (String × α)) (entry : String × α) : List (String × α) :=
  if entry.1 ∈ members.map Prod.fst then members.map fun other => if other.1 = entry.1 then entry else other
  else place entry.1 entry.2 members

def fromEntries (entries : List (String × α)) : List (String × α) := entries.foldl setProperty []

/-- The members of an object as `Object.entries` lists them. -/
def Listed (members : List (String × α)) : Prop := fromEntries members = members

instance [DecidableEq α] (members : List (String × α)) : Decidable (Listed members) :=
  inferInstanceAs (Decidable (_ = _))

def mapValues (f : String → α → β) (members : List (String × α)) : List (String × β) :=
  members.map fun entry => (entry.1, f entry.1 entry.2)

@[simp] theorem keys_mapValues (f : String → α → β) (members : List (String × α)) :
    (mapValues f members).map Prod.fst = members.map Prod.fst := by
  rw [mapValues, List.map_map]
  rfl

theorem place_mapValues (f : String → α → β) (key : String) (value : α) (members : List (String × α)) :
    place key (f key value) (mapValues f members) = mapValues f (place key value members) := by
  induction members with
  | nil => rfl
  | cons other rest ih =>
    have tail : mapValues f (other :: rest) = (other.1, f other.1 other.2) :: mapValues f rest := rfl
    rw [tail, place, place]
    by_cases before : precedes key other.1 = true
    · rw [if_pos before, if_pos before]
      rfl
    · rw [if_neg before, if_neg before, ih]
      rfl

theorem setProperty_mapValues (f : String → α → β) (members : List (String × α)) (entry : String × α) :
    setProperty (mapValues f members) (entry.1, f entry.1 entry.2) = mapValues f
    (setProperty members entry) := by
  unfold setProperty
  rw [keys_mapValues]
  split
  · simp only [mapValues, List.map_map]
    apply List.map_congr_left
    intro other _
    by_cases same : other.1 = entry.1
    · simp [same]
    · simp [same]
  · exact place_mapValues f entry.1 entry.2 members

theorem fromEntries_mapValues (f : String → α → β) (entries : List (String × α)) :
    fromEntries (mapValues f entries) = mapValues f (fromEntries entries) := by
  have fold (before : List (String × α)) :
      (mapValues f entries).foldl setProperty (mapValues f before) =
          mapValues f (entries.foldl setProperty before) := by
    induction entries generalizing before with
    | nil => rfl
    | cons entry rest ih =>
      have tail : mapValues f (entry :: rest) = (entry.1, f entry.1 entry.2) :: mapValues f rest := rfl
      rw [tail, List.foldl_cons, setProperty_mapValues, ih, List.foldl_cons]
  exact fold []

theorem Listed.mapValues {members : List (String × α)} (listed : Listed members) (f : String → α → β) :
    Listed (mapValues f members) := by
  rw [Listed, fromEntries_mapValues, listed]

theorem keys_place (key : String) (value : α) (members : List (String × α)) :
    ((place key value members).map Prod.fst).Perm (key :: members.map Prod.fst) := by
  induction members with
  | nil => exact List.Perm.refl _
  | cons other rest ih =>
    rw [place]
    split
    · exact List.Perm.refl _
    · exact (ih.cons other.1).trans (List.Perm.swap key other.1 _)

theorem keys_setProperty (members : List (String × α)) (entry : String × α)
    (distinct : (members.map Prod.fst).Nodup) :
    ((setProperty members entry).map Prod.fst).Nodup := by
  unfold setProperty
  split
  · have same : (members.map fun other => if other.1 = entry.1 then entry
        else other).map Prod.fst = members.map Prod.fst := by
      rw [List.map_map]
      apply List.map_congr_left
      intro other _
      by_cases same : other.1 = entry.1
      · simp [same]
      · simp [same]
    rwa [same]
  · next fresh =>
    apply (keys_place entry.1 entry.2 members).nodup_iff.mpr
    exact List.nodup_cons.mpr ⟨fresh, distinct⟩

theorem Listed.distinct {members : List (String × α)} (listed : Listed members) :
    (members.map Prod.fst).Nodup := by
  have fold (entries before : List (String × α)) (distinct : (before.map Prod.fst).Nodup) :
      ((entries.foldl setProperty before).map Prod.fst).Nodup := by
    induction entries generalizing before with
    | nil => exact distinct
    | cons entry rest ih => exact ih _ (keys_setProperty before entry distinct)
  have all := fold members [] List.nodup_nil
  rwa [show members.foldl setProperty [] = members from listed] at all

end

end OpenEmarsys.Javascript
