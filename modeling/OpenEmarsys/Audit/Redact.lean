import Mathlib.Data.List.Nodup
import OpenEmarsys.Javascript.Objects

/-! `redactDiff`: what of a diff reaches the audit log.

Two diffs are told apart by their redactions exactly if they differ somewhere that no sensitive key leads to.
-/

set_option autoImplicit false

namespace OpenEmarsys.Audit

open Javascript

def sensitiveWords : List (List Char) := ["password".toList, "secret".toList, "token".toList]

/-- `SENSITIVE_KEY`, of a key in lower case. -/
def SENSITIVE_KEY (key : List Char) : Bool :=
  sensitiveWords.any fun word => key == word || (word ++ ['_']).isPrefixOf key || ('_' :: word).isSuffixOf key

/-- `MFA_KEY`, of a key in lower case. -/
def MFA_KEY (key : List Char) : Bool := "mfa_".toList.isPrefixOf key

/-- Without the flag `u`, only ASCII letters match another letter than themselves. -/
def isSensitiveKey (key : String) : Bool :=
  SENSITIVE_KEY (key.toList.map Char.toLower) || MFA_KEY (key.toList.map Char.toLower)

def REDACTED : Json := .string "[REDACTED]"

mutual
def redactDiff : Json → Json
  | .null => .null
  | .boolean value => .boolean value
  | .number value => .number value
  | .string value => .string value
  | .array elements => .array (redactAll elements)
  | .object members => .object (fromEntries (redactEntries members))

def redactAll : List Json → List Json
  | [] => []
  | v :: rest => redactDiff v :: redactAll rest

def redactEntries : List (String × Json) → List (String × Json)
  | [] => []
  | (key, v) :: rest => (key, if isSensitiveKey key then REDACTED else redactDiff v) :: redactEntries rest
end

inductive Segment where
  | key (key : String)
  | index (i : Nat)

def walk : List Segment → Json → Option Json
  | [], value => some value
  | .key key :: path, .object members => (members.lookup key).bind (walk path)
  | .index i :: path, .array elements => elements[i]?.bind (walk path)
  | _ :: _, _ => none

/-- A value less what it contains: the length of an array, the keys of an object in their order. -/
inductive Shape where
  | scalar (value : Json)
  | array (length : Nat)
  | object (keys : List String)

def shape : Json → Shape
  | .array elements => .array elements.length
  | .object members => .object (members.map Prod.fst)
  | value => .scalar value

def Clear (path : List Segment) : Prop := ∀ key, .key key ∈ path → isSensitiveKey key = false

/-- Two values are the same but for what sensitive keys lead to. -/
def Agree (v w : Json) : Prop := ∀ path, Clear path → (walk path v).map shape = (walk path w).map shape

mutual
/-- Objects have their members as the runtime lists them. -/
def Proper : Json → Prop
  | .array elements => ProperAll elements
  | .object members => Listed members ∧ ProperEntries members
  | _ => True

def ProperAll : List Json → Prop
  | [] => True
  | v :: rest => Proper v ∧ ProperAll rest

def ProperEntries : List (String × Json) → Prop
  | [] => True
  | (_, v) :: rest => Proper v ∧ ProperEntries rest
end

theorem redactAll_eq (elements : List Json) : redactAll elements = elements.map redactDiff := by
  induction elements with
  | nil => rfl
  | cons v rest ih => rw [redactAll, ih, List.map_cons]

def redactValue (key : String) (v : Json) : Json := if isSensitiveKey key then REDACTED else redactDiff v

theorem redactEntries_eq (members : List (String × Json)) :
    redactEntries members = mapValues redactValue members := by
  induction members with
  | nil => rfl
  | cons entry rest ih =>
    obtain ⟨key, v⟩ := entry
    rw [redactEntries, ih]
    rfl

theorem properAll_iff (elements : List Json) : ProperAll elements ↔ ∀ v ∈ elements, Proper v := by
  induction elements with
  | nil => simp [ProperAll]
  | cons v rest ih => simp [ProperAll, ih]

theorem properEntries_iff (members : List (String × Json)) :
    ProperEntries members ↔ ∀ entry ∈ members, Proper entry.2 := by
  induction members with
  | nil => simp [ProperEntries]
  | cons entry rest ih =>
    obtain ⟨key, v⟩ := entry
    simp [ProperEntries, ih]

theorem redactDiff_array (elements : List Json) : redactDiff (.array elements) = .array
    (elements.map redactDiff) := by
  rw [redactDiff, redactAll_eq]

theorem redactDiff_object {members : List (String × Json)} (listed : Listed members) :
    redactDiff (.object members) = .object (mapValues redactValue members) := by
  rw [redactDiff, redactEntries_eq, listed.mapValues redactValue]

theorem lookup_mapValues (f : String → Json → Json) (members : List (String × Json)) (key : String) :
    (mapValues f members).lookup key = (members.lookup key).map (f key) := by
  induction members with
  | nil => rfl
  | cons entry rest ih =>
    have tail : mapValues f (entry :: rest) = (entry.1, f entry.1 entry.2) :: mapValues f rest := rfl
    rw [tail, List.lookup_cons, List.lookup_cons, ih]
    by_cases same : key = entry.1
    · simp [same]
    · rw [beq_eq_false_iff_ne.mpr same]

theorem shape_redact {v : Json} (proper : Proper v) : shape (redactDiff v) = shape v := by
  cases v with
  | array elements => rw [redactDiff_array, shape, shape, List.length_map]
  | object members => rw [redactDiff_object proper.1, shape, shape, keys_mapValues]
  | _ => rw [redactDiff]

theorem proper_element {elements : List Json} (proper : Proper (.array elements)) {v : Json}
    (member : v ∈ elements) :
    Proper v :=
  (properAll_iff elements).mp proper v member

theorem proper_member {members : List (String × Json)} (proper : Proper (.object members))
    {entry : String × Json} (member : entry ∈ members) : Proper entry.2 :=
  (properEntries_iff members).mp proper.2 entry member

-- What a path leads to in a redaction is the redaction of what it leads to.
theorem walk_redact (path : List Segment) {v : Json} (proper : Proper v) (clear : Clear path) :
    walk path (redactDiff v) = (walk path v).map redactDiff ∧ ∀ u, walk path v = some u → Proper u := by
  induction path generalizing v with
  | nil =>
    refine ⟨rfl, fun u found => ?_⟩
    cases found
    exact proper
  | cons segment path ih =>
    have later : Clear path := fun key member => clear key (List.mem_cons_of_mem _ member)
    cases segment with
    | key key =>
      have plain : isSensitiveKey key = false := clear key (List.mem_cons_self ..)
      cases v with
      | object members =>
        rw [redactDiff_object proper.1, walk, walk, lookup_mapValues]
        cases found : members.lookup key with
        | none => exact ⟨rfl, fun u absurd_ => by cases absurd_⟩
        | some u =>
          have step := ih (proper_member proper (mem_of_lookup found)) later
          have same : redactValue key u = redactDiff u := by simp [redactValue, plain]
          refine ⟨?_, step.2⟩
          rw [Option.map_some, same]
          exact step.1
      | array elements =>
        rw [redactDiff_array]
        exact ⟨rfl, fun u absurd_ => by cases absurd_⟩
      | _ =>
        rw [redactDiff]
        exact ⟨rfl, fun u absurd_ => by cases absurd_⟩
    | index i =>
      cases v with
      | array elements =>
        rw [redactDiff_array, walk, walk, List.getElem?_map]
        cases found : elements[i]? with
        | none => exact ⟨rfl, fun u absurd_ => by cases absurd_⟩
        | some u => exact ih (proper_element proper (List.mem_of_getElem? found)) later
      | object members =>
        rw [redactDiff_object proper.1]
        exact ⟨rfl, fun u absurd_ => by cases absurd_⟩
      | _ =>
        rw [redactDiff]
        exact ⟨rfl, fun u absurd_ => by cases absurd_⟩

theorem agree_redact {v : Json} (proper : Proper v) : Agree (redactDiff v) v := by
  intro path clear
  obtain ⟨same, kept⟩ := walk_redact path proper clear
  rw [same, Option.map_map]
  cases found : walk path v with
  | none => rfl
  | some u => exact congrArg some (shape_redact (kept u found))

theorem Agree.element {elements others : List Json} (agree : Agree (.array elements) (.array others))
    (i : Nat) {v w : Json} (here : elements[i]? = some v) (there : others[i]? = some w) : Agree v w := by
  intro path clear
  have inside : Clear (.index i :: path) := by
    intro key member
    cases member with
    | tail _ later => exact clear key later
  have same := agree (.index i :: path) inside
  simpa [walk, here, there] using same

theorem Agree.member {members others : List (String × Json)}
    (agree : Agree (.object members) (.object others)) {key : String}
    (plain : isSensitiveKey key = false) {v w : Json} (here : members.lookup key = some v)
    (there : others.lookup key = some w) :
    Agree v w := by
  intro path clear
  have inside : Clear (.key key :: path) := by
    intro other member
    cases member with
    | head => exact plain
    | tail _ later => exact clear other later
  have same := agree (.key key :: path) inside
  simpa [walk, here, there] using same

theorem Agree.shape {v w : Json} (agree : Agree v w) : Audit.shape v = Audit.shape w := by
  have same := agree [] (fun key member => by cases member)
  simpa [walk] using same

theorem lookup_of_listed {members : List (String × Json)} (listed : Listed members) {i : Nat}
    {entry : String × Json} (here : members[i]? = some entry) : members.lookup entry.1 = some entry.2 := by
  rw [lookup_iff_mem]
  · exact List.mem_of_getElem? here
  · intro v w first second
    exact congrArg Prod.snd (List.inj_on_of_nodup_map listed.distinct first second rfl)

theorem redact_of_agree (v w : Json) (properV : Proper v) (properW : Proper w) (agree : Agree v w) :
    redactDiff v = redactDiff w := by
  have shapes := agree.shape
  induction v using Json.induct generalizing w with
  | array elements ih =>
    cases w with
    | array others =>
      rw [redactDiff_array, redactDiff_array]
      congr 1
      have length : elements.length = others.length := by simpa [Audit.shape] using shapes
      apply List.ext_getElem (by simpa using length)
      intro i inV inW
      rw [List.length_map] at inV inW
      rw [List.getElem_map, List.getElem_map]
      have inside := agree.element i (List.getElem?_eq_getElem inV) (List.getElem?_eq_getElem inW)
      exact ih elements[i] (List.getElem_mem inV) others[i] (proper_element properV (List.getElem_mem inV))
        (proper_element properW (List.getElem_mem inW)) inside inside.shape
    | _ => cases shapes
  | object members ih =>
    cases w with
    | object others =>
      rw [redactDiff_object properV.1, redactDiff_object properW.1]
      congr 1
      have keys : members.map Prod.fst = others.map Prod.fst := by simpa [Audit.shape] using shapes
      have length : members.length = others.length := by simpa using congrArg List.length keys
      apply List.ext_getElem (by simpa [mapValues] using length)
      intro i inV inW
      simp only [mapValues, List.length_map] at inV inW
      simp only [mapValues, List.getElem_map]
      have key : members[i].1 = others[i].1 := by
        have same := congrArg (fun list => list[i]?) keys
        simpa [inV, inW] using same
      have here := lookup_of_listed properV.1 (List.getElem?_eq_getElem inV)
      have there := lookup_of_listed properW.1 (List.getElem?_eq_getElem inW)
      rw [← key] at there ⊢
      cases plain : isSensitiveKey members[i].1 with
      | true => simp [redactValue, plain]
      | false =>
        have inside := agree.member plain here there
        have same := ih members[i] (List.getElem_mem inV) others[i].2
          (proper_member properV (List.getElem_mem inV))
          (proper_member properW (List.getElem_mem inW)) inside inside.shape
        simp [redactValue, plain, same]
    | _ => cases shapes
  | _ =>
    cases w with
    | array others => cases shapes
    | object others => cases shapes
    | _ => cases shapes <;> rfl

theorem proper_redact (v : Json) (proper : Proper v) : Proper (redactDiff v) := by
  induction v using Json.induct with
  | array elements ih =>
    rw [redactDiff_array]
    apply (properAll_iff _).mpr
    intro redacted member
    obtain ⟨v, here, rfl⟩ := List.mem_map.mp member
    exact ih v here (proper_element proper here)
  | object members ih =>
    rw [redactDiff_object proper.1]
    refine ⟨proper.1.mapValues redactValue, (properEntries_iff _).mpr fun redacted member => ?_⟩
    obtain ⟨entry, here, rfl⟩ := List.mem_map.mp member
    simp only [redactValue]
    split
    · trivial
    · exact ih entry here (proper_member proper here)
  | _ => rw [redactDiff]; trivial

theorem Agree.symm {v w : Json} (agree : Agree v w) : Agree w v := fun path clear => (agree path clear).symm

theorem Agree.trans {v w u : Json} (first : Agree v w) (second : Agree w u) : Agree v u :=
  fun path clear => (first path clear).trans (second path clear)

/-- Two diffs have one redaction exactly if they differ only where a sensitive key leads; the redaction
keeps the rest in its place; and a redaction is its own redaction. -/
theorem redactDiff_exact (v w : Json) (properV : Proper v) (properW : Proper w) :
    (redactDiff v = redactDiff w ↔ Agree v w) ∧ Agree (redactDiff v) v ∧ redactDiff
    (redactDiff v) = redactDiff v := by
  have kept := agree_redact properV
  refine ⟨⟨fun same => ?_, redact_of_agree v w properV properW⟩, kept, ?_⟩
  · have other := agree_redact properW
    rw [← same] at other
    exact kept.symm.trans other
  · exact redact_of_agree (redactDiff v) v (proper_redact v properV) properV kept

def login (secret : String) : Json :=
  .object [("user", .object [("Password", .string secret), ("name", .string "ana")]),
    ("tokens", .array [.object [("token", .string secret)]])]

theorem login_proper (secret : String) : Proper (login secret) := by
  have outer : precedes "tokens" "user" = false := by decide +kernel
  have inner : precedes "name" "Password" = false := by decide +kernel
  simp [login, Proper, ProperEntries, ProperAll, Listed, fromEntries, setProperty, place, outer, inner]

/-- Two logins with different passwords. -/
theorem redactDiff_exact_login :
    redactDiff (login "hunter2") = redactDiff (login "correct horse") ∧ Agree (redactDiff (login "hunter2"))
    (login "hunter2") := by
  have both := redactDiff_exact (login "hunter2") (login "correct horse") (login_proper _) (login_proper _)
  exact ⟨by rfl, both.2.1⟩

end OpenEmarsys.Audit
