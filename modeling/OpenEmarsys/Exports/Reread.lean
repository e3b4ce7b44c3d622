import OpenEmarsys.Exports.Columns
import OpenEmarsys.Importer.Csvfmt

/-! Reading an export with the importer.

A record is lost if its line has nothing in it, a field changes if it has a `\r\n`, and the header changes
if the file starts with a byte order mark.
-/

set_option autoImplicit false

namespace OpenEmarsys.Exports

open Golang
open Importer (Encoding mark newCSVReader prefix_of_append)

/-- The contacts of a stream, with what has been read of the current line. -/
def contacts : Bytes → Bytes → Option (List Contact)
  | line, [] => if line = [] then some [] else none
  | line, c :: rest =>
      if c = Csv.newline then (unmarshal (line ++ [c])).bind
        fun contact => (contacts [] rest).map (contact :: ·)
      else contacts (line ++ [c]) rest

def records (cols : List Column) (found : List Contact) : List (List Bytes) :=
  header cols :: found.map (row cols)

theorem separator : Csv.Separator comma := ⟨by decide, by decide, by decide⟩

theorem writeLines_text {cols : List Column} {broken : Bool} (rest line : Bytes) (w : Written)
    {written : Written} (accepted : writeLines cols broken w line rest = .ok written) :
    ∃ found, contacts line rest = some found ∧
      written.text = w.text ++ (found.map fun contact => Csv.write comma (row cols contact)).flatten := by
  induction rest generalizing line w with
  | nil =>
    simp only [writeLines] at accepted
    split at accepted
    · cases accepted
    · split at accepted
      · next nothing =>
        cases accepted
        exact ⟨[], by simp [contacts, nothing], by simp⟩
      · cases accepted
  | cons c rest ih =>
    simp only [writeLines] at accepted
    split at accepted
    · next ends =>
      subst ends
      split at accepted
      · cases accepted
      · next contact parsed =>
        obtain ⟨found, same, text⟩ := ih [] _ accepted
        have added : (w.add cols contact).text = w.text ++ Csv.write comma (row cols contact) := by
          unfold Written.add
          split <;> rfl
        refine ⟨contact :: found, by simp [contacts, parsed, same], ?_⟩
        rw [text, added, List.append_assoc]
        rfl
    · next inside =>
      obtain ⟨found, same, text⟩ := ih (line ++ [c]) w accepted
      exact ⟨found, by simp [contacts, inside, same], text⟩

theorem writeCSV_text {cols : List Column} {body : Body} {written : Written}
    (accepted : writeCSV body cols = .ok written) :
    ∃ found, contacts [] body.bytes = some found ∧
      written.text = ((records cols found).map (Csv.write comma)).flatten := by
  obtain ⟨found, same, text⟩ := writeLines_text body.bytes [] _ accepted
  refine ⟨found, same, ?_⟩
  rw [text, records, List.map_cons, List.flatten_cons, List.map_map]
  rfl

/-- A field without `\r\n`. -/
def Unix (field : Bytes) : Prop := ¬ [Csv.carriage, Csv.newline] <:+: field

instance (field : Bytes) : Decidable (Unix field) := inferInstanceAs (Decidable (¬ _ <:+: _))

theorem unify_length (field : Bytes) : (Csv.unify field).length ≤ field.length := by
  induction field using Csv.unify.induct with
  | case1 => exact Nat.le_refl _
  | case2 c => exact Nat.le_refl _
  | case3 c next tail both ih =>
    rw [Csv.unify, if_pos both]
    exact Nat.le_succ_of_le ih
  | case4 c next tail apart ih =>
    rw [Csv.unify, if_neg apart]
    exact Nat.succ_le_succ ih

theorem unify_iff (field : Bytes) : Csv.unify field = field ↔ Unix field := by
  induction field using Csv.unify.induct with
  | case1 => simp [Csv.unify, Unix]
  | case2 c =>
    simp only [Csv.unify, Unix, true_iff]
    intro inside
    have length := inside.length_le
    simp at length
  | case3 c next tail both ih =>
    rw [Csv.unify, if_pos both]
    constructor
    · intro same
      have shorter := unify_length (next :: tail)
      rw [same] at shorter
      simp only [List.length_cons] at shorter
      omega
    · intro unix
      obtain ⟨rfl, rfl⟩ := both
      exact absurd ⟨[], tail, rfl⟩ unix
  | case4 c next tail apart ih =>
    rw [Csv.unify, if_neg apart, List.cons_inj_right, ih]
    constructor
    · intro unix inside
      rcases List.infix_cons_iff.mp inside with starts | later
      · obtain ⟨more, same⟩ := starts
        simp only [List.cons_append, List.cons.injEq] at same
        exact apart ⟨same.1.symm, same.2.1.symm⟩
      · exact unix later
    · intro unix inside
      exact unix (List.infix_cons_iff.mpr (.inr inside))

theorem map_eq_self {α : Type} {f : α → α} {list : List α} :
    list.map f = list ↔ ∀ item ∈ list, f item = item := by
  have same := List.map_inj_left (f := f) (g := id) (l := list)
  rwa [List.map_id] at same

theorem map_filter_eq {α : Type} {keep : α → Bool} {f : α → α} {list : List α} :
    (list.filter keep).map f = list ↔ (∀ item ∈ list, keep item = true) ∧ ∀ item ∈ list, f item = item := by
  constructor
  · intro same
    have all : list.filter keep = list := by
      apply List.filter_sublist.eq_of_length
      rw [← List.length_map f, same]
    rw [all] at same
    refine ⟨List.filter_eq_self.mp all, fun item member => ?_⟩
    exact map_eq_self.mp same item member
  · rintro ⟨kept, fixed⟩
    rw [List.filter_eq_self.mpr kept]
    exact map_eq_self.mpr fixed

/-- Each record is seen, and each of its fields is left as it is. -/
def Visible (list : List (List Bytes)) : Prop := ∀ record ∈ list, record ≠ [[]] ∧ ∀ field ∈ record, Unix field

instance (list : List (List Bytes)) : Decidable (Visible list) :=
  inferInstanceAs (Decidable (∀ record ∈ list, record ≠ [[]] ∧ ∀ field ∈ record, Unix field))

theorem visible_iff (list : List (List Bytes)) :
    (list.filter (· ≠ [[]])).map (·.map Csv.unify) = list ↔ Visible list := by
  rw [map_filter_eq]
  have fields (record : List Bytes) : record.map Csv.unify = record ↔ ∀ field ∈ record, Unix field := by
    rw [map_eq_self]
    constructor
    · intro fixed field member
      exact (unify_iff field).mp (fixed field member)
    · intro unix field member
      exact (unify_iff field).mpr (unix field member)
  simp only [decide_eq_true_eq, fields]
  constructor
  · intro both record member
    exact ⟨both.1 record member, both.2 record member⟩
  · intro visible
    exact ⟨fun record member => (visible record member).1, fun record member => (visible record member).2⟩

def Marked (cols : List Column) : Prop :=
  ∃ col rest, cols = col :: rest ∧ mark <+: col.name ∧ Csv.fieldNeedsQuotes comma col.name = false

def Readable (cols : List Column) (found : List Contact) : Prop :=
  ¬ Marked cols ∧ Visible (records cols found)

theorem line_split (more : List (Csv.Cell comma)) :
    ∃ stop tail, stop ∉ mark ∧ ∀ other : Csv.Cell comma, Csv.line
    (other :: more) = other.text ++ stop :: tail := by
  cases more with
  | nil => exact ⟨Csv.newline, [], by decide, fun other => by simp [Csv.line]⟩
  | cons second more =>
    refine ⟨comma, Csv.line (second :: more), by decide, fun other => ?_⟩
    simp [Csv.line]

theorem marked_iff (col : Column) (rest : List Column) (tail : Bytes) :
    mark <+: ((records (col :: rest) []).map (Csv.write comma)).flatten ++ tail ↔ Marked (col :: rest) := by
  obtain ⟨stop, after, other, text⟩ := line_split (rest.map fun col => Csv.Cell.ofField comma col.name)
  have written : ((records (col :: rest) []).map (Csv.write comma)).flatten =
      (Csv.Cell.ofField comma col.name).text ++ stop :: after := by
    simp only [records, header, List.map_cons, List.map_nil, List.flatten_cons,
      List.flatten_nil, List.append_nil,
      Csv.write_eq, List.map_map]
    exact text _
  rw [written, List.append_assoc, List.cons_append]
  constructor
  · intro starts
    cases bare : Csv.fieldNeedsQuotes comma col.name with
    | true =>
      simp only [Csv.Cell.text, Csv.Cell.ofField, bare, if_true, Csv.enclose, List.cons_append] at starts
      exact absurd (List.cons_prefix_cons.mp starts).1 (by decide)
    | false =>
      simp only [Csv.Cell.text, Csv.Cell.ofField, bare, Bool.false_eq_true, if_false] at starts
      exact ⟨col, rest, rfl, prefix_of_append other starts, bare⟩
  · rintro ⟨first, later, same, starts, bare⟩
    cases same
    simp only [Csv.Cell.text, Csv.Cell.ofField, bare, Bool.false_eq_true, if_false]
    exact starts.trans (List.prefix_append _ _)

theorem filter_all {α β : Type} {keep : α → Bool} {f : α → β} {list : List α} {other : List β}
    (length : list.length = other.length)
    (same : (list.filter keep).map f = other) : list.map f = other := by
  have all : list.filter keep = list := by
    apply List.filter_sublist.eq_of_length
    rw [length, ← same, List.length_map]
  rwa [all] at same

theorem rows_filled {cols : List Column} (filled : cols ≠ []) (found : List Contact) :
    ∀ record ∈ records cols found, record ≠ [] := by
  intro record member nothing
  rcases List.mem_cons.mp member with rfl | later
  · exact filled (List.map_eq_nil_iff.mp nothing)
  · obtain ⟨contact, -, rfl⟩ := List.mem_map.mp later
    exact filled (List.map_eq_nil_iff.mp nothing)

-- Without its byte order mark, the first name is read shorter than it was written.
theorem marked_differs (cols : List Column) (found : List Contact) (marked : Marked cols) :
    Csv.readAll comma (((records cols found).map (Csv.write comma)).flatten.drop 3) ≠ records cols found := by
  obtain ⟨col, rest, rfl, ⟨name, starts⟩, bare⟩ := marked
  have plain : Csv.Plain comma name := fun c member =>
    Csv.plain_of_written bare c (starts ▸ List.mem_append_right _ member)
  let first : Csv.Cell comma := ⟨name, false, fun _ => plain, fun absurd_ => by cases absurd_⟩
  let others := rest.map fun col => Csv.Cell.ofField comma col.name
  let rows := found.map fun contact => (row (col :: rest) contact).map (Csv.Cell.ofField comma)
  -- the file without its first three bytes
  have written : ((records (col :: rest) found).map (Csv.write comma)).flatten.drop 3 =
      (((first :: others) :: rows).map Csv.line).flatten := by
    obtain ⟨stop, after, -, text⟩ := line_split others
    have head : Csv.write comma (header (col :: rest)) = col.name ++ stop :: after := by
      rw [Csv.write_eq, header, List.map_cons, List.map_cons, List.map_map]
      have own : (Csv.Cell.ofField comma col.name).text = col.name := by
        simp [Csv.Cell.text, Csv.Cell.ofField, bare]
      have split := text (Csv.Cell.ofField comma col.name)
      rw [own] at split
      exact split
    have same : found.map (fun contact => Csv.write comma (row (col :: rest) contact)) =
        rows.map Csv.line := by
      rw [List.map_map]
      apply List.map_congr_left
      intro contact _
      exact Csv.write_eq _
    rw [records, List.map_cons, List.map_map, List.flatten_cons, List.map_cons, List.flatten_cons,
      head, ← starts, text first]
    rw [show (found.map (Csv.write comma ∘ row (col :: rest))) = rows.map Csv.line from same]
    rfl
  intro same
  have still : ∀ cells ∈ (first :: others) :: rows, cells ≠ [] := by
    intro cells member nothing
    rcases List.mem_cons.mp member with rfl | later
    · cases nothing
    · obtain ⟨contact, -, rfl⟩ := List.mem_map.mp later
      cases nothing
  rw [written, Csv.readAll_lines separator _ still] at same
  have length : (((first :: others) :: rows).map (·.map Csv.Cell.field)).length =
      (records (col :: rest) found).length := by
    simp [records, rows]
  have kept := filter_all length same
  simp only [records, header, List.map_cons, List.cons.injEq] at kept
  have shorter := unify_length name
  rw [show Csv.unify name = col.name from kept.1.1, ← starts, List.length_append] at shorter
  simp only [mark, List.length_cons, List.length_nil] at shorter
  omega

/-- An export reads back as the header and one record for each contact, with the rendered values, exactly if
no record is a lone empty field, no field has a `\r\n`, and no byte order mark stands at the start. -/
theorem export_read_back_iff (cols : List Column) (body : Body) (written : Written) (filled : cols ≠ [])
    (accepted : writeCSV body cols = .ok written) :
    ∃ found, contacts [] body.bytes = some found ∧
      (newCSVReader written.text comma .utf8 = records cols found ↔ Readable cols found) := by
  obtain ⟨found, same, text⟩ := writeCSV_text accepted
  refine ⟨found, same, ?_⟩
  cases cols with
  | nil => exact absurd rfl filled
  | cons col rest =>
    have split : ((records (col :: rest) found).map (Csv.write comma)).flatten =
        ((records (col :: rest) []).map (Csv.write comma)).flatten ++
          (found.map fun contact => Csv.write comma (row (col :: rest) contact)).flatten := by
      simp [records, Function.comp_def]
    have starts :=
      marked_iff col rest (found.map fun contact => Csv.write comma (row (col :: rest) contact)).flatten
    rw [← split, ← text] at starts
    by_cases marked : Marked (col :: rest)
    · have read : newCSVReader written.text comma .utf8 = Csv.readAll comma (written.text.drop 3) := by
        simp [newCSVReader, List.isPrefixOf_iff_prefix.mpr (starts.mpr marked)]
      rw [read, text]
      constructor
      · intro equal
        exact absurd equal (marked_differs _ _ marked)
      · intro readable
        exact absurd marked readable.1
    · have read : newCSVReader written.text comma .utf8 = Csv.readAll comma written.text := by
        have not : ¬ mark.isPrefixOf written.text = true :=
          fun is => marked (starts.mp (List.isPrefixOf_iff_prefix.mp is))
        simp [newCSVReader, not]
      rw [read, text, Csv.readAll_write separator _ (rows_filled filled found), visible_iff]
      constructor
      · intro visible
        exact ⟨marked, visible⟩
      · intro readable
        exact readable.2

def email : Column := ⟨3, utf8 "email", none⟩

def firstName : Column := ⟨1, utf8 "first_name", none⟩

def stream : Body where
  bytes := utf8
    "\x7b\"id\":\"x\",\"fields\":\x7b\"3\":\"a,b@x.com\",\"1\":\"Ann\"\x7d\x7d\n\x7b\"id\":\"y\",\"fields\":\x7b\"3\":\"c@x.com\"\x7d\x7d\n"
  broken := false

theorem accepted_of_text (cols : List Column) (text : Bytes)
    (found : (writeCSV stream cols).toOption.map Written.text = some text) :
    ∃ written, writeCSV stream cols = .ok written ∧ written.text = text := by
  cases result : writeCSV stream cols with
  | error error => simp [result, Except.toOption] at found
  | ok written => exact ⟨written, rfl, by simpa [result, Except.toOption] using found⟩

theorem export_read_back_two : ∃ written found, writeCSV stream [email, firstName] = .ok written ∧
    contacts [] stream.bytes = some found ∧ newCSVReader written.text comma .utf8 = records
    [email, firstName] found ∧
        records [email, firstName] found =
        [[utf8 "email", utf8 "first_name"], [utf8 "a,b@x.com", utf8 "Ann"], [utf8 "c@x.com", []]] := by
  obtain ⟨written, accepted, -⟩ := accepted_of_text [email, firstName]
    (utf8 "email,first_name\n\"a,b@x.com\",Ann\nc@x.com,\n") (by decide +kernel)
  obtain ⟨found, same, read⟩ := export_read_back_iff [email,
    firstName] stream written (List.cons_ne_nil _ _) accepted
  have rendered : (contacts [] stream.bytes).map (records [email, firstName]) =
      some [[utf8 "email", utf8 "first_name"], [utf8 "a,b@x.com", utf8 "Ann"], [utf8 "c@x.com", []]] := by
    decide +kernel
  rw [same, Option.map_some, Option.some.injEq] at rendered
  refine ⟨written, found, accepted, same, read.mpr ⟨?_, ?_⟩, rendered⟩
  · rintro ⟨col, rest, starts, marked, -⟩
    cases starts
    exact absurd marked (by decide +kernel)
  · rw [rendered]
    decide +kernel

/-- With the name alone, the second contact is an empty line, which the importer skips. -/
theorem contact_vanishes : ¬ ∀ (cols : List Column) (body : Body) (written : Written), cols ≠ [] →
      writeCSV body cols = .ok written →
      ∃ found, contacts [] body.bytes = some found ∧
      newCSVReader written.text comma .utf8 = records cols found := by
  intro claim
  obtain ⟨written, accepted, text⟩ :=
    accepted_of_text [firstName] (utf8 "first_name\nAnn\n\n") (by decide +kernel)
  obtain ⟨found, same, read⟩ := claim [firstName] stream written (List.cons_ne_nil _ _) accepted
  have rendered : (contacts [] stream.bytes).map (records [firstName]) = some [[utf8 "first_name"],
      [utf8 "Ann"], [[]]] := by
    decide +kernel
  rw [same, Option.map_some, Option.some.injEq] at rendered
  rw [text, rendered] at read
  exact absurd read (by decide +kernel)

end OpenEmarsys.Exports
