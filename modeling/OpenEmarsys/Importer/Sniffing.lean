import OpenEmarsys.Importer.Csvfmt

/-! `sniff` on well-formed files.

Outside quotes the header line has the delimiter between its names, and no other one. A file that is cut
in the
middle of a rune is valid again after at most three bytes less.
-/

set_option autoImplicit false

namespace OpenEmarsys.Importer

open Golang

def isQuoted (name : Bytes) : Bool :=
  name.any fun c => delimiters.contains c || c == Csv.quote || c == Csv.newline || c == Csv.carriage

def headerField (name : Bytes) : Bytes := if isQuoted name then Csv.enclose name else name

def headerLine (d : UInt8) (names : List Bytes) : Bytes :=
  [d].intercalate (names.map headerField) ++ [Csv.newline]

def opening (marked : Bool) (d : UInt8) (names : List Bytes) : Bytes :=
  (if marked then mark else []) ++ headerLine d names

def outside : Bool → Bytes → Bytes
  | _, [] => []
  | inQuotes, b :: rest =>
      if b = Csv.quote then outside (!inQuotes) rest
      else if b = Csv.newline ∧ inQuotes = false then []
      else if inQuotes = false then b :: outside inQuotes rest
      else outside inQuotes rest

theorem count_outside (inQuotes : Bool) (counts : UInt8 → Nat) (text : Bytes) (d : UInt8) :
    count inQuotes counts text d = counts d + (outside inQuotes text).count d := by
  induction text generalizing inQuotes counts with
  | nil => rfl
  | cons b rest ih =>
    rw [count, outside]
    split
    · exact ih _ _
    · split
      · simp
      · split
        · rw [ih, List.count_cons]
          by_cases same : b = d
          · subst same
            simp
            omega
          · have other : d ≠ b := fun is => same is.symm
            simp [same, other]
        · exact ih _ _

/-- A byte that is counted, and does not end the line. -/
def Bare (b : UInt8) : Prop := b ≠ Csv.quote ∧ b ≠ Csv.newline

theorem outside_bare {field : Bytes} (bare : ∀ b ∈ field, Bare b) (rest : Bytes) :
    outside false (field ++ rest) = field ++ outside false rest := by
  induction field with
  | nil => rfl
  | cons b field ih =>
    have here := bare b (List.mem_cons_self ..)
    rw [List.cons_append, outside, if_neg here.1, if_neg fun both => here.2 both.1, if_pos rfl,
      ih fun other member => bare other (List.mem_cons_of_mem _ member)]
    rfl

theorem outside_escape (field rest : Bytes) : outside true
    (Csv.escape field ++ Csv.quote :: rest) = outside false rest := by
  induction field with
  | nil => simp [Csv.escape, outside]
  | cons b field ih =>
    rw [Csv.escape_cons]
    by_cases quotes : b = Csv.quote
    · simpa [quotes, outside] using ih
    · simpa [quotes, outside] using ih

theorem outside_enclose (field rest : Bytes) : outside false
    (Csv.enclose field ++ rest) = outside false rest := by
  have inside := outside_escape field rest
  rw [Csv.enclose, List.cons_append, List.append_assoc, List.cons_append,
    List.nil_append, outside, if_pos rfl]
  exact inside

theorem bare_of_unquoted {name : Bytes} (unquoted : isQuoted name = false) :
    ∀ b ∈ name, Bare b ∧ b ∉ delimiters := by
  intro b member
  have none := List.any_eq_false.mp unquoted b member
  simp only [Bool.or_eq_true, not_or, beq_iff_eq, List.contains_iff_mem] at none
  exact ⟨⟨none.1.1.2, none.1.2⟩, none.1.1.1⟩

theorem outside_field (name rest : Bytes) {e : UInt8} (delimiter : e ∈ delimiters) :
    (outside false (headerField name ++ rest)).count e = (outside false rest).count e := by
  unfold headerField
  split
  · rw [outside_enclose]
  · next unquoted =>
    have bare := bare_of_unquoted (Bool.eq_false_iff.mpr unquoted)
    rw [outside_bare (fun b member => (bare b member).1), List.count_append,
      List.count_eq_zero.mpr fun member => (bare e member).2 delimiter, Nat.zero_add]

theorem bare_delimiter {d : UInt8} (delimiter : d ∈ delimiters) : Bare d := by
  have all : ∀ d ∈ delimiters, d ≠ Csv.quote ∧ d ≠ Csv.newline := by simp [delimiters, Csv.quote, Csv.newline]
  exact all d delimiter

theorem outside_header {d e : UInt8} (separates : d ∈ delimiters) (delimiter : e ∈ delimiters)
    (names : List Bytes) (rest : Bytes) :
    (outside false (headerLine d names ++ rest)).count e = if e = d then names.length - 1 else 0 := by
  rw [headerLine, List.append_assoc, List.cons_append, List.nil_append]
  have ends : outside false (Csv.newline :: rest) = [] := by
    rw [outside, if_neg (by decide), if_pos ⟨rfl, rfl⟩]
  induction names with
  | nil => simp [ends]
  | cons name more ih =>
    cases more with
    | nil => simpa [ends] using outside_field name (Csv.newline :: rest) delimiter
    | cons second more =>
      have bare := bare_delimiter separates
      have next (tail : Bytes) : outside false (d :: tail) = d :: outside false tail :=
        @outside_bare [d] (by simpa using bare) tail
      rw [List.map_cons] at ih
      rw [List.map_cons, List.map_cons, Csv.join_cons, List.append_assoc, outside_field name _ delimiter,
        List.cons_append, next,
        List.count_cons, ih]
      by_cases same : e = d
      · simp [same]
      · have other : d ≠ e := fun is => same is.symm
        simp [same, other]

theorem fold_stays {counts : UInt8 → Nat} {best : UInt8 × Nat} {list : List UInt8}
    (none : ∀ e ∈ list, counts e ≤ best.2) :
    list.foldl (better counts) best = best := by
  induction list with
  | nil => rfl
  | cons e rest ih =>
    have here := none e (List.mem_cons_self ..)
    rw [List.foldl_cons, better, if_neg (Nat.not_lt.mpr here)]
    exact ih fun other member => none other (List.mem_cons_of_mem _ member)

theorem best_delimiter {d : UInt8} (separates : d ∈ delimiters) {counts : UInt8 → Nat} (seen : 0 < counts d)
    (others : ∀ e ∈ delimiters, e ≠ d → counts e = 0) :
    (delimiters.foldl (better counts) (0x2C, 0)).1 = d := by
  obtain ⟨before, after, parts, first⟩ := List.eq_append_cons_of_mem separates
  rw [parts] at others ⊢
  have front : ∀ e ∈ before, counts e ≤ 0 := by
    intro e member
    have other : e ≠ d := by
      rintro rfl
      exact first member
    exact Nat.le_of_eq (others e (List.mem_append_left _ member) other)
  have back : ∀ e ∈ after, counts e ≤ counts d := by
    intro e member
    by_cases same : e = d
    · exact Nat.le_of_eq (congrArg counts same)
    · rw [others e (List.mem_append_right _ (List.mem_cons_of_mem _ member)) same]
      exact Nat.zero_le _
  have start : before.foldl (better counts) (0x2C, 0) = (0x2C, 0) := fold_stays front
  rw [List.foldl_append, start, List.foldl_cons, better, if_pos seen]
  exact congrArg Prod.fst (fold_stays back)

theorem mark_bare : ∀ b ∈ mark, Bare b ∧ b ∉ delimiters := by
  simp [mark, Bare, delimiters, Csv.quote, Csv.newline]

theorem outside_trimMark (sample : Bytes) {e : UInt8} (delimiter : e ∈ delimiters) :
    (outside false (trimMark sample)).count e = (outside false sample).count e := by
  unfold trimMark
  split
  · next marked =>
    obtain ⟨rest, rfl⟩ := List.isPrefixOf_iff_prefix.mp marked
    have tail : (mark ++ rest).drop 3 = rest := rfl
    rw [tail, outside_bare (fun b member => (mark_bare b member).1), List.count_append,
      List.count_eq_zero.mpr fun member => (mark_bare e member).2 delimiter, Nat.zero_add]
  · rfl

theorem sniff_delimiter (marked : Bool) {d : UInt8} (separates : d ∈ delimiters) {names : List Bytes}
    (two : 2 ≤ names.length)
    (rest : Bytes) (truncated : Bool) : (sniff (opening marked d names ++ rest) truncated).1 = d := by
  have counted (e : UInt8) (delimiter : e ∈ delimiters) :
      count false (fun _ => 0) (trimMark (opening marked d names ++ rest)) e = if e = d
          then names.length - 1 else 0 := by
    rw [count_outside, outside_trimMark _ delimiter, Nat.zero_add, opening, List.append_assoc]
    have header := outside_header separates delimiter names rest
    cases marked with
    | false => exact header
    | true =>
      rw [if_pos rfl, outside_bare (fun b member => (mark_bare b member).1), List.count_append,
        List.count_eq_zero.mpr fun member => (mark_bare e member).2 delimiter, Nat.zero_add]
      exact header
  apply best_delimiter separates
  · rw [counted d separates, if_pos rfl]
    omega
  · intro e delimiter other
    rw [counted e delimiter, if_neg other]

theorem ascii_text {b : UInt8} (ascii : b ≤ 0x7F) : Text [b] := by
  have one := Text.append (.one ascii) .nil
  simpa using one

theorem escape_text {field : Bytes} (text : Text field) : Text (Csv.escape field) := by
  induction text with
  | nil => exact .nil
  | @append rune rest is _ ih =>
    have split : Csv.escape (rune ++ rest) = Csv.escape rune ++ Csv.escape rest := by
      rw [Csv.escape, List.flatMap_append]
      rfl
    have quote : Text [Csv.quote] := ascii_text (by decide)
    rw [split]
    by_cases quotes : rune = [Csv.quote]
    · rw [quotes]
      exact (quote.both quote).both ih
    · have same : Csv.escape rune = rune := by
        rcases is.ascii with ⟨a, -, rfl⟩ | high
        · have other : a ≠ Csv.quote := fun same => quotes (by rw [same])
          simp [Csv.escape, other]
        · have none (list : Bytes) (above : ∀ b ∈ list, (0x80 : UInt8) ≤ b) : Csv.escape list = list := by
            induction list with
            | nil => rfl
            | cons b list ih =>
              have other : b ≠ Csv.quote := by
                rintro rfl
                exact absurd (above _ (List.mem_cons_self ..)) (by decide)
              rw [Csv.escape_cons, if_neg other, ih fun c member => above c (List.mem_cons_of_mem _ member)]
              rfl
          exact none rune high
      rw [same]
      exact .append is ih

theorem header_text {d : UInt8} (separates : d ∈ delimiters) {names : List Bytes}
    (texts : ∀ name ∈ names, Text name) :
    Text (headerLine d names) := by
  have quote : Text [Csv.quote] := ascii_text (by decide)
  have ends : Text [Csv.newline] := ascii_text (by decide)
  have between : Text [d] := by
    have low : ∀ d ∈ delimiters, d ≤ 0x7F := by simp [delimiters]
    exact ascii_text (low d separates)
  have field (name : Bytes) (text : Text name) : Text (headerField name) := by
    unfold headerField
    split
    · exact quote.both ((escape_text text).both quote)
    · exact text
  refine Text.both ?_ ends
  induction names with
  | nil => exact .nil
  | cons name more ih =>
    have here := field name (texts name (List.mem_cons_self ..))
    have later := ih fun other member => texts other (List.mem_cons_of_mem _ member)
    cases more with
    | nil => simpa using here
    | cons second more =>
      rw [List.map_cons, List.map_cons, Csv.join_cons]
      exact here.both (between.both later)

theorem mark_rune : Rune mark := .three (by decide)

-- What is left of a text and a part of a rune without the mark.
theorem trimMark_text {front whole : Bytes} (part : Bytes) (text : Text (front ++ Csv.newline :: whole)) :
    ∃ rest, trimMark (front ++ Csv.newline :: whole ++ part) = rest ++ part ∧ Text rest := by
  unfold trimMark
  split
  · next marked =>
    have inside : mark <+: front := by
      apply @prefix_of_append mark front (whole ++ part) Csv.newline (by decide)
      simpa using List.isPrefixOf_iff_prefix.mp marked
    obtain ⟨rest, rfl⟩ := inside
    refine ⟨rest ++ Csv.newline :: whole, by simp [mark], ?_⟩
    rw [List.append_assoc] at text
    have left := (valid_iff _).mpr text
    rw [valid_append mark_rune] at left
    exact (valid_iff _).mp left
  · exact ⟨_, rfl, text⟩

theorem trimmed_valid (tries : Nat) {whole part : Bytes} (text : Text whole) (small : part.length ≤ tries) :
    valid (trimmed tries (whole ++ part)) = true := by
  induction tries generalizing part with
  | zero =>
    rw [List.length_eq_zero_iff.mp (Nat.le_zero.mp small), List.append_nil]
    exact (valid_iff _).mpr text
  | succ tries ih =>
    rw [trimmed]
    split
    · next broken =>
      rw [Bool.and_eq_true, Bool.not_eq_true'] at broken
      have some_ : part ≠ [] := by
        rintro rfl
        rw [List.append_nil, (valid_iff _).mpr text] at broken
        cases broken.1
      rw [List.dropLast_append_of_ne_nil some_]
      apply ih
      rw [List.length_dropLast]
      omega
    · next fine =>
      cases ok : valid (whole ++ part) with
      | true => rfl
      | false =>
        have none : whole ++ part = [] := by
          rw [ok] at fine
          simpa using fine
        rw [none] at ok
        simp [valid] at ok

theorem opening_text (marked : Bool) {d : UInt8} (separates : d ∈ delimiters) {names : List Bytes}
    (texts : ∀ name ∈ names, Text name) : Text (opening marked d names) := by
  have header := header_text separates texts
  cases marked with
  | false => exact header
  | true => exact .append mark_rune header

theorem opening_split (marked : Bool) (d : UInt8) (names : List Bytes) :
    ∃ front, opening marked d names = front ++ [Csv.newline] :=
  ⟨_, (List.append_assoc _ _ _).symm⟩

theorem sniff_encoding (marked : Bool) {d : UInt8} (separates : d ∈ delimiters) {names : List Bytes}
    (texts : ∀ name ∈ names, Text name) {whole : Bytes} (part : Bytes) (text : Text whole) (truncated : Bool)
    (small : part.length ≤ if truncated then 3 else 0) :
    (sniff (opening marked d names ++ (whole ++ part)) truncated).2 = .utf8 := by
  obtain ⟨front, split⟩ := opening_split marked d names
  have all : Text (front ++ Csv.newline :: whole) := by
    have both := (opening_text marked separates texts).both text
    rw [split, List.append_assoc] at both
    exact both
  obtain ⟨left, same, is⟩ := trimMark_text part all
  have sample : opening marked d names ++ (whole ++ part) = front ++ Csv.newline :: whole ++ part := by
    rw [split]
    simp
  simp only [sniff, sample, same]
  apply if_pos
  cases truncated with
  | true => exact trimmed_valid UTFMax is (Nat.le_succ_of_le small)
  | false => exact trimmed_valid 0 is small

/-- `sniff` finds the delimiter and the encoding of a well-formed file, whole or cut after its header line. -/
theorem sniff_exact (marked : Bool) (d : UInt8) (names : List Bytes) (body : Bytes)
    (separates : d ∈ delimiters)
    (two : 2 ≤ names.length) (texts : ∀ name ∈ names, valid name = true) (rest : valid body = true) :
    sniff (opening marked d names ++ body) false = (d, .utf8) ∧
      ∀ n, (opening marked d names).length ≤ n → sniff ((opening marked d names ++ body).take n) true =
      (d, .utf8) := by
  have header : ∀ name ∈ names, Text name := fun name member => (valid_iff name).mp (texts name member)
  have text : Text body := (valid_iff body).mp rest
  constructor
  · have encoding := sniff_encoding marked separates header [] text false (Nat.le_refl 0)
    rw [List.append_nil] at encoding
    exact Prod.ext (sniff_delimiter marked separates two body false) encoding
  · intro n after
    obtain ⟨whole, part, cut, front, small⟩ := text.take (n - (opening marked d names).length)
    rw [List.take_append, List.take_of_length_le after, cut]
    exact Prod.ext (sniff_delimiter marked separates two _ true)
      (sniff_encoding marked separates header part front true small)

/-- A file with a mark and a name in quotes, cut in the middle of the letter at the end of `José`. -/
theorem sniff_exact_cut : (opening true 0x3B [utf8 "a;b\"c", utf8 "email"]).length = 18 ∧
    sniff ((opening true 0x3B [utf8 "a;b\"c", utf8 "email"] ++ utf8 "José;x\n").take 22) true =
    (0x3B, .utf8) := by
  have length : (opening true 0x3B [utf8 "a;b\"c", utf8 "email"]).length = 18 := by decide +kernel
  have texts : ∀ name ∈ [utf8 "a;b\"c", utf8 "email"], valid name = true := by decide +kernel
  have cut := (sniff_exact true 0x3B _ (utf8 "José;x\n") (by decide) (by decide) texts
    (by decide +kernel)).2 22
  exact ⟨length, cut (by rw [length]; decide)⟩

end OpenEmarsys.Importer
