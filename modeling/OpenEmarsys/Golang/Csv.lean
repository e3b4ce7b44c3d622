import OpenEmarsys.Golang.Values

/-! `encoding/csv`: what its Writer writes and what its Reader reads.

The Reader is the one with `LazyQuotes` and without a check of the number of fields, so it accepts
every text. It works on lines whose `\r\n` has become `\n`, and skips those with nothing in them.
-/

set_option autoImplicit false

namespace OpenEmarsys.Golang.Csv

def quote : UInt8 := 0x22

def carriage : UInt8 := 0x0D

def newline : UInt8 := 0x0A

/-- The first rune is `unicode.IsSpace`. -/
def leadingSpace : Bytes → Bool
  | [] => false
  | [a] => space1 a
  | [a, b] => space1 a || space2 a b
  | a :: b :: c :: _ => space1 a || space2 a b || space3 a b c

def fieldNeedsQuotes (comma : UInt8) (field : Bytes) : Bool :=
  if field = [] then false
  else if field = [0x5C, 0x2E] then true
  else if field.any fun c => c == newline || c == carriage || c == quote || c == comma then true
  else leadingSpace field

def escape (field : Bytes) : Bytes := field.flatMap fun c => if c = quote then [quote, quote] else [c]

def enclose (field : Bytes) : Bytes := quote :: (escape field ++ [quote])

def writeField (comma : UInt8) (field : Bytes) : Bytes :=
  if fieldNeedsQuotes comma field then enclose field else field

def write (comma : UInt8) (record : List Bytes) : Bytes :=
  [comma].intercalate (record.map (writeField comma)) ++ [newline]

/-- Lines end with `\n` alone, and the last one has no `\r` at its end. -/
def normalize : Bytes → Bytes
  | [] => []
  | [c] => if c = carriage then [] else [c]
  | c :: next :: rest =>
      if c = carriage ∧ next = newline then normalize (next :: rest) else c :: normalize (next :: rest)

inductive Phase where
  /-- At the start of a record. -/
  | line
  /-- At the start of another field. -/
  | field
  | plain
  | quoted
  /-- After a quote in a quoted field. -/
  | closing
  deriving DecidableEq

/-- The records of a text, less the fields already read and the part of the current one. -/
def scan (comma : UInt8) : Phase → Bytes → List Bytes → Bytes → List (List Bytes)
  | .line, _, _, [] => []
  | .line, _, _, c :: rest =>
      if c = newline then scan comma .line [] [] rest
      else if c = quote then scan comma .quoted [] [] rest
      else if c = comma then scan comma .field [] [[]] rest
      else scan comma .plain [c] [] rest
  | .field, _, row, [] => [row ++ [[]]]
  | .field, _, row, c :: rest =>
      if c = newline then (row ++ [[]]) :: scan comma .line [] [] rest
      else if c = quote then scan comma .quoted [] row rest
      else if c = comma then scan comma .field [] (row ++ [[]]) rest
      else scan comma .plain [c] row rest
  | .plain, field, row, [] => [row ++ [field]]
  | .plain, field, row, c :: rest =>
      if c = newline then (row ++ [field]) :: scan comma .line [] [] rest
      else if c = comma then scan comma .field [] (row ++ [field]) rest
      else scan comma .plain (field ++ [c]) row rest
  | .quoted, field, row, [] => [row ++ [field]]
  | .quoted, field, row, c :: rest =>
      if c = quote then scan comma .closing field row rest else scan comma .quoted (field ++ [c]) row rest
  | .closing, field, row, [] => [row ++ [field]]
  | .closing, field, row, c :: rest =>
      if c = quote then scan comma .quoted (field ++ [quote]) row rest
      else if c = comma then scan comma .field [] (row ++ [field]) rest
      else if c = newline then (row ++ [field]) :: scan comma .line [] [] rest
      -- a quote that is not doubled stands for itself
      else scan comma .quoted (field ++ [quote, c]) row rest

def readAll (comma : UInt8) (text : Bytes) : List (List Bytes) := scan comma .line [] [] (normalize text)

def Plain (comma : UInt8) (field : Bytes) : Prop :=
  ∀ c ∈ field, c ≠ newline ∧ c ≠ carriage ∧ c ≠ quote ∧ c ≠ comma

/-- A field and how it is written. -/
structure Cell (comma : UInt8) where
  field : Bytes
  enclosed : Bool
  plain : enclosed = false → Plain comma field
  filled : enclosed = true → field ≠ []

def Cell.text {comma : UInt8} (cell : Cell comma) : Bytes :=
  if cell.enclosed then enclose cell.field else cell.field

def line {comma : UInt8} (cells : List (Cell comma)) : Bytes :=
  [comma].intercalate (cells.map Cell.text) ++ [newline]

/-- What is left of `\r\n` in a field. -/
def unify : Bytes → Bytes
  | [] => []
  | [c] => [c]
  | c :: next :: rest =>
      if c = carriage ∧ next = newline then unify (next :: rest) else c :: unify (next :: rest)

section
variable {comma : UInt8}

theorem plain_of_written {field : Bytes} (unquoted : fieldNeedsQuotes comma field = false) :
    Plain comma field := by
  intro c member
  have filled : field ≠ [] := List.ne_nil_of_mem member
  simp only [fieldNeedsQuotes, filled, if_false] at unquoted
  split at unquoted
  · cases unquoted
  · split at unquoted
    · cases unquoted
    · next none =>
      have special := fun found => none (List.any_eq_true.mpr ⟨c, member, found⟩)
      simpa [not_or, and_assoc] using special

theorem filled_of_written {field : Bytes} (quoted : fieldNeedsQuotes comma field = true) : field ≠ [] := by
  rintro rfl
  cases quoted

def Cell.ofField (comma : UInt8) (field : Bytes) : Cell comma :=
  ⟨field, fieldNeedsQuotes comma field, plain_of_written, filled_of_written⟩

theorem write_eq (record : List Bytes) : write comma record = line (record.map (Cell.ofField comma)) := by
  rw [write, line, List.map_map]
  rfl

theorem normalize_cons {c : UInt8} (other : c ≠ carriage) (rest : Bytes) :
    normalize (c :: rest) = c :: normalize rest := by
  cases rest with
  | nil => simp [normalize, other]
  | cons next rest => simp [normalize, other]

theorem normalize_plain {field : Bytes} (plain : Plain comma field) (rest : Bytes) :
    normalize (field ++ rest) = field ++ normalize rest := by
  induction field with
  | nil => rfl
  | cons c field ih =>
    rw [List.cons_append, normalize_cons (plain c (List.mem_cons_self ..)).2.1,
      ih fun other member => plain other (List.mem_cons_of_mem _ member)]
    rfl

theorem escape_cons (c : UInt8) (field : Bytes) :
    escape (c :: field) = (if c = quote then [quote, quote] else [c]) ++ escape field := by
  simp [escape]

theorem normalize_crlf (rest : Bytes) :
    normalize (carriage :: newline :: rest) = newline :: normalize rest := by
  rw [normalize]
  simp [normalize_cons (show newline ≠ carriage by decide)]

theorem normalize_carriage {c : UInt8} (other : c ≠ newline) (rest : Bytes) :
    normalize (carriage :: c :: rest) = carriage :: normalize (c :: rest) := by
  rw [normalize]
  simp [other]

-- The first byte of what is written between quotes is not a line end, unless the field starts with
-- one.
theorem escape_head (field rest : Bytes) :
    ∃ c more, escape field ++ quote :: rest = c :: more ∧
    (c = newline → ∃ tail, field = newline :: tail) := by
  cases field with
  | nil => exact ⟨quote, rest, rfl, fun is => absurd is (by decide)⟩
  | cons c field =>
    by_cases quotes : c = quote
    · exact ⟨quote, quote :: (escape field ++ quote :: rest),
        by simp [escape_cons, quotes], fun is => absurd is (by decide)⟩
    · exact ⟨c, escape field ++ quote :: rest, by simp [escape_cons, quotes], fun is => ⟨field, by rw [is]⟩⟩

-- Quotes are doubled, line ends unified: one does not disturb the other.
theorem normalize_escape (field rest : Bytes) :
    normalize (escape field ++ quote :: rest) = escape (unify field) ++ quote :: normalize rest := by
  have notCarriage : quote ≠ carriage := by decide
  induction field using unify.induct with
  | case1 => exact normalize_cons notCarriage rest
  | case2 c =>
    by_cases quotes : c = quote
    · simp [unify, escape, quotes, normalize_cons notCarriage]
    · by_cases ends : c = carriage
      · subst ends
        rw [unify, escape_cons, if_neg quotes]
        exact (normalize_carriage (by decide) rest).trans (by rw [normalize_cons notCarriage]; rfl)
      · simp [unify, escape, quotes, normalize_cons ends, normalize_cons notCarriage]
  | case3 c next tail both ih =>
    obtain ⟨rfl, rfl⟩ := both
    rw [unify, if_pos ⟨rfl, rfl⟩, ← ih, escape_cons, escape_cons]
    have same : ∀ more, normalize (carriage :: newline :: more) = normalize (newline :: more) :=
      fun more => by
      rw [normalize_crlf, normalize_cons (by decide)]
    exact same _
  | case4 c next tail apart ih =>
    rw [unify, if_neg apart, escape_cons, escape_cons c (unify (next :: tail)), List.append_assoc,
      List.append_assoc, ← ih]
    by_cases quotes : c = quote
    · simp [quotes, normalize_cons notCarriage]
    · rw [if_neg quotes]
      by_cases ends : c = carriage
      · subst ends
        obtain ⟨first, more, starts, newlines⟩ := escape_head (next :: tail) rest
        rw [starts]
        apply normalize_carriage
        intro is
        obtain ⟨_, same⟩ := newlines is
        exact apart ⟨rfl, (List.cons.inj same).1⟩
      · exact normalize_cons ends _

theorem unify_plain {field : Bytes} (plain : Plain comma field) : unify field = field := by
  induction field using unify.induct with
  | case1 => rfl
  | case2 c => rfl
  | case3 c next tail both ih => exact absurd both.1 (plain c (List.mem_cons_self ..)).2.1
  | case4 c next tail apart ih =>
    rw [unify, if_neg apart, ih fun other member => plain other (List.mem_cons_of_mem _ member)]

theorem unify_nil {field : Bytes} : unify field = [] ↔ field = [] := by
  constructor
  · intro nothing
    induction field using unify.induct with
    | case1 => rfl
    | case2 c => exact nothing
    | case3 c next tail both ih =>
      rw [unify, if_pos both] at nothing
      exact absurd (ih nothing) (List.cons_ne_nil _ _)
    | case4 c next tail apart ih =>
      rw [unify, if_neg apart] at nothing
      exact absurd nothing (List.cons_ne_nil _ _)
  · rintro rfl
    rfl

def Cell.unified (cell : Cell comma) : Cell comma where
  field := unify cell.field
  enclosed := cell.enclosed
  plain := fun unquoted => by
    rw [unify_plain (cell.plain unquoted)]
    exact cell.plain unquoted
  filled := fun quoted nothing => cell.filled quoted (unify_nil.mp nothing)

theorem join_cons (first second : Bytes) (more : List Bytes) :
    [comma].intercalate (first :: second :: more) = first ++ comma :: [comma].intercalate
    (second :: more) := by
  simp [List.intercalate]

theorem join_one (only : Bytes) : [comma].intercalate [only] = only := by
  simp [List.intercalate]

theorem normalize_text (cell : Cell comma) {c : UInt8} (other : c ≠ carriage) (rest : Bytes) :
    normalize (cell.text ++ c :: rest) = cell.unified.text ++ c :: normalize rest := by
  by_cases quoted : cell.enclosed = true
  · simp only [Cell.text, Cell.unified, quoted, if_true, enclose, List.cons_append,
      List.append_assoc, List.nil_append]
    rw [normalize_cons (by decide), normalize_escape, normalize_cons other]
  · have bare := Bool.eq_false_iff.mpr quoted
    have plain := cell.plain bare
    simp only [Cell.text, Cell.unified, bare, Bool.false_eq_true, if_false, unify_plain plain]
    exact (normalize_plain plain _).trans (by rw [normalize_cons other])

variable (separates : comma ≠ carriage)
include separates

theorem normalize_line (cells : List (Cell comma)) (rest : Bytes) :
    normalize (line cells ++ rest) = line (cells.map Cell.unified) ++ normalize rest := by
  have ends : newline ≠ carriage := by decide
  simp only [line, List.append_assoc, List.cons_append, List.nil_append]
  induction cells with
  | nil => exact normalize_cons ends rest
  | cons cell more ih =>
    cases more with
    | nil =>
      simp only [List.map_cons, List.map_nil, join_one]
      exact normalize_text cell ends rest
    | cons second more =>
      simp only [List.map_cons, join_cons, List.append_assoc, List.cons_append] at ih ⊢
      rw [normalize_text cell separates, ih]

theorem normalize_lines (records : List (List (Cell comma))) :
    normalize (records.map line).flatten =
    (records.map fun cells => line (cells.map Cell.unified)).flatten := by
  induction records with
  | nil => rfl
  | cons cells more ih =>
    simp only [List.map_cons, List.flatten_cons]
    rw [normalize_line separates, ih]

omit separates

theorem scan_plain (field done rest : Bytes) (row : List Bytes) (plain : Plain comma field) :
    scan comma .plain done row (field ++ rest) = scan comma .plain (done ++ field) row rest := by
  induction field generalizing done with
  | nil => simp
  | cons c field ih =>
    have here := plain c (List.mem_cons_self ..)
    have later := ih (done ++ [c]) fun other member => plain other (List.mem_cons_of_mem _ member)
    rw [List.cons_append, scan, if_neg here.1, if_neg here.2.2.2, later, List.append_assoc]
    rfl

theorem scan_escape (field done rest : Bytes) (row : List Bytes) :
    scan comma .quoted done row (escape field ++ quote :: rest) = scan comma .closing
    (done ++ field) row rest := by
  induction field generalizing done with
  | nil => simp [escape, scan]
  | cons c field ih =>
    rw [escape_cons]
    by_cases quotes : c = quote
    · subst quotes
      have later := ih (done ++ [quote])
      simp only [if_true, List.cons_append, List.nil_append, scan]
      rw [later, List.append_assoc]
      rfl
    · have later := ih (done ++ [c])
      rw [if_neg quotes, List.cons_append, List.nil_append, List.cons_append, scan, if_neg quotes,
        later, List.append_assoc]
      rfl

/-- A byte that may separate fields. -/
structure Separator (comma : UInt8) : Prop where
  notNewline : comma ≠ newline
  notCarriage : comma ≠ carriage
  notQuote : comma ≠ quote

/-- What follows a field and the byte after it. -/
def next (comma : UInt8) (done : List Bytes) (rest : Bytes) (stop : UInt8) : List (List Bytes) :=
  if stop = newline then done :: scan comma .line [] [] rest else scan comma .field [] done rest

theorem scan_cell (separator : Separator comma) (cell : Cell comma) (row : List Bytes) (rest : Bytes)
    {stop : UInt8} (stops : stop = newline ∨ stop = comma) :
    scan comma .field [] row (cell.text ++ stop :: rest) = next comma (row ++ [cell.field]) rest stop := by
  have notQuote : stop ≠ quote := by
    rcases stops with rfl | rfl
    · decide
    · exact separator.notQuote
  have after (field : Bytes) : scan comma .plain field row (stop :: rest) =
      next comma (row ++ [field]) rest stop := by
    rcases stops with rfl | rfl
    · simp [scan, next]
    · simp [scan, next, separator.notNewline]
  by_cases quoted : cell.enclosed = true
  · have starts : quote ≠ newline := by decide
    simp only [Cell.text, quoted, if_true, enclose, List.cons_append, List.append_assoc, List.nil_append]
    rw [scan, if_neg starts, if_pos rfl, scan_escape, List.nil_append, scan, if_neg notQuote]
    rcases stops with rfl | rfl
    · simp [next, separator.notNewline.symm]
    · simp [next, separator.notNewline]
  · have bare := Bool.eq_false_iff.mpr quoted
    have plain := cell.plain bare
    simp only [Cell.text, bare, Bool.false_eq_true, if_false]
    cases field : cell.field with
    | nil =>
      rcases stops with rfl | rfl
      · simp [scan, next]
      · simp [scan, next, separator.notNewline, separator.notQuote]
    | cons c more =>
      rw [field] at plain
      have here := plain c (List.mem_cons_self ..)
      rw [List.cons_append, scan, if_neg here.1, if_neg here.2.2.1, if_neg here.2.2.2,
        scan_plain more [c] _ row fun other member => plain other (List.mem_cons_of_mem _ member)]
      exact after (c :: more)

theorem scan_fields (separator : Separator comma) (cells : List (Cell comma)) (filled : cells ≠ [])
    (row : List Bytes) (rest : Bytes) :
    scan comma .field [] row (line cells ++ rest) = (row ++ cells.map Cell.field) :: scan comma .line []
    [] rest := by
  simp only [line, List.append_assoc, List.cons_append, List.nil_append]
  induction cells generalizing row with
  | nil => exact absurd rfl filled
  | cons cell more ih =>
    cases more with
    | nil =>
      simp only [List.map_cons, List.map_nil, join_one]
      rw [scan_cell separator cell row rest (.inl rfl), next, if_pos rfl]
    | cons second more =>
      have later := ih (List.cons_ne_nil _ _) (row ++ [cell.field])
      simp only [List.map_cons, join_cons, List.append_assoc, List.cons_append] at later ⊢
      rw [scan_cell separator cell row _ (.inr rfl), next, if_neg separator.notNewline, later]
      rfl

-- The first byte of a record is no line end, unless its only field is empty.
theorem line_head (separator : Separator comma) (cells : List (Cell comma)) (filled : cells ≠ [])
    (visible : cells.map Cell.field ≠ [[]]) : ∃ c rest, line cells = c :: rest ∧ c ≠ newline := by
  cases cells with
  | nil => exact absurd rfl filled
  | cons cell more =>
    -- what follows the first field, if that is empty
    have text (tail : Bytes) (starts : cell.field = [] → ∃ c rest, tail = c :: rest ∧ c ≠ newline) :
        ∃ c rest, cell.text ++ tail = c :: rest ∧ c ≠ newline := by
      by_cases quoted : cell.enclosed = true
      · simp only [Cell.text, quoted, if_true, enclose]
        exact ⟨quote, _, rfl, by decide⟩
      · have bare := Bool.eq_false_iff.mpr quoted
        simp only [Cell.text, bare, Bool.false_eq_true, if_false]
        cases field : cell.field with
        | nil => exact starts field
        | cons c rest =>
          have plain := cell.plain bare
          rw [field] at plain
          exact ⟨c, rest ++ tail, rfl, (plain c (List.mem_cons_self ..)).1⟩
    cases more with
    | nil =>
      simp only [line, List.map_cons, List.map_nil, join_one]
      exact text _ fun nothing => absurd (by simp [nothing]) visible
    | cons second more =>
      simp only [line, List.map_cons, join_cons, List.append_assoc, List.cons_append]
      exact text _ fun _ => ⟨comma, _, rfl, separator.notNewline⟩

theorem scan_start {c : UInt8} (starts : c ≠ newline) (rest : Bytes) :
    scan comma .line [] [] (c :: rest) = scan comma .field [] [] (c :: rest) := by
  simp [scan, starts]

theorem scan_line (separator : Separator comma) (cells : List (Cell comma)) (filled : cells ≠ [])
    (rest : Bytes) :
    scan comma .line [] [] (line cells ++ rest) =
      if cells.map Cell.field = [[]] then scan comma .line [] [] rest
      else cells.map Cell.field :: scan comma .line [] [] rest := by
  split
  · next blank =>
    obtain ⟨cell, rfl, nothing⟩ := List.map_eq_singleton_iff.mp blank
    have bare : cell.enclosed = false := by
      cases quoted : cell.enclosed with
      | false => rfl
      | true => exact absurd nothing (cell.filled quoted)
    simp [line, Cell.text, bare, nothing, scan]
  · next visible =>
    obtain ⟨c, more, starts, other⟩ := line_head separator cells filled visible
    have fields := scan_fields separator cells filled [] rest
    rw [starts, List.cons_append] at fields ⊢
    rw [scan_start other, fields, List.nil_append]

theorem scan_lines (separator : Separator comma) (records : List (List (Cell comma)))
    (filled : ∀ cells ∈ records, cells ≠ []) :
    scan comma .line [] [] (records.map line).flatten = (records.map (·.map Cell.field)).filter
    (· ≠ [[]]) := by
  induction records with
  | nil => rfl
  | cons cells more ih =>
    have later := ih fun other member => filled other (List.mem_cons_of_mem _ member)
    rw [List.map_cons, List.flatten_cons,
      scan_line separator cells (filled cells (List.mem_cons_self ..)), later]
    by_cases blank : cells.map Cell.field = [[]]
    · simp [blank]
    · simp [blank]

theorem unify_blank (record : List Bytes) : record.map unify = [[]] ↔ record = [[]] := by
  constructor
  · intro blank
    obtain ⟨field, rfl, nothing⟩ := List.map_eq_singleton_iff.mp blank
    rw [unify_nil.mp nothing]
  · rintro rfl
    rfl

theorem readAll_lines (separator : Separator comma) (records : List (List (Cell comma)))
    (filled : ∀ cells ∈ records, cells ≠ []) :
    readAll comma (records.map line).flatten =
      ((records.map (·.map Cell.field)).filter (· ≠ [[]])).map (·.map unify) := by
  have same : records.map (fun cells => line (cells.map Cell.unified)) =
      (records.map (·.map Cell.unified)).map line := by
    rw [List.map_map]
    rfl
  have still : ∀ cells ∈ records.map (·.map Cell.unified), cells ≠ [] := by
    intro cells member nothing
    obtain ⟨old, here, is⟩ := List.mem_map.mp member
    rw [nothing, List.map_eq_nil_iff] at is
    exact filled old here is
  rw [readAll, normalize_lines separator.notCarriage, same, scan_lines separator _ still]
  have fields : (records.map (·.map Cell.unified)).map (·.map Cell.field) =
      (records.map (·.map Cell.field)).map (·.map unify) := by
    simp only [List.map_map, Function.comp_def]
    rfl
  rw [fields, List.filter_map]
  have same (record : List Bytes) : decide (record.map unify ≠ [[]]) = decide (record ≠ [[]]) := by
    rw [decide_eq_decide, Ne, unify_blank]
  congr 2
  funext record
  exact same record

theorem readAll_write (separator : Separator comma) (records : List (List Bytes))
    (filled : ∀ record ∈ records, record ≠ []) :
    readAll comma (records.map (write comma)).flatten = (records.filter (· ≠ [[]])).map (·.map unify) := by
  have same : records.map (write comma) = (records.map (·.map (Cell.ofField comma))).map line := by
    rw [List.map_map]
    apply List.map_congr_left
    intro record _
    exact write_eq record
  have still : ∀ cells ∈ records.map (·.map (Cell.ofField comma)), cells ≠ [] := by
    intro cells member nothing
    obtain ⟨old, here, is⟩ := List.mem_map.mp member
    rw [nothing, List.map_eq_nil_iff] at is
    exact filled old here is
  have fields : (records.map (·.map (Cell.ofField comma))).map (·.map Cell.field) = records := by
    simp only [List.map_map, Function.comp_def, Cell.ofField, List.map_id']
  rw [same, readAll_lines separator _ still, fields]

end

end OpenEmarsys.Golang.Csv
