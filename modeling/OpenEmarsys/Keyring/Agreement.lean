import OpenEmarsys.Keyring.Rotation

/-! Where the Go and the TypeScript ring agree: on which specifications and envelopes.

`Parse` and `Keyring.parse` differ in the white space they trim and in the base64 they
take, so both are parameters of the loop.
-/

set_option autoImplicit false

namespace OpenEmarsys.Keyring

open Golang (GoMap)

def strip (blank : Char → Bool) (text : List Char) : List Char :=
  ((text.dropWhile blank).reverse.dropWhile blank).reverse

def beforeColon (text : List Char) : List Char := text.takeWhile (· ≠ ':')

def afterColon (text : List Char) : List Char := (text.dropWhile (· ≠ ':')).drop 1

section Loop
variable (blank : Char → Bool) (decode : List Char → Option Bytes)

def readEntries : List (List Char) → GoMap (List Char) Bytes → Except (KeyringError Char)
    (GoMap (List Char) Bytes)
  | [], keys => .ok keys
  | entry :: rest, keys =>
      let trimmed := strip blank entry
      if ':' ∈ trimmed then
        match decode (afterColon trimmed) with
        | none => .error (.notBase64 (beforeColon trimmed))
        | some key =>
            if fresh : beforeColon trimmed ∉ keys.entries.map Prod.fst then
              readEntries rest (insert keys (beforeColon trimmed) key fresh)
            else .error (.duplicate (beforeColon trimmed))
      else .error (.notPair entry)

def parse (spec active : List Char) : Except (KeyringError Char) (Ring Char) :=
  if strip blank spec = [] then .error .noKeys
  else do
    let keys ← readEntries blank decode (spec.splitOn ',') ⟨[], List.nodup_nil⟩
    build keys active

end Loop

namespace Go

def isSpace (c : Char) : Bool :=
  c.val ∈ [0x09, 0x0A, 0x0B, 0x0C, 0x0D, 0x20, 0x85, 0xA0, 0x1680, 0x2028, 0x2029, 0x202F, 0x205F, 0x3000]
    || (0x2000 ≤ c.val && c.val ≤ 0x200A)

/-- `Parse`: `strings.TrimSpace` and the standard decoder. -/
def parse (spec active : List Char) : Except (KeyringError Char) (Ring Char) :=
  Keyring.parse isSpace decodeStd spec active

end Go

namespace Ts

/-- The key, if `Buffer` would write it as it is written. -/
def decodeStd (fromBase64 : List Char → Bytes) (text : List Char) : Option Bytes :=
  let key := fromBase64 text
  if (Base64.std Char).encodePadded '=' key ≠ text then none else some key

/-- `Keyring.parse`: `String.prototype.trim` and canonical base64. -/
def parse (fromBase64 : List Char → Bytes) (spec active : List Char) :
    Except (KeyringError Char) (Ring Char) :=
  Keyring.parse Javascript.isSpace (decodeStd fromBase64) spec active

end Ts

section Reading
variable (blank : Char → Bool) (decode : List Char → Option Bytes)

/-- An entry is `kid:base64`. -/
def Pair (entry : List Char) (pair : List Char × Bytes) : Prop :=
  ':' ∈ strip blank entry ∧ beforeColon (strip blank entry) = pair.1 ∧
    decode (afterColon (strip blank entry)) = some pair.2

/-- A well formed specification: pairs of distinct valid kids and 32 bytes each, the active one among them. -/
structure Specifies (spec active : List Char) (pairs : List (List Char × Bytes)) : Prop where
  entries : List.Forall₂ (Pair blank decode) (spec.splitOn ',') pairs
  distinct : (pairs.map Prod.fst).Nodup
  kids : ∀ pair ∈ pairs, invalidKid pair.1 = false
  sizes : ∀ pair ∈ pairs, pair.2.length = KEY_SIZE
  listed : active ∈ pairs.map Prod.fst

variable {blank decode}

theorem strip_nil {text : List Char} (empty : strip blank text = []) : ∀ c ∈ text, blank c = true := by
  have blankRest := List.dropWhile_eq_nil_iff.mp (List.reverse_eq_nil_iff.mp empty)
  cases rest : text.dropWhile blank with
  | nil => exact List.dropWhile_eq_nil_iff.mp rest
  | cons c others =>
    have head : blank c = false := by
      have := List.head?_dropWhile_not blank text
      simpa [rest] using this
    have absurd_ := blankRest c (by simp [rest])
    rw [head] at absurd_
    cases absurd_

theorem readEntries_ok {entries : List (List Char)} {keys read : GoMap (List Char) Bytes}
    (reads : readEntries blank decode entries keys = .ok read) :
    ∃ pairs, read.entries = keys.entries ++ pairs ∧ List.Forall₂ (Pair blank decode) entries pairs := by
  induction entries generalizing keys with
  | nil =>
    cases reads
    exact ⟨[], by simp, .nil⟩
  | cons entry rest ih =>
    rw [readEntries] at reads
    split at reads
    · next colon =>
      split at reads
      · cases reads
      · next key decodes =>
        split at reads
        · obtain ⟨pairs, same, others⟩ := ih reads
          exact ⟨_ :: pairs, by rw [same, insert, List.append_assoc]; rfl, .cons ⟨colon, rfl, decodes⟩ others⟩
        · cases reads
    · cases reads

theorem readEntries_pairs {entries : List (List Char)} {pairs : List (List Char × Bytes)}
    (all : List.Forall₂ (Pair blank decode) entries pairs) (keys : GoMap (List Char) Bytes)
    (distinct : ((keys.entries ++ pairs).map Prod.fst).Nodup) :
    ∃ read, readEntries blank decode entries keys = .ok read ∧ read.entries = keys.entries ++ pairs := by
  induction all generalizing keys with
  | nil => exact ⟨keys, rfl, by simp⟩
  | @cons entry pair entries pairs is _ ih =>
    obtain ⟨colon, kid, decodes⟩ := is
    obtain ⟨name, key⟩ := pair
    dsimp only at kid decodes
    subst kid
    have fresh : beforeColon (strip blank entry) ∉ keys.entries.map Prod.fst := by
      intro member
      rw [List.map_append, List.nodup_append] at distinct
      exact distinct.2.2 _ member _ (by simp) rfl
    have joined : (insert keys (beforeColon (strip blank entry)) key fresh).entries ++ pairs =
        keys.entries ++ (beforeColon (strip blank entry), key) :: pairs := by
      rw [insert, List.append_assoc]
      rfl
    obtain ⟨read, reads, same⟩ := ih (insert keys _ key fresh) (by rw [joined]; exact distinct)
    refine ⟨read, ?_, same.trans joined⟩
    simp only [readEntries, colon, if_true, decodes, fresh, not_false_eq_true, dif_pos]
    exact reads

theorem build_ok {keys : GoMap (List Char) Bytes} {active : List Char} {ring : Ring Char}
    (builds : build keys active = .ok ring) :
    ring.keys = keys ∧ ring.active = active := by
  unfold build at builds
  split at builds
  · cases builds
  · split at builds
    · cases builds
    · split at builds
      · cases builds
        exact ⟨rfl, rfl⟩
      · cases builds

theorem parse_ok {spec active : List Char} {ring : Ring Char}
    (parses : parse blank decode spec active = .ok ring) :
    Specifies blank decode spec active ring.keys.entries ∧ ring.active = active := by
  unfold parse at parses
  split at parses
  · cases parses
  · cases reads : readEntries blank decode (spec.splitOn ',') ⟨[], List.nodup_nil⟩ with
    | error error =>
      rw [reads] at parses
      cases parses
    | ok keys =>
      rw [reads] at parses
      obtain ⟨same, active_⟩ := build_ok parses
      obtain ⟨pairs, entries, all⟩ := readEntries_ok reads
      refine ⟨⟨?_, ring.keys.distinct, ring.kids, ring.sizes, active_ ▸ ring.listed⟩, active_⟩
      rw [same, entries]
      exact all

theorem parse_specified (comma : blank ',' = false) {spec active : List Char}
    {pairs : List (List Char × Bytes)}
    (specifies : Specifies blank decode spec active pairs) :
    ∃ ring, parse blank decode spec active = .ok ring ∧ ring.keys.entries = pairs ∧ ring.active = active := by
  have some_ : strip blank spec ≠ [] := by
    intro empty
    have single : spec.splitOn ',' = [spec] := List.splitOn_eq_singleton fun member => by
      rw [strip_nil empty _ member] at comma
      cases comma
    have entries := specifies.entries
    rw [single] at entries
    cases entries with
    | cons is _ =>
      have colon := is.1
      rw [empty] at colon
      cases colon
  obtain ⟨keys, reads, same⟩ := readEntries_pairs specifies.entries ⟨[], List.nodup_nil⟩ specifies.distinct
  rw [List.nil_append] at same
  subst same
  have builds := build_ring ⟨active, keys, specifies.kids, specifies.sizes, specifies.listed⟩
  have parses : parse blank decode spec active = .ok ⟨active, keys, specifies.kids, specifies.sizes,
      specifies.listed⟩ := by
    rw [parse, if_neg some_, reads]
    exact builds
  exact ⟨_, parses, rfl, rfl⟩

end Reading

/-! ## Where the two differ -/

/-- Both fail, or both succeed with the same kids, keys and active kid. -/
def ParsesAlike (first second : Except (KeyringError Char) (Ring Char)) : Prop :=
  match first, second with
  | .error _, .error _ => True
  | .ok ring, .ok other => ring.active = other.active ∧ ∀ entry, entry ∈ ring.keys.entries ↔
    entry ∈ other.keys.entries
  | _, _ => False

/-- An entry both languages trim alike, with the base64 an encoder writes. -/
def Plain (entry : List Char) : Prop :=
  strip Go.isSpace entry = strip Javascript.isSpace entry ∧
  ∃ key, (Base64.std Char).encodePadded '=' key = afterColon (strip Go.isSpace entry)

def WellFormed (fromBase64 : List Char → Bytes) (spec active : List Char) : Prop :=
  (∃ pairs, Specifies Go.isSpace Go.decodeStd spec active pairs) ∨
  ∃ pairs, Specifies Javascript.isSpace (Ts.decodeStd fromBase64) spec active pairs

/-- What `Buffer.from(text, 'base64')` is known for. -/
def ReadsBackStd (fromBase64 : List Char → Bytes) : Prop :=
  ∀ bytes, fromBase64 ((Base64.std Char).encodePadded '=' bytes) = bytes

section Differences
variable {fromBase64 : List Char → Bytes} (reads : ReadsBackStd fromBase64)

theorem std_digit_plain (sextet : Base64.Sextet) :
    Go.isSpace ((Base64.std Char).digit sextet) = false ∧ Javascript.isSpace
    ((Base64.std Char).digit sextet) = false := by
  revert sextet
  decide

theorem std_digit_newline (sextet : Base64.Sextet) :
    (Base64.std Char).digit sextet ≠ unit '\n' ∧ (Base64.std Char).digit sextet ≠ unit '\r' := by
  revert sextet
  decide

theorem symbol_plain {c : Char} (symbol : (∃ sextet, (Base64.std Char).digit sextet = c) ∨ c = '=') :
    Go.isSpace c = false ∧ Javascript.isSpace c = false := by
  rcases symbol with ⟨sextet, rfl⟩ | rfl
  · exact std_digit_plain sextet
  · decide

theorem Go.decodeStd_encode (bytes : Bytes) : Go.decodeStd
    ((Base64.std Char).encodePadded '=' bytes) = some bytes := by
  have kept : Go.skipNewlines ((Base64.std Char).encodePadded '=' bytes) =
      (Base64.std Char).encodePadded '=' bytes := by
    apply List.filter_eq_self.mpr
    intro c member
    rcases List.mem_append.mp member with digit | pad
    · obtain ⟨sextet, rfl⟩ := Base64.Alphabet.mem_encode _ digit
      exact decide_eq_true (std_digit_newline sextet)
    · rw [Base64.Alphabet.mem_padding _ pad]
      decide
  have apart : ∀ sextet, (Base64.std Char).digit sextet ≠ '=' := by decide
  rw [Go.decodeStd, kept]
  exact Base64.Alphabet.decodePadded_encodePadded _ apart bytes

theorem Ts.decodeStd_some {text : List Char} {key : Bytes}
    (decodes : Ts.decodeStd fromBase64 text = some key) :
    (Base64.std Char).encodePadded '=' key = text := by
  simp only [Ts.decodeStd] at decodes
  split at decodes
  · cases decodes
  · next same =>
    cases decodes
    exact not_not.mp same

include reads in
theorem Ts.decodeStd_encode (bytes : Bytes) :
    Ts.decodeStd fromBase64 ((Base64.std Char).encodePadded '=' bytes) = some bytes := by
  simp [Ts.decodeStd, reads bytes]

include reads in
theorem pair_alike {entry : List Char} (plain : Plain entry) (pair : List Char × Bytes) :
    Pair Go.isSpace Go.decodeStd entry pair ↔ Pair Javascript.isSpace
    (Ts.decodeStd fromBase64) entry pair := by
  obtain ⟨same, key, text⟩ := plain
  unfold Pair
  rw [← same, ← text, Go.decodeStd_encode, Ts.decodeStd_encode reads]

theorem pairs_congr {entries : List (List Char)} {pairs : List (List Char × Bytes)}
    {P Q : List Char → List Char × Bytes → Prop}
    (alike : ∀ entry ∈ entries, ∀ pair, P entry pair → Q entry pair) (all : List.Forall₂ P entries pairs) :
    List.Forall₂ Q entries pairs := by
  induction all with
  | nil => exact .nil
  | @cons entry pair entries pairs is _ ih =>
    exact .cons (alike entry (List.mem_cons_self ..) pair is) (ih
      fun other member => alike other (List.mem_cons_of_mem _ member))

include reads in
theorem specifies_alike {spec active : List Char} (plain : ∀ entry ∈ spec.splitOn ',', Plain entry)
    (pairs : List (List Char × Bytes)) :
    Specifies Go.isSpace Go.decodeStd spec active pairs ↔ Specifies Javascript.isSpace
    (Ts.decodeStd fromBase64) spec active pairs := by
  constructor
  · rintro ⟨entries, distinct, kids, sizes, listed⟩
    exact ⟨pairs_congr (fun entry member pair => (pair_alike reads (plain entry member) pair).mp) entries,
      distinct, kids, sizes, listed⟩
  · rintro ⟨entries, distinct, kids, sizes, listed⟩
    exact ⟨pairs_congr (fun entry member pair => (pair_alike reads (plain entry member) pair).mpr) entries,
      distinct, kids, sizes, listed⟩

-- A front that is blank in neither sense ends both kinds of blanks at once.
theorem dropWhile_same {p q : Char → Bool} {text rest rest' : List Char} {c c' : Char}
    (first : text.dropWhile p = c :: rest)
    (second : text.dropWhile q = c' :: rest') (fine : q c = false) (fine' : p c' = false) :
    text.dropWhile p = text.dropWhile q := by
  induction text with
  | nil => cases first
  | cons head tail ih =>
    rw [List.dropWhile_cons] at first second ⊢
    rw [List.dropWhile_cons]
    cases isP : p head <;> cases isQ : q head
    · rfl
    · -- the front of `p` is a blank of `q`
      rw [isP] at first
      cases first
      rw [isQ] at fine
      cases fine
    · rw [isQ] at second
      cases second
      rw [isP] at fine'
      cases fine'
    · rw [isP] at first
      rw [isQ] at second
      exact ih first second

variable {blank : Char → Bool}

theorem dropWhile_head {text rest : List Char} {c : Char}
    (is : text.dropWhile blank = c :: rest) : blank c = false := by
  have := List.head?_dropWhile_not blank text
  simpa [is] using this

-- What is left is a front of what is left after trimming the front only.
theorem strip_front {text rest : List Char} {c : Char} (is : strip blank text = c :: rest) :
    ∃ others, text.dropWhile blank = c :: others := by
  obtain ⟨cut, whole⟩ := List.dropWhile_suffix (l := (text.dropWhile blank).reverse) blank
  have parts := congrArg List.reverse whole
  rw [List.reverse_append, List.reverse_reverse] at parts
  rw [strip] at is
  rw [is] at parts
  exact ⟨rest ++ cut.reverse, parts.symm⟩

theorem strip_back {text : List Char} {d : Char} (is : (strip blank text).getLast? = some d) :
    ∃ others, (text.dropWhile blank).reverse.dropWhile blank = d :: others := by
  rw [strip, List.getLast?_reverse] at is
  obtain ⟨others, same⟩ := List.head?_eq_some_iff.mp is
  exact ⟨others, same⟩

theorem strip_same {p q : Char → Bool} {text : List Char} {c c' d d' : Char}
    (head : (strip p text).head? = some c) (head' : (strip q text).head? = some c')
    (last : (strip p text).getLast? = some d) (last' : (strip q text).getLast? = some d')
    (fine : q c = false) (fine' : p c' = false) (end_ : q d = false) (end' : p d' = false) :
    strip p text = strip q text := by
  obtain ⟨rest, is⟩ := List.head?_eq_some_iff.mp head
  obtain ⟨rest', is'⟩ := List.head?_eq_some_iff.mp head'
  obtain ⟨others, front⟩ := strip_front is
  obtain ⟨others', front'⟩ := strip_front is'
  have fronts := dropWhile_same front front' fine fine'
  obtain ⟨back, backs⟩ := strip_back last
  obtain ⟨back', backs'⟩ := strip_back last'
  rw [← fronts] at backs'
  rw [strip, strip, ← fronts, dropWhile_same backs backs' end_ end']

theorem pair_head {decode : List Char → Option Bytes} {entry : List Char} {pair : List Char × Bytes}
    (is : Pair blank decode entry pair)
    (kid : invalidKid pair.1 = false) : ∃ c, (strip blank entry).head? = some c ∧
    pair.1.head? = some c ∧ blank c = false := by
  obtain ⟨-, before, -⟩ := is
  cases name : pair.1 with
  | nil =>
    rw [name] at kid
    cases kid
  | cons c rest =>
    rw [name, beforeColon] at before
    cases text : strip blank entry with
    | nil =>
      rw [text] at before
      cases before
    | cons first others =>
      have same : first = c := by
        rw [text, List.takeWhile_cons] at before
        split at before
        · exact (List.cons.inj before).1
        · cases before
      obtain ⟨more, front⟩ := strip_front text
      rw [same] at front
      exact ⟨c, by rw [same]; rfl, rfl, dropWhile_head front⟩

theorem pair_last {decode : List Char → Option Bytes} {entry : List Char} {pair : List Char × Bytes}
    (is : Pair blank decode entry pair)
    (some_ : afterColon (strip blank entry) ≠ []) :
    ∃ d, (strip blank entry).getLast? = some d ∧ d ∈ afterColon (strip blank entry) ∧ blank d = false := by
  have last := List.getLast?_eq_some_getLast some_
  generalize (afterColon (strip blank entry)).getLast some_ = d at last
  have colon : (strip blank entry).dropWhile (· ≠ ':') ≠ [] := by
    intro none_
    have all := List.dropWhile_eq_nil_iff.mp none_ ':' is.1
    simp at all
  obtain ⟨first, rest, parts⟩ := List.exists_cons_of_ne_nil colon
  have whole : strip blank entry = beforeColon (strip blank entry) ++ first :: rest := by
    rw [← parts]
    exact List.takeWhile_append_dropWhile.symm
  have tail : afterColon (strip blank entry) = rest := by
    rw [afterColon, parts, List.drop_one, List.tail_cons]
  rw [tail] at last some_ ⊢
  have end_ : (strip blank entry).getLast? = some d := by
    rw [whole, List.getLast?_append, List.getLast?_cons_of_ne_nil some_, last]
    rfl
  obtain ⟨others, back⟩ := strip_back end_
  exact ⟨d, end_, List.mem_of_getLast? last, dropWhile_head back⟩

theorem Go.last_plain {text : List Char} {key : Bytes} (decodes : Go.decodeStd text = some key) {d : Char}
    (member : d ∈ text) (solid : Go.isSpace d = false) : Javascript.isSpace d = false := by
  have kept : d ∈ Go.skipNewlines text := by
    refine List.mem_filter.mpr ⟨member, decide_eq_true ⟨?_, ?_⟩⟩
    · rintro rfl
      revert solid
      decide
    · rintro rfl
      revert solid
      decide
  exact (symbol_plain (Base64.Alphabet.mem_of_decodePadded _ decodes kept)).2

theorem Ts.last_plain {text : List Char} {key : Bytes} (decodes : Ts.decodeStd fromBase64 text = some key)
    {d : Char} (member : d ∈ text) : Go.isSpace d = false := by
  rw [← Ts.decodeStd_some decodes] at member
  rcases List.mem_append.mp member with digit | pad
  · exact (symbol_plain (.inl (Base64.Alphabet.mem_encode _ digit))).1
  · exact (symbol_plain (.inr (Base64.Alphabet.mem_padding _ pad))).1

theorem Go.decodeStd_nil : Go.decodeStd ([] : List Char) = some [] := by
  decide

theorem pair_of_entry {P : List Char → List Char × Bytes → Prop} {entries : List (List Char)}
    {pairs : List (List Char × Bytes)}
    (all : List.Forall₂ P entries pairs) {entry : List Char} (member : entry ∈ entries) :
    ∃ pair ∈ pairs, P entry pair := by
  induction all with
  | nil => cases member
  | @cons first pair entries pairs is _ ih =>
    rcases List.mem_cons.mp member with rfl | later
    · exact ⟨pair, List.mem_cons_self .., is⟩
    · obtain ⟨other, there, holds⟩ := ih later
      exact ⟨other, List.mem_cons_of_mem _ there, holds⟩

theorem entry_of_pair {P : List Char → List Char × Bytes → Prop} {entries : List (List Char)}
    {pairs : List (List Char × Bytes)}
    (all : List.Forall₂ P entries pairs) {pair : List Char × Bytes} (member : pair ∈ pairs) :
    ∃ entry ∈ entries, P entry pair := by
  induction all with
  | nil => cases member
  | @cons entry first entries pairs is _ ih =>
    rcases List.mem_cons.mp member with rfl | later
    · exact ⟨entry, List.mem_cons_self .., is⟩
    · obtain ⟨other, there, holds⟩ := ih later
      exact ⟨other, List.mem_cons_of_mem _ there, holds⟩

theorem kid_head {decode : List Char → Option Bytes} {spec active : List Char}
    {pairs : List (List Char × Bytes)}
    (specifies : Specifies blank decode spec active pairs) {pair : List Char × Bytes} (member : pair ∈ pairs)
    {c : Char} (head : pair.1.head? = some c) : blank c = false := by
  obtain ⟨entry, -, is⟩ := entry_of_pair specifies.entries member
  obtain ⟨first, -, starts, solid⟩ := pair_head is (specifies.kids pair member)
  rw [head] at starts
  cases starts
  exact solid

theorem plain_of_alike {spec active active' : List Char} {pairs pairs' : List (List Char × Bytes)}
    (go : Specifies Go.isSpace Go.decodeStd spec active pairs)
    (ts : Specifies Javascript.isSpace (Ts.decodeStd fromBase64) spec active' pairs')
    (same : ∀ pair, pair ∈ pairs ↔ pair ∈ pairs')
    {entry : List Char} (member : entry ∈ spec.splitOn ',') : Plain entry := by
  obtain ⟨pair, here, is⟩ := pair_of_entry go.entries member
  obtain ⟨pair', there, is'⟩ := pair_of_entry ts.entries member
  obtain ⟨c, head, name, -⟩ := pair_head is (go.kids pair here)
  obtain ⟨c', head', name', -⟩ := pair_head is' (ts.kids pair' there)
  have some_ : afterColon (strip Go.isSpace entry) ≠ [] := by
    intro none_
    have decodes := is.2.2
    rw [none_, Go.decodeStd_nil] at decodes
    have size := go.sizes pair here
    rw [← Option.some.inj decodes] at size
    cases size
  have some' : afterColon (strip Javascript.isSpace entry) ≠ [] := by
    intro none_
    have text := Ts.decodeStd_some is'.2.2
    rw [none_] at text
    have decodes := Go.decodeStd_encode pair'.2
    rw [text, Go.decodeStd_nil] at decodes
    have size := ts.sizes pair' there
    rw [← Option.some.inj decodes] at size
    cases size
  obtain ⟨d, last, ends, solid⟩ := pair_last is some_
  obtain ⟨d', last', ends', -⟩ := pair_last is' some'
  have equal : strip Go.isSpace entry = strip Javascript.isSpace entry :=
    strip_same head head' last last' (kid_head ts ((same pair).mp here) name)
      (kid_head go ((same pair').mpr there) name')
      (Go.last_plain is.2.2 ends solid) (Ts.last_plain is'.2.2 ends')
  exact ⟨equal, pair'.2, (Ts.decodeStd_some is'.2.2).trans (by rw [equal])⟩

include reads in
-- The two parsers agree on a specification exactly if it is well formed for neither or written
-- plainly.
theorem parse_alike_iff (spec active : List Char) :
    ParsesAlike (Go.parse spec active) (Ts.parse fromBase64 spec active) ↔
      (WellFormed fromBase64 spec active → ∀ entry ∈ spec.splitOn ',', Plain entry) := by
  constructor
  · intro alike wellFormed entry member
    rcases wellFormed with ⟨pairs, go⟩ | ⟨pairs, ts⟩
    · obtain ⟨ring, parses, rfl, -⟩ := parse_specified (by decide) go
      rw [Go.parse, parses] at alike
      cases other : Ts.parse fromBase64 spec active with
      | error error =>
        rw [other] at alike
        cases alike
      | ok ring' =>
        rw [other] at alike
        exact plain_of_alike go (parse_ok other).1 alike.2 member
    · obtain ⟨ring, parses, rfl, -⟩ := parse_specified (by decide) ts
      rw [Ts.parse, parses] at alike
      cases other : Go.parse spec active with
      | error error =>
        rw [other] at alike
        cases alike
      | ok ring' =>
        rw [other] at alike
        exact plain_of_alike (parse_ok other).1 ts alike.2 member
  · intro plain
    cases go : Go.parse spec active with
    | ok ring =>
      obtain ⟨specifies, same⟩ := parse_ok go
      obtain ⟨ring', parses, entries, same'⟩ :=
        parse_specified (by decide) ((specifies_alike reads (plain (.inl ⟨_, specifies⟩)) _).mp specifies)
      rw [Ts.parse, parses]
      exact ⟨same.trans same'.symm, fun entry => by rw [entries]⟩
    | error error =>
      cases ts : Ts.parse fromBase64 spec active with
      | error error' => trivial
      | ok ring =>
        obtain ⟨specifies, -⟩ := parse_ok ts
        obtain ⟨ring', parses, -, -⟩ :=
          parse_specified (by decide) ((specifies_alike reads (plain (.inr ⟨_, specifies⟩)) _).mpr specifies)
        rw [Go.parse, parses] at go
        cases go

end Differences

/-! ## Opening -/

section Opening
variable (cipher : Cipher Char) (fromBase64url : List Char → Bytes)

def OpensAlike (first second : Except (KeyringError Char) Bytes) : Prop :=
  match first, second with
  | .error _, .error _ => True
  | .ok plaintext, .ok other => plaintext = other
  | _, _ => False

def Canonical (text : List Char) : Prop := ∃ bytes, (Base64.url Char).encode bytes = text

/-- Whatever the envelope's texts decode to, it was sealed with the key of its kid. -/
def Authentic (ring : Ring Char) (purpose kid nonceText cipherText : List Char) : Prop :=
  ∃ key nonce text plaintext, lookup ring.keys kid = some key ∧
    Go.decodeRawURL nonceText = some nonce ∧ nonce.length = 12 ∧
      Go.decodeRawURL cipherText = some text ∧
      cipher.decrypt (cipher.hkdfKey key (info purpose)) nonce text = some plaintext

variable {cipher fromBase64url} {ring : Ring Char} {purpose envelope : List Char} {plaintext : Bytes}

theorem Go.open_ok (opens : Go.open_ cipher ring purpose envelope = .ok plaintext) :
    ∃ kid nonceText cipherText, envelope.splitOn '.' = [VERSION, kid, nonceText, cipherText] ∧
      ∃ key nonce text, lookup ring.keys kid = some key ∧
        Go.decodeRawURL nonceText = some nonce ∧ nonce.length = 12 ∧
        Go.decodeRawURL cipherText = some text ∧ cipher.decrypt
        (cipher.hkdfKey key (info purpose)) nonce text = some plaintext := by
  unfold Go.open_ at opens
  split at opens
  case h_2 => cases opens
  next version kid nonceText cipherText parts =>
  split at opens
  · cases opens
  next current =>
  split at opens
  · cases opens
  next key has =>
  split at opens
  · cases opens
  next nonce nonceIs =>
  split at opens
  · cases opens
  next twelve =>
  split at opens
  · cases opens
  next text textIs =>
  split at opens
  · cases opens
  next result decrypts =>
  cases opens
  rw [not_not.mp current] at parts
  exact ⟨kid, nonceText, cipherText, parts, key, nonce, text, has, nonceIs,
    not_not.mp twelve, textIs, decrypts⟩

theorem Ts.fromB64url_some {text : List Char} {bytes : Bytes}
    (is : Ts.fromB64url fromBase64url text = some bytes) :
    (Base64.url Char).encode bytes = text := by
  simp only [Ts.fromB64url] at is
  split at is
  · cases is
  · next same =>
    cases is
    exact not_not.mp same

theorem Ts.open_ok (opens : Ts.open_ cipher fromBase64url ring purpose envelope = .ok plaintext) :
    ∃ kid nonce text, envelope.splitOn '.' =
      [VERSION, kid, (Base64.url Char).encode nonce, (Base64.url Char).encode text] ∧
        ∃ key, lookup ring.keys kid = some key ∧ nonce.length = 12 ∧
        cipher.decrypt (cipher.hkdfKey key (info purpose)) nonce text = some plaintext := by
  unfold Ts.open_ at opens
  split at opens
  case h_2 => cases opens
  next version kid nonceText cipherText parts =>
  split at opens
  · cases opens
  next current =>
  split at opens
  · cases opens
  next key has =>
  split at opens
  case h_2 => cases opens
  next nonce text nonceIs textIs =>
  split at opens
  · cases opens
  next sizes =>
  split at opens
  · cases opens
  next result decrypts =>
  cases opens
  rw [not_not.mp current, ← Ts.fromB64url_some nonceIs, ← Ts.fromB64url_some textIs] at parts
  exact ⟨kid, nonce, text, parts, key, has, not_not.mp (not_or.mp sizes).1, decrypts⟩

theorem open_canonical (correct : cipher.Correct) (reads : ReadsBack fromBase64url) {kid : List Char}
    {nonce text key : Bytes} (parts : envelope.splitOn '.' = [VERSION, kid, (Base64.url Char).encode nonce,
      (Base64.url Char).encode text])
    (has : lookup ring.keys kid = some key) (twelve : nonce.length = 12)
    (decrypts : cipher.decrypt (cipher.hkdfKey key (info purpose)) nonce text = some plaintext) :
    Go.open_ cipher ring purpose envelope = .ok plaintext ∧
      Ts.open_ cipher fromBase64url ring purpose envelope = .ok plaintext := by
  have parts : envelope.splitOn (unit '.') = [VERSION, kid, (Base64.url Char).encode nonce,
    (Base64.url Char).encode text] := parts
  have long : ¬ text.length < TAG_SIZE := by
    intro small
    rw [correct.short _ _ _ small] at decrypts
    cases decrypts
  constructor
  · simp only [Go.open_, parts, has, Go.decodeRawURL_encode, twelve, decrypts, ne_eq,
      not_true_eq_false, if_false]
  · simp only [Ts.open_, parts, has, Ts.fromB64url_encode reads, twelve, long, decrypts, ne_eq,
      not_true_eq_false, or_self, if_false]

-- Only an authentic envelope in another spelling is opened by one and not by the other.
theorem open_alike_iff (correct : cipher.Correct) (reads : ReadsBack fromBase64url) (ring : Ring Char)
    (purpose envelope : List Char) :
    OpensAlike (Go.open_ cipher ring purpose envelope) (Ts.open_ cipher fromBase64url ring purpose envelope) ↔
        ∀ kid nonceText cipherText, envelope.splitOn '.' = [VERSION, kid, nonceText, cipherText] →
        Authentic cipher ring purpose kid nonceText cipherText → Canonical nonceText ∧
        Canonical cipherText := by
  constructor
  · intro alike kid nonceText cipherText parts authentic
    obtain ⟨key, nonce, text, plaintext, has, nonceIs, twelve, textIs, decrypts⟩ := authentic
    have split : envelope.splitOn (unit '.') = [VERSION, kid, nonceText, cipherText] := parts
    have go : Go.open_ cipher ring purpose envelope = .ok plaintext := by
      simp only [Go.open_, split, has, nonceIs, twelve, textIs, decrypts, ne_eq, not_true_eq_false, if_false]
    rw [go] at alike
    cases ts : Ts.open_ cipher fromBase64url ring purpose envelope with
    | error error =>
      rw [ts] at alike
      cases alike
    | ok other =>
      obtain ⟨kid', nonce', text', parts', -⟩ := Ts.open_ok ts
      rw [parts] at parts'
      simp only [List.cons.injEq, true_and, and_true] at parts'
      exact ⟨⟨nonce', parts'.2.1.symm⟩, ⟨text', parts'.2.2.symm⟩⟩
  · intro canonical
    cases go : Go.open_ cipher ring purpose envelope with
    | ok plaintext =>
      obtain ⟨kid, nonceText, cipherText, parts, key, nonce, text, has, nonceIs, twelve, textIs, decrypts⟩ :=
        Go.open_ok go
      obtain ⟨⟨nonce', rfl⟩, ⟨text', rfl⟩⟩ := canonical kid nonceText cipherText parts
        ⟨key, nonce, text, plaintext, has, nonceIs, twelve, textIs, decrypts⟩
      rw [Go.decodeRawURL_encode] at nonceIs textIs
      cases nonceIs
      cases textIs
      rw [(open_canonical correct reads parts has twelve decrypts).2]
      rfl
    | error error =>
      cases ts : Ts.open_ cipher fromBase64url ring purpose envelope with
      | error error' => trivial
      | ok plaintext =>
        obtain ⟨kid, nonce, text, parts, key, has, twelve, decrypts⟩ := Ts.open_ok ts
        rw [(open_canonical correct reads parts has twelve decrypts).1] at go
        cases go

end Opening

/-- Where the two implementations agree, for any specification and any envelope. -/
theorem implementations_agree_iff (fromBase64 fromBase64url : List Char → Bytes)
    (readsStd : ReadsBackStd fromBase64)
    (reads : ReadsBack fromBase64url) (cipher : Cipher Char) (correct : cipher.Correct) :
    (∀ spec active, ParsesAlike (Go.parse spec active) (Ts.parse fromBase64 spec active) ↔
      (WellFormed fromBase64 spec active → ∀ entry ∈ spec.splitOn ',', Plain entry)) ∧
    ∀ (ring : Ring Char) (purpose envelope : List Char),
      OpensAlike (Go.open_ cipher ring purpose envelope)
      (Ts.open_ cipher fromBase64url ring purpose envelope) ↔
          ∀ kid nonceText cipherText, envelope.splitOn '.' = [VERSION, kid, nonceText, cipherText] →
          Authentic cipher ring purpose kid nonceText cipherText → Canonical nonceText ∧
          Canonical cipherText :=
  ⟨parse_alike_iff readsStd, open_alike_iff correct reads⟩

def bufferFromBase64 (text : List Char) : Bytes := ((Base64.std Char).decodePadded '=' text).getD []

theorem bufferFromBase64_reads : ReadsBackStd bufferFromBase64 := by
  intro bytes
  have apart : ∀ sextet, (Base64.std Char).digit sextet ≠ '=' := by decide
  rw [bufferFromBase64, Base64.Alphabet.decodePadded_encodePadded _ apart, Option.getD_some]

/-- 32 zeros, with these two bits after them. -/
def zerosThen (last : Char) : List Char := 'a' :: ':' :: List.replicate 42 'A' ++ [last, '=']

def entriesOf (parsed : Except (KeyringError Char) (Ring Char)) : Option (List (List Char × Bytes)) :=
  parsed.toOption.map fun ring => ring.keys.entries

theorem loose_bit_divides :
    entriesOf (Go.parse (zerosThen 'B') ['a']) = some [(['a'], zeroKey)] ∧
    entriesOf (Ts.parse bufferFromBase64 (zerosThen 'B') ['a']) = none ∧
    ¬ ∀ spec active, ParsesAlike (Go.parse spec active) (Ts.parse bufferFromBase64 spec active) := by
  have go : entriesOf (Go.parse (zerosThen 'B') ['a']) = some [(['a'], zeroKey)] := by decide +kernel
  have ts : entriesOf (Ts.parse bufferFromBase64 (zerosThen 'B') ['a']) = none := by decide +kernel
  refine ⟨go, ts, fun alike => ?_⟩
  have here := alike (zerosThen 'B') ['a']
  cases parsed : Go.parse (zerosThen 'B') ['a'] with
  | error error =>
    rw [parsed] at go
    cases go
  | ok ring =>
    cases parsed' : Ts.parse bufferFromBase64 (zerosThen 'B') ['a'] with
    | error error =>
      rw [parsed, parsed'] at here
      cases here
    | ok ring' =>
      rw [parsed'] at ts
      cases ts

/-- The same key as an encoder writes it. -/
theorem implementations_agree_on_zeros :
    ParsesAlike (Go.parse (zerosThen 'A') ['a']) (Ts.parse bufferFromBase64 (zerosThen 'A') ['a']) := by
  refine ((implementations_agree_iff bufferFromBase64 bufferFromBase64url bufferFromBase64_reads
    bufferFromBase64url_reads tagging
    tagging_correct).1 (zerosThen 'A') ['a']).mpr fun _ entry member => ?_
  have single : (zerosThen 'A').splitOn ',' = [zerosThen 'A'] := by decide
  rw [single, List.mem_singleton] at member
  rw [member]
  exact ⟨by decide, zeroKey, by decide⟩

end OpenEmarsys.Keyring
