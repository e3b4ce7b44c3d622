import Mathlib.Data.List.TakeWhile

/-! Bytes as text and text as bytes: base64 over any alphabet of 64 code units, and UTF-8.

The base64 decoder is the one that does not look at the unused bits of the last sextet,
so several texts may decode to the same bytes. One of them is the encoding.
-/

set_option autoImplicit false

namespace OpenEmarsys.Base64

abbrev Sextet := Fin 64

def sextet1 (a : UInt8) : Sextet := ⟨a.toNat / 4, by have := a.toNat_lt; omega⟩

def sextet2 (a b : UInt8) : Sextet := ⟨a.toNat % 4 * 16 + b.toNat / 16, by have := b.toNat_lt; omega⟩

def sextet3 (b c : UInt8) : Sextet := ⟨b.toNat % 16 * 4 + c.toNat / 64, by have := c.toNat_lt; omega⟩

def sextet4 (c : UInt8) : Sextet := ⟨c.toNat % 64, by omega⟩

def octet1 (w x : Sextet) : UInt8 := UInt8.ofNat (w.val * 4 + x.val / 16)

def octet2 (x y : Sextet) : UInt8 := UInt8.ofNat (x.val % 16 * 16 + y.val / 4)

def octet3 (y z : Sextet) : UInt8 := UInt8.ofNat (y.val % 4 * 64 + z.val)

def sextets : List UInt8 → List Sextet
  | [] => []
  | [a] => [sextet1 a, sextet2 a 0]
  | [a, b] => [sextet1 a, sextet2 a b, sextet3 b 0]
  | a :: b :: c :: rest => sextet1 a :: sextet2 a b :: sextet3 b c :: sextet4 c :: sextets rest

/-- The bytes in these sextets; a single one is left over from nothing. -/
def octets : List Sextet → Option (List UInt8)
  | [] => some []
  | [_] => none
  | [w, x] => some [octet1 w x]
  | [w, x, y] => some [octet1 w x, octet2 x y]
  | w :: x :: y :: z :: rest => (octets rest).map fun bytes => octet1 w x :: octet2 x y :: octet3 y z :: bytes

theorem ofNat_eq {a : UInt8} {n : Nat} (same : n = a.toNat) : UInt8.ofNat n = a := by
  rw [same, UInt8.ofNat_toNat]

theorem octet1_sextets (a b : UInt8) : octet1 (sextet1 a) (sextet2 a b) = a := by
  have small := b.toNat_lt
  apply ofNat_eq
  simp only [sextet1, sextet2]
  omega

theorem octet2_sextets (a b c : UInt8) : octet2 (sextet2 a b) (sextet3 b c) = b := by
  have small := b.toNat_lt
  have small' := c.toNat_lt
  apply ofNat_eq
  simp only [sextet2, sextet3]
  omega

theorem octet3_sextets (b c : UInt8) : octet3 (sextet3 b c) (sextet4 c) = c := by
  have small := c.toNat_lt
  apply ofNat_eq
  simp only [sextet3, sextet4]
  omega

theorem octets_sextets (bytes : List UInt8) : octets (sextets bytes) = some bytes := by
  fun_induction sextets bytes with
  | case1 => rfl
  | case2 a => rw [octets, octet1_sextets]
  | case3 a b => rw [octets, octet1_sextets, octet2_sextets]
  | case4 a b c rest ih => rw [octets, ih, Option.map_some, octet1_sextets, octet2_sextets, octet3_sextets]

/-- The code units that stand for sextets. -/
structure Alphabet (α : Type) where
  digit : Sextet → α
  distinct : Function.Injective digit

namespace Alphabet

variable {α : Type} [DecidableEq α] (alphabet : Alphabet α)

def value (unit : α) : Option Sextet := (List.finRange 64).find? fun sextet => alphabet.digit sextet = unit

@[simp] theorem value_digit (sextet : Sextet) : alphabet.value (alphabet.digit sextet) = some sextet := by
  have finds : ((List.finRange 64).find?
      fun other => alphabet.digit other = alphabet.digit sextet).isSome = true :=
    List.find?_isSome.mpr ⟨sextet, List.mem_finRange sextet, by simp⟩
  obtain ⟨found, is⟩ := Option.isSome_iff_exists.mp finds
  have same := List.find?_some is
  rw [decide_eq_true_iff] at same
  rw [value, is, alphabet.distinct same]

theorem digit_of_value {unit : α} {sextet : Sextet} (is : alphabet.value unit = some sextet) :
    alphabet.digit sextet = unit := by
  have same := List.find?_some is
  rwa [decide_eq_true_iff] at same

def encode (bytes : List UInt8) : List α := (sextets bytes).map alphabet.digit

/-- Text without padding to bytes; the unused bits are dropped. -/
def decode (text : List α) : Option (List UInt8) := (text.mapM alphabet.value).bind octets

theorem mapM_value (digits : List Sextet) :
    (digits.map alphabet.digit).mapM alphabet.value = some digits := by
  induction digits with
  | nil => rfl
  | cons digit rest ih => simp [List.mapM_cons, ih]

theorem mapM_value_some {text : List α} {digits : List Sextet} (is : text.mapM alphabet.value = some digits) :
    digits.map alphabet.digit = text := by
  induction text generalizing digits with
  | nil =>
    cases is
    rfl
  | cons unit rest ih =>
    simp only [List.mapM_cons, Option.bind_eq_bind, Option.bind_eq_some_iff, Option.pure_def,
      Option.some.injEq] at is
    obtain ⟨digit, first, digits, others, rfl⟩ := is
    rw [List.map_cons, alphabet.digit_of_value first, ih others]

theorem decode_encode (bytes : List UInt8) : alphabet.decode (alphabet.encode bytes) = some bytes := by
  rw [decode, encode, mapM_value, Option.bind_some, octets_sextets]

omit [DecidableEq α] in
theorem mem_encode {bytes : List UInt8} {unit : α} (member : unit ∈ alphabet.encode bytes) :
    ∃ sextet, alphabet.digit sextet = unit := by
  obtain ⟨sextet, -, same⟩ := List.mem_map.mp member
  exact ⟨sextet, same⟩

variable (pad : α)

/-- What completes so many digits to a multiple of four. -/
def padding (count : Nat) : List α :=
  match count % 4 with
  | 2 => [pad, pad]
  | 3 => [pad]
  | _ => []

omit [DecidableEq α] in
theorem mem_padding {count : Nat} {unit : α} (member : unit ∈ padding pad count) : unit = pad := by
  unfold padding at member
  split at member <;> simp_all

def encodePadded (bytes : List UInt8) : List α :=
  alphabet.encode bytes ++ padding pad (alphabet.encode bytes).length

def decodePadded (text : List α) : Option (List UInt8) :=
  let body := text.takeWhile (· ≠ pad)
  if text.dropWhile (· ≠ pad) = padding pad body.length then alphabet.decode body else none

section Padded
variable {pad}

theorem takeWhile_body {body rest : List α} (digits : ∀ unit ∈ body, unit ≠ pad)
    (pads : ∀ unit ∈ rest, unit = pad) :
    (body ++ rest).takeWhile (· ≠ pad) = body ∧ (body ++ rest).dropWhile (· ≠ pad) = rest := by
  have inBody : ∀ unit ∈ body, decide (unit ≠ pad) = true :=
    fun unit member => decide_eq_true (digits unit member)
  rw [List.takeWhile_append_of_pos inBody, List.dropWhile_append_of_pos inBody]
  cases rest with
  | nil => simp
  | cons unit others => simp [pads unit (List.mem_cons_self ..)]

theorem decodePadded_encodePadded (apart : ∀ sextet, alphabet.digit sextet ≠ pad) (bytes : List UInt8) :
    alphabet.decodePadded pad (alphabet.encodePadded pad bytes) = some bytes := by
  have digits : ∀ unit ∈ alphabet.encode bytes, unit ≠ pad := by
    intro unit member
    obtain ⟨sextet, rfl⟩ := alphabet.mem_encode member
    exact apart sextet
  obtain ⟨body, rest⟩ := takeWhile_body digits (fun unit => mem_padding pad)
  rw [decodePadded, encodePadded, body, rest, if_pos rfl, decode_encode]

theorem mem_of_decodePadded {text : List α} {bytes : List UInt8}
    (decodes : alphabet.decodePadded pad text = some bytes) {unit : α}
    (member : unit ∈ text) : (∃ sextet, alphabet.digit sextet = unit) ∨ unit = pad := by
  simp only [decodePadded] at decodes
  rw [← List.takeWhile_append_dropWhile (p := fun unit => decide (unit ≠ pad)) (l := text)] at member
  split at decodes
  · next pads =>
    rcases List.mem_append.mp member with body | rest
    · left
      obtain ⟨digits, is, -⟩ := Option.bind_eq_some_iff.mp decodes
      rw [← alphabet.mapM_value_some is] at body
      obtain ⟨sextet, -, same⟩ := List.mem_map.mp body
      exact ⟨sextet, same⟩
    · right
      rw [pads] at rest
      exact mem_padding pad rest
  · cases decodes

end Padded

end Alphabet

/-- A kind of code unit in which ASCII text can be written: bytes, UTF-16 code units, characters. -/
class CodeUnit (α : Type) where
  decideEq : DecidableEq α
  ascii : Char → α
  distinct : ∀ first second : Char, first.toNat < 128 → second.toNat < 128 →
    ascii first = ascii second → first = second

instance {α : Type} [CodeUnit α] : DecidableEq α := CodeUnit.decideEq

instance : CodeUnit Char := ⟨inferInstance, id, fun _ _ _ _ same => same⟩

instance : CodeUnit UInt8 where
  decideEq := inferInstance
  ascii c := UInt8.ofNat c.toNat
  distinct first second small small' same := by
    have equal := congrArg UInt8.toNat same
    simp only [UInt8.toNat_ofNat'] at equal
    rw [Nat.mod_eq_of_lt (by omega), Nat.mod_eq_of_lt (by omega)] at equal
    exact Char.toNat_inj.mp equal

instance : CodeUnit UInt16 where
  decideEq := inferInstance
  ascii c := UInt16.ofNat c.toNat
  distinct first second small small' same := by
    have equal := congrArg UInt16.toNat same
    simp only [UInt16.toNat_ofNat'] at equal
    rw [Nat.mod_eq_of_lt (by omega), Nat.mod_eq_of_lt (by omega)] at equal
    exact Char.toNat_inj.mp equal

def symbol (plus slash : Nat) (sextet : Sextet) : Nat :=
  if sextet.val < 26 then 65 + sextet.val
  else if sextet.val < 52 then 71 + sextet.val
  else if sextet.val < 62 then sextet.val - 4
  else if sextet.val = 62 then plus
  else slash

section Alphabets
variable (plus slash : Nat)

theorem symbol_ascii (plusSmall : plus < 128) (slashSmall : slash < 128) (sextet : Sextet) :
    symbol plus slash sextet < 128 := by
  unfold symbol
  split_ifs <;> omega

theorem symbol_injective (plusLow : plus < 48) (differs : plus ≠ slash) (free : slash < 48 ∨ slash = 95) :
    Function.Injective (symbol plus slash) := by
  intro first second same
  have := first.isLt
  have := second.isLt
  apply Fin.ext
  unfold symbol at same
  split_ifs at same <;> omega

theorem toNat_ofNat {n : Nat} (small : n < 128) : (Char.ofNat n).toNat = n := by
  have valid : n.isValidChar := .inl (by omega)
  rw [Char.ofNat, dif_pos valid]
  rfl

variable (α : Type) [CodeUnit α]

def alphabet (plusLow : plus < 48) (differs : plus ≠ slash)
    (free : slash < 48 ∨ slash = 95) : Alphabet α where
  digit sextet := CodeUnit.ascii (Char.ofNat (symbol plus slash sextet))
  distinct := by
    have small : ∀ sextet, symbol plus slash sextet < 128 := symbol_ascii plus slash (by omega) (by omega)
    have ascii : ∀ sextet, (Char.ofNat (symbol plus slash sextet)).toNat < 128 := fun sextet => by
      rw [toNat_ofNat (small sextet)]
      exact small sextet
    intro first second same
    have equal := congrArg Char.toNat (CodeUnit.distinct _ _ (ascii first) (ascii second) same)
    rw [toNat_ofNat (small first), toNat_ofNat (small second)] at equal
    exact symbol_injective plus slash plusLow differs free equal

/-- `base64`, with `+` and `/`. -/
def std : Alphabet α := alphabet '+'.toNat '/'.toNat α (by decide) (by decide) (by decide)

/-- `base64url`, with `-` and `_`. -/
def url : Alphabet α := alphabet '-'.toNat '_'.toNat α (by decide) (by decide) (by decide)

variable {α}

-- An ASCII character that is no symbol of an alphabet is none of its digits.
theorem ascii_ne_digit {plus slash : Nat} {plusLow : plus < 48} {differs : plus ≠ slash}
    {free : slash < 48 ∨ slash = 95} {c : Char}
    (small : c.toNat < 128) (other : ∀ sextet, symbol plus slash sextet ≠ c.toNat) (sextet : Sextet) :
    (alphabet plus slash α plusLow differs free).digit sextet ≠ CodeUnit.ascii c := by
  intro same
  have low := symbol_ascii plus slash (by omega) (by omega) sextet
  have equal := congrArg Char.toNat (CodeUnit.distinct _ _ (by rw [toNat_ofNat low]; exact low) small same)
  rw [toNat_ofNat low] at equal
  exact other sextet equal

end Alphabets

end OpenEmarsys.Base64

namespace OpenEmarsys.Utf8

def encode (text : String) : List UInt8 := text.toByteArray.data.toList

def decode (bytes : List UInt8) : Option String := String.fromUTF8? ⟨⟨bytes⟩⟩

@[simp] theorem decode_encode (text : String) : decode (encode text) = some text := by
  have valid : text.toByteArray.IsValidUTF8 := text.isValidUTF8
  exact dif_pos valid

end OpenEmarsys.Utf8
