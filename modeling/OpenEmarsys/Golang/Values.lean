import Mathlib.Data.List.Nodup
import OpenEmarsys.Encoding.Base64

/-! Values of the Go runtime: strings that come from a file, and maps.

A string read from a file is any sequence of bytes; one that comes from JSON is UTF-8,
so it is a `String` here. A `range` loop visits the entries of a map in any order.
-/

set_option autoImplicit false

namespace OpenEmarsys.Golang

abbrev Bytes := List UInt8

/-- The bytes of a string literal or of a decoded JSON string. -/
def utf8 (text : String) : Bytes := text.toByteArray.data.toList

theorem utf8_injective : Function.Injective utf8 := by
  intro first second same
  apply String.toByteArray_inj.1
  apply ByteArray.ext
  exact Array.toList_inj.1 same

/-- White space of one byte: `\t`, `\n`, `\v`, `\f`, `\r` and the blank. -/
def space1 (a : UInt8) : Bool := a == 0x20 || (0x09 ≤ a && a ≤ 0x0D)

def space2 (a b : UInt8) : Bool := a == 0xC2 && (b == 0x85 || b == 0xA0)

/-- U+1680, U+2000 to U+200A, U+2028, U+2029, U+202F, U+205F and U+3000. -/
def space3 (a b c : UInt8) : Bool :=
  (a == 0xE1 && b == 0x9A && c == 0x80) ||
  (a == 0xE2 && b == 0x80 && ((0x80 ≤ c && c ≤ 0x8A) || c == 0xA8 || c == 0xA9 || c == 0xAF)) ||
  (a == 0xE2 && b == 0x81 && c == 0x9F) ||
  (a == 0xE3 && b == 0x80 && c == 0x80)

/-- `strings.TrimSpace(text) == ""`: nothing but `unicode.IsSpace`. A byte that is not
UTF-8 is no space. -/
def blank : Bytes → Bool
  | [] => true
  | [a] => space1 a
  | [a, b] => if space1 a then blank [b] else space2 a b
  | a :: b :: c :: rest =>
      if space1 a then blank (b :: c :: rest)
      else if space2 a b then blank (c :: rest)
      else space3 a b c && blank rest

/-- `strings.Cut(text, separator)`, less the `found`. -/
def cut (text : String) (separator : Char) : String × String :=
  (String.ofList (text.toList.takeWhile (· ≠ separator)),
    String.ofList ((text.toList.dropWhile (· ≠ separator)).drop 1))

/-- The entries of a map. Their order means nothing. -/
structure GoMap (Key Value : Type) where
  entries : List (Key × Value)
  distinct : (entries.map Prod.fst).Nodup

/-- An order in which a `range` loop may visit the map. -/
def GoMap.Iterates {Key Value : Type} (map : GoMap Key Value) (order : List (Key × Value)) : Prop :=
  order.Perm map.entries

namespace GoMap

variable {Key Value : Type} {map : GoMap Key Value} {order other : List (Key × Value)}

theorem Iterates.perm (visited : map.Iterates order) (again : map.Iterates other) : order.Perm other :=
  List.Perm.trans visited (List.Perm.symm again)

theorem Iterates.mem_iff (visited : map.Iterates order) {entry : Key × Value} :
    entry ∈ order ↔ entry ∈ map.entries :=
  List.Perm.mem_iff visited

theorem iterates_first {first : Key × Value} (member : first ∈ map.entries) :
    ∃ rest, map.Iterates (first :: rest) := by
  obtain ⟨before, after, parts⟩ := List.append_of_mem member
  refine ⟨before ++ after, ?_⟩
  rw [Iterates, parts]
  exact List.perm_middle.symm

theorem iterates_last {last : Key × Value} (member : last ∈ map.entries) :
    ∃ rest, map.Iterates (rest ++ [last]) := by
  obtain ⟨rest, visited⟩ := iterates_first member
  exact ⟨rest, (List.perm_append_singleton last rest).trans visited⟩

def empty : GoMap Key Value := ⟨[], List.nodup_nil⟩

def len (map : GoMap Key Value) : Nat := map.entries.length

variable [DecidableEq Key]

def get (map : GoMap Key Value) (key : Key) : Option Value := map.entries.lookup key

/-- `map[key] = value`. -/
def insert (map : GoMap Key Value) (key : Key) (value : Value) : GoMap Key Value where
  entries := (key, value) :: map.entries.filter (·.1 ≠ key)
  distinct := by
    rw [List.map_cons, List.nodup_cons]
    constructor
    · intro member
      obtain ⟨entry, kept, same⟩ := List.mem_map.mp member
      exact absurd same (of_decide_eq_true (List.mem_filter.mp kept).2)
    · exact map.distinct.sublist (List.filter_sublist.map Prod.fst)

@[simp] theorem get_empty (key : Key) : (empty : GoMap Key Value).get key = none := rfl

theorem len_of_get {key : Key} {value : Value} (found : map.get key = some value) : map.len ≠ 0 := by
  intro none
  rw [get, List.length_eq_zero_iff.mp none] at found
  cases found

end GoMap

def encodeToString (bytes : Bytes) : String := String.ofList ((Base64.url Char).encode bytes)

/-- `DecodeString`, which skips line breaks. -/
def decodeString (text : String) : Option Bytes :=
  (Base64.url Char).decode (text.toList.filter fun c => c != '\n' && c != '\r')

theorem symbol_high (sextet : Base64.Sextet) : 13 < Base64.symbol '-'.toNat '_'.toNat sextet := by
  have minus : '-'.toNat = 45 := rfl
  have underscore : '_'.toNat = 95 := rfl
  unfold Base64.symbol
  split_ifs <;> omega

theorem decodeString_encodeToString (bytes : Bytes) : decodeString (encodeToString bytes) = some bytes := by
  have kept : ((Base64.url Char).encode bytes).filter (fun c => c != '\n' && c != '\r') =
      (Base64.url Char).encode bytes := by
    rw [List.filter_eq_self]
    intro c member
    obtain ⟨sextet, rfl⟩ := (Base64.url Char).mem_encode member
    have apart (mark : Char) (low : mark.toNat ≤ 13) : (Base64.url Char).digit sextet ≠ mark := by
      have high := symbol_high sextet
      exact Base64.ascii_ne_digit (by omega) (fun other => by have := symbol_high other; omega) sextet
    simp [apart '\n' (by decide), apart '\r' (by decide)]
  rw [decodeString, encodeToString, String.toList_ofList, kept, Base64.Alphabet.decode_encode]

end OpenEmarsys.Golang
