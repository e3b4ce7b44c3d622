import OpenEmarsys.Encoding.Base64
import OpenEmarsys.Javascript.Values
import Mathlib.Data.List.Basic

/-! Cursors that are lists of strings: JSON, as UTF-8, in base64url.

The parser reads arrays of strings and nothing else. Of the escapes it leaves out the ones of
surrogates, which `JSON.stringify` does not write.
-/

set_option autoImplicit false

namespace OpenEmarsys.Javascript

/-- How `JSON.stringify` writes a character. -/
def escapeChar (c : Char) : List Char :=
  if c = '"' then ['\\', '"']
  else if c = '\\' then ['\\', '\\']
  else if c = '\n' then ['\\', 'n']
  else if c = '\r' then ['\\', 'r']
  else if c = '\t' then ['\\', 't']
  else if c = '\x08' then ['\\', 'b']
  else if c = '\x0C' then ['\\', 'f']
  else if c < ' ' then ['\\', 'u', '0', '0', Nat.digitChar (c.toNat / 16), Nat.digitChar (c.toNat % 16)]
  else [c]

def quote (text : String) : List Char := '"' :: text.toList.flatMap escapeChar ++ ['"']

/-- `JSON.stringify` of a list of strings. -/
def stringify (parts : List String) : String := String.ofList
    ('[' :: [','].intercalate (parts.map quote) ++ [']'])

def unescape (c : Char) : Option Char :=
  if c = '"' ∨ c = '\\' ∨ c = '/' then some c
  else if c = 'n' then some '\n'
  else if c = 'r' then some '\r'
  else if c = 't' then some '\t'
  else if c = 'b' then some '\x08'
  else if c = 'f' then some '\x0C'
  else none

def codeUnit (a b c d : Char) : Option Char :=
  if [a, b, c, d].all isHex then
    let n := ((hexDigit a * 16 + hexDigit b) * 16 + hexDigit c) * 16 + hexDigit d
    if n.isValidChar then some (Char.ofNat n) else none
  else none

/-- The first character of the rest of a string, and what follows. -/
def readChar : List Char → Option (Char × List Char)
  | '\\' :: 'u' :: a :: b :: c :: d :: rest => (codeUnit a b c d).map fun first => (first, rest)
  | '\\' :: e :: rest => (unescape e).map fun first => (first, rest)
  | c :: rest => if c = '\\' ∨ c < ' ' then none else some (c, rest)
  | [] => none

/-- A string up to its closing quote, and what follows; the number bounds its length. -/
def stringBody : Nat → List Char → Option (List Char × List Char)
  | 0, _ => none
  | fuel + 1, text =>
      if text.head? = some '"' then some ([], text.tail)
      else (readChar text).bind fun (first, rest) => (stringBody fuel rest).map
        fun (later, rest) => (first :: later, rest)

def skipSpace (text : List Char) : List Char := text.dropWhile
    fun c => c == ' ' || c == '\n' || c == '\r' || c == '\t'

def expect (c : Char) (text : List Char) : Option (List Char) :=
  match skipSpace text with
  | first :: rest => if first = c then some rest else none
  | [] => none

/-- The rest of an array that is not empty; the number bounds how many strings it has. -/
def parseElements : Nat → List Char → Option (List String)
  | 0, _ => none
  | fuel + 1, text => do
      let body ← expect '"' text
      let (chars, rest) ← stringBody (body.length + 1) body
      match expect ',' rest with
      | some more => do
          let later ← parseElements fuel more
          some (String.ofList chars :: later)
      | none => do
          let rest ← expect ']' rest
          if (skipSpace rest).isEmpty then some [String.ofList chars] else none

/-- `JSON.parse` of an array of strings. -/
def parseStrings (text : String) : Option (List String) := do
  let rest ← expect '[' text.toList
  match expect ']' rest with
  | some rest => if (skipSpace rest).isEmpty then some [] else none
  | none => parseElements rest.length rest

theorem codeUnit_control {c : Char} (control : c < ' ') :
    codeUnit '0' '0' (Nat.digitChar (c.toNat / 16)) (Nat.digitChar (c.toNat % 16)) = some c := by
  have small : c.toNat < 32 := by simpa [Char.lt_def, UInt32.lt_iff_toNat_lt] using control
  have table : ∀ n < 32, codeUnit '0' '0' (Nat.digitChar (n / 16)) (Nat.digitChar (n % 16)) =
    some (Char.ofNat n) := by decide
  rw [table _ small, Char.ofNat_toNat]

theorem readChar_short {e c : Char} (other : e ≠ 'u') (is : unescape e = some c) (rest : List Char) :
    readChar ('\\' :: e :: rest) = some (c, rest) := by
  rw [readChar]
  · rw [is]
    rfl
  · intro a b c d more same
    exact absurd same other

theorem readChar_escape (c : Char) (rest : List Char) : readChar (escapeChar c ++ rest) = some (c, rest) := by
  unfold escapeChar
  split_ifs with quotes slash newline carriage tab back form control
  · subst quotes
    exact readChar_short (by decide) rfl rest
  · subst slash
    exact readChar_short (by decide) rfl rest
  · subst newline
    exact readChar_short (by decide) rfl rest
  · subst carriage
    exact readChar_short (by decide) rfl rest
  · subst tab
    exact readChar_short (by decide) rfl rest
  · subst back
    exact readChar_short (by decide) rfl rest
  · subst form
    exact readChar_short (by decide) rfl rest
  · have read := codeUnit_control control
    simp [readChar, read]
  · have plain : ¬ (c = '\\' ∨ c < ' ') := not_or.mpr ⟨slash, control⟩
    rw [List.singleton_append, readChar, if_neg plain]
    · intro _ _ _ _ _ same
      exact absurd same slash
    · intro _ _ same
      exact absurd same slash

theorem head_escape (c : Char) (rest : List Char) : (escapeChar c ++ rest).head? ≠ some '"' := by
  unfold escapeChar
  split_ifs with quotes <;> simp [quotes]

theorem stringBody_quote (text rest : List Char) {fuel : Nat} (enough : text.length < fuel) :
    stringBody fuel (text.flatMap escapeChar ++ '"' :: rest) = some (text, rest) := by
  induction text generalizing fuel with
  | nil =>
    obtain ⟨fuel, rfl⟩ : ∃ n, fuel = n + 1 := ⟨fuel - 1, by simp at enough; omega⟩
    rfl
  | cons c text ih =>
    obtain ⟨fuel, rfl⟩ : ∃ n, fuel = n + 1 := ⟨fuel - 1, by simp at enough; omega⟩
    have less : text.length < fuel := by simpa using enough
    rw [List.flatMap_cons, List.append_assoc, stringBody, if_neg (head_escape c _),
      readChar_escape, Option.bind_some]
    simp only [ih less, Option.map_some]

theorem length_escape (text : List Char) : text.length ≤ (text.flatMap escapeChar).length := by
  induction text with
  | nil => exact Nat.le_refl _
  | cons c text ih =>
    have one : 1 ≤ (escapeChar c).length := by
      unfold escapeChar
      split_ifs <;> simp
    rw [List.flatMap_cons, List.length_append, List.length_cons]
    omega

theorem parseElements_quotes (parts : List String) (nonempty : parts ≠ []) (fuel : Nat)
    (enough : parts.length ≤ fuel) :
    parseElements fuel ([','].intercalate (parts.map quote) ++ [']']) = some parts := by
  induction parts generalizing fuel with
  | nil => exact absurd rfl nonempty
  | cons text parts ih =>
    obtain ⟨fuel, rfl⟩ : ∃ n, fuel = n + 1 := ⟨fuel - 1, by simp at enough; omega⟩
    have body (rest : List Char) :
        expect '"' (quote text ++ rest) = some (text.toList.flatMap escapeChar ++ '"' :: rest) := by
      rw [quote, List.append_assoc]
      rfl
    have read (rest : List Char) : stringBody ((text.toList.flatMap escapeChar ++ '"' :: rest).length + 1)
        (text.toList.flatMap escapeChar ++ '"' :: rest) = some (text.toList, rest) := by
      apply stringBody_quote
      have kept := length_escape text.toList
      rw [List.length_append]
      omega
    cases parts with
    | nil =>
      rw [List.map_cons, List.map_nil, List.intercalate_singleton, parseElements, body]
      simp only [Option.bind_eq_bind, Option.bind_some, read, String.ofList_toList]
      rfl
    | cons second parts =>
      have split : [','].intercalate ((text :: second :: parts).map quote) ++ [']'] =
          quote text ++ ',' :: ([','].intercalate ((second :: parts).map quote) ++ [']']) := by
        simp [List.intercalate_cons_cons]
      have later := ih (by simp) fuel (by simp at enough ⊢; omega)
      have comma (rest : List Char) : expect ',' (',' :: rest) = some rest := rfl
      rw [split, parseElements, body]
      simp only [Option.bind_eq_bind, Option.bind_some, read, comma, later, String.ofList_toList]

theorem length_quotes (parts : List String) : parts.length ≤
    ([','].intercalate (parts.map quote)).length := by
  induction parts with
  | nil => exact Nat.le_refl _
  | cons text parts ih =>
    have one : 1 ≤ (quote text).length := by simp [quote]
    cases parts with
    | nil => simpa using one
    | cons second parts =>
      rw [List.map_cons, List.map_cons, List.intercalate_cons_cons, List.length_append, List.length_append]
      rw [List.map_cons] at ih
      simp only [List.length_cons] at ih ⊢
      omega

theorem parseStrings_stringify (parts : List String) (nonempty : parts ≠ []) :
    parseStrings (stringify parts) = some parts := by
  have opened : expect '[' (stringify parts).toList = some
      ([','].intercalate (parts.map quote) ++ [']']) := by
    rw [stringify, String.toList_ofList]
    rfl
  have first : expect ']' ([','].intercalate (parts.map quote) ++ [']']) = none := by
    cases parts with
    | nil => exact absurd rfl nonempty
    | cons text parts => cases parts <;> rfl
  rw [parseStrings, opened]
  simp only [Option.bind_eq_bind, Option.bind_some, first]
  apply parseElements_quotes parts nonempty
  have enough := length_quotes parts
  rw [List.length_append]
  omega

/-- `Buffer.from(JSON.stringify(parts)).toString('base64url')`. -/
def encode (parts : List String) : String := String.ofList
    ((Base64.url Char).encode (Utf8.encode (stringify parts)))

/-- `JSON.parse(Buffer.from(cursor, 'base64url').toString())`, if it is an array of strings. -/
def decode (cursor : String) : Option (List String) := do
  let bytes ← (Base64.url Char).decode cursor.toList
  let text ← Utf8.decode bytes
  parseStrings text

theorem decode_encode (parts : List String) (nonempty : parts ≠ []) : decode (encode parts) = some parts := by
  rw [decode, encode, String.toList_ofList, Base64.Alphabet.decode_encode]
  simp only [Option.bind_eq_bind, Option.bind_some, Utf8.decode_encode]
  exact parseStrings_stringify parts nonempty

end OpenEmarsys.Javascript
