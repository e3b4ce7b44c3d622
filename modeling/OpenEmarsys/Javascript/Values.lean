import Mathlib.Algebra.Group.Nat.Defs
import Mathlib.Data.List.Basic

/-! Values of the JavaScript runtime: numbers, strings, JSON and identifiers.

A number is an IEEE double; equality on it is `Object.is`, so -0 and 0 differ.
Strings are sequences of Unicode scalar values: one with a lone surrogate, which
neither text nor jsonb can hold, is not in the model.
-/

set_option autoImplicit false

namespace OpenEmarsys.Javascript

abbrev Number := Float.Model

namespace Number

def ofNat (n : Nat) : Number := Float.Model.ofNat n

def negate (negative : Bool) (n : Number) : Number := if negative then Float.Model.neg n else n

def isFinite (n : Number) : Bool := Float.Model.isFinite n

/-- The least exponent the predicate accepts; the decimal digits of a double are fewer than 400. -/
def least (accepts : Nat → Bool) : Nat := ((List.range 400).find? accepts).getD 400

/-- The `n` of `Number::toString`: the ratio lies in [10^(n-1), 10^n). -/
def magnitude (num den : Nat) : Int :=
  if den ≤ num then least fun n => num < 10 ^ n * den
  else 1 - (least fun n => den ≤ 10 ^ n * num : Nat)

/-- The two integers around the ratio divided by `10 ^ e`, the nearest first. -/
def around (num den : Nat) (e : Int) : List Nat :=
  let top := num * 10 ^ (-e).toNat
  let bottom := den * 10 ^ e.toNat
  let floor := top / bottom
  if 2 * (top % bottom) < bottom then [floor, floor + 1] else [floor + 1, floor]

/-- The shortest `s * 10 ^ e` that reads back as the number whose value is the ratio. -/
def shortest (n : Number) (num den : Nat) : Nat × Int :=
  let found := (List.range 17).findSome? fun kept =>
    let e := magnitude num den - (kept + 1 : Nat)
    ((around num den e).find? fun s => Float.Model.ofScientific s e = n).map fun s => (s, e)
  match found with
  | some (s, e) => if s % 10 = 0 then (s / 10, e + 1) else (s, e)
  | none => (0, 0)

def zeros (count : Nat) : List Char := List.replicate count '0'

def render (s : Nat) (e : Int) : List Char :=
  let digits := (toString s).toList
  let k : Int := digits.length
  let n := k + e
  if k ≤ n ∧ n ≤ 21 then digits ++ zeros (n - k).toNat
  else if 0 < n ∧ n ≤ 21 then digits.take n.toNat ++ '.' :: digits.drop n.toNat
  else if -6 < n ∧ n ≤ 0 then '0' :: '.' :: zeros (-n).toNat ++ digits
  else
    let exponent := (if n < 1 then '-' else '+') :: (toString (n - 1).natAbs).toList
    match digits with
    | [digit] => digit :: 'e' :: exponent
    | digit :: rest => digit :: '.' :: rest ++ 'e' :: exponent
    | [] => []

/-- `String(n)`. -/
protected def toString (n : Number) : String :=
  let signed (sign : Float.Model.UnpackedFloat.Sign) (text : List Char) : String :=
    String.ofList (match sign with | .positive => text | .negative => '-' :: text)
  match n.unpack with
  | .notANumber => "NaN"
  | .infinity sign => signed sign "Infinity".toList
  | .zero _ => "0"
  | .finite sign mantissa exponent _ =>
      let (s, e) := shortest (Float.Model.abs n) (mantissa * 2 ^ exponent.toNat) (2 ^ (-exponent).toNat)
      signed sign (render s e)

/-- `JSON.stringify` and jsonb keep a number, except for the sign of zero. -/
def stored (n : Number) : Number :=
  match n.unpack with
  | .zero _ => ofNat 0
  | _ => n

end Number

/-- `n + 1` of an integer that is a double: from 2^53 on the sum is rounded, to even. -/
def increment (n : Nat) : Nat :=
  if n < 2 ^ 53 then n + 1 else if n < 2 ^ 54 ∧ n % 4 = 2 then n + 2 else n

/-- White space and line terminators, what `trim` removes. -/
def isSpace (c : Char) : Bool :=
  c.val ∈ [0x09, 0x0A, 0x0B, 0x0C, 0x0D, 0x20, 0xA0, 0x1680, 0x2028, 0x2029, 0x202F, 0x205F, 0x3000, 0xFEFF]
    || (0x2000 ≤ c.val && c.val ≤ 0x200A)

def strip (blank : Char → Bool) (text : String) : String :=
  String.ofList ((text.toList.dropWhile blank).reverse.dropWhile blank).reverse

def trim (text : String) : String := strip isSpace text

def isDigit (c : Char) : Bool := '0' ≤ c && c ≤ '9'

/-- `/^\d+$/`. -/
def isDigits (text : String) : Bool := !text.isEmpty && text.toList.all isDigit

/-- `/^[1-9]\d*$/`. -/
def isFieldId (text : String) : Bool := isDigits text && text.toList.head? != some '0'

def natOfDigits (digits : List Char) : Nat := digits.foldl (fun n c => 10 * n + (c.val.toNat - 48)) 0

/-- `Number(text)` where the text is a string of digits that names a field: no field id
reaches the numbers at which doubles round. -/
def fieldNumber (text : String) : Nat := natOfDigits text.toList

/-- `Number(text)` for text matching `/^-?\d+(\.\d+)?$/` once trimmed. -/
def parseDecimal (text : String) : Option Number :=
  let chars := (trim text).toList
  let (negative, digits) := match chars with
    | '-' :: rest => (true, rest)
    | _ => (false, chars)
  let whole := digits.takeWhile isDigit
  let number (fraction : List Char) : Number :=
    Number.negate negative (Float.Model.ofScientific (natOfDigits (whole ++ fraction)) (-fraction.length))
  if whole.isEmpty then none
  else
    match digits.dropWhile isDigit with
    | [] => some (number [])
    | '.' :: fraction => if !fraction.isEmpty && fraction.all isDigit then some (number fraction) else none
    | _ => none

/-- `YYYY-MM-DD` of a day there is. -/
def isDate (text : String) : Bool :=
  match text.toList with
  | [y1, y2, y3, y4, '-', m1, m2, '-', d1, d2] =>
      let year := natOfDigits [y1, y2, y3, y4]
      let month := natOfDigits [m1, m2]
      let day := natOfDigits [d1, d2]
      let leap := year % 4 = 0 ∧ (year % 100 ≠ 0 ∨ year % 400 = 0)
      let days := if month = 2 then if leap then 29 else 28 else if month ∈ [4, 6, 9, 11] then 30 else 31
      [y1, y2, y3, y4, m1, m2, d1, d2].all isDigit && decide (1 ≤ month ∧ month ≤ 12 ∧ 1 ≤ day ∧ day ≤ days)
  | _ => false

inductive Json where
  | null
  | boolean (value : Bool)
  | number (value : Number)
  | string (value : String)
  | array (elements : List Json)
  | object (members : List (String × Json))

abbrev Uuid := Nat

abbrev Time := Nat

def padded (width n : Nat) : List Char :=
  let digits := (toString n).toList
  Number.zeros (width - digits.length) ++ digits

/-- `Date.prototype.toISOString`; the civil date by eras of 400 years from 1 March 0000. -/
def toISOString (time : Time) : String :=
  let day := time / 86400000 + 719468
  let ofEra := day % 146097
  let yearOfEra := (ofEra - ofEra / 1460 + ofEra / 36524 - ofEra / 146096) / 365
  let ofYear := ofEra - (365 * yearOfEra + yearOfEra / 4 - yearOfEra / 100)
  let march := (5 * ofYear + 2) / 153
  let month := if march < 10 then march + 3 else march - 9
  let year := yearOfEra + day / 146097 * 400 + if month ≤ 2 then 1 else 0
  String.ofList (padded 4 year ++ '-' :: padded 2 month ++
    '-' :: padded 2 (ofYear - (153 * march + 2) / 5 + 1) ++
    'T' :: padded 2 (time / 3600000 % 24) ++ ':' :: padded 2 (time / 60000 % 60) ++
    ':' :: padded 2 (time / 1000 % 60) ++ '.' :: padded 3 (time % 1000) ++ ['Z'])

/-- The text of a uuid, as `id::text` gives it. -/
def uuidText (id : Uuid) : String :=
  let hex := Nat.toDigits 16 id
  let digits := Number.zeros (32 - hex.length) ++ hex
  let part (first count : Nat) := (digits.drop first).take count
  String.ofList (part 0 8 ++ '-' :: part 8 4 ++ '-' :: part 12 4 ++ '-' :: part 16 4 ++ '-' :: part 20 12)

def isHex (c : Char) : Bool := isDigit c || ('a' ≤ c && c ≤ 'f') || ('A' ≤ c && c ≤ 'F')

/-- `UUID.test`. -/
def isUuid (text : String) : Bool :=
  let chars := text.toList
  chars.length == 36 &&
    (chars.zipIdx.all fun (c, i) => if i ∈ [8, 13, 18, 23] then c == '-' else isHex c)

def hexDigit (c : Char) : Nat :=
  if isDigit c then c.val.toNat - 48 else if 'a' ≤ c then c.val.toNat - 87 else c.val.toNat - 55

/-- `text::uuid`, of text that is one. -/
def uuidOf (text : String) : Uuid := (text.toList.filter isHex).foldl (fun n c => 16 * n + hexDigit c) 0

/-- `uuidv7()`: the milliseconds in the top 48 bits, then the version, the variant and 74
random bits. -/
def uuidv7 (ms : Time) (a : BitVec 12) (b : BitVec 62) : Uuid :=
  ms % 2 ^ 48 * 2 ^ 80 + 7 * 2 ^ 76 + a.toNat * 2 ^ 64 + 2 * 2 ^ 62 + b.toNat

/-- `0x`, `0o` and `0b` numerals, without the mark. -/
def integerOf (radix : Nat) (digits : List Char) : Option Number :=
  if !digits.isEmpty && digits.all fun c => isHex c && decide (hexDigit c < radix) then
    some (Number.ofNat (digits.foldl (fun n c => radix * n + hexDigit c) 0))
  else none

def signOf : List Char → Bool × List Char
  | '-' :: rest => (true, rest)
  | '+' :: rest => (false, rest)
  | chars => (false, chars)

def exponentOf : List Char → Option Int
  | [] => some 0
  | mark :: rest =>
      let (negative, digits) := signOf rest
      if mark ∈ ['e', 'E'] ∧ !digits.isEmpty ∧ digits.all isDigit then
        some (if negative then -(natOfDigits digits : Int) else natOfDigits digits)
      else none

/-- The digits after a point, and what follows them. -/
def fractionOf : List Char → List Char × List Char
  | '.' :: rest => (rest.takeWhile isDigit, rest.dropWhile isDigit)
  | chars => ([], chars)

def decimalOf (chars : List Char) : Option Number :=
  let (negative, digits) := signOf chars
  let whole := digits.takeWhile isDigit
  let (fraction, rest) := fractionOf (digits.dropWhile isDigit)
  if whole.isEmpty && fraction.isEmpty then none
  else (exponentOf rest).map fun e =>
    Number.negate negative (Float.Model.ofScientific (natOfDigits (whole ++ fraction)) (e - fraction.length))

/-- `Number(text)` of text that is not blank; none if it is NaN or `Infinity` by name. -/
def toNumber (text : String) : Option Number :=
  match (trim text).toList with
  | '0' :: mark :: digits =>
      if mark ∈ ['x', 'X'] then integerOf 16 digits
      else if mark ∈ ['o', 'O'] then integerOf 8 digits
      else if mark ∈ ['b', 'B'] then integerOf 2 digits
      else decimalOf ('0' :: mark :: digits)
  | chars => decimalOf chars

end OpenEmarsys.Javascript
