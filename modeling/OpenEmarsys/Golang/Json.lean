import OpenEmarsys.Golang.Utf8

/-! `encoding/json`: the scanner, and the values that `json.Unmarshal` finds in a text.

The scanner reads byte by byte, with a stack of the objects and arrays that are open. Each value keeps
its own text, which is what a `json.RawMessage` holds.
-/

set_option autoImplicit false

namespace OpenEmarsys.Golang

/-- A value and its text; `literal` is `null`, `true`, `false` or a number. -/
inductive RawMessage where
  | literal (text : Bytes)
  /-- With its quotes and escapes. -/
  | string (text : Bytes)
  | array (text : Bytes) (elements : List RawMessage)
  /-- The keys are texts too. -/
  | object (text : Bytes) (members : List (Bytes × RawMessage))

namespace RawMessage

def text : RawMessage → Bytes
  | literal text => text
  | string text => text
  | array text _ => text
  | object text _ => text

def isSpace (c : UInt8) : Bool := c == 0x20 || c == 0x09 || c == 0x0D || c == 0x0A

def isDigit (c : UInt8) : Bool := 0x30 ≤ c && c ≤ 0x39

def isHex (c : UInt8) : Bool := isDigit c || (0x61 ≤ c && c ≤ 0x66) || (0x41 ≤ c && c ≤ 0x46)

def isEscape (c : UInt8) : Bool := [0x62, 0x66, 0x6E, 0x72, 0x74, 0x5C, 0x2F, 0x22].contains c

inductive Step where
  | beginValueOrEmpty
  | beginValue
  | beginStringOrEmpty
  | beginString
  | endValue
  | endTop
  | inString
  | inStringEsc
  /-- How many hexadecimal digits are missing. -/
  | inStringEscU (missing : Nat)
  | neg
  | one
  | zero
  | dot
  | dot0
  | e
  | eSign
  | e0
  /-- What is missing of `true`, `false` or `null`. -/
  | word (missing : Bytes)

/-- An array or an object that is still open, and where it began. -/
inductive Frame where
  | array (start : Nat) (elements : List RawMessage)
  /-- The key is one that has no value yet. -/
  | object (start : Nat) (members : List (Bytes × RawMessage)) (key : Option Bytes)

structure Scanner where
  /-- What has been read. -/
  seen : Bytes
  step : Step
  /-- Where the current string, number or word began. -/
  start : Nat
  parseState : List Frame
  value : Option RawMessage

def maxNestingDepth : Nat := 10000

namespace Scanner

def new : Scanner := ⟨[], .beginValue, 0, [], none⟩

def finish (s : Scanner) (value : RawMessage) : Scanner :=
  match s.parseState with
  | [] => { s with step := .endTop, value := some value }
  | .array start elements :: outer =>
    { s with step := .endValue, parseState := .array start (elements ++ [value]) :: outer }
  | .object start members none :: outer =>
    { s with step := .endValue, parseState := .object start members (some value.text) :: outer }
  | .object start members (some key) :: outer =>
      { s with step := .endValue, parseState := .object start (members ++ [(key, value)]) none :: outer }

def pushParseState (s : Scanner) (frame : Frame) (step : Step) : Option Scanner :=
  if s.parseState.length < maxNestingDepth
    then some { s with step, parseState := frame :: s.parseState } else none

/-- The text from where something began to where the scanner is, `c` included. -/
def since (s : Scanner) (start : Nat) (c : UInt8) : Bytes := (s.seen ++ [c]).drop start

def popParseState (s : Scanner) (c : UInt8) : Option Scanner :=
  match s.parseState with
  | [] => none
  | .array start elements :: outer =>
    some ({ s with parseState := outer }.finish (.array (s.since start c) elements))
  | .object start members _ :: outer =>
    some ({ s with parseState := outer }.finish (.object (s.since start c) members))

def stateEndTop (s : Scanner) (c : UInt8) : Option Scanner := if isSpace c then some s else none

def stateEndValue (s : Scanner) (c : UInt8) : Option Scanner :=
  match s.parseState with
  | [] => s.stateEndTop c
  | frame :: _ =>
      if isSpace c then some { s with step := .endValue }
      else match frame with
        | .object _ _ (some _) => if c == 0x3A then some { s with step := .beginValue } else none
        | .object _ _ none =>
            if c == 0x2C then some { s with step := .beginString }
            else if c == 0x7D then s.popParseState c
            else none
        | .array _ _ =>
            if c == 0x2C then some { s with step := .beginValue }
            else if c == 0x5D then s.popParseState c
            else none

def begin (s : Scanner) (step : Step) : Option Scanner := some { s with step, start := s.seen.length }

def stateBeginValue (s : Scanner) (c : UInt8) : Option Scanner :=
  if isSpace c then some s
  else if c == 0x7B then s.pushParseState (.object s.seen.length [] none) .beginStringOrEmpty
  else if c == 0x5B then s.pushParseState (.array s.seen.length []) .beginValueOrEmpty
  else if c == 0x22 then s.begin .inString
  else if c == 0x2D then s.begin .neg
  else if c == 0x30 then s.begin .zero
  else if c == 0x74 then s.begin (.word (utf8 "rue"))
  else if c == 0x66 then s.begin (.word (utf8 "alse"))
  else if c == 0x6E then s.begin (.word (utf8 "ull"))
  else if isDigit c then s.begin .one
  else none

def stateBeginString (s : Scanner) (c : UInt8) : Option Scanner :=
  if isSpace c then some s
  else if c == 0x22 then s.begin .inString
  else none

def endNumber (s : Scanner) (c : UInt8) : Option Scanner :=
  (s.finish (.literal (s.seen.drop s.start))).stateEndValue c

def state0 (s : Scanner) (c : UInt8) : Option Scanner :=
  if c == 0x2E then some { s with step := .dot }
  else if c == 0x65 || c == 0x45 then some { s with step := .e }
  else s.endNumber c

def stateESign (s : Scanner) (c : UInt8) : Option Scanner :=
  if isDigit c then some { s with step := .e0 } else none

def dispatch (s : Scanner) (c : UInt8) : Option Scanner :=
  match s.step with
  | .beginValueOrEmpty => if c == 0x5D then s.popParseState c else s.stateBeginValue c
  | .beginValue => s.stateBeginValue c
  | .beginStringOrEmpty => if c == 0x7D then s.popParseState c else s.stateBeginString c
  | .beginString => s.stateBeginString c
  | .endValue => s.stateEndValue c
  | .endTop => s.stateEndTop c
  | .inString =>
      if c == 0x22 then some (s.finish (.string (s.since s.start c)))
      else if c == 0x5C then some { s with step := .inStringEsc }
      else if c < 0x20 then none
      else some s
  | .inStringEsc =>
      if isEscape c then some { s with step := .inString }
      else if c == 0x75 then some { s with step := .inStringEscU 3 }
      else none
  | .inStringEscU missing =>
      if isHex c then some { s with step := if missing = 0 then .inString else .inStringEscU (missing - 1) }
        else none
  | .neg => if c == 0x30 then some { s with step := .zero } else if isDigit c
    then some { s with step := .one } else none
  | .one => if isDigit c then some s else s.state0 c
  | .zero => s.state0 c
  | .dot => if isDigit c then some { s with step := .dot0 } else none
  | .dot0 =>
      if isDigit c then some s
      else if c == 0x65 || c == 0x45 then some { s with step := .e }
      else s.endNumber c
  | .e => if c == 0x2B || c == 0x2D then some { s with step := .eSign } else s.stateESign c
  | .eSign => s.stateESign c
  | .e0 => if isDigit c then some s else s.endNumber c
  | .word [] => none
  | .word [last] => if c == last then some (s.finish (.literal (s.since s.start c))) else none
  | .word (first :: rest) => if c == first then some { s with step := .word rest } else none

def read (s : Scanner) (c : UInt8) : Option Scanner := (s.dispatch c).map
    fun after => { after with seen := s.seen ++ [c] }

end Scanner

/-- The value of a text, if the text is valid. A blank ends a number at the end of the text. -/
def parse (text : Bytes) : Option RawMessage :=
  ((text ++ [0x20]).foldlM Scanner.read Scanner.new).bind Scanner.value

/-- `utf8.AppendRune`. -/
def encodeRune (rune : Nat) : Bytes := utf8 (String.singleton (Char.ofNat rune))

def replacementChar : Nat := 0xFFFD

def hexValue (c : UInt8) : Nat :=
  if isDigit c then c.toNat - 0x30 else if 0x61 ≤ c then c.toNat - 0x61 + 10 else c.toNat - 0x41 + 10

/-- The four digits of a `\u` at the start of a text. -/
def getu4 : Bytes → Option Nat
  | 0x5C :: 0x75 :: a :: b :: c :: d :: _ =>
      if [a, b, c, d].all isHex
        then some (((hexValue a * 16 + hexValue b) * 16 + hexValue c) * 16 + hexValue d) else none
  | _ => none

/-- `utf16.DecodeRune`: two halves of a pair, or nothing. -/
def decodeRune (high low : Nat) : Option Nat :=
  if 0xD800 ≤ high ∧ high < 0xDC00 ∧ 0xDC00 ≤ low ∧ low < 0xE000
  then some ((high - 0xD800) * 0x400 + (low - 0xDC00) + 0x10000) else none

def unescape (c : UInt8) : UInt8 :=
  if c == 0x62 then 0x08
  else if c == 0x66 then 0x0C
  else if c == 0x6E then 0x0A
  else if c == 0x72 then 0x0D
  else if c == 0x74 then 0x09
  else c

/-- What the start of a string stands for, and how long it is. -/
def character (text : Bytes) : Bytes × Nat :=
  match getu4 text with
  | some rune =>
      if 0xD800 ≤ rune ∧ rune < 0xE000 then
        match (getu4 (text.drop 6)).bind (decodeRune rune) with
        | some pair => (encodeRune pair, 12)
        | none => (encodeRune replacementChar, 6)
      else (encodeRune rune, 6)
  | none =>
      match text with
      | 0x5C :: escaped :: _ => ([unescape escaped], 2)
      | _ =>
          let length := runeLength text
          if length = 0 then (encodeRune replacementChar, 1) else (text.take length, length)

def unescapeAll : Bytes → Bytes
  | [] => []
  | c :: rest => (character (c :: rest)).1 ++ unescapeAll (rest.drop ((character (c :: rest)).2 - 1))
  termination_by text => text.length
  decreasing_by simp only [List.length_drop, List.length_cons]; omega

def unquote (text : Bytes) : Bytes := unescapeAll ((text.drop 1).dropLast)

def digits (text : Bytes) : Option Nat :=
  if text ≠ [] ∧ text.all isDigit then some (text.foldl (fun n c => n * 10 + (c.toNat - 0x30)) 0) else none

/-- `strconv.ParseInt(text, 10, 64)`, of the text of a literal. -/
def parseInt (text : Bytes) : Option Int :=
  if text.head? = some 0x2D then (digits text.tail).bind fun n => if n ≤ 9223372036854775808
    then some (-n) else none
  else (digits text).bind fun n => if n < 9223372036854775808 then some n else none

def itoa (n : Int) : Bytes := utf8 (toString n)

/-- `foldName`, up to what no ASCII name is compared with. -/
def foldName : Bytes → Bytes
  -- `ſ` and the Kelvin sign
  | 0xC5 :: 0xBF :: rest => 0x53 :: foldName rest
  | 0xE2 :: 0x84 :: 0xAA :: rest => 0x4B :: foldName rest
  | c :: rest => (if 0x61 ≤ c && c ≤ 0x7A then c - 0x20 else c) :: foldName rest
  | [] => []

/-- A key of an object stands for the field of this name. -/
def names (name : String) (key : Bytes) : Bool := foldName (unquote key) == foldName (utf8 name)

end RawMessage

end OpenEmarsys.Golang
