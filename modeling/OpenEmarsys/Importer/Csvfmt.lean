import OpenEmarsys.Golang.Csv
import OpenEmarsys.Golang.Utf8
import Mathlib.Data.List.Infix
import Mathlib.Logic.Function.Basic

/-! The format of an uploaded file: what `sniff` guesses of it, and how it is read.

`sniff` counts each byte of the first line that stands outside quotes, and takes the most frequent delimiter.
-/

set_option autoImplicit false

namespace OpenEmarsys.Importer

open Golang

def sampleSize : Nat := 1048576

/-- `,`, `;`, tab and `|`. -/
def delimiters : List UInt8 := [0x2C, 0x3B, 0x09, 0x7C]

inductive Encoding where
  | utf8
  | latin1
  deriving DecidableEq

/-- `charmap.ISO8859_1`. -/
def decodeLatin1 (text : Bytes) : Bytes :=
  text.flatMap fun c => if c < 0x80 then [c]
    else [(0xC0 : UInt8) ||| (c >>> 6), (0x80 : UInt8) ||| (c &&& 0x3F)]

def mark : Bytes := [0xEF, 0xBB, 0xBF]

/-- The records that `newCSVReader` yields. -/
def newCSVReader (text : Bytes) (delim : UInt8) (enc : Encoding) : List (List Bytes) :=
  let decoded := if enc = .latin1 then decodeLatin1 text else text
  let content := if mark.isPrefixOf decoded then decoded.drop 3 else decoded
  Csv.readAll delim content

theorem prefix_of_append {short name tail : Bytes} {stop : UInt8} (other : stop ∉ short)
    (starts : short <+: name ++ stop :: tail) :
    short <+: name := by
  induction name generalizing short with
  | nil =>
    cases short with
    | nil => exact List.nil_prefix
    | cons c more =>
      obtain ⟨same, -⟩ := List.cons_prefix_cons.mp starts
      exact absurd (same ▸ List.mem_cons_self ..) other
  | cons c name ih =>
    cases short with
    | nil => exact List.nil_prefix
    | cons first more =>
      rw [List.cons_append] at starts
      obtain ⟨rfl, later⟩ := List.cons_prefix_cons.mp starts
      exact List.cons_prefix_cons.mpr ⟨rfl, ih (fun member => other (List.mem_cons_of_mem _ member)) later⟩

/-- `bytes.TrimPrefix`. -/
def trimMark (sample : Bytes) : Bytes := if mark.isPrefixOf sample then sample.drop 3 else sample

/-- At most so many bytes less, until the sample is valid. -/
def trimmed : Nat → Bytes → Bytes
  | 0, sample => sample
  | tries + 1, sample => if !valid sample && 0 < sample.length then trimmed tries sample.dropLast else sample

def UTFMax : Nat := 4

def count : Bool → (UInt8 → Nat) → Bytes → (UInt8 → Nat)
  | _, counts, [] => counts
  | inQuotes, counts, b :: rest =>
      if b = Csv.quote then count (!inQuotes) counts rest
      else if b = Csv.newline ∧ inQuotes = false then counts
      else if inQuotes = false then count inQuotes (Function.update counts b (counts b + 1)) rest
      else count inQuotes counts rest

/-- The delimiter with the highest count so far, and that count. -/
def better (counts : UInt8 → Nat) (best : UInt8 × Nat) (d : UInt8) : UInt8 × Nat :=
  if best.2 < counts d then (d, counts d) else best

def sniff (sample : Bytes) (truncated : Bool) : UInt8 × Encoding :=
  let sample := trimMark sample
  let counts := count false (fun _ => 0) sample
  ((delimiters.foldl (better counts) (0x2C, 0)).1,
    if valid (if truncated then trimmed UTFMax sample else sample) then .utf8 else .latin1)

/-- The first bytes of the object, and whether the file is longer. -/
def readSample (file : Bytes) : Bytes × Bool :=
  if sampleSize < (file.take (sampleSize + 1)).length then (file.take sampleSize, true)
    else (file.take (sampleSize + 1), false)

end OpenEmarsys.Importer
