import OpenEmarsys.Golang.Csv
import OpenEmarsys.Golang.Json

/-! The columns of an export: how a value prints, and how the contact stream becomes a CSV file. -/

set_option autoImplicit false

namespace OpenEmarsys.Exports

open Golang

structure Column where
  id : Int
  name : Bytes
  /-- Option ID to label in the tenant locale; nil unless a choice field. -/
  labels : Option (Int → Option Bytes)

namespace Column

def label (c : Column) (id : Int) : Bytes := ((c.labels.bind fun labels => labels id)).getD
    (RawMessage.itoa id)

/-- An element of a `[]int`. -/
def asInt : RawMessage → Option Int
  | .literal text => if text = utf8 "null" then some 0 else RawMessage.parseInt text
  | _ => none

/-- A value of `Fields`, which may be missing. -/
def render (c : Column) : Option RawMessage → Bytes
  | none => []
  | some (.literal text) =>
      if text = utf8 "null" then []
      else match RawMessage.parseInt text, c.labels with
        | some id, some _ => c.label id
        | _, _ => text
  | some (.string text) => RawMessage.unquote text
  | some (.array text elements) =>
      match elements.mapM asInt with
      | none => text
      | some ids => (utf8 "; ").intercalate (ids.map c.label)
  | some (.object text _) => text

def key (c : Column) : Bytes := RawMessage.itoa c.id

end Column

/-- A line of the stream, less what is not read of it. -/
structure Contact where
  fields : Bytes → Option RawMessage

def Contact.none : Contact := ⟨fun _ => Option.none⟩

def setField (fields : Bytes → Option RawMessage) (member : Bytes × RawMessage) : Bytes → Option RawMessage :=
  Function.update fields (RawMessage.unquote member.1) (some member.2)

def Contact.set (contact : Contact) (member : Bytes × RawMessage) : Option Contact :=
  if RawMessage.names "fields" member.1 then
    match member.2 with
    -- members of two objects end in one map
    | .object _ members => some ⟨members.foldl setField contact.fields⟩
    | .literal text => if text = utf8 "null" then some .none else Option.none
    | _ => Option.none
  else some contact

/-- `json.Unmarshal(line, &c)`. -/
def unmarshal (line : Bytes) : Option Contact :=
  match RawMessage.parse line with
  | some (.object _ members) => members.foldlM Contact.set .none
  | some (.literal text) => if text = utf8 "null" then some .none else Option.none
  | _ => Option.none

/-- What the reader of the stream gives, and whether it ends with an error. -/
structure Body where
  bytes : Bytes
  broken : Bool

inductive WriteError where
  | read
  | truncated
  | badLine
  deriving DecidableEq

structure Written where
  text : Bytes
  /-- What has not been handed to the reporter. -/
  pending : Nat
  /-- What has. -/
  added : List Nat

def comma : UInt8 := 0x2C

def flushRows : Nat := 1000

def header (cols : List Column) : List Bytes := cols.map Column.name

def row (cols : List Column) (contact : Contact) : List Bytes :=
  cols.map fun col => col.render (contact.fields col.key)

def Written.add (w : Written) (cols : List Column) (contact : Contact) : Written :=
  let text := w.text ++ Csv.write comma (row cols contact)
  if w.pending + 1 = flushRows then ⟨text, 0, w.added ++ [w.pending + 1]⟩ else ⟨text, w.pending + 1, w.added⟩

/-- The loop, with what has been read of the current line. -/
def writeLines (cols : List Column) (broken : Bool) : Written → Bytes → Bytes → Except WriteError Written
  | w, line, [] =>
      if broken then .error .read
      else if line = [] then .ok { w with pending := 0, added := w.added ++ [w.pending] }
      else .error .truncated
  | w, line, c :: rest =>
      if c = Csv.newline then
        match unmarshal (line ++ [c]) with
        | none => .error .badLine
        | some contact => writeLines cols broken (w.add cols contact) [] rest
      else writeLines cols broken w (line ++ [c]) rest

def writeCSV (ndjson : Body) (cols : List Column) : Except WriteError Written :=
  writeLines cols ndjson.broken ⟨Csv.write comma (header cols), 0, []⟩ [] ndjson.bytes

end OpenEmarsys.Exports
