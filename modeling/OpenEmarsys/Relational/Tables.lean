import OpenEmarsys.Contacts.Rows
import OpenEmarsys.Interleaving.Endings
import OpenEmarsys.Interleaving.Triples

/-! `RelationalService`: the tables of a tenant, and how columns are added to them.

`update` reads a table with one statement and writes it back with another, each a transaction of its
own. Between the two other calls do the same.
-/

set_option autoImplicit false

namespace OpenEmarsys.Relational

open Interleaving Javascript
open Contacts (FieldType)

/-- `ColumnInput`; a choice column lists the option IDs it accepts. -/
structure Column where
  name : String
  type : FieldType
  choices : Option (List Nat)
  deriving DecidableEq

structure Table where
  id : Uuid
  name : String
  keyField : String
  columns : List Column
  deriving DecidableEq

abbrev Tables := List Table

def Tables.get (tables : Tables) (id : Uuid) : Option Table := tables.find? fun table => table.id == id

inductive DbError where
  /-- `P2002`. -/
  | unique
  /-- `P2025`. -/
  | missing
  | other
  deriving DecidableEq

/-- The statements, each in its own transaction. -/
inductive Act where
  | findUnique (id : Uuid)
  | update (id : Uuid) (name : Option String) (columns : List Column)

def Reply : Act → Type
  | .findUnique _ => Except DbError (Option Table)
  | .update .. => Except DbError Table

inductive Choice where
  | answer
  | fail
  /-- The statement is committed and its reply is lost. -/
  | lose

def Table.write (name : Option String) (columns : List Column) (table : Table) : Table :=
  { table with name := name.getD table.name, columns }

def Tables.write (tables : Tables) (id : Uuid) (name : Option String) (columns : List Column) : Tables :=
  tables.map fun table => if table.id = id then table.write name columns else table

def Tables.taken (tables : Tables) (id : Uuid) (name : String) : Bool :=
  tables.any fun table => table.id ≠ id && table.name == name

def answer (tables : Tables) : (act : Act) → Choice → Option (Reply act × Tables)
  | .findUnique id, .answer => some (.ok (tables.get id), tables)
  | .findUnique _, .fail => some (.error .other, tables)
  | .update id name columns, choice =>
      match tables.get id with
      | none => some (.error .missing, tables)
      | some table =>
          if name.any (tables.taken id) then some (.error .unique, tables)
          else
            match choice with
            | .answer => some (.ok (table.write name columns), tables.write id name columns)
            | .fail => some (.error .other, tables)
            | .lose => some (.error .other, tables.write id name columns)
  | _, _ => none

/-- The tables, with what has happened to their columns. -/
structure State where
  tables : Tables
  /-- How often the columns of a table have changed. A history variable. -/
  changes : Uuid → Nat := fun _ => 0
  /-- How often they had, when a process read a table last. A history variable. -/
  seen : Nat → Nat := fun _ => 0

def Tables.columns (tables : Tables) (id : Uuid) : Option (List Column) := (tables.get id).map Table.columns

/-- A call of a process has left these tables. -/
def State.after (state : State) (pid : Nat) (act : Act) (tables : Tables) : State :=
  match act with
  | .findUnique id => { state with tables, seen := Function.update state.seen pid (state.changes id) }
  | .update id _ _ =>
      if tables.columns id = state.tables.columns id then { state with tables }
      else { state with tables, changes := Function.update state.changes id (state.changes id + 1) }

def machine : Machine Act Reply Choice State where
  act pid act choice state := (answer state.tables act choice).map
    fun (reply, tables) => (reply, state.after pid act tables)
  disturb _ _ _ := none
  crash _ state := state

inductive Failure where
  | publicApi (code : Nat) (text : String) (status : Nat)
  | conflict (text : String)
  | database (error : DbError)
  deriving DecidableEq

abbrev RelationalScript (α : Type) := Script Act Reply Failure α

def ask (act : Act) : RelationalScript (Reply act) := Script.await act

def nameInUse (name : String) : Failure := .conflict s!"relational table {name} already exists"

def tableNotFound (id : String) : Failure := .publicApi 2017 s!"relational table {id} does not exist" 404

def findUnique (id : Uuid) : RelationalScript (Option Table) := do
  let found : Except DbError (Option Table) ← ask (.findUnique id)
  match found with
  | .ok table => pure table
  | .error error => throw (.database error)

def find (id : String) : RelationalScript (Option Table) :=
  if isUuid id then findUnique (uuidOf id) else pure none

/-- 2017 unless the table exists in the tenant; a malformed ID is the same as a missing one. -/
def get (id : String) : RelationalScript Table := do
  let table ← find id
  match table with
  | some table => pure table
  | none => throw (tableNotFound id)

structure TableUpdate where
  name : Option String
  add_columns : Option (List Column)
  deriving DecidableEq

def TableUpdate.added (input : TableUpdate) : List Column := input.add_columns.getD []

/-- A column has the name of one of the table, or of one before it in the request. -/
def columnExists (columns added : List Column) : Bool :=
  added.zipIdx.any fun (c, i) => (columns.map Column.name).contains c.name ||
    added.findIdx (fun o => o.name == c.name) != i

def saveColumns (id : Uuid) (input : TableUpdate) (columns : List Column) : RelationalScript Table := do
  let row : Except DbError Table ← ask (.update id input.name columns)
  match row with
  | .ok table => pure table
  | .error error => throw (if error = .unique then nameInUse (input.name.getD "") else .database error)

def update (id : String) (input : TableUpdate) : RelationalScript Table := do
  let table ← get id
  if columnExists table.columns input.added then throw (.conflict "column already exists")
  saveColumns (uuidOf id) input (table.columns ++ input.added)

structure Update where
  id : String
  input : TableUpdate
  deriving DecidableEq

def code (call : Update) : RelationalScript Table := update call.id call.input

end OpenEmarsys.Relational
