import Mathlib.Data.List.Sort
import OpenEmarsys.Postgres.Columns

/-! `Migrate`: the files of a directory, applied to a schema in the order of their names.

The rows are the catalog entries of the schema and its table `schema_migrations`, the versions
recorded there, and what the texts have done that were executed. Each execution of a text leaves a
row of its own, so that nothing but the versions keeps a file from being executed twice.
-/

set_option autoImplicit false

namespace OpenEmarsys.Migrations

open Postgres
open Interleaving (Script)

inductive Row where
  | schema
  | schemaMigrations
  | version (version : String)
  /-- The effects of one execution of a text, on everything but the versions. -/
  | effects (sqlBytes : String) (execution : Nat)
  deriving DecidableEq, Repr

instance : Indexed Row where
  Key := Row
  decideKey := inferInstance
  primary := id
  uniques _ := []

/-- Catalog entries, and what migrations are about. -/
inductive Area where
  | catalog
  | migrations
  deriving DecidableEq

instance : Tabled Row where
  Table := Area
  decideTable := inferInstance
  table
    | .schema => .catalog
    | .schemaMigrations => .catalog
    | .version _ => .migrations
    | .effects .. => .migrations

inductive Cause where
  | sql (error : SqlError)
  | unreadable
  /-- The server refuses a statement of a text. -/
  | refused
  deriving DecidableEq, Repr

structure MigrateError where
  text : String
  cause : Cause
  deriving DecidableEq, Repr

instance : ClientError MigrateError := ⟨fun error => ⟨"", .sql error⟩⟩

inductive Label where
  | ensure
  | apply (version : String)
  deriving DecidableEq

inductive Request where
  /-- A text is refused, or carried out, with a number for this execution. -/
  | exec (sqlBytes : String)

abbrev Request.Reply : Request → Type
  | .exec _ => Option Nat

abbrev MigrateScript (α : Type) := Client Row Label Request.Reply MigrateError α

/-- The entries at the root of a file system; a directory has no text. -/
structure FS where
  entries : List (String × Option String)
  distinct : (entries.map Prod.fst).Nodup

def suffix : List Char := ".sql".toList

def isSql (name : String) : Bool := suffix.isSuffixOf name.toList

/-- `fs.Glob(migrations, "*.sql")`, sorted. -/
def FS.files (migrations : FS) : List String :=
  ((migrations.entries.map Prod.fst).filter isSql).insertionSort (· ≤ ·)

def FS.readFile (migrations : FS) (name : String) : Option String :=
  (migrations.entries.find? (·.1 == name)).bind Prod.snd

/-- `strings.TrimSuffix(path.Base(name), ".sql")`; at the root the base of a name is the name. -/
def versionOf (name : String) : String :=
  if isSql name then String.ofList (name.toList.take (name.toList.length - suffix.length)) else name

section Scripts
variable {α : Type}

/-- `fmt.Errorf("…: %w", err)`. -/
def wrapped (text : String) (script : MigrateScript α) : MigrateScript α :=
  Script.handle script fun error => throw { error with text := text ++ error.text }

def inSystemTx (label : Label) (fn : MigrateScript α) : MigrateScript α := do
  let (value, refused) ← inTx label fn
  match refused with
  | none => return value
  | some error => throw ⟨"pg: commit: ", .sql error⟩

end Scripts

/-- Looks for a catalog entry first: it may be there without the right to create one. It fails if another
process is faster, also with `IF NOT EXISTS`. -/
def create (row : Row) : MigrateScript Unit := do
  let found ← sql (.select (· == row))
  if found.isEmpty then
    let _ ← sql (.insert [row] false)
    return ()
  else return ()

def ensureTable : MigrateScript Unit :=
  inSystemTx .ensure do
    create .schema
    create .schemaMigrations

section
-- the statements on `schema_migrations` that the server finds in a text
variable (touching : String → List (Statement Row))

def execEach : List (Statement Row) → MigrateScript Unit
  | [] => return ()
  | statement :: rest => do
      let _ ← sql statement
      execEach rest

/-- `tx.Exec` of a text: what the server does with it. -/
def exec (sqlBytes : String) : MigrateScript Unit := do
  match ← ask (.exec sqlBytes) with
  | none => throw ⟨"", .refused⟩
  | some execution =>
      let _ ← sql (.insert [.effects sqlBytes execution] false)
      execEach (touching sqlBytes)

def applyFile (migrations : FS) (name : String) : MigrateScript Unit :=
  inSystemTx (.apply (versionOf name)) do
    let applied ← wrapped "check applied: " (sql (.select (· == .version (versionOf name))))
    if applied.isEmpty then
      match migrations.readFile name with
      | none => throw ⟨"read: ", .unreadable⟩
      | some sqlBytes =>
          wrapped "exec: " (exec touching sqlBytes)
          let _ ← wrapped "record: " (sql (.insert [.version (versionOf name)] false))
          return ()
    else return ()

def applyAll (migrations : FS) : List String → MigrateScript Unit
  | [] => return ()
  | name :: rest => do
      wrapped ("pg: migration " ++ versionOf name ++ ": ") (applyFile touching migrations name)
      applyAll migrations rest

def migrate (schema : String) (migrations : FS) : MigrateScript Unit := do
  wrapped ("pg: ensure migrations table for schema " ++ schema ++ ": ") ensureTable
  applyAll touching migrations migrations.files

/-- Every process migrates the same schema with the same files. -/
def code (schema : String) (migrations : FS) (_ : Unit) : MigrateScript Unit :=
  migrate touching schema migrations

end

abbrev World := Nat

inductive Choice where
  | plain
  | refused

def respond (_ : Tid) : (request : Request) → Choice → Shared Row Label World → Option (request.Reply × World)
  | .exec _, .plain, shared => some (some shared.world, shared.world + 1)
  | .exec _, .refused, shared => some (none, shared.world)

abbrev State := Shared Row Label World

abbrev Config := Interleaving.Config Unit (Action Row Label Request)
    (Answer Request.Reply) MigrateError Unit State

def initial (rows : List Row) : Config := .start ⟨.holding rows, 0⟩

abbrev Log := List (Commit Row Label)

end OpenEmarsys.Migrations
