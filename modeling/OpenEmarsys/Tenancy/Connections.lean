import OpenEmarsys.Interleaving.Triples
import OpenEmarsys.Tenancy.Scope

/-! `createKysely`: a driver that scopes what runs on the connections of a pool.

A connection is held by one caller from its acquisition to its release, and used by it for one call
after the other; callers interleave between any two statements. Any statement can fail, and a
connection can be lost at any time. Queries read and write rows: the statements that begin and end
transactions or scope them are the driver's own.
-/

set_option autoImplicit false

namespace OpenEmarsys.Tenancy

open Interleaving (Script)

abbrev ConnId := Nat

inductive DriverError where
  | thrown (message : String)
  | database
  deriving DecidableEq, Repr

inductive Sql where
  | begin
  | commit
  | rollback
  /-- The statement that scopes a transaction. -/
  | scope (statement : Statement)
  /-- A query, with the context in which its transaction began, or it did itself. A history variable. -/
  | query (query : Statement) (began : AsyncContext)

inductive Backend where
  | idle
  /-- In a transaction with these scoping statements, which refuses everything after an error. -/
  | opened (scopes : Transaction) (aborted : Bool)
  | dead
  deriving DecidableEq

inductive Outcome (R : Type) where
  | replies (result : R)
  /-- An error of the server, or of the client before it has sent anything. -/
  | fails (sent : Bool)
  | lost

namespace Backend
variable {R : Type}

def isOpen : Backend → Bool
  | .opened _ _ => true
  | _ => false

def abort : Backend → Backend
  | .opened scopes _ => .opened scopes true
  | other => other

/-- A commit or a rollback that fails ends the transaction all the same. -/
def fail (sent : Bool) : Sql → Backend → Backend
  | .begin, backend => backend
  | .commit, _ => .idle
  | .rollback, _ => .idle
  | .scope _, backend => if sent then backend.abort else backend
  | .query _ _, backend => if sent then backend.abort else backend

/-- The state after a statement that is carried out, or none where the server refuses it. -/
def perform : Sql → Backend → Option Backend
  | .commit, _ => some .idle
  | .rollback, _ => some .idle
  | _, .opened _ true => none
  | .begin, .idle => some (.opened [] false)
  -- set for the current transaction only, so without one it is lost at once
  | .scope statement, .opened scopes false => some (.opened (scopes ++ [statement]) false)
  | _, backend => some backend

def execute (sql : Sql) (outcome : Outcome R) (backend : Backend) : Except DriverError R × Backend :=
  match backend, outcome with
  | .dead, _ => (.error .database, .dead)
  | _, .lost => (.error .database, .dead)
  | backend, .fails sent => (.error .database, backend.fail sent sql)
  | backend, .replies result =>
      match backend.perform sql with
      | some next => (.ok result, next)
      | none => (.error .database, backend)

end Backend

/-- A query that reached the database, and the scoping statements of the transaction it ran in. -/
structure Ran where
  query : Statement
  began : AsyncContext
  inside : Option Transaction

def Backend.runs {R : Type} : Sql → Outcome R → Backend → Option Ran
  | .query _ _, .fails false, _ => none
  | .query query began, _, .idle => some ⟨query, began, none⟩
  | .query query began, _, .opened scopes false => some ⟨query, began, some scopes⟩
  | _, _, _ => none

structure Pool where
  holder : ConnId → Option Nat
  /-- The field `inTransaction` of the `ScopedConnection` its holder has been given. -/
  inTransaction : ConnId → Bool
  backend : ConnId → Backend
  /-- The queries that have reached the database. A history variable. -/
  ran : List Ran

def Pool.fresh : Pool := ⟨fun _ => none, fun _ => false, fun _ => .idle, []⟩

def Pool.setBackend (pool : Pool) (conn : ConnId) (backend : Backend) : Pool :=
  { pool with backend := Function.update pool.backend conn backend }

inductive DriverCall (R : Type) where
  | acquireConnection
  | releaseConnection (conn : ConnId)
  | inTransaction (conn : ConnId)
  | setInTransaction (conn : ConnId) (value : Bool)
  | executeQuery (conn : ConnId) (sql : Sql)

abbrev DriverCall.Reply {R : Type} : DriverCall R → Type
  | .acquireConnection => Except DriverError ConnId
  | .releaseConnection _ => Unit
  | .inTransaction _ => Bool
  | .setInTransaction _ _ => Unit
  | .executeQuery _ _ => Except DriverError R

inductive Choice (R : Type) where
  | plain
  | connection (conn : ConnId)
  | outcome (outcome : Outcome R)

def respond {R : Type} (pid : Nat) : (call : DriverCall R) → Choice R → Pool → Option (call.Reply × Pool)
  | .acquireConnection, .connection conn, pool =>
      if pool.holder conn = none then
        some (.ok conn, { pool with
          holder := Function.update pool.holder conn (some pid)
          inTransaction := Function.update pool.inTransaction conn false })
      else none
  | .acquireConnection, .plain, pool => some (.error .database, pool)
  | .releaseConnection conn, .plain,
    pool => some ((), { pool with holder := Function.update pool.holder conn none })
  | .inTransaction conn, .plain, pool => some (pool.inTransaction conn, pool)
  | .setInTransaction conn value, .plain, pool =>
      some ((), { pool with inTransaction := Function.update pool.inTransaction conn value })
  | .executeQuery conn sql, .outcome outcome, pool =>
      let (reply, next) := (pool.backend conn).execute sql outcome
      some (reply,
        { pool.setBackend conn next with ran := pool.ran ++ ((pool.backend conn).runs sql outcome).toList })
  | _, _, _ => none

/-- Connections are lost, and calls whose promises never settle keep theirs. -/
def machine (R : Type) : Interleaving.Machine (DriverCall R) DriverCall.Reply (Choice R) Pool where
  act := respond
  disturb _ choice pool :=
    match choice with
    | .connection conn => some (pool.setBackend conn .dead)
    | _ => none
  crash _ pool := pool

abbrev DriverScript (R α : Type) := Script (DriverCall R) DriverCall.Reply DriverError α

section Driver
variable {R α : Type}

def attempt (script : DriverScript R α) : DriverScript R (Except DriverError α) :=
  Script.handle (do
    let value ← script
    return .ok value) fun err => return .error err

/-- `try … finally`. -/
def ensuring (body : DriverScript R α) (cleanup : DriverScript R Unit) : DriverScript R α := do
  let result ← attempt body
  cleanup
  match result with
  | .ok value => return value
  | .error err => throw err

def inTransaction (conn : ConnId) : DriverScript R Bool := Script.await (DriverCall.inTransaction conn)
def setInTransaction (conn : ConnId) (value : Bool) : DriverScript R Unit :=
  Script.await (DriverCall.setInTransaction conn value)

def inner (conn : ConnId) (sql : Sql) : DriverScript R R := do
  let reply : Except DriverError R ← Script.await (DriverCall.executeQuery conn sql)
  match reply with
  | .ok result => return result
  | .error err => throw err

section Scope
variable (systemRole : Option Role) (context : AsyncContext)

def scoping : DriverScript R (Option Statement) :=
  match scopeStatement systemRole context with
  | .ok statement => return statement
  | .error message => throw (.thrown message)

/-- A single query, in a transaction of its own unless one is open. -/
def executeQuery (conn : ConnId) (query : Statement) (began : AsyncContext) : DriverScript R R := do
  if ← inTransaction conn then inner conn (.query query began)
  else
    match ← scoping systemRole context with
    | none => inner conn (.query query began)
    | some statement =>
        let _ ← inner conn .begin
        Script.handle (do
          let _ ← inner conn (.scope statement)
          let result ← inner conn (.query query began)
          let _ ← inner conn .commit
          return result) fun err => do
            let _ ← attempt (inner conn .rollback)
            throw err

end Scope

def streamQuery (conn : ConnId) (query : Statement) (began : AsyncContext) : DriverScript R R := do
  if ← inTransaction conn then inner conn (.query query began)
  else throw (.thrown "streamQuery must run inside db.transaction()")

def commitTransaction (conn : ConnId) : DriverScript R Unit :=
  ensuring (do
    let _ ← inner conn .commit) (setInTransaction conn false)

def rollbackTransaction (conn : ConnId) : DriverScript R Unit :=
  ensuring (do
    let _ ← inner conn .rollback) (setInTransaction conn false)

/-- The scope is resolved before `begin`: Kysely does not roll back if this throws. -/
def beginTransaction (systemRole : Option Role) (context : AsyncContext) (conn : ConnId) :
    DriverScript R Unit := do
  let statement ← scoping systemRole context
  let _ ← inner conn .begin
  setInTransaction conn true
  match statement with
  | none => return ()
  | some statement =>
      Script.handle (do
        let _ ← inner conn (.scope statement)) fun err => do
          rollbackTransaction conn
          throw err

end Driver

/-- What the holder of a connection does with it, by what has come of it so far. It begins a transaction
outside one only, commits inside one only, and gives the connection back outside one. -/
inductive Session (R : Type) : (inTransaction : Bool) → Type where
  | release : Session R false
  | query {inTransaction : Bool} (context : AsyncContext) (query : Statement)
      (next : Except DriverError R → Session R inTransaction) : Session R inTransaction
  | stream {inTransaction : Bool} (context : AsyncContext) (query : Statement)
      (next : Except DriverError R → Session R inTransaction) : Session R inTransaction
  | begin (context : AsyncContext) (next : (begun : Bool) → Session R begun) : Session R false
  | commit (next : Bool → Session R false) : Session R true
  | rollback {inTransaction : Bool} (next : Bool → Session R false) : Session R inTransaction

/-- Carry a session out; `began` is the context in which its open transaction began. -/
def Session.run {R : Type} (systemRole : Option Role) (conn : ConnId) :
    {inTransaction : Bool} → AsyncContext → Session R inTransaction → DriverScript R Unit
  | _, _, .release => Script.await (DriverCall.releaseConnection conn)
  | inTransaction, began, .query context statement next => do
      let result ← attempt (executeQuery systemRole context conn statement (if inTransaction
        then began else context))
      Session.run systemRole conn began (next result)
  | inTransaction, began, .stream context statement next => do
      let result ← attempt (streamQuery conn statement (if inTransaction then began else context))
      Session.run systemRole conn began (next result)
  | _, _, .begin context next => do
      let result ← attempt (beginTransaction systemRole context conn)
      Session.run systemRole conn context (next result.isOk)
  | _, began, .commit next => do
      let result ← attempt (commitTransaction conn)
      Session.run systemRole conn began (next result.isOk)
  | _, began, .rollback next => do
      let result ← attempt (rollbackTransaction conn)
      Session.run systemRole conn began (next result.isOk)

/-- A caller takes a connection from the pool, uses it and gives it back. -/
def code {R : Type} (systemRole : Option Role) (session : Session R false) : DriverScript R Unit := do
  let acquired : Except DriverError ConnId ← Script.await DriverCall.acquireConnection
  match acquired with
  | .ok conn => session.run systemRole conn .empty
  | .error err => throw err

/-- `db.transaction().execute(callback)`, whose callback makes these queries: Kysely rolls back when the
callback or the commit has failed. -/
def Session.transaction {R : Type} (context : AsyncContext) (queries : List Statement) : Session R false :=
  let rollsBack {inTransaction : Bool} : Session R inTransaction := .rollback fun _ => .release
  let rec callback : List Statement → Session R true
    | [] => .commit fun
      | true => .release
      | false => rollsBack
    | first :: rest => .query context first fun
      | .ok _ => callback rest
      | .error _ => rollsBack
  .begin context fun
    | true => callback queries
    | false => .release

abbrev PoolConfig (R : Type) := Interleaving.Config (Session R false)
    (DriverCall R) DriverCall.Reply DriverError Unit Pool

end OpenEmarsys.Tenancy
