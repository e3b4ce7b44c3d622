import OpenEmarsys.Interleaving.Runs

/-! `ContactStreamService.stream` and the response it writes to.

The loop suspends after a chunk that the response could not take at once, until the response drains. It
looks at its flag for a closed response only between two batches.
-/

set_option autoImplicit false

namespace OpenEmarsys.Streaming

open Interleaving

inductive Query where
  | begin
  | setTenant
  | declare
  | fetch
  | commit
  | rollback
  deriving DecidableEq

inductive Act where
  /-- `let closed = out.destroyed`, and the listener that sets it. -/
  | attach
  | connect
  | query (query : Query)
  | listExists
  /-- From the reply to a FETCH to the next `await`: the check of the flag, and `out.write`. -/
  | push (chunk : String)
  /-- `await once(out, 'drain')`. -/
  | drain
  | release
  /-- `res.end()`. -/
  | finish
  /-- `res.destroy()`. -/
  | destroy
  deriving DecidableEq

inductive Progress where
  /-- The response has closed. -/
  | stopped
  | written
  /-- `out.write` returned false. -/
  | full
  deriving DecidableEq

inductive StreamError where
  | pool
  | query
  /-- The response emitted an error. -/
  | response
  | notFound
  deriving DecidableEq

def Reply : Act → Type
  | .connect => Except StreamError Unit
  | .query _ => Except StreamError Unit
  | .listExists => Except StreamError Bool
  | .push _ => Progress
  | .drain => Except StreamError Unit
  | _ => Unit

abbrev StreamScript (α : Type) := Script Act Reply StreamError α

def ask (act : Act) : StreamScript (Reply act) := Script.await act

def orThrow {α : Type} : Except StreamError α → StreamScript α
  | .ok value => pure value
  | .error error => throw error

def query (query : Query) : StreamScript Unit := do
  let reply : Except StreamError Unit ← ask (.query query)
  orThrow reply

def inTx {α : Type} (fn : StreamScript α) : StreamScript α := do
  query .begin
  query .setTenant
  let r ← fn
  query .commit
  pure r

/-- The `catch`, and the `finally` after it. -/
def rollback {α : Type} (error : StreamError) : StreamScript α := do
  let _ ← ask (.query .rollback)
  ask .release
  throw error

def withTx {α : Type} (fn : StreamScript α) : StreamScript α := do
  let connected : Except StreamError Unit ← ask .connect
  orThrow connected
  let r ← (inTx fn).handle rollback
  ask .release
  pure r

def BATCH : Nat := 500

/-- What the FETCHes of the cursor return, the last one aside. -/
def batches (lines : List String) : List (List String) :=
  (List.range ((lines.length + BATCH - 1) / BATCH)).map fun i => (lines.drop (i * BATCH)).take BATCH

def chunkOf (lines : List String) : String := "\n".intercalate lines ++ "\n"

/-- The loop, with the batches that the cursor has left. -/
def loop : List (List String) → StreamScript Unit
  | [] => query .fetch
  | batch :: rest => do
      query .fetch
      let progress : Progress ← ask (.push (chunkOf batch))
      match progress with
      | .stopped => pure ()
      | .written => loop rest
      | .full => do
          let drained : Except StreamError Unit ← ask .drain
          orThrow drained
          loop rest

/-- Writes one line per live contact; resolves when done or `out` closed. -/
def stream (lines : List String) : StreamScript Unit := do
  ask .attach
  withTx do
    query .declare
    loop (batches lines)

/-- A request, with the lines that its cursor selects. -/
structure Call where
  listId : Option String
  lines : List String

def listExists : StreamScript Bool := withTx do
  let found : Except StreamError Bool ← ask .listExists
  orThrow found

def checkList : Option String → StreamScript Unit
  | none => pure ()
  | some _ => do
      let there ← listExists
      if there then pure () else throw .notFound

/-- Once the headers are out, a failure cuts the connection. -/
def respond (lines : List String) : StreamScript Unit :=
  (do stream lines; ask .finish : StreamScript Unit).handle fun _ => ask .destroy

/-- `InternalContactsQueryController.export`. -/
def exportContacts (call : Call) : StreamScript Unit := do
  checkList call.listId
  respond call.lines

inductive Out where
  | writable
  /-- Destroyed, with `close` still to come; whether the call has seen it. -/
  | destroyed (seen : Bool)
  | closed
  deriving DecidableEq

/-- The flag `closed` of the call. -/
def Out.seen : Out → Bool
  | .writable => false
  | .destroyed seen => seen
  | .closed => true

structure Session where
  /-- A connection of the pool. -/
  held : Bool
  inTx : Bool
  /-- The last write returned false, and no `drain` has come since. -/
  needDrain : Bool
  deriving DecidableEq

def Session.none : Session := ⟨false, false, false⟩

def Session.after : (act : Act) → Reply act → Session → Session
  | .connect, .ok _, session => { session with held := true }
  | .query .begin, .ok _, session => { session with inTx := true }
  | .query .commit, .ok _, session => { session with inTx := false }
  -- a session whose ROLLBACK fails is lost, and the server ends its transaction
  | .query .rollback, _, session => { session with inTx := false }
  | .push _, .full, session => { session with needDrain := true }
  | .push _, _, session => { session with needDrain := false }
  | .drain, _, session => { session with needDrain := false }
  | .release, _, session => { session with held := false }
  | _, _, session => session

structure State where
  /-- Connections of the pool that nobody holds. -/
  idle : Nat
  outs : Nat → Out
  sessions : Nat → Session

inductive Choice where
  | ok
  | fail
  /-- What `listExists` finds. -/
  | found (there : Bool)
  /-- What `out.write` returns. -/
  | wrote (all : Bool)
  /-- The client goes away. -/
  | cut
  /-- `close` is emitted. -/
  | close

def answer (idle : Nat) (out : Out) : (act : Act) → Choice → Option (Reply act)
  | .connect, .ok => if 0 < idle then some (.ok ()) else none
  | .connect, .fail => some (.error .pool)
  | .query _, .ok => some (.ok ())
  | .query _, .fail => some (.error .query)
  | .listExists, .found there => some (.ok there)
  | .listExists, .fail => some (.error .query)
  | .push _, .wrote all =>
      if out.seen then some .stopped
      else if out = .writable ∧ all then some .written
      else some .full
  -- no `drain` comes from a response that has closed
  | .drain, .ok => if out = .closed then none else some (.ok ())
  | .drain, .fail => if out = .closed then none else some (.error .response)
  | .attach, .ok => some ()
  | .release, .ok => some ()
  | .finish, .ok => some ()
  | .destroy, .ok => some ()
  | _, _ => none

def Out.after : Act → Out → Out
  | .attach, .destroyed _ => .destroyed true
  | .destroy, .writable => .destroyed false
  | _, out => out

def idleAfter : (act : Act) → Reply act → Nat → Nat
  | .connect, .ok _, idle => idle - 1
  | .release, _, idle => idle + 1
  | _, _, idle => idle

def State.after (pid : Nat) (act : Act) (reply : Reply act) (state : State) : State where
  idle := idleAfter act reply state.idle
  outs := Function.update state.outs pid ((state.outs pid).after act)
  sessions := Function.update state.sessions pid ((state.sessions pid).after act reply)

def machine : Machine Act Reply Choice State where
  act pid act choice state := (answer state.idle (state.outs pid) act choice).map
    fun reply => (reply, state.after pid act reply)
  disturb pid choice state :=
    match choice, state.outs pid with
    | .cut, .writable => some { state with outs := Function.update state.outs pid (.destroyed false) }
    | .close, .destroyed _ => some { state with outs := Function.update state.outs pid .closed }
    | _, _ => none
  -- the server ends the session of a process that dies
  crash pid state := { state with sessions := Function.update state.sessions pid .none }

end OpenEmarsys.Streaming
