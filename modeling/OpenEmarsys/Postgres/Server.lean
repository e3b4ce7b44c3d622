import OpenEmarsys.Interleaving.Runs
import OpenEmarsys.Postgres.Table

/-! A database server under READ COMMITTED, shared by interleaved scripts.

An open transaction keeps what it has changed and locked to itself until it
commits. A statement that modifies or locks rows looks for them in its snapshot
and checks its condition again on the rows as they are when it takes effect; a
statement that needs what another transaction holds has no outcome yet, so its
process waits. A process has at most one transaction open, so process and
transaction share their number.
-/

set_option autoImplicit false

namespace OpenEmarsys.Postgres

open Interleaving (Script)

abbrev Tid := Nat

/-- A row lock. `FOR UPDATE` and `DELETE` take a strong one, which also refuses `FOR KEY SHARE`. -/
structure Lock (Row : Type) [Indexed Row] where
  key : Key Row
  strong : Bool

structure Tx (Row Label : Type) [Indexed Row] where
  /-- None when no transaction is open. -/
  label : Option Label
  /-- How many transactions had committed when it began. A history variable. -/
  begun : Nat
  /-- The rows visible when the current statement started. -/
  snapshot : List Row
  /-- Primary keys of the committed rows it has deleted or superseded. -/
  removed : List (Key Row)
  added : List Row
  locks : List (Lock Row)
  shares : List (Key Row)

variable {Row Label : Type} [Indexed Row]

namespace Tx

def idle : Tx Row Label := ⟨none, 0, [], [], [], [], []⟩

def lock (strong : Bool) (row : Row) (tx : Tx Row Label) : Tx Row Label :=
  { tx with locks := ⟨primary row, strong⟩ :: tx.locks }

/-- Delete a row, or the version of it this transaction added. -/
def remove (row : Row) (tx : Tx Row Label) : Tx Row Label :=
  if tx.added.any (sameRow row) then { tx with added := tx.added.filter fun other => !sameRow row other }
  else { tx with removed := primary row :: tx.removed }

def add (row : Row) (tx : Tx Row Label) : Tx Row Label := { tx with added := tx.added ++ [row] }

def locked (tx : Tx Row Label) (row : Row) : Bool := tx.locks.any fun lock => decide (lock.key = primary row)

def removes (tx : Tx Row Label) (row : Row) : Bool := decide (primary row ∈ tx.removed)

def view (tx : Tx Row Label) (rows : List Row) : List Row :=
  rows.filter (fun row => !tx.removes row) ++ tx.added

end Tx

/-- A transaction that has committed: what it had to itself, and the committed rows before it. -/
structure Commit (Row Label : Type) [Indexed Row] where
  tid : Tid
  before : List Row
  tx : Tx Row Label

def Commit.after (commit : Commit Row Label) : List Row := commit.tx.view commit.before

/-- Whether a new row may enter the unique indexes. -/
inductive Admission where
  | waits
  | conflict
  | free
  deriving DecidableEq

structure Server (Row Label : Type) [Indexed Row] where
  rows : List Row
  /-- Every transaction that was ever opened. -/
  tids : List Tid
  txs : Tid → Tx Row Label
  /-- The transactions that have committed, oldest first. A history variable. -/
  log : List (Commit Row Label)

namespace Server

/-- A server that holds these rows and serves no transaction. -/
def holding (rows : List Row) : Server Row Label := ⟨rows, [], fun _ => .idle, []⟩

def others (server : Server Row Label) (tid : Tid) : List (Tx Row Label) :=
  (server.tids.filter (· != tid)).map server.txs

def setTx (server : Server Row Label) (tid : Tid) (tx : Tx Row Label) : Server Row Label :=
  { server with txs := Function.update server.txs tid tx }

def held (server : Server Row Label) (tid : Tid) (row : Row) : Bool :=
  (server.others tid).any fun other => other.locked row

/-- A `FOR UPDATE` or a `DELETE` of the row has to wait. -/
def refuses (server : Server Row Label) (tid : Tid) (row : Row) : Bool :=
  server.held tid row || (server.others tid).any fun other => decide (primary row ∈ other.shares)

/-- A row that another open transaction has inserted, deleted or superseded decides
nothing before that transaction ends. -/
def admission (server : Server Row Label) (tid : Tid) (tx : Tx Row Label) (row : Row) : Admission :=
  if (server.others tid).any fun other => other.added.any (clash row) ||
      server.rows.any fun old => clash row old && other.removes old then .waits
  else if (tx.view server.rows).any (clash row) then .conflict
  else .free

/-- The rows a statement acts on: matched when it started, and still matched now. -/
def hits (server : Server Row Label) (tid : Tid) (p : Row → Bool) : List Row :=
  let tx := server.txs tid
  (tx.view server.rows).filter fun row => p row && tx.snapshot.any fun old => p old && sameRow old row

def inserts (server : Server Row Label) (tid : Tid) (ignore : Bool) :
    List Row → Tx Row Label → Option (Except SqlError (List Row × Tx Row Label))
  | [], tx => some (.ok ([], tx))
  | row :: rest, tx =>
      match server.admission tid tx row with
      | .waits => none
      | .conflict => if ignore then server.inserts tid ignore rest tx else some (.error .unique)
      | .free =>
          match server.inserts tid ignore rest (tx.add row) with
          | some (.ok (inserted, after)) => some (.ok (row :: inserted, after))
          | some (.error error) => some (.error error)
          | none => none

def updates (server : Server Row Label) (tid : Tid) (f : Row → Row) :
    List Row → Tx Row Label → Option (Except SqlError (List Row × Tx Row Label))
  | [], tx => some (.ok ([], tx))
  | row :: rest, tx =>
      let without := (tx.lock false row).remove row
      match server.admission tid without (f row) with
      | .waits => none
      | .conflict => some (.error .unique)
      | .free =>
          match server.updates tid f rest (without.add (f row)) with
          | some (.ok (updated, after)) => some (.ok (f row :: updated, after))
          | some (.error error) => some (.error error)
          | none => none

/-- The reply of a statement with what its transaction has afterwards, or none while
it has to wait. -/
def execute (server : Server Row Label) (tid : Tid) :
    Statement Row → Option (Except SqlError (List Row × Tx Row Label))
  | .select p => some (.ok ((server.txs tid).snapshot.filter p, server.txs tid))
  | .lockRows p =>
      let found := server.hits tid p
      if found.any (server.refuses tid) then none
      else some (.ok (found, found.foldl (fun tx row => tx.lock true row) (server.txs tid)))
  | .lockSkip p le limit =>
      let free := (server.hits tid p).filter fun row => !server.refuses tid row
      let found := (free.insertionSort (fun a b => le a b = true)).take limit
      some (.ok (found, found.foldl (fun tx row => tx.lock true row) (server.txs tid)))
  | .shareKey p =>
      let tx := server.txs tid
      let found := (tx.view server.rows).filter p
      if (server.others tid).any fun other => found.any fun row =>
          other.locks.any fun lock => lock.strong && decide (lock.key = primary row) then none
      else some (.ok (found, { tx with shares := tx.shares ++ found.map primary }))
  | .delete p =>
      let found := server.hits tid p
      if found.any (server.refuses tid) then none
      else some (.ok (found, found.foldl (fun tx row => (tx.lock true row).remove row) (server.txs tid)))
  | .update p f =>
      let found := server.hits tid p
      if found.any (server.held tid) then none
      else server.updates tid f found (server.txs tid)
  | .insert rows ignore => server.inserts tid ignore rows (server.txs tid)

def begin (server : Server Row Label) (tid : Tid) (label : Label) : Server Row Label :=
  { server with
    tids := tid :: server.tids
    txs := Function.update server.txs tid
      { (Tx.idle : Tx Row Label) with label := some label, begun := server.log.length } }

def start (server : Server Row Label) (tid : Tid) : Server Row Label :=
  let tx := server.txs tid
  server.setTx tid { tx with snapshot := tx.view server.rows }

def commit (server : Server Row Label) (tid : Tid) : Server Row Label :=
  let tx := server.txs tid
  { rows := tx.view server.rows
    tids := server.tids
    txs := Function.update server.txs tid .idle
    log := server.log ++ [⟨tid, server.rows, tx⟩] }

def rollback (server : Server Row Label) (tid : Tid) : Server Row Label := server.setTx tid .idle

end Server

/-- Calls of a script: to the server, or to something else. -/
inductive Action (Row Label Extra : Type) where
  | begin (label : Label)
  | start
  | exec (statement : Statement Row)
  | commit
  | rollback
  | other (extra : Extra)

abbrev Answer {Row Label Extra : Type} (ExtraReply : Extra → Type) : Action Row Label Extra → Type
  | .begin _ => Unit
  | .start => Unit
  | .exec _ => Except SqlError (List Row)
  | .commit => Except SqlError Unit
  | .rollback => Unit
  | .other extra => ExtraReply extra

/-- Errors of a client: it can tell that an error came from the server. -/
class ClientError (ε : Type) where
  sql : SqlError → ε

section Client
variable {Extra : Type} {ExtraReply : Extra → Type} {ε α : Type} [ClientError ε]

abbrev Client (Row Label : Type) {Extra : Type} (ExtraReply : Extra → Type) (ε α : Type) : Type :=
  Script (Action Row Label Extra) (Answer ExtraReply) ε α

def orThrow (reply : Except SqlError α) : Client Row Label ExtraReply ε α :=
  match reply with
  | .ok value => .ret value
  | .error error => .fail (ClientError.sql error)

def sql (statement : Statement Row) : Client Row Label ExtraReply ε (List Row) :=
  .call .start fun _ => .call (.exec statement) orThrow

def commitOrThrow (value : α) : Client Row Label ExtraReply ε α :=
  .call .commit fun
    | .ok _ => .ret value
    | .error error => .fail (ClientError.sql error)

/-- `$transaction`: commits when the body returns, rolls back and rethrows when it throws. -/
def transaction (label : Label) (body : Client Row Label ExtraReply ε α) : Client Row Label ExtraReply ε α :=
  .call (.begin label) fun _ =>
    (body >>= commitOrThrow).handle fun error => .call .rollback fun _ => .fail error

/-- A transaction for clients that look at the value even when the commit is refused. -/
def inTx (label : Label) (body : Client Row Label ExtraReply ε α) :
    Client Row Label ExtraReply ε (α × Option SqlError) :=
  .call (.begin label) fun _ =>
    (body >>= fun value => .call .commit fun
      | .ok _ => .ret (value, none)
      | .error error => .ret (value, some error)).handle fun error => .call .rollback fun _ => .fail error

/-- A call to something that is not the database. -/
def ask (extra : Extra) : Client Row Label ExtraReply ε (ExtraReply extra) :=
  .call (.other extra) .ret

end Client

structure Shared (Row Label World : Type) [Indexed Row] where
  server : Server Row Label
  world : World

section Machine
variable {Extra : Type} {ExtraReply : Extra → Type} {Choice World : Type}

/-- Scripts on a server and a world of other things. Without an open transaction,
because the server has closed it, statements and the commit are refused; a process
that dies loses its transaction. -/
def machine (extra : Tid → (call : Extra) → Choice → Shared Row Label World →
    Option (ExtraReply call × World)) :
    Interleaving.Machine (Action Row Label Extra) (Answer ExtraReply) Choice (Shared Row Label World) where
  act tid action choice shared :=
    let server := shared.server
    let opened := (server.txs tid).label.isSome
    match action with
    | .begin label => some ((), { shared with server := server.begin tid label })
    | .start => some ((), if opened then { shared with server := server.start tid } else shared)
    | .exec statement =>
        if opened then
          match server.execute tid statement with
          | none => none
          | some (.ok (reply, tx)) => some (.ok reply, { shared with server := server.setTx tid tx })
          | some (.error error) => some (.error error, shared)
        else some (.error .closed, shared)
    | .commit =>
        if opened then some (.ok (), { shared with server := server.commit tid })
        else some (.error .closed, shared)
    | .rollback => some ((), { shared with server := server.rollback tid })
    | .other call => (extra tid call choice shared).map
      fun (reply, after) => (reply, { shared with world := after })
  disturb tid _ shared :=
    if (shared.server.txs tid).label.isSome
      then some { shared with server := shared.server.rollback tid } else none
  crash tid shared := { shared with server := shared.server.rollback tid }

end Machine

end OpenEmarsys.Postgres
