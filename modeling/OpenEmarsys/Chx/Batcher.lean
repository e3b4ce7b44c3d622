import OpenEmarsys.Interleaving.Triples
import Mathlib.Data.List.Dedup
import Mathlib.Data.List.Nodup
import Mathlib.Logic.Function.Basic

/-! `chx.Batcher`: rows buffered by table, flushed by size, by time and on close.

Goroutines meet at the mutex of the buffers, at the channels of the timer loop and at the
client. A lock section is one call here, and so is everything the client is asked for.
-/

set_option autoImplicit false

namespace OpenEmarsys.Chx

open Interleaving

/-- A row as the `index`-th of a call of `BatchInsert`. -/
structure Entry (ρ : Type) where
  call : Nat
  index : Nat
  table : String
  row : ρ
  deriving DecidableEq

section
variable {ρ : Type}

/-- The rows a call of `BatchInsert` passes. -/
def entries (pid : Nat) (table : String) (rows : List ρ) : List (Entry ρ) :=
  rows.mapIdx fun index row => ⟨pid, index, table, row⟩

/-- Where a call returns an error, its text; nil is `none`. -/
abbrev Err := Option String

inductive Act (ρ : Type) where
  /-- The lock section of `BatchInsert`: append the rows, and see whether the buffer is full. -/
  | append (table : String) (rows : List ρ)
  /-- The lock section of `Flush`: take the buffer and clear it. -/
  | take (table : String)
  | prepareBatch (query : String)
  /-- `batch.Append`, to the batch this process has prepared. -/
  | appendRow (row : Entry ρ)
  | send
  /-- The lock section of `FlushAll`: the tables with buffered rows. -/
  | tables
  /-- The `select` of the loop: whether the timer ticked. -/
  | select
  | closeStopCh
  | closeDoneCh
  | awaitDoneCh

abbrev Act.Reply : Act ρ → Type
  | .append _ _ => Bool
  | .take _ => List (Entry ρ)
  | .prepareBatch _ => Err
  | .appendRow _ => Err
  | .send => Err
  | .tables => List String
  | .select => Bool
  | _ => Unit

abbrev BatchScript (ρ α : Type) := Script (Act ρ) Act.Reply Empty α

abbrev await (act : Act ρ) : BatchScript ρ act.Reply := Script.await act

def join (errs : List String) : Err := if errs.isEmpty then none else some ("\n".intercalate errs)

def appendRows : List (Entry ρ) → BatchScript ρ Err
  | [] => pure none
  | row :: rest => do
      let err : Err ← await (.appendRow row)
      match err with
      | some err => pure (some ("chx: append row: " ++ err))
      | none => appendRows rest

def insert (table : String) (rows : List (Entry ρ)) : BatchScript ρ Err := do
  let err : Err ← await (.prepareBatch ("INSERT INTO " ++ table))
  match err with
  | some err => pure (some ("chx: prepare batch: " ++ err))
  | none => do
      let err ← appendRows rows
      match err with
      | some err => pure (some err)
      | none => do
          let err : Err ← await .send
          match err with
          | some err => pure (some ("chx: send batch: " ++ err))
          | none => pure none

/-- Writes and clears every row currently buffered for the table. -/
def flush (table : String) : BatchScript ρ Err := do
  let rows : List (Entry ρ) ← await (.take table)
  if rows.isEmpty then pure none else insert table rows

def flushEach : List String → BatchScript ρ (List String)
  | [] => pure []
  | table :: rest => do
      let err ← flush table
      let errs ← flushEach rest
      pure (err.toList ++ errs)

/-- Flushes every table with buffered rows, joining any errors. -/
def flushAll : BatchScript ρ Err := do
  let tables : List String ← await .tables
  let errs ← flushEach tables
  pure (join errs)

/-- Appends the rows to the table's buffer, and flushes it if it is full now. -/
def batchInsert (table : String) (rows : List ρ) : BatchScript ρ Err := do
  let full : Bool ← await (.append table rows)
  if full then flush table else pure none

/-- The timer loop, for at most so many turns. -/
def loop : Nat → BatchScript ρ Err
  | 0 => pure none
  | more + 1 => do
      let ticked : Bool ← await .select
      if ticked then do
        -- the error of this flush is dropped
        let _ ← flushAll
        loop more
      else do
        let _ ← await .closeDoneCh
        pure none

/-- Stops the loop and flushes what is still buffered. -/
def close : BatchScript ρ Err := do
  let _ ← await .closeStopCh
  let _ ← await .awaitDoneCh
  flushAll

inductive Call (ρ : Type) where
  | batchInsert (table : String) (rows : List ρ)
  | flush (table : String)
  | flushAll
  | loop (turns : Nat)
  | close

def code : Call ρ → BatchScript ρ Err
  | .batchInsert table rows => batchInsert table rows
  | .flush table => flush table
  | .flushAll => flushAll
  | .loop turns => loop turns
  | .close => close

/-- A batch of the client: the rows appended to it so far. -/
structure Batch (ρ : Type) where
  query : String
  rows : List (Entry ρ)
  deriving DecidableEq

structure Batcher (ρ : Type) where
  /-- The rows the database has stored, with the statement of the batch each came in. -/
  inserted : List (String × Entry ρ)
  /-- The buffers of all tables. -/
  buffered : List (Entry ρ)
  /-- The rows each process is inserting. -/
  inserting : List (Nat × Entry ρ)
  /-- The batch each process has prepared. -/
  batches : Nat → Option (Batch ρ)
  stopped : Bool
  done : Bool
  /-- All rows that were ever appended to a buffer. A history variable. -/
  appended : List (Entry ρ)
  /-- The processes one of whose inserts failed. A history variable. -/
  failed : List Nat

namespace Batcher

def empty : Batcher ρ := ⟨[], [], [], fun _ => none, false, false, [], []⟩

def buffer (batcher : Batcher ρ) (table : String) : List (Entry ρ) :=
  batcher.buffered.filter (·.table = table)

def tables (batcher : Batcher ρ) : List String := (batcher.buffered.map (·.table)).dedup

/-- The rows a process has taken from a buffer and not yet stored. -/
def inFlight (batcher : Batcher ρ) (pid : Nat) : List (Entry ρ) :=
  (batcher.inserting.filter (·.1 = pid)).map Prod.snd

/-- The rows that are in the table they were passed for. -/
def stored (batcher : Batcher ρ) : List (Entry ρ) :=
  (batcher.inserted.filter fun (query, entry) => query = "INSERT INTO " ++ entry.table).map Prod.snd

def places (batcher : Batcher ρ) : List (Entry ρ) :=
  batcher.stored ++ batcher.buffered ++ batcher.inserting.map Prod.snd

def append (batcher : Batcher ρ) (pid : Nat) (table : String) (rows : List ρ) : Batcher ρ :=
  { batcher with
    buffered := batcher.buffered ++ entries pid table rows
    appended := batcher.appended ++ entries pid table rows }

def take (batcher : Batcher ρ) (pid : Nat) (table : String) : Batcher ρ :=
  { batcher with
    buffered := batcher.buffered.filter (·.table ≠ table)
    inserting := batcher.inserting ++ (batcher.buffer table).map (pid, ·) }

/-- `PrepareBatch` starts a batch, `Append` extends it. -/
def build (batcher : Batcher ρ) (pid : Nat) (batch : Batch ρ) : Batcher ρ :=
  { batcher with batches := Function.update batcher.batches pid (some batch) }

def store (batcher : Batcher ρ) (pid : Nat) (batch : Batch ρ) : Batcher ρ :=
  { batcher with
    inserted := batcher.inserted ++ batch.rows.map (batch.query, ·)
    inserting := batcher.inserting.filter (·.1 ≠ pid)
    batches := Function.update batcher.batches pid none }

def abandon (batcher : Batcher ρ) (pid : Nat) : Batcher ρ :=
  { batcher with
    inserting := batcher.inserting.filter (·.1 ≠ pid)
    batches := Function.update batcher.batches pid none
    failed := pid :: batcher.failed }

def attempt (batcher : Batcher ρ) (pid : Nat) (err : Err) (next : Batcher ρ) : Err × Batcher ρ :=
  (err, if err.isNone then next else batcher.abandon pid)

end Batcher

/-- What a call leaves open: the error of the client, the order of a `range` loop, the case of a `select`. -/
inductive Choice where
  | plain
  | client (err : Err)
  | order (tables : List String)
  | ticked
  | stopped

def respond (maxRows : Int) (pid : Nat) : (act : Act ρ) → Choice → Batcher ρ → Option (act.Reply × Batcher ρ)
  | .append table rows, .plain, batcher =>
      let next := batcher.append pid table rows
      some (decide (maxRows ≤ (next.buffer table).length), next)
  | .take table, .plain, batcher => some (batcher.buffer table, batcher.take pid table)
  | .prepareBatch query, .client err,
    batcher => some (batcher.attempt pid err (batcher.build pid ⟨query, []⟩))
  | .appendRow row, .client err, batcher =>
      (batcher.batches pid).map fun batch => batcher.attempt pid err
        (batcher.build pid ⟨batch.query, batch.rows ++ [row]⟩)
  | .send, .client err, batcher => (batcher.batches pid).map
    fun batch => batcher.attempt pid err (batcher.store pid batch)
  | .tables, .order tables, batcher => if tables.isPerm batcher.tables then some (tables, batcher) else none
  | .select, .ticked, batcher => some (true, batcher)
  | .select, .stopped, batcher => if batcher.stopped then some (false, batcher) else none
  | .closeStopCh, .plain, batcher => some ((), { batcher with stopped := true })
  | .closeDoneCh, .plain, batcher => some ((), { batcher with done := true })
  | .awaitDoneCh, .plain, batcher => if batcher.done then some ((), batcher) else none
  | _, _, _ => none

/-- Nothing but its goroutines touches the batcher. -/
def machine (maxRows : Int) : Machine (Act ρ) Act.Reply Choice (Batcher ρ) where
  act := respond maxRows
  disturb _ _ _ := none
  crash _ batcher := batcher

abbrev Config (ρ : Type) := Interleaving.Config (Call ρ) (Act ρ) Act.Reply Empty Err (Batcher ρ)

/-- Goroutines are not killed: their process would die with all of them. -/
def running : Rules (Call ρ) (Act ρ) (Batcher ρ) where
  crash _ _ := False

/-- Every row of a call of `BatchInsert` that returned nil is in one place. -/
def Conserved [DecidableEq ρ] (config : Config ρ) : Prop :=
  ∀ pid table rows, config.procs pid = .running (.batchInsert table rows) (.ret none) →
    ∀ entry ∈ entries pid table rows, config.state.places.count entry = 1

end

end OpenEmarsys.Chx
