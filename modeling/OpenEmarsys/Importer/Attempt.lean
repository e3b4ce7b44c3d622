import OpenEmarsys.Importer.Plan
import OpenEmarsys.Jobs.Store

/-! One run of an import job: the loop over the file, and the sends it leaves running.

The loop and each send are threads of actions on the reporter and on errors.csv, and
any thread may take the next step. Opening the upload, and the requests to storage
that neither read the file nor write errors.csv, are left out.
-/

set_option autoImplicit false

namespace OpenEmarsys.Importer

open Golang Javascript
open Jobs (Progress)

/-- What one `cr.Read()` returns; after the last one comes `io.EOF`. -/
inductive Read where
  | record (fields : List Bytes)
  /-- A `csv.ParseError`, with the fields read so far. -/
  | malformed (problem : String) (fields : List Bytes)
  /-- Any other error. -/
  | broken (problem : String)
  deriving DecidableEq, Repr

def Read.fields : Read → List Bytes
  | .record fields => fields
  | .malformed _ fields => fields
  | .broken _ => []

/-- `malformed CSV: …`, `expected %d columns, got %d`, `empty key value in column %q`,
`core rejected the batch: status %d: %s`, and `%d: %s` with `(field %s)` if there is one. -/
inductive Reason where
  | malformed (problem : String)
  | width (expected got : Nat)
  | emptyKey (keyName : String)
  | rejected (code : Nat) (body : Bytes)
  | core (code : Int) (text : String) (fieldID : Option String)
  deriving DecidableEq, Repr

/-- A row of errors.csv, its record split from the two columns in front. -/
structure ErrorRow where
  line : Nat
  reason : Reason
  record : List Bytes
  deriving DecidableEq, Repr

/-- What a thread does to what it shares with the others. -/
inductive Action where
  | add (read ok failed : Int)
  | setPercent (percent : Number)
  | header (cols : List Bytes)
  | write (row : ErrorRow)
  /-- `g.Go`, which waits while the group is full. -/
  | go (rows : List BatchRow)
  | cancel
  deriving DecidableEq

def fail (line : Nat) (reason : Reason) (record : List Bytes) : List Action :=
  [.add 0 0 1, .write ⟨line, reason, record⟩]

structure Config where
  batchSize : Nat
  concurrency : Nat
  retries : Nat

/-- What an attempt is given; `order` is how its `newPlan` visits the mapping. -/
structure Import where
  cfg : Config
  p : Params
  order : List (String × String)

inductive RunError where
  | read (problem : String)
  | malformedHeader (problem : String)
  | plan (problem : PlanError)
  deriving DecidableEq, Repr

/-- The variables of the loop; `header` is `cols` with `pl`. -/
structure Loop where
  header : Option (List Bytes × Plan) := none
  line : Nat := 0
  batch : List BatchRow := []
  deriving DecidableEq, Repr

def numberedColumns (n : Nat) : List Bytes :=
  (List.range n).map fun i => utf8 ("column_" ++ toString (i + 1))

def check (cols : List Bytes) (pl : Plan) : Read → Option Reason
  | .malformed problem _ => some (.malformed problem)
  | read =>
      if read.fields.length ≠ cols.length then some (.width cols.length read.fields.length)
      else if blank (cell read.fields pl.keyIdx) then some (.emptyKey pl.keyName)
      else none

/-- `sees` is whether the look for a cancellation, if one is due, finds it. -/
def Loop.flush (loop : Loop) (percent : Number) (sees : Bool) : Loop × List Action :=
  if loop.batch = [] then (loop, [])
  else ({ loop with batch := [] }, [.setPercent percent, if sees then .cancel else .go loop.batch])

def Loop.take (batchSize : Nat) (cols : List Bytes) (pl : Plan) (loop : Loop) (read : Read) (percent : Number)
    (sees : Bool) : Loop × List Action :=
  match check cols pl read with
  | some reason => (loop, .add 1 0 0 :: fail loop.line reason read.fields)
  | none =>
      let kept := { loop with batch := loop.batch ++ [⟨loop.line, read.fields⟩] }
      if kept.batch.length = batchSize then
        let (flushed, actions) := kept.flush percent sees
        (flushed, .add 1 0 0 :: actions)
      else (kept, [.add 1 0 0])

def columns (p : Params) (fields : List Bytes) : List Bytes :=
  if p.hasHeader then fields else numberedColumns fields.length

/-- The columns and the plan, which the first record gives, and what that record does to
errors.csv. The flag is the `continue` of a header. -/
def Loop.resolve (job : Import) (loop : Loop) (read : Read) :
    Except RunError ((List Bytes × Plan) × List Action × Bool) :=
  match loop.header, read with
  | _, .broken problem => .error (.read problem)
  | some heading, _ => .ok (heading, [], false)
  | none, .malformed problem _ => .error (.malformedHeader problem)
  | none, .record fields =>
      match newPlan (columns job.p fields) job.p.keyID job.order with
      | .error problem => .error (.plan problem)
      | .ok pl => .ok ((columns job.p fields, pl), [.header (columns job.p fields)], job.p.hasHeader)

def Loop.read (job : Import) (loop : Loop) (read : Read) (percent : Number) (sees : Bool) :
    Except RunError (Loop × List Action) :=
  match loop.resolve job read with
  | .error problem => .error problem
  | .ok (heading, front, isHeader) =>
      let opened := { loop with header := some heading, line := loop.line + 1 }
      if isHeader then .ok (opened, front)
      else
        let (taken, actions) := opened.take job.cfg.batchSize heading.1 heading.2 read percent sees
        .ok (taken, front ++ actions)

structure ItemError where
  code : Int
  text : String
  fieldID : Option String
  deriving DecidableEq, Repr

/-- `results` answers a batch-upsert, `errors` members and relational rows. -/
structure CoreResponse where
  results : List (Int × Option ItemError) := []
  errors : List (Int × ItemError) := []
  deriving DecidableEq, Repr

/-- What a call of core comes to: an answer that decodes, another status, or neither. -/
inductive Reply where
  | answer (resp : CoreResponse)
  | status (code : Nat) (body : Bytes)
  | lost
  deriving DecidableEq, Repr

inductive PostError where
  | status (code : Nat) (body : Bytes)
  | network
  /-- The context ended while a call or a wait was under way. -/
  | context
  deriving DecidableEq, Repr

/-- 5xx and 429. -/
def retryable (code : Nat) : Bool := 500 ≤ code || code = 429

/-- `retries` counts down; the replies end when the context does. -/
def post : Nat → List Reply → Except PostError CoreResponse
  | _, [] => .error .context
  | retries, reply :: rest =>
      match reply with
      | .answer resp => .ok resp
      | .status code body =>
          if ! retryable code || retries = 0 then .error (.status code body) else post (retries - 1) rest
      | .lost => if retries = 0 then .error .network else post (retries - 1) rest

/-- The assignments to `reasons`, in their order. -/
def CoreResponse.reasons (resp : CoreResponse) : List (Int × Reason) :=
  (resp.results.filterMap fun result => result.2.map fun error =>
    (result.1, .core error.code error.text error.fieldID)) ++
  resp.errors.map fun error => (error.1, .core error.2.code error.2.text none)

/-- How a batch came back: with `reasons`, or as a whole. -/
inductive Answer where
  | accepted (resp : CoreResponse)
  | rejected (code : Nat) (body : Bytes)
  deriving DecidableEq, Repr

/-- `reasons[i]`: the last assignment stands. -/
def Answer.reason (answer : Answer) (i : Nat) : Option Reason :=
  match answer with
  | .rejected code body => some (.rejected code body)
  | .accepted resp => (resp.reasons.reverse.find? fun entry => entry.1 = (i : Int)).map Prod.snd

def Answer.failures (answer : Answer) (rows : List BatchRow) : List ErrorRow :=
  rows.zipIdx.filterMap fun (row, i) => (answer.reason i).map fun reason => ⟨row.line, reason, row.record⟩

/-- What `send` does with its answer: `len(reasons)` counts indexes. -/
def Answer.account (answer : Answer) (rows : List BatchRow) : List Action :=
  (answer.failures rows).flatMap (fun row => fail row.line row.reason row.record) ++
    match answer with
    | .rejected .. => []
    | .accepted resp => [.add 0 (rows.length - (resp.reasons.map Prod.fst).dedup.length) 0]

inductive Sending where
  | posting (rows : List BatchRow)
  | accounting (actions : List Action)
  deriving DecidableEq

structure Posted where
  rows : List BatchRow
  answer : Answer
  deriving DecidableEq, Repr

def Posted.failures (sent : Posted) : List ErrorRow := sent.answer.failures sent.rows

inductive Result where
  | succeeded
  | cancelled
  | interrupted
  | failed (problem : RunError)
  | sendFailed (problem : PostError)
  /-- `write errors.csv`. -/
  | unwritten
  deriving DecidableEq, Repr

inductive Phase where
  | reading
  /-- The loop has ended. -/
  | waiting
  | returned (result : Result)
  deriving DecidableEq, Repr

/-- `todo` is what the loop has begun to do; `stopped` is `ctx`, which ends with the
worker, and `failure` the error of the group; `posted` keeps what came back. -/
structure Attempt where
  unread : List Read
  loop : Loop := {}
  todo : List Action := []
  phase : Phase := .reading
  sends : List Sending := []
  posted : List Posted := []
  progress : Progress
  columns : Option (List Bytes) := none
  report : List ErrorRow := []
  cancelled : Bool := false
  stopped : Bool := false
  failure : Option PostError := none
  deriving DecidableEq

/-- The reporter starts from the progress of the job. -/
def start (file : List Read) (progress : Progress) : Attempt := { unread := file, progress := progress }

/-- `gctx.Err() != nil` -/
def Attempt.done (a : Attempt) : Bool := a.stopped || a.failure.isSome

def Attempt.perform (a : Attempt) : Action → Attempt
  | .add read ok failed => { a with progress := {
      rowsRead := a.progress.rowsRead + read, rowsOK := a.progress.rowsOK + ok,
      rowsFailed := a.progress.rowsFailed + failed, percent := a.progress.percent } }
  | .setPercent percent => { a with progress := { a.progress with percent := percent } }
  | .header cols => { a with columns := some cols }
  | .write row => { a with report := a.report ++ [row] }
  | .go rows => { a with sends := a.sends ++ [.posting rows] }
  | .cancel => { a with cancelled := true }

inductive Move where
  | read (percent : Number) (sees : Bool)
  /-- The loop goes on with what it has begun. -/
  | act
  /-- A send gets its last reply. -/
  | answer (i : Nat) (replies : List Reply)
  /-- A send goes on with its account, or returns. -/
  | settle (i : Nat)
  | interrupt
  /-- After `g.Wait`: `written` is whether errors.csv is. -/
  | finish (written : Bool)
  deriving DecidableEq

def Attempt.settling (a : Attempt) (i : Nat) (rows : List BatchRow) (answer : Answer) : Attempt :=
  { a with
    sends := a.sends.set i (.accounting (answer.account rows))
    posted := a.posted ++ [⟨rows, answer⟩] }

def Attempt.broken (a : Attempt) (i : Nat) (problem : PostError) : Attempt :=
  { a with sends := a.sends.eraseIdx i, failure := a.failure.or (some problem) }

/-- What `send` makes of the end of `post`. -/
def Attempt.answered (a : Attempt) (i : Nat) (rows : List BatchRow) :
    Except PostError CoreResponse → Option Attempt
  | .ok resp => some (a.settling i rows (.accepted resp))
  | .error (.status code body) =>
      if retryable code then some (a.broken i (.status code body))
      else some (a.settling i rows (.rejected code body))
  | .error .network => some (a.broken i .network)
  | .error .context => if a.done then some (a.broken i .context) else none

def Attempt.turn (job : Import) (a : Attempt) (percent : Number) (sees : Bool) : Attempt :=
  if a.done || a.cancelled then { a with phase := .waiting }
  else
    match a.unread with
    | [] =>
        let (flushed, actions) := a.loop.flush percent sees
        { a with loop := flushed, todo := actions, phase := .waiting }
    | read :: rest =>
        match a.loop.read job read percent sees with
        | .error problem => { a with phase := .returned (.failed problem) }
        | .ok (next, actions) => { a with unread := rest, loop := next, todo := actions }

/-- What follows `g.Wait`. -/
def Attempt.result (a : Attempt) (written : Bool) : Result :=
  match a.failure with
  | some problem => .sendFailed problem
  | none =>
      if a.cancelled then .cancelled
      else if a.stopped then .interrupted
      else if written then .succeeded
      else .unwritten

def Attempt.step (job : Import) (a : Attempt) : Move → Option Attempt
  | .read percent sees =>
      if a.phase = .reading ∧ a.todo = [] then some (a.turn job percent sees) else none
  | .act =>
      match a.todo with
      | [] => none
      | .go rows :: rest =>
          if a.sends.length < job.cfg.concurrency
            then some { a.perform (.go rows) with todo := rest } else none
      | action :: rest => some { a.perform action with todo := rest }
  | .answer i replies =>
      match a.sends[i]? with
      | some (.posting rows) => a.answered i rows (post job.cfg.retries replies)
      | _ => none
  | .settle i =>
      match a.sends[i]? with
      | some (.accounting []) => some { a with sends := a.sends.eraseIdx i }
      | some (.accounting (action :: rest)) =>
        some { a.perform action with sends := a.sends.set i (.accounting rest) }
      | _ => none
  | .interrupt => some { a with stopped := true }
  | .finish written =>
      if a.phase = .waiting ∧ a.todo = [] ∧ a.sends = []
        then some { a with phase := .returned (a.result written) }
      else none

/-- The states a run of the handler leads to. -/
inductive Attempt.Reaches (job : Import) (first : Attempt) : Attempt → Prop where
  | refl : Reaches job first first
  | step {a next : Attempt} (move : Move) :
      Reaches job first a → a.step job move = some next → Reaches job first next

def Attempt.moves (job : Import) : List Move → Attempt → Option Attempt
  | [], a => some a
  | move :: rest, a => (a.step job move).bind (Attempt.moves job rest)

theorem reaches_moves {job : Import} {first a last : Attempt} (reached : first.Reaches job a)
    (list : List Move) (run : a.moves job list = some last) : first.Reaches job last := by
  induction list generalizing a with
  | nil =>
    cases run
    exact reached
  | cons move rest ih =>
    obtain ⟨next, moved, later⟩ := Option.bind_eq_some_iff.1 run
    exact ih (reached.step move moved) later

end OpenEmarsys.Importer
