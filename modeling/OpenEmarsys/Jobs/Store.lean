import OpenEmarsys.Javascript.Values
import OpenEmarsys.Postgres.Stages

/-! The job queue in Postgres: `importer.jobs` and the operations of its `Store`.

Setting `app.tenant_id` or `app.system` at the start of a transaction is not modelled
as a statement: a tenant's statements carry the row policy in their conditions.
-/

set_option autoImplicit false

namespace OpenEmarsys.Jobs

open Javascript Postgres

inductive JobStatus where
  | queued
  | running
  | succeeded
  | failed
  | cancelled
  deriving DecidableEq, Repr

/-- `succeeded`, `failed` or `cancelled`. -/
def JobStatus.ended : JobStatus → Bool
  | .queued | .running => false
  | .succeeded | .failed | .cancelled => true

/-- `jobs.progress`; an empty object reads as zeros. -/
structure Progress where
  rowsRead : Int := 0
  rowsOK : Int := 0
  rowsFailed : Int := 0
  percent : Number := .ofNat 0
  deriving DecidableEq

/-- `params` is the JSON text. -/
structure Job where
  id : Uuid
  tenantID : Uuid
  kind : String
  status : JobStatus := .queued
  params : String
  progress : Progress := {}
  resultURL : Option String := none
  errorReportURL : Option String := none
  error : Option String := none
  attempts : Nat := 0
  heartbeatAt : Option Time := none
  createdBy : String
  createdAt : Time
  finishedAt : Option Time := none
  deriving DecidableEq

instance : Indexed Job where
  Key := Uuid
  decideKey := inferInstance
  primary := Job.id
  uniques _ := []

instance : Tabled Job where
  Table := Unit
  decideTable := inferInstance
  table _ := ()

/-- What a transaction is for; `saveProgress` and `finish` name the job. -/
inductive Label where
  | enqueue
  | claim
  | saveProgress (id : Uuid)
  | finish (id : Uuid)
  | cancel
  | requeueOrphans
  deriving DecidableEq, Repr

/-- What a successful handler hands back for the job row. -/
structure Outcome where
  resultURL : String := ""
  errorReportURL : String := ""
  deriving DecidableEq, Repr

/-- How a handler ended, with the reporter's last snapshot. -/
inductive Ran where
  /-- The context was cancelled: the worker is going down. -/
  | down
  | failed (p : Progress) (out : Outcome) (err : String)
  | returned (p : Progress) (out : Outcome)

inductive Request where
  | now
  | newV7
  /-- How often the progress is saved from now on. -/
  | ticks
  | snapshot
  | handler (job : Job)

abbrev Request.Reply : Request → Type
  | .now => Time
  | .newV7 => Uuid
  | .ticks => Nat
  | .snapshot => Progress
  | .handler _ => Ran

inductive JobsError where
  | notFound
  /-- `ErrFinished`, returned with the job. -/
  | finished (job : Job)
  | noTenant
  | sql (error : SqlError)
  deriving DecidableEq

instance : ClientError JobsError := ⟨.sql⟩

abbrev JobsScript (α : Type) := Client Job Label Request.Reply JobsError α

def call (request : Request) : JobsScript request.Reply := ask request

/-- The caller of a transaction drops the value when the commit is refused. -/
def unlessRefused {α : Type} (given : α × Option SqlError) : JobsScript α :=
  match given with
  | (value, none) => .ret value
  | (_, some error) => .fail (.sql error)

def scan : List Job → JobsScript Job
  | job :: _ => .ret job
  | [] => .fail .notFound

def nullable (s : String) : Option String := if s = "" then none else some s

def claimed (now : Time) (job : Job) : Job :=
  { job with status := .running, attempts := job.attempts + 1, heartbeatAt := some now }

def saved (now : Time) (p : Progress) (job : Job) : Job := { job with progress := p, heartbeatAt := some now }

def ended (now : Time) (status : JobStatus) (p : Progress) (out : Outcome) (errText : String)
    (job : Job) : Job :=
  { job with
    status := status
    progress := p
    resultURL := nullable out.resultURL
    errorReportURL := nullable out.errorReportURL
    error := nullable errText
    finishedAt := some now }

def cancelled (now : Time) (job : Job) : Job := { job with status := .cancelled, finishedAt := some now }

/-- The three `CASE WHEN attempts >= $2`. -/
def requeued (now : Time) (maxAttempts : Int) (job : Job) : Job :=
  if maxAttempts ≤ job.attempts then
    { job with status := .failed, error := some "worker lost; retries exhausted", finishedAt := some now }
  else { job with status := .queued }

def enqueue (tenant : Option Uuid) (kind params createdBy : String) : JobsScript Uuid :=
  match tenant with
  | none => throw .noTenant
  | some tid => do
      let id ← call .newV7
      let now ← call .now
      let inserted : Uuid × Option SqlError ← inTx .enqueue do
        let _ ← sql (.insert [{
          id := id, tenantID := tid, kind := kind, params := params, createdBy :=
            createdBy, createdAt := now }] false)
        return id
      unlessRefused inserted

/-- The job is in hand even if the commit is refused: the caller gets it with the error. -/
def claim : JobsScript (Option Job × Option SqlError) := do
  let now ← call .now
  let taken : JobsScript (Option Job × Option SqlError) := do
    let (job, refused) ← inTx .claim do
      let oldest ← sql (.lockSkip (fun job => job.status == .queued)
        (fun job other => job.createdAt ≤ other.createdAt) 1)
      let rows ← sql (.update (fun job => oldest.any fun found => found.id == job.id) (claimed now))
      scan rows
    return (some job, refused)
  taken.handle fun
    | .notFound => return (none, none)
    | error => throw error

/-- Persists progress and refreshes the heartbeat that keeps the job from looking orphaned. -/
def saveProgress (id : Uuid) (p : Progress) : JobsScript Unit := do
  let now ← call .now
  let done ← inTx (.saveProgress id) do
    let _ ← sql (.update (fun job => job.id == id && job.status == .running) (saved now p))
    return ()
  unlessRefused done

def finish (id : Uuid) (status : JobStatus) (p : Progress) (out : Outcome)
    (errText : String) : JobsScript Unit := do
  let now ← call .now
  let done ← inTx (.finish id) do
    -- a cancelled job stays cancelled
    let _ ← sql (.update (fun job => job.id == id && job.status == .running) (ended now status p out errText))
    return ()
  unlessRefused done

/-- A queued or running job of the tenant; any other of its jobs is returned as already ended. -/
def cancel (tenant : Option Uuid) (id : Uuid) : JobsScript Job :=
  match tenant with
  | none => throw .noTenant
  | some tid => do
      let now ← call .now
      let done ← inTx .cancel do
        let rows ← sql (.update
          (fun job => job.tenantID == tid && job.id == id &&
            (job.status == .queued || job.status == .running))
          (cancelled now))
        match rows with
        | job :: _ => return job
        | [] => do
            let rows ← sql (.select fun job => job.tenantID == tid && job.id == id)
            let job ← scan rows
            throw (.finished job)
      unlessRefused done

/-- A running job whose heartbeat is older than `stale`. -/
def orphaned (now : Time) (stale : Int) (job : Job) : Bool :=
  job.status == .running && job.heartbeatAt.any fun heartbeat => (heartbeat : Int) < now - stale

def requeueOrphans (stale maxAttempts : Int) : JobsScript Nat := do
  let now ← call .now
  let done ← inTx .requeueOrphans do
    let rows ← sql (.update (orphaned now stale) (requeued now maxAttempts))
    return rows.length
  unlessRefused done

structure Options where
  progressEvery : Int
  stale : Int
  maxAttempts : Int

/-- The defaults `NewQueue` fills in. -/
def newQueue (opt : Options) : Options :=
  let progressEvery := if opt.progressEvery ≤ 0 then 5000 else opt.progressEvery
  { progressEvery := progressEvery
    stale := if opt.stale ≤ 0 then 6 * progressEvery else opt.stale
    maxAttempts := if opt.maxAttempts ≤ 0 then 3 else opt.maxAttempts }

theorem newQueue_maxAttempts (opt : Options) : 0 < (newQueue opt).maxAttempts := by
  simp only [newQueue]
  split <;> omega

/-- Operations of the store, each called by anybody at any time. `finish` is only ever
called with `succeeded` or `failed`. -/
inductive Operation where
  | enqueue (tenant : Option Uuid) (kind params createdBy : String)
  | claim
  | saveProgress (id : Uuid) (p : Progress)
  | finish (id : Uuid) (ok : Bool) (p : Progress) (out : Outcome) (errText : String)
  | cancel (tenant : Option Uuid) (id : Uuid)
  | requeueOrphans (stale : Int)

/-- What an operation leaves its caller with: the job of a claim, and the error beside it. -/
def Operation.code (maxAttempts : Int) : Operation → JobsScript (Option Job × Option SqlError)
  | .enqueue tenant kind params createdBy => do
      let _ ← Jobs.enqueue tenant kind params createdBy
      return (none, none)
  | .claim => Jobs.claim
  | .saveProgress id p => do
      Jobs.saveProgress id p
      return (none, none)
  | .finish id ok p out errText => do
      Jobs.finish id (if ok then .succeeded else .failed) p out errText
      return (none, none)
  | .cancel tenant id => do
      let _ ← Jobs.cancel tenant id
      return (none, none)
  | .requeueOrphans stale => do
      let _ ← Jobs.requeueOrphans stale maxAttempts
      return (none, none)

inductive Draw where
  | time (now : Time)
  | uuid (id : Uuid)
  | ticks (count : Nat)
  | snapshot (p : Progress)
  | handler (ran : Ran)

def respond (_tid : Tid) : (request : Request) → Draw → Shared Job Label Unit → Option (request.Reply × Unit)
  | .now, .time now, _ => some (now, ())
  | .newV7, .uuid id, _ => some (id, ())
  | .ticks, .ticks count, _ => some (count, ())
  | .snapshot, .snapshot p, _ => some (p, ())
  | .handler _, .handler ran, _ => some (ran, ())
  | _, _, _ => none

abbrev State := Shared Job Label Unit

def State.empty : State := ⟨.holding [], ()⟩

end OpenEmarsys.Jobs
