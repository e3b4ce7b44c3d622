import OpenEmarsys.Postgres.Superposition
import OpenEmarsys.Jobs.Fencing

/-! The job handler of exports and its `system.job.completed` notices.

The notice is published before the queue writes how the job ended, and neither waits for
the other.
-/

set_option autoImplicit false

namespace OpenEmarsys.Exports

open Interleaving Javascript Postgres Jobs

def kind : String := "export"

/-- A presigned URL, as `PresignGet` returns it without an error. -/
structure DownloadURL where
  text : String
  nonempty : text ≠ ""

/-- The data of a `system.job.completed` event. -/
structure Notice where
  jobID : Uuid
  tenantID : Uuid
  kind : String
  status : JobStatus
  resultURL : Option String := none
  expiresAt : Option Time := none
  error : Option String := none
  deriving DecidableEq

/-- What `notify` publishes, `ttl` being the lifetime of the URL. -/
def notify (ttl : Nat) (j : Job) (now : Time) : Except String DownloadURL → Notice
  | .error jobErr =>
    { jobID := j.id, tenantID := j.tenantID, kind := kind, status := .failed, error := some jobErr }
  | .ok url =>
      { jobID := j.id, tenantID := j.tenantID, kind := kind, status := .succeeded
        resultURL := some url.text, expiresAt := some (now + ttl) }

/-- When the context of a worker that goes down is cancelled. -/
inductive Shutdown where
  | none
  | beforeNotice
  | afterNotice
  deriving DecidableEq, Repr

/-- A call of `handler.run`: how `export` ended, with the reporter's last snapshot. -/
structure Attempt where
  export_ : Except String DownloadURL
  progress : Progress
  now : Time
  shutdown : Shutdown
  /-- There is an event bus, and it has taken the event. -/
  accepted : Bool

/-- Shutting down: the job is recovered as an orphan, no notice yet. -/
def Attempt.notice (attempt : Attempt) (ttl : Nat) (j : Job) : Option Notice :=
  if attempt.shutdown ≠ .beforeNotice ∧ attempt.accepted
    then some (notify ttl j attempt.now attempt.export_) else none

/-- What the queue gets from `handler.run`. -/
def Attempt.ran (attempt : Attempt) : Ran :=
  match attempt.shutdown with
  | .none =>
      match attempt.export_ with
      | .error err => .failed attempt.progress {} err
      | .ok url => .returned attempt.progress { resultURL := url.text }
  | _ => .down

/-- A notice on the event bus, with its history: who published it, for which attempt at the
job, and after which commits. -/
structure Published where
  publisher : Tid
  attempt : Nat
  earlier : Log
  notice : Notice

inductive Answered where
  | draw (draw : Draw)
  | attempt (attempt : Attempt)

/-- Export jobs go to `handler.run`, all else is as in any queue. -/
def respond (ttl : Nat) (pid : Tid) :
    (request : Request) → Answered → Shared Job Label (List Published) → Option
    (request.Reply × List Published)
  | .handler j, .attempt attempt, shared =>
      if j.kind = kind then
        some (attempt.ran, shared.world ++
          (attempt.notice ttl j).toList.map fun notice => ⟨pid, j.attempts, shared.server.log, notice⟩)
      else none
  | .handler j, .draw draw, shared =>
      if j.kind = kind then none
      else (Jobs.respond pid (.handler j) draw ⟨shared.server, ()⟩).map
        fun (reply, _) => (reply, shared.world)
  | request, .draw draw, shared => (Jobs.respond pid request draw ⟨shared.server, ()⟩).map
    fun (reply, _) => (reply, shared.world)
  | _, .attempt _, _ => none

abbrev ExportConfig :=
  Interleaving.Config Process (Action Job Label Request) (Answer Request.Reply) JobsError Unit
    (Shared Job Label (List Published))

def empty : Shared Job Label (List Published) := ⟨.holding [], []⟩

/-- Each notice says how its job ends, and no job has two. -/
structure Agreed (rows : List Job) (published : List Published) : Prop where
  ends : ∀ sent ∈ published, ∀ job ∈ rows, job.id = sent.notice.jobID → job.status.ended = true →
    sent.notice.status = job.status ∧ (job.status = .succeeded → sent.notice.resultURL = job.resultURL)
  once : (published.map fun sent => sent.notice.jobID).Nodup

/-- The notice was published while the job ran, under the attempt that its publisher had claimed. -/
def Owned (sent : Published) : Prop :=
  ∃ job ∈ rowsAfter [] sent.earlier, job.id = sent.notice.jobID ∧ job.status = .running ∧
    job.attempts = sent.attempt ∧
    (⟨sent.publisher, job.id, sent.attempt⟩ : Handed) ∈ handed sent.earlier

/-- Since the notice nobody but its publisher has written to the running job: it was neither
cancelled nor requeued, and no other worker has ended it. -/
def Unhindered (log : Log) (sent : Published) : Prop :=
  ∀ past commit, sent.earlier <+: past → past ++ [commit] <+: log →
    ∀ old ∈ commit.before, old.id = sent.notice.jobID →
    old.status = .running → commit.tx.removes old = true → ByWorker commit ∧ commit.tid = sent.publisher

end OpenEmarsys.Exports
