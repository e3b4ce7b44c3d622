import OpenEmarsys.Jobs.Operations

/-! `Queue`: workers that claim jobs and run them, and the janitor that recovers orphans.

A worker is one process however many jobs it works. What the handler does and how
often the progress is saved meanwhile is open; both end before `finish`.
-/

set_option autoImplicit false

namespace OpenEmarsys.Jobs

open Interleaving Javascript Postgres

/-- An error is written to the log and forgotten. -/
def logged (script : JobsScript Unit) : JobsScript Unit := script.handle fun _ => .ret ()

/-- The ticks of `ProgressEvery` while the handler runs. -/
def saves (id : Uuid) : Nat → JobsScript Unit
  | 0 => return ()
  | count + 1 => do
      let p ← call .snapshot
      logged (saveProgress id p)
      saves id count

/-- `Queue.run`; `handles` tells the kinds that have a handler. -/
def runJob (handles : String → Bool) (j : Job) : JobsScript Unit :=
  if ¬ handles j.kind then
    logged (finish j.id .failed j.progress {} ("no handler for kind " ++ j.kind))
  else do
    let ticks ← call .ticks
    saves j.id ticks
    let ran ← call (.handler j)
    -- what the handler has done by now may be saved before it returns
    let late ← call .ticks
    saves j.id late
    match ran with
    | .down => return ()  -- the job is left running for orphan recovery
    | .failed p out err => logged (finish j.id .failed p out err)
    | .returned p out => logged (finish j.id .succeeded { p with percent := .ofNat 100 } out "")

def runIfAny (handles : String → Bool) : Option Job → JobsScript Unit
  | none => return ()
  | some j => runJob handles j

/-- `Queue.work`, for so many rounds. A job in hand is run even if its claim returned an error. -/
def work (handles : String → Bool) : Nat → JobsScript Unit
  | 0 => return ()
  | rounds + 1 => do
      let given ← claim.handle fun _ => .ret (none, none)
      runIfAny handles given.1
      work handles rounds

/-- What runs in the replicas, and the API calls of tenants. -/
inductive Process where
  | worker (rounds : Nat)
  /-- `Queue.recover`. -/
  | recover
  | enqueue (tenant : Option Uuid) (kind params createdBy : String)
  | cancel (tenant : Option Uuid) (id : Uuid)

def Process.code (handles : String → Bool) (opt : Options) : Process → JobsScript Unit
  | .worker rounds => work handles rounds
  | .recover => do
      let _ ← requeueOrphans (newQueue opt).stale (newQueue opt).maxAttempts
      return ()
  | .enqueue tenant kind params createdBy => do
      let _ ← Jobs.enqueue tenant kind params createdBy
      return ()
  | .cancel tenant id => do
      let _ ← Jobs.cancel tenant id
      return ()

section Queue

variable {Call Choice World : Type} {maxAttempts : Int} {Seen : Tid → Label → Job → Log → Prop} {pid : Tid}
  {respond : Tid → (request : Request) → Choice → Shared Job Label World → Option (request.Reply × World)}
  {rules : Rules Call (Action Job Label Request) (Shared Job Label World)}
    (watched : Watched maxAttempts Seen rules)
  (persists : ∀ tid label old, Persists (Seen tid label old))

theorem logged_does {script : JobsScript Unit} (does : Does maxAttempts Seen respond rules pid script) :
    Does maxAttempts Seen respond rules pid (logged script) :=
  PublicProtocol.Step.handle does fun _ => ret_does ()

include watched persists

theorem saves_does (id : Uuid) (count : Nat) : Does maxAttempts Seen respond rules pid (saves id count) := by
  induction count with
  | zero => exact ret_does ()
  | succ count ih =>
    refine bind_does (call_step .snapshot) fun p => ?_
    refine bind_does (logged_does (saveProgress_does watched persists id p)) fun _ => ?_
    exact ih

theorem runJob_does (handles : String → Bool) (j : Job) :
    Does maxAttempts Seen respond rules pid (runJob handles j) := by
  unfold runJob
  split
  · exact logged_does (finish_does watched persists j.id (.inr rfl) _ _ _)
  · refine bind_does (call_step .ticks) fun (ticks : Nat) => ?_
    refine bind_does (saves_does watched persists j.id ticks) fun _ => ?_
    refine bind_does (call_step (.handler j)) fun (ran : Ran) => ?_
    refine bind_does (call_step .ticks) fun (late : Nat) => ?_
    refine bind_does (saves_does watched persists j.id late) fun _ => ?_
    cases ran with
    | down => exact ret_does ()
    | failed p out err => exact logged_does (finish_does watched persists j.id (.inr rfl) _ _ _)
    | returned p out => exact logged_does (finish_does watched persists j.id (.inl rfl) _ _ _)

theorem work_does (handles : String → Bool) (rounds : Nat) :
    Does maxAttempts Seen respond rules pid (work handles rounds) := by
  induction rounds with
  | zero => exact ret_does ()
  | succ rounds ih =>
    have claims : Does maxAttempts Seen respond rules pid claim :=
      (claim_does watched persists).weaken fun _ _ _ _ => trivial
    refine bind_does (PublicProtocol.Step.handle claims fun _ => ret_does (none, none))
      fun given => bind_does ?_ fun _ => ih
    cases given.1 with
    | none => exact ret_does ()
    | some j => exact runJob_does watched persists handles j

end Queue

theorem process_does {Call Choice World : Type} {Seen : Tid → Label → Job → Log → Prop} {pid : Tid}
    {respond : Tid → (request : Request) → Choice → Shared Job Label World → Option (request.Reply × World)}
    {rules : Rules Call (Action Job Label Request) (Shared Job Label World)} (handles : String → Bool)
    (opt : Options) (watched : Watched (newQueue opt).maxAttempts Seen rules)
    (persists : ∀ tid label old, Persists (Seen tid label old)) (process : Process) :
    Does (newQueue opt).maxAttempts Seen respond rules pid (process.code handles opt) := by
  cases process with
  | worker rounds => exact work_does watched persists handles rounds
  | recover => exact bind_does (requeueOrphans_does watched persists _) fun _ => ret_does ()
  | enqueue tenant kind params createdBy =>
    exact bind_does (enqueue_does persists tenant kind params createdBy) fun _ => ret_does ()
  | cancel tenant id => exact bind_does (cancel_does watched persists tenant id) fun _ => ret_does ()

end OpenEmarsys.Jobs
