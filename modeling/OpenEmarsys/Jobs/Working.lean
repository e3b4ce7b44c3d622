import OpenEmarsys.Jobs.Lifecycle
import OpenEmarsys.Jobs.Queue
import OpenEmarsys.Postgres.Superposition

/-! What a worker has in hand, read off the calls of its script.

A worker writes to no job but the one it has claimed last, and to that one until it claims again.
This is a typestate of the scripts of the queue; what it says of the table is `Hand.Fits`.
-/

set_option autoImplicit false

namespace OpenEmarsys.Jobs

open Interleaving Javascript Postgres

def Label.target : Label → Option Uuid
  | .saveProgress id | .finish id => some id
  | .enqueue | .claim | .cancel | .requeueOrphans => none

inductive Hand where
  | free
  /-- In the transaction of a claim, with the job it has returned. -/
  | claiming (job : Option Job)
  /-- A job whose claim was refused its commit. -/
  | refused
  | having (id : Uuid)
  /-- With a transaction for the job. -/
  | writing (id : Uuid)

namespace Hand

def allows : Action Job Label Request → Hand → Prop
  | _, .refused => True
  | .begin label, .free => label.target = none
  | .begin label, .having id => label = .claim ∨ label.target = some id
  | .begin _, .claiming _ | .begin _, .writing _ => False
  | .exec (.update _ f), .claiming none => ∀ job, (f job).id = job.id
  | .exec _, .claiming none => True
  | .start, .claiming job => job = none
  | .exec _, .claiming (some _) => False
  | .commit, .claiming job => job ≠ none
  | .start, .having _ | .exec _, .having _ | .commit, .having _ | .rollback, .having _ => False
  | _, _ => True

def after : (action : Action Job Label Request) → Answer Request.Reply action → Hand → Hand
  | .begin .claim, _, .free | .begin .claim, _, .having _ => .claiming none
  | .begin _, _, .having id => .writing id
  | .exec (.update _ _), .ok rows, .claiming none => .claiming rows.head?
  | .commit, .ok _, .claiming (some job) => .having job.id
  | .commit, .error _, .claiming (some _) => .refused
  | .commit, _, .writing id => .having id
  | .rollback, _, .claiming _ => .free
  | .rollback, _, .writing id => .having id
  | _, _, hand => hand

end Hand

def hands : Typestate (Action Job Label Request) (Answer Request.Reply) Hand := ⟨Hand.allows, Hand.after⟩

/-- What the hand holds when a script is done with it. -/
abbrev Handles {α : Type} (script : JobsScript α) (hand : Hand) (returns : α → Hand → Prop)
    (throws : Hand → Prop) : Prop :=
  script.Follows hands hand returns fun _ => throws

section Scripts
variable {α : Type} {hand : Hand}

theorem orThrow_handles {reply : Except SqlError α} {returns : α → Hand → Prop} {throws : Hand → Prop}
    (ok : ∀ value, reply = .ok value → returns value hand) (error : ∀ e, reply = .error e → throws hand) :
    Handles (orThrow reply : JobsScript α) hand returns throws := by
  cases reply with
  | ok value => exact ok value rfl
  | error e => exact error e rfl

theorem unlessRefused_handles {given : α × Option SqlError} :
    Handles (unlessRefused given) hand (fun _ => (· = hand)) (· = hand) := by
  obtain ⟨value, refused⟩ := given
  cases refused <;> exact rfl

theorem call_handles {request : Request} {next : request.Reply → JobsScript α} {returns : α → Hand → Prop}
    {throws : Hand → Prop} (later : ∀ reply, Handles (next reply) hand returns throws) :
    Handles (call request >>= next) hand returns throws := by
  refine ⟨by cases hand <;> trivial, fun reply => ?_⟩
  have same : hands.after (.other request) reply hand = hand := by
    cases hand <;> rfl
  rw [same]
  exact later reply

theorem refused_handles (script : JobsScript α) : Handles script .refused (fun _ => (· = .refused))
    (· = .refused) := by
  induction script with
  | ret value => exact rfl
  | fail error => exact rfl
  | call action rest ih =>
    refine ⟨?_, fun reply => ?_⟩
    · cases action <;> trivial
    · have same : hands.after action reply .refused = .refused := by
        change Hand.after action reply .refused = .refused
        unfold Hand.after
        split <;> first | rfl | contradiction
      rw [same]
      exact ih reply

/-- A call that opens no transaction of a worker. -/
def Foreign (action : Action Job Label Request) : Prop :=
  ∀ label, action = .begin label → label.target = none ∧ label ≠ .claim

theorem free_handles (script : JobsScript α) (others : script.Calls Foreign) :
    Handles script .free (fun _ => (· = .free)) (· = .free) := by
  induction script with
  | ret value => exact rfl
  | fail error => exact rfl
  | call action rest ih =>
    obtain ⟨other, later⟩ := others
    refine ⟨?_, fun reply => ?_⟩
    · cases action with
      | begin label => exact (other label rfl).1
      | _ => trivial
    · have same : hands.after action reply .free = .free := by
        change Hand.after action reply .free = .free
        unfold Hand.after
        split <;> first | rfl | contradiction | exact absurd rfl (other _ rfl).2
      rw [same]
      exact ih reply (later reply)

theorem writes_handles {label : Label} {id : Uuid} (isTarget : label.target = some id)
    (statement : Statement Job) :
    Handles (do
      let done ← inTx label (do
        let _ ← sql statement
        return ())
      unlessRefused done) (.having id) (fun _ => (· = .having id)) (· = .having id) := by
  have opened : hands.after (.begin label) () (.having id) = .writing id := by
    cases label <;> first | rfl | cases isTarget
  have body : Handles (sql statement >>= fun _ => (.ret () : JobsScript Unit)) (.writing id)
    (fun _ => (· = .writing id))
      (· = .writing id) := by
    refine ⟨trivial, fun _ => ⟨by cases statement <;> trivial, fun reply => ?_⟩⟩
    have same : hands.after (.exec statement) reply (.writing id) = .writing id := by
      cases statement <;> cases reply <;> rfl
    change Handles (orThrow reply >>= fun _ => .ret ())
      (hands.after (.exec statement) reply (.writing id)) _ _
    rw [same]
    refine Script.Follows.bind (orThrow_handles (fun _ _ => rfl) fun _ _ => rfl) ?_
    rintro _ _ rfl
    exact rfl
  have done : Handles (inTx label (sql statement >>= fun _ => (.ret () : JobsScript Unit))) (.having id)
      (fun _ => (· = .having id)) (· = .having id) := by
    refine ⟨.inr isTarget, fun _ => ?_⟩
    rw [opened]
    refine Script.Follows.handle (Script.Follows.bind body ?_) ?_
    · rintro value _ rfl
      refine ⟨trivial, fun reply => ?_⟩
      cases reply <;> exact rfl
    · rintro error _ rfl
      exact ⟨trivial, fun _ => rfl⟩
  exact Script.Follows.bind done fun _ _ same => same ▸ unlessRefused_handles

theorem saveProgress_handles (id : Uuid) (p : Progress) :
    Handles (saveProgress id p) (.having id) (fun _ => (· = .having id)) (· = .having id) :=
  ⟨trivial, fun _ => writes_handles rfl _⟩

theorem finish_handles (id : Uuid) (status : JobStatus) (p : Progress) (out : Outcome) (errText : String) :
    Handles (finish id status p out errText) (.having id) (fun _ => (· = .having id)) (· = .having id) :=
  ⟨trivial, fun _ => writes_handles rfl _⟩

theorem logged_handles {script : JobsScript Unit} {hand : Hand} {throws : Hand → Prop}
    (handles : Handles script hand (fun _ => (· = hand)) (· = hand)) :
    Handles (logged script) hand (fun _ => (· = hand)) throws :=
  Script.Follows.handle handles fun _ _ same => same

theorem saves_handles (id : Uuid) (count : Nat) {throws : Hand → Prop} :
    Handles (saves id count) (.having id) (fun _ => (· = .having id)) throws := by
  induction count with
  | zero => exact rfl
  | succ count ih =>
    refine call_handles fun (p : Progress) => Script.Follows.bind
      (logged_handles (saveProgress_handles id p)) ?_
    rintro _ _ rfl
    exact ih

theorem runJob_handles (kinds : String → Bool) (j : Job) {throws : Hand → Prop} :
    Handles (runJob kinds j) (.having j.id) (fun _ => (· = .having j.id)) throws := by
  unfold runJob
  split
  · exact logged_handles (finish_handles _ _ _ _ _)
  · refine call_handles fun (ticks : Nat) => Script.Follows.bind (saves_handles j.id ticks) ?_
    rintro _ _ rfl
    refine call_handles fun (ran : Ran) => call_handles
      fun (late : Nat) => Script.Follows.bind (saves_handles j.id late) ?_
    rintro _ _ rfl
    cases ran with
    | down => exact rfl
    | failed p out err => exact logged_handles (finish_handles _ _ _ _ _)
    | returned p out => exact logged_handles (finish_handles _ _ _ _ _)

def Hand.Open (hand : Hand) : Prop := hand = .free ∨ ∃ id, hand = .having id

def Claimed (given : Option Job × Option SqlError) (hand : Hand) : Prop :=
  (given.1 = none ∧ hand = .free) ∨ (∃ job, given.1 = some job ∧ hand = .having job.id) ∨ hand = .refused

def claimJob (now : Time) : JobsScript Job := do
  let oldest ← sql (.lockSkip (fun job => job.status == .queued)
    (fun job other => job.createdAt ≤ other.createdAt) 1)
  let rows ← sql (.update (fun job => oldest.any fun found => found.id == job.id) (claimed now))
  scan rows

theorem claimJob_handles (now : Time) :
    Handles (claimJob now) (.claiming none) (fun job => (· = .claiming (some job)))
    fun hand => ∃ job, hand = .claiming job := by
  refine ⟨rfl, fun _ => ⟨trivial, fun reply => ?_⟩⟩
  cases reply with
  | error error => exact ⟨none, rfl⟩
  | ok oldest =>
    refine ⟨rfl, fun _ => ⟨fun _ => rfl, fun reply => ?_⟩⟩
    cases reply with
    | error error => exact ⟨none, rfl⟩
    | ok rows =>
      cases rows with
      | nil => exact ⟨none, rfl⟩
      | cons job rest => exact rfl

theorem inTx_claims {hand : Hand} (open_ : hand.Open) (now : Time) :
    Handles (inTx .claim (claimJob now)) hand (fun given hand => Claimed (some given.1, given.2) hand)
    (· = .free) := by
  have begins : hands.allows (.begin .claim) hand ∧ hands.after (.begin .claim) () hand = .claiming none := by
    rcases open_ with rfl | ⟨id, rfl⟩
    · exact ⟨rfl, rfl⟩
    · exact ⟨.inl rfl, rfl⟩
  refine ⟨begins.1, fun _ => ?_⟩
  rw [begins.2]
  refine Script.Follows.handle (Script.Follows.bind (claimJob_handles now) ?_) ?_
  · rintro job _ rfl
    refine ⟨Option.some_ne_none job, fun reply => ?_⟩
    cases reply with
    | ok _ => exact .inr (.inl ⟨job, rfl, rfl⟩)
    | error error => exact .inr (.inr rfl)
  · rintro error _ ⟨job, rfl⟩
    exact ⟨trivial, fun _ => rfl⟩

theorem claim_handles {hand : Hand} (open_ : hand.Open) : Handles claim hand Claimed (· = .free) := by
  refine call_handles fun (now : Time) => ?_
  refine Script.Follows.handle (Script.Follows.bind (inTx_claims open_ now)
    fun given hand claimed => claimed) ?_
  rintro error _ rfl
  cases error with
  | notFound => exact .inl ⟨rfl, rfl⟩
  | _ => exact rfl

theorem work_handles (kinds : String → Bool) (rounds : Nat) {hand : Hand} (open_ : hand.Open) :
    Handles (work kinds rounds) hand (fun _ _ => True) fun _ => True := by
  induction rounds generalizing hand with
  | zero => trivial
  | succ rounds ih =>
    have claims : Handles (claim.handle fun _ => .ret (none, none)) hand Claimed fun _ => True := by
      refine Script.Follows.handle (claim_handles open_) ?_
      rintro error _ rfl
      exact .inl ⟨rfl, rfl⟩
    refine Script.Follows.bind claims ?_
    rintro ⟨job, refused⟩ hand (⟨none_, rfl⟩ | ⟨j, some_, rfl⟩ | rfl)
    · cases none_
      exact ih (.inl rfl)
    · cases some_
      refine Script.Follows.bind (runJob_handles kinds j) ?_
      rintro _ _ rfl
      exact ih (.inr ⟨j.id, rfl⟩)
    · exact (refused_handles _).mono (fun _ _ _ => trivial) fun _ _ _ => trivial

theorem inTx_foreign {label : Label} (other : label.target = none ∧ label ≠ .claim) {body : JobsScript α}
    (calls : body.Calls Foreign) : (inTx label body : JobsScript (α × Option SqlError)).Calls Foreign := by
  refine inTx_calls ?_ (by rintro _ ⟨⟩) (by rintro _ ⟨⟩) calls
  rintro _ ⟨⟩
  exact other

theorem sql_foreign (statement : Statement Job) : (sql statement : JobsScript (List Job)).Calls Foreign :=
  sql_calls (by rintro _ ⟨⟩) (by rintro _ ⟨⟩)

theorem unlessRefused_foreign (given : α × Option SqlError) : (unlessRefused given).Calls Foreign := by
  obtain ⟨value, refused⟩ := given
  cases refused <;> trivial

theorem call_foreign {request : Request} {next : request.Reply → JobsScript α}
    (later : ∀ reply, (next reply).Calls Foreign) :
    (call request >>= next).Calls Foreign := ⟨by rintro _ ⟨⟩, later⟩

theorem cancel_foreign (tenant : Option Uuid) (id : Uuid) : (cancel tenant id).Calls Foreign := by
  cases tenant with
  | none => trivial
  | some tid =>
    refine call_foreign fun (now : Time) => Script.Calls.bind
      (inTx_foreign ⟨rfl, by decide⟩ ?_) unlessRefused_foreign
    refine Script.Calls.bind (sql_foreign _) fun rows => ?_
    cases rows with
    | cons job rest => trivial
    | nil =>
      refine Script.Calls.bind (sql_foreign _) fun rows => ?_
      cases rows <;> trivial

theorem enqueue_foreign (tenant : Option Uuid) (kind params createdBy : String) :
    (enqueue tenant kind params createdBy).Calls Foreign := by
  cases tenant with
  | none => trivial
  | some tid =>
    refine call_foreign fun (id : Uuid) => call_foreign fun (now : Time) => ?_
    exact Script.Calls.bind (inTx_foreign ⟨rfl, by decide⟩ (Script.Calls.bind (sql_foreign _)
      fun _ => trivial)) unlessRefused_foreign

theorem requeueOrphans_foreign (stale maxAttempts : Int) :
    (requeueOrphans stale maxAttempts).Calls Foreign := by
  refine call_foreign fun (now : Time) => ?_
  exact Script.Calls.bind (inTx_foreign ⟨rfl, by decide⟩ (Script.Calls.bind (sql_foreign _)
    fun _ => trivial)) unlessRefused_foreign

theorem process_handles (kinds : String → Bool) (opt : Options) (process : Process) :
    Handles (process.code kinds opt) .free (fun _ _ => True) fun _ => True := by
  have others : ∀ {script : JobsScript Unit}, script.Calls Foreign →
      Handles script .free (fun _ _ => True) fun _ => True :=
    fun calls => (free_handles _ calls).mono (fun _ _ _ => trivial) fun _ _ _ => trivial
  cases process with
  | worker rounds => exact work_handles kinds rounds (.inl rfl)
  | recover => exact others (Script.Calls.bind (requeueOrphans_foreign _ _) fun _ => trivial)
  | enqueue tenant kind params createdBy =>
    exact others (Script.Calls.bind (enqueue_foreign _ _ _ _) fun _ => trivial)
  | cancel tenant id => exact others (Script.Calls.bind (cancel_foreign _ _) fun _ => trivial)

end Scripts

/-! ## The hand and the table -/

/-- The latest claim of the job was made by this process, and for the attempt the row counts. -/
def HasLatest (log : Log) (pid : Tid) (job : Job) : Prop :=
  (claimsOf job.id log).getLast? = some ⟨pid, job.id, job.attempts⟩

/-- The process made the latest claim of the job, and the job has not gone back to the queue. -/
def Holds (pid : Tid) (id : Uuid) (server : Server Job Label) : Prop :=
  ∃ job ∈ server.rows, job.id = id ∧ job.status ≠ .queued ∧ HasLatest server.log pid job

/-- The job that the open transaction is for, if it is a worker's. -/
def target (tx : Tx Job Label) : Option Uuid := tx.label.bind Label.target

/-- The transaction of the process and the table are as its hand says. -/
def Hand.Fits (pid : Tid) (server : Server Job Label) : Hand → Prop
  | .free => (server.txs pid).label ≠ some .claim ∧ target (server.txs pid) = none
  | .claiming none => (server.txs pid).label = none ∨ (server.txs pid).label = some .claim
  | .claiming (some job) => (server.txs pid).label = some .claim ∧ job ∈ (server.txs pid).added
  | .refused => False
  | .having id => (server.txs pid).label = none ∧ Holds pid id server
  | .writing id => ((server.txs pid).label = none ∨ target (server.txs pid) = some id) ∧ Holds pid id server

namespace Hand

variable {pid : Tid} {server next : Server Job Label} {hand : Hand}

theorem Fits.same (fits : hand.Fits pid server) (rows : next.rows = server.rows) (log : next.log = server.log)
    (label : (next.txs pid).label = (server.txs pid).label)
    (added : (next.txs pid).added = (server.txs pid).added) :
    hand.Fits pid next := by
  unfold Fits Holds target at *
  rw [rows, log, label, added]
  exact fits

theorem Fits.closed (fits : hand.Fits pid server) (rows : next.rows = server.rows)
    (log : next.log = server.log)
    (closed : (next.txs pid).label = none) (unclaimed : ∀ job, hand ≠ .claiming (some job)) :
    hand.Fits pid next := by
  cases hand with
  | free => simp [Fits, target, closed]
  | claiming job =>
    cases job with
    | none => exact .inl closed
    | some job => exact absurd rfl (unclaimed job)
  | refused => exact fits
  | having id =>
    unfold Fits Holds at *
    rw [rows, log]
    exact ⟨closed, fits.2⟩
  | writing id =>
    unfold Fits Holds at *
    rw [rows, log]
    exact ⟨.inl closed, fits.2⟩

theorem fits_free (closed : (server.txs pid).label = none) : Hand.free.Fits pid server := by
  simp [Fits, target, closed]

theorem Fits.begin (fits : hand.Fits pid server) {label : Label}
    (allowed : hands.allows (.begin label) hand) :
    (hands.after (.begin label) () hand).Fits pid (server.begin pid label) := by
  have opened : ((server.begin pid label).txs pid).label = some label := by simp [Server.begin]
  cases hand with
  | free =>
    cases label with
    | claim => exact .inr opened
    | saveProgress id => cases allowed
    | finish id => cases allowed
    | _ => simp [hands, Hand.after, Fits, target, opened, Label.target]
  | claiming job => cases allowed
  | refused => exact False.elim fits
  | having id =>
    rcases allowed with rfl | isTarget
    · exact .inr opened
    · have after : hands.after (.begin label) () (.having id) = .writing id := by
        cases label <;> first | rfl | cases isTarget
      rw [after]
      exact ⟨.inr (by simp [target, opened, isTarget]), fits.2⟩
  | writing id => cases allowed

theorem Fits.exec (sane : Sane server) (fits : hand.Fits pid server) {statement : Statement Job}
    {rows : List Job} {tx : Tx Job Label}
    (allowed : hands.allows (.exec statement) hand) (opened : (server.txs pid).label.isSome = true)
    (run : server.execute pid statement = some (.ok (rows, tx))) :
    (hands.after (.exec statement) (.ok rows) hand).Fits pid (server.setTx pid tx) := by
  have label : ((server.setTx pid tx).txs pid).label = (server.txs pid).label := by
    simpa [Server.setTx] using (execute_continues run).label
  have goal_ : target ((server.setTx pid tx).txs pid) = target (server.txs pid) := by
    rw [target, label, target]
  cases hand with
  | free =>
    have after : hands.after (.exec statement) (.ok rows) .free = .free := by cases statement <;> rfl
    rw [after, Fits, label, goal_]
    exact fits
  | claiming job =>
    cases job with
    | some job => cases statement <;> cases allowed
    | none =>
      have isClaim : (server.txs pid).label = some .claim := fits.resolve_left fun closed => by
        simp [closed] at opened
      cases statement with
      | update p f =>
        obtain ⟨-, change⟩ := execute_update sane allowed run
        cases rows with
        | nil => exact .inr (label.trans isClaim)
        | cons job rest =>
          refine ⟨label.trans isClaim, ?_⟩
          simpa [Server.setTx] using (change.added job).mpr (.inr (List.mem_cons_self ..))
      | _ => exact .inr (label.trans isClaim)
  | refused => exact False.elim fits
  | having id => cases allowed
  | writing id =>
    have after : hands.after (.exec statement) (.ok rows) (.writing id) = .writing id := by
      cases statement <;> rfl
    rw [after]
    unfold Fits at *
    rw [label, goal_]
    exact fits

theorem after_failed {statement : Statement Job} {error : SqlError} :
    hands.after (.exec statement) (.error error) hand = hand := by
  cases hand with
  | claiming job => cases job <;> cases statement <;> rfl
  | _ => cases statement <;> rfl

theorem Fits.act {shared after : State} (sane : Sane shared.server) (fits : hand.Fits pid shared.server)
    {action : Action Job Label Request} {choice : Draw} {reply : Answer Request.Reply action}
    (allowed : hands.allows action hand)
    (uncommitted : action ≠ .commit)
    (taken : (machine respond).act pid action choice shared = some (reply, after)) :
    (hands.after action reply hand).Fits pid after.server := by
  cases action with
  | begin label =>
    cases taken
    exact fits.begin allowed
  | start =>
    simp only [machine, Option.some.injEq, Prod.mk.injEq] at taken
    obtain ⟨-, rfl⟩ := taken
    have same : hands.after .start reply hand = hand := by cases hand <;> rfl
    rw [same]
    split
    · exact fits.same rfl rfl (by simp [Server.start, Server.setTx]) (by simp [Server.start, Server.setTx])
    · exact fits
  | exec statement =>
    simp only [machine] at taken
    split at taken
    · next opened =>
      split at taken
      · cases taken
      · next rows tx run =>
        cases taken
        exact fits.exec sane allowed opened run
      · cases taken
        rw [after_failed]
        exact fits
    · cases taken
      rw [after_failed]
      exact fits
  | commit => exact absurd rfl uncommitted
  | rollback =>
    cases taken
    have closed : ((shared.server.rollback pid).txs pid).label = none := by
      simp [Server.rollback, Server.setTx, Tx.idle]
    cases hand with
    | free => exact fits_free closed
    | claiming job => exact fits_free closed
    | refused => exact False.elim fits
    | having id => cases allowed
    | writing id => exact ⟨closed, fits.2⟩
  | other request =>
    simp only [machine, Option.map_eq_some_iff, Prod.exists, Prod.mk.injEq] at taken
    obtain ⟨given, world, -, -, rfl⟩ := taken
    have same : hands.after (.other request) reply hand = hand := by cases hand <;> rfl
    rw [same]
    exact fits

end Hand

end OpenEmarsys.Jobs
