import OpenEmarsys.Jobs.Working

/-! Attempt fencing: which worker may write to the row of a job.

`saveProgress` and `finish` find the job by its id and the status running, so a worker
that has lost its job writes to it again once another one runs it. It does not when jobs are
only requeued after their workers have let go of them.
-/

set_option autoImplicit false

namespace OpenEmarsys.Jobs

open Interleaving Javascript Postgres

abbrev QueueConfig := Interleaving.Config Process (Action Job Label Request)
    (Answer Request.Reply) JobsError Unit State

/-- The progress, the terminal status, the URLs or the error has been written. -/
def Written (old new : Job) : Prop :=
  new.progress ≠ old.progress ∨ (new.status ≠ old.status ∧ new.status.ended = true) ∨
    new.resultURL ≠ old.resultURL ∨
    new.errorReportURL ≠ old.errorReportURL ∨ new.error ≠ old.error

/-- The commit is a worker's, for a job it runs. -/
def ByWorker (commit : Commit Job Label) : Prop :=
  ∃ id, commit.tx.label = some (.saveProgress id) ∨ commit.tx.label = some (.finish id)

/-- Only the worker of the latest claim writes to the row of a job; `Cancel` and
`requeueOrphans` end jobs too. -/
structure Fenced (log : Log) : Prop where
  writer : ∀ past commit, past ++ [commit] <+: log → ∀ old ∈ commit.before,
    ∀ new ∈ commit.after, new.id = old.id →
      Written old new → commit.tx.label = some .cancel ∨ commit.tx.label = some .requeueOrphans ∨
      (ByWorker commit ∧ HasLatest past commit.tid old)
  worker : ∀ past commit, past ++ [commit] <+: log → ByWorker commit →
    ∀ old ∈ commit.before, ∀ new ∈ commit.after,
    new.id = old.id → new ≠ old → HasLatest past commit.tid old

/-- The job is not running, or under an attempt that the process has claimed. -/
def mayWrite (pid : Tid) (id : Uuid) (server : Server Job Label) : Bool :=
  server.rows.all fun job => job.id != id || job.status != .running ||
    (handed server.log).contains ⟨pid, id, job.attempts⟩

/-- A worker's statement does not find its job running under another attempt than one the
worker has claimed. -/
def attemptKept (pid : Tid) (action : Action Job Label Request) (shared : State) : Bool :=
  match action, (shared.server.txs pid).label with
  | .exec _, some (.saveProgress id) => mayWrite pid id shared.server
  | .exec _, some (.finish id) => mayWrite pid id shared.server
  | _, _ => true

def keepsAttempts : Rules Process (Action Job Label Request) State where
  act pid action shared := attemptKept pid action shared = true

/-- What the rule says of a job that a worker's statement moves. -/
def ClaimedBy (pid : Tid) (label : Label) (old : Job) (log : Log) : Prop :=
  label = .saveProgress old.id ∨ label = .finish old.id → (⟨pid, old.id, old.attempts⟩ : Handed) ∈ handed log

theorem claimedBy_persists (pid : Tid) (label : Label) (old : Job) : Persists (ClaimedBy pid label old) :=
  fun log next grown known isWorker => handed_persists _ log next grown (known isWorker)

theorem mayWrite_claimed {pid : Tid} {server : Server Job Label} {job : Job}
    (allowed : mayWrite pid job.id server = true)
    (present : job ∈ server.rows) (running : job.status = .running) :
    (⟨pid, job.id, job.attempts⟩ : Handed) ∈ handed server.log := by
  have holds := List.all_eq_true.mp allowed job present
  simpa [running] using holds

theorem watched_keepsAttempts (maxAttempts : Int) : Watched maxAttempts ClaimedBy keepsAttempts := by
  intro pid p f shared label old permitted isLabel present moves isWorker
  have running := moves.running isWorker
  refine mayWrite_claimed ?_ present running
  change attemptKept pid (.exec (.update p f)) shared = true at permitted
  rcases isWorker with rfl | rfl <;> simpa [attemptKept, isLabel] using permitted

section Journal

variable {maxAttempts : Int} {log past : Log} {commit : Commit Job Label} {old new : Job}

theorem latest_claim {Seen : Tid → Label → Job → Log → Prop}
    (journal : Journal [] (Effect maxAttempts Seen) log)
    (present : old ∈ rowsAfter [] log) {pid : Tid}
    (claimed : (⟨pid, old.id, old.attempts⟩ : Handed) ∈ handed log) :
    HasLatest log pid old := by
  have numbers := (counted journal).rows old present
  have member : (⟨pid, old.id, old.attempts⟩ : Handed) ∈ claimsOf old.id log :=
    List.mem_filter.mpr ⟨claimed, by simp⟩
  obtain ⟨last, isLast⟩ := Option.ne_none_iff_exists'.mp
    fun none_ => List.ne_nil_of_mem member (List.getLast?_eq_none_iff.mp none_)
  have within := List.mem_of_getLast? isLast
  have attempt : last.attempt = old.attempts := by
    have ends := congrArg List.getLast? numbers
    rw [List.getLast?_map, isLast, List.getLast?_range'] at ends
    split at ends
    · cases ends
    · have number := Option.some.inj ends
      omega
  have equal := handed_once journal (List.mem_filter.mp within).1 claimed
    (of_decide_eq_true (List.mem_filter.mp within).2) attempt
  rw [HasLatest, isLast, equal]

theorem moved_of_ne {Seen : Tid → Label → Job → Log → Prop}
    (journal : Journal [] (Effect maxAttempts Seen) log)
    (earlier : past ++ [commit] <+: log) (before : old ∈ commit.before) (after : new ∈ commit.after)
    (same : new.id = old.id) (changed : new ≠ old) :
    old ∈ rowsAfter [] past ∧ ∃ label, commit.tx.label = some label ∧ Transition maxAttempts label old new ∧
      Seen commit.tid label old past := by
  obtain ⟨isBefore, effect⟩ := journal.entry earlier
  have apart : commit.before.Pairwise NoClash :=
    isBefore ▸ journal_apart (journal.prefix_ ((List.prefix_append past _).trans earlier))
  have apartAfter : commit.after.Pairwise NoClash := by
    have whole := journal_apart (journal.prefix_ earlier)
    rwa [rowsAfter_append] at whole
  refine ⟨isBefore ▸ before, ?_⟩
  rcases effect.after after with stays | ⟨isEnqueue, -⟩ | ⟨source, member, label, isLabel, moves, seen⟩
  · exact absurd (eq_of_primary apart stays before same) changed
  · rcases effect.before apart before with stays | ⟨moved, -, label, isLabel, moves⟩
    · exact absurd (eq_of_primary apartAfter after stays same) changed
    · rw [isEnqueue] at isLabel
      cases isLabel
      cases moves
  · cases eq_of_primary apart member before (moves.id.symm.trans same)
    exact ⟨label, isLabel, moves, seen⟩

theorem fenced (journal : Journal [] (Effect maxAttempts ClaimedBy) log) : Fenced log := by
  have worker : ∀ past commit, past ++ [commit] <+: log → ByWorker commit →
      ∀ old ∈ commit.before, ∀ new ∈ commit.after,
      new.id = old.id → new ≠ old → HasLatest past commit.tid old := by
    rintro past commit earlier ⟨id, isWorker⟩ old before new after same changed
    obtain ⟨present, label, isLabel, moves, seen⟩ := moved_of_ne journal earlier before after same changed
    refine latest_claim (journal.prefix_ ((List.prefix_append past _).trans earlier)) present (seen ?_)
    rcases isWorker with isSave | isFinish
    · rw [isSave] at isLabel
      cases isLabel
      cases moves
      exact .inl rfl
    · rw [isFinish] at isLabel
      cases isLabel
      cases moves
      exact .inr rfl
  refine ⟨fun past commit earlier old before new after same written => ?_, worker⟩
  have changed : new ≠ old := by
    rintro rfl
    simp [Written] at written
  obtain ⟨-, label, isLabel, moves, -⟩ := moved_of_ne journal earlier before after same changed
  cases moves with
  | claim now queued => simp [Written, claimed, JobStatus.ended] at written
  | cancel now alive => exact .inl isLabel
  | requeue now running => exact .inr (.inl isLabel)
  | saveProgress now p running =>
    have byWorker : ByWorker commit := ⟨_, .inl isLabel⟩
    exact .inr (.inr ⟨byWorker, worker past commit earlier byWorker old before _ after same changed⟩)
  | finish now status p out errText running ends =>
    have byWorker : ByWorker commit := ⟨_, .inr isLabel⟩
    exact .inr (.inr ⟨byWorker, worker past commit earlier byWorker old before _ after same changed⟩)

end Journal

/-- Some replies let the script open a transaction for the job before it claims again. -/
def Pursues (id : Uuid) : JobsScript Unit → Prop
  | .ret _ | .fail _ => False
  | .call action rest => action ≠ .begin .claim ∧
      ((∃ label, action = .begin label ∧ label.target = some id) ∨ ∃ reply, Pursues id (rest reply))

/-- The worker is in a transaction for the job, or may open one before it claims again. -/
def StillAt (config : QueueConfig) (worker : Tid) (id : Uuid) : Prop :=
  ∃ process script, config.procs worker = .running process script ∧
    (config.state.server.txs worker).label ≠ some .claim ∧
    (target (config.state.server.txs worker) = some id ∨ Pursues id script)

/-- `requeueOrphans` puts no job back in the queue whose worker is still at it, and the server closes no
claim that has got its job. -/
def letsGo (config : QueueConfig) : Move Process Draw → Prop
  | .act pid _ => (config.procs pid).next = some .commit →
      (config.state.server.txs pid).label = some .requeueOrphans →
        ∀ job ∈ (config.state.server.txs pid).added, job.status = .queued →
        ∀ worker, HasLatest config.state.server.log worker job → ¬ StillAt config worker job.id
  | .disturb pid _ => ¬ Claiming (config.state.server.txs pid)
  | .spawn .. | .crash _ => True

theorem free_of_unpursued {id : Uuid} {script : JobsScript Unit} (unpursued : ¬ Pursues id script)
    {hand : Hand} (has : hand = .having id ∨ hand = .writing id)
    (handles : Handles script hand (fun _ _ => True) fun _ => True) :
    Handles script .free (fun _ _ => True) fun _ => True := by
  induction script generalizing hand with
  | ret value => trivial
  | fail error => trivial
  | call action rest ih =>
    obtain ⟨allowed, later⟩ := handles
    have lasts : action ≠ .begin .claim → ∀ reply, ¬ Pursues id (rest reply) :=
      fun other reply pursues => unpursued ⟨other, .inr ⟨reply, pursues⟩⟩
    rcases has with rfl | rfl
    · cases action with
      | begin label =>
        by_cases claims : label = .claim
        · subst claims
          exact ⟨rfl, later⟩
        · have isTarget := allowed.resolve_left claims
          exact absurd ⟨by rintro ⟨⟩; exact claims rfl, .inl ⟨label, rfl, isTarget⟩⟩ unpursued
      | other request =>
        exact ⟨trivial,
          fun reply => ih reply (lasts (by rintro ⟨⟩) reply) (.inl rfl) (later reply)⟩
      | _ => cases allowed
    · cases action with
      | begin label => cases allowed
      | start => exact ⟨trivial, fun reply => ih reply (lasts (by rintro ⟨⟩) reply) (.inr rfl) (later reply)⟩
      | exec statement =>
        refine ⟨trivial, fun reply => ?_⟩
        have free : hands.after (.exec statement) reply .free = .free := by
          cases statement <;> cases reply <;> rfl
        have writing : hands.after (.exec statement) reply (.writing id) = .writing id := by
          cases statement <;> cases reply <;> rfl
        have goes := later reply
        rw [writing] at goes
        rw [free]
        exact ih reply (lasts (by rintro ⟨⟩) reply) (.inr rfl) goes
      | commit =>
        refine ⟨trivial, fun reply => ?_⟩
        have writing : hands.after .commit reply (.writing id) = .having id := by cases reply <;> rfl
        have free : hands.after .commit reply .free = .free := by cases reply <;> rfl
        have goes := later reply
        rw [writing] at goes
        rw [free]
        exact ih reply (lasts (by rintro ⟨⟩) reply) (.inl rfl) goes
      | rollback =>
        exact ⟨trivial,
          fun reply => ih reply (lasts (by rintro ⟨⟩) reply) (.inl rfl) (later reply)⟩
      | other request =>
        exact ⟨trivial,
          fun reply => ih reply (lasts (by rintro ⟨⟩) reply) (.inr rfl) (later reply)⟩

/-! ## Commits -/

section Commits
variable {maxAttempts : Int} {Seen : Tid → Label → Job → Log →
  Prop} {pid worker : Tid} {id : Uuid} {server : Server Job Label}
  (journal : Journal [] (Effect maxAttempts Seen) (server.commit pid).log)
    (rows : server.rows = rowsAfter [] server.log)
include journal rows

theorem holds_commit (kept : (server.txs pid).label = some .requeueOrphans →
    ∀ job ∈ (server.txs pid).added, job.status = .queued →
    job.id ≠ id) (holds : Holds worker id server) : Holds worker id (server.commit pid) := by
  obtain ⟨job, present, rfl, left, latest⟩ := holds
  let commit : Commit Job Label := ⟨pid, server.rows, server.txs pid⟩
  have effect : Effect maxAttempts Seen server.log commit := (Journal.last journal).2
  have apart : commit.before.Pairwise NoClash := by
    change server.rows.Pairwise NoClash
    rw [rows]
    exact journal_apart (journal.prefix_ (List.prefix_append ..))
  have apartAfter : commit.after.Pairwise NoClash := by
    have whole := journal_apart journal
    rwa [show (server.commit pid).log = server.log ++ [commit] from rfl, rowsAfter_append] at whole
  by_cases removes : (server.txs pid).removes job = true
  · obtain ⟨old, before, same, row, added, label, isLabel, moves⟩ :=
      effect.removed _ (Tx.removes_iff.mp removes)
    cases eq_of_primary apart before present same
    have claims := claims_added apartAfter isLabel added
    have attempts := moves.attempts
    have still : label ≠ .claim ∧ row.status ≠ .queued := by
      cases moves with
      | claim now queued => exact absurd queued left
      | saveProgress now p running => exact ⟨by simp, left⟩
      | finish now status p out errText running ends =>
        refine ⟨by simp, ?_⟩
        rcases ends with rfl | rfl <;> simp [ended]
      | cancel now alive => exact ⟨by simp, by simp [cancelled]⟩
      | requeue now running =>
        exact ⟨by simp, fun queued =>
          kept isLabel _ added queued (Transition.requeue now running).id⟩
    rw [if_neg still.1] at claims attempts
    refine ⟨row, Tx.mem_view.mpr (.inr added), moves.id, still.2, ?_⟩
    change (claimsOf row.id (server.log ++ [commit])).getLast? = _
    rw [claimsOf_append, claims, List.append_nil, moves.id, attempts]
    exact latest
  · have after : job ∈ commit.after := Tx.mem_view.mpr (.inl ⟨present, by simpa using removes⟩)
    refine ⟨job, after, rfl, left, ?_⟩
    change (claimsOf job.id (server.log ++ [commit])).getLast? = _
    rw [claimsOf_append, claims_kept effect apart apartAfter present after, List.append_nil]
    exact latest

omit rows in
theorem holds_claimed {job : Job} (isClaim : (server.txs pid).label = some .claim)
    (added : job ∈ (server.txs pid).added) :
    Holds pid job.id (server.commit pid) := by
  let commit : Commit Job Label := ⟨pid, server.rows, server.txs pid⟩
  have effect : Effect maxAttempts Seen server.log commit := (Journal.last journal).2
  have apartAfter : commit.after.Pairwise NoClash := by
    have whole := journal_apart journal
    rwa [show (server.commit pid).log = server.log ++ [commit] from rfl, rowsAfter_append] at whole
  refine ⟨job, Tx.mem_view.mpr (.inr added), rfl, ?_, ?_⟩
  · rcases effect.added job added with ⟨isEnqueue, -⟩ | ⟨old, -, label, isLabel, moves, -⟩
    · cases isClaim.symm.trans isEnqueue
    · cases isClaim.symm.trans isLabel
      cases moves
      simp [claimed]
  · change (claimsOf job.id (server.log ++ [commit])).getLast? = _
    rw [claimsOf_append, claims_added apartAfter isClaim added, if_pos rfl, List.getLast?_concat]

theorem fits_commit {hand : Hand} (opened : (server.txs pid).label.isSome = true)
    (allowed : hands.allows .commit hand)
    (fits : hand.Fits pid server) : (hands.after .commit (.ok ()) hand).Fits pid (server.commit pid) := by
  have closed : ((server.commit pid).txs pid).label = none := by simp [Server.commit, Tx.idle]
  cases hand with
  | free => exact Hand.fits_free closed
  | claiming job =>
    cases job with
    | none => exact absurd rfl allowed
    | some job => exact ⟨closed, holds_claimed journal fits.1 fits.2⟩
  | refused => exact False.elim fits
  | having id => cases allowed
  | writing id =>
    refine ⟨closed, holds_commit journal rows (fun isRequeue => ?_) fits.2⟩
    rcases fits.1 with none_ | isTarget
    · simp [none_] at opened
    · simp [target, isRequeue, Label.target] at isTarget

omit journal rows in
theorem fits_refused {hand : Hand} (closed : (server.txs pid).label = none) {error : SqlError}
    (fits : hand.Fits pid server)
    (allowed : hands.allows .commit hand) : (hands.after .commit (.error error) hand).Fits pid server := by
  cases hand with
  | free => exact fits
  | claiming job =>
    cases job with
    | none => exact absurd rfl allowed
    | some job => cases closed.symm.trans fits.1
  | refused => exact False.elim fits
  | having id => cases allowed
  | writing id => exact ⟨closed, fits.2⟩

end Commits

theorem kept_run {handles : String → Bool} {opt : Options} {config : QueueConfig}
    (run : (machine respond).Reaches (Process.code handles opt) keepsAttempts (.start State.empty) config) :
    Sane config.state.server ∧ (chronicle (newQueue opt).maxAttempts ClaimedBy).Kept config.state.public := by
  have calls : ∀ pid (process : Process),
      Does (newQueue opt).maxAttempts ClaimedBy respond keepsAttempts pid (process.code handles opt) :=
    fun pid process => process_does handles opt (watched_keepsAttempts _) claimedBy_persists process
  have ends := PublicProtocol.reaches (fun _ _ _ _ _ _ _ => trivial) calls run (sane_holding .nil)
    ⟨.start, rfl, trivial⟩
    fun pid => ⟨rfl, trivial⟩
  exact ⟨ends.1, ends.2.1⟩

theorem mayWrite_of_holds {pid : Tid} {id : Uuid} {server : Server Job Label}
    (apart : server.rows.Pairwise NoClash)
    (holds : Holds pid id server) : mayWrite pid id server = true := by
  obtain ⟨job, present, rfl, -, latest⟩ := holds
  refine List.all_eq_true.mpr fun other here => ?_
  by_cases same : other.id = job.id
  · cases eq_of_primary apart here present same
    have claim := (List.mem_filter.mp (List.mem_of_getLast? latest)).1
    simp [claim]
  · simp [same]

theorem attemptKept_of_fits {pid : Tid} {shared : State} (apart : shared.server.rows.Pairwise NoClash)
    {hand : Hand} (fits : hand.Fits pid shared.server) (action : Action Job Label Request) :
    attemptKept pid action shared = true := by
  have writes : ∀ id, target (shared.server.txs pid) = some id → mayWrite pid id shared.server = true := by
    intro id isTarget
    cases hand with
    | free => cases fits.2.symm.trans isTarget
    | claiming job =>
      cases job with
      | none => rcases fits with closed | isClaim <;> simp_all [target, Label.target]
      | some job => simp [target, fits.1, Label.target] at isTarget
    | refused => exact False.elim fits
    | having other => simp [target, fits.1] at isTarget
    | writing other =>
      rcases fits.1 with closed | same
      · simp [target, closed] at isTarget
      · cases same.symm.trans isTarget
        exact mayWrite_of_holds apart fits.2
  unfold attemptKept
  split
  · next isLabel => exact writes _ (by simp [target, isLabel, Label.target])
  · next isLabel => exact writes _ (by simp [target, isLabel, Label.target])
  · rfl

/-- Each script goes on as its hand says, and the table is as its hand says. -/
def Gripped (config : QueueConfig) (pid : Tid) : Prop :=
  match config.procs pid with
  | .running _ script => ∃ hand : Hand, Handles script hand (fun _ _ => True) (fun _ => True) ∧
    hand.Fits pid config.state.server
  | _ => (config.state.server.txs pid).label = none

section Steps
variable {handles : String → Bool} {opt : Options} {config next : QueueConfig}

theorem Gripped.running {pid : Tid} (gripped : Gripped config pid) {process : Process}
    {script : JobsScript Unit} (is : config.procs pid = .running process script) :
    ∃ hand : Hand, Handles script hand (fun _ _ => True) (fun _ => True) ∧
    hand.Fits pid config.state.server := by
  unfold Gripped at gripped
  rwa [is] at gripped

theorem Gripped.aside {pid : Tid} (gripped : Gripped config pid) (procs : next.procs pid = config.procs pid)
    (rows : next.state.server.rows = config.state.server.rows)
    (log : next.state.server.log = config.state.server.log)
    (tx : next.state.server.txs pid = config.state.server.txs pid) : Gripped next pid := by
  unfold Gripped at *
  rw [procs]
  split at gripped
  · obtain ⟨hand, goes, fits⟩ := gripped
    exact ⟨hand, goes, fits.same rows log (by rw [tx]) (by rw [tx])⟩
  · rw [tx]
    exact gripped

-- What a job in hand is to a commit that puts it back in the queue: its worker has let go of it.
theorem letGo_of_requeued {pid worker : Tid} {id : Uuid}
    (journal : Journal [] (Effect (newQueue opt).maxAttempts ClaimedBy) (config.state.server.commit pid).log)
    (rows : config.state.server.rows = rowsAfter [] config.state.server.log)
    (permitted : ∀ job ∈ (config.state.server.txs pid).added, job.status = .queued →
      ∀ worker, HasLatest config.state.server.log worker job → ¬ StillAt config worker job.id)
    (isRequeue : (config.state.server.txs pid).label = some .requeueOrphans) {job : Job}
    (added : job ∈ (config.state.server.txs pid).added) (queued : job.status = .queued) (same : job.id = id)
    (holds : Holds worker id config.state.server) : ¬ StillAt config worker id := by
  obtain ⟨held, present, isHeld, -, latest⟩ := holds
  have apart : config.state.server.rows.Pairwise NoClash := by
    rw [rows]
    exact journal_apart (journal.prefix_ (List.prefix_append ..))
  have effect : Effect (newQueue opt).maxAttempts ClaimedBy config.state.server.log
      ⟨pid, config.state.server.rows, config.state.server.txs pid⟩ := (Journal.last journal).2
  rcases effect.added job added with ⟨isEnqueue, -⟩ | ⟨old, member, label, isLabel, moves, -⟩
  · cases isRequeue.symm.trans isEnqueue
  · cases isRequeue.symm.trans isLabel
    cases eq_of_primary apart member present (moves.id.symm.trans (same.trans isHeld.symm))
    have attempts := moves.attempts
    rw [if_neg (by simp)] at attempts
    have stands : HasLatest config.state.server.log worker job := by
      rw [HasLatest, moves.id, attempts]
      exact latest
    have gone := permitted job added queued worker stands
    rwa [same] at gone

-- After a commit of another process: the job in hand is still there, or its worker has let go of it.
theorem Gripped.committed {pid worker : Tid} (distinct : worker ≠ pid)
    (journal : Journal [] (Effect (newQueue opt).maxAttempts ClaimedBy) (config.state.server.commit pid).log)
    (rows : config.state.server.rows = rowsAfter [] config.state.server.log)
    (permitted : (config.state.server.txs pid).label = some .requeueOrphans →
      ∀ job ∈ (config.state.server.txs pid).added,
      job.status = .queued → ∀ worker, HasLatest config.state.server.log worker job →
      ¬ StillAt config worker job.id)
    (gripped : Gripped config worker) (procs : next.procs worker = config.procs worker)
    (server : next.state.server = config.state.server.commit pid) : Gripped next worker := by
  have tx : next.state.server.txs worker = config.state.server.txs worker := by
    rw [server]
    exact Function.update_of_ne distinct ..
  unfold Gripped at *
  rw [procs]
  split at gripped
  · next process script isRunning =>
    obtain ⟨hand, goes, fits⟩ := gripped
    -- a job that goes back to the queue is out of hand, since its worker does not pursue it
    have having : ∀ id, hand = .having id ∨ hand = .writing id → Holds worker id config.state.server →
        ((config.state.server.txs worker).label = none ∨ target (config.state.server.txs worker) = some id) →
          Holds worker id next.state.server ∨ (config.state.server.txs worker).label = none ∧
          Handles script .free (fun _ _ => True) fun _ => True := by
      intro id has holds own
      by_cases requeued : (config.state.server.txs pid).label = some .requeueOrphans ∧
          ∃ job ∈ (config.state.server.txs pid).added, job.status = .queued ∧ job.id = id
      · obtain ⟨isRequeue, job, added, queued, same⟩ := requeued
        have gone := letGo_of_requeued journal rows (permitted isRequeue) isRequeue added queued same holds
        have closed : (config.state.server.txs worker).label = none := by
          refine own.resolve_right
            fun isTarget => gone ⟨process, script, isRunning, fun isClaim => ?_, .inl isTarget⟩
          simp [target, isClaim, Label.target] at isTarget
        refine .inr ⟨closed, free_of_unpursued (fun pursues =>
          gone ⟨process, script, isRunning, ?_, .inr pursues⟩) has goes⟩
        simp [closed]
      · refine .inl ?_
        rw [server]
        refine holds_commit journal rows (fun isRequeue job added queued same => ?_) holds
        exact requeued ⟨isRequeue, job, added, queued, same⟩
    cases hand with
    | free =>
      refine ⟨.free, goes, ?_⟩
      rw [Hand.Fits, tx]
      exact fits
    | claiming job =>
      refine ⟨.claiming job, goes, ?_⟩
      cases job <;> rw [Hand.Fits, tx] <;> exact fits
    | refused => exact False.elim fits
    | having id =>
      rcases having id (.inl rfl) fits.2 (.inl fits.1) with holds | ⟨closed, free⟩
      · exact ⟨.having id, goes, tx ▸ fits.1, holds⟩
      · exact ⟨.free, free, Hand.fits_free (tx ▸ closed)⟩
    | writing id =>
      rcases having id (.inr rfl) fits.2 fits.1 with holds | ⟨closed, free⟩
      · exact ⟨.writing id, goes, tx ▸ fits.1, holds⟩
      · exact ⟨.free, free, Hand.fits_free (tx ▸ closed)⟩
  · rw [tx]
    exact gripped

theorem gripped_commit (kept : (chronicle (newQueue opt).maxAttempts ClaimedBy).Kept config.state.public)
    (keptNext : (chronicle (newQueue opt).maxAttempts ClaimedBy).Kept next.state.public)
    (gripped : ∀ pid, Gripped config pid) {pid : Tid} {choice : Draw} {process : Process}
    {rest : Answer Request.Reply (.commit : Action Job Label Request) → JobsScript Unit}
    (found : config.procs pid = .running process (.call .commit rest))
    (permitted : letsGo config (.act pid choice))
    {reply : Answer Request.Reply (.commit : Action Job Label Request)}
    {after : State} (answered : (machine respond).act pid .commit choice config.state = some (reply, after))
    (is : next = config.put pid after (.running process (rest reply))) (other : Tid) :
    Gripped next other := by
  subst is
  obtain ⟨hand, ⟨allowed, later⟩, fits⟩ := (gripped pid).running found
  simp only [machine] at answered
  split at answered
  · next opened =>
    cases answered
    have journal : Journal [] (Effect (newQueue opt).maxAttempts ClaimedBy)
        (config.state.server.commit pid).log := keptNext.journal
    by_cases same : other = pid
    · subst same
      rw [Gripped, Config.put_same]
      exact ⟨_, later _, fits_commit journal kept.rows opened allowed fits⟩
    · exact (gripped other).committed same journal kept.rows (permitted (by rw [found]; rfl))
        (Config.put_other _ _ _ same) rfl
  · next unopened =>
    cases answered
    by_cases same : other = pid
    · subst same
      rw [Gripped, Config.put_same]
      exact ⟨_, later _, fits_refused (by simpa using unopened) fits allowed⟩
    · exact (gripped other).aside (Config.put_other _ _ _ same) rfl rfl rfl

theorem gripped_disturb (gripped : ∀ pid, Gripped config pid) {pid : Tid} {choice : Draw}
    (permitted : letsGo config (.disturb pid choice))
    (taken : (machine respond).step (Process.code handles opt) config (.disturb pid choice) = some next)
    (other : Tid) : Gripped next other := by
  simp only [Machine.step, machine] at taken
  split at taken
  · next after disturbed =>
    split at disturbed <;> cases disturbed
    cases taken
    by_cases same : other = pid
    · subst same
      have closed : ((config.state.server.rollback other).txs other).label = none := by
        simp [Server.rollback, Server.setTx, Tx.idle]
      cases found : config.procs other with
      | running process script =>
        obtain ⟨hand, goes, fits⟩ := (gripped other).running found
        rw [Gripped, found]
        refine ⟨hand, goes, fits.closed rfl rfl closed ?_⟩
        rintro job rfl
        exact permitted ⟨fits.1, List.ne_nil_of_mem fits.2⟩
      | _ =>
        rw [Gripped, found]
        exact closed
    · exact (gripped other).aside rfl rfl rfl (Server.setTx_other _ same)
  · cases taken

theorem gripped_next (kept : Sane config.state.server ∧
    (chronicle (newQueue opt).maxAttempts ClaimedBy).Kept config.state.public)
    (keptNext : (chronicle (newQueue opt).maxAttempts ClaimedBy).Kept next.state.public)
    (gripped : ∀ pid, Gripped config pid) {move : Move Process Draw} (permitted : letsGo config move)
    (taken : (machine respond).step (Process.code handles opt) config move = some next) :
    ∀ pid, Gripped next pid := by
  intro other
  cases move with
  | spawn pid process =>
    simp only [Machine.step] at taken
    split at taken
    · next idle =>
      cases taken
      by_cases same : other = pid
      · subst same
        have closed := gripped other
        rw [Gripped, idle] at closed
        rw [Gripped, Config.put_same]
        exact ⟨.free, process_handles handles opt process, Hand.fits_free closed⟩
      · exact (gripped other).aside (Config.put_other _ _ _ same) rfl rfl rfl
    · cases taken
  | act pid choice =>
    simp only [Machine.step] at taken
    split at taken
    · next process action rest found =>
      split at taken
      · next reply after answered =>
        by_cases commits : action = .commit
        · subst commits
          exact gripped_commit kept.2 keptNext gripped found permitted answered (Option.some.inj taken).symm other
        · cases taken
          obtain ⟨hand, ⟨allowed, later⟩, fits⟩ := (gripped pid).running found
          obtain ⟨rows, log⟩ := act_uncommitted commits answered
          by_cases same : other = pid
          · subst same
            rw [Gripped, Config.put_same]
            exact ⟨_, later reply, fits.act kept.1 allowed commits answered⟩
          · exact (gripped other).aside (Config.put_other _ _ _ same) rows log (act_others same answered)
      · cases taken
    · cases taken
  | disturb pid choice => exact gripped_disturb gripped permitted taken other
  | crash pid =>
    simp only [Machine.step, machine] at taken
    split at taken <;> cases taken
    by_cases same : other = pid
    · subst same
      rw [Gripped, Config.put_same]
      simp [Server.rollback, Server.setTx, Tx.idle]
    · exact (gripped other).aside (Config.put_other _ _ _ same) rfl rfl (Server.setTx_other _ same)

end Steps

def clock (now : Time) (pid : Tid) (count : Nat) : List (Move Process Draw) :=
  List.replicate count (.act pid (.time now))

/-- A job is queued and worker 2 claims it. -/
def firstAttempt : List (Move Process Draw) :=
  [.spawn 1 (.enqueue (some 9) "import" "{}" "user-1"), .act 1 (.uuid 5)] ++ clock 0 1 5 ++
  [.spawn 2 (.worker 1)] ++ clock 0 2 7

def secondAttempt : List (Move Process Draw) :=
  [.spawn 3 .recover] ++ clock 100000 3 5 ++ [.spawn 4 (.worker 1)] ++ clock 100000 4 7

/-- A worker's handler returns, and the worker ends the job. -/
def finishing (pid : Tid) : List (Move Process Draw) :=
  [.act pid (.ticks 0), .act pid (.handler (.returned {} {})), .act pid (.ticks 0)] ++ clock 200000 pid 5

def exampleQueue : Process → JobsScript Unit := Process.code (fun _ => true) ⟨0, 0, 0⟩

/-- The newest commit is a worker's, and moves a job whose latest claim is another's. -/
def intrudes (log : Log) : Bool :=
  match log.getLast? with
  | none => false
  | some commit => decide (commit.tx.label = some (.finish 5)) && commit.before.any
      fun old => commit.after.any fun new =>
      decide (new.id = old.id ∧ new ≠ old ∧
        (claimsOf old.id log.dropLast).getLast? ≠ some ⟨commit.tid, old.id, old.attempts⟩)

theorem not_fenced {log : Log} (found : intrudes log = true) : ¬ Fenced log := by
  intro fenced
  unfold intrudes at found
  split at found
  · cases found
  · next commit isLast =>
    simp only [Bool.and_eq_true, List.any_eq_true, decide_eq_true_eq] at found
    obtain ⟨isFinish, old, before, new, after, same, changed, notLatest⟩ := found
    have whole : log.dropLast ++ [commit] = log := List.dropLast_append_getLast? commit isLast
    exact notLatest (fenced.worker log.dropLast commit ⟨[], by simp [whole]⟩ ⟨5,
      .inr isFinish⟩ old before new after same changed)

/-- Nothing is disturbed, and the workers of the jobs put back in the queue have crashed. -/
def crashedFirst (config : QueueConfig) : Move Process Draw → Bool
  | .act pid _ => (config.state.server.txs pid).label != some .requeueOrphans ||
      (config.state.server.txs pid).added.all fun job =>
        match (claimsOf job.id config.state.server.log).getLast? with
        | some claim => match config.procs claim.worker with
          | .crashed _ => true
          | _ => false
        | none => true
  | .disturb .. => false
  | .spawn .. | .crash _ => true

theorem crashedFirst_letsGo (config : QueueConfig) (move : Move Process Draw)
    (checked : crashedFirst config move = true) :
    letsGo config move := by
  cases move with
  | act pid choice =>
    intro _ isRequeue job added _ worker latest
    have gone : ∀ other ∈ (config.state.server.txs pid).added, _ :=
      List.all_eq_true.mp (by simpa [crashedFirst, isRequeue] using checked)
    have here := gone job added
    rw [latest] at here
    rintro ⟨process, script, found, -⟩
    simp [found] at here
  | disturb pid choice => cases checked
  | _ => trivial

end OpenEmarsys.Jobs
