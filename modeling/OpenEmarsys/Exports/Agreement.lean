import OpenEmarsys.Exports.Notices

/-! When the notices of export jobs agree with the jobs. -/

set_option autoImplicit false

namespace OpenEmarsys.Exports

open Interleaving Javascript Postgres Jobs

abbrev Board := Public Job Label (List Published)

structure Tells (notice : Notice) (job : Job) : Prop where
  ended : job.status.ended = true
  status : notice.status = job.status
  resultURL : job.status = .succeeded → notice.resultURL = job.resultURL

/-- The job runs on under the attempt of the notice, or has ended as told. -/
def Follows (sent : Published) (rows : List Job) : Prop :=
  ∃ job ∈ rows, job.id = sent.notice.jobID ∧
    ((job.status = .running ∧ job.attempts = sent.attempt) ∨ Tells sent.notice job)

def Clean (state : Board) : Prop := ∀ sent ∈ state.world, Owned sent ∧ Unhindered state.log sent

theorem Unhindered.earlier {log past : Log} {sent : Published} (unhindered : Unhindered log sent)
    (earlier : past <+: log) :
    Unhindered past sent :=
  fun before commit since within => unhindered before commit since (within.trans earlier)

theorem Clean.earlier {state next : Board} (clean : Clean next) (log : state.log <+: next.log)
    (world : state.world <+: next.world) :
    Clean state :=
  fun sent member => ⟨(clean sent (world.subset member)).1, (clean sent (world.subset member)).2.earlier log⟩

/-- What is true of the notices at any time, as long as they are published and left alone as they should
be. -/
structure Kept (state : Board) : Prop where
  earlier : ∀ sent ∈ state.world, sent.earlier <+: state.log
  follows : Clean state → ∀ sent ∈ state.world, ∀ past, sent.earlier <+: past → past <+: state.log →
    Follows sent (rowsAfter [] past)
  once : Clean state → (state.world.map fun sent => sent.notice.jobID).Nodup

section Commits

variable {maxAttempts : Int} {Seen : Tid → Label → Job → Log →
  Prop} {log : Log} {commit : Commit Job Label} {sent : Published}

-- A commit of another worker, a cancellation or a requeue does not reach the job; the one that ends it
-- does so as told.
theorem follows_commit (effect : Effect maxAttempts Seen log commit) (apart : commit.before.Pairwise NoClash)
    (follows : Follows sent commit.before)
    (unhindered : ∀ old ∈ commit.before, old.id = sent.notice.jobID → old.status = .running →
      commit.tx.removes old = true →
      ByWorker commit ∧ commit.tid = sent.publisher)
    (finishes : commit.tid = sent.publisher → commit.tx.label = some (.finish sent.notice.jobID) →
      ∀ row ∈ commit.tx.added, Tells sent.notice row) : Follows sent commit.after := by
  obtain ⟨job, before, same, state⟩ := follows
  by_cases removes : commit.tx.removes job = true
  · obtain ⟨old, member, isJob, new, added, label, isLabel, moves⟩ :=
      effect.removed _ (Tx.removes_iff.mp removes)
    cases eq_of_primary apart member before isJob
    have present : new ∈ commit.after := Tx.mem_view.mpr (.inr added)
    rcases state with ⟨running, attempts⟩ | told
    · obtain ⟨⟨id, worker⟩, byPublisher⟩ := unhindered job before same running removes
      refine ⟨new, present, moves.id.trans same, ?_⟩
      cases moves with
      | saveProgress now p _ => exact .inl ⟨running, attempts⟩
      | finish now status p out errText _ _ =>
        exact .inr (finishes byPublisher (isLabel.trans (by rw [same])) _ added)
      | claim => rw [isLabel] at worker; rcases worker with absurd_ | absurd_ <;> cases absurd_
      | cancel => rw [isLabel] at worker; rcases worker with absurd_ | absurd_ <;> cases absurd_
      | requeue => rw [isLabel] at worker; rcases worker with absurd_ | absurd_ <;> cases absurd_
    · exact absurd told.ended (by simp [moves.alive])
  · exact ⟨job, Tx.mem_view.mpr (.inl ⟨before, by simpa using removes⟩), same, state⟩

end Commits

/-- The journal of the jobs, and the notices beside it; nobody publishes in another's name. -/
def board (maxAttempts : Int) : PublicProtocol Job Label (List Published) where
  App state := (chronicle maxAttempts fun _ _ _ _ => True).Kept state ∧ Kept state
  Grow tid state next := state.log <+: next.log ∧ state.world <+: next.world ∧
    ∀ sent ∈ next.world, sent.publisher = tid → sent ∈ state.world
  refl _ _ := ⟨List.prefix_rfl, List.prefix_rfl, fun _ member _ => member⟩
  trans first second := ⟨first.1.trans second.1, first.2.1.trans second.2.1,
    fun sent member mine => first.2.2 sent (second.2.2 sent member mine) mine⟩

/-- What a worker knows of its own notices about a job. -/
def Told (pid : Tid) (id : Uuid) (told : Notice → Prop) (state : Board) : Prop :=
  Clean state → ∀ sent ∈ state.world, sent.publisher = pid → sent.notice.jobID = id → told sent.notice

/-- Every notice of the process is older than this. -/
def Before (pid : Tid) (log : Log) (state : Board) : Prop :=
  ∀ sent ∈ state.world, sent.publisher = pid → sent.earlier <+: log

section Protocol

variable {maxAttempts : Int} {pid : Tid} {id : Uuid} {told : Notice → Prop}

theorem told_steady : PublicProtocol.Steady (board maxAttempts) pid (Told pid id told) := by
  intro state next _ _ grow known clean sent member mine about
  exact known (clean.earlier grow.1 grow.2.1) sent (grow.2.2 sent member mine) mine about

theorem before_steady (log : Log) : PublicProtocol.Steady (board maxAttempts) pid (Before pid log) :=
  fun _ _ _ _ grow known sent member mine => known sent (grow.2.2 sent member mine) mine

def Lasts (frame : Board → Prop) : Prop :=
  ∀ state rows (commit : Commit Job Label), frame state → frame ⟨rows, state.log ++ [commit], state.world⟩

theorem told_lasts : Lasts (Told pid id told) := by
  intro state rows commit known clean
  exact known (clean.earlier (List.prefix_append ..) List.prefix_rfl)

theorem before_lasts (log : Log) : Lasts (Before pid log) := fun _ _ _ known => known

theorem Kept.commit {state : Board} {commit : Commit Job Label} {Seen : Tid → Label → Job → Log → Prop}
    (kept : Kept state)
    (before : commit.before = rowsAfter [] state.log) (apart : commit.before.Pairwise NoClash)
    (effect : Effect maxAttempts Seen state.log commit)
    (finishes : Clean state → ∀ sent ∈ state.world, commit.tid = sent.publisher →
      commit.tx.label = some (.finish sent.notice.jobID) → ∀ row ∈ commit.tx.added, Tells sent.notice row) :
    Kept ⟨commit.after, state.log ++ [commit], state.world⟩ := by
  have grown : state.log <+: state.log ++ [commit] := List.prefix_append ..
  have cleaner : Clean ⟨commit.after, state.log ++ [commit], state.world⟩ → Clean state :=
    fun clean => clean.earlier grown List.prefix_rfl
  refine ⟨fun sent member => (kept.earlier sent member).trans grown,
    fun clean sent member past since within => ?_,
    fun clean => kept.once (cleaner clean)⟩
  rcases List.prefix_concat_iff.mp within with rfl | shorter
  · rw [rowsAfter_append]
    refine follows_commit effect apart ?_ ?_ (finishes (cleaner clean) sent member)
    · exact before ▸ kept.follows (cleaner clean) sent member state.log
        (kept.earlier sent member) List.prefix_rfl
    · exact (clean sent member).2 state.log commit (kept.earlier sent member) List.prefix_rfl
  · exact kept.follows (cleaner clean) sent member past since shorter

-- A job has been published about at most once: a second notice would be its publisher's own.
theorem Kept.publish {state : Board} {sent : Published} {Seen : Tid → Label → Job → Log → Prop}
    (kept : Kept state)
    (journal : Journal [] (Effect maxAttempts Seen) state.log) (now : sent.earlier = state.log)
    (first : Told sent.publisher sent.notice.jobID (fun _ => False) state) :
    Kept { state with world := state.world ++ [sent] } := by
  have cleaner : Clean { state with world := state.world ++ [sent] } → Clean state :=
    fun clean => clean.earlier List.prefix_rfl (List.prefix_append ..)
  have owned : Clean { state with world := state.world ++ [sent] } → Owned sent :=
    fun clean => (clean sent (by simp)).1
  refine ⟨fun other member => ?_, fun clean other member past since within => ?_, fun clean => ?_⟩
  · rcases List.mem_append.mp member with old | new
    · exact kept.earlier other old
    · cases List.mem_singleton.mp new
      exact now ▸ List.prefix_rfl
  · rcases List.mem_append.mp member with old | new
    · exact kept.follows (cleaner clean) other old past since within
    · cases List.mem_singleton.mp new
      have same : past = sent.earlier := (since.eq_of_length_le (now ▸ within.length_le)).symm
      subst same
      obtain ⟨job, present, about, running, attempts, -⟩ := owned clean
      exact ⟨job, present, about, .inl ⟨running, attempts⟩⟩
  · rw [List.map_append, List.nodup_append]
    refine ⟨kept.once (cleaner clean), List.nodup_singleton _, fun about old other new => ?_⟩
    rintro rfl
    obtain ⟨earlier, member, same⟩ := List.mem_map.mp old
    have about : about = sent.notice.jobID := by simpa using new
    obtain ⟨job, present, isJob, running, attempts, claimed⟩ := owned clean
    obtain ⟨row, here, isRow, state_⟩ :=
      kept.follows (cleaner clean) earlier member state.log (kept.earlier earlier member) List.prefix_rfl
    have equal : row = job := eq_of_primary (journal_apart journal) here (now ▸ present)
      (isRow.trans (same.trans (about.trans isJob.symm)))
    subst equal
    rcases state_ with ⟨-, counts⟩ | told
    · obtain ⟨was, -, isWas, -, -, had⟩ := (cleaner clean earlier member).1
      have claim := handed_persists _ _ _ (kept.earlier earlier member) had
      have again : (⟨sent.publisher, row.id, sent.attempt⟩ : Handed) ∈ handed state.log := now ▸ claimed
      have one := handed_once journal claim again (isWas.trans isRow.symm) (counts.symm.trans attempts)
      exact first (cleaner clean) earlier member (congrArg Handed.worker one) (same.trans about)
    · have absurd_ := told.ended
      rw [running] at absurd_
      cases absurd_

-- What the calls of a script have to be for it to leave the notices alone.
theorem board_superposes (ttl : Nat) {allowed : Action Job Label Request → Prop} {Own : Tx Job Label → Prop}
    {frame : Board → Prop}
    (steady : PublicProtocol.Steady (board maxAttempts) pid frame) (lasts : Lasts frame)
    (closed : ∀ tx : Tx Job Label, tx.label = none → Own tx)
    (begins : ∀ label begun, allowed (.begin label) →
      Own { (Tx.idle : Tx Job Label) with label := some label, begun := begun })
    (starts : ∀ (tx : Tx Job Label) snapshot, Own tx → Own { tx with snapshot := snapshot })
    (execs : ∀ statement (server : Server Job Label) rows tx, allowed (.exec statement) → Sane server →
      Own (server.txs pid) →
      server.execute pid statement = some (.ok (rows, tx)) → Own tx)
    (finishes : ∀ state tx, frame state → Own tx → Clean state → ∀ sent ∈ state.world, pid = sent.publisher →
      tx.label = some (.finish sent.notice.jobID) → ∀ row ∈ tx.added, Tells sent.notice row)
    (asks : ∀ j, ¬ allowed (.other (.handler j))) :
    PublicProtocol.Superposes (chronicle maxAttempts fun _ _ _ _ => True).public_ (board maxAttempts)
    (respond ttl) pid allowed Own
      frame where
  app _ kept := kept.1
  grow grown := grown.1
  steady := steady
  closed := closed
  begins := begins
  starts := starts
  execs := execs
  commits shared app own held _ weakly := by
    obtain ⟨journal, kept⟩ := app
    let commit : Commit Job Label := ⟨pid, shared.server.rows, shared.server.txs pid⟩
    have effect := Journal.last weakly.journal
    have apart : commit.before.Pairwise NoClash := by
      rw [effect.1]
      exact journal_apart journal.journal
    refine ⟨⟨weakly, kept.commit effect.1 apart effect.2 fun clean sent member => ?_⟩, fun other _ => ?_,
      lasts _ _ commit held⟩
    · exact finishes shared.public (shared.server.txs pid) held own clean sent member
    · exact ⟨List.prefix_append .., List.prefix_rfl, fun _ member _ => member⟩
  asks request choice shared reply world permitted answered := by
    cases request with
    | handler j => exact absurd permitted (asks j)
    | _ =>
      cases choice with
      | attempt attempt => cases answered
      | draw draw =>
        simp only [respond, Option.map_eq_some_iff] at answered
        obtain ⟨given, -, same⟩ := answered
        exact (congrArg Prod.snd same).symm

end Protocol

/-! ## The scripts of the queue -/

/-- The calls of scripts that neither run a handler nor end a job. -/
def plain : Action Job Label Request → Prop
  | .begin (.finish _) => False
  | .other (.handler _) => False
  | _ => True

/-- The calls of `finish`, which leaves such rows. -/
def finishing (id : Uuid) (written : Job → Prop) : Action Job Label Request → Prop
  | .begin label => label = .finish id
  | .exec (.update _ f) => ∀ job, (f job).id = job.id ∧ written (f job)
  | .exec _ => False
  | .other (.handler _) => False
  | _ => True

theorem call_plain {request : Request} (isPlain : plain (.other request)) : (call request).Calls plain :=
  ⟨isPlain, fun _ => trivial⟩

theorem unlessRefused_calls {α : Type} {allowed : Action Job Label Request → Prop}
    (given : α × Option SqlError) :
    (unlessRefused given).Calls allowed := by
  obtain ⟨value, refused⟩ := given
  cases refused <;> trivial

theorem logged_calls {script : JobsScript Unit} {allowed : Action Job Label Request → Prop}
    (calls : script.Calls allowed) :
    (logged script).Calls allowed :=
  calls.handle fun _ => trivial

theorem update_plain {α : Type} (label : Label) (isPlain : plain (.begin label)) (p : Job → Bool)
    (f : Job → Job) (value : List Job → α) :
    (inTx label (do
      let rows ← sql (.update p f)
      return value rows) : JobsScript (α × Option SqlError)).Calls plain :=
  inTx_calls isPlain trivial trivial (.bind (sql_calls trivial trivial) fun _ => trivial)

theorem saveProgress_plain (id : Uuid) (p : Progress) : (saveProgress id p).Calls plain :=
  .bind (call_plain trivial) fun _ => .bind (update_plain (.saveProgress id) trivial _ _
    fun _ => ()) unlessRefused_calls

theorem requeueOrphans_plain (stale maxAttempts : Int) : (requeueOrphans stale maxAttempts).Calls plain :=
  .bind (call_plain trivial) fun _ =>
    .bind (update_plain .requeueOrphans trivial _ _ List.length) unlessRefused_calls

theorem saves_plain (id : Uuid) (count : Nat) : (saves id count).Calls plain := by
  induction count with
  | zero => trivial
  | succ count ih =>
    refine .bind (call_plain trivial) fun _ => ?_
    refine .bind (logged_calls (saveProgress_plain id _)) fun _ => ?_
    exact ih

theorem scan_calls {allowed : Action Job Label Request → Prop} (rows : List Job) :
    (scan rows).Calls allowed := by
  cases rows <;> trivial

theorem enqueue_plain (tenant : Option Uuid) (kind params createdBy : String) :
    (enqueue tenant kind params createdBy).Calls plain := by
  cases tenant with
  | none => trivial
  | some tid =>
    refine .bind (call_plain trivial) fun _ => ?_
    refine .bind (call_plain trivial) fun _ => ?_
    refine .bind ?_ unlessRefused_calls
    exact inTx_calls trivial trivial trivial (.bind (sql_calls trivial trivial) fun _ => trivial)

theorem claim_plain : claim.Calls plain := by
  refine .bind (call_plain trivial) fun _ => .handle (.bind ?_ fun _ => trivial) fun error => ?_
  · refine inTx_calls trivial trivial trivial (.bind (sql_calls trivial trivial) fun _ => ?_)
    exact .bind (sql_calls trivial trivial) scan_calls
  · cases error <;> trivial

theorem cancel_plain (tenant : Option Uuid) (id : Uuid) : (cancel tenant id).Calls plain := by
  cases tenant with
  | none => trivial
  | some tid =>
    refine .bind (call_plain trivial)
      fun _ => .bind (inTx_calls trivial trivial trivial ?_) unlessRefused_calls
    refine .bind (sql_calls trivial trivial) fun rows => ?_
    cases rows with
    | cons job rest => trivial
    | nil => exact .bind (sql_calls trivial trivial) fun rows => .bind (scan_calls rows) fun _ => trivial

theorem finish_calls (id : Uuid) (status : JobStatus) (p : Progress) (out : Outcome) (errText : String) :
    (finish id status p out errText).Calls
      (finishing id fun row => ∃ now job, row = ended now status p out errText job) := by
  refine .bind ⟨trivial, fun _ => trivial⟩
    fun now => .bind (inTx_calls rfl trivial trivial ?_) unlessRefused_calls
  exact .bind (sql_calls trivial fun job => ⟨rfl, now, job, rfl⟩) fun _ => trivial

section Steps

variable {Call : Type} {maxAttempts : Int} {ttl : Nat} {pid : Tid} {id : Uuid} {told : Notice → Prop}
  {rules : Rules Call (Action Job Label Request) (Shared Job Label (List Published))}

theorem plain_superposes (ttl : Nat) {frame : Board → Prop}
    (steady : PublicProtocol.Steady (board maxAttempts) pid frame) (lasts : Lasts frame) :
    PublicProtocol.Superposes (chronicle maxAttempts fun _ _ _ _ => True).public_ (board maxAttempts)
    (respond ttl) pid plain
      (fun tx => ∀ id, tx.label ≠ some (.finish id)) frame := by
  refine board_superposes ttl steady lasts ?_ ?_ (fun _ _ own => own) ?_ ?_ (fun _ allowed => allowed)
  · intro tx closed id
    simp [closed]
  · rintro label begun allowed id same
    cases Option.some.inj same
    exact allowed
  · intro statement server rows tx _ _ own run id
    rw [(execute_continues run).label]
    exact own id
  · intro state tx _ own _ sent _ _ isFinish
    exact absurd isFinish (own _)

-- A script verified for the journal, none of whose calls publishes or ends a job.
theorem Plain.step {α : Type} {script : JobsScript α} {pre : Public Job Label (List Published) → Prop}
    {post : α → Public Job Label (List Published) → Prop} {frame : Board → Prop}
    (steady : PublicProtocol.Steady (board maxAttempts) pid frame) (lasts : Lasts frame)
    (step : PublicProtocol.Step (chronicle maxAttempts fun _ _ _ _ => True).public_ (respond ttl)
      rules pid pre script post)
    (calls : script.Calls plain) :
    PublicProtocol.Step (board maxAttempts) (respond ttl) rules pid
    (fun state => pre state ∧ frame state) script
      fun value state => post value state ∧ frame state :=
  (plain_superposes ttl steady lasts).step step calls

theorem Plain.keeps {α : Type} {script : JobsScript α} {frame : Board → Prop}
    (steady : PublicProtocol.Steady (board maxAttempts) pid frame) (lasts : Lasts frame)
    (does : Does maxAttempts (fun _ _ _ _ => True) (respond ttl) rules pid script)
    (calls : script.Calls plain) :
    PublicProtocol.Step (board maxAttempts) (respond ttl) rules pid frame script fun _ => frame :=
  ((Plain.step steady lasts does calls).strengthen fun _ _ known => ⟨trivial, known⟩).weaken
    fun _ _ _ held => held.2

theorem watched_trivially : Watched maxAttempts (fun _ _ _ _ => True) rules :=
  fun _ _ _ _ _ _ _ _ _ _ => trivial

theorem finish_step {status : JobStatus} (ends : status = .succeeded ∨ status = .failed) (p : Progress)
    (out : Outcome) (errText : String) (fits : ∀ notice now job, told notice →
      Tells notice (ended now status p out errText job)) :
    PublicProtocol.Step (board maxAttempts) (respond ttl) rules pid (Told pid id told)
    (logged (finish id status p out errText))
      fun _ _ => True := by
  let written : Job → Prop := fun row => ∃ now job, row = ended now status p out errText job
  let Own : Tx Job Label → Prop := fun tx => ∀ label, tx.label = some label → label = .finish id ∧
    ∀ row ∈ tx.added, written row
  have superposes : PublicProtocol.Superposes (chronicle maxAttempts
    fun _ _ _ _ => True).public_ (board maxAttempts) (respond ttl)
      pid (finishing id written) Own (Told pid id told) := by
    refine board_superposes ttl told_steady told_lasts ?_ ?_ (fun _ _ own => own) ?_ ?_
      (fun _ allowed => allowed)
    · intro tx closed label isLabel
      simp [closed] at isLabel
    · rintro label begun isFinish other same
      cases Option.some.inj same
      exact ⟨isFinish, fun row absurd_ => by cases absurd_⟩
    · intro statement server rows tx allowed sane own run label isLabel
      rw [(execute_continues run).label] at isLabel
      obtain ⟨isFinish, before⟩ := own label isLabel
      refine ⟨isFinish, fun row added => ?_⟩
      cases statement with
      | update p f =>
        obtain ⟨rfl, change⟩ := execute_update sane (fun job => (allowed job).1) run
        rcases (change.added row).mp added with ⟨old, -⟩ | new
        · exact before row old
        · obtain ⟨old, -, rfl⟩ := List.mem_map.mp new
          exact (allowed old).2
      | _ => exact allowed.elim
    · rintro state tx known own clean sent member rfl isFinish row added
      obtain ⟨same, rows⟩ := own _ isFinish
      obtain ⟨now, job, rfl⟩ := rows row added
      cases same
      exact fits sent.notice now job (known clean sent member rfl rfl)
  have does : PublicProtocol.Step (chronicle maxAttempts
    fun _ _ _ _ => True).public_ (respond ttl) rules pid (fun _ => True)
      (logged (finish id status p out errText)) fun _ _ => True :=
    logged_does (finish_does watched_trivially (fun _ _ _ => persists_const True) id ends p out errText)
  refine ((superposes.step does (logged_calls (finish_calls id status p out errText))).strengthen
    fun _ _ known => ⟨trivial, known⟩).weaken
    fun _ _ _ _ => trivial

/-- What the queue is told of an attempt, its notice tells too. -/
def Fits (notice : Notice) : Ran → Prop
  | .down => True
  | .failed .. => notice.status = .failed
  | .returned _ out => notice.status = .succeeded ∧ notice.resultURL = nullable out.resultURL

theorem attempt_fits {attempt : Attempt} {j : Job} {notice : Notice}
    (published : attempt.notice ttl j = some notice) :
    notice.jobID = j.id ∧ Fits notice attempt.ran := by
  unfold Attempt.notice at published
  split at published
  · cases published
    unfold Attempt.ran
    split
    · next live =>
      cases attempt.export_ with
      | error err => exact ⟨rfl, rfl⟩
      | ok url => exact ⟨rfl, rfl, by simp [notify, nullable, url.nonempty]⟩
    · next shut =>
      cases attempt.export_ <;> exact ⟨rfl, trivial⟩
  · cases published

theorem handler_step (j : Job) :
    PublicProtocol.Step (board maxAttempts) (respond ttl) rules pid (Told pid j.id fun _ => False)
      (call (.handler j)) fun (ran : Ran) => Told pid j.id fun notice => Fits notice ran := by
  refine PublicProtocol.Step.ask told_steady (fun shared choice reply world app known answered => ?_)
    fun _ => told_steady
  obtain ⟨chronicled, kept⟩ := app
  by_cases same : world = shared.world
  · subst same
    refine ⟨⟨chronicled, kept⟩, fun other _ => (board maxAttempts).refl other _,
      fun clean sent member mine about => ?_⟩
    exact (known clean sent member mine about).elim
  · cases choice with
    | draw draw =>
      simp only [respond] at answered
      split at answered
      · cases answered
      · simp only [Option.map_eq_some_iff] at answered
        obtain ⟨given, -, is⟩ := answered
        exact absurd (congrArg Prod.snd is).symm same
    | attempt attempt =>
      simp only [respond] at answered
      split at answered
      · obtain ⟨rfl, rfl⟩ := Prod.mk.inj (Option.some.inj answered)
        cases published : attempt.notice ttl j with
        | none => simp [published] at same
        | some notice =>
          obtain ⟨about, fits⟩ := attempt_fits published
          let sent : Published := ⟨pid, j.attempts, shared.server.log, notice⟩
          have publishes : Kept { shared.public with world := shared.world ++ [sent] } :=
            kept.publish chronicled.journal rfl (about ▸ known)
          refine ⟨⟨⟨chronicled.journal, chronicled.rows, trivial⟩, publishes⟩,
            fun other distinct => ⟨List.prefix_rfl, List.prefix_append .., ?_⟩,
            fun clean old member mine is => ?_⟩
          · intro old member mine
            rcases List.mem_append.mp member with before | new
            · exact before
            · cases List.mem_singleton.mp new
              exact absurd mine.symm distinct
          · rcases List.mem_append.mp member with before | new
            · exact (known (clean.earlier List.prefix_rfl (List.prefix_append ..)) old before mine is).elim
            · cases List.mem_singleton.mp new
              exact fits
      · cases answered

-- The job of a claim was queued after every notice of its worker, so none of them is about it.
theorem unpublished {log : Log} {state : Board} {j : Job} (app : (board maxAttempts).App state)
    (before : Before pid log state)
    (came : Came maxAttempts (log <+: ·) .claim [j] state.log) : Told pid j.id (fun _ => False) state := by
  intro clean sent member mine about
  obtain ⟨chronicled, kept⟩ := app
  obtain ⟨past, earlier, since, old, present, moves⟩ := came j (List.mem_singleton.mpr rfl)
  obtain ⟨job, here, isJob, state_⟩ :=
    kept.follows clean sent member past ((before sent member mine).trans since) earlier
  have apart := journal_apart (chronicled.journal.prefix_ earlier)
  have equal : job = old := eq_of_primary apart here present (isJob.trans (about.trans moves.id))
  subst equal
  have queued : job.status = .queued := by
    cases moves with
    | claim now queued => exact queued
  rcases state_ with ⟨running, -⟩ | told
  · rw [queued] at running
    cases running
  · have absurd_ := told.ended
    rw [queued] at absurd_
    cases absurd_

theorem ret_step {α : Type} (value : α) {pre : Board → Prop} :
    PublicProtocol.Step (board maxAttempts) (respond ttl) rules pid pre
    (.ret value : JobsScript α) fun _ _ => True :=
  (PublicProtocol.Step.ret (fun _ _ => True) fun _ _ _ _ _ _ => trivial).strengthen fun _ _ _ => trivial

theorem runJob_step (handles : String → Bool) (j : Job) :
    PublicProtocol.Step (board maxAttempts) (respond ttl) rules pid (Told pid j.id fun _ => False)
    (runJob handles j)
      fun _ _ => True := by
  have persists : ∀ tid label old,
      Persists ((fun _ _ _ _ => True : Tid → Label → Job → Log → Prop) tid label old) :=
    fun _ _ _ => persists_const True
  unfold runJob
  split
  · exact finish_step (.inr rfl) _ _ _ fun _ _ _ absurd_ => absurd_.elim
  · refine PublicProtocol.Step.bind _ (Plain.keeps told_steady told_lasts (call_step .ticks)
      (call_plain trivial)) fun (ticks : Nat) => ?_
    refine PublicProtocol.Step.bind _ (Plain.keeps told_steady told_lasts
      (saves_does watched_trivially persists j.id ticks) (saves_plain j.id ticks)) fun _ => ?_
    refine PublicProtocol.Step.bind _ (handler_step j) fun (ran : Ran) => ?_
    refine PublicProtocol.Step.bind _ (Plain.keeps told_steady told_lasts (call_step .ticks)
      (call_plain trivial)) fun (late : Nat) => ?_
    refine PublicProtocol.Step.bind _
      (Plain.keeps told_steady told_lasts (saves_does watched_trivially persists j.id late)
      (saves_plain j.id late)) fun _ => ?_
    cases ran with
    | down => exact ret_step ()
    | failed p out err =>
      exact finish_step (.inr rfl) _ _ _ fun notice now job fits => ⟨rfl, fits, fun absurd_ => nomatch absurd_⟩
    | returned p out =>
      exact finish_step (.inl rfl) _ _ _ fun notice now job fits => ⟨rfl, fits.1, fun _ => fits.2⟩

theorem work_step (handles : String → Bool) (rounds : Nat) :
    PublicProtocol.Step (board maxAttempts) (respond ttl) rules pid (fun _ => True)
    (work handles rounds) fun _ _ => True := by
  induction rounds with
  | zero => exact ret_step ()
  | succ rounds ih =>
    let unsent : Option Job × Option SqlError → Board → Prop :=
      fun given state => ∀ j ∈ given.1, Told pid j.id (fun _ => False) state
    have steady : ∀ given, PublicProtocol.Steady (board maxAttempts) pid (unsent given) :=
      fun given state next app after grow known j member =>
        told_steady state next app after grow (known j member)
    have claims : PublicProtocol.Step (board maxAttempts) (respond ttl) rules pid
        (fun _ => True) claim unsent := by
      intro shared inv idle
      let log : Log := shared.server.log
      have came : PublicProtocol.Step (board maxAttempts) (respond ttl) rules pid
          (fun state => log <+: state.log ∧ Before pid log state) claim
          fun given state => (HandsOut pid given state ∧
            Came maxAttempts (log <+: ·) .claim given.1.toList state.log) ∧
            Before pid log state :=
        Plain.step (before_steady log) (before_lasts log)
          (claim_came watched_trivially (fun _ _ _ => persists_const True)
            fun _ _ grown since => since.trans grown) claim_plain
      refine came.weaken (fun given state app held j member => ?_) shared inv
        ⟨idle.1, List.prefix_rfl, fun sent member _ => inv.2.2.earlier sent member⟩
      have taken : given.1.toList = [j] := by
        rw [Option.mem_def.mp member]
        rfl
      exact unpublished app held.2 (taken ▸ held.1.2)
    have rescued : PublicProtocol.Step (board maxAttempts) (respond ttl) rules pid (fun _ => True)
        (claim.handle fun _ => .ret (none, none)) unsent :=
      claims.handle fun _ => (PublicProtocol.Step.ret unsent (steady (none, none))).strengthen
        fun _ _ _ _ absurd_ => nomatch absurd_
    refine PublicProtocol.Step.bind unsent rescued fun given =>
      PublicProtocol.Step.bind (fun _ _ => True) ?_ fun _ => ih
    obtain ⟨taken, refused⟩ := given
    cases taken with
    | none => exact ret_step ()
    | some j => exact (runJob_step handles j).strengthen fun _ _ known => known j rfl

end Steps

theorem process_step {ttl : Nat} {pid : Tid}
    {rules : Rules Process (Action Job Label Request) (Shared Job Label (List Published))}
    (handles : String → Bool) (opt : Options) (process : Process) :
    PublicProtocol.Step (board (newQueue opt).maxAttempts) (respond ttl) rules pid (fun _ => True)
    (process.code handles opt)
      fun _ _ => True := by
  have does : Does (newQueue opt).maxAttempts (fun _ _ _ _ => True) (respond ttl) rules pid
      (process.code handles opt) :=
    process_does handles opt watched_trivially (fun _ _ _ => persists_const True) process
  have quiet : ∀ {script : JobsScript Unit},
      Does (newQueue opt).maxAttempts (fun _ _ _ _ => True) (respond ttl) rules pid script →
        script.Calls plain →
        PublicProtocol.Step (board (newQueue opt).maxAttempts) (respond ttl) rules pid (fun _ => True) script
        fun _ _ => True :=
    fun does calls => Plain.keeps (fun _ _ _ _ _ _ => trivial) (fun _ _ _ _ => trivial) does calls
  cases process with
  | worker rounds => exact work_step handles rounds
  | recover => exact quiet does (.bind (requeueOrphans_plain _ _) fun _ => trivial)
  | enqueue tenant kind params createdBy =>
    exact quiet does (.bind (enqueue_plain tenant kind params createdBy) fun _ => trivial)
  | cancel tenant id => exact quiet does (.bind (cancel_plain tenant id) fun _ => trivial)

/-! ## Runs -/

theorem notices_agree (handles : String → Bool) (opt : Options) (ttl : Nat) (config : ExportConfig)
    (run : (machine (respond ttl)).Reaches (Process.code handles opt) {} (.start empty) config)
    (owned : ∀ sent ∈ config.state.world, Owned sent)
    (unhindered : ∀ sent ∈ config.state.world, Unhindered config.state.server.log sent) :
    Agreed config.state.server.rows config.state.world := by
  have first : (board (newQueue opt).maxAttempts).App empty.public := by
    refine ⟨⟨.start, rfl, trivial⟩, ?_, ?_, fun _ => List.nodup_nil⟩
    · intro sent absurd_
      cases absurd_
    · intro _ sent absurd_
      cases absurd_
  have ends := PublicProtocol.reaches (fun _ _ _ _ _ _ _ => trivial)
    (fun _ process => process_step handles opt process) run
    (sane_holding .nil) first fun pid => ⟨rfl, trivial⟩
  obtain ⟨-, ⟨chronicled, kept⟩, -⟩ := ends
  have clean : Clean config.state.public := fun sent member => ⟨owned sent member, unhindered sent member⟩
  refine ⟨fun sent member job present about isOver => ?_, kept.once clean⟩
  obtain ⟨row, here, isRow, state⟩ :=
    kept.follows clean sent member _ (kept.earlier sent member) List.prefix_rfl
  have equal : row = job := eq_of_primary (journal_apart chronicled.journal) here (chronicled.rows ▸ present)
    (isRow.trans about.symm)
  subst equal
  rcases state with ⟨running, -⟩ | told
  · rw [running] at isOver
    cases isOver
  · exact ⟨told.status, told.resultURL⟩

def isUnhindered (log : Log) (sent : Published) : Bool :=
  (List.finRange log.length).all fun i => decide (i.val < sent.earlier.length) ||
      (log.get i).before.all fun old =>
    decide (old.id ≠ sent.notice.jobID) || decide (old.status ≠ .running) || !(log.get i).tx.removes old ||
      ((log.get i).tx.label.any (fun label => label matches .saveProgress _ | .finish _) &&
        (log.get i).tid == sent.publisher)

theorem unhindered_of_check {log : Log} {sent : Published} (check : isUnhindered log sent = true) :
    Unhindered log sent := by
  rintro past commit since ⟨rest, rfl⟩ old before about running removes
  have at_ := List.all_eq_true.mp check ⟨past.length, by simp⟩ (List.mem_finRange _)
  have late : ¬ past.length < sent.earlier.length := Nat.not_lt.mpr since.length_le
  have holds := List.all_eq_true.mp ((Bool.or_eq_true ..).mp at_ |>.resolve_left (by simpa using late)) old
    (by simpa using before)
  simp only [List.append_assoc, List.get_eq_getElem, List.getElem_append_right, Nat.le_refl,
    Nat.sub_self, List.cons_append,
      List.getElem_cons_zero, about, running, removes, ne_eq, not_true_eq_false, decide_false,
      Bool.not_true, Bool.false_or,
    Bool.and_eq_true, beq_iff_eq, Option.any_eq_true] at holds
  obtain ⟨⟨label, isLabel, worker⟩, mine⟩ := holds
  refine ⟨?_, mine⟩
  cases label with
  | saveProgress id => exact ⟨id, .inl isLabel⟩
  | finish id => exact ⟨id, .inr isLabel⟩
  | _ => cases worker

def waits (now : Time) (pid : Tid) (count : Nat) : List (Move Process Answered) :=
  List.replicate count (.act pid (.draw (.time now)))

/-- A job is queued, worker 2 claims it, and its handler publishes the URL. -/
def noticed : List (Move Process Answered) :=
  [.spawn 1 (.enqueue (some 9) kind "{}" "user-1"), .act 1 (.draw (.uuid 5))] ++ waits 0 1 5 ++
  [.spawn 2 (.worker 1)] ++ waits 0 2 7 ++
  [.act 2 (.draw (.ticks 0)), .act 2 (.attempt ⟨.ok ⟨"https://minio/exports/5.csv", by decide⟩, {}, 10, .none,
    true⟩), .act 2 (.draw (.ticks 0))]

/-- The statuses of the jobs, and the jobs and statuses of the notices. -/
def outcome (config : ExportConfig) : List JobStatus × List (Uuid × JobStatus) :=
  (config.state.server.rows.map Job.status, config.state.world.map
    fun sent => (sent.notice.jobID, sent.notice.status))

theorem notices_agree_finished : ∃ config,
      (machine (respond 86400000)).moves exampleQueue (noticed ++ waits 20 2 5) (.start empty) = some config ∧
      outcome config = ([.succeeded], [(5, .succeeded)]) ∧
      Agreed config.state.server.rows config.state.world := by
  obtain ⟨config, ran⟩ := Option.isSome_iff_exists.mp (by decide :
    ((machine (respond 86400000)).moves exampleQueue (noticed ++ waits 20 2 5) (.start empty)).isSome = true)
  have found : ((machine (respond 86400000)).moves exampleQueue (noticed ++
    waits 20 2 5) (.start empty)).map outcome =
      some ([.succeeded], [(5, .succeeded)]) := by decide
  have owned : ((machine (respond 86400000)).moves exampleQueue (noticed ++ waits 20 2 5) (.start empty)).all
      fun config => config.state.world.all fun sent => (rowsAfter [] sent.earlier).any
        fun job => decide (job.id = sent.notice.jobID ∧
            job.status = .running ∧ job.attempts = sent.attempt ∧
            (⟨sent.publisher, job.id, sent.attempt⟩ : Handed) ∈ handed sent.earlier) := by
    decide
  have unhindered : ((machine (respond 86400000)).moves exampleQueue (noticed ++
    waits 20 2 5) (.start empty)).all
      fun config => config.state.world.all (isUnhindered config.state.server.log) := by decide
  rw [ran] at found owned unhindered
  have run := (machine (respond 86400000)).reaches_moves exampleQueue .refl _ ran
  refine ⟨config, ran, Option.some.inj found, notices_agree _ _ _ config run (fun sent member => ?_)
    fun sent member => ?_⟩
  · obtain ⟨job, present, holds⟩ := List.any_eq_true.mp (List.all_eq_true.mp owned sent member)
    exact ⟨job, present, of_decide_eq_true holds⟩
  · exact unhindered_of_check (List.all_eq_true.mp unhindered sent member)

/-- The tenant cancels the job between its notice and its end. -/
theorem cancelled_after_notice :
    ¬ ∀ (handles : String → Bool) (opt : Options) (ttl : Nat) (config : ExportConfig),
        (machine (respond ttl)).Reaches (Process.code handles opt) {} (.start empty) config →
        Agreed config.state.server.rows config.state.world := by
  intro agree
  let run := noticed ++ [.spawn 3 (.cancel (some 9) 5)] ++ waits 15 3 5
  obtain ⟨config, ran⟩ := Option.isSome_iff_exists.mp (by decide :
    ((machine (respond 86400000)).moves exampleQueue run (.start empty)).isSome = true)
  have found : ((machine (respond 86400000)).moves exampleQueue run (.start empty)).map
      (fun config => config.state.world.any fun sent => config.state.server.rows.any fun job =>
        decide (job.id = sent.notice.jobID ∧ job.status.ended = true ∧ sent.notice.status ≠ job.status)) =
          some true := by decide
  rw [ran] at found
  obtain ⟨sent, member, within⟩ := List.any_eq_true.mp (Option.some.inj found)
  obtain ⟨job, present, holds⟩ := List.any_eq_true.mp within
  obtain ⟨about, isOver, differs⟩ := of_decide_eq_true holds
  have agreed := agree _ _ _ config ((machine (respond 86400000)).reaches_moves exampleQueue .refl _ ran)
  exact differs (agreed.ends sent member job present about isOver).1

end OpenEmarsys.Exports
