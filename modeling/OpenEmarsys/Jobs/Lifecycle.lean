import OpenEmarsys.Jobs.Operations
import OpenEmarsys.Postgres.Undisturbed

/-! The life of a job under any number of replicas.

The table keeps its invariants in every run. That an attempt is handed out once also
needs every claim to commit: a claim whose commit is refused still returns its job.
-/

set_option autoImplicit false

namespace OpenEmarsys.Jobs

open Interleaving Javascript Postgres

abbrev Config := Interleaving.Config Operation (Action Job Label Request) (Answer Request.Reply) JobsError
  (Option Job × Option SqlError) State

/-- A claim that has moved a job and has yet to commit. -/
def Claiming (tx : Tx Job Label) : Prop := tx.label = some .claim ∧ tx.added ≠ []

/-- The server does not close the transaction of a claim that has got its job. -/
def claimsCommit : Rules Operation (Action Job Label Request) State where
  disturb pid shared := ¬ Claiming (shared.server.txs pid)

/-- The transaction of a claim, unless it has been closed. -/
def OfClaim (tx : Tx Job Label) : Prop := tx.label = none ∨ tx.label = some .claim

theorem ofClaim_lasts : Lasts Claiming OfClaim := .inr fun _ closed => .inl closed

theorem claiming_lasts : Lasts Claiming Claiming := .inl fun _ held => held

theorem updates_added {server : Server Job Label} {tid : Tid} {f : Job → Job} {found updated : List Job}
    {tx after : Tx Job Label}
    (run : server.updates tid f found tx = some (.ok (updated, after))) (some_ : updated ≠ []) :
    after.added ≠ [] := by
  induction found generalizing tx updated with
  | nil =>
    simp only [Server.updates, Option.some.injEq, Except.ok.injEq, Prod.mk.injEq] at run
    exact absurd run.1.symm some_
  | cons row rest ih =>
    simp only [Server.updates] at run
    split at run
    · cases run
    · cases run
    · split at run
      · next later final again =>
        cases run
        cases later with
        | cons _ _ => exact ih again (List.cons_ne_nil _ _)
        | nil =>
          cases rest with
          | nil =>
            simp only [Server.updates, Option.some.injEq, Except.ok.injEq, Prod.mk.injEq] at again
            rw [← again.2]
            simp [Tx.add]
          | cons next others =>
            simp only [Server.updates] at again
            split at again
            · cases again
            · cases again
            · split at again <;> cases again
      · cases run
      · cases run

section Claim

variable {pid : Tid}

theorem claim_discipline : Discipline (machine respond) claimsCommit (LeftOpen Claiming)
    (fun _ => True) fun _ _ => True :=
  leftOpen_discipline respond fun _ _ spared => spared

theorem claim_sql {statement : Statement Job} (next : List Job → Tx Job Label → Prop)
    (stable : ∀ rows, Stable (LeftOpen Claiming) (fun _ => True) pid
      fun shared : State => next rows (shared.server.txs pid))
    (effect : ∀ (server : Server Job Label) rows tx, (server.txs pid).label = some .claim →
      server.execute pid statement = some (.ok (rows, tx)) → next rows tx) :
    Triple (machine respond) claimsCommit (LeftOpen Claiming) (fun _ => True) pid
      (fun shared => OfClaim (shared.server.txs pid))
      (sql statement : JobsScript (List Job)) fun result shared =>
        match result with
        | .ok rows => next rows (shared.server.txs pid)
        | .error _ => True := by
  refine Triple.call claim_discipline (fun _ shared => OfClaim (shared.server.txs pid))
    (ofClaim_lasts.stable pid) ?_ fun _ => ?_
  · intro shared _ held _ choice reply after taken
    refine ⟨fun other distinct => .inl (act_others distinct taken), ?_⟩
    simp only [machine, Option.some.injEq, Prod.mk.injEq] at taken
    obtain ⟨-, rfl⟩ := taken
    split
    · simpa [OfClaim, Server.start] using held
    · exact held
  · refine Triple.call claim_discipline (fun reply shared => ∀ rows, reply = .ok rows →
      next rows (shared.server.txs pid))
      (ofClaim_lasts.stable pid) ?_ fun reply => ?_
    · intro shared _ held _ choice reply after taken
      refine ⟨fun other distinct => .inl (act_others distinct taken), ?_⟩
      simp only [machine] at taken
      split at taken
      · next opened =>
        have isClaim : (shared.server.txs pid).label = some .claim :=
          held.resolve_left fun closed => by simp [closed] at opened
        split at taken
        · cases taken
        · next rows tx run =>
          cases taken
          intro found same
          cases same
          simpa using effect shared.server rows tx isClaim run
        · cases taken
          intro found same
          cases same
      · cases taken
        intro found same
        cases same
    · cases reply with
      | ok rows =>
        exact fun shared inv held later moved =>
          ⟨trivial, stable rows shared later inv (held rows rfl) moved⟩
      | error error => exact fun _ _ _ _ _ => ⟨trivial, trivial⟩

theorem claim_unrefused : Keeps respond claimsCommit Claiming pid (fun _ => True) claim fun result =>
    ∀ job error, result ≠ .ok (some job, some error) := by
  refine Triple.call claim_discipline (fun _ _ => True) .true_ ?_ fun (now : Time) => ?_
  · exact fun shared _ _ _ choice reply after taken => ⟨fun other distinct =>
      .inl (act_others distinct taken), trivial⟩
  refine Triple.handle claim_discipline (fun _ _ => True)
    (Triple.bind claim_discipline (fun given _ => given.2 = none) ?_ fun given => ?_) fun error => ?_
  · -- the transaction
    refine Triple.call claim_discipline (fun _ shared => OfClaim (shared.server.txs pid)) .true_ ?_
      fun _ => ?_
    · intro shared _ _ _ choice reply after taken
      refine ⟨fun other distinct => .inl (act_others distinct taken), ?_⟩
      cases taken
      exact .inr (by simp [Server.begin])
    refine Triple.handle claim_discipline (fun _ _ => True)
      (Triple.bind claim_discipline (fun _ shared => Claiming (shared.server.txs pid)) ?_
        fun job => ?_) fun error => ?_
    · -- its statements
      refine Triple.bind claim_discipline (fun _ shared => OfClaim (shared.server.txs pid))
        ((claim_sql (fun _ => OfClaim) (fun _ => ofClaim_lasts.stable pid) fun server rows tx isClaim run =>
          .inr ((execute_continues run).label.trans isClaim)).weaken
            fun result _ _ held => by cases result <;> exact held)
        fun oldest => ?_
      refine Triple.bind claim_discipline (fun rows shared => rows ≠ [] → Claiming (shared.server.txs pid))
        ((claim_sql (fun rows tx => rows ≠ [] → Claiming tx) (fun rows => Stable.all
          fun _ => claiming_lasts.stable pid)
          ?_).weaken fun result _ _ held => by cases result <;> exact held) fun rows => ?_
      · intro server rows tx isClaim run some_
        refine ⟨(execute_continues run).label.trans isClaim, ?_⟩
        simp only [Server.execute] at run
        split at run
        · cases run
        · exact updates_added run some_
      · cases rows with
        | nil => exact fun _ _ _ _ _ => ⟨trivial, trivial⟩
        | cons job rest =>
          intro shared inv held later moved
          exact ⟨trivial, claiming_lasts.stable pid shared later inv (held (List.cons_ne_nil _ _)) moved⟩
    · -- its commit
      refine Triple.call claim_discipline (fun reply _ => reply = .ok ()) (claiming_lasts.stable pid) ?_
        fun reply => ?_
      · intro shared _ held _ choice reply after taken
        refine ⟨fun other distinct => .inl (act_others distinct taken), ?_⟩
        simp only [machine, held.1, Option.isSome_some, if_true, Option.some.injEq, Prod.mk.injEq] at taken
        exact taken.1.symm
      · rintro shared - rfl later -
        exact ⟨trivial, rfl⟩
    · refine Triple.call claim_discipline (fun _ _ => True) .true_ ?_ fun _ _ _ _ _ _ => ⟨trivial, trivial⟩
      exact fun shared _ _ _ choice reply after taken =>
        ⟨fun other distinct => .inl (act_others distinct taken), trivial⟩
  · obtain ⟨job, refused⟩ := given
    rintro shared - rfl later -
    refine ⟨trivial, ?_⟩
    rintro _ _ ⟨⟩
  · cases error with
    | notFound =>
      intro shared _ _ later _
      refine ⟨trivial, ?_⟩
      rintro _ _ ⟨⟩
    | _ =>
      intro shared _ _ later _
      refine ⟨trivial, ?_⟩
      rintro _ _ ⟨⟩

theorem script_keeps {ε α : Type} (script : Client Job Label Request.Reply ε α) :
    Keeps respond claimsCommit Claiming pid (fun _ => True) script fun _ => True := by
  induction script with
  | ret value => exact fun _ _ _ _ _ => ⟨trivial, trivial⟩
  | fail error => exact fun _ _ _ _ _ => ⟨trivial, trivial⟩
  | call act rest ih =>
    refine Triple.call claim_discipline (fun _ _ => True) .true_ ?_ ih
    exact fun shared _ _ _ choice reply after taken => ⟨fun other distinct =>
      .inl (act_others distinct taken), trivial⟩

end Claim

section Runs
variable {maxAttempts : Int} {rules : Rules Operation (Action Job Label Request) State}
  {config later : Config}

-- A run of operations has a journal, and what committed claims returned is in it.
theorem run_journaled
    (run : (machine respond).Reaches (Operation.code maxAttempts) rules (.start State.empty) config) :
    (chronicle maxAttempts fun _ _ _ _ => True).Kept config.state.public ∧ ∀ pid given,
      config.procs pid = .running .claim (.ret given) → HandsOut pid given config.state.public := by
  have watched : Watched maxAttempts (fun _ _ _ _ => True) rules := fun _ _ _ _ _ _ _ _ _ _ => trivial
  have calls : ∀ pid (operation : Operation), PublicProtocol.Step (chronicle maxAttempts
    fun _ _ _ _ => True).public_ respond rules pid
      (fun _ => True) (operation.code maxAttempts) fun given state => operation = .claim →
          HandsOut pid given state :=
    fun pid operation => code_does watched (fun _ _ _ => persists_const True) operation
  have ends := PublicProtocol.reaches (fun _ _ _ _ _ _ _ => trivial) calls run (sane_holding .nil)
    ⟨.start, rfl, trivial⟩
    fun pid => ⟨rfl, trivial⟩
  exact ⟨ends.2.1, fun pid given returned => ends.2.2 pid .claim given returned rfl⟩

theorem run_unrefused
    (run : (machine respond).Reaches (Operation.code maxAttempts) claimsCommit (.start State.empty) config)
    (pid : Tid) (job : Job) (error : SqlError) : config.procs pid ≠ .running .claim
    (.ret (some job, some error)) := by
  intro returned
  let post : Tid → Operation → Except JobsError (Option Job × Option SqlError) → State → Prop :=
    fun _ operation result _ => operation = .claim → ∀ job error, result ≠ .ok (some job, some error)
  have calls : ∀ pid operation shared, claimsCommit.spawn pid operation shared → True → True →
      Safe (machine respond) claimsCommit (LeftOpen Claiming) pid (Operation.code maxAttempts operation)
        (post pid operation) shared := by
    intro pid operation shared _ _ _
    by_cases claims : operation = .claim
    · subst claims
      exact (claim_unrefused shared trivial trivial).mono fun result _ done _ => done.2
    · exact (script_keeps _ shared trivial trivial).mono fun result _ _ absurd_ => absurd absurd_ claims
  have sound := claim_discipline.reaches calls run ⟨trivial, fun _ => trivial⟩
  have ended := sound.2 pid
  rw [returned] at ended
  exact ended config.state (.inl rfl) rfl job error rfl

end Runs

/-- What a replica may rely on between a state of the table and any later one. -/
structure Lawful (maxAttempts : Int) (config later : Config) : Prop where
  /-- `finished_at` is set just when the job is over. -/
  finished : ∀ job ∈ later.state.server.rows, job.finishedAt.isSome = job.status.ended
  attempts : ∀ job ∈ later.state.server.rows, (job.attempts : Int) ≤ maxAttempts
  running : ∀ job ∈ later.state.server.rows, job.status = .running → 1 ≤ job.attempts
  stays : ∀ job ∈ config.state.server.rows, job.status.ended = true → job ∈ later.state.server.rows
  growing : ∀ job ∈ config.state.server.rows,
    ∃ now ∈ later.state.server.rows, now.id = job.id ∧ job.attempts ≤ now.attempts
  /-- Two claims have not returned the same attempt. -/
  once : ∀ pid other job again refused also, pid ≠ other →
    config.procs pid = .running .claim (.ret (some job, refused)) →
      later.procs other = .running .claim (.ret (some again, also)) →
      (job.id, job.attempts) ≠ (again.id, again.attempts)

/-- In a run in which the server refuses the commit of no claim that has got its job. -/
theorem jobs_lawful (opt : Options) (config later : Config)
    (run : (machine respond).Reaches (Operation.code (newQueue opt).maxAttempts) claimsCommit
      (.start State.empty) config)
    (more : (machine respond).Reaches (Operation.code (newQueue opt).maxAttempts) claimsCommit config later) :
    Lawful (newQueue opt).maxAttempts config later := by
  have whole := run.trans more
  obtain ⟨kept, returns⟩ := run_journaled run
  obtain ⟨keptLater, returnsLater⟩ := run_journaled whole
  have grown := reaches_log more
  have rows : config.state.server.rows = rowsAfter [] config.state.server.log := kept.server
  have rowsLater : later.state.server.rows = rowsAfter [] later.state.server.log := keptLater.server
  have sound : ∀ job ∈ later.state.server.rows, Sound (newQueue opt).maxAttempts job := fun job present =>
    rows_sound (newQueue_maxAttempts opt) keptLater.journal job (rowsLater ▸ present)
  refine ⟨fun job present => (sound job present).finished, fun job present => (sound job present).attempts,
    fun job present => (sound job present).running, fun job present ended => ?_, fun job present => ?_, ?_⟩
  · rw [rowsLater]
    exact over_stays keptLater.journal grown (rows ▸ present) ended
  · rw [rowsLater]
    exact attempts_grow keptLater.journal grown (rows ▸ present)
  · intro pid other job again refused also distinct returned returnedLater same
    have committed : refused = none := by
      cases refused with
      | none => rfl
      | some error => exact absurd returned (run_unrefused run pid job error)
    have committedLater : also = none := by
      cases also with
      | none => rfl
      | some error => exact absurd returnedLater (run_unrefused whole other again error)
    have first := handed_persists _ _ _ grown (returns pid _ returned committed job rfl)
    have second := returnsLater other _ returnedLater committedLater again rfl
    have equal := handed_once keptLater.journal first second (congrArg Prod.fst same) (congrArg Prod.snd same)
    exact distinct (congrArg Handed.worker equal)

def returned (config : Config) (pid : Tid) : Option (Option Job × Option SqlError) :=
  match config.procs pid with
  | .running .claim (.ret given) => some given
  | _ => none

theorem procs_of_returned {config : Config} {pid : Tid} {given : Option Job × Option SqlError}
    (found : returned config pid = some given) : config.procs pid = .running .claim (.ret given) := by
  unfold returned at found
  split at found
  · next given' same =>
    cases found
    exact same
  · cases found

/-- The job and the attempt a claim has returned. -/
def attemptOf (config : Config) (pid : Tid) : Option (Uuid × Nat) :=
  (returned config pid).bind fun given => given.1.map fun job => (job.id, job.attempts)

theorem procs_of_attemptOf {config : Config} {pid : Tid} {attempt : Uuid × Nat}
    (found : attemptOf config pid = some attempt) :
    ∃ job refused, config.procs pid = .running .claim (.ret (some job, refused)) ∧
    (job.id, job.attempts) = attempt := by
  obtain ⟨⟨job, refused⟩, here, same⟩ := Option.bind_eq_some_iff.mp found
  obtain ⟨job, rfl, attempt⟩ := Option.map_eq_some_iff.mp same
  exact ⟨job, refused, procs_of_returned here, attempt⟩

def plainCalls (pid : Tid) (count : Nat) : List (Move Operation Draw) :=
  List.replicate count (.act pid (.time 0))

/-- A job is queued, and a claim has made it its own but not committed. -/
def claimOpen : List (Move Operation Draw) :=
  [.spawn 1 (.enqueue (some 9) "import" "{}" "user-1"), .act 1 (.uuid 5)] ++ plainCalls 1 5 ++
  [.spawn 2 .claim] ++ plainCalls 2 6

def claimAgain : List (Move Operation Draw) := plainCalls 2 1 ++ [.spawn 3 .claim] ++ plainCalls 3 7

def exampleOptions : Options := ⟨0, 0, 0⟩

theorem jobs_lawful_claimed : ∃ config,
    (machine respond).moves (Operation.code (newQueue exampleOptions).maxAttempts)
    (claimOpen ++ plainCalls 2 1)
        (.start State.empty) = some config ∧
      attemptOf config 2 = some (5, 1) ∧ Lawful (newQueue exampleOptions).maxAttempts config config := by
  obtain ⟨config, ran⟩ := Option.isSome_iff_exists.mp (by decide :
    ((machine respond).moves (Operation.code (newQueue exampleOptions).maxAttempts)
      (claimOpen ++ plainCalls 2 1)
      (.start State.empty)).isSome = true)
  have found :
    ((machine respond).moves (Operation.code (newQueue exampleOptions).maxAttempts)
    (claimOpen ++ plainCalls 2 1)
      (.start State.empty)).map (attemptOf · 2) = some (some (5, 1)) := by decide
  rw [ran] at found
  have run : (machine respond).Reaches (Operation.code (newQueue exampleOptions).maxAttempts) claimsCommit
      (.start State.empty) config :=
    (machine respond).reaches_calm _ .refl (claimOpen ++ plainCalls 2 1) (by decide) ran
  exact ⟨config, ran, Option.some.inj found, jobs_lawful exampleOptions config config run .refl⟩

/-- The server closes the claim of process 2 before its commit: it returns the job with the error, and
so does the claim of process 3, as the same attempt. -/
theorem attempt_handed_twice :
    ¬ ∀ (opt : Options) (config later : Config),
      (machine respond).Reaches (Operation.code (newQueue opt).maxAttempts) {} (.start State.empty) config →
      (machine respond).Reaches (Operation.code (newQueue opt).maxAttempts) {} config later →
      Lawful (newQueue opt).maxAttempts config later := by
  intro lawful
  let run := claimOpen ++ .disturb 2 (.time 0) :: claimAgain
  obtain ⟨config, ran⟩ := Option.isSome_iff_exists.mp (by decide :
    ((machine respond).moves (Operation.code (newQueue exampleOptions).maxAttempts) run
      (.start State.empty)).isSome = true)
  have found :
    ((machine respond).moves (Operation.code (newQueue exampleOptions).maxAttempts) run
    (.start State.empty)).map
      (fun config => (attemptOf config 2, attemptOf config 3)) = some (some (5, 1), some (5, 1)) := by decide
  rw [ran] at found
  obtain ⟨first, second⟩ := Prod.mk.inj (Option.some.inj found)
  obtain ⟨job, refused, returned, isFirst⟩ := procs_of_attemptOf first
  obtain ⟨again, also, returnedAgain, isSecond⟩ := procs_of_attemptOf second
  have reached := (machine respond).reaches_moves _ .refl _ ran
  exact (lawful exampleOptions config config reached .refl).once 2 3 job again refused also (by decide)
    returned returnedAgain
    (isFirst.trans isSecond.symm)

end OpenEmarsys.Jobs
