import OpenEmarsys.Importer.Attempt
import OpenEmarsys.Interleaving.Tally

/-! What an attempt has counted and written, at any point of any schedule.

A gauge reads one number off the reporter and errors.csv. What it shows, with what the
threads have begun and what the rest of the file will add, only ever grows by what the
answers of core add.
-/

set_option autoImplicit false

namespace OpenEmarsys.Importer

open Golang Javascript Interleaving
open Jobs (Progress)

/-- The columns with the plan, if the first record gives them. -/
def headerOf (job : Import) : List Read → Option (List Bytes × Plan)
  | .record fields :: _ =>
      match newPlan (columns job.p fields) job.p.keyID job.order with
      | .ok pl => some (columns job.p fields, pl)
      | .error _ => none
  | _ => none

/-- The data records, each with its position in the file. -/
def entries (job : Import) (file : List Read) : List (Read × Nat) :=
  (file.zipIdx 1).drop (if job.p.hasHeader then 1 else 0)

def checked (heading : Option (List Bytes × Plan)) (read : Read) : Option Reason :=
  heading.bind fun heading => check heading.1 heading.2 read

/-- The row of a record that passes the local checks. -/
def row (heading : Option (List Bytes × Plan)) (entry : Read × Nat) : Option BatchRow :=
  if checked heading entry.1 = none then some ⟨entry.2, entry.1.fields⟩ else none

def accepted (heading : Option (List Bytes × Plan)) (list : List (Read × Nat)) : List BatchRow :=
  list.filterMap (row heading)

/-- The row of errors.csv for a record that fails a local check. -/
def refusal (heading : Option (List Bytes × Plan)) (entry : Read × Nat) : Option ErrorRow :=
  (checked heading entry.1).map fun reason => ⟨entry.2, reason, entry.1.fields⟩

def refused (heading : Option (List Bytes × Plan)) (list : List (Read × Nat)) : List ErrorRow :=
  list.filterMap (refusal heading)

/-- What the loop does for a data record, its batch apart. -/
def booked (heading : Option (List Bytes × Plan)) (entry : Read × Nat) : List Action :=
  .add 1 0 0 :: (refusal heading entry).toList.flatMap fun row => fail row.line row.reason row.record

def Loop.heading (job : Import) (loop : Loop) (unread : List Read) : Option (List Bytes × Plan) :=
  loop.header.or (headerOf job unread)

def Loop.rest (job : Import) (loop : Loop) (unread : List Read) : List (Read × Nat) :=
  (unread.zipIdx (loop.line + 1)).drop (if loop.header.isNone && job.p.hasHeader then 1 else 0)

def Sending.weigh (weight : Action → Int) : Sending → Int
  | .posting _ => 0
  | .accounting actions => tally weight actions

def Sending.rows : Sending → List BatchRow
  | .posting rows => rows
  | .accounting _ => []

@[simp] theorem Sending.rows_posting (rows : List BatchRow) : (Sending.posting rows).rows = rows := rfl

@[simp] theorem Sending.rows_accounting (actions : List Action) :
    (Sending.accounting actions).rows = [] := rfl

def Action.rows : Action → List BatchRow
  | .go rows => rows
  | _ => []

@[simp] theorem Action.rows_go (rows : List BatchRow) : (Action.go rows).rows = rows := rfl

@[simp] theorem Action.rows_add (read ok failed : Int) : (Action.add read ok failed).rows = [] := rfl

@[simp] theorem Action.rows_setPercent (percent : Number) : (Action.setPercent percent).rows = [] := rfl

@[simp] theorem Action.rows_header (cols : List Bytes) : (Action.header cols).rows = [] := rfl

@[simp] theorem Action.rows_write (row : ErrorRow) : (Action.write row).rows = [] := rfl

@[simp] theorem Action.rows_cancel : Action.cancel.rows = [] := rfl

section Loop
variable {job : Import} {loop next : Loop} {read : Read} {percent : Number} {sees : Bool}
  {actions : List Action}

theorem flush_header : (loop.flush percent sees).1.header = loop.header := by
  unfold Loop.flush
  split <;> rfl

theorem flush_line : (loop.flush percent sees).1.line = loop.line := by
  unfold Loop.flush
  split <;> rfl

theorem take_header (size : Nat) (cols : List Bytes) (pl : Plan) :
    (loop.take size cols pl read percent sees).1.header = loop.header := by
  unfold Loop.take
  split
  · rfl
  · dsimp only
    split
    · exact flush_header
    · rfl

theorem take_line (size : Nat) (cols : List Bytes) (pl : Plan) :
    (loop.take size cols pl read percent sees).1.line = loop.line := by
  unfold Loop.take
  split
  · rfl
  · dsimp only
    split
    · exact flush_line
    · rfl

theorem resolve_cases {heading : List Bytes × Plan} {front : List Action} {isHeader : Bool}
    (done : loop.resolve job read = .ok (heading, front, isHeader)) (rest : List Read) :
    loop.header.or (headerOf job (read :: rest)) = some heading ∧
      (isHeader = (loop.header.isNone && job.p.hasHeader)) ∧
      ∀ action ∈ front, ∃ cols, action = .header cols := by
  unfold Loop.resolve at done
  split at done
  · cases done
  · next known _ =>
    cases done
    simp [known]
  · cases done
  · next fields absent =>
    split at done
    · cases done
    · next pl built =>
      cases done
      simp [absent, headerOf, built]

def Loop.skips (job : Import) (loop : Loop) : Bool := loop.header.isNone && job.p.hasHeader

def Loop.opened (loop : Loop) (heading : List Bytes × Plan) : Loop :=
  { loop with header := some heading, line := loop.line + 1 }

theorem read_cases (done : loop.read job read percent sees = .ok (next, actions)) (rest : List Read) :
    ∃ heading front, loop.heading job (read :: rest) = some heading ∧
      (∀ action ∈ front, ∃ cols, action = .header cols) ∧
      ((loop.skips job = true ∧ next = loop.opened heading ∧ actions = front) ∨
        (loop.skips job = false ∧
          next = ((loop.opened heading).take job.cfg.batchSize heading.1 heading.2 read percent sees).1 ∧
          actions = front ++
          ((loop.opened heading).take job.cfg.batchSize heading.1 heading.2 read percent sees).2)) := by
  unfold Loop.read at done
  split at done
  · cases done
  · next heading front isHeader resolved =>
    obtain ⟨known, flag, headers⟩ := resolve_cases resolved rest
    refine ⟨heading, front, known, headers, ?_⟩
    change isHeader = loop.skips job at flag
    rw [flag] at done
    dsimp only at done
    split at done
    · next skipped =>
      simp only [Except.ok.injEq, Prod.mk.injEq] at done
      exact .inl ⟨skipped, done.1.symm, done.2.symm⟩
    · next taken =>
      simp only [Except.ok.injEq, Prod.mk.injEq] at done
      exact .inr ⟨by simpa using taken, done.1.symm, done.2.symm⟩

end Loop

/-! ## Gauges -/

/-- A number that the reporter or errors.csv shows, and what each action adds to it. -/
structure Gauge where
  value : Progress → List ErrorRow → Int
  weight : Action → Int
  exact : ∀ (a : Attempt) (action : Action),
    value (a.perform action).progress (a.perform action).report = value a.progress a.report + weight action
  percent : ∀ percent : Number, weight (.setPercent percent) = 0

namespace Gauge

def rowsRead : Gauge where
  value progress _ := progress.rowsRead
  weight
    | .add read _ _ => read
    | _ => 0
  exact a action := by cases action <;> simp [Attempt.perform]
  percent _ := rfl

def rowsOK : Gauge where
  value progress _ := progress.rowsOK
  weight
    | .add _ ok _ => ok
    | _ => 0
  exact a action := by cases action <;> simp [Attempt.perform]
  percent _ := rfl

def rowsFailed : Gauge where
  value progress _ := progress.rowsFailed
  weight
    | .add _ _ failed => failed
    | _ => 0
  exact a action := by cases action <;> simp [Attempt.perform]
  percent _ := rfl

def written (row : ErrorRow) : Gauge where
  value _ report := many row report
  weight
    | .write other => many row [other]
    | _ => 0
  exact a action := by cases action <;> simp [Attempt.perform]
  percent _ := rfl

variable (gauge : Gauge)

theorem weight_idle {action : Action} (idle : ∀ a : Attempt, gauge.value (a.perform action).progress
    (a.perform action).report = gauge.value a.progress a.report) : gauge.weight action = 0 := by
  have exact := gauge.exact (start [] {}) action
  have same := idle (start [] {})
  omega

theorem weight_go (rows : List BatchRow) : gauge.weight (.go rows) = 0 := gauge.weight_idle fun _ => rfl

theorem weight_cancel : gauge.weight .cancel = 0 := gauge.weight_idle fun _ => rfl

theorem weight_header (cols : List Bytes) : gauge.weight (.header cols) = 0 := gauge.weight_idle fun _ => rfl

variable {job : Import} {loop next : Loop} {read : Read} {percent : Number} {sees : Bool}
  {actions : List Action}

theorem flush_weighs : tally gauge.weight (loop.flush percent sees).2 = 0 := by
  unfold Loop.flush
  split
  · rfl
  · cases sees <;> simp [gauge.percent, gauge.weight_go, gauge.weight_cancel]

theorem take_weighs (size : Nat) (heading : List Bytes × Plan) :
    tally gauge.weight (loop.take size heading.1 heading.2 read percent sees).2 =
      tally gauge.weight (booked (some heading) (read, loop.line)) := by
  simp only [Loop.take, booked, refusal, checked, Option.bind_some]
  cases check heading.1 heading.2 read with
  | some reason => simp
  | none =>
    dsimp only
    split
    · simp [gauge.flush_weighs]
    · simp

theorem headers_weigh {front : List Action} (headers : ∀ action ∈ front, ∃ cols, action = .header cols) :
    tally gauge.weight front = 0 := by
  induction front with
  | nil => rfl
  | cons action later ih =>
    obtain ⟨cols, rfl⟩ := headers action (List.mem_cons_self ..)
    rw [tally_cons, gauge.weight_header, ih fun action member =>
      headers action (List.mem_cons_of_mem _ member)]
    rfl

end Gauge

section Perform
variable (a : Attempt) (action : Action)

@[simp] theorem perform_unread : (a.perform action).unread = a.unread := by cases action <;> rfl

@[simp] theorem perform_loop : (a.perform action).loop = a.loop := by cases action <;> rfl

@[simp] theorem perform_todo : (a.perform action).todo = a.todo := by cases action <;> rfl

@[simp] theorem perform_phase : (a.perform action).phase = a.phase := by cases action <;> rfl

@[simp] theorem perform_posted : (a.perform action).posted = a.posted := by cases action <;> rfl

@[simp] theorem perform_stopped : (a.perform action).stopped = a.stopped := by cases action <;> rfl

@[simp] theorem perform_failure : (a.perform action).failure = a.failure := by cases action <;> rfl

theorem perform_weigh (weight : Action → Int) :
    tally (Sending.weigh weight) (a.perform action).sends = tally (Sending.weigh weight) a.sends := by
  cases action <;> simp [Attempt.perform, Sending.weigh]

end Perform

section Step
variable {job : Import} {a next : Attempt}

-- The loop goes on with what it has begun, or a send with its account.
theorem act_cases (moved : a.step job .act = some next) :
    ∃ action rest, a.todo = action :: rest ∧ next = { a.perform action with todo := rest } := by
  simp only [Attempt.step] at moved
  split at moved
  · cases moved
  · next rows rest begun =>
    split at moved
    · exact ⟨_, rest, begun, (Option.some.inj moved).symm⟩
    · cases moved
  · next action rest _ begun => exact ⟨action, rest, begun, (Option.some.inj moved).symm⟩

theorem settle_cases {i : Nat} (moved : a.step job (.settle i) = some next) :
    (a.sends[i]? = some (.accounting []) ∧ next = { a with sends := a.sends.eraseIdx i }) ∨
        ∃ action rest, a.sends[i]? = some (.accounting (action :: rest)) ∧
        next = { a.perform action with sends := a.sends.set i (.accounting rest) } := by
  simp only [Attempt.step] at moved
  split at moved
  · next ended => exact .inl ⟨ended, (Option.some.inj moved).symm⟩
  · next action rest begun => exact .inr ⟨action, rest, begun, (Option.some.inj moved).symm⟩
  · cases moved

theorem answer_cases {i : Nat} {replies : List Reply} (moved : a.step job (.answer i replies) = some next) :
    ∃ rows, a.sends[i]? = some (.posting rows) ∧
      ((∃ answer, next = a.settling i rows answer) ∨ ∃ problem, next = a.broken i problem) := by
  simp only [Attempt.step] at moved
  split at moved
  · next rows posting =>
    refine ⟨rows, posting, ?_⟩
    unfold Attempt.answered at moved
    split at moved
    · exact .inl ⟨_, (Option.some.inj moved).symm⟩
    · split at moved
      · exact .inr ⟨_, (Option.some.inj moved).symm⟩
      · exact .inl ⟨_, (Option.some.inj moved).symm⟩
    · exact .inr ⟨_, (Option.some.inj moved).symm⟩
    · split at moved
      · exact .inr ⟨_, (Option.some.inj moved).symm⟩
      · cases moved
  · cases moved

theorem read_step_cases {percent : Number} {sees : Bool}
    (moved : a.step job (.read percent sees) = some next) :
    a.phase = .reading ∧ a.todo = [] ∧
      (((a.done || a.cancelled) = true ∧ next = { a with phase := .waiting }) ∨
        ((a.done || a.cancelled) = false ∧ a.unread = [] ∧ next = { a with
          loop := (a.loop.flush percent sees).1, todo := (a.loop.flush percent sees).2, phase := .waiting }) ∨
        (∃ problem, next = { a with phase := .returned (.failed problem) }) ∨
          ∃ read rest loop actions, a.unread = read :: rest ∧
          a.loop.read job read percent sees = .ok (loop, actions) ∧
          next = { a with unread := rest, loop := loop, todo := actions }) := by
  simp only [Attempt.step] at moved
  split at moved
  · next ready =>
    refine ⟨ready.1, ready.2, ?_⟩
    have same := (Option.some.inj moved).symm
    unfold Attempt.turn at same
    split at same
    · next over_ => exact .inl ⟨over_, same⟩
    · next on =>
      have live : (a.done || a.cancelled) = false := by simpa using on
      split at same
      · next ended => exact .inr (.inl ⟨live, ended, same⟩)
      · next read rest more =>
        split at same
        · next problem _ => exact .inr (.inr (.inl ⟨problem, same⟩))
        · next loop actions done => exact .inr (.inr (.inr ⟨read, rest, loop, actions, more, done, same⟩))
  · cases moved

end Step

/-! ## The balance -/

def Loop.owed (job : Import) (gauge : Gauge) (loop : Loop) (unread : List Read) : Int :=
  tally gauge.weight ((loop.rest job unread).flatMap (booked (loop.heading job unread)))

/-- What a gauge shows, with all that is begun or still to be read, less what the answers
of core have added. -/
def Attempt.balance (job : Import) (gauge : Gauge) (a : Attempt) : Int :=
  gauge.value a.progress a.report + tally gauge.weight a.todo + tally (Sending.weigh gauge.weight) a.sends +
      a.loop.owed job gauge a.unread -
    tally gauge.weight (a.posted.flatMap fun sent => sent.answer.account sent.rows)

section Balance
variable {job : Import} {a next : Attempt} {gauge : Gauge} {loop : Loop} {read : Read} {actions : List Action}
  {percent : Number} {sees : Bool}

theorem owed_flush (unread : List Read) :
    (loop.flush percent sees).1.owed job gauge unread = loop.owed job gauge unread := by
  unfold Loop.owed Loop.rest Loop.heading
  rw [flush_header, flush_line]

theorem rest_cons (rest : List Read) {after : Loop} (line : after.line = loop.line + 1)
    (opened : after.header.isSome = true) :
    loop.rest job (read :: rest) =
      (if loop.skips job then [] else [(read, loop.line + 1)]) ++ after.rest job rest := by
  have known : after.header.isNone = false := by simpa using opened
  unfold Loop.rest Loop.skips
  rw [List.zipIdx_cons, line, known]
  split <;> simp

-- What a turn of the loop does is taken off the rest of the file.
theorem read_rest {after : Loop} (rest : List Read)
    (done : loop.read job read percent sees = .ok (after, actions)) :
    after.heading job rest = loop.heading job (read :: rest) ∧
      loop.rest job (read :: rest) = (if loop.skips job then [] else [(read, loop.line + 1)]) ++
      after.rest job rest := by
  obtain ⟨heading, front, known, -, cases_⟩ := read_cases done rest
  have opened : after.header = some heading ∧ after.line = loop.line + 1 := by
    rcases cases_ with ⟨-, rfl, -⟩ | ⟨-, rfl, -⟩
    · exact ⟨rfl, rfl⟩
    · rw [take_header, take_line]
      exact ⟨rfl, rfl⟩
  constructor
  · rw [known, Loop.heading, opened.1]
    rfl
  · exact rest_cons rest opened.2 (by rw [opened.1]; rfl)

variable (gauge) in
theorem owed_read {after : Loop} (rest : List Read)
    (done : loop.read job read percent sees = .ok (after, actions)) :
    after.owed job gauge rest + tally gauge.weight actions = loop.owed job gauge (read :: rest) := by
  obtain ⟨same, parts⟩ := read_rest rest done
  obtain ⟨heading, front, known, headers, cases_⟩ := read_cases done rest
  have light := gauge.headers_weigh headers
  unfold Loop.owed
  rw [same, parts, known, List.flatMap_append, tally_append]
  rcases cases_ with ⟨skipped, -, rfl⟩ | ⟨taken, -, rfl⟩
  · rw [skipped, light]
    simp
  · rw [taken, tally_append, light, gauge.take_weighs]
    simp only [Loop.opened, Bool.false_eq_true, if_false, List.flatMap_cons,
      List.flatMap_nil, List.append_nil]
    omega

theorem balance_step {move : Move} (moved : a.step job move = some next) :
    next.balance job gauge = a.balance job gauge := by
  unfold Attempt.balance
  cases move with
  | read percent sees =>
    obtain ⟨-, idle, cases_⟩ := read_step_cases moved
    rcases cases_ with ⟨-, rfl⟩ | ⟨-, ended, rfl⟩ | ⟨problem, rfl⟩ | ⟨read, rest, loop,
      actions, more, done, rfl⟩
    · rfl
    · simp only [owed_flush, idle, gauge.flush_weighs, tally_nil]
    · rfl
    · have owed := owed_read gauge rest done
      simp only [idle, more, tally_nil]
      omega
  | act =>
    obtain ⟨action, rest, begun, rfl⟩ := act_cases moved
    have exact := gauge.exact a action
    have sends := perform_weigh a action gauge.weight
    simp only [perform_posted, perform_loop, perform_unread, begun, tally_cons]
    omega
  | answer i replies =>
    obtain ⟨rows, posting, ⟨answer, rfl⟩ | ⟨problem, rfl⟩⟩ := answer_cases moved
    · have sends := tally_set (f := Sending.weigh gauge.weight) posting (.accounting (answer.account rows))
      simp only [Sending.weigh] at sends
      simp only [Attempt.settling, List.flatMap_append, tally_append, List.flatMap_cons,
        List.flatMap_nil, List.append_nil]
      omega
    · have sends := tally_eraseIdx (f := Sending.weigh gauge.weight) posting
      simp only [Sending.weigh] at sends
      simp only [Attempt.broken]
      omega
  | settle i =>
    rcases settle_cases moved with ⟨ended, rfl⟩ | ⟨action, rest, begun, rfl⟩
    · have sends := tally_eraseIdx (f := Sending.weigh gauge.weight) ended
      simp only [Sending.weigh, tally_nil] at sends
      simp only
      omega
    · have exact := gauge.exact a action
      have sends := tally_set (f := Sending.weigh gauge.weight) begun (.accounting rest)
      simp only [Sending.weigh, tally_cons] at sends
      simp only [perform_posted, perform_todo, perform_loop, perform_unread]
      omega
  | interrupt =>
    cases moved
    rfl
  | finish written =>
    simp only [Attempt.step] at moved
    split at moved
    · cases moved
      rfl
    · cases moved

theorem balance_reaches {first : Attempt} (reached : first.Reaches job a) :
    a.balance job gauge = first.balance job gauge := by
  induction reached with
  | refl => rfl
  | step move _ moved ih => exact (balance_step moved).trans ih

end Balance

structure Attempt.Ended (a : Attempt) : Prop where
  waiting : a.phase = .waiting → a.failure = none → a.stopped = false → a.cancelled = false →
    a.unread = [] ∧ a.loop.batch = []
  succeeded : a.phase = .returned .succeeded →
    a.todo = [] ∧ a.sends = [] ∧ a.unread = [] ∧ a.loop.batch = [] ∧ a.failure = none ∧ a.cancelled = false

section Ended
variable {job : Import} {a next : Attempt}

theorem flush_batch {loop : Loop} {percent : Number} {sees : Bool} :
    (loop.flush percent sees).1.batch = [] := by
  unfold Loop.flush
  split
  · next empty => exact empty
  · rfl

theorem result_succeeded {written : Bool} (result : a.result written = .succeeded) :
    a.failure = none ∧ a.cancelled = false ∧ a.stopped = false := by
  unfold Attempt.result at result
  split at result
  · cases result
  · next none_ =>
    split at result
    · cases result
    · next on =>
      split at result
      · cases result
      · next alive => exact ⟨none_, by simpa using on, by simpa using alive⟩

theorem perform_cancelled {action : Action} (kept : (a.perform action).cancelled = false) :
    a.cancelled = false := by
  cases action <;> simp_all [Attempt.perform]

theorem ended_step {move : Move} (ended : a.Ended) (moved : a.step job move = some next) : next.Ended := by
  obtain ⟨waiting, succeeded⟩ := ended
  cases move with
  | read percent sees =>
    obtain ⟨reading, -, cases_⟩ := read_step_cases moved
    rcases cases_ with ⟨over_, rfl⟩ | ⟨-, ended, rfl⟩ | ⟨problem, rfl⟩ | ⟨read, rest,
      loop, actions, -, -, rfl⟩
    · constructor
      · intro _ failure stopped cancelled
        simp_all [Attempt.done]
      · intro absurd_
        cases absurd_
    · constructor
      · exact fun _ _ _ _ => ⟨ended, flush_batch⟩
      · intro absurd_
        cases absurd_
    · constructor <;> intro absurd_ <;> cases absurd_
    · constructor <;> intro absurd_ <;> simp [reading] at absurd_
  | act =>
    obtain ⟨action, rest, begun, rfl⟩ := act_cases moved
    constructor
    · intro phase failure stopped cancelled
      simp only [perform_phase, perform_failure, perform_stopped, perform_unread, perform_loop] at *
      exact waiting phase failure stopped (perform_cancelled cancelled)
    · intro phase
      simp only [perform_phase] at phase
      simp [(succeeded phase).1] at begun
  | answer i replies =>
    obtain ⟨rows, posting, ⟨answer, rfl⟩ | ⟨problem, rfl⟩⟩ := answer_cases moved
    · constructor
      · exact waiting
      · intro phase
        simp [(succeeded phase).2.1] at posting
    · constructor
      · intro _ failure
        simp [Attempt.broken] at failure
      · intro phase
        simp [(succeeded phase).2.1] at posting
  | settle i =>
    rcases settle_cases moved with ⟨ended, rfl⟩ | ⟨action, rest, begun, rfl⟩
    · constructor
      · exact waiting
      · intro phase
        simp [(succeeded phase).2.1] at ended
    · constructor
      · intro phase failure stopped cancelled
        simp only [perform_phase, perform_failure, perform_stopped, perform_unread, perform_loop] at *
        exact waiting phase failure stopped (perform_cancelled cancelled)
      · intro phase
        simp only [perform_phase] at phase
        simp [(succeeded phase).2.1] at begun
  | interrupt =>
    cases moved
    exact ⟨fun _ _ stopped => (Bool.noConfusion stopped), succeeded⟩
  | finish written =>
    simp only [Attempt.step] at moved
    split at moved
    · next ready =>
      cases moved
      constructor
      · intro absurd_
        cases absurd_
      · intro phase
        obtain ⟨failure, cancelled, stopped⟩ := result_succeeded (Phase.returned.inj phase)
        obtain ⟨unread, batch⟩ := waiting ready.1 failure stopped cancelled
        exact ⟨ready.2.1, ready.2.2, unread, batch, failure, cancelled⟩
    · cases moved

theorem ended_reaches {file : List Read} {seed : Progress}
    (reached : (start file seed).Reaches job a) : a.Ended := by
  induction reached with
  | refl => constructor <;> intro absurd_ <;> cases absurd_
  | step move _ moved ih => exact ended_step ih moved

theorem balance_succeeded (gauge : Gauge) {file : List Read} {seed : Progress}
    (reached : (start file seed).Reaches job a)
    (succeeded : a.phase = .returned .succeeded) :
    gauge.value a.progress a.report = gauge.value seed [] +
      tally gauge.weight ((entries job file).flatMap (booked (headerOf job file))) +
      tally gauge.weight (a.posted.flatMap fun sent => sent.answer.account sent.rows) := by
  have balance : a.balance job gauge = (start file seed).balance job gauge := balance_reaches reached
  obtain ⟨todo, sends, unread, -, -, -⟩ := (ended_reaches reached).succeeded succeeded
  have nothing : a.loop.owed job gauge [] = 0 := by simp [Loop.owed, Loop.rest]
  have whole : ({} : Loop).owed job gauge file = tally gauge.weight
      ((entries job file).flatMap (booked (headerOf job file))) := by
    simp [Loop.owed, Loop.rest, Loop.heading, entries]
  simp only [Attempt.balance, start, todo, sends, unread, nothing, whole, tally_nil,
    List.flatMap_nil] at balance
  omega

end Ended

end OpenEmarsys.Importer
