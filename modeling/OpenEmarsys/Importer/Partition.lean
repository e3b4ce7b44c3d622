import Mathlib.Data.List.Dedup
import Mathlib.Tactic.Ring
import OpenEmarsys.Importer.Accounting

/-! Every data record of a run that succeeds ends in errors.csv or in one batch. -/

set_option autoImplicit false

namespace OpenEmarsys.Importer

open Golang Javascript Interleaving
open Jobs (Progress)

section Weights

theorem tally_fails (weight : Action → Int) (rows : List ErrorRow) :
    tally weight (rows.flatMap fun row => fail row.line row.reason row.record) =
      (rows.length : Int) * weight (.add 0 0 1) + tally (fun row => weight (.write row)) rows := by
  induction rows with
  | nil => simp
  | cons row rest ih =>
    rw [List.flatMap_cons, tally_append, ih, tally_cons, List.length_cons]
    simp only [fail, tally_cons, tally_nil]
    push_cast
    ring

theorem tally_booked (gauge : Gauge) (heading : Option (List Bytes × Plan)) (list : List (Read × Nat)) :
    tally gauge.weight (list.flatMap (booked heading)) =
      (list.length : Int) * gauge.weight (.add 1 0 0) +
        ((refused heading list).length * gauge.weight (.add 0 0 1) +
          tally (fun row => gauge.weight (.write row)) (refused heading list)) := by
  induction list with
  | nil => simp [refused]
  | cons entry rest ih =>
    have parts : refused heading (entry :: rest) = (refusal heading entry).toList ++
        refused heading rest := by
      unfold refused
      cases at_ : refusal heading entry <;> simp [at_]
    rw [List.flatMap_cons, tally_append, ih, booked, tally_cons, tally_fails, parts,
      tally_append, List.length_append,
      List.length_cons]
    push_cast
    ring

/-- The number of rows that `send` counts as taken. -/
def Answer.ok (answer : Answer) (rows : List BatchRow) : Int :=
  match answer with
  | .rejected .. => 0
  | .accepted resp => rows.length - (resp.reasons.map Prod.fst).dedup.length

theorem tally_account (gauge : Gauge) (answer : Answer) (rows : List BatchRow)
    (still : gauge.weight (.add 0 0 0) = 0) :
    tally gauge.weight (answer.account rows) =
      (answer.failures rows).length * gauge.weight (.add 0 0 1) +
        tally (fun row => gauge.weight (.write row)) (answer.failures rows) + gauge.weight
        (.add 0 (answer.ok rows) 0) := by
  unfold Answer.account
  rw [tally_append, tally_fails]
  cases answer with
  | rejected code body => simp [Answer.ok, still]
  | accepted resp => simp [Answer.ok]

theorem tally_posted (gauge : Gauge) (still : gauge.weight (.add 0 0 0) = 0) (posted : List Posted) :
    tally gauge.weight (posted.flatMap fun sent => sent.answer.account sent.rows) =
      tally (fun sent => sent.failures.length * gauge.weight (.add 0 0 1) +
        tally (fun row => gauge.weight (.write row)) sent.failures + gauge.weight
        (.add 0 (sent.answer.ok sent.rows) 0)) posted := by
  rw [tally_flatMap]
  congr 1
  funext sent
  exact tally_account gauge sent.answer sent.rows still

theorem tally_many {α : Type} [DecidableEq α] (thing : α) (list : List α) :
    tally (fun other => many thing [other]) list = many thing list := by
  induction list with
  | nil => rfl
  | cons head rest ih => rw [tally_cons, ih, ← many_cons]

theorem tally_zero {α : Type} (list : List α) : tally (fun _ => 0) list = 0 := by
  induction list with
  | nil => rfl
  | cons head rest ih => simpa using ih

end Weights

section Totals
variable {job : Import} {a : Attempt} {file : List Read} {seed : Progress}
  (reached : (start file seed).Reaches job a) (succeeded : a.phase = .returned .succeeded)
include reached succeeded

theorem total_read : a.progress.rowsRead = seed.rowsRead + (entries job file).length := by
  have total := balance_succeeded .rowsRead reached succeeded
  rw [tally_booked, tally_posted _ rfl] at total
  simp only [Gauge.rowsRead, tally_zero] at total
  simpa [tally_zero] using total

theorem total_failed :
    a.progress.rowsFailed = seed.rowsFailed + ((refused (headerOf job file) (entries job file)).length +
      tally (fun sent => (sent.failures.length : Int)) a.posted) := by
  have total := balance_succeeded .rowsFailed reached succeeded
  rw [tally_booked, tally_posted _ rfl] at total
  simp only [Gauge.rowsFailed, tally_zero] at total
  simpa [Posted.failures, add_assoc] using total

theorem total_ok : a.progress.rowsOK = seed.rowsOK + tally
    (fun sent => sent.answer.ok sent.rows) a.posted := by
  have total := balance_succeeded .rowsOK reached succeeded
  rw [tally_booked, tally_posted _ rfl] at total
  simp only [Gauge.rowsOK, tally_zero] at total
  simpa using total

theorem total_written :
    a.report.Perm (refused (headerOf job file) (entries job file) ++ a.posted.flatMap Posted.failures) := by
  apply perm_of_many
  intro row
  have total := balance_succeeded (.written row) reached succeeded
  rw [tally_booked, tally_posted _ rfl] at total
  simp only [Gauge.written, tally_many] at total
  have failures : many row (a.posted.flatMap Posted.failures) =
      tally (fun sent => many row sent.failures) a.posted := by
    rw [← tally_many, tally_flatMap]
    simp only [tally_many]
  rw [many_append, failures]
  simpa [Posted.failures] using total

end Totals

/-- No row has been dropped: no send has failed, and no cancellation has been seen. -/
structure Attempt.Intact (a : Attempt) : Prop where
  failure : a.failure = none
  cancelled : a.cancelled = false
  todo : .cancel ∉ a.todo

/-- How often a row is in the batch, handed to the group, sent, answered or still to be read. -/
def Attempt.held (job : Import) (row : BatchRow) (a : Attempt) : Int :=
  many row a.loop.batch + tally (fun action => many row action.rows) a.todo +
    tally (fun send => many row send.rows) a.sends + tally (fun sent => many row sent.rows) a.posted +
    many row (accepted (a.loop.heading job a.unread) (a.loop.rest job a.unread))

section Held
variable {job : Import} {a next : Attempt} {loop after : Loop} {read : Read}
  {actions : List Action} {percent : Number}
  {sees : Bool} {line : BatchRow}

variable (line) in
theorem flush_rows (kept : .cancel ∉ (loop.flush percent sees).2) :
    many line (loop.flush percent sees).1.batch + tally (fun action => many line action.rows)
    (loop.flush percent sees).2 =
      many line loop.batch := by
  by_cases empty : loop.batch = []
  · simp [Loop.flush, empty]
  · cases sees with
    | true => simp [Loop.flush, empty] at kept
    | false => simp [Loop.flush, empty]

theorem accepted_cons (heading : Option (List Bytes × Plan)) (entry : Read × Nat) (rest : List (Read × Nat)) :
    accepted heading (entry :: rest) = (row heading entry).toList ++ accepted heading rest := by
  unfold accepted
  cases at_ : row heading entry <;> simp [at_]

variable (line) in
theorem take_rows {size : Nat} {heading : List Bytes × Plan}
    (kept : .cancel ∉ (loop.take size heading.1 heading.2 read percent sees).2) :
    many line (loop.take size heading.1 heading.2 read percent sees).1.batch +
        tally (fun action => many line action.rows) (loop.take size heading.1 heading.2 read percent sees).2 =
      many line loop.batch + many line (row (some heading) (read, loop.line)).toList := by
  simp only [Loop.take, row, checked, Option.bind_some] at *
  cases result : check heading.1 heading.2 read with
  | some reason => simp [fail]
  | none =>
    simp only [result] at kept ⊢
    split
    · next full =>
      simp only [full, if_true, List.mem_cons, not_or] at kept
      have rows := flush_rows line kept.2
      simp only [many_append] at rows
      simp only [tally_cons, Action.rows_add, many_nil, if_true, Option.toList_some]
      omega
    · simp

variable (line) in
theorem read_rows (rest : List Read) (done : loop.read job read percent sees = .ok (after, actions))
    (kept : .cancel ∉ actions) :
    many line after.batch + tally (fun action => many line action.rows) actions +
        many line (accepted (after.heading job rest) (after.rest job rest)) =
      many line loop.batch + many line
      (accepted (loop.heading job (read :: rest)) (loop.rest job (read :: rest))) := by
  obtain ⟨same, parts⟩ := read_rest rest done
  obtain ⟨heading, front, known, headers, cases_⟩ := read_cases done rest
  have light : tally (fun action => many line action.rows) front = 0 := by
    clear cases_
    induction front with
    | nil => rfl
    | cons action later ih =>
      obtain ⟨cols, rfl⟩ := headers action (List.mem_cons_self ..)
      simpa using ih fun action member => headers action (List.mem_cons_of_mem _ member)
  rw [same, parts, known]
  rcases cases_ with ⟨skipped, rfl, rfl⟩ | ⟨taken, rfl, rfl⟩
  · rw [skipped, light]
    simp [Loop.opened]
  · have rows := take_rows line (fun member => kept (List.mem_append_right front member))
    simp only [Loop.opened] at rows ⊢
    rw [taken, tally_append, light]
    simp only [Bool.false_eq_true, if_false, List.singleton_append, accepted_cons, many_append]
    omega

theorem intact_step {move : Move} (moved : a.step job move = some next)
    (intact : next.Intact) : a.Intact := by
  obtain ⟨failure, cancelled, todo⟩ := intact
  cases move with
  | read percent sees =>
    obtain ⟨-, idle, cases_⟩ := read_step_cases moved
    have none_ : Action.cancel ∉ a.todo := by simp [idle]
    rcases cases_ with ⟨-, rfl⟩ | ⟨-, -, rfl⟩ | ⟨problem, rfl⟩ | ⟨read, rest, loop, actions, -, -, rfl⟩
    all_goals exact ⟨failure, cancelled, none_⟩
  | act =>
    obtain ⟨action, rest, begun, rfl⟩ := act_cases moved
    refine ⟨by simpa using failure, perform_cancelled cancelled, ?_⟩
    rw [begun, List.mem_cons, not_or]
    refine ⟨fun same => ?_, todo⟩
    subst same
    cases cancelled
  | answer i replies =>
    obtain ⟨rows, posting, ⟨answer, rfl⟩ | ⟨problem, rfl⟩⟩ := answer_cases moved
    · exact ⟨failure, cancelled, todo⟩
    · simp [Attempt.broken] at failure
  | settle i =>
    rcases settle_cases moved with ⟨ended, rfl⟩ | ⟨action, rest, begun, rfl⟩
    · exact ⟨failure, cancelled, todo⟩
    · exact ⟨by simpa using failure, perform_cancelled cancelled, by simpa using todo⟩
  | interrupt =>
    cases moved
    exact ⟨failure, cancelled, todo⟩
  | finish written =>
    simp only [Attempt.step] at moved
    split at moved
    · cases moved
      exact ⟨failure, cancelled, todo⟩
    · cases moved

theorem perform_rows (action : Action) :
    tally (fun send => many line send.rows) (a.perform action).sends =
      tally (fun send => many line send.rows) a.sends + many line action.rows := by
  cases action <;> simp [Attempt.perform]

theorem held_step {move : Move} (moved : a.step job move = some next) (intact : next.Intact) :
    next.held job line = a.held job line := by
  unfold Attempt.held
  cases move with
  | read percent sees =>
    obtain ⟨-, idle, cases_⟩ := read_step_cases moved
    rcases cases_ with ⟨-, rfl⟩ | ⟨-, ended, rfl⟩ | ⟨problem, rfl⟩ | ⟨read, rest, loop,
      actions, more, done, rfl⟩
    · rfl
    · have rows := flush_rows line intact.todo
      simp only [idle, ended, Loop.rest, List.zipIdx_nil, List.drop_nil, accepted,
        List.filterMap_nil, tally_nil]
      omega
    · rfl
    · have rows := read_rows line rest done intact.todo
      simp only [idle, more, tally_nil]
      omega
  | act =>
    obtain ⟨action, rest, begun, rfl⟩ := act_cases moved
    simp only [perform_posted, perform_loop, perform_unread, perform_rows, begun, tally_cons]
    omega
  | answer i replies =>
    obtain ⟨rows, posting, ⟨answer, rfl⟩ | ⟨problem, rfl⟩⟩ := answer_cases moved
    · have sends := tally_set (f := fun send => many line send.rows) posting
        (.accounting (answer.account rows))
      simp only [Sending.rows_posting, Sending.rows_accounting, many_nil] at sends
      simp only [Attempt.settling, tally_append, tally_cons, tally_nil]
      omega
    · have absurd_ := intact.failure
      simp [Attempt.broken] at absurd_
  | settle i =>
    rcases settle_cases moved with ⟨ended, rfl⟩ | ⟨action, rest, begun, rfl⟩
    · have sends := tally_eraseIdx (f := fun send => many line send.rows) ended
      simp only [Sending.rows_accounting, many_nil] at sends
      simp only
      omega
    · have sends := tally_set (f := fun send => many line send.rows) begun (.accounting rest)
      simp only [Sending.rows_accounting] at sends
      simp only [perform_posted, perform_todo, perform_loop, perform_unread]
      omega
  | interrupt =>
    cases moved
    rfl
  | finish written =>
    simp only [Attempt.step] at moved
    split at moved
    · cases moved
      rfl
    · cases moved

variable (line) in
theorem held_reaches {first : Attempt} (reached : first.Reaches job a) (intact : a.Intact) :
    a.held job line = first.held job line := by
  induction reached with
  | refl => rfl
  | step move _ moved ih => exact (held_step moved intact).trans (ih (intact_step moved intact))

end Held

/-! ## The size of a batch -/

structure Fits (size : Nat) (rows : List BatchRow) : Prop where
  some_ : 1 ≤ rows.length
  most : rows.length ≤ size

structure Attempt.Sized (size : Nat) (a : Attempt) : Prop where
  batch : a.loop.batch.length < size
  todo : ∀ rows, .go rows ∈ a.todo → Fits size rows
  sends : ∀ rows, .posting rows ∈ a.sends → Fits size rows
  posted : ∀ sent ∈ a.posted, Fits size sent.rows

section Sized
variable {job : Import} {a next : Attempt} {loop after : Loop} {read : Read}
  {actions : List Action} {percent : Number}
  {sees : Bool} {size : Nat} {rows : List BatchRow}

theorem flush_sized (short : loop.batch.length ≤ size) (sends : .go rows ∈ (loop.flush percent sees).2) :
    Fits size rows := by
  unfold Loop.flush at sends
  split at sends
  · cases sends
  · next some_ =>
    cases sees with
    | true => simp at sends
    | false =>
      simp only [Bool.false_eq_true, if_false, List.mem_cons, reduceCtorEq, Action.go.injEq,
        List.not_mem_nil, or_false,
        false_or] at sends
      rw [sends]
      exact ⟨List.length_pos_iff.2 some_, short⟩

theorem take_sized (loop : Loop) (heading : List Bytes × Plan) (read : Read) (percent : Number) (sees : Bool)
    (short : loop.batch.length < size) :
    (loop.take size heading.1 heading.2 read percent sees).1.batch.length < size ∧
      ∀ rows, .go rows ∈ (loop.take size heading.1 heading.2 read percent sees).2 → Fits size rows := by
  unfold Loop.take
  split
  · exact ⟨short, fun rows sends => by simp [fail] at sends⟩
  · dsimp only
    split
    · next full =>
      constructor
      · rw [flush_batch]
        exact Nat.zero_lt_of_lt short
      · intro rows sends
        have later := (List.mem_cons.1 sends).resolve_left (by simp)
        exact flush_sized (Nat.le_of_eq full) later
    · next part =>
      simp only [List.length_append, List.length_singleton] at part ⊢
      refine ⟨by omega, fun rows sends => ?_⟩
      simp at sends

theorem read_sized (short : loop.batch.length < job.cfg.batchSize)
    (done : loop.read job read percent sees = .ok (after, actions)) :
    after.batch.length < job.cfg.batchSize ∧ ∀ rows, .go rows ∈ actions → Fits job.cfg.batchSize rows := by
  obtain ⟨heading, front, -, headers, cases_⟩ := read_cases done []
  have light : ∀ rows, .go rows ∉ front := by
    intro rows sends
    obtain ⟨cols, absurd_⟩ := headers _ sends
    cases absurd_
  rcases cases_ with ⟨-, rfl, rfl⟩ | ⟨-, rfl, rfl⟩
  · exact ⟨short, fun rows sends => absurd sends (light rows)⟩
  · obtain ⟨batch, sends⟩ := take_sized (loop.opened heading) heading read percent sees short
    exact ⟨batch, fun rows member => sends rows ((List.mem_append.1 member).resolve_left (light rows))⟩

theorem perform_sized (sized : a.Sized size) {action : Action}
    (fits : ∀ rows, action = .go rows → Fits size rows) :
    ∀ rows, .posting rows ∈ (a.perform action).sends → Fits size rows := by
  intro rows member
  cases action with
  | go sent =>
    rcases List.mem_append.1 member with before | new
    · exact sized.sends rows before
    · simp only [List.mem_singleton, Sending.posting.injEq] at new
      rw [new]
      exact fits sent rfl
  | _ => exact sized.sends rows member

theorem sized_step {move : Move} (positive : 1 ≤ job.cfg.batchSize) (sized : a.Sized job.cfg.batchSize)
    (moved : a.step job move = some next) : next.Sized job.cfg.batchSize := by
  obtain ⟨batch, todo, sends, posted⟩ := sized
  cases move with
  | read percent sees =>
    obtain ⟨-, idle, cases_⟩ := read_step_cases moved
    rcases cases_ with ⟨-, rfl⟩ | ⟨-, -, rfl⟩ | ⟨problem, rfl⟩ | ⟨read, rest, loop, actions, -, done, rfl⟩
    · exact ⟨batch, todo, sends, posted⟩
    · refine ⟨?_, fun rows member => flush_sized (Nat.le_of_lt batch) member, sends, posted⟩
      rw [flush_batch]
      exact positive
    · exact ⟨batch, todo, sends, posted⟩
    · obtain ⟨short, fits⟩ := read_sized batch done
      exact ⟨short, fits, sends, posted⟩
  | act =>
    obtain ⟨action, rest, begun, rfl⟩ := act_cases moved
    refine ⟨by simpa using batch, fun rows member => todo rows ?_, ?_, by simpa using posted⟩
    · rw [begun]
      exact List.mem_cons_of_mem _ member
    · refine perform_sized ⟨batch, todo, sends, posted⟩ fun rows same => todo rows ?_
      rw [begun, same]
      exact List.mem_cons_self ..
  | answer i replies =>
    obtain ⟨rows, posting, ⟨answer, rfl⟩ | ⟨problem, rfl⟩⟩ := answer_cases moved
    · refine ⟨batch, todo, fun rows member => ?_, fun sent member => ?_⟩
      · rcases List.mem_or_eq_of_mem_set member with before | absurd_
        · exact sends rows before
        · cases absurd_
      · rcases List.mem_append.1 member with before | new
        · exact posted sent before
        · rw [List.mem_singleton.1 new]
          exact sends rows (List.mem_of_getElem? posting)
    · exact ⟨batch, todo, fun rows member => sends rows (List.mem_of_mem_eraseIdx member), posted⟩
  | settle i =>
    rcases settle_cases moved with ⟨ended, rfl⟩ | ⟨action, rest, begun, rfl⟩
    · exact ⟨batch, todo, fun rows member => sends rows (List.mem_of_mem_eraseIdx member), posted⟩
    · refine ⟨by simpa using batch, by simpa using todo, fun rows member => ?_, by simpa using posted⟩
      rcases List.mem_or_eq_of_mem_set member with before | absurd_
      · exact sends rows before
      · cases absurd_
  | interrupt =>
    cases moved
    exact ⟨batch, todo, sends, posted⟩
  | finish written =>
    simp only [Attempt.step] at moved
    split at moved
    · cases moved
      exact ⟨batch, todo, sends, posted⟩
    · cases moved

theorem sized_reaches {file : List Read} {seed : Progress} (positive : 1 ≤ job.cfg.batchSize)
    (reached : (start file seed).Reaches job a) : a.Sized job.cfg.batchSize := by
  induction reached with
  | refl =>
    exact ⟨positive, fun rows member => absurd member List.not_mem_nil,
      fun rows member => absurd member List.not_mem_nil,
      fun sent member => absurd member List.not_mem_nil⟩
  | step move _ moved ih => exact sized_step positive ih moved

end Sized

/-- The error indexes that lie outside the batch, each once. -/
def Posted.stray (sent : Posted) : List Int :=
  match sent.answer with
  | .rejected .. => []
  | .accepted resp => (resp.reasons.map Prod.fst).dedup.filter fun i => ¬ (0 ≤ i ∧ i < sent.rows.length)

def Posted.Inside (sent : Posted) : Prop :=
  match sent.answer with
  | .rejected .. => True
  | .accepted resp => ∀ i ∈ resp.reasons.map Prod.fst, 0 ≤ i ∧ i < sent.rows.length

section Answers
variable {sent : Posted}

theorem stray_nil : sent.stray = [] ↔ sent.Inside := by
  unfold Posted.stray Posted.Inside
  cases sent.answer with
  | rejected code body => simp
  | accepted resp =>
    rw [List.filter_eq_nil_iff]
    simp only [List.mem_dedup, decide_eq_true_eq, not_not]

theorem reason_isSome {resp : CoreResponse} {i : Nat} :
    ((Answer.accepted resp).reason i).isSome = true ↔ (i : Int) ∈ resp.reasons.map Prod.fst := by
  unfold Answer.reason
  simp only [Option.isSome_map, List.find?_isSome, List.mem_reverse, List.mem_map, decide_eq_true_eq]

theorem failures_length (answer : Answer) (rows : List BatchRow) :
    (answer.failures rows).length =
    ((List.range rows.length).filter fun i => (answer.reason i).isSome).length := by
  unfold Answer.failures
  rw [List.length_filterMap_eq_countP, ← List.countP_eq_length_filter, List.range_eq_range',
    ← List.zipIdx_map_snd,
    List.countP_map]
  congr 1
  funext entry
  simp

theorem posted_counts (sent : Posted) :
    (sent.failures.length : Int) + sent.answer.ok sent.rows + sent.stray.length = sent.rows.length := by
  obtain ⟨rows, answer⟩ := sent
  unfold Posted.failures Posted.stray
  rw [failures_length]
  cases answer with
  | rejected code body => simp [Answer.reason, Answer.ok]
  | accepted resp =>
    have keys := (resp.reasons.map Prod.fst).nodup_dedup
    have inside : (((List.range rows.length).filter fun i => ((Answer.accepted resp).reason i).isSome).map
        fun i : Nat => (i : Int)).Perm ((resp.reasons.map Prod.fst).dedup.filter fun i => 0 ≤ i ∧
            i < rows.length) := by
      apply (List.perm_ext_iff_of_nodup _ (keys.filter _)).2
      · intro i
        simp only [List.mem_map, List.mem_filter, List.mem_range, reason_isSome,
          List.mem_dedup, decide_eq_true_eq]
        constructor
        · rintro ⟨n, ⟨below, member⟩, rfl⟩
          exact ⟨member, by omega, by omega⟩
        · rintro ⟨member, low, high⟩
          refine ⟨i.toNat, ⟨by omega, ?_⟩, by omega⟩
          rwa [Int.toNat_of_nonneg low]
      · exact (List.nodup_range.filter _).map Nat.cast_injective
    have count := inside.length_eq
    have split_ := List.length_eq_length_filter_add (l := (resp.reasons.map Prod.fst).dedup)
      fun i => decide (0 ≤ i ∧ i < (rows.length : Int))
    rw [List.length_map] at count
    simp only [Answer.ok]
    simp only [decide_not] at *
    omega

end Answers

/-! ## The partition -/

def ErrorRow.place (row : ErrorRow) : Nat × List Bytes := (row.line, row.record)

/-- Whether a data record fails a local check, or core fails it in its batch. -/
def fails (heading : Option (List Bytes × Plan)) (posted : List Posted) (entry : Read × Nat) : Bool :=
  (checked heading entry.1).isSome ||
    posted.any fun sent => sent.failures.any fun row => row.place = (entry.2, entry.1.fields)

/-- Where the data records of a file have gone. -/
structure Partitioned (job : Import) (file : List Read) (a : Attempt) : Prop where
  /-- The batches are made of the records that pass the local checks, each of them once. -/
  batches : (a.posted.flatMap Posted.rows).Perm (accepted (headerOf job file) (entries job file))
  once : ((accepted (headerOf job file) (entries job file)).map BatchRow.line).Nodup
  sized : ∀ sent ∈ a.posted, Fits job.cfg.batchSize sent.rows
  errors : (a.report.map ErrorRow.place).Perm
    (((entries job file).filter (fails (headerOf job file) a.posted)).map
      fun entry => (entry.2, entry.1.fields))
  rowsRead : a.progress.rowsRead = (entries job file).length
  rowsFailed : a.progress.rowsFailed = a.report.length
  rowsOK : a.progress.rowsOK = a.progress.rowsRead - a.progress.rowsFailed

section Partition
variable {job : Import} {a : Attempt} {file : List Read} {seed : Progress}
  {heading : Option (List Bytes × Plan)}
  {list : List (Read × Nat)}

theorem accepted_eq : accepted heading list =
    (list.filter fun entry => checked heading entry.1 = none).map fun entry => ⟨entry.2, entry.1.fields⟩ := by
  induction list with
  | nil => rfl
  | cons entry rest ih =>
    rw [accepted_cons, ih, row]
    by_cases passes : checked heading entry.1 = none <;> simp [passes]

variable (heading list) in
theorem refused_place : (refused heading list).map ErrorRow.place =
    (list.filter fun entry => (checked heading entry.1).isSome).map
    fun entry => (entry.2, entry.1.fields) := by
  unfold refused refusal
  induction list with
  | nil => rfl
  | cons entry rest ih => cases fate : checked heading entry.1 <;> simp [fate, ih, ErrorRow.place]

variable (heading list) in
theorem refused_accepted : (refused heading list).length + (accepted heading list).length = list.length := by
  have places := congrArg List.length (refused_place heading list)
  have split_ := List.length_eq_length_filter_add (l := list) fun entry => (checked heading entry.1).isSome
  have same : (fun entry : Read × Nat => !(checked heading entry.1).isSome) =
      fun entry => decide (checked heading entry.1 = none) := by
    funext entry
    cases checked heading entry.1 <;> simp
  rw [List.length_map, List.length_map] at places
  rw [accepted_eq, List.length_map, places, split_, same]

variable (job file) in
theorem positions_nodup : ((entries job file).map Prod.snd).Nodup := by
  unfold entries
  rw [List.map_drop, List.zipIdx_map_snd]
  have all : (List.range' 1 file.length).Nodup := List.nodup_range'
  exact all.sublist (List.drop_sublist _ _)

theorem failures_place (answer : Answer) (rows : List BatchRow) :
    ((answer.failures rows).map ErrorRow.place).Sublist (rows.map fun row => (row.line, row.record)) := by
  have places : (answer.failures rows).map ErrorRow.place =
      ((rows.zipIdx.filter fun entry => (answer.reason entry.2).isSome).map Prod.fst).map
          fun row => (row.line, row.record) := by
    unfold Answer.failures
    generalize rows.zipIdx = numbered
    induction numbered with
    | nil => rfl
    | cons entry rest ih => cases fate : answer.reason entry.2 <;> simp [fate, ih, ErrorRow.place]
  rw [places]
  apply List.Sublist.map
  have within := (List.filter_sublist (p := fun entry : BatchRow × Nat => (answer.reason entry.2).isSome)
    (l := rows.zipIdx)).map Prod.fst
  rwa [List.zipIdx_map_fst] at within

theorem posted_place (posted : List Posted) :
    ((posted.flatMap Posted.failures).map ErrorRow.place).Sublist
      ((posted.flatMap Posted.rows).map fun row => (row.line, row.record)) := by
  induction posted with
  | nil => exact List.Sublist.refl _
  | cons sent rest ih =>
    simp only [List.flatMap_cons, List.map_append]
    exact (failures_place sent.answer sent.rows).append ih

theorem places_nodup (keep : Read × Nat → Bool) :
    (((entries job file).filter keep).map fun entry => (entry.2, entry.1.fields)).Nodup := by
  apply List.Nodup.of_map Prod.fst
  rw [List.map_map]
  exact (positions_nodup job file).sublist (List.filter_sublist.map Prod.snd)

theorem entry_of_position {first second : Read × Nat} (member : first ∈ entries job file)
    (also : second ∈ entries job file)
    (same : first.2 = second.2) : first = second :=
  List.inj_on_of_nodup_map (positions_nodup job file) member also same

variable (reached : (start file seed).Reaches job a) (succeeded : a.phase = .returned .succeeded)
include reached succeeded

theorem batches_accepted : (a.posted.flatMap Posted.rows).Perm
    (accepted (headerOf job file) (entries job file)) := by
  obtain ⟨todo, sends, unread, batch, failure, cancelled⟩ := (ended_reaches reached).succeeded succeeded
  apply perm_of_many
  intro line
  have held := held_reaches line reached ⟨failure, cancelled, by simp [todo]⟩
  have rows : many line (a.posted.flatMap Posted.rows) =
      tally (fun sent => many line sent.rows) a.posted := by
    rw [← tally_many, tally_flatMap]
    simp only [tally_many]
  rw [rows]
  simpa [Attempt.held, todo, sends, unread, batch, start, Loop.rest, Loop.heading,
    entries, accepted] using held

theorem errors_partition : (a.report.map ErrorRow.place).Perm
    (((entries job file).filter (fails (headerOf job file) a.posted)).map
      fun entry => (entry.2, entry.1.fields)) := by
  have written := (total_written reached succeeded).map ErrorRow.place
  have batches := batches_accepted reached succeeded
  have placed := batches.map fun row => (row.line, row.record)
  rw [accepted_eq, List.map_map] at placed
  refine written.trans ((List.perm_ext_iff_of_nodup ?_ (places_nodup _)).2 ?_)
  · rw [List.map_append, refused_place, List.nodup_append']
    refine ⟨places_nodup _, (placed.nodup_iff.2 (places_nodup _)).sublist (posted_place a.posted), ?_⟩
    intro place refused_ posted
    obtain ⟨entry, member, rfl⟩ := List.mem_map.1 refused_
    obtain ⟨other, also, same⟩ := List.mem_map.1 (placed.mem_iff.1 ((posted_place a.posted).subset posted))
    rw [List.mem_filter] at member also
    have equal := entry_of_position also.1 member.1 (congrArg Prod.fst same)
    have passes := also.2
    rw [equal] at passes
    have stopped := member.2
    rw [of_decide_eq_true passes] at stopped
    cases stopped
  · intro place
    rw [List.map_append, refused_place, List.mem_append]
    constructor
    · rintro (refused_ | posted)
      · obtain ⟨entry, member, rfl⟩ := List.mem_map.1 refused_
        rw [List.mem_filter] at member
        exact List.mem_map.2 ⟨entry, List.mem_filter.2 ⟨member.1, by simp [fails, member.2]⟩, rfl⟩
      · obtain ⟨entry, member, rfl⟩ :=
          List.mem_map.1 (placed.mem_iff.1 ((posted_place a.posted).subset posted))
        rw [List.mem_filter] at member
        obtain ⟨row, failed, at_⟩ := List.mem_map.1 posted
        obtain ⟨sent, sent_, within⟩ := List.mem_flatMap.1 failed
        refine List.mem_map.2 ⟨entry, List.mem_filter.2 ⟨member.1, ?_⟩, rfl⟩
        rw [fails, Bool.or_eq_true, List.any_eq_true]
        exact .inr ⟨sent, sent_, List.any_eq_true.2 ⟨row, within, decide_eq_true at_⟩⟩
    · intro failing
      obtain ⟨entry, member, rfl⟩ := List.mem_map.1 failing
      rw [List.mem_filter, fails, Bool.or_eq_true] at member
      obtain ⟨present, local_ | core⟩ := member
      · exact .inl (List.mem_map.2 ⟨entry, List.mem_filter.2 ⟨present, local_⟩, rfl⟩)
      · obtain ⟨sent, sent_, any_⟩ := List.any_eq_true.1 core
        obtain ⟨row, within, at_⟩ := List.any_eq_true.1 any_
        exact .inr (List.mem_map.2 ⟨row, List.mem_flatMap.2 ⟨sent, sent_, within⟩, of_decide_eq_true at_⟩)

end Partition

theorem flat_length {α β : Type} (items : α → List β) (list : List α) :
    ((list.flatMap items).length : Int) = tally (fun item => ((items item).length : Int)) list := by
  induction list with
  | nil => rfl
  | cons item rest ih =>
    rw [List.flatMap_cons, List.length_append, tally_cons, ← ih]
    push_cast
    rfl

theorem counted (posted : List Posted) :
    tally (fun sent => (sent.failures.length : Int)) posted + tally
    (fun sent => sent.answer.ok sent.rows) posted +
      tally (fun sent => (sent.stray.length : Int)) posted = (posted.flatMap Posted.rows).length := by
  rw [flat_length]
  induction posted with
  | nil => rfl
  | cons sent rest ih =>
    have here := posted_counts sent
    simp only [tally_cons]
    omega

theorem strays_zero (posted : List Posted) :
    tally (fun sent => (sent.stray.length : Int)) posted = 0 ↔ ∀ sent ∈ posted, sent.Inside := by
  have positive : ∀ list : List Posted, 0 ≤ tally (fun sent => (sent.stray.length : Int)) list := by
    intro list
    rw [← flat_length]
    exact Int.natCast_nonneg _
  induction posted with
  | nil => simp
  | cons sent rest ih =>
    have later := positive rest
    have here : sent.stray.length = 0 ↔ sent.Inside := List.length_eq_zero_iff.trans stray_nil
    rw [tally_cons, List.forall_mem_cons]
    refine Iff.trans ?_ (and_congr here ih)
    omega

/-- Batches of two, two at a time, of a file with the columns `a` and `b`. -/
def exampleImport : Import where
  cfg := { batchSize := 2, concurrency := 2, retries := 1 }
  p := { hasHeader := true, mapping := ⟨[("a", "3")], by decide⟩, keyID := "3", mode := "upsert", target := "contacts" }
  order := [("a", "3")]

/-- A header, two rows, a row that is too short, and a last one. -/
def exampleFile : List Read :=
  [.record [utf8 "a", utf8 "b"], .record [utf8 "1", []], .record [utf8 "2", []], .record [utf8 "3"],
    .record [utf8 "4", []]]

def exampleReads : List Move :=
  [.read (.ofNat 0) false, .act, .read (.ofNat 0) false, .act, .read (.ofNat 0) false, .act, .act, .act,
      .read (.ofNat 0) false, .act, .act, .act, .read (.ofNat 0) false, .act,
      .read (.ofNat 0) false, .act, .act]

/-- Core fails the second row of the first batch, twice over; the second batch is done first. -/
def exampleMoves : List Move := exampleReads ++
  [.answer 1 [.lost, .answer {}], .settle 1, .settle 1,
    .answer 0 [.answer { errors := [(1, ⟨2009, "no contact", none⟩), (1, ⟨2009, "no contact", none⟩)] }],
    .settle 0, .settle 0, .settle 0, .settle 0, .finish true]

end OpenEmarsys.Importer
