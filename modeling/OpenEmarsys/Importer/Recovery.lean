import OpenEmarsys.Importer.Partition
import OpenEmarsys.Jobs.History

/-! An import job over all its attempts, each by a worker that may die at any point.

The row of the job moves by the transitions of the store. A new attempt reads the file
from its start, with a reporter that starts from the progress saved last.
-/

set_option autoImplicit false

namespace OpenEmarsys.Importer

open Golang Javascript Interleaving
open Jobs (Progress Job JobStatus Outcome)

/-- What all attempts of a job share. -/
structure Upload where
  cfg : Config
  p : Params
  file : List Read
  maxAttempts : Int

/-- The claimed job in the hands of a worker; `snapshot` is the progress it is saving. -/
structure Holding where
  job : Job
  order : List (String × String)
  attempt : Attempt
  snapshot : Option Progress := none
  deriving DecidableEq

/-- `report` is what errors.csv in the bucket has below its header. The last attempt is
kept when its worker is gone. -/
structure World where
  row : Job
  holding : Option Holding := none
  alive : Bool := false
  report : List ErrorRow := []
  deriving DecidableEq

def Upload.job (upload : Upload) (order : List (String × String)) : Import := ⟨upload.cfg, upload.p, order⟩

inductive Event where
  | claim (now : Time) (order : List (String × String))
  | work (move : Move)
  /-- The ticker of `Queue.run` takes a snapshot; the `UPDATE` comes later, if at all. -/
  | tick
  | save (now : Time) (stored : Bool)
  | finish (now : Time) (out : Outcome) (errText : String) (stored : Bool)
  | die
  | requeue (now : Time)
  | cancel (now : Time)
  deriving DecidableEq

/-- A look for a cancellation finds one only if there is one. -/
def Move.truthful (row : Job) : Move → Bool
  | .read _ sees => ! sees || row.status = .cancelled
  | _ => true

/-- The `finish` of `Queue.run`: only an error fails the job. -/
def Result.status : Result → JobStatus
  | .succeeded | .cancelled => .succeeded
  | .interrupted | .failed _ | .sendFailed _ | .unwritten => .failed

/-- The snapshot `finish` stores. -/
def Result.progress (result : Result) (progress : Progress) : Progress :=
  if result.status = .succeeded then { progress with percent := .ofNat 100 } else progress

def World.write (w : World) (row : Job) : World := if w.row.status = .running then
    { w with row := row } else w

def World.step (upload : Upload) (w : World) : Event → Option World
  | .claim now order =>
      if w.alive = false ∧ w.row.status = .queued ∧ order.Perm upload.p.mapping.entries then
        let job := Jobs.claimed now w.row
        some { w with
          row := job, holding := some ⟨job, order, start upload.file job.progress, none⟩, alive := true }
      else none
  | .work move =>
      match w.holding with
      | none => none
      | some held =>
          if w.alive ∧ move.truthful w.row then
            (held.attempt.step (upload.job held.order) move).map fun next =>
              { w with
                holding := some { held with attempt := next }
                report := if next.phase = .returned .succeeded then next.report else w.report }
          else none
  | .tick =>
      match w.holding with
      | none => none
      | some held =>
          if w.alive ∧ held.snapshot = none then
            some { w with holding := some { held with snapshot := some held.attempt.progress } }
          else none
  | .save now stored =>
      match w.holding with
      | none => none
      | some held =>
          match w.alive, held.snapshot with
          | true, some p =>
              let w := if stored then w.write (Jobs.saved now p w.row) else w
              some { w with holding := some { held with snapshot := none } }
          | _, _ => none
  | .finish now out errText stored =>
      match w.holding with
      | none => none
      | some held =>
          match held.attempt.phase with
          | .returned result =>
              if w.alive ∧ held.attempt.stopped = false ∧ held.snapshot = none then
                let row := Jobs.ended now result.status
                  (result.progress held.attempt.progress) out errText w.row
                let w := if stored then w.write row else w
                some { w with alive := false }
              else none
          | _ => none
  | .die => some { w with alive := false }
  | .requeue now =>
      if w.alive = false ∧ w.row.status = .running
        then some { w with row := Jobs.requeued now upload.maxAttempts w.row }
      else none
  | .cancel now =>
      if w.row.status = .queued ∨ w.row.status = .running
        then some { w with row := Jobs.cancelled now w.row } else none

def World.events (upload : Upload) : List Event → World → Option World
  | [], w => some w
  | event :: rest, w => (w.step upload event).bind (World.events upload rest)

inductive World.Reaches (upload : Upload) (first : World) : World → Prop where
  | refl : Reaches upload first first
  | step {w next : World} (event : Event) :
      Reaches upload first w → w.step upload event = some next → Reaches upload first next

/-- Nothing is counted, and nothing begun, before the first data record. -/
structure Attempt.Quiet (seed : Progress) (a : Attempt) : Prop where
  rowsOK : a.progress.rowsOK = seed.rowsOK
  rowsFailed : a.progress.rowsFailed = seed.rowsFailed
  sends : a.sends = []
  todo : ∃ front tail, a.todo = front ++ tail ∧ (∀ action ∈ front, ∃ cols, action = .header cols) ∧
    (tail = [] ∧ a.loop.batch = [] ∨ ∃ rest, tail = .add 1 0 0 :: rest)

/-- `rows_read` grows, and is the first to. A send never cancels. -/
structure Attempt.Orderly (seed : Progress) (a : Attempt) : Prop where
  todo : ∀ action ∈ a.todo, 0 ≤ Gauge.rowsRead.weight action
  sends : ∀ actions, .accounting actions ∈ a.sends →
    ∀ action ∈ actions, (∃ ok failed, action = .add 0 ok failed) ∨ ∃ row, action = .write row
  grows : seed.rowsRead ≤ a.progress.rowsRead
  quiet : a.progress.rowsRead = seed.rowsRead → a.Quiet seed
  cancelled : a.phase = .returned .cancelled → a.cancelled = true

section Orderly
variable {job : Import} {a next : Attempt} {seed : Progress} {loop after : Loop} {read : Read}
  {actions : List Action}
  {percent : Number} {sees : Bool}

theorem flush_todo : ∀ action ∈ (loop.flush percent sees).2, 0 ≤ Gauge.rowsRead.weight action := by
  intro action member
  unfold Loop.flush at member
  split at member
  · cases member
  · simp only [List.mem_cons, List.not_mem_nil, or_false] at member
    rcases member with rfl | rfl
    · exact le_refl _
    · cases sees <;> exact le_refl _

theorem read_begins (done : loop.read job read percent sees = .ok (after, actions)) :
    (∀ action ∈ actions, 0 ≤ Gauge.rowsRead.weight action) ∧
        ∃ front tail, actions = front ++ tail ∧ (∀ action ∈ front, ∃ cols, action = .header cols) ∧
        (tail = [] ∧ after.batch = loop.batch ∨ ∃ rest, tail = .add 1 0 0 :: rest) := by
  obtain ⟨heading, front, -, headers, cases_⟩ := read_cases done []
  have light : ∀ action ∈ front, 0 ≤ Gauge.rowsRead.weight action := by
    intro action member
    obtain ⟨cols, rfl⟩ := headers action member
    exact le_refl _
  rcases cases_ with ⟨-, rfl, rfl⟩ | ⟨-, rfl, rfl⟩
  · exact ⟨light, _, [], (List.append_nil _).symm, headers, .inl ⟨rfl, rfl⟩⟩
  · obtain ⟨rest, begun, later⟩ : ∃ rest,
        ((loop.opened heading).take job.cfg.batchSize heading.1 heading.2 read percent sees).2 =
        .add 1 0 0 :: rest ∧ ∀ action ∈ rest, 0 ≤ Gauge.rowsRead.weight action := by
      unfold Loop.take
      split
      · refine ⟨_, rfl, fun action member => ?_⟩
        simp only [fail, List.mem_cons, List.not_mem_nil, or_false] at member
        rcases member with rfl | rfl <;> exact le_refl _
      · dsimp only
        split
        · exact ⟨_, rfl, flush_todo⟩
        · exact ⟨[], rfl, fun action member => absurd member List.not_mem_nil⟩
    rw [begun]
    refine ⟨fun action member => ?_, front, _, rfl, headers, .inr ⟨rest, rfl⟩⟩
    rcases List.mem_append.1 member with first | second
    · exact light action first
    · rcases List.mem_cons.1 second with rfl | third
      · exact Int.zero_le_ofNat 1
      · exact later action third

theorem account_settles (answer : Answer) (rows : List BatchRow) :
    ∀ action ∈ answer.account rows, (∃ ok failed, action = .add 0 ok failed) ∨
    ∃ row, action = .write row := by
  intro action member
  rcases List.mem_append.1 member with failing | last
  · obtain ⟨row, -, within⟩ := List.mem_flatMap.1 failing
    simp only [fail, List.mem_cons, List.not_mem_nil, or_false] at within
    rcases within with rfl | rfl
    · exact .inl ⟨0, 1, rfl⟩
    · exact .inr ⟨row, rfl⟩
  · cases answer with
    | rejected code body => cases last
    | accepted resp => exact .inl ⟨_, 0, List.mem_singleton.1 last⟩

theorem perform_read (action : Action) :
    (a.perform action).progress.rowsRead = a.progress.rowsRead + Gauge.rowsRead.weight action :=
  Gauge.rowsRead.exact a action

theorem perform_accounting {action : Action} {actions : List Action}
    (member : .accounting actions ∈ (a.perform action).sends) : .accounting actions ∈ a.sends := by
  cases action with
  | go rows => simpa [Attempt.perform] using member
  | _ => exact member

theorem perform_stays {action : Action} (before : a.cancelled = true) :
    (a.perform action).cancelled = true := by
  cases action <;> simp [Attempt.perform, before]

theorem Attempt.Quiet.empty (quiet : a.Quiet seed) (idle : a.todo = []) : a.loop.batch = [] := by
  obtain ⟨front, tail, parts, -, ⟨-, batch⟩ | ⟨rest, begins⟩⟩ := quiet.todo
  · exact batch
  · simp [idle, begins] at parts

-- The first action of a quiet attempt is on the header, or counts a record.
theorem Attempt.Quiet.act {action : Action} {rest : List Action} (quiet : a.Quiet seed)
    (begun : a.todo = action :: rest) :
    Gauge.rowsRead.weight action = 1 ∨ { a.perform action with todo := rest : Attempt }.Quiet seed := by
  obtain ⟨ok, failed, none_, front, tail, parts, headers, begins⟩ := quiet
  cases front with
  | nil =>
    rcases begins with ⟨rfl, -⟩ | ⟨later, rfl⟩
    · simp [begun] at parts
    · rw [begun, List.nil_append] at parts
      cases parts
      exact .inl rfl
  | cons first front =>
    obtain ⟨cols, rfl⟩ := headers first (List.mem_cons_self ..)
    rw [begun, List.cons_append] at parts
    cases parts
    exact .inr ⟨ok, failed, none_, front, tail, rfl, fun action member =>
      headers action (List.mem_cons_of_mem _ member), begins⟩

theorem orderly_step {move : Move} (orderly : a.Orderly seed) (moved : a.step job move = some next) :
    next.Orderly seed := by
  obtain ⟨todo, sends, grows, quiet, cancelled⟩ := orderly
  cases move with
  | read percent sees =>
    obtain ⟨reading, idle, cases_⟩ := read_step_cases moved
    rcases cases_ with ⟨-, rfl⟩ | ⟨-, ended, rfl⟩ | ⟨problem, rfl⟩ | ⟨read, rest, loop, actions, -, done, rfl⟩
    · exact ⟨todo, sends, grows, fun still => { quiet still with }, fun absurd_ => by cases absurd_⟩
    · refine ⟨flush_todo, sends, grows, fun still => ?_, fun absurd_ => by cases absurd_⟩
      have batch := (quiet still).empty idle
      refine { quiet still with
        todo := ⟨[], [], ?_, fun action member => absurd member List.not_mem_nil, .inl ⟨rfl, flush_batch⟩⟩ }
      simp [Loop.flush, batch]
    · exact ⟨todo, sends, grows, fun still => { quiet still with }, fun absurd_ => by cases absurd_⟩
    · obtain ⟨all, front, tail, parts, headers, begins⟩ := read_begins done
      refine ⟨all, sends, grows, fun still => ?_, fun absurd_ => by simp [reading] at absurd_⟩
      have batch := (quiet still).empty idle
      exact { quiet still with
        todo := ⟨front, tail, parts, headers, begins.imp_left fun same => ⟨same.1, same.2.trans batch⟩⟩ }
  | act =>
    obtain ⟨action, rest, begun, rfl⟩ := act_cases moved
    have weighs := todo action (by simp [begun])
    have grown := perform_read (a := a) action
    refine ⟨fun action member => todo action (by simp [begun, member]),
      fun actions member => sends actions (perform_accounting member),
      by simp only; omega, fun still => ?_, fun phase => perform_stays (cancelled (by simpa using phase))⟩
    simp only at still
    rcases (quiet (by omega)).act begun with counts | later
    · omega
    · exact later
  | answer i replies =>
    obtain ⟨rows, posting, outcome⟩ := answer_cases moved
    have busy : a.sends ≠ [] := fun none_ => by simp [none_] at posting
    rcases outcome with ⟨answer, rfl⟩ | ⟨problem, rfl⟩
    · refine ⟨todo, fun actions member => ?_, grows, fun still => absurd (quiet still).sends busy, cancelled⟩
      rcases List.mem_or_eq_of_mem_set member with before | new
      · exact sends actions before
      · cases new
        exact account_settles answer rows
    · exact ⟨todo, fun actions member => sends actions (List.mem_of_mem_eraseIdx member), grows,
        fun still => absurd (quiet still).sends busy, cancelled⟩
  | settle i =>
    rcases settle_cases moved with ⟨ended, rfl⟩ | ⟨action, rest, begun, rfl⟩
    · have busy : a.sends ≠ [] := fun none_ => by simp [none_] at ended
      exact ⟨todo, fun actions member => sends actions (List.mem_of_mem_eraseIdx member), grows,
        fun still => absurd (quiet still).sends busy, cancelled⟩
    · have busy : a.sends ≠ [] := fun none_ => by simp [none_] at begun
      have settles := sends _ (List.mem_of_getElem? begun)
      have grown := perform_read (a := a) action
      have weighs : Gauge.rowsRead.weight action = 0 := by
        rcases settles action (List.mem_cons_self ..) with ⟨ok, failed, rfl⟩ | ⟨row, rfl⟩ <;> rfl
      refine ⟨fun action member => todo action (by simpa using member),
        fun actions member => ?_, by simp only; omega,
        fun still => absurd (quiet (by simp only at still; omega)).sends busy,
        fun phase => perform_stays (cancelled (by simpa using phase))⟩
      rcases List.mem_or_eq_of_mem_set member with before | new
      · exact sends actions before
      · cases new
        exact fun action member => settles action (List.mem_cons_of_mem _ member)
  | interrupt =>
    cases moved
    exact ⟨todo, sends, grows, fun still => { quiet still with }, cancelled⟩
  | finish written =>
    simp only [Attempt.step] at moved
    split at moved
    · cases moved
      refine ⟨todo, sends, grows, fun still => { quiet still with }, fun phase => ?_⟩
      have result := Phase.returned.inj phase
      unfold Attempt.result at result
      split at result
      · cases result
      · split at result
        · assumption
        · split at result
          · cases result
          · split at result <;> cases result
    · cases moved

theorem orderly_reaches {file : List Read} (reached : (start file seed).Reaches job a) : a.Orderly seed := by
  induction reached with
  | refl =>
    refine ⟨fun action member => absurd member List.not_mem_nil,
      fun actions member => absurd member List.not_mem_nil,
      Int.le_refl _, fun _ => ⟨rfl, rfl, rfl, [], [], rfl,
        fun action member => absurd member List.not_mem_nil, .inl ⟨rfl, rfl⟩⟩,
      fun absurd_ => by cases absurd_⟩
  | step move _ moved ih => exact orderly_step ih moved

theorem flush_cancels (seen : .cancel ∈ (loop.flush percent sees).2) : sees = true := by
  unfold Loop.flush at seen
  split at seen
  · cases seen
  · cases sees
    · simp at seen
    · rfl

theorem read_cancels (done : loop.read job read percent sees = .ok (after, actions))
    (seen : .cancel ∈ actions) :
    sees = true := by
  obtain ⟨heading, front, -, headers, cases_⟩ := read_cases done []
  have light : Action.cancel ∉ front := by
    intro member
    obtain ⟨cols, absurd_⟩ := headers _ member
    cases absurd_
  rcases cases_ with ⟨-, -, rfl⟩ | ⟨-, -, rfl⟩
  · exact absurd seen light
  · have later := (List.mem_append.1 seen).resolve_left light
    unfold Loop.take at later
    split at later
    · simp [fail] at later
    · dsimp only at later
      split at later
      · exact flush_cancels ((List.mem_cons.1 later).resolve_left (by simp))
      · simp at later

theorem cancel_step {move : Move} (orderly : a.Orderly seed) (moved : a.step job move = some next)
    (seen : next.cancelled = true ∨ .cancel ∈ next.todo) :
    (a.cancelled = true ∨ .cancel ∈ a.todo) ∨ ∃ percent, move = .read percent true := by
  cases move with
  | read percent sees =>
    obtain ⟨-, -, cases_⟩ := read_step_cases moved
    rcases cases_ with ⟨-, rfl⟩ | ⟨-, -, rfl⟩ | ⟨problem, rfl⟩ | ⟨read, rest, loop, actions, -, done, rfl⟩
    · exact .inl seen
    · rcases seen with before | new
      · exact .inl (.inl before)
      · exact .inr ⟨percent, by rw [flush_cancels new]⟩
    · exact .inl seen
    · rcases seen with before | new
      · exact .inl (.inl before)
      · exact .inr ⟨percent, by rw [read_cancels done new]⟩
  | act =>
    obtain ⟨action, rest, begun, rfl⟩ := act_cases moved
    left
    rcases seen with set_ | left_
    · by_cases same : action = .cancel
      · exact .inr (by simp [begun, same])
      · exact .inl (by cases action <;> simp_all [Attempt.perform])
    · exact .inr (by simp only at left_; simp [begun, left_])
  | answer i replies =>
    obtain ⟨rows, posting, ⟨answer, rfl⟩ | ⟨problem, rfl⟩⟩ := answer_cases moved
    · exact .inl seen
    · exact .inl seen
  | settle i =>
    rcases settle_cases moved with ⟨ended, rfl⟩ | ⟨action, rest, begun, rfl⟩
    · exact .inl seen
    · have settles := orderly.sends _ (List.mem_of_getElem? begun) action (List.mem_cons_self ..)
      rcases settles with ⟨ok, failed, rfl⟩ | ⟨row, rfl⟩ <;> exact .inl seen
  | interrupt =>
    cases moved
    exact .inl seen
  | finish written =>
    simp only [Attempt.step] at moved
    split at moved
    · cases moved
      exact .inl seen
    · cases moved

end Orderly

/-! ## The job -/

/-- What has been saved of a job: if no record was read, nothing was counted. -/
structure Plain (p : Progress) : Prop where
  read : 0 ≤ p.rowsRead
  rest : p.rowsRead = 0 → p.rowsOK = 0 ∧ p.rowsFailed = 0

/-- What an attempt knows of the world, and the world of it. -/
structure Holding.Sound (upload : Upload) (w : World) (held : Holding) : Prop where
  seed : Plain held.job.progress
  reached : (start upload.file held.job.progress).Reaches (upload.job held.order) held.attempt
  snapshot : ∀ p, held.snapshot = some p → Plain p
  report : held.attempt.phase = .returned .succeeded → w.report = held.attempt.report
  cancelled : held.attempt.cancelled = true ∨ .cancel ∈ held.attempt.todo → w.row.status = .cancelled

/-- The job has succeeded, with what its last attempt counted. -/
structure World.Done (w : World) (held : Holding) : Prop where
  holding : w.holding = some held
  alive : w.alive = false
  phase : held.attempt.phase = .returned .succeeded
  rowsRead : w.row.progress.rowsRead = held.attempt.progress.rowsRead
  rowsOK : w.row.progress.rowsOK = held.attempt.progress.rowsOK
  rowsFailed : w.row.progress.rowsFailed = held.attempt.progress.rowsFailed

structure World.Sound (upload : Upload) (w : World) : Prop where
  progress : Plain w.row.progress
  holding : ∀ held, w.holding = some held → held.Sound upload w
  succeeded : w.row.status = .succeeded → ∃ held, w.Done held

section World
variable {upload : Upload} {w next : World} {held : Holding}

theorem Holding.Sound.plain (sound : held.Sound upload w) : Plain held.attempt.progress := by
  obtain ⟨-, -, grows, quiet, -⟩ := orderly_reaches sound.reached
  obtain ⟨read, rest⟩ := sound.seed
  refine ⟨Int.le_trans read grows, fun none_ => ?_⟩
  have same : held.attempt.progress.rowsRead = held.job.progress.rowsRead := by omega
  obtain ⟨ok, failed, -, -⟩ := quiet same
  rw [ok, failed]
  exact rest (same.symm.trans none_)

theorem Holding.Sound.row (sound : held.Sound upload w) {row : Job} {alive : Bool} {holding : Option Holding}
    (stays : w.row.status = .cancelled → row.status = .cancelled) :
    held.Sound upload { w with row := row, alive := alive, holding := holding } :=
  { sound with cancelled := fun seen => stays (sound.cancelled seen) }

theorem Result.progress_counts (result : Result) (p : Progress) :
    (result.progress p).rowsRead = p.rowsRead ∧ (result.progress p).rowsOK = p.rowsOK ∧
      (result.progress p).rowsFailed = p.rowsFailed := by
  unfold Result.progress
  split <;> exact ⟨rfl, rfl, rfl⟩

theorem work_sound {move : Move} {after : Attempt} (sound : held.Sound upload w)
    (truthful : move.truthful w.row = true)
    (moved : held.attempt.step (upload.job held.order) move = some after) :
    { held with attempt := after : Holding }.Sound upload { w with
      holding := some { held with attempt := after }
      report := if after.phase = .returned .succeeded then after.report else w.report } := by
  refine ⟨sound.seed, sound.reached.step move moved, sound.snapshot,
    fun phase => if_pos phase, fun seen => ?_⟩
  rcases cancel_step (orderly_reaches sound.reached) moved seen with before | ⟨percent, rfl⟩
  · exact sound.cancelled before
  · simpa [Move.truthful] using truthful

-- A finished attempt leaves a row that is done, unless the job is no longer running.
theorem finish_sound {result : Result} {now : Time} {out : Outcome} {errText : String}
    (sound : w.Sound upload)
    (holding : w.holding = some held) (phase : held.attempt.phase = .returned result)
    (running : w.row.status = .running) :
    { w with
      row := Jobs.ended now result.status (result.progress held.attempt.progress) out errText w.row, alive := false :
      World }.Sound upload := by
  have mine := sound.holding held holding
  have plain := mine.plain
  obtain ⟨read, ok, failed⟩ := result.progress_counts held.attempt.progress
  refine ⟨⟨read ▸ plain.read, fun none_ => ?_⟩, fun other same => ?_,
    fun succeeded => ⟨held, holding, rfl, ?_, read, ok, failed⟩⟩
  · have zero := plain.rest (read.symm.trans none_)
    exact ⟨ok.trans zero.1, failed.trans zero.2⟩
  · exact (sound.holding other same).row fun absurd_ => by simp [running] at absurd_
  · cases result with
    | succeeded => exact phase
    | cancelled =>
      have seen := (orderly_reaches mine.reached).cancelled phase
      simp [mine.cancelled (.inl seen)] at running
    | _ => cases succeeded

theorem dead_sound (sound : w.Sound upload) : { w with alive := false : World }.Sound upload := by
  refine ⟨sound.progress, fun held same => { sound.holding held same with }, fun succeeded => ?_⟩
  obtain ⟨held, done⟩ := sound.succeeded succeeded
  exact ⟨held, { done with alive := rfl }⟩

theorem save_sound {now : Time} {p : Progress} (sound : w.Sound upload) (alive : w.alive = true)
    (plain : Plain p) :
    (w.write (Jobs.saved now p w.row)).Sound upload := by
  unfold World.write
  split
  · refine ⟨plain, fun held same => (sound.holding held same).row fun stays => stays, fun succeeded => ?_⟩
    obtain ⟨held, done⟩ := sound.succeeded succeeded
    simp [done.alive] at alive
  · exact sound

theorem sound_step {event : Event} (sound : w.Sound upload) (moved : w.step upload event = some next) :
    next.Sound upload := by
  cases event with
  | claim now order =>
    simp only [World.step] at moved
    split at moved
    · cases moved
      refine ⟨sound.progress, fun held same => ?_, fun absurd_ => by cases absurd_⟩
      cases same
      exact ⟨sound.progress, .refl, fun p absurd_ => (by cases absurd_), fun absurd_ => (by cases absurd_),
        fun absurd_ => (by simp [start] at absurd_)⟩
    · cases moved
  | work move =>
    simp only [World.step] at moved
    split at moved
    · cases moved
    · next held holding =>
      split at moved
      · next ready =>
        obtain ⟨after, stepped, rfl⟩ := Option.map_eq_some_iff.1 moved
        refine ⟨sound.progress, fun other same => ?_, fun succeeded => ?_⟩
        · cases same
          exact work_sound (sound.holding held holding) ready.2 stepped
        · obtain ⟨other, done⟩ := sound.succeeded succeeded
          simp [done.alive] at ready
      · cases moved
  | tick =>
    simp only [World.step] at moved
    split at moved
    · cases moved
    · next held holding =>
      split at moved
      · next ready =>
        cases moved
        have mine := sound.holding held holding
        refine ⟨sound.progress, fun other same => ?_, fun succeeded => ?_⟩
        · cases same
          refine { mine with snapshot := fun p same => ?_ }
          cases same
          exact mine.plain
        · obtain ⟨other, done⟩ := sound.succeeded succeeded
          simp [done.alive] at ready
      · cases moved
  | save now stored =>
    simp only [World.step] at moved
    split at moved
    · cases moved
    · next held holding =>
      split at moved
      · next p alive pending =>
        cases moved
        have mine := sound.holding held holding
        have saved : World.Sound upload (if stored then w.write (Jobs.saved now p w.row) else w) := by
          cases stored with
          | false => exact sound
          | true => exact save_sound sound alive (mine.snapshot p pending)
        have kept : (if stored then w.write (Jobs.saved now p w.row) else w).holding = w.holding := by
          cases stored
          · rfl
          · simp only [if_true, World.write]
            split <;> rfl
        refine ⟨saved.progress, fun other same => ?_, fun succeeded => ?_⟩
        · cases same
          exact { saved.holding held (kept.trans holding) with snapshot := fun p absurd_ => (by cases absurd_) }
        · obtain ⟨other, done⟩ := saved.succeeded succeeded
          have dead := done.alive
          have same : (if stored then w.write (Jobs.saved now p w.row) else w).alive = w.alive := by
            cases stored
            · rfl
            · simp only [if_true, World.write]
              split <;> rfl
          rw [same, alive] at dead
          cases dead
      · cases moved
  | finish now out errText stored =>
    simp only [World.step] at moved
    split at moved
    · cases moved
    · next held holding =>
      split at moved
      · next result phase =>
        split at moved
        · next ready =>
          cases moved
          cases stored with
          | false => exact dead_sound sound
          | true =>
            simp only [if_true, World.write]
            split
            · next running => exact finish_sound sound holding phase running
            · exact dead_sound sound
        · cases moved
      · cases moved
  | die =>
    cases moved
    exact dead_sound sound
  | requeue now =>
    simp only [World.step] at moved
    split at moved
    · next ready =>
      cases moved
      refine ⟨?_, fun held same => (sound.holding held same).row fun absurd_ => ?_, fun succeeded => ?_⟩
      · unfold Jobs.requeued
        split <;> exact sound.progress
      · simp [ready.2] at absurd_
      · simp only [Jobs.requeued] at succeeded
        split at succeeded <;> cases succeeded
    · cases moved
  | cancel now =>
    simp only [World.step] at moved
    split at moved
    · next alive =>
      cases moved
      exact ⟨sound.progress, fun held same => (sound.holding held same).row
        fun _ => rfl, fun absurd_ => by cases absurd_⟩
    · cases moved

def World.queued (row : Job) : World := { row := row }

theorem sound_reaches {row : Job} (fresh : Jobs.Fresh row) (zero : row.progress = {})
    (reached : (World.queued row).Reaches upload w) : w.Sound upload := by
  induction reached with
  | refl =>
    refine ⟨?_, fun held absurd_ => (by cases absurd_), fun succeeded => ?_⟩
    · change Plain row.progress
      rw [zero]
      exact ⟨Int.le_refl _, fun _ => ⟨rfl, rfl⟩⟩
    · have queued := fresh.status
      change row.status = .succeeded at succeeded
      rw [queued] at succeeded
      cases succeeded
  | step event _ moved ih => exact sound_step ih moved

end World

/-! ## The accounts of a job that has succeeded -/

/-- The progress is that of the file, and errors.csv has the failed rows. -/
structure Accounted (upload : Upload) (w : World) (held : Holding) : Prop where
  rowsRead : w.row.progress.rowsRead = (entries (upload.job held.order) upload.file).length
  sum : w.row.progress.rowsOK + w.row.progress.rowsFailed = w.row.progress.rowsRead
  report : (w.report.length : Int) = w.row.progress.rowsFailed

/-- A job that succeeds accounts for its file just when no record had been counted in what
its last attempt started from, and no error index of core lies outside its batch. -/
theorem import_accounts {upload : Upload} {row : Job} {w : World} (fresh : Jobs.Fresh row)
    (zero : row.progress = {})
    (reached : (World.queued row).Reaches upload w) (succeeded : w.row.status = .succeeded) :
    ∃ held, w.holding = some held ∧
      (Accounted upload w held ↔ held.job.progress.rowsRead = 0 ∧
        ∀ sent ∈ held.attempt.posted, sent.Inside) := by
  have sound := sound_reaches fresh zero reached
  obtain ⟨held, done⟩ := sound.succeeded succeeded
  refine ⟨held, done.holding, ?_⟩
  have mine := sound.holding held done.holding
  have read := total_read mine.reached done.phase
  have failed := total_failed mine.reached done.phase
  have ok := total_ok mine.reached done.phase
  have written := (total_written mine.reached done.phase).length_eq
  have batches := (batches_accepted mine.reached done.phase).length_eq
  have count := counted held.attempt.posted
  have whole := refused_accepted (headerOf (upload.job held.order) upload.file)
    (entries (upload.job held.order) upload.file)
  have flat := flat_length Posted.failures held.attempt.posted
  rw [List.length_append, ← mine.report done.phase] at written
  rw [← done.rowsRead] at read
  rw [← done.rowsFailed] at failed
  rw [← done.rowsOK] at ok
  rw [← strays_zero]
  constructor
  · intro ⟨rowsRead, sum, rows⟩
    have none_ : held.job.progress.rowsRead = 0 := by omega
    obtain ⟨seedOK, seedFailed⟩ := mine.seed.rest none_
    exact ⟨none_, by omega⟩
  · intro ⟨none_, straight⟩
    obtain ⟨seedOK, seedFailed⟩ := mine.seed.rest none_
    constructor <;> omega

theorem reaches_events {upload : Upload} {first w last : World} (reached : first.Reaches upload w)
    (list : List Event) (run : w.events upload list = some last) : first.Reaches upload last := by
  induction list generalizing w with
  | nil =>
    cases run
    exact reached
  | cons event rest ih =>
    obtain ⟨next, moved, later⟩ := Option.bind_eq_some_iff.1 run
    exact ih (reached.step event moved) later

def exampleUpload : Upload where
  cfg := exampleImport.cfg
  p := exampleImport.p
  file := [.record [utf8 "a"], .record [utf8 "1"]]
  maxAttempts := 3

def exampleJob : Job where
  id := 1
  tenantID := 7
  kind := "import"
  params := ""
  createdBy := "u"
  createdAt := 0

def exampleCounted : List Event :=
  .claim 1 [("a", "3")] :: [.read (.ofNat 0) false, .act, .read (.ofNat 0) false, .act].map .work

/-- The rest of an attempt, in which core takes the row. -/
def exampleRest : List Event :=
  ([.read (.ofNat 0) false, .act, .act, .answer 0 [.answer {}], .settle 0, .settle 0,
    .finish true].map .work) ++
    [.finish 9 {} "" true]

/-- The worker dies, and the job is run again. -/
def exampleAgain : List Event := [.die, .requeue 5] ++ exampleCounted ++ exampleRest

/-- Dying before anything is saved does no harm. -/
theorem import_accounts_unsaved : ∃ w held, (World.queued exampleJob).events exampleUpload
    (exampleCounted ++ exampleAgain) = some w ∧
    w.holding = some held ∧ Accounted exampleUpload w held := by
  obtain ⟨w, run⟩ : ∃ w, (World.queued exampleJob).events exampleUpload (exampleCounted ++
      exampleAgain) = some w :=
    Option.isSome_iff_exists.1 (by decide)
  have facts : ((World.queued exampleJob).events exampleUpload (exampleCounted ++ exampleAgain)).map (fun w =>
      (w.row.status, w.holding.all fun held => held.job.progress.rowsRead = 0 ∧
        held.attempt.posted.all fun sent => sent.stray.isEmpty)) = some (.succeeded, true) := by decide
  rw [run] at facts
  simp only [Option.map_some, Option.some.injEq, Prod.mk.injEq] at facts
  obtain ⟨held, holding, accounts⟩ := import_accounts ⟨rfl, rfl, rfl⟩ rfl (reaches_events .refl _ run) facts.1
  refine ⟨w, held, run, holding, accounts.2 ?_⟩
  have fits := facts.2
  simp only [holding, Option.all_some, Bool.decide_and, Bool.and_eq_true, decide_eq_true_eq, List.all_eq_true,
    List.isEmpty_iff] at fits
  exact ⟨fits.1, fun sent member => stray_nil.1 (fits.2 sent member)⟩

/-- Saved by the worker that died, the row is counted twice. -/
theorem counted_twice : ∃ w held,
    (World.queued exampleJob).events exampleUpload
    (exampleCounted ++ [.tick, .save 4 true] ++ exampleAgain) = some w ∧
      w.holding = some held ∧ w.row.status = .succeeded ∧ w.row.progress.rowsRead = 2 ∧
      (entries (exampleUpload.job held.order) exampleUpload.file).length = 1 ∧
      ¬ Accounted exampleUpload w held := by
  obtain ⟨w, run⟩ : ∃ w, (World.queued exampleJob).events exampleUpload
      (exampleCounted ++ [.tick, .save 4 true] ++ exampleAgain) = some w :=
    Option.isSome_iff_exists.1 (by decide)
  have facts : ((World.queued exampleJob).events exampleUpload (exampleCounted ++
    [.tick, .save 4 true] ++ exampleAgain)).map
      (fun w => (w.row.status, w.row.progress.rowsRead, w.holding.isSome)) = some (.succeeded, 2, true) := by
        decide
  rw [run] at facts
  simp only [Option.map_some, Option.some.injEq, Prod.mk.injEq] at facts
  obtain ⟨held, holding⟩ := Option.isSome_iff_exists.1 facts.2.2
  refine ⟨w, held, run, holding, facts.1, facts.2.1, rfl, fun accounted => ?_⟩
  have wrong : (2 : Int) = 1 := facts.2.1.symm.trans accounted.rowsRead
  omega

end OpenEmarsys.Importer
