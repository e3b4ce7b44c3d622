import OpenEmarsys.Jobs.Store

/-! The state machine of a job, and the store as a journal of its transitions.

Every transaction that commits on the table makes transitions of single jobs, each
from the row as it was committed before; what the operations do beside that is noise.
-/

set_option autoImplicit false

namespace OpenEmarsys.Jobs

open Interleaving Javascript Postgres

/-- What a commit of this kind may do to a job. -/
inductive Transition (maxAttempts : Int) : Label → Job → Job → Prop where
  | claim {old : Job} (now : Time) : old.status = .queued →
    Transition maxAttempts .claim old (claimed now old)
  | saveProgress {old : Job} (now : Time) (p : Progress) : old.status = .running →
      Transition maxAttempts (.saveProgress old.id) old (saved now p old)
  | finish {old : Job} (now : Time) (status : JobStatus) (p : Progress) (out : Outcome) (errText : String) :
      old.status = .running → status = .succeeded ∨ status = .failed →
      Transition maxAttempts (.finish old.id) old (ended now status p out errText old)
  | cancel {old : Job} (now : Time) : old.status = .queued ∨ old.status = .running →
      Transition maxAttempts .cancel old (cancelled now old)
  | requeue {old : Job} (now : Time) : old.status = .running →
      Transition maxAttempts .requeueOrphans old (requeued now maxAttempts old)

/-- A job as `Enqueue` inserts it. -/
structure Fresh (job : Job) : Prop where
  status : job.status = .queued
  attempts : job.attempts = 0
  finishedAt : job.finishedAt = none

/-- What is true of a job at any time. -/
structure Sound (maxAttempts : Int) (job : Job) : Prop where
  finished : job.finishedAt.isSome = job.status.ended
  attempts : (job.attempts : Int) ≤ maxAttempts
  queued : job.status = .queued → (job.attempts : Int) < maxAttempts
  running : job.status = .running → 1 ≤ job.attempts

section Transition
variable {maxAttempts : Int} {label : Label} {old new : Job}

theorem Transition.id (moves : Transition maxAttempts label old new) : new.id = old.id := by
  cases moves with
  | requeue now running => unfold requeued; split <;> rfl
  | _ => rfl

theorem Transition.alive (moves : Transition maxAttempts label old new) : old.status.ended = false := by
  cases moves with
  | claim now queued => rw [queued]; rfl
  | saveProgress now p running => rw [running]; rfl
  | finish now status p out errText running _ => rw [running]; rfl
  | cancel now alive => rcases alive with queued | running <;> simp_all [JobStatus.ended]
  | requeue now running => rw [running]; rfl

theorem Transition.running (moves : Transition maxAttempts label old new)
    (isWorker : label = .saveProgress old.id ∨ label = .finish old.id) : old.status = .running := by
  cases moves with
  | saveProgress now p running => exact running
  | finish now status p out errText running _ => exact running
  | _ => rcases isWorker with absurd_ | absurd_ <;> cases absurd_

theorem Transition.attempts (moves : Transition maxAttempts label old new) :
    new.attempts = if label = .claim then old.attempts + 1 else old.attempts := by
  cases moves with
  | requeue now running => unfold requeued; split <;> rfl
  | _ => rfl

theorem Sound.fresh (positive : 0 < maxAttempts) (fresh : Fresh new) : Sound maxAttempts new := by
  obtain ⟨status, attempts, finishedAt⟩ := fresh
  constructor <;> simp [status, attempts, finishedAt, JobStatus.ended]
  · omega
  · exact positive

theorem Sound.transition (sound : Sound maxAttempts old) (moves : Transition maxAttempts label old new) :
    Sound maxAttempts new := by
  obtain ⟨finished, attempts, queued, running⟩ := sound
  cases moves with
  | claim now isQueued =>
    have below := queued isQueued
    rw [isQueued] at finished
    refine ⟨finished, ?_, fun absurd_ => (nomatch absurd_), fun _ => ?_⟩ <;> simp only [claimed]
    · push_cast; omega
    · omega
  | saveProgress now p isRunning => exact ⟨finished, attempts, queued, running⟩
  | finish now status p out errText isRunning ends =>
    rcases ends with rfl | rfl <;> exact ⟨rfl, attempts, fun absurd_ => (nomatch absurd_),
      fun absurd_ => (nomatch absurd_)⟩
  | cancel now alive =>
    exact ⟨rfl, attempts, fun absurd_ => (nomatch absurd_),
      fun absurd_ => (nomatch absurd_)⟩
  | requeue now isRunning =>
    unfold requeued
    rw [isRunning] at finished
    split
    · exact ⟨rfl, attempts, fun absurd_ => (nomatch absurd_), fun absurd_ => (nomatch absurd_)⟩
    · refine ⟨finished, attempts, fun _ => ?_, fun absurd_ => (nomatch absurd_)⟩
      simp only
      omega

end Transition

abbrev Log := List (Commit Job Label)

/-- Each row a commit adds is a new job or a transition of a committed one, and it takes
nothing away without. `Seen` is what is known of the job when the statement found it. -/
structure Effect (maxAttempts : Int) (Seen : Tid → Label → Job → Log → Prop) (log : Log)
    (commit : Commit Job Label) : Prop where
  added : ∀ row ∈ commit.tx.added, (commit.tx.label = some .enqueue ∧ Fresh row) ∨
      ∃ old ∈ commit.before, ∃ label, commit.tx.label = some label ∧ Transition maxAttempts label old row ∧
      Seen commit.tid label old log
  removed : ∀ key ∈ commit.tx.removed, ∃ old ∈ commit.before, old.id = key ∧
    ∃ row ∈ commit.tx.added, ∃ label, commit.tx.label = some label ∧ Transition maxAttempts label old row

section Effect
variable {maxAttempts : Int} {Seen : Tid → Label → Job → Log → Prop} {log : Log} {commit : Commit Job Label}

theorem Effect.after (effect : Effect maxAttempts Seen log commit) {row : Job}
    (present : row ∈ commit.after) :
    row ∈ commit.before ∨ (commit.tx.label = some .enqueue ∧ Fresh row) ∨
        ∃ old ∈ commit.before, ∃ label, commit.tx.label = some label ∧ Transition maxAttempts label old row ∧
        Seen commit.tid label old log := by
  rcases Tx.mem_view.mp present with ⟨before, -⟩ | added
  · exact .inl before
  · exact .inr (effect.added row added)

theorem Effect.before (effect : Effect maxAttempts Seen log commit) {row : Job}
    (apart : commit.before.Pairwise NoClash)
    (present : row ∈ commit.before) :
    row ∈ commit.after ∨ ∃ new ∈ commit.after, ∃ label, commit.tx.label = some label ∧
      Transition maxAttempts label row new := by
  by_cases removes : commit.tx.removes row = true
  · obtain ⟨old, member, same, new, added, label, isLabel, moves⟩ :=
      effect.removed _ (Tx.removes_iff.mp removes)
    cases eq_of_primary apart member present same
    exact .inr ⟨new, Tx.mem_view.mpr (.inr added), label, isLabel, moves⟩
  · exact .inl (Tx.mem_view.mpr (.inl ⟨present, by simpa using removes⟩))

end Effect

/-- A job handed out: to which process, and as which attempt. -/
structure Handed where
  worker : Tid
  id : Uuid
  attempt : Nat
  deriving DecidableEq, Repr

def handedBy (commit : Commit Job Label) : List Handed :=
  if commit.tx.label = some .claim then commit.tx.added.map
    fun job => ⟨commit.tid, job.id, job.attempts⟩ else []

def handed (log : Log) : List Handed := log.flatMap handedBy

def claimsOf (id : Uuid) (log : Log) : List Handed := (handed log).filter fun claim => claim.id = id

@[simp] theorem claimsOf_append (id : Uuid) (log : Log) (commit : Commit Job Label) :
    claimsOf id (log ++ [commit]) = claimsOf id log ++ (handedBy commit).filter
    fun claim => claim.id = id := by
  simp [claimsOf, handed]

theorem handed_persists (claim : Handed) : Persists fun log => claim ∈ handed log := by
  rintro log next ⟨more, rfl⟩ known
  rw [handed, List.flatMap_append]
  exact List.mem_append_left _ known

theorem filter_id {rows : List Job} (apart : rows.Pairwise NoClash) {row : Job} (present : row ∈ rows) :
    rows.filter (fun other => other.id = row.id) = [row] := by
  induction apart with
  | nil => cases present
  | @cons first rest clear later ih =>
    rcases List.mem_cons.mp present with rfl | within
    · rw [List.filter_cons_of_pos (by simp), List.filter_eq_nil_iff.mpr]
      intro other member same
      have clashes : clash row other = true :=
        clash_of_sameRow (sameRow_iff.mpr (of_decide_eq_true same).symm)
      exact absurd (clear other member) (by simp [NoClash, clashes])
    · rw [List.filter_cons_of_neg, ih within]
      intro same
      have clashes : clash first row = true := clash_of_sameRow (sameRow_iff.mpr (of_decide_eq_true same))
      exact absurd (clear row within) (by simp [NoClash, clashes])

/-- The claims of a job are numbered from 1 to its attempts, in this order, and no other job
has been handed out. -/
structure Counted (log : Log) : Prop where
  rows : ∀ row ∈ rowsAfter [] log, (claimsOf row.id log).map Handed.attempt = List.range' 1 row.attempts
  claims : ∀ claim ∈ handed log, ∃ row ∈ rowsAfter [] log, row.id = claim.id

section Journal
variable {maxAttempts : Int} {Seen : Tid → Label → Job → Log → Prop} {log past : Log} {row : Job}

theorem rows_sound (positive : 0 < maxAttempts) (journal : Journal [] (Effect maxAttempts Seen) log) :
    ∀ row ∈ rowsAfter [] log, Sound maxAttempts row := by
  refine journal.invariant (fun log => ∀ row ∈ rowsAfter [] log, Sound maxAttempts row)
    (fun row absurd_ => by cases absurd_) ?_
  intro log commit _ before _ effect sound row present
  rw [rowsAfter_append] at present
  rcases effect.after present with old | ⟨-, fresh⟩ | ⟨old, member, label, -, moves, -⟩
  · exact sound row (before ▸ old)
  · exact .fresh positive fresh
  · exact (sound old (before ▸ member)).transition moves

theorem journal_apart (journal : Journal [] (Effect maxAttempts Seen) log) :
    (rowsAfter [] log).Pairwise NoClash :=
  journal.apart .nil

theorem over_stays (journal : Journal [] (Effect maxAttempts Seen) log) (earlier : past <+: log)
    (present : row ∈ rowsAfter [] past) (ended : row.status.ended = true) : row ∈ rowsAfter [] log := by
  refine journal.invariant (fun log => past <+: log → row ∈ rowsAfter [] log) ?_ ?_ earlier
  · intro earlier
    rwa [List.prefix_nil.mp earlier] at present
  · intro log commit journal before _ effect stays earlier
    rcases List.prefix_concat_iff.mp earlier with rfl | within
    · exact present
    · rw [rowsAfter_append]
      rcases effect.before (before ▸ journal_apart journal) (before ▸
        stays within) with after | ⟨new, -, label, -, moves⟩
      · exact after
      · exact absurd ended (by simp [moves.alive])

theorem attempts_grow (journal : Journal [] (Effect maxAttempts Seen) log) (earlier : past <+: log)
    (present : row ∈ rowsAfter [] past) : ∃ later ∈ rowsAfter [] log, later.id = row.id ∧
    row.attempts ≤ later.attempts := by
  refine journal.invariant
    (fun log => past <+: log → ∃ later ∈ rowsAfter [] log, later.id = row.id ∧
      row.attempts ≤ later.attempts) ?_ ?_ earlier
  · intro earlier
    rw [List.prefix_nil.mp earlier] at present
    cases present
  · intro log commit journal before _ effect grows earlier
    rcases List.prefix_concat_iff.mp earlier with rfl | within
    · exact ⟨row, present, rfl, Nat.le_refl _⟩
    · obtain ⟨later, member, same, le⟩ := grows within
      rw [rowsAfter_append]
      rcases effect.before (before ▸ journal_apart journal) (before ▸ member) with after | ⟨new,
        after, label, -, moves⟩
      · exact ⟨later, after, same, le⟩
      · refine ⟨new, after, moves.id.trans same, ?_⟩
        rw [moves.attempts]
        split <;> omega

section Commits
variable {commit : Commit Job Label}

theorem claims_kept (effect : Effect maxAttempts Seen log commit) (apart : commit.before.Pairwise NoClash)
    (apartAfter : commit.after.Pairwise NoClash) (kept : row ∈ commit.before) (present : row ∈ commit.after) :
    (handedBy commit).filter (fun claim => claim.id = row.id) = [] := by
  rw [List.filter_eq_nil_iff]
  intro claim member same
  unfold handedBy at member
  split at member
  · next isClaim =>
    obtain ⟨job, added, rfl⟩ := List.mem_map.mp member
    have equal : job = row := eq_of_primary apartAfter (Tx.mem_view.mpr (.inr added)) present
      (of_decide_eq_true same)
    subst equal
    rcases effect.added job added with ⟨absurd_, -⟩ | ⟨old, here, label, isLabel, moves, -⟩
    · rw [isClaim] at absurd_; cases absurd_
    · rw [isClaim] at isLabel
      cases isLabel
      cases eq_of_primary apart here kept moves.id.symm
      have counted := moves.attempts
      rw [if_pos rfl] at counted
      omega
  · cases member

theorem claims_added (apartAfter : commit.after.Pairwise NoClash) {label : Label}
    (isLabel : commit.tx.label = some label) (added : row ∈ commit.tx.added) :
    (handedBy commit).filter (fun claim => claim.id = row.id) =
      if label = .claim then [⟨commit.tid, row.id, row.attempts⟩] else [] := by
  unfold handedBy
  rw [isLabel]
  by_cases claims : label = .claim
  · have apartAdded : commit.tx.added.Pairwise NoClash := (List.pairwise_append.mp apartAfter).2.1
    rw [if_pos (by rw [claims]), if_pos claims, List.filter_map]
    have single := filter_id apartAdded added
    simp only [Function.comp_def, single, List.map_cons, List.map_nil]
  · rw [if_neg (by simpa using claims), if_neg claims, List.filter_nil]

end Commits

theorem counted (journal : Journal [] (Effect maxAttempts Seen) log) : Counted log := by
  refine journal.invariant Counted
    ⟨(fun row absurd_ => by cases absurd_), (fun claim absurd_ => by cases absurd_)⟩ ?_
  intro log commit journal before apartAfter effect counted
  have apart : commit.before.Pairwise NoClash := before ▸ journal_apart journal
  refine ⟨fun row present => ?_, fun claim member => ?_⟩
  · rw [rowsAfter_append] at present
    rw [claimsOf_append, List.map_append]
    by_cases kept : row ∈ commit.before
    · rw [claims_kept effect apart apartAfter kept present, counted.rows row (before ▸ kept)]
      simp
    · have added : row ∈ commit.tx.added := (Tx.mem_view.mp present).resolve_left fun stays => kept stays.1
      rcases effect.added row added with ⟨isEnqueue, fresh⟩ | ⟨old, member, label, isLabel, moves, -⟩
      · rw [claims_added apartAfter isEnqueue added, fresh.attempts]
        have none_ : claimsOf row.id log = [] := by
          rw [claimsOf, List.filter_eq_nil_iff]
          intro claim claims same
          obtain ⟨other, here, isOther⟩ := counted.claims claim claims
          rcases effect.before apart (before ▸ here) with stays | ⟨new, -, label, isLabel, moves⟩
          · have equal : other = row :=
              eq_of_primary apartAfter stays present (isOther.trans (of_decide_eq_true same))
            exact kept (before ▸ equal ▸ here)
          · rw [isEnqueue] at isLabel
            cases isLabel
            cases moves
        simp [none_]
      · rw [claims_added apartAfter isLabel added, moves.id,
          counted.rows old (before ▸ member), moves.attempts]
        split
        · rw [List.range'_concat]
          simp [Nat.add_comm]
        · simp
  · rw [handed, List.flatMap_append] at member
    rw [rowsAfter_append]
    rcases List.mem_append.mp member with earlier | now
    · obtain ⟨row, here, same⟩ := counted.claims claim earlier
      rcases effect.before apart (before ▸ here) with stays | ⟨new, after, label, -, moves⟩
      · exact ⟨row, stays, same⟩
      · exact ⟨new, after, moves.id.trans same⟩
    · rw [List.flatMap_singleton, handedBy] at now
      split at now
      · obtain ⟨job, added, rfl⟩ := List.mem_map.mp now
        exact ⟨job, Tx.mem_view.mpr (.inr added), rfl⟩
      · cases now

theorem handed_once (journal : Journal [] (Effect maxAttempts Seen) log) {claim other : Handed}
    (claims : claim ∈ handed log) (claimed : other ∈ handed log) (sameJob : claim.id = other.id)
    (sameAttempt : claim.attempt = other.attempt) :
    claim = other := by
  have counted := counted journal
  obtain ⟨row, present, isRow⟩ := counted.claims claim claims
  have distinct : ((claimsOf row.id log).map Handed.attempt).Nodup := by
    rw [counted.rows row present]
    exact List.nodup_range'
  exact List.inj_on_of_nodup_map distinct (List.mem_filter.mpr ⟨claims, by simp [isRow]⟩)
    (List.mem_filter.mpr ⟨claimed, by simp [isRow, sameJob]⟩) sameAttempt

end Journal

end OpenEmarsys.Jobs
