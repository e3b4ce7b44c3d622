import OpenEmarsys.Jobs.History

/-! The operations of the store refine the state machine of its jobs.

Each is taken through its statements to the one commit it makes, under any
interference, so a run of any number of them has a journal of transitions.
-/

set_option autoImplicit false

namespace OpenEmarsys.Jobs

open Interleaving Javascript Postgres

/-- The journal of the table, with what `Seen` says of each job that moves. -/
def chronicle {World : Type} (maxAttempts : Int) (Seen : Tid → Label → Job → Log → Prop) :
    Chronicle Job Label World where
  first := []
  Effect := Effect maxAttempts Seen
  Outside _ _ := True
  outside _ _ := trivial

/-- A transaction that has made the transitions of its kind, and holds these jobs. -/
structure Moved {World : Type} (maxAttempts : Int) (Seen : Tid → Label → Job → Log → Prop) (pid : Tid)
    (label : Label) (held : List Job)
    (stage : Stage Job Label) (shared : Shared Job Label World) : Prop where
  at_ : Stage.At [] pid stage (fun log => ∀ old ∈ (stage.contents ()).gone, Seen pid label old log) shared
  kind : stage.label = label
  new : ∀ row ∈ (stage.contents ()).new, (label = .enqueue ∧ Fresh row) ∨
    ∃ old ∈ (stage.contents ()).gone, Transition maxAttempts label old row
  gone : ∀ old ∈ (stage.contents ()).gone, ∃ row ∈ (stage.contents ()).new,
    Transition maxAttempts label old row
  held : ∀ job ∈ held, job ∈ (stage.contents ()).new

section Operations

variable {World : Type} {maxAttempts : Int} {Seen : Tid → Label → Job → Log →
  Prop} {pid : Tid} {label : Label} {held : List Job}
  {stage : Stage Job Label} {known : Log → Prop}

theorem Moved.lasting (persists : ∀ tid label old, Persists (Seen tid label old)) :
    (chronicle maxAttempts Seen : Chronicle Job Label World).protocol.Lasting pid
    fun shared => ∃ stage, Moved maxAttempts Seen pid label held stage shared := by
  rintro shared next inv later ⟨stage, moved⟩ same alongside grown
  have steady : Persists fun log => ∀ old ∈ (stage.contents ()).gone, Seen pid label old log :=
    fun log after more known old member => persists _ _ _ log after more (known old member)
  exact ⟨stage,
    { moved with at_ := Stage.At.lasting steady shared next inv later moved.at_ same alongside grown }⟩

theorem Moved.effect {shared : Shared Job Label World}
    (moved : Moved maxAttempts Seen pid label held stage shared) :
    Effect maxAttempts Seen shared.server.log ⟨pid, shared.server.rows, shared.server.txs pid⟩ := by
  have contents := moved.at_.contents
  have isLabel : (shared.server.txs pid).label = some label :=
    moved.at_.label.trans (congrArg some moved.kind)
  refine ⟨fun row added => ?_, fun key removed => ?_⟩
  · rcases moved.new row ((contents.added row).mp added) with ⟨isEnqueue, fresh⟩ | ⟨old, gone, moves⟩
    · exact .inl ⟨isLabel.trans (congrArg some isEnqueue), fresh⟩
    · exact .inr ⟨old, (contents.gone () old gone).2, label, isLabel, moves, moved.at_.known old gone⟩
  · obtain ⟨old, gone, same⟩ := (contents.removed key).mp removed
    obtain ⟨row, new, moves⟩ := moved.gone old gone
    exact ⟨old, (contents.gone () old gone).2, same, row, (contents.added row).mpr new, label, isLabel, moves⟩

theorem Moved.hands {shared : Shared Job Label World}
    (moved : Moved maxAttempts Seen pid .claim held stage shared) {job : Job} (holds : job ∈ held) :
    (⟨pid, job.id, job.attempts⟩ : Handed) ∈
      handed (shared.server.log ++ [⟨pid, shared.server.rows, shared.server.txs pid⟩]) := by
  have isLabel : (shared.server.txs pid).label = some .claim :=
    moved.at_.label.trans (congrArg some moved.kind)
  rw [handed, List.flatMap_append]
  apply List.mem_append_right
  rw [List.flatMap_singleton, handedBy, if_pos isLabel]
  exact List.mem_map_of_mem ((moved.at_.contents.added job).mpr (moved.held job holds))

/-- Each of these rows made this transition from a row of a time when `known` held. -/
def Came (maxAttempts : Int) (known : Log → Prop) (label : Label) (rows : List Job) (log : Log) : Prop :=
  ∀ row ∈ rows, ∃ past, past <+: log ∧ known past ∧ ∃ old ∈ rowsAfter [] past,
    Transition maxAttempts label old row

theorem came_persists (known : Log → Prop) (rows : List Job) :
    Persists (Came maxAttempts known label rows) := by
  intro log next grown came row member
  obtain ⟨past, earlier, then_, from_⟩ := came row member
  exact ⟨past, earlier.trans grown, then_, from_⟩

/-- What the rules of a run say of a job that an update is about to move. -/
def Watched {Call World : Type} (maxAttempts : Int) (Seen : Tid → Label → Job → Log → Prop)
    (rules : Rules Call (Action Job Label Request) (Shared Job Label World)) : Prop :=
  ∀ pid p f (shared : Shared Job Label World) label old, rules.act pid (.exec (.update p f)) shared →
      (shared.server.txs pid).label = some label → old ∈ shared.server.rows →
      Transition maxAttempts label old (f old) →
    Seen pid label old shared.server.log

variable {Call Choice : Type}
  {respond : Tid → (request : Request) → Choice → Shared Job Label World → Option (request.Reply × World)}
  {rules : Rules Call (Action Job Label Request) (Shared Job Label World)}
    (watched : Watched maxAttempts Seen rules)
  (persists : ∀ tid label old, Persists (Seen tid label old))
include watched persists

theorem update_moves (knows : Persists known) (kind : stage.label = label) (empty : stage.contents = .empty)
    (p : Job → Bool) (f : Job → Job) (keyed : ∀ job, (f job).id = job.id)
    (moves : ∀ shared : Shared Job Label World, (chronicle maxAttempts Seen).protocol.Inv shared →
      Stage.At [] pid stage known shared →
      ∀ old ∈ shared.server.rows, p old = true → Transition maxAttempts label old (f old)) :
    (chronicle maxAttempts Seen).protocol.Proves respond rules pid
    (Stage.Here (chronicle maxAttempts Seen) pid stage known)
      (sql (.update p f) : JobsScript (List Job))
      (Protocol.Returns fun rows shared => Protocol.Unless pid (fun shared =>
        ∃ stage, Moved maxAttempts Seen pid label rows stage shared) shared ∧
        Came maxAttempts known label rows shared.server.log) := by
  let seen : List Job → Log → Prop :=
    fun hits log => (∀ old ∈ hits, Transition maxAttempts label old (f old)) ∧
      (∀ old ∈ hits, Seen pid label old log) ∧ ∃ past, past <+: log ∧ known past ∧
      ∀ old ∈ hits, old ∈ rowsAfter [] past
  have lasts : ∀ hits, Persists (seen hits) := by
    rintro hits log next grown ⟨moving, seen, past, earlier, then_, there⟩
    exact ⟨moving, fun old member => persists _ _ _ log next grown (seen old member), past,
      earlier.trans grown, then_, there⟩
  refine Triple.weaken (Stage.updateSeen knows p f (fun _ _ => (rfl : _ = ())) keyed
    (by rw [empty]; rfl) seen lasts ?_) ?_
  · intro shared hits inv at_ permitted found
    have moving : ∀ old ∈ hits, Transition maxAttempts label old (f old) := fun old member =>
      moves shared inv at_ old (found old member).1 (found old member).2
    refine ⟨moving, fun old member => ?_, shared.server.log, List.prefix_rfl, at_.known, fun old member => ?_⟩
    · exact watched pid p f shared label old permitted (at_.label.trans (congrArg some kind))
        (found old member).1 (moving old member)
    · exact inv.2.server ▸ (found old member).1
  · intro result shared inv held
    cases result with
    | error error => trivial
    | ok rows =>
      obtain ⟨stays, hits, rfl, moving, -, past, earlier, then_, there⟩ := held
      refine ⟨stays.imp id ?_, fun row member => ?_⟩
      · rintro ⟨⟨check, found⟩, at_⟩
        obtain ⟨-, same, ⟨moving, seen, -⟩, -⟩ := at_.known
        refine ⟨_, at_.weaken fun log known => ?_, kind, ?_, ?_, ?_⟩
        · simpa using known.2.2.1.2.1
        · intro row new
          simp only [Contents.set_same, List.mem_map] at new
          obtain ⟨old, hit, rfl⟩ := new
          exact .inr ⟨old, by simpa using hit, moving old hit⟩
        · intro old gone
          simp only [Contents.set_same] at gone ⊢
          exact ⟨f old, List.mem_map_of_mem gone, moving old gone⟩
        · intro job member
          simpa [same] using member
      · obtain ⟨old, hit, rfl⟩ := List.mem_map.mp member
        exact ⟨past, earlier, then_, old, there old hit, moving old hit⟩

omit watched in
-- A transaction that makes the transitions of its kind; a claim hands out what it holds.
theorem inTx_moved {α : Type} {body : JobsScript α} (knows : Persists known) (held : α → List Job)
    (told : α → Log → Prop) (tells : ∀ value, Persists (told value))
    (runs : ∀ opened, (chronicle maxAttempts Seen).protocol.Proves respond rules pid
      (Stage.Here (chronicle maxAttempts Seen) pid ⟨label, opened, [], .empty⟩ known) body
      (Protocol.Returns fun value shared => Protocol.Unless pid (fun shared =>
        ∃ stage, Moved maxAttempts Seen pid label (held value) stage shared) shared ∧
        told value shared.server.log)) :
    PublicProtocol.Step (chronicle maxAttempts Seen).public_ respond rules pid (fun state => known state.log)
    (inTx label body)
      fun given state => (given.2 = none → label = .claim →
        ∀ job ∈ held given.1, (⟨pid, job.id, job.attempts⟩ : Handed) ∈ handed state.log) ∧
        told given.1 state.log := by
  refine Stage.inTx knows
    (fun value shared => ∃ stage, Moved maxAttempts Seen pid label (held value) stage shared)
    (fun value log => label = .claim → ∀ job ∈ held value,
      (⟨pid, job.id, job.attempts⟩ : Handed) ∈ handed log) told runs
    (fun value => Moved.lasting persists) ?_ ?_ tells
  · rintro value shared inv ⟨stage, moved⟩
    refine ⟨moved.effect, ?_⟩
    rintro rfl job member
    exact moved.hands member
  · intro value log next grown known isClaim job member
    exact handed_persists _ log next grown (known isClaim job member)

omit watched in
theorem inTx_does {α : Type} {body : JobsScript α}
    (runs : ∀ opened, (chronicle maxAttempts Seen).protocol.Proves respond rules pid
      (Stage.Here (chronicle maxAttempts Seen) pid ⟨label, opened, [], .empty⟩ fun _ => True) body
      (Protocol.Returns fun _ => Protocol.Unless pid fun shared => ∃ stage,
        Moved maxAttempts Seen pid label [] stage shared)) :
    PublicProtocol.Step (chronicle maxAttempts Seen).public_ respond rules pid (fun _ => True)
    (inTx label body) fun _ _ => True := by
  refine (inTx_moved persists (persists_const True) (fun _ => []) (fun _ _ => True)
    (fun _ => persists_const True)
    fun opened => (runs opened).weaken fun result shared _ held => ?_).weaken fun _ _ _ _ => trivial
  cases result with
  | ok value => exact ⟨held, trivial⟩
  | error error => trivial

omit watched persists in
theorem call_keeps (request : Request) (knows : Persists known) :
    PublicProtocol.Step (chronicle maxAttempts Seen).public_ respond rules pid (fun state => known state.log)
    (call request)
      fun _ state => known state.log := by
  refine PublicProtocol.Step.ask (Chronicle.steady knows pid) (fun shared choice reply world app held _ => ?_)
    fun _ => Chronicle.steady knows pid
  exact ⟨⟨app.journal, app.rows, trivial⟩, fun _ _ => List.prefix_rfl, held⟩

omit watched persists in
theorem call_step (request : Request) :
    PublicProtocol.Step (chronicle maxAttempts Seen).public_ respond rules pid (fun _ => True) (call request)
      fun _ _ => True :=
  call_keeps request (persists_const True)

omit watched persists in
theorem unlessRefused_step {α : Type} {given : α × Option SqlError} {holds : Public Job Label World → Prop} :
    PublicProtocol.Step (chronicle maxAttempts Seen).public_ respond rules pid holds
    (unlessRefused given) fun _ _ => True := by
  obtain ⟨value, refused⟩ := given
  cases refused with
  | none =>
    exact (PublicProtocol.Step.ret (fun _ _ => True)
      fun _ _ _ _ _ _ => trivial).strengthen fun _ _ _ => trivial
  | some error => exact PublicProtocol.Step.fail

theorem update_step {α : Type} (p : Job → Bool) (f : Job → Job) (keyed : ∀ job, (f job).id = job.id)
    (moves : ∀ old, p old = true → Transition maxAttempts label old (f old)) (value : List Job → α) :
    PublicProtocol.Step (chronicle maxAttempts Seen).public_ respond rules pid (fun _ => True)
      (inTx label (do
        let rows ← sql (.update p f)
        return value rows) : JobsScript (α × Option SqlError))
      fun _ _ => True := by
  refine inTx_does persists fun opened => ?_
  refine Stage.bind _ (update_moves watched persists (persists_const True) rfl rfl p f keyed
    fun _ _ _ old _ matches_ => moves old matches_) fun rows => ?_
  refine (Stage.ret (fun _ => Protocol.Unless pid fun shared => ∃ stage,
    Moved maxAttempts Seen pid label [] stage shared)
    (Moved.lasting persists).stable).strengthen fun shared _ held => ?_
  refine held.1.imp id fun ⟨stage, moved⟩ => ⟨stage, { moved with held := fun _ absurd_ => nomatch absurd_ }⟩

/-- What the caller of an operation knows afterwards: nothing. -/
abbrev Does {α Call Choice World : Type} (maxAttempts : Int) (Seen : Tid → Label → Job → Log → Prop)
    (respond : Tid → (request : Request) → Choice → Shared Job Label World → Option (request.Reply × World))
    (rules : Rules Call (Action Job Label Request) (Shared Job Label World)) (pid : Tid)
    (script : JobsScript α) : Prop :=
  PublicProtocol.Step (chronicle maxAttempts Seen).public_ respond rules pid (fun _ => True) script
    fun _ _ => True

omit watched persists in
theorem ret_does {α : Type} (value : α) : Does maxAttempts Seen respond rules pid (.ret value) :=
  PublicProtocol.Step.ret (fun _ _ => True) fun _ _ _ _ _ _ => trivial

omit watched persists in
theorem bind_does {α β : Type} {script : JobsScript α} {next : α → JobsScript β}
    (does : Does maxAttempts Seen respond rules pid script)
    (later : ∀ value, Does maxAttempts Seen respond rules pid (next value)) :
    Does maxAttempts Seen respond rules pid (script >>= next) :=
  PublicProtocol.Step.bind (fun _ _ => True) does later

omit watched in
theorem enqueue_does (tenant : Option Uuid) (kind params createdBy : String) :
    Does maxAttempts Seen respond rules pid (enqueue tenant kind params createdBy) := by
  cases tenant with
  | none => exact PublicProtocol.Step.fail
  | some tid =>
    refine bind_does (call_step .newV7) fun (id : Uuid) => ?_
    refine bind_does (call_step .now) fun (now : Time) => ?_
    refine bind_does (inTx_does persists fun opened => ?_) fun _ => unlessRefused_step
    refine Stage.bind _ (Stage.insert (persists_const True) _ false fun _ _ => (rfl : _ = ())) fun rows => ?_
    refine (Stage.ret (fun _ => Protocol.Unless pid fun shared => ∃ stage,
      Moved maxAttempts Seen pid .enqueue [] stage shared)
      (Moved.lasting persists).stable).strengthen fun shared _ held => ?_
    refine held.imp (fun closed => closed) fun at_ => ?_
    obtain ⟨-, -, all⟩ := at_.known
    rw [all rfl] at at_
    refine ⟨_, at_.weaken fun log _ old gone => ?_, rfl, fun row new => .inl ⟨rfl, ?_⟩, fun old gone => ?_,
      fun _ absurd_ => nomatch absurd_⟩
    · simp at gone
    · simp only [Contents.set_same, Contents.empty_new, List.nil_append, List.mem_singleton] at new
      subst new
      exact ⟨rfl, rfl, rfl⟩
    · simp at gone

theorem saveProgress_does (id : Uuid) (p : Progress) : Does maxAttempts Seen respond rules pid
    (saveProgress id p) := by
  refine bind_does (call_step .now) fun (now : Time) => ?_
  refine bind_does (update_step watched persists _ (saved now p) (fun _ => rfl)
    (fun old found => ?_) fun _ => ()) fun _ => unlessRefused_step
  simp only [Bool.and_eq_true, beq_iff_eq] at found
  obtain ⟨rfl, running⟩ := found
  exact .saveProgress now p running

theorem finish_does (id : Uuid) {status : JobStatus} (ends : status = .succeeded ∨ status = .failed)
    (p : Progress) (out : Outcome) (errText : String) : Does maxAttempts Seen respond rules pid
    (finish id status p out errText) := by
  refine bind_does (call_step .now) fun (now : Time) => ?_
  refine bind_does (update_step watched persists _ (ended now status p out errText)
    (fun _ => rfl) (fun old found => ?_) fun _ => ()) fun _ => unlessRefused_step
  simp only [Bool.and_eq_true, beq_iff_eq] at found
  obtain ⟨rfl, running⟩ := found
  exact .finish now status p out errText running ends

theorem requeueOrphans_does (stale : Int) : Does maxAttempts Seen respond rules pid
    (requeueOrphans stale maxAttempts) := by
  refine bind_does (call_step .now) fun (now : Time) => ?_
  refine bind_does (update_step watched persists _ _ (fun job => ?_) (fun old found => ?_)
    List.length) fun _ => unlessRefused_step
  · unfold requeued
    split <;> rfl
  · simp only [orphaned, Bool.and_eq_true, beq_iff_eq] at found
    exact .requeue now found.1

theorem cancel_does (tenant : Option Uuid) (id : Uuid) :
    Does maxAttempts Seen respond rules pid (cancel tenant id) := by
  cases tenant with
  | none => exact PublicProtocol.Step.fail
  | some tid =>
    refine bind_does (call_step .now) fun (now : Time) => ?_
    refine bind_does (inTx_does persists fun opened => ?_) fun _ => unlessRefused_step
    refine Stage.bind _ (update_moves watched persists (persists_const True) rfl rfl _
      (cancelled now) (fun _ => rfl)
      fun _ _ _ old _ found => ?_) fun rows => ?_
    · simp only [Bool.and_eq_true, Bool.or_eq_true, beq_iff_eq] at found
      exact .cancel now found.2
    · cases rows with
      | cons job rest =>
        refine (Stage.ret (fun _ => Protocol.Unless pid
          fun shared => ∃ stage, Moved maxAttempts Seen pid .cancel [] stage shared)
          (Moved.lasting persists).stable).strengthen fun shared _ held => ?_
        refine held.1.imp (fun closed => closed) fun ⟨stage, moved⟩ =>
          ⟨stage, { moved with held := fun _ absurd_ => nomatch absurd_ }⟩
      | nil =>
        refine Triple.strengthen (Stage.bind (fun _ _ => True) (Stage.reads _)
          fun rows => ?_) fun _ _ _ => trivial
        cases rows with
        | nil => exact Stage.fail
        | cons job rest => exact Stage.fail

/-- What a claim returned is in the journal, unless it came with an error. -/
def HandsOut {World : Type} (pid : Tid) (given : Option Job × Option SqlError)
    (state : Public Job Label World) : Prop :=
  given.2 = none → ∀ job ∈ given.1, (⟨pid, job.id, job.attempts⟩ : Handed) ∈ handed state.log

omit watched persists in
theorem handsOut_steady (given : Option Job × Option SqlError) :
    PublicProtocol.Steady (chronicle maxAttempts Seen : Chronicle Job Label World).public_ pid
    (HandsOut pid given) := by
  intro state next _ _ grown known absent job member
  exact handed_persists _ _ _ grown (known absent job member)

omit watched persists in
theorem came_steady (known : Log → Prop) (given : Option Job × Option SqlError) :
    PublicProtocol.Steady (chronicle maxAttempts Seen : Chronicle Job Label World).public_ pid fun state =>
      HandsOut pid given state ∧ Came maxAttempts known .claim given.1.toList state.log :=
  fun state next before after grown held => ⟨handsOut_steady given state next before after grown held.1,
    came_persists _ _ _ _ grown held.2⟩

-- A job in hand was queued at some time since the claim began, even if its commit was refused.
theorem claim_came (knows : Persists known) :
    PublicProtocol.Step (chronicle maxAttempts Seen).public_ respond rules pid
    (fun state => known state.log) claim
      fun given state => HandsOut pid given state ∧
      Came maxAttempts known .claim given.1.toList state.log := by
  refine PublicProtocol.Step.bind (fun _ state => known state.log) (call_keeps .now knows)
    fun (now : Time) => ?_
  refine PublicProtocol.Step.handle (PublicProtocol.Step.bind _ (inTx_moved persists knows (fun job => [job])
    (fun job => Came maxAttempts known .claim [job]) (fun job => came_persists _ _) fun opened => ?_)
      fun given => ?_) fun error => ?_
  · refine Stage.bind _ (Stage.lockSkip knows _ _ 1 (fun _ _ => (rfl : _ = ())) rfl) fun oldest =>
      Stage.choose fun check => ?_
    refine Stage.bind _ (update_moves watched persists (knows.and (persists_const _)) rfl rfl _ (claimed now)
      (fun _ => rfl) ?_) fun rows => ?_
    · -- the row is still as it was locked, so it is still queued
      intro shared inv at_ old present matches_
      obtain ⟨found, member, same⟩ := List.any_eq_true.mp matches_
      obtain ⟨-, -, locked⟩ := at_.known
      obtain ⟨locks, queued, there⟩ := locked found member
      have since := at_.checks check (List.mem_cons_self ..)
      have here := since.rows shared.server.log since.earlier List.prefix_rfl found there locks
      have equal : found = old := eq_of_primary inv.1.rows (inv.2.server ▸ here) present (beq_iff_eq.mp same)
      subst equal
      exact .claim now (beq_iff_eq.mp queued)
    · cases rows with
      | nil => exact Stage.fail
      | cons job rest =>
        refine (Stage.ret (fun job shared => Protocol.Unless pid (fun shared =>
          ∃ stage, Moved maxAttempts Seen pid .claim [job] stage shared) shared ∧
            Came maxAttempts known .claim [job] shared.server.log)
          ((Moved.lasting persists).stable.and (Chronicle.stable (came_persists _ _) pid))).strengthen
            fun shared _ held => ?_
        obtain ⟨moves, came⟩ := held
        refine ⟨moves.imp (fun closed => closed) ?_, fun row member => ?_⟩
        · rintro ⟨stage, moved⟩
          refine ⟨stage, { moved with held := fun other member => ?_ }⟩
          exact moved.held other (List.mem_singleton.mp member ▸ List.mem_cons_self ..)
        · obtain ⟨past, earlier, then_, from_⟩ :=
            came row (List.mem_singleton.mp member ▸ List.mem_cons_self ..)
          exact ⟨past, earlier, then_.1, from_⟩
  · obtain ⟨job, refused⟩ := given
    refine (PublicProtocol.Step.ret (fun given state => HandsOut pid given state ∧
      Came maxAttempts known .claim given.1.toList state.log) (came_steady known _)).strengthen
        fun state _ held => ⟨?_, held.2⟩
    intro absent other member
    cases member
    exact held.1 absent rfl job (List.mem_singleton.mpr rfl)
  · cases error with
    | notFound =>
      refine (PublicProtocol.Step.ret (fun given state => HandsOut pid given state ∧
        Came maxAttempts known .claim given.1.toList state.log) (came_steady known _)).strengthen
          fun state _ _ => ⟨?_, ?_⟩
      · intro _ job absurd_
        cases absurd_
      · intro row absurd_
        cases absurd_
    | _ => exact PublicProtocol.Step.fail

theorem claim_does :
    PublicProtocol.Step (chronicle maxAttempts Seen).public_ respond rules pid (fun _ => True) claim
    (HandsOut pid) :=
  (claim_came watched persists (persists_const True)).weaken fun _ _ _ held => held.1

theorem code_does (operation : Operation) :
    PublicProtocol.Step (chronicle maxAttempts Seen).public_ respond rules pid (fun _ => True)
    (operation.code maxAttempts)
      fun given state => operation = .claim → HandsOut pid given state := by
  have other {α : Type} {script : JobsScript α} (does : Does maxAttempts Seen respond rules pid script)
    (distinct : operation ≠ .claim) :
      PublicProtocol.Step (chronicle maxAttempts Seen).public_ respond rules pid (fun _ => True)
        (script >>= fun _ => .ret (none, none)) fun given state => operation = .claim → HandsOut pid given state :=
    (bind_does does fun _ => ret_does (none, none)).weaken fun _ _ _ _ same => absurd same distinct
  cases operation with
  | enqueue tenant kind params createdBy =>
    exact other (enqueue_does persists tenant kind params createdBy) (nomatch ·)
  | claim => exact (claim_does watched persists).weaken fun _ _ _ hands _ => hands
  | saveProgress id p => exact other (saveProgress_does watched persists id p) (nomatch ·)
  | finish id ok p out errText =>
    refine other (finish_does watched persists id ?_ p out errText) (nomatch ·)
    cases ok
    · exact .inr rfl
    · exact .inl rfl
  | cancel tenant id => exact other (cancel_does watched persists tenant id) (nomatch ·)
  | requeueOrphans stale => exact other (requeueOrphans_does watched persists stale) (nomatch ·)

end Operations

end OpenEmarsys.Jobs
