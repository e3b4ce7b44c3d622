import OpenEmarsys.Drafts.Start

/-! A draft is started once, unless two requests find it unstarted.

A request that has read the draft holds it, as long as it has not marked it. Nothing in the code keeps
another request from reading it meanwhile.
-/

set_option autoImplicit false

namespace OpenEmarsys.Drafts

open Golang Importer Interleaving
open Javascript (Uuid)

inductive Stage where
  | loading
  | sampling (d : Draft) (p : Params) (body : StartBody)
  | queueing (d : Draft) (params : JobParams)
  | marking (d : Draft) (jobID : Uuid)
  | fetching (jobID : Uuid)
  | ended (result : Except Failure Job)

def jobParams (d : Draft) (p : Params) (options : String × String) : JobParams :=
  { p with objectKey := d.objectKey, filename := d.filename, delimiter := options.1, encoding := options.2 }

/-- After the draft has been read, and was not started. -/
def begun (r : Request) (d : Draft) : Stage :=
  match r.body with
  | .error text => .ended (.error (.badRequest ("invalid JSON body: " ++ text)))
  | .ok body =>
      match Importer.enqueue body.toStartReq with
      | .error text => .ended (.error (.badRequest text))
      | .ok p =>
          match validOptions body.delimiter body.encoding with
          | some text => .ended (.error (.badRequest text))
          | none =>
              if body.delimiter ≠ "" ∧ body.encoding ≠ ""
                then .queueing d (jobParams d p (body.delimiter, body.encoding))
              else .sampling d p body

def loaded (r : Request) : Option Draft → Stage
  | none => .ended (.error .notFound)
  | some d => if d.jobID.isSome then .ended (.error .conflict) else begun r d

def sampled (d : Draft) (p : Params) (body : StartBody) : Option (Bytes × Bool) → Stage
  | none => .ended (.error .notFound)
  | some sample => .queueing d (jobParams d p (filled body.delimiter body.encoding sample))

def fetched : Option Job → Stage
  | none => .ended (.error .internal)
  | some j => .ended (.ok j)

def Stage.script (key : DraftKey) (r : Request) : Stage → StartScript Job
  | loading => start r
  | sampling d p body => do
      let sample : Option (Bytes × Bool) ← ask (.readSample d.objectKey)
      let jobID ← match sample with
        | none => throw .notFound
        | some sample =>
          ask (.insertJob key (jobParams d p (filled body.delimiter body.encoding sample)) r.subject)
      finish key d jobID
  | queueing d params => do
      let jobID : Uuid ← ask (.insertJob key params r.subject)
      finish key d jobID
  | marking d jobID => finish key d jobID
  | fetching jobID => do
      let found : Option Job ← ask (.getJob jobID)
      match found with
      | some j => pure j
      | none => throw .internal
  | ended (.ok j) => .ret j
  | ended (.error failure) => .fail failure

theorem script_begun {key : DraftKey} {r : Request} {d : Draft} :
    startDraft key r d = (loaded r (some d)).script key r := by
  simp only [startDraft, loaded]
  by_cases marked : d.jobID.isSome
  · rw [if_pos marked, if_pos marked]
    rfl
  · rw [if_neg marked, if_neg marked, begun]
    cases r.body with
    | error text => rfl
    | ok body =>
      simp only [enqueue]
      cases Importer.enqueue body.toStartReq with
      | error text => rfl
      | ok p =>
        simp only [resolveOptions]
        cases validOptions body.delimiter body.encoding with
        | some text => rfl
        | none =>
          by_cases given : body.delimiter ≠ "" ∧ body.encoding ≠ ""
          · simp only [if_pos given]
            rfl
          · simp only [if_neg given]
            refine congrArg (Script.call (Act.readSample d.objectKey)) (funext fun sample => ?_)
            cases (sample : Option (Bytes × Bool)) with
            | none => rfl
            | some sample => rfl

theorem script_loading {key : DraftKey} {r : Request} (about : r.key = some key) :
    Stage.loading.script key r = .call (.getDraft key) fun found => (loaded r found).script key r := by
  obtain ⟨tid, id, subject, body⟩ := r
  cases tid with
  | none => cases about
  | some tid =>
    cases id with
    | none => cases about
    | some id =>
      cases about
      refine congrArg (Script.call (Act.getDraft ⟨tid, id⟩)) (funext fun found => ?_)
      cases (found : Option Draft) with
      | none => rfl
      | some d => exact script_begun

theorem start_unkeyed {r : Request} (unkeyed : r.key = none) : ∃ failure, start r = .fail failure := by
  obtain ⟨tid, id, subject, body⟩ := r
  cases tid with
  | none => exact ⟨.forbidden, rfl⟩
  | some tid =>
    cases id with
    | none => exact ⟨.notFound, rfl⟩
    | some id => cases unkeyed

theorem script_sampling (key : DraftKey) (r : Request) (d : Draft) (p : Params) (body : StartBody) :
    (Stage.sampling d p body).script key r = .call (.readSample d.objectKey)
    fun sample => (sampled d p body sample).script key r := by
  refine congrArg (Script.call (Act.readSample d.objectKey)) (funext fun sample => ?_)
  cases (sample : Option (Bytes × Bool)) with
  | none => rfl
  | some sample => rfl

theorem script_queueing (key : DraftKey) (r : Request) (d : Draft) (params : JobParams) :
    (Stage.queueing d params).script key r = .call (.insertJob key params r.subject)
    fun id => (Stage.marking d id).script key r := rfl

theorem script_marking (key : DraftKey) (r : Request) (d : Draft) (jobID : Uuid) :
    (Stage.marking d jobID).script key r = .call (.putDraft key (d.mark jobID))
    fun _ => (Stage.fetching jobID).script key r := rfl

theorem script_fetching (key : DraftKey) (r : Request) (jobID : Uuid) :
    (Stage.fetching jobID).script key r = .call (.getJob jobID)
    fun found => (fetched found).script key r := by
  refine congrArg (Script.call (Act.getJob jobID)) (funext fun found => ?_)
  cases (found : Option Job) with
  | none => rfl
  | some j => rfl

/-- What one call does, to the request and to the storage. -/
inductive Steps (pid : Nat) (key : DraftKey) (r : Request) (storage : Storage) : Stage →
  Stage → Storage → Prop where
  | load : Steps pid key r storage .loading (loaded r (storage.drafts key)) storage
  | sample (d : Draft) (p : Params) (body : StartBody) :
      Steps pid key r storage (.sampling d p body) (sampled d p body
        ((storage.files d.objectKey).map readSample)) storage
  | queue (d : Draft) (params : JobParams) (id : Uuid) (fresh : id ∉ storage.jobs.map Job.id) :
      Steps pid key r storage (.queueing d params) (.marking d id)
        (storage.insert ⟨id, params, r.subject, pid, key⟩ fresh)
  | mark (d : Draft) (jobID : Uuid) :
      Steps pid key r storage (.marking d jobID) (.fetching jobID)
        { storage with drafts := Function.update storage.drafts key (some (d.mark jobID)) }
  | fetch (jobID : Uuid) : Steps pid key r storage (.fetching jobID)
    (fetched (storage.jobs.find? (·.id = jobID))) storage

theorem steps_of_answer {pid : Nat} {key : DraftKey} {r : Request} {storage next : Storage} {stage : Stage}
    {act : Act} {id : Uuid}
    {rest : Reply act → StartScript Job} {reply : Reply act} (about : r.key = some key)
    (here : stage.script key r = .call act rest) (answered : answer pid storage act id = some (reply, next)) :
    ∃ later, rest reply = later.script key r ∧ Steps pid key r storage stage later next := by
  cases stage with
  | loading =>
    rw [script_loading about] at here
    cases here
    cases answered
    exact ⟨_, rfl, .load⟩
  | sampling d p body =>
    rw [script_sampling] at here
    cases here
    cases answered
    exact ⟨_, rfl, .sample d p body⟩
  | queueing d params =>
    rw [script_queueing] at here
    cases here
    simp only [answer] at answered
    split at answered
    · next fresh =>
      cases answered
      exact ⟨_, rfl, .queue d params id fresh⟩
    · cases answered
  | marking d jobID =>
    rw [script_marking] at here
    cases here
    cases answered
    exact ⟨_, rfl, .mark d jobID⟩
  | fetching jobID =>
    rw [script_fetching] at here
    cases here
    cases answered
    exact ⟨_, rfl, .fetch jobID⟩
  | ended result =>
    cases result with
    | ok j => cases here
    | error failure => cases here

/-! ## Which requests may start the draft -/

/-- The checks of the request pass, and its file is there if it has to be looked at. -/
def Request.admitted (files : String → Option Bytes) (d : Draft) (r : Request) : Bool :=
  match r.body with
  | .error _ => false
  | .ok body =>
      match Importer.enqueue body.toStartReq with
      | .error _ => false
      | .ok _ =>
          (validOptions body.delimiter body.encoding).isNone &&
            (decide (body.delimiter ≠ "" ∧ body.encoding ≠ "") || (files d.objectKey).isSome)

theorem begun_cases (files : String → Option Bytes) (r : Request) (d : Draft) :
    (∃ failure, begun r d = .ended (.error failure) ∧ r.admitted files d = false) ∨
      (∃ params, begun r d = .queueing d params ∧ r.admitted files d = true) ∨
      (∃ p body, begun r d = .sampling d p body ∧ r.admitted files d = (files d.objectKey).isSome) := by
  simp only [begun, Request.admitted]
  cases r.body with
  | error text => exact .inl ⟨_, rfl, rfl⟩
  | ok body =>
    simp only
    cases Importer.enqueue body.toStartReq with
    | error text => exact .inl ⟨_, rfl, rfl⟩
    | ok p =>
      simp only
      cases validOptions body.delimiter body.encoding with
      | some text => exact .inl ⟨_, rfl, rfl⟩
      | none =>
        by_cases given : body.delimiter ≠ "" ∧ body.encoding ≠ ""
        · exact .inr (.inl ⟨_, if_pos given, by simp [given]⟩)
        · exact .inr (.inr ⟨p, body, if_neg given, by simp [given]⟩)

/-- The request is about the draft, and would start it. -/
def Eligible (key : DraftKey) (storage : Storage) (r : Request) : Prop :=
  r.key = some key ∧ ∃ d, storage.drafts key = some d ∧ r.admitted storage.files d = true

def Act.between : Act → Bool
  | readSample _ => true
  | insertJob .. => true
  | putDraft .. => true
  | _ => false

/-- The process has read the draft, and has not marked it yet. -/
def Holds (key : DraftKey) (config : Config) (pid : Nat) : Prop :=
  ∃ r act rest, config.procs pid = .running r (.call act rest) ∧ act.between = true ∧
    Eligible key config.state r

/-- The process is about to read the draft, which is not started. -/
def Reads (key : DraftKey) (config : Config) (pid : Nat) : Prop :=
  ∃ r found rest, config.procs pid = .running r (.call (.getDraft found) rest) ∧ Eligible key config.state r ∧
    ∃ d, config.state.drafts key = some d ∧ d.jobID = none

/-- No request reads the draft while another one holds it. -/
def Apart (key : DraftKey) (config : Config) : Move Request Uuid → Prop
  | .act pid _ => Reads key config pid → ∀ other, ¬ Holds key config other
  | .crash _ => False
  | _ => True

inductive Phase where
  | free
  | held (pid : Nat)
  | queued (job : Job)
  | marked (job : Job)

def Phase.holder : Phase → Option Nat
  | held pid => some pid
  | queued job => some job.request
  | _ => none

/-- The draft, and the jobs that were queued for it. -/
def Phase.entry (d : Draft) : Phase → Draft × List Job
  | queued job => (d, [job])
  | marked job => (d.mark job.id, [job])
  | _ => (d, [])

/-- Where a request about the draft can be in this phase. -/
inductive Fits (files : String → Option Bytes) (d : Draft) (phase : Phase) (pid : Nat) (r : Request) : Stage →
  Prop where
  | loading (apart : phase.holder ≠ some pid) : Fits files d phase pid r .loading
  | missing {p : Params} {body : StartBody} (gone : files d.objectKey = none)
    (barred : r.admitted files d = false)
      (apart : phase.holder ≠ some pid) : Fits files d phase pid r (.sampling d p body)
  | sampling {p : Params} {body : StartBody} (there : (files d.objectKey).isSome) (held : phase = .held pid) :
      Fits files d phase pid r (.sampling d p body)
  | queueing {params : JobParams} (held : phase = .held pid) : Fits files d phase pid r (.queueing d params)
  | marking {job : Job} (queued : phase = .queued job) (own : job.request = pid) : Fits files d phase
    pid r (.marking d job.id)
  | fetching {job : Job} (marked : phase = .marked job) (own : job.request = pid) : Fits files d phase
    pid r (.fetching job.id)
  | done {job : Job} (marked : phase = .marked job) (own : job.request = pid) : Fits files d phase
    pid r (.ended (.ok job))
  | refused {failure : Failure} (reason : r.admitted files d = true →
    failure = .conflict) (apart : phase.holder ≠ some pid) :
      Fits files d phase pid r (.ended (.error failure))

theorem Fits.other {files : String → Option Bytes} {d : Draft} {phase later : Phase} {pid : Nat} {r : Request}
    {stage : Stage} (fits : Fits files d phase pid r stage) (unmarked : ∀ job, phase ≠ .marked job)
    (before : phase.holder ≠ some pid)
    (after : later.holder ≠ some pid) : Fits files d later pid r stage := by
  cases fits with
  | loading => exact .loading after
  | missing gone barred => exact .missing gone barred after
  | sampling there held =>
    subst held
    exact absurd rfl before
  | queueing held =>
    subst held
    exact absurd rfl before
  | marking queued own =>
    subst queued
    exact absurd (congrArg some own) before
  | fetching marked => exact absurd marked (unmarked _)
  | done marked => exact absurd marked (unmarked _)
  | refused reason => exact .refused reason after

/-- Where a request is, whichever draft it is about. -/
def Placed (key : DraftKey) (files : String → Option Bytes) (d : Draft) (phase : Phase) (pid : Nat)
    (r : Request) (script : StartScript Job) : Prop :=
  (r.key = none ∧ ∃ failure, script = .fail failure) ∨
    ∃ own stage, r.key = some own ∧ script = stage.script own r ∧ (own = key → Fits files d phase pid r stage)

structure Known (key : DraftKey) (files : String → Option Bytes) (d : Draft) (phase : Phase)
    (config : Config) : Prop where
  uploads : config.state.files = files
  draft : config.state.drafts key = some (phase.entry d).1
  jobs : config.state.jobsFor key = (phase.entry d).2
  procs : ∀ pid r script, config.procs pid = .running r script → Placed key files d phase pid r script
  held : ∀ pid, phase.holder = some pid → Holds key config pid

section Known
variable {key : DraftKey} {files : String → Option Bytes} {d : Draft} {phase later : Phase} {config : Config}

theorem Known.put (known : Known key files d phase config) {pid : Nat} {r : Request}
    {script : StartScript Job} {storage : Storage}
    (same : storage.files = files) (draft : storage.drafts key = some (later.entry d).1)
    (jobs : storage.jobsFor key = (later.entry d).2) (placed : Placed key files d later pid r script)
    (change : later = phase ∨
      (∀ job, phase ≠ .marked job) ∧ ∀ other, other ≠ pid → phase.holder ≠ some other ∧
      later.holder ≠ some other)
    (held : later.holder = some pid → Holds key (config.put pid storage (.running r script)) pid) :
    Known key files d later (config.put pid storage (.running r script)) where
  uploads := same
  draft := draft
  jobs := jobs
  procs other r' script' running := by
    by_cases own : other = pid
    · subst own
      rw [Config.put_same] at running
      cases running
      exact placed
    · rw [Config.put_other _ _ _ own] at running
      rcases change with rfl | ⟨unmarked, apart⟩
      · exact known.procs other r' script' running
      · rcases known.procs other r' script' running with unkeyed | ⟨about, stage, is, left, fits⟩
        · exact .inl unkeyed
        · exact .inr ⟨about, stage, is, left, fun same =>
            (fits same).other unmarked (apart other own).1 (apart other own).2⟩
  held other holder := by
    by_cases own : other = pid
    · subst own
      exact held holder
    · rcases change with rfl | ⟨-, apart⟩
      · obtain ⟨r', act, rest, running, between, about, d', stored, admitted⟩ := known.held other holder
        have kept : storage.drafts key = some d' := draft.trans (known.draft.symm.trans stored)
        rw [known.uploads, ← same] at admitted
        exact ⟨r', act, rest, (Config.put_other _ _ _ own).trans running, between, about, d', kept, admitted⟩
      · exact absurd holder (apart other own).2

theorem jobsFor_insert {storage : Storage} {job : Job} {fresh : job.id ∉ storage.jobs.map Job.id} :
    (storage.insert job fresh).jobsFor key = if job.draft = key then job :: storage.jobsFor key
    else storage.jobsFor key := by
  simp [Storage.jobsFor, Storage.insert, List.filter_cons]

theorem steps_apart {pid : Nat} {own : DraftKey} {r : Request} {storage next : Storage} {stage after : Stage}
    (steps : Steps pid own r storage stage after next) (apart : own ≠ key) :
    next.drafts key = storage.drafts key ∧ next.jobsFor key = storage.jobsFor key := by
  cases steps with
  | queue d params id fresh => exact ⟨rfl, jobsFor_insert.trans (if_neg apart)⟩
  | mark d jobID => exact ⟨Function.update_of_ne apart.symm _ _, rfl⟩
  | _ => exact ⟨rfl, rfl⟩

theorem steps_files {pid : Nat} {own : DraftKey} {r : Request} {storage next : Storage} {stage after : Stage}
    (steps : Steps pid own r storage stage after next) : next.files = storage.files := by
  cases steps <;> rfl

-- The rows have distinct IDs, so the job of the draft is the one with its ID.
theorem find_job {storage : Storage} {job : Job} (jobs : storage.jobsFor key = [job]) :
    storage.jobs.find? (·.id = job.id) = some job := by
  have member : job ∈ storage.jobs := (List.mem_filter.mp (jobs ▸ List.mem_singleton_self job)).1
  cases found : storage.jobs.find? (·.id = job.id) with
  | none => simpa using List.find?_eq_none.mp found job member
  | some other =>
    have same : other.id = job.id := by simpa using List.find?_some found
    rw [List.inj_on_of_nodup_map storage.primary (List.mem_of_find?_eq_some found) member same]

theorem Known.take (known : Known key files d phase config) {pid : Nat} {r : Request} {stage : Stage}
    {act : Act} {rest : Reply act → StartScript Job} (about : r.key = some key)
    (apart : ∀ other, ¬ Holds key config other)
    (admitted : r.admitted files d = true) (unmarked : ∀ job, phase ≠ .marked job)
    (fits : Fits files d (.held pid) pid r stage) (left : stage.script key r = .call act rest)
    (between : act.between = true) :
    Known key files d (.held pid) (config.put pid config.state (.running r (stage.script key r))) := by
  cases phase with
  | free =>
    refine known.put known.uploads known.draft known.jobs (.inr ⟨key, stage, about, rfl, fun _ => fits⟩) ?_ ?_
    · refine .inr ⟨unmarked, fun other own => ⟨by simp [Phase.holder], ?_⟩⟩
      simpa [Phase.holder] using own.symm
    · intro _
      refine ⟨r, act, rest, (Config.put_same ..).trans (congrArg _ left), between, about, d, known.draft, ?_⟩
      rw [Config.put_state, known.uploads]
      exact admitted
  | held other => exact absurd (known.held other rfl) (apart other)
  | queued job => exact absurd (known.held job.request rfl) (apart job.request)
  | marked job => exact absurd rfl (unmarked job)

theorem loaded_unmarked {r : Request} (unstarted : d.jobID = none) (unmarked : ∀ job, phase ≠ .marked job) :
    (phase.entry d).1 = d ∧ loaded r (some (phase.entry d).1) = begun r d := by
  have same : (phase.entry d).1 = d := by
    cases phase with
    | marked job => exact absurd rfl (unmarked job)
    | _ => rfl
  refine ⟨same, ?_⟩
  rw [same, loaded, if_neg (by simp [unstarted])]

-- A request reads the draft: it takes it, finds it started, or is refused.
theorem Known.load (known : Known key files d phase config) (unstarted : d.jobID = none) {pid : Nat}
    {r : Request}
    (about : r.key = some key) (running : config.procs pid = .running r (Stage.loading.script key r))
    (idle : phase.holder ≠ some pid) (apart : Reads key config pid → ∀ other, ¬ Holds key config other) :
    ∃ later, Known key files d later
      (config.put pid config.state (.running r ((loaded r (config.state.drafts key)).script key r))) := by
  have stays {stage : Stage} (fits : Fits files d phase pid r stage) :
      ∃ later, Known key files d later (config.put pid config.state (.running r (stage.script key r))) :=
    ⟨phase, known.put known.uploads known.draft known.jobs
      (.inr ⟨key, stage, about, rfl, fun _ => fits⟩) (.inl rfl)
      fun holder => absurd holder idle⟩
  rw [known.draft]
  by_cases started : ∃ job, phase = .marked job
  · obtain ⟨job, rfl⟩ := started
    exact stays (.refused (fun _ => rfl) idle)
  · have unmarked : ∀ job, phase ≠ .marked job := fun job same => started ⟨job, same⟩
    obtain ⟨same, begins⟩ := loaded_unmarked unstarted unmarked
    rw [begins]
    have free (admitted : r.admitted files d = true) : ∀ other, ¬ Holds key config other := by
      have stored := known.draft.trans (congrArg some same)
      rw [script_loading about] at running
      rw [← known.uploads] at admitted
      exact apart ⟨r, key, _, running, ⟨about, d, stored, admitted⟩, d, stored, unstarted⟩
    rcases begun_cases files r d with ⟨failure, is, barred⟩ | ⟨params, is, admitted⟩ | ⟨p, body, is, admitted⟩
    · rw [is]
      exact stays (.refused (fun admitted => by simp [barred] at admitted) idle)
    · rw [is]
      exact ⟨_, known.take about (free admitted) admitted unmarked (.queueing rfl) rfl rfl⟩
    · rw [is]
      cases file : files d.objectKey with
      | none =>
        rw [file] at admitted
        exact stays (.missing file admitted idle)
      | some content =>
        rw [file] at admitted
        exact ⟨_, known.take about (free admitted) admitted unmarked (.sampling (by simp [file]) rfl) rfl rfl⟩

theorem Known.admitted (known : Known key files d phase config) {pid : Nat} {r : Request}
    {script : StartScript Job}
    (holder : phase.holder = some pid) (running : config.procs pid = .running r script) :
    r.admitted files d = true := by
  obtain ⟨r', act, rest, here, -, -, d', stored, admitted⟩ := known.held pid holder
  rw [running] at here
  cases here
  have same : some d' = some d := by
    rw [← stored, known.draft]
    cases phase with
    | marked job => cases holder
    | _ => rfl
  cases same
  rwa [known.uploads] at admitted

theorem Known.own (known : Known key files d phase config) (unstarted : d.jobID = none) {pid : Nat}
    {r : Request} {stage after : Stage}
    {storage : Storage} (about : r.key = some key)
    (running : config.procs pid = .running r (stage.script key r))
    (fits : Fits files d phase pid r stage) (steps : Steps pid key r config.state stage after storage)
    (apart : Reads key config pid → ∀ other, ¬ Holds key config other) :
    ∃ later, Known key files d later (config.put pid storage (.running r (after.script key r))) := by
  have placed {later : Phase} {after : Stage} (fits : Fits files d later pid r after) :
      Placed key files d later pid r (after.script key r) := .inr ⟨key, after, about, rfl, fun _ => fits⟩
  have holds {storage : Storage} {script : StartScript Job} {act : Act} {rest : Reply act → StartScript Job}
      (holder : phase.holder = some pid) (draft : storage.drafts key = some d) (same : storage.files = files)
      (next : script = .call act rest) (between : act.between = true) :
      Holds key (config.put pid storage (.running r script)) pid := by
    refine ⟨r, act, rest, (Config.put_same ..).trans (congrArg _ next), between, about, d, draft, ?_⟩
    rw [Config.put_state, same]
    exact known.admitted holder running
  cases steps with
  | load =>
    cases fits with
    | loading idle => exact known.load unstarted about running idle apart
  | sample d' p body =>
    cases fits with
    | missing gone barred idle =>
      have none : (config.state.files d.objectKey).map readSample = none := by
        rw [known.uploads, gone, Option.map_none]
      rw [none]
      have refused : Fits files d phase pid r (.ended (.error .notFound)) :=
        .refused (fun admitted => by simp [barred] at admitted) idle
      exact ⟨phase, known.put known.uploads known.draft known.jobs (placed refused) (.inl rfl)
        fun holder => absurd holder idle⟩
    | sampling there held =>
      subst held
      obtain ⟨content, file⟩ := Option.isSome_iff_exists.mp there
      have some : (config.state.files d.objectKey).map readSample = some (readSample content) := by
        rw [known.uploads, file, Option.map_some]
      rw [some]
      exact ⟨_, known.put known.uploads known.draft known.jobs (placed (.queueing rfl)) (.inl rfl)
        fun holder => holds holder known.draft known.uploads rfl rfl⟩
  | queue d' params id fresh =>
    cases fits with
    | queueing held =>
      subst held
      let job : Job := ⟨id, params, r.subject, pid, key⟩
      have jobs : (config.state.insert job fresh).jobsFor key = [job] := by
        rw [jobsFor_insert, if_pos rfl, known.jobs]
        rfl
      refine ⟨.queued job, known.put known.uploads known.draft jobs (placed (.marking rfl rfl)) ?_
        fun _ => ?_⟩
      · refine .inr ⟨fun other => by simp, fun other own => ?_⟩
        simp [Phase.holder, job, own.symm]
      · exact holds rfl known.draft known.uploads rfl rfl
  | mark d' jobID =>
    cases fits with
    | @marking job queued own =>
      subst queued
      have draft : Function.update config.state.drafts key (some (d.mark job.id)) key =
        some (d.mark job.id) := Function.update_self ..
      refine ⟨.marked job, known.put known.uploads draft known.jobs (placed (.fetching rfl own)) ?_
        fun holder => ?_⟩
      · refine .inr ⟨fun other => by simp, fun other apart => ?_⟩
        simp [Phase.holder, own, apart.symm]
      · cases holder
  | fetch jobID =>
    cases fits with
    | @fetching job marked own =>
      subst marked
      rw [find_job known.jobs]
      exact ⟨_, known.put known.uploads known.draft known.jobs (placed (.done rfl own)) (.inl rfl)
        fun holder => by cases holder⟩

theorem Known.step (known : Known key files d phase config) (unstarted : d.jobID = none) {next : Config}
    {move : Move Request Uuid}
    (apart : Apart key config move) (taken : machine.step start config move = some next) :
    ∃ later, Known key files d later next := by
  cases move with
  | spawn pid r =>
    simp only [Machine.step] at taken
    split at taken
    · next idle =>
      cases taken
      have unheld : phase.holder ≠ some pid := by
        intro holder
        obtain ⟨r', act, rest, running, -⟩ := known.held pid holder
        rw [idle] at running
        cases running
      refine ⟨phase, known.put known.uploads known.draft known.jobs ?_ (.inl rfl)
        fun holder => absurd holder unheld⟩
      cases about : r.key with
      | none => exact .inl ⟨about, start_unkeyed about⟩
      | some own => exact .inr ⟨own, .loading, about, rfl, fun _ => .loading unheld⟩
    · cases taken
  | act pid id =>
    simp only [Machine.step] at taken
    split at taken
    · next r act rest running =>
      split at taken
      · next reply storage answered =>
        cases taken
        rcases known.procs pid r _ running with ⟨-, failure, is⟩ | ⟨own, stage, about, is, fits⟩
        · cases is
        · obtain ⟨after, left, steps⟩ := steps_of_answer about is.symm answered
          rw [left]
          by_cases same : own = key
          · subst same
            rw [is] at running
            exact known.own unstarted about running (fits rfl) steps apart
          · obtain ⟨draft, jobs⟩ := steps_apart steps same
            refine ⟨phase, known.put ((steps_files steps).trans known.uploads) (draft.trans known.draft)
              (jobs.trans known.jobs)
              (.inr ⟨own, after, about, rfl, fun equal => absurd equal same⟩) (.inl rfl) fun holder => ?_⟩
            obtain ⟨r', act', rest', here, -, about', -⟩ := known.held pid holder
            rw [running] at here
            cases here
            exact absurd (Option.some.inj (about.symm.trans about')) same
      · cases taken
    · cases taken
  | disturb pid id => cases taken
  | crash pid => exact apart.elim

theorem Known.jobs_le (known : Known key files d phase config) : (config.state.jobsFor key).length ≤ 1 := by
  rw [known.jobs]
  cases phase <;> simp [Phase.entry]

theorem Known.ended (known : Known key files d phase config) {pid : Nat} {r : Request}
    {result : Except Failure Job} (ended : config.Ended pid r result) (about : r.key = some key) :
    (∃ job, result = .ok job ∧ job.request = pid ∧ config.state.jobsFor key = [job]) ∨
      result = .error .conflict ∨
      (r.admitted files d = false ∧ ∃ failure, result = .error failure) := by
  have placed : ∃ stage, Fits files d phase pid r stage ∧
      stage.script key r = (Stage.ended result).script key r := by
    have running : config.procs pid = .running r ((Stage.ended result).script key r) := by
      cases result with
      | ok job => exact ended
      | error failure => exact ended
    rcases known.procs pid r _ running with ⟨unkeyed, -⟩ | ⟨own, stage, own', is, fits⟩
    · rw [about] at unkeyed
      cases unkeyed
    · cases own'.symm.trans about
      exact ⟨stage, fits rfl, is.symm⟩
  obtain ⟨stage, fits, is⟩ := placed
  cases fits with
  | loading =>
    rw [script_loading about] at is
    cases result <;> cases is
  | missing =>
    rw [script_sampling] at is
    cases result <;> cases is
  | sampling =>
    rw [script_sampling] at is
    cases result <;> cases is
  | queueing => cases result <;> cases is
  | marking => cases result <;> cases is
  | fetching => cases result <;> cases is
  | @done job marked own =>
    cases result with
    | error failure => cases is
    | ok other =>
      cases is
      subst marked
      exact .inl ⟨_, rfl, own, known.jobs⟩
  | @refused other reason idle =>
    cases result with
    | ok job => cases is
    | error failure =>
      cases is
      cases admitted : r.admitted files d with
      | true => exact .inr (.inl (by rw [reason admitted]))
      | false => exact .inr (.inr ⟨rfl, _, rfl⟩)

end Known

/-- In every run in which no request reads the draft while another one holds it, one job is queued for
it at most, by the request that is answered with it; the other requests that would start it get 409. -/
theorem started_once (first : Storage) (key : DraftKey) (d : Draft) (last : Config)
    (stored : first.drafts key = some d)
    (unstarted : d.jobID = none) (fresh : first.jobsFor key = [])
    (run : machine.Within start (Apart key) (.start first) last) :
    (last.state.jobsFor key).length ≤ 1 ∧
        ∀ pid r result, last.Ended pid r result → r.key = some key →
        (∃ job, result = .ok job ∧ job.request = pid ∧ last.state.jobsFor key = [job]) ∨
          result = .error .conflict ∨
          (r.admitted first.files d = false ∧ ∃ failure, result = .error failure) := by
  have initial : Known key first.files d .free (.start first) := {
    uploads := rfl
    draft := stored
    jobs := fresh
    procs := fun pid r script running => by cases running
    held := fun pid holder => by cases holder }
  have known : ∃ phase, Known key first.files d phase last := by
    induction run with
    | refl => exact ⟨.free, initial⟩
    | move move _ apart taken before =>
      obtain ⟨phase, known⟩ := before
      exact known.step unstarted apart taken
  obtain ⟨phase, known⟩ := known
  exact ⟨known.jobs_le, fun pid r result ended about => known.ended ended about⟩

/-! ## Two requests at a time -/

def uploaded : Draft where
  objectKey := "uploads/people.csv"
  filename := "people.csv"
  createdBy := "editor"
  createdAt := 0
  jobID := none

def drafted : Storage where
  drafts key := if key = ⟨1, 2⟩ then some uploaded else none
  files _ := some (utf8 "email\na@example.com\n")
  jobs := []
  primary := List.nodup_nil

def click : Request where
  tid := some 1
  id := some 2
  subject := "editor"
  body := .ok {
    hasHeader := none
    mapping := ⟨[("email", "3")], List.nodup_singleton _⟩
    keyID := "3"
    mode := "create"
    target := "contacts"
    delimiter := ","
    encoding := "utf-8" }

def Steady (_ : Config) : Move Request Uuid → Prop
  | .crash _ => False
  | _ => True

def steady (_ : Config) : Move Request Uuid → Bool
  | .crash _ => false
  | _ => true

/-- Both requests read the draft before either of them marks it. -/
def doubleClick : List (Move Request Uuid) :=
  [.spawn 0 click, .spawn 1 click, .act 0 0, .act 1 0, .act 0 7, .act 1 8, .act 0 0,
    .act 1 0, .act 0 0, .act 1 0]

theorem steady_of_check (config : Config) (move : Move Request Uuid) (check : steady config move = true) :
    Steady config move := by
  cases move with
  | crash pid => cases check
  | _ => trivial

theorem started_twice :
    ¬ ∀ (first : Storage) (key : DraftKey) (d : Draft) (last : Config),
        first.drafts key = some d → d.jobID = none →
        first.jobsFor key = [] → machine.Within start Steady (.start first) last →
        (last.state.jobsFor key).length ≤ 1 := by
  intro once
  have run : ∃ last, machine.admitted start steady doubleClick (.start drafted) = some last ∧
      (last.state.jobsFor ⟨1, 2⟩).length = 2 := ⟨_, rfl, rfl⟩
  obtain ⟨last, moved, two⟩ := run
  have few := once drafted ⟨1, 2⟩ uploaded last rfl rfl rfl
    (Machine.within_admitted machine start steady_of_check .refl _ moved)
  omega

/-- The move reads nothing, or a draft that is started. -/
def apart (key : DraftKey) (config : Config) : Move Request Uuid → Bool
  | .act pid _ =>
      (match (config.procs pid).next with
        | some (.getDraft _) => false
        | _ => true) || (config.state.drafts key).all fun d => d.jobID.isSome
  | .crash _ => false
  | _ => true

theorem apart_of_check {key : DraftKey} (config : Config) (move : Move Request Uuid)
    (check : apart key config move = true) :
    Apart key config move := by
  cases move with
  | crash pid => cases check
  | spawn pid r => trivial
  | disturb pid id => trivial
  | act pid id =>
    rintro ⟨r, found, rest, running, -, d, stored, unstarted⟩
    simp [apart, running, Status.next, stored, unstarted] at check

theorem apart_first {key : DraftKey} {storage : Storage} {r : Request} {move : Move Request Uuid}
    {found : DraftKey}
    {rest : Option Draft → StartScript Job} (reads : start r = .call (.getDraft found) rest)
    (acts : move = .act 0 0) :
    Apart key ((Config.start storage : Config).put 0 storage (.running r (start r))) move := by
  subst acts
  rintro - other ⟨r', act, rest', running, between, -⟩
  by_cases same : other = 0
  · subst same
    rw [Config.put_same, reads] at running
    cases running
    cases between
  · rw [Config.put_other _ _ _ same] at running
    cases running

/-- The second request comes when the first is done, and gets 409. -/
theorem started_once_again :
    ∃ last : Config, last.procs 1 = .running click (.fail .conflict) ∧
      ((last.state.jobsFor ⟨1, 2⟩).length ≤ 1 ∧
          ∀ pid r result, last.Ended pid r result → r.key = some ⟨1, 2⟩ →
          (∃ job, result = .ok job ∧ job.request = pid ∧ last.state.jobsFor ⟨1, 2⟩ = [job]) ∨
            result = .error .conflict ∨
            (r.admitted drafted.files uploaded = false ∧ ∃ failure, result = .error failure)) := by
  have spawned : machine.Within start (Apart ⟨1, 2⟩) (.start drafted)
      ((Config.start drafted : Config).put 0 drafted (.running click (start click))) :=
        .move (.spawn 0 click) .refl trivial rfl
  have run : ∃ middle last,
      machine.step start ((Config.start drafted : Config).put 0 drafted (.running click (start click)))
        (.act 0 0) = some middle ∧
      machine.admitted start (apart ⟨1, 2⟩) [.act 0 7, .act 0 0, .act 0 0, .spawn 1 click,
        .act 1 0] middle = some last ∧
      last.procs 1 = .running click (.fail .conflict) := ⟨_, _, rfl, rfl, rfl⟩
  obtain ⟨middle, last, first, rest, refused⟩ := run
  have within := Machine.within_admitted machine start apart_of_check
    (spawned.move _ (apart_first (script_loading rfl) rfl) first) _ rest
  exact ⟨last, refused, started_once drafted ⟨1, 2⟩ uploaded last rfl rfl rfl within⟩

end OpenEmarsys.Drafts
