import OpenEmarsys.Fields.Registry

/-! Cached definitions are as new as the last change that has returned.

A load that started before a commit may be cached, and may read before it. What a change that
returns knows is that whatever is cached from then on was put there after its commit.
-/

set_option autoImplicit false

namespace OpenEmarsys.Fields

open Interleaving

variable {T D : Type}

/-- The definitions are those after that commit of the tenant, or after a later one. -/
def State.Since (state : State T D) (tenant : T) (commit : Nat) (definitions : D) : Prop :=
  ∃ version, commit ≤ version ∧ version ≤ state.version tenant ∧
    definitions = state.definitions tenant version

def Recent (state : State T D) (commit : Nat) (load : Load T D) : Prop :=
  match load.phase with
  | .started => commit ≤ state.version load.tenant
  | .read definitions => state.Since load.tenant commit definitions
  | .fulfilled definitions => state.Since load.tenant commit definitions
  | .rejected => True
  | .handled => True

/-- The promise is of that tenant, and gives nothing older than the commit. -/
def Promised (tenant : T) (commit promise : Nat) (state : State T D) : Prop :=
  ∃ load, state.loads[promise]? = some load ∧ load.tenant = tenant ∧ Recent state commit load

/-- So are all that are served from now on. -/
structure Fresh (tenant : T) (commit : Nat) (state : State T D) : Prop where
  committed : commit ≤ state.version tenant
  cached : ∀ promise, state.cache tenant = some promise → Promised tenant commit promise state

/-- An entry is a load of its tenant whose failure, if it failed, has not been handled. -/
def Placed (state : State T D) : Prop :=
  ∀ tenant promise, state.cache tenant = some promise →
    ∃ load, state.loads[promise]? = some load ∧ load.tenant = tenant ∧ load.phase ≠ .handled

/-- The failure has been handled, and the promise is not cached. -/
def Gone (promise : Nat) (state : State T D) : Prop :=
  (∃ load, state.loads[promise]? = some load ∧ load.phase = .handled) ∧
    ∀ tenant, state.cache tenant ≠ some promise

/-- What no move takes away: commits are kept, a load stays as recent as it was, and what is newly cached
is newly loaded. -/
structure Later (state next : State T D) : Prop where
  versions : ∀ tenant, state.version tenant ≤ next.version tenant
  kept : ∀ tenant version, version ≤ state.version tenant →
    next.definitions tenant version = state.definitions tenant version
  loads : ∀ (promise : Nat) (load : Load T D), state.loads[promise]? = some load →
      ∃ now : Load T D, next.loads[promise]? = some now ∧ now.tenant = load.tenant ∧
        (∀ commit, Recent state commit load → Recent next commit now) ∧
        (load.phase = .handled → now.phase = .handled)
  count : state.loads.length ≤ next.loads.length
  cached : ∀ tenant promise, next.cache tenant = some promise →
      state.cache tenant = some promise ∨
      state.loads.length ≤ promise ∧ Promised tenant (state.version tenant) promise next
  placed : Placed state → Placed next

theorem State.Since.mono {state : State T D} {tenant : T} {commit earlier : Nat} {definitions : D}
    (since : state.Since tenant commit definitions) (before : earlier ≤ commit) :
    state.Since tenant earlier definitions := by
  obtain ⟨version, after, there, same⟩ := since
  exact ⟨version, Nat.le_trans before after, there, same⟩

theorem Recent.mono {state : State T D} {commit earlier : Nat} {load : Load T D}
    (recent : Recent state commit load)
    (before : earlier ≤ commit) : Recent state earlier load := by
  obtain ⟨tenant, phase⟩ := load
  cases phase with
  | started => exact Nat.le_trans before recent
  | read definitions => exact State.Since.mono recent before
  | fulfilled definitions => exact State.Since.mono recent before
  | rejected => trivial
  | handled => trivial

theorem Recent.commits {state next : State T D}
    (versions : ∀ tenant, state.version tenant ≤ next.version tenant)
    (kept : ∀ tenant version, version ≤ state.version tenant →
      next.definitions tenant version = state.definitions tenant version)
    {commit : Nat} {load : Load T D} (recent : Recent state commit load) : Recent next commit load := by
  have since {definitions : D} (old : state.Since load.tenant commit definitions) :
      next.Since load.tenant commit definitions := by
    obtain ⟨version, after, there, same⟩ := old
    exact ⟨version, after, Nat.le_trans there (versions _), same.trans (kept _ _ there).symm⟩
  obtain ⟨tenant, phase⟩ := load
  cases phase with
  | started => exact Nat.le_trans recent (versions tenant)
  | read definitions => exact since recent
  | fulfilled definitions => exact since recent
  | rejected => trivial
  | handled => trivial

theorem Later.refl (state : State T D) : Later state state where
  versions _ := Nat.le_refl _
  kept _ _ _ := rfl
  loads _ load here := ⟨load, here, rfl, fun _ recent => recent, id⟩
  count := Nat.le_refl _
  cached _ _ here := .inl here
  placed := id

theorem Later.promised {state next : State T D} (later : Later state next) {tenant : T} {commit promise : Nat}
    (promised : Promised tenant commit promise state) : Promised tenant commit promise next := by
  obtain ⟨load, here, same, recent⟩ := promised
  obtain ⟨now, there, still, kept, _⟩ := later.loads promise load here
  exact ⟨now, there, still.trans same, kept commit recent⟩

theorem Promised.mono {state : State T D} {tenant : T} {commit earlier promise : Nat}
    (promised : Promised tenant commit promise state) (before : earlier ≤ commit) :
    Promised tenant earlier promise state := by
  obtain ⟨load, here, same, recent⟩ := promised
  exact ⟨load, here, same, recent.mono before⟩

theorem Later.trans {first second third : State T D} (before : Later first second)
    (after : Later second third) :
    Later first third where
  versions tenant := Nat.le_trans (before.versions tenant) (after.versions tenant)
  kept tenant version there :=
    (after.kept tenant version (Nat.le_trans there (before.versions tenant))).trans
      (before.kept tenant version there)
  loads promise load here := by
    obtain ⟨middle, there, same, recent, handled⟩ := before.loads promise load here
    obtain ⟨now, last, still, recent', handled'⟩ := after.loads promise middle there
    exact ⟨now, last, still.trans same, fun commit old => recent' commit (recent commit old),
      fun old => handled' (handled old)⟩
  count := Nat.le_trans before.count after.count
  cached tenant promise here := by
    rcases after.cached tenant promise here with old | ⟨new, promised⟩
    · rcases before.cached tenant promise old with older | ⟨new, promised⟩
      · exact .inl older
      · exact .inr ⟨new, after.promised promised⟩
    · exact .inr ⟨Nat.le_trans before.count new, promised.mono (before.versions tenant)⟩
  placed was := after.placed (before.placed was)

theorem Later.fresh {state next : State T D} (later : Later state next) {tenant : T} {commit : Nat}
    (fresh : Fresh tenant commit state) : Fresh tenant commit next where
  committed := Nat.le_trans fresh.committed (later.versions tenant)
  cached promise here := by
    rcases later.cached tenant promise here with old | ⟨_, promised⟩
    · exact later.promised (fresh.cached promise old)
    · exact promised.mono fresh.committed

theorem Later.gone {state next : State T D} (later : Later state next) {promise : Nat}
    (gone : Gone promise state) :
    Gone promise next := by
  obtain ⟨⟨load, here, handled⟩, uncached⟩ := gone
  obtain ⟨now, there, _, _, still⟩ := later.loads promise load here
  refine ⟨⟨now, there, still handled⟩, fun tenant cached => ?_⟩
  rcases later.cached tenant promise cached with old | ⟨new, _⟩
  · exact uncached tenant old
  · exact absurd (List.getElem?_eq_some_iff.mp here).1 (Nat.not_lt.mpr new)

theorem gone_of_handled {state : State T D} (placed : Placed state) {promise : Nat} {load : Load T D}
    (here : state.loads[promise]? = some load) (handled : load.phase = .handled) : Gone promise state := by
  refine ⟨⟨load, here, handled⟩, fun tenant cached => ?_⟩
  obtain ⟨other, there, _, unhandled⟩ := placed tenant promise cached
  rw [here] at there
  cases there
  exact unhandled handled

variable [DecidableEq T]

theorem later_delete (state : State T D) (tenant : T) : Later state (state.delete tenant) where
  versions _ := Nat.le_refl _
  kept _ _ _ := rfl
  loads _ load here :=
    ⟨load, here, rfl, fun _ recent => recent.commits (fun _ => Nat.le_refl _) fun _ _ _ => rfl, id⟩
  count := Nat.le_refl _
  cached other promise here := by
    by_cases same : other = tenant
    · subst same
      simp [State.delete] at here
    · exact .inl (by simpa [State.delete, same] using here)
  placed placed other promise here := by
    by_cases same : other = tenant
    · subst same
      simp [State.delete] at here
    · exact placed other promise (by simpa [State.delete, same] using here)

theorem later_commit (state : State T D) (tenant : T) (definitions : D) :
    Later state (state.commit tenant definitions) := by
  have versions (other : T) : state.version other ≤ (state.commit tenant definitions).version other := by
    by_cases same : other = tenant
    · subst same
      simp [State.commit]
    · simp [State.commit, same]
  have kept (other : T) (version : Nat) (there : version ≤ state.version other) :
      (state.commit tenant definitions).definitions other version = state.definitions other version := by
    apply if_neg
    rintro ⟨same, new⟩
    subst same
    omega
  exact { versions, kept, count := Nat.le_refl _, cached := fun _ _ here => .inl here, placed := id
          loads := fun _ load here => ⟨load, here, rfl, fun _ recent => recent.commits versions kept, id⟩ }

theorem later_start (state : State T D) (tenant : T) (missing : state.cache tenant = none) :
    Later state (state.start tenant) := by
  have old {promise : Nat} {load : Load T D} (here : state.loads[promise]? = some load) :
      (state.start tenant).loads[promise]? = some load := by
    have small := (List.getElem?_eq_some_iff.mp here).1
    exact (List.getElem?_append_left small).trans here
  have new : (state.start tenant).loads[state.loads.length]? = some ⟨tenant, .started⟩ := by
    simp [State.start]
  have entry {other : T} {promise : Nat} (here : (state.start tenant).cache other = some promise) :
      state.cache other = some promise ∨ other = tenant ∧ promise = state.loads.length := by
    by_cases same : other = tenant
    · subst same
      exact .inr ⟨rfl, by simpa [State.start, eq_comm] using here⟩
    · exact .inl (by simpa [State.start, same] using here)
  constructor
  · exact fun _ => Nat.le_refl _
  · exact fun _ _ _ => rfl
  · exact fun promise load here =>
      ⟨load, old here, rfl, fun _ recent => recent.commits (fun _ => Nat.le_refl _) fun _ _ _ => rfl, id⟩
  · simp [State.start]
  · intro other promise here
    rcases entry here with here | ⟨rfl, rfl⟩
    · exact .inl here
    · exact .inr ⟨Nat.le_refl _, _, new, rfl, Nat.le_refl (state.version other)⟩
  · intro placed other promise here
    rcases entry here with here | ⟨rfl, rfl⟩
    · obtain ⟨load, there, same, unhandled⟩ := placed other promise here
      exact ⟨load, old there, same, unhandled⟩
    · exact ⟨_, new, rfl, fun handled => by cases handled⟩

section Advance
variable {state : State T D} {promise : Nat} {tenant : T} {before phase : Phase D}

omit [DecidableEq T]

theorem advance_here (here : state.loads[promise]? = some ⟨tenant, before⟩) :
    (state.advance promise tenant phase).loads[promise]? = some ⟨tenant, phase⟩ := by
  have small := (List.getElem?_eq_some_iff.mp here).1
  exact List.getElem?_set_self small

theorem advance_other {other : Nat} (differs : other ≠ promise) :
    (state.advance promise tenant phase).loads[other]? = state.loads[other]? :=
  List.getElem?_set_ne (Ne.symm differs)

theorem advance_loads (here : state.loads[promise]? = some ⟨tenant, before⟩) (unhandled : before ≠ .handled)
    (recent : ∀ commit, Recent state commit ⟨tenant, before⟩ → Recent state commit ⟨tenant, phase⟩)
    (other : Nat) (load : Load T D) (there : state.loads[other]? = some load) :
    ∃ now, (state.advance promise tenant phase).loads[other]? = some now ∧ now.tenant = load.tenant ∧
      (∀ commit, Recent state commit load → Recent state commit now) ∧
      (load.phase = .handled → now.phase = .handled) := by
  by_cases same : other = promise
  · subst same
    rw [here] at there
    cases there
    exact ⟨_, advance_here here, rfl, recent, fun handled => absurd handled unhandled⟩
  · exact ⟨load, (advance_other same).trans there, rfl, fun _ recent => recent, id⟩

theorem later_advance (here : state.loads[promise]? = some ⟨tenant, before⟩) (unhandled : before ≠ .handled)
    (next_unhandled : phase ≠ .handled)
    (recent : ∀ commit, Recent state commit ⟨tenant, before⟩ → Recent state commit ⟨tenant, phase⟩) :
    Later state (state.advance promise tenant phase) where
  versions _ := Nat.le_refl _
  kept _ _ _ := rfl
  loads other load there := by
    obtain ⟨now, found, same, kept, still⟩ := advance_loads here unhandled recent other load there
    exact ⟨now, found, same, fun commit old => (kept commit old).commits (fun _ => Nat.le_refl _)
      fun _ _ _ => rfl, still⟩
  count := by simp [State.advance]
  cached _ _ there := .inl there
  placed placed other entry cached := by
    obtain ⟨load, there, same, open_⟩ := placed other entry cached
    by_cases equal : entry = promise
    · subst equal
      rw [here] at there
      cases there
      exact ⟨_, advance_here here, same, next_unhandled⟩
    · exact ⟨load, (advance_other equal).trans there, same, open_⟩

end Advance

-- Handling a failure drops the entry of its tenant, and no other tenant has that promise.
theorem later_handle {state : State T D} {promise : Nat} {tenant : T}
    (here : state.loads[promise]? = some ⟨tenant, .rejected⟩) :
    Later state ((state.advance promise tenant .handled).delete tenant) where
  versions _ := Nat.le_refl _
  kept _ _ _ := rfl
  loads other load there := by
    have recent (commit : Nat) (_ : Recent state commit ⟨tenant, .rejected⟩) :
      Recent state commit ⟨tenant, .handled⟩ := trivial
    obtain ⟨now, found, same, kept, still⟩ := advance_loads here (by simp) recent other load there
    exact ⟨now, found, same, fun commit old => (kept commit old).commits (fun _ => Nat.le_refl _)
      fun _ _ _ => rfl, still⟩
  count := by simp [State.advance, State.delete]
  cached other entry there := by
    by_cases same : other = tenant
    · subst same
      simp [State.delete] at there
    · exact .inl (by simpa [State.delete, State.advance, same] using there)
  placed placed other entry cached := by
    by_cases same : other = tenant
    · subst same
      simp [State.delete] at cached
    · obtain ⟨load, there, tenants, open_⟩ :=
        placed other entry (by simpa [State.delete, State.advance, same] using cached)
      have differs : entry ≠ promise := by
        intro equal
        subst equal
        rw [here] at there
        cases there
        exact same tenants.symm
      exact ⟨load, (advance_other differs).trans there, tenants, open_⟩

theorem later_progress {state next : State T D} {choice : Choice D}
    (taken : progress state choice = some next) :
    Later state next := by
  cases choice with
  | read promise =>
    simp only [progress] at taken
    split at taken
    · next tenant here =>
      cases taken
      refine later_advance here (by simp) (by simp) fun commit recent => ?_
      exact ⟨state.version tenant, recent, Nat.le_refl _, rfl⟩
    · cases taken
  | fail promise =>
    simp only [progress] at taken
    split at taken
    · next tenant here =>
      cases taken
      exact later_advance here (by simp) (by simp) fun _ _ => trivial
    · next tenant definitions here =>
      cases taken
      exact later_advance here (by simp) (by simp) fun _ _ => trivial
    · cases taken
  | fulfil promise =>
    simp only [progress] at taken
    split at taken
    · next tenant definitions here =>
      cases taken
      exact later_advance here (by simp) (by simp) fun _ recent => recent
    · cases taken
  | handle promise =>
    simp only [progress] at taken
    split at taken
    · next tenant here =>
      cases taken
      exact later_handle here
    · cases taken
  | plain | allow | refuse | commit definitions | lose definitions | abort => cases taken

theorem later_answer {state next : State T D} {act : Act T} {choice : Choice D} {reply : Reply T D act}
    (taken : answer state act choice = some (reply, next)) : Later state next := by
  cases act with
  | hit tenant =>
    simp only [answer] at taken
    split at taken
    · cases taken
      exact .refl state
    · next missing =>
      cases taken
      exact later_start state tenant missing
  | settled promise =>
    simp only [answer] at taken
    split at taken <;> cases taken
    all_goals exact .refl state
  | findFirst tenant =>
    cases choice with
    | allow | refuse =>
      cases taken
      exact .refl state
    | _ => cases taken
  | transaction tenant =>
    cases choice with
    | commit definitions | lose definitions =>
      cases taken
      exact later_commit state tenant definitions
    | abort =>
      cases taken
      exact .refl state
    | _ => cases taken
  | invalidate tenant =>
    cases choice <;> cases taken
    all_goals exact later_delete state tenant

theorem later_act {pid : Nat} {state next : State T D} {act : Act T} {choice : Choice D}
    {reply : Reply T D act} (taken : (machine T D).act pid act choice state = some (reply, next)) :
    Later state next := later_answer taken

abbrev rules (T D : Type) : Rules (Call T) (Act T) (State T D) := {}

section Discipline
variable {idle : State T D → Prop} (kept : ∀ state next, Later state next → idle state → idle next)
include kept

theorem registry_discipline : Discipline (machine T D) (rules T D) (fun _ => Later) Placed fun _ => idle where
  refl _ := .refl
  trans := .trans
  inv placed later := later.placed placed
  idle _ holds later := kept _ _ later holds
  disturb _ _ taken _ := later_progress taken
  crash _ _ _ _ := .refl _

omit [DecidableEq T] in
theorem stable_of_kept {pid : Nat} : Stable (fun _ => Later) Placed pid idle :=
  fun state next _ holds later => kept state next later holds

end Discipline

theorem plain_discipline (T D : Type) [DecidableEq T] :
    Discipline (machine T D) (rules T D) (fun _ => Later) Placed fun _ _ => True :=
  registry_discipline fun _ _ _ _ => trivial

/-! ## What calls establish -/

abbrev Establishes (pid : Nat) (pre : State T D → Prop) (script : FieldScript T D (Answer D))
    (post : Except Failure (Answer D) → State T D → Prop) : Prop :=
  Triple (machine T D) (rules T D) (fun _ => Later) Placed pid pre script post

omit [DecidableEq T] in
theorem Later.since {state next : State T D} (later : Later state next) {tenant : T} {commit : Nat}
    {definitions : D}
    (old : state.Since tenant commit definitions) : next.Since tenant commit definitions := by
  obtain ⟨version, after, there, same⟩ := old
  exact ⟨version, after, Nat.le_trans there (later.versions _), same.trans (later.kept _ _ there).symm⟩

section Ends
variable {pid : Nat} {pre : State T D → Prop} {post : Except Failure (Answer D) → State T D → Prop}
  (lasts : ∀ result state next, Later state next → post result state → post result next)
include lasts

theorem establishes_ret {value : Answer D} (holds : ∀ state, pre state → post (.ok value) state) :
    Establishes pid pre (.ret value) post :=
  Triple.ret_of (plain_discipline T D) (stable_of_kept (lasts (.ok value)))
    fun state _ before => holds state before

theorem establishes_fail {error : Failure} (holds : ∀ state, pre state → post (.error error) state) :
    Establishes pid pre (.fail error) post :=
  Triple.fail_of (plain_discipline T D) (stable_of_kept (lasts (.error error)))
    fun state _ before => holds state before

end Ends

-- An awaited act takes the process from what it knows to what it knows with the reply.
theorem establishes_call {pid : Nat} {pre : State T D → Prop}
    {post : Except Failure (Answer D) → State T D → Prop} {act : Act T}
    {rest : Reply T D act → FieldScript T D (Answer D)} (next : Reply T D act → State T D → Prop)
    (lasts : ∀ state later, Later state later → pre state → pre later)
    (step : ∀ state, pre state → ∀ choice reply after, answer state act choice = some (reply, after) →
      next reply after)
    (continue_ : ∀ reply, Establishes pid (next reply) (rest reply) post) :
    Establishes pid pre (.call act rest) post := by
  have discipline := plain_discipline T D
  refine Triple.call discipline next (stable_of_kept lasts) ?_ continue_
  intro state _ holds _ choice reply after taken
  exact ⟨fun _ _ => later_act taken, step state holds choice reply after taken⟩

/-- The definitions that a call gives are no older than the commit. -/
def Current (tenant : T) (commit : Nat) (result : Except Failure (Answer D)) (state : State T D) : Prop :=
  ∀ promise definitions, result = .ok (.served promise definitions) → state.Since tenant commit definitions

def Avoids (promise : Nat) (result : Except Failure (Answer D)) : Prop :=
  (∀ definitions, result ≠ .ok (.served promise definitions)) ∧ result ≠ .error (.load promise)

omit [DecidableEq T] in
theorem current_lasts (tenant : T) (commit : Nat) (result : Except Failure (Answer D))
    (state next : State T D) (later : Later state next) (current : Current tenant commit result state) :
    Current tenant commit result next :=
  fun promise definitions same => later.since (current promise definitions same)

theorem hit_promised {tenant : T} {commit promise : Nat} {state next : State T D} {choice : Choice D}
    (fresh : Fresh tenant commit state) (taken : answer state (.hit tenant) choice = some (promise, next)) :
    Promised tenant commit promise next := by
  simp only [answer] at taken
  split at taken
  · next there =>
    cases taken
    exact fresh.cached _ there
  · cases taken
    exact ⟨⟨tenant, .started⟩, by simp [State.start], rfl, fresh.committed⟩

theorem hit_other {tenant : T} {gone promise : Nat} {state next : State T D} {choice : Choice D}
    (absent : Gone gone state)
    (taken : answer state (.hit tenant) choice = some (promise, next)) : promise ≠ gone := by
  obtain ⟨⟨load, here, _⟩, uncached⟩ := absent
  simp only [answer] at taken
  split at taken
  · next there =>
    cases taken
    intro same
    exact uncached tenant (same ▸ there)
  · cases taken
    exact Nat.ne_of_gt (List.getElem?_eq_some_iff.mp here).1

theorem settled_since {tenant : T} {commit promise : Nat} {state next : State T D} {choice : Choice D}
    {definitions : D} (promised : Promised tenant commit promise state)
    (taken : answer state (.settled promise) choice = some (some definitions, next)) :
    next.Since tenant commit definitions := by
  obtain ⟨load, here, same, recent⟩ := promised
  obtain ⟨other, phase⟩ := load
  subst same
  simp only [answer, here] at taken
  cases phase with
  | fulfilled found =>
    cases taken
    exact recent
  | started | read found | rejected | handled => cases taken

theorem fields_current (pid : Nat) (tenant : T) (commit : Nat) :
    Establishes pid (Fresh tenant commit) (fields tenant : FieldScript T D (Answer D))
    (Current tenant commit) := by
  refine establishes_call (fun promise => Promised tenant commit promise) (fun _ _ later => later.fresh)
    (fun state fresh choice promise after taken => hit_promised fresh taken) fun promise => ?_
  refine establishes_call (fun found state => ∀ definitions, found = some definitions →
    state.Since tenant commit definitions)
    (fun _ _ later => later.promised) ?_ fun found => ?_
  · intro state promised choice found after taken definitions same
    subst same
    exact settled_since promised taken
  · cases found with
    | some definitions =>
      apply establishes_ret (current_lasts tenant commit)
      intro state since given other same
      cases same
      exact since definitions rfl
    | none =>
      apply establishes_fail (current_lasts tenant commit)
      intro state _ given other same
      cases same

theorem fields_avoids (pid : Nat) (tenant : T) (gone : Nat) :
    Establishes pid (Gone gone) (fields tenant : FieldScript T D (Answer D))
    fun result _ => Avoids gone result := by
  refine establishes_call (fun promise _ => promise ≠ gone) (fun _ _ later => later.gone)
    (fun state absent choice promise after taken => hit_other absent taken) fun promise => ?_
  refine establishes_call (fun _ _ => promise ≠ gone) (fun _ _ _ differs => differs)
    (fun state differs _ _ _ _ => differs) fun found => ?_
  cases found with
  | some definitions =>
    apply establishes_ret fun _ _ _ _ avoids => avoids
    intro state differs
    constructor
    · intro given same
      cases same
      exact differs rfl
    · intro same
      cases same
  | none =>
    apply establishes_fail fun _ _ _ _ avoids => avoids
    intro state differs
    constructor
    · intro given same
      cases same
    · intro same
      cases same
      exact differs rfl

/-- The call made that commit, whether or not it knows. -/
def Made (commit : Nat) (result : Except Failure (Answer D)) : Prop :=
  result = .ok (.changed (some commit)) ∨ result = .error (.transaction (some commit))

/-- The commits that the call made, if any, are there. -/
def Committed (tenant : T) (result : Except Failure (Answer D)) (state : State T D) : Prop :=
  ∀ commit, Made commit result → commit ≤ state.version tenant

omit [DecidableEq T] in
theorem committed_lasts (tenant : T) (result : Except Failure (Answer D)) (state next : State T D)
    (later : Later state next) (committed : Committed tenant result state) : Committed tenant result next :=
  fun commit made => Nat.le_trans (committed commit made) (later.versions tenant)

theorem transaction_commits (pid : Nat) (tenant : T) :
    Establishes pid (fun _ => True) (transaction tenant : FieldScript T D (Answer D)) (Committed tenant) := by
  refine establishes_call (fun ending state => ∀ commit, Ending.commit ending = some commit →
    commit ≤ state.version tenant)
    (fun _ _ _ _ => trivial) ?_ fun ending => ?_
  · intro state _ choice ending after taken commit same
    cases choice with
    | commit definitions | lose definitions =>
      cases taken
      cases same
      simp [State.commit]
    | abort =>
      cases taken
      cases same
    | _ => cases taken
  · obtain ⟨commit, reported⟩ := ending
    cases reported with
    | true =>
      apply establishes_ret (committed_lasts tenant)
      intro state there n made
      rcases made with same | same
      · cases same
        exact there n rfl
      · cases same
    | false =>
      apply establishes_fail (committed_lasts tenant)
      intro state there n made
      rcases made with same | same
      · cases same
      · cases same
        exact there n rfl

/-- What is served from now on is no older than the commits that the call made. -/
def Dropped (tenant : T) (result : Except Failure (Answer D)) (state : State T D) : Prop :=
  ∀ commit, Made commit result → Fresh tenant commit state

omit [DecidableEq T] in
theorem dropped_lasts (tenant : T) (result : Except Failure (Answer D)) (state next : State T D)
    (later : Later state next) (dropped : Dropped tenant result state) : Dropped tenant result next :=
  fun commit made => later.fresh (dropped commit made)

theorem invalidate_drops {tenant : T} {result : Except Failure (Answer D)} {state next : State T D}
    {choice : Choice D} {reply : Unit} (committed : Committed tenant result state)
    (taken : answer state (.invalidate tenant) choice = some (reply, next)) : Dropped tenant result next := by
  intro commit made
  cases choice <;> cases taken
  all_goals exact ⟨committed commit made, fun promise there => by simp [State.delete] at there⟩

theorem invalidating_drops (pid : Nat) (tenant : T) (row : Answer D) :
    Establishes pid (Committed tenant (.ok row)) (.call (.invalidate tenant) fun _ => .ret row)
    (Dropped tenant) := by
  refine establishes_call (fun _ => Dropped tenant (.ok row)) (committed_lasts tenant (.ok row))
    (fun state committed choice reply after taken => invalidate_drops committed taken) fun _ => ?_
  exact establishes_ret (dropped_lasts tenant) fun _ dropped => dropped

/-- Between the transaction of a change and its end. -/
def Rescued (tenant : T) : Except Failure (Answer D) → State T D → Prop
  | .ok row, state => Committed tenant (.ok row) state
  | .error error, state => Dropped tenant (.error error) state

theorem rescue_drops (pid : Nat) (tenant : T) :
    Establishes pid (fun _ => True) ((transaction tenant : FieldScript T D (Answer D)).handle fun error =>
      .call (.invalidate tenant) fun _ => .fail error) (Rescued tenant) := by
  have discipline := plain_discipline T D
  have lasts (result : Except Failure (Answer D)) (state next : State T D) (later : Later state next)
      (held : Rescued tenant result state) : Rescued tenant result next := by
    cases result with
    | ok row => exact committed_lasts tenant _ state next later held
    | error error => exact dropped_lasts tenant _ state next later held
  refine Triple.handle discipline (fun error => Committed tenant (.error error)) ?_ fun error => ?_
  · refine (transaction_commits pid tenant).weaken fun result state _ committed => ?_
    cases result with
    | ok row => exact committed
    | error error => exact committed
  · refine establishes_call (fun _ => Dropped tenant (.error error)) (committed_lasts tenant (.error error))
      (fun state committed choice reply after taken => invalidate_drops committed taken) fun _ => ?_
    exact establishes_fail lasts fun _ dropped => dropped

theorem change_drops (pid : Nat) (tenant : T) :
    Establishes pid (fun _ => True) (change tenant : FieldScript T D (Answer D)) (Dropped tenant) := by
  have discipline := plain_discipline T D
  refine Triple.bind discipline (fun row => Committed tenant (.ok row)) ?_
    fun row => invalidating_drops pid tenant row
  refine (rescue_drops pid tenant).weaken fun result state _ rescued => ?_
  cases result with
  | ok row => exact rescued
  | error error => exact rescued

/-- `remove` drops what is cached only when it returns. -/
def Removed (tenant : T) (result : Except Failure (Answer D)) (state : State T D) : Prop :=
  ∀ commit, result = .ok (.changed (some commit)) → Fresh tenant commit state

omit [DecidableEq T] in
theorem removed_lasts (tenant : T) (result : Except Failure (Answer D)) (state next : State T D)
    (later : Later state next) (removed : Removed tenant result state) : Removed tenant result next :=
  fun commit same => later.fresh (removed commit same)

theorem remove_drops (pid : Nat) (tenant : T) :
    Establishes pid (fun _ => True) (remove tenant : FieldScript T D (Answer D)) (Removed tenant) := by
  have discipline := plain_discipline T D
  have refused (error : Failure) :
      Establishes pid (fun _ => True) (.fail error : FieldScript T D (Answer D)) (Removed tenant) :=
    establishes_fail (removed_lasts tenant) fun _ _ commit same => by cases same
  refine establishes_call (fun _ _ => True) (fun _ _ _ _ => trivial) (fun _ _ _ _ _ _ => trivial)
    fun found => ?_
  cases found with
  | false => exact refused .refused
  | true =>
    change Establishes pid _ (transaction tenant >>= fun row =>
      .call (.invalidate tenant) fun _ => .ret row) _
    refine Triple.bind discipline (fun row => Committed tenant (.ok row)) ?_ fun row => ?_
    · refine (transaction_commits pid tenant).weaken fun result state _ committed => ?_
      cases result with
      | ok row => exact committed
      | error error =>
        intro commit same
        cases same
    · exact (invalidating_drops pid tenant row).weaken fun result state _ dropped commit same =>
        dropped commit (.inl same)

/-! ## Runs -/

/-- The call changed the definitions of the tenant with that commit. A removal has to return for it to
count; the others may also throw. -/
def Call.Changed (tenant : T) (commit : Nat) : Call T → Except Failure (Answer D) → Prop
  | .fields _, _ => False
  | .create other, result => other = tenant ∧ Made commit result
  | .update other, result => other = tenant ∧ Made commit result
  | .remove other, result => other = tenant ∧ result = .ok (.changed (some commit))

theorem call_changes (pid : Nat) (call : Call T) :
    Establishes pid (fun _ => True) (code call : FieldScript T D (Answer D)) fun result state =>
      ∀ tenant commit, call.Changed tenant commit result → Fresh tenant commit state := by
  cases call with
  | fields tenant =>
    refine establishes_call (fun _ _ => True) (fun _ _ _ _ => trivial) (fun _ _ _ _ _ _ => trivial)
      fun promise => ?_
    refine establishes_call (fun _ _ => True) (fun _ _ _ _ => trivial) (fun _ _ _ _ _ _ => trivial)
      fun found => ?_
    cases found with
    | some definitions =>
      exact establishes_ret (fun _ _ _ _ _ _ _ absurd_ => absurd_.elim) fun _ _ _ _ absurd_ => absurd_.elim
    | none =>
      exact establishes_fail (fun _ _ _ _ _ _ _ absurd_ => absurd_.elim) fun _ _ _ _ absurd_ => absurd_.elim
  | create tenant | update tenant =>
    refine (change_drops pid tenant).weaken fun result state _ dropped other commit changed => ?_
    obtain ⟨rfl, made⟩ := changed
    exact dropped commit made
  | remove tenant =>
    refine (remove_drops pid tenant).weaken fun result state _ removed other commit changed => ?_
    obtain ⟨rfl, same⟩ := changed
    exact removed commit same

def boot (definitions : T → D) : State T D :=
  ⟨fun _ => 0, fun tenant _ => definitions tenant, fun _ => none, []⟩

abbrev Running (T D : Type) := Config (Call T) (Act T) (Reply T D) Failure (Answer D) (State T D)

-- What asking for the definitions establishes of every run, for whoever asks once the condition holds.
theorem asked_since {idle : State T D → Prop} (kept : ∀ state next, Later state next → idle state → idle next)
    {holds : Except Failure (Answer D) → State T D → Prop} {tenant : T}
    (establishes : ∀ pid, Establishes pid idle (fields tenant : FieldScript T D (Answer D)) holds)
    {before after : Running T D} (run : (machine T D).Reaches code (rules T D) before after)
    {post : Nat → Call T → Except Failure (Answer D) → State T D → Prop}
    (sound : Discipline.Sound (machine T D) (rules T D) (fun _ => Later) Placed (fun _ _ => True) post before)
    (ready : idle before.state) {reader : Nat} (unstarted : before.procs reader = .idle)
    {result : Except Failure (Answer D)}
    (ended : after.Ended reader (.fields tenant) result) : holds result after.state := by
  have discipline : Discipline (machine T D) (rules T D) (fun _ => Later) Placed fun _ => idle :=
    registry_discipline kept
  have calls : ∀ pid call state, (rules T D).spawn pid call state → Placed state → idle state →
      Safe (machine T D) (rules T D) (fun _ => Later) pid (code call)
        (fun result later => Placed later ∧ (call = .fields tenant → holds result later)) state := by
    intro pid call state _ placed here
    by_cases asks : call = .fields tenant
    · subst asks
      exact (establishes pid state placed here).mono fun _ _ done => ⟨done.1, fun _ => done.2⟩
    · exact (call_changes pid call state placed trivial).mono
        fun _ _ done => ⟨done.1, fun same => absurd same asks⟩
  exact (discipline.since calls run sound (fun _ _ => ready) unstarted ended).2 rfl

/-- Whoever asks once a change has returned gets definitions at least as new as its commit, and whoever
asks once a failure has been handled is not given its promise. -/
theorem fields_fresh (definitions : T → D) (before after : Running T D)
    (past : (machine T D).Reaches code (rules T D) (.start (boot definitions)) before)
    (run : (machine T D).Reaches code (rules T D) before after) (reader : Nat)
    (unstarted : before.procs reader = .idle) (tenant : T) :
    (∀ pid call result commit, before.Ended pid call result → call.Changed tenant commit result →
      ∀ promise found, after.Ended reader (.fields tenant) (.ok (.served promise found)) →
      after.state.Since tenant commit found) ∧
    (∀ (promise : Nat) (load : Load T D), before.state.loads[promise]? = some load → load.phase = .handled →
      ∀ result, after.Ended reader (.fields tenant) result → Avoids promise result) := by
  have sound := (plain_discipline T D).reaches
    (fun pid call state _ placed _ => call_changes pid call state placed trivial) past
    ⟨fun _ _ cached => (by cases cached), fun _ => trivial⟩
  constructor
  · intro pid call result commit ended changed promise found served
    have fresh : Fresh tenant commit before.state := by
      have own := sound.2 pid
      cases result with
      | ok value =>
        rw [Config.Ended] at ended
        rw [ended] at own
        exact (own before.state (.refl _)).2 tenant commit changed
      | error error =>
        rw [Config.Ended] at ended
        rw [ended] at own
        exact (own before.state (.refl _)).2 tenant commit changed
    exact asked_since (fun _ _ later => later.fresh) (fun pid => fields_current pid tenant commit)
      run sound fresh unstarted
      served promise found rfl
  · intro promise load here handled result ended
    exact asked_since (fun _ _ later => later.gone) (fun pid => fields_avoids pid tenant promise) run sound
      (gone_of_handled sound.1 here handled) unstarted ended

abbrev Moves := List (Move (Call Nat) (Choice Nat))

/-- The definitions are read before the commit, and the promise is fulfilled between the commit and the
invalidation. -/
def overtaken : Moves :=
  [.spawn 1 (.fields 0), .act 1 .plain, .disturb 0 (.read 0), .spawn 0 (.update 0), .act 0 (.commit 5),
    .disturb 0 (.fulfil 0), .act 0 .plain]

def askAgain : Moves :=
  [.spawn 2 (.fields 0), .act 2 .plain, .disturb 0 (.read 1), .disturb 0 (.fulfil 1), .act 2 .plain]

theorem fields_fresh_overtaken : ∃ before after : Running Nat Nat,
      (machine Nat Nat).moves code overtaken (.start (boot fun _ => 3)) = some before ∧
      (machine Nat Nat).moves code askAgain before = some after ∧
      after.outcome 2 = some (.fields 0, .inl (.served 1 5)) ∧ after.state.Since 0 1 5 := by
  have first : ((machine Nat Nat).moves code overtaken (.start (boot fun _ => 3))).map
      (fun config => (config.outcome 0, config.isIdle 2)) =
        some (some (.update 0, .inl (.changed (some 1))), true) := by decide
  have next : ((machine Nat Nat).moves code overtaken (.start (boot fun _ => 3))).bind
      (fun config => ((machine Nat Nat).moves code askAgain config).map fun later => later.outcome 2) =
      some (some (.fields 0, .inl (.served 1 5))) := by decide
  obtain ⟨before, moved, found⟩ := Option.map_eq_some_iff.mp first
  obtain ⟨changed, unstarted⟩ := Prod.mk.inj found
  rw [moved, Option.bind_some] at next
  obtain ⟨after, more, served⟩ := Option.map_eq_some_iff.mp next
  have past := (machine Nat Nat).reaches_moves code .refl overtaken moved
  have run := (machine Nat Nat).reaches_moves code .refl askAgain more
  exact ⟨before, after, moved, more, served,
    (fields_fresh (fun _ => 3) before after past run 2 (idle_of_isIdle unstarted) 0).1
    0 (.update 0) _ 1 (ended_of_outcome changed) ⟨rfl, .inl rfl⟩ 1 5 (ended_of_outcome served)⟩

end OpenEmarsys.Fields
