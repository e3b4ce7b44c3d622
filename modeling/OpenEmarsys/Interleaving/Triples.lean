import OpenEmarsys.Interleaving.Runs

/-! Triples: what a script assumes and establishes while others interfere.

A triple holds from every state of the invariant that meets its precondition. The
conditions between two calls have to be stable: moves within the rely keep them.
-/

set_option autoImplicit false

namespace OpenEmarsys.Interleaving

variable {Call Act : Type} {Reply : Act → Type} {ε α β Choice State : Type}

section
variable (machine : Machine Act Reply Choice State) (rules : Rules Call Act State)
  (Rely : Nat → State → State → Prop) (Inv : State → Prop) (pid : Nat)

def Stable (holds : State → Prop) : Prop :=
  ∀ state next, Inv state → holds state → Rely pid state next → holds next

def Triple (pre : State → Prop) (script : Script Act Reply ε α) (post : Except ε α → State → Prop) : Prop :=
  ∀ state, Inv state → pre state →
    Safe machine rules Rely pid script (fun result later => Inv later ∧ post result later) state

end

variable {machine : Machine Act Reply Choice State} {rules : Rules Call Act State}
  {Rely : Nat → State → State → Prop} {Inv : State → Prop} {Idle : Nat → State → Prop} {pid : Nat}

namespace Stable

theorem true_ : Stable Rely Inv pid fun _ => True := fun _ _ _ _ _ => trivial

theorem const (fact : Prop) : Stable Rely Inv pid fun _ => fact := fun _ _ _ holds _ => holds

theorem and {left right : State → Prop} (first : Stable Rely Inv pid left)
    (second : Stable Rely Inv pid right) :
    Stable Rely Inv pid fun state => left state ∧ right state :=
  fun state next inv holds moved => ⟨first state next inv holds.1 moved, second state next inv holds.2 moved⟩

theorem all {ι : Sort*} {family : ι → State → Prop} (each : ∀ i, Stable Rely Inv pid (family i)) :
    Stable Rely Inv pid fun state => ∀ i, family i state :=
  fun state next inv holds moved i => each i state next inv (holds i) moved

theorem exists_ {ι : Sort*} {family : ι → State → Prop} (each : ∀ i, Stable Rely Inv pid (family i)) :
    Stable Rely Inv pid fun state => ∃ i, family i state :=
  fun state next inv ⟨i, holds⟩ moved => ⟨i, each i state next inv holds moved⟩

end Stable

namespace Triple

variable {pre : State → Prop} {script : Script Act Reply ε α} {post : Except ε α → State → Prop}

theorem conseq {stronger : State → Prop} {weaker : Except ε α → State → Prop}
    (triple : Triple machine rules Rely Inv pid pre script post)
    (before : ∀ state, Inv state → stronger state → pre state)
    (after : ∀ result state, Inv state → post result state → weaker result state) :
    Triple machine rules Rely Inv pid stronger script weaker :=
  fun state inv holds => (triple state inv (before state inv holds)).mono
    fun result later done => ⟨done.1, after result later done.1 done.2⟩

theorem strengthen {stronger : State → Prop} (triple : Triple machine rules Rely Inv pid pre script post)
    (before : ∀ state, Inv state → stronger state → pre state) :
    Triple machine rules Rely Inv pid stronger script post :=
  triple.conseq before fun _ _ _ done => done

theorem weaken {weaker : Except ε α → State → Prop}
    (triple : Triple machine rules Rely Inv pid pre script post)
    (after : ∀ result state, Inv state → post result state → weaker result state) :
    Triple machine rules Rely Inv pid pre script weaker :=
  triple.conseq (fun _ _ holds => holds) after

theorem exists_ {ι : Sort*} {family : ι → State → Prop}
    (each : ∀ i, Triple machine rules Rely Inv pid (family i) script post) :
    Triple machine rules Rely Inv pid (fun state => ∃ i, family i state) script post :=
  fun state inv ⟨i, holds⟩ => each i state inv holds

theorem fact {given : Prop} (triple : given → Triple machine rules Rely Inv pid pre script post) :
    Triple machine rules Rely Inv pid (fun state => given ∧ pre state) script post :=
  fun state inv ⟨known, holds⟩ => triple known state inv holds

theorem frame (fact : State → Prop) (kept : ∀ pid state next, Rely pid state next → fact state → fact next)
    (triple : Triple machine rules Rely Inv pid pre script post) :
    Triple machine rules Rely Inv pid (fun state => pre state ∧ fact state) script
    fun result state => post result state ∧ fact state := by
  intro state inv ⟨holds, known⟩
  have safe := triple state inv holds
  clear triple holds inv
  induction script generalizing state with
  | ret value => exact fun later moved => ⟨(safe later moved).1, (safe later moved).2, kept _ _ _ moved known⟩
  | fail error =>
    exact fun later moved => ⟨(safe later moved).1, (safe later moved).2,
      kept _ _ _ moved known⟩
  | call act rest ih =>
      intro later moved permitted choice reply next taken
      obtain ⟨guarantee, done⟩ := safe later moved permitted choice reply next taken
      have still := kept _ _ _ (guarantee (pid + 1) (Nat.succ_ne_self pid)) (kept _ _ _ moved known)
      exact ⟨guarantee, ih reply next still done⟩

section Discipline
variable (discipline : Discipline machine rules Rely Inv Idle)
include discipline

theorem ret {value : α} (post : Except ε α → State → Prop) (stable : Stable Rely Inv pid (post (.ok value))) :
    Triple machine rules Rely Inv pid (post (.ok value)) (.ret value : Script Act Reply ε α) post :=
  fun state inv holds later moved => ⟨discipline.inv inv moved, stable state later inv holds moved⟩

theorem fail {error : ε} (post : Except ε α → State → Prop)
    (stable : Stable Rely Inv pid (post (.error error))) :
    Triple machine rules Rely Inv pid (post (.error error)) (.fail error : Script Act Reply ε α) post :=
  fun state inv holds later moved => ⟨discipline.inv inv moved, stable state later inv holds moved⟩

theorem ret_of {value : α} (stable : Stable Rely Inv pid (post (.ok value)))
    (holds : ∀ state, Inv state → pre state → post (.ok value) state) :
    Triple machine rules Rely Inv pid pre (.ret value : Script Act Reply ε α) post :=
  (ret discipline post stable).strengthen holds

theorem fail_of {error : ε} (stable : Stable Rely Inv pid (post (.error error)))
    (holds : ∀ state, Inv state → pre state → post (.error error) state) :
    Triple machine rules Rely Inv pid pre (.fail error : Script Act Reply ε α) post :=
  (fail discipline post stable).strengthen holds

theorem call {act : Act} {rest : Reply act → Script Act Reply ε α} (next : Reply act → State → Prop)
    (stable : Stable Rely Inv pid pre)
    (step : ∀ state, Inv state → pre state → rules.act pid act state →
        ∀ choice reply after, machine.act pid act choice state = some (reply, after) →
        (∀ other, other ≠ pid → Rely other state after) ∧ next reply after)
    (later : ∀ reply, Triple machine rules Rely Inv pid (next reply) (rest reply) post) :
    Triple machine rules Rely Inv pid pre (.call act rest) post := by
  intro state inv holds current moved permitted choice reply after taken
  have here := discipline.inv inv moved
  obtain ⟨guarantee, done⟩ := step current here (stable state current inv holds moved) permitted
    choice reply after taken
  have kept := discipline.inv here (guarantee (pid + 1) (Nat.succ_ne_self pid))
  exact ⟨guarantee, later reply after kept done⟩

theorem bind {first : Script Act Reply ε β} {next : β → Script Act Reply ε α} (middle : β → State → Prop)
    (head : Triple machine rules Rely Inv pid pre first fun result state =>
      match result with
      | .ok value => middle value state
      | .error error => post (.error error) state)
    (tail : ∀ value, Triple machine rules Rely Inv pid (middle value) (next value) post) :
    Triple machine rules Rely Inv pid pre (first >>= next) post := by
  intro state inv holds
  refine discipline.bind ((head state inv holds).mono fun result later done => ?_)
  cases result with
  | ok value => exact tail value later done.1 done.2
  | error error => exact done

theorem handle {handler : ε → Script Act Reply ε α} (caught : ε → State → Prop)
    (body : Triple machine rules Rely Inv pid pre script fun result state =>
      match result with
      | .ok value => post (.ok value) state
      | .error error => caught error state)
    (rescue : ∀ error, Triple machine rules Rely Inv pid (caught error) (handler error) post) :
    Triple machine rules Rely Inv pid pre (script.handle handler) post := by
  intro state inv holds
  refine discipline.handle ((body state inv holds).mono fun result later done => ?_)
  cases result with
  | ok value => exact done
  | error error => exact rescue error later done.1 done.2

end Discipline
end Triple

/-- What such a script establishes with the value it returns. -/
def Returning (post : α → State → Prop) : Except Empty α → State → Prop
  | .ok value => post value

namespace Triple

variable {pre : State → Prop} (discipline : Discipline machine rules Rely Inv Idle)
include discipline

theorem await {act : Act} {post : Reply act → State → Prop} (before : Stable Rely Inv pid pre)
    (after : ∀ reply, Stable Rely Inv pid (post reply))
    (step : ∀ state, Inv state → pre state → rules.act pid act state →
        ∀ choice reply next, machine.act pid act choice state = some (reply, next) →
        (∀ other, other ≠ pid → Rely other state next) ∧ post reply next) :
    Triple machine rules Rely Inv pid pre (Script.await act) (Returning post) :=
  call discipline post before step fun reply => ret discipline (Returning post) (after reply)

theorem seq {first : Script Act Reply Empty β} {next : β → Script Act Reply Empty α} {post : α → State → Prop}
    (middle : β → State → Prop) (head : Triple machine rules Rely Inv pid pre first (Returning middle))
    (tail : ∀ value, Triple machine rules Rely Inv pid (middle value) (next value) (Returning post)) :
    Triple machine rules Rely Inv pid pre (first >>= next) (Returning post) := by
  refine bind discipline middle (head.weaken fun result state _ holds => ?_) tail
  cases result with
  | ok value => exact holds
  | error error => exact nomatch error

theorem done (value : α) (post : α → State → Prop) (stable : Stable Rely Inv pid (post value)) :
    Triple machine rules Rely Inv pid (post value) (pure value : Script Act Reply Empty α) (Returning post) :=
  ret discipline (Returning post) stable

end Triple

end OpenEmarsys.Interleaving
