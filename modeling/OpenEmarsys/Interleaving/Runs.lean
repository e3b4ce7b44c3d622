import OpenEmarsys.Interleaving.Script

/-! Interleaved runs of scripts over shared state, and the rely-guarantee rule.

Any number of processes run scripts. A move starts a call, answers the next call
of one process, lets the environment act on one process, or kills a process. A
call that cannot be answered yet has no move, so its process waits.
-/

set_option autoImplicit false

namespace OpenEmarsys.Interleaving

/-- What the shared state does. `Choice` is what a move leaves open: fresh
identifiers, clock readings, failures. -/
structure Machine (Act : Type) (Reply : Act → Type) (Choice State : Type) where
  act : Nat → (act : Act) → Choice → State → Option (Reply act × State)
  disturb : Nat → Choice → State → Option State
  crash : Nat → State → State

section
variable (Call Act : Type) (Reply : Act → Type) (ε α Choice State : Type)

inductive Status where
  | idle
  | running (call : Call) (script : Script Act Reply ε α)
  | crashed (call : Call)

def Status.outcome : Status Call Act Reply ε α → Option (Except ε α)
  | .running _ (.ret value) => some (.ok value)
  | .running _ (.fail error) => some (.error error)
  | _ => none

def Status.next : Status Call Act Reply ε α → Option Act
  | .running _ (.call act _) => some act
  | _ => none

structure Config where
  state : State
  procs : Nat → Status Call Act Reply ε α

inductive Move where
  | spawn (pid : Nat) (call : Call)
  | act (pid : Nat) (choice : Choice)
  | disturb (pid : Nat) (choice : Choice)
  | crash (pid : Nat)

/-- Which moves a family of runs may contain, as conditions on the state before
the move. -/
structure Rules where
  spawn : Nat → Call → State → Prop := fun _ _ _ => True
  act : Nat → Act → State → Prop := fun _ _ _ => True
  disturb : Nat → State → Prop := fun _ _ => True
  crash : Nat → State → Prop := fun _ _ => True

end

variable {Call Act : Type} {Reply : Act → Type} {ε α Choice State : Type}

namespace Config

def start (state : State) : Config Call Act Reply ε α State := ⟨state, fun _ => .idle⟩

def put (config : Config Call Act Reply ε α State) (pid : Nat) (state : State)
    (status : Status Call Act Reply ε α) : Config Call Act Reply ε α State :=
  ⟨state, Function.update config.procs pid status⟩

@[simp] theorem put_state (config : Config Call Act Reply ε α State) (pid : Nat) (state : State)
    (status : Status Call Act Reply ε α) : (config.put pid state status).state = state := rfl

@[simp] theorem put_same (config : Config Call Act Reply ε α State) (pid : Nat) (state : State)
    (status : Status Call Act Reply ε α) : (config.put pid state status).procs pid = status := by
  simp [put]

theorem put_other (config : Config Call Act Reply ε α State) {pid other : Nat} (state : State)
    (status : Status Call Act Reply ε α) (distinct : other ≠ pid) :
    (config.put pid state status).procs other = config.procs other := by
  simp [put, distinct]

end Config

namespace Machine

variable (machine : Machine Act Reply Choice State) (code : Call → Script Act Reply ε α)

/-- The machine with some of its answers only. -/
def restrict (machine : Machine Act Reply Choice State)
    (allowed : Nat → (act : Act) → Choice → State → Bool) :
    Machine Act Reply Choice State where
  act pid act choice state := if allowed pid act choice state then machine.act pid act choice state else none
  disturb := machine.disturb
  crash := machine.crash

theorem restrict_act {machine : Machine Act Reply Choice State}
    {allowed : Nat → (act : Act) → Choice → State → Bool}
    {pid : Nat} {act : Act} {choice : Choice} {state next : State} {reply : Reply act} :
    (machine.restrict allowed).act pid act choice state = some (reply, next) ↔
      allowed pid act choice state = true ∧ machine.act pid act choice state = some (reply, next) := by
  simp [restrict]

def step (config : Config Call Act Reply ε α State) :
    Move Call Choice → Option (Config Call Act Reply ε α State)
  | .spawn pid call =>
      match config.procs pid with
      | .idle => some (config.put pid config.state (.running call (code call)))
      | _ => none
  | .act pid choice =>
      match config.procs pid with
      | .running call (.call act rest) =>
          match machine.act pid act choice config.state with
          | some (reply, next) => some (config.put pid next (.running call (rest reply)))
          | none => none
      | _ => none
  | .disturb pid choice =>
      match machine.disturb pid choice config.state with
      | some next => some { config with state := next }
      | none => none
  | .crash pid =>
      match config.procs pid with
      | .running call _ => some (config.put pid (machine.crash pid config.state) (.crashed call))
      | _ => none

def moves : List (Move Call Choice) → Config Call Act Reply ε α State →
    Option (Config Call Act Reply ε α State)
  | [], config => some config
  | move :: rest, config =>
      match machine.step code config move with
      | some next => moves rest next
      | none => none

def Legal (rules : Rules Call Act State) (config : Config Call Act Reply ε α State) :
    Move Call Choice → Prop
  | .spawn pid call => rules.spawn pid call config.state
  | .act pid _ => ∀ call act rest, config.procs pid = .running call (.call act rest) →
      rules.act pid act config.state
  | .disturb pid _ => rules.disturb pid config.state
  | .crash pid => rules.crash pid config.state

/-- Runs all of whose moves meet the rules. -/
inductive Reaches (rules : Rules Call Act State) (first : Config Call Act Reply ε α State) :
    Config Call Act Reply ε α State → Prop where
  | refl : Reaches rules first first
  | move {config next : Config Call Act Reply ε α State} (move : Move Call Choice) :
      Reaches rules first config → Legal rules config move →
      machine.step code config move = some next → Reaches rules first next

theorem Reaches.trans {machine : Machine Act Reply Choice State} {code : Call → Script Act Reply ε α}
    {rules : Rules Call Act State} {first middle last : Config Call Act Reply ε α State}
    (before : machine.Reaches code rules first middle) (after : machine.Reaches code rules middle last) :
    machine.Reaches code rules first last := by
  induction after with
  | refl => exact before
  | move move _ legal taken ih => exact ih.move move legal taken

theorem reaches_moves {first config last : Config Call Act Reply ε α State}
    (reached : machine.Reaches code {} first config) (list : List (Move Call Choice))
    (run : machine.moves code list config = some last) : machine.Reaches code {} first last := by
  induction list generalizing config with
  | nil => cases run; exact reached
  | cons move rest ih =>
      simp only [moves] at run
      split at run
      · next next taken =>
          refine ih (reached.move move ?_ taken) run
          cases move <;> simp [Legal]
      · cases run

def calm : Move Call Choice → Bool
  | .disturb .. => false
  | _ => true

theorem reaches_calm {disturb : Nat → State → Prop} {first config last : Config Call Act Reply ε α State}
    (reached : machine.Reaches code { disturb := disturb } first config) (list : List (Move Call Choice))
    (undisturbed : list.all calm = true) (run : machine.moves code list config = some last) :
    machine.Reaches code { disturb := disturb } first last := by
  induction list generalizing config with
  | nil => cases run; exact reached
  | cons move rest ih =>
      rw [List.all_cons, Bool.and_eq_true] at undisturbed
      simp only [moves] at run
      split at run
      · next next taken =>
          refine ih (reached.move move ?_ taken) undisturbed.2 run
          cases move with
          | disturb pid choice => cases undisturbed.1
          | _ => simp [Legal]
      · cases run

/-- Whether a family of runs may continue with this move, if all it restricts is calls. -/
def permits (allowed : Nat → Act → State → Bool) (config : Config Call Act Reply ε α State) :
    Move Call Choice → Bool
  | .act pid _ =>
      match config.procs pid with
      | .running _ (.call act _) => allowed pid act config.state
      | _ => true
  | _ => true

/-- A run that stops at the first call that is not allowed. -/
def guarded (allowed : Nat → Act → State → Bool) : List (Move Call Choice) → Config Call Act Reply ε α State →
    Option (Config Call Act Reply ε α State)
  | [], config => some config
  | move :: rest, config =>
      if permits allowed config move then
        match machine.step code config move with
        | some next => guarded allowed rest next
        | none => none
      else none

theorem reaches_guarded {allowed : Nat → Act → State → Bool}
    {first config last : Config Call Act Reply ε α State}
    (reached : machine.Reaches code { act := fun pid act state => allowed pid act state = true } first config)
    (list : List (Move Call Choice)) (run : machine.guarded code allowed list config = some last) :
    machine.Reaches code { act := fun pid act state => allowed pid act state = true } first last := by
  induction list generalizing config with
  | nil => cases run; exact reached
  | cons move rest ih =>
      simp only [guarded] at run
      split at run
      · next permitted =>
          split at run
          · next next taken =>
              refine ih (reached.move move ?_ taken) run
              cases move with
              | act pid choice =>
                  intro call act rest found
                  simpa [permits, found] using permitted
              | _ => trivial
          · cases run
      · cases run

theorem Reaches.permitted {machine : Machine Act Reply Choice State} {code : Call → Script Act Reply ε α}
    {rules : Rules Call Act State} {allowed : Nat → Act → State → Prop}
    {first last : Config Call Act Reply ε α State}
    (run : machine.Reaches code { act := allowed } first last)
    (acts : ∀ pid act state, allowed pid act state → rules.act pid act state)
    (spawns : ∀ pid call state, rules.spawn pid call state)
    (disturbs : ∀ pid state, rules.disturb pid state) (crashes : ∀ pid state, rules.crash pid state) :
    machine.Reaches code rules first last := by
  induction run with
  | refl => exact .refl
  | @move config next move _ legal taken ih =>
      refine ih.move move ?_ taken
      cases move with
      | spawn pid call => exact spawns pid call _
      | act pid choice => exact fun call act rest found => acts pid act _ (legal call act rest found)
      | disturb pid choice => exact disturbs pid _
      | crash pid => exact crashes pid _

theorem Reaches.invariant {machine : Machine Act Reply Choice State} {code : Call → Script Act Reply ε α}
    {rules : Rules Call Act State} {first last : Config Call Act Reply ε α State} {holds : State → Prop}
    (run : machine.Reaches code rules first last) (initial : holds first.state)
    (acts : ∀ pid act choice state reply next, holds state → rules.act pid act state →
      machine.act pid act choice state = some (reply, next) → holds next)
    (disturbs : ∀ pid choice state next, holds state → rules.disturb pid state →
      machine.disturb pid choice state = some next → holds next)
    (crashes : ∀ pid state, holds state → rules.crash pid state → holds (machine.crash pid state)) :
    holds last.state := by
  induction run with
  | refl => exact initial
  | @move config next move _ legal taken here =>
      cases move with
      | spawn pid call =>
          simp only [step] at taken
          split at taken <;> cases taken
          exact here
      | act pid choice =>
          simp only [step] at taken
          split at taken
          · next call act rest found =>
              split at taken
              · next reply after answered =>
                  cases taken
                  exact acts pid act choice _ reply after here (legal call act rest found) answered
              · cases taken
          · cases taken
      | disturb pid choice =>
          simp only [step] at taken
          split at taken
          · next after disturbed =>
              cases taken
              exact disturbs pid choice _ after here legal disturbed
          · cases taken
      | crash pid =>
          simp only [step] at taken
          split at taken <;> cases taken
          exact crashes pid _ here legal

/-- Runs all of whose moves are allowed in the configuration before them. -/
inductive Within (allowed : Config Call Act Reply ε α State → Move Call Choice → Prop)
    (first : Config Call Act Reply ε α State) : Config Call Act Reply ε α State → Prop where
  | refl : Within allowed first first
  | move {config next : Config Call Act Reply ε α State} (move : Move Call Choice) :
      Within allowed first config → allowed config move →
      machine.step code config move = some next → Within allowed first next

theorem Within.invariant {machine : Machine Act Reply Choice State} {code : Call → Script Act Reply ε α}
    {allowed : Config Call Act Reply ε α State → Move Call Choice → Prop}
    {first last : Config Call Act Reply ε α State}
    {holds : Config Call Act Reply ε α State → Prop} (run : machine.Within code allowed first last)
    (initial : holds first) (moves : ∀ config next move, holds config → allowed config move →
      machine.step code config move = some next → holds next) :
    holds last := by
  induction run with
  | refl => exact initial
  | move move _ permitted taken here => exact moves _ _ move here permitted taken

/-- A run that stops at the first move that is not allowed. -/
def admitted (allowed : Config Call Act Reply ε α State → Move Call Choice → Bool) :
    List (Move Call Choice) → Config Call Act Reply ε α State → Option (Config Call Act Reply ε α State)
  | [], config => some config
  | move :: rest, config =>
      if allowed config move then
        match machine.step code config move with
        | some next => admitted allowed rest next
        | none => none
      else none

theorem within_admitted {allowed : Config Call Act Reply ε α State → Move Call Choice → Prop}
    {check : Config Call Act Reply ε α State → Move Call Choice → Bool}
    (sound : ∀ config move, check config move = true → allowed config move)
    {first config last : Config Call Act Reply ε α State} (reached : machine.Within code allowed first config)
    (list : List (Move Call Choice)) (run : machine.admitted code check list config = some last) :
    machine.Within code allowed first last := by
  induction list generalizing config with
  | nil => cases run; exact reached
  | cons move rest ih =>
      simp only [admitted] at run
      split at run
      · next permitted =>
          split at run
          · next next taken => exact ih (reached.move move (sound config move permitted) taken) run
          · cases run
      · cases run

end Machine

/-! ## Rely-guarantee

`Rely pid` says what moves of the other processes, and disturbances, may do to
the state while `pid` is between two of its calls.
-/

section Rely
variable (machine : Machine Act Reply Choice State) (rules : Rules Call Act State)
  (Rely : Nat → State → State → Prop)

/-- Each call of the script, made in any state its rely leads to, is within the
rely of every other process, and the script ends as `post` says. -/
def Safe (pid : Nat) : Script Act Reply ε α → (Except ε α → State → Prop) → State → Prop
  | .ret value, post, state => ∀ later, Rely pid state later → post (.ok value) later
  | .fail error, post, state => ∀ later, Rely pid state later → post (.error error) later
  | .call act rest, post, state => ∀ later, Rely pid state later → rules.act pid act later →
        ∀ choice reply next, machine.act pid act choice later = some (reply, next) →
        (∀ other, other ≠ pid → Rely other later next) ∧ Safe pid (rest reply) post next

/-- What a rely has to be, together with the invariant it keeps, for processes
verified one by one to be safe when interleaved. -/
structure Discipline (Inv : State → Prop) (Idle : Nat → State → Prop) : Prop where
  refl : ∀ pid state, Rely pid state state
  trans : ∀ {pid first second third}, Rely pid first second → Rely pid second third → Rely pid first third
  inv : ∀ {pid state next}, Inv state → Rely pid state next → Inv next
  idle : ∀ {pid state next}, Inv state → Idle pid state → Rely pid state next → Idle pid next
  disturb : ∀ {pid choice state next}, Inv state → rules.disturb pid state →
    machine.disturb pid choice state = some next → ∀ other, Rely other state next
  crash : ∀ {pid state}, Inv state → rules.crash pid state →
    ∀ other, other ≠ pid → Rely other state (machine.crash pid state)

variable {machine rules Rely} {Inv : State → Prop} {Idle : Nat → State → Prop}

theorem Safe.mono {pid : Nat} {script : Script Act Reply ε α} {post weaker : Except ε α → State → Prop}
    {state : State} (safe : Safe machine rules Rely pid script post state)
    (imp : ∀ result later, post result later → weaker result later) :
    Safe machine rules Rely pid script weaker state := by
  induction script generalizing state with
  | ret value => exact fun later rely => imp _ _ (safe later rely)
  | fail error => exact fun later rely => imp _ _ (safe later rely)
  | call act rest ih =>
      intro later rely permitted choice reply next taken
      obtain ⟨guarantee, after⟩ := safe later rely permitted choice reply next taken
      exact ⟨guarantee, ih reply after⟩

namespace Discipline

variable (discipline : Discipline machine rules Rely Inv Idle)
include discipline

theorem rely {pid : Nat} {script : Script Act Reply ε α} {post : Except ε α → State → Prop}
    {state later : State} (safe : Safe machine rules Rely pid script post state)
    (moved : Rely pid state later) : Safe machine rules Rely pid script post later := by
  cases script with
  | ret value => exact fun last step => safe last (discipline.trans moved step)
  | fail error => exact fun last step => safe last (discipline.trans moved step)
  | call act rest => exact fun last step => safe last (discipline.trans moved step)

theorem bind {β : Type} {pid : Nat} {script : Script Act Reply ε β} {next : β → Script Act Reply ε α}
    {post : Except ε α → State → Prop} {state : State}
    (safe : Safe machine rules Rely pid script (fun result later =>
      match result with
      | .ok value => Safe machine rules Rely pid (next value) post later
      | .error error => post (.error error) later) state) :
    Safe machine rules Rely pid (script >>= next) post state := by
  induction script generalizing state with
  | ret value => exact safe state (discipline.refl pid state)
  | fail error => exact safe
  | call act rest ih =>
      intro later rely permitted choice reply after taken
      obtain ⟨guarantee, done⟩ := safe later rely permitted choice reply after taken
      exact ⟨guarantee, ih reply done⟩

theorem handle {pid : Nat} {script : Script Act Reply ε α} {handler : ε → Script Act Reply ε α}
    {post : Except ε α → State → Prop} {state : State}
    (safe : Safe machine rules Rely pid script (fun result later =>
      match result with
      | .ok value => post (.ok value) later
      | .error error => Safe machine rules Rely pid (handler error) post later) state) :
    Safe machine rules Rely pid (script.handle handler) post state := by
  induction script generalizing state with
  | ret value => exact safe
  | fail error => exact safe state (discipline.refl pid state)
  | call act rest ih =>
      intro later rely permitted choice reply after taken
      obtain ⟨guarantee, done⟩ := safe later rely permitted choice reply after taken
      exact ⟨guarantee, ih reply done⟩

/-- What every configuration of a run satisfies once its calls are safe. -/
def Sound (machine : Machine Act Reply Choice State) (rules : Rules Call Act State)
    (Rely : Nat → State → State → Prop) (Inv : State → Prop) (Idle : Nat → State → Prop)
    (post : Nat → Call → Except ε α → State → Prop) (config : Config Call Act Reply ε α State) : Prop :=
  Inv config.state ∧ ∀ pid,
    match config.procs pid with
    | .idle => Idle pid config.state
    | .running call script => Safe machine rules Rely pid script (post pid call) config.state
    | .crashed _ => True

theorem sound_put {post : Nat → Call → Except ε α → State → Prop}
    {config : Config Call Act Reply ε α State} {pid : Nat} {next : State}
    {status : Status Call Act Reply ε α} (sound : Sound machine rules Rely Inv Idle post config)
    (others : ∀ other, other ≠ pid → Rely other config.state next) (own : match status with
      | .idle => Idle pid next
      | .running call script => Safe machine rules Rely pid script (post pid call) next
      | .crashed _ => True) :
    Sound machine rules Rely Inv Idle post (config.put pid next status) := by
  obtain ⟨inv, procs⟩ := sound
  refine ⟨discipline.inv inv (others (pid + 1) (Nat.succ_ne_self pid)), fun other => ?_⟩
  by_cases same : other = pid
  · subst same
    simpa using own
  · rw [Config.put_other config next status same]
    have before := procs other
    have moved := others other same
    split
    · next found => rw [found] at before; exact discipline.idle inv before moved
    · next found => rw [found] at before; exact discipline.rely before moved
    · trivial

-- The parallel rule: calls that are safe alone are safe in every interleaving.
theorem reaches {code : Call → Script Act Reply ε α} {post : Nat → Call → Except ε α → State → Prop}
    (calls : ∀ pid call state, rules.spawn pid call state → Inv state → Idle pid state →
      Safe machine rules Rely pid (code call) (post pid call) state)
    {first last : Config Call Act Reply ε α State} (run : machine.Reaches code rules first last)
    (initial : Sound machine rules Rely Inv Idle post first) :
    Sound machine rules Rely Inv Idle post last := by
  induction run with
  | refl => exact initial
  | @move config next move _ legal taken sound =>
      have procs := sound.2
      cases move with
      | spawn pid call =>
          simp only [Machine.step] at taken
          split at taken
          · next found =>
              cases taken
              have before := procs pid
              rw [found] at before
              exact discipline.sound_put sound (fun other _ => discipline.refl other _)
                (calls pid call _ legal sound.1 before)
          · cases taken
      | act pid choice =>
          simp only [Machine.step] at taken
          split at taken
          · next call act rest found =>
              split at taken
              · next reply after answered =>
                  cases taken
                  have before := procs pid
                  rw [found] at before
                  obtain ⟨guarantee, own⟩ := before _ (discipline.refl pid _) (legal call act rest found)
                    choice reply after answered
                  exact discipline.sound_put sound guarantee own
              · cases taken
          · cases taken
      | disturb pid choice =>
          simp only [Machine.step] at taken
          split at taken
          · next after disturbed =>
              cases taken
              have moved := discipline.disturb sound.1 legal disturbed
              refine ⟨discipline.inv sound.1 (moved pid), fun other => ?_⟩
              have before := procs other
              split
              · next found => rw [found] at before; exact discipline.idle sound.1 before (moved other)
              · next found => rw [found] at before; exact discipline.rely before (moved other)
              · trivial
          · cases taken
      | crash pid =>
          simp only [Machine.step] at taken
          split at taken
          · next found =>
              cases taken
              exact discipline.sound_put sound (discipline.crash sound.1 legal) trivial
          · cases taken

end Discipline
end Rely

end OpenEmarsys.Interleaving
