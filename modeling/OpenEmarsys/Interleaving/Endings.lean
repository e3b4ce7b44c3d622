import OpenEmarsys.Interleaving.Triples

/-! How scripts end: with which errors, and since when.

A call that starts in the middle of a run may rely on what has been established by
then; the calls already running keep what they were verified for.
-/

set_option autoImplicit false

namespace OpenEmarsys.Interleaving

variable {Call Act : Type} {Reply : Act → Type} {ε α β Choice State : Type}

namespace Script

/-- Every failure of the script is one of these. -/
def Fails (allowed : ε → Prop) : Script Act Reply ε α → Prop
  | .ret _ => True
  | .fail error => allowed error
  | .call _ rest => ∀ reply, (rest reply).Fails allowed

variable {allowed caught : ε → Prop}

theorem Fails.bind {script : Script Act Reply ε α} {next : α → Script Act Reply ε β}
    (fails : script.Fails allowed)
    (later : ∀ value, (next value).Fails allowed) : (script >>= next).Fails allowed := by
  induction script with
  | ret value => exact later value
  | fail error => exact fails
  | call act rest ih => exact fun reply => ih reply (fails reply)

theorem Fails.handle {script : Script Act Reply ε α} {handler : ε → Script Act Reply ε α}
    (fails : script.Fails caught) (rescue : ∀ error, caught error → (handler error).Fails allowed) :
    (script.handle handler).Fails allowed := by
  induction script with
  | ret value => trivial
  | fail error => exact rescue error fails
  | call act rest ih => exact fun reply => ih reply (fails reply)

end Script

/-- The call of a process has ended like this. -/
def Config.Ended (config : Config Call Act Reply ε α State) (pid : Nat) (call : Call) : Except ε α → Prop
  | .ok value => config.procs pid = .running call (.ret value)
  | .error error => config.procs pid = .running call (.fail error)

def Move.pid : Move Call Choice → Nat
  | .spawn pid _ => pid
  | .act pid _ => pid
  | .disturb pid _ => pid
  | .crash pid => pid

theorem step_other {machine : Machine Act Reply Choice State} {code : Call → Script Act Reply ε α}
    {config next : Config Call Act Reply ε α State} {move : Move Call Choice} {pid : Nat}
    (taken : machine.step code config move = some next) (other : pid ≠ move.pid) :
    next.procs pid = config.procs pid := by
  cases move with
  | spawn mover call =>
    simp only [Machine.step] at taken
    split at taken
    · cases taken
      exact Config.put_other config _ _ other
    · cases taken
  | act mover choice =>
    simp only [Machine.step] at taken
    split at taken
    · split at taken
      · cases taken
        exact Config.put_other config _ _ other
      · cases taken
    · cases taken
  | disturb mover choice =>
    simp only [Machine.step] at taken
    split at taken
    · cases taken
      rfl
    · cases taken
  | crash mover =>
    simp only [Machine.step] at taken
    split at taken
    · cases taken
      exact Config.put_other config _ _ other
    · cases taken

theorem moves_other {machine : Machine Act Reply Choice State} {code : Call → Script Act Reply ε α}
    (list : List (Move Call Choice)) {config last : Config Call Act Reply ε α State} {pid : Nat}
    (run : machine.moves code list config = some last) (others : ∀ move ∈ list, pid ≠ move.pid) :
    last.procs pid = config.procs pid := by
  induction list generalizing config with
  | nil =>
    cases run
    rfl
  | cons move rest ih =>
    simp only [Machine.moves] at run
    split at run
    · next next taken =>
      rw [ih run fun later member => others later (List.mem_cons_of_mem _ member)]
      exact step_other taken (others move (List.mem_cons_self ..))
    · cases run

def Move.starts (check : Call → Bool) : Move Call Choice → Bool
  | .spawn _ call => check call
  | _ => true

theorem reaches_starting {machine : Machine Act Reply Choice State} {code : Call → Script Act Reply ε α}
    {permitted : Call → Prop} {check : Call → Bool} (sound : ∀ call, check call = true → permitted call)
    {first config last : Config Call Act Reply ε α State}
    (reached : machine.Reaches code { spawn := fun _ call _ => permitted call } first config)
    (list : List (Move Call Choice))
    (starts : list.all (Move.starts check) = true) (run : machine.moves code list config = some last) :
    machine.Reaches code { spawn := fun _ call _ => permitted call } first last := by
  induction list generalizing config with
  | nil =>
    cases run
    exact reached
  | cons move rest ih =>
    rw [List.all_cons, Bool.and_eq_true] at starts
    simp only [Machine.moves] at run
    split at run
    · next next taken =>
      refine ih (reached.move move ?_ taken) starts.2 run
      cases move with
      | spawn pid call => exact sound call starts.1
      | act pid choice => exact fun _ _ _ _ => trivial
      | disturb pid choice => trivial
      | crash pid => trivial
    · cases run

/-- The call of a process that has ended, and what it ended with. -/
def Config.outcome (config : Config Call Act Reply ε α State) (pid : Nat) : Option (Call × (α ⊕ ε)) :=
  match config.procs pid with
  | .running call (.ret value) => some (call, .inl value)
  | .running call (.fail error) => some (call, .inr error)
  | _ => none

theorem ended_of_outcome {config : Config Call Act Reply ε α State} {pid : Nat} {call : Call} {value : α}
    (found : config.outcome pid = some (call, .inl value)) : config.Ended pid call (.ok value) := by
  unfold Config.outcome at found
  split at found
  · next here =>
    cases found
    exact here
  · cases found
  · cases found

def Config.isIdle (config : Config Call Act Reply ε α State) (pid : Nat) : Bool :=
  match config.procs pid with
  | .idle => true
  | _ => false

theorem idle_of_isIdle {config : Config Call Act Reply ε α State} {pid : Nat}
    (found : config.isIdle pid = true) :
    config.procs pid = .idle := by
  unfold Config.isIdle at found
  split at found
  · assumption
  · cases found

section
variable {machine : Machine Act Reply Choice State} {rules : Rules Call Act State}
  {Rely : Nat → State → State → Prop}
  {Inv : State → Prop} {Idle : Nat → State → Prop} {pid : Nat}

theorem Safe.fails {script : Script Act Reply ε α} {post : Except ε α → State → Prop} {state : State}
    {allowed : ε → Prop}
    (safe : Safe machine rules Rely pid script post state) (fails : script.Fails allowed) :
    Safe machine rules Rely pid script (fun result later => post result later ∧
      ∀ error, result = .error error → allowed error)
      state := by
  induction script generalizing state with
  | ret value => exact fun later moved => ⟨safe later moved, fun _ absurd_ => by cases absurd_⟩
  | fail error =>
    refine fun later moved => ⟨safe later moved, fun other same => ?_⟩
    cases same
    exact fails
  | call act rest ih =>
    intro later moved permitted choice reply next taken
    obtain ⟨guarantee, after⟩ := safe later moved permitted choice reply next taken
    exact ⟨guarantee, ih reply after (fails reply)⟩

theorem Triple.fails {pre : State → Prop} {script : Script Act Reply ε α} {post : Except ε α → State → Prop}
    {allowed : ε → Prop}
    (triple : Triple machine rules Rely Inv pid pre script post) (fails : script.Fails allowed) :
    Triple machine rules Rely Inv pid pre script fun result state =>
      post result state ∧ ∀ error, result = .error error → allowed error := by
  intro state inv holds
  refine ((triple state inv holds).fails fails).mono fun result later done => ?_
  exact ⟨done.1.1, done.1.2, done.2⟩

theorem Discipline.since (discipline : Discipline machine rules Rely Inv Idle)
    {code : Call → Script Act Reply ε α}
    {Earlier : Nat → State → Prop} {before post : Nat → Call → Except ε α → State → Prop}
    (calls : ∀ pid call state, rules.spawn pid call state → Inv state → Idle pid state →
      Safe machine rules Rely pid (code call) (post pid call) state)
    {first last : Config Call Act Reply ε α State} (run : machine.Reaches code rules first last)
    (sound : Sound machine rules Rely Inv Earlier before first)
    (ready : ∀ pid, Earlier pid first.state → Idle pid first.state)
    {pid : Nat} (unstarted : first.procs pid = .idle) {call : Call} {result : Except ε α}
    (ended : last.Ended pid call result) :
    post pid call result last.state := by
  let since : Nat → Call → Except ε α → State → Prop := fun pid call result state =>
    first.procs pid = .idle → post pid call result state
  have initial : Sound machine rules Rely Inv Idle since first := by
    refine ⟨sound.1, fun other => ?_⟩
    have own := sound.2 other
    split
    · next found =>
      rw [found] at own
      exact ready other own
    · next started =>
      rw [started] at own
      exact own.mono fun _ _ _ absurd_ => by simp [started] at absurd_
    · trivial
  have verified : ∀ pid call state, rules.spawn pid call state → Inv state → Idle pid state →
      Safe machine rules Rely pid (code call) (since pid call) state :=
    fun pid call state legal inv idle => (calls pid call state legal inv idle).mono fun _ _ done _ => done
  have own := (discipline.reaches verified run initial).2 pid
  cases result with
  | ok value =>
    rw [Config.Ended] at ended
    rw [ended] at own
    exact own last.state (discipline.refl pid last.state) unstarted
  | error error =>
    rw [Config.Ended] at ended
    rw [ended] at own
    exact own last.state (discipline.refl pid last.state) unstarted

end

end OpenEmarsys.Interleaving
