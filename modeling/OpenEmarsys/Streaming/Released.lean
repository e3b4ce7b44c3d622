import OpenEmarsys.Interleaving.Endings
import OpenEmarsys.Streaming.Stream

/-! When a stream whose response has closed gives its connection back.

A call waits for a drain only right after a write that returned false. If the response closes while it
waits, no drain comes any more; if it closes at any other time, the call sees it at its next batch.
-/

set_option autoImplicit false

namespace OpenEmarsys.Streaming

open Interleaving

def Allows : Act → Session → Prop
  | .drain, session => session.needDrain = true
  | .connect, session => session = .none
  | .query _, session => session.held = true ∧ session.needDrain = false
  | .listExists, session => session.held = true ∧ session.needDrain = false
  | .push _, session => session.held = true ∧ session.needDrain = false
  | .release, session => session.held = true ∧ session.inTx = false ∧ session.needDrain = false
  | _, session => session.needDrain = false

def typestate : Typestate Act Reply Session := ⟨Allows, Session.after⟩

abbrev Follows {α : Type} (script : StreamScript α) (session : Session) (returns : α → Session → Prop)
    (throws : StreamError → Session → Prop) : Prop :=
  script.Follows typestate session returns throws

def Session.busy : Session := ⟨true, true, false⟩

def In {α : Type} (expected : Session) : α → Session → Prop := fun _ session => session = expected

/-- A connection is held, and maybe a transaction is open. -/
def Holding {α : Type} : α → Session → Prop := fun _ session => session.held = true ∧
    session.needDrain = false

section Follows
variable {α : Type} {session expected : Session}

theorem query_follows {q : Query} {throws : StreamError → Session → Prop} (held : session.held = true)
    (drained : session.needDrain = false)
    (returns : session.after (.query q) (.ok () : Except StreamError Unit) = expected)
    (fails : ∀ error, throws error (session.after (.query q) (.error error : Except StreamError Unit))) :
    Follows (query q) session (In expected) throws := by
  refine ⟨⟨held, drained⟩, fun reply => ?_⟩
  cases (reply : Except StreamError Unit) with
  | ok value => exact returns
  | error error => exact fails error

theorem then_follows {q : Query} {next : Unit → StreamScript α} {returns : α → Session → Prop}
    (held : session.held = true) (drained : session.needDrain = false)
    (same : session.after (.query q) (.ok () : Except StreamError Unit) = expected)
    (fails : ∀ error, Holding error (session.after (.query q) (.error error : Except StreamError Unit)))
    (later : Follows (next ()) expected returns Holding) :
    Follows (query q >>= next) session returns Holding := by
  refine (query_follows held drained same fails).bind ?_
  rintro _ session rfl
  exact later

theorem loop_follows (batches : List (List String)) : Follows (loop batches) .busy (In .busy) Holding := by
  induction batches with
  | nil => exact query_follows rfl rfl rfl fun _ => ⟨rfl, rfl⟩
  | cons batch rest ih =>
    refine then_follows rfl rfl rfl (fun _ => ⟨rfl, rfl⟩) ⟨⟨rfl, rfl⟩, fun progress => ?_⟩
    cases (progress : Progress) with
    | stopped => exact rfl
    | written => exact ih
    | full =>
      -- the only place where a call waits for a drain
      refine ⟨rfl, fun drained => ?_⟩
      cases (drained : Except StreamError Unit) with
      | ok value => exact ih
      | error error => exact ⟨rfl, rfl⟩

theorem inTx_follows {fn : StreamScript α} (inner : Follows fn .busy (In .busy) Holding) :
    Follows (inTx fn) ⟨true, false, false⟩ (In ⟨true, false, false⟩) Holding := by
  refine then_follows rfl rfl rfl (fun _ => ⟨rfl, rfl⟩) ?_
  refine then_follows rfl rfl rfl (fun _ => ⟨rfl, rfl⟩) ?_
  refine inner.bind ?_
  rintro r session rfl
  exact then_follows rfl rfl rfl (fun _ => ⟨rfl, rfl⟩) rfl

theorem rollback_follows {returns : α → Session → Prop} (error : StreamError)
    (holding : Holding error session) :
    Follows (rollback error) session returns (In .none) := by
  obtain ⟨held, drained⟩ := holding
  refine ⟨⟨held, drained⟩, fun _ => ⟨⟨held, rfl, drained⟩, fun _ => ?_⟩⟩
  change (⟨false, false, session.needDrain⟩ : Session) = .none
  rw [drained]
  rfl

-- A transaction around a body ends with COMMIT or ROLLBACK, and the connection goes back.
theorem withTx_follows {fn : StreamScript α} (inner : Follows fn .busy (In .busy) Holding) :
    Follows (withTx fn) .none (In .none) (In .none) := by
  refine ⟨rfl, fun connected => ?_⟩
  cases (connected : Except StreamError Unit) with
  | error error => exact rfl
  | ok value =>
    change Follows ((inTx fn).handle rollback >>= fun r => do ask .release; pure r) ⟨true, false, false⟩ _ _
    refine Script.Follows.bind ((inTx_follows inner).handle
      fun error _ holding => rollback_follows error holding) ?_
    rintro value session rfl
    exact ⟨⟨rfl, rfl, rfl⟩, fun _ => rfl⟩

theorem stream_follows (lines : List String) : Follows (stream lines) .none (In .none) (In .none) :=
  ⟨rfl, fun _ => withTx_follows (then_follows rfl rfl rfl (fun _ => ⟨rfl, rfl⟩) (loop_follows _))⟩

theorem respond_follows (lines : List String) : Follows (respond lines) .none (In .none) (In .none) := by
  refine Script.Follows.handle (Script.Follows.bind (stream_follows lines) ?_) ?_
  · rintro value session rfl
    exact ⟨rfl, fun _ => rfl⟩
  · rintro error session rfl
    exact ⟨rfl, fun _ => rfl⟩

theorem listExists_follows : Follows listExists .none (In .none) (In .none) := by
  refine withTx_follows ⟨⟨rfl, rfl⟩, fun found => ?_⟩
  cases (found : Except StreamError Bool) with
  | ok there => exact rfl
  | error error => exact ⟨rfl, rfl⟩

theorem checkList_follows (listId : Option String) : Follows (checkList listId) .none (In .none)
    (In .none) := by
  cases listId with
  | none => exact rfl
  | some id =>
    refine listExists_follows.bind ?_
    rintro there session rfl
    cases there with
    | true => exact rfl
    | false => exact rfl

theorem exportContacts_follows (call : Call) : Follows (exportContacts call) .none (In .none) (In .none) := by
  refine (checkList_follows call.listId).bind ?_
  rintro value session rfl
  exact respond_follows call.lines

end Follows

/-- A reply that a call can get once its response has closed. -/
def Possible (act : Act) (reply : Reply act) : Prop := ∃ idle choice,
    answer idle .closed act choice = some reply

/-- With such replies, the script makes at most so many calls. -/
def Brief {α : Type} : Nat → StreamScript α → Prop
  | _, .ret _ => True
  | _, .fail _ => True
  | 0, .call _ _ => False
  | n + 1, .call act rest => ∀ reply, Possible act reply → Brief n (rest reply)

/-- The script is brief, wherever it has got to when the response closes. -/
def Quick {α : Type} (n : Nat) : StreamScript α → Prop
  | .ret _ => True
  | .fail _ => True
  | .call act rest => Brief n (.call act rest) ∧ ∀ reply, Quick n (rest reply)

section Quick
variable {α β : Type} {n m : Nat}

theorem Brief.mono {script : StreamScript α} (brief : Brief n script) (le : n ≤ m) : Brief m script := by
  induction script generalizing n m with
  | ret value => cases m <;> trivial
  | fail error => cases m <;> trivial
  | call act rest ih =>
    cases n with
    | zero => exact brief.elim
    | succ n =>
      cases m with
      | zero => omega
      | succ m => exact fun reply possible => ih reply (brief reply possible) (by omega)

theorem Brief.bind {script : StreamScript β} {next : β → StreamScript α} (brief : Brief n script)
    (later : ∀ value, Brief m (next value)) : Brief (n + m) (script >>= next) := by
  induction script generalizing n with
  | ret value => exact (later value).mono (by omega)
  | fail error => cases n + m <;> trivial
  | call act rest ih =>
    cases n with
    | zero => exact brief.elim
    | succ n =>
      rw [Nat.succ_add]
      exact fun reply possible => ih reply (brief reply possible)

theorem Brief.handle {script : StreamScript α} {handler : StreamError → StreamScript α}
    (brief : Brief n script)
    (rescue : ∀ error, Brief m (handler error)) : Brief (n + m) (script.handle handler) := by
  induction script generalizing n with
  | ret value => cases n + m <;> trivial
  | fail error => exact (rescue error).mono (by omega)
  | call act rest ih =>
    cases n with
    | zero => exact brief.elim
    | succ n =>
      rw [Nat.succ_add]
      exact fun reply possible => ih reply (brief reply possible)

theorem Quick.brief {script : StreamScript α} (quick : Quick n script) : Brief n script := by
  cases script with
  | ret value => cases n <;> trivial
  | fail error => cases n <;> trivial
  | call act rest => exact quick.1

theorem Quick.mono {script : StreamScript α} (quick : Quick n script) (le : n ≤ m) : Quick m script := by
  induction script with
  | ret value => trivial
  | fail error => trivial
  | call act rest ih => exact ⟨quick.1.mono le, fun reply => ih reply (quick.2 reply)⟩

theorem Quick.bind {script : StreamScript β} {next : β → StreamScript α} (quick : Quick n script)
    (later : ∀ value, Quick m (next value)) : Quick (n + m) (script >>= next) := by
  induction script with
  | ret value => exact (later value).mono (by omega)
  | fail error => trivial
  | call act rest ih =>
    exact ⟨quick.1.bind fun value => (later value).brief,
      fun reply => ih reply (quick.2 reply)⟩

theorem Quick.handle {script : StreamScript α} {handler : StreamError → StreamScript α}
    (quick : Quick n script)
    (rescue : ∀ error, Quick m (handler error)) : Quick (n + m) (script.handle handler) := by
  induction script with
  | ret value => trivial
  | fail error => exact (rescue error).mono (by omega)
  | call act rest ih =>
    exact ⟨quick.1.handle fun error => (rescue error).brief,
      fun reply => ih reply (quick.2 reply)⟩

theorem orThrow_quick (reply : Except StreamError α) : Quick n (orThrow reply) := by
  cases reply with
  | ok value => trivial
  | error error => trivial

theorem ask_quick (act : Act) : Quick 1 (ask act) := ⟨fun _ _ => trivial, fun _ => trivial⟩

theorem query_quick (q : Query) : Quick 1 (query q) := (ask_quick (.query q)).bind fun reply => orThrow_quick
    (n := 0) reply

theorem stopped_of_possible {chunk : String} {progress : Progress}
    (possible : Possible (.push chunk) progress) :
    progress = .stopped := by
  obtain ⟨idle, choice, answered⟩ := possible
  cases choice with
  | wrote all => exact (Option.some.inj answered).symm
  | _ => cases answered

theorem drain_impossible {reply : Except StreamError Unit} : ¬ Possible .drain reply := by
  rintro ⟨idle, choice, answered⟩
  cases choice <;> cases answered

theorem push_brief {chunk : String} {next : Progress → StreamScript Unit} (stops : next .stopped = .ret ()) :
    Brief (n + 1) (ask (.push chunk) >>= next) := by
  intro progress possible
  cases stopped_of_possible possible
  change Brief n (next .stopped)
  rw [stops]
  cases n <;> trivial

-- What is left of a loop is one FETCH and a look at the flag.
theorem loop_quick (batches : List (List String)) : Quick 2 (loop batches) := by
  induction batches with
  | nil => exact (query_quick .fetch).mono (by omega)
  | cons batch rest ih =>
    refine ⟨?_, fun fetched => ?_⟩
    · intro fetched possible
      cases (fetched : Except StreamError Unit) with
      | ok value => exact push_brief (n := 0) rfl
      | error error => trivial
    · cases (fetched : Except StreamError Unit) with
      | error error => trivial
      | ok value =>
        refine ⟨push_brief (n := 1) rfl, fun progress => ?_⟩
        cases (progress : Progress) with
        | stopped => trivial
        | written => exact ih
        | full =>
          refine ⟨fun drained possible => absurd possible drain_impossible, fun drained => ?_⟩
          cases (drained : Except StreamError Unit) with
          | ok value => exact ih
          | error error => trivial

theorem inTx_quick {fn : StreamScript α} (inner : Quick n fn) : Quick (n + 3) (inTx fn) := by
  have ends : Quick (1 + (1 + (n + (1 + 0)))) (inTx fn) := by
    apply (query_quick .begin).bind
    intro _
    apply (query_quick .setTenant).bind
    intro _
    apply inner.bind
    intro r
    apply (query_quick .commit).bind
    intro _
    trivial
  exact ends.mono (by omega)

theorem rollback_quick (error : StreamError) : Quick 2 (rollback error : StreamScript α) := by
  have ends : Quick (1 + (1 + 0)) (rollback error : StreamScript α) := by
    apply (ask_quick (.query .rollback)).bind
    intro _
    apply (ask_quick .release).bind
    intro _
    trivial
  exact ends

theorem withTx_quick {fn : StreamScript α} (inner : Quick n fn) : Quick (n + 7) (withTx fn) := by
  have ends : Quick (1 + (0 + ((n + 3 + 2) + (1 + 0)))) (withTx fn) := by
    apply (ask_quick .connect).bind
    intro connected
    apply (orThrow_quick connected).bind
    intro _
    apply ((inTx_quick inner).handle rollback_quick).bind
    intro r
    apply (ask_quick .release).bind
    intro _
    trivial
  exact ends.mono (by omega)

theorem stream_quick (lines : List String) : Quick 11 (stream lines) := by
  have ends : Quick (1 + ((1 + 2) + 7)) (stream lines) := by
    apply (ask_quick .attach).bind
    intro _
    apply withTx_quick
    apply (query_quick .declare).bind
    intro _
    exact loop_quick _
  exact ends

theorem respond_quick (lines : List String) : Quick 13 (respond lines) := by
  have ends : Quick ((11 + 1) + 1) (respond lines) := by
    apply ((stream_quick lines).bind fun _ => ask_quick .finish).handle
    intro error
    exact ask_quick .destroy
  exact ends

theorem checkList_quick (listId : Option String) : Quick 8 (checkList listId) := by
  cases listId with
  | none => trivial
  | some id =>
    have asks : Quick (1 + 0) (ask .listExists >>= fun found : Except StreamError Bool => orThrow found) := by
      apply (ask_quick .listExists).bind
      intro found
      exact orThrow_quick found
    have asked : Quick 8 listExists := withTx_quick asks
    have ends : Quick (8 + 0) (checkList (some id)) := by
      apply asked.bind
      intro there
      cases there with
      | true => trivial
      | false => trivial
    exact ends

theorem exportContacts_quick (call : Call) : Quick 21 (exportContacts call) :=
  (checkList_quick call.listId).bind fun _ => respond_quick call.lines

end Quick

/-! ## Runs -/

abbrev Running := Config Call Act Reply StreamError Unit State

def begins (idle : Nat) (outs : Nat → Out) : Running := .start ⟨idle, outs, fun _ => .none⟩

def Waiting (config : Running) (pid : Nat) : Prop := (config.procs pid).next = some .drain

/-- The response of this call does not close while the call waits for it. -/
def Unhurried (pid : Nat) (config : Running) (move : Move Call Choice) : Prop :=
  move = .disturb pid .close → ¬ Waiting config pid

def isAct (pid : Nat) : Move Call Choice → Bool
  | .act mover _ => mover = pid
  | _ => false

def Known (status : Status Call Act Reply StreamError Unit) (session : Session) : Prop :=
  match status with
  | .idle => session = .none
  | .running _ script => Follows script session (In .none) (In .none) ∧ Quick 21 script
  | .crashed _ => session = .none

def Sound (pid : Nat) (config : Running) : Prop :=
  Known (config.procs pid) (config.state.sessions pid) ∧
    ((config.state.sessions pid).needDrain = true → config.state.outs pid ≠ .closed)

theorem waiting_iff {status : Status Call Act Reply StreamError Unit} {session : Session}
    (known : Known status session) :
    status.next = some .drain ↔ session.needDrain = true := by
  cases status with
  | idle =>
    cases (show session = .none from known)
    simp [Status.next, Session.none]
  | crashed call =>
    cases (show session = .none from known)
    simp [Status.next, Session.none]
  | running call script =>
    have follows := known.1
    cases script with
    | ret value =>
      cases (show session = .none from follows)
      simp [Status.next, Session.none]
    | fail error =>
      cases (show session = .none from follows)
      simp [Status.next, Session.none]
    | call act rest =>
      have allowed : Allows act session := follows.1
      cases act with
      | drain => exact ⟨fun _ => allowed, fun _ => rfl⟩
      | connect =>
        cases (show session = .none from allowed)
        simp [Status.next, Session.none]
      | query q => simp [Status.next, show session.needDrain = false from allowed.2]
      | listExists => simp [Status.next, show session.needDrain = false from allowed.2]
      | push chunk => simp [Status.next, show session.needDrain = false from allowed.2]
      | release => simp [Status.next, show session.needDrain = false from allowed.2.2]
      | attach => simp [Status.next, show session.needDrain = false from allowed]
      | finish => simp [Status.next, show session.needDrain = false from allowed]
      | destroy => simp [Status.next, show session.needDrain = false from allowed]

-- A drain is due only after a write to a response that has not closed.
theorem undrained_after {idle : Nat} {out : Out} {act : Act} {choice : Choice} {reply : Reply act}
    {session : Session} (allowed : Allows act session) (answered : answer idle out act choice = some reply)
    (due : (session.after act reply).needDrain = true) : out.after act ≠ .closed := by
  cases act with
  | push chunk =>
    cases choice with
    | wrote all =>
      intro closed
      have here : out = .closed := closed
      subst here
      cases answered
      cases due
    | _ => cases answered
  | drain => cases due
  | connect =>
    cases (show session = .none from allowed)
    cases (reply : Except StreamError Unit) <;> cases due
  | query q =>
    have drained : session.needDrain = false := allowed.2
    have kept : (session.after (.query q) reply).needDrain = session.needDrain := by
      cases q <;> cases (reply : Except StreamError Unit) <;> rfl
    rw [kept, drained] at due
    cases due
  | listExists => exact absurd (allowed.2.symm.trans due) Bool.false_ne_true
  | release => exact absurd (allowed.2.2.symm.trans due) Bool.false_ne_true
  | attach => exact absurd ((show session.needDrain = false from allowed).symm.trans due) Bool.false_ne_true
  | finish => exact absurd ((show session.needDrain = false from allowed).symm.trans due) Bool.false_ne_true
  | destroy => exact absurd ((show session.needDrain = false from allowed).symm.trans due) Bool.false_ne_true

theorem Sound.frame {pid : Nat} {config next : Running} (sound : Sound pid config)
    (proc : next.procs pid = config.procs pid)
    (session : next.state.sessions pid = config.state.sessions pid)
    (out : next.state.outs pid = config.state.outs pid) :
    Sound pid next := by
  rw [Sound, proc, session, out]
  exact sound

theorem sound_step {pid : Nat} {config next : Running} {move : Move Call Choice} (sound : Sound pid config)
    (unhurried : Unhurried pid config move) (taken : machine.step exportContacts config move = some next) :
    Sound pid next := by
  cases move with
  | spawn mover call =>
    simp only [Machine.step] at taken
    split at taken
    · next found =>
      cases taken
      by_cases same : pid = mover
      · subst same
        have idle : config.state.sessions pid = .none := by
          have known := sound.1
          rwa [found] at known
        refine ⟨?_, sound.2⟩
        rw [Config.put_same, Config.put_state, idle]
        exact ⟨exportContacts_follows call, exportContacts_quick call⟩
      · exact sound.frame (Config.put_other _ _ _ same) rfl rfl
    · cases taken
  | act mover choice =>
    simp only [Machine.step] at taken
    split at taken
    · next call act rest found =>
      split at taken
      · next reply after answered =>
        cases taken
        obtain ⟨_, got, same'⟩ := Option.map_eq_some_iff.mp answered
        cases same'
        by_cases same : pid = mover
        · subst same
          have known := sound.1
          rw [found] at known
          obtain ⟨⟨allowed, follows⟩, -, quick⟩ := known
          rw [Sound, Config.put_same, Config.put_state]
          simp only [State.after, Function.update_self]
          exact ⟨⟨follows reply, quick reply⟩, undrained_after allowed got⟩
        · exact sound.frame (Config.put_other _ _ _ same) (by simp [State.after, same])
            (by simp [State.after, same])
      · cases taken
    · cases taken
  | disturb mover choice =>
    simp only [Machine.step] at taken
    split at taken
    · next after disturbed =>
      cases taken
      by_cases same : pid = mover
      · subst same
        simp only [machine] at disturbed
        split at disturbed
        · cases disturbed
          exact ⟨sound.1, fun _ => by simp⟩
        · cases disturbed
          refine ⟨sound.1, fun due => absurd ((waiting_iff sound.1).mpr due) (unhurried rfl)⟩
        · cases disturbed
      · simp only [machine] at disturbed
        split at disturbed
        · cases disturbed
          exact sound.frame rfl rfl (by simp [same])
        · cases disturbed
          exact sound.frame rfl rfl (by simp [same])
        · cases disturbed
    · cases taken
  | crash mover =>
    simp only [Machine.step] at taken
    split at taken
    · next call script found =>
      cases taken
      by_cases same : pid = mover
      · subst same
        rw [Sound, Config.put_same, Config.put_state]
        simp [machine, Known, Session.none]
      · exact sound.frame (Config.put_other _ _ _ same) (by simp [machine, same]) rfl
    · cases taken

theorem sound_run {pid idle : Nat} {outs : Nat → Out} {config : Running}
    (run : machine.Within exportContacts (Unhurried pid) (begins idle outs) config) : Sound pid config := by
  have initial : Sound pid (begins idle outs) := ⟨rfl, fun due => by cases due⟩
  exact run.invariant initial fun config next move sound unhurried taken => sound_step sound unhurried taken

/-! ## After the response has closed -/

/-- How many calls of its own may be left to a process. -/
def Left (n : Nat) : Status Call Act Reply StreamError Unit → Prop
  | .idle => 21 ≤ n
  | .running _ script => Brief n script
  | .crashed _ => True

theorem closed_step {pid : Nat} {config next : Running} {move : Move Call Choice}
    (closed : config.state.outs pid = .closed)
    (taken : machine.step exportContacts config move = some next) : next.state.outs pid = .closed := by
  cases move with
  | spawn mover call =>
    simp only [Machine.step] at taken
    split at taken
    · cases taken
      exact closed
    · cases taken
  | act mover choice =>
    simp only [Machine.step] at taken
    split at taken
    · next call act rest found =>
      split at taken
      · next reply after answered =>
        cases taken
        obtain ⟨_, got, same'⟩ := Option.map_eq_some_iff.mp answered
        cases same'
        by_cases same : pid = mover
        · subst same
          simp only [Config.put_state, State.after, Function.update_self, closed]
          cases act <;> rfl
        · simp [State.after, same, closed]
      · cases taken
    · cases taken
  | disturb mover choice =>
    simp only [Machine.step] at taken
    split at taken
    · next after disturbed =>
      cases taken
      by_cases same : pid = mover
      · subst same
        simp only [machine, closed] at disturbed
        cases choice <;> cases disturbed
      · simp only [machine] at disturbed
        split at disturbed <;> cases disturbed <;> simp [same, closed]
    · cases taken
  | crash mover =>
    simp only [Machine.step] at taken
    split at taken
    · cases taken
      exact closed
    · cases taken

theorem left_act {pid n : Nat} {config next : Running} {choice : Choice}
    (closed : config.state.outs pid = .closed)
    (left : Left n (config.procs pid))
    (taken : machine.step exportContacts config (.act pid choice) = some next) :
    ∃ m, n = m + 1 ∧ Left m (next.procs pid) := by
  simp only [Machine.step] at taken
  split at taken
  · next call act rest found =>
    split at taken
    · next reply after answered =>
      cases taken
      obtain ⟨_, got, same⟩ := Option.map_eq_some_iff.mp answered
      cases same
      rw [closed] at got
      rw [found] at left
      cases n with
      | zero => exact left.elim
      | succ m => exact ⟨m, rfl, by rw [Config.put_same]; exact left reply ⟨_, _, got⟩⟩
    · cases taken
  · cases taken

theorem left_other {pid n : Nat} {config next : Running} {move : Move Call Choice}
    (left : Left n (config.procs pid))
    (other : isAct pid move = false) (taken : machine.step exportContacts config move = some next) :
    Left n (next.procs pid) := by
  by_cases same : pid = move.pid
  · subst same
    cases move with
    | spawn mover call =>
      simp only [Machine.step] at taken
      split at taken
      · next found =>
        cases taken
        rw [show config.procs (Move.spawn mover call : Move Call Choice).pid = .idle from found] at left
        simp only [Move.pid, Config.put_same]
        exact (exportContacts_quick call).brief.mono left
      · cases taken
    | act mover choice => simp [isAct, Move.pid] at other
    | disturb mover choice =>
      simp only [Machine.step] at taken
      split at taken
      · cases taken
        exact left
      · cases taken
    | crash mover =>
      simp only [Machine.step] at taken
      split at taken
      · cases taken
        simp only [Move.pid, Config.put_same]
        trivial
      · cases taken
  · rw [step_other taken same]
    exact left

theorem left_moves (list : List (Move Call Choice)) {pid n : Nat} {config last : Running}
    (closed : config.state.outs pid = .closed) (left : Left n (config.procs pid))
    (run : machine.moves exportContacts list config = some last) : list.countP (isAct pid) ≤ n := by
  induction list generalizing n config with
  | nil => simp
  | cons move rest ih =>
    simp only [Machine.moves] at run
    split at run
    · next next taken =>
      have later := closed_step closed taken
      by_cases own : isAct pid move = true
      · rw [List.countP_cons_of_pos own]
        cases move with
        | act mover choice =>
          cases (show mover = pid from of_decide_eq_true own)
          obtain ⟨m, rfl, fewer⟩ := left_act closed left taken
          exact Nat.succ_le_succ (ih later fewer run)
        | _ => cases own
      · rw [List.countP_cons_of_neg own]
        exact ih later (left_other left (Bool.eq_false_iff.mpr own) taken) run
    · cases run

theorem left_of_known {status : Status Call Act Reply StreamError Unit} {session : Session}
    (known : Known status session) :
    Left 21 status := by
  cases status with
  | idle => exact Nat.le_refl _
  | running call script => exact known.2.brief
  | crashed call => trivial

def goOn : Act → Choice
  | .listExists => .found true
  | .push _ => .wrote true
  | _ => .ok

theorem answer_goOn (idle : Nat) {act : Act} {session : Session} (allowed : Allows act session)
    (held : session.held = true)
    (steady : act ≠ .drain) : ∃ reply, answer idle .closed act (goOn act) = some reply := by
  cases act with
  | drain => exact absurd rfl steady
  | connect =>
    rw [show session = .none from allowed] at held
    cases held
  | push chunk => exact ⟨Progress.stopped, rfl⟩
  | _ => exact ⟨_, rfl⟩

-- A call that holds a connection, and does not wait for a drain, can go on.
theorem able {pid : Nat} {config : Running} (known : Known (config.procs pid) (config.state.sessions pid))
    (closed : config.state.outs pid = .closed) (held : (config.state.sessions pid).held = true)
    (steady : ¬ Waiting config pid) : ∃ choice next, machine.step exportContacts config
    (.act pid choice) = some next := by
  have absurd_ (free : config.state.sessions pid = .none) : False := by
    rw [free] at held
    cases held
  generalize found : config.procs pid = status at known
  cases status with
  | idle => exact (absurd_ known).elim
  | crashed call => exact (absurd_ known).elim
  | running call script =>
    cases script with
    | ret value => exact (absurd_ known.1).elim
    | fail error => exact (absurd_ known.1).elim
    | call act rest =>
      have other : act ≠ .drain := by
        intro drains
        apply steady
        rw [Waiting, found]
        exact congrArg some drains
      obtain ⟨reply, answered⟩ := answer_goOn config.state.idle known.1.1 held other
      refine ⟨goOn act, config.put pid (config.state.after pid act reply) (.running call (rest reply)), ?_⟩
      simp [Machine.step, found, machine, closed, answered]

theorem none_of_ended {pid : Nat} {config : Running} {call : Call} {result : Except StreamError Unit}
    (known : Known (config.procs pid) (config.state.sessions pid)) (ended : config.Ended pid call result) :
    config.state.sessions pid = .none := by
  cases result with
  | ok value =>
    rw [show config.procs pid = .running call (.ret value) from ended] at known
    exact known.1
  | error error =>
    rw [show config.procs pid = .running call (.fail error) from ended] at known
    exact known.1

/-- If a response does not close while its call waits for a drain, the call never waits after it has
closed: it can go on while it holds a connection, makes at most 21 more calls, and ends with no
connection and no transaction. -/
theorem stream_ends (idle : Nat) (outs : Nat → Out) (config : Running) (pid : Nat)
    (run : machine.Within exportContacts (Unhurried pid) (begins idle outs) config)
    (closed : config.state.outs pid = .closed) :
    ¬ Waiting config pid ∧
      ((config.state.sessions pid).held = true → ∃ choice next,
        machine.step exportContacts config (.act pid choice) = some next) ∧
      (∀ list last, machine.moves exportContacts list config = some last → list.countP (isAct pid) ≤ 21) ∧
      ∀ call result, config.Ended pid call result → config.state.sessions pid = .none := by
  have sound := sound_run run
  have steady : ¬ Waiting config pid := fun waits => sound.2 ((waiting_iff sound.1).mp waits) closed
  refine ⟨steady, fun held => able sound.1 closed held steady, fun list last later => ?_,
    fun call result ended => ?_⟩
  · exact left_moves list closed (left_of_known sound.1) later
  · exact none_of_ended sound.1 ended

theorem waits_step {pid : Nat} {config next : Running} {move : Move Call Choice}
    (closed : config.state.outs pid = .closed)
    (waits : Waiting config pid) (alive : move ≠ .crash pid)
    (taken : machine.step exportContacts config move = some next) :
    Waiting next pid ∧ next.state.sessions pid = config.state.sessions pid := by
  cases move with
  | spawn mover call =>
    simp only [Machine.step] at taken
    split at taken
    · next found =>
      cases taken
      have other : pid ≠ mover := by
        rintro rfl
        rw [Waiting, found] at waits
        cases waits
      exact ⟨by rwa [Waiting, Config.put_other _ _ _ other], rfl⟩
    · cases taken
  | act mover choice =>
    simp only [Machine.step] at taken
    split at taken
    · next call act rest found =>
      split at taken
      · next reply after answered =>
        cases taken
        obtain ⟨_, got, same⟩ := Option.map_eq_some_iff.mp answered
        cases same
        have other : pid ≠ mover := by
          rintro rfl
          rw [Waiting, found] at waits
          cases (show act = .drain from Option.some.inj waits)
          rw [closed] at got
          exact drain_impossible ⟨_, _, got⟩
        refine ⟨by rwa [Waiting, Config.put_other _ _ _ other], ?_⟩
        simp [State.after, other]
      · cases taken
    · cases taken
  | disturb mover choice =>
    simp only [Machine.step] at taken
    split at taken
    · next after disturbed =>
      cases taken
      refine ⟨waits, ?_⟩
      simp only [machine] at disturbed
      split at disturbed <;> cases disturbed <;> rfl
    · cases taken
  | crash mover =>
    simp only [Machine.step] at taken
    split at taken
    · cases taken
      have other : pid ≠ mover := by
        rintro rfl
        exact alive rfl
      refine ⟨by rwa [Waiting, Config.put_other _ _ _ other], ?_⟩
      simp [machine, other]
    · cases taken

-- A call that waits when its response has closed waits until its process ends.
theorem waits_for_good (list : List (Move Call Choice)) {pid : Nat} {config last : Running}
    (closed : config.state.outs pid = .closed) (waits : Waiting config pid)
    (alive : ∀ move ∈ list, move ≠ .crash pid)
    (run : machine.moves exportContacts list config = some last) :
    Waiting last pid ∧ last.state.sessions pid = config.state.sessions pid := by
  induction list generalizing config with
  | nil =>
    cases run
    exact ⟨waits, rfl⟩
  | cons move rest ih =>
    simp only [Machine.moves] at run
    split at run
    · next next taken =>
      obtain ⟨still, same⟩ := waits_step closed waits (alive move (List.mem_cons_self ..)) taken
      rw [← same]
      exact ih (closed_step closed taken) still (fun later member =>
        alive later (List.mem_cons_of_mem _ member)) run
    · cases run

def two : Call := ⟨none, ["\x7b\"id\": 1\x7d", "\x7b\"id\": 2\x7d"]⟩

def opening : List (Move Call Choice) :=
  [.spawn 0 two, .act 0 .ok, .act 0 .ok, .act 0 .ok, .act 0 .ok, .act 0 .ok, .act 0 .ok,
    .act 0 (.wrote false)]

/-- The client leaves while the call waits for it to read. -/
def left : List (Move Call Choice) := opening ++ [.disturb 0 .cut, .disturb 0 .close]

def read : List (Move Call Choice) := opening ++ [.act 0 .ok, .disturb 0 .cut, .disturb 0 .close]

def writable : Nat → Out := fun _ => .writable

instance (config : Running) (pid : Nat) : Decidable (Waiting config pid) :=
  inferInstanceAs (Decidable ((config.procs pid).next = some .drain))

def unhurried (config : Running) : Move Call Choice → Bool
  | .disturb _ .close => !decide (Waiting config 0)
  | _ => true

theorem unhurried_of (config : Running) (move : Move Call Choice) (checked : unhurried config move = true) :
    Unhurried 0 config move := by
  rintro rfl
  simpa [unhurried] using checked

/-- The client that has read its chunk is gone when the call comes back. -/
theorem stream_ends_read : ∃ config : Running, machine.admitted exportContacts unhurried read
    (begins 4 writable) = some config ∧
    config.state.outs 0 = .closed ∧ config.state.sessions 0 = .busy ∧ ¬ Waiting config 0 := by
  have runs : (machine.admitted exportContacts unhurried read (begins 4 writable)).map
      (fun config => (config.state.outs 0, config.state.sessions 0)) = some (.closed, .busy) := by
    decide +kernel
  obtain ⟨config, ran, found⟩ := Option.map_eq_some_iff.mp runs
  obtain ⟨closed, session⟩ := Prod.mk.inj found
  have reached := machine.within_admitted exportContacts unhurried_of .refl read ran
  exact ⟨config, ran, closed, session, (stream_ends 4 writable config 0 reached closed).1⟩

/-- The other one is waited for, with a connection and a transaction. -/
theorem stream_hangs : ¬ ∀ (idle : Nat) (outs : Nat → Out) (config : Running) (pid : Nat),
    machine.Reaches exportContacts {} (begins idle outs) config → config.state.outs pid = .closed →
    ¬ Waiting config pid := by
  intro ends
  have runs : (machine.moves exportContacts left (begins 4 writable)).map
      (fun config => (config.state.outs 0, decide (Waiting config 0))) = some (.closed, true) := by
    decide +kernel
  obtain ⟨config, ran, found⟩ := Option.map_eq_some_iff.mp runs
  obtain ⟨closed, waits⟩ := Prod.mk.inj found
  exact ends 4 writable config 0 (machine.reaches_moves exportContacts .refl left ran) closed
    (of_decide_eq_true waits)

end OpenEmarsys.Streaming
