import OpenEmarsys.Interleaving.Triples

/-! Superposition: a script that is safe under one rely is safe under a stronger one.

The stronger rely may speak of things the script was not verified for, as long as the
calls the script makes keep what it adds.
-/

set_option autoImplicit false

namespace OpenEmarsys.Interleaving

variable {Call Act : Type} {Reply : Act → Type} {ε α β Choice State : Type}

namespace Script

/-- Whatever the replies, every call of the script is one of these. -/
def Calls (allowed : Act → Prop) : Script Act Reply ε α → Prop
  | .ret _ => True
  | .fail _ => True
  | .call act rest => allowed act ∧ ∀ reply, (rest reply).Calls allowed

variable {allowed : Act → Prop}

theorem Calls.mono {weaker : Act → Prop} {script : Script Act Reply ε α} (calls : script.Calls allowed)
    (imp : ∀ act, allowed act → weaker act) : script.Calls weaker := by
  induction script with
  | ret value => trivial
  | fail error => trivial
  | call act rest ih => exact ⟨imp act calls.1, fun reply => ih reply (calls.2 reply)⟩

theorem Calls.bind {script : Script Act Reply ε α} {next : α → Script Act Reply ε β}
    (calls : script.Calls allowed)
    (later : ∀ value, (next value).Calls allowed) : (script >>= next).Calls allowed := by
  induction script with
  | ret value => exact later value
  | fail error => trivial
  | call act rest ih => exact ⟨calls.1, fun reply => ih reply (calls.2 reply)⟩

/-- Whatever the replies, what the script returns is like this. -/
def Gives (post : α → Prop) : Script Act Reply ε α → Prop
  | .ret value => post value
  | .fail _ => True
  | .call _ rest => ∀ reply, (rest reply).Gives post

theorem gives_any (script : Script Act Reply ε α) : script.Gives fun _ => True := by
  induction script with
  | ret value => trivial
  | fail error => trivial
  | call act rest ih => exact fun reply => ih reply

theorem Gives.bind {script : Script Act Reply ε α} {next : α → Script Act Reply ε β} {middle : α → Prop}
    {post : β → Prop}
    (gives : script.Gives middle) (later : ∀ value, middle value → (next value).Gives post) :
    (script >>= next).Gives post := by
  induction script with
  | ret value => exact later value gives
  | fail error => trivial
  | call act rest ih => exact fun reply => ih reply (gives reply)

theorem Calls.bind_gives {script : Script Act Reply ε α} {next : α → Script Act Reply ε β} {middle : α → Prop}
    (calls : script.Calls allowed) (gives : script.Gives middle)
    (later : ∀ value, middle value → (next value).Calls allowed) :
    (script >>= next).Calls allowed := by
  induction script with
  | ret value => exact later value gives
  | fail error => trivial
  | call act rest ih => exact ⟨calls.1, fun reply => ih reply (calls.2 reply) (gives reply)⟩

theorem Calls.handle {script : Script Act Reply ε α} {handler : ε → Script Act Reply ε α}
    (calls : script.Calls allowed)
    (rescue : ∀ error, (handler error).Calls allowed) : (script.handle handler).Calls allowed := by
  induction script with
  | ret value => trivial
  | fail error => exact rescue error
  | call act rest ih => exact ⟨calls.1, fun reply => ih reply (calls.2 reply)⟩

end Script

-- `Own` is what the process knows beside: others keep it within the stronger rely, and its own calls
-- keep both it and the stronger rely of the others.
theorem Safe.superpose {machine : Machine Act Reply Choice State} {rules : Rules Call Act State}
    {Weak Strong : Nat → State → State → Prop} {Own : State → Prop} {pid : Nat} {allowed : Act → Prop}
    (narrow : ∀ state later, Own state → Strong pid state later → Weak pid state later ∧ Own later)
    (keeps : ∀ act choice state reply next, allowed act → Own state →
      machine.act pid act choice state = some (reply, next) →
      (∀ other, other ≠ pid → Weak other state next) → (∀ other, other ≠ pid →
        Strong other state next) ∧ Own next)
    {script : Script Act Reply ε α} {post : Except ε α → State → Prop} {state : State}
    (safe : Safe machine rules Weak pid script post state) (calls : script.Calls allowed) (own : Own state) :
    Safe machine rules Strong pid script (fun result later => post result later ∧ Own later) state := by
  induction script generalizing state with
  | ret value =>
    intro later moved
    obtain ⟨weak, kept⟩ := narrow state later own moved
    exact ⟨safe later weak, kept⟩
  | fail error =>
    intro later moved
    obtain ⟨weak, kept⟩ := narrow state later own moved
    exact ⟨safe later weak, kept⟩
  | call act rest ih =>
    intro later moved permitted choice reply next taken
    obtain ⟨weak, kept⟩ := narrow state later own moved
    obtain ⟨guarantee, after⟩ := safe later weak permitted choice reply next taken
    obtain ⟨stronger, owns⟩ := keeps act choice later reply next calls.1 kept taken guarantee
    exact ⟨stronger, ih reply after (calls.2 reply) owns⟩

-- Runs of scripts that make only these calls contain no others.
theorem Machine.Reaches.calls {machine : Machine Act Reply Choice State} {code : Call → Script Act Reply ε α}
    {allowed : Act → Prop}
    {first last : Config Call Act Reply ε α State} (run : machine.Reaches code {} first last)
    (calls : ∀ call, (code call).Calls allowed)
    (idle : ∀ pid, first.procs pid = .idle) :
    machine.Reaches code { act := fun _ act _ => allowed act } first last ∧
      ∀ pid call script, last.procs pid = .running call script → script.Calls allowed := by
  induction run with
  | refl => exact ⟨.refl, fun pid call script running => by cases (idle pid).symm.trans running⟩
  | @move config next move _ _ taken ih =>
    obtain ⟨reached, running⟩ := ih
    cases move with
    | spawn pid call =>
      refine ⟨reached.move (.spawn pid call) trivial taken, ?_⟩
      simp only [Machine.step] at taken
      split at taken
      · cases taken
        intro other started script found
        by_cases same : other = pid
        · subst same
          cases (Config.put_same config other _ _).symm.trans found
          exact calls call
        · exact running other started script ((Config.put_other config _ _ same).symm.trans found)
      · cases taken
    | act pid choice =>
      refine ⟨reached.move (.act pid choice) (fun call act rest found => (running pid call _ found).1) taken,
        ?_⟩
      simp only [Machine.step] at taken
      split at taken
      · next call act rest here =>
        split at taken
        · next reply after answered =>
          cases taken
          intro other started script found
          by_cases same : other = pid
          · subst same
            cases (Config.put_same config other _ _).symm.trans found
            exact (running other call _ here).2 reply
          · exact running other started script ((Config.put_other config _ _ same).symm.trans found)
        · cases taken
      · cases taken
    | disturb pid choice =>
      refine ⟨reached.move (.disturb pid choice) trivial taken, ?_⟩
      simp only [Machine.step] at taken
      split at taken
      · cases taken
        exact running
      · cases taken
    | crash pid =>
      refine ⟨reached.move (.crash pid) trivial taken, ?_⟩
      simp only [Machine.step] at taken
      split at taken
      · cases taken
        intro other started script found
        by_cases same : other = pid
        · subst same
          cases (Config.put_same config other _ _).symm.trans found
        · exact running other started script ((Config.put_other config _ _ same).symm.trans found)
      · cases taken

end OpenEmarsys.Interleaving
