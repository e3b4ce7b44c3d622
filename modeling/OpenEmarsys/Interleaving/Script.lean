import Mathlib.Logic.Function.Basic

/-! Scripts: asynchronous code as the tree of its atomic calls.

A script either returns, fails, or makes one call and continues with the reply.
Everything between two calls is ordinary Lean, so a process can be interrupted
only where the program it models awaits something.
-/

set_option autoImplicit false

namespace OpenEmarsys.Interleaving

inductive Script (Act : Type) (Reply : Act → Type) (ε α : Type) where
  | ret (value : α)
  | fail (error : ε)
  | call (act : Act) (rest : Reply act → Script Act Reply ε α)

namespace Script

variable {Act : Type} {Reply : Act → Type} {ε α β γ : Type}

def bind : Script Act Reply ε α → (α → Script Act Reply ε β) → Script Act Reply ε β
  | .ret value, next => next value
  | .fail error, _ => .fail error
  | .call act rest, next => .call act fun reply => (rest reply).bind next

/-- `try`/`catch`: the handler sees the first failure of the script. -/
def handle : Script Act Reply ε α → (ε → Script Act Reply ε α) → Script Act Reply ε α
  | .ret value, _ => .ret value
  | .fail error, handler => handler error
  | .call act rest, handler => .call act fun reply => (rest reply).handle handler

instance : Monad (Script Act Reply ε) where
  pure := .ret
  bind := .bind

instance : MonadExceptOf ε (Script Act Reply ε) where
  throw := .fail
  tryCatch := .handle

def await (act : Act) : Script Act Reply ε (Reply act) := .call act .ret

@[simp] theorem pure_eq (value : α) : (pure value : Script Act Reply ε α) = .ret value := rfl

@[simp] theorem throw_eq (error : ε) : (throw error : Script Act Reply ε α) = .fail error := rfl

@[simp] theorem bind_ret (value : α) (next : α → Script Act Reply ε β) :
    (.ret value : Script Act Reply ε α) >>= next = next value := rfl

@[simp] theorem bind_fail (error : ε) (next : α → Script Act Reply ε β) :
    (.fail error : Script Act Reply ε α) >>= next = .fail error := rfl

@[simp] theorem bind_call (act : Act) (rest : Reply act → Script Act Reply ε α)
    (next : α → Script Act Reply ε β) :
    (.call act rest : Script Act Reply ε α) >>= next = .call act (fun reply => rest reply >>= next) := rfl

/-- Run a script alone, each call answered by `answer` at once. -/
def eval {State : Type} (answer : (act : Act) → State → Reply act × State) :
    Script Act Reply ε α → State → Except ε α × State
  | .ret value, state => (.ok value, state)
  | .fail error, state => (.error error, state)
  | .call act rest, state =>
      let (reply, next) := answer act state
      (rest reply).eval answer next

section Eval
variable {State : Type} (answer : (act : Act) → State → Reply act × State)

@[simp] theorem eval_ret (value : α) (state : State) :
    (.ret value : Script Act Reply ε α).eval answer state = (.ok value, state) := rfl

@[simp] theorem eval_fail (error : ε) (state : State) :
    (.fail error : Script Act Reply ε α).eval answer state = (.error error, state) := rfl

@[simp] theorem eval_call (act : Act) (rest : Reply act → Script Act Reply ε α) (state : State) :
    (.call act rest : Script Act Reply ε α).eval answer state =
      (rest (answer act state).1).eval answer (answer act state).2 := rfl

theorem eval_bind (script : Script Act Reply ε α) (next : α → Script Act Reply ε β) (state : State) :
    (script >>= next).eval answer state =
      match script.eval answer state with
      | (.ok value, after) => (next value).eval answer after
      | (.error error, after) => (.error error, after) := by
  induction script generalizing state with
  | ret value => rfl
  | fail error => rfl
  | call act rest ih => exact ih _ _

theorem eval_handle (script : Script Act Reply ε α) (handler : ε → Script Act Reply ε α) (state : State) :
    (script.handle handler).eval answer state =
      match script.eval answer state with
      | (.ok value, after) => (.ok value, after)
      | (.error error, after) => (handler error).eval answer after := by
  induction script generalizing state with
  | ret value => rfl
  | fail error => rfl
  | call act rest ih => exact ih _ _

/-- What an observer sees of the calls of a script, in the order it makes them. -/
def sights {Sight : Type} (see : (act : Act) → Reply act → List Sight) :
    Script Act Reply ε α → State → List Sight
  | .ret _, _ => []
  | .fail _, _ => []
  | .call act rest, state =>
      let (reply, next) := answer act state
      see act reply ++ (rest reply).sights see next

theorem sights_bind {Sight : Type} (see : (act : Act) → Reply act → List Sight)
    (script : Script Act Reply ε α) (next : α → Script Act Reply ε β) (state : State) :
    (script >>= next).sights answer see state = script.sights answer see state ++
      match script.eval answer state with
      | (.ok value, after) => (next value).sights answer see after
      | (.error _, _) => [] := by
  induction script generalizing state with
  | ret value => rfl
  | fail error => rfl
  | call act rest ih => exact (congrArg _ (ih _ _)).trans (List.append_assoc ..).symm

end Eval

section Ends
variable {State Choice : Type} (answer : (act : Act) → Choice → State → Option (Reply act × State))

/-- However its calls are answered, the script ends as `post` says. -/
def Ends : Script Act Reply ε α → (Except ε α → State → Prop) → State → Prop
  | .ret value, post, state => post (.ok value) state
  | .fail error, post, state => post (.error error) state
  | .call act rest, post, state =>
      ∀ choice reply next, answer act choice state = some (reply, next) → (rest reply).Ends post next

def Yields : Script Act Reply ε α → State → Except ε α → State → Prop
  | .ret value, state, result, last => result = .ok value ∧ last = state
  | .fail error, state, result, last => result = .error error ∧ last = state
  | .call act rest, state, result, last =>
      ∃ choice reply next, answer act choice state = some (reply, next) ∧ (rest reply).Yields next result last

/-- Follow a script, each call answered with the choice picked for it. -/
def follow (pick : Act → State → Choice) : Script Act Reply ε α → State → Option (Except ε α × State)
  | .ret value, state => some (.ok value, state)
  | .fail error, state => some (.error error, state)
  | .call act rest, state =>
      match answer act (pick act state) state with
      | some (reply, next) => (rest reply).follow pick next
      | none => none

variable {answer} {script : Script Act Reply ε α} {post : Except ε α → State → Prop} {state : State}

theorem Ends.mono {weaker : Except ε α → State → Prop} (ends : script.Ends answer post state)
    (imp : ∀ result last, post result last → weaker result last) : script.Ends answer weaker state := by
  induction script generalizing state with
  | ret value => exact imp _ _ ends
  | fail error => exact imp _ _ ends
  | call act rest ih => exact fun choice reply next taken => ih reply (ends choice reply next taken)

theorem Ends.bind {first : Script Act Reply ε β} {next : β → Script Act Reply ε α}
    (ends : first.Ends answer (fun result middle =>
      match result with
      | .ok value => (next value).Ends answer post middle
      | .error error => post (.error error) middle) state) :
    (first >>= next).Ends answer post state := by
  induction first generalizing state with
  | ret value => exact ends
  | fail error => exact ends
  | call act rest ih => exact fun choice reply middle taken => ih reply (ends choice reply middle taken)

theorem Ends.handle {handler : ε → Script Act Reply ε α}
    (ends : script.Ends answer (fun result middle =>
      match result with
      | .ok value => post (.ok value) middle
      | .error error => (handler error).Ends answer post middle) state) :
    (script.handle handler).Ends answer post state := by
  induction script generalizing state with
  | ret value => exact ends
  | fail error => exact ends
  | call act rest ih => exact fun choice reply middle taken => ih reply (ends choice reply middle taken)

theorem Ends.yields {result : Except ε α} {last : State} (ends : script.Ends answer post state)
    (yields : script.Yields answer state result last) : post result last := by
  induction script generalizing state with
  | ret value =>
      obtain ⟨rfl, rfl⟩ := yields
      exact ends
  | fail error =>
      obtain ⟨rfl, rfl⟩ := yields
      exact ends
  | call act rest ih =>
      obtain ⟨choice, reply, next, taken, later⟩ := yields
      exact ih reply (ends choice reply next taken) later

theorem yields_follow {pick : Act → State → Choice} {result : Except ε α} {last : State}
    (followed : script.follow answer pick state = some (result, last)) :
    script.Yields answer state result last := by
  induction script generalizing state with
  | ret value =>
      cases followed
      exact ⟨rfl, rfl⟩
  | fail error =>
      cases followed
      exact ⟨rfl, rfl⟩
  | call act rest ih =>
      simp only [follow] at followed
      split at followed
      · next reply next taken => exact ⟨_, reply, next, taken, ih reply followed⟩
      · cases followed

end Ends

end Script

/-- A state that each call and its reply move on, and the calls it allows. -/
structure Typestate (Act : Type) (Reply : Act → Type) (S : Type) where
  allows : Act → S → Prop
  after : (act : Act) → Reply act → S → S

namespace Script

variable {Act S : Type} {Reply : Act → Type} {ε α β : Type} (typestate : Typestate Act Reply S)

/-- All calls of the script are allowed, whatever the replies. -/
def Follows : Script Act Reply ε α → S → (α → S → Prop) → (ε → S → Prop) → Prop
  | .ret value, state, returns, _ => returns value state
  | .fail error, state, _, throws => throws error state
  | .call act rest, state, returns, throws =>
      typestate.allows act state ∧
        ∀ reply, (rest reply).Follows (typestate.after act reply state) returns throws

variable {typestate} {state : S} {returns : α → S → Prop} {throws : ε → S → Prop}

theorem Follows.mono {others : α → S → Prop} {errors : ε → S → Prop} {script : Script Act Reply ε α}
    (follows : script.Follows typestate state returns throws)
    (values : ∀ value state, returns value state → others value state)
    (failures : ∀ error state, throws error state → errors error state) :
    script.Follows typestate state others errors := by
  induction script generalizing state with
  | ret value => exact values value state follows
  | fail error => exact failures error state follows
  | call act rest ih => exact ⟨follows.1, fun reply => ih reply (follows.2 reply)⟩

theorem Follows.bind {script : Script Act Reply ε β} {next : β → Script Act Reply ε α} {middle : β → S → Prop}
    (follows : script.Follows typestate state middle throws)
    (later : ∀ value state, middle value state → (next value).Follows typestate state returns throws) :
    (script >>= next).Follows typestate state returns throws := by
  induction script generalizing state with
  | ret value => exact later value state follows
  | fail error => exact follows
  | call act rest ih => exact ⟨follows.1, fun reply => ih reply (follows.2 reply)⟩

theorem Follows.handle {script : Script Act Reply ε α} {handler : ε → Script Act Reply ε α}
    {caught : ε → S → Prop} (follows : script.Follows typestate state returns caught)
    (rescue : ∀ error state, caught error state → (handler error).Follows typestate state returns throws) :
    (script.handle handler).Follows typestate state returns throws := by
  induction script generalizing state with
  | ret value => exact follows
  | fail error => exact rescue error state follows
  | call act rest ih => exact ⟨follows.1, fun reply => ih reply (follows.2 reply)⟩

end Script

end OpenEmarsys.Interleaving
