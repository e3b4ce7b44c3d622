import OpenEmarsys.Interleaving.Endings
import OpenEmarsys.Interleaving.Triples

/-! `FieldRegistry` of one process, with every tenant: the promises it caches, the loads behind
them, and the calls of `FieldsService` that drop them.

A load runs beside the calls. Its query reads what is committed at one moment, and may fail;
the promise settles later, and a handler registered on it acts on a failure later still.
-/

set_option autoImplicit false

namespace OpenEmarsys.Fields

open Interleaving

section Data
variable (T D : Type)

/-- How far the load behind a promise has come. -/
inductive Phase where
  | started
  | read (definitions : D)
  | fulfilled (definitions : D)
  | rejected
  /-- Its `catch` handler has run. -/
  | handled

structure Load where
  tenant : T
  phase : Phase D

/-- The definitions of each tenant after each of its commits, and the registry. -/
structure State where
  version : T → Nat
  definitions : T → Nat → D
  cache : T → Option Nat
  /-- By number of their promise. -/
  loads : List (Load T D)

/-- What a process awaits, and what it does to the cache without awaiting. -/
inductive Act where
  /-- `cache.get`, and a new load when there is no entry. -/
  | hit (tenant : T)
  | settled (promise : Nat)
  /-- The check before a field is marked deleted. -/
  | findFirst (tenant : T)
  | transaction (tenant : T)
  | invalidate (tenant : T)

/-- How a transaction ended for its caller, and with which commit. -/
structure Ending where
  commit : Option Nat
  reported : Bool

def Reply : Act T → Type
  | .hit _ => Nat
  | .settled _ => Option D
  | .findFirst _ => Bool
  | .transaction _ => Ending
  | .invalidate _ => Unit

inductive Choice where
  | plain
  | allow
  | refuse
  | commit (definitions : D)
  /-- The commit succeeds and its reply is lost. -/
  | lose (definitions : D)
  | abort
  | read (promise : Nat)
  | fail (promise : Nat)
  | fulfil (promise : Nat)
  | handle (promise : Nat)

end Data

variable {T D : Type} [DecidableEq T]

namespace State

def start (state : State T D) (tenant : T) : State T D :=
  { state with
    cache := Function.update state.cache tenant (some state.loads.length)
    loads := state.loads ++ [⟨tenant, .started⟩] }

def delete (state : State T D) (tenant : T) : State T D :=
  { state with cache := Function.update state.cache tenant none }

def commit (state : State T D) (tenant : T) (definitions : D) : State T D :=
  { state with
    version := Function.update state.version tenant (state.version tenant + 1)
    definitions := fun other version =>
      if other = tenant ∧ version = state.version tenant + 1 then definitions
        else state.definitions other version }

def advance (state : State T D) (promise : Nat) (tenant : T) (phase : Phase D) : State T D :=
  { state with loads := state.loads.set promise ⟨tenant, phase⟩ }

def current (state : State T D) (tenant : T) : D := state.definitions tenant (state.version tenant)

end State

/-- What the runtime does for the load of a promise. -/
def progress (state : State T D) : Choice D → Option (State T D)
  | .read promise =>
      match state.loads[promise]? with
      | some ⟨tenant, .started⟩ => some (state.advance promise tenant (.read (state.current tenant)))
      | _ => none
  | .fail promise =>
      match state.loads[promise]? with
      | some ⟨tenant, .started⟩ => some (state.advance promise tenant .rejected)
      | some ⟨tenant, .read _⟩ => some (state.advance promise tenant .rejected)
      | _ => none
  | .fulfil promise =>
      match state.loads[promise]? with
      | some ⟨tenant, .read definitions⟩ => some (state.advance promise tenant (.fulfilled definitions))
      | _ => none
  | .handle promise =>
      match state.loads[promise]? with
      | some ⟨tenant, .rejected⟩ => some ((state.advance promise tenant .handled).delete tenant)
      | _ => none
  | _ => none

def answer (state : State T D) : (act : Act T) → Choice D → Option (Reply T D act × State T D)
  | .hit tenant, _ =>
      match state.cache tenant with
      | some promise => some (promise, state)
      | none => some (state.loads.length, state.start tenant)
  | .settled promise, _ =>
      match state.loads[promise]? with
      | some ⟨_, .fulfilled definitions⟩ => some (some definitions, state)
      | some ⟨_, .rejected⟩ => some (none, state)
      | some ⟨_, .handled⟩ => some (none, state)
      | _ => none
  | .findFirst _, .allow => some (true, state)
  | .findFirst _, .refuse => some (false, state)
  | .transaction tenant, .commit definitions =>
      some (⟨some (state.version tenant + 1), true⟩, state.commit tenant definitions)
  | .transaction tenant, .lose definitions =>
      some (⟨some (state.version tenant + 1), false⟩, state.commit tenant definitions)
  | .transaction _, .abort => some (⟨none, false⟩, state)
  | .invalidate tenant, _ => some ((), state.delete tenant)
  | _, _ => none

/-- A caller that is given up leaves the loads to the runtime. -/
def machine (T D : Type) [DecidableEq T] : Machine (Act T) (Reply T D) (Choice D) (State T D) where
  act _ act choice state := answer state act choice
  disturb _ choice state := progress state choice
  crash _ state := state

inductive Call (T : Type) where
  | fields (tenant : T)
  | create (tenant : T)
  | update (tenant : T)
  | remove (tenant : T)
  deriving DecidableEq

/-- What a call ended with: a caller of `fields` knows its promise, and a change has its commit. -/
inductive Answer (D : Type) where
  | served (promise : Nat) (definitions : D)
  | changed (commit : Option Nat)
  deriving DecidableEq

inductive Failure where
  | load (promise : Nat)
  | refused
  | transaction (commit : Option Nat)
  deriving DecidableEq

abbrev FieldScript (T D α : Type) := Script (Act T) (Reply T D) Failure α

def ask (act : Act T) : FieldScript T D (Reply T D act) := Script.await act

def fields (tenant : T) : FieldScript T D (Answer D) := do
  let hit : Nat ← ask (.hit tenant)
  let result : Option D ← ask (.settled hit)
  match result with
  | some definitions => pure (.served hit definitions)
  | none => throw (.load hit)

def transaction (tenant : T) : FieldScript T D (Answer D) := do
  let ending : Ending ← ask (.transaction tenant)
  if ending.reported then pure (.changed ending.commit) else throw (.transaction ending.commit)

/-- `create` and `update`: the cached definitions are dropped whatever happens. -/
def change (tenant : T) : FieldScript T D (Answer D) := do
  let row ← (transaction tenant).handle fun error => do
    let _ ← ask (.invalidate tenant)
    throw error
  let _ ← ask (.invalidate tenant)
  pure row

def create (tenant : T) : FieldScript T D (Answer D) := change tenant

def update (tenant : T) : FieldScript T D (Answer D) := change tenant

/-- Its failures leave the cached definitions. -/
def remove (tenant : T) : FieldScript T D (Answer D) := do
  let found : Bool ← ask (.findFirst tenant)
  if !found then throw .refused
  let row ← transaction tenant
  let _ ← ask (.invalidate tenant)
  pure row

def code : Call T → FieldScript T D (Answer D)
  | .fields tenant => fields tenant
  | .create tenant => create tenant
  | .update tenant => update tenant
  | .remove tenant => remove tenant

end OpenEmarsys.Fields
