import OpenEmarsys.Tenancy.Scope
import Mathlib.Data.List.Forall2

/-! When every operation of a program runs in a transaction scoped to its tenant.

The hook trusts a flag that everything called inside a callback inherits, and the context
an operation is awaited in. It is right about an operation exactly when the transaction
it lands in was opened under the tenant, or the system scope, the operation was called under.
-/

set_option autoImplicit false

namespace OpenEmarsys.Tenancy

variable {Args : Type} {systemRole : Option Role}

/-- The operation threw, or its transaction was scoped as the place of the call asks.
System scope without a role sets nothing, and asks for nothing. -/
def Event.Scoped (systemRole : Option Role) (event : Event Args) : Prop :=
  match event.outcome with
  | .error _ => True
  | .ok transaction =>
      if event.called.systemScope then ∀ role, systemRole = some role → setRole role ∈ transaction
      else ∃ tenant, event.called.tenant = some tenant ∧
        ∃ set : TenantId, set.uuid = tenant.uuid ∧ setTenant set.text ∈ transaction

/-- A transaction opened in one context serves operations called in another. -/
def Serves (systemRole : Option Role) (opened called : AsyncContext) : Prop :=
  if called.systemScope then systemRole = none ∨ opened.systemScope = true
  else opened.systemScope = false ∧
    ∃ set tenant, opened.tenant = some set ∧ called.tenant = some tenant ∧ set.uuid = tenant.uuid

/-- A `$transaction` can be opened here. -/
def CanOpen (context : AsyncContext) : Prop := context.systemScope = true ∨ context.tenant.isSome = true

/-- An operation called in `called` and awaited in `context`, where transactions opened in `opened` are
open: on the scoped client it is awaited outside callbacks and under the scope it was called under,
unless nothing is asked for; on the client of a transaction it was called under the scope of that
transaction. -/
def Fits (systemRole : Option Role) (context : AsyncContext) (opened : List (Nat × AsyncContext))
    (operation : Made Args) : Prop :=
  match operation.bound with
  | none =>
      if context.inScopedTx then operation.called.systemScope = true ∧ systemRole = none
      else CanOpen context → Serves systemRole context operation.called
  | some number => ∀ outer, opened.lookup number = some outer → Serves systemRole outer operation.called

/-- An operation given to `$transaction` in an array was called under the scope of the array, or under that of
the transaction of its client. -/
def FitsArray (systemRole : Option Role) (context : AsyncContext) (opened : List (Nat × AsyncContext))
    (operation : Made Args) : Prop :=
  match operation.bound with
  | none => Serves systemRole context operation.called
  | some number => ∀ outer, opened.lookup number = some outer → Serves systemRole outer operation.called

/-- Every operation fits where it is awaited first, and where it is given in an array. -/
def Disciplined (systemRole : Option Role) : AsyncContext → List (Nat × AsyncContext) → Program Args →
    Operations Args → Prop
  | _, _, .nothing, _ => True
  | context, opened, .both first second, state =>
      Disciplined systemRole context opened first state ∧
        Disciplined systemRole context opened second (after systemRole context
          (opened.map Prod.fst) first state)
  | _, _, .operation _ _, _ => True
  | context, opened, .await i, state =>
      ∀ operation, state.made[i]? = some operation → operation.settled = false →
        Fits systemRole context opened operation
  | context, opened, .run text body, state =>
      ∀ tenant, tenantId text = some tenant →
        Disciplined systemRole (context.withTenant tenant) opened body state
  | context, opened, .withSystemScope body, state => Disciplined systemRole context.inSystem opened body state
  | context, opened, .transaction callback, state =>
      CanOpen context → Disciplined systemRole context.inTx ((state.opened, context) :: opened) callback
        { state with opened := state.opened + 1 }
  | context, opened, .batch elements, state =>
      CanOpen context → ∀ operations, (elements.mapM fun i => state.made[i]?) = some operations →
        ∀ operation ∈ operations, FitsArray systemRole context opened operation

theorem scopeStatement_ok {context : AsyncContext} :
    (∃ statement, scopeStatement systemRole context = .ok statement) ↔ CanOpen context := by
  cases system : context.systemScope <;> cases tenant : context.tenant <;>
    simp [scopeStatement, requireTenant, CanOpen, system, tenant, Except.map]

theorem setTenant_inj {left right : String} (same : setTenant left = setTenant right) : left = right := by
  have params : [left] = [right] := congrArg Statement.params same
  exact List.head_eq_of_cons_eq params

theorem setTenant_ne_setRole (tenant : String) (role : Role) : setTenant tenant ≠ setRole role := by
  intro same
  have params : [tenant] = [] := congrArg Statement.params same
  cases params

theorem scoped_iff_serves {opened : AsyncContext} {statement : Option Statement} (called : AsyncContext)
    (args : Args) (setting : scopeStatement systemRole opened = .ok statement) :
    (Event.mk args called (.ok statement.toList)).Scoped systemRole ↔ Serves systemRole opened called := by
  unfold Event.Scoped Serves
  cases system : opened.systemScope with
  | true =>
      have set : statement = systemRole.map setRole := by
        simpa [scopeStatement, system, eq_comm] using setting
      subst set
      cases systemRole with
      | none => by_cases inner : called.systemScope = true <;> simp [inner]
      | some role =>
          by_cases inner : called.systemScope = true
          · simp [inner]
          · simp [inner, setTenant_ne_setRole]
  | false =>
      cases found : opened.tenant with
      | none => simp [scopeStatement, requireTenant, system, found, Except.map] at setting
      | some tenant =>
          have set : statement = some (setTenant tenant.text) := by
            simpa [scopeStatement, requireTenant, system, found, Except.map, eq_comm] using setting
          subst set
          by_cases inner : called.systemScope = true
          · cases systemRole with
            | none => simp [inner]
            | some role => simp [inner, (setTenant_ne_setRole tenant.text role).symm]
          · simp only [inner, Option.toList_some, List.mem_singleton]
            constructor
            · rintro ⟨current, at_, set, same, equal⟩
              have text := setTenant_inj equal
              have uuid : set.uuid = tenant.uuid := by simp [TenantId.uuid, text]
              exact ⟨trivial, tenant, current, rfl, at_, uuid.symm.trans same⟩
            · rintro ⟨-, set, current, own, at_, same⟩
              cases own
              exact ⟨current, at_, tenant, same, rfl⟩

-- An operation in no transaction of its own is scoped only where nothing is asked for.
theorem scoped_nil (args : Args) (called : AsyncContext) :
    (Event.mk args called (.ok [])).Scoped systemRole ↔ called.systemScope = true ∧ systemRole = none := by
  by_cases system : called.systemScope = true <;> cases systemRole <;> simp [Event.Scoped, system]

/-- The transactions open around a call, each with the statement of the context it was opened in. -/
structure Enclosed (systemRole : Option Role) (context : AsyncContext) (opened : List (Nat × AsyncContext))
    (enclosing : List (Nat × Transaction)) : Prop where
  scopes : List.Forall₂ (fun outer inner => outer.1 = inner.1 ∧
      ∃ statement, scopeStatement systemRole outer.2 = .ok statement ∧
      statement.toList = inner.2) opened enclosing
  inTx : opened ≠ [] → context.inScopedTx = true

namespace Enclosed

variable {context : AsyncContext} {opened : List (Nat × AsyncContext)} {enclosing : List (Nat × Transaction)}

theorem numbers (enclosed : Enclosed systemRole context opened enclosing) :
    opened.map Prod.fst = enclosing.map Prod.fst := by
  have scopes := enclosed.scopes
  clear enclosed
  induction scopes with
  | nil => rfl
  | cons head _ ih => rw [List.map_cons, List.map_cons, head.1, ih]

theorem lookup (enclosed : Enclosed systemRole context opened enclosing) (number : Nat) :
    (opened.lookup number = none ∧ enclosing.lookup number = none) ∨
      ∃ outer statement, opened.lookup number = some outer ∧
      scopeStatement systemRole outer = .ok statement ∧ enclosing.lookup number = some statement.toList := by
  have scopes := enclosed.scopes
  clear enclosed
  induction scopes with
  | nil => exact .inl ⟨rfl, rfl⟩
  | @cons outer inner _ _ head _ ih =>
      obtain ⟨same, statement, setting, set⟩ := head
      by_cases here : number = outer.1
      · refine .inr ⟨outer.2, statement, ?_, setting, ?_⟩
        · rw [List.lookup_cons, here, beq_self_eq_true]
        · rw [List.lookup_cons, here, same, beq_self_eq_true, set]
      · rw [List.lookup_cons, List.lookup_cons, ← same, beq_eq_false_iff_ne.mpr here]
        exact ih

theorem withTenant (enclosed : Enclosed systemRole context opened enclosing) (tenant : TenantId) :
    Enclosed systemRole (context.withTenant tenant) opened enclosing :=
  ⟨enclosed.scopes, enclosed.inTx⟩

theorem inSystem (enclosed : Enclosed systemRole context opened enclosing) :
    Enclosed systemRole context.inSystem opened enclosing :=
  ⟨enclosed.scopes, enclosed.inTx⟩

theorem push (enclosed : Enclosed systemRole context opened enclosing) {statement : Option Statement}
    (number : Nat) (setting : scopeStatement systemRole context = .ok statement) :
    Enclosed systemRole context.inTx ((number, context) :: opened)
    ((number, statement.toList) :: enclosing) :=
  ⟨.cons ⟨rfl, statement, setting, rfl⟩ enclosed.scopes, fun _ => rfl⟩

-- An operation on the client of a transaction runs in that transaction, whatever context it is awaited
-- in.
theorem bound_scoped (enclosed : Enclosed systemRole context opened enclosing) {awaited : AsyncContext}
    (inside : opened ≠ [] → awaited.inScopedTx = true) {operation : Made Args} {number : Nat}
    (own : Transaction) (bound : operation.bound = some number) :
    (Event.mk operation.args operation.called (operate systemRole awaited enclosing own operation)).Scoped
    systemRole ↔
      ∀ outer, opened.lookup number = some outer → Serves systemRole outer operation.called := by
  simp only [operate, bound]
  rcases enclosed.lookup number with ⟨closed, gone⟩ | ⟨outer, statement, here, setting, there⟩
  · simp [closed, gone, Event.Scoped]
  · have entered : opened ≠ [] := by
      rintro rfl
      cases here
    simp only [there, here, allOperations, inside entered, if_true, Option.some.injEq, forall_eq']
    exact scoped_iff_serves operation.called operation.args setting

end Enclosed

section Operations
variable {context : AsyncContext} {opened : List (Nat × AsyncContext)} {enclosing : List (Nat × Transaction)}
  {operation : Made Args}

theorem extended_scoped (extended : operation.bound = none) :
    (Event.mk operation.args operation.called (operate systemRole context enclosing [] operation)).Scoped
    systemRole ↔
      Fits systemRole context opened operation := by
  simp only [operate, Fits, extended, allOperations]
  cases inside : context.inScopedTx with
  | true => simpa using scoped_nil operation.args operation.called
  | false =>
      simp only [Bool.false_eq_true, if_false]
      cases setting : scopeStatement systemRole context with
      | error error =>
          have closed : ¬ CanOpen context := fun able => by
            obtain ⟨statement, found⟩ := scopeStatement_ok.mpr able
            rw [setting] at found
            cases found
          exact ⟨fun _ able => absurd able closed, fun _ => trivial⟩
      | ok statement =>
          have able : CanOpen context := scopeStatement_ok.mp ⟨statement, setting⟩
          have serves := scoped_iff_serves operation.called operation.args setting
          simp only [able, true_implies]
          cases statement <;> exact serves

-- An operation that is awaited is served by the context it is awaited in, or by that of its
-- transaction.
theorem awaited_scoped (enclosed : Enclosed systemRole context opened enclosing) :
    (Event.mk operation.args operation.called (operate systemRole context enclosing [] operation)).Scoped
    systemRole ↔
      Fits systemRole context opened operation := by
  cases bound : operation.bound with
  | none => exact extended_scoped bound
  | some number =>
      simp only [Fits, bound]
      exact enclosed.bound_scoped enclosed.inTx [] bound

-- An operation of an array is served by the context of the array, or by that of its transaction.
theorem element_scoped (enclosed : Enclosed systemRole context opened enclosing)
    {statement : Option Statement} (setting : scopeStatement systemRole context = .ok statement) :
    (Event.mk operation.args operation.called (operate systemRole (if statement.isSome
      then context.inTx else context)
      enclosing statement.toList operation)).Scoped systemRole ↔
      FitsArray systemRole context opened operation := by
  cases bound : operation.bound with
  | some number =>
      simp only [FitsArray, bound]
      refine enclosed.bound_scoped (fun entered => ?_) _ bound
      cases statement with
      | some set => rfl
      | none => exact enclosed.inTx entered
  | none =>
      simp only [FitsArray, bound]
      rw [← scoped_iff_serves operation.called operation.args setting]
      cases statement with
      | some set => simp [operate, bound, allOperations, AsyncContext.inTx]
      | none => simp [operate, bound, allOperations, setting]

theorem batch_scoped (enclosed : Enclosed systemRole context opened enclosing) (elements : List Nat)
    (state : Operations Args) :
    (∀ event ∈ exec systemRole context enclosing (.batch elements) state, event.Scoped systemRole) ↔
      Disciplined systemRole context opened (.batch elements) state := by
  simp only [exec, Disciplined]
  cases setting : scopeStatement systemRole context with
  | error error =>
      have closed : ¬ CanOpen context := fun able => by
        obtain ⟨statement, found⟩ := scopeStatement_ok.mpr able
        rw [setting] at found
        cases found
      simp [closed]
  | ok statement =>
      have able : CanOpen context := scopeStatement_ok.mp ⟨statement, setting⟩
      cases found : elements.mapM fun i => state.made[i]? with
      | none => simp
      | some operations =>
          simp only [able, true_implies, Option.some.injEq, forall_eq', List.forall_mem_map]
          exact forall₂_congr fun operation _ => element_scoped enclosed setting

end Operations

theorem exec_scoped {context : AsyncContext} {opened : List (Nat × AsyncContext)}
    {enclosing : List (Nat × Transaction)}
    (enclosed : Enclosed systemRole context opened enclosing) (program : Program Args)
    (state : Operations Args) :
    (∀ event ∈ exec systemRole context enclosing program state, event.Scoped systemRole) ↔
      Disciplined systemRole context opened program state := by
  induction program generalizing context opened enclosing state with
  | nothing => simp [exec, Disciplined]
  | both first second ihFirst ihSecond =>
      simp only [exec, Disciplined, List.mem_append, or_imp, forall_and, ihFirst enclosed,
        ihSecond enclosed, enclosed.numbers]
  | operation client args => simp [exec, Disciplined]
  | await i =>
      simp only [exec, Disciplined]
      cases state.made[i]? with
      | none => simp
      | some operation =>
          cases settled : operation.settled with
          | true => simp [settled]
          | false => simpa [settled] using awaited_scoped enclosed
  | run text body ih =>
      cases valid : tenantId text with
      | none => simp [exec, Disciplined, valid]
      | some tenant => simpa [exec, Disciplined, valid] using ih (enclosed.withTenant tenant) state
  | withSystemScope body ih => exact ih enclosed.inSystem state
  | transaction callback ih =>
      cases setting : scopeStatement systemRole context with
      | error error =>
          have closed : ¬ CanOpen context := fun able => by
            obtain ⟨statement, found⟩ := scopeStatement_ok.mpr able
            rw [setting] at found
            cases found
          simp [exec, Disciplined, setting, closed]
      | ok statement =>
          have able : CanOpen context := scopeStatement_ok.mp ⟨statement, setting⟩
          simpa [exec, Disciplined, setting, able] using ih (enclosed.push state.opened setting) _
  | batch elements => exact batch_scoped enclosed elements state

theorem enclosed_empty : Enclosed systemRole .empty [] [] := ⟨.nil, fun absurd_ => absurd rfl absurd_⟩

theorem awaited_elsewhere {first second : String} (validFirst : UUID first = true)
    (validSecond : UUID second = true)
    (distinct : (TenantId.mk first validFirst).uuid ≠ (TenantId.mk second validSecond).uuid) (args : Args) :
    ¬ ∀ event ∈ execute systemRole (.run second (.both (.run first (.operation .extended args)) (.await 0))),
      event.Scoped systemRole := by
  rw [execute, exec_scoped enclosed_empty]
  simp [Disciplined, after, tenantId, validFirst, validSecond, Client.bound, Operations.make,
    Fits, CanOpen, Serves,
    AsyncContext.empty, AsyncContext.withTenant, distinct.symm]

/-- A program keeps every operation in the scope it was called in exactly when it is disciplined. -/
theorem withTenantScope_scoped_iff (systemRole : Option Role) (program : Program Args) :
    (∀ event ∈ execute systemRole program, event.Scoped systemRole) ↔
      Disciplined systemRole .empty [] program ⟨[], 0⟩ :=
  exec_scoped enclosed_empty program ⟨[], 0⟩

/-- An operation on the scoped client inside a callback runs with no tenant set. -/
theorem withTenantScope_leaks :
    ¬ ∀ program : Program String, ∀ event ∈ execute none program, event.Scoped none := by
  intro all
  have valid : UUID "0192f000-0000-7000-8000-00000000000a" = true := by decide
  have leak := all (.run "0192f000-0000-7000-8000-00000000000a"
    (.transaction (.both (.operation .extended "item.findMany") (.await 0))))
  simp [execute, exec, after, tenantId, valid, scopeStatement, requireTenant, AsyncContext.empty,
    AsyncContext.withTenant,
      AsyncContext.inTx, Client.bound, Operations.make, operate, allOperations,
      Event.Scoped, Except.map] at leak

end OpenEmarsys.Tenancy
