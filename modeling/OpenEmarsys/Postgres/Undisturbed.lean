import OpenEmarsys.Postgres.Journal

/-! Runs in which the server closes no transaction of a certain kind.

The rely says only what becomes of a process's own transaction, so it composes with
any protocol about the committed rows.
-/

set_option autoImplicit false

namespace OpenEmarsys.Postgres

open Interleaving

variable {Row Label World : Type} [Indexed Row]

section Machine
variable {Call Choice Extra : Type} {ExtraReply : Extra → Type} {ε α : Type}
  {extra : Tid → (call : Extra) → Choice → Shared Row Label World → Option (ExtraReply call × World)}
  {code : Call → Client Row Label ExtraReply ε α}
  {rules : Rules Call (Action Row Label Extra) (Shared Row Label World)}

theorem act_others {pid other : Tid} (distinct : other ≠ pid) {action : Action Row Label Extra}
    {choice : Choice} {shared next : Shared Row Label World} {reply : Answer ExtraReply action}
    (taken : (machine extra).act pid action choice shared = some (reply, next)) :
    next.server.txs other = shared.server.txs other := by
  cases action with
  | begin label => cases taken; exact Function.update_of_ne distinct ..
  | start =>
    simp only [machine, Option.some.injEq, Prod.mk.injEq] at taken
    obtain ⟨-, rfl⟩ := taken
    split
    · exact Server.setTx_other _ distinct
    · rfl
  | exec statement =>
    simp only [machine] at taken
    split at taken
    · split at taken
      · cases taken
      · cases taken; exact Server.setTx_other _ distinct
      · cases taken; rfl
    · cases taken; rfl
  | commit =>
    simp only [machine] at taken
    split at taken
    · cases taken; exact Function.update_of_ne distinct ..
    · cases taken; rfl
  | rollback => cases taken; exact Server.setTx_other _ distinct
  | other request =>
    simp only [machine, Option.map_eq_some_iff, Prod.exists, Prod.mk.injEq] at taken
    obtain ⟨given, world, -, -, rfl⟩ := taken
    rfl

theorem act_uncommitted {pid : Tid} {action : Action Row Label Extra} (uncommitted : action ≠ .commit)
    {choice : Choice} {shared next : Shared Row Label World} {reply : Answer ExtraReply action}
    (taken : (machine extra).act pid action choice shared = some (reply, next)) :
    next.server.rows = shared.server.rows ∧ next.server.log = shared.server.log := by
  cases action with
  | begin label => cases taken; exact ⟨rfl, rfl⟩
  | start =>
    simp only [machine, Option.some.injEq, Prod.mk.injEq] at taken
    obtain ⟨-, rfl⟩ := taken
    split <;> exact ⟨rfl, rfl⟩
  | exec statement =>
    simp only [machine] at taken
    split at taken
    · split at taken
      · cases taken
      · cases taken; exact ⟨rfl, rfl⟩
      · cases taken; exact ⟨rfl, rfl⟩
    · cases taken; exact ⟨rfl, rfl⟩
  | commit => exact absurd rfl uncommitted
  | rollback => cases taken; exact ⟨rfl, rfl⟩
  | other request =>
    simp only [machine, Option.map_eq_some_iff, Prod.exists, Prod.mk.injEq] at taken
    obtain ⟨given, world, -, -, rfl⟩ := taken
    exact ⟨rfl, rfl⟩

theorem act_log {pid : Tid} {action : Action Row Label Extra} {choice : Choice}
    {shared next : Shared Row Label World} {reply : Answer ExtraReply action}
    (taken : (machine extra).act pid action choice shared = some (reply, next)) :
    shared.server.log <+: next.server.log := by
  cases action with
  | begin label => cases taken; exact List.prefix_rfl
  | start =>
    simp only [machine, Option.some.injEq, Prod.mk.injEq] at taken
    obtain ⟨-, rfl⟩ := taken
    split <;> exact List.prefix_rfl
  | exec statement =>
    simp only [machine] at taken
    split at taken
    · split at taken
      · cases taken
      · cases taken; exact List.prefix_rfl
      · cases taken; exact List.prefix_rfl
    · cases taken; exact List.prefix_rfl
  | commit =>
    simp only [machine] at taken
    split at taken
    · cases taken; exact List.prefix_append ..
    · cases taken; exact List.prefix_rfl
  | rollback => cases taken; exact List.prefix_rfl
  | other request =>
    simp only [machine, Option.map_eq_some_iff, Prod.exists, Prod.mk.injEq] at taken
    obtain ⟨given, world, -, -, rfl⟩ := taken
    exact List.prefix_rfl

theorem reaches_log
    {config later : Config Call (Action Row Label Extra) (Answer ExtraReply) ε α (Shared Row Label World)}
    (run : (machine extra).Reaches code rules config later) :
    config.state.server.log <+: later.state.server.log := by
  induction run with
  | refl => exact List.prefix_rfl
  | @move middle next move _ legal taken grown =>
    refine grown.trans ?_
    cases move with
    | spawn pid call =>
      simp only [Machine.step] at taken
      split at taken <;> cases taken
      exact List.prefix_rfl
    | act pid choice =>
      simp only [Machine.step] at taken
      split at taken
      · split at taken
        · next reply after answered => cases taken; exact act_log answered
        · cases taken
      · cases taken
    | disturb pid choice =>
      simp only [Machine.step, machine] at taken
      split at taken
      · next after disturbed =>
        split at disturbed <;> cases disturbed
        cases taken
        exact List.prefix_rfl
      · cases taken
    | crash pid =>
      simp only [Machine.step, machine] at taken
      split at taken <;> cases taken
      exact List.prefix_rfl

end Machine

/-- The transaction is untouched, or the server has closed one it may close. -/
def LeftOpen (Held : Tx Row Label → Prop) (pid : Tid) (shared next : Shared Row Label World) : Prop :=
  next.server.txs pid = shared.server.txs pid ∨
    (¬ Held (shared.server.txs pid) ∧ (next.server.txs pid).label = none)

section Discipline
variable {Call Choice Extra : Type} {ExtraReply : Extra → Type} {ε α β : Type}
  {extra : Tid → (call : Extra) → Choice → Shared Row Label World → Option (ExtraReply call × World)}
  {rules : Rules Call (Action Row Label Extra) (Shared Row Label World)} {Held : Tx Row Label → Prop}

theorem leftOpen_discipline
    (extra : Tid → (call : Extra) → Choice → Shared Row Label World → Option (ExtraReply call × World))
    (spares : ∀ pid shared, rules.disturb pid shared → ¬ Held (shared.server.txs pid)) :
    Discipline (machine extra) rules (LeftOpen Held) (fun _ => True) fun _ _ => True where
  refl _ _ := .inl rfl
  trans first second := by
    rcases second with same | ⟨free, closed⟩
    · rcases first with before | ⟨free, closed⟩
      · exact .inl (same.trans before)
      · exact .inr ⟨free, same ▸ closed⟩
    · rcases first with before | ⟨free', -⟩
      · exact .inr ⟨before ▸ free, closed⟩
      · exact .inr ⟨free', closed⟩
  inv _ _ := trivial
  idle _ _ _ := trivial
  disturb {pid choice shared next} _ permitted taken other := by
    simp only [machine] at taken
    split at taken
    · cases taken
      by_cases mine : other = pid
      · subst mine
        exact .inr ⟨spares other shared permitted, by simp [Server.rollback, Tx.idle]⟩
      · exact .inl (Server.setTx_other _ mine)
    · cases taken
  crash {pid shared} _ _ other distinct := .inl (Server.setTx_other _ distinct)

/-- A triple about the transaction of a process alone. -/
abbrev Keeps (extra : Tid → (call : Extra) → Choice → Shared Row Label World →
    Option (ExtraReply call × World))
    (rules : Rules Call (Action Row Label Extra) (Shared Row Label World)) (Held : Tx Row Label → Prop)
    (pid : Tid) (pre : Tx Row Label → Prop) (script : Client Row Label ExtraReply ε α)
    (post : Except ε α → Prop) : Prop :=
  Triple (machine extra) rules (LeftOpen Held) (fun _ => True) pid
    (fun shared => pre (shared.server.txs pid)) script
    fun result _ => post result

/-- What stays true of a transaction while it is left open, or is true of a closed one. -/
def Lasts (Held : Tx Row Label → Prop) (pre : Tx Row Label → Prop) : Prop :=
  (∀ tx, pre tx → Held tx) ∨ ∀ tx : Tx Row Label, tx.label = none → pre tx

theorem Lasts.stable {pre : Tx Row Label → Prop} (lasts : Lasts Held pre) (pid : Tid) :
    Stable (LeftOpen Held) (fun _ => True) pid fun shared :
    Shared Row Label World => pre (shared.server.txs pid) := by
  rintro shared next - holds (same | ⟨free, closed⟩)
  · rwa [same]
  · rcases lasts with held | closes
    · exact absurd (held _ holds) free
    · exact closes _ closed

end Discipline

end OpenEmarsys.Postgres
