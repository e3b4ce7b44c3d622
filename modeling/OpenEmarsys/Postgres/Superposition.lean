import OpenEmarsys.Interleaving.Superposition
import OpenEmarsys.Postgres.Journal

/-! A protocol on top of another one: what it adds falls due when a transaction commits.

Scripts verified for the weaker protocol need not be verified again; all that is said of
them is which calls they make, and what that means for their own transaction.
-/

set_option autoImplicit false

namespace OpenEmarsys.Postgres

open Interleaving

section Calls

variable {Row Label Extra : Type} {ExtraReply : Extra →
  Type} {ε α : Type} {allowed : Action Row Label Extra → Prop}

theorem sql_calls [ClientError ε] {statement : Statement Row} (starts : allowed .start)
    (executes : allowed (.exec statement)) :
    (sql statement : Client Row Label ExtraReply ε (List Row)).Calls allowed := by
  refine ⟨starts, fun _ => ⟨executes, fun reply => ?_⟩⟩
  cases reply <;> trivial

theorem inTx_calls {label : Label} {body : Client Row Label ExtraReply ε α} (begins : allowed (.begin label))
    (commits : allowed .commit) (rollsBack : allowed .rollback) (calls : body.Calls allowed) :
    (inTx label body : Client Row Label ExtraReply ε (α × Option SqlError)).Calls allowed := by
  refine ⟨begins, fun _ => Script.Calls.handle (Script.Calls.bind calls
    fun value => ⟨commits, fun reply => ?_⟩) fun error => ?_⟩
  · cases reply <;> trivial
  · exact ⟨rollsBack, fun _ => trivial⟩

theorem transaction_calls [ClientError ε] {label : Label} {body : Client Row Label ExtraReply ε α}
    (begins : allowed (.begin label))
    (commits : allowed .commit) (rollsBack : allowed .rollback) (calls : body.Calls allowed) :
    (transaction label body : Client Row Label ExtraReply ε α).Calls allowed := by
  refine ⟨begins, fun _ => Script.Calls.handle (Script.Calls.bind calls
    fun value => ⟨commits, fun reply => ?_⟩) fun error => ?_⟩
  · cases reply <;> trivial
  · exact ⟨rollsBack, fun _ => trivial⟩

end Calls

namespace PublicProtocol

variable {Row Label World Call Choice Extra : Type} [Indexed Row] {ExtraReply : Extra → Type} {ε α : Type}

/-- What the stronger protocol asks of a script with these calls. `Own` is known of the
transaction of the process, and `frame` of what is committed. -/
structure Superposes (weak strong : PublicProtocol Row Label World)
    (extra : Tid → (call : Extra) → Choice → Shared Row Label World → Option (ExtraReply call × World))
    (pid : Tid) (allowed : Action Row Label Extra → Prop) (Own : Tx Row Label → Prop)
    (frame : Public Row Label World → Prop) : Prop where
  app : ∀ state, strong.App state → weak.App state
  grow : ∀ {tid state next}, strong.Grow tid state next → weak.Grow tid state next
  steady : Steady strong pid frame
  closed : ∀ tx : Tx Row Label, tx.label = none → Own tx
  begins : ∀ label begun, allowed (.begin label) →
    Own { (Tx.idle : Tx Row Label) with label := some label, begun := begun }
  starts : ∀ (tx : Tx Row Label) snapshot, Own tx → Own { tx with snapshot := snapshot }
  execs : ∀ statement (server : Server Row Label) rows tx, allowed (.exec statement) → Sane server →
    Own (server.txs pid) →
    server.execute pid statement = some (.ok (rows, tx)) → Own tx
  commits : ∀ shared : Shared Row Label World, strong.App shared.public →
    Own (shared.server.txs pid) → frame shared.public →
    (shared.server.txs pid).label.isSome = true →
    weak.App (Shared.public { shared with server := shared.server.commit pid }) →
      strong.App (Shared.public { shared with server := shared.server.commit pid }) ∧
      (∀ other, other ≠ pid → strong.Grow other shared.public
        (Shared.public { shared with server := shared.server.commit pid })) ∧
      frame (Shared.public { shared with server := shared.server.commit pid })
  asks : ∀ request choice (shared : Shared Row Label World) reply world, allowed (.other request) →
    extra pid request choice shared = some (reply, world) → world = shared.world

section

variable {weak strong : PublicProtocol Row Label World}
  {extra : Tid → (call : Extra) → Choice → Shared Row Label World →
    Option (ExtraReply call × World)} {pid : Tid}
  {allowed : Action Row Label Extra → Prop} {Own : Tx Row Label →
    Prop} {frame : Public Row Label World → Prop}
  (superposes : Superposes weak strong extra pid allowed Own frame)
include superposes

-- A call that does not commit changes only the transaction of its process.
theorem Superposes.own {action : Action Row Label Extra} (permitted : allowed action)
    (uncommitted : action ≠ .commit) {choice : Choice}
    {shared next : Shared Row Label World} {reply : Answer ExtraReply action} (sane : Sane shared.server)
    (own : Own (shared.server.txs pid))
    (taken : (machine extra).act pid action choice shared = some (reply, next)) :
    Own (next.server.txs pid) := by
  cases action with
  | begin label =>
    cases taken
    simpa [Server.begin] using superposes.begins label shared.server.log.length permitted
  | start =>
    simp only [machine, Option.some.injEq, Prod.mk.injEq] at taken
    obtain ⟨-, rfl⟩ := taken
    split
    · simpa [Server.start, Server.setTx] using superposes.starts _ _ own
    · exact own
  | exec statement =>
    simp only [machine] at taken
    split at taken
    · split at taken
      · cases taken
      · next rows tx run =>
        cases taken
        simpa [Server.setTx] using superposes.execs statement shared.server rows tx permitted sane own run
      · cases taken
        exact own
    · cases taken
      exact own
  | commit => exact absurd rfl uncommitted
  | rollback =>
    cases taken
    exact superposes.closed _ (by simp [Server.rollback, Server.setTx, Tx.idle])
  | other request =>
    simp only [machine, Option.map_eq_some_iff, Prod.exists, Prod.mk.injEq] at taken
    obtain ⟨given, world, -, -, rfl⟩ := taken
    exact own

theorem Superposes.step {rules : Rules Call (Action Row Label Extra) (Shared Row Label World)}
    {pre : Public Row Label World → Prop}
    {script : Client Row Label ExtraReply ε α} {post : α → Public Row Label World → Prop}
    (step : Step weak extra rules pid pre script post) (calls : script.Calls allowed) :
    Step strong extra rules pid (fun state => pre state ∧ frame state) script
    fun value state => post value state ∧ frame state := by
  intro shared inv held
  let owned : Shared Row Label World → Prop := fun shared =>
    strong.protocol.Inv shared ∧ Own (shared.server.txs pid) ∧ frame shared.public
  have narrow : ∀ state later, owned state → strong.protocol.Rely pid state later →
      weak.protocol.Rely pid state later ∧ owned later := by
    rintro state later ⟨inv, own, held⟩ moved
    obtain ⟨after, foreign, grow⟩ := moved inv
    refine ⟨fun _ => ⟨⟨after.1, superposes.app _ after.2⟩, foreign, superposes.grow grow⟩, after, ?_, ?_⟩
    · rcases foreign with closed | ⟨same, -⟩
      · exact superposes.closed _ closed
      · rwa [same]
    · exact superposes.steady _ _ inv.2 after.2 grow held
  have keeps : ∀ action choice state reply next, allowed action → owned state →
      (machine extra).act pid action choice state = some (reply, next) →
      (∀ other, other ≠ pid → weak.protocol.Rely other state next) →
      (∀ other, other ≠ pid → strong.protocol.Rely other state next) ∧ owned next := by
    rintro action choice state reply next permitted ⟨inv, own, held⟩ taken guarantee
    by_cases commits : action = .commit
    · subst commits
      simp only [machine] at taken
      split at taken
      · next opened =>
        cases taken
        have weakly := fun other distinct => guarantee other distinct ⟨inv.1, superposes.app _ inv.2⟩
        have after := (weakly (pid + 1) (Nat.succ_ne_self pid)).1
        obtain ⟨app, grows, kept⟩ := superposes.commits state inv.2 own held opened after.2
        refine ⟨fun other distinct _ => ⟨⟨after.1, app⟩, (weakly other distinct).2.1, grows other distinct⟩,
          ⟨after.1, app⟩, ?_, kept⟩
        exact superposes.closed _ (by simp [Server.commit, Tx.idle])
      · cases taken
        exact ⟨fun other _ _ => ⟨inv, Foreign.refl other _, strong.refl other _⟩, inv, own, held⟩
    · have owns := superposes.own permitted commits inv.1 own taken
      by_cases asks : ∃ request, action = .other request
      · obtain ⟨request, rfl⟩ := asks
        simp only [machine, Option.map_eq_some_iff, Prod.exists, Prod.mk.injEq] at taken
        obtain ⟨given, world, answered, -, rfl⟩ := taken
        have same := superposes.asks request choice state given world permitted answered
        subst same
        exact ⟨fun other _ _ => ⟨inv, Foreign.refl other _, strong.refl other _⟩, inv, owns, held⟩
      · obtain ⟨quiet, same⟩ : (∀ other, other ≠ pid → strong.protocol.Rely other state next) ∧
            next.public = state.public :=
          unnoticed inv commits (fun request is => asks ⟨request, is⟩) taken
        refine ⟨quiet, (quiet (pid + 1) (Nat.succ_ne_self pid) inv).1, owns, ?_⟩
        rw [same]
        exact held
  have safe := step shared ⟨inv.1, superposes.app _ inv.2⟩ ⟨held.1, held.2.1⟩
  refine (safe.superpose narrow keeps calls ⟨inv, superposes.closed _ held.1, held.2.2⟩).mono
    fun result later done => ?_
  refine ⟨done.2.1, done.1.2.1, ?_⟩
  cases result with
  | ok value => exact ⟨done.1.2.2, done.2.2.2⟩
  | error error => trivial

end

end PublicProtocol

end OpenEmarsys.Postgres
