import OpenEmarsys.Interleaving.Endings
import OpenEmarsys.Postgres.Public

/-! Scripts outside transactions whose errors matter too. -/

set_option autoImplicit false

namespace OpenEmarsys.Postgres

open Interleaving

variable {Row Label World : Type} [Indexed Row] {Extra : Type} {ExtraReply : Extra → Type} {ε α β : Type}

section Fails
variable {allowed : ε → Prop}
omit [Indexed Row]

theorem ask_fails (request : Extra) :
    (ask request : Client Row Label ExtraReply ε (ExtraReply request)).Fails allowed :=
  fun _ => trivial

variable [ClientError ε] (server : ∀ error, allowed (ClientError.sql error))
include server

theorem sql_fails (statement : Statement Row) :
    (sql statement : Client Row Label ExtraReply ε (List Row)).Fails allowed := by
  intro _ reply
  cases reply with
  | ok rows => trivial
  | error error => exact server error

-- A transaction fails as its body does, or because the server refuses it.
theorem transaction_fails (label : Label) {body : Client Row Label ExtraReply ε α}
    (fails : body.Fails allowed) :
    (transaction label body).Fails allowed := by
  refine fun _ => Script.Fails.handle (fails.bind fun value reply => ?_) fun error refused _ => refused
  cases reply with
  | ok _ => trivial
  | error error => exact server error

end Fails

namespace PublicProtocol

variable {public_ : PublicProtocol Row Label World} {Call Choice : Type}
  {extra : Tid → (call : Extra) → Choice → Shared Row Label World → Option (ExtraReply call × World)}
  {rules : Rules Call (Action Row Label Extra) (Shared Row Label World)} {pid : Tid}

/-- What holds of the value, or of the error. -/
def Either (returned : α → Public Row Label World → Prop) (failed : ε → Public Row Label World → Prop) :
    Except ε α → Public Row Label World → Prop
  | .ok value => returned value
  | .error error => failed error

/-- A triple for a script that starts and ends outside transactions, and its errors. -/
abbrev Ends (public_ : PublicProtocol Row Label World)
    (extra : Tid → (call : Extra) → Choice → Shared Row Label World → Option (ExtraReply call × World))
    (rules : Rules Call (Action Row Label Extra) (Shared Row Label World)) (pid : Tid)
    (pre : Public Row Label World → Prop)
    (script : Client Row Label ExtraReply ε α) (post : Except ε α → Public Row Label World → Prop) : Prop :=
  public_.protocol.Proves extra rules pid (fun shared => Protocol.Idle pid shared ∧ pre shared.public) script
    fun result shared => Protocol.Idle pid shared ∧ post result shared.public

variable {pre : Public Row Label World → Prop} {script : Client Row Label ExtraReply ε α}
  {returned : α → Public Row Label World → Prop} {failed : ε → Public Row Label World →
    Prop} {allowed : ε → Prop}

theorem Ends.ret {value : α} (returned : α → Public Row Label World → Prop)
    (steady : Steady public_ pid (returned value)) :
    Ends public_ extra rules pid (returned value) (.ret value : Client Row Label ExtraReply ε α)
    (Either returned failed) := by
  refine fun shared inv held later moved => ⟨((moved inv).1), ?_, ?_⟩
  · exact public_.protocol.idle_stable pid shared later inv held.1 moved
  · exact steady.stable shared later inv held.2 moved

theorem Ends.fail {error : ε} (steady : Steady public_ pid (failed error)) :
    Ends public_ extra rules pid (failed error) (.fail error : Client Row Label ExtraReply ε α)
    (Either returned failed) := by
  refine fun shared inv held later moved => ⟨((moved inv).1), ?_, ?_⟩
  · exact public_.protocol.idle_stable pid shared later inv held.1 moved
  · exact steady.stable shared later inv held.2 moved

theorem Ends.step (step : Step public_ extra rules pid pre script returned) (fails : script.Fails allowed)
    (harmless : ∀ error state, allowed error → failed error state) :
    Ends public_ extra rules pid pre script (Either returned failed) := by
  refine (Triple.fails step fails).weaken fun result shared _ done => ⟨done.1.1, ?_⟩
  cases result with
  | ok value => exact done.1.2
  | error error => exact harmless error _ (done.2 error rfl)

theorem Ends.strengthen {stronger : Public Row Label World → Prop}
    {post : Except ε α → Public Row Label World → Prop}
    (ends : Ends public_ extra rules pid pre script post)
    (implies : ∀ state, public_.App state → stronger state → pre state) :
    Ends public_ extra rules pid stronger script post :=
  Triple.strengthen ends fun shared inv held => ⟨held.1, implies shared.public inv.2 held.2⟩

theorem Ends.weaken {post weaker : Except ε α → Public Row Label World → Prop}
    (ends : Ends public_ extra rules pid pre script post)
    (implies : ∀ result state, public_.App state → post result state → weaker result state) :
    Ends public_ extra rules pid pre script weaker :=
  Triple.weaken ends fun result shared inv done => ⟨done.1, implies result shared.public inv.2 done.2⟩

theorem Ends.fact {given : Prop} {post : Except ε α → Public Row Label World → Prop}
    (ends : given → Ends public_ extra rules pid pre script post) :
    Ends public_ extra rules pid (fun state => given ∧ pre state) script post :=
  fun shared inv held => ends held.2.1 shared inv ⟨held.1, held.2.2⟩

theorem Ends.bind {first : Client Row Label ExtraReply ε β} {next : β → Client Row Label ExtraReply ε α}
    (middle : β → Public Row Label World → Prop)
    (head : Ends public_ extra rules pid pre first (Either middle failed))
    (tail : ∀ value, Ends public_ extra rules pid (middle value) (next value) (Either returned failed)) :
    Ends public_ extra rules pid pre (first >>= next) (Either returned failed) := by
  refine Triple.bind (public_.protocol.discipline extra rules)
    (fun value shared => Protocol.Idle pid shared ∧ middle value shared.public) ?_ tail
  refine Triple.weaken head fun result shared _ done => ?_
  cases result with
  | ok value => exact done
  | error error => exact done

-- The calls that start after a state of the run, with what is known of that state.
theorem since {code : Call → Client Row Label ExtraReply ε α} {known : Public Row Label World → Prop}
    {post : Tid → Call → Except ε α → Public Row Label World → Prop}
    (persists : ∀ pid, Steady public_ pid known)
    (steps : ∀ pid call, Step public_ extra rules pid (fun _ => True) (code call) fun _ _ => True)
    (calls : ∀ pid call, Ends public_ extra rules pid known (code call) (post pid call))
    {first : Shared Row Label World}
    {started later : Config Call (Action Row Label Extra) (Answer ExtraReply) ε α (Shared Row Label World)}
    (run : (machine extra).Reaches code rules (.start first) started)
    (more : (machine extra).Reaches code rules started later)
    (sane : Sane first.server) (app : public_.App first.public) (idle : ∀ pid, Protocol.Idle pid first)
    (here : known started.state.public) {pid : Tid} (unstarted : started.procs pid = .idle) {call : Call}
    {result : Except ε α}
    (ended : later.Ended pid call result) : post pid call result later.state.public := by
  let protocol : Protocol Row Label World := public_.protocol
  have initial : Discipline.Sound (machine extra) rules protocol.Rely protocol.Inv
      (fun pid shared => Protocol.Idle pid shared ∧ True)
      (fun _ _ (_ : Except ε α) shared => protocol.Inv shared) (.start first) :=
    ⟨⟨sane, app⟩, fun pid => ⟨idle pid, trivial⟩⟩
  have sound := (protocol.discipline extra rules).reaches (fun pid call shared _ inv idle =>
    (steps pid call shared inv idle).mono fun _ _ done => done.1) run initial
  have discipline := protocol.disciplineWith extra rules fun pid => (persists pid).stable
  have done := discipline.since (fun pid call shared _ inv idle => calls pid call shared inv idle) more sound
    (fun pid idle => ⟨idle.1, here⟩) unstarted ended
  exact done.2.2

end PublicProtocol

end OpenEmarsys.Postgres
