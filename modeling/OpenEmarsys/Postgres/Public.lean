import OpenEmarsys.Postgres.Effects
import OpenEmarsys.Postgres.Protocol

/-! Protocols about what is committed, and their rules for single statements.

Such a protocol speaks of the committed rows, the log and the world only, so open
transactions come and go without touching it and all its obligations fall due when
a transaction commits.
-/

set_option autoImplicit false

namespace OpenEmarsys.Postgres

open Interleaving

structure Public (Row Label World : Type) [Indexed Row] where
  rows : List Row
  log : List (Commit Row Label)
  world : World

variable {Row Label World : Type} [Indexed Row]

def Shared.public (shared : Shared Row Label World) : Public Row Label World :=
  ⟨shared.server.rows, shared.server.log, shared.world⟩

structure PublicProtocol (Row Label World : Type) [Indexed Row] where
  App : Public Row Label World → Prop
  Grow : Tid → Public Row Label World → Public Row Label World → Prop
  refl : ∀ tid state, Grow tid state state
  trans : ∀ {tid first second third}, Grow tid first second → Grow tid second third → Grow tid first third

namespace PublicProtocol

def protocol (public_ : PublicProtocol Row Label World) : Protocol Row Label World where
  App shared := public_.App shared.public
  Grow tid shared next := public_.Grow tid shared.public next.public
  refl tid shared := public_.refl tid shared.public
  trans := public_.trans
  quiet {shared next} quiet app := by
    have same : next.public = shared.public := by
      simp only [Shared.public, quiet.rows, quiet.log, quiet.world]
    rw [same]
    exact ⟨app, fun tid => public_.refl tid _⟩
  rollback _ _ app := ⟨app, fun other => public_.refl other _⟩

variable {public_ : PublicProtocol Row Label World} {Call Choice Extra : Type}
  {ExtraReply : Extra → Type} {ε α : Type}
  [ClientError ε]
  {extra : Tid → (call : Extra) → Choice → Shared Row Label World → Option (ExtraReply call × World)}
  {rules : Rules Call (Action Row Label Extra) (Shared Row Label World)} {pid : Tid} {label : Label}

/-- A fact about what is committed that the other processes keep. -/
def Steady (public_ : PublicProtocol Row Label World) (pid : Tid)
    (holds : Public Row Label World → Prop) : Prop :=
  ∀ state next, public_.App state → public_.App next → public_.Grow pid state next → holds state → holds next

theorem Steady.stable {holds : Public Row Label World → Prop} (steady : Steady public_ pid holds) :
    Stable (public_.protocol : Protocol Row Label World).Rely public_.protocol.Inv pid
    fun shared => holds shared.public := by
  intro shared next inv held moved
  obtain ⟨later, -, grow⟩ := moved inv
  exact steady shared.public next.public inv.2 later.2 grow held

omit [ClientError ε] in
theorem unnoticed {action : Action Row Label Extra} {choice : Choice} {shared next : Shared Row Label World}
    {reply : Answer ExtraReply action} (inv : (public_.protocol : Protocol Row Label World).Inv shared)
    (uncommitted : action ≠ .commit) (here : ∀ extra, action ≠ .other extra)
    (taken : (machine extra).act pid action choice shared = some (reply, next)) :
    (∀ other, other ≠ pid → (public_.protocol : Protocol Row Label World).Rely other shared next) ∧
      next.public = shared.public := by
  have still : ∀ {server : Server Row Label}, Sane server → server.rows = shared.server.rows →
      server.log = shared.server.log →
      (∀ other, other ≠ pid → Foreign other shared.server server) →
      (∀ other, other ≠ pid → (public_.protocol : Protocol Row Label World).Rely other shared
        { shared with server := server }) ∧
        Shared.public { shared with server := server } = shared.public := by
    intro server sane rows log foreign
    have same : Shared.public { shared with server := server } = shared.public := by
      simp only [Shared.public, rows, log]
    refine ⟨Protocol.guarantee sane ?_ foreign fun other _ => ?_, same⟩
    · change public_.App (Shared.public _)
      rw [same]
      exact inv.2
    · change public_.Grow other shared.public (Shared.public _)
      rw [same]
      exact public_.refl other _
  have unchanged := @still shared.server inv.1 rfl rfl fun other _ => Foreign.refl other _
  cases action with
  | begin label =>
      cases taken
      exact still (inv.1.begin pid label) rfl rfl fun other distinct => Foreign.begin label distinct
  | start =>
      simp only [machine, Option.some.injEq, Prod.mk.injEq] at taken
      obtain ⟨-, rfl⟩ := taken
      split
      · next opened => exact still (inv.1.start opened) rfl rfl fun other distinct => Foreign.setTx _ distinct
      · exact unchanged
  | exec statement =>
      simp only [machine] at taken
      split at taken
      · next opened =>
          split at taken
          · cases taken
          · next rows tx run =>
              cases taken
              exact still (inv.1.execute opened run) rfl rfl fun other distinct => Foreign.setTx _ distinct
          · cases taken
            exact unchanged
      · cases taken
        exact unchanged
  | commit => exact absurd rfl uncommitted
  | rollback =>
      cases taken
      exact still (inv.1.rollback pid) rfl rfl fun other _ => Foreign.rollback other
  | other request => exact absurd rfl (here request)

/-- A triple for a script that starts and ends outside transactions. -/
abbrev Step (public_ : PublicProtocol Row Label World)
    (extra : Tid → (call : Extra) → Choice → Shared Row Label World → Option (ExtraReply call × World))
    (rules : Rules Call (Action Row Label Extra) (Shared Row Label World)) (pid : Tid)
    (pre : Public Row Label World → Prop)
    (script : Client Row Label ExtraReply ε α) (post : α → Public Row Label World → Prop) : Prop :=
  public_.protocol.Proves extra rules pid (fun shared => Protocol.Idle pid shared ∧ pre shared.public) script
    (fun result shared => Protocol.Idle pid shared ∧
      Protocol.Returns (fun value shared => post value shared.public) result shared)

section Step
variable {pre : Public Row Label World → Prop} {script : Client Row Label ExtraReply ε α} {post : α →
  Public Row Label World → Prop}

omit [ClientError ε]

theorem Step.ret {value : α} (post : α → Public Row Label World → Prop)
    (steady : Steady public_ pid (post value)) :
    Step public_ extra rules pid (post value) (.ret value : Client Row Label ExtraReply ε α) post := by
  refine fun shared inv held later moved => ⟨((moved inv).1), ?_, ?_⟩
  · exact public_.protocol.idle_stable pid shared later inv held.1 moved
  · exact steady.stable shared later inv held.2 moved

theorem Step.keep {value : α} {holds : Public Row Label World → Prop} (steady : Steady public_ pid holds) :
    Step public_ extra rules pid holds (.ret value : Client Row Label ExtraReply ε α) fun _ => holds :=
  Step.ret (fun _ => holds) steady

theorem Step.fail {error : ε} : Step public_ extra rules pid pre
    (.fail error : Client Row Label ExtraReply ε α) post :=
  fun shared inv held later moved =>
    ⟨(moved inv).1, public_.protocol.idle_stable pid shared later inv held.1 moved, trivial⟩

theorem Step.bind {β : Type} {first : Client Row Label ExtraReply ε β}
    {next : β → Client Row Label ExtraReply ε α}
    (middle : β → Public Row Label World → Prop) (head : Step public_ extra rules pid pre first middle)
    (tail : ∀ value, Step public_ extra rules pid (middle value) (next value) post) :
    Step public_ extra rules pid pre (first >>= next) post := by
  refine Triple.bind (public_.protocol.discipline extra rules)
    (fun value shared => Protocol.Idle pid shared ∧ middle value shared.public) ?_ tail
  refine Triple.weaken head fun result shared _ done => ?_
  cases result with
  | ok value => exact done
  | error error => exact ⟨done.1, trivial⟩

theorem Step.handle {handler : ε → Client Row Label ExtraReply ε α}
    (body : Step public_ extra rules pid pre script post)
    (rescue : ∀ error, Step public_ extra rules pid (fun _ => True) (handler error) post) :
    Step public_ extra rules pid pre (script.handle handler) post := by
  refine Triple.handle (public_.protocol.discipline extra rules)
    (fun _ shared => Protocol.Idle pid shared ∧ True) ?_ rescue
  refine Triple.weaken body fun result shared _ done => ?_
  cases result with
  | ok value => exact done
  | error error => exact ⟨done.1, trivial⟩

theorem Step.strengthen {stronger : Public Row Label World → Prop}
    (step : Step public_ extra rules pid pre script post)
    (implies : ∀ state, public_.App state → stronger state → pre state) :
    Step public_ extra rules pid stronger script post :=
  Triple.strengthen step fun shared inv held => ⟨held.1, implies shared.public inv.2 held.2⟩

theorem Step.weaken {weaker : α → Public Row Label World → Prop}
    (step : Step public_ extra rules pid pre script post)
    (implies : ∀ value state, public_.App state → post value state → weaker value state) :
    Step public_ extra rules pid pre script weaker := by
  refine Triple.weaken step fun result shared inv done => ⟨done.1, ?_⟩
  cases result with
  | ok value => exact implies value shared.public inv.2 done.2
  | error error => trivial

theorem Step.fact {given : Prop} (step : given → Step public_ extra rules pid pre script post) :
    Step public_ extra rules pid (fun state => given ∧ pre state) script post :=
  fun shared inv held => step held.2.1 shared inv ⟨held.1, held.2.2⟩

theorem Step.ask {request : Extra} {next : ExtraReply request → Public Row Label World → Prop}
    (before : Steady public_ pid pre)
    (effect : ∀ (shared : Shared Row Label World) choice reply world,
      public_.App shared.public → pre shared.public →
      extra pid request choice shared = some (reply, world) →
        public_.App { shared.public with world := world } ∧
        (∀ other, other ≠ pid → public_.Grow other shared.public { shared.public with world := world }) ∧
        next reply { shared.public with world := world })
    (after : ∀ reply, Steady public_ pid (next reply)) :
    Step public_ extra rules pid pre
    (Postgres.ask request : Client Row Label ExtraReply ε (ExtraReply request)) next := by
  refine Triple.call (public_.protocol.discipline extra rules)
    (fun reply shared => Protocol.Idle pid shared ∧ next reply shared.public)
    ((public_.protocol.idle_stable pid).and before.stable) ?_ fun reply => Step.ret next (after reply)
  rintro shared inv ⟨idle, held⟩ - choice reply moved taken
  simp only [machine, Option.map_eq_some_iff, Prod.exists, Prod.mk.injEq] at taken
  obtain ⟨given, world, answered, rfl, rfl⟩ := taken
  obtain ⟨app, grow, done⟩ := effect shared choice given world inv.2 held answered
  exact ⟨Protocol.guarantee inv.1 app (fun other _ => Foreign.refl other shared.server) grow, idle, done⟩

end Step

def Untouched (pid : Tid) (holds : Public Row Label World → Prop) (shared : Shared Row Label World) : Prop :=
  (shared.server.txs pid).added = [] ∧ (shared.server.txs pid).removed = [] ∧ holds shared.public

theorem untouched_begin {holds : Public Row Label World → Prop} {shared : Shared Row Label World}
    (held : holds shared.public) :
    Untouched pid holds { shared with server := shared.server.begin pid label } := by
  refine ⟨?_, ?_, held⟩ <;> simp [Server.begin, Tx.idle]

theorem untouched_lasting {holds : Public Row Label World → Prop} (steady : Steady public_ pid holds) :
    (public_.protocol : Protocol Row Label World).Lasting pid (Untouched pid holds) := by
  rintro shared next inv later ⟨added, removed, held⟩ same - grow
  rw [Untouched, same]
  exact ⟨added, removed, steady _ _ inv.2 later.2 grow held⟩

theorem untouched_setTx {holds : Public Row Label World → Prop} {shared : Shared Row Label World}
    {tx : Tx Row Label}
    (held : Untouched pid holds shared) (same : tx = { shared.server.txs pid with snapshot := tx.snapshot }) :
    Untouched pid holds { shared with server := shared.server.setTx pid tx } := by
  obtain ⟨added, removed, kept⟩ := held
  refine ⟨?_, ?_, kept⟩ <;> simp only [Server.setTx_same]
  · rw [same]; exact added
  · rw [same]; exact removed

theorem untouched_commit {holds : Public Row Label World → Prop} {shared : Shared Row Label World}
    (untouched : Untouched pid holds shared) :
    Shared.public { shared with server := shared.server.commit pid } =
      { shared.public with log := shared.public.log ++ [⟨pid, shared.server.rows, shared.server.txs pid⟩] } := by
  obtain ⟨added, removed, -⟩ := untouched
  simp [Shared.public, Server.commit, Tx.view, Tx.removes, added, removed]

-- A query: what its reply says of the committed rows when it was made.
theorem select {p : Row → Bool} {pre : Public Row Label World → Prop}
    {found : List Row → Public Row Label World → Prop}
    (before : Steady public_ pid pre)
    (reads : ∀ state, public_.App state → pre state → found (state.rows.filter p) state)
    (lasting : ∀ rows, Steady public_ pid (found rows))
    (commits : ∀ state (commit : Commit Row Label) rows, commit.tx.added = [] →
      public_.App state → found rows state →
        public_.App { state with log := state.log ++ [commit] } ∧
        (∀ other, other ≠ pid → public_.Grow other state { state with log := state.log ++ [commit] }) ∧
        found rows { state with log := state.log ++ [commit] }) :
    Step public_ extra rules pid pre
      (transaction label (sql (.select p)) : Client Row Label ExtraReply ε (List Row)) found := by
  refine Protocol.transaction (Untouched pid pre) (fun rows => Untouched pid (found rows))
    before.stable (fun shared inv _ held _ => ⟨inv.2, fun other _ => public_.refl other _,
      untouched_begin held⟩)
    (Protocol.sql (untouched_lasting before) ?_ (fun rows => untouched_lasting (lasting rows)) ?_)
    (fun rows => untouched_lasting (lasting rows)) ?_ (fun rows => (lasting rows).stable)
  · exact fun _ _ => untouched_setTx
  · rintro started shared rows tx invStarted inv ⟨added, removed, held⟩ ⟨added', removed',
      -⟩ ⟨taken, -⟩ grow run
    obtain ⟨rfl, rfl⟩ := execute_select run
    have whole : (started.server.txs pid).view started.server.rows = started.server.rows := by
      simp [Tx.view, added, Tx.removes, removed]
    have snapshot : (shared.server.txs pid).snapshot = started.server.rows := by rw [taken]; exact whole
    refine ⟨by simpa using added', by simpa using removed', ?_⟩
    rw [snapshot]
    exact lasting _ started.public shared.public invStarted.2 inv.2 grow
      (reads started.public invStarted.2 held)
  · rintro rows shared inv - untouched -
    have same := untouched_commit untouched
    obtain ⟨app, grows, done⟩ := commits shared.public ⟨pid, shared.server.rows,
      shared.server.txs pid⟩ rows untouched.1 inv.2
      untouched.2.2
    refine ⟨?_, fun other distinct => ?_, ?_⟩
    · change public_.App (Shared.public _)
      rw [same]
      exact app
    · change public_.Grow other shared.public (Shared.public _)
      rw [same]
      exact grows other distinct
    · rw [same]
      exact done

theorem untouched_select {holds : Public Row Label World → Prop} (steady : Steady public_ pid holds)
    (p : Row → Bool) :
    public_.protocol.Proves extra rules pid (Protocol.Unless pid (Untouched pid holds))
      (sql (.select p) : Client Row Label ExtraReply ε (List Row))
      (Protocol.Returns fun _ => Protocol.Unless pid (Untouched pid holds)) := by
  refine Protocol.sql (untouched_lasting steady) (fun _ _ => untouched_setTx)
    (fun _ => untouched_lasting steady) ?_
  rintro started shared rows tx - - - ⟨added, removed, held⟩ - - run
  obtain ⟨-, rfl⟩ := execute_select run
  exact ⟨by simpa using added, by simpa using removed, held⟩

theorem readonly {body : Client Row Label ExtraReply ε α} {holds : Public Row Label World → Prop}
    (steady : Steady public_ pid holds)
    (runs : public_.protocol.Proves extra rules pid (Protocol.Unless pid (Untouched pid holds)) body
      (Protocol.Returns fun _ => Protocol.Unless pid (Untouched pid holds)))
    (commits : ∀ state (commit : Commit Row Label), commit.tx.added = [] → public_.App state → holds state →
        public_.App { state with log := state.log ++ [commit] } ∧
        (∀ other, other ≠ pid → public_.Grow other state { state with log := state.log ++ [commit] }) ∧
        holds { state with log := state.log ++ [commit] }) :
    Step public_ extra rules pid holds (transaction label body) fun _ => holds := by
  refine Protocol.transaction (Untouched pid holds) (fun _ => Untouched pid holds) steady.stable
    (fun shared inv _ held _ => ⟨inv.2, fun other _ => public_.refl other _, untouched_begin held⟩) runs
    (fun _ => untouched_lasting steady) ?_ (fun _ => steady.stable)
  rintro _ shared inv - untouched -
  have same := untouched_commit untouched
  obtain ⟨app, grows, done⟩ := commits shared.public ⟨pid, shared.server.rows,
    shared.server.txs pid⟩ untouched.1 inv.2
    untouched.2.2
  refine ⟨?_, fun other distinct => ?_, ?_⟩
  · change public_.App (Shared.public _)
    rw [same]
    exact app
  · change public_.Grow other shared.public (Shared.public _)
    rw [same]
    exact grows other distinct
  · rw [same]
    exact done

/-- The rows an update will have replaced when it commits. -/
structure Updating (pid : Tid) (p : Row → Bool) (f : Row → Row) (holds : Public Row Label World → Prop)
    (hits : List Row) (shared : Shared Row Label World) : Prop where
  present : ∀ old ∈ hits, old ∈ shared.server.rows ∧ p old = true
  locked : ∀ old ∈ hits, (shared.server.txs pid).Locks (primary old)
  added : ∀ row, row ∈ (shared.server.txs pid).added ↔ row ∈ hits.map f
  removed : ∀ key, key ∈ (shared.server.txs pid).removed ↔ ∃ old ∈ hits, key = primary old
  holds : holds shared.public

theorem updating_lasting {p : Row → Bool} {f : Row → Row} {holds : Public Row Label World → Prop}
    {hits : List Row} (steady : Steady public_ pid holds) :
    (public_.protocol : Protocol Row Label World).Lasting pid (Updating pid p f holds hits) := by
  rintro shared next inv later held same kept grow
  refine ⟨fun old member => ?_, ?_, ?_, ?_, steady _ _ inv.2 later.2 grow held.holds⟩
  · obtain ⟨present, matches_⟩ := held.present old member
    exact ⟨kept.rows old present (held.locked old member), matches_⟩
  · rw [same]; exact held.locked
  · rw [same]; exact held.added
  · rw [same]; exact held.removed

-- An update: at its commit the rows it matched are still there, and are replaced.
theorem update {p : Row → Bool} {f : Row → Row} {pre : Public Row Label World → Prop}
    {done : List Row → Public Row Label World → Prop}
    (keyed : ∀ row, primary (f row) = primary row) (before : Steady public_ pid pre)
    (commits : ∀ (state : Public Row Label World) (hits rows : List Row) (commit : Commit Row Label),
      public_.App state →
      state.rows.Pairwise NoClash → pre state → commit.tid = pid →
      (∀ old ∈ hits, old ∈ state.rows ∧ p old = true) →
      (∀ row, row ∈ rows ↔ (row ∈ state.rows ∧ ∀ old ∈ hits, primary old ≠ primary row) ∨ row ∈ hits.map f) →
      (∀ row, row ∈ commit.tx.added ↔ row ∈ hits.map f) →
        public_.App ⟨rows, state.log ++ [commit], state.world⟩ ∧
        (∀ other, other ≠ pid → public_.Grow other state ⟨rows, state.log ++ [commit], state.world⟩) ∧
        done (hits.map f) ⟨rows, state.log ++ [commit], state.world⟩)
    (after : ∀ rows, Steady public_ pid (done rows)) :
    Step public_ extra rules pid pre
      (transaction label (sql (.update p f)) : Client Row Label ExtraReply ε (List Row)) done := by
  refine Protocol.transaction (Untouched pid pre)
    (fun rows shared => ∃ hits : List Row, rows = hits.map f ∧ Updating pid p f pre hits shared)
    before.stable (fun shared inv _ held _ => ⟨inv.2, fun other _ => public_.refl other _,
      untouched_begin held⟩)
    (Protocol.sql (untouched_lasting before) ?_ (fun rows => ?_) ?_) (fun rows => ?_) ?_
      (fun rows => (after rows).stable)
  · exact fun _ _ => untouched_setTx
  · rintro shared next inv later ⟨hits, rfl, held⟩ same kept grow
    exact ⟨hits, rfl, updating_lasting before shared next inv later held same kept grow⟩
  · rintro started shared rows tx invStarted inv - ⟨added, removed, held⟩ - - run
    obtain ⟨rfl, change⟩ := execute_update inv.1 keyed run
    refine ⟨shared.server.hits pid p, rfl, fun old member => ?_, fun old member => ?_,
      fun row => ?_, fun key => ?_, held⟩
    · obtain ⟨seen, matches_, -⟩ := mem_hits.mp member
      rcases Tx.mem_view.mp seen with ⟨present, -⟩ | mine
      · exact ⟨present, matches_⟩
      · simp [added] at mine
    · simp only [Server.setTx_same]
      exact (change.locks _).mpr (.inr ⟨old, member, rfl⟩)
    · simp only [Server.setTx_same]
      rw [change.added row]
      simp [added]
    · simp only [Server.setTx_same]
      constructor
      · intro member
        rcases change.removed key member with old | found
        · simp [removed] at old
        · exact found
      · rintro ⟨old, member, rfl⟩
        exact change.gone old member fun mine absurd_ => by simp [added] at absurd_
  · rintro shared next inv later ⟨hits, rfl, held⟩ same kept grow
    exact ⟨hits, rfl, updating_lasting before shared next inv later held same kept grow⟩
  · rintro _ shared inv - ⟨hits, rfl, held⟩ -
    refine commits shared.public hits _ ⟨pid, shared.server.rows,
      shared.server.txs pid⟩ inv.2 inv.1.rows held.holds rfl
      held.present (fun row => ?_) held.added
    refine Tx.mem_view.trans ?_
    rw [held.added row]
    refine or_congr_left (and_congr_right fun _ => ?_)
    rw [Bool.eq_false_iff, ne_eq, Tx.removes_iff, held.removed]
    push Not
    exact forall_congr' fun old => imp_congr_right fun _ => ne_comm

omit [ClientError ε] in
-- Scripts verified one by one, in any interleaving: the server stays sane, the protocol's conditions
-- hold, and a call that has returned has done what it promises.
theorem reaches {code : Call → Client Row Label ExtraReply ε α} {Fresh : Tid → Public Row Label World → Prop}
    {post : Tid → Call → α → Public Row Label World → Prop} (fresh : ∀ pid, Steady public_ pid (Fresh pid))
    (calls : ∀ pid call, Step public_ extra rules pid (Fresh pid) (code call) (post pid call))
    {first : Shared Row Label World}
    {config : Config Call (Action Row Label Extra) (Answer ExtraReply) ε α (Shared Row Label World)}
    (run : (machine extra).Reaches code rules (.start first) config) (sane : Sane first.server)
    (app : public_.App first.public)
    (idle : ∀ pid, Protocol.Idle pid first ∧ Fresh pid first.public) :
    Sane config.state.server ∧ public_.App config.state.public ∧
      ∀ pid call value, config.procs pid = .running call (.ret value) →
      post pid call value config.state.public := by
  let protocol : Protocol Row Label World := public_.protocol
  have discipline := protocol.disciplineWith extra rules fun pid => (fresh pid).stable
  have initial : Discipline.Sound (machine extra) rules protocol.Rely protocol.Inv
      (fun pid shared => Protocol.Idle pid shared ∧ Fresh pid shared.public)
      (fun pid call (result : Except ε α) shared => protocol.Inv shared ∧ Protocol.Idle pid shared ∧
        Protocol.Returns (fun value shared => post pid call value shared.public) result
            shared) (.start first) := by
    refine ⟨⟨sane, app⟩, fun pid => ?_⟩
    exact idle pid
  have sound :=
    discipline.reaches (fun pid call shared _ inv idle => calls pid call shared inv idle) run initial
  refine ⟨sound.1.1, sound.1.2, fun pid call value finished => ?_⟩
  have done := sound.2 pid
  rw [finished] at done
  exact (done config.state (discipline.refl pid config.state)).2.2

end PublicProtocol

end OpenEmarsys.Postgres
