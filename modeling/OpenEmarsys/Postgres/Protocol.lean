import OpenEmarsys.Interleaving.Triples
import OpenEmarsys.Postgres.Isolation

/-! The rely of a client of the server, and the rules for statements and transactions.

Other processes leave an open transaction and the rows it has locked alone, or it has
been closed. A protocol adds what its processes keep true of the committed rows, the
log and the world, and what they promise each other about changes to them.
-/

set_option autoImplicit false

namespace OpenEmarsys.Postgres

open Interleaving

variable {Row Label : Type} [Indexed Row]

/-- A transaction that committed while `tx` was open: it took no lock that those of `tx` exclude. -/
structure Beside (tx : Tx Row Label) (commit : Commit Row Label) : Prop where
  locks : ∀ key, tx.Locks key → ¬ commit.tx.Locks key
  shared : ∀ key ∈ tx.shares, ¬ commit.tx.Strong key
  strong : ∀ key ∈ commit.tx.shares, ¬ tx.Strong key

/-- What happens between two states while `tx` stays open: the rows it has locked remain. -/
structure Alongside (tx : Tx Row Label) (server next : Server Row Label) : Prop where
  rows : ∀ row ∈ server.rows, tx.Locks (primary row) → row ∈ next.rows
  log : ∃ more, next.log = server.log ++ more ∧ ∀ commit ∈ more, Beside tx commit ∧
    ∀ row ∈ server.rows, tx.Locks (primary row) → row ∈ commit.after

namespace Alongside

variable {tx : Tx Row Label} {server middle next : Server Row Label}

theorem still (rows : next.rows = server.rows) (log : next.log = server.log) : Alongside tx server next :=
  ⟨fun _ present _ => rows ▸ present, [], by simp [log], fun _ absurd_ => by cases absurd_⟩

theorem trans (first : Alongside tx server middle) (second : Alongside tx middle next) :
    Alongside tx server next := by
  obtain ⟨rows, left, grown, beside⟩ := first
  obtain ⟨later, right, grows, besides⟩ := second
  refine ⟨fun row present locked => later row (rows row present locked) locked, left ++ right,
    by simp [grows, grown], ?_⟩
  intro commit member
  rcases List.mem_append.mp member with before | after
  · exact beside commit before
  · exact ⟨(besides commit after).1, fun row present locked =>
      (besides commit after).2 row (rows row present locked) locked⟩

theorem same {other : Tx Row Label} (alongside : Alongside tx server next) (locks : tx.locks = other.locks)
    (shares : tx.shares = other.shares) : Alongside other server next := by
  obtain ⟨_, _, _, _, _, ownLocks, ownShares⟩ := tx
  subst locks shares
  obtain ⟨more, grown, beside⟩ := alongside.log
  refine ⟨alongside.rows, more, grown, fun commit member => ?_⟩
  obtain ⟨⟨locked, shared, strong⟩, kept⟩ := beside commit member
  exact ⟨⟨locked, shared, strong⟩, kept⟩

end Alongside

/-- What the moves of other processes may do to the transaction of `tid`. -/
def Foreign (tid : Tid) (server next : Server Row Label) : Prop :=
  (next.txs tid).label = none ∨ (next.txs tid = server.txs tid ∧ Alongside (server.txs tid) server next)

namespace Foreign

variable {server middle next : Server Row Label} {tid : Tid}

theorem refl (tid : Tid) (server : Server Row Label) : Foreign tid server server := .inr ⟨rfl, .still rfl rfl⟩

theorem trans (first : Foreign tid server middle) (second : Foreign tid middle next) :
    Foreign tid server next := by
  rcases second with closed | ⟨same, kept⟩
  · exact .inl closed
  · rcases first with closed | ⟨before, keeps⟩
    · exact .inl (same ▸ closed)
    · exact .inr ⟨same.trans before, keeps.trans (before ▸ kept)⟩

theorem setTx (tx : Tx Row Label) {other : Tid} (distinct : other ≠ tid) :
    Foreign other server (server.setTx tid tx) :=
  .inr ⟨Server.setTx_other tx distinct, .still rfl rfl⟩

theorem begin (label : Label) {other : Tid} (distinct : other ≠ tid) :
    Foreign other server (server.begin tid label) :=
  .inr ⟨Function.update_of_ne distinct .., .still rfl rfl⟩

theorem commit (sane : Sane server) {other : Tid} (distinct : other ≠ tid) :
    Foreign other server (server.commit tid) := by
  have fits := sane.fits other
  have kept : ∀ row ∈ server.rows, (server.txs other).Locks (primary row) →
      row ∈ (server.txs tid).view server.rows := by
    intro row present locked
    refine Tx.mem_view.mpr (.inl ⟨present, ?_⟩)
    by_contra gone
    have removed : (server.txs tid).removes row = true := by simpa using gone
    exact fits.locks tid distinct.symm _ locked ((sane.fits tid).removed _ (Tx.removes_iff.mp removed))
  refine .inr ⟨Function.update_of_ne distinct .., kept, [⟨tid, server.rows, server.txs tid⟩], rfl,
    fun commit member => ?_⟩
  cases List.mem_singleton.mp member
  exact ⟨⟨fits.locks tid distinct.symm, fits.shared tid distinct.symm, fits.strong tid distinct.symm⟩, kept⟩

theorem rollback (other : Tid) : Foreign other server (server.rollback tid) := by
  by_cases same : other = tid
  · subst same
    exact .inl (by simp [Server.rollback, Tx.idle])
  · exact setTx .idle same

end Foreign

/-- Nothing has changed but what one open transaction holds. -/
structure Quiet {World : Type} (shared next : Shared Row Label World) : Prop where
  rows : next.server.rows = shared.server.rows
  log : next.server.log = shared.server.log
  world : next.world = shared.world
  labels : ∀ tid, (next.server.txs tid).label = (shared.server.txs tid).label

/-- What processes keep true, and what they promise each other, besides what the
server does by itself. -/
structure Protocol (Row Label World : Type) [Indexed Row] where
  App : Shared Row Label World → Prop
  Grow : Tid → Shared Row Label World → Shared Row Label World → Prop
  refl : ∀ tid shared, Grow tid shared shared
  trans : ∀ {tid first second third}, Grow tid first second → Grow tid second third → Grow tid first third
  quiet : ∀ {shared next}, Quiet shared next → App shared → App next ∧ ∀ tid, Grow tid shared next
  rollback : ∀ {shared : Shared Row Label World} (tid), Sane shared.server → App shared →
      App { shared with server := shared.server.rollback tid } ∧
      ∀ other, Grow other shared { shared with server := shared.server.rollback tid }

namespace Protocol

variable {World Call Choice Extra : Type} {ExtraReply : Extra → Type} {ε α : Type}

section
variable (protocol : Protocol Row Label World)

def Inv (shared : Shared Row Label World) : Prop := Sane shared.server ∧ protocol.App shared

def Rely (tid : Tid) (shared next : Shared Row Label World) : Prop :=
  protocol.Inv shared → protocol.Inv next ∧ Foreign tid shared.server next.server ∧
    protocol.Grow tid shared next

def Idle (tid : Tid) (shared : Shared Row Label World) : Prop := (shared.server.txs tid).label = none

theorem idle_stable (pid : Tid) : Stable protocol.Rely protocol.Inv pid (Idle pid) := by
  intro shared next inv idle moved
  rcases (moved inv).2.1 with closed | ⟨same, -⟩
  · exact closed
  · exact (congrArg Tx.label same).trans idle

-- The parallel rule for a protocol, with what is known of a process that has not started.
theorem disciplineWith
    (extra : Tid → (call : Extra) → Choice → Shared Row Label World → Option (ExtraReply call × World))
    (rules : Rules Call (Action Row Label Extra) (Shared Row Label World))
    {Fresh : Tid → Shared Row Label World → Prop}
    (fresh : ∀ pid, Stable protocol.Rely protocol.Inv pid (Fresh pid)) :
    Discipline (machine extra) rules protocol.Rely protocol.Inv fun pid shared => Idle pid shared ∧
    Fresh pid shared where
  refl tid shared inv := ⟨inv, Foreign.refl tid shared.server, protocol.refl tid shared⟩
  trans first second inv := by
    obtain ⟨middle, foreign, grow⟩ := first inv
    obtain ⟨last, later, grows⟩ := second middle
    exact ⟨last, foreign.trans later, protocol.trans grow grows⟩
  inv inv moved := (moved inv).1
  idle {pid shared next} inv idle moved :=
    ⟨protocol.idle_stable pid shared next inv idle.1 moved, fresh pid shared next inv idle.2 moved⟩
  disturb {pid choice shared next} inv _ taken other := by
    intro _
    simp only [machine] at taken
    split at taken
    · cases taken
      obtain ⟨app, grow⟩ := protocol.rollback pid inv.1 inv.2
      exact ⟨⟨inv.1.rollback pid, app⟩, Foreign.rollback other, grow other⟩
    · cases taken
  crash {pid shared} inv _ other distinct := by
    intro _
    obtain ⟨app, grow⟩ := protocol.rollback pid inv.1 inv.2
    exact ⟨⟨inv.1.rollback pid, app⟩, Foreign.rollback other, grow other⟩

theorem discipline
    (extra : Tid → (call : Extra) → Choice → Shared Row Label World → Option (ExtraReply call × World))
    (rules : Rules Call (Action Row Label Extra) (Shared Row Label World)) :
    Discipline (machine extra) rules protocol.Rely protocol.Inv fun pid shared => Idle pid shared ∧ True :=
  protocol.disciplineWith extra rules fun _ => .true_

end

variable {protocol : Protocol Row Label World}
  {extra : Tid → (call : Extra) → Choice → Shared Row Label World → Option (ExtraReply call × World)}
  {rules : Rules Call (Action Row Label Extra) (Shared Row Label World)} {pid : Tid}

theorem guarantee {shared next : Shared Row Label World}
    (sane : Sane next.server) (app : protocol.App next)
    (foreign : ∀ other, other ≠ pid → Foreign other shared.server next.server)
    (grow : ∀ other, other ≠ pid → protocol.Grow other shared next) :
    ∀ other, other ≠ pid → protocol.Rely other shared next :=
  fun other distinct _ => ⟨⟨sane, app⟩, foreign other distinct, grow other distinct⟩

theorem quiet_setTx (shared : Shared Row Label World) {tx : Tx Row Label}
    (same : tx.label = (shared.server.txs pid).label) :
    Quiet shared { shared with server := shared.server.setTx pid tx } := by
  refine ⟨rfl, rfl, rfl, fun tid => ?_⟩
  by_cases mine : tid = pid
  · subst mine; simpa using same
  · exact congrArg Tx.label (Server.setTx_other tx mine)

/-- The condition holds, or the server has closed the transaction. -/
def Unless (pid : Tid) (holds : Shared Row Label World → Prop) (shared : Shared Row Label World) : Prop :=
  (shared.server.txs pid).label = none ∨ holds shared

/-- Stable as long as the transaction stays open. -/
def Lasting (protocol : Protocol Row Label World) (pid : Tid)
    (holds : Shared Row Label World → Prop) : Prop :=
  ∀ shared next, protocol.Inv shared → protocol.Inv next → holds shared →
      next.server.txs pid = shared.server.txs pid →
      Alongside (shared.server.txs pid) shared.server next.server →
    protocol.Grow pid shared next → holds next

theorem Lasting.stable {holds : Shared Row Label World → Prop} (lasting : Lasting protocol pid holds) :
    Stable protocol.Rely protocol.Inv pid (Unless pid holds) := by
  intro shared next inv held moved
  obtain ⟨later, foreign, grow⟩ := moved inv
  rcases foreign with closed | ⟨same, kept⟩
  · exact .inl closed
  · rcases held with closed | holds
    · exact .inl ((congrArg Tx.label same).trans closed)
    · exact .inr (lasting shared next inv later holds same kept grow)

/-! ## Rules -/

/-- A triple about a client, under the rely of its protocol. -/
abbrev Proves (protocol : Protocol Row Label World)
    (extra : Tid → (call : Extra) → Choice → Shared Row Label World → Option (ExtraReply call × World))
    (rules : Rules Call (Action Row Label Extra) (Shared Row Label World)) (pid : Tid)
    (pre : Shared Row Label World → Prop) (script : Client Row Label ExtraReply ε α)
    (post : Except ε α → Shared Row Label World → Prop) : Prop :=
  Triple (machine extra) rules protocol.Rely protocol.Inv pid pre script post

/-- A value, or an error of which nothing is known. -/
def Returns (holds : α → Shared Row Label World → Prop) (result : Except ε α)
    (shared : Shared Row Label World) : Prop :=
  match result with
  | .ok value => holds value shared
  | .error _ => True

theorem returns_stable {holds : α → Shared Row Label World → Prop}
    (stable : ∀ value, Stable protocol.Rely protocol.Inv pid (holds value)) (result : Except ε α) :
    Stable protocol.Rely protocol.Inv pid (Returns holds result) := by
  cases result with
  | ok value => exact stable value
  | error error => exact .true_

/-- The transaction with the snapshot its statement took in `started`. -/
def SnapshotOf (pid : Tid) (started shared : Shared Row Label World) : Prop :=
  shared.server.txs pid =
      { started.server.txs pid with snapshot := (started.server.txs pid).view started.server.rows } ∧
    Alongside (started.server.txs pid) started.server shared.server

section Transactions
variable [ClientError ε]

-- One statement: what it needs when it starts and still when it takes effect, what it leaves, and what
-- is known of its reply even if the server then closes the transaction.
theorem sqlKnown {statement : Statement Row} {pre : Shared Row Label World → Prop}
    {next known : List Row → Shared Row Label World → Prop} (before : Lasting protocol pid pre)
    (snapshot : ∀ shared tx, pre shared → tx = { shared.server.txs pid with snapshot := tx.snapshot } →
      pre { shared with server := shared.server.setTx pid tx })
    (after : ∀ rows, Lasting protocol pid (next rows))
    (lasts : ∀ rows, Stable protocol.Rely protocol.Inv pid (known rows))
    (effect : ∀ started shared rows tx, protocol.Inv started → protocol.Inv shared →
      pre started → pre shared →
      SnapshotOf pid started shared → protocol.Grow pid started shared → rules.act pid
      (.exec statement) shared →
      shared.server.execute pid statement = some (.ok (rows, tx)) →
        next rows { shared with server := shared.server.setTx pid tx } ∧
        known rows { shared with server := shared.server.setTx pid tx }) :
    Proves protocol extra rules pid (Unless pid pre)
      (Postgres.sql statement : Client Row Label ExtraReply ε (List Row))
      (Returns fun rows shared => Unless pid (next rows) shared ∧ known rows shared) := by
  have discipline := protocol.discipline extra rules
  let waiting := fun shared => ∃ started, protocol.Inv started ∧ pre started ∧ pre shared ∧
    SnapshotOf pid started shared ∧ protocol.Grow pid started shared
  have waits : Lasting protocol pid waiting := by
    rintro shared later inv invLater ⟨started, invStarted, first, current, ⟨taken, kept⟩,
      grown⟩ same keeps grow
    refine ⟨started, invStarted, first, before shared later inv invLater current same keeps grow,
      ⟨same.trans taken, ?_⟩,
      protocol.trans grown grow⟩
    rw [taken] at keeps
    exact kept.trans (keeps.same rfl rfl)
  have ends : ∀ rows, Stable protocol.Rely protocol.Inv pid
      fun shared => Unless pid (next rows) shared ∧ known rows shared :=
    fun rows => (after rows).stable.and (lasts rows)
  unfold Postgres.sql
  refine Triple.call discipline (fun _ => Unless pid waiting) before.stable ?_ fun _ => ?_
  · intro shared inv holds _ choice reply moved taken
    simp only [machine, Option.some.injEq, Prod.mk.injEq] at taken
    obtain ⟨-, rfl⟩ := taken
    by_cases opened : (shared.server.txs pid).label.isSome = true
    · simp only [opened, if_true]
      have quiet : Quiet shared { shared with server := shared.server.start pid } := quiet_setTx shared rfl
      have still := protocol.quiet quiet inv.2
      refine ⟨guarantee (inv.1.start opened) still.1 (fun other distinct => Foreign.setTx _ distinct)
        fun other _ => still.2 other, ?_⟩
      rcases holds with closed | holds
      · simp [closed] at opened
      · refine .inr ⟨shared, inv, holds, snapshot shared _ holds rfl, ⟨?_, .still rfl rfl⟩, still.2 pid⟩
        simp [Server.start]
    · simp only [opened]
      refine ⟨fun other _ => discipline.refl other shared, .inl ?_⟩
      simpa using opened
  · refine Triple.call discipline
      (fun reply => match reply with
        | .ok rows => fun shared => Unless pid (next rows) shared ∧ known rows shared
        | .error _ => fun _ => True)
      waits.stable ?_ fun reply => ?_
    · intro shared inv holds permitted choice reply moved taken
      simp only [machine] at taken
      split at taken
      · next opened =>
          rcases holds with closed | ⟨started, invStarted, first, current, snap, grown⟩
          · simp [closed] at opened
          · split at taken
            · cases taken
            · next rows tx run =>
                cases taken
                obtain ⟨fits, same⟩ := execute_fits inv.1 run
                obtain ⟨app, grow⟩ := protocol.quiet (quiet_setTx shared same) inv.2
                obtain ⟨left_, learnt⟩ :=
                  effect started shared rows tx invStarted inv first current snap grown permitted run
                exact ⟨guarantee (inv.1.execute opened run) app
                  (fun other distinct => Foreign.setTx _ distinct)
                  fun other _ => grow other, .inr left_, learnt⟩
            · cases taken
              exact ⟨fun other _ => discipline.refl other shared, trivial⟩
      · cases taken
        exact ⟨fun other _ => discipline.refl other shared, trivial⟩
    · cases reply with
      | ok rows =>
        exact Triple.ret discipline (Returns fun rows shared => Unless pid (next rows) shared ∧
          known rows shared) (ends rows)
      | error error =>
          exact Triple.fail discipline (Returns fun rows shared => Unless pid (next rows) shared ∧
            known rows shared) .true_

-- One statement, of whose reply nothing needs to be known once the transaction is closed.
theorem sqlPermitted {statement : Statement Row} {pre : Shared Row Label World → Prop}
    {next : List Row → Shared Row Label World → Prop} (before : Lasting protocol pid pre)
    (snapshot : ∀ shared tx, pre shared → tx = { shared.server.txs pid with snapshot := tx.snapshot } →
      pre { shared with server := shared.server.setTx pid tx })
    (after : ∀ rows, Lasting protocol pid (next rows))
    (effect : ∀ started shared rows tx, protocol.Inv started → protocol.Inv shared →
      pre started → pre shared →
      SnapshotOf pid started shared → protocol.Grow pid started shared → rules.act pid
      (.exec statement) shared →
      shared.server.execute pid statement = some (.ok (rows, tx)) →
      next rows { shared with server := shared.server.setTx pid tx }) :
    Proves protocol extra rules pid (Unless pid pre)
      (Postgres.sql statement : Client Row Label ExtraReply ε (List Row))
      (Returns fun rows => Unless pid (next rows)) := by
  have known : Proves protocol extra rules pid (Unless pid pre)
      (Postgres.sql statement : Client Row Label ExtraReply ε (List Row))
      (Returns fun rows shared => Unless pid (next rows) shared ∧ True) :=
    sqlKnown before snapshot after (fun _ => .true_)
        fun started shared rows tx invStarted inv first current snap grown permitted run =>
      ⟨effect started shared rows tx invStarted inv first current snap grown permitted run, trivial⟩
  refine known.weaken fun result shared _ held => ?_
  cases result with
  | ok rows => exact held.1
  | error error => trivial

theorem sql {statement : Statement Row} {pre : Shared Row Label World → Prop}
    {next : List Row → Shared Row Label World → Prop} (before : Lasting protocol pid pre)
    (snapshot : ∀ shared tx, pre shared → tx = { shared.server.txs pid with snapshot := tx.snapshot } →
      pre { shared with server := shared.server.setTx pid tx })
    (after : ∀ rows, Lasting protocol pid (next rows))
    (effect : ∀ started shared rows tx, protocol.Inv started → protocol.Inv shared →
      pre started → pre shared →
      SnapshotOf pid started shared → protocol.Grow pid started shared →
      shared.server.execute pid statement = some (.ok (rows, tx)) →
      next rows { shared with server := shared.server.setTx pid tx }) :
    Proves protocol extra rules pid (Unless pid pre)
      (Postgres.sql statement : Client Row Label ExtraReply ε (List Row))
      (Returns fun rows => Unless pid (next rows)) :=
  sqlPermitted before snapshot after
      fun started shared rows tx invStarted inv first current snap grown _ run =>
    effect started shared rows tx invStarted inv first current snap grown run

omit [ClientError ε] in
theorem begins {β : Type} {label : Label} {rest : Client Row Label ExtraReply ε β}
    {pre : Shared Row Label World → Prop}
    {post : Except ε β → Shared Row Label World → Prop} (opened : Shared Row Label World → Prop)
    (before : Stable protocol.Rely protocol.Inv pid pre)
    (begins : ∀ shared, protocol.Inv shared → Idle pid shared → pre shared →
      rules.act pid (.begin label) shared →
        protocol.App { shared with server := shared.server.begin pid label } ∧
        (∀ other, other ≠ pid → protocol.Grow other shared
          { shared with server := shared.server.begin pid label }) ∧
        opened { shared with server := shared.server.begin pid label })
    (later : Proves protocol extra rules pid (Unless pid opened) rest post) :
    Proves protocol extra rules pid (fun shared => Idle pid shared ∧ pre shared)
    (.call (.begin label) fun _ => rest) post := by
  refine Triple.call (protocol.discipline extra rules) (fun _ => Unless pid opened)
    ((protocol.idle_stable pid).and before) ?_
    fun _ => later
  rintro shared inv ⟨idle, holds⟩ permitted choice reply moved taken
  simp only [machine, Option.some.injEq, Prod.mk.injEq] at taken
  obtain ⟨-, rfl⟩ := taken
  obtain ⟨app, grow, first⟩ := begins shared inv idle holds permitted
  exact ⟨guarantee (inv.1.begin pid label) app (fun other distinct => Foreign.begin label distinct) grow,
    .inr first⟩

omit [ClientError ε] in
-- A commit: what the transaction has established holds after it, unless it is refused; what was `told`
-- before holds anyway.
theorem commitsTold {β : Type} {rest : Except SqlError Unit → Client Row Label ExtraReply ε β}
    {middle done : Shared Row Label World → Prop} {post : Except ε β → Shared Row Label World → Prop}
    (told : Shared Row Label World → Prop) (lasting : Lasting protocol pid middle)
    (tells : Stable protocol.Rely protocol.Inv pid told)
    (commits : ∀ shared, protocol.Inv shared → (shared.server.txs pid).label.isSome = true →
      middle shared → told shared →
      rules.act pid .commit shared →
        protocol.App { shared with server := shared.server.commit pid } ∧
        (∀ other, other ≠ pid → protocol.Grow other shared
          { shared with server := shared.server.commit pid }) ∧
        done { shared with server := shared.server.commit pid } ∧ told
        { shared with server := shared.server.commit pid })
    (committed : Proves protocol extra rules pid (fun shared => Idle pid shared ∧ done shared ∧
      told shared) (rest (.ok ())) post)
    (refused : ∀ error, Proves protocol extra rules pid (fun shared => Idle pid shared ∧
      told shared) (rest (.error error)) post) :
    Proves protocol extra rules pid (fun shared => Unless pid middle shared ∧ told shared)
    (.call .commit rest) post := by
  have discipline := protocol.discipline extra rules
  refine Triple.call discipline
    (fun reply shared => Idle pid shared ∧ ((reply = .ok () → done shared) ∧ told shared))
      (lasting.stable.and tells) ?_ fun reply => ?_
  · rintro shared inv ⟨held, known⟩ permitted choice reply moved taken
    simp only [machine] at taken
    split at taken
    · next isOpen =>
        cases taken
        rcases held with closed | held
        · simp [closed] at isOpen
        · obtain ⟨app, grow, last, still⟩ := commits shared inv isOpen held known permitted
          refine ⟨guarantee (inv.1.commit pid) app (fun other distinct => Foreign.commit inv.1 distinct) grow,
            ?_, fun _ => last, still⟩
          simp [Idle, Server.commit, Tx.idle]
    · next isClosed =>
        cases taken
        exact ⟨fun other _ => discipline.refl other shared,
          by simpa [Idle] using isClosed, fun same => (by cases same), known⟩
  · cases reply with
    | ok _ => exact committed.strengthen fun shared _ held => ⟨held.1, held.2.1 rfl, held.2.2⟩
    | error error => exact (refused error).strengthen fun shared _ held => ⟨held.1, held.2.2⟩

omit [ClientError ε] in
theorem commits {β : Type} {rest : Except SqlError Unit → Client Row Label ExtraReply ε β}
    {middle done : Shared Row Label World → Prop}
    {post : Except ε β → Shared Row Label World → Prop} (lasting : Lasting protocol pid middle)
    (commits : ∀ shared, protocol.Inv shared → (shared.server.txs pid).label.isSome = true → middle shared →
      rules.act pid .commit shared →
        protocol.App { shared with server := shared.server.commit pid } ∧
        (∀ other, other ≠ pid → protocol.Grow other shared
          { shared with server := shared.server.commit pid }) ∧
        done { shared with server := shared.server.commit pid })
    (committed : Proves protocol extra rules pid (fun shared => Idle pid shared ∧
      done shared) (rest (.ok ())) post)
    (refused : ∀ error, Proves protocol extra rules pid (Idle pid) (rest (.error error)) post) :
    Proves protocol extra rules pid (Unless pid middle) (.call .commit rest) post := by
  have known := commitsTold (fun _ => True) lasting .true_ (fun shared inv opened held _ permitted => by
      obtain ⟨app, grow, last⟩ := commits shared inv opened held permitted
      exact ⟨app, grow, last, trivial⟩)
    (committed.strengthen fun shared _ held => ⟨held.1, held.2.1⟩) fun error => (refused error).strengthen
      fun shared _ held => held.1
  exact known.strengthen fun shared _ held => ⟨held, trivial⟩

omit [ClientError ε] in
theorem rollsBack {error : ε} {post : Except ε α → Shared Row Label World → Prop}
    (ends : Stable protocol.Rely protocol.Inv pid fun shared => Idle pid shared ∧ post (.error error) shared)
    (holds : ∀ shared, Idle pid shared → post (.error error) shared) :
    Proves protocol extra rules pid (fun _ => True) (.call .rollback fun _ => .fail error)
      (fun result shared => Idle pid shared ∧ post result shared) := by
  have discipline := protocol.discipline extra rules
  refine Triple.call discipline (fun _ shared => Idle pid shared ∧
      post (.error error) shared) .true_ ?_ fun _ =>
    Triple.fail discipline (fun result shared => Idle pid shared ∧ post result shared) ends
  intro shared inv _ _ choice reply moved taken
  simp only [machine, Option.some.injEq, Prod.mk.injEq] at taken
  obtain ⟨-, rfl⟩ := taken
  obtain ⟨app, grow⟩ := protocol.rollback pid inv.1 inv.2
  have idle : Idle pid { shared with server := shared.server.rollback pid } := by
    simp [Idle, Server.rollback, Tx.idle]
  exact ⟨guarantee (inv.1.rollback pid) app (fun other _ => Foreign.rollback other)
    fun other _ => grow other, idle,
    holds _ idle⟩

section Whole
variable {label : Label} {body : Client Row Label ExtraReply ε α}
  {pre : Shared Row Label World → Prop} {done : α → Shared Row Label World → Prop}
  (opened : Shared Row Label World → Prop) (middle : α → Shared Row Label World → Prop)
  (before : Stable protocol.Rely protocol.Inv pid pre)
  (begins : ∀ shared, protocol.Inv shared → Idle pid shared → pre shared →
    rules.act pid (.begin label) shared →
      protocol.App { shared with server := shared.server.begin pid label } ∧
      (∀ other, other ≠ pid → protocol.Grow other shared
        { shared with server := shared.server.begin pid label }) ∧
      opened { shared with server := shared.server.begin pid label })
  (runs : Proves protocol extra rules pid (Unless pid opened) body (Returns
    fun value => Unless pid (middle value)))
  (lasting : ∀ value, Lasting protocol pid (middle value))
  (commits : ∀ value shared, protocol.Inv shared →
    (shared.server.txs pid).label.isSome = true → middle value shared →
    rules.act pid .commit shared →
      protocol.App { shared with server := shared.server.commit pid } ∧
      (∀ other, other ≠ pid → protocol.Grow other shared { shared with server := shared.server.commit pid }) ∧
      done value { shared with server := shared.server.commit pid })
  (after : ∀ value, Stable protocol.Rely protocol.Inv pid (done value))
include before begins runs lasting commits after

theorem transaction :
    Proves protocol extra rules pid (fun shared => Idle pid shared ∧ pre shared)
      (Postgres.transaction label body)
      (fun result shared => Idle pid shared ∧ Returns done result shared) := by
  have discipline := protocol.discipline extra rules
  have ends : ∀ result : Except ε α,
      Stable protocol.Rely protocol.Inv pid (fun shared => Idle pid shared ∧ Returns done result shared) :=
    fun result => (protocol.idle_stable pid).and (returns_stable after result)
  refine Protocol.begins opened before begins (Triple.handle discipline (fun _ _ => True)
    (Triple.bind discipline
    (fun value => Unless pid (middle value)) ?_ fun value => ?_)
      fun error => rollsBack (ends (.error error)) fun _ _ => trivial)
  · refine runs.weaken fun result shared _ held => ?_
    cases result with
    | ok value => exact held
    | error error => trivial
  · refine Protocol.commits (lasting value) (commits value) ?_ fun error => ?_
    · exact fun shared inv held later moved => ⟨discipline.inv inv moved,
        ends (.ok value) shared later inv held moved⟩
    · exact fun shared inv _ later moved => ⟨discipline.inv inv moved, trivial⟩

end Whole

section Whole
variable {label : Label} {body : Client Row Label ExtraReply ε α}
  {pre : Shared Row Label World → Prop} {done told : α → Shared Row Label World → Prop}
  (opened : Shared Row Label World → Prop) (middle : α → Shared Row Label World → Prop)
  (before : Stable protocol.Rely protocol.Inv pid pre)
  (begins : ∀ shared, protocol.Inv shared → Idle pid shared → pre shared →
    rules.act pid (.begin label) shared →
      protocol.App { shared with server := shared.server.begin pid label } ∧
      (∀ other, other ≠ pid → protocol.Grow other shared
        { shared with server := shared.server.begin pid label }) ∧
      opened { shared with server := shared.server.begin pid label })
  (runs : Proves protocol extra rules pid (Unless pid opened) body
    (Returns fun value shared => Unless pid (middle value) shared ∧ told value shared))
  (lasting : ∀ value, Lasting protocol pid (middle value))
  (commits : ∀ value shared, protocol.Inv shared → (shared.server.txs pid).label.isSome = true →
    middle value shared → told value shared →
    rules.act pid .commit shared →
      protocol.App { shared with server := shared.server.commit pid } ∧
      (∀ other, other ≠ pid → protocol.Grow other shared { shared with server := shared.server.commit pid }) ∧
        done value { shared with server := shared.server.commit pid } ∧
        told value { shared with server := shared.server.commit pid })
  (after : ∀ value, Stable protocol.Rely protocol.Inv pid (done value))
  (tells : ∀ value, Stable protocol.Rely protocol.Inv pid (told value))
include before begins runs lasting commits after tells

omit [ClientError ε] in
-- The same, for a client that goes on with the value when the commit is refused, and with what it has
-- been told.
theorem inTx :
    Proves protocol extra rules pid (fun shared => Idle pid shared ∧ pre shared)
      (Postgres.inTx label body)
      (fun result shared => Idle pid shared ∧
        Returns (fun given shared => (given.2 = none → done given.1 shared) ∧
          told given.1 shared) result shared) := by
  have discipline := protocol.discipline extra rules
  have ends : ∀ result : Except ε (α × Option SqlError), Stable protocol.Rely protocol.Inv pid
      (fun shared => Idle pid shared ∧
        Returns (fun given shared => (given.2 = none → done given.1 shared) ∧
            told given.1 shared) result shared) := by
    intro result
    refine (protocol.idle_stable pid).and (returns_stable (fun given => Stable.and ?_ (tells given.1)) result)
    intro shared next inv held moved absent
    exact after given.1 shared next inv (held absent) moved
  refine Protocol.begins opened before begins (Triple.handle discipline (fun _ _ => True)
    (Triple.bind discipline
    (fun value shared => Unless pid (middle value) shared ∧ told value shared) ?_ fun value => ?_)
    fun error => rollsBack (ends (.error error)) fun _ _ => trivial)
  · refine runs.weaken fun result shared _ held => ?_
    cases result with
    | ok value => exact held
    | error error => trivial
  · refine commitsTold (told value) (lasting value) (tells value) (commits value) ?_ fun error => ?_
    · refine fun shared inv held later moved => ⟨discipline.inv inv moved, ?_⟩
      exact ends (.ok (value, none)) shared later inv ⟨held.1, fun _ => held.2.1, held.2.2⟩ moved
    · refine fun shared inv held later moved => ⟨discipline.inv inv moved, ?_⟩
      exact ends (.ok (value, some error)) shared later inv ⟨held.1,
        (fun absent => nomatch absent), held.2⟩ moved

end Whole

end Transactions

theorem ask {request : Extra} {pre : Shared Row Label World → Prop}
    {next : ExtraReply request → Shared Row Label World → Prop}
    (before : Stable protocol.Rely protocol.Inv pid pre)
    (effect : ∀ shared choice reply world, protocol.Inv shared → pre shared →
      rules.act pid (.other request) shared →
      extra pid request choice shared = some (reply, world) →
        protocol.App { shared with world := world } ∧
        (∀ other, other ≠ pid → protocol.Grow other shared { shared with world := world }) ∧
        next reply { shared with world := world })
    (after : ∀ reply, Stable protocol.Rely protocol.Inv pid (next reply)) :
    Proves protocol extra rules pid pre
      (Postgres.ask request : Client Row Label ExtraReply ε (ExtraReply request)) (Returns next) := by
  have discipline := protocol.discipline extra rules
  refine Triple.call discipline (next) before ?_ fun reply => ?_
  · intro shared inv holds permitted choice reply moved taken
    simp only [machine, Option.map_eq_some_iff, Prod.exists, Prod.mk.injEq] at taken
    obtain ⟨given, world, answered, rfl, rfl⟩ := taken
    obtain ⟨app, grow, done⟩ := effect shared choice given world inv holds permitted answered
    exact ⟨guarantee inv.1 app (fun other _ => Foreign.refl other shared.server) grow, done⟩
  · exact Triple.ret discipline (Returns next) (after reply)

end Protocol

end OpenEmarsys.Postgres
