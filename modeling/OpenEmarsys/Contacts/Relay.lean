import OpenEmarsys.Contacts.Delivery

/-! Relays: what they publish is committed, what they delete is published, and related
events keep their order when nothing is skipped.
-/

set_option autoImplicit false

namespace OpenEmarsys.Contacts

open Javascript Postgres Postgres.PublicProtocol Interleaving

/-- Messages still to be sent, in an order that keeps to the order of commits. -/
structure Sending (related : Order) (rest : List OutboxRow) (state : Public Row Label World) : Prop where
  known : ∀ row ∈ rest, row ∈ committed state.log
  ready : ∀ before row after, rest = before ++ row :: after →
      ∀ earlier, [earlier, row].Sublist (committed state.log) → related earlier row →
      earlier ∈ before ∨ earlier ∈ state.world.stream

def Sent (rows : List OutboxRow) (state : Public Row Label World) : Prop :=
  ∀ row ∈ rows, row ∈ state.world.stream

section Relay
variable {related : Order} {pid : Tid}

theorem earlier_grows {state next : Public Row Label World} (later : Delivered related next)
    (onward : Onward pid state next)
    {earlier row : OutboxRow} (known : row ∈ committed state.log)
    (found : [earlier, row].Sublist (committed next.log)) :
    [earlier, row].Sublist (committed state.log) := by
  obtain ⟨more, same⟩ := committed_grows onward.log
  rw [← same] at found
  exact fresh_sublist known (same ▸ later.once) found

theorem sending_steady (rest : List OutboxRow) : Steady (delivery related) pid (Sending related rest) := by
  intro state next _ later onward sending
  refine ⟨fun row member => (committed_grows onward.log).subset (sending.known row member), ?_⟩
  intro before row after split earlier found relation
  have known : row ∈ committed state.log := sending.known row (by simp [split])
  exact (sending.ready before row after split earlier (earlier_grows later onward known found) relation).imp
    id
    fun inStream => onward.stream.subset inStream

theorem sent_steady (rows : List OutboxRow) : Steady (delivery related) pid (Sent rows) :=
  fun _ _ _ _ onward sent row member => onward.stream.subset (sent row member)

theorem Delivered.store {state : Public Row Label World} (delivered : Delivered related state)
    {row : OutboxRow} (known : row ∈ committed state.log)
    (ready : ∀ earlier, [earlier, row].Sublist (committed state.log) → related earlier row →
      earlier ∈ state.world.stream) :
    let next : Public Row Label World := { state with world := state.world.store row }
    Delivered related next ∧ (∀ pid, Onward pid state next) ∧ row ∈ next.world.stream := by
  intro next
  by_cases stored : state.world.stream.any (fun message => message.id == row.id) = true
  · have same : next = state := by simp [next, World.store, stored]
    rw [same]
    refine ⟨delivered, fun pid => Onward.refl pid state, ?_⟩
    obtain ⟨message, inStream, is⟩ := List.any_eq_true.mp stored
    exact delivered.same (delivered.stream message inStream) known (by simpa using is) ▸ inStream
  · have drawn : next.world.drawn = state.world.drawn := by simp [next, World.store, stored]
    have stream : next.world.stream = state.world.stream ++ [row] := by simp [next, World.store, stored]
    have grown : state.world.stream <+: next.world.stream := stream ▸ List.prefix_append ..
    refine ⟨⟨drawn ▸ delivered.drawn, ?_, delivered.once, delivered.pending, ?_, ?_, ?_,
      delivered.increasing, ?_⟩,
      fun pid => ⟨fun entry member => drawn ▸ member, List.prefix_rfl, grown, fun _ _ member => member⟩, by
        simp [stream]⟩
    · rw [drawn]
      exact delivered.owned
    · intro message member
      rw [stream] at member
      rcases List.mem_append.mp member with before | new
      · exact delivered.stream message before
      · cases List.mem_singleton.mp new
        exact known
    · exact fun found member => (delivered.kept found member).imp id fun inStream => grown.subset inStream
    · rw [stream, List.map_append, List.nodup_append]
      refine ⟨delivered.stored, by simp, fun id inOld other new same => stored ?_⟩
      obtain ⟨message, inStream, rfl⟩ := List.mem_map.mp inOld
      have is : other = row.id := by simpa using new
      exact List.any_eq_true.mpr ⟨message, inStream, by simp [same, is]⟩
    · intro before message after split earlier found relation
      rw [stream] at split
      rcases List.eq_nil_or_concat after with rfl | ⟨rest, last, rfl⟩
      · obtain ⟨rfl, is⟩ := List.append_inj' split rfl
        cases is
        exact ready earlier found relation
      · rw [List.concat_eq_append, ← List.cons_append, ← List.append_assoc] at split
        obtain ⟨same, -⟩ := List.append_inj' split rfl
        exact delivered.ordered before message rest same earlier found relation

instance : Std.Total fun row other => outboxOrder row other = true :=
  ⟨fun row other => by simpa [outboxOrder] using le_total (outboxId row) (outboxId other)⟩

instance : IsTrans Row fun row other => outboxOrder row other = true :=
  ⟨fun first second third left right => by
    simp only [outboxOrder, decide_eq_true_eq] at *; exact left.trans right⟩

theorem earlier_in_front {rows : List Row}
    (sorted : rows.Pairwise fun row other => outboxOrder row other = true)
    {limit : Nat} {before after : List OutboxRow} {row earlier : OutboxRow}
    (split : outboxOf (rows.take limit) = before ++ row :: after) (member : .outbox earlier ∈ rows)
    (smaller : earlier.id < row.id) : earlier ∈ before := by
  have front : outboxOf (rows.take limit) <+: outboxOf rows := (List.take_prefix limit rows).filterMap _
  obtain ⟨more, whole⟩ := front
  have ids : (outboxOf rows).Pairwise fun row other => row.id ≤ other.id := by
    refine List.Pairwise.filterMap _ (fun first second le => ?_) sorted
    intro row found other also
    cases first <;> cases second <;> simp_all [Row.outbox?, outboxOrder, outboxId]
  have inAll : earlier ∈ before ++ row :: (after ++ more) := by
    have found := mem_outboxOf.mpr member
    rwa [← whole, split, List.append_assoc, List.cons_append] at found
  rw [← whole, split, List.append_assoc, List.cons_append, List.pairwise_append, List.pairwise_cons] at ids
  rcases List.mem_append.mp inAll with here | later
  · exact here
  · rcases List.mem_cons.mp later with rfl | behind
    · exact absurd smaller (lt_irrefl _)
    · exact absurd (ids.2.1.1 earlier behind) (not_le.mpr smaller)

variable {rules : Rules Delivery (Action Row Label Request) State}

abbrev Blank (pid : Tid) : State → Prop := Untouched pid fun _ => True

/-- Between two calls of `drain`: nothing changed yet, `sent` messages are out and `rest` are to go. -/
def Relaying (related : Order) (pid : Tid) (sent rest : List OutboxRow) (shared : State) : Prop :=
  Protocol.Unless pid (Blank pid) shared ∧ Sending related rest shared.public ∧ Sent sent shared.public

theorem blank_lasting : (delivery related).protocol.Lasting pid (Blank pid) :=
  untouched_lasting fun _ _ _ _ _ _ => trivial

theorem relaying_stable (sent rest : List OutboxRow) :
    Stable (delivery related).protocol.Rely (delivery related).protocol.Inv pid
    (Relaying related pid sent rest) :=
  blank_lasting.stable.and ((sending_steady rest).stable.and (sent_steady sent).stable)

theorem Sending.next {rest : List OutboxRow} {row : OutboxRow} {state : Public Row Label World}
    (sending : Sending related (row :: rest) state) (out : row ∈ state.world.stream) :
    Sending related rest state := by
  refine ⟨fun other member => sending.known other (List.mem_cons_of_mem _ member), ?_⟩
  rintro before other after rfl earlier found relation
  rcases sending.ready (row :: before) other after rfl earlier found relation with inFront | inStream
  · rcases List.mem_cons.mp inFront with rfl | later
    · exact .inr out
    · exact .inl later
  · exact .inr inStream

theorem send_runs (sent rest : List OutboxRow) (row : OutboxRow) :
    (delivery related).protocol.Proves respond rules pid (Relaying related pid sent (row :: rest)) (send row)
      (Protocol.Returns fun _ => Relaying related pid (sent ++ [row]) rest) := by
  have discipline := (delivery related).protocol.discipline respond rules
  let out (acknowledged : Bool) (shared : State) : Prop :=
    acknowledged = true → Relaying related pid (sent ++ [row]) rest shared
  have stable : ∀ acknowledged, Stable (delivery related).protocol.Rely (delivery related).protocol.Inv
      pid (out acknowledged) :=
    fun acknowledged shared next inv held moved arrived =>
      relaying_stable _ _ shared next inv (held arrived) moved
  have asks : (delivery related).protocol.Proves respond rules pid (Relaying related pid sent (row :: rest))
      (call (.publish row)) (Protocol.Returns out) := by
    refine Protocol.ask (relaying_stable sent (row :: rest)) ?_ stable
    rintro shared choice acknowledged world inv ⟨open_, sending, sentBefore⟩ - answered
    have known := sending.known row (List.mem_cons_self ..)
    have first : ∀ earlier, [earlier, row].Sublist (committed shared.server.log) → related earlier row →
        earlier ∈ shared.world.stream := fun earlier found relation =>
      (sending.ready [] row rest rfl earlier found relation).resolve_left List.not_mem_nil
    obtain ⟨delivered, onward, arrived⟩ := inv.2.store known first
    cases choice with
    | delivery arrives heard =>
        simp only [respond, Option.some.injEq, Prod.mk.injEq] at answered
        obtain ⟨rfl, rfl⟩ := answered
        cases arrives with
        | false =>
          exact ⟨inv.2, fun other _ => Onward.refl other _,
            fun acknowledged => by cases acknowledged⟩
        | true =>
            refine ⟨delivered, fun other _ => onward other, fun _ => ⟨open_, ?_, ?_⟩⟩
            · exact (sending_steady _ _ _ inv.2 delivered (onward pid) sending).next arrived
            · intro other member
              rcases List.mem_append.mp member with before | new
              · exact sent_steady sent _ _ inv.2 delivered (onward pid) sentBefore other before
              · cases List.mem_singleton.mp new
                exact arrived
    | _ => cases answered
  refine Triple.bind discipline out (asks.weaken fun result _ _ held => ?_) fun acknowledged => ?_
  · cases result with
    | ok acknowledged => exact held
    | error error => trivial
  · cases acknowledged with
    | true =>
        exact Triple.strengthen (Triple.ret discipline (Protocol.Returns
          fun _ => Relaying related pid (sent ++ [row]) rest)
          (relaying_stable _ _)) fun _ _ held => held rfl
    | false => exact fun shared inv _ later moved => ⟨(moved inv).1, trivial⟩

theorem sendAll_runs (sent rest : List OutboxRow) :
    (delivery related).protocol.Proves respond rules pid (Relaying related pid sent rest) (sendAll rest)
      (Protocol.Returns fun _ => Relaying related pid (sent ++ rest) []) := by
  have discipline := (delivery related).protocol.discipline respond rules
  induction rest generalizing sent with
  | nil =>
      rw [List.append_nil]
      exact Triple.ret discipline (Protocol.Returns fun _ =>
        Relaying related pid sent []) (relaying_stable _ _)
  | cons row rest ih =>
      refine Triple.bind discipline (fun _ => Relaying related pid (sent ++ [row]) rest)
        ((send_runs sent rest row).weaken fun result _ _ held => ?_) fun _ => ?_
      · cases result with
        | ok _ => exact held
        | error error => trivial
      · have later := ih (sent ++ [row])
        rwa [List.append_assoc, List.singleton_append] at later

-- The rows a relay takes: committed, and none of an earlier commit is passed over.
theorem taken_ready (timely : Timely related rules) {started shared : State} {rows : List Row}
    {tx : Tx Row Label} {p : Row → Bool} {limit : Nat} (all : ∀ row, p (.outbox row) = true)
    (first : (delivery related).protocol.Inv started) (inv : (delivery related).protocol.Inv shared)
    (blankFirst : Blank pid started) (blank : Blank pid shared)
    (snapshot : Protocol.SnapshotOf pid started shared)
    (onward : Onward pid started.public shared.public)
    (permitted : rules.act pid (.exec (.lockSkip p outboxOrder limit)) shared)
    (run : shared.server.execute pid (.lockSkip p outboxOrder limit) = some (.ok (rows, tx))) :
    Sending related (outboxOf rows) shared.public := by
  obtain ⟨is, -⟩ := execute_lockSkip inv.1 run
  have visible : ∀ {state : State}, Blank pid state → ∀ row :
      Row, row ∈ (state.server.txs pid).view state.server.rows ↔ row ∈ state.server.rows := by
    rintro state ⟨added, removed, -⟩ row
    simp [Tx.view, added, Tx.removes, removed]
  have seen : ∀ row : Row, row ∈ (shared.server.txs pid).snapshot ↔ row ∈ started.server.rows := by
    intro row
    rw [snapshot.1]
    exact visible blankFirst row
  have free : ∀ row ∈ rows, row ∈ shared.server.hits pid p ∧ shared.server.refuses pid row = false := by
    intro row member
    rw [is] at member
    simpa using List.mem_filter.mp ((List.mem_insertionSort _).mp (List.mem_of_mem_take member))
  have present : ∀ row, .outbox row ∈ rows → .outbox row ∈ shared.server.rows ∧
      row ∈ committed started.server.log := by
    intro row member
    have hit := (free _ member).1
    obtain ⟨view, -, old, inSnapshot, -, same⟩ := mem_hits.mp hit
    obtain ⟨found, rfl, sameId⟩ := outbox_of_primary (same : primary old = IndexKey.outbox row.id)
    have before := first.2.pending found ((seen _).mp inSnapshot)
    have here := (visible blank _).mp view
    have equal := inv.2.same ((committed_grows onward.log).subset before) (inv.2.pending row here) sameId
    exact ⟨here, equal ▸ before⟩
  refine ⟨fun row member => inv.2.pending row (present row (mem_outboxOf.mp member)).1, ?_⟩
  intro before row after split earlier found relation
  by_cases out : earlier ∈ shared.public.world.stream
  · exact .inr out
  · refine .inl ?_
    have taken : .outbox row ∈ rows := mem_outboxOf.mp (by simp [split])
    have rowFirst : row ∈ committed started.server.log := (present row taken).2
    -- the earlier row was pending when the statement started, so it is in the snapshot
    have earlierFirst : earlier ∈ committed started.server.log :=
      (earlier_grows inv.2 onward rowFirst found).subset (List.mem_cons_self ..)
    have pendingFirst : .outbox earlier ∈ started.server.rows :=
      (first.2.kept earlier earlierFirst).resolve_right fun inStream => out (onward.stream.subset inStream)
    have pendingNow : .outbox earlier ∈ shared.server.rows :=
      (inv.2.kept earlier (found.subset (List.mem_cons_self ..))).resolve_right out
    -- the relay takes `row`, so it does not skip the earlier one
    have unlocked := timely.select pid shared p outboxOrder limit permitted earlier row
      relation found pendingNow
      (present row taken).1 (free _ taken).2
    have smaller : earlier.id < row.id := by
      have pair := inv.2.increasing.sublist found
      exact (List.pairwise_cons.mp pair).1 row (List.mem_singleton.mpr rfl) relation
    rw [is] at split
    refine earlier_in_front (List.pairwise_insertionSort _ _) split ?_ smaller
    refine (List.mem_insertionSort _).mpr (List.mem_filter.mpr
      ⟨mem_hits.mpr ⟨?_, all earlier, .outbox earlier, ?_, all earlier, rfl⟩, ?_⟩)
    · exact (visible blank _).mpr pendingNow
    · exact (seen _).mpr pendingFirst
    · simp [unlocked]

theorem relaying_delete {shared : State} {rows : List OutboxRow} {reply : List Row} {tx : Tx Row Label}
    (inv : (delivery related).protocol.Inv shared) (blank : Blank pid shared) (sent : Sent rows shared.public)
    (run : shared.server.execute pid (.delete (Row.isOutbox
      fun row => (rows.map OutboxRow.id).contains row.id)) =
      some (.ok (reply, tx))) :
    Writing pid [] { shared with server := shared.server.setTx pid tx } := by
  obtain ⟨rfl, change⟩ := execute_delete inv.1 run
  obtain ⟨added, removed, -⟩ := blank
  refine ⟨⟨fun row member => ?_, fun id member => ?_⟩, fun id absurd_ => by cases absurd_⟩
  · rw [Server.setTx_same, change.added] at member
    simp [added] at member
  · rw [Server.setTx_same] at member
    rcases change.removed _ member with before | ⟨old, hit, is⟩
    · simp [removed] at before
    · obtain ⟨found, rfl, same⟩ := outbox_of_primary is.symm
      have matches_ := (mem_hits.mp hit).2.1
      obtain ⟨row, listed, equal⟩ : ∃ row ∈ rows, row.id = found.id := by
        simpa [Row.isOutbox, Row.outbox?] using matches_
      exact ⟨row, sent row listed, equal.trans same⟩

theorem writing_lasting : (delivery related).protocol.Lasting pid (Writing pid []) := by
  intro shared next _ _ writing same _ onward
  exact writing.moved onward (by rw [same]; exact List.Subset.refl _) (by rw [same]; exact List.Subset.refl _)

theorem Untouched.writing {shared : State} (blank : Blank pid shared) : Writing pid [] shared := by
  obtain ⟨added, removed, -⟩ := blank
  exact ⟨⟨fun row member => by simp [added] at member, fun id member => by simp [removed] at member⟩,
    fun id absurd_ => by cases absurd_⟩

theorem drain_runs (timely : Timely related rules) :
    (delivery related).protocol.Proves respond rules pid (fun shared => Protocol.Idle pid shared ∧ True) drain
      fun result shared => Protocol.Idle pid shared ∧ Protocol.Returns (fun _ _ => True) result shared := by
  have discipline := (delivery related).protocol.discipline respond rules
  refine Protocol.transaction (Blank pid) (fun _ => Writing pid []) .true_
    (fun shared inv _ _ _ => ⟨inv.2, fun other _ => Onward.refl other _, untouched_begin trivial⟩) ?_
    (fun _ => writing_lasting) (fun _ shared inv _ writing permitted => ?_) fun _ => .true_
  · have takes : (delivery related).protocol.Proves respond rules pid (Protocol.Unless pid (Blank pid))
        (sql (.lockSkip (Row.isOutbox fun _ => true) outboxOrder BATCH) : CoreScript (List Row))
        (Protocol.Returns fun rows shared => Protocol.Unless pid (Blank pid) shared ∧
            Sending related (outboxOf rows) shared.public) := by
      refine Protocol.sqlKnown blank_lasting (fun _ _ => untouched_setTx) (fun _ => blank_lasting)
        (fun rows => (sending_steady _).stable) ?_
      intro started shared rows tx first inv blankFirst blank snapshot onward permitted run
      have locked := (execute_lockSkip inv.1 run).2
      have known : Sending related (outboxOf rows) shared.public :=
        taken_ready timely (fun _ => rfl) first inv blankFirst blank snapshot onward permitted run
      refine ⟨⟨?_, ?_, trivial⟩, known⟩
      · rw [Server.setTx_same, locked.added]; exact blank.1
      · rw [Server.setTx_same, locked.removed]; exact blank.2.1
    refine Triple.bind discipline (fun rows => Relaying related pid [] (outboxOf rows)) (takes.weaken
      fun result _ _ held => ?_)
      fun rows => ?_
    · cases result with
      | ok rows => exact ⟨held.1, held.2, fun _ absurd_ => by cases absurd_⟩
      | error error => trivial
    refine Triple.bind discipline (fun _ => Relaying related pid (outboxOf rows) [])
      ((sendAll_runs [] (outboxOf rows)).weaken fun result _ _ held => ?_) fun _ => ?_
    · cases result with
      | ok _ => exact held
      | error error => trivial
    split
    · refine Triple.strengthen (Triple.ret discipline (Protocol.Returns
        fun _ => Protocol.Unless pid (Writing pid []))
        writing_lasting.stable) fun _ _ held => ?_
      exact held.1.imp id Untouched.writing
    · refine Triple.bind discipline (fun _ => Protocol.Unless pid (Writing pid [])) ?_ fun _ =>
        Triple.ret discipline (Protocol.Returns fun _ => Protocol.Unless pid (Writing pid []))
          writing_lasting.stable
      let ready (shared : State) : Prop := Blank pid shared ∧ Sent (outboxOf rows) shared.public
      have lasting : (delivery related).protocol.Lasting pid ready :=
        fun shared next inv later held same kept onward =>
        ⟨blank_lasting shared next inv later held.1 same kept onward,
          sent_steady _ _ _ inv.2 later.2 onward held.2⟩
      refine Triple.conseq (Protocol.sql lasting (fun shared tx held same =>
        ⟨untouched_setTx held.1 same, held.2⟩)
        (fun _ => writing_lasting) ?_) (fun _ _ held => ?_) fun result _ _ held => ?_
      · exact fun started shared reply tx _ inv _ held _ _ run => relaying_delete inv held.1 held.2 run
      · exact held.1.imp id fun blank => ⟨blank, held.2.2⟩
      · cases result with
        | ok _ => exact held
        | error error => trivial
  · obtain ⟨delivered, onward⟩ := writing.owns.commit inv.1 inv.2 (timely.commit pid shared permitted inv.2)
    exact ⟨delivered, onward, trivial⟩

/-! ## Runs -/

/-- A database without outbox rows, and a stream without messages. -/
structure Opening (first : State) : Prop where
  server : first.server = .holding first.server.rows
  apart : first.server.rows.Pairwise NoClash
  empty : outboxOf first.server.rows = []
  drawn : first.world.drawn = []
  stream : first.world.stream = []

theorem Opening.delivered {first : State} (opening : Opening first) : Delivered related first.public := by
  have log : first.public.log = [] := congrArg Server.log opening.server
  have pending : ∀ row, Row.outbox row ∉ first.server.rows := fun row member => by
    have found := mem_outboxOf.mpr member
    simp [opening.empty] at found
  have stream : first.public.world.stream = [] := opening.stream
  have drawn : first.public.world.drawn = [] := opening.drawn
  constructor <;> simp [log, stream, drawn, committed]
  exact pending

theorem delivery_runs (timely : Timely related rules) (call : Delivery) :
    (delivery related).protocol.Proves respond rules pid
    (fun shared => Protocol.Idle pid shared ∧ True) call.code
      fun _ _ => True := by
  have discipline := (delivery related).protocol.discipline respond rules
  cases call with
  | writer script appends =>
      refine (writer_runs timely script appends).strengthen
        fun shared inv idle => ⟨.idle (inv.1.closed pid idle.1), ?_⟩
      exact fun id absurd_ => by cases absurd_
  | drain =>
      refine Triple.bind discipline (fun _ _ => True) ((drain_runs timely).weaken
        fun result _ _ _ => ?_) fun _ => ?_
      · cases result <;> trivial
      · exact fun shared inv _ later moved => ⟨(moved inv).1, trivial⟩

theorem runs_delivered (timely : Timely related rules) {first : State}
    {config : Config Delivery (Action Row Label Request) (Answer Response) Failure Unit State}
    (opening : Opening first) (run : (machine respond).Reaches Delivery.code rules (.start first) config) :
    Delivered related config.state.public := by
  have discipline := (delivery related).protocol.discipline respond rules
  have sane : Sane first.server := by
    rw [opening.server]
    exact sane_holding opening.apart
  have initial : Discipline.Sound (machine respond) rules (delivery related).protocol.Rely
    (delivery related).protocol.Inv
      (fun pid shared => Protocol.Idle pid shared ∧ True)
      (fun _ _ (_ : Except Failure Unit) shared => (delivery related).protocol.Inv shared ∧
          True) (.start first) := by
    refine ⟨⟨sane, opening.delivered⟩, fun pid => ⟨?_, trivial⟩⟩
    change (first.server.txs pid).label = none
    rw [opening.server]
    rfl
  exact (discipline.reaches (fun pid call shared _ inv idle =>
    delivery_runs timely call shared inv idle) run initial).1.2

theorem rows_or_stream {code : Delivery → CoreScript Unit}
    {config next : Config Delivery (Action Row Label Request) (Answer Response) Failure Unit State}
    {move : Move Delivery Choices} (taken : (machine respond).step code config move = some next) :
    next.state.server.rows = config.state.server.rows ∨
      (next.state.world = config.state.world ∧ config.state.server.log <+: next.state.server.log) := by
  cases move with
  | spawn pid call =>
      simp only [Machine.step] at taken
      split at taken
      · cases taken; exact .inl rfl
      · cases taken
  | act pid choice =>
      simp only [Machine.step] at taken
      split at taken
      · next call action rest found =>
          split at taken
          · next reply after answered =>
              cases taken
              change after.server.rows = config.state.server.rows ∨
                (after.world = _ ∧ config.state.server.log <+: after.server.log)
              cases action with
              | commit =>
                  simp only [machine] at answered
                  split at answered
                  · cases answered; exact .inr ⟨rfl, List.prefix_append ..⟩
                  · cases answered; exact .inl rfl
              | other request =>
                  simp only [machine, Option.map_eq_some_iff, Prod.exists, Prod.mk.injEq] at answered
                  obtain ⟨given, world, -, -, rfl⟩ := answered
                  exact .inl rfl
              | begin label => cases answered; exact .inl rfl
              | rollback => cases answered; exact .inl rfl
              | start =>
                  simp only [machine, Option.some.injEq, Prod.mk.injEq] at answered
                  obtain ⟨-, rfl⟩ := answered
                  left
                  split <;> rfl
              | exec statement =>
                  left
                  simp only [machine] at answered
                  split at answered
                  · split at answered <;> cases answered <;> rfl
                  · cases answered; rfl
          · cases taken
      · cases taken
  | disturb pid choice =>
      simp only [Machine.step] at taken
      split at taken
      · next after disturbed =>
          cases taken
          simp only [machine] at disturbed
          split at disturbed
          · cases disturbed; exact .inl rfl
          · cases disturbed
      · cases taken
  | crash pid =>
      simp only [Machine.step] at taken
      split at taken
      · cases taken; exact .inl rfl
      · cases taken

end Relay

end OpenEmarsys.Contacts
