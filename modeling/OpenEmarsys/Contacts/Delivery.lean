import OpenEmarsys.Contacts.Outbox
import OpenEmarsys.Postgres.Public

/-! Delivery of the outbox: nothing is lost, nothing is invented, nothing comes twice.

Writers are arbitrary scripts that only append to the outbox, each row under an
identifier they have drawn. What relays and writers keep true speaks of the rows that
were ever committed, in the order of their commits.
-/

set_option autoImplicit false

namespace OpenEmarsys.Contacts

open Javascript Postgres Postgres.PublicProtocol Interleaving

def outboxOf (rows : List Row) : List OutboxRow := rows.filterMap Row.outbox?

def committed (log : List (Commit Row Label)) : List OutboxRow :=
  log.flatMap fun commit => outboxOf commit.tx.added

def Spares : Statement Row → Prop
  | .delete p => ∀ row, p (.outbox row) = false
  | .update p f => (∀ row, primary (f row) = primary row) ∧ ∀ row, p (.outbox row) = false
  | _ => True

/-- The identifiers of the outbox rows a statement inserts. -/
def appended : Statement Row → List Uuid
  | .insert rows _ => (outboxOf rows).map OutboxRow.id
  | _ => []

/-- A script that only appends to the outbox, each row under an identifier it has drawn
and not used before, and publishes nothing. It starts with `drawn` identifiers left and
ends as `post` says. -/
def Appends {α : Type} (post : Except Failure α → List Uuid → Prop) : List Uuid → CoreScript α → Prop
  | drawn, .ret value => post (.ok value) drawn
  | drawn, .fail error => post (.error error) drawn
  | drawn, .call (.exec statement) rest =>
      Spares statement ∧ appended statement ⊆ drawn ∧
        ∀ reply, Appends post (drawn.filter fun id => !(appended statement).contains id) (rest reply)
  | drawn, .call (.other .uuidv7) rest => ∀ id : Uuid, Appends post (id :: drawn) (rest id)
  | _, .call (.other (.publish _)) _ => False
  | drawn, .call (.other .now) rest => ∀ reply, Appends post drawn (rest reply)
  | drawn, .call (.other (.lookup _)) rest => ∀ reply, Appends post drawn (rest reply)
  | drawn, .call (.other (.settled _)) rest => ∀ reply, Appends post drawn (rest reply)
  | drawn, .call (.other (.settle ..)) rest => ∀ reply, Appends post drawn (rest reply)
  | drawn, .call (.other (.invalidate _)) rest => ∀ reply, Appends post drawn (rest reply)
  | drawn, .call (.begin _) rest => ∀ reply, Appends post drawn (rest reply)
  | drawn, .call .start rest => ∀ reply, Appends post drawn (rest reply)
  | drawn, .call .commit rest => ∀ reply, Appends post drawn (rest reply)
  | drawn, .call .rollback rest => ∀ reply, Appends post drawn (rest reply)

/-- Whatever it returns, and whatever identifiers are left. -/
abbrev Anyhow {α : Type} (_ : Except Failure α) (_ : List Uuid) : Prop := True

/-- What runs: scripts that append, and relays. -/
inductive Delivery where
  | writer (script : CoreScript Unit) (appends : Appends Anyhow [] script)
  | drain

def Delivery.code : Delivery → CoreScript Unit
  | .writer script _ => script
  | .drain => do
      let _ ← Contacts.drain
      pure ()

/-- A fact about events whose order matters: the first has to be published before the second. -/
abbrev Order := OutboxRow → OutboxRow → Prop

structure Delivered (related : Order) (state : Public Row Label World) : Prop where
  drawn : (state.world.drawn.map Prod.snd).Nodup
  owned : ∀ commit ∈ state.log, ∀ row, .outbox row ∈ commit.tx.added →
    (commit.tid, row.id) ∈ state.world.drawn
  once : ((committed state.log).map OutboxRow.id).Nodup
  pending : ∀ row, .outbox row ∈ state.rows → row ∈ committed state.log
  stream : ∀ row ∈ state.world.stream, row ∈ committed state.log
  kept : ∀ row ∈ committed state.log, .outbox row ∈ state.rows ∨ row ∈ state.world.stream
  stored : (state.world.stream.map OutboxRow.id).Nodup
  /-- Related events have identifiers in the order of their commits. -/
  increasing : (committed state.log).Pairwise fun row later => related row later → row.id < later.id
  /-- A message comes after those it is related to. -/
  ordered : ∀ before message after, state.world.stream = before ++ message :: after →
    ∀ earlier, [earlier, message].Sublist (committed state.log) → related earlier message → earlier ∈ before

structure Onward (pid : Tid) (state next : Public Row Label World) : Prop where
  drawn : ∀ entry ∈ state.world.drawn, entry ∈ next.world.drawn
  log : state.log <+: next.log
  stream : state.world.stream <+: next.world.stream
  mine : ∀ id, (pid, id) ∈ state.world.drawn → id ∈ (committed next.log).map OutboxRow.id →
    id ∈ (committed state.log).map OutboxRow.id

theorem Onward.refl (pid : Tid) (state : Public Row Label World) : Onward pid state state :=
  ⟨fun _ member => member, List.prefix_rfl, List.prefix_rfl, fun _ _ member => member⟩

theorem Onward.trans {pid : Tid} {first second third : Public Row Label World}
    (left : Onward pid first second)
    (right : Onward pid second third) : Onward pid first third :=
  ⟨fun entry member => right.drawn entry (left.drawn entry member), left.log.trans right.log,
    left.stream.trans right.stream,
    fun id mine member => left.mine id mine (right.mine id (left.drawn _ mine) member)⟩

def delivery (related : Order) : PublicProtocol Row Label World where
  App := Delivered related
  Grow := Onward
  refl := Onward.refl
  trans := Onward.trans

theorem committed_append (log more : List (Commit Row Label)) :
    committed (log ++ more) = committed log ++ committed more := List.flatMap_append

theorem mem_outboxOf {rows : List Row} {row : OutboxRow} : row ∈ outboxOf rows ↔ .outbox row ∈ rows := by
  rw [outboxOf, List.mem_filterMap]
  constructor
  · rintro ⟨found, member, is⟩
    cases found with
    | outbox same => cases is; exact member
    | _ => cases is
  · exact fun member => ⟨_, member, rfl⟩

theorem committed_grows {log next : List (Commit Row Label)} (grown : log <+: next) :
    committed log <+: committed next := by
  obtain ⟨more, rfl⟩ := grown
  exact ⟨committed more, (committed_append log more).symm⟩

theorem Delivered.same {related : Order} {state : Public Row Label World}
    (delivered : Delivered related state)
    {row other : OutboxRow} (first : row ∈ committed state.log) (second : other ∈ committed state.log)
    (same : row.id = other.id) : row = other :=
  List.inj_on_of_nodup_map delivered.once first second same

theorem fresh_sublist {rows new : List OutboxRow} {earlier message : OutboxRow} (old : message ∈ rows)
    (distinct : ((rows ++ new).map OutboxRow.id).Nodup) (found : [earlier, message].Sublist (rows ++ new)) :
    [earlier, message].Sublist rows := by
  obtain ⟨left, right, same, inOld, inNew⟩ := List.sublist_append_iff.mp found
  have absent : message ∉ right := fun member => by
    rw [List.map_append, List.nodup_append] at distinct
    exact distinct.2.2 _ (List.mem_map_of_mem old) _ (List.mem_map_of_mem (inNew.subset member)) rfl
  cases right with
  | nil => rw [List.append_nil] at same; exact same ▸ inOld
  | cons head rest =>
      have last : message ∈ head :: rest := by
        have tail := congrArg List.getLast? same
        rw [List.getLast?_append_of_ne_nil _ (List.cons_ne_nil head rest)] at tail
        exact List.mem_of_getLast? tail.symm
      exact absurd last absent

/-- What the transaction of a process holds of the outbox: rows under identifiers of its own, and
deletions of rows whose message is in the stream. -/
structure Owns (pid : Tid) (shared : State) : Prop where
  fresh : ∀ row, .outbox row ∈ (shared.server.txs pid).added →
    (pid, row.id) ∈ shared.world.drawn ∧ row.id ∉ (committed shared.server.log).map OutboxRow.id
  gone : ∀ id, IndexKey.outbox id ∈ (shared.server.txs pid).removed → ∃ row ∈ shared.world.stream, row.id = id

theorem Owns.idle {pid : Tid} {shared : State} (idle : shared.server.txs pid = .idle) : Owns pid shared := by
  constructor <;> simp [idle, Tx.idle]

section Commit
variable {related : Order} {pid : Tid} {shared : State}

theorem owns_distinct (sane : Sane shared.server) (pid : Tid) :
    ((outboxOf (shared.server.txs pid).added).map OutboxRow.id).Nodup := by
  have apart := (sane.fits pid).added
  rw [outboxOf, List.map_filterMap]
  refine (List.Pairwise.filterMap _ (fun row other clear => ?_) apart : List.Nodup _)
  intro id found other_ same
  rintro rfl
  cases row <;> cases other <;> simp [Row.outbox?] at found same
  rw [NoClash, clash_of_sameRow (sameRow_iff.mpr (congrArg IndexKey.outbox (found.trans same.symm)))] at clear
  cases clear

theorem Owns.commit (sane : Sane shared.server) (delivered : Delivered related shared.public)
    (owns : Owns pid shared)
    (increasing : (committed shared.server.log ++ outboxOf (shared.server.txs pid).added).Pairwise
      fun row later => related row later → row.id < later.id) :
    let next : State := { shared with server := shared.server.commit pid }
    Delivered related next.public ∧ ∀ other, other ≠ pid → Onward other shared.public next.public := by
  intro next
  have log : committed next.server.log = committed shared.server.log ++
      outboxOf (shared.server.txs pid).added := by
    change committed (shared.server.log ++ [⟨pid, shared.server.rows, shared.server.txs pid⟩]) = _
    rw [committed_append]
    simp [committed]
  have unused : ∀ row ∈ outboxOf (shared.server.txs pid).added, (pid, row.id) ∈ shared.world.drawn ∧
      row.id ∉ (committed shared.server.log).map OutboxRow.id :=
        fun row member => owns.fresh row (mem_outboxOf.mp member)
  have old : ∀ row ∈ committed shared.server.log, row ∈ committed next.server.log := fun row member => by
    rw [log]; exact List.mem_append_left _ member
  have once : ((committed next.server.log).map OutboxRow.id).Nodup := by
    rw [log, List.map_append, List.nodup_append]
    refine ⟨delivered.once, owns_distinct sane pid, fun id inOld other inNew same => ?_⟩
    obtain ⟨row, member, rfl⟩ := List.mem_map.mp inNew
    exact (unused row member).2 (same ▸ inOld)
  have present : ∀ row, .outbox row ∈ next.server.rows ↔
        (.outbox row ∈ shared.server.rows ∧ (shared.server.txs pid).removes (.outbox row) = false) ∨
        .outbox row ∈ (shared.server.txs pid).added := fun row => Tx.mem_view
  refine ⟨⟨delivered.drawn, ?_, once, ?_, ?_, ?_, delivered.stored, log ▸ increasing, ?_⟩,
    fun other distinct => ?_⟩
  · intro commit member row inRows
    rcases List.mem_append.mp member with before | new
    · exact delivered.owned commit before row inRows
    · cases List.mem_singleton.mp new
      exact (owns.fresh row inRows).1
  · intro row found
    rcases (present row).mp found with ⟨before, -⟩ | new
    · exact old row (delivered.pending row before)
    · change row ∈ committed next.server.log
      rw [log]
      exact List.mem_append_right _ (mem_outboxOf.mpr new)
  · exact fun row member => old row (delivered.stream row member)
  · intro row member
    change row ∈ committed next.server.log at member
    rw [log] at member
    rcases List.mem_append.mp member with before | new
    · rcases delivered.kept row before with inRows | inStream
      · by_cases removed : (shared.server.txs pid).removes (.outbox row) = true
        · obtain ⟨message, inStream, same⟩ := owns.gone row.id (Tx.removes_iff.mp removed)
          exact .inr (delivered.same before (delivered.stream message inStream) same.symm ▸ inStream)
        · exact .inl ((present row).mpr (.inl ⟨inRows, by simpa using removed⟩))
      · exact .inr inStream
    · exact .inl ((present row).mpr (.inr (mem_outboxOf.mp new)))
  · intro before message after split earlier found relation
    have known : message ∈ committed shared.server.log := delivered.stream message (by
      change message ∈ shared.world.stream
      change shared.world.stream = _ at split
      rw [split]
      simp)
    change [earlier, message].Sublist (committed next.server.log) at found
    rw [log] at found
    exact delivered.ordered before message after split earlier
      (fresh_sublist known (log ▸ once) found) relation
  · refine ⟨fun _ member => member, List.prefix_append .., List.prefix_rfl, fun id mine member => ?_⟩
    change id ∈ (committed next.server.log).map OutboxRow.id at member
    rw [log, List.map_append] at member
    rcases List.mem_append.mp member with before | new
    · exact before
    · obtain ⟨row, inNew, rfl⟩ := List.mem_map.mp new
      -- an identifier has one owner
      have same := List.inj_on_of_nodup_map delivered.drawn mine (unused row inNew).1 rfl
      exact absurd (congrArg Prod.fst same) distinct

end Commit

/-! ## Writers keep to the protocol -/

theorem outbox_of_primary {row : Row} {id : Uuid} (is : primary row = IndexKey.outbox id) :
    ∃ found, row = .outbox found ∧ found.id = id := by
  cases row with
  | outbox found => exact ⟨found, rfl, IndexKey.outbox.inj is⟩
  | _ => cases is

theorem spared {server : Server Row Label} {pid : Tid} {statement : Statement Row} {rows : List Row}
    {tx : Tx Row Label} (sane : Sane server) (spares : Spares statement)
    (run : server.execute pid statement = some (.ok (rows, tx))) :
    (∀ row, .outbox row ∈ tx.added → .outbox row ∈ (server.txs pid).added ∨ row.id ∈ appended statement) ∧
      ∀ id, IndexKey.outbox id ∈ tx.removed → IndexKey.outbox id ∈ (server.txs pid).removed := by
  have quiet : tx.added = (server.txs pid).added → tx.removed = (server.txs pid).removed →
        (∀ row, .outbox row ∈ tx.added → .outbox row ∈ (server.txs pid).added ∨ row.id ∈ appended statement) ∧
        ∀ id, IndexKey.outbox id ∈ tx.removed → IndexKey.outbox id ∈ (server.txs pid).removed :=
    fun added removed => ⟨fun row member => .inl (added ▸ member), fun id member => removed ▸ member⟩
  have foreign : ∀ {p : Row → Bool}, (∀ row, p (.outbox row) = false) → ∀ old ∈ server.hits pid p, ∀ id,
      primary old ≠ IndexKey.outbox id := by
    intro p apart old hit id is
    obtain ⟨found, rfl, -⟩ := outbox_of_primary is
    have matches_ := (mem_hits.mp hit).2.1
    rw [apart] at matches_
    cases matches_
  cases statement with
  | select p =>
      obtain ⟨-, rfl⟩ := execute_select run
      exact quiet rfl rfl
  | lockRows p =>
      have locked := (execute_lockRows sane run).2
      exact quiet locked.added locked.removed
  | lockSkip p le limit =>
      have locked := (execute_lockSkip sane run).2
      exact quiet locked.added locked.removed
  | shareKey p =>
      obtain ⟨-, rfl⟩ := execute_shareKey run
      exact quiet rfl rfl
  | delete p =>
      obtain ⟨rfl, change⟩ := execute_delete sane run
      refine ⟨fun row member => ?_, fun id member => ?_⟩
      · rcases (change.added _).mp member with ⟨before, -⟩ | new
        · exact .inl before
        · cases new
      · rcases change.removed _ member with before | ⟨old, hit, is⟩
        · exact before
        · exact absurd is.symm (foreign spares old hit id)
  | update p f =>
      obtain ⟨rfl, change⟩ := execute_update sane spares.1 run
      refine ⟨fun row member => ?_, fun id member => ?_⟩
      · rcases (change.added _).mp member with ⟨before, -⟩ | new
        · exact .inl before
        · obtain ⟨old, hit, is⟩ := List.mem_map.mp new
          exact absurd ((spares.1 old).symm.trans (congrArg primary is)) (foreign spares.2 old hit row.id)
      · rcases change.removed _ member with before | ⟨old, hit, is⟩
        · exact before
        · exact absurd is.symm (foreign spares.2 old hit id)
  | insert new ignore =>
      obtain ⟨change, sub, -⟩ := execute_insert run
      refine ⟨fun row member => ?_, fun id member => ?_⟩
      · rcases (change.added _).mp member with ⟨before, -⟩ | inserted
        · exact .inl before
        · exact .inr (List.mem_map_of_mem (mem_outboxOf.mpr (sub.subset inserted)))
      · rcases change.removed _ member with before | ⟨old, absurd_, -⟩
        · exact before
        · cases absurd_

/-- Between two calls of a writer that may still append under the identifiers `drawn`. -/
structure Writing (pid : Tid) (drawn : List Uuid) (shared : State) : Prop where
  owns : Owns pid shared
  unused : ∀ id ∈ drawn, (pid, id) ∈ shared.world.drawn ∧
    id ∉ (committed shared.server.log).map OutboxRow.id ∧
    ∀ row, .outbox row ∈ (shared.server.txs pid).added → row.id ≠ id

section Writer
variable {related : Order} {rules : Rules Delivery (Action Row Label Request) State}
  {pid : Tid} {drawn : List Uuid}

theorem Writing.moved {shared next : State} (writing : Writing pid drawn shared)
    (onward : Onward pid shared.public next.public)
    (added : (next.server.txs pid).added ⊆ (shared.server.txs pid).added)
    (removed : (next.server.txs pid).removed ⊆ (shared.server.txs pid).removed) : Writing pid drawn next := by
  have old : ∀ id, (pid, id) ∈ shared.world.drawn → id ∉ (committed shared.server.log).map OutboxRow.id →
      id ∉ (committed next.server.log).map OutboxRow.id :=
        fun id mine absent member => absent (onward.mine id mine member)
  have known : ∀ id, (pid, id) ∈ shared.world.drawn → (pid, id) ∈ next.world.drawn :=
    fun id mine => onward.drawn _ mine
  refine ⟨⟨fun row member => ?_, fun id member => ?_⟩, fun id member => ?_⟩
  · obtain ⟨mine, absent⟩ := writing.owns.fresh row (added member)
    exact ⟨known _ mine, old _ mine absent⟩
  · obtain ⟨message, inStream, is⟩ := writing.owns.gone id (removed member)
    exact ⟨message, onward.stream.subset inStream, is⟩
  · obtain ⟨mine, absent, apart⟩ := writing.unused id member
    exact ⟨known id mine, old id mine absent, fun row inTx => apart row (added inTx)⟩

theorem writing_stable : Stable (delivery related).protocol.Rely (delivery related).protocol.Inv pid
    (Writing pid drawn) := by
  intro shared next inv writing moved
  obtain ⟨later, foreign, onward⟩ := moved inv
  rcases foreign with closed | ⟨same, -⟩
  · have idle := later.1.closed pid closed
    exact writing.moved onward (by simp [idle, Tx.idle]) (by simp [idle, Tx.idle])
  · exact writing.moved onward (by rw [same]; exact List.Subset.refl _)
      (by rw [same]; exact List.Subset.refl _)

theorem Writing.exec {shared : State} {statement : Statement Row} {rows : List Row} {tx : Tx Row Label}
    (sane : Sane shared.server) (writing : Writing pid drawn shared) (spares : Spares statement)
    (within : appended statement ⊆ drawn)
    (run : shared.server.execute pid statement = some (.ok (rows, tx))) :
    Writing pid (drawn.filter fun id => !(appended statement).contains id)
      { shared with server := shared.server.setTx pid tx } := by
  obtain ⟨added, removed⟩ := spared sane spares run
  refine ⟨⟨fun row member => ?_, fun id member => ?_⟩, fun id member => ?_⟩
  · rw [Server.setTx_same] at member
    rcases added row member with before | new
    · exact writing.owns.fresh row before
    · obtain ⟨mine, absent, -⟩ := writing.unused row.id (within new)
      exact ⟨mine, absent⟩
  · rw [Server.setTx_same] at member
    exact writing.owns.gone id (removed id member)
  · obtain ⟨inDrawn, unused⟩ := List.mem_filter.mp member
    obtain ⟨mine, absent, apart⟩ := writing.unused id inDrawn
    refine ⟨mine, absent, fun row inTx same => ?_⟩
    rw [Server.setTx_same] at inTx
    rcases added row inTx with before | new
    · exact apart row before same
    · simp [same ▸ new] at unused

/-- When runs are considered: related events commit in the order of their identifiers, and a
relay finds no pending row locked. Both only matter where some events are related. -/
structure Timely (related : Order) (rules : Rules Delivery (Action Row Label Request) State) : Prop where
  commit : ∀ pid shared, rules.act pid .commit shared → Delivered related shared.public →
    (committed shared.server.log ++ outboxOf (shared.server.txs pid).added).Pairwise
      fun row later => related row later → row.id < later.id
  select : ∀ pid shared p le limit, rules.act pid (.exec (.lockSkip p le limit)) shared →
      ∀ earlier row, related earlier row → [earlier, row].Sublist (committed shared.server.log) →
        .outbox earlier ∈ shared.server.rows → .outbox row ∈ shared.server.rows →
        shared.server.refuses pid (.outbox row) = false → shared.server.refuses pid (.outbox earlier) = false

theorem unrelated_request {shared : State} {request : Request} {choice : Choices} {reply : Response request}
    {world : World}
    (answered : respond pid request choice shared = some (reply, world)) (noId : request ≠ .uuidv7)
    (noMessage : ∀ row, request ≠ .publish row) :
    world.drawn = shared.world.drawn ∧ world.stream = shared.world.stream := by
  cases request with
  | uuidv7 => exact absurd rfl noId
  | publish row => exact absurd rfl (noMessage row)
  | _ =>
      cases choice <;> simp only [respond] at answered <;> (try split at answered) <;>
        first
          | (cases answered; exact ⟨rfl, rfl⟩)
          | cases answered

theorem Delivered.world {related : Order} {state : Public Row Label World}
    (delivered : Delivered related state) {world : World}
    (drawn : world.drawn = state.world.drawn) (stream : world.stream = state.world.stream) :
    Delivered related { state with world := world } ∧ ∀ pid, Onward pid state
    { state with world := world } := by
  obtain ⟨ids, owned, once, pending, inLog, kept, stored, increasing, ordered⟩ := delivered
  refine ⟨⟨?_, ?_, once, pending, ?_, ?_, ?_, increasing, ?_⟩,
    fun pid => ⟨?_, List.prefix_rfl, ?_, fun _ _ member => member⟩⟩
  all_goals simp only [drawn, stream]
  · exact ids
  · exact owned
  · exact inLog
  · exact kept
  · exact stored
  · exact ordered
  · exact fun _ member => member
  · exact List.prefix_rfl

theorem Delivered.draw {related : Order} {state : Public Row Label World}
    (delivered : Delivered related state) {id : Uuid}
    (new : ∀ entry ∈ state.world.drawn, entry.2 ≠ id) :
    let next : Public Row Label World :=
  { state with world := { state.world with drawn := (pid, id) :: state.world.drawn } }
    Delivered related next ∧ (∀ other, other ≠ pid → Onward other state next) ∧
        id ∉ (committed state.log).map OutboxRow.id := by
  intro next
  obtain ⟨ids, owned, once, pending, inLog, kept, stored, increasing, ordered⟩ := delivered
  have unused : id ∉ (committed state.log).map OutboxRow.id := by
    intro member
    obtain ⟨row, inCommitted, rfl⟩ := List.mem_map.mp member
    obtain ⟨commit, inLog, inRows⟩ := List.mem_flatMap.mp inCommitted
    exact new _ (owned commit inLog row (mem_outboxOf.mp inRows)) rfl
  refine ⟨⟨?_, ?_, once, pending, inLog, kept, stored, increasing, ordered⟩, fun other distinct => ?_, unused⟩
  · refine List.nodup_cons.mpr ⟨fun member => ?_, ids⟩
    obtain ⟨entry, inDrawn, same⟩ := List.mem_map.mp member
    exact new entry inDrawn same
  · exact fun commit member row inRows => List.mem_cons_of_mem _ (owned commit member row inRows)
  · exact ⟨fun _ member => List.mem_cons_of_mem _ member, List.prefix_rfl, List.prefix_rfl,
      fun _ _ member => member⟩

theorem Writing.commit {shared : State} (writing : Writing pid drawn shared) :
    Writing pid drawn { shared with server := shared.server.commit pid } := by
  have empty : (shared.server.commit pid).txs pid = .idle := by simp [Server.commit]
  refine ⟨.idle empty, fun id member => ?_⟩
  obtain ⟨mine, absent, apart⟩ := writing.unused id member
  refine ⟨mine, fun inLog => ?_, fun row inTx => ?_⟩
  · change id ∈ (committed (shared.server.log ++ [⟨pid, shared.server.rows, shared.server.txs pid⟩])).map
      OutboxRow.id at inLog
    rw [committed_append, List.map_append] at inLog
    rcases List.mem_append.mp inLog with before | new
    · exact absent before
    · obtain ⟨row, inNew, same⟩ := List.mem_map.mp new
      exact apart row (mem_outboxOf.mp (by simpa [committed] using inNew)) same
  · change .outbox row ∈ ((shared.server.commit pid).txs pid).added at inTx
    simp [empty, Tx.idle] at inTx

theorem draws {shared : State} {choice : Choices} {id : Uuid} {world : World} (sane : Sane shared.server)
    (delivered : Delivered related shared.public) (writing : Writing pid drawn shared)
    (answered : respond pid .uuidv7 choice shared = some (id, world)) :
    (∀ other, other ≠ pid → (delivery related).protocol.Rely other shared { shared with world := world }) ∧
      Writing pid (id :: drawn) { shared with world := world } := by
  cases choice with
  | uuid ms a b =>
      simp only [respond] at answered
      split at answered
      · cases answered
      · next unused =>
          cases answered
          have new : ∀ entry ∈ shared.public.world.drawn, entry.2 ≠ Javascript.uuidv7 ms a b := by
            rintro ⟨tid, id⟩ member rfl
            exact unused (List.any_eq_true.mpr ⟨_, member, beq_self_eq_true _⟩)
          obtain ⟨after, onward, absent⟩ := delivered.draw new
          refine ⟨Protocol.guarantee sane after (fun other _ => Foreign.refl other _) onward, ?_⟩
          refine ⟨⟨fun row member => ?_, writing.owns.gone⟩, fun other member => ?_⟩
          · obtain ⟨mine, unlogged⟩ := writing.owns.fresh row member
            exact ⟨List.mem_cons_of_mem _ mine, unlogged⟩
          · rcases List.mem_cons.mp member with rfl | before
            · refine ⟨List.mem_cons_self .., absent, fun row inTx same => ?_⟩
              exact new _ (writing.owns.fresh row inTx).1 same
            · obtain ⟨mine, unlogged, apart⟩ := writing.unused other before
              exact ⟨List.mem_cons_of_mem _ mine, unlogged, apart⟩
  | _ => cases answered

theorem writer_call {related : Order} {rules : Rules Delivery (Action Row Label Request) State} {pid : Tid}
    {action : Action Row Label Request} {rest : Answer Response action → CoreScript Unit} {drawn : List Uuid}
    {left : Answer Response action → List Uuid} (uncommitted : action ≠ .commit)
    (here : ∀ request, action ≠ .other request)
    (keeps : ∀ shared choice reply next, (delivery related).protocol.Inv shared → Writing pid drawn shared →
      (machine respond).act pid action choice shared = some (reply, next) → Writing pid (left reply) next)
    (later : ∀ reply, (delivery related).protocol.Proves respond rules pid (Writing pid (left reply))
      (rest reply) fun _ _ => True) :
    (delivery related).protocol.Proves respond rules pid (Writing pid drawn)
    (.call action rest) fun _ _ => True := by
  refine Triple.call ((delivery related).protocol.discipline respond rules)
    (fun reply => Writing pid (left reply))
    writing_stable ?_ later
  intro shared inv writing _ choice reply next taken
  exact ⟨(unnoticed inv uncommitted here taken).1, keeps shared choice reply next inv writing taken⟩

theorem writer_runs {related : Order} {rules : Rules Delivery (Action Row Label Request) State}
    (timely : Timely related rules)
    {pid : Tid} (script : CoreScript Unit) {drawn : List Uuid} (appends : Appends Anyhow drawn script) :
    (delivery related).protocol.Proves respond rules pid (Writing pid drawn) script fun _ _ => True := by
  have discipline := (delivery related).protocol.discipline respond rules
  induction script generalizing drawn with
  | ret value => exact fun shared inv _ later moved => ⟨(moved inv).1, trivial⟩
  | fail error => exact fun shared inv _ later moved => ⟨(moved inv).1, trivial⟩
  | call action rest ih =>
      cases action with
      | begin label =>
          refine writer_call (by simp) (by simp) (fun shared choice reply next _ writing taken => ?_)
            fun reply => ih reply (appends reply)
          cases taken
          exact writing.moved (Onward.refl pid _) (by simp [Server.begin, Tx.idle])
            (by simp [Server.begin, Tx.idle])
      | start =>
          refine writer_call (by simp) (by simp) (fun shared choice reply next _ writing taken => ?_)
            fun reply => ih reply (appends reply)
          simp only [machine, Option.some.injEq, Prod.mk.injEq] at taken
          obtain ⟨-, rfl⟩ := taken
          split
          · exact writing.moved (Onward.refl pid _) (by simp [Server.start]) (by simp [Server.start])
          · exact writing
      | exec statement =>
          obtain ⟨spares, within, after⟩ := appends
          refine writer_call (by simp) (by simp) (fun shared choice reply next inv writing taken => ?_)
            fun reply => ih reply (after reply)
          have weaker : Writing pid (drawn.filter fun id => !(appended statement).contains id) shared :=
            ⟨writing.owns, fun id member => writing.unused id (List.mem_of_mem_filter member)⟩
          simp only [machine] at taken
          split at taken
          · split at taken
            · cases taken
            · next rows tx run =>
                cases taken
                exact writing.exec inv.1 spares within run
            · cases taken
              exact weaker
          · cases taken
            exact weaker
      | commit =>
          refine Triple.call discipline (fun _ => Writing pid drawn) writing_stable ?_
            fun reply => ih reply (appends reply)
          intro shared inv writing permitted choice reply next taken
          simp only [machine] at taken
          split at taken
          · cases taken
            have increasing := timely.commit pid shared permitted inv.2
            obtain ⟨delivered, onward⟩ := writing.owns.commit inv.1 inv.2 increasing
            exact ⟨Protocol.guarantee (inv.1.commit pid) delivered
              (fun other distinct => Foreign.commit inv.1 distinct) onward,
              writing.commit⟩
          · cases taken
            exact ⟨fun other _ => discipline.refl other shared, writing⟩
      | rollback =>
          refine writer_call (by simp) (by simp) (fun shared choice reply next _ writing taken => ?_)
            fun reply => ih reply (appends reply)
          cases taken
          exact writing.moved (Onward.refl pid _) (by simp [Server.rollback, Tx.idle])
            (by simp [Server.rollback, Tx.idle])
      | other request =>
          -- the world changes, but for the identifier drawn nothing a writer relies on
          have plain : ∀ {noId : request ≠ .uuidv7} {noMessage : ∀ row, request ≠ .publish row},
              (∀ reply, Appends Anyhow drawn (rest reply)) →
              (delivery related).protocol.Proves respond rules pid (Writing pid drawn)
                  (.call (.other request) rest) fun _ _ => True := by
            intro noId noMessage after
            refine Triple.call discipline (fun _ => Writing pid drawn) writing_stable ?_
              fun reply => ih reply (after reply)
            intro shared inv writing _ choice reply next taken
            simp only [machine, Option.map_eq_some_iff, Prod.exists, Prod.mk.injEq] at taken
            obtain ⟨given, world, answered, rfl, rfl⟩ := taken
            obtain ⟨ids, stream⟩ := unrelated_request answered noId noMessage
            obtain ⟨delivered, onward⟩ := inv.2.world ids stream
            exact ⟨Protocol.guarantee inv.1 delivered (fun other _ => Foreign.refl other _)
              fun other _ => onward other,
              writing.moved (onward pid) (List.Subset.refl _) (List.Subset.refl _)⟩
          cases request with
          | uuidv7 =>
              refine Triple.call discipline (fun id => Writing pid (id :: drawn)) writing_stable ?_
                fun id => ih id (appends id)
              intro shared inv writing _ choice reply next taken
              simp only [machine, Option.map_eq_some_iff, Prod.exists, Prod.mk.injEq] at taken
              obtain ⟨given, world, answered, rfl, rfl⟩ := taken
              exact draws inv.1 inv.2 writing answered
          | publish row => exact appends.elim
          | now => exact @plain (by simp) (by simp) appends
          | lookup process => exact @plain (by simp) (by simp) appends
          | settled promise => exact @plain (by simp) (by simp) appends
          | settle process promise definitions => exact @plain (by simp) (by simp) appends
          | invalidate process => exact @plain (by simp) (by simp) appends

end Writer

end OpenEmarsys.Contacts
