import OpenEmarsys.Gdpr.History
import OpenEmarsys.Postgres.Holding

/-! The transactions of `GdprService`, each taken to the effect of its commit. -/

set_option autoImplicit false

namespace OpenEmarsys.Gdpr

open Javascript Postgres Interleaving Gdpr.Core

/-- The journal of a tenant that started with these rows. -/
def ledger (core : Core) (rows : List Row) : Chronicle Row Label Bucket where
  first := rows
  Effect := Effect core
  Outside _ _ := True
  outside _ _ := trivial

/-- A transaction makes the transitions of its kind, and appends events only of contacts it removes. -/
structure Moves (core : Core) (label : Label) (contents : Contents Row) : Prop where
  contacts : (contents .contacts).new = []
  requests : ∀ row, .request row ∈ (contents .requests).new → (label = .create ∧ row.status = .pending) ∨
    ∃ old, .request old ∈ (contents .requests).gone ∧ Transition core label old row
  replaced : ∀ old, .request old ∈ (contents .requests).gone →
    ∃ row, .request row ∈ (contents .requests).new ∧ row.id = old.id ∧
    ∃ other, .request other ∈ (contents .requests).gone ∧ Transition core label other row
  events : ∀ id contactId, .deleted id contactId ∈ (contents .outbox).new →
    .contact contactId ∈ (contents .contacts).gone ∧
    ∀ other another, .deleted other another ∈ (contents .outbox).new → other = id

theorem moves_empty (core : Core) (label : Label) : Moves core label .empty where
  contacts := rfl
  requests row absurd_ := by cases absurd_
  replaced old absurd_ := by cases absurd_
  events id contactId absurd_ := by cases absurd_

theorem moves_create (core : Core) {new : GdprRequest} (pending : new.status = .pending) :
    Moves core .create (Contents.empty.set Area.requests ⟨[], [.request new]⟩) where
  contacts := rfl
  requests row member := by
    rw [Contents.set_same] at member
    cases List.mem_singleton.mp member
    exact .inl ⟨rfl, pending⟩
  replaced old absurd_ := by
    rw [Contents.set_same] at absurd_
    cases absurd_
  events id contactId absurd_ := by cases absurd_

theorem Moves.set {core : Core} {label : Label} {contents : Contents Row} (moves : Moves core label contents)
    {area : Area}
    (held : Held Row) (contacts : area ≠ .contacts) (requests : area ≠ .requests) (outbox : area ≠ .outbox) :
    Moves core label (contents.set area held) := by
  obtain ⟨none_, new, gone, events⟩ := moves
  have sameContacts := contents.set_other held contacts.symm
  have sameRequests := contents.set_other held requests.symm
  have sameOutbox := contents.set_other held outbox.symm
  constructor
  · rwa [sameContacts]
  · rwa [sameRequests]
  · rwa [sameRequests]
  · rwa [sameContacts, sameOutbox]

section Calls

variable {core : Core} {first : List Row} {rules : Rules Operation (Action Row Label Request) State}
  {pid : Tid} {label : Label}
  {contents : Contents Row} {known : Log → Prop}

theorem ledger_lasting (core : Core) (persists : Persists known) :
    (ledger core first).protocol.Lasting pid (Holding first pid label contents known) :=
  holding_lasting persists

/-- The results of requests are written by those who have claimed them. -/
def Entitled (pid : Tid) (label : Label) (log : Log) : Prop :=
  ∀ id, label = .record id ∨ label = .forget id ∨ label = .close id → Claimed pid id log

theorem entitled_persists (pid : Tid) (label : Label) : Persists (Entitled pid label) :=
  fun log next grown entitled id is => claimed_persists pid id log next grown (entitled id is)

/-- A transaction that has made its transitions and may commit. -/
def Ready (core : Core) (first : List Row) (pid : Tid) (label : Label) (known : Log → Prop)
    (shared : State) : Prop :=
  ∃ contents, Moves core label contents ∧
    Holding first pid label contents (fun log => Entitled pid label log ∧ known log) shared

theorem ready_lasting (persists : Persists known) : (ledger core first).protocol.Lasting pid
    (Ready core first pid label known) := by
  rintro shared next inv later ⟨contents, moves, holding⟩ same alongside grown
  exact ⟨contents, moves, ledger_lasting core ((entitled_persists pid label).and persists) shared next inv
    later holding same alongside grown⟩

theorem effect_of_ready {shared : State} (apart : shared.server.rows.Pairwise NoClash)
    (ready : Ready core first pid label known shared) :
    Effect core shared.server.log ⟨pid, shared.server.rows, shared.server.txs pid⟩ := by
  obtain ⟨contents, moves, holding⟩ := ready
  have held := holding.in_
  have isLabel := holding.labelled
  have transition : ∀ row, .request row ∈ (shared.server.txs pid).added →
      (label = .create ∧ row.status = .pending) ∨
      ∃ old, .request old ∈ shared.server.rows ∧ Transition core label old row := by
    intro row added
    refine (moves.requests row ((held.added _).mp added)).imp id ?_
    rintro ⟨old, gone, moved⟩
    exact ⟨old, (held.gone Area.requests _ gone).2, moved⟩
  constructor
  · intro row added
    refine (transition row added).imp (fun ⟨isCreate, pending⟩ =>
      ⟨isLabel.trans (congrArg some isCreate), pending⟩) ?_
    rintro ⟨old, present, moved⟩
    exact ⟨old, present, label, isLabel, moved⟩
  · intro old present removed
    obtain ⟨other, gone, same⟩ := (held.removed _).mp removed
    cases other with
    | request earlier =>
      obtain ⟨row, new, isRow, another, goneToo, moved⟩ := moves.replaced earlier gone
      have here := (held.gone Area.requests _ goneToo).2
      have equal : another = old := same_request apart here present
        (moved.id.symm.trans (isRow.trans (IndexKey.request.inj same)))
      exact ⟨row, (held.added _).mpr new, label, isLabel, equal ▸ moved⟩
    | _ => cases same
  · intro id added
    have new := (held.added _).mp added
    change _ ∈ (contents Area.contacts).new at new
    rw [moves.contacts] at new
    cases new
  · intro id contactId added
    obtain ⟨gone, once⟩ := moves.events id contactId ((held.added _).mp added)
    exact ⟨(held.gone Area.contacts _ gone).2, (held.removed _).mpr ⟨_, gone, rfl⟩,
      fun other another also => once other another ((held.added _).mp also)⟩
  · intro id is
    rw [isLabel, Option.some.injEq, Option.some.injEq, Option.some.injEq] at is
    exact holding.knows.1 id is

theorem learns_call (persists : Persists known) (request : Request) :
    (ledger core first).Learns respond rules pid known (call request) fun _ => known :=
  .ask persists request fun _ _ _ _ _ _ => trivial

theorem learns_orElse {α : Type} {post : α → Log → Prop} (persists : ∀ value, Persists (post value))
    (value : α) (failure : Option String) :
    (ledger core first).Learns respond rules pid (post value) (orElse value failure) post := by
  cases failure with
  | none => exact .ret (persists value) fun _ _ here => here
  | some message => exact PublicProtocol.Step.fail

theorem learns_answered {α : Type} {body : GdprScript α} (persists : Persists known)
    (last : α → State → Prop) (done : α → Log → Prop)
    (runs : (ledger core first).Makes respond rules pid (Has first pid label .empty known) body
      fun value => Protocol.Unless pid (last value)) (lasts :
      ∀ value, (ledger core first).protocol.Lasting pid (last value))
    (ready : ∀ value shared, last value shared → Ready core first pid label (fun _ => True) shared)
    (commits : ∀ value (shared : State), last value shared →
      done value (shared.server.log ++ [⟨pid, shared.server.rows, shared.server.txs pid⟩]))
    (after : ∀ value, Persists (done value)) :
    (ledger core first).Learns respond rules pid known (answered label body) done := by
  refine .bind (.transaction persists last done runs lasts (fun value shared inv held => ?_) after)
    fun value => ?_
  · exact ⟨effect_of_ready inv.1.rows (ready value shared held), commits value shared held⟩
  · exact .bind (learns_call (after value) .answer) fun lost => learns_orElse after value lost

theorem learns_ready {α : Type} {body : GdprScript α} (persists : Persists known)
    (runs : (ledger core first).Makes respond rules pid (Has first pid label .empty known) body
      fun _ => Protocol.Unless pid (Ready core first pid label known)) :
    (ledger core first).Learns respond rules pid known (answered label body) fun _ => known := by
  refine learns_answered persists (fun _ => Ready core first pid label known) (fun _ => known) runs
    (fun _ => ready_lasting persists)
    ?_ ?_ fun _ => persists
  · rintro _ shared ⟨contents, moves, holding⟩
    exact ⟨contents, moves, holding.weaken fun log here => ⟨here.1, trivial⟩⟩
  · rintro _ shared ⟨contents, moves, holding⟩
    exact persists _ _ (List.prefix_append ..) holding.knows.2

/-! ## Reads -/

theorem entitled_other (other : ∀ id, label ≠ .record id ∧ label ≠ .forget id ∧ label ≠ .close id)
    (log : Log) :
    Entitled pid label log := by
  rintro id (is | is | is)
  · exact absurd is (other id).1
  · exact absurd is (other id).2.1
  · exact absurd is (other id).2.2

theorem entitled_read (log : Log) : Entitled pid .read log :=
  entitled_other (fun _ => ⟨by simp, by simp, by simp⟩) log

theorem learns_select (persists : Persists known) (p : Row → Bool) :
    (ledger core first).Learns respond rules pid known (query .read (.select p)) fun rows log =>
      (∀ row ∈ rows, p row = true) ∧ known log := by
  have lasts : ∀ rows : List Row, Persists fun log => (∀ row ∈ rows, p row = true) ∧ known log :=
    fun rows => (persists_const _).and persists
  refine learns_answered persists (fun rows => Ready core first pid .read
    fun log => (∀ row ∈ rows, p row = true) ∧ known log) _ ?_
    (fun rows => ready_lasting (lasts rows)) ?_ ?_ lasts
  · refine (Chronicle.Makes.select persists p).weaken fun result shared _ held => ?_
    cases result with
    | error error => trivial
    | ok rows =>
      refine held.imp id fun holding => ⟨_, moves_empty core .read, holding.weaken ?_⟩
      rintro log ⟨here, past, -, -, found⟩
      exact ⟨entitled_read log, fun row member => ((found row).mp member).1, here⟩
  · rintro rows shared ⟨contents, moves, holding⟩
    exact ⟨contents, moves, holding.weaken fun log here => ⟨here.1, trivial⟩⟩
  · rintro rows shared ⟨contents, moves, holding⟩
    exact lasts rows _ _ (List.prefix_append ..) holding.knows.2

theorem learns_find (persists : Persists known) (contactId : Uuid) :
    (ledger core first).Learns respond rules pid known (find contactId) fun _ => known := by
  have lasts : (ledger core first).protocol.Lasting pid (Ready core first pid .read known) :=
    ready_lasting persists
  have ends : ∀ found : Option (List Row),
    (ledger core first).Makes respond rules pid (Has first pid .read .empty known)
      (.ret found : GdprScript (Option (List Row))) fun _ =>
        Protocol.Unless pid (Ready core first pid .read known) :=
    fun found => Chronicle.Makes.done (Ready core first pid .read known) lasts fun shared _ holding =>
      ⟨_, moves_empty core .read, holding.weaken fun log here => ⟨entitled_read log, here⟩⟩
  refine learns_ready persists (.bind (.reads persists _) fun contact => ?_)
  split
  · exact ends none
  · refine .bind (.reads persists _) fun consents => ?_
    refine .bind (.reads persists _) fun lists => ?_
    refine .bind (.reads persists _) fun relational => ?_
    exact ends _

theorem tableOf_request {p : GdprRequest → Bool} : ∀ row, Row.isRequest p row = true →
    tableOf row = Area.requests := by
  intro row found
  cases row with
  | request request => rfl
  | _ => cases found

theorem request_area (row : GdprRequest) : tableOf (Row.request row) = Area.requests := rfl

theorem mapRequest_keyed (f : GdprRequest → GdprRequest) (row : Row) :
    primary (Row.mapRequest f row) = primary row := by
  cases row <;> rfl

theorem mem_mapRequest {hits : List Row} {p : GdprRequest → Bool} {f : GdprRequest → GdprRequest}
    {new : GdprRequest} (matched : ∀ row ∈ hits, Row.isRequest p row = true)
    (member : .request new ∈ hits.map (Row.mapRequest f)) :
    ∃ old, .request old ∈ hits ∧ p old = true ∧ new = { f old with id := old.id } := by
  obtain ⟨row, hit, same⟩ := List.mem_map.mp member
  cases row with
  | request old => exact ⟨old, hit, matched _ hit, (Row.request.inj same).symm⟩
  | _ => cases same

theorem moves_update {hits : List Row} {p : GdprRequest → Bool} {f : GdprRequest → GdprRequest}
    (matched : ∀ row ∈ hits, Row.isRequest p row = true)
    (transitions : ∀ old, p old = true → Transition core label old { f old with id := old.id }) :
    Moves core label (Contents.empty.set Area.requests ⟨hits, hits.map (Row.mapRequest f)⟩) where
  contacts := rfl
  requests row new := by
    rw [Contents.set_same] at new ⊢
    obtain ⟨old, hit, found, rfl⟩ := mem_mapRequest matched new
    exact .inr ⟨old, hit, transitions old found⟩
  replaced old gone := by
    rw [Contents.set_same] at gone ⊢
    exact ⟨{ f old with id := old.id }, List.mem_map_of_mem gone, rfl, old, gone,
      transitions old (matched _ gone)⟩
  events id contactId absurd_ := by cases absurd_

theorem learns_updateRequest (persists : Persists known)
    (entitled : ∀ log, known log → Entitled pid label log) (id : Uuid)
    (f : GdprRequest → GdprRequest) (transitions : ∀ old, old.id = id →
      Transition core label old { f old with id := old.id }) :
    (ledger core first).Learns respond rules pid known
    (answered label (updateRequest id f)) fun _ => known := by
  have lasts : (ledger core first).protocol.Lasting pid (Ready core first pid label known) :=
    ready_lasting persists
  refine learns_ready persists (.bind (.update Area.requests persists tableOf_request
    (mapRequest_keyed f) rfl) fun rows => ?_)
  split
  · exact Stage.fail
  · refine Chronicle.Makes.done (Ready core first pid label known) lasts ?_
    rintro shared - ⟨hits, -, matched, holding⟩
    refine ⟨_, moves_update matched fun old found => transitions old (beq_iff_eq.mp found),
      holding.weaken fun log here => ?_⟩
    exact ⟨entitled log here, here⟩

theorem learns_claim (id : Uuid) :
    (ledger core first).Learns respond rules pid (fun _ => True)
      (query (.claim id) (.update (Row.isRequest fun row => row.id == id &&
        !row.status.ended) (Row.mapRequest claimed)))
      fun rows log => rows ≠ [] → Claimed pid id log := by
  let last (rows : List Row) (shared : State) : Prop := ∃ hits, rows = hits.map (Row.mapRequest claimed) ∧
    (∀ row ∈ hits, Row.isRequest (fun row => row.id == id && !row.status.ended) row = true) ∧
    Holding first pid (.claim id) (Contents.empty.set Area.requests ⟨hits, hits.map (Row.mapRequest claimed)⟩)
      (fun _ => True) shared
  refine learns_answered (persists_const True) last _ (.update Area.requests (persists_const True)
    tableOf_request (mapRequest_keyed _) rfl)
    ?_ ?_ ?_ ?_
  · rintro rows shared next inv later ⟨hits, reply, matched, holding⟩ same alongside grown
    exact ⟨hits, reply, matched, ledger_lasting core (persists_const True) shared next inv later holding
      same alongside grown⟩
  · rintro rows shared ⟨hits, -, matched, holding⟩
    refine ⟨_, moves_update matched fun old found => ?_, holding.weaken
      fun log here => ⟨entitled_other (by simp) log, here⟩⟩
    simp only [Bool.and_eq_true, beq_iff_eq, Bool.not_eq_true'] at found
    obtain ⟨rfl, isOpen⟩ := found
    exact .claim isOpen
  · rintro rows shared ⟨hits, rfl, matched, holding⟩ some_
    obtain ⟨hit, member⟩ := List.exists_mem_of_ne_nil hits fun none_ => some_ (by rw [none_]; rfl)
    refine ⟨_, List.mem_append_right _ (List.mem_singleton_self _), ?_⟩
    cases hit with
    | request old =>
      have found := matched _ member
      simp only [Row.isRequest, Bool.and_eq_true, beq_iff_eq] at found
      have added : Row.request (claimed old) ∈ (shared.server.txs pid).added := by
        refine (holding.in_.added _).mpr ?_
        rw [request_area, Contents.set_same]
        exact List.mem_map_of_mem member
      have isLabel := holding.labelled
      simp only [claims, isLabel, beq_self_eq_true, Bool.true_and, List.any_eq_true]
      exact ⟨_, added, by simp [Row.isRequest, claimed, found.1]⟩
    | _ => cases matched _ member
  · exact fun rows log next grown held some_ => claimed_persists pid id log next grown (held some_)

theorem makes_deleteChild (persists : Persists known) (table : Child) (contactId : Uuid)
    (none_ : (contents (Area.children table)).new = []) :
    (ledger core first).Makes respond rules pid (Has first pid label contents known)
      (sql (.delete (Row.isChild table contactId)) : GdprScript (List Row)) fun rows =>
        Has first pid label (contents.set (Area.children table) ⟨(contents (Area.children table)).gone ++
          rows, []⟩) known := by
  have within : ∀ row, Row.isChild table contactId row = true → tableOf row = Area.children table := by
    intro row found
    cases row with
    | child other key owner =>
      simp only [Row.isChild, Bool.and_eq_true, beq_iff_eq] at found
      rw [← found.1]
      rfl
    | _ => cases found
  refine (Chronicle.Makes.delete (Area.children table) persists within none_).weaken
    fun result shared _ held => ?_
  cases result with
  | error error => trivial
  | ok rows => exact held.imp id fun holding => holding.weaken fun log here => here.1

/-- An event for a contact whose row is gone. -/
def Announced (contactId : Uuid) (contacts events : List Row) : Prop :=
  events = [] ∨ (∃ row ∈ contacts, Row.isContact contactId row = true) ∧
    ∃ event, events = [.deleted event contactId]

/-- What a transaction holds that has deleted a contact and done nothing else. -/
structure Deleted (contactId : Uuid) (contents : Contents Row) : Prop where
  requests : contents Area.requests = ⟨[], []⟩
  consents : contents Area.consents = ⟨[], []⟩
  contacts : (contents Area.contacts).new = []
  outbox : (contents Area.outbox).gone = []
  announced : Announced contactId (contents Area.contacts).gone (contents Area.outbox).new

instance (contactId : Uuid) : Nonempty {contents // Deleted contactId contents} :=
  ⟨.empty, rfl, rfl, rfl, rfl, .inl rfl⟩

def Some_ (first : List Row) (pid : Tid) (label : Label) (kind : Contents Row → Prop) (known : Log → Prop)
    (shared : State) : Prop :=
  ∃ contents : {contents // kind contents}, Holding first pid label contents.1 known shared

theorem some_lasting {kind : Contents Row → Prop} (persists : Persists known) :
    (ledger core first).protocol.Lasting pid (Some_ first pid label kind known) := by
  rintro shared next inv later ⟨contents, holding⟩ same alongside grown
  exact ⟨contents, ledger_lasting core persists shared next inv later holding same alongside grown⟩

theorem makes_deleteContact (persists : Persists known) (contactId : Uuid) :
    (ledger core first).Makes respond rules pid (Has first pid label .empty known) (deleteContact contactId)
      fun _ => Protocol.Unless pid (Some_ first pid label (Deleted contactId) known) := by
  let last : State → Prop := Some_ first pid label (Deleted contactId) known
  have lasts : (ledger core first).protocol.Lasting pid last := some_lasting persists
  refine .bind (makes_deleteChild persists _ _ rfl) fun uniqueValues => ?_
  refine .bind (makes_deleteChild persists _ _ rfl) fun listMembers => ?_
  refine .bind (makes_deleteChild persists _ _ rfl) fun relationalRows => ?_
  refine .bind (makes_deleteChild persists _ _ rfl) fun identityLinks => ?_
  refine .bind (.delete Area.contacts persists ?_ rfl) fun contacts => ?_
  · intro row found
    cases row with
    | contact id => rfl
    | _ => cases found
  have known_ : Persists fun log => known log ∧ ∀ row ∈ contacts, Row.isContact contactId row = true :=
    persists.and (persists_const _)
  unfold announce
  split
  · refine Chronicle.Makes.done last lasts fun shared _ holding =>
      ⟨⟨_, ?_⟩, holding.weaken fun log here => here.1⟩
    exact ⟨rfl, rfl, rfl, rfl, .inl rfl⟩
  · next some_ =>
    refine .bind (.ask known_ _ fun _ _ _ _ _ _ => trivial) fun event => ?_
    refine .bind (.insert Area.outbox known_ fun row member => ?_) fun _ => ?_
    · rw [List.mem_singleton.mp member]
      rfl
    · refine Chronicle.Makes.done last lasts fun shared _ holding => ?_
      obtain ⟨row, member⟩ := List.exists_mem_of_ne_nil _ some_
      refine ⟨⟨_, rfl, rfl, rfl, rfl, .inr ⟨⟨row, member, holding.knows.2 row member⟩, event, rfl⟩⟩,
        holding.weaken fun log here => here.1⟩

-- The requests of the contact are erased, and the one that is carried out is closed besides.
theorem moves_erase {id contactId : Uuid} {now : Time} {p : GdprRequest → Bool} {hits again : List Row}
    (contacts : (contents Area.contacts).new = [])
    (announced : Announced contactId (contents Area.contacts).gone (contents Area.outbox).new)
    (isRequests : contents Area.requests =
      ⟨hits ++ Contents.untouched (hits.map (Row.mapRequest (core.erased contactId))) again,
        Contents.spared (hits.map (Row.mapRequest (core.erased contactId))) again ++ again.map
        (Row.mapRequest (closed now))⟩)
    (matched : ∀ row ∈ hits, Row.isRequest p row = true) (some_ : again ≠ [])
    (own : ∀ row ∈ again, Row.isRequest (fun row => row.id == id) row = true ∧
      (row ∈ hits.map (Row.mapRequest (core.erased contactId)) ∨
        row ∈ Contents.untouched (hits.map (Row.mapRequest (core.erased contactId))) again)) :
    Moves core (.forget id) contents := by
  have ownRow : ∀ row, .request row ∈ again → row.id = id := fun row member => beq_iff_eq.mp (own _ member).1
  -- what is spared by the second update is not the request that is carried out
  have others : ∀ row, .request row ∈ Contents.spared (hits.map (Row.mapRequest (core.erased contactId)))
      again → id ≠ row.id := by
    intro row spared same
    obtain ⟨first, member⟩ := List.exists_mem_of_ne_nil again some_
    cases first with
    | request mine =>
      have distinct := (Contents.mem_spared.mp spared).2 _ member
      exact distinct (congrArg IndexKey.request ((ownRow mine member).trans same))
    | _ => cases (own _ member).1
  have transition : ∀ row, .request row ∈ (contents Area.requests).new →
      ∃ old, .request old ∈ (contents Area.requests).gone ∧ Transition core (.forget id) old row := by
    intro row new
    rw [isRequests] at new ⊢
    rcases List.mem_append.mp new with spared | closing
    · obtain ⟨old, hit, -, rfl⟩ := mem_mapRequest matched (Contents.mem_spared.mp spared).1
      have distinct : id ≠ old.id := others (core.erased contactId old) spared
      exact ⟨old, List.mem_append_left _ hit, .erase id contactId distinct⟩
    · obtain ⟨old, hit, isOwn, rfl⟩ := mem_mapRequest (fun row member => (own row member).1) closing
      obtain rfl := beq_iff_eq.mp isOwn
      rcases (own _ hit).2 with version | untouched
      · obtain ⟨earlier, gone, -, rfl⟩ := mem_mapRequest matched version
        have moved : Transition core (.forget earlier.id) earlier
          (closed now (core.erased contactId earlier)) := .forgetErased now contactId
        exact ⟨earlier, List.mem_append_left _ gone, moved⟩
      · exact ⟨old, List.mem_append_right _ untouched, .forget now⟩
  constructor
  · exact contacts
  · exact fun row new => .inr (transition row new)
  · intro old gone
    have version : ∃ row, .request row ∈ (contents Area.requests).new ∧ row.id = old.id := by
      rw [isRequests] at gone ⊢
      have closing : ∀ row, .request row ∈ again → row.id = old.id →
          ∃ row, .request row ∈ again.map (Row.mapRequest (closed now)) ∧ row.id = old.id :=
        fun row member same => ⟨{ closed now row with id := row.id }, List.mem_map_of_mem member, same⟩
      by_cases mine : ∃ row, .request row ∈ again ∧ row.id = old.id
      · obtain ⟨row, member, same⟩ := mine
        obtain ⟨new, here, is⟩ := closing row member same
        exact ⟨new, List.mem_append_right _ here, is⟩
      · rcases List.mem_append.mp gone with hit | untouched
        · refine ⟨{ core.erased contactId old with id := old.id },
            List.mem_append_left _ (Contents.mem_spared.mpr ?_), rfl⟩
          refine ⟨List.mem_map_of_mem hit, fun row member same => mine ?_⟩
          cases row with
          | request row => exact ⟨row, member, IndexKey.request.inj same⟩
          | _ => cases same
        · exact absurd ⟨old, (Contents.mem_untouched.mp untouched).1, rfl⟩ mine
    obtain ⟨row, new, same⟩ := version
    exact ⟨row, new, same, transition row new⟩
  · intro event owner member
    rcases announced with none_ | ⟨⟨row, gone, isContact⟩, event, one⟩
    · rw [none_] at member
      cases member
    · rw [one] at member ⊢
      cases List.mem_singleton.mp member
      refine ⟨?_, fun other another also => ?_⟩
      · cases row with
        | contact id =>
          obtain rfl := beq_iff_eq.mp isContact
          exact gone
        | _ => cases isContact
      · cases List.mem_singleton.mp also
        rfl

/-- What it holds when its own request is closed, and the consents are untouched. -/
def Closing (core : Core) (label : Label) (contents : Contents Row) : Prop :=
  Moves core label contents ∧ contents Area.consents = ⟨[], []⟩

instance (core : Core) (label : Label) : Nonempty {contents // Closing core label contents} :=
  ⟨.empty, moves_empty core label, rfl⟩

theorem makes_close (persists : Persists known) {id contactId : Uuid} {now : Time} {p : GdprRequest → Bool}
    {hits : List Row} (deleted : Deleted contactId contents) :
    (ledger core first).Makes respond rules pid
      (Has first pid (.forget id) (contents.set Area.requests ⟨hits,
        hits.map (Row.mapRequest (core.erased contactId))⟩)
        fun log => known log ∧ ∀ row ∈ hits, Row.isRequest p row = true)
      (updateRequest id (closed now)) fun _ => Protocol.Unless pid
      (Some_ first pid (.forget id) (Closing core (.forget id)) known) := by
  have known_ : Persists fun log => known log ∧ ∀ row ∈ hits, Row.isRequest p row = true :=
    persists.and (persists_const _)
  refine .bind (.updateAgain Area.requests known_ tableOf_request (mapRequest_keyed (closed now)) ?_)
    fun rows => ?_
  · intro row version
    rw [Contents.set_same] at version ⊢
    obtain ⟨old, hit, rfl⟩ := List.mem_map.mp version
    exact ⟨old, hit, (mapRequest_keyed _ old).symm⟩
  · split
    · exact Stage.fail
    · next some_ =>
      refine Chronicle.Makes.done (Some_ first pid (.forget id) (Closing core (.forget id)) known)
        (some_lasting persists) ?_
      rintro shared - ⟨again, rfl, own, holding⟩
      rw [Contents.set_same, Contents.set_set] at holding
      rw [Contents.set_same] at own
      let held : Held Row :=
        ⟨hits ++ Contents.untouched (hits.map (Row.mapRequest (core.erased contactId))) again,
        Contents.spared (hits.map (Row.mapRequest (core.erased contactId))) again ++
          again.map (Row.mapRequest (closed now))⟩
      have contacts : (contents.set Area.requests held Area.contacts).new = [] := deleted.contacts
      have moves := moves_erase contacts deleted.announced
        (Contents.set_same contents Area.requests held) holding.knows.2
        (fun none_ => some_ (by rw [none_]; rfl)) own
      exact ⟨⟨_, moves, deleted.consents⟩, holding.weaken fun log here => here.1⟩

theorem isConsent_table {p : Uuid → Option String → Bool} :
    ∀ row, Row.isConsent p row = true → tableOf row = Area.consents := by
  intro row found
  cases row with
  | consent id contactId text => rfl
  | _ => cases found

theorem learns_erase (persists : Persists known) (req : GdprRequest) (contactId : Uuid)
    (entitled : ∀ log, known log → Entitled pid (.forget req.id) log) :
    (ledger core first).Learns respond rules pid known
    (answered (.forget req.id) (core.erase req contactId)) fun _ => known := by
  have lasts : (ledger core first).protocol.Lasting pid (Ready core first pid (.forget req.id) known) :=
    ready_lasting persists
  refine learns_ready persists (.bind (makes_deleteContact persists contactId) fun _ => Stage.choose
    fun ⟨contents, deleted⟩ => ?_)
  refine Chronicle.Makes.bind (.lockRows persists _) fun old => ?_
  refine .bind (.update Area.requests persists tableOf_request (mapRequest_keyed _) deleted.requests)
      fun erased =>
    Stage.choose fun hits => ?_
  -- what the first update hit is kept beside the contents
  let ids := (old.filterMap Row.request?).map GdprRequest.id
  have matched : Persists fun log => known log ∧ ∀ row ∈ hits,
      Row.isRequest (fun row => ids.contains row.id) row = true :=
    persists.and (persists_const _)
  refine Stage.bind (fun _ => Has first pid (.forget req.id) (contents.set Area.requests
    ⟨hits, hits.map (Row.mapRequest (core.erased contactId))⟩) _)
    ((Chronicle.Makes.ask matched _ fun _ _ _ _ _ _ => trivial).strengthen ?_) fun (now : Time) => ?_
  · exact fun shared _ held => held.imp id fun ⟨_, isRequest, holding⟩ => holding.and isRequest
  refine Chronicle.Makes.bind (makes_close persists deleted) fun _ => Stage.choose
    fun ⟨closing, moves, consents⟩ => ?_
  refine Chronicle.Makes.bind (.update Area.consents persists isConsent_table
    (fun row => by cases row <;> rfl) consents) fun texts => ?_
  refine Chronicle.Makes.done (Ready core first pid (.forget req.id) known) lasts ?_
  rintro shared - ⟨anonymized, -, -, holding⟩
  exact ⟨_, moves.set _ (by simp) (by simp) (by simp), holding.weaken
    fun log here => ⟨entitled log here, here⟩⟩

end Calls

end OpenEmarsys.Gdpr
