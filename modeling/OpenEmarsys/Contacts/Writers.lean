import OpenEmarsys.Contacts.Plain
import OpenEmarsys.Contacts.Relay

/-! The operations of core append to the outbox, so their events are delivered.

Whether messages of a contact also come in the order of the commits depends on the
identifiers and on what relays find locked.
-/

set_option autoImplicit false

namespace OpenEmarsys.Contacts

open Javascript Postgres Interleaving

/-- A script that appends, whatever identifiers were drawn before it. -/
def Writes {α : Type} (script : CoreScript α) : Prop := ∀ drawn, Appends Anyhow drawn script

section Rules
variable {α β : Type}

theorem Appends.mono {post weaker : Except Failure α → List Uuid → Prop} {script : CoreScript α}
    {drawn : List Uuid}
    (appends : Appends post drawn script) (implies : ∀ result left, post result left → weaker result left) :
    Appends weaker drawn script := by
  induction script generalizing drawn with
  | ret value => exact implies _ _ appends
  | fail error => exact implies _ _ appends
  | call action rest ih =>
      cases action with
      | exec statement => exact ⟨appends.1, appends.2.1, fun reply => ih reply (appends.2.2 reply)⟩
      | other request =>
          cases request with
          | publish row => exact appends.elim
          | _ => exact fun reply => ih reply (appends reply)
      | _ => exact fun reply => ih reply (appends reply)

theorem Appends.bind {post : Except Failure β → List Uuid → Prop} {script : CoreScript α}
    {next : α → CoreScript β} {drawn : List Uuid}
    (appends : Appends (fun result left => match result with
      | .ok value => Appends post left (next value)
      | .error error => post (.error error) left) drawn script) : Appends post drawn (script >>= next) := by
  induction script generalizing drawn with
  | ret value => exact appends
  | fail error => exact appends
  | call action rest ih =>
      cases action with
      | exec statement => exact ⟨appends.1, appends.2.1, fun reply => ih reply (appends.2.2 reply)⟩
      | other request =>
          cases request with
          | publish row => exact appends.elim
          | _ => exact fun reply => ih reply (appends reply)
      | _ => exact fun reply => ih reply (appends reply)

theorem Appends.handle {post : Except Failure α → List Uuid → Prop} {script : CoreScript α}
    {handler : Failure → CoreScript α} {drawn : List Uuid}
    (appends : Appends (fun result left => match result with
      | .ok value => post (.ok value) left
      | .error error => Appends post left (handler error)) drawn script) : Appends post drawn
          (script.handle handler) := by
  induction script generalizing drawn with
  | ret value => exact appends
  | fail error => exact appends
  | call action rest ih =>
      cases action with
      | exec statement => exact ⟨appends.1, appends.2.1, fun reply => ih reply (appends.2.2 reply)⟩
      | other request =>
          cases request with
          | publish row => exact appends.elim
          | _ => exact fun reply => ih reply (appends reply)
      | _ => exact fun reply => ih reply (appends reply)

theorem plain_spares {core : Core} {statement : Statement Row} (plain : Plain core statement) :
    Spares statement ∧ appended statement = [] := by
  cases statement with
  | insert rows ignore =>
      refine ⟨trivial, List.map_eq_nil_iff.mpr (List.filterMap_eq_nil_iff.mpr
        fun row member => (plain row member).1)⟩
  | update p f => exact ⟨⟨plain.1, plain.2.1⟩, rfl⟩
  | delete p => exact ⟨plain, rfl⟩
  | _ => exact ⟨trivial, rfl⟩

theorem Writes.ret (value : α) : Writes (.ret value : CoreScript α) := fun _ => trivial

theorem Writes.fail (error : Failure) : Writes (.fail error : CoreScript α) := fun _ => trivial

theorem Writes.bind {script : CoreScript α} {next : α → CoreScript β} (first : Writes script)
    (rest : ∀ value, Writes (next value)) : Writes (script >>= next) := by
  refine fun drawn => Appends.bind ((first drawn).mono fun result left _ => ?_)
  cases result with
  | ok value => exact rest value left
  | error error => trivial

theorem Writes.handle {script : CoreScript α} {handler : Failure → CoreScript α} (body : Writes script)
    (rescue : ∀ error, Writes (handler error)) : Writes (Script.handle script handler) := by
  refine fun drawn => Appends.handle ((body drawn).mono fun result left _ => ?_)
  cases result with
  | ok value => trivial
  | error error => exact rescue error left

theorem Writes.orThrow (reply : Except SqlError α) : Writes (Postgres.orThrow reply : CoreScript α) := by
  cases reply <;> exact fun _ => trivial

theorem Writes.sql {statement : Statement Row} (spares : Spares statement)
    (nothing : appended statement = []) :
    Writes (Postgres.sql statement) := by
  refine fun drawn _ => ⟨spares, by simp [nothing], fun reply => ?_⟩
  exact Writes.orThrow reply _

theorem Writes.transaction (label : Label) {body : CoreScript α} (inside : Writes body) :
    Writes (Postgres.transaction label body) := by
  have commits : ∀ value : α, Writes (commitOrThrow value : CoreScript α) := by
    intro value drawn reply
    cases reply <;> trivial
  have rollsBack : ∀ error : Failure, Writes (.call .rollback fun _ => .fail error : CoreScript α) :=
    fun _ _ _ => trivial
  exact fun drawn _ => Writes.handle (Writes.bind inside commits) rollsBack drawn

theorem Writes.call {request : Request} (quiet : ∀ row, request ≠ .publish row) :
    Writes (Contacts.call request) := by
  cases request with
  | publish row => exact absurd rfl (quiet row)
  | _ => exact fun _ _ => trivial

theorem PlainScript.writes {core : Core} {script : CoreScript α}
    (plain : PlainScript core script) : Writes script := by
  intro drawn
  induction script generalizing drawn with
  | ret value => trivial
  | fail error => trivial
  | call action rest ih =>
      have later (reply : Answer Response action) (left : List Uuid) : Appends Anyhow left (rest reply) :=
        ih reply (plain.2 reply) left
      cases action with
      | exec statement =>
          obtain ⟨spares, nothing⟩ := plain_spares plain.1
          exact ⟨spares, by simp [nothing], fun reply => later reply _⟩
      | other request =>
          cases request with
          | publish row => exact plain.1.elim
          | _ => exact fun reply => later reply _
      | _ => exact fun reply => later reply _

end Rules

theorem outboxRows_appends (core : Core) (type : String) (events : List (Uuid × EventData))
    (drawn : List Uuid) :
    Appends (fun result left => match result with
      | .ok rows => drawn ⊆ left ∧ (outboxOf rows).map OutboxRow.id ⊆ left
      | .error _ => True) drawn (outboxRows core type events) := by
  induction events generalizing drawn with
  | nil => exact ⟨List.Subset.refl _, by simp [outboxOf]⟩
  | cons event rest ih =>
      intro id now
      change Appends _ (id :: drawn) (outboxRows core type rest >>= fun rows => Script.ret (_ :: rows))
      refine Appends.bind ((ih (id :: drawn)).mono fun result left held => ?_)
      cases result with
      | ok rows =>
          obtain ⟨kept, ids⟩ := held
          refine ⟨fun other member => kept (List.mem_cons_of_mem _ member), ?_⟩
          intro other member
          rcases List.mem_cons.mp member with rfl | later
          · exact kept (List.mem_cons_self ..)
          · exact ids later
      | error error => trivial

theorem insertEvents_writes (core : Core) (type : String) (events : List (Uuid × EventData)) :
    Writes (insertEvents core type events) := by
  unfold insertEvents
  split
  · exact Writes.ret ()
  · refine fun drawn => Appends.bind ((outboxRows_appends core type events drawn).mono
      fun result left held => ?_)
    cases result with
    | ok rows =>
        refine Appends.bind fun _ => ⟨trivial, held.2, fun reply => ?_⟩
        cases reply <;> exact trivial
    | error error => trivial

theorem deleted_writes (core : Core) (contactIds : List Uuid) (reason : String) :
    Writes (deleted core contactIds reason) :=
  insertEvents_writes core _ _

theorem upserted_writes (core : Core) (changed : List (Uuid × List String)) :
    Writes (upserted core changed) := by
  unfold upserted
  split
  · exact Writes.ret ()
  · exact Writes.bind (Writes.sql trivial rfl) fun rows => insertEvents_writes core _ _

theorem softDelete_writes (core : Core) (ids : List Uuid) : Writes (softDelete core ids) := by
  unfold softDelete
  split
  · exact Writes.ret []
  · apply Writes.transaction
    refine Writes.bind (Writes.call (by simp)) fun now => ?_
    refine Writes.bind (Writes.sql ⟨fun row => by cases row <;> rfl, fun _ => rfl⟩ rfl) fun rows => ?_
    dsimp only
    split
    · exact Writes.ret _
    · refine Writes.bind (Writes.sql (fun _ => rfl) rfl) fun _ => ?_
      refine Writes.bind (deleted_writes core _ _) fun _ => ?_
      exact Writes.ret _

theorem change_writes (core : Core) (listId : String) (contactIds : List String) (add : Bool) :
    Writes (change core listId contactIds add) := by
  apply Writes.transaction
  refine Writes.bind (assertList_plain core listId).writes fun _ => ?_
  refine Writes.bind (Writes.sql trivial rfl) fun found => ?_
  dsimp only
  split
  · refine Writes.bind (insertMembers_plain core _ _).writes fun rows => ?_
    refine Writes.bind (upserted_writes core _) fun _ => ?_
    exact Writes.ret _
  · refine Writes.bind (Writes.sql (fun _ => rfl) rfl) fun rows => ?_
    refine Writes.bind (upserted_writes core _) fun _ => ?_
    exact Writes.ret _

theorem removeList_writes (core : Core) (id : String) : Writes (removeList core id) := by
  apply Writes.transaction
  refine Writes.bind (assertList_plain core id).writes fun _ => ?_
  refine Writes.bind (Writes.sql trivial rfl) fun rows => ?_
  refine Writes.bind (Writes.sql (fun _ => rfl) rfl) fun gone => ?_
  dsimp only
  split
  · exact Writes.bind (Writes.sql (fun _ => rfl) rfl) fun _ => upserted_writes core _
  · exact upserted_writes core _

theorem forget_writes (core : Core) (contactId : Uuid) : Writes (forget core contactId) := by
  refine Writes.transaction _ ?_
  refine Writes.bind (Writes.sql (fun _ => rfl) rfl) fun _ => ?_
  refine Writes.bind (Writes.sql (fun _ => rfl) rfl) fun _ => ?_
  refine Writes.bind (Writes.sql (fun _ => rfl) rfl) fun rows => ?_
  have ends : Writes (do
      let _ ← sql (.update (Row.isConsent fun consent =>
        consent.contactId == contactId && consent.text.isSome)
        (Row.mapConsent fun consent => { consent with text := none }))
      pure () : CoreScript Unit) :=
    Writes.bind (Writes.sql ⟨fun row => by cases row <;> rfl, fun _ => rfl⟩ rfl) fun _ => Writes.ret ()
  dsimp only
  split
  · refine Writes.bind (Writes.sql (fun _ => rfl) rfl) fun _ => ?_
    refine Writes.bind (Writes.sql (fun _ => rfl) rfl) fun _ => ?_
    refine Writes.bind (deleted_writes core _ _) fun _ => ?_
    exact ends
  · exact ends

theorem consentRows_others (consents : List Consent) (drawn : List Uuid) :
    Appends (fun result _ => ∀ rows, result = .ok rows → outboxOf rows = []) drawn
    (consentRows consents) := by
  induction consents generalizing drawn with
  | nil => rintro rows ⟨⟩; rfl
  | cons consent rest ih =>
      intro id
      change Appends _ (id :: drawn) (consentRows rest >>= fun rows => Script.ret (_ :: rows))
      refine Appends.bind ((ih (id :: drawn)).mono fun result left held => ?_)
      cases result with
      | ok rows => rintro all ⟨⟩; exact held rows rfl
      | error error => rintro all ⟨⟩

theorem record_writes (core : Core) (explicit : Option ConsentInput) (now : Time)
    (changes : List ContactChange) :
    Writes (record core explicit now changes) := by
  unfold record
  dsimp only
  split
  · exact Writes.ret ()
  · refine fun drawn => Appends.bind ((consentRows_others _ drawn).mono fun result left held => ?_)
    cases result with
    | ok rows =>
        have inserts : Writes (sql (.insert rows false) : CoreScript (List Row)) :=
          Writes.sql trivial (by simp [appended, held rows rfl])
        exact Writes.bind inserts (fun _ => insertEvents_writes core _ _) left
    | error error => trivial

theorem writeBody_writes (core : Core) (definitions : Definitions) (valid : List Pending) (source : String)
    (explicit : Option ConsentInput) : Writes (writeBody core definitions valid source explicit) := by
  refine Writes.bind (Writes.call (by simp)) fun now => ?_
  refine Writes.bind (update_plain core now _ source).writes fun updated => ?_
  refine Writes.bind (insert_plain core now _ source).writes fun inserted => ?_
  refine Writes.bind (syncUniqueValues_plain core definitions _).writes fun _ => ?_
  refine Writes.bind (record_writes core explicit now _) fun _ => ?_
  refine Writes.bind (upserted_writes core _) fun _ => ?_
  exact Writes.ret _

theorem attempt_writes (core : Core) (process : Nat) (keyId : String) (mode : WriteMode) (items : List Item)
    (source : String)
    (explicit : Option ConsentInput) : Writes (attempt core process keyId mode items source explicit) := by
  refine Writes.bind (fields_plain core process).writes fun definitions => ?_
  refine Writes.bind (resolve_plain core process keyId _).writes fun found => ?_
  refine Writes.bind (assignIds_plain core mode keyId found _).writes fun pending => ?_
  refine Writes.bind (checkUnique_plain core process keyId definitions pending).writes fun pending => ?_
  dsimp only
  split
  · exact Writes.ret _
  · exact Writes.bind (Writes.transaction _ (writeBody_writes core definitions _ source explicit))
      fun _ => Writes.ret _

theorem attempts_writes {α : Type} {run : CoreScript α} (once : Writes run) (more : Nat) :
    Writes (attempts run more) := by
  induction more with
  | zero => exact once
  | succ more ih =>
      refine Writes.handle once fun error => ?_
      split
      · exact ih
      · exact Writes.fail _

theorem write_writes (core : Core) (process : Nat) (keyId : String) (mode : WriteMode) (items : List Item)
    (source : String)
    (explicit : Option ConsentInput) : Writes (write core process keyId mode items source explicit) :=
  Writes.bind (assertKey_plain core process keyId).writes fun _ =>
    attempts_writes (attempt_writes core process keyId mode items source explicit) _

theorem byKeys_writes (core : Core) (process : Nat) (listId keyId : String) (values : List String)
    (add : Bool) :
    Writes (byKeys core process listId keyId values add) := by
  refine Writes.bind (Writes.transaction _ (assertList_plain core listId).writes) fun _ => ?_
  refine Writes.bind (resolve_plain core process keyId values).writes fun _ => ?_
  refine Writes.bind (change_writes core listId _ add) fun _ => ?_
  exact Writes.ret _

inductive Operation where
  | write (process : Nat) (keyId : String) (mode : WriteMode) (items : List Item) (source : String)
      (explicit : Option ConsentInput)
  | softDelete (ids : List Uuid)
  | change (listId : String) (contactIds : List String) (add : Bool)
  | byKeys (process : Nat) (listId keyId : String) (values : List String) (add : Bool)
  | removeList (id : String)
  | forget (contactId : Uuid)

def discard {α : Type} (script : CoreScript α) : CoreScript Unit := script >>= fun _ => .ret ()

def Operation.script (core : Core) : Operation → CoreScript Unit
  | .write process keyId mode items source explicit =>
    discard (Contacts.write core process keyId mode items source explicit)
  | .softDelete ids => discard (Contacts.softDelete core ids)
  | .change listId contactIds add => discard (Contacts.change core listId contactIds add)
  | .byKeys process listId keyId values add => discard (Contacts.byKeys core process listId keyId values add)
  | .removeList id => Contacts.removeList core id
  | .forget contactId => Contacts.forget core contactId

theorem discard_writes {α : Type} {script : CoreScript α} (writes : Writes script) :
    Writes (discard script) :=
  Writes.bind writes fun _ => Writes.ret ()

theorem Operation.writes (core : Core) (operation : Operation) : Writes (operation.script core) := by
  cases operation with
  | write process keyId mode items source explicit =>
    exact discard_writes (write_writes core process keyId mode items source explicit)
  | softDelete ids => exact discard_writes (softDelete_writes core ids)
  | change listId contactIds add => exact discard_writes (change_writes core listId contactIds add)
  | byKeys process listId keyId values add =>
    exact discard_writes (byKeys_writes core process listId keyId values add)
  | removeList id => exact removeList_writes core id
  | forget contactId => exact forget_writes core contactId

def Operation.writer (core : Core) (operation : Operation) : Delivery :=
  .writer (operation.script core) (operation.writes core [])

/-! ## Delivery -/

section Runs
variable {first : State} {config : Config Delivery (Action Row Label Request)
  (Answer Response) Failure Unit State}

theorem timely_always {rules : Rules Delivery (Action Row Label Request) State} :
    Timely (fun _ _ => False) rules where
  commit _ _ _ _ := List.pairwise_of_forall fun _ _ absurd_ => absurd_.elim
  select _ _ _ _ _ _ _ _ absurd_ := absurd_.elim

/-- Whatever commits, aborts, crashes or fails, and however relays interleave: the stream holds
events that were committed, each committed event is still in the outbox or already in the stream,
an event leaves the outbox once it is in the stream, and none is stored twice. -/
theorem outbox_delivers (opening : Opening first)
    (run : (machine respond).Reaches Delivery.code {} (.start first) config) :
    (∀ message ∈ config.state.world.stream, message ∈ committed config.state.server.log) ∧
      (∀ row ∈ committed config.state.server.log,
        .outbox row ∈ config.state.server.rows ∨ row ∈ config.state.world.stream) ∧
      (∀ row, .outbox row ∈ config.state.server.rows → row ∈ committed config.state.server.log) ∧
      (∀ move next row, (machine respond).step Delivery.code config move = some next →
          .outbox row ∈ config.state.server.rows → .outbox row ∉ next.state.server.rows →
          row ∈ config.state.world.stream) ∧
      (config.state.world.stream.map OutboxRow.id).Nodup ∧
      ((committed config.state.server.log).map OutboxRow.id).Nodup := by
  have delivered := runs_delivered timely_always opening run
  refine ⟨delivered.stream, delivered.kept, delivered.pending, ?_, delivered.stored, delivered.once⟩
  intro move next row taken present gone
  have legal : Machine.Legal {} config move := by cases move <;> simp [Machine.Legal]
  have after := runs_delivered timely_always opening (run.move move legal taken)
  rcases rows_or_stream taken with same | ⟨world, grown⟩
  · rw [same] at gone
    exact absurd present gone
  · have known : row ∈ committed next.state.server.log :=
      (committed_grows grown).subset (delivered.pending row present)
    have stored : row ∈ next.state.world.stream := (after.kept row known).resolve_left gone
    rwa [world] at stored

/-- Two events that say what became of one contact. -/
def SameContact (row other : OutboxRow) : Prop :=
  row.envelope.contact_id = other.envelope.contact_id ∧
      row.envelope.type ∈ ["contacts.upserted", "contacts.deleted"] ∧
      other.envelope.type ∈ ["contacts.upserted", "contacts.deleted"]

instance (row other : OutboxRow) : Decidable (SameContact row other) :=
  inferInstanceAs (Decidable (_ ∧ _ ∧ _))

/-- The events of a contact commit in the order of their identifiers. -/
def increasing (pid : Tid) (action : Action Row Label Request) (shared : State) : Bool :=
  match action with
  | .commit => decide ((committed shared.server.log ++ outboxOf (shared.server.txs pid).added).Pairwise
      fun row later => SameContact row later → row.id < later.id)
  | _ => true

def pending (shared : State) (row : OutboxRow) : Bool :=
  (outboxOf shared.server.rows).any fun other => other.id == row.id

/-- A relay that skips a locked row finds no later pending row of the same contact unlocked. -/
def unskipped (pid : Tid) (action : Action Row Label Request) (shared : State) : Bool :=
  match action with
  | .exec (.lockSkip ..) => decide ((committed shared.server.log).Pairwise fun row later =>
      SameContact row later → pending shared row = true → pending shared later = true →
        shared.server.refuses pid (.outbox row) = true → shared.server.refuses pid (.outbox later) = true)
  | _ => true

def orderly (pid : Tid) (action : Action Row Label Request) (shared : State) : Bool :=
  increasing pid action shared && unskipped pid action shared

theorem pending_of_mem {shared : State} {row : OutboxRow} (member : .outbox row ∈ shared.server.rows) :
    pending shared row = true :=
  List.any_eq_true.mpr ⟨row, mem_outboxOf.mpr member, beq_self_eq_true _⟩

theorem timely_orderly : Timely SameContact
    { act := fun pid action shared => orderly pid action shared = true } where
  commit pid shared permitted _ := by simpa [orderly, increasing, unskipped] using permitted
  select pid shared p le limit permitted earlier row relation found present waiting free := by
    have unskipped_ : unskipped pid (.exec (.lockSkip p le limit)) shared = true :=
      (Bool.and_eq_true_iff.mp permitted).2
    have pairs := (of_decide_eq_true unskipped_).sublist found
    have skips := (List.pairwise_cons.mp pairs).1 row (List.mem_singleton.mpr rfl) relation
      (pending_of_mem present) (pending_of_mem waiting)
    by_contra refused
    rw [skips (by simpa using refused)] at free
    cases free

/-- In an orderly run a message of a contact enters the stream after those of earlier commits. -/
theorem published_in_order (opening : Opening first)
    (run : (machine respond).Reaches Delivery.code
      { act := fun pid action shared => orderly pid action shared = true }
      (.start first) config) (row later : OutboxRow) (same : SameContact row later)
    (earlier : [row, later].Sublist (committed config.state.server.log))
    (published : later ∈ config.state.world.stream) :
    [row, later].Sublist config.state.world.stream := by
  have delivered := runs_delivered timely_orderly opening run
  obtain ⟨before, after, split⟩ := List.append_of_mem published
  have front : row ∈ before := delivered.ordered before later after split row earlier same
  rw [split]
  exact (List.singleton_sublist.mpr front).append (List.singleton_sublist.mpr (List.mem_cons_self ..))

end Runs

def exampleRows : List Row := [.contact ⟨7, fun _ => none, none, none, 1, 0, 0, none, []⟩, .list ⟨9, "news"⟩]

def exampleState : State := ⟨.holding exampleRows, ⟨[], [], fun _ => none, []⟩⟩

def exampleCore : Core := ⟨"0192f000-0000-7000-8000-000000000001", "core", id, id⟩

theorem example_opening : Opening exampleState := ⟨rfl, by decide, rfl, rfl, rfl⟩

def plainCalls (pid calls : Nat) : List (Move Delivery Choices) := List.replicate calls (.act pid .none)

/-- A deletion commits, a first relay dies without hearing that its message arrived, a second one
sends it again. -/
def relayCrash : List (Move Delivery Choices) :=
  [.spawn 1 ((Operation.softDelete [7]).writer exampleCore), .act 1 .none,
    .act 1 (.time 100)] ++ plainCalls 1 4 ++
  [.act 1 (.uuid 5 1 0), .act 1 (.time 101)] ++ plainCalls 1 3 ++
  [.spawn 2 .drain] ++ plainCalls 2 3 ++ [.act 2 (.delivery true false), .crash 2] ++
  [.spawn 3 .drain] ++ plainCalls 3 3 ++ [.act 3 (.delivery true true)] ++ plainCalls 3 3

theorem outbox_delivers_crash : ∃ config, (machine respond).moves Delivery.code relayCrash
    (.start exampleState) = some config ∧
      config.state.world.stream.length = 1 ∧ config.state.server.rows.length = 2 ∧
      ∀ row ∈ committed config.state.server.log, .outbox row ∈ config.state.server.rows ∨
      row ∈ config.state.world.stream := by
  obtain ⟨config, ran⟩ : ∃ config,
      (machine respond).moves Delivery.code relayCrash (.start exampleState) = some config :=
    Option.isSome_iff_exists.mp (by decide)
  have counts : ((machine respond).moves Delivery.code relayCrash (.start exampleState)).map
      (fun config => (config.state.world.stream.length, config.state.server.rows.length)) =
        some (1, 2) := by decide
  rw [ran] at counts
  obtain ⟨stream, rows⟩ := Prod.mk.inj (Option.some.inj counts)
  exact ⟨config, ran, stream, rows,
    (outbox_delivers example_opening (Machine.reaches_moves _ _ .refl _ ran)).2.1⟩

/-- The contact joins a list and is deleted, with the two events drawn as given, then a relay drains. -/
def joinAndDelete (first second : BitVec 12) : List (Move Delivery Choices) :=
  [.spawn 1 ((Operation.change (uuidText 9) [uuidText 7] true).writer exampleCore)] ++ plainCalls 1 13 ++
  [.act 1 (.uuid 5 first 0), .act 1 (.time 100)] ++ plainCalls 1 3 ++
  [.spawn 2 ((Operation.softDelete [7]).writer exampleCore), .act 2 .none,
    .act 2 (.time 100)] ++ plainCalls 2 4 ++
  [.act 2 (.uuid 5 second 0), .act 2 (.time 100)] ++ plainCalls 2 3 ++
  [.spawn 3 .drain] ++ plainCalls 3 3 ++ [.act 3 (.delivery true true),
    .act 3 (.delivery true true)] ++ plainCalls 3 3

/-- The identifiers committed and those in the stream, each in order, and whether all events are of
one contact. -/
def summary (config : Config Delivery (Action Row Label Request) (Answer Response) Failure Unit State) :
    List Uuid × List Uuid × Bool :=
  ((committed config.state.server.log).map OutboxRow.id, config.state.world.stream.map OutboxRow.id,
    decide ((committed config.state.server.log).Pairwise SameContact))

theorem two_committed
    {config : Config Delivery (Action Row Label Request) (Answer Response) Failure Unit State}
    {first second : Uuid} {stream : List Uuid} (found : summary config = ([first, second], stream, true)) :
    ∃ row later, committed config.state.server.log = [row, later] ∧ row.id = first ∧ later.id = second ∧
      SameContact row later ∧ config.state.world.stream.map OutboxRow.id = stream := by
  simp only [summary, Prod.mk.injEq, decide_eq_true_eq] at found
  obtain ⟨ids, streamIds, same⟩ := found
  obtain ⟨row, rest, split, rfl, tail⟩ := List.map_eq_cons_iff.mp ids
  obtain ⟨later, nothing, rfl, rfl, none_⟩ := List.map_eq_cons_iff.mp tail
  cases List.map_eq_nil_iff.mp none_
  rw [split] at same
  exact ⟨row, later, split, rfl, rfl,
    (List.pairwise_cons.mp same).1 later (List.mem_singleton.mpr rfl), streamIds⟩

/-- What the runs of these steps are to keep: messages of a contact enter the stream in the order of
commits. -/
def Ordered (allowed : Tid → Action Row Label Request → State → Bool) : Prop :=
  ∀ (first : State) (config : Config Delivery (Action Row Label Request) (Answer Response) Failure Unit State),
    Opening first → (machine respond).Reaches Delivery.code
      { act := fun pid action shared => allowed pid action shared = true }
      (.start first) config →
    ∀ row later, SameContact row later → [row, later].Sublist (committed config.state.server.log) →
      later ∈ config.state.world.stream → [row, later].Sublist config.state.world.stream

theorem published_in_order_joined : ∃ config row later,
      (machine respond).guarded Delivery.code orderly (joinAndDelete 0 1) (.start exampleState) = some config ∧
      committed config.state.server.log = [row, later] ∧ [row, later].Sublist config.state.world.stream := by
  obtain ⟨config, ran⟩ : ∃ config,
      (machine respond).guarded Delivery.code orderly (joinAndDelete 0 1) (.start exampleState) = some config :=
    Option.isSome_iff_exists.mp (by decide)
  have found :
    ((machine respond).guarded Delivery.code orderly (joinAndDelete 0 1) (.start exampleState)).map summary =
      some ([uuidv7 5 0 0, uuidv7 5 1 0], [uuidv7 5 0 0, uuidv7 5 1 0], true) := by decide
  rw [ran] at found
  obtain ⟨row, later, log, -, isLater, same, stream⟩ := two_committed (Option.some.inj found)
  have reached := (machine respond).reaches_guarded Delivery.code .refl _ ran
  obtain ⟨message, published, isMessage⟩ :=
    List.mem_map.mp (stream ▸ List.mem_of_mem_tail (List.mem_singleton.mpr rfl) :
    uuidv7 5 1 0 ∈ config.state.world.stream.map OutboxRow.id)
  have delivered := runs_delivered timely_orderly example_opening reached
  have equal := delivered.same (delivered.stream message published)
    (log ▸ List.mem_cons_of_mem _ (List.mem_singleton.mpr rfl) : later ∈ committed config.state.server.log)
    (isMessage.trans isLater.symm)
  exact ⟨config, row, later, ran, log, published_in_order example_opening reached row later same
    (log ▸ List.Sublist.refl _) (equal ▸ published)⟩

-- A run after which the later of two committed events is in the stream, and the other not before it.
theorem not_ordered {allowed : Tid → Action Row Label Request → State → Bool}
    {moves : List (Move Delivery Choices)}
    {first second : Uuid} {stream : List Uuid}
    (found : ((machine respond).guarded Delivery.code allowed moves (.start exampleState)).map summary =
      some ([first, second], stream, true))
    (published : second ∈ stream) (unordered : ¬ [first, second].Sublist stream) : ¬ Ordered allowed := by
  intro ordered
  obtain ⟨config, ran, is⟩ := Option.map_eq_some_iff.mp found
  obtain ⟨row, later, log, isRow, isLater, same, inStream⟩ := two_committed is
  have reached := (machine respond).reaches_guarded Delivery.code .refl _ ran
  obtain ⟨message, member, isMessage⟩ := List.mem_map.mp (inStream.symm ▸ published)
  have delivered := runs_delivered timely_always example_opening reached
  have equal := delivered.same (delivered.stream message member)
    (log ▸ List.mem_cons_of_mem _ (List.mem_singleton.mpr rfl) : later ∈ committed config.state.server.log)
    (isMessage.trans isLater.symm)
  have inOrder :=
    (ordered _ config example_opening reached row later same (log ▸ List.Sublist.refl _) (equal ▸ member)).map
    OutboxRow.id
  rw [inStream, List.map_cons, List.map_cons, List.map_nil, isRow, isLater] at inOrder
  exact unordered inOrder

/-- A first relay has taken the event of the join and not sent it yet; a second one skips that row,
and sends the event of the deletion. -/
def skipped : List (Move Delivery Choices) :=
  [.spawn 1 ((Operation.change (uuidText 9) [uuidText 7] true).writer exampleCore)] ++ plainCalls 1 13 ++
  [.act 1 (.uuid 5 0 0), .act 1 (.time 100)] ++ plainCalls 1 3 ++
  [.spawn 3 .drain] ++ plainCalls 3 3 ++
  [.spawn 2 ((Operation.softDelete [7]).writer exampleCore), .act 2 .none,
    .act 2 (.time 100)] ++ plainCalls 2 4 ++
  [.act 2 (.uuid 5 1 0), .act 2 (.time 100)] ++ plainCalls 2 3 ++
  [.spawn 4 .drain] ++ plainCalls 4 3 ++ [.act 4 (.delivery true true)]

/-- Neither condition alone keeps the order: two events of one millisecond, of which the deletion drew
the smaller random bits; and a row that a second relay skips. -/
theorem published_out_of_order :
    ¬ Ordered (fun _ _ _ => true) ∧ ¬ Ordered unskipped ∧ ¬ Ordered increasing := by
  have drawn :
    ((machine respond).guarded Delivery.code unskipped (joinAndDelete 1 0)
    (.start exampleState)).map summary =
      some ([uuidv7 5 1 0, uuidv7 5 0 0], [uuidv7 5 0 0, uuidv7 5 1 0], true) := by decide
  have passed :
    ((machine respond).guarded Delivery.code increasing skipped (.start exampleState)).map summary =
      some ([uuidv7 5 0 0, uuidv7 5 1 0], [uuidv7 5 1 0], true) := by decide
  have free : ((machine respond).guarded Delivery.code (fun _ _ _ => true) skipped
    (.start exampleState)).map summary =
      some ([uuidv7 5 0 0, uuidv7 5 1 0], [uuidv7 5 1 0], true) := by decide
  exact ⟨not_ordered free (by decide) (by decide), not_ordered drawn (by decide) (by decide),
    not_ordered passed (by decide) (by decide)⟩

end OpenEmarsys.Contacts
