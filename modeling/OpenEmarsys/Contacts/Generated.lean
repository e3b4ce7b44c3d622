import OpenEmarsys.Contacts.Plain
import OpenEmarsys.Contacts.Writers

/-! The generated columns of contacts, over all runs of the calls of core.

Whatever the calls do to `data`, `email_norm` and `external_id` are computed from it.
-/

set_option autoImplicit false

namespace OpenEmarsys.Contacts

open Javascript Postgres Interleaving

/-- The calls of core that change contacts, memberships, consents and definitions, with those that read
contacts by key and publish events. Creating and renaming lists, which touch none of these, is left out. -/
inductive CoreCall where
  | operation (operation : Operation)
  | setConsent (process : Nat) (contactId : String) (input : ConsentInput)
  | create (process : Nat) (input : FieldCreate)
  | updateField (process fieldId : Nat) (input : FieldUpdate)
  | remove (process fieldId : Nat)
  | resolve (process : Nat) (keyId : String) (values : List String)
  | drain

def CoreCall.script (core : Core) : CoreCall → CoreScript Unit
  | .operation operated => operated.script core
  | .setConsent process contactId input => Contacts.setConsent core process contactId input
  | .create process input => discard (Contacts.create process input)
  | .updateField process fieldId input => discard (Contacts.updateField process fieldId input)
  | .remove process fieldId => Contacts.remove core process fieldId
  | .resolve process keyId values => discard (Contacts.resolve core process keyId values)
  | .drain => discard Contacts.drain

section Scripts
variable {core : Core} {α : Type}

abbrev KeepsGenerated (core : Core) (script : CoreScript α) : Prop := Keeping (Row.Generated core) script

theorem PlainScript.keeps {script : CoreScript α} (plain : PlainScript core script) :
    KeepsGenerated core script := by
  refine Script.Calls.mono plain fun action is => ?_
  cases action with
  | exec statement =>
    cases statement with
    | insert rows ignore => exact fun row member => (is row member).2
    | update p f => exact ⟨is.1, fun row _ generated => is.2.2 row generated⟩
    | _ => trivial
  | _ => trivial

theorem outboxRows_generated (core : Core) (type : String) (events : List (Uuid × EventData)) :
    KeepsGenerated core (outboxRows core type events) ∧
      (outboxRows core type events).Gives fun rows => ∀ row ∈ rows, row.Generated core := by
  induction events with
  | nil => exact ⟨trivial, nofun⟩
  | cons event rest ih =>
    have keeps : KeepsGenerated core (buildEnvelope core type event.1 event.2) := by
      refine Script.Calls.bind (Keeping.ask _) fun _ => ?_
      exact Script.Calls.bind (Keeping.ask _) fun _ => trivial
    constructor
    · refine Script.Calls.bind keeps fun _ => ?_
      exact Script.Calls.bind ih.1 fun _ => trivial
    · have builds : (buildEnvelope core type event.1 event.2).Gives fun _ => True := fun _ _ => trivial
      refine Script.Gives.bind builds fun envelope _ => ?_
      refine Script.Gives.bind ih.2 fun rows others => ?_
      intro row member
      rcases List.mem_cons.mp member with rfl | later
      · trivial
      · exact others row later

theorem insertEvents_generated (type : String) (events : List (Uuid × EventData)) :
    KeepsGenerated core (insertEvents core type events) := by
  unfold insertEvents
  split
  · trivial
  · obtain ⟨keeps, gives⟩ := outboxRows_generated core type events
    refine Script.Calls.bind_gives keeps gives fun rows others => ?_
    exact Script.Calls.bind (Keeping.sql others) fun _ => trivial

theorem upserted_generated (changed : List (Uuid × List String)) :
    KeepsGenerated core (upserted core changed) := by
  unfold upserted
  split
  · trivial
  · exact Script.Calls.bind (Keeping.sql trivial) fun rows => insertEvents_generated _ _

theorem consentRows_generated (core : Core) (consents : List Consent) :
    KeepsGenerated core (consentRows consents) ∧
      (consentRows consents).Gives fun rows => ∀ row ∈ rows, row.Generated core := by
  induction consents with
  | nil => exact ⟨trivial, nofun⟩
  | cons consent rest ih =>
    constructor
    · refine Script.Calls.bind (Keeping.ask _) fun _ => ?_
      exact Script.Calls.bind ih.1 fun _ => trivial
    · refine Script.Gives.bind (fun _ => trivial) fun id _ => ?_
      refine Script.Gives.bind ih.2 fun rows others => ?_
      intro row member
      rcases List.mem_cons.mp member with rfl | later
      · trivial
      · exact others row later

theorem record_generated (explicit : Option ConsentInput) (now : Time) (changes : List ContactChange) :
    KeepsGenerated core (record core explicit now changes) := by
  unfold record
  dsimp only
  split
  · trivial
  · obtain ⟨keeps, gives⟩ := consentRows_generated core (consentsOf explicit now changes)
    refine Script.Calls.bind_gives keeps gives fun rows others => ?_
    refine Script.Calls.bind (Keeping.sql others) fun _ => ?_
    exact insertEvents_generated _ _

theorem writeBody_generated (definitions : Definitions) (valid : List Pending) (source : String)
    (explicit : Option ConsentInput) : KeepsGenerated core
    (writeBody core definitions valid source explicit) := by
  refine Script.Calls.bind (Keeping.ask _) fun now => ?_
  refine Script.Calls.bind (update_plain core now _ source).keeps fun _ => ?_
  refine Script.Calls.bind (insert_plain core now _ source).keeps fun _ => ?_
  refine Script.Calls.bind (syncUniqueValues_plain core definitions _).keeps fun _ => ?_
  refine Script.Calls.bind (record_generated explicit now _) fun _ => ?_
  exact Script.Calls.bind (upserted_generated _) fun _ => trivial

theorem attempt_generated (process : Nat) (keyId : String) (mode : WriteMode) (items : List Item)
    (source : String) (explicit : Option ConsentInput) : KeepsGenerated core
    (attempt core process keyId mode items source explicit) := by
  refine Script.Calls.bind (fields_plain core process).keeps fun definitions => ?_
  refine Script.Calls.bind (resolve_plain core process keyId _).keeps fun found => ?_
  refine Script.Calls.bind (assignIds_plain core mode keyId found _).keeps fun pending => ?_
  refine Script.Calls.bind (checkUnique_plain core process keyId definitions pending).keeps fun pending => ?_
  dsimp only
  split
  · trivial
  · have body (valid : List Pending) : KeepsGenerated core
        (writeBody core definitions valid source explicit) :=
      writeBody_generated definitions valid source explicit
    exact Script.Calls.bind (Keeping.transaction _ (body _)) fun _ => trivial

theorem attempts_generated {run : CoreScript α} (once : KeepsGenerated core run) (more : Nat) :
    KeepsGenerated core (attempts run more) := by
  induction more with
  | zero => exact once
  | succ more ih =>
    refine Script.Calls.handle once fun error => ?_
    split
    · exact ih
    · trivial

theorem write_generated (process : Nat) (keyId : String) (mode : WriteMode) (items : List Item)
    (source : String) (explicit : Option ConsentInput) : KeepsGenerated core
    (write core process keyId mode items source explicit) := by
  have once : KeepsGenerated core (attempt core process keyId mode items source explicit) :=
    attempt_generated process keyId mode items source explicit
  exact Script.Calls.bind (assertKey_plain core process keyId).keeps fun _ => attempts_generated once _

theorem softDelete_generated (ids : List Uuid) : KeepsGenerated core (softDelete core ids) := by
  unfold softDelete
  split
  · trivial
  · apply Keeping.transaction
    refine Script.Calls.bind (Keeping.ask _) fun now => ?_
    refine Script.Calls.bind (PlainScript.keeps (PlainScript.sql (plain_contacts fun _ is => is)))
      fun rows => ?_
    dsimp only
    split
    · trivial
    · refine Script.Calls.bind (Keeping.sql trivial) fun _ => ?_
      exact Script.Calls.bind (insertEvents_generated _ _) fun _ => trivial

theorem change_generated (listId : String) (contactIds : List String) (add : Bool) :
    KeepsGenerated core (change core listId contactIds add) := by
  apply Keeping.transaction
  refine Script.Calls.bind (assertList_plain core listId).keeps fun _ => ?_
  refine Script.Calls.bind (Keeping.sql trivial) fun found => ?_
  dsimp only
  split
  · refine Script.Calls.bind (insertMembers_plain core _ _).keeps fun _ => ?_
    exact Script.Calls.bind (upserted_generated _) fun _ => trivial
  · refine Script.Calls.bind (Keeping.sql trivial) fun _ => ?_
    exact Script.Calls.bind (upserted_generated _) fun _ => trivial

theorem removeList_generated (id : String) : KeepsGenerated core (removeList core id) := by
  apply Keeping.transaction
  refine Script.Calls.bind (assertList_plain core id).keeps fun _ => ?_
  refine Script.Calls.bind (Keeping.sql trivial) fun rows => ?_
  refine Script.Calls.bind (Keeping.sql trivial) fun gone => ?_
  dsimp only
  split
  · exact Script.Calls.bind (Keeping.sql trivial) fun _ => upserted_generated _
  · exact upserted_generated _

theorem forget_generated (contactId : Uuid) : KeepsGenerated core (forget core contactId) := by
  apply Keeping.transaction
  refine Script.Calls.bind (Keeping.sql trivial) fun _ => ?_
  refine Script.Calls.bind (Keeping.sql trivial) fun _ => ?_
  refine Script.Calls.bind (Keeping.sql trivial) fun rows => ?_
  -- both branches end by erasing the texts of the contact's consents
  have ends : KeepsGenerated core (do
      let _ ← sql (.update (Row.isConsent fun consent => consent.contactId == contactId && consent.text.isSome)
        (Row.mapConsent fun consent => { consent with text := none }))
      pure () : CoreScript Unit) := by
    refine Script.Calls.bind (PlainScript.keeps (PlainScript.sql (plain_others ?_ ?_ ?_))) fun _ => trivial
    · exact fun row => by cases row <;> rfl
    · exact fun _ => rfl
    · exact fun _ => rfl
  dsimp only
  split
  · refine Script.Calls.bind (Keeping.sql trivial) fun _ => ?_
    refine Script.Calls.bind (Keeping.sql trivial) fun _ => ?_
    exact Script.Calls.bind (insertEvents_generated _ _) fun _ => ends
  · exact ends

theorem drain_generated : KeepsGenerated core drain := by
  have sends (rows : List OutboxRow) : KeepsGenerated core (sendAll rows) := by
    induction rows with
    | nil => trivial
    | cons row rest ih =>
      refine Script.Calls.bind ?_ fun _ => ih
      refine Script.Calls.bind (Keeping.ask _) fun acknowledged => ?_
      split <;> trivial
  apply Keeping.transaction
  refine Script.Calls.bind (Keeping.sql trivial) fun rows => ?_
  refine Script.Calls.bind (sends _) fun _ => ?_
  split
  · trivial
  · exact Script.Calls.bind (Keeping.sql trivial) fun _ => trivial

theorem discard_generated {script : CoreScript α} (keeps : KeepsGenerated core script) :
    KeepsGenerated core (discard script) :=
  Script.Calls.bind keeps fun _ => trivial

theorem Operation.generated (core : Core) (operation : Operation) :
    KeepsGenerated core (operation.script core) := by
  cases operation with
  | write process keyId mode items source explicit =>
    exact discard_generated (write_generated process keyId mode items source explicit)
  | softDelete ids => exact discard_generated (softDelete_generated ids)
  | change listId contactIds add => exact discard_generated (change_generated listId contactIds add)
  | byKeys process listId keyId values add =>
    apply discard_generated
    refine Script.Calls.bind (Keeping.transaction _ (assertList_plain core listId).keeps) fun _ => ?_
    refine Script.Calls.bind (resolve_plain core process keyId values).keeps fun _ => ?_
    exact Script.Calls.bind (change_generated listId _ add) fun _ => trivial
  | removeList id => exact removeList_generated id
  | forget contactId => exact forget_generated contactId

theorem CoreCall.generated (core : Core) (call : CoreCall) : KeepsGenerated core (call.script core) := by
  cases call with
  | operation operation => exact operation.generated core
  | setConsent process contactId input =>
    refine Script.Calls.bind (write_generated process _ _ _ _ _) fun results => ?_
    split
    · split <;> trivial
    · trivial
  | create process input => exact discard_generated (create_plain core process input).keeps
  | updateField process fieldId input =>
    exact discard_generated (updateField_plain core process fieldId input).keeps
  | remove process fieldId => exact (remove_plain core process fieldId).keeps
  | resolve process keyId values => exact discard_generated (resolve_plain core process keyId values).keeps
  | drain => exact discard_generated drain_generated

end Scripts

abbrev CoreConfig := Interleaving.Config CoreCall (Action Row Label Request)
    (Answer Response) Failure Unit State

/-- The rows of a tenant before its first call. -/
structure Founded (core : Core) (rows : List Row) : Prop where
  apart : rows.Pairwise NoClash
  generated : ∀ row ∈ rows, row.Generated core

-- In every run of any calls: the rows keep the unique indexes and the generated columns.
theorem founded_reaches {core : Core} {rows : List Row} {world : World} {config : CoreConfig}
    (founded : Founded core rows)
    (run : (machine respond).Reaches (CoreCall.script core) {} (.start ⟨.holding rows, world⟩) config) :
    Founded core config.state.server.rows := by
  have kept := rowwise_reaches (CoreCall.generated core) run ⟨sane_holding founded.apart,
    founded.generated, fun _ => nofun⟩
  exact ⟨kept.sane.rows, kept.rows⟩

end OpenEmarsys.Contacts
