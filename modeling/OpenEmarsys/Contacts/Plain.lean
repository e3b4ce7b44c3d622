import OpenEmarsys.Contacts.Fields
import OpenEmarsys.Contacts.Lists
import OpenEmarsys.Postgres.Rowwise

/-! The scripts of core, by the statements they make.

All but those about events are plain: they keep the columns that Postgres generates and leave the
outbox alone. What else is said of the statements of core follows from that, script by script.
-/

set_option autoImplicit false

namespace OpenEmarsys.Contacts

open Javascript Postgres Interleaving

/-- The columns generated from `data` are what their expressions say. -/
def Row.Generated (core : Core) : Row → Prop
  | .contact found => found.emailNorm = core.emailNorm found.data ∧
    found.externalId = Contacts.externalId found.data
  | _ => True

def Plain (core : Core) : Statement Row → Prop
  | .insert rows _ => ∀ row ∈ rows, row.outbox? = none ∧ row.Generated core
  | .update p f => (∀ row, primary (f row) = primary row) ∧ (∀ row, p (.outbox row) = false) ∧
      ∀ row, row.Generated core → (f row).Generated core
  | .delete p => ∀ row, p (.outbox row) = false
  | _ => True

def PlainCall (core : Core) : Action Row Label Request → Prop
  | .exec statement => Plain core statement
  | .other (.publish _) => False
  | _ => True

abbrev PlainScript {α : Type} (core : Core) (script : CoreScript α) : Prop := script.Calls (PlainCall core)

section Rules
variable {core : Core} {α β : Type}

theorem PlainScript.sql {statement : Statement Row} (plain : Plain core statement) :
    PlainScript core (Postgres.sql statement : CoreScript (List Row)) := sql_calls trivial plain

theorem PlainScript.transaction (label : Label) {body : CoreScript α} (plain : PlainScript core body) :
    PlainScript core (Postgres.transaction label body) := transaction_calls trivial trivial trivial plain

theorem PlainScript.call {request : Request} (quiet : ∀ row, request ≠ .publish row) :
    PlainScript core (Contacts.call request) := by
  cases request with
  | publish row => exact absurd rfl (quiet row)
  | _ => exact ⟨trivial, fun _ => trivial⟩

theorem PlainScript.check {p : Prop} [Decidable p] {error : Failure} {next : CoreScript α}
    (plain : PlainScript core next) :
    PlainScript core (if p then throw error else next) := by
  split
  · trivial
  · exact plain

theorem plain_contacts {p : Contact → Bool} {f : Contact → Contact}
    (generated : ∀ contact, (Row.contact contact).Generated core → (Row.contact (f contact)).Generated core) :
    Plain core (.update (Row.isContact p) (Row.mapContact f)) := by
  refine ⟨fun row => by cases row <;> rfl, fun _ => rfl, fun row is => ?_⟩
  cases row with
  | contact contact => exact generated contact is
  | _ => exact is

theorem plain_others {p : Row → Bool} {f : Row → Row} (keyed : ∀ row, primary (f row) = primary row)
    (spares : ∀ row, p (.outbox row) = false)
    (contacts : ∀ contact, f (.contact contact) = .contact contact) :
    Plain core (.update p f) := by
  refine ⟨keyed, spares, fun row is => ?_⟩
  cases changed : f row with
  | contact contact =>
    cases row with
    | contact before => rwa [← changed, contacts before]
    | _ => cases changed ▸ keyed _
  | _ => trivial

end Rules

theorem fields_plain (core : Core) (process : Nat) : PlainScript core (fields process) := by
  refine Script.Calls.bind (PlainScript.call (by simp)) fun found => ?_
  cases found with
  | hit promise =>
    refine Script.Calls.bind (PlainScript.call (by simp)) fun result => ?_
    cases result <;> trivial
  | miss promise =>
    refine Script.Calls.handle (Script.Calls.bind (PlainScript.transaction _ (PlainScript.sql trivial))
      fun rows => ?_) fun error => ?_
    · exact Script.Calls.bind (PlainScript.call (by simp)) fun _ => trivial
    · exact Script.Calls.bind (PlainScript.call (by simp)) fun _ => trivial

theorem checkKey_plain (core : Core) (keyId : String) (definition : Option FieldDefinition) :
    PlainScript core (match definition with
      | some definition =>
          if definition.unique then pure ()
          else throw (.publicApi 2009 s!"key_id {keyId} does not exist or is not unique")
      | none => throw (.publicApi 2009 s!"key_id {keyId} does not exist or is not unique") : CoreScript
          Unit) := by
  cases definition with
  | none => trivial
  | some definition =>
    dsimp only
    split <;> trivial

theorem assertKey_plain (core : Core) (process : Nat) (keyId : String) :
    PlainScript core (assertKey process keyId) := by
  unfold assertKey
  split
  · trivial
  · dsimp only
    split
    · exact Script.Calls.bind (fields_plain core process) fun _ => checkKey_plain core keyId _
    · exact Script.Calls.bind trivial fun _ => checkKey_plain core keyId _

theorem resolve_plain (core : Core) (process : Nat) (keyId : String) (values : List String) :
    PlainScript core (resolve core process keyId values) := by
  refine Script.Calls.bind (assertKey_plain core process keyId) fun _ => ?_
  dsimp only
  split
  · trivial
  · refine Script.Calls.bind (PlainScript.transaction _ ?_) fun found => trivial
    split
    · trivial
    · exact Script.Calls.bind (PlainScript.sql trivial) fun rows => trivial

theorem assignIds_plain (core : Core) (mode : WriteMode) (keyId : String) (found : List (String × Uuid))
    (pending : List Pending) :
    PlainScript core (assignIds mode keyId found pending) := by
  induction pending with
  | nil => trivial
  | cons p rest ih =>
    have ends : ∀ p : Pending, PlainScript core (do
        let rest ← assignIds mode keyId found rest
        pure (p :: rest) : CoreScript (List Pending)) := fun p => Script.Calls.bind ih fun _ => trivial
    unfold assignIds
    dsimp only
    split
    · exact ends p
    · cases found.lookup p.key with
      | some id =>
        dsimp only
        split <;> exact ends _
      | none =>
        dsimp only
        split
        · exact ends _
        · exact Script.Calls.bind (PlainScript.call (by simp)) fun _ => ends _

theorem checkUnique_plain (core : Core) (process : Nat) (keyId : String) (definitions : Definitions)
    (pending : List Pending) :
    PlainScript core (checkUnique core process keyId definitions pending) := by
  induction definitions generalizing pending with
  | nil => trivial
  | cons definition rest ih =>
    unfold checkUnique
    dsimp only
    split
    · exact ih _
    · split
      · exact ih _
      · exact Script.Calls.bind (resolve_plain core process _ _) fun _ => ih _

theorem update_plain (core : Core) (now : Time) (items : List Pending) (source : String) :
    PlainScript core (update core now items source) := by
  have merges : ∀ changes : List ContactChange, PlainScript core (do
      let _ ← sql (.update (Row.isContact fun contact =>
        (changes.map ContactChange.contactId).contains contact.id)
        (Row.mapContact fun contact => Contact.recorded
          { contact.withData core
              (Data.stored ((ofChange changes contact.id ContactChange.after).getD contact.data)) with
            version := contact.version + 1, updatedAt := now }))
      pure changes : CoreScript (List ContactChange)) := fun changes =>
    Script.Calls.bind (PlainScript.sql (plain_contacts fun _ _ => ⟨rfl, rfl⟩)) fun _ => trivial
  unfold update
  split
  · trivial
  · refine Script.Calls.bind (PlainScript.sql trivial) fun rows => PlainScript.check ?_
    dsimp only
    split
    · trivial
    · exact PlainScript.check (merges _)

theorem insert_plain (core : Core) (now : Time) (items : List Pending) (source : String) :
    PlainScript core (insert core now items source) := by
  unfold insert
  split
  · trivial
  · refine PlainScript.check (Script.Calls.bind (PlainScript.sql fun row member => ?_)
      fun inserted => PlainScript.check trivial)
    obtain ⟨change, -, rfl⟩ := List.mem_map.mp member
    exact ⟨rfl, rfl, rfl⟩

theorem checkForeignKey_plain (core : Core) (contactIds : List Uuid) :
    PlainScript core (checkForeignKey contactIds) :=
  Script.Calls.bind (PlainScript.sql trivial) fun _ => PlainScript.check trivial

theorem syncUniqueValues_plain (core : Core) (definitions : Definitions) (changes : List ContactChange) :
    PlainScript core (syncUniqueValues definitions changes) := by
  have fills : PlainScript core (do
      if !(valuesOf definitions changes).isEmpty then
        let inserted ← sql (.insert ((valuesOf definitions changes).map Row.uniqueValue) true)
        checkForeignKey ((inserted.filterMap Row.uniqueValue?).map UniqueValue.contactId)
        if inserted.length ≠ (valuesOf definitions changes).length
          then throw (.retry "a unique value was taken concurrently")
      : CoreScript Unit) := by
    split
    · refine Script.Calls.bind (PlainScript.sql fun row member => ?_) fun inserted => ?_
      · obtain ⟨value, -, rfl⟩ := List.mem_map.mp member
        exact ⟨rfl, trivial⟩
      · refine Script.Calls.bind (checkForeignKey_plain core _) fun _ => ?_
        exact PlainScript.check trivial
    · trivial
  unfold syncUniqueValues
  dsimp only
  split
  · exact Script.Calls.bind (PlainScript.sql fun _ => rfl) fun _ => fills
  · exact fills

theorem assertList_plain (core : Core) (id : String) : PlainScript core (assertList id) := by
  have checks : ∀ rows : List Row,
      PlainScript core (if rows.isEmpty then throw (.notFound "list not found")
          else pure () : CoreScript Unit) :=
    fun rows => PlainScript.check trivial
  unfold assertList
  split
  · exact Script.Calls.bind (PlainScript.sql trivial) checks
  · exact checks []

theorem insertMembers_plain (core : Core) (listId : Uuid) (contacts : List Uuid) :
    PlainScript core (insertMembers listId contacts) := by
  refine Script.Calls.bind (PlainScript.sql fun row member => ?_) fun rows => ?_
  · obtain ⟨contact, -, rfl⟩ := List.mem_map.mp member
    exact ⟨rfl, trivial⟩
  · refine Script.Calls.bind (PlainScript.sql trivial) fun lists => ?_
    exact PlainScript.check (Script.Calls.bind (checkForeignKey_plain core _) fun _ => trivial)

theorem invalidating_plain {α : Type} (core : Core) (process : Nat) (apiName : String) {body : CoreScript α}
    (plain : PlainScript core body) :
    PlainScript core (invalidating process apiName body) := by
  refine Script.Calls.bind (Script.Calls.handle plain fun error => ?_) fun result => ?_
  · exact Script.Calls.bind (PlainScript.call (by simp)) fun _ => trivial
  · exact Script.Calls.bind (PlainScript.call (by simp)) fun _ => trivial

theorem nextCustomFieldId_plain (core : Core) : PlainScript core nextCustomFieldId := by
  refine Script.Calls.bind (PlainScript.sql (plain_others (fun row => by cases row <;> rfl) (fun _ => rfl)
    fun _ => rfl)) fun updated => ?_
  dsimp only
  split
  · refine Script.Calls.bind (PlainScript.sql fun row member => ?_) fun inserted => ?_
    · rw [List.mem_singleton.mp member]
      exact ⟨rfl, trivial⟩
    · split
      · refine Script.Calls.bind (PlainScript.sql (plain_others (fun row => by cases row <;> rfl)
          (fun _ => rfl) fun _ => rfl)) fun rows => ?_
        split <;> trivial
      · refine Script.Calls.bind trivial fun rows => ?_
        split <;> trivial
  · refine Script.Calls.bind trivial fun rows => ?_
    split <;> trivial

theorem create_plain (core : Core) (process : Nat) (input : FieldCreate) :
    PlainScript core (create process input) := by
  refine invalidating_plain core process _ (PlainScript.transaction _
    (Script.Calls.bind (nextCustomFieldId_plain core) fun id => ?_))
  refine Script.Calls.bind (PlainScript.sql fun row member => ?_) fun _ => trivial
  rw [List.mem_singleton.mp member]
  exact ⟨rfl, trivial⟩

theorem findDefinition_plain (core : Core) (fieldId : Nat) : PlainScript core (findDefinition fieldId) := by
  refine Script.Calls.bind (PlainScript.sql trivial) fun rows => ?_
  split <;> trivial

theorem checkUnused_plain (core : Core) (fieldId : Nat) (choices : List Choice) :
    PlainScript core (checkUnused fieldId choices) := by
  induction choices with
  | nil => trivial
  | cons gone rest ih =>
    exact PlainScript.check (Script.Calls.bind (PlainScript.sql trivial) fun used => PlainScript.check ih)

theorem newChoices_plain (core : Core) (definition : FieldDefinition) (fieldId : Nat)
    (input : List ChoiceInput) :
    PlainScript core (newChoices definition fieldId input) :=
  PlainScript.check (PlainScript.check (Script.Calls.bind (checkUnused_plain core _ _) fun _ => trivial))

theorem setDefinition_plain (core : Core) (fieldId : Nat) (f : FieldDefinition → FieldDefinition) :
    PlainScript core (setDefinition fieldId f) := by
  refine Script.Calls.bind (PlainScript.sql (plain_others (fun row => by cases row <;> rfl) (fun _ => rfl)
    fun _ => rfl)) fun rows => ?_
  split <;> trivial

theorem updateField_plain (core : Core) (process fieldId : Nat) (input : FieldUpdate) :
    PlainScript core (updateField process fieldId input) := by
  refine invalidating_plain core process _ (PlainScript.transaction _
    (Script.Calls.bind (findDefinition_plain core _) fun definition => ?_))
  refine PlainScript.check ?_
  dsimp only
  split
  · exact Script.Calls.bind (newChoices_plain core definition _ _) fun _ => setDefinition_plain core _ _
  · exact setDefinition_plain core _ _

theorem purge_plain (core : Core) (fieldId : Nat) : PlainScript core (purge core fieldId) := by
  apply PlainScript.transaction
  refine Script.Calls.bind (PlainScript.sql (plain_contacts fun _ _ => ⟨rfl, rfl⟩)) fun _ => ?_
  exact Script.Calls.bind (PlainScript.sql fun _ => rfl) fun _ => trivial

theorem remove_plain (core : Core) (process fieldId : Nat) :
    PlainScript core (remove core process fieldId) := by
  refine Script.Calls.bind (PlainScript.transaction _ (findDefinition_plain core _))
    fun definition => PlainScript.check ?_
  refine Script.Calls.bind (PlainScript.call (by simp)) fun now => ?_
  refine Script.Calls.bind (PlainScript.transaction _ (setDefinition_plain core _ _)) fun _ => ?_
  exact Script.Calls.bind (PlainScript.call (by simp)) fun _ =>
    Script.Calls.handle (purge_plain core _) fun _ => trivial

end OpenEmarsys.Contacts
