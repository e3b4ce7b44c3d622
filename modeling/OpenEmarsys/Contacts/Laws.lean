import OpenEmarsys.Contacts.Generated
import OpenEmarsys.Postgres.Lawful

/-! What may become of the rows of a tenant, and what events tell of them.

Contacts, consents, field definitions and the counter of field IDs are there for good, but for
the contacts that are `erased`; an event is backed by such a row, as it was or later.
-/

set_option autoImplicit false

namespace OpenEmarsys.Contacts

open Javascript Postgres

/-- A contact later on. Without a new version only keys have gone, and what was written with the versions so
far stays on record. -/
structure Contact.Before (contact later : Contact) : Prop where
  id : later.id = contact.id
  createdAt : later.createdAt = contact.createdAt
  version : contact.version ≤ later.version
  deleted : ∀ time, contact.deletedAt = some time → later.deletedAt = some time
  same : later.version = contact.version → later.updatedAt = contact.updatedAt ∧
    later.deletedAt = contact.deletedAt ∧
    ∀ key, later.data key = contact.data key ∨ later.data key = none
  past : ∃ since, later.past = since ++ contact.past ∧ later.version = contact.version + since.length

/-- A consent later on: only its text may have been erased, with the contact. -/
structure Consent.Before (erased : Uuid → Prop) (consent later : Consent) : Prop where
  same : later = { consent with text := later.text }
  text : later.text = consent.text ∨ erased consent.contactId ∧ later.text = none

def optionName (choices : List Choice) (id : Nat) : Option String :=
  (choices.find? fun choice => choice.id == id).map Choice.api_name

/-- A definition later on. Those of system fields keep their name and their options. -/
structure FieldDefinition.Before (definition later : FieldDefinition) : Prop where
  fieldId : later.fieldId = definition.fieldId
  type : later.type = definition.type
  isSystem : later.isSystem = definition.isSystem
  unique : later.unique = definition.unique
  readOnly : later.readOnly = definition.readOnly
  deleted : definition.deletedAt.isSome = true → later.deletedAt.isSome = true
  system : definition.isSystem = true → later.apiName = definition.apiName ∧
    later.deletedAt = definition.deletedAt ∧
    optionName later.choices = optionName definition.choices

theorem Contact.Before.refl (contact : Contact) : contact.Before contact :=
  ⟨rfl, rfl, Nat.le_refl _, fun _ is => is, fun _ => ⟨rfl, rfl, fun _ => .inl rfl⟩, [], rfl, rfl⟩

theorem Contact.Before.trans {first second third : Contact} (here : first.Before second)
    (there : second.Before third) :
    first.Before third := by
  refine ⟨there.id.trans here.id, there.createdAt.trans here.createdAt,
    Nat.le_trans here.version there.version,
    fun time is => there.deleted time (here.deleted time is), fun same => ?_, ?_⟩
  · have middle : second.version = first.version := Nat.le_antisymm (same ▸ there.version) here.version
    obtain ⟨updated, deleted, data⟩ := here.same middle
    obtain ⟨later, gone, left⟩ := there.same (same.trans middle.symm)
    refine ⟨later.trans updated, gone.trans deleted, fun key => ?_⟩
    rcases left key with kept | purged
    · rw [kept]
      exact data key
    · exact .inr purged
  · obtain ⟨since, grown, versions⟩ := here.past
    obtain ⟨more, later, versions'⟩ := there.past
    exact ⟨more ++ since,
      by rw [later, grown, List.append_assoc], by rw [versions', versions, List.length_append]; omega⟩

theorem before_recorded {contact later : Contact} (id : later.id = contact.id)
    (createdAt : later.createdAt = contact.createdAt)
    (version : later.version = contact.version + 1) (past : later.past = later.data :: contact.past)
    (deleted : ∀ time, contact.deletedAt = some time → later.deletedAt = some time) :
    contact.Before later := by
  refine ⟨id, createdAt, version ▸ Nat.le_succ _, deleted, fun same => ?_, [later.data], past, version⟩
  exact absurd (version.symm.trans same) (Nat.succ_ne_self _)

theorem dataAt_recorded {contact : Contact} {version : Nat} {data : Data} {past : List Data}
    (is : contact.version = version)
    (recorded : contact.past = data :: past) : contact.dataAt version = some data := by
  rw [Contact.dataAt, is, if_pos (Nat.le_refl _), Nat.sub_self, recorded, List.getElem?_cons_zero]

theorem Contact.Before.dataAt {contact later : Contact} (before : contact.Before later) {version : Nat}
    {data : Data} (is : contact.dataAt version = some data) : later.dataAt version = some data := by
  obtain ⟨since, grown, versions⟩ := before.past
  rw [Contact.dataAt] at is ⊢
  split at is
  · next atMost =>
    have beyond : later.version - version = since.length + (contact.version - version) := by omega
    rw [if_pos (Nat.le_trans atMost before.version), grown, beyond,
      List.getElem?_append_right (Nat.le_add_right ..),
      Nat.add_sub_cancel_left]
    exact is
  · cases is

theorem Consent.Before.refl (erased : Uuid → Prop) (consent : Consent) :
    consent.Before erased consent := ⟨rfl, .inl rfl⟩

theorem Consent.Before.trans {erased : Uuid → Prop} {first second third : Consent}
    (here : first.Before erased second)
    (there : second.Before erased third) : first.Before erased third := by
  have contactId : second.contactId = first.contactId := by rw [here.same]
  refine ⟨by rw [there.same, here.same], ?_⟩
  rcases there.text with kept | ⟨gone, none_⟩
  · rw [kept]
    exact here.text
  · exact .inr ⟨contactId ▸ gone, none_⟩

theorem FieldDefinition.Before.refl (definition : FieldDefinition) : definition.Before definition :=
  ⟨rfl, rfl, rfl, rfl, rfl, fun deleted => deleted, fun _ => ⟨rfl, rfl, rfl⟩⟩

theorem FieldDefinition.Before.trans {first second third : FieldDefinition} (here : first.Before second)
    (there : second.Before third) : first.Before third := by
  refine ⟨there.fieldId.trans here.fieldId, there.type.trans here.type, there.isSystem.trans here.isSystem,
      there.unique.trans here.unique, there.readOnly.trans here.readOnly,
      fun deleted => there.deleted (here.deleted deleted),
    fun system => ?_⟩
  obtain ⟨name, gone, options⟩ := here.system system
  obtain ⟨later, left, kept⟩ := there.system (here.isSystem.trans system)
  exact ⟨later.trans name, left.trans gone, kept.trans options⟩

def Row.Stays (erased : Uuid → Prop) : Row → Prop
  | .contact found => ¬ erased found.id
  | .consent _ | .definition _ | .counter _ => True
  | _ => False

inductive Row.Before (erased : Uuid → Prop) : Row → Row → Prop where
  | same (row : Row) : Row.Before erased row row
  | contact {before later : Contact} : before.Before later →
    Row.Before erased (.contact before) (.contact later)
  | consent {before later : Consent} : before.Before erased later →
    Row.Before erased (.consent before) (.consent later)
  | definition {before later : FieldDefinition} : before.Before later →
    Row.Before erased (.definition before) (.definition later)
  | counter {before later : Nat} : before ≤ later → Row.Before erased (.counter before) (.counter later)

def evolution (erased : Uuid → Prop) : Evolution Row where
  Stays := Row.Stays erased
  Before := Row.Before erased
  keyed before := by
    cases before with
    | same => rfl
    | contact is => exact congrArg IndexKey.contact is.id.symm
    | consent is => exact congrArg IndexKey.consent (by rw [is.same])
    | definition is => exact congrArg IndexKey.definition is.fieldId.symm
    | counter => rfl
  refl row := .same row
  trans here there := by
    cases here with
    | same => exact there
    | contact is =>
      cases there with
      | same => exact .contact is
      | contact more => exact .contact (is.trans more)
    | consent is =>
      cases there with
      | same => exact .consent is
      | consent more => exact .consent (is.trans more)
    | definition is =>
      cases there with
      | same => exact .definition is
      | definition more => exact .definition (is.trans more)
    | counter is =>
      cases there with
      | same => exact .counter is
      | counter more => exact .counter (Nat.le_trans is more)

section Later
variable {erased : Uuid → Prop} {rows next : List Row}

theorem later_contact (forward : Forward (evolution erased) rows next) {contact : Contact}
    (member : .contact contact ∈ rows)
    (stays : ¬ erased contact.id) : ∃ later, .contact later ∈ next ∧ contact.Before later := by
  obtain ⟨now, present, -, before⟩ := forward _ member stays
  cases before with
  | same => exact ⟨contact, present, .refl contact⟩
  | contact is => exact ⟨_, present, is⟩

theorem later_consent (forward : Forward (evolution erased) rows next) {consent : Consent}
    (member : .consent consent ∈ rows) :
    ∃ later, .consent later ∈ next ∧ consent.Before erased later := by
  obtain ⟨now, present, -, before⟩ := forward _ member trivial
  cases before with
  | same => exact ⟨consent, present, .refl erased consent⟩
  | consent is => exact ⟨_, present, is⟩

theorem later_definition (forward : Forward (evolution erased) rows next) {definition : FieldDefinition}
    (member : .definition definition ∈ rows) : ∃ later, .definition later ∈ next ∧
    definition.Before later := by
  obtain ⟨now, present, -, before⟩ := forward _ member trivial
  cases before with
  | same => exact ⟨definition, present, .refl definition⟩
  | definition is => exact ⟨_, present, is⟩

theorem later_counter (forward : Forward (evolution erased) rows next) {lastId : Nat}
    (member : .counter lastId ∈ rows) :
    ∃ later, .counter later ∈ next ∧ lastId ≤ later := by
  obtain ⟨now, present, -, before⟩ := forward _ member trivial
  cases before with
  | same => exact ⟨lastId, present, Nat.le_refl _⟩
  | counter is => exact ⟨_, present, is⟩

end Later

/-! ## What is written -/

def Purged (rows : List Row) (key : String) : Prop :=
  ∃ definition, .definition definition ∈ rows ∧ toString definition.fieldId = key ∧
    definition.deletedAt.isSome = true

/-- Data as it was written, but for keys of deleted fields that have gone since. -/
def Remains (rows : List Row) (written data : Data) : Prop :=
  ∀ key, data key = written key ∨ data key = none ∧ Purged rows key

/-- A contact has what was written with its version. -/
def Intact (rows : List Row) (contact : Contact) : Prop :=
  ∃ written, contact.dataAt contact.version = some written ∧ Remains rows written contact.data

section Written
variable {erased : Uuid → Prop} {rows next : List Row} {contact : Contact}

theorem Purged.forward (forward : Forward (evolution erased) rows next) {key : String}
    (purged : Purged rows key) : Purged next key := by
  obtain ⟨definition, member, is, gone⟩ := purged
  obtain ⟨later, present, before⟩ := later_definition forward member
  exact ⟨later, present, by rw [before.fieldId, is], before.deleted gone⟩

theorem Remains.refl (rows : List Row) (data : Data) : Remains rows data data := fun _ => .inl rfl

theorem Remains.forward (forward : Forward (evolution erased) rows next) {written data : Data}
    (remains : Remains rows written data) :
    Remains next written data := by
  intro key
  exact (remains key).imp_right fun ⟨gone, purged⟩ => ⟨gone, purged.forward forward⟩

theorem Intact.forward (forward : Forward (evolution erased) rows next) (intact : Intact rows contact) :
    Intact next contact := by
  obtain ⟨written, at_, remains⟩ := intact
  exact ⟨written, at_, remains.forward forward⟩

theorem intact_recorded (rows : List Row) {past : List Data}
    (recorded : contact.past = contact.data :: past) : Intact rows contact :=
  ⟨contact.data, dataAt_recorded rfl recorded, .refl rows contact.data⟩

-- Between two states of a contact with one version, only keys of deleted fields have gone.
theorem Contact.Before.remains {later : Contact} (before : contact.Before later)
    (same : later.version = contact.version)
    (intact : Intact rows contact) (now : Intact rows later) : Remains rows contact.data later.data := by
  obtain ⟨written, at_, remains⟩ := intact
  obtain ⟨still, at', remains'⟩ := now
  -- both are what is left of the same data
  have equal : still = written := by
    have kept := before.dataAt at_
    rw [← same, at'] at kept
    exact Option.some.inj kept
  subst equal
  intro key
  rcases (before.same same).2.2 key with kept | gone
  · exact .inl kept
  · rcases remains' key with full | purged
    · rcases remains key with was | ⟨already, purged⟩
      · exact .inl (full.trans was.symm)
      · exact .inr ⟨gone, purged⟩
    · exact .inr purged

end Written

def EventData.type : EventData → String
  | .upserted .. => "contacts.upserted"
  | .deleted _ => "contacts.deleted"
  | .consentChanged .. => "consent.changed"

/-- A message is about the tenant, under its subject, and carries what its type says. -/
structure Sealed (core : Core) (row : OutboxRow) : Prop where
  id : row.id = row.envelope.id
  type : row.envelope.type = row.envelope.data.type
  tenant : row.envelope.tenant_id = core.tenantId
  source : row.envelope.source = core.source
  subject : row.subject = subjectFor row.envelope.type core.tenantId

/-- The fields of an event are those the contact was given with the version, but for keys of fields deleted
by then; two stand for columns of the row. -/
structure Carries (rows : List Row) (version : Nat) (fields : Data) (contact : Contact) : Prop where
  written : ∃ written, contact.dataAt version = some written ∧
    ∀ key, key ≠ "40" → key ≠ "41" → fields key = written key ∨ fields key = none ∧ Purged rows key
  createdAt : fields "40" = some (.string (toISOString contact.createdAt))
  updatedAt : contact.version = version → fields "41" = some (.string (toISOString contact.updatedAt))

/-- The rows bear out what an event says of a contact. -/
def Told (rows : List Row) (contactId : Uuid) : EventData → Prop
  | .upserted version fields _ _ => ∃ contact, .contact contact ∈ rows ∧ contact.id = contactId ∧
      version ≤ contact.version ∧
      Carries rows version fields contact
  | .deleted _ => ∃ contact, .contact contact ∈ rows ∧ contact.id = contactId ∧
    contact.deletedAt.isSome = true
  | .consentChanged channel value source text => ∃ consent, .consent consent ∈ rows ∧
      consent.contactId = contactId ∧
      consent.channel = channel ∧ consent.value = value ∧ consent.source = source ∧ consent.text = text

/-- A message says nothing of a contact that is not erased but what the rows bear out. -/
structure Backed (core : Core) (erased : Uuid → Prop) (rows : List Row) (row : OutboxRow) : Prop where
  is_sealed : Sealed core row
  told : ¬ erased row.envelope.contact_id → Told rows row.envelope.contact_id row.envelope.data

theorem Told.forward {erased : Uuid → Prop} {rows next : List Row}
    (forward : Forward (evolution erased) rows next)
    {contactId : Uuid} (stays : ¬ erased contactId) {data : EventData} (told : Told rows contactId data) :
    Told next contactId data := by
  cases data with
  | upserted version fields changed lists =>
    obtain ⟨contact, member, same, atMost, carries⟩ := told
    obtain ⟨later, present, before⟩ := later_contact forward member (same ▸ stays)
    obtain ⟨written, at_, are⟩ := carries.written
    refine ⟨later, present, before.id.trans same, Nat.le_trans atMost before.version,
      ⟨written, before.dataAt at_, fun key not40 not41 => ?_⟩, ?_, fun is => ?_⟩
    · exact (are key not40 not41).imp_right fun ⟨gone, purged⟩ => ⟨gone, purged.forward forward⟩
    · rw [before.createdAt]
      exact carries.createdAt
    · have still : contact.version = version := Nat.le_antisymm (is ▸ before.version) atMost
      rw [(before.same (is.trans still.symm)).1]
      exact carries.updatedAt still
  | deleted reason =>
    obtain ⟨contact, member, same, gone⟩ := told
    obtain ⟨later, present, before⟩ := later_contact forward member (same ▸ stays)
    obtain ⟨time, is⟩ := Option.isSome_iff_exists.mp gone
    exact ⟨later, present, before.id.trans same, by rw [before.deleted time is]; rfl⟩
  | consentChanged channel value source text =>
    obtain ⟨consent, member, same, ofChannel, ofValue, ofSource, ofText⟩ := told
    obtain ⟨later, present, before⟩ := later_consent forward member
    have kept : later.text = consent.text := before.text.resolve_right fun gone => stays (same ▸ gone.1)
    have whole : later = consent := by rw [before.same, kept]
    exact ⟨later, present, whole ▸ same, whole ▸ ofChannel, whole ▸ ofValue, whole ▸ ofSource, whole ▸ ofText⟩

def Counted (rows : List Row) (definition : FieldDefinition) : Prop :=
  definition.isSystem = false → 1000 ≤ definition.fieldId ∧ ∃ lastId, .counter lastId ∈ rows ∧
    definition.fieldId ≤ lastId

def law (core : Core) (erased : Uuid → Prop) : Law Row where
  toEvolution := evolution erased
  Holds rows
    | .contact contact => Intact rows contact
    | .outbox row => Backed core erased rows row
    | .definition definition => Counted rows definition
    | .counter lastId => 1000 ≤ lastId
    | _ => True
  forward := by
    intro rows next row forward holds
    cases row with
    | contact contact => exact Intact.forward forward holds
    | outbox row => exact ⟨holds.is_sealed, fun stays => (holds.told stays).forward forward stays⟩
    | definition definition =>
      intro custom
      obtain ⟨least, lastId, member, atMost⟩ := holds custom
      obtain ⟨later, present, grown⟩ := later_counter forward member
      exact ⟨least, later, present, Nat.le_trans atMost grown⟩
    | counter lastId => exact holds
    | _ => trivial

def emitted : Request → Option Row
  | .publish row => some (.outbox row)
  | _ => none

def Streamed (world : World) (row : Row) : Prop := ∃ message ∈ world.stream, row = .outbox message

theorem streamed_store {world : World} {sent : OutboxRow} {row : Row}
    (streamed : Streamed (world.store sent) row) :
    Streamed world row ∨ row = .outbox sent := by
  obtain ⟨message, member, rfl⟩ := streamed
  unfold World.store at member
  split at member
  · exact .inl ⟨message, member, rfl⟩
  · rcases List.mem_append.mp member with old | new
    · exact .inl ⟨message, old, rfl⟩
    · exact .inr (by rw [List.mem_singleton.mp new])

theorem respond_faithful (tid : Tid) (request : Request) (choice : Choices) (shared : State)
    (reply : Response request) (world : World)
    (answered : respond tid request choice shared = some (reply, world)) (row : Row)
    (streamed : Streamed world row) :
    Streamed shared.world row ∨ emitted request = some row := by
  cases request with
  | publish sent =>
    cases choice with
    | delivery arrives acknowledged =>
      cases answered
      cases arrives with
      | true =>
        rcases streamed_store streamed with before | rfl
        · exact .inl before
        · exact .inr rfl
      | false => exact .inl streamed
    | _ => cases answered
  | uuidv7 =>
    cases choice with
    | uuid ms a b =>
      simp only [respond] at answered
      split at answered
      · cases answered
      · cases answered
        exact .inl streamed
    | _ => cases answered
  | now =>
    cases choice with
    | time now =>
      cases answered
      exact .inl streamed
    | _ => cases answered
  | lookup process =>
    simp only [respond] at answered
    split at answered <;> cases answered <;> exact .inl streamed
  | settled promise =>
    simp only [respond] at answered
    split at answered <;> cases answered
    exact .inl streamed
  | settle process promise result =>
    cases answered
    exact .inl streamed
  | invalidate process =>
    cases answered
    exact .inl streamed

/-! ## Statements -/

section Statements
variable {core : Core} {erased : Uuid → Prop} {known : List Row}

-- What is known of a definition: it is there in a later version.
theorem knows_definition {rows : List Row} (knows : (law core erased).Knows rows known)
    {definition : FieldDefinition}
    (read : .definition definition ∈ known) : ∃ later, .definition later ∈ rows ∧
    definition.Before later := by
  obtain ⟨now, present, -, before⟩ := (knows _ read).there trivial
  cases before with
  | same => exact ⟨definition, present, .refl definition⟩
  | definition is => exact ⟨_, present, is⟩

theorem obeys_contacts {p : Contact → Bool} {f : Contact → Contact}
    (advances : ∀ contact, p contact = true → contact.Before { f contact with id := contact.id })
    (writes : ∀ rows, (law core erased).Knows rows known → ∀ contact, Intact rows contact →
      Intact rows { f contact with id := contact.id }) :
    Statement.Obeys (law core erased) known (.update (Row.isContact p) (Row.mapContact f)) := by
  refine ⟨fun row => by cases row <;> rfl, fun row _ holds => ?_⟩
  cases row with
  | contact contact =>
    exact ⟨fun stays => ⟨stays, .contact (advances contact holds)⟩,
      fun rows knows intact => writes rows knows contact intact⟩
  | _ => cases holds

theorem obeys_merge (p : Contact → Bool) (data : Contact → Data) (now : Time) :
    Statement.Obeys (law core erased) known
    (.update (Row.isContact p) (Row.mapContact fun contact => Contact.recorded
      { contact.withData core (data contact) with version := contact.version + 1, updatedAt := now })) :=
  obeys_contacts (fun _ _ => before_recorded rfl rfl rfl rfl fun _ is => is)
    fun rows _ _ _ => intact_recorded rows rfl

theorem obeys_softDelete (ids : List Uuid) (now : Time) :
    Statement.Obeys (law core erased) known
    (.update (Row.isContact fun contact => contact.deletedAt.isNone && ids.contains contact.id)
      (Row.mapContact fun contact => Contact.recorded
        { contact with deletedAt := some now, updatedAt := now, version := contact.version + 1 })) := by
  refine obeys_contacts (fun contact holds => before_recorded rfl rfl rfl rfl
      fun time is => ?_) fun rows _ _ _ =>
    intact_recorded rows rfl
  simp [is] at holds

-- The keys that are purged are those of a field which is known to be deleted.
theorem obeys_purge (p : Contact → Bool) {definition : FieldDefinition}
    (read : .definition definition ∈ known)
    (gone : definition.deletedAt.isSome = true) :
    Statement.Obeys (law core erased) known (.update (Row.isContact p)
      (Row.mapContact fun contact => contact.withData core
        (contact.data.erase (toString definition.fieldId)))) := by
  refine obeys_contacts (fun contact _ => ⟨rfl, rfl, Nat.le_refl _, fun _ is => is,
    fun _ => ⟨rfl, rfl, fun other => ?_⟩, [], rfl, rfl⟩)
    fun rows knows contact intact => ?_
  · by_cases same : other = toString definition.fieldId
    · subst same
      exact .inr (Function.update_self ..)
    · exact .inl (Function.update_of_ne same ..)
  · obtain ⟨written, at_, remains⟩ := intact
    obtain ⟨later, present, before⟩ := knows_definition knows read
    refine ⟨written, at_, fun other => ?_⟩
    by_cases same : other = toString definition.fieldId
    · subst same
      exact .inr ⟨Function.update_self .., later, present, by rw [before.fieldId], before.deleted gone⟩
    · have kept : (contact.data.erase (toString definition.fieldId)) other = contact.data other :=
        Function.update_of_ne same ..
      rcases remains other with same | purged
      · exact .inl (kept.trans same)
      · exact .inr ⟨kept.trans purged.1, purged.2⟩

theorem obeys_redact {contactId : Uuid} (erases : erased contactId) (p : Consent → Bool)
    (within : ∀ consent, p consent = true → consent.contactId = contactId) :
    Statement.Obeys (law core erased) known
    (.update (Row.isConsent p) (Row.mapConsent fun consent => { consent with text := none })) := by
  refine ⟨fun row => by cases row <;> rfl, fun row _ holds => ?_⟩
  cases row with
  | consent consent =>
    exact ⟨fun stays => ⟨stays, .consent ⟨rfl, .inr ⟨within consent holds ▸ erases, rfl⟩⟩⟩, fun _ _ is => is⟩
  | _ => cases holds

theorem obeys_definition {before : FieldDefinition} (read : .definition before ∈ known)
    {f : FieldDefinition → FieldDefinition}
    (advances : ∀ definition, before.Before definition →
      definition.Before { f definition with fieldId := definition.fieldId }) :
    Statement.Obeys (law core erased) known
      (.update (Row.isDefinition fun definition => definition.fieldId == before.fieldId)
        (Row.mapDefinition f)) := by
  refine ⟨fun row => by cases row <;> rfl, fun row succeeds holds => ?_⟩
  cases row with
  | definition definition =>
    have sameId : definition.fieldId = before.fieldId := by
      simpa [Row.isDefinition, Row.definition?] using holds
    have since : before.Before definition := by
      have became := succeeds _ read trivial (congrArg IndexKey.definition sameId.symm)
      cases became with
      | same => exact .refl before
      | definition is => exact is
    have advanced := advances definition since
    refine ⟨fun stays => ⟨stays, .definition advanced⟩, fun rows _ counted custom => ?_⟩
    exact counted (advanced.isSystem.symm.trans custom)
  | _ => cases holds

theorem obeys_count {next : Row → Row} (counts : ∀ lastId, next (.counter lastId) = .counter (lastId + 1))
    (keyed : ∀ row, primary (next row) = primary row) :
    Statement.Obeys (law core erased) known (.update Row.isCounter next) := by
  refine ⟨keyed, fun row _ holds => ?_⟩
  cases row with
  | counter lastId =>
    rw [counts]
    exact ⟨fun stays => ⟨stays, .counter (Nat.le_succ lastId)⟩, fun _ _ least => Nat.le_succ_of_le least⟩
  | _ => cases holds

theorem obeys_delete {p : Row → Bool} (leaves : ∀ row, p row = true → ¬ row.Stays erased) :
    Statement.Obeys (law core erased) known (.delete p) := leaves

theorem leaves_uniqueValue (p : UniqueValue → Bool) (row : Row) (holds : Row.isUniqueValue p row = true) :
    ¬ row.Stays erased := by
  cases row with
  | uniqueValue value => exact id
  | _ => cases holds

theorem leaves_member (p : ListMember → Bool) (row : Row) (holds : Row.isMember p row = true) :
    ¬ row.Stays erased := by
  cases row with
  | member member => exact id
  | _ => cases holds

theorem leaves_list (p : ContactList → Bool) (row : Row) (holds : Row.isList p row = true) :
    ¬ row.Stays erased := by
  cases row with
  | list list => exact id
  | _ => cases holds

theorem leaves_outbox (p : OutboxRow → Bool) (row : Row) (holds : Row.isOutbox p row = true) :
    ¬ row.Stays erased := by
  cases row with
  | outbox row => exact id
  | _ => cases holds

end Statements

end OpenEmarsys.Contacts
