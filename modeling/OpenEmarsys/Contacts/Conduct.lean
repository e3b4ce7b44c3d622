import OpenEmarsys.Contacts.Laws

/-! The calls of core obey the law, script by script.

What a script has read or written it knows from then on; that is what the events it inserts, the IDs
it gives to fields and the definitions it changes rest on.
-/

set_option autoImplicit false

namespace OpenEmarsys.Contacts

open Javascript Postgres Interleaving

abbrev Within {α : Type} (core : Core) (erased : Uuid → Prop) (script : CoreScript α) : Prop :=
  Inside (law core erased) emitted script

abbrev Conducts {α : Type} (core : Core) (erased : Uuid → Prop) (script : CoreScript α) : Prop :=
  Outside (law core erased) emitted script

section Conduct
variable {core : Core} {erased : Uuid → Prop} {α β : Type}

theorem within_select (p : Row → Bool) : Within core erased (sql (.select p)) := Inside.sql fun _ => trivial

theorem within_lockRows (p : Row → Bool) : Within core erased (sql (.lockRows p)) :=
  Inside.sql fun _ => trivial

theorem within_shareKey (p : Row → Bool) : Within core erased (sql (.shareKey p)) :=
  Inside.sql fun _ => trivial

theorem within_throw (error : Failure) : Within core erased (throw error : CoreScript α) := Inside.fail error

theorem within_pure (value : α) : Within core erased (pure value : CoreScript α) := Inside.ret value

theorem within_check {p : Prop} [Decidable p] {error : Failure} {next : CoreScript α}
    (within : Within core erased next) :
    Within core erased (if p then throw error else next) := Inside.check within

theorem conducts_throw (error : Failure) : Conducts core erased
    (throw error : CoreScript α) := Outside.fail error

theorem conducts_pure (value : α) : Conducts core erased (pure value : CoreScript α) := Outside.ret value

theorem conducts_discard {script : CoreScript α} (conducts : Conducts core erased script) :
    Conducts core erased (discard script) :=
  conducts.bind fun _ => conducts_pure ()

theorem fields_conducts (process : Nat) : Conducts core erased (fields process) := by
  refine Outside.bind (Outside.ask rfl) fun found => ?_
  cases found with
  | hit promise =>
    refine Outside.bind (Outside.ask rfl) fun result => ?_
    cases result with
    | some definitions => exact conducts_pure definitions
    | none => exact conducts_throw _
  | miss promise =>
    refine Outside.handle (Outside.bind (Outside.transaction _ (within_select _))
      fun rows => ?_) fun error => ?_
    · exact Outside.bind (Outside.ask rfl) fun _ => conducts_pure _
    · exact Outside.bind (Outside.ask rfl) fun _ => conducts_throw _

theorem checkKey_conducts (keyId : String) (definition : Option FieldDefinition) :
    Conducts core erased (match definition with
      | some definition =>
          if definition.unique then pure ()
          else throw (.publicApi 2009 s!"key_id {keyId} does not exist or is not unique")
      | none => throw (.publicApi 2009 s!"key_id {keyId} does not exist or is not unique") : CoreScript
          Unit) := by
  cases definition with
  | none => exact conducts_throw _
  | some definition =>
    dsimp only
    split
    · exact conducts_pure ()
    · exact conducts_throw _

theorem assertKey_conducts (process : Nat) (keyId : String) :
    Conducts core erased (assertKey process keyId) := by
  unfold assertKey
  split
  · exact conducts_pure ()
  · dsimp only
    split
    · exact Outside.bind (fields_conducts process) fun _ => checkKey_conducts keyId _
    · exact Outside.bind (conducts_pure _) fun _ => checkKey_conducts keyId _

theorem resolve_conducts (process : Nat) (keyId : String) (values : List String) :
    Conducts core erased (resolve core process keyId values) := by
  refine Outside.bind (assertKey_conducts process keyId) fun _ => ?_
  dsimp only
  split
  · exact conducts_pure _
  · refine Outside.bind (Outside.transaction _ ?_) fun found => conducts_pure _
    split
    · exact within_throw _
    · exact Inside.bind (within_select _) fun rows => within_pure _

/-- The rows made for events: one for each, sealed, with what the event says. -/
def Carried (core : Core) (events : List (Uuid × EventData)) (rows : List Row) : Prop :=
  ∀ row ∈ rows, ∃ message, row = .outbox message ∧ Sealed core message ∧
    (message.envelope.contact_id, message.envelope.data) ∈ events

abbrev Asks (script : CoreScript α) : Prop :=
  script.Calls fun action : Action Row Label Request => ∃ request, action = .other request ∧
    emitted request = none

theorem asks_call {request : Request} (quiet : emitted request = none) : Asks (call request) :=
  ⟨⟨request, rfl, quiet⟩, fun _ => trivial⟩

theorem outboxRows_asks (core : Core) {type : String} (events : List (Uuid × EventData))
    (typed : ∀ event ∈ events, event.2.type = type) :
    Asks (outboxRows core type events) ∧ (outboxRows core type events).Gives (Carried core events) := by
  induction events with
  | nil => exact ⟨trivial, nofun⟩
  | cons event rest ih =>
    obtain ⟨asks, gives⟩ := ih fun other member => typed other (List.mem_cons_of_mem _ member)
    have builds : Asks (buildEnvelope core type event.1 event.2) := by
      refine Script.Calls.bind (asks_call rfl) fun _ => ?_
      exact Script.Calls.bind (asks_call rfl) fun _ => trivial
    have built : (buildEnvelope core type event.1 event.2).Gives fun envelope => envelope.type = type ∧
            envelope.contact_id = event.1 ∧ envelope.data = event.2 ∧ envelope.tenant_id = core.tenantId ∧
            envelope.source = core.source :=
      fun _ _ => ⟨rfl, rfl, rfl, rfl, rfl⟩
    constructor
    · refine Script.Calls.bind builds fun _ => ?_
      exact Script.Calls.bind asks fun _ => trivial
    refine Script.Gives.bind built fun envelope is => ?_
    refine Script.Gives.bind gives fun rows others => ?_
    intro row member
    rcases List.mem_cons.mp member with rfl | later
    · obtain ⟨type_, contactId, data, tenant, source⟩ := is
      have own := typed event (List.mem_cons_self ..)
      refine ⟨_, rfl, ⟨rfl, by rw [type_, data, own], tenant, source, by rw [type_]⟩, ?_⟩
      rw [contactId, data]
      exact List.mem_cons_self ..
    · obtain ⟨message, is, sealed_, among⟩ := others row later
      exact ⟨message, is, sealed_, List.mem_cons_of_mem _ among⟩

-- Events of which the rows known bear out each that is not about an erased contact.
theorem insertEvents_abides {type : String} {events : List (Uuid × EventData)} {phase : Phase Row}
    {known : List Row} (typed : ∀ event ∈ events, event.2.type = type)
    (told : ∀ rows, (law core erased).Knows rows known → ∀ event ∈ events, ¬ erased event.1 →
      Told rows event.1 event.2) :
    Abides (law core erased) emitted (Gains known) phase known (insertEvents core type events) := by
  unfold insertEvents
  split
  · exact List.Subset.refl _
  · obtain ⟨asks, gives⟩ := outboxRows_asks core events typed
    refine (Abides.asking asks gives).andThen (fun rows after later done => ?_) fun _ _ _ _ => trivial
    obtain ⟨rfl, rfl, carried⟩ := done
    refine Abides.bind (Abides.sql ?_ (fun _ _ => List.subset_append_right ..) fun _ => trivial)
    intro others knows row member
    obtain ⟨message, rfl, sealed_, among⟩ := carried rows rfl row member
    exact ⟨sealed_, fun stays => told others knows _ among stays⟩

theorem told_upserted {known rows : List Row} (knows : (law core erased).Knows rows known) {contact : Contact}
    (read : .contact contact ∈ known) (stays : ¬ erased contact.id) (changed : List String)
    (lists : List Uuid) :
    Told rows contact.id (.upserted contact.version (snapshotFields contact) changed lists) := by
  obtain ⟨now, present, -, before⟩ := (knows _ read).there stays
  obtain ⟨later, is, became⟩ : ∃ later, now = .contact later ∧ contact.Before later := by
    cases before with
    | same => exact ⟨contact, rfl, .refl contact⟩
    | contact is => exact ⟨_, rfl, is⟩
  subst is
  obtain ⟨written, at_, remains⟩ : Intact rows contact := (knows _ read).lawful
  refine ⟨later, present, became.id, became.version, ⟨written, became.dataAt at_,
    fun key not40 not41 => ?_⟩, ?_, fun same => ?_⟩
  · have fields : snapshotFields contact key = contact.data key := by
      simp [snapshotFields, Data.set, not40, not41]
    rw [fields]
    exact remains key
  · rw [became.createdAt]
    simp [snapshotFields, Data.set]
  · rw [(became.same same).1]
    simp [snapshotFields, Data.set]

theorem upserted_within (changed : List (Uuid × List String)) :
    Within core erased (upserted core changed) := by
  intro phase known
  unfold upserted
  split
  · exact List.Subset.refl _
  · refine Abides.bind (Abides.sql trivial (fun rows _ => ?_) fun _ => trivial)
    refine (insertEvents_abides (fun event member => ?_) fun others knows event member stays => ?_).mono
      fun result _ later done => ?_
    · obtain ⟨contact, -, rfl⟩ := List.mem_map.mp member
      rfl
    · obtain ⟨contact, found, rfl⟩ := List.mem_map.mp member
      obtain ⟨row, present, is⟩ := List.mem_filterMap.mp found
      have read : Row.contact contact ∈ rows := by
        cases row with
        | contact other =>
          cases is
          exact present
        | _ => cases is
      exact told_upserted knows (List.mem_append_left _ read) stays _ _
    · cases result with
      | ok value => exact List.Subset.trans (List.subset_append_right ..) done
      | error error => trivial

/-! ## Writing -/

theorem assignIds_conducts (mode : WriteMode) (keyId : String) (found : List (String × Uuid))
    (pending : List Pending) :
    Conducts core erased (assignIds mode keyId found pending) := by
  induction pending with
  | nil => exact conducts_pure _
  | cons p rest ih =>
    have ends : ∀ p : Pending, Conducts core erased (do
        let rest ← assignIds mode keyId found rest
        pure (p :: rest) : CoreScript (List Pending)) := fun p => Outside.bind ih fun _ => conducts_pure _
    unfold assignIds
    dsimp only
    split
    · exact ends p
    · cases found.lookup p.key with
      | some id =>
        dsimp only
        split <;> exact ends _
      | none =>
        dsimp only
        split
        · exact ends _
        · exact Outside.bind (Outside.ask rfl) fun _ => ends _

theorem checkUnique_conducts (process : Nat) (keyId : String) (definitions : Definitions)
    (pending : List Pending) :
    Conducts core erased (checkUnique core process keyId definitions pending) := by
  induction definitions generalizing pending with
  | nil => exact conducts_pure _
  | cons definition rest ih =>
    unfold checkUnique
    dsimp only
    split
    · exact ih _
    · split
      · exact ih _
      · exact Outside.bind (resolve_conducts process _ _) fun _ => ih _

theorem update_within (now : Time) (items : List Pending) (source : String) :
    Within core erased (update core now items source) := by
  have merges : ∀ changes : List ContactChange, Within core erased (do
      let _ ← sql (.update (Row.isContact fun contact =>
        (changes.map ContactChange.contactId).contains contact.id)
        (Row.mapContact fun contact => Contact.recorded
          { contact.withData core
              (Data.stored ((ofChange changes contact.id ContactChange.after).getD contact.data)) with
            version := contact.version + 1, updatedAt := now }))
      pure changes : CoreScript (List ContactChange)) := fun changes =>
    Inside.bind (Inside.sql fun _ => obeys_merge _
      (fun contact => Data.stored ((ofChange changes contact.id ContactChange.after).getD contact.data)) now)
        fun _ => within_pure _
  unfold update
  split
  · exact within_pure _
  · refine Inside.bind (within_lockRows _) fun rows => within_check ?_
    dsimp only
    split
    · exact within_pure _
    · exact within_check (merges _)

theorem insert_within (now : Time) (items : List Pending) (source : String) :
    Within core erased (insert core now items source) := by
  unfold insert
  split
  · exact within_pure _
  · refine within_check (Inside.bind (Inside.sql fun _ _ _ row member => ?_)
      fun inserted => within_check (within_pure _))
    obtain ⟨change, -, rfl⟩ := List.mem_map.mp member
    exact intact_recorded _ rfl

theorem checkForeignKey_within (contactIds : List Uuid) : Within core erased (checkForeignKey contactIds) :=
  Inside.bind (within_shareKey _) fun _ => within_check (within_pure _)

theorem syncUniqueValues_within (definitions : Definitions) (changes : List ContactChange) :
    Within core erased (syncUniqueValues definitions changes) := by
  have fills : Within core erased (do
      if !(valuesOf definitions changes).isEmpty then
        let inserted ← sql (.insert ((valuesOf definitions changes).map Row.uniqueValue) true)
        checkForeignKey ((inserted.filterMap Row.uniqueValue?).map UniqueValue.contactId)
        if inserted.length ≠ (valuesOf definitions changes).length
          then throw (.retry "a unique value was taken concurrently")
      : CoreScript Unit) := by
    split
    · refine Inside.bind (Inside.sql fun _ _ _ row member => ?_) fun inserted => ?_
      · obtain ⟨value, -, rfl⟩ := List.mem_map.mp member
        trivial
      · refine Inside.bind (checkForeignKey_within _) fun _ => ?_
        exact within_check (within_pure _)
    · exact within_pure _
  unfold syncUniqueValues
  dsimp only
  split
  · exact Inside.bind (Inside.sql fun _ => obeys_delete (leaves_uniqueValue _)) fun _ => fills
  · exact fills

-- The rows of consents, which differ from them in their primary keys only.
theorem consentRows_asks (consents : List Consent) : Asks (consentRows consents) ∧
    (consentRows consents).Gives fun rows =>
    (∀ row ∈ rows, ∃ consent, row = .consent consent) ∧ ∀ consent ∈ consents, ∃ id, Row.consent
    { consent with id := id } ∈ rows := by
  induction consents with
  | nil => exact ⟨trivial, nofun, nofun⟩
  | cons consent rest ih =>
    constructor
    · refine Script.Calls.bind (asks_call rfl) fun _ => ?_
      exact Script.Calls.bind ih.1 fun _ => trivial
    refine Script.Gives.bind (fun _ => trivial) fun id _ => ?_
    refine Script.Gives.bind ih.2 fun rows others => ?_
    constructor
    · intro row member
      rcases List.mem_cons.mp member with rfl | later
      · exact ⟨_, rfl⟩
      · exact others.1 row later
    · intro other member
      rcases List.mem_cons.mp member with rfl | later
      · exact ⟨id, List.mem_cons_self ..⟩
      · obtain ⟨drawn, present⟩ := others.2 other later
        exact ⟨drawn, List.mem_cons_of_mem _ present⟩

theorem told_consent {known rows : List Row} (knows : (law core erased).Knows rows known) {consent : Consent}
    {id : Uuid} (read : .consent { consent with id := id } ∈ known) (stays : ¬ erased consent.contactId) :
    Told rows consent.contactId
    (.consentChanged consent.channel consent.value consent.source consent.text) := by
  obtain ⟨now, present, -, before⟩ := (knows _ read).there trivial
  cases before with
  | same => exact ⟨_, present, rfl, rfl, rfl, rfl, rfl⟩
  | @consent _ later is =>
    have kept := is.text.resolve_right fun gone => stays gone.1
    have whole : later = { consent with id := id } := by rw [is.same, kept]
    subst whole
    exact ⟨_, present, rfl, rfl, rfl, rfl, rfl⟩

theorem record_within (explicit : Option ConsentInput) (now : Time) (changes : List ContactChange) :
    Within core erased (record core explicit now changes) := by
  intro phase known
  unfold record
  dsimp only
  split
  · exact List.Subset.refl _
  · obtain ⟨asks, gives⟩ := consentRows_asks (consentsOf explicit now changes)
    refine (Abides.asking asks gives).andThen (fun rows after later done => ?_) fun _ _ _ _ => trivial
    obtain ⟨rfl, rfl, are⟩ := done
    obtain ⟨consents, all⟩ := are rows rfl
    refine Abides.bind (Abides.sql ?_ (fun inserted replies => ?_) fun _ => trivial)
    · intro others _ row member
      obtain ⟨consent, rfl⟩ := consents row member
      trivial
    · obtain rfl := replies.2.1 rfl
      refine (insertEvents_abides (fun event member => ?_) fun others knows event member stays => ?_).mono
        fun result _ last done => ?_
      · obtain ⟨consent, -, rfl⟩ := List.mem_map.mp member
        rfl
      · obtain ⟨consent, among, rfl⟩ := List.mem_map.mp member
        obtain ⟨id, present⟩ := all consent among
        exact told_consent knows (List.mem_append_left _ present) stays
      · cases result with
        | ok value => exact List.Subset.trans (List.subset_append_right ..) done
        | error error => trivial

theorem attempt_conducts (process : Nat) (keyId : String) (mode : WriteMode) (items : List Item)
    (source : String) (explicit : Option ConsentInput) : Conducts core erased
    (attempt core process keyId mode items source explicit) := by
  refine Outside.bind (fields_conducts process) fun definitions => ?_
  refine Outside.bind (resolve_conducts process keyId _) fun found => ?_
  refine Outside.bind (assignIds_conducts mode keyId found _) fun pending => ?_
  refine Outside.bind (checkUnique_conducts process keyId definitions pending) fun pending => ?_
  dsimp only
  split
  · exact conducts_pure _
  · refine Outside.bind (Outside.transaction _ ?_) fun _ => conducts_pure _
    refine Inside.bind (Inside.ask rfl) fun now => ?_
    refine Inside.bind (update_within now _ source) fun _ => ?_
    refine Inside.bind (insert_within now _ source) fun _ => ?_
    refine Inside.bind (syncUniqueValues_within definitions _) fun _ => ?_
    refine Inside.bind (record_within explicit now _) fun _ => ?_
    refine Inside.bind (upserted_within _) fun _ => ?_
    exact within_pure _

theorem attempts_conducts {run : CoreScript α} (once : Conducts core erased run) (more : Nat) :
    Conducts core erased (attempts run more) := by
  induction more with
  | zero => exact once
  | succ more ih =>
    refine Outside.handle once fun error => ?_
    split
    · exact ih
    · exact conducts_throw error

theorem write_conducts (process : Nat) (keyId : String) (mode : WriteMode) (items : List Item)
    (source : String) (explicit : Option ConsentInput) : Conducts core erased
    (write core process keyId mode items source explicit) :=
  Outside.bind (assertKey_conducts process keyId) fun _ =>
    attempts_conducts (attempt_conducts process keyId mode items source explicit) _

theorem told_deleted {known rows : List Row} (knows : (law core erased).Knows rows known) {contact : Contact}
    {time : Time}
    (read : .contact contact ∈ known) (gone : contact.deletedAt = some time) (stays : ¬ erased contact.id)
    (reason : String) :
    Told rows contact.id (.deleted reason) := by
  obtain ⟨now, present, -, before⟩ := (knows _ read).there stays
  cases before with
  | same => exact ⟨contact, present, rfl, by rw [gone]; rfl⟩
  | contact is => exact ⟨_, present, is.id, by rw [is.deleted time gone]; rfl⟩

/-- Contacts that are known to be deleted. -/
def Gone (ids : List Uuid) (known : List Row) : Prop :=
  ∀ id ∈ ids, ∃ contact, .contact contact ∈ known ∧ contact.id = id ∧ contact.deletedAt.isSome = true

theorem Gone.mono {ids : List Uuid} {known later : List Row} (gone : Gone ids known)
    (more : known ⊆ later) : Gone ids later := by
  intro id member
  obtain ⟨contact, present, is⟩ := gone id member
  exact ⟨contact, more present, is⟩

theorem softDelete_abides (ids : List Uuid) (known : List Row) :
    Abides (law core erased) emitted (fun result phase later => phase = .outside ∧
      ∀ gone, result = .ok gone → Gone gone later)
      .outside known (softDelete core ids) := by
  unfold softDelete
  split
  · refine ⟨rfl, fun gone is => ?_⟩
    cases is
    exact fun _ member => by cases member
  · refine Abides.transaction ?_ fun error => ⟨rfl, fun _ is => by cases is⟩
    refine (Inside.ask rfl (.reading []) known).andThen (fun now phase known _ => ?_) fun _ _ _ _ => trivial
    refine Abides.bind (Abides.sql (obeys_softDelete ids now) (fun rows replies => ?_) fun _ => trivial)
    have marked (contact : Contact) (among : contact ∈ rows.filterMap Row.contact?) :
        .contact contact ∈ rows ∧ contact.deletedAt = some now := by
      obtain ⟨row, present, is⟩ := List.mem_filterMap.mp among
      obtain ⟨old, holds, rfl⟩ := replies.1 row present
      cases old with
      | contact before =>
        cases is
        exact ⟨present, rfl⟩
      | _ => cases holds
    have gone : Gone ((rows.filterMap Row.contact?).map Contact.id) (rows ++ known) := by
      intro id member
      obtain ⟨contact, among, rfl⟩ := List.mem_map.mp member
      obtain ⟨present, deletedAt⟩ := marked contact among
      exact ⟨contact, List.mem_append_left _ present, rfl, by rw [deletedAt]; rfl⟩
    dsimp only [Then]
    split
    · refine ⟨rfl, fun ids is => ?_⟩
      cases is
      exact gone
    · refine Abides.bind (Abides.sql (leaves_uniqueValue _) (fun values _ => ?_) fun _ => trivial)
      refine (insertEvents_abides (fun event member => ?_) fun others knows event member stays => ?_).andThen
        (fun _ phase later more => ?_) fun _ _ _ _ => trivial
      · obtain ⟨contactId, -, rfl⟩ := List.mem_map.mp member
        rfl
      · obtain ⟨contactId, among, rfl⟩ := List.mem_map.mp member
        obtain ⟨contact, found, rfl⟩ := List.mem_map.mp among
        obtain ⟨present, deletedAt⟩ := marked contact found
        exact told_deleted knows (List.mem_append_right _ (List.mem_append_left _ present)) deletedAt stays _
      · refine ⟨rfl, fun ids is => ?_⟩
        cases is
        exact gone.mono fun row member => more (List.mem_append_right _ member)

theorem softDelete_conducts (ids : List Uuid) : Conducts core erased (softDelete core ids) := fun known =>
  (softDelete_abides ids known).mono fun _ _ _ done => done.1

/-! ## Lists and erasure -/

theorem assertList_within (id : String) : Within core erased (assertList id) := by
  have checks : ∀ rows : List Row,
      Within core erased (if rows.isEmpty then throw (.notFound "list not found")
          else pure () : CoreScript Unit) :=
    fun rows => within_check (within_pure _)
  unfold assertList
  split
  · exact Inside.bind (within_select _) checks
  · exact checks []

theorem insertMembers_within (listId : Uuid) (contacts : List Uuid) :
    Within core erased (insertMembers listId contacts) := by
  refine Inside.bind (Inside.sql fun _ _ _ row member => ?_) fun rows => ?_
  · obtain ⟨contact, -, rfl⟩ := List.mem_map.mp member
    trivial
  · refine Inside.bind (within_shareKey _) fun lists => ?_
    exact within_check (Inside.bind (checkForeignKey_within _) fun _ => within_pure _)

theorem change_conducts (listId : String) (contactIds : List String) (add : Bool) :
    Conducts core erased (change core listId contactIds add) := by
  apply Outside.transaction
  refine Inside.bind (assertList_within listId) fun _ => ?_
  refine Inside.bind (within_select _) fun found => ?_
  dsimp only
  split
  · refine Inside.bind (insertMembers_within _ _) fun _ => ?_
    refine Inside.bind (upserted_within _) fun _ => ?_
    exact within_pure _
  · refine Inside.bind (Inside.sql fun _ => obeys_delete (leaves_member _)) fun _ => ?_
    refine Inside.bind (upserted_within _) fun _ => ?_
    exact within_pure _

theorem removeList_conducts (id : String) : Conducts core erased (removeList core id) := by
  apply Outside.transaction
  refine Inside.bind (assertList_within id) fun _ => ?_
  refine Inside.bind (within_select _) fun rows => ?_
  refine Inside.bind (Inside.sql fun _ => obeys_delete (leaves_list _)) fun gone => ?_
  dsimp only
  split
  · exact Inside.bind (Inside.sql fun _ => obeys_delete (leaves_member _)) fun _ => upserted_within _
  · exact upserted_within _

-- A contact that is erased leaves an event of which the rows bear out nothing any more.
theorem deleted_erased {contactId : Uuid} (erases : erased contactId) (reason : String) :
    Within core erased (deleted core [contactId] reason) := by
  intro phase known
  refine insertEvents_abides (fun event member => ?_) fun rows _ event member stays => ?_
  · rw [List.mem_singleton.mp member]
    rfl
  · rw [List.mem_singleton.mp member] at stays
    exact absurd erases stays

theorem leaves_erased {contactId : Uuid} (erases : erased contactId) (row : Row)
    (holds : Row.isContact (fun contact => contact.id == contactId) row = true) : ¬ row.Stays erased := by
  cases row with
  | contact contact =>
    have same : contact.id = contactId := by simpa [Row.isContact, Row.contact?] using holds
    exact fun stays => stays (same ▸ erases)
  | _ => cases holds

theorem forget_conducts {contactId : Uuid} (erases : erased contactId) :
    Conducts core erased (forget core contactId) := by
  apply Outside.transaction
  refine Inside.bind (Inside.sql fun _ => obeys_delete (leaves_uniqueValue _)) fun _ => ?_
  refine Inside.bind (Inside.sql fun _ => obeys_delete (leaves_member _)) fun _ => ?_
  refine Inside.bind (Inside.sql fun _ => obeys_delete (leaves_erased erases)) fun rows => ?_
  have ends : Within core erased (do
      let _ ← sql (.update (Row.isConsent fun consent =>
        consent.contactId == contactId && consent.text.isSome)
        (Row.mapConsent fun consent => { consent with text := none }))
      pure () : CoreScript Unit) :=
    Inside.bind (Inside.sql fun _ => obeys_redact erases _
      fun consent holds => by simpa using (Bool.and_eq_true_iff.mp holds).1)
      fun _ => within_pure _
  dsimp only
  split
  · refine Inside.bind (Inside.sql fun _ => obeys_delete (leaves_uniqueValue _)) fun _ => ?_
    refine Inside.bind (Inside.sql fun _ => obeys_delete (leaves_member _)) fun _ => ?_
    refine Inside.bind (deleted_erased erases _) fun _ => ?_
    exact ends
  · exact ends

theorem invalidating_conducts (process : Nat) (apiName : String) {body : CoreScript α}
    (conducts : Conducts core erased body) :
    Conducts core erased (invalidating process apiName body) := by
  refine Outside.bind (Outside.handle conducts fun error => ?_) fun result => ?_
  · exact Outside.bind (Outside.ask rfl) fun _ => conducts_throw _
  · exact Outside.bind (Outside.ask rfl) fun _ => conducts_pure _

/-- The next ID is what the counter has counted to. -/
def Reserved : Except Failure Nat → Phase Row → List Row → Prop
  | .ok id, _, known => .counter id ∈ known
  | .error _, _, _ => True

theorem nextCustomFieldId_abides (known : List Row) :
    Abides (law core erased) emitted Reserved (.reading []) known nextCustomFieldId := by
  refine Abides.bind (Abides.sql (obeys_count (fun _ => rfl)
    fun row => by cases row <;> rfl) (fun updated _ => ?_) fun _ => trivial)
  dsimp only [Then]
  split
  · refine Abides.bind (Abides.sql ?_ (fun inserted _ => ?_) fun _ => trivial)
    · intro _ _ row member
      rw [List.mem_singleton.mp member]
      exact Nat.le_refl _
    · dsimp only [Then]
      split
      · refine Abides.bind (Abides.sql (obeys_count (fun _ => rfl)
          fun row => by cases row <;> rfl) (fun rows _ => ?_) fun _ => trivial)
        dsimp only [Then]
        split
        · exact List.mem_append_left _ (List.mem_cons_self ..)
        · trivial
      · refine Abides.bind (?_ : Abides _ _ _ _ _ (pure inserted : CoreScript (List Row)))
        dsimp only [Then, pure, Abides]
        split
        · exact List.mem_append_left _ (List.mem_cons_self ..)
        · trivial
  · refine Abides.bind (?_ : Abides _ _ _ _ _ (pure updated : CoreScript (List Row)))
    dsimp only [Then, pure, Abides]
    split
    · exact List.mem_append_left _ (List.mem_cons_self ..)
    · trivial

theorem counted_new {known rows : List Row} (knows : (law core erased).Knows rows known) {id : Nat}
    (read : .counter id ∈ known)
    {definition : FieldDefinition} (is : definition.fieldId = id) : Counted rows definition := by
  intro _
  have least : 1000 ≤ id := (knows _ read).lawful
  obtain ⟨now, present, -, before⟩ := (knows _ read).there trivial
  cases before with
  | same => exact ⟨is ▸ least, id, present, Nat.le_of_eq is⟩
  | counter grown => exact ⟨is ▸ least, _, present, is ▸ grown⟩

theorem create_conducts (process : Nat) (input : FieldCreate) :
    Conducts core erased (create process input) := by
  refine invalidating_conducts process _ (Outside.transacting _ fun known => ?_)
  refine (nextCustomFieldId_abides known).andThen (fun id phase later reserved => ?_) fun _ _ _ _ => trivial
  refine Abides.bind (Abides.sql (fun rows knows row member => ?_) (fun _ _ => trivial) fun _ => trivial)
  rw [List.mem_singleton.mp member]
  exact counted_new knows reserved rfl

/-- A definition that was read is known. -/
def Found (fieldId : Nat) : Except Failure FieldDefinition → Phase Row → List Row → Prop
  | .ok definition, _, known => .definition definition ∈ known ∧ definition.fieldId = fieldId
  | .error _, _, _ => True

theorem findDefinition_abides (fieldId : Nat) (phase : Phase Row) (known : List Row) :
    Abides (law core erased) emitted (Found fieldId) phase known (findDefinition fieldId) := by
  refine Abides.bind (Abides.sql trivial (fun rows replies => ?_) fun _ => trivial)
  dsimp only [Then]
  split
  · next definition rest found =>
    obtain ⟨row, present, is⟩ :=
      List.mem_filterMap.mp (found ▸ List.mem_cons_self .. : definition ∈ rows.filterMap Row.definition?)
    cases row with
    | definition other =>
      cases is
      have holds := replies _ present
      simp only [Row.isDefinition, Row.definition?, Option.any_some, Bool.and_eq_true, beq_iff_eq] at holds
      exact ⟨List.mem_append_left _ present, holds.1⟩
    | _ => cases is
  · trivial

theorem checkUnused_within (fieldId : Nat) (choices : List Choice) :
    Within core erased (checkUnused fieldId choices) := by
  induction choices with
  | nil => exact within_pure _
  | cons gone rest ih => exact within_check (Inside.bind (within_select _) fun used => within_check ih)

theorem optionName_numberChoices {current : List Choice} {input : List ChoiceInput}
    (named : ∀ entry ∈ input, ∃ id, entry.id = some id ∧ optionName current id = some entry.api_name)
    (next id : Nat) :
    optionName (numberChoices next input) id = if some id ∈ input.map ChoiceInput.id
    then optionName current id else none := by
  induction input with
  | nil => rfl
  | cons entry rest_ ih =>
    obtain ⟨given, is, name⟩ := named entry (List.mem_cons_self ..)
    have rest := ih fun other member => named other (List.mem_cons_of_mem _ member)
    by_cases same : given = id
    · subst same
      rw [if_pos (List.mem_map.mpr ⟨entry, List.mem_cons_self .., is⟩), name]
      simp [numberChoices, is, optionName]
    · have other : some id ≠ entry.id := fun equal => same (Option.some.inj (is.symm.trans equal.symm))
      have among : some id ∈ (entry :: rest_).map ChoiceInput.id ↔ some id ∈ rest_.map ChoiceInput.id := by
        rw [List.map_cons, List.mem_cons, or_iff_right other]
      rw [if_congr among rfl rfl, ← rest]
      simp [numberChoices, is, optionName, same]

-- What `newChoices` lets pass for a system field are its own options.
theorem optionName_system {current : List Choice} {input : List ChoiceInput}
    (keeps : ∀ choice ∈ current, some choice.id ∈ input.map ChoiceInput.id)
    (named : ∀ entry ∈ input, some entry.api_name = (current.find?
      fun choice => some choice.id == entry.id).map Choice.api_name) :
    optionName (withChoiceIds input current) = optionName current := by
  have listed : ∀ entry ∈ input, ∃ id, entry.id = some id ∧ optionName current id = some entry.api_name := by
    intro entry member
    have name := named entry member
    cases given : entry.id with
    | none =>
      have nothing : current.find? (fun choice => some choice.id == none) = none :=
        List.find?_eq_none.mpr fun choice _ => by simp
      rw [given, nothing] at name
      cases name
    | some id => exact ⟨id, rfl, by rw [name, given]; simp [optionName]⟩
  funext id
  rw [withChoiceIds, optionName_numberChoices listed]
  split
  · rfl
  · next absent =>
    have unknown : current.find? (fun choice => choice.id == id) = none := by
      refine List.find?_eq_none.mpr fun choice member same => absent ?_
      have is : choice.id = id := by simpa using same
      exact is ▸ keeps choice member
    simp [optionName, unknown]

/-- The options that may replace those of a definition; nothing known is forgotten. -/
def Renumbered (definition : FieldDefinition) (known : List Row) :
    Except Failure (List Choice) → Phase Row → List Row → Prop
  | .ok choices, _, later => known ⊆ later ∧ (definition.isSystem = true →
    optionName choices = optionName definition.choices)
  | .error _, _, _ => True

theorem newChoices_abides (definition : FieldDefinition) (fieldId : Nat) (input : List ChoiceInput)
    (phase : Phase Row) (known : List Row) :
    Abides (law core erased) emitted (Renumbered definition known) phase known
    (newChoices definition fieldId input) := by
  unfold newChoices
  dsimp only
  split
  · trivial
  · next accepted =>
    split
    · trivial
    · refine (checkUnused_within _ _ phase known).andThen (fun _ _ later gained => ⟨gained, fun system => ?_⟩)
        fun _ _ _ _ => trivial
      simp only [system, Bool.true_and, Bool.or_eq_true, not_or, List.any_eq_true,
        not_exists, not_and] at accepted
      obtain ⟨⟨-, kept⟩, named⟩ := accepted
      refine optionName_system (fun choice member => ?_) fun entry member => ?_
      · simpa using kept choice member
      · simpa using named entry member

theorem advances_described {before definition : FieldDefinition} (since : before.Before definition)
    {name : String} {choices : List Choice}
    (system : before.isSystem = true → name = definition.apiName ∧
      optionName choices = optionName definition.choices) :
    definition.Before { definition with apiName := name, choices := choices } := by
  refine ⟨rfl, rfl, rfl, rfl, rfl, fun deleted => deleted, fun is => ?_⟩
  obtain ⟨same, options⟩ := system (since.isSystem.symm.trans is)
  exact ⟨same, rfl, options⟩

/-- What `setDefinition` returns is known, and has been changed so. -/
def Changed (fieldId : Nat) (f : FieldDefinition → FieldDefinition) :
    Except Failure FieldDefinition → Phase Row → List Row → Prop
  | .ok definition, _, known => .definition definition ∈ known ∧
      ∃ old : FieldDefinition, old.fieldId = fieldId ∧ definition = { f old with fieldId := fieldId }
  | .error _, _, _ => True

theorem setDefinition_changes {before : FieldDefinition} {phase : Phase Row} {known : List Row}
    (read : .definition before ∈ known)
    {f : FieldDefinition → FieldDefinition}
    (advances : ∀ definition, before.Before definition →
      definition.Before { f definition with fieldId := definition.fieldId }) :
    Abides (law core erased) emitted (Changed before.fieldId f) phase known
    (setDefinition before.fieldId f) := by
  refine Abides.bind (Abides.sql (obeys_definition read advances) (fun rows replies => ?_) fun _ => trivial)
  dsimp only [Then]
  split
  · next definition rest found =>
    obtain ⟨row, present, is⟩ :=
      List.mem_filterMap.mp (found ▸ List.mem_cons_self .. : definition ∈ rows.filterMap Row.definition?)
    obtain ⟨old, holds, rfl⟩ := replies.1 row present
    cases old with
    | definition old =>
      have same : old.fieldId = before.fieldId := by simpa [Row.isDefinition, Row.definition?] using holds
      cases is
      exact ⟨List.mem_append_left _ present, old, same, by rw [same]⟩
    | _ => cases holds
  · trivial

theorem setDefinition_abides {before : FieldDefinition} {phase : Phase Row} {known : List Row}
    (read : .definition before ∈ known)
    {f : FieldDefinition → FieldDefinition}
    (advances : ∀ definition, before.Before definition →
      definition.Before { f definition with fieldId := definition.fieldId }) :
    Abides (law core erased) emitted (fun _ _ _ => True) phase known (setDefinition before.fieldId f) :=
  (setDefinition_changes read advances).mono fun _ _ _ _ => trivial

theorem updateField_conducts (process fieldId : Nat) (input : FieldUpdate) :
    Conducts core erased (updateField process fieldId input) := by
  refine invalidating_conducts process _ (Outside.transacting _ fun known => ?_)
  refine (findDefinition_abides fieldId (.reading []) known).andThen (fun before phase later found => ?_)
    fun _ _ _ _ => trivial
  obtain ⟨read, rfl⟩ := found
  dsimp only
  split
  · trivial
  · next unnamed =>
    have renames : before.isSystem = true →
        (input.api_name.any fun name => name ≠ before.apiName) = false := by
      intro system
      simpa [system] using unnamed
    cases input.choices with
    | some choices =>
      refine (newChoices_abides before before.fieldId choices phase later).andThen
        (fun chosen _ last done => ?_) fun _ _ _ _ => trivial
      refine setDefinition_abides (done.1 read) fun definition since =>
        advances_described since fun system => ?_
      obtain ⟨-, -, options⟩ := since.system system
      rw [renames system]
      exact ⟨rfl, (done.2 system).trans options.symm⟩
    | none =>
      refine setDefinition_abides read fun definition since => advances_described since fun system => ?_
      rw [renames system]
      exact ⟨rfl, rfl⟩

theorem purge_abides {definition : FieldDefinition} {known : List Row} (read : .definition definition ∈ known)
    (gone : definition.deletedAt.isSome = true) :
    Abides (law core erased) emitted (fun _ phase _ => phase = .outside) .outside known
    (purge core definition.fieldId) := by
  refine Abides.transaction (Abides.bind (Abides.sql (obeys_purge _ read gone) (fun _ _ => ?_)
    fun _ => trivial)) fun _ => rfl
  exact Abides.bind (Abides.sql (leaves_uniqueValue _) (fun _ _ => rfl) fun _ => trivial)

-- The definition that `remove` has read in a transaction of its own is known in the next one, and its
-- deletion in the last one.
theorem remove_conducts (process fieldId : Nat) : Conducts core erased (remove core process fieldId) := by
  intro known
  refine Abides.bind (Abides.transaction ((findDefinition_abides fieldId (.reading []) known).mono
    fun result phase later found => ?_) fun _ => rfl)
  cases result with
  | error error => trivial
  | ok before =>
    obtain ⟨read, rfl⟩ := found
    dsimp only [Commits, Then]
    split
    · rfl
    · next custom =>
      refine Abides.bind (Abides.ask (fun _ told => by cases told) fun now => ?_)
      have retires : ∀ definition, before.Before definition →
          definition.Before { definition with deletedAt := some now, fieldId := definition.fieldId } :=
            fun definition since =>
        ⟨rfl, rfl, rfl, rfl, rfl, fun _ => rfl, fun system =>
          absurd (since.isSystem.symm.trans system) custom⟩
      refine Abides.bind (Abides.transaction ((setDefinition_changes read retires).mono
        fun result _ last changed => ?_) fun _ => rfl)
      cases result with
      | error error => trivial
      | ok definition =>
        obtain ⟨present, old, -, rfl⟩ := changed
        refine Abides.bind (Abides.ask (fun _ told => by cases told) fun _ => ?_)
        refine Abides.handle ((purge_abides present rfl).mono fun result phase later done => ?_)
        cases result with
        | ok value => exact done
        | error error => exact done

/-! ## The relay -/

theorem sendAll_abides (rows : List OutboxRow) {known : List Row} (read : ∀ row ∈ rows, .outbox row ∈ known) :
    Abides (law core erased) emitted (fun _ _ _ => True) (.reading []) known (sendAll rows) := by
  induction rows with
  | nil => trivial
  | cons row rest ih =>
    have later := ih fun other member => read other (List.mem_cons_of_mem _ member)
    apply Abides.bind
    apply Abides.bind
    refine Abides.ask (fun sent told => ?_) fun acknowledged => ?_
    · cases told
      exact ⟨trivial, read row (List.mem_cons_self ..)⟩
    · dsimp only [Then]
      split
      · exact later
      · trivial

theorem drain_conducts : Conducts core erased drain := by
  refine Outside.transacting _ fun known => ?_
  refine Abides.bind (Abides.sql trivial (fun rows _ => ?_) fun _ => trivial)
  refine (sendAll_abides _ fun row member => ?_).andThen (fun _ phase later _ => ?_) fun _ _ _ _ => trivial
  · obtain ⟨found, present, is⟩ := List.mem_filterMap.mp member
    cases found with
    | outbox other =>
      cases is
      exact List.mem_append_left _ present
    | _ => cases is
  · split
    · trivial
    · exact Abides.bind (Abides.sql (leaves_outbox _) (fun _ _ => trivial) fun _ => trivial)

theorem Operation.conducts (operation : Operation)
    (erases : ∀ contactId, operation = .forget contactId → erased contactId) :
    Conducts core erased (operation.script core) := by
  cases operation with
  | write process keyId mode items source explicit =>
    exact conducts_discard (write_conducts process keyId mode items source explicit)
  | softDelete ids => exact conducts_discard (softDelete_conducts ids)
  | change listId contactIds add => exact conducts_discard (change_conducts listId contactIds add)
  | byKeys process listId keyId values add =>
    apply conducts_discard
    refine Outside.bind (Outside.transaction _ (assertList_within listId)) fun _ => ?_
    refine Outside.bind (resolve_conducts process keyId values) fun _ => ?_
    refine Outside.bind (change_conducts listId _ add) fun _ => ?_
    exact conducts_pure _
  | removeList id => exact removeList_conducts id
  | forget contactId => exact forget_conducts (erases contactId rfl)

theorem CoreCall.conducts (call : CoreCall)
    (erases : ∀ contactId, call = .operation (.forget contactId) → erased contactId) :
    Conducts core erased (call.script core) := by
  cases call with
  | operation operation => exact operation.conducts fun contactId forgets => erases contactId (forgets ▸ rfl)
  | setConsent process contactId input =>
    refine Outside.bind (write_conducts process _ _ _ _ _) fun results => ?_
    split
    · split
      · exact conducts_throw _
      · exact conducts_throw _
    · exact conducts_pure ()
  | create process input => exact conducts_discard (create_conducts process input)
  | updateField process fieldId input => exact conducts_discard (updateField_conducts process fieldId input)
  | remove process fieldId => exact remove_conducts process fieldId
  | resolve process keyId values => exact conducts_discard (resolve_conducts process keyId values)
  | drain => exact conducts_discard drain_conducts

end Conduct

end OpenEmarsys.Contacts
