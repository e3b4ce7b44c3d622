import OpenEmarsys.Contacts.Conduct
import OpenEmarsys.Contacts.Keys
import OpenEmarsys.Interleaving.Endings

/-! What lasts in a tenant, in every run of the calls of core.

Calls interleave, crash and are rolled back as they may; contacts, consents, fields and the
counter of field IDs go forward only, and no event is ahead of the rows it tells of.
-/

set_option autoImplicit false

namespace OpenEmarsys.Contacts

open Javascript Postgres Interleaving

def CoreCall.Erases (erased : Uuid → Prop) (call : CoreCall) : Prop :=
  ∀ contactId, call = .operation (.forget contactId) → erased contactId

/-- A tenant as core finds it. The record of what is written starts with the contacts as they are. -/
structure Opened (core : Core) (rows : List Row) (world : World) : Prop where
  apart : rows.Pairwise NoClash
  recorded : ∀ contact, .contact contact ∈ rows → contact.past = [contact.data]
  counted : ∀ definition, .definition definition ∈ rows → Counted rows definition
  counter : ∀ lastId, .counter lastId ∈ rows → 1000 ≤ lastId
  backed : ∀ message, .outbox message ∈ rows ∨ message ∈ world.stream →
    Backed core (fun _ => False) rows message

section Runs
variable {core : Core} {erased : Uuid → Prop} {rows : List Row} {world : World}
  {config middle last : CoreConfig}

/-- Runs from the opening of a tenant in which calls erase no other contacts. -/
abbrev Erasing (core : Core) (erased : Uuid → Prop) : CoreConfig → CoreConfig → Prop :=
  (machine respond).Reaches (CoreCall.script core) { spawn := fun _ call _ => call.Erases erased }

theorem Opened.abiding {Call ε α : Type} {post : Call → Except ε α → Phase Row → List Row → Prop}
    (opened : Opened core rows world) :
    Abiding (law core erased) emitted Streamed post
      (.start ⟨.holding rows, world⟩ : Config Call (Action Row Label Request)
        (Answer Response) ε α State) := by
  have backed : ∀ message, .outbox message ∈ rows ∨ message ∈ world.stream →
      Backed core erased rows message := fun message there =>
    ⟨(opened.backed message there).is_sealed, fun _ => (opened.backed message there).told id⟩
  refine abiding_start opened.apart (fun row member => ?_) (fun row streamed => ?_) _ rfl
  · cases row with
    | contact contact => exact intact_recorded rows (opened.recorded contact member)
    | definition definition => exact opened.counted definition member
    | counter lastId => exact opened.counter lastId member
    | outbox message => exact backed message (.inl member)
    | _ => trivial
  · obtain ⟨message, member, rfl⟩ := streamed
    exact backed message (.inr member)

theorem Opened.reaches (opened : Opened core rows world)
    (run : Erasing core erased (.start ⟨.holding rows, world⟩) config) :
    Abiding (law core erased) emitted Streamed (fun _ _ _ _ => True) config :=
  (abiding_reaches respond_faithful (fun call erases => (CoreCall.conducts call erases []).mono
    fun _ _ _ _ => trivial) run
    opened.abiding).1

theorem Opened.forward (opened : Opened core rows world)
    (before : Erasing core erased (.start ⟨.holding rows, world⟩) middle)
    (after : Erasing core erased middle last) : Forward
    (evolution erased) middle.state.server.rows last.state.server.rows :=
  (abiding_reaches respond_faithful (fun call erases => (CoreCall.conducts call erases []).mono
    fun _ _ _ _ => trivial) after
    (opened.reaches before)).2

/-- Between any two states of a run, a contact that is not erased stays, under its ID and with its
creation time; its version never falls, a deletion is never undone, and with the same version it has the
same data but for keys of deleted fields. -/
theorem contacts_advance (opened : Opened core rows world)
    (before : Erasing core erased (.start ⟨.holding rows, world⟩) middle)
    (after : Erasing core erased middle last) {contact : Contact}
    (present : .contact contact ∈ middle.state.server.rows)
    (stays : ¬ erased contact.id) : ∃ later, .contact later ∈ last.state.server.rows ∧ contact.Before later ∧
      (later.version = contact.version → Remains last.state.server.rows contact.data later.data) := by
  have forward := opened.forward before after
  obtain ⟨later, there, became⟩ := later_contact forward present stays
  have intact : Intact middle.state.server.rows contact := (opened.reaches before).lawful.committed _ present
  have now : Intact last.state.server.rows later :=
    (opened.reaches (before.trans after)).lawful.committed _ there
  exact ⟨later, there, became, fun same => became.remains same (intact.forward forward) now⟩

/-- A recorded consent stays as it is, but for its text if the contact is erased. -/
theorem consents_kept (opened : Opened core rows world)
    (before : Erasing core erased (.start ⟨.holding rows, world⟩) middle)
    (after : Erasing core erased middle last) {consent : Consent}
    (present : .consent consent ∈ middle.state.server.rows) :
    ∃ later, .consent later ∈ last.state.server.rows ∧ consent.Before erased later :=
  later_consent (opened.forward before after) present

/-- A field keeps its type and the flags it was created with, and stays deleted once it is; a system
field is never renamed or deleted and keeps its options. The counter of field IDs never goes back. -/
theorem fields_advance (opened : Opened core rows world)
    (before : Erasing core erased (.start ⟨.holding rows, world⟩) middle)
    (after : Erasing core erased middle last) :
    (∀ definition, .definition definition ∈ middle.state.server.rows →
      ∃ later, .definition later ∈ last.state.server.rows ∧ definition.Before later) ∧
    ∀ lastId, .counter lastId ∈ middle.state.server.rows →
    ∃ later, .counter later ∈ last.state.server.rows ∧ lastId ≤ later :=
  ⟨fun _ present => later_definition (opened.forward before after) present,
    fun _ present => later_counter (opened.forward before after) present⟩

/-- The IDs of custom fields, deleted ones too, are those from 1000 up to the counter. -/
theorem fields_counted (opened : Opened core rows world)
    (run : Erasing core erased (.start ⟨.holding rows, world⟩) config)
    {definition : FieldDefinition} (present : .definition definition ∈ config.state.server.rows)
    (custom : definition.isSystem = false) :
    1000 ≤ definition.fieldId ∧ ∃ lastId, .counter lastId ∈ config.state.server.rows ∧
    definition.fieldId ≤ lastId :=
  (opened.reaches run).lawful.committed _ present custom

/-- Every event, waiting or published, is sealed for the tenant; what it says of a contact that is not
erased is borne out by the committed rows: its version has been reached, and its fields are those the
contact was given with that version, as the contact has them still if it has that version. Keys of
deleted fields may be missing. -/
theorem events_backed (opened : Opened core rows world)
    (run : Erasing core erased (.start ⟨.holding rows, world⟩) config)
    {message : OutboxRow} (there : .outbox message ∈ config.state.server.rows ∨
      message ∈ config.state.world.stream) :
    Backed core erased config.state.server.rows message ∧
      ∀ contact, .contact contact ∈ config.state.server.rows → Intact config.state.server.rows contact := by
  have abiding := opened.reaches run
  refine ⟨?_, fun contact present => abiding.lawful.committed _ present⟩
  rcases there with waiting | published
  · exact abiding.lawful.committed _ waiting
  · exact abiding.shown _ ⟨message, published, rfl⟩

end Runs

def CoreCall.erasesOnly (contacts : List Uuid) : CoreCall → Bool
  | .operation (.forget contactId) => contacts.contains contactId
  | _ => true

theorem erases_only {contacts : List Uuid} (call : CoreCall) (only : call.erasesOnly contacts = true) :
    call.Erases (· ∈ contacts) := by
  rintro contactId rfl
  simpa [CoreCall.erasesOnly] using only

def annDeleted : List (Move CoreCall Choices) :=
  .spawn 1 (.operation (.softDelete [annId])) :: .act 1 .none :: .act 1 (.time 11) ::
    List.replicate 4 (.act 1 .none) ++
    .act 1 (.uuid 12 0 0) :: .act 1 (.time 12) :: List.replicate 3 (.act 1 .none) ++
  .spawn 2 .drain :: List.replicate 3 (.act 2 .none) ++ List.replicate 2 (.act 2 (.delivery true true)) ++
    List.replicate 3 (.act 2 .none)

def emailStart : CoreConfig := .start ⟨.holding emailRows, ⟨[], [], fun _ => none, []⟩⟩

theorem emailRows_opened : Opened plainCore emailRows ⟨[], [], fun _ => none, []⟩ := by
  refine ⟨List.pairwise_singleton .., fun contact member => ?_, fun definition member custom => ?_,
    fun lastId member => ?_,
    fun message there => ?_⟩
  · cases List.mem_singleton.mp member
  · cases List.mem_singleton.mp member
    cases custom
  · cases List.mem_singleton.mp member
  · rcases there with member | member
    · cases List.mem_singleton.mp member
    · cases member

theorem erasing_parts {contacts : List Uuid} {first middle last : CoreConfig}
    {before after : List (Move CoreCall Choices)}
    (only : (before ++ after).all (Move.starts (CoreCall.erasesOnly contacts)) = true)
    (started : (machine respond).moves (CoreCall.script plainCore) before first = some middle)
    (ended : (machine respond).moves (CoreCall.script plainCore) after middle = some last) :
    Erasing plainCore (· ∈ contacts) first middle ∧ Erasing plainCore (· ∈ contacts) middle last := by
  rw [List.all_append, Bool.and_eq_true] at only
  exact ⟨reaches_starting erases_only .refl _ only.1 started,
    reaches_starting erases_only .refl _ only.2 ended⟩

def typesOf (config : CoreConfig) : List String := config.state.world.stream.map
    fun message => message.envelope.type

theorem annDeleted_runs : ∃ middle last, (machine respond).moves
    (CoreCall.script plainCore) annWritten emailStart = some middle ∧
    (machine respond).moves (CoreCall.script plainCore) annDeleted middle = some last ∧
    contactsOf middle = [(annId, some "ann@example.com", true)] ∧ contactsOf last =
    [(annId, some "ann@example.com", false)] ∧
    typesOf last = ["contacts.upserted", "contacts.deleted"] := by
  have written : ((machine respond).moves (CoreCall.script plainCore) annWritten emailStart).map contactsOf =
      some [(annId, some "ann@example.com", true)] := by decide +kernel
  have deleted :
      ((machine respond).moves (CoreCall.script plainCore) annWritten emailStart).bind (fun middle =>
      ((machine respond).moves (CoreCall.script plainCore) annDeleted middle).map
        fun last => (contactsOf last, typesOf last)) =
      some ([(annId, some "ann@example.com", false)], ["contacts.upserted", "contacts.deleted"]) := by
        decide +kernel
  obtain ⟨middle, started, rest⟩ := Option.bind_eq_some_iff.mp deleted
  obtain ⟨last, ended, same⟩ := Option.map_eq_some_iff.mp rest
  rw [started] at written
  exact ⟨middle, last, started, ended, Option.some.inj written, congrArg Prod.fst same,
    congrArg Prod.snd same⟩

theorem annDeleted_spares : (annWritten ++ annDeleted).all
    (Move.starts (CoreCall.erasesOnly [])) = true := by decide

/-- Ann, deleted, is the same contact. -/
theorem contacts_advance_ann : ∃ middle last : CoreConfig, contactsOf middle =
    [(annId, some "ann@example.com", true)] ∧
    contactsOf last = [(annId, some "ann@example.com", false)] ∧
      ∀ contact, .contact contact ∈ middle.state.server.rows →
        ∃ later, .contact later ∈ last.state.server.rows ∧ contact.Before later ∧
        (later.version = contact.version → Remains last.state.server.rows contact.data later.data) := by
  obtain ⟨middle, last, started, ended, live, gone, -⟩ := annDeleted_runs
  obtain ⟨before, after⟩ := erasing_parts annDeleted_spares started ended
  exact ⟨middle, last, live, gone, fun contact present =>
    contacts_advance emailRows_opened before after present nofun⟩

/-- Both events of Ann are borne out after her deletion. -/
theorem events_backed_ann : ∃ config : CoreConfig, typesOf config =
    ["contacts.upserted", "contacts.deleted"] ∧
      ∀ message ∈ config.state.world.stream, Backed plainCore (· ∈ []) config.state.server.rows message ∧
      ∀ contact, .contact contact ∈ config.state.server.rows → Intact config.state.server.rows contact := by
  obtain ⟨middle, last, started, ended, -, -, published⟩ := annDeleted_runs
  obtain ⟨before, after⟩ := erasing_parts annDeleted_spares started ended
  exact ⟨last, published, fun message member => events_backed emailRows_opened
    (before.trans after) (.inr member)⟩

def optInRows : List Row :=
  [.definition ⟨31, "opt_in", .single_choice, [⟨1, "yes"⟩, ⟨2, "no"⟩], true, false, false, none⟩,
    .contact ⟨7, fun _ => none, none, none, 1, 0, 0, none, [fun _ => none]⟩]

def optInStart : CoreConfig := .start ⟨.holding optInRows, ⟨[], [], fun _ => none, []⟩⟩

theorem optInRows_opened : Opened plainCore optInRows ⟨[], [], fun _ => none, []⟩ := by
  refine ⟨by decide, fun contact member => ?_, fun definition member custom => ?_, fun lastId member => ?_,
    fun message there => ?_⟩
  · rcases List.mem_cons.mp member with is | member
    · cases is
    · cases List.mem_singleton.mp member
      rfl
  · rcases List.mem_cons.mp member with is | member
    · cases is
      cases custom
    · cases List.mem_singleton.mp member
  · rcases List.mem_cons.mp member with is | member
    · cases is
    · cases List.mem_singleton.mp member
  · rcases there with member | member
    · rcases List.mem_cons.mp member with is | member
      · cases is
      · cases List.mem_singleton.mp member
    · cases member

def optedIn : List (Move CoreCall Choices) :=
  .spawn 0 (.setConsent 0 (uuidText 7) ⟨.email, some 1, "form", some "I agree", none⟩) ::
    List.replicate 11 (.act 0 .none) ++
    .act 0 (.time 9) :: List.replicate 4 (.act 0 .none) ++
      .act 0 (.uuid 10 0 0) :: List.replicate 2 (.act 0 .none) ++
    .act 0 (.uuid 10 1 0) :: .act 0 (.time 9) :: List.replicate 4 (.act 0 .none) ++
    .act 0 (.uuid 10 2 0) :: .act 0 (.time 9) :: List.replicate 3 (.act 0 .none)

def erased7 : List (Move CoreCall Choices) :=
  .spawn 1 (.operation (.forget 7)) :: List.replicate 11 (.act 1 .none) ++
    .act 1 (.uuid 20 0 0) :: .act 1 (.time 20) ::
    List.replicate 5 (.act 1 .none)

def textsOf (config : CoreConfig) : List (Option String) := config.state.server.rows.filterMap fun row =>
  match row with
  | .consent consent => some consent.text
  | _ => none

theorem consents_kept_erased : ∃ middle last : CoreConfig, textsOf middle = [some "I agree"] ∧ textsOf last =
    [none] ∧
      ∀ consent, .consent consent ∈ middle.state.server.rows →
      ∃ later, .consent later ∈ last.state.server.rows ∧ consent.Before (· ∈ [7]) later := by
  have consented : ((machine respond).moves (CoreCall.script plainCore) optedIn optInStart).map textsOf =
      some [some "I agree"] := by
    decide +kernel
  have forgotten :
      ((machine respond).moves (CoreCall.script plainCore) optedIn optInStart).bind (fun middle =>
      ((machine respond).moves (CoreCall.script plainCore) erased7 middle).map textsOf) =
        some [none] := by decide +kernel
  obtain ⟨middle, started, rest⟩ := Option.bind_eq_some_iff.mp forgotten
  obtain ⟨last, ended, same⟩ := Option.map_eq_some_iff.mp rest
  rw [started] at consented
  have only : (optedIn ++ erased7).all (Move.starts (CoreCall.erasesOnly [7])) = true := by decide
  obtain ⟨before, after⟩ := erasing_parts only started ended
  exact ⟨middle, last, Option.some.inj consented, same,
    fun consent present => consents_kept optInRows_opened before after present⟩

def emptyStart : CoreConfig := .start ⟨.holding [], ⟨[], [], fun _ => none, []⟩⟩

theorem nothing_opened : Opened plainCore [] ⟨[], [], fun _ => none, []⟩ :=
  ⟨.nil, fun _ member => (by cases member), fun _ member => (by cases member),
    fun _ member => (by cases member), fun _ there => (by rcases there with member | member <;> cases member)⟩

def planMade : List (Move CoreCall Choices) :=
  .spawn 0 (.create 0 ⟨"plan", .single_choice, [⟨none, "a"⟩], false⟩) :: List.replicate 9 (.act 0 .none)

def planRemoved : List (Move CoreCall Choices) :=
  .spawn 1 (.remove 0 1000) :: List.replicate 4 (.act 1 .none) ++
    .act 1 (.time 9) :: List.replicate 11 (.act 1 .none)

theorem plan_runs : ∃ middle last, (machine respond).moves
    (CoreCall.script plainCore) planMade emptyStart = some middle ∧
    (machine respond).moves (CoreCall.script plainCore) planRemoved middle = some last ∧
    definitionsOf middle = [⟨1000, "plan", .single_choice, [⟨1, "a"⟩], false, false, false, none⟩] ∧
    definitionsOf last = [⟨1000, "plan", .single_choice, [⟨1, "a"⟩], false, false, false, some 9⟩] := by
  have made : ((machine respond).moves (CoreCall.script plainCore) planMade emptyStart).map definitionsOf =
      some [⟨1000, "plan", .single_choice, [⟨1, "a"⟩], false, false, false, none⟩] := by decide +kernel
  have removed : ((machine respond).moves (CoreCall.script plainCore) planMade emptyStart).bind (fun middle =>
      ((machine respond).moves (CoreCall.script plainCore) planRemoved middle).map definitionsOf) =
      some [⟨1000, "plan", .single_choice, [⟨1, "a"⟩], false, false, false, some 9⟩] := by decide +kernel
  obtain ⟨middle, started, rest⟩ := Option.bind_eq_some_iff.mp removed
  obtain ⟨last, ended, same⟩ := Option.map_eq_some_iff.mp rest
  rw [started] at made
  exact ⟨middle, last, started, ended, Option.some.inj made, same⟩

theorem plan_spares : (planMade ++ planRemoved).all (Move.starts (CoreCall.erasesOnly [])) = true := by decide

theorem fields_advance_plan : ∃ middle last : CoreConfig,
    definitionsOf middle = [⟨1000, "plan", .single_choice, [⟨1, "a"⟩], false, false, false, none⟩] ∧
    definitionsOf last = [⟨1000, "plan", .single_choice, [⟨1, "a"⟩], false, false, false, some 9⟩] ∧
    (∀ definition, .definition definition ∈ middle.state.server.rows →
      ∃ later, .definition later ∈ last.state.server.rows ∧ definition.Before later) ∧
    ∀ lastId, .counter lastId ∈ middle.state.server.rows →
    ∃ later, .counter later ∈ last.state.server.rows ∧ lastId ≤ later := by
  obtain ⟨middle, last, started, ended, made, removed⟩ := plan_runs
  obtain ⟨before, after⟩ := erasing_parts plan_spares started ended
  exact ⟨middle, last, made, removed, fields_advance nothing_opened before after⟩

/-- The field is counted after its deletion too. -/
theorem fields_counted_plan : ∃ config : CoreConfig,
    definitionsOf config = [⟨1000, "plan", .single_choice, [⟨1, "a"⟩], false, false, false, some 9⟩] ∧
      ∀ definition, .definition definition ∈ config.state.server.rows → definition.isSystem = false →
      1000 ≤ definition.fieldId ∧ ∃ lastId, .counter lastId ∈ config.state.server.rows ∧
      definition.fieldId ≤ lastId := by
  obtain ⟨middle, last, started, ended, -, removed⟩ := plan_runs
  obtain ⟨before, after⟩ := erasing_parts plan_spares started ended
  exact ⟨last, removed, fun definition present custom =>
    fields_counted nothing_opened (before.trans after) present custom⟩

end OpenEmarsys.Contacts
