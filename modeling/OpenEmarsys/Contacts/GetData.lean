import OpenEmarsys.Contacts.Keys

/-! `ContactsQueryService.getData`: the requested fields of the contacts behind a list of keys.

The fields are picked by one call of `jsonb_build_object` with two arguments a field, which Postgres
takes up to a bound.
-/

set_option autoImplicit false

namespace OpenEmarsys.Contacts

open Javascript Postgres

/-- `FUNC_MAX_ARGS` of Postgres. -/
def maxArguments : Nat := 100

def tooManyArguments : Failure := .error "cannot pass more than 100 arguments to a function"

/-- `jsonb_build_object('1', data->'1', ...)`, without the nulls. -/
def pickFields (ids : List Nat) (data : Data) : Data :=
  fun key => if key ∈ ids.map toString then data key else none

/-- The picked fields of the live contacts among `ids`. -/
def readFields (fieldIds : List Nat) (ids : List Uuid) : CoreScript (List (Uuid × Data)) :=
  transaction .read do
    if maxArguments < 2 * fieldIds.length then throw tooManyArguments
    let rows ← sql (.select (Row.isContact fun contact => contact.deletedAt.isNone &&
      ids.contains contact.id))
    pure ((rows.filterMap Row.contact?).map fun contact => (contact.id, pickFields fieldIds contact.data))

structure ContactData where
  id : Uuid
  /-- `null` is `none`. -/
  fields : List (Nat × Option Value)

structure DataError where
  index : Nat
  key : String
  code : Nat
  text : String

structure DataAnswer where
  result : List ContactData
  errors : List DataError

def noContact (index : Nat) (key : String) : DataError :=
  ⟨index, key, 2008, "no contact found for key " ++ key⟩

/-- What is found for a key: its id in `ids`, and the fields of that id. -/
def dataOf (fieldIds : List Nat) (ids : List (String × Uuid)) (byId : List (Uuid × Data)) (key : String) :
    Option ContactData := do
  let id ← ids.lookup key
  let f ← byId.lookup id
  pure ⟨id, fieldIds.map fun n => (n, f (toString n))⟩

/-- The loop over the keys, from an index on. -/
def collect (find : String → Option ContactData) : Nat → List String → DataAnswer
  | _, [] => ⟨[], []⟩
  | index, key :: rest =>
      let later := collect find (index + 1) rest
      match find key with
      | none => { later with errors := noContact index key :: later.errors }
      | some data => { later with result := data :: later.result }

def fieldsOf (fieldIds : List Nat) (ids : List (String × Uuid)) : CoreScript (List (Uuid × Data)) :=
  if ids.isEmpty then pure [] else readFields fieldIds (ids.map Prod.snd).dedup

/-- Requested fields of the contacts behind `keyValues`; missing keys come back as 2008 errors. -/
def getData (core : Core) (process : Nat) (keyId : String) (keyValues : List String) (fieldIds : List Nat) :
    CoreScript DataAnswer := do
  let defs ← fields process
  match fieldIds.find? fun f => (defs.get f).isNone with
  | some unknown => throw (.publicApi 2011 ("field " ++ toString unknown ++ " does not exist"))
  | none =>
      let ids ← resolve core process keyId keyValues
      let byId ← fieldsOf fieldIds ids
      pure (collect (dataOf fieldIds ids byId) 0 keyValues)

/-- A request that the controller and the checks of the service accept. -/
structure Requested (replies : (request : Request) → Response request) (process : Nat) (rows : List Row)
    (keyId : String) (keyValues : List String) (fieldIds : List Nat) : Prop where
  keys : 1 ≤ keyValues.length ∧ keyValues.length ≤ 1000
  isKey : IsKey replies process rows keyId
  fields : 1 ≤ fieldIds.length ∧ fieldIds.length ≤ 500
  distinct : fieldIds.Nodup
  existing : ∃ definitions, registryOf replies process rows = some definitions ∧
    ∀ f ∈ fieldIds, (definitions.get f).isSome

/-- The answers to the keys from an index on: each key contributes one entry, in order. -/
inductive Answers (core : Core) (rows : List Row) (keyId : String) (fieldIds : List Nat) :
    Nat → List String → List ContactData → List DataError → Prop where
  | done (index : Nat) : Answers core rows keyId fieldIds index [] [] []
  | missing {index : Nat} {key : String} {rest : List String} {result : List ContactData}
    {errors : List DataError}
      (nobody : ∀ id, ¬ Names core keyId rows key id) (later : Answers core rows keyId fieldIds
        (index + 1) rest result errors) :
      Answers core rows keyId fieldIds index (key :: rest) result (noContact index key :: errors)
  | found {index : Nat} {key : String} {rest : List String} {result : List ContactData}
    {errors : List DataError} {contact : Contact}
      (live : Live rows contact) (named : Names core keyId rows key contact.id)
      (later : Answers core rows keyId fieldIds (index + 1) rest result errors) :
      Answers core rows keyId fieldIds index (key :: rest)
        (⟨contact.id, fieldIds.map fun n => (n, contact.data (toString n))⟩ :: result) errors

/-- The call has returned an entry for each key and left the rows as they were. -/
def Answered (core : Core) (rows : List Row) (keyId : String) (keyValues : List String) (fieldIds : List Nat)
    (outcome : Except Failure DataAnswer × List Row) : Prop :=
  outcome.2 = rows ∧ ∃ answer, outcome.1 = .ok answer ∧
    Answers core rows keyId fieldIds 0 keyValues answer.result answer.errors

section Alone
variable {replies : (request : Request) → Response request} {core : Core} {process : Nat}
  {rows : List Row} {keyId : String}
  {keyValues : List String} {fieldIds : List Nat} {ids : List (String × Uuid)}

theorem readFields_runs (few : 2 * fieldIds.length ≤ maxArguments) (ids : List Uuid) :
    Runs replies (readFields fieldIds ids) rows
      (.ok (((rows.filter (Row.isContact fun contact => contact.deletedAt.isNone &&
        ids.contains contact.id)).filterMap Row.contact?).map
        fun contact => (contact.id, pickFields fieldIds contact.data))) rows := by
  refine Runs.transaction ?_
  rw [if_neg (Nat.not_lt.mpr few)]
  exact RunsIn.bind (RunsIn.sql rfl) (RunsIn.ret _)

theorem readFields_refused (many : maxArguments < 2 * fieldIds.length) (ids : List Uuid) :
    Runs replies (readFields fieldIds ids) rows (.error tooManyArguments) rows := by
  apply Runs.transaction_error
  rw [if_pos many]
  exact RunsIn.fail _

theorem lookup_picked (apart : rows.Pairwise NoClash) {ids : List Uuid} {contact : Contact}
    (live : Live rows contact) (asked : contact.id ∈ ids) :
    (((rows.filter (Row.isContact fun contact => contact.deletedAt.isNone &&
      ids.contains contact.id)).filterMap Row.contact?).map
      fun contact => (contact.id, pickFields fieldIds contact.data)).lookup contact.id =
      some (pickFields fieldIds contact.data) := by
  have held (other : Contact) : other ∈ (rows.filter (Row.isContact fun contact =>
      contact.deletedAt.isNone && ids.contains contact.id)).filterMap Row.contact? ↔
          Live rows other ∧ other.id ∈ ids := by
    rw [mem_contacts]
    simp [Row.isContact, Row.contact?, Live, and_assoc]
  rw [lookup_iff_mem]
  · exact List.mem_map.mpr ⟨contact, (held contact).mpr ⟨live, asked⟩, rfl⟩
  · intro first second here there
    obtain ⟨one, isOne, sameOne⟩ := List.mem_map.mp here
    obtain ⟨two, isTwo, sameTwo⟩ := List.mem_map.mp there
    obtain ⟨idOne, rfl⟩ := Prod.mk.inj sameOne
    obtain ⟨idTwo, rfl⟩ := Prod.mk.inj sameTwo
    rw [live_unique apart ((held two).mp isTwo).1 ((held one).mp isOne).1 (idTwo.trans idOne.symm)]

theorem fieldsOf_runs (few : 2 * fieldIds.length ≤ maxArguments ∨ ids = []) (apart : rows.Pairwise NoClash) :
    ∃ byId, Runs replies (fieldsOf fieldIds ids) rows (.ok byId) rows ∧
      ∀ contact, Live rows contact → contact.id ∈ ids.map Prod.snd → byId.lookup contact.id = some
      (pickFields fieldIds contact.data) := by
  unfold fieldsOf
  by_cases nothing : ids = []
  · rw [if_pos (List.isEmpty_iff.mpr nothing), nothing]
    exact ⟨[], Runs.ret _, fun _ _ member => by cases member⟩
  · rw [if_neg (by rwa [List.isEmpty_iff])]
    exact ⟨_, readFields_runs (few.resolve_right nothing) _,
      fun contact live member => lookup_picked apart live (List.mem_dedup.mpr member)⟩

theorem dataOf_missing {ids : List (String × Uuid)} {byId : List (Uuid × Data)} {key : String}
    (none_ : ids.lookup key = none) :
    dataOf fieldIds ids byId key = none := by
  simp [dataOf, none_]

theorem dataOf_found {ids : List (String × Uuid)} {byId : List (Uuid × Data)} {key : String} {id : Uuid}
    {data : Data}
    (found : ids.lookup key = some id) (picked : byId.lookup id = some (pickFields fieldIds data)) :
    dataOf fieldIds ids byId key = some ⟨id, fieldIds.map fun n => (n, data (toString n))⟩ := by
  have each : (fieldIds.map fun n => (n, pickFields fieldIds data (toString n))) = fieldIds.map
      fun n => (n, data (toString n)) := by
    refine List.map_congr_left fun n member => ?_
    rw [pickFields, if_pos (List.mem_map_of_mem member)]
  rw [← each]
  simp only [dataOf, found, picked, Option.bind_eq_bind, Option.bind_some, Option.pure_def]

theorem collect_answers {ids : List (String × Uuid)} {byId : List (Uuid × Data)} {keys : List String}
    (looked : ∀ key ∈ keys, ∀ id, ids.lookup key = some id ↔ Names core keyId rows key id)
    (picked : ∀ key ∈ keys, ∀ contact, Live rows contact → ids.lookup key = some contact.id →
      byId.lookup contact.id = some (pickFields fieldIds contact.data)) (index : Nat) :
    Answers core rows keyId fieldIds index keys (collect (dataOf fieldIds ids byId) index keys).result
      (collect (dataOf fieldIds ids byId) index keys).errors := by
  induction keys generalizing index with
  | nil => exact .done index
  | cons key rest ih =>
    have later := ih (fun other member => looked other (List.mem_cons_of_mem _ member))
      (fun other member => picked other (List.mem_cons_of_mem _ member)) (index + 1)
    have head := looked key (List.mem_cons_self ..)
    rw [collect]
    cases found : ids.lookup key with
    | none =>
      rw [dataOf_missing found]
      refine .missing (fun id named => ?_) later
      cases found.symm.trans ((head id).mpr named)
    | some id =>
      obtain ⟨contact, live, rfl, -⟩ := (head id).mp found
      rw [dataOf_found found (picked key (List.mem_cons_self ..) contact live found)]
      exact .found live ((head contact.id).mp found) later

theorem answersOf_nil (apart : rows.Pairwise NoClash) :
    answersOf core keyId keyValues rows = [] ↔ ∀ key ∈ keyValues, ∀ id, ¬ Names core keyId rows key id := by
  constructor
  · intro nothing key asked id named
    have found := (lookup_answersOf apart asked).mpr named
    rw [nothing] at found
    cases found
  · intro nobody
    rw [answersOf, List.filterMap_eq_nil_iff]
    intro key asked
    cases found : (foundIn core keyId keyValues rows).lookup (normFor core keyId key) with
    | none => rfl
    | some id => exact absurd ((lookup_foundIn apart asked).mp found) (nobody key asked id)

/-- The call returns an entry for each key if and only if every key can be sent to the database, and the
fields fit into one call or no key names a live contact. -/
theorem getData_answers_iff (apart : rows.Pairwise NoClash)
    (request : Requested replies process rows keyId keyValues fieldIds) :
    Answered core rows keyId keyValues fieldIds
    (alone replies (getData core process keyId keyValues fieldIds) rows) ↔
        Sendable core keyId keyValues ∧
        (2 * fieldIds.length ≤ maxArguments ∨ ∀ key ∈ keyValues, ∀ id, ¬ Names core keyId rows key id) := by
  obtain ⟨definitions, known, existing⟩ := request.existing
  have defined : (fieldIds.find? fun f => (definitions.get f).isNone) = none := by
    rw [List.find?_eq_none]
    intro f member
    rw [Bool.not_eq_true, ← Option.not_isSome, existing f member]
    rfl
  have starts {result : Except Failure DataAnswer} (rest : Runs replies (do
      let ids ← resolve core process keyId keyValues
      let byId ← fieldsOf fieldIds ids
      pure (collect (dataOf fieldIds ids byId) 0 keyValues)) rows result rows) :
      alone replies (getData core process keyId keyValues fieldIds) rows = (result, rows) := by
    refine Runs.alone (Runs.bind (fields_runs known) ?_)
    rw [defined]
    exact rest
  have refused {error : Failure} (ends : alone replies (getData core process keyId keyValues fieldIds) rows =
    (.error error, rows)) :
      ¬ Answered core rows keyId keyValues fieldIds (alone replies
          (getData core process keyId keyValues fieldIds) rows) := by
    rintro ⟨-, answer, same, -⟩
    rw [ends] at same
    cases same
  by_cases sendable : Sendable core keyId keyValues
  · have resolves := resolve_runs core request.isKey keyValues sendable
    have looked (key : String) (asked : key ∈ keyValues) (id : Uuid) :
        (answersOf core keyId keyValues rows).lookup key = some id ↔ Names core keyId rows key id :=
          lookup_answersOf apart asked
    rw [and_iff_right sendable, ← answersOf_nil apart]
    by_cases few : 2 * fieldIds.length ≤ maxArguments ∨ answersOf core keyId keyValues rows = []
    · refine iff_of_true ?_ few
      obtain ⟨byId, reads, picked⟩ := fieldsOf_runs few apart
      rw [starts (resolves.bind (reads.bind (Runs.ret _)))]
      refine ⟨rfl, _, rfl, collect_answers looked (fun key asked contact live found => ?_) 0⟩
      exact picked contact live (List.mem_map.mpr ⟨_, mem_of_lookup found, rfl⟩)
    · have fails : Runs replies (fieldsOf fieldIds (answersOf core keyId keyValues rows)) rows
          (.error tooManyArguments) rows := by
        rw [not_or, Nat.not_le] at few
        rw [fieldsOf, if_neg (by rw [List.isEmpty_iff]; exact few.2)]
        exact readFields_refused few.1 _
      exact iff_of_false (refused (starts (resolves.bind fails.bind_error))) few
  · refine iff_of_false (refused (starts (resolve_refused core request.isKey keyValues sendable).bind_error))
      fun holds => sendable holds.1

end Alone

def bob : Contact := ⟨17, fun key => if key = "7" then some (.boolean true)
    else none, none, none, 1, 0, 0, none, []⟩

/-- Bob, and fields 1 to `count`. -/
def bobRows (count : Nat) : List Row :=
  .contact bob :: (List.range count).map
    fun n => .definition ⟨n + 1, "field" ++ toString n, .boolean, [], false, false, false, none⟩

def bobKeys : List String := ["00000000-0000-0000-0000-000000000011", "bob"]

/-- Fields 1 to `count`. -/
def firstFields (count : Nat) : List Nat := (List.range count).map (· + 1)

theorem bobRows_apart : (bobRows 51).Pairwise NoClash := by decide +kernel

/-- Bob is found and the other key is reported, with as many fields as fit into one call. -/
theorem getData_answers_bob : Requested coldReplies 0 (bobRows 51) "id" bobKeys (firstFields 50) ∧
    Answered plainCore (bobRows 51) "id" bobKeys (firstFields 50)
      (alone coldReplies (getData plainCore 0 "id" bobKeys (firstFields 50)) (bobRows 51)) := by
  have request : Requested coldReplies 0 (bobRows 51) "id" bobKeys (firstFields 50) :=
    ⟨by decide, .inl rfl, by decide, by decide, _, rfl, by decide +kernel⟩
  exact ⟨request, (getData_answers_iff bobRows_apart request).mpr ⟨fun _ _ => .inl rfl, .inl (by decide)⟩⟩

/-- With one field more the call throws. -/
theorem many_fields_refused : ¬ ∀ (replies : (request : Request) → Response request) (core : Core)
    (process : Nat) (rows : List Row)
    (keyId : String) (keyValues : List String) (fieldIds : List Nat), rows.Pairwise NoClash →
      Requested replies process rows keyId keyValues fieldIds →
      Answered core rows keyId keyValues fieldIds
      (alone replies (getData core process keyId keyValues fieldIds) rows) := by
  intro all
  have request : Requested coldReplies 0 (bobRows 51) "id" bobKeys (firstFields 51) :=
    ⟨by decide, .inl rfl, by decide, by decide, _, rfl, by decide +kernel⟩
  have throws : (alone coldReplies (getData plainCore 0 "id" bobKeys (firstFields 51)) (bobRows 51)).1.isOk =
    false := by decide +kernel
  obtain ⟨-, answer, returned, -⟩ :=
    all coldReplies plainCore 0 (bobRows 51) "id" bobKeys (firstFields 51) bobRows_apart request
  rw [returned] at throws
  cases throws

end OpenEmarsys.Contacts
