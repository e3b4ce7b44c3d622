import Mathlib.Data.List.Dedup
import OpenEmarsys.Contacts.Generated
import OpenEmarsys.Javascript.Objects
import OpenEmarsys.Javascript.Uuids
import OpenEmarsys.Postgres.Alone

/-! Which contact a key names, for the database and for `KeyResolver.resolve`.

The database compares uuids, generated columns and stored texts. `resolve` compares the keys it has
normalized itself with the columns it gets back, so the two differ wherever their normal forms do.
-/

set_option autoImplicit false

namespace OpenEmarsys.Contacts

open Javascript Postgres
open Interleaving (Move)

/-- Bytes of two digits each, and what follows them. A hyphen may stand after every second byte but the
last. -/
def readBytes : Nat → Nat → List Char → Option (Nat × List Char)
  | 0, n, rest => some (n, rest)
  | left + 1, n, a :: b :: rest =>
      if isHex a && isHex b then
        readBytes left (16 * (16 * n + hexDigit a) + hexDigit b)
          (if left % 2 = 0 ∧ 0 < left ∧ rest.head? = some '-' then rest.tail else rest)
      else none
  | _ + 1, _, _ => none

/-- `text::uuid`: sixteen bytes, in braces or not. -/
def readUuid (text : String) : Option Uuid :=
  let braces := text.toList.head? = some '{'
  match readBytes 16 0 (if braces then text.toList.tail else text.toList) with
  | some (id, rest) => if rest = (if braces then ['}'] else []) then some id else none
  | none => none

/-- `nullif(lower(trim(text)), '')`. -/
def Core.emailNormOf (core : Core) (text : String) : Option String := nullifEmpty (core.lower (pgTrim text))

/-- `nullif(trim(text), '')`. -/
def externalIdOf (text : String) : Option String := nullifEmpty (pgTrim text)

def Live (rows : List Row) (contact : Contact) : Prop := .contact contact ∈ rows ∧ contact.deletedAt = none

/-- Equal and not null, as `=` in a condition asks. -/
def SqlEqual (left right : Option String) : Prop := ∃ text, left = some text ∧ right = some text

/-- The contact is the live one that the value denotes. -/
def Denotes (core : Core) (keyId : String) (rows : List Row) (value : String) (contact : Contact) : Prop :=
  Live rows contact ∧
    if keyId = "id" then readUuid value = some contact.id
    else if keyId = "3" then SqlEqual contact.emailNorm (core.emailNormOf value)
    else if keyId = "4" then SqlEqual contact.externalId (externalIdOf value)
    else .uniqueValue ⟨fieldNumber keyId, value, contact.id⟩ ∈ rows

theorem readBytes_lt {left n id : Nat} {chars rest : List Char}
    (reads : readBytes left n chars = some (id, rest)) :
    id < (n + 1) * 256 ^ left := by
  induction left generalizing n chars with
  | zero =>
    cases reads
    omega
  | succ left ih =>
    match chars with
    | [] => cases reads
    | [_] => cases reads
    | a :: b :: more =>
      rw [readBytes] at reads
      split at reads
      · next hex =>
        rw [Bool.and_eq_true] at hex
        have high := hexDigit_lt hex.1
        have low := hexDigit_lt hex.2
        refine Nat.lt_of_lt_of_le (ih reads) ?_
        calc (16 * (16 * n + hexDigit a) + hexDigit b + 1) * 256 ^ left ≤ (256 * (n + 1)) * 256 ^ left :=
          Nat.mul_le_mul_right _ (by omega)
          _ = (n + 1) * 256 ^ (left + 1) := by ring
      · cases reads

theorem readUuid_lt {text : String} {id : Uuid} (reads : readUuid text = some id) : id < 2 ^ 128 := by
  simp only [readUuid] at reads
  cases bytes : readBytes 16 0 (if text.toList.head? = some '{' then text.toList.tail else text.toList) with
  | none => simp [bytes] at reads
  | some found =>
    simp only [bytes, Option.ite_none_right_eq_some, Option.some.injEq] at reads
    exact reads.2 ▸ readBytes_lt bytes

theorem readBytes_group (count : Nat) {digits : List Char} (hex : ∀ c ∈ digits, isHex c = true)
    (length : digits.length = 2 * (count + 1))
    (left n : Nat) (rest : List Char) : readBytes (left + count + 1) n (digits ++ rest) =
      readBytes left (hexFrom n digits) (if left % 2 = 0 ∧ 0 < left ∧ rest.head? = some '-'
        then rest.tail else rest) := by
  induction count generalizing n digits with
  | zero =>
    match digits, length with
    | [a, b], _ =>
      have both : (isHex a && isHex b) = true := by simp [hex a, hex b]
      rw [List.cons_append, List.cons_append, List.nil_append, readBytes, if_pos both]
      rfl
  | succ count ih =>
    match digits, length with
    | a :: b :: c :: more, length =>
      have both : (isHex a && isHex b) = true := by simp [hex a, hex b]
      -- what follows the first byte is a digit
      have digit : (c :: more ++ rest).head? ≠ some '-' := by
        intro hyphen
        have is : isHex c = true := hex c (by simp)
        rw [Option.some.inj (hyphen : some c = some '-')] at is
        cases is
      have shorter : (c :: more).length = 2 * (count + 1) := by
        simp only [List.length_cons] at length ⊢
        omega
      have others : ∀ other ∈ c :: more, isHex other = true :=
        fun other member => hex other (List.mem_cons_of_mem _ (List.mem_cons_of_mem _ member))
      have later := ih others shorter (16 * (16 * n + hexDigit a) + hexDigit b)
      rw [List.cons_append, List.cons_append, show left + (count + 1) + 1 = (left + count + 1) +
        1 by omega, readBytes, if_pos both,
        if_neg fun holds => digit holds.2.2, later]
      rfl

theorem readUuid_text {id : Uuid} (small : id < 2 ^ 128) : readUuid (uuidText id) = some id := by
  have hex := uuidDigits_hex id
  obtain ⟨a, b, c, d, e, whole, text, la, lb, lc, ld, le⟩ := parts_of_length (uuidDigits_length small)
  have value := uuidDigits_value id
  rw [whole] at hex value
  simp only [List.forall_mem_append] at hex
  obtain ⟨ha, hb, hc, hd, he⟩ := hex
  have bytes : readBytes 16 0 (uuidText id).toList = some (id, []) := by
    rw [uuidText_toList, text, readBytes_group 3 ha la 12]
    simp only [List.head?_cons, List.tail_cons]
    rw [if_pos (by decide), readBytes_group 1 hb lb 10]
    simp only [List.head?_cons, List.tail_cons]
    rw [if_pos (by decide), readBytes_group 1 hc lc 8]
    simp only [List.head?_cons, List.tail_cons]
    rw [if_pos (by decide), readBytes_group 1 hd ld 6]
    simp only [List.head?_cons, List.tail_cons]
    rw [if_pos (by decide), ← List.append_nil e, readBytes_group 5 he le 0, if_neg (by decide)]
    simp only [hexFrom_append] at value
    rw [readBytes, value]
  have bare : (uuidText id).toList.head? ≠ some '{' := by
    intro brace
    have first : '{' ∈ (uuidText id).toList := List.mem_of_mem_head? brace
    rcases isUuid_char (uuidText_isUuid small).1 first with same | is
    · cases same
    · cases is
  simp [readUuid, bare, bytes]

/-- What `resolve` takes the value for: the columns it gets back are compared with its own normal form. -/
def Names (core : Core) (keyId : String) (rows : List Row) (value : String) (id : Uuid) : Prop :=
  ∃ contact, Live rows contact ∧ contact.id = id ∧
    if keyId = "id" then id < 2 ^ 128 ∧ value = uuidText id
    else if keyId = "3" then contact.emailNorm = some (normFor core keyId value)
    else if keyId = "4" then contact.externalId = some (normFor core keyId value)
    else .uniqueValue ⟨fieldNumber keyId, value, id⟩ ∈ rows

def keysOf (core : Core) (keyId : String) (values : List String) : List String :=
  (values.map (normFor core keyId)).dedup.filter fun key => keyId ≠ "id" || isUuid key

def foundIn (core : Core) (keyId : String) (values : List String) (rows : List Row) : List (String × Uuid) :=
  keyColumns keyId (rows.filter (matchesKey keyId (keysOf core keyId values)))

theorem mem_contacts {rows : List Row} {p : Row → Bool} {contact : Contact} :
    contact ∈ (rows.filter p).filterMap Row.contact? ↔ .contact contact ∈ rows ∧ p
    (.contact contact) = true := by
  rw [List.mem_filterMap]
  constructor
  · rintro ⟨row, member, is⟩
    cases row with
    | contact found =>
      cases is
      exact List.mem_filter.mp member
    | _ => cases is
  · exact fun held => ⟨.contact contact, List.mem_filter.mpr held, rfl⟩

theorem mem_uniqueValues {rows : List Row} {p : Row → Bool} {value : UniqueValue} :
    value ∈ (rows.filter p).filterMap Row.uniqueValue? ↔ .uniqueValue value ∈ rows ∧ p
    (.uniqueValue value) = true := by
  rw [List.mem_filterMap]
  constructor
  · rintro ⟨row, member, is⟩
    cases row with
    | uniqueValue found =>
      cases is
      exact List.mem_filter.mp member
    | _ => cases is
  · exact fun held => ⟨.uniqueValue value, List.mem_filter.mpr held, rfl⟩

section Found
variable {core : Core} {keyId : String} {values : List String} {rows : List Row} {key : String} {id : Uuid}

theorem mem_keysOf : key ∈ keysOf core keyId values ↔ (∃ value ∈ values, normFor core keyId value = key) ∧
    (keyId = "id" → isUuid key = true) := by
  rw [keysOf, List.mem_filter, List.mem_dedup, List.mem_map]
  refine and_congr_right fun _ => ?_
  by_cases byId : keyId = "id" <;> simp [byId]

theorem mem_foundIn_id : (key, id) ∈ foundIn core "id" values rows ↔
    key = uuidText id ∧ (∃ contact, Live rows contact ∧ contact.id = id) ∧
    ∃ other ∈ keysOf core "id" values, uuidOf other = id := by
  rw [foundIn, keyColumns, if_pos rfl, List.mem_map]
  constructor
  · rintro ⟨contact, member, same⟩
    cases same
    obtain ⟨present, holds⟩ := mem_contacts.mp member
    simp only [matchesKey, if_pos, Bool.and_eq_true, Option.isNone_iff_eq_none, List.contains_iff_mem,
      List.mem_map] at holds
    exact ⟨rfl, ⟨contact, ⟨present, holds.1⟩, rfl⟩, holds.2⟩
  · rintro ⟨rfl, ⟨contact, live, rfl⟩, other, asked, same⟩
    refine ⟨contact, mem_contacts.mpr ⟨live.1, ?_⟩, rfl⟩
    simp only [matchesKey, if_pos, Bool.and_eq_true, Option.isNone_iff_eq_none,
      List.contains_iff_mem, List.mem_map]
    exact ⟨live.2, other, asked, same⟩

theorem mem_column (column : Contact → Option String) {keys : List String} {p : Row → Bool}
    (reads : ∀ contact, p (.contact contact) = (contact.deletedAt.isNone &&
      (column contact).any keys.contains)) :
    (key, id) ∈ ((rows.filter p).filterMap Row.contact?).filterMap
    (fun contact => (column contact).map (·, contact.id)) ↔
      (∃ contact, Live rows contact ∧ contact.id = id ∧ column contact = some key) ∧ key ∈ keys := by
  rw [List.mem_filterMap]
  constructor
  · rintro ⟨contact, member, same⟩
    obtain ⟨present, holds⟩ := mem_contacts.mp member
    obtain ⟨norm, held, same⟩ := Option.map_eq_some_iff.mp same
    cases same
    simp only [reads, held, Bool.and_eq_true, Option.isNone_iff_eq_none, Option.any_some,
      List.contains_iff_mem] at holds
    exact ⟨⟨contact, ⟨present, holds.1⟩, rfl, held⟩, holds.2⟩
  · rintro ⟨⟨contact, live, rfl, held⟩, asked⟩
    refine ⟨contact, mem_contacts.mpr ⟨live.1, ?_⟩, by rw [held]; rfl⟩
    simp only [reads, held, Bool.and_eq_true, Option.isNone_iff_eq_none, Option.any_some,
      List.contains_iff_mem]
    exact ⟨live.2, asked⟩

theorem mem_foundIn_email : (key, id) ∈ foundIn core "3" values rows ↔
    (∃ contact, Live rows contact ∧ contact.id = id ∧ contact.emailNorm = some key) ∧
    key ∈ keysOf core "3" values :=
  mem_column Contact.emailNorm fun _ => rfl

theorem mem_foundIn_external : (key, id) ∈ foundIn core "4" values rows ↔
    (∃ contact, Live rows contact ∧ contact.id = id ∧ contact.externalId = some key) ∧
    key ∈ keysOf core "4" values :=
  mem_column Contact.externalId fun _ => rfl

theorem mem_foundIn_value (notId : keyId ≠ "id") (notEmail : keyId ≠ "3") (notExternal : keyId ≠ "4") :
    (key, id) ∈ foundIn core keyId values rows ↔
      ((∃ contact, Live rows contact ∧ contact.id = id) ∧ .uniqueValue ⟨fieldNumber keyId, key, id⟩ ∈ rows) ∧
      key ∈ keysOf core keyId values := by
  rw [foundIn, keyColumns, if_neg notId, if_neg notEmail, if_neg notExternal, List.mem_filterMap]
  constructor
  · rintro ⟨value, member, same⟩
    obtain ⟨present, holds⟩ := mem_uniqueValues.mp member
    simp only [Option.ite_none_right_eq_some, List.any_eq_true, beq_iff_eq, Option.some.injEq,
      Prod.mk.injEq] at same
    obtain ⟨⟨contact, joined, owner⟩, rfl, rfl⟩ := same
    obtain ⟨there, live⟩ := mem_contacts.mp joined
    simp only [matchesKey, notId, notEmail, notExternal, if_false, Bool.and_true,
      Option.isNone_iff_eq_none] at live
    simp only [matchesKey, notId, notEmail, notExternal, ne_eq, not_false_eq_true, decide_true, Bool.true_and,
      Bool.and_eq_true, beq_iff_eq,
      List.contains_iff_mem] at holds
    exact ⟨⟨⟨contact, ⟨there, live⟩, owner⟩, holds.1 ▸ present⟩, holds.2⟩
  · rintro ⟨⟨⟨contact, live, rfl⟩, present⟩, asked⟩
    refine ⟨_, mem_uniqueValues.mpr ⟨present, ?_⟩, ?_⟩
    · simp only [matchesKey, notId, notEmail, notExternal, ne_eq, not_false_eq_true, decide_true,
        Bool.true_and, Bool.and_eq_true, beq_iff_eq,
        List.contains_iff_mem]
      exact ⟨trivial, asked⟩
    · rw [if_pos]
      refine List.any_eq_true.mpr ⟨contact, mem_contacts.mpr ⟨live.1, ?_⟩, beq_self_eq_true _⟩
      simp [matchesKey, notId, notEmail, notExternal, live.2]

theorem foundIn_once (apart : rows.Pairwise NoClash) {other : Uuid}
    (first : (key, id) ∈ foundIn core keyId values rows)
    (second : (key, other) ∈ foundIn core keyId values rows) : id = other := by
  have sameContact {contact another : Contact} (here : Live rows contact) (there : Live rows another)
      (meets : clash (Row.contact contact) (.contact another) = true) : contact.id = another.id := by
    cases eq_of_clash apart here.1 there.1 meets
    rfl
  by_cases byId : keyId = "id"
  · subst byId
    obtain ⟨rfl, -, asked, member, rfl⟩ := mem_foundIn_id.mp first
    obtain ⟨same, -, again, also, rfl⟩ := mem_foundIn_id.mp second
    exact uuidText_injective (uuidOf_lt ((mem_keysOf.mp member).2 rfl))
      (uuidOf_lt ((mem_keysOf.mp also).2 rfl)) same
  by_cases byEmail : keyId = "3"
  · subst byEmail
    obtain ⟨⟨contact, live, rfl, held⟩, -⟩ := mem_foundIn_email.mp first
    obtain ⟨⟨another, also, rfl, same⟩, -⟩ := mem_foundIn_email.mp second
    refine sameContact live also (clash_iff.mpr ⟨.email key, ?_, ?_⟩)
    · simp [keys, Indexed.uniques, live.2, held]
    · simp [keys, Indexed.uniques, also.2, same]
  by_cases byExternal : keyId = "4"
  · subst byExternal
    obtain ⟨⟨contact, live, rfl, held⟩, -⟩ := mem_foundIn_external.mp first
    obtain ⟨⟨another, also, rfl, same⟩, -⟩ := mem_foundIn_external.mp second
    refine sameContact live also (clash_iff.mpr ⟨.externalId key, ?_, ?_⟩)
    · simp [keys, Indexed.uniques, live.2, held]
    · simp [keys, Indexed.uniques, also.2, same]
  · obtain ⟨⟨-, here⟩, -⟩ := (mem_foundIn_value byId byEmail byExternal).mp first
    obtain ⟨⟨-, there⟩, -⟩ := (mem_foundIn_value byId byEmail byExternal).mp second
    cases eq_of_primary apart here there rfl
    rfl

end Found

theorem lookup_filterMap {f : String → Option Uuid} {values : List String} {value : String} :
    (values.filterMap fun value => (f value).map (value, ·)).lookup value = if value ∈ values
    then f value else none := by
  induction values with
  | nil => rfl
  | cons head rest ih =>
    by_cases same : value = head
    · subst same
      cases found : f value with
      | none =>
        rw [List.filterMap_cons_none (by simp [found]), ih, if_pos (List.mem_cons_self ..), found]
        split <;> rfl
      | some id => simp [found]
    · cases found : f head with
      | none =>
        rw [List.filterMap_cons_none (by simp [found]), ih]
        simp [same]
      | some id =>
        rw [List.filterMap_cons_some (by simp [found]; rfl), List.lookup_cons]
        have differs : (value == head) = false := beq_eq_false_iff_ne.mpr same
        simp [differs, ih, same]

/-! ## resolve, by itself -/

section Alone
variable (replies : (request : Request) → Response request) {process : Nat} {rows : List Row}

/-- The definitions `FieldRegistry.fields` returns, from the cache or the table. -/
def registryOf (process : Nat) (rows : List Row) : Option Definitions :=
  match (replies (.lookup process) : Lookup) with
  | .hit promise => replies (.settled promise)
  | .miss _ => some (byFieldId (rows.filter liveDefinition))

/-- The key is `id` or a unique field. -/
def IsKey (process : Nat) (rows : List Row) (keyId : String) : Prop :=
  keyId = "id" ∨ isDigits keyId = true ∧ ∃ definitions definition,
    registryOf replies process rows = some definitions ∧
    definitions.get (fieldNumber keyId) = some definition ∧ definition.unique = true

variable {replies}

theorem fields_runs {definitions : Definitions} (known : registryOf replies process rows = some definitions) :
    Runs replies (fields process) rows (.ok definitions) rows := by
  unfold registryOf at known
  refine Runs.bind (Runs.ask (Request.lookup process)) ?_
  cases found : (replies (.lookup process) : Lookup) with
  | hit promise =>
    rw [found] at known
    refine Runs.bind (Runs.ask (Request.settled promise)) ?_
    have settled : replies (Request.settled promise) = some definitions := known
    rw [settled]
    exact Runs.ret definitions
  | miss promise =>
    rw [found] at known
    cases known
    have query : Runs replies (do
        let rows ← transaction .read (sql (.select liveDefinition))
        call (.settle process promise (some (byFieldId rows)))
        pure (byFieldId rows) : CoreScript Definitions) rows
            (.ok (byFieldId (rows.filter liveDefinition))) rows :=
      Runs.bind (Runs.transaction (RunsIn.sql rfl)) (Runs.bind (Runs.ask _) (Runs.ret _))
    rw [Runs, Interleaving.Script.eval_handle, show _ = _ from query]

theorem assertKey_runs {keyId : String} (isKey : IsKey replies process rows keyId) :
    Runs replies (assertKey process keyId) rows (.ok ()) rows := by
  unfold assertKey
  by_cases byId : keyId = "id"
  · rw [if_pos byId]
    exact Runs.ret ()
  · obtain ⟨digits, definitions, definition, known, found, unique⟩ := isKey.resolve_left byId
    rw [if_neg byId]
    dsimp only
    rw [if_pos digits]
    refine Runs.bind (fields_runs known) (Runs.bind (Runs.ret _) ?_)
    rw [found]
    dsimp only
    rw [if_pos unique]
    exact Runs.ret ()

theorem assertKey_refused {keyId : String} {definitions : Definitions}
    (known : registryOf replies process rows = some definitions)
    (not_ : ¬ IsKey replies process rows keyId) : ∃ error, Runs replies (assertKey process keyId) rows
    (.error error) rows := by
  have notId : keyId ≠ "id" := fun same => not_ (.inl same)
  refine ⟨.publicApi 2009 s!"key_id {keyId} does not exist or is not unique", ?_⟩
  unfold assertKey
  rw [if_neg notId]
  dsimp only
  by_cases digits : isDigits keyId = true
  · rw [if_pos digits]
    refine Runs.bind (fields_runs known) (Runs.bind (Runs.ret _) ?_)
    cases found : definitions.get (fieldNumber keyId) with
    | none => exact Runs.fail _
    | some definition =>
      dsimp only
      rw [if_neg fun unique => not_ (.inr ⟨digits, definitions, definition, known, found, unique⟩)]
      exact Runs.fail _
  · rw [if_neg digits]
    exact Runs.bind (Runs.ret _) (Runs.fail _)

/-- The texts the query carries can be sent to the database. -/
def Sendable (core : Core) (keyId : String) (values : List String) : Prop :=
  ∀ value ∈ values, keyId = "id" ∨ storableText (normFor core keyId value) = true

theorem isUuid_storable {text : String} (is : isUuid text = true) : storableText text = true := by
  rw [storableText, Bool.not_eq_true', Bool.eq_false_iff, ne_eq, List.contains_iff_mem]
  intro member
  rcases isUuid_char is member with same | hex
  · cases same
  · cases hex

theorem keysOf_storable {core : Core} {keyId : String} {values : List String} :
    (keysOf core keyId values).all storableText = true ↔ Sendable core keyId values := by
  rw [List.all_eq_true]
  constructor
  · intro all value member
    by_cases byId : keyId = "id"
    · exact .inl byId
    · exact .inr (all _ (mem_keysOf.mpr ⟨⟨value, member, rfl⟩, fun same => absurd same byId⟩))
  · intro sendable key member
    obtain ⟨⟨value, asked, rfl⟩, uuid⟩ := mem_keysOf.mp member
    rcases sendable value asked with byId | storable
    · exact isUuid_storable (uuid byId)
    · exact storable

theorem foundIn_nil {core : Core} {keyId : String} {values : List String}
    (nothing : keysOf core keyId values = []) :
    foundIn core keyId values rows = [] := by
  refine List.eq_nil_iff_forall_not_mem.mpr fun entry member => ?_
  have asked : ∃ key, key ∈ keysOf core keyId values := by
    by_cases byId : keyId = "id"
    · subst byId
      obtain ⟨-, -, other, member, -⟩ := mem_foundIn_id.mp member
      exact ⟨other, member⟩
    by_cases byEmail : keyId = "3"
    · subst byEmail
      exact ⟨_, (mem_foundIn_email.mp member).2⟩
    by_cases byExternal : keyId = "4"
    · subst byExternal
      exact ⟨_, (mem_foundIn_external.mp member).2⟩
    · exact ⟨_, ((mem_foundIn_value byId byEmail byExternal).mp member).2⟩
  obtain ⟨key, member⟩ := asked
  rw [nothing] at member
  cases member

/-- What `resolve` maps each value to. -/
def answersOf (core : Core) (keyId : String) (values : List String) (rows : List Row) :
    List (String × Uuid) :=
  values.filterMap
    fun value => ((foundIn core keyId values rows).lookup (normFor core keyId value)).map (value, ·)

theorem resolve_runs (core : Core) {keyId : String} (isKey : IsKey replies process rows keyId)
    (values : List String) (sendable : Sendable core keyId values) :
    Runs replies (resolve core process keyId values) rows (.ok (answersOf core keyId values rows)) rows := by
  refine Runs.seq (assertKey_runs isKey) ?_
  dsimp only
  change Runs replies (if (keysOf core keyId values).isEmpty then _ else _) rows _ rows
  by_cases nothing : keysOf core keyId values = []
  · rw [if_pos (by rw [nothing]; rfl), answersOf, foundIn_nil nothing]
    exact Runs.ret _
  · rw [if_neg (by rwa [List.isEmpty_iff])]
    refine Runs.bind (Runs.transaction ?_) (Runs.ret _)
    have storable : ¬ (!(keysOf core keyId values).all storableText) = true := by
      rw [keysOf_storable.mpr sendable]; decide
    change RunsIn replies (if (!(keysOf core keyId values).all storableText) = true then _ else _) rows _ _
    rw [if_neg storable]
    exact RunsIn.bind (RunsIn.sql rfl) (RunsIn.ret _)

theorem resolve_refused (core : Core) {keyId : String} (isKey : IsKey replies process rows keyId)
    (values : List String) (not_ : ¬ Sendable core keyId values) :
    Runs replies (resolve core process keyId values) rows (.error (.sql .untranslatable)) rows := by
  have refused : (keysOf core keyId values).all storableText = false := by
    rwa [Bool.eq_false_iff, ne_eq, keysOf_storable]
  refine Runs.seq (assertKey_runs isKey) ?_
  dsimp only
  change Runs replies (if (keysOf core keyId values).isEmpty then _ else _) rows _ rows
  have some_ : ¬ (keysOf core keyId values).isEmpty = true := by
    intro nothing
    rw [List.isEmpty_iff.mp nothing] at refused
    cases refused
  rw [if_neg some_]
  have unsent : (!(keysOf core keyId values).all storableText) = true := by rw [refused]; rfl
  apply Runs.bind_error
  apply Runs.transaction_error
  change RunsIn replies (if (!(keysOf core keyId values).all storableText) = true then _ else _) rows _ _
  rw [if_pos unsent]
  exact RunsIn.fail _

-- A call that returns was asked for a key, could send its values and returns the answers to them.
theorem resolve_returned {core : Core} {keyId : String} {definitions : Definitions}
    (known : registryOf replies process rows = some definitions)
    {values : List String} {found : List (String × Uuid)}
    (returned : (alone replies (resolve core process keyId values) rows).1 = .ok found) :
    IsKey replies process rows keyId ∧ Sendable core keyId values ∧
    found = answersOf core keyId values rows := by
  by_cases isKey : IsKey replies process rows keyId
  · by_cases sendable : Sendable core keyId values
    · rw [(resolve_runs core isKey values sendable).alone] at returned
      exact ⟨isKey, sendable, (Except.ok.inj returned).symm⟩
    · rw [(resolve_refused core isKey values sendable).alone] at returned
      cases returned
  · obtain ⟨error, refused⟩ := assertKey_refused known isKey
    have fails : Runs replies (resolve core process keyId values) rows (.error error) rows :=
      refused.bind_error
    rw [fails.alone] at returned
    cases returned

end Alone

/-! ## When the two agree -/

def Unheld (rows : List Row) (column : Contact → Option String) (text : Option String) : Prop :=
  ∀ contact, Live rows contact → ¬ SqlEqual (column contact) text

/-- The normal form of the code is that of the column, or neither is there. -/
def Alike (rows : List Row) (column : Contact → Option String) (ours : String)
    (theirs : Option String) : Prop :=
  nullifEmpty ours = theirs ∨ Unheld rows column (some ours) ∧ Unheld rows column theirs

/-- The value is spelled as the code expects, as far as it matters to live contacts. -/
def Spelled (core : Core) (keyId : String) (rows : List Row) (value : String) : Prop :=
  if keyId = "id" then ∀ contact, Live rows contact → readUuid value = some contact.id →
    value = uuidText contact.id
  else if keyId = "3" then Alike rows Contact.emailNorm (normFor core keyId value) (core.emailNormOf value)
  else if keyId = "4" then Alike rows Contact.externalId (normFor core keyId value) (externalIdOf value)
  else True

section Agreement
variable {core : Core} {rows : List Row}

theorem nullifEmpty_ne (text : String) : nullifEmpty text ≠ some "" := by
  unfold nullifEmpty
  split
  · exact nofun
  · next full =>
    intro same
    rw [Option.some.inj same] at full
    exact full rfl

theorem nullifEmpty_some {text : String} (full : text ≠ "") : nullifEmpty text = some text := by
  rw [nullifEmpty, if_neg (by simpa using full)]

theorem live_unique (apart : rows.Pairwise NoClash) {contact other : Contact} (here : Live rows contact)
    (there : Live rows other) (same : contact.id = other.id) : contact = other := by
  cases eq_of_primary apart here.1 there.1 (congrArg IndexKey.contact same)
  rfl

theorem alike_iff (apart : rows.Pairwise NoClash) (column : Contact → Option String)
    (full : ∀ contact, Live rows contact → column contact ≠ some "") (ours : String)
    (theirs : Option String) :
    (∀ id, (∃ contact, Live rows contact ∧ contact.id = id ∧ column contact = some ours) ↔
      ∃ contact, (Live rows contact ∧ SqlEqual (column contact) theirs) ∧ contact.id = id) ↔
      Alike rows column ours theirs := by
  constructor
  · intro same
    by_cases held : ∃ contact, Live rows contact ∧ (column contact = some ours ∨
      SqlEqual (column contact) theirs)
    · -- a contact that has one of the two has both
      obtain ⟨contact, live, one⟩ := held
      have both : column contact = some ours ∧ SqlEqual (column contact) theirs := by
        rcases one with code | database
        · obtain ⟨other, ⟨also, equal⟩, id⟩ := (same contact.id).mp ⟨contact, live, rfl, code⟩
          exact ⟨code, live_unique apart also live id ▸ equal⟩
        · obtain ⟨other, also, id, code⟩ := (same contact.id).mpr ⟨contact, ⟨live, database⟩, rfl⟩
          exact ⟨live_unique apart also live id ▸ code, database⟩
      obtain ⟨code, text, isText, isTheirs⟩ := both
      have full : ours ≠ "" := fun empty => full contact live (empty ▸ code)
      exact .inl (by rw [nullifEmpty_some full, isTheirs, ← isText, code])
    · refine .inr ⟨fun contact live equal => held ⟨contact, live, .inl ?_⟩,
        fun contact live equal => held ⟨contact, live, .inr equal⟩⟩
      obtain ⟨text, isText, is⟩ := equal
      rw [isText, is]
  · rintro (same | ⟨noneOurs, noneTheirs⟩) id
    · by_cases empty : ours = ""
      · have null : theirs = none := by rw [← same, empty]; rfl
        constructor
        · rintro ⟨contact, live, -, code⟩
          exact absurd (empty ▸ code) (full contact live)
        · rintro ⟨contact, ⟨-, text, -, is⟩, -⟩
          cases null.symm.trans is
      · rw [nullifEmpty_some empty] at same
        constructor
        · rintro ⟨contact, live, is, code⟩
          exact ⟨contact, ⟨live, ours, code, same.symm⟩, is⟩
        · rintro ⟨contact, ⟨live, text, code, equal⟩, is⟩
          exact ⟨contact, live, is, by rw [code, same, equal]⟩
    · constructor
      · rintro ⟨contact, live, -, code⟩
        exact absurd ⟨ours, code, rfl⟩ (noneOurs contact live)
      · rintro ⟨contact, ⟨live, equal⟩, -⟩
        exact absurd equal (noneTheirs contact live)

theorem names_iff_denotes (founded : Founded core rows) (keyId value : String) :
    (∀ id, Names core keyId rows value id ↔
      ∃ contact, Denotes core keyId rows value contact ∧ contact.id = id) ↔
      Spelled core keyId rows value := by
  have generated {contact : Contact} (live : Live rows contact) := founded.generated _ live.1
  unfold Names Denotes Spelled
  by_cases byId : keyId = "id"
  · simp only [byId, if_true]
    constructor
    · intro same contact live reads
      obtain ⟨-, -, -, -, spelled⟩ := (same contact.id).mpr ⟨contact, ⟨live, reads⟩, rfl⟩
      exact spelled
    · intro spelled id
      constructor
      · rintro ⟨contact, live, rfl, small, rfl⟩
        exact ⟨contact, ⟨live, readUuid_text small⟩, rfl⟩
      · rintro ⟨contact, ⟨live, reads⟩, rfl⟩
        exact ⟨contact, live, rfl, readUuid_lt reads, spelled contact live reads⟩
  simp only [byId, if_false]
  by_cases byEmail : keyId = "3"
  · simp only [byEmail, if_true]
    refine alike_iff founded.apart Contact.emailNorm (fun contact live => ?_) _ _
    rw [(generated live).1, Core.emailNorm]
    cases contact.data "3" with
    | none => exact nofun
    | some value => exact nullifEmpty_ne _
  simp only [byEmail, if_false]
  by_cases byExternal : keyId = "4"
  · simp only [byExternal, if_true]
    refine alike_iff founded.apart Contact.externalId (fun contact live => ?_) _ _
    rw [(generated live).2, Contacts.externalId]
    cases contact.data "4" with
    | none => exact nofun
    | some value => exact nullifEmpty_ne _
  simp only [byExternal, if_false, iff_true]
  intro id
  constructor
  · rintro ⟨contact, live, rfl, present⟩
    exact ⟨contact, ⟨live, present⟩, rfl⟩
  · rintro ⟨contact, ⟨live, present⟩, rfl⟩
    exact ⟨contact, live, rfl, present⟩

theorem lookup_foundIn (apart : rows.Pairwise NoClash) {keyId value : String} {values : List String}
    (asked : value ∈ values) {id : Uuid} :
    (foundIn core keyId values rows).lookup (normFor core keyId value) = some id ↔
    Names core keyId rows value id := by
  rw [lookup_iff_mem fun id other => foundIn_once apart]
  have key (notId : keyId ≠ "id") : normFor core keyId value ∈ keysOf core keyId values :=
    mem_keysOf.mpr ⟨⟨value, asked, rfl⟩, fun same => absurd same notId⟩
  unfold Names
  by_cases byId : keyId = "id"
  · subst byId
    simp only [if_true]
    rw [mem_foundIn_id]
    constructor
    · rintro ⟨spelled, ⟨contact, live, rfl⟩, other, member, same⟩
      exact ⟨contact, live, rfl, same ▸ uuidOf_lt ((mem_keysOf.mp member).2 rfl), spelled⟩
    · rintro ⟨contact, live, rfl, small, spelled⟩
      obtain ⟨isUuid_, reads⟩ := uuidText_isUuid small
      refine ⟨spelled, ⟨contact, live, rfl⟩, value, mem_keysOf.mpr ⟨⟨value, asked, rfl⟩,
        fun _ => spelled ▸ isUuid_⟩, ?_⟩
      rw [spelled, reads]
  simp only [byId, if_false]
  by_cases byEmail : keyId = "3"
  · subst byEmail
    simp only [if_true]
    rw [mem_foundIn_email, and_iff_left (key byId)]
  simp only [byEmail, if_false]
  by_cases byExternal : keyId = "4"
  · subst byExternal
    simp only [if_true]
    rw [mem_foundIn_external, and_iff_left (key byId)]
  simp only [byExternal, if_false]
  have plain : normFor core keyId value = value := by rw [normFor, if_neg byEmail, if_neg byExternal]
  rw [mem_foundIn_value byId byEmail byExternal, and_iff_left (key byId), plain]
  constructor
  · rintro ⟨⟨contact, live, is⟩, present⟩
    exact ⟨contact, live, is, present⟩
  · rintro ⟨contact, live, is, present⟩
    exact ⟨⟨contact, live, is⟩, present⟩

theorem lookup_answersOf (apart : rows.Pairwise NoClash) {keyId value : String} {values : List String}
    (asked : value ∈ values) {id : Uuid} :
    (answersOf core keyId values rows).lookup value = some id ↔ Names core keyId rows value id := by
  have looked : (answersOf core keyId values rows).lookup value =
      if value ∈ values then (foundIn core keyId values rows).lookup (normFor core keyId value)
        else none := lookup_filterMap
  rw [looked, if_pos asked, lookup_foundIn apart asked]

end Agreement

/-! ## Exact resolution -/

/-- A call has left the rows as they were and returned the live contact of each value that denotes one,
and no other. -/
def Exact (core : Core) (keyId : String) (values : List String) (rows : List Row)
    (outcome : Except Failure (List (String × Uuid)) × List Row) : Prop :=
  outcome.2 = rows ∧ ∃ found, outcome.1 = .ok found ∧ ∀ value id,
      found.lookup value = some id ↔ value ∈ values ∧ ∃ contact,
      Denotes core keyId rows value contact ∧ contact.id = id

/-- Every value can be sent, and is spelled as the code expects. -/
def Usual (core : Core) (keyId : String) (values : List String) (rows : List Row) : Prop :=
  ∀ value ∈ values, (keyId = "id" ∨ storableText (normFor core keyId value) = true) ∧
    Spelled core keyId rows value

theorem exact_iff_usual {replies : (request : Request) → Response request} {core : Core} {process : Nat}
    {keyId : String} {rows : List Row}
    (founded : Founded core rows) (isKey : IsKey replies process rows keyId) (values : List String) :
    Exact core keyId values rows (alone replies (resolve core process keyId values) rows) ↔
    Usual core keyId values rows := by
  by_cases sendable : Sendable core keyId values
  · have answers {value : String} (asked : value ∈ values) (id : Uuid) :
        (answersOf core keyId values rows).lookup value = some id ↔ Names core keyId rows value id :=
          lookup_answersOf founded.apart asked
    rw [(resolve_runs core isKey values sendable).alone]
    constructor
    · rintro ⟨-, found, same, exact_⟩ value asked
      cases same
      refine ⟨sendable value asked, (names_iff_denotes founded keyId value).mp fun id => ?_⟩
      rw [← answers asked, exact_ value id, and_iff_right asked]
    · intro usual
      refine ⟨rfl, _, rfl, fun value id => ?_⟩
      by_cases asked : value ∈ values
      · rw [answers asked, and_iff_right asked]
        exact (names_iff_denotes founded keyId value).mpr (usual value asked).2 id
      · rw [answersOf, lookup_filterMap, if_neg asked]
        exact ⟨nofun, fun held => absurd held.1 asked⟩
  · rw [(resolve_refused core isKey values sendable).alone]
    constructor
    · rintro ⟨-, found, same, -⟩
      cases same
    · exact fun usual => absurd (fun value asked => (usual value asked).1) sendable

/-- In every state that the calls of core reach, and for every key: `resolve` is exact if and only if
each value can be sent to the database and is spelled as the code expects. -/
theorem resolve_exact_iff {core : Core} {rows : List Row} {world : World} {config : CoreConfig}
    (founded : Founded core rows)
    (run : (machine respond).Reaches (CoreCall.script core) {} (.start ⟨.holding rows, world⟩) config)
    {replies : (request : Request) → Response request} {process : Nat} {keyId : String}
    (isKey : IsKey replies process config.state.server.rows keyId) (values : List String) :
    Exact core keyId values config.state.server.rows
    (alone replies (resolve core process keyId values) config.state.server.rows) ↔
      Usual core keyId values config.state.server.rows :=
  exact_iff_usual (founded_reaches founded run) isKey values

/-- A tenant whose only field is the email address. -/
def emailRows : List Row := [.definition ⟨3, "email", .text, [], true, true, false, none⟩]

def plainCore : Core := ⟨"0192f000-0000-7000-8000-000000000001", "core", id, id⟩

theorem emailRows_founded : Founded plainCore emailRows :=
  ⟨List.pairwise_singleton .., fun row member => by cases List.mem_singleton.mp member; trivial⟩

def annItem : Item := ⟨[("3", .string "ann@example.com")], by decide⟩

def annWritten : List (Move CoreCall Choices) :=
  .spawn 0 (.operation (.write 0 "3" .upsert [annItem] "api" none)) :: List.replicate 14 (.act 0 .none) ++
    .act 0 (.uuid 10 5 6) :: .act 0 .none :: .act 0 (.time 9) :: List.replicate 4 (.act 0 .none) ++
    .act 0 (.uuid 10 5 7) :: .act 0 (.time 9) :: List.replicate 3 (.act 0 .none)

def annId : Uuid := uuidv7 10 5 6

/-- Id, email address and whether it is live. -/
def contactsOf (config : CoreConfig) : List (Uuid × Option String × Bool) :=
  (config.state.server.rows.filterMap Row.contact?).map
    fun contact => (contact.id, contact.emailNorm, contact.deletedAt.isNone)

def definitionsOf (config : CoreConfig) : List FieldDefinition :=
  config.state.server.rows.filterMap Row.definition?

theorem annWritten_runs :
    ((machine respond).moves (CoreCall.script plainCore) annWritten
    (.start ⟨.holding emailRows, ⟨[], [], fun _ => none, []⟩⟩)).map
    (fun config => (contactsOf config, definitionsOf config)) =
      some ([(annId, some "ann@example.com", true)], [⟨3, "email", .text, [], true, true, false, none⟩]) := by
  decide +kernel

def coldReplies : (request : Request) → Response request
  | .uuidv7 => (0 : Nat)
  | .now => (0 : Nat)
  | .publish _ => false
  | .lookup _ => Lookup.miss 0
  | .settled _ => none
  | .settle .. => ()
  | .invalidate _ => ()

theorem ann_live {config : CoreConfig}
    (contacts : contactsOf config = [(annId, some "ann@example.com", true)]) :
    ∃ contact, Live config.state.server.rows contact ∧ contact.id = annId ∧
    contact.emailNorm = some "ann@example.com" := by
  have member : (annId, some "ann@example.com", true) ∈ contactsOf config :=
    contacts ▸ List.mem_singleton.mpr rfl
  obtain ⟨contact, found, same⟩ := List.mem_map.mp member
  obtain ⟨row, present, is⟩ := List.mem_filterMap.mp found
  simp only [Prod.mk.injEq, Option.isNone_iff_eq_none] at same
  cases row with
  | contact stored =>
    cases is
    exact ⟨contact, ⟨present, same.2.2⟩, same.1, same.2.1⟩
  | _ => cases is

/-- The id in the database's own spelling is resolved, and what is no id is not. -/
theorem resolve_exact_ann : ∃ config : CoreConfig, contactsOf config =
    [(annId, some "ann@example.com", true)] ∧
    Exact plainCore "id" ["00000000-000a-7005-8000-000000000006", "ann"] config.state.server.rows
      (alone coldReplies (resolve plainCore 0 "id" ["00000000-000a-7005-8000-000000000006", "ann"])
        config.state.server.rows) := by
  obtain ⟨config, ran, found⟩ := Option.map_eq_some_iff.mp annWritten_runs
  have reached := (machine respond).reaches_moves (CoreCall.script plainCore) .refl _ ran
  have isKey : IsKey coldReplies 0 config.state.server.rows "id" := .inl rfl
  refine ⟨config, congrArg Prod.fst found, (resolve_exact_iff emailRows_founded reached isKey _).mpr
    fun value asked => ⟨.inl rfl, ?_⟩⟩
  intro contact live reads
  rcases List.mem_cons.mp asked with rfl | asked
  · have id : readUuid "00000000-000a-7005-8000-000000000006" = some annId := by decide +kernel
    rw [Option.some.inj (reads.symm.trans id)]
    decide +kernel
  · cases List.mem_singleton.mp asked
    have none_ : readUuid "ann" = none := by decide +kernel
    cases none_.symm.trans reads

/-- The id of a live contact in capitals is not resolved. -/
theorem capitals_unresolved : ¬ ∀ (core : Core) (rows : List Row) (world : World)
    (config : CoreConfig), Founded core rows →
    (machine respond).Reaches (CoreCall.script core) {} (.start ⟨.holding rows, world⟩) config →
    ∀ (replies : (request : Request) → Response request) (process : Nat)
    (keyId : String), IsKey replies process config.state.server.rows keyId →
    ∀ values, Exact core keyId values config.state.server.rows
      (alone replies (resolve core process keyId values) config.state.server.rows) := by
  intro all
  obtain ⟨config, ran, found⟩ := Option.map_eq_some_iff.mp annWritten_runs
  have reached := (machine respond).reaches_moves (CoreCall.script plainCore) .refl _ ran
  obtain ⟨contact, live, is, -⟩ := ann_live (congrArg Prod.fst found)
  have exact_ := all _ _ _ config emailRows_founded reached coldReplies 0 "id" (.inl rfl)
    ["00000000-000A-7005-8000-000000000006"]
  have usual := (exact_iff_usual (founded_reaches emailRows_founded reached) (.inl rfl) _).mp exact_ _
    (List.mem_singleton.mpr rfl)
  have reads : readUuid "00000000-000A-7005-8000-000000000006" = some contact.id := by
    rw [is]
    decide +kernel
  have spelled : "00000000-000A-7005-8000-000000000006" = uuidText contact.id := usual.2 contact live reads
  rw [is] at spelled
  exact absurd spelled (by decide +kernel)

end OpenEmarsys.Contacts
