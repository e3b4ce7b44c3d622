import Mathlib.Data.List.Induction
import OpenEmarsys.Contacts.Keys
import OpenEmarsys.Relational.Tables

/-! `RelationalService.upsertRows`, by itself: which rows of a request are stored and which are reported.

Rows are told apart by the contact their key resolves to and their row key, joined into one text.
Those that pass all checks are written in one transaction.
-/

set_option autoImplicit false

namespace OpenEmarsys.Relational

open Interleaving Javascript
open Contacts (Core Value Definitions normalizeValue)

/-- The primary key of `relational_rows`. -/
structure RowKey where
  tableId : Uuid
  contactId : Uuid
  key : String
  deriving DecidableEq

/-- The jsonb column `data`. -/
abbrev Cells := String → Option Value

/-- What the tenant has stored, and the definitions that this process has cached. -/
structure Store where
  cache : Option Definitions
  contacts : List Contacts.Row
  tables : Tables
  rows : RowKey → Option Cells
  apart : contacts.Pairwise Postgres.NoClash
  uuids : ∀ contact, .contact contact ∈ contacts → contact.id < 2 ^ 128

/-- A row of the request; the members of `data` in the order of `Object.entries`. -/
structure RowInput where
  key_value : String
  row_key : String
  data : List (String × Json)
  distinct : (data.map Prod.fst).Nodup

structure BatchError where
  index : Nat
  key : String
  code : Nat
  text : String
  deriving DecidableEq

structure UpsertAnswer where
  upserted : Nat
  errors : List BatchError
  deriving DecidableEq

inductive UpsertFailure where
  | table (error : Failure)
  | key (error : Contacts.Failure)
  | sql (error : Postgres.SqlError)

/-- A row that is to be written. -/
structure Entry where
  contactId : Uuid
  key : String
  data : List (String × Value)

/-- `columns.get(name)`, of a map that keeps the last column of a name. -/
def columnOf (columns : List Column) (name : String) : Option Column :=
  columns.reverse.find? fun column => column.name == name

/-- `col.choices ?? []`. -/
def Column.options (column : Column) : List Contacts.Choice := (column.choices.getD []).map fun id => ⟨id, ""⟩

def readCell (columns : List Column) (name : String) (raw : Json) : Except (Nat × String) (Option Value) :=
  match columnOf columns name with
  | none => .error (2011, s!"column {name} does not exist")
  | some column =>
      match normalizeValue column.type column.options raw with
      | .error (_, text) => .error (2010, s!"column {name}: {text}")
      | .ok value => .ok value

/-- The cells that are not null; the first that is refused fails the row. -/
def readCells (columns : List Column) : List (String × Json) → Except (Nat × String) (List (String × Value))
  | [] => .ok []
  | (name, raw) :: rest => do
      let value ← readCell columns name raw
      let others ← readCells columns rest
      pure ((value.map (name, ·)).toList ++ others)

def readEntry (columns : List Column) (contacts : List (String × Uuid)) (row : RowInput) :
    Except (Nat × String) Entry :=
  match contacts.lookup row.key_value with
  | none => .error (2008, s!"contact {row.key_value} not found")
  | some contactId => do
      let data ← readCells columns row.data
      pure ⟨contactId, row.row_key, data⟩

/-- The key of the entry in `valid`. -/
def Entry.id (entry : Entry) : String := uuidText entry.contactId ++ "\x00" ++ entry.key

structure Reading where
  errors : List BatchError
  valid : List (String × Entry)

def Reading.fail (index : Nat) (key : String) (code : Nat) (text : String) (sofar : Reading) : Reading :=
  { sofar with errors := sofar.errors ++ [⟨index, key, code, text⟩] }

def Reading.has (sofar : Reading) (id : String) : Bool := (sofar.valid.lookup id).isSome

def readRow (columns : List Column) (contacts : List (String × Uuid)) (sofar : Reading) (row : RowInput)
    (index : Nat) : Reading :=
  match readEntry columns contacts row with
  | .error (code, text) => sofar.fail index row.key_value code text
  | .ok entry =>
      if sofar.has entry.id then
        sofar.fail index row.key_value 2014
          s!"row_key {row.row_key} is duplicated for the contact in this request"
      else { sofar with valid := sofar.valid ++ [(entry.id, entry)] }

/-- `rows.forEach`. -/
def readRows (columns : List Column) (contacts : List (String × Uuid)) (rows : List RowInput) : Reading :=
  rows.zipIdx.foldl (fun sofar (row, index) => readRow columns contacts sofar row index) ⟨[], []⟩

def cellsOf (data : List (String × Value)) : Cells := fun name => (data.lookup name).map Value.stored

/-- The key and the strings of the entry can be sent to the database. -/
def Entry.storable (entry : Entry) : Bool := Contacts.storableText entry.key && entry.data.all fun
    (_, value) => value.storable

def Entry.rowKey (tableId : Uuid) (entry : Entry) : RowKey := ⟨tableId, entry.contactId, entry.key⟩

def upsert (tableId : Uuid) (rows : RowKey → Option Cells) (entry : Entry) : RowKey → Option Cells :=
  Function.update rows (entry.rowKey tableId) (some (cellsOf entry.data))

def upsertAll (tableId : Uuid) (entries : List Entry) (rows : RowKey → Option Cells) :
    Except UpsertFailure (RowKey → Option Cells) :=
  if entries.all Entry.storable then .ok (entries.foldl (upsert tableId) rows)
    else .error (.sql .untranslatable)

def replyTo : (act : Act) → Tables → Reply act × Tables
  | .findUnique id, tables => (answer tables (.findUnique id) .answer).getD (.error .other, tables)
  | .update id name columns, tables => (answer tables (.update id name columns) .answer).getD
    (.error .other, tables)

namespace Store

/-- The definitions that `FieldRegistry.fields` returns. -/
def definitions (store : Store) : Definitions := store.cache.getD
    (Contacts.byFieldId (store.contacts.filter Contacts.liveDefinition))

/-- What the process answers besides the database: the promise it has cached, or a new one. -/
def replies (store : Store) : (request : Contacts.Request) → Contacts.Response request
  | .uuidv7 => (0 : Nat)
  | .now => (0 : Nat)
  | .publish _ => false
  | .lookup _ => if store.cache.isSome then Contacts.Lookup.hit 0 else Contacts.Lookup.miss 0
  | .settled _ => store.cache
  | .settle .. => ()
  | .invalidate _ => ()

/-- `KeyResolver.resolve`; the definitions are in the cache afterwards if it needed them. -/
def resolve (core : Core) (keyId : String) (values : List String) (store : Store) :
    Except Contacts.Failure (List (String × Uuid)) × Store :=
  ((Postgres.alone store.replies (Contacts.resolve core 0 keyId values) store.contacts).1,
    { store with cache := if keyId = "id" then store.cache else some store.definitions })

def withRows (rows : RowKey → Option Cells) (store : Store) : Store := { store with rows }

end Store

def writeRows (tableId : Uuid) (read : Reading) (store : Store) :
    Except UpsertFailure (UpsertAnswer × Store) := do
  let written ← upsertAll tableId (read.valid.map Prod.snd) store.rows
  pure (⟨read.valid.length, read.errors⟩, store.withRows written)

def upsertRows (core : Core) (tableId keyId : String) (rows : List RowInput) (store : Store) :
    Except UpsertFailure (UpsertAnswer × Store) :=
  match ((get tableId).eval replyTo store.tables).1 with
  | .error error => .error (.table error)
  | .ok table =>
      match store.resolve core keyId (rows.map RowInput.key_value) with
      | (.error error, _) => .error (.key error)
      | (.ok contacts, store) => writeRows (uuidOf tableId) (readRows table.columns contacts rows) store

/-! ## Reading the rows -/

section Reading
variable {columns : List Column} {contacts : List (String × Uuid)} {rows : List RowInput}

theorem readEntry_ok {row : RowInput} {entry : Entry} : readEntry columns contacts row = .ok entry ↔
    contacts.lookup row.key_value = some entry.contactId ∧ row.row_key = entry.key ∧
    readCells columns row.data = .ok entry.data := by
  unfold readEntry
  cases contacts.lookup row.key_value with
  | none => simp
  | some contactId =>
    cases cells : readCells columns row.data with
    | error error =>
      refine iff_of_false nofun ?_
      rintro ⟨-, -, same⟩
      cases same
    | ok data =>
      constructor
      · intro same
        cases same
        exact ⟨rfl, rfl, rfl⟩
      · rintro ⟨id, key, same⟩
        cases id
        cases same
        cases entry
        cases key
        rfl

theorem readCells_ok {data : List (String × Json)} {cells : List (String × Value)}
    (apart : (data.map Prod.fst).Nodup)
    (reads : readCells columns data = .ok cells) :
    (∀ cell ∈ data, ∃ value, readCell columns cell.1 cell.2 = .ok value) ∧
      ∀ name, cells.lookup name = (data.lookup name).bind
      fun raw => (readCell columns name raw).toOption.join := by
  induction data generalizing cells with
  | nil =>
    cases reads
    exact ⟨fun _ member => (List.not_mem_nil member).elim, fun _ => rfl⟩
  | cons head rest ih =>
    obtain ⟨name, raw⟩ := head
    rw [List.map_cons, List.nodup_cons] at apart
    rw [readCells] at reads
    cases first : readCell columns name raw with
    | error error =>
      rw [first] at reads
      cases reads
    | ok value =>
      cases others : readCells columns rest with
      | error error =>
        rw [first, others] at reads
        cases reads
      | ok found =>
        rw [first, others] at reads
        cases reads
        obtain ⟨all, lookups⟩ := ih apart.2 others
        refine ⟨fun cell member => ?_, fun other => ?_⟩
        · rcases List.mem_cons.mp member with rfl | member
          · exact ⟨value, first⟩
          · exact all cell member
        · by_cases same : other = name
          · subst same
            have none_ : rest.lookup other = none := by
              rw [List.lookup_eq_none_iff]
              intro cell member
              rw [bne_iff_ne]
              intro is
              exact apart.1 (List.mem_map.mpr ⟨cell, member, is.symm⟩)
            cases value with
            | none => simpa [none_, first, Except.toOption] using lookups other
            | some value => simp [first, Except.toOption]
          · have differs : (other == name) = false := beq_eq_false_iff_ne.mpr same
            cases value with
            | none => simpa [List.lookup_cons, differs] using lookups other
            | some value => simpa [List.lookup_cons, differs] using lookups other

theorem readCells_total {data : List (String × Json)}
    (all : ∀ cell ∈ data, ∃ value, readCell columns cell.1 cell.2 = .ok value) :
    ∃ cells, readCells columns data = .ok cells := by
  induction data with
  | nil => exact ⟨[], rfl⟩
  | cons head rest ih =>
    obtain ⟨value, first⟩ := all head (List.mem_cons_self ..)
    obtain ⟨others, later⟩ := ih fun cell member => all cell (List.mem_cons_of_mem _ member)
    exact ⟨(value.map (head.1, ·)).toList ++ others, by rw [readCells, first, later]; rfl⟩

end Reading

section Rows
variable (columns : List Column) (contacts : List (String × Uuid))

/-- The row at the index passes its own checks. -/
def Reads (rows : List RowInput) (index : Nat) (entry : Entry) : Prop :=
  ∃ row, rows[index]? = some row ∧ readEntry columns contacts row = .ok entry

/-- And no row before it has the same id. -/
def Kept (rows : List RowInput) (index : Nat) (entry : Entry) : Prop :=
  Reads columns contacts rows index entry ∧ ∀ earlier < index, ∀ other,
    Reads columns contacts rows earlier other → other.id ≠ entry.id

structure Collected (rows : List RowInput) (sofar : Reading) : Prop where
  counts : sofar.errors.length + sofar.valid.length = rows.length
  ids : ∀ id entry, (id, entry) ∈ sofar.valid → id = entry.id
  distinct : (sofar.valid.map Prod.fst).Nodup
  known : ∀ id, id ∈ sofar.valid.map Prod.fst ↔ ∃ index entry,
    Reads columns contacts rows index entry ∧ entry.id = id
  kept : ∀ entry, entry ∈ sofar.valid.map Prod.snd ↔ ∃ index, Kept columns contacts rows index entry
  once : (sofar.errors.map BatchError.index).Nodup
  reported : ∀ index, index ∈ sofar.errors.map BatchError.index ↔ index < rows.length ∧
    ∀ entry, ¬ Kept columns contacts rows index entry
  keys : ∀ error ∈ sofar.errors, ∃ row, rows[error.index]? = some row ∧ error.key = row.key_value

variable {columns contacts} {rows : List RowInput} {row : RowInput} {entry : Entry}
  {sofar : Reading} {index : Nat}

theorem Reads.lt (reads : Reads columns contacts rows index entry) : index < rows.length := by
  obtain ⟨row, here, -⟩ := reads
  exact (List.getElem?_eq_some_iff.mp here).1

theorem reads_concat : Reads columns contacts (rows ++ [row]) index entry ↔
    Reads columns contacts rows index entry ∨ index = rows.length ∧
    readEntry columns contacts row = .ok entry := by
  unfold Reads
  rcases Nat.lt_trichotomy index rows.length with before | same | after
  · rw [List.getElem?_append_left before]
    exact ⟨.inl, fun either => either.resolve_right fun ⟨same, _⟩ => absurd same (Nat.ne_of_lt before)⟩
  · subst same
    rw [List.getElem?_concat_length, List.getElem?_eq_none (Nat.le_refl _)]
    simp
  · rw [List.getElem?_eq_none (by simp; omega), List.getElem?_eq_none (by omega)]
    simp
    omega

theorem kept_concat : Kept columns contacts (rows ++ [row]) index entry ↔
    Kept columns contacts rows index entry ∨ index = rows.length ∧
      readEntry columns contacts row = .ok entry ∧
      ∀ earlier other, Reads columns contacts rows earlier other → other.id ≠ entry.id := by
  unfold Kept
  constructor
  · rintro ⟨reads, fresh⟩
    rcases reads_concat.mp reads with old | ⟨rfl, new⟩
    · exact .inl ⟨old, fun earlier before other found =>
        fresh earlier before other (reads_concat.mpr (.inl found))⟩
    · exact .inr ⟨rfl, new, fun earlier other found => fresh earlier found.lt other
        (reads_concat.mpr (.inl found))⟩
  · rintro (⟨old, fresh⟩ | ⟨rfl, new, fresh⟩)
    · refine ⟨reads_concat.mpr (.inl old), fun earlier before other found => ?_⟩
      have here : Reads columns contacts rows earlier other :=
        (reads_concat.mp found).resolve_right fun ⟨same, _⟩ => absurd old.lt (by omega)
      exact fresh earlier before other here
    · refine ⟨reads_concat.mpr (.inr ⟨rfl, new⟩), fun earlier before other found => ?_⟩
      have here : Reads columns contacts rows earlier other :=
        (reads_concat.mp found).resolve_right fun ⟨same, _⟩ => absurd before (by omega)
      exact fresh earlier other here

theorem readRows_concat : readRows columns contacts (rows ++ [row]) =
    readRow columns contacts (readRows columns contacts rows) row rows.length := by
  rw [readRows, List.zipIdx_append, List.foldl_append]
  simp [readRows]

theorem has_iff {id : String} : sofar.has id = true ↔ id ∈ sofar.valid.map Prod.fst := by
  simp only [Reading.has, List.lookup_isSome_iff, List.mem_map, beq_iff_eq, @eq_comm _ id]

-- A row that fails is reported, be it refused or the second with its id.
theorem collected_fail (collected : Collected columns contacts rows sofar)
    (old : ∀ entry, readEntry columns contacts row = .ok entry → entry.id ∈ sofar.valid.map Prod.fst)
    (code : Nat) (text : String) :
    Collected columns contacts (rows ++ [row]) (sofar.fail rows.length row.key_value code text) := by
  have same (index : Nat) (entry : Entry) : Kept columns contacts (rows ++ [row]) index entry ↔
      Kept columns contacts rows index entry := by
    refine kept_concat.trans ⟨fun either => either.resolve_right ?_, .inl⟩
    rintro ⟨-, reads, fresh⟩
    obtain ⟨earlier, other, found, is⟩ := (collected.known entry.id).mp (old entry reads)
    exact fresh earlier other found is
  have known (id : String) : (∃ index entry, Reads columns contacts (rows ++ [row]) index entry ∧
    entry.id = id) ↔
      ∃ index entry, Reads columns contacts rows index entry ∧ entry.id = id := by
    constructor
    · rintro ⟨index, entry, reads, rfl⟩
      rcases reads_concat.mp reads with before | ⟨-, new⟩
      · exact ⟨index, entry, before, rfl⟩
      · exact (collected.known entry.id).mp (old entry new)
    · rintro ⟨index, entry, reads, is⟩
      exact ⟨index, entry, reads_concat.mpr (.inl reads), is⟩
  have indices : (sofar.fail rows.length row.key_value code text).errors.map BatchError.index =
      sofar.errors.map BatchError.index ++ [rows.length] := by simp [Reading.fail]
  have unreported : rows.length ∉ sofar.errors.map BatchError.index := fun member =>
    absurd ((collected.reported _).mp member).1 (Nat.lt_irrefl _)
  constructor
  · have counts := collected.counts
    simp only [Reading.fail, List.length_append, List.length_singleton]
    omega
  · exact collected.ids
  · exact collected.distinct
  · exact fun id => (collected.known id).trans (known id).symm
  · intro entry
    simp only [same]
    exact collected.kept entry
  · rw [indices, List.nodup_append]
    refine ⟨collected.once, List.nodup_singleton _, fun first here second there => ?_⟩
    rw [List.mem_singleton.mp there]
    exact fun is => unreported (is ▸ here)
  · intro index
    rw [indices, List.mem_append, List.mem_singleton, collected.reported index, List.length_append,
      List.length_singleton]
    simp only [same]
    constructor
    · rintro (⟨before, none_⟩ | rfl)
      · exact ⟨by omega, none_⟩
      · exact ⟨by omega, fun entry kept => absurd kept.1.lt (Nat.lt_irrefl _)⟩
    · rintro ⟨before, none_⟩
      by_cases last : index = rows.length
      · exact .inr last
      · exact .inl ⟨by omega, none_⟩
  · intro error member
    rcases List.mem_append.mp member with before | last
    · obtain ⟨found, here, is⟩ := collected.keys error before
      exact ⟨found, by rw [List.getElem?_append_left (List.getElem?_eq_some_iff.mp here).1, here], is⟩
    · rw [List.mem_singleton.mp last]
      exact ⟨row, List.getElem?_concat_length, rfl⟩

-- A row that passes its checks and is the first with its id is kept.
theorem collected_keep (collected : Collected columns contacts rows sofar)
    (reads : readEntry columns contacts row = .ok entry)
    (fresh : entry.id ∉ sofar.valid.map Prod.fst) :
    Collected columns contacts (rows ++ [row])
    { sofar with valid := sofar.valid ++ [(entry.id, entry)] } := by
  have here : Kept columns contacts (rows ++ [row]) rows.length entry := by
    refine kept_concat.mpr (.inr ⟨rfl, reads, fun earlier other found is => fresh ?_⟩)
    exact (collected.known entry.id).mpr ⟨earlier, other, found, is⟩
  have kept (index : Nat) (other : Entry) : Kept columns contacts (rows ++ [row]) index other ↔
      Kept columns contacts rows index other ∨ index = rows.length ∧ other = entry := by
    constructor
    · intro holds
      refine (kept_concat.mp holds).imp_right fun ⟨is, found, _⟩ => ⟨is, ?_⟩
      rw [reads] at found
      exact (Except.ok.inj found).symm
    · rintro (before | ⟨rfl, rfl⟩)
      · exact kept_concat.mpr (.inl before)
      · exact here
  constructor
  · have counts := collected.counts
    simp only [List.length_append, List.length_singleton]
    omega
  · intro id other member
    rcases List.mem_append.mp member with before | last
    · exact collected.ids id other before
    · obtain ⟨is, same⟩ := Prod.mk.inj (List.mem_singleton.mp last)
      rw [is, same]
  · rw [List.map_append, List.nodup_append]
    refine ⟨collected.distinct, List.nodup_singleton _, fun first one second two => ?_⟩
    rw [List.mem_singleton.mp two]
    rintro rfl
    exact fresh one
  · intro id
    rw [List.map_append, List.mem_append, collected.known id]
    constructor
    · rintro (⟨index, other, found, is⟩ | last)
      · exact ⟨index, other, reads_concat.mpr (.inl found), is⟩
      · exact ⟨rows.length, entry, here.1, (List.mem_singleton.mp last).symm⟩
    · rintro ⟨index, other, found, rfl⟩
      rcases reads_concat.mp found with before | ⟨-, new⟩
      · exact .inl ⟨index, other, before, rfl⟩
      · rw [reads] at new
        cases new
        exact .inr (List.mem_singleton_self _)
  · intro other
    rw [List.map_append, List.mem_append, collected.kept other]
    simp only [kept]
    constructor
    · rintro (⟨index, before⟩ | last)
      · exact ⟨index, .inl before⟩
      · exact ⟨rows.length, .inr ⟨rfl, List.mem_singleton.mp last⟩⟩
    · rintro ⟨index, before | ⟨-, rfl⟩⟩
      · exact .inl ⟨index, before⟩
      · exact .inr (List.mem_singleton_self _)
  · exact collected.once
  · intro index
    rw [collected.reported index, List.length_append, List.length_singleton]
    constructor
    · rintro ⟨before, none_⟩
      refine ⟨by omega, fun other holds => ?_⟩
      rcases (kept index other).mp holds with old | ⟨is, -⟩
      · exact none_ other old
      · omega
    · rintro ⟨before, none_⟩
      refine ⟨?_, fun other old => none_ other ((kept index other).mpr (.inl old))⟩
      by_contra late
      have last : index = rows.length := by omega
      exact none_ entry (last ▸ here)
  · intro error member
    obtain ⟨found, at_, is⟩ := collected.keys error member
    exact ⟨found, by rw [List.getElem?_append_left (List.getElem?_eq_some_iff.mp at_).1, at_], is⟩

theorem readRows_collected : Collected columns contacts rows (readRows columns contacts rows) := by
  induction rows using List.reverseRec with
  | nil =>
    exact ⟨rfl,
        by simp [readRows], by simp [readRows], by simp [readRows, Reads], by simp [readRows, Kept, Reads],
        by simp [readRows], by simp [readRows], by simp [readRows]⟩
  | append_singleton rows row ih =>
    rw [readRows_concat, readRow]
    cases reads : readEntry columns contacts row with
    | error error =>
      refine collected_fail ih (fun entry found => ?_) error.1 error.2
      rw [reads] at found
      cases found
    | ok entry =>
      dsimp only
      split
      · next old =>
        refine collected_fail ih (fun other found => ?_) _ _
        rw [reads] at found
        cases found
        exact has_iff.mp old
      · next fresh => exact collected_keep ih reads fun member => fresh (has_iff.mpr member)

end Rows

-- The id of an entry determines its contact and its row key: a uuid has 36 characters.
theorem id_injective {entry other : Entry} (small : entry.contactId < 2 ^ 128)
    (otherSmall : other.contactId < 2 ^ 128)
    (same : entry.id = other.id) : entry.contactId = other.contactId ∧ entry.key = other.key := by
  have chars := congrArg String.toList same
  simp only [Entry.id, String.toList_append, List.append_assoc] at chars
  have length {id : Uuid} (small : id < 2 ^ 128) : (uuidText id).toList.length = 36 :=
    ((isUuid_iff _).mp (uuidText_isUuid small).1).1
  obtain ⟨uuids, rest⟩ := List.append_inj chars ((length small).trans (length otherSmall).symm)
  exact ⟨uuidText_injective small otherSmall (String.toList_injective uuids),
    String.toList_injective (List.append_cancel_left rest)⟩

/-! ## The writes -/

section Writes
variable {tableId : Uuid} {entries : List Entry} {entry : Entry} {key : RowKey}

theorem upserts_other (rows : RowKey → Option Cells) (absent : key ∉ entries.map (Entry.rowKey tableId)) :
    entries.foldl (upsert tableId) rows key = rows key := by
  induction entries generalizing rows with
  | nil => rfl
  | cons head rest ih =>
    rw [List.map_cons, List.mem_cons, not_or] at absent
    rw [List.foldl_cons, ih _ absent.2, upsert, Function.update_of_ne absent.1]

theorem upserts_stored (rows : RowKey → Option Cells) (distinct : (entries.map (Entry.rowKey tableId)).Nodup)
    (member : entry ∈ entries) :
    entries.foldl (upsert tableId) rows (entry.rowKey tableId) = some (cellsOf entry.data) := by
  induction entries generalizing rows with
  | nil => cases member
  | cons head rest ih =>
    rw [List.map_cons, List.nodup_cons] at distinct
    rw [List.foldl_cons]
    rcases List.mem_cons.mp member with rfl | later
    · rw [upserts_other _ distinct.1, upsert, Function.update_self]
    · exact ih _ distinct.2 later

theorem upserts_again (rows : RowKey → Option Cells) (distinct : (entries.map (Entry.rowKey tableId)).Nodup) :
    entries.foldl (upsert tableId) (entries.foldl (upsert tableId) rows) = entries.foldl
    (upsert tableId) rows := by
  funext key
  by_cases named : key ∈ entries.map (Entry.rowKey tableId)
  · obtain ⟨entry, member, rfl⟩ := List.mem_map.mp named
    rw [upserts_stored _ distinct member, upserts_stored _ distinct member]
  · rw [upserts_other _ named]

end Writes

section Promise
variable (core : Core) (keyId : String) (store : Store) (columns : List Column)

/-- The key resolves to the contact, and all cells of the row are accepted. -/
def Sound (contactId : Uuid) (row : RowInput) : Prop :=
  Contacts.Names core keyId store.contacts row.key_value contactId ∧
    ∀ cell ∈ row.data, ∃ value, readCell columns cell.1 cell.2 = .ok value

/-- The row at the index is sound, and no sound row before it names the same stored row. -/
def Succeeds (rows : List RowInput) (index : Nat) (contactId : Uuid) (row : RowInput) : Prop :=
  rows[index]? = some row ∧ Sound core keyId store columns contactId row ∧
      ∀ earlier < index, ∀ other, rows[earlier]? = some other → Sound core keyId store columns contactId other →
      other.row_key ≠ row.row_key

/-- The normalised cells that are not null, as jsonb keeps them. -/
def normalised (data : List (String × Json)) : Cells := fun name =>
  ((data.lookup name).bind fun raw => (readCell columns name raw).toOption.join).map Value.stored

structure Contract (tableId : Uuid) (rows : List RowInput) (answer : UpsertAnswer)
    (after : Store) : Prop where
  counts : answer.upserted + answer.errors.length = rows.length
  once : (answer.errors.map BatchError.index).Nodup
  reported : ∀ index, index ∈ answer.errors.map BatchError.index ↔
    index < rows.length ∧ ¬ ∃ contactId row, Succeeds core keyId store columns rows index contactId row
  keys : ∀ error ∈ answer.errors, ∃ row, rows[error.index]? = some row ∧ error.key = row.key_value
  stored : ∀ index contactId row, Succeeds core keyId store columns rows index contactId row →
    after.rows ⟨tableId, contactId, row.row_key⟩ = some (normalised columns row.data)
  unchanged : ∀ key, (∀ index contactId row, Succeeds core keyId store columns rows index contactId row →
    key ≠ ⟨tableId, contactId, row.row_key⟩) → after.rows key = store.rows key
  tables : after.tables = store.tables
  contacts : after.contacts = store.contacts

variable {core keyId store columns} {rows : List RowInput} {index : Nat} {entry : Entry} {row : RowInput}

theorem Sound.small {contactId : Uuid} (sound : Sound core keyId store columns contactId row) :
    contactId < 2 ^ 128 := by
  obtain ⟨⟨contact, live, rfl, -⟩, -⟩ := sound
  exact store.uuids contact live.1

theorem readEntry_iff (asked : row ∈ rows) :
    readEntry columns (Contacts.answersOf core keyId (rows.map RowInput.key_value) store.contacts) row =
      .ok entry ↔
      Sound core keyId store columns entry.contactId row ∧ row.row_key = entry.key ∧
      readCells columns row.data = .ok entry.data := by
  rw [readEntry_ok, Contacts.lookup_answersOf store.apart (List.mem_map_of_mem asked)]
  constructor
  · rintro ⟨named, key, cells⟩
    exact ⟨⟨named, (readCells_ok row.distinct cells).1⟩, key, cells⟩
  · rintro ⟨⟨named, -⟩, key, cells⟩
    exact ⟨named, key, cells⟩

theorem kept_iff :
    Kept columns
    (Contacts.answersOf core keyId (rows.map RowInput.key_value) store.contacts) rows index entry ↔
      ∃ row, Succeeds core keyId store columns rows index entry.contactId row ∧ row.row_key = entry.key ∧
      readCells columns row.data = .ok entry.data := by
  constructor
  · rintro ⟨⟨row, here, reads⟩, fresh⟩
    obtain ⟨sound, key, cells⟩ := (readEntry_iff (List.mem_of_getElem? here)).mp reads
    refine ⟨row, ⟨here, sound, fun earlier before other there also same => ?_⟩, key, cells⟩
    obtain ⟨data, others⟩ := readCells_total also.2
    refine fresh earlier before ⟨entry.contactId, other.row_key, data⟩
      ⟨other, there, (readEntry_iff (List.mem_of_getElem? there)).mpr ⟨also, rfl, others⟩⟩ ?_
    rw [Entry.id, Entry.id, same, key]
  · rintro ⟨row, ⟨here, sound, first⟩, key, cells⟩
    refine ⟨⟨row, here, (readEntry_iff (List.mem_of_getElem? here)).mpr ⟨sound, key, cells⟩⟩,
      fun earlier before other found same => ?_⟩
    obtain ⟨named, there, reads⟩ := found
    obtain ⟨also, otherKey, -⟩ := (readEntry_iff (List.mem_of_getElem? there)).mp reads
    obtain ⟨contact, keys⟩ := id_injective also.small sound.small same
    exact first earlier before named there (contact ▸ also) (by rw [otherKey, keys, key])

theorem succeeds_iff : (∃ contactId row, Succeeds core keyId store columns rows index contactId row) ↔
    ∃ entry, Kept columns (Contacts.answersOf core keyId (rows.map RowInput.key_value) store.contacts)
    rows index entry := by
  constructor
  · rintro ⟨contactId, row, succeeds⟩
    obtain ⟨data, cells⟩ := readCells_total succeeds.2.1.2
    exact ⟨⟨contactId, row.row_key, data⟩, kept_iff.mpr ⟨row, succeeds, rfl, cells⟩⟩
  · rintro ⟨entry, kept⟩
    obtain ⟨row, succeeds, -, -⟩ := kept_iff.mp kept
    exact ⟨entry.contactId, row, succeeds⟩

end Promise

section Call
variable {core : Core} {tableId keyId : String} {store after : Store} {rows : List RowInput}
  {answer : UpsertAnswer} {table : Table}

theorem find_alone (tables : Tables) :
    (find tableId).eval replyTo tables =
    (.ok (if isUuid tableId then tables.get (uuidOf tableId) else none), tables) := by
  unfold find
  split <;> rfl

theorem get_found (found : ((get tableId).eval replyTo store.tables).1 = .ok table) :
    store.tables.get (uuidOf tableId) = some table := by
  rw [get, Script.eval_bind, find_alone] at found
  by_cases is : isUuid tableId = true
  · rw [if_pos is] at found
    cases there : store.tables.get (uuidOf tableId) with
    | none =>
      rw [there] at found
      cases found
    | some other =>
      rw [there] at found
      cases found
      rfl
  · rw [if_neg is] at found
    cases found

theorem registry_known (store : Store) :
    Contacts.registryOf store.replies 0 store.contacts = some store.definitions := by
  unfold Contacts.registryOf Store.replies Store.definitions
  cases store.cache with
  | none => rfl
  | some definitions => rfl

def Store.resolved (keyId : String) (store : Store) : Store :=
  { store with cache := if keyId = "id" then store.cache else some store.definitions }

theorem definitions_resolved (store : Store) : (store.resolved keyId).definitions = store.definitions := by
  unfold Store.resolved Store.definitions
  split <;> rfl

theorem resolved_resolved (store : Store) : (store.resolved keyId).resolved keyId = store.resolved keyId := by
  have same : (store.resolved keyId).definitions = store.definitions := definitions_resolved store
  by_cases byId : keyId = "id"
  · simp only [Store.resolved, if_pos byId]
  · rw [Store.resolved, same]
    simp only [Store.resolved, if_neg byId]

theorem resolve_ok {contacts : List (String × Uuid)} {values : List String} :
    store.resolve core keyId values = (.ok contacts, after) ↔
      Contacts.IsKey store.replies 0 store.contacts keyId ∧
      Contacts.Sendable core keyId values ∧ contacts = Contacts.answersOf core keyId values store.contacts ∧
      after = store.resolved keyId := by
  constructor
  · intro returned
    obtain ⟨found, is⟩ := Prod.mk.inj returned
    obtain ⟨isKey, sendable, same⟩ := Contacts.resolve_returned (registry_known store) found
    exact ⟨isKey, sendable, same, is.symm⟩
  · rintro ⟨isKey, sendable, rfl, rfl⟩
    rw [Store.resolve, (Contacts.resolve_runs core isKey values sendable).alone]
    rfl

theorem writeRows_ok {id : Uuid} {read : Reading} : writeRows id read store = .ok (answer, after) ↔
      (read.valid.map Prod.snd).all Entry.storable = true ∧ answer = ⟨read.valid.length, read.errors⟩ ∧
      after = store.withRows ((read.valid.map Prod.snd).foldl (upsert id) store.rows) := by
  unfold writeRows upsertAll
  cases storable : (read.valid.map Prod.snd).all Entry.storable with
  | true =>
    rw [if_pos rfl]
    constructor
    · intro same
      cases same
      exact ⟨rfl, rfl, rfl⟩
    · rintro ⟨-, rfl, rfl⟩
      rfl
  | false =>
    rw [if_neg Bool.false_ne_true]
    exact iff_of_false nofun fun holds => Bool.false_ne_true holds.1

theorem upsertRows_ok : upsertRows core tableId keyId rows store = .ok (answer, after) ↔
      ∃ table, ((get tableId).eval replyTo store.tables).1 = .ok table ∧ ∃ contacts between,
        store.resolve core keyId (rows.map RowInput.key_value) = (.ok contacts, between) ∧
        writeRows (uuidOf tableId) (readRows table.columns contacts rows) between = .ok (answer, after) := by
  unfold upsertRows
  cases found : ((get tableId).eval replyTo store.tables).1 with
  | error error => simp
  | ok table =>
    rcases resolved : store.resolve core keyId (rows.map RowInput.key_value) with ⟨outcome, between⟩
    cases outcome with
    | error error => simp
    | ok contacts => simp

theorem resolved_withRows (rows : RowKey → Option Cells) :
    (store.withRows rows).resolved keyId = (store.resolved keyId).withRows rows := rfl

theorem isKey_resolved {rows : RowKey → Option Cells}
    (isKey : Contacts.IsKey store.replies 0 store.contacts keyId) :
    Contacts.IsKey ((store.resolved keyId).withRows rows).replies 0 store.contacts keyId := by
  refine isKey.imp_right fun ⟨digits, definitions, definition, known, found, unique⟩ =>
    ⟨digits, definitions, definition, ?_, found, unique⟩
  have again : Contacts.registryOf ((store.resolved keyId).withRows rows).replies 0 store.contacts =
      some (store.resolved keyId).definitions :=
    registry_known ((store.resolved keyId).withRows rows)
  rw [again, definitions_resolved, ← known, registry_known]

end Call

def ann : Contacts.Contact := ⟨17, fun key => if key = "3" then some (.string "ann@example.com")
    else none, some "ann@example.com", none, 1, 0, 0, none, []⟩

def annStore : Store where
  cache := none
  contacts := [.definition ⟨3, "email", .text, [], true, true, false, none⟩, .contact ann]
  tables := [⟨1, "pets", "name", [⟨"name", .text, none⟩, ⟨"age", .number, none⟩]⟩]
  rows := fun _ => none
  apart := by decide
  uuids := by
    intro contact member
    simp only [List.mem_cons, List.not_mem_nil, or_false, reduceCtorEq, false_or,
      Contacts.Row.contact.injEq] at member
    rw [member]
    decide

def pet (email row : String) (data : String × Json) : RowInput := ⟨email, row, [data], List.nodup_singleton _⟩

def pets : List RowInput :=
  [pet "ann@example.com" "1" ("age", .string "7"), pet " ann@example.com" "1" ("age", .null),
    pet "bob@example.com" "1" ("age", .null),
    pet "ann@example.com" "2" ("colour", .null), pet "ann@example.com" "3" ("age", .string "old")]

end OpenEmarsys.Relational
