import OpenEmarsys.Contacts.GetData
import OpenEmarsys.Contacts.Search
import OpenEmarsys.Keyset.Rows

/-! `ContactsQueryService.search`: the live contacts that match, newest change first. -/

set_option autoImplicit false

namespace OpenEmarsys.Keyset

open Javascript Postgres Contacts

structure SearchQuery where
  q : Option String
  filters : List String
  fields : List Nat

structure ContactDto where
  id : String
  fields : Data
  version : Nat
  created_at : String
  updated_at : String

def toDto (fields : List Nat) (contact : Contact) : ContactDto :=
  ⟨uuidText contact.id, pickFields fields contact.data, contact.version, toISOString contact.createdAt,
    toISOString contact.updatedAt⟩

def encodeCursor (contact : Contact) : String := encode [toISOString contact.updatedAt, uuidText contact.id]

/-- `[ts, id]` of the parsed cursor. -/
def firstTwo : Option (List String) → Option (String × String)
  | some (ts :: id :: _) => some (ts, id)
  | _ => none

def readTexts (ts id : String) : Except Failure (Time × Uuid) :=
  (parseISO ts).elim (.error invalidCursor) fun time => if isUuid id then .ok (time, uuidOf id)
    else .error invalidCursor

def decodeCursor (cursor : String) : Except Failure (Time × Uuid) :=
  (firstTwo (decode cursor)).elim (.error invalidCursor) fun parts => readTexts parts.1 parts.2

/-- What the database compares with, and how. -/
structure Comparisons where
  db : Database
  /-- `toLowerCase`. -/
  lower : Folding
  /-- Of `ILIKE`. -/
  folding : Folding

section
variable (how : Comparisons)

/-- The columns that `q` is compared with. -/
def searched (contact : Contact) : Searched :=
  ⟨contact.emailNorm, (contact.data "1").map how.db.text,
    (contact.data "2").map how.db.text, contact.externalId⟩

/-- The condition on `q`, if there is one, unless the database refuses it. -/
def matchesText (q : Option String) (contact : Contact) : Option Bool :=
  q.elim (some true) fun text => (searchCondition how.lower how.folding text (searched how contact)).map
    fun truth => decide truth.Holds

/-- The `WHERE` of a search, less the cursor. -/
def matchesSearch (q : Option String) (conditions : List Condition) (contact : Contact) : Bool :=
  contact.deletedAt.isNone && matchesText how q contact == some true &&
    conditions.all fun condition => decide (condition.truth contact.data).Holds

def filtersSql (filters : List String) (defs : Definitions) : Except Failure (List Condition) :=
  (filters.mapM fun raw => filterSql how.db raw defs).mapError Failure.badRequest

def refusedQuery (q : Option String) (conditions : List Condition) (fields : List Nat)
    (contacts : List Contact) : Option Failure :=
  if fields.isEmpty
    then some (.error
    "Expected join([]) to be called with an array of multiple elements, but got an empty array")
  else if maxArguments < 2 * fields.length
    then some (.error "cannot pass more than 100 arguments to a function")
  else if q.any (! storableText ·) || conditions.any (! ·.executable) then some unreadable
  else if contacts.any fun contact => (matchesText how q contact).isNone
    then some (.error "LIKE pattern must not end with escape character")
  else none

/-- Admin search: `q` matches email, name or external_id prefix; filters are ANDed; keyset pagination on
`(updated_at, id)` desc. -/
def search (defs : Definitions) (contacts : List Contact) (p : SearchQuery) (limit : Nat)
    (cursor : Option String) :
    Except Failure (Page String ContactDto) := do
  let conditions ← filtersSql how p.filters defs
  let after ← (given cursor).mapM decodeCursor
  match refusedQuery how (given p.q) conditions p.fields contacts with
  | some refused => throw refused
  | none =>
      let found := contacts.filter fun contact => matchesSearch how (given p.q) conditions contact &&
        after.all fun (time, id) => rowLess contact.updatedAt contact.id time id
      let rows := (newest (fun contact : Contact => (toLex (contact.updatedAt, contact.id) : Key))
        found).take (limit + 1)
      pure (pageOf limit encodeCursor (toDto p.fields) rows)

/-- The filters are of fields there are, everything can be sent to the database and the fields fit into
one call. -/
structure Searchable (defs : Definitions) (p : SearchQuery) (conditions : List Condition) : Prop where
  filters : filtersSql how p.filters defs = .ok conditions
  executable : ∀ condition ∈ conditions, condition.executable = true
  text : ∀ q ∈ p.q, storableText q = true
  some_ : p.fields ≠ []
  few : 2 * p.fields.length ≤ maxArguments

def matching (q : Option String) (conditions : List Condition) (contacts : List Contact) : List Contact :=
  contacts.filter (matchesSearch how (given q) conditions)

end

theorem readTexts_read {ts id : String} {time : Time} (read : parseISO ts = some time)
    (is : isUuid id = true) :
    readTexts ts id = .ok (time, uuidOf id) := by
  rw [readTexts, read, Option.elim_some, if_pos is]

theorem decodeCursor_encode (ts id : String) : decodeCursor (encode [ts, id]) = readTexts ts id := by
  have two : firstTwo (some [ts, id]) = some (ts, id) := rfl
  rw [decodeCursor, decode_encode _ (List.cons_ne_nil _ _), two, Option.elim_some]

theorem decodeCursor_encodeCursor {contact : Contact} (small : contact.id < 2 ^ 128)
    (early : Early (contact.updatedAt / 1000)) :
    decodeCursor (encodeCursor contact) = .ok (contact.updatedAt, contact.id) := by
  obtain ⟨is, same⟩ := uuidText_isUuid small
  rw [encodeCursor, decodeCursor_encode, readTexts_read (parseISO_toISOString early) is, same]

theorem matchesText_some (how : Comparisons) (q : Option String) (contact : Contact) :
    (matchesText how q contact).isNone = false := by
  cases q with
  | none => rfl
  | some text =>
    obtain ⟨truth, found, -⟩ := search_finds how.lower how.folding text (searched how contact)
    simp [matchesText, found]

theorem refusedQuery_none {how : Comparisons} {defs : Definitions} {p : SearchQuery}
    {conditions : List Condition}
    (searchable : Searchable how defs p conditions) (contacts : List Contact) :
    refusedQuery how (given p.q) conditions p.fields contacts = none := by
  have fields : ¬ p.fields.isEmpty = true := fun empty => searchable.some_ (List.isEmpty_iff.mp empty)
  have text : (given p.q).any (! storableText ·) = false := by
    cases asked : p.q with
    | none => rfl
    | some q =>
      have storable := searchable.text q asked
      by_cases empty : q = ""
      · simp [given, empty]
      · simp [given, empty, storable]
  have conditions_ : conditions.any (! ·.executable) = false := by
    rw [List.any_eq_false]
    intro condition member
    simp [searchable.executable condition member]
  have patterns : (contacts.any fun contact => (matchesText how (given p.q) contact).isNone) = false := by
    rw [List.any_eq_false]
    intro contact _
    simp [matchesText_some]
  rw [refusedQuery, if_neg fields, if_neg (Nat.not_lt.mpr searchable.few), text, conditions_, patterns]
  rfl

section
variable {now : Nat}

/-- `contacts.contacts` of a tenant. -/
abbrev ContactTable (now : Nat) := Table Contact Uuid Contact.id Contact.id
    (fun contact => contact.updatedAt * 1000) now

def byUpdate (contact : Contact) : Key := toLex (contact.updatedAt, contact.id)

theorem search_complete (how : Comparisons) {defs : Definitions} {p : SearchQuery}
    {conditions : List Condition} {limit : Nat}
    (contacts : ContactTable now) (clock : Early ((now + day) / 1000000)) (positive : 0 < limit)
    (searchable : Searchable how defs p conditions) :
    Complete (search how defs contacts.rows p limit) (toDto p.fields) byUpdate limit
    (matching how p.q conditions contacts.rows) := by
  have ids : (contacts.rows.map Contact.id).Nodup := contacts.distinct
  refine complete_of_fetch encodeCursor positive ?_ ?_
  · have apart : (contacts.rows.map byUpdate).Nodup := by
      refine List.Nodup.of_map (fun key : Key => (ofLex key).2) ?_
      rw [List.map_map]
      exact ids
    exact apart.sublist (List.filter_sublist.map byUpdate)
  · intro bound among
    have after : (given (bound.map encodeCursor)).mapM decodeCursor = .ok (bound.map
        fun last => (last.updatedAt, last.id)) := by
      cases bound with
      | none => rfl
      | some last =>
        have member : last ∈ contacts.rows := (List.mem_filter.mp (among last rfl)).1
        have early : Early (last.updatedAt / 1000) := by
          have micros := contacts.early clock member
          unfold Early at micros ⊢
          omega
        have read := decodeCursor_encodeCursor (contacts.small member) early
        have there : given (some (encodeCursor last)) = some (encodeCursor last) :=
          given_encode (List.cons_ne_nil _ _)
        rw [Option.map_some, there, Option.mapM_some, read]
        rfl
    have found : (contacts.rows.filter fun contact => matchesSearch how (given p.q) conditions contact &&
        (bound.map fun last => (last.updatedAt, last.id)).all
          fun (time, id) => rowLess contact.updatedAt contact.id time id) =
        (matching how p.q conditions contacts.rows).filter fun contact => bound.all
            fun last => decide (byUpdate contact < byUpdate last) := by
      rw [matching, List.filter_filter]
      refine List.filter_congr fun contact _ => ?_
      rw [Bool.and_comm]
      cases bound with
      | none => rfl
      | some last =>
        simp only [Option.map_some, Option.all_some, rowLess_eq]
        rfl
    simp only [search, searchable.filters, after, refusedQuery_none searchable, bind, Except.bind, found]
    rfl

end

end OpenEmarsys.Keyset
