import Mathlib.Logic.Function.Basic
import OpenEmarsys.Golang.Values
import OpenEmarsys.Javascript.Values

/-! What an import job sends to core: the mapping resolved against the header, and
the request made from a batch of rows.

The mapping is a Go map, so `newPlan` takes the order in which it happens to be visited.
-/

set_option autoImplicit false

namespace OpenEmarsys.Importer

open Golang Javascript

/-- The params of a job, less what only opens the file: its key, name, delimiter and encoding. -/
structure Params where
  hasHeader : Bool
  mapping : GoMap String String
  keyID : String
  mode : String
  target : String

structure StartReq where
  hasHeader : Option Bool
  mapping : GoMap String String
  keyID : String
  mode : String
  target : String

/-- `^(id|[1-9][0-9]*)$` -/
def keyIDRe (text : String) : Bool :=
  text == "id" || match text.toList with
    | [] => false
    | first :: rest => ('1' ≤ first && first ≤ '9') && rest.all Char.isDigit

/-- `[0-9a-fA-F-]{36}` -/
def targetID (text : List Char) : Bool :=
  text.length == 36 && text.all fun c =>
    c.isDigit || ('a' ≤ c && c ≤ 'f') || ('A' ≤ c && c ≤ 'F') || c == '-'

/-- `^(contacts|list:[0-9a-fA-F-]{36}|relational:[0-9a-fA-F-]{36})$` -/
def targetRe (text : String) : Bool :=
  text == "contacts" ||
  ("list:".toList.isPrefixOf text.toList && targetID (text.toList.drop 5)) ||
  ("relational:".toList.isPrefixOf text.toList && targetID (text.toList.drop 11))

/-- The checks of `handler.enqueue`, and the params it queues. -/
def enqueue (request : StartReq) : Except String Params :=
  if ¬ keyIDRe request.keyID then .error "key_id must be a field ID or 'id'"
  else if request.mode ≠ "create" ∧ request.mode ≠ "update" ∧ request.mode ≠ "upsert" then
    .error "mode must be create, update or upsert"
  else if ¬ targetRe request.target then
    .error "target must be contacts, list:<uuid> or relational:<uuid>"
  else if request.mapping.entries.isEmpty then .error "mapping must map at least one column"
  else if request.mapping.entries.any fun entry => entry.1 = "" ∨ entry.2 = "" then
    .error "mapping entries need a column name and a destination"
  else if ¬ request.mapping.entries.any fun entry => entry.2 = request.keyID then
    .error ("no column is mapped to key_id " ++ request.keyID)
  else .ok {
    hasHeader := request.hasHeader.getD true, mapping := request.mapping,
    keyID := request.keyID, mode := request.mode, target := request.target }

structure Mapped where
  idx : Nat
  dest : String
  deriving DecidableEq, Repr

/-- The index is `none` where the source has -1. -/
structure Plan where
  dests : List Mapped := []
  keyIdx : Option Nat := none
  keyName : String := ""
  rowKeyIdx : Option Nat := none
  deriving DecidableEq, Repr

/-- `mapped column %q not found in the file` and `no column is mapped to key_id %s`. -/
inductive PlanError where
  | notFound (col : String)
  | noKey (keyID : String)
  deriving DecidableEq, Repr

/-- `pos`: the first column of a name. -/
def position (cols : List Bytes) (col : String) : Option Nat := cols.idxOf? (utf8 col)

/-- What one entry of the mapping, found in column `i`, does to the plan. -/
def Plan.extend (keyID : String) (pl : Plan) (i : Nat) (col dest : String) : Plan where
  dests := pl.dests ++ [⟨i, dest⟩]
  keyIdx := if dest = keyID ∧ pl.keyIdx = none then some i else pl.keyIdx
  keyName := if dest = keyID ∧ pl.keyIdx = none then col else pl.keyName
  rowKeyIdx := if dest = "row_key" then some i else pl.rowKeyIdx

/-- The `range` loop of `newPlan`, over the order in which it visits the mapping. -/
def resolve (cols : List Bytes) (keyID : String) :
    Plan → List (String × String) → Except PlanError Plan
  | pl, [] => .ok pl
  | pl, (col, dest) :: rest =>
      match position cols col with
      | none => .error (.notFound col)
      | some i => resolve cols keyID (pl.extend keyID i col dest) rest

def newPlan (cols : List Bytes) (keyID : String) (order : List (String × String)) : Except PlanError Plan :=
  match resolve cols keyID {} order with
  | .error problem => .error problem
  | .ok pl => if pl.keyIdx = none then .error (.noKey keyID) else .ok pl

structure BatchRow where
  line : Nat
  record : List Bytes
  deriving DecidableEq, Repr

/-- `rec[idx]`. An index of the plan is inside a row as wide as the header. -/
def cell (record : List Bytes) (idx : Option Nat) : Bytes :=
  match idx with
  | none => []
  | some i => record.getD i []

structure RelationalRow where
  keyValue : Bytes
  rowKey : Bytes
  data : String → Option Bytes

/-- A request body. A `map[string]string` is the function from its keys. -/
inductive Body where
  | members (tenant : Uuid) (keyID : String) (keyValues : List Bytes)
  | rows (tenant : Uuid) (keyID : String) (rows : List RelationalRow)
  | contacts (tenant : Uuid) (keyID mode source : String) (contacts : List (String → Option Bytes))

/-- `data[dest] = rec[idx]` for the destinations kept and the cells that are not empty. -/
def assign (keep : String → Bool) (record : List Bytes) (data : String → Option Bytes) (d : Mapped) :
    String → Option Bytes :=
  if keep d.dest ∧ cell record (some d.idx) ≠ [] then
    Function.update data d.dest (some (cell record (some d.idx)))
  else data

/-- The destinations that are data of a relational row. -/
def isData (keyID dest : String) : Bool := dest ≠ keyID ∧ dest ≠ "row_key"

def relationalRow (keyID : String) (pl : Plan) (r : BatchRow) : RelationalRow where
  keyValue := cell r.record pl.keyIdx
  rowKey := if pl.rowKeyIdx.isSome ∧ cell r.record pl.rowKeyIdx ≠ [] then cell r.record pl.rowKeyIdx
    else cell r.record pl.keyIdx
  data := pl.dests.foldl (assign (isData keyID) r.record) fun _ => none

def contactOf (pl : Plan) (r : BatchRow) : String → Option Bytes :=
  pl.dests.foldl (assign (fun _ => true) r.record) fun _ => none

def request (tid : Uuid) (p : Params) (pl : Plan) (rows : List BatchRow) : String × Body :=
  let (kind, id) := cut p.target ':'
  if kind = "list" then
    ("/internal/v1/lists/" ++ id ++ "/members",
      .members tid p.keyID (rows.map fun r => cell r.record pl.keyIdx))
  else if kind = "relational" then
    ("/internal/v1/relational/" ++ id ++ "/rows", .rows tid p.keyID (rows.map (relationalRow p.keyID pl)))
  else
    ("/internal/v1/contacts/batch-upsert",
      .contacts tid p.keyID p.mode "import" (rows.map (contactOf pl)))

/-- The key values a body carries, row by row. -/
def Body.keys : Body → List (Option Bytes)
  | .members _ _ keyValues => keyValues.map some
  | .rows _ _ upserts => upserts.map fun row => some row.keyValue
  | .contacts _ keyID _ _ sent => sent.map fun contact => contact keyID

/-- The local checks of `run` that let a row into a batch. -/
def accepts (cols : List Bytes) (pl : Plan) (record : List Bytes) : Bool :=
  record.length = cols.length && ! blank (cell record pl.keyIdx)

/-- The index of a column that is in the header. -/
def place (cols : List Bytes) (col : String) : Nat := (position cols col).getD 0

def planOf (cols : List Bytes) (keyID : String) (order : List (String × String)) : Plan where
  dests := order.map fun entry => ⟨place cols entry.1, entry.2⟩
  keyIdx := (order.find? fun entry => entry.2 = keyID).map fun entry => place cols entry.1
  keyName := ((order.find? fun entry => entry.2 = keyID).map Prod.fst).getD ""
  rowKeyIdx := (order.reverse.find? fun entry => entry.2 = "row_key").map fun entry => place cols entry.1

def extended (place : String → Nat) (keyID : String) (pl : Plan) (order : List (String × String)) : Plan :=
  order.foldl (fun pl entry => pl.extend keyID (place entry.1) entry.1 entry.2) pl

def Covers (cols : List Bytes) (order : List (String × String)) : Prop :=
  ∀ entry ∈ order, utf8 entry.1 ∈ cols

section Resolve

variable {cols : List Bytes} {keyID : String} {order : List (String × String)}

theorem position_place {col : String} (found : utf8 col ∈ cols) :
    position cols col = some (place cols col) := by
  cases at_ : position cols col with
  | none => exact absurd found (List.idxOf?_eq_none_iff.1 at_)
  | some i => simp [place, at_]

theorem getElem?_place {col : String} (found : utf8 col ∈ cols) :
    cols[place cols col]? = some (utf8 col) := by
  obtain ⟨inside, at_, -⟩ := List.idxOf?_eq_some_iff.1 (position_place found)
  rw [List.getElem?_eq_getElem inside, at_]

theorem place_lt {col : String} (found : utf8 col ∈ cols) : place cols col < cols.length :=
  (List.getElem?_eq_some_iff.1 (getElem?_place found)).1

theorem place_injective {col other : String} (found : utf8 col ∈ cols) (also : utf8 other ∈ cols)
    (same : place cols col = place cols other) : col = other := by
  have reached := getElem?_place found
  rw [same, getElem?_place also] at reached
  exact (utf8_injective (Option.some.inj reached)).symm

theorem resolve_covered (covered : Covers cols order) (pl : Plan) :
    resolve cols keyID pl order =
      .ok (extended (place cols) keyID pl order) := by
  induction order generalizing pl with
  | nil => rfl
  | cons entry rest ih =>
    have found := position_place (covered entry (List.mem_cons_self ..))
    simp only [resolve, found, extended, List.foldl_cons]
    exact ih (fun later member => covered later (List.mem_cons_of_mem _ member)) _

variable (keyID) in
theorem resolve_uncovered (uncovered : ¬ Covers cols order) (pl : Plan) :
    ∃ problem, resolve cols keyID pl order = .error problem := by
  induction order generalizing pl with
  | nil => exact absurd (fun _ member => absurd member List.not_mem_nil) uncovered
  | cons entry rest ih =>
    cases at_ : position cols entry.1 with
    | none => exact ⟨.notFound entry.1, by simp [resolve, at_]⟩
    | some i =>
      simp only [resolve, at_]
      apply ih
      intro covered
      apply uncovered
      intro other member
      rcases List.mem_cons.1 member with rfl | later
      · by_contra missing
        rw [position, List.idxOf?_eq_none_iff.2 missing] at at_
        exact Option.some_ne_none i at_.symm
      · exact covered other later

variable (keyID order) in
theorem extended_dests (locate : String → Nat) (pl : Plan) :
    (extended locate keyID pl order).dests =
      pl.dests ++ order.map fun entry => ⟨locate entry.1, entry.2⟩ := by
  induction order generalizing pl with
  | nil => simp [extended]
  | cons entry rest ih =>
    simpa [extended, Plan.extend] using ih (pl.extend keyID (locate entry.1) entry.1 entry.2)

variable (keyID order) in
theorem extended_key (locate : String → Nat) (pl : Plan) :
    (extended locate keyID pl order).keyIdx =
        pl.keyIdx.or ((order.find? fun entry => entry.2 = keyID).map fun entry => locate entry.1) ∧
      (extended locate keyID pl order).keyName = if pl.keyIdx.isSome then pl.keyName
        else ((order.find? fun entry => entry.2 = keyID).map Prod.fst).getD pl.keyName := by
  induction order generalizing pl with
  | nil => simp [extended]
  | cons entry rest ih =>
    obtain ⟨idx, name⟩ := ih (pl.extend keyID (locate entry.1) entry.1 entry.2)
    simp only [extended, List.foldl_cons] at idx name ⊢
    rw [idx, name]
    by_cases key : entry.2 = keyID
    · cases at_ : pl.keyIdx <;> simp [Plan.extend, key, at_]
    · simp [Plan.extend, key]

variable (keyID order) in
theorem extended_rowKey (locate : String → Nat) (pl : Plan) :
    (extended locate keyID pl order).rowKeyIdx =
      ((order.reverse.find? fun entry => entry.2 = "row_key").map fun entry => locate entry.1).or
        pl.rowKeyIdx := by
  induction order generalizing pl with
  | nil => simp [extended]
  | cons entry rest ih =>
    have later := ih (pl.extend keyID (locate entry.1) entry.1 entry.2)
    simp only [extended, List.foldl_cons] at later ⊢
    rw [later, List.reverse_cons, List.find?_append]
    cases rest.reverse.find? fun entry => entry.2 = "row_key" with
    | some last => simp
    | none => by_cases row : entry.2 = "row_key" <;> simp [Plan.extend, row]

theorem extended_empty :
    extended (place cols) keyID {} order = planOf cols keyID order := by
  have key := extended_key keyID order (place cols) {}
  have row := extended_rowKey keyID order (place cols) {}
  have dests := extended_dests keyID order (place cols) {}
  obtain ⟨idx, name⟩ := key
  cases built : extended (place cols) keyID {} order with
  | mk _ _ _ _ =>
    rw [built] at idx name row dests
    simp_all [planOf]

theorem newPlan_covered (covered : Covers cols order) (keyed : ∃ entry ∈ order, entry.2 = keyID) :
    newPlan cols keyID order = .ok (planOf cols keyID order) := by
  obtain ⟨entry, member, dest⟩ := keyed
  have found : (order.find? fun entry => entry.2 = keyID).isSome :=
    List.find?_isSome.2 ⟨entry, member, by simpa using dest⟩
  obtain ⟨first, at_⟩ := Option.isSome_iff_exists.1 found
  simp [newPlan, resolve_covered covered, extended_empty, planOf, at_]

theorem newPlan_uncovered (uncovered : ¬ Covers cols order) :
    ∃ problem, newPlan cols keyID order = .error problem := by
  obtain ⟨problem, failed⟩ := resolve_uncovered keyID uncovered {}
  exact ⟨problem, by simp [newPlan, failed]⟩

end Resolve

end OpenEmarsys.Importer
