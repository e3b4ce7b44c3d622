import OpenEmarsys.Importer.Plan

/-! When the plan of a job and the requests made from it are the same however Go walks
the mapping, and the key sent is the one that was checked.
-/

set_option autoImplicit false

namespace OpenEmarsys.Importer

open Golang Javascript

/-- Equal plans, but for the order of `dests`, which is only ever walked. -/
structure Plan.Same (pl other : Plan) : Prop where
  dests : pl.dests.Perm other.dests
  keyIdx : pl.keyIdx = other.keyIdx
  keyName : pl.keyName = other.keyName
  rowKeyIdx : pl.rowKeyIdx = other.rowKeyIdx

/-- Two visits of the mapping both fail, or build the same plan. -/
def SameOutcome : Except PlanError Plan → Except PlanError Plan → Prop
  | .ok pl, .ok other => pl.Same other
  | .error _, .error _ => True
  | _, _ => False

/-- Neither the plan nor any request for rows as wide as the header depends on the visit. -/
structure OrderFree (cols : List Bytes) (p : Params) : Prop where
  plan : ∀ order other, p.mapping.Iterates order → p.mapping.Iterates other →
    SameOutcome (newPlan cols p.keyID order) (newPlan cols p.keyID other)
  request : ∀ order other pl again, p.mapping.Iterates order → p.mapping.Iterates other →
    newPlan cols p.keyID order = .ok pl → newPlan cols p.keyID other = .ok again →
      ∀ tid (rows : List BatchRow), (∀ row ∈ rows, row.record.length = cols.length) →
      Importer.request tid p pl rows = Importer.request tid p again rows

/-- The key sent for a row that passed the local checks is the cell they looked at. -/
def SendsChecked (cols : List Bytes) (p : Params) : Prop :=
  ∀ order pl, p.mapping.Iterates order → newPlan cols p.keyID order = .ok pl →
      ∀ tid (rows : List BatchRow), (∀ row ∈ rows, accepts cols pl row.record = true) →
      (request tid p pl rows).2.keys = rows.map fun row => some (cell row.record pl.keyIdx)

/-- At most one column is mapped to the destination. -/
def Once (p : Params) (dest : String) : Prop :=
  ∀ entry ∈ p.mapping.entries, ∀ other ∈ p.mapping.entries,
    entry.2 = dest → other.2 = dest → entry = other

/-- No destination that the request reads by name is mapped twice. -/
structure Settled (p : Params) : Prop where
  key : Once p p.keyID
  rowKey : Once p "row_key"
  others : (cut p.target ':').1 ≠ "list" → ∀ dest, Once p dest

section Sufficient

variable {cols : List Bytes} {p : Params} {order other : List (String × String)}

theorem find?_of_once {Item : Type} {test : Item → Bool} {items others : List Item}
    (same : ∀ item, item ∈ items ↔ item ∈ others)
    (once : ∀ item ∈ items, ∀ also ∈ items, test item = true → test also = true → item = also) :
    items.find? test = others.find? test := by
  cases found : items.find? test with
  | none =>
    symm
    rw [List.find?_eq_none] at found ⊢
    exact fun item member => found item ((same item).2 member)
  | some item =>
    have passes := List.find?_some found
    have member := List.mem_of_find?_eq_some found
    have exists_ : (others.find? test).isSome :=
      List.find?_isSome.2 ⟨item, (same item).1 member, passes⟩
    obtain ⟨also, at_⟩ := Option.isSome_iff_exists.1 exists_
    rw [at_, once item member also ((same also).2 (List.mem_of_find?_eq_some at_)) passes
      (List.find?_some at_)]

variable (cols) in
theorem planOf_same (settled : Settled p) (visited : p.mapping.Iterates order)
    (again : p.mapping.Iterates other) :
    (planOf cols p.keyID order).Same (planOf cols p.keyID other) := by
  have members : ∀ entry, entry ∈ order ↔ entry ∈ other :=
    fun _ => visited.mem_iff.trans again.mem_iff.symm
  have key : (order.find? fun entry => entry.2 = p.keyID) = other.find? fun entry => entry.2 = p.keyID := by
    apply find?_of_once members
    intro entry member also here dest same
    exact settled.key entry (visited.mem_iff.1 member) also (visited.mem_iff.1 here)
      (of_decide_eq_true dest) (of_decide_eq_true same)
  have row : (order.reverse.find? fun entry => entry.2 = "row_key") =
      other.reverse.find? fun entry => entry.2 = "row_key" := by
    apply find?_of_once (by simpa using members)
    intro entry member also here dest same
    exact settled.rowKey entry (visited.mem_iff.1 (List.mem_reverse.1 member)) also
      (visited.mem_iff.1 (List.mem_reverse.1 here)) (of_decide_eq_true dest) (of_decide_eq_true same)
  exact ⟨(visited.perm again).map _, by simp [planOf, key], by simp [planOf, key], by simp [planOf, row]⟩

/-- The destinations of a plan tell its entries apart. -/
def Plan.Distinct (pl : Plan) : Prop :=
  ∀ d ∈ pl.dests, ∀ also ∈ pl.dests, d.dest = also.dest → d = also

variable (cols) in
theorem planOf_distinct (once : ∀ dest, Once p dest) (visited : p.mapping.Iterates order) :
    (planOf cols p.keyID order).Distinct := by
  intro d member also here same
  obtain ⟨entry, in_, rfl⟩ := List.mem_map.1 member
  obtain ⟨twin, also_, rfl⟩ := List.mem_map.1 here
  have equal := once entry.2 entry (visited.mem_iff.1 in_) twin (visited.mem_iff.1 also_) rfl same.symm
  rw [equal]

theorem assign_comm (keep : String → Bool) (record : List Bytes) (data : String → Option Bytes)
    {d also : Mapped} (apart : d.dest = also.dest → d = also) :
    assign keep record (assign keep record data d) also =
      assign keep record (assign keep record data also) d := by
  by_cases same : d.dest = also.dest
  · rw [apart same]
  · unfold assign
    split <;> split <;> first | rfl | exact Function.update_comm same _ _ _

theorem fold_assign_perm (keep : String → Bool) (record : List Bytes) {pl again : Plan}
    (distinct : pl.Distinct) (same : pl.dests.Perm again.dests) :
    pl.dests.foldl (assign keep record) (fun _ => none) =
      again.dests.foldl (assign keep record) fun _ => none := by
  apply same.foldl_eq'
  intro d member also here data
  exact assign_comm keep record data (distinct d member also here)

theorem request_same (settled : Settled p) (visited : p.mapping.Iterates order)
    (again : p.mapping.Iterates other) (tid : Uuid) (rows : List BatchRow) :
    request tid p (planOf cols p.keyID order) rows = request tid p (planOf cols p.keyID other) rows := by
  obtain ⟨dests, keyIdx, -, rowKeyIdx⟩ := planOf_same cols settled visited again
  unfold request
  by_cases list : (cut p.target ':').1 = "list"
  · simp [list, keyIdx]
  · have distinct := planOf_distinct cols (settled.others list) visited
    have rel : relationalRow p.keyID (planOf cols p.keyID order) =
        relationalRow p.keyID (planOf cols p.keyID other) := by
      funext row
      simp only [relationalRow, keyIdx, rowKeyIdx, fold_assign_perm _ row.record distinct dests]
    have con : contactOf (planOf cols p.keyID order) = contactOf (planOf cols p.keyID other) := by
      funext row
      exact fold_assign_perm _ row.record distinct dests
    simp only [rel, con, keyIdx]

theorem fold_assign_last (keep : String → Bool) (record : List Bytes) (before : List Mapped) (d : Mapped)
    (kept : keep d.dest = true) (filled : cell record (some d.idx) ≠ []) :
    (before ++ [d]).foldl (assign keep record) (fun _ => none) d.dest = some (cell record (some d.idx)) := by
  rw [List.foldl_append, List.foldl_cons, List.foldl_nil, assign, if_pos ⟨kept, filled⟩,
    Function.update_self]

theorem contactOf_dest {pl : Plan} (distinct : pl.Distinct) {d : Mapped} (member : d ∈ pl.dests)
    {row : BatchRow} (filled : cell row.record (some d.idx) ≠ []) :
    contactOf pl row d.dest = some (cell row.record (some d.idx)) := by
  obtain ⟨before, after, parts⟩ := List.append_of_mem member
  let again : Plan := { dests := before ++ after ++ [d] }
  have last : pl.dests.Perm again.dests := by
    change pl.dests.Perm (before ++ after ++ [d])
    rw [parts, List.append_assoc]
    exact List.Perm.append_left before (List.perm_append_singleton d after).symm
  have moved := fold_assign_perm (fun _ => true) row.record distinct last
  rw [contactOf, moved]
  exact fold_assign_last _ _ _ _ rfl filled

theorem cell_filled {pl : Plan} {record : List Bytes} (accepted : accepts cols pl record = true) :
    cell record pl.keyIdx ≠ [] := by
  intro empty
  simp [accepts, empty, blank] at accepted

theorem sends_checked (settled : Settled p) (visited : p.mapping.Iterates order)
    (keyed : ∃ entry ∈ order, entry.2 = p.keyID) (tid : Uuid) (rows : List BatchRow)
    (accepted : ∀ row ∈ rows, accepts cols (planOf cols p.keyID order) row.record = true) :
    (request tid p (planOf cols p.keyID order) rows).2.keys =
      rows.map fun row => some (cell row.record (planOf cols p.keyID order).keyIdx) := by
  unfold request
  by_cases list : (cut p.target ':').1 = "list"
  · simp [list, Body.keys]
  by_cases relational : (cut p.target ':').1 = "relational"
  · simp [relational, Body.keys, relationalRow]
  have distinct := planOf_distinct cols (settled.others list) visited
  obtain ⟨entry, member, dest⟩ := keyed
  have found : (order.find? fun entry => entry.2 = p.keyID).isSome :=
    List.find?_isSome.2 ⟨entry, member, by simpa using dest⟩
  obtain ⟨first, at_⟩ := Option.isSome_iff_exists.1 found
  have keyDest : first.2 = p.keyID := by simpa using List.find?_some at_
  have key : (planOf cols p.keyID order).keyIdx = some (place cols first.1) := by simp [planOf, at_]
  simp only [list, relational, if_false, Body.keys, List.map_map]
  apply List.map_congr_left
  intro row here
  have filled := cell_filled (accepted row here)
  rw [key] at filled ⊢
  have sent := contactOf_dest distinct (d := ⟨place cols first.1, first.2⟩)
    (List.mem_map.2 ⟨first, List.mem_of_find?_eq_some at_, rfl⟩) filled
  simpa [keyDest] using sent

theorem settled_suffices (settled : Settled p) (keyed : ∃ entry ∈ p.mapping.entries, entry.2 = p.keyID)
    (covered : Covers cols p.mapping.entries) : OrderFree cols p ∧ SendsChecked cols p := by
  have built {order : List (String × String)} (visited : p.mapping.Iterates order) :
      newPlan cols p.keyID order = .ok (planOf cols p.keyID order) := by
    obtain ⟨entry, member, dest⟩ := keyed
    exact newPlan_covered (fun entry member => covered entry (visited.mem_iff.1 member))
      ⟨entry, visited.mem_iff.2 member, dest⟩
  refine ⟨⟨fun order other visited again => ?_, ?_⟩, ?_⟩
  · rw [built visited, built again]
    exact planOf_same _ settled visited again
  · intro order other pl twin visited again ok also tid rows _
    rw [built visited] at ok
    rw [built again] at also
    cases ok
    cases also
    exact request_same settled visited again tid rows
  · intro order pl visited ok tid rows accepted
    rw [built visited] at ok
    cases ok
    obtain ⟨entry, member, dest⟩ := keyed
    exact sends_checked settled visited ⟨entry, visited.mem_iff.2 member, dest⟩ tid rows accepted

theorem uncovered_suffices (uncovered : ¬ Covers cols p.mapping.entries) :
    OrderFree cols p ∧ SendsChecked cols p := by
  have fails {order : List (String × String)} (visited : p.mapping.Iterates order) :
      ∃ problem, newPlan cols p.keyID order = .error problem := by
    apply newPlan_uncovered
    intro covered
    exact uncovered fun entry member => covered entry (visited.mem_iff.2 member)
  refine ⟨⟨fun order other visited again => ?_, ?_⟩, ?_⟩
  · obtain ⟨problem, failed⟩ := fails visited
    obtain ⟨also, twice⟩ := fails again
    rw [failed, twice]
    trivial
  · intro order other pl twin visited _ ok
    obtain ⟨problem, failed⟩ := fails visited
    rw [failed] at ok
    cases ok
  · intro order pl visited ok
    obtain ⟨problem, failed⟩ := fails visited
    rw [failed] at ok
    cases ok

end Sufficient

/-! ## Mappings that are not settled -/

section Necessary

variable {cols : List Bytes} {p : Params}

theorem place_ne (covered : Covers cols p.mapping.entries) {entry other : String × String}
    (member : entry ∈ p.mapping.entries) (also : other ∈ p.mapping.entries) (dest : entry.2 = other.2)
    (apart : entry ≠ other) : place cols entry.1 ≠ place cols other.1 := by
  intro same
  have name := place_injective (covered entry member) (covered other also) same
  exact apart (Prod.ext name dest)

/-- A row whose cells are all different and none of them blank. -/
def probe (width : Nat) : BatchRow := ⟨1, (List.range width).map fun i => List.replicate (i + 1) 0x78⟩

theorem cell_probe {width i : Nat} (inside : i < width) :
    cell (probe width).record (some i) = List.replicate (i + 1) 0x78 := by
  simp [probe, cell, inside]

theorem length_probe (width : Nat) : (probe width).record.length = width := by simp [probe]

theorem cell_probe_ne {width i j : Nat} (inside : i < width) (also : j < width) (apart : i ≠ j) :
    cell (probe width).record (some i) ≠ cell (probe width).record (some j) := by
  rw [cell_probe inside, cell_probe also]
  intro same
  have lengths := congrArg List.length same
  simp only [List.length_replicate] at lengths
  omega

theorem fold_planOf_last (covered : Covers cols p.mapping.entries) {entry : String × String}
    {rest : List (String × String)} (visited : p.mapping.Iterates (rest ++ [entry]))
    (keep : String → Bool) (kept : keep entry.2 = true) :
    (planOf cols p.keyID (rest ++ [entry])).dests.foldl (assign keep (probe cols.length).record)
        (fun _ => none) entry.2 =
      some (cell (probe cols.length).record (some (place cols entry.1))) := by
  have inside := place_lt (covered entry (visited.mem_iff.1 (by simp)))
  simp only [planOf, List.map_append, List.map_cons, List.map_nil]
  apply fold_assign_last keep _ _ ⟨place cols entry.1, entry.2⟩ kept
  rw [cell_probe inside]
  simp

def Body.data : Body → List (String → Option Bytes)
  | .members .. => []
  | .rows _ _ upserts => upserts.map RelationalRow.data
  | .contacts _ _ _ _ sent => sent

theorem data_relational (relational : (cut p.target ':').1 = "relational") (tid : Uuid) (pl : Plan)
    (rows : List BatchRow) :
    (request tid p pl rows).2.data = rows.map fun row => (relationalRow p.keyID pl row).data := by
  unfold request
  simp [relational, Body.data]

theorem data_contacts (notList : (cut p.target ':').1 ≠ "list")
    (notRelational : (cut p.target ':').1 ≠ "relational") (tid : Uuid) (pl : Plan) (rows : List BatchRow) :
    (request tid p pl rows).2.data = rows.map (contactOf pl) := by
  unfold request
  simp [notList, notRelational, Body.data]

variable (free : OrderFree cols p) (keyed : ∃ entry ∈ p.mapping.entries, entry.2 = p.keyID)
  (covered : Covers cols p.mapping.entries)

include keyed covered in
theorem built_of_covered {order : List (String × String)} (visited : p.mapping.Iterates order) :
    newPlan cols p.keyID order = .ok (planOf cols p.keyID order) := by
  obtain ⟨entry, member, dest⟩ := keyed
  exact newPlan_covered (fun entry member => covered entry (visited.mem_iff.1 member))
    ⟨entry, visited.mem_iff.2 member, dest⟩

include free keyed covered in
theorem same_plans {order other : List (String × String)} (visited : p.mapping.Iterates order)
    (again : p.mapping.Iterates other) :
    (planOf cols p.keyID order).Same (planOf cols p.keyID other) := by
  have same := free.plan order other visited again
  rw [built_of_covered keyed covered visited, built_of_covered keyed covered again] at same
  exact same

include free keyed covered in
theorem key_once : Once p p.keyID := by
  intro entry member other also dest same
  by_contra apart
  obtain ⟨rest, visited⟩ := GoMap.iterates_first member
  obtain ⟨tail, again⟩ := GoMap.iterates_first also
  have plans := same_plans free keyed covered visited again
  have places := plans.keyIdx
  simp only [planOf, List.find?_cons, dest, same, decide_true, Option.map_some, Option.some.injEq] at places
  exact place_ne covered member also (dest.trans same.symm) apart places

include free keyed covered in
theorem rowKey_once : Once p "row_key" := by
  intro entry member other also dest same
  by_contra apart
  obtain ⟨rest, visited⟩ := GoMap.iterates_last member
  obtain ⟨tail, again⟩ := GoMap.iterates_last also
  have plans := same_plans free keyed covered visited again
  have places := plans.rowKeyIdx
  simp only [planOf, List.reverse_append, List.reverse_cons, List.reverse_nil, List.nil_append,
    List.singleton_append, List.find?_cons, dest, same, decide_true, Option.map_some,
    Option.some.injEq] at places
  exact place_ne covered member also (dest.trans same.symm) apart places

include free keyed covered in
theorem dest_once (notList : (cut p.target ':').1 ≠ "list") (dest : String) : Once p dest := by
  intro entry member other also to_ same
  by_contra apart
  have key := key_once free keyed covered
  have row := rowKey_once free keyed covered
  obtain ⟨rest, visited⟩ := GoMap.iterates_last member
  obtain ⟨tail, again⟩ := GoMap.iterates_last also
  have requests := free.request _ _ _ _ visited again (built_of_covered keyed covered visited)
    (built_of_covered keyed covered again) 0 [probe cols.length] (by simp [length_probe])
  have maps := congrArg (fun sent => sent.2.data) requests
  apply cell_probe_ne (place_lt (covered entry member)) (place_lt (covered other also))
    (place_ne covered member also (to_.trans same.symm) apart)
  by_cases relational : (cut p.target ':').1 = "relational"
  · have kept : isData p.keyID entry.2 = true := by
      apply decide_eq_true
      exact ⟨fun isKey => apart (key entry member other also isKey (same.trans (to_.symm.trans isKey))),
        fun isRow => apart (row entry member other also isRow (same.trans (to_.symm.trans isRow)))⟩
    have first := fold_planOf_last covered visited (isData p.keyID) kept
    have second := fold_planOf_last covered again (isData p.keyID) (to_.trans same.symm ▸ kept)
    simp only [data_relational relational, List.map_cons, List.map_nil, List.cons.injEq, and_true,
      relationalRow] at maps
    rw [maps, to_.trans same.symm, second] at first
    exact (Option.some.inj first).symm
  · have first := fold_planOf_last covered visited (fun _ => true) rfl
    have second := fold_planOf_last covered again (fun _ => true) rfl
    simp only [data_contacts notList relational, List.map_cons, List.map_nil, List.cons.injEq, and_true,
      contactOf] at maps
    rw [maps, to_.trans same.symm, second] at first
    exact (Option.some.inj first).symm

end Necessary

theorem enqueue_keyed {start : StartReq} {p : Params} (queued : enqueue start = .ok p) :
    ∃ entry ∈ p.mapping.entries, entry.2 = p.keyID := by
  unfold enqueue at queued
  repeat' split at queued
  all_goals try contradiction
  rename_i keyed
  cases queued
  simpa using keyed

/-- A header either misses a mapped column, and the job fails however the mapping is
walked, or the job is a function of its params just when the mapping is settled. -/
theorem job_determined_iff (start : StartReq) (p : Params) (queued : enqueue start = .ok p)
    (cols : List Bytes) :
    (OrderFree cols p ∧ SendsChecked cols p) ↔ (Covers cols p.mapping.entries → Settled p) := by
  have keyed := enqueue_keyed queued
  constructor
  · intro ⟨free, _⟩ covered
    exact ⟨key_once free keyed covered, rowKey_once free keyed covered, dest_once free keyed covered⟩
  · intro settled
    by_cases covered : Covers cols p.mapping.entries
    · exact settled_suffices (settled covered) keyed covered
    · exact uncovered_suffices covered

/-- Columns `a` and `b`, both mapped to field 3, the key. -/
def twoKeys : StartReq where
  hasHeader := none
  mapping := ⟨[("a", "3"), ("b", "3")], by decide⟩
  keyID := "3"
  mode := "upsert"
  target := "contacts"

def twoKeysParams : Params := ⟨true, twoKeys.mapping, "3", "upsert", "contacts"⟩

theorem job_determined_iff_twoKeys :
    enqueue twoKeys = .ok twoKeysParams ∧
      ((OrderFree [utf8 "a"] twoKeysParams ∧ SendsChecked [utf8 "a"] twoKeysParams) ↔
        (Covers [utf8 "a"] twoKeysParams.mapping.entries → Settled twoKeysParams)) :=
  ⟨rfl, job_determined_iff twoKeys twoKeysParams rfl [utf8 "a"]⟩

/-- The key cell that was checked is `1`; `2` is sent. -/
theorem sends_unchecked : enqueue twoKeys = .ok twoKeysParams ∧
    ¬ (OrderFree [utf8 "a", utf8 "b"] twoKeysParams ∧ SendsChecked [utf8 "a", utf8 "b"] twoKeysParams) := by
  refine ⟨rfl, fun ⟨_, sends⟩ => ?_⟩
  have sent := sends twoKeys.mapping.entries _ (List.Perm.refl _) rfl 0 [⟨2, [utf8 "1", utf8 "2"]⟩]
    (by decide)
  revert sent
  decide

end OpenEmarsys.Importer
