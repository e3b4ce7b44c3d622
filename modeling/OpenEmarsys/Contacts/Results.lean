import OpenEmarsys.Contacts.Items
import OpenEmarsys.Contacts.Permanence

/-! What `write` and `delete` answer is true of the committed rows, in every run.

A result that names a contact rests on a row its transaction has locked or written; such a row is known
from then on, whatever other calls do before this one returns.
-/

set_option autoImplicit false

namespace OpenEmarsys.Contacts

open Javascript Postgres Interleaving

section Walk
variable {core : Core} {erased : Uuid → Prop} {keyId : String} {items : List Item}

/-- Pending items that name contacts and have changed nothing yet. -/
def Named (pending : List Pending) : Prop := ∀ p ∈ pending, (∃ id, p.r.id = some id) ∧ p.r.changed = []

theorem Named.ids {pending : List Pending} (named : Named pending) :
    (pending.filterMap fun p => p.r.id) = pending.map fun p => p.r.id.getD 0 := by
  induction pending with
  | nil => rfl
  | cons p rest ih =>
    obtain ⟨⟨⟨id, is⟩, -⟩, others⟩ := List.forall_mem_cons.mp named
    simp [is, ih others]

def Row.contactId (row : Row) : Uuid := (row.contact?.map Contact.id).getD 0

-- Contacts that were found for as many items, no contact twice: each item has found its own.
theorem Named.found {pending : List Pending} (named : Named pending) {rows : List Row} (apart : Apart rows)
    (contacts : ∀ row ∈ rows, ∃ contact, row = .contact contact ∧
      contact.id ∈ pending.filterMap fun p => p.r.id)
    (length : rows.length = pending.length) :
    (∀ p ∈ pending, ∀ q ∈ pending, p.r.id = q.r.id → p = q) ∧
      ∀ p ∈ pending, ∃ contact, .contact contact ∈ rows ∧ p.r.id = some contact.id := by
  have distinct : (rows.map Row.contactId).Nodup := by
    apply List.pairwise_map.mpr
    apply apart.imp_of_mem
    intro row other here there differ same
    obtain ⟨contact, rfl, -⟩ := contacts row here
    obtain ⟨also, rfl, -⟩ := contacts other there
    exact differ (congrArg IndexKey.contact same)
  have among : rows.map Row.contactId ⊆ pending.map fun p => p.r.id.getD 0 := by
    intro id member
    obtain ⟨row, here, rfl⟩ := List.mem_map.mp member
    obtain ⟨contact, rfl, known⟩ := contacts row here
    exact named.ids ▸ known
  -- as many different contacts as items: the two lists are the same but for the order
  have perm : (rows.map Row.contactId).Perm (pending.map fun p => p.r.id.getD 0) :=
    (List.subperm_of_subset distinct among).perm_of_length_le (by simp [length])
  refine ⟨fun p left q right same => ?_, fun p member => ?_⟩
  · apply List.inj_on_of_nodup_map (perm.nodup_iff.mp distinct) left right
    rw [same]
  · obtain ⟨⟨id, is⟩, -⟩ := named p member
    have there : id ∈ rows.map Row.contactId :=
      perm.mem_iff.mpr (List.mem_map.mpr ⟨p, member, by rw [is]; rfl⟩)
    obtain ⟨row, here, rfl⟩ := List.mem_map.mp there
    obtain ⟨contact, rfl, -⟩ := contacts row here
    exact ⟨contact, here, is⟩

/-- What an item that sends these values has made of a contact, new or known `before`: the data of its next
version, with every key that was sent set or removed. Nothing is written where nothing changes. -/
structure Made (before : Contact → Prop) (set : List (String × Option Value)) (created : Bool)
    (changed : List String) (contact : Contact) : Prop where
  made : ∃ version old, (created = true → version = 0 ∧ old = fun _ => none) ∧
    (created = false → ∃ last, before last ∧ last.version = version ∧ last.data = old ∧ last.Before contact) ∧
    changed = (set.map Prod.fst).filter (fun k => old k ≠ merge old set k) ∧
    (created = false ∧ changed = [] ∨ contact.dataAt (version + 1) = some (merge old set).stored)

theorem Made.mono {before known : Contact → Prop} {set : List (String × Option Value)} {created : Bool}
    {changed : List String} {contact : Contact} (made : Made before set created changed contact)
    (imp : ∀ contact, before contact → known contact) :
    Made known set created changed contact := by
  obtain ⟨version, old, new, found, same, written⟩ := made.made
  refine ⟨version, old, new, fun exists_ => ?_, same, written⟩
  obtain ⟨last, is, rest⟩ := found exists_
  exact ⟨last, imp last is, rest⟩

/-- What a batch has written is known: each item has a contact of its own, and what it tells of it is so. -/
structure Settled (erased : Uuid → Prop) (pending : List Pending) (changes : List ContactChange)
    (known : List Row) : Prop where
  own : ∀ p ∈ pending, ∀ q ∈ pending, ∀ id, ¬ erased id → p.r.id = some id → q.r.id = some id → p = q
  only : ∀ change ∈ changes, ∃ p ∈ pending, p.r.id = some change.contactId
  wrote : ∀ p ∈ pending, ∀ id, ¬ erased id → p.r.id = some id →
    ∃ contact, .contact contact ∈ known ∧ contact.id = id ∧
    Made (fun last => .contact last ∈ known) p.set p.r.created
      ((ofChange changes id ContactChange.changed).getD []) contact

theorem Settled.nil (erased : Uuid → Prop) (known : List Row) : Settled erased [] [] known :=
  ⟨fun _ member => (by cases member), fun _ member => (by cases member), fun _ member => (by cases member)⟩

theorem ofChange_own {α : Type} {pending : List Pending} {f : Pending → Option ContactChange}
    (names : ∀ p ∈ pending, ∀ change, f p = some change → p.r.id = some change.contactId) {p : Pending}
    (member : p ∈ pending) {id : Uuid}
    (is : p.r.id = some id) (own : ∀ q ∈ pending, q.r.id = some id → q = p) (take : ContactChange → α) :
    ofChange (pending.filterMap f) id take = (f p).map take := by
  have only (change : ContactChange) (among : change ∈ pending.filterMap f) (same : change.contactId = id) :
      f p = some change := by
    obtain ⟨q, here, gives⟩ := List.mem_filterMap.mp among
    rw [← own q here (same ▸ names q here change gives)]
    exact gives
  rw [ofChange]
  cases found : (pending.filterMap f).find? fun change => change.contactId == id with
  | some change =>
    have same : change.contactId = id := by simpa using List.find?_some found
    rw [only change (List.mem_of_find?_eq_some found) same]
  | none =>
    cases gives : f p with
    | none => rfl
    | some change =>
      have absent := List.find?_eq_none.mp found change (List.mem_filterMap.mpr ⟨p, member, gives⟩)
      have same := (names p member change gives).symm.trans is
      simp [Option.some.inj same] at absent

theorem changeOf_names {olds : List Contact} {source : String} {p : Pending} {change : ContactChange}
    (gives : changeOf olds source p = some change) : p.r.id = some change.contactId := by
  simp only [changeOf, Option.bind_eq_bind, Option.bind_eq_some_iff] at gives
  obtain ⟨id, is, old, -, changed⟩ := gives
  split at changed
  · cases changed
  · cases changed
    exact is

theorem changeOf_found {olds : List Contact} {p : Pending} {id : Uuid} {old : Contact} (source : String)
    (is : p.r.id = some id) (found : olds.find? (fun contact => contact.id == id) = some old) :
    changeOf olds source p =
      if ((p.set.map Prod.fst).filter fun k => old.data k ≠ merge old.data p.set k).isEmpty then none
      else some ⟨id, false, old.data, merge old.data p.set,
        (p.set.map Prod.fst).filter (fun k => old.data k ≠ merge old.data p.set k), source⟩ := by
  simp [changeOf, is, found]

-- The update takes in the contact of every change, with what that change makes of it.
theorem changes_send {pending : List Pending} {olds : List Contact} {source : String}
    (own : ∀ p ∈ pending, ∀ q ∈ pending, p.r.id = q.r.id → p = q) {p : Pending} (member : p ∈ pending)
    {change : ContactChange} (gives : changeOf olds source p = some change) :
    ((pending.filterMap (changeOf olds source)).map ContactChange.contactId).contains change.contactId = true ∧
      ofChange (pending.filterMap (changeOf olds source)) change.contactId ContactChange.after =
        some change.after := by
  have names := changeOf_names gives
  constructor
  · rw [List.contains_iff_mem]
    exact List.mem_map_of_mem (List.mem_filterMap.mpr ⟨p, member, gives⟩)
  · rw [ofChange_own (fun _ _ _ => changeOf_names) member names
      fun q there same => own q there p member (same.trans names.symm), gives, Option.map_some]

theorem find_contact {rows : List Row} {contact : Contact} (present : .contact contact ∈ rows) : ∃ old,
    (rows.filterMap Row.contact?).find? (fun other => other.id == contact.id) = some old ∧
    .contact old ∈ rows ∧ old.id = contact.id := by
  cases found : (rows.filterMap Row.contact?).find? fun other => other.id == contact.id with
  | some old =>
    obtain ⟨row, member, is⟩ := List.mem_filterMap.mp (List.mem_of_find?_eq_some found)
    cases row with
    | contact other =>
      cases is
      exact ⟨old, rfl, member, by simpa using List.find?_some found⟩
    | _ => cases is
  | none =>
    have absent := List.find?_eq_none.mp found contact (List.mem_filterMap.mpr ⟨_, present, rfl⟩)
    simp at absent

theorem update_settles {pending : List Pending} (existing : ∀ p ∈ pending, p.r.created = false)
    {source : String} {rows known : List Row} (own : ∀ p ∈ pending, ∀ q ∈ pending, p.r.id = q.r.id → p = q)
    (found : ∀ p ∈ pending, ∃ contact, .contact contact ∈ rows ∧ p.r.id = some contact.id)
    (read : rows ⊆ known)
    (wrote : ∀ p ∈ pending, ∀ change, changeOf (rows.filterMap Row.contact?) source p = some change →
        ∀ old, .contact old ∈ rows → old.id = change.contactId →
        ∃ contact, .contact contact ∈ known ∧ old.Before contact ∧ contact.dataAt
        (old.version + 1) = some change.after.stored) :
    Settled erased pending (pending.filterMap (changeOf (rows.filterMap Row.contact?) source)) known := by
  refine ⟨fun p left q right id _ first second => own p left q right (first.trans second.symm),
    fun change member => ?_,
    fun p member id _ is => ?_⟩
  · obtain ⟨p, among, gives⟩ := List.mem_filterMap.mp member
    exact ⟨p, among, changeOf_names gives⟩
  · obtain ⟨contact, present, names⟩ := found p member
    obtain rfl : contact.id = id := Option.some.inj (names.symm.trans is)
    obtain ⟨old, first, there, same⟩ := find_contact present
    have change := changeOf_found source is first
    rw [ofChange_own (fun _ _ _ => changeOf_names) member is
      (fun q among names => own q among p member (names.trans is.symm)),
      existing p member]
    split at change
    · next nothing =>
      -- the contact already has what the item sends
      rw [change]
      exact ⟨old, read there, same, old.version, old.data, Bool.noConfusion,
        fun _ => ⟨old, read there, rfl, rfl, .refl old⟩,
        (List.isEmpty_iff.mp nothing).symm, .inl ⟨rfl, rfl⟩⟩
    · obtain ⟨written, present, before, data⟩ := wrote p member _ change old there same
      rw [change]
      exact ⟨written, present, before.id.trans same, old.version, old.data, Bool.noConfusion,
        fun _ => ⟨old, read there, rfl, rfl, before⟩, rfl, .inr data⟩

theorem update_abides (now : Time) {pending : List Pending} (named : Named pending)
    (existing : ∀ p ∈ pending, p.r.created = false)
    (source : String) (known : List Row) :
    Abides (law core erased) emitted (fun result _ later => ∀ changes, result = .ok changes →
      Settled erased pending changes later)
      (.reading []) known (update core now pending source) := by
  unfold update
  split
  · next none_ =>
    intro changes is
    cases is
    obtain rfl := List.isEmpty_iff.mp none_
    exact .nil erased known
  · refine Abides.bind (Abides.sql trivial (fun rows replies => ?_) fun _ _ is => by cases is)
    obtain ⟨matched, apart⟩ := replies
    dsimp only [Then]
    split
    · exact fun _ is => by cases is
    · next length =>
      have contacts : ∀ row ∈ rows, ∃ contact, row = .contact contact ∧
          contact.id ∈ pending.filterMap fun p => p.r.id := by
        intro row member
        have holds := matched row member
        cases row with
        | contact contact => exact ⟨contact, rfl, by simpa using (Bool.and_eq_true_iff.mp holds).2⟩
        | _ => cases holds
      obtain ⟨own, found⟩ := named.found apart contacts (not_not.mp length)
      split
      · next unchanged =>
        intro changes is
        cases is
        refine update_settles existing own found (List.subset_append_left rows known)
          fun p member change gives => ?_
        have among := List.mem_filterMap.mpr ⟨p, member, gives⟩
        rw [List.isEmpty_iff.mp unchanged] at among
        cases among
      · split
        · exact fun _ is => by cases is
        · refine Abides.bind (Abides.sql (obeys_merge _ _ now) (fun written replies => ?_)
            fun _ _ is => by cases is)
          intro changes is
          cases is
          refine update_settles existing own found (fun row member =>
            List.mem_append_right _ (List.mem_append_left _ member))
            fun p among change gives old present same => ?_
          obtain ⟨contained, sends⟩ := changes_send own among gives
          rw [← same] at contained sends
          -- the contact is locked: it is the one that is updated
          have updated := replies.2.2 (.contact old) (List.mem_append_left _ present)
            (by simpa only [Row.isContact, Row.contact?, Option.any_some] using contained)
          have data : Data.stored
              ((ofChange (pending.filterMap (changeOf (rows.filterMap Row.contact?) source)) old.id
                ContactChange.after).getD old.data) = change.after.stored := by
            rw [sends]
            rfl
          exact ⟨_, List.mem_append_left _ updated, before_recorded rfl rfl rfl rfl fun _ is => is,
            dataAt_recorded rfl (congrArg (· :: old.past) data)⟩

theorem insertChange_changed {p : Pending} (distinct : (p.set.map Prod.fst).Nodup) (source : String) :
    (insertChange source p).changed = (p.set.map Prod.fst).filter fun k => (none : Option Value) ≠ merge
    (fun _ => none) p.set k := by
  rw [List.filter_map]
  apply congrArg (List.map Prod.fst)
  apply List.filter_congr
  intro entry member
  obtain ⟨k, value⟩ := entry
  rw [Function.comp_apply, merge_sent distinct member]
  cases value <;> simp

theorem insertChange_names {p : Pending} {id : Uuid} (is : p.r.id = some id) (source : String) :
    (insertChange source p).contactId = id := by
  rw [insertChange, is]
  rfl

theorem insert_settles (now : Time) {pending : List Pending}
    (creates : ∀ p ∈ pending, p.r.created = true)
    (distinct : ∀ p ∈ pending, (p.set.map Prod.fst).Nodup) {source : String} {known : List Row}
    (named : ∀ p ∈ pending, p.r.id = some (insertChange source p).contactId)
    (ids : ((pending.map (insertChange source)).map fun change => change.contactId).Nodup)
    (wrote : ∀ p ∈ pending, .contact (newContact core now (insertChange source p)) ∈ known) :
    Settled erased pending (pending.map (insertChange source)) known := by
  have own (p : Pending) (left : p ∈ pending) (q : Pending) (right : q ∈ pending)
      (same : p.r.id = q.r.id) : p = q := by
    rw [List.map_map] at ids
    apply List.inj_on_of_nodup_map ids left right
    exact Option.some.inj ((named p left).symm.trans (same.trans (named q right)))
  refine ⟨fun p left q right id _ first second => own p left q right (first.trans second.symm),
    fun change member => ?_, fun p member id _ is => ?_⟩
  · obtain ⟨p, among, rfl⟩ := List.mem_map.mp member
    exact ⟨p, among, named p among⟩
  · have sends := ofChange_own (f := fun p => some (insertChange source p))
      (fun q there change gives => Option.some.inj gives ▸ named q there) member is
      (fun q there names => own q there p member (names.trans is.symm)) ContactChange.changed
    have all : (pending.filterMap fun p => some (insertChange source p)) = pending.map (insertChange source) :=
      congrFun List.filterMap_eq_map pending
    rw [all] at sends
    rw [sends, Option.map_some, Option.getD_some, creates p member]
    exact ⟨newContact core now (insertChange source p), wrote p member, insertChange_names is source,
      0, fun _ => none, fun _ => ⟨rfl, rfl⟩, Bool.noConfusion,
      insertChange_changed (distinct p member) source, .inr (dataAt_recorded rfl rfl)⟩

theorem insert_abides (now : Time) {pending : List Pending} (named : Named pending)
    (creates : ∀ p ∈ pending, p.r.created = true)
    (distinct : ∀ p ∈ pending, (p.set.map Prod.fst).Nodup) (source : String) (phase : Phase Row)
    (known : List Row) :
    Abides (law core erased) emitted (fun result _ later => ∀ changes, result = .ok changes →
      Settled erased pending changes later ∧
      known ⊆ later ∧ ∀ p ∈ pending, ∀ contact, .contact contact ∈ known → ¬ erased contact.id →
      p.r.id ≠ some contact.id)
      phase known (insert core now pending source) := by
  unfold insert
  split
  · next none_ =>
    intro changes is
    cases is
    obtain rfl := List.isEmpty_iff.mp none_
    exact ⟨.nil erased known, List.Subset.refl _, fun _ member => by cases member⟩
  · dsimp only
    split
    · exact fun _ is => by cases is
    · refine Abides.bind (Abides.sql (fun _ _ row member => ?_) (fun inserted replies => ?_)
        fun _ _ is => by cases is)
      · obtain ⟨change, -, rfl⟩ := List.mem_map.mp member
        exact intact_recorded _ rfl
      · obtain ⟨sub, -, apart, fresh⟩ := replies
        dsimp only [Then]
        split
        · exact fun _ is => by cases is
        · next length =>
          intro changes is
          cases is
          -- as many rows as there are items: none was left out
          obtain rfl := sub.eq_of_length (by simpa using length)
          have named' (p : Pending) (member : p ∈ pending) :
              p.r.id = some (insertChange source p).contactId := by
            obtain ⟨⟨id, is⟩, -⟩ := named p member
            rw [is, insertChange_names is]
          have row (p : Pending) (member : p ∈ pending) :
              Row.contact (newContact core now (insertChange source p)) ∈
                (pending.map (insertChange source)).map fun change => .contact (newContact core now change) :=
            List.mem_map_of_mem (List.mem_map_of_mem member)
          have ids : ((pending.map (insertChange source)).map fun change => change.contactId).Nodup := by
            apply List.pairwise_map.mpr
            apply (List.pairwise_map.mp apart).imp
            exact fun differ is => differ (congrArg IndexKey.contact is)
          refine ⟨insert_settles now creates distinct named' ids fun p member =>
            List.mem_append_left _ (row p member), List.subset_append_right _ known,
            fun p member contact read stays is => ?_⟩
          apply fresh _ (row p member) _ read stays
          exact congrArg IndexKey.contact (insertChange_names is source).symm

theorem ofChange_none {α : Type} {changes : List ContactChange} {id : Uuid}
    (absent : ∀ change ∈ changes, change.contactId ≠ id)
    (take : ContactChange → α) : ofChange changes id take = none := by
  rw [ofChange, List.find?_eq_none.mpr, Option.map_none]
  intro change member same
  exact absent change member (by simpa using same)

theorem ofChange_append {α : Type} (first second : List ContactChange) (id : Uuid)
    (take : ContactChange → α) :
    ofChange (first ++ second) id take = (ofChange first id take).or (ofChange second id take) := by
  rw [ofChange, List.find?_append, Option.map_or]
  rfl

theorem Settled.mono {pending : List Pending} {changes : List ContactChange} {known later : List Row}
    (settled : Settled erased pending changes known) (more : known ⊆ later) :
    Settled erased pending changes later := by
  refine ⟨settled.own, settled.only, fun p member id stays is => ?_⟩
  obtain ⟨contact, present, names, made⟩ := settled.wrote p member id stays is
  exact ⟨contact, more present, names, made.mono fun _ read => more read⟩

theorem Settled.append {valid : List Pending} {updated inserted : List ContactChange} {known : List Row}
    (old : Settled erased (valid.filter fun p => !p.r.created) updated known)
    (new : Settled erased (valid.filter fun p => p.r.created) inserted known)
    (apart : ∀ p ∈ valid.filter (fun p => !p.r.created),
      ∀ q ∈ valid.filter (fun p => p.r.created), ∀ id, ¬ erased id →
      p.r.id = some id → q.r.id ≠ some id) : Settled erased valid (updated ++ inserted) known := by
  have sides (p : Pending) (member : p ∈ valid) : p ∈ valid.filter (fun p => !p.r.created) ∨
      p ∈ valid.filter (fun p => p.r.created) := by
    cases created : p.r.created with
    | false => exact .inl (List.mem_filter.mpr ⟨member, by simp [created]⟩)
    | true => exact .inr (List.mem_filter.mpr ⟨member, created⟩)
  refine ⟨fun p left q right id stays first second => ?_, fun change member => ?_,
    fun p member id stays is => ?_⟩
  · rcases sides p left with here | here <;> rcases sides q right with there | there
    · exact old.own p here q there id stays first second
    · exact absurd second (apart p here q there id stays first)
    · exact absurd first (apart q there p here id stays second)
    · exact new.own p here q there id stays first second
  · rcases List.mem_append.mp member with here | there
    · obtain ⟨p, among, names⟩ := old.only change here
      exact ⟨p, (List.mem_filter.mp among).1, names⟩
    · obtain ⟨p, among, names⟩ := new.only change there
      exact ⟨p, (List.mem_filter.mp among).1, names⟩
  · rw [ofChange_append]
    rcases sides p member with here | here
    · have others : ∀ change ∈ inserted, change.contactId ≠ id := by
        intro change among same
        obtain ⟨q, there, names⟩ := new.only change among
        exact apart p here q there id stays is (same ▸ names)
      rw [ofChange_none others, Option.or_none]
      exact old.wrote p here id stays is
    · have others : ∀ change ∈ updated, change.contactId ≠ id := by
        intro change among same
        obtain ⟨q, there, names⟩ := old.only change among
        exact apart q there p here id stays (same ▸ names) is
      rw [ofChange_none others, Option.none_or]
      exact new.wrote p here id stays is

theorem writeBody_abides (definitions : Definitions) {valid : List Pending} (named : Named valid)
    (distinct : ∀ p ∈ valid, (p.set.map Prod.fst).Nodup) (source : String) (explicit : Option ConsentInput)
    (known : List Row) :
    Abides (law core erased) emitted (fun result _ later => ∀ changes, result = .ok changes →
      Settled erased valid changes later)
      (.reading []) known (writeBody core definitions valid source explicit) := by
  have among {p : Pending} {f : Pending → Bool} (member : p ∈ valid.filter f) : p ∈ valid :=
    (List.mem_filter.mp member).1
  refine Abides.bind (Abides.ask (fun _ told => by cases told) fun now => ?_)
  refine (update_abides now (fun p member => named p (among member))
    (fun p member => by simpa using (List.mem_filter.mp member).2)
    source known).andThen (fun updated phase known settled => ?_) fun _ _ _ _ _ is => by cases is
  refine (insert_abides now (fun p member => named p (among member))
    (fun p member => (List.mem_filter.mp member).2)
    (fun p member => distinct p (among member)) source phase known).andThen
      (fun inserted phase later done => ?_) fun _ _ _ _ _ is => by cases is
  obtain ⟨new, kept, fresh⟩ := done inserted rfl
  have old := settled updated rfl
  have whole : Settled erased valid (updated ++ inserted) later := by
    apply (old.mono kept).append new
    intro p here q there id stays is same
    obtain ⟨contact, present, rfl, -⟩ := old.wrote p here id stays is
    exact fresh q there contact present stays same
  -- what follows forgets nothing
  refine (syncUniqueValues_within definitions _ phase later).andThen (fun _ phase known more => ?_)
    fun _ _ _ _ _ is => by cases is
  refine (record_within explicit now _ phase known).andThen (fun _ phase known' more' => ?_)
    fun _ _ _ _ _ is => by cases is
  refine (upserted_within _ phase known').andThen (fun _ phase last more'' => ?_)
    fun _ _ _ _ _ is => by cases is
  intro changes is
  cases is
  exact whole.mono (List.Subset.trans more (List.Subset.trans more' more''))

/-! ## write -/

/-- What is told of a contact: what was sent, whether it is new, and the keys that changed. -/
abbrev Report := List (String × Option Value) → Bool → List String → Contact → Prop

/-- What a result that reports success tells: its contact is new or was found, as the mode allows, and
what the item sent, as some definitions read it, has become of it. -/
structure Done (erased : Uuid → Prop) (become : Report) (keyId : String) (mode : WriteMode) (item : Item)
    (r : ItemResult) : Prop where
  named : ∃ id, r.id = some id
  creates : r.created = true → mode ≠ .update ∧ keyId ≠ "id"
  finds : r.created = false → mode ≠ .create
  wrote : ∀ id, r.id = some id → ¬ erased id → ∃ definitions set contact,
    sentOf definitions keyId item.entries = some set ∧
    contact.id = id ∧ become set r.created r.changed contact

/-- The results of `write`: each item is refused, or done to a contact of its own. -/
structure Settles (erased : Uuid → Prop) (become : Report) (keyId : String) (mode : WriteMode)
    (items : List Item) (results : List ItemResult) : Prop where
  reports : Reports keyId items (Done erased become keyId mode) results
  apart : ∀ r ∈ results, ∀ s ∈ results, ∀ id, ¬ erased id → r.id = some id →
    s.id = some id → r.index = s.index

theorem Done.mono {first then_ : Report} {mode : WriteMode} {item : Item} {r : ItemResult}
    (done : Done erased first keyId mode item r)
    (imp : ∀ set contact, ¬ erased contact.id → first set r.created r.changed contact →
      ∃ later : Contact, later.id = contact.id ∧ then_ set r.created r.changed later) : Done erased then_
      keyId mode item r := by
  refine ⟨done.named, done.creates, done.finds, fun id is stays => ?_⟩
  obtain ⟨definitions, set, contact, sent, rfl, became⟩ := done.wrote id is stays
  obtain ⟨later, same, becomes⟩ := imp set contact stays became
  exact ⟨definitions, set, later, sent, same, becomes⟩

/-- What a call knows of a contact at its end. -/
def Recalled (known : List Row) : Report := fun set created changed contact =>
  .contact contact ∈ known ∧ Made (fun last => .contact last ∈ known) set created changed contact

theorem withChanged_staged {definitions : Definitions} {mode : WriteMode} {indexes : List Nat}
    {pending : List Pending} (staged : Staged keyId items (Assigned definitions keyId mode) indexes pending)
    {changes : List ContactChange} {known : List Row}
    (settled : Settled erased (pending.filter Pending.valid) changes known) :
    Staged keyId items (fun item p => Done erased (Recalled known) keyId mode item p.r) indexes
      (withChanged changes pending) := by
  refine ⟨fun q member => ?_, ?_⟩
  · obtain ⟨p, among, rfl⟩ := List.mem_map.mp member
    obtain ⟨item, there, key, refused | ⟨fine, assigned⟩⟩ := (staged.1 p among).stands
    · refine ⟨item, there, key, .inl ?_⟩
      obtain ⟨unnamed, uncreated, unchanged, error⟩ := refused
      exact ⟨unnamed, uncreated, by simpa [unnamed] using unchanged, error⟩
    · refine ⟨item, there, key, .inr ⟨fine, assigned.id, assigned.creates, assigned.finds,
        fun id is stays => ?_⟩⟩
      have valid : p ∈ pending.filter Pending.valid :=
        List.mem_filter.mpr ⟨among, by simp [Pending.valid, fine]⟩
      obtain ⟨contact, present, names, written⟩ := settled.wrote p valid id stays is
      refine ⟨definitions, p.set, contact, assigned.sent, names, present, ?_⟩
      have is : p.r.id = some id := is
      simpa [is, assigned.changed] using written
  · rw [← staged.2, withChanged, List.map_map]
    rfl

-- What a transaction has settled, or an empty batch, makes the results that `write` answers.
theorem Settled.answered {definitions : Definitions} {mode : WriteMode} {all : List ItemResult}
    {first pending : List Pending} {changes : List ContactChange} {known : List Row}
    (settled : Settled erased (pending.filter Pending.valid) changes known) (opens : Opens keyId items all first)
    (staged : Staged keyId items (Assigned definitions keyId mode) (first.map fun p => p.r.index) pending) :
    Settles erased (Recalled known) keyId mode items (results all (withChanged changes pending)) := by
  have told := withChanged_staged staged settled
  have named {r : ItemResult} (member : r ∈ results all (withChanged changes pending)) {id : Uuid}
      (is : r.id = some id) :
      ∃ p ∈ pending.filter Pending.valid, p.r.id = some id ∧ p.r.index = r.index := by
    rcases results_from opens told.2 member with ⟨q, among, rfl⟩ | ⟨item, -, -, refused⟩
    · obtain ⟨p, early, rfl⟩ := List.mem_map.mp among
      refine ⟨p, List.mem_filter.mpr ⟨early, ?_⟩, is, rfl⟩
      obtain ⟨item, -, -, refused | ⟨fine, -⟩⟩ := (staged.1 p early).stands
      · cases refused.unnamed.symm.trans is
      · simp [Pending.valid, fine]
    · cases refused.unnamed.symm.trans is
  refine ⟨results_report opens told, fun r left s right id stays here there => ?_⟩
  obtain ⟨p, among, names, index⟩ := named left here
  obtain ⟨q, also, names', index'⟩ := named right there
  rw [← index, ← index', settled.own p among q also id stays names names']

/-- A script between transactions that ends with a value of this kind. -/
def Ends {α : Type} (core : Core) (erased : Uuid → Prop) (answer : α → List Row → Prop)
    (script : CoreScript α) : Prop :=
  ∀ known, Abides (law core erased) emitted (fun result phase later => phase = .outside ∧
    ∀ value, result = .ok value → answer value later)
    .outside known script

theorem Ends.bind {α β : Type} {middle : α → Prop} {answer : β → List Row → Prop} {first : CoreScript α}
    {next : α → CoreScript β} (conducts : Conducts core erased first) (gives : first.Gives middle)
    (rest : ∀ value, middle value → Ends core erased answer (next value)) :
    Ends core erased answer (first >>= next) := by
  intro known
  refine ((conducts known).gives gives).andThen (fun value phase later done => ?_)
    fun error phase later done => ⟨done.1, fun _ is => by cases is⟩
  obtain ⟨rfl, is⟩ := done
  exact rest value (is value rfl) later

theorem attempt_ends (process : Nat) (mode : WriteMode) (source : String) (explicit : Option ConsentInput) :
    Ends core erased (fun answered later => Settles erased (Recalled later) keyId mode items answered)
      (attempt core process keyId mode items source explicit) := by
  refine Ends.bind (fields_conducts process) (Script.gives_any _) fun definitions _ => ?_
  have opens := keyed_opens core keyId items
  have read : Staged keyId items (Read definitions keyId) ((keyed core keyId items).2.map fun p => p.r.index)
      ((keyed core keyId items).2.map (readItem definitions keyId items)) :=
    Staged.map ⟨opens.stage, rfl⟩ fun _ _ stage => readItem_stage definitions stage
  refine Ends.bind (resolve_conducts process keyId _) (Script.gives_any _) fun found _ => ?_
  refine Ends.bind (assignIds_conducts mode keyId found _) (assignIds_staged definitions mode found read)
    fun assigned staged => ?_
  refine Ends.bind (checkUnique_conducts process keyId definitions assigned)
    (checkUnique_staged core definitions definitions mode process staged)
    fun pending staged => ?_
  dsimp only
  split
  · next empty =>
    intro known
    refine ⟨rfl, fun all is => ?_⟩
    cases is
    have none_ := List.isEmpty_iff.mp empty
    have same : withChanged [] pending = pending := by
      apply List.map_id''
      intro p
      cases p.r.id <;> rfl
    rw [← same]
    refine Settled.answered ?_ opens staged
    rw [none_]
    exact .nil erased known
  · have ready (p : Pending) (member : p ∈ pending.filter Pending.valid) : ∃ item,
        Assigned definitions keyId mode item p := by
      obtain ⟨among, valid⟩ := List.mem_filter.mp member
      obtain ⟨item, -, -, -, assigned⟩ := (staged.1 p among).ready valid
      exact ⟨item, assigned⟩
    have named : Named (pending.filter Pending.valid) := by
      intro p member
      obtain ⟨item, assigned⟩ := ready p member
      exact ⟨assigned.id, assigned.changed⟩
    have distinct (p : Pending) (member : p ∈ pending.filter Pending.valid) : (p.set.map Prod.fst).Nodup := by
      obtain ⟨item, assigned⟩ := ready p member
      exact (sentOf_keys assigned.sent).nodup item.distinct
    intro known
    refine Abides.bind (Abides.transaction
      ((writeBody_abides definitions named distinct source explicit known).mono
      fun result _ later settled => ?_) fun error => ⟨rfl, fun _ is => by cases is⟩)
    cases result with
    | error error => trivial
    | ok changes =>
      refine ⟨rfl, fun all is => ?_⟩
      cases is
      exact (settled changes rfl).answered opens staged

theorem attempts_ends {α : Type} {answer : α → List Row → Prop} {run : CoreScript α}
    (once : Ends core erased answer run) (more : Nat) :
    Ends core erased answer (attempts run more) := by
  induction more with
  | zero => exact once
  | succ more ih =>
    refine fun known => Abides.handle ((once known).mono fun result phase later done => ?_)
    obtain ⟨rfl, done⟩ := done
    cases result with
    | ok value => exact ⟨rfl, done⟩
    | error error =>
      dsimp only [Else]
      split
      · exact ih later
      · exact ⟨rfl, fun _ is => by cases is⟩

theorem write_ends (process : Nat) (mode : WriteMode) (source : String) (explicit : Option ConsentInput) :
    Ends core erased (fun answered later => Settles erased (Recalled later) keyId mode items answered)
      (write core process keyId mode items source explicit) :=
  Ends.bind (assertKey_conducts process keyId) (Script.gives_any _)
    fun _ _ => attempts_ends (attempt_ends process mode source explicit) _

/-! ## delete -/

/-- A result of `delete` that reports success: its contact is `here`, deleted. -/
structure Deleted (here : Contact → Prop) (r : ItemResult) : Prop where
  gone : ∃ contact, here contact ∧ r.id = some contact.id ∧ contact.deletedAt.isSome = true
  uncreated : r.created = false
  unchanged : r.changed = []

/-- An item of `delete` with the contact its key names. -/
structure Aimed (item : Item) (p : Pending) : Prop where
  id : ∃ id, p.r.id = some id
  created : p.r.created = false
  changed : p.r.changed = []

theorem aim_stage (found : List (String × Uuid)) {p : Pending}
    (stage : Stage keyId items (fun _ p => Fresh p) p) (valid : p.valid = true) :
    Stage keyId items Aimed (p.aim found) ∧ (p.aim found).r.index = p.r.index := by
  unfold Pending.aim
  split
  · next id _ =>
    obtain ⟨item, there, key, fine, fresh⟩ := stage.ready valid
    exact ⟨⟨item, there, key, .inr ⟨fine, ⟨id, rfl⟩, fresh.created, fresh.changed⟩⟩, rfl⟩
  · exact ⟨stage.refuse (by decide) _ fun _ _ k is => (by cases is), rfl⟩

theorem confirm_stage {gone : List Uuid} {known : List Row} (deleted : Gone gone known) {p : Pending}
    (stage : Stage keyId items Aimed p) :
    Stage keyId items (fun _ p => Deleted (fun contact => .contact contact ∈ known) p.r) (p.confirm gone) ∧
      (p.confirm gone).r.index = p.r.index := by
  unfold Pending.confirm
  split
  · exact ⟨stage.refuse (by decide) _ fun _ _ k is => (by cases is), rfl⟩
  · next confirmed =>
    refine ⟨⟨?_⟩, rfl⟩
    obtain ⟨item, there, key, stands⟩ := stage.stands
    refine ⟨item, there, key, stands.imp_right fun ⟨fine, aimed⟩ => ⟨fine, ?_⟩⟩
    obtain ⟨id, is⟩ := aimed.id
    have among : id ∈ gone := by simpa [is] using confirmed
    obtain ⟨contact, present, rfl, marked⟩ := deleted id among
    exact ⟨⟨contact, present, is, marked⟩, aimed.created, aimed.changed⟩

theorem delete_ends (process : Nat) :
    Ends core erased
    (fun answered later => Reports keyId items (fun _ r =>
    Deleted (fun contact => .contact contact ∈ later) r) answered)
      (delete core process keyId items) := by
  refine Ends.bind (assertKey_conducts process keyId) (Script.gives_any _) fun _ _ => ?_
  have opens := keyed_opens core keyId items
  refine Ends.bind (resolve_conducts process keyId _) (Script.gives_any _) fun found _ known => ?_
  have aimed : Staged keyId items Aimed ((keyed core keyId items).2.map fun p => p.r.index)
      ((keyed core keyId items).2.map (Pending.aim found)) :=
        Staged.map ⟨opens.stage, rfl⟩ fun p among stage => aim_stage found stage (opens.valid p among)
  refine (softDelete_abides _ known).andThen (fun gone phase later done => ?_)
    fun error phase later done => ⟨done.1, fun _ is => by cases is⟩
  obtain ⟨rfl, deleted⟩ := done
  refine ⟨rfl, fun all is => ?_⟩
  cases is
  exact results_report opens (aimed.map fun _ _ stage => confirm_stage (deleted gone rfl) stage)

end Walk

/-- A call of the batch engine, whose results are awaited, or any other call of core. -/
inductive BatchCall where
  | write (process : Nat) (keyId : String) (mode : WriteMode) (items : List Item) (source : String)
  | delete (process : Nat) (keyId : String) (items : List Item)
  | other (call : CoreCall)

def BatchCall.script (core : Core) : BatchCall → CoreScript (List ItemResult)
  | .write process keyId mode items source => Contacts.write core process keyId mode items source none
  | .delete process keyId items => Contacts.delete core process keyId items
  | .other call => do
      call.script core
      pure []

abbrev BatchConfig := Config BatchCall (Action Row Label Request) (Answer Response) Failure
    (List ItemResult) State

def BatchCall.Erases (erased : Uuid → Prop) (call : BatchCall) : Prop :=
  ∀ other, call = .other other → other.Erases erased

abbrev Batching (core : Core) (erased : Uuid → Prop) : BatchConfig → BatchConfig → Prop :=
  (machine respond).Reaches (BatchCall.script core) { spawn := fun _ call _ => call.Erases erased }

/-- What is known at the end of a call. -/
def BatchCall.Tells (erased : Uuid → Prop) : BatchCall → Except Failure (List ItemResult) →
    Phase Row → List Row → Prop
  | .write _ keyId mode items _, result, phase, later => phase = .outside ∧
      ∀ answered, result = .ok answered →
      Settles erased (Recalled later) keyId mode items answered
  | .delete _ keyId items, result, phase, later => phase = .outside ∧ ∀ answered, result = .ok answered →
      Reports keyId items (fun _ r => Deleted (fun contact => .contact contact ∈ later) r) answered
  | .other _, _, phase, _ => phase = .outside

section Runs
variable {core : Core} {erased : Uuid → Prop} {rows : List Row} {world : World} {config : BatchConfig}

theorem BatchCall.tells (call : BatchCall) (erases : call.Erases erased) :
    Abides (law core erased) emitted (call.Tells erased) .outside [] (call.script core) := by
  cases call with
  | write process keyId mode items source => exact write_ends process mode source none []
  | delete process keyId items => exact delete_ends process []
  | other call => exact (Outside.bind (CoreCall.conducts call (erases call rfl)) fun _ => conducts_pure []) []

theorem Opened.told (opened : Opened core rows world)
    (run : Batching core erased (.start ⟨.holding rows, world⟩) config) :
    Abiding (law core erased) emitted Streamed (BatchCall.Tells erased) config :=
  (abiding_reaches respond_faithful BatchCall.tells run opened.abiding).1

theorem known_contact {server : Server Row Label} {pid : Tid} {known : List Row}
    (here : Matches (law core erased) server pid .outside known)
    {contact : Contact} (read : .contact contact ∈ known) (stays : ¬ erased contact.id) :
    ∃ later, .contact later ∈ server.rows ∧ contact.Before later := by
  obtain ⟨now, present, -, before⟩ := (here.learnt.2 _ read).there stays
  cases before with
  | same => exact ⟨contact, present, .refl contact⟩
  | contact is => exact ⟨_, present, is⟩

/-- What an item that sends these values has made of a contact that is there now. A new contact got what
was sent with version 1. Else the item found it with the data of a version, but for keys of deleted
fields, and what it has changed was written with the next version. -/
structure Written (rows : List Row) (set : List (String × Option Value)) (created : Bool)
    (changed : List String) (contact : Contact) : Prop where
  there : .contact contact ∈ rows
  made : ∃ version old, (created = true → version = 0 ∧ old = fun _ => none) ∧
    (created = false → ∃ written, contact.dataAt version = some written ∧ Remains rows written old) ∧
    changed = (set.map Prod.fst).filter (fun k => old k ≠ merge old set k) ∧
    (created = false ∧ changed = [] ∨ contact.dataAt (version + 1) = some (merge old set).stored)

-- What a call knows of a contact is so of the one that is there now.
theorem known_written {server : Server Row Label} {pid : Tid} {known : List Row}
    (here : Matches (law core erased) server pid .outside known)
    {set : List (String × Option Value)} {created : Bool} {changed : List String} {contact : Contact}
    (recalled : Recalled known set created changed contact) (stays : ¬ erased contact.id) :
    ∃ later : Contact, later.id = contact.id ∧ Written server.rows set created changed later := by
  obtain ⟨read, version, old, new, found, same, data⟩ := recalled
  obtain ⟨later, present, before⟩ := known_contact here read stays
  refine ⟨later, before.id, present, version, old, new, fun exists_ => ?_, same, data.imp_right
    fun at_ => before.dataAt at_⟩
  obtain ⟨last, lastRead, rfl, rfl, became⟩ := found exists_
  obtain ⟨written, at_, remains⟩ : Intact server.rows last := (here.learnt.2 _ lastRead).lawful
  exact ⟨written, before.dataAt (became.dataAt at_), remains⟩

/-- When `delete` has returned: one result for each item, in order and with its key, that refuses the
item or names a contact that is deleted, now and later, unless it is erased. -/
theorem delete_answered (opened : Opened core rows world)
    (run : Batching core erased (.start ⟨.holding rows, world⟩) config)
    {pid process : Nat} {keyId : String} {items : List Item} {answered : List ItemResult}
    (ended : config.procs pid = .running (.delete process keyId items) (.ret answered)) :
    Reports keyId items (fun _ r => Deleted (fun contact => ¬ erased contact.id →
      ∃ later, .contact later ∈ config.state.server.rows ∧ contact.Before later) r) answered := by
  obtain ⟨phase, known, ⟨rfl, told⟩, here⟩ := (opened.told run).ended ended
  refine (told answered rfl).mono fun r _ item done => ?_
  obtain ⟨⟨contact, read, names, deleted⟩, uncreated, unchanged⟩ := done
  exact ⟨⟨contact, fun stays => known_contact here read stays, names, deleted⟩, uncreated, unchanged⟩

end Runs

def BatchCall.erasesNone : BatchCall → Bool
  | .other call => call.erasesOnly []
  | _ => true

theorem erases_none (call : BatchCall) (none_ : call.erasesNone = true) : call.Erases (· ∈ []) := by
  rintro other rfl
  exact erases_only other none_

def batchStart : BatchConfig := .start ⟨.holding emailRows, ⟨[], [], fun _ => none, []⟩⟩

def annSent : List (Move BatchCall Choices) :=
  .spawn 0 (.write 0 "3" .upsert [annItem, annItem] "api") :: List.replicate 14 (.act 0 .none) ++
    .act 0 (.uuid 10 5 6) :: .act 0 .none :: .act 0 (.time 9) :: List.replicate 4 (.act 0 .none) ++
    .act 0 (.uuid 10 5 7) :: .act 0 (.time 9) :: List.replicate 3 (.act 0 .none)

def annRemoved : List (Move BatchCall Choices) :=
  .spawn 1 (.delete 0 "3" [annItem]) :: List.replicate 9 (.act 1 .none) ++
    .act 1 (.time 11) :: List.replicate 4 (.act 1 .none) ++
    .act 1 (.uuid 12 0 0) :: .act 1 (.time 12) :: List.replicate 3 (.act 1 .none)

abbrev BatchStatus := Status BatchCall (Action Row Label Request) (Answer Response) Failure (List ItemResult)

/-- Whether a call that has returned was a `write`, and its results. -/
def BatchStatus.returned : BatchStatus → Option (Bool × List ItemResult)
  | .running (.write ..) (.ret answered) => some (true, answered)
  | .running (.delete ..) (.ret answered) => some (false, answered)
  | _ => none

theorem returned_write {status : BatchStatus} {answered : List ItemResult}
    (is : status.returned = some (true, answered)) :
    ∃ process keyId mode items source, status = .running (.write process keyId mode items source)
    (.ret answered) := by
  unfold BatchStatus.returned at is
  split at is
  · cases is
    exact ⟨_, _, _, _, _, rfl⟩
  · cases is
  · cases is

theorem returned_delete {status : BatchStatus} {answered : List ItemResult}
    (is : status.returned = some (false, answered)) :
    ∃ process keyId items, status = .running (.delete process keyId items) (.ret answered) := by
  unfold BatchStatus.returned at is
  split at is
  · cases is
  · cases is
    exact ⟨_, _, _, rfl⟩
  · cases is

def annResult : ItemResult := ⟨0, some "ann@example.com", some annId, true, ["3"], none⟩

theorem annSent_returns : ((machine respond).moves (BatchCall.script plainCore) annSent batchStart).bind
    (fun config =>
    BatchStatus.returned (config.procs 0)) = some (true,
    [annResult, ⟨1, some "ann@example.com", none, false, [],
      some ⟨2014, "key ann@example.com is repeated in the request", none⟩⟩]) := by decide +kernel

theorem annRemoved_returns :
    ((machine respond).moves (BatchCall.script plainCore) (annSent ++ annRemoved) batchStart).bind
    (fun config =>
    BatchStatus.returned (config.procs 1)) = some (false,
    [{ annResult with created := false, changed := [] }]) := by decide +kernel

theorem delete_answered_ann : ∃ (config : BatchConfig) (keyId : String) (items : List Item),
    Reports keyId items (fun _ r => Deleted (fun contact => ¬ contact.id ∈ ([] : List Uuid) →
      ∃ later, .contact later ∈ config.state.server.rows ∧ contact.Before later) r)
      [{ annResult with created := false, changed := [] }] := by
  obtain ⟨config, ran, is⟩ := Option.bind_eq_some_iff.mp annRemoved_returns
  obtain ⟨process, keyId, items, ended⟩ := returned_delete is
  have run := reaches_starting erases_none .refl _ (by decide) ran
  exact ⟨config, keyId, items, delete_answered emailRows_opened run ended⟩

end OpenEmarsys.Contacts
