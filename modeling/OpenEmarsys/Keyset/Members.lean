import OpenEmarsys.Keyset.Search
import Mathlib.Data.List.Nodup

/-! `ListsService.members`: the live contacts of a list, newest addition first. -/

set_option autoImplicit false

namespace OpenEmarsys.Keyset

open Javascript Contacts

structure CursorQuery where
  cursor : Option String
  limit : Nat
  deriving DecidableEq

def positiveInteger (n : Number) : Option Nat :=
  match n.unpack with
  | .finite .positive mantissa exponent _ =>
      let numerator := mantissa * 2 ^ exponent.toNat
      let denominator := 2 ^ (-exponent).toNat
      if numerator % denominator = 0 then some (numerator / denominator) else none
  | _ => none

/-- Parses `?cursor&limit`, clamping `limit` to `[1, maxLimit]`. -/
def parseCursorQuery (cursor limit : Option String) (defaultLimit maxLimit : Nat) :
    Except Failure CursorQuery :=
  match limit.filter fun raw => !(trim raw).isEmpty with
  | none => .ok ⟨given cursor, defaultLimit⟩
  | some raw =>
      match (toNumber raw).bind positiveInteger with
      | some parsed => .ok ⟨given cursor, min parsed maxLimit⟩
      | none => .error (.badRequest "limit must be a positive integer")

/-- A row of `list_members` with its time. -/
structure Membership extends ListMember where
  addedAt : Time

structure MemberDto where
  contact_id : String
  added_at : String
  fields : Data

def pick (data : Data) (keys : List String) : Data := fun key => if key ∈ keys then data key else none

abbrev Member := Membership × Contact

def memberDto (member : Member) : MemberDto :=
  ⟨uuidText member.1.contactId, toISOString member.1.addedAt, pick member.2.data ["1", "2", "3", "4"]⟩

def joined (memberships : List Membership) (contacts : List Contact) (list : Uuid) : List Member :=
  memberships.flatMap fun membership =>
    if membership.listId = list then
      (contacts.filter fun contact => contact.id == membership.contactId && contact.deletedAt.isNone).map
        fun contact => (membership, contact)
    else []

def byAddition (member : Member) : Key := toLex (member.1.addedAt, member.1.contactId)

def memberCursor (member : Member) : String :=
  encode [toISOString member.1.addedAt, uuidText member.1.contactId]

/-- `decode(cursor, 2)`. -/
def decodePair (cursor : String) : Except Failure (String × String) :=
  match decode cursor with
  | some [first, second] => .ok (first, second)
  | _ => .error invalidCursor

/-- `ListsService.page`: one row more than the limit has been read. -/
def buildPage {Row Item : Type} (rows : List Row) (limit : Nat) (cursorOf : Row → String)
    (map : Row → Item) : Page String Item :=
  if limit < rows.length then ⟨(rows.take limit).map map, (rows.take limit).getLast?.map cursorOf⟩
    else ⟨rows.map map, none⟩

def members (lists : List ContactList) (memberships : List Membership) (contacts : List Contact) (id : String)
    (limit cursor : Option String) :
    Except Failure (Page String MemberDto) := do
  let query ← parseCursorQuery cursor limit 50 200
  let after ← query.cursor.mapM decodePair
  if !(isUuid id && lists.any fun list => list.id == uuidOf id) then throw (.notFound "list not found")
  let bound ← after.mapM castPair
  let found := (joined memberships contacts (uuidOf id)).filter fun member =>
    bound.all fun (time, contact) => rowLess member.1.addedAt member.1.contactId time contact
  pure (buildPage ((newest byAddition found).take (query.limit + 1)) query.limit memberCursor memberDto)

theorem buildPage_eq {Row Item : Type} (rows : List Row) (limit : Nat) (cursorOf : Row → String)
    (map : Row → Item) :
    buildPage rows limit cursorOf map = pageOf limit cursorOf map rows := by
  rw [buildPage, pageOf]
  split
  · rfl
  · next all =>
    rw [List.take_of_length_le (Nat.le_of_not_lt all)]

theorem decodePair_encode (first second : String) : decodePair (encode [first, second]) = .ok
    (first, second) := by
  rw [decodePair, decode_encode _ (List.cons_ne_nil _ _)]

theorem positiveInteger_pos {n : Number} {integer : Nat}
    (is : positiveInteger n = some integer) : 0 < integer := by
  unfold positiveInteger at is
  split at is
  · next mantissa exponent positive _ =>
    simp only [Option.ite_none_right_eq_some, Option.some.injEq] at is
    obtain ⟨whole, rfl⟩ := is
    have denominator : 0 < 2 ^ (-exponent).toNat := Nat.two_pow_pos _
    have numerator : 0 < mantissa * 2 ^ exponent.toNat := Nat.mul_pos positive (Nat.two_pow_pos _)
    exact Nat.div_pos (Nat.le_of_dvd numerator (Nat.dvd_of_mod_eq_zero whole)) denominator
  · cases is

theorem parseCursorQuery_bounds {cursor limit : Option String} {query : CursorQuery}
    (parsed : parseCursorQuery cursor limit 50 200 = .ok query) : 0 < query.limit ∧ query.limit ≤ 200 := by
  unfold parseCursorQuery at parsed
  split at parsed
  · cases parsed
    simp
  · next raw _ =>
    cases read : (toNumber raw).bind positiveInteger with
    | none =>
      rw [read] at parsed
      cases parsed
    | some n =>
      rw [read] at parsed
      cases parsed
      obtain ⟨number, -, is⟩ := Option.bind_eq_some_iff.mp read
      have positive := positiveInteger_pos is
      simp only
      omega

theorem parseCursorQuery_cursor {limit : Option String} {query : CursorQuery}
    (parsed : parseCursorQuery none limit 50 200 = .ok query)
    (cursor : Option String) : parseCursorQuery cursor limit 50 200 = .ok ⟨given cursor, query.limit⟩ := by
  unfold parseCursorQuery at parsed ⊢
  split at parsed
  · cases parsed
    rfl
  · next raw _ =>
    cases read : (toNumber raw).bind positiveInteger with
    | none =>
      rw [read] at parsed
      cases parsed
    | some n =>
      rw [read] at parsed
      cases parsed
      rfl

section
variable {now : Nat} {limit : Option String} {query : CursorQuery} {id : String} {lists : List ContactList}

/-- `contacts.list_members` of a tenant. -/
abbrev MembershipTable (now : Nat) :=
  Table Membership (Uuid × Uuid) (fun row => (row.listId, row.contactId)) (fun row => row.contactId)
    (fun row => row.addedAt * 1000) now

theorem mem_joined {memberships : List Membership} {contacts : List Contact} {list : Uuid} {member : Member} :
    member ∈ joined memberships contacts list ↔ member.1 ∈ memberships ∧
      member.1.listId = list ∧ member.2 ∈ contacts ∧
      member.2.id = member.1.contactId ∧ member.2.deletedAt = none := by
  obtain ⟨membership, contact⟩ := member
  simp only [joined, List.mem_flatMap]
  constructor
  · rintro ⟨row, here, found⟩
    split at found
    · next of =>
      simp only [List.mem_map, List.mem_filter, Bool.and_eq_true, beq_iff_eq, Option.isNone_iff_eq_none,
        Prod.mk.injEq] at found
      obtain ⟨other, ⟨among, same, live⟩, rfl, rfl⟩ := found
      exact ⟨here, of, among, same, live⟩
    · cases found
  · rintro ⟨here, of, among, same, live⟩
    refine ⟨membership, here, ?_⟩
    rw [if_pos of]
    simp only [List.mem_map, List.mem_filter, Bool.and_eq_true, beq_iff_eq,
      Option.isNone_iff_eq_none, Prod.mk.injEq]
    exact ⟨contact, ⟨among, same, live⟩, trivial, rfl⟩

theorem joined_distinct {memberships : List Membership} {contacts : List Contact} (list : Uuid)
    (once : (memberships.map fun row => (row.listId, row.contactId)).Nodup)
    (ids : (contacts.map Contact.id).Nodup) :
    ((joined memberships contacts list).map byAddition).Nodup := by
  refine List.Nodup.of_map (fun key : Key => (ofLex key).2) ?_
  rw [List.map_map]
  unfold joined
  rw [List.map_flatMap, List.nodup_flatMap]
  have listed {membership : Membership} {contact : Nat}
      (member : contact ∈ ((if membership.listId = list then
        (contacts.filter fun contact => contact.id == membership.contactId && contact.deletedAt.isNone).map
          fun contact => (membership, contact)
        else []).map ((fun key : Key => (ofLex key).2) ∘ byAddition))) : membership.listId = list ∧
            contact = membership.contactId := by
    split at member
    · next of =>
      rw [List.map_map] at member
      obtain ⟨_, _, same⟩ := List.mem_map.mp member
      exact ⟨of, same.symm⟩
    · cases member
  constructor
  · intro membership _
    split
    · have one : (contacts.filter fun contact => contact.id == membership.contactId &&
        contact.deletedAt.isNone).map
          (((fun key : Key => (ofLex key).2) ∘ byAddition) ∘ fun contact => (membership, contact)) =
          (contacts.filter fun contact => contact.id == membership.contactId &&
              contact.deletedAt.isNone).map Contact.id := by
        refine List.map_congr_left fun contact among => ?_
        have same : contact.id = membership.contactId := by
          simpa using And.left (by simpa using (List.mem_filter.mp among).2)
        exact same.symm
      rw [List.map_map, one]
      exact ids.sublist (List.filter_sublist.map Contact.id)
    · exact List.nodup_nil
  · refine (List.pairwise_map.mp once).imp ?_
    intro first second apart contact here there
    obtain ⟨ofFirst, isFirst⟩ := listed here
    obtain ⟨ofSecond, isSecond⟩ := listed there
    exact apart (Prod.ext (ofFirst.trans ofSecond.symm) (isFirst.symm.trans isSecond))

theorem members_fetch (memberships : MembershipTable now) (contacts : ContactTable now)
    (clock : Early ((now + day) / 1000000))
    (listed : (isUuid id && lists.any fun list => list.id == uuidOf id) = true)
    (parsed : parseCursorQuery none limit 50 200 = .ok query)
    (bound : Option Member) (among : ∀ member ∈ bound, member ∈
      joined memberships.rows contacts.rows (uuidOf id)) :
    members lists memberships.rows contacts.rows id limit (bound.map memberCursor) =
      .ok (pageOf query.limit memberCursor memberDto
        ((newest byAddition ((joined memberships.rows contacts.rows (uuidOf id)).filter fun member =>
        bound.all fun last => decide (byAddition member < byAddition last))).take (query.limit + 1))) := by
  have after : (given (bound.map memberCursor)).mapM decodePair = .ok (bound.map
      fun last => (toISOString last.1.addedAt, uuidText last.1.contactId)) := by
    cases bound with
    | none => rfl
    | some last =>
      have there : given (some (memberCursor last)) = some (memberCursor last) :=
        given_encode (List.cons_ne_nil _ _)
      rw [Option.map_some, there, Option.mapM_some, memberCursor, decodePair_encode]
      rfl
  have cast : (bound.map fun last => (toISOString last.1.addedAt, uuidText last.1.contactId)).mapM castPair =
      .ok (bound.map fun last => (last.1.addedAt, last.1.contactId)) := by
    cases bound with
    | none => rfl
    | some last =>
      have here : last.1 ∈ memberships.rows := (mem_joined.mp (among last rfl)).1
      have early : Early (last.1.addedAt / 1000) := by
        have micros := memberships.early clock here
        unfold Early at micros ⊢
        omega
      rw [Option.map_some, Option.mapM_some, castPair_texts early (memberships.small here)]
      rfl
  have found : ((joined memberships.rows contacts.rows (uuidOf id)).filter fun member =>
      (bound.map fun last => (last.1.addedAt, last.1.contactId)).all fun (time, contact) =>
        rowLess member.1.addedAt member.1.contactId time contact) =
      (joined memberships.rows contacts.rows (uuidOf id)).filter fun member =>
        bound.all fun last => decide (byAddition member < byAddition last) := by
    refine List.filter_congr fun member _ => ?_
    cases bound with
    | none => rfl
    | some last =>
      simp only [Option.map_some, Option.all_some, rowLess_eq]
      rfl
  simp only [members, parseCursorQuery_cursor parsed, after, cast, listed, found,
    buildPage_eq, bind, Except.bind]
  rfl

theorem members_complete (memberships : MembershipTable now) (contacts : ContactTable now)
    (clock : Early ((now + day) / 1000000))
    (listed : (isUuid id && lists.any fun list => list.id == uuidOf id) = true)
    (parsed : parseCursorQuery none limit 50 200 = .ok query) :
    Complete (members lists memberships.rows contacts.rows id limit) memberDto byAddition query.limit
      (joined memberships.rows contacts.rows (uuidOf id)) :=
  complete_of_fetch memberCursor (parseCursorQuery_bounds parsed).1
    (joined_distinct _ memberships.distinct contacts.distinct)
    (members_fetch memberships contacts clock listed parsed)

end

end OpenEmarsys.Keyset
