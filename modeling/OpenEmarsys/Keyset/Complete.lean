import OpenEmarsys.Keyset.History
import OpenEmarsys.Keyset.Jobs
import OpenEmarsys.Keyset.Members

/-! The four services that are read page by page. -/

set_option autoImplicit false

namespace OpenEmarsys.Keyset

open Javascript Contacts Jobs

section
variable {now limit : Nat} {how : Comparisons} {defs : Definitions} {p : SearchQuery}
  {conditions : List Condition} {lists : List ContactList}
  {listId contactId : String} {asked : Option String} {query : CursorQuery}
    {channel : Option ConsentChannel} {tenant : Uuid}

/-- Following the cursors from the first page visits every matching row once, in strictly descending
order of time and id. Every page but the last has as many rows as the limit, which for the members of a
list is the one that their query is parsed to. -/
theorem pages_complete (contacts : ContactTable now) (memberships : MembershipTable now)
    (consents : ConsentTable now) (jobs : JobTable now)
    (clock : Early ((now + day) / 1000000)) (positive : 0 < limit)
    (searchable : Searchable how defs p conditions)
    (listed : (isUuid listId && lists.any fun list => list.id == uuidOf listId) = true)
    (parsed : parseCursorQuery none asked 50 200 = .ok query) (is : isUuid contactId = true)
    (live : (contacts.rows.any fun found => found.id == uuidOf contactId && found.deletedAt.isNone) = true) :
    Complete (search how defs contacts.rows p limit) (toDto p.fields) byUpdate limit
    (matching how p.q conditions contacts.rows) ∧
      Complete (members lists memberships.rows contacts.rows listId asked) memberDto byAddition query.limit
        (joined memberships.rows contacts.rows (uuidOf listId)) ∧
      Complete (history contacts.rows consents.rows contactId channel limit) consentDto byChange limit
        (consentsOf consents.rows (uuidOf contactId) channel) ∧
      Complete (adminList jobs.rows (some tenant) now limit) id byCreation limit (jobsOf jobs.rows tenant) :=
  ⟨search_complete how contacts clock positive searchable,
    members_complete memberships contacts clock listed parsed,
    history_complete contacts.rows consents clock positive is live, list_complete jobs clock positive⟩

end

/-- Contacts `0` to `count`, all named Anna, and changed and added at the same time. -/
def someContact (n : Nat) : Contact :=
  ⟨n, fun key => if key = "1" then some (.string "Anna") else none, none, none, 1, 0, 0, none, []⟩

def someContacts (count : Nat) (few : count ≤ uuids) : ContactTable 0 where
  rows := (List.range count).map someContact
  distinct := by
    rw [List.map_map]
    exact (List.nodup_range).map fun first second same => same
  ids := by
    intro row member
    obtain ⟨n, small, rfl⟩ := List.mem_map.mp member
    exact Nat.lt_of_lt_of_le (List.mem_range.mp small) few
  dated := by
    intro row member
    obtain ⟨n, small, rfl⟩ := List.mem_map.mp member
    simp [someContact]

theorem fits : 201 ≤ uuids := by decide

theorem three_fit : 3 ≤ uuids := by decide

def someMemberships (count : Nat) (few : count ≤ uuids) : MembershipTable 0 where
  rows := (List.range count).map fun n => ⟨⟨0, n⟩, 0⟩
  distinct := by
    rw [List.map_map]
    exact (List.nodup_range).map fun first second same => congrArg Prod.snd same
  ids := by
    intro row member
    obtain ⟨n, small, rfl⟩ := List.mem_map.mp member
    exact Nat.lt_of_lt_of_le (List.mem_range.mp small) few
  dated := by
    intro row member
    obtain ⟨n, small, rfl⟩ := List.mem_map.mp member
    simp

def someList : ContactList := ⟨0, "all"⟩

def zeroId : String := "00000000-0000-0000-0000-000000000000"

def oneId : String := "00000000-0000-0000-0000-000000000001"

theorem zero_listed : (isUuid zeroId && [someList].any fun list => list.id == uuidOf zeroId) = true := by
  decide +kernel

def someConsents : ConsentTable 0 where
  rows := [5, 6, 7].map fun n => ⟨n, 1, .email, some (.number (Number.ofNat 1)), "api",
    none, some "client:3", 0⟩
  distinct := by decide
  ids := by decide
  dated := by decide

def someJobs : JobTable 0 where
  rows := [8, 9, 10].map fun n =>
    { id := n, tenantID := 2, kind := "imports", params := "\x7b\x7d", createdBy := "cli", createdAt := 0 }
  distinct := by decide
  ids := by decide
  dated := by decide
  below := by decide

def plainComparisons : Comparisons := ⟨plainDatabase, .ascii, .ascii⟩

def someSearch : SearchQuery := ⟨some "an", ["8:empty:"], [1, 3]⟩

theorem someSearch_finds : ∃ conditions, Searchable plainComparisons someFields someSearch conditions ∧
    (matching plainComparisons (some "an") conditions (someContacts 3 three_fit).rows).length = 3 := by
  refine ⟨_, ⟨rfl, ?_, ?_, by decide, by decide⟩, by decide +kernel⟩
  · intro condition member
    rw [List.mem_singleton.mp member]
  · intro q is
    cases is
    decide

/-- Three rows of each with one time, two on a page. -/
theorem pages_complete_three : ∃ conditions,
    (matching plainComparisons (some "an") conditions (someContacts 3 three_fit).rows).length = 3 ∧
    Complete (search plainComparisons someFields (someContacts 3 three_fit).rows someSearch 2)
    (toDto [1, 3]) byUpdate 2
      (matching plainComparisons (some "an") conditions (someContacts 3 three_fit).rows) ∧
    Complete (members [someList] (someMemberships 3 three_fit).rows (someContacts 3 three_fit).rows zeroId
      (some "2")) memberDto byAddition 2
      (joined (someMemberships 3 three_fit).rows (someContacts 3 three_fit).rows (uuidOf zeroId)) ∧
    Complete (history (someContacts 3 three_fit).rows someConsents.rows oneId (some .email)
      2) consentDto byChange 2
      (consentsOf someConsents.rows (uuidOf oneId) (some .email)) ∧
    Complete (adminList someJobs.rows (some 2) 0 2) id byCreation 2 (jobsOf someJobs.rows 2) := by
  obtain ⟨conditions, searchable, three⟩ := someSearch_finds
  have clock : Early ((0 + day) / 1000000) := by unfold Early; decide
  have asked : parseCursorQuery none (some "2") 50 200 = .ok ⟨none, 2⟩ := by decide +kernel
  exact ⟨conditions, three, pages_complete (someContacts 3 three_fit) (someMemberships 3 three_fit)
    someConsents someJobs clock (by decide)
    searchable zero_listed asked (by decide) (by decide +kernel)⟩

/-- Of 201 members whom a query asks for at once, the first page has 200. -/
theorem members_clamped : ¬ ∀ (now limit : Nat) (lists : List ContactList) (memberships : MembershipTable now)
    (contacts : ContactTable now) (listId : String), Early ((now + day) / 1000000) → 0 < limit →
    (isUuid listId && lists.any fun list => list.id == uuidOf listId) = true →
    Complete (members lists memberships.rows contacts.rows listId (some (toString limit)))
    memberDto byAddition limit
      (joined memberships.rows contacts.rows (uuidOf listId)) := by
  intro all
  have clock : Early ((0 + day) / 1000000) := by unfold Early; decide
  have asked : parseCursorQuery none (some (toString 201)) 50 200 = .ok ⟨none, 200⟩ := by decide +kernel
  have complete := all 0 201 [someList] (someMemberships 201 fits) (someContacts 201 fits) zeroId clock
    (by decide) zero_listed
  let rows := joined (someMemberships 201 fits).rows (someContacts 201 fits).rows (uuidOf zeroId)
  have many : ((newest byAddition (rows.filter fun _ => true)).take 201).length = 201 := by
    rw [List.length_take, (newest_perm byAddition _).length_eq]
    decide +kernel
  generalize same : (newest byAddition (rows.filter fun _ => true)).take 201 = page at many
  have first : members [someList] (someMemberships 201 fits).rows (someContacts 201 fits).rows zeroId
    (some (toString 201)) none =
      .ok (pageOf 200 memberCursor memberDto page) := by
    rw [← same]
    exact members_fetch _ _ clock zero_listed asked none fun _ absurd_ => by cases absurd_
  obtain ⟨last, isLast⟩ : ∃ last, (page.take 200).getLast? = some last :=
    ⟨_, List.getLast?_eq_getLast_of_ne_nil (List.ne_nil_of_length_pos (by rw [List.length_take]; omega))⟩
  rw [pageOf, if_pos (by omega), isLast] at first
  have length := complete.first first
  rw [List.length_map, List.length_take, many] at length
  omega

end OpenEmarsys.Keyset
