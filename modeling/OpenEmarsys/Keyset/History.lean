import OpenEmarsys.Keyset.Search

/-! `ConsentsService.history`: the consents of a contact, newest first. -/

set_option autoImplicit false

namespace OpenEmarsys.Keyset

open Javascript Contacts

/-- `text.split(separator)`. -/
def split (text : String) (separator : Char) : List String :=
  (text.toList.splitOn separator).map String.ofList

structure ConsentDto where
  id : String
  channel : ConsentChannel
  value : Option Value
  source : String
  text : Option String
  actor_type : String
  actor_id : Option String
  changed_at : String

def consentDto (r : Consent) : ConsentDto :=
  let parts := split (r.actor.getD "") ':'
  let typ := parts.headD ""
  { id := uuidText r.id
    channel := r.channel
    value := r.value
    source := r.source
    text := r.text
    actor_type := if (given r.actor).isSome then if typ = "client" then "api_client" else typ else "service"
    actor_id := if (given r.actor).isSome then some (":".intercalate parts.tail) else none
    changed_at := toISOString r.changedAt }

def consentCursor (consent : Consent) : String := toISOString consent.changedAt ++ "_" ++ uuidText consent.id

/-- `[at, id]` of `cursor?.split('_') ?? []`, if neither is missing or empty. -/
def splitCursor (cursor : Option String) : Option (String × String) :=
  match (cursor.map fun text => split text '_').getD [] with
  | start :: id :: _ => if start ≠ "" ∧ id ≠ "" then some (start, id) else none
  | _ => none

/-- `{ OR: [{ changedAt: { lt: at } }, { changedAt: at, id: { lt: id } }] }` -/
def changedBefore (consent : Consent) (bound : Time × Uuid) : Bool :=
  decide (consent.changedAt < bound.1) || (consent.changedAt == bound.1 && decide (consent.id < bound.2))

/-- The consents of a contact, of one channel or all. -/
def consentsOf (consents : List Consent) (contact : Uuid) (channel : Option ConsentChannel) : List Consent :=
  consents.filter fun consent => consent.contactId == contact && channel.all
    fun asked => decide (consent.channel = asked)

def byChange (consent : Consent) : Key := toLex (consent.changedAt, consent.id)

/-- History of a contact, newest first; the cursor is `<changed_at>_<id>` of the last item. -/
def history (contacts : List Contact) (consents : List Consent) (contactId : String)
    (channel : Option ConsentChannel) (limit : Nat)
    (cursor : Option String) : Except Failure (Page String ConsentDto) := do
  let contact ← readId contactId
  if !(contacts.any fun found => found.id == contact && found.deletedAt.isNone)
    then throw (.notFound "contact not found")
  let bound ← (splitCursor cursor).mapM castPair
  let found := (consentsOf consents contact channel).filter fun consent => bound.all (changedBefore consent)
  pure (pageOf limit consentCursor consentDto ((newest byChange found).take (limit + 1)))

theorem underscore_not_time {time : Nat} (early : Early (time / 1000)) : '_' ∉ (toISOString time).toList := by
  have small : time % 1000 < 10 ^ (2 + 1) := by omega
  rw [toISOString_toList, padded_eq small]
  intro member
  simp only [List.mem_append, List.mem_cons, List.not_mem_nil, or_false] at member
  rcases member with (date | point | digit) | last
  · have marks := dateTime_chars early date
    exact absurd marks (by decide)
  · exact absurd point (by decide)
  · exact absurd (decimals_isDigit digit) (by decide)
  · exact absurd last (by decide)

theorem underscore_not_id {id : Uuid} (small : id < 2 ^ 128) : '_' ∉ (uuidText id).toList := by
  intro member
  have hex := isUuid_char (uuidText_isUuid small).1 member
  exact absurd hex (by decide)

theorem time_ne {time : Nat} : toISOString time ≠ "" := by
  intro nothing
  have text := toISOString_toList time
  rw [nothing] at text
  simp at text

theorem id_ne {id : Uuid} (small : id < 2 ^ 128) : uuidText id ≠ "" := by
  intro nothing
  have is := (uuidText_isUuid small).1
  rw [nothing] at is
  exact absurd is (by decide)

theorem split_two {first mark second : String} {c : Char} (is : mark.toList = [c]) (plain : c ∉ first.toList)
    (plain' : c ∉ second.toList) : split (first ++ mark ++ second) c = [first, second] := by
  have text : (first ++ mark ++ second).toList = [c].intercalate [first.toList, second.toList] := by
    rw [String.toList_append, String.toList_append, is]
    simp [List.intercalate_cons_cons]
  have both : ∀ part ∈ [first.toList, second.toList], c ∉ part := by
    intro part member
    rcases List.mem_cons.mp member with rfl | last
    · exact plain
    · rw [List.mem_singleton.mp last]
      exact plain'
  rw [split, text, List.splitOn_intercalate c both (List.cons_ne_nil _ _)]
  simp

theorem splitCursor_cursor {consent : Consent} (early : Early (consent.changedAt / 1000))
    (small : consent.id < 2 ^ 128) :
    splitCursor (some (consentCursor consent)) = some
    (toISOString consent.changedAt, uuidText consent.id) := by
  have parts : split (consentCursor consent) '_' = [toISOString consent.changedAt, uuidText consent.id] :=
    split_two rfl (underscore_not_time early) (underscore_not_id small)
  rw [splitCursor, Option.map_some, Option.getD_some, parts]
  exact if_pos ⟨time_ne, id_ne small⟩

section
variable {now limit : Nat} {id : String} {channel : Option ConsentChannel}

/-- `contacts.consents` of a tenant. -/
abbrev ConsentTable (now : Nat) := Table Consent Uuid Consent.id Consent.id
    (fun consent => consent.changedAt * 1000) now

theorem changedBefore_eq (consent last : Consent) :
    changedBefore consent (last.changedAt, last.id) = decide
    (byChange consent < byChange last) := rowLess_eq ..

theorem history_complete (contacts : List Contact) (consents : ConsentTable now)
    (clock : Early ((now + day) / 1000000)) (positive : 0 < limit)
    (is : isUuid id = true) (live : (contacts.any fun found => found.id == uuidOf id &&
      found.deletedAt.isNone) = true) :
    Complete (history contacts consents.rows id channel limit) consentDto byChange limit
    (consentsOf consents.rows (uuidOf id) channel) := by
  refine complete_of_fetch consentCursor positive ?_ ?_
  · have apart : (consents.rows.map byChange).Nodup := by
      refine List.Nodup.of_map (fun key : Key => (ofLex key).2) ?_
      rw [List.map_map]
      exact consents.distinct
    exact apart.sublist (List.filter_sublist.map byChange)
  · intro bound among
    have after : (splitCursor (bound.map consentCursor)).mapM castPair = .ok (bound.map
        fun last => (last.changedAt, last.id)) := by
      cases bound with
      | none => rfl
      | some last =>
        have member : last ∈ consents.rows := (List.mem_filter.mp (among last rfl)).1
        have early : Early (last.changedAt / 1000) := by
          have micros := consents.early clock member
          unfold Early at micros ⊢
          omega
        rw [Option.map_some, splitCursor_cursor early (consents.small member), Option.mapM_some,
          castPair_texts early (consents.small member)]
        rfl
    have found : (consentsOf consents.rows (uuidOf id) channel).filter (fun consent =>
        (bound.map fun last => (last.changedAt, last.id)).all (changedBefore consent)) =
        (consentsOf consents.rows (uuidOf id) channel).filter fun consent => bound.all
            fun last => decide (byChange consent < byChange last) := by
      refine List.filter_congr fun consent _ => ?_
      cases bound with
      | none => rfl
      | some last => simp only [Option.map_some, Option.all_some, changedBefore_eq]
    simp only [history, readId, is, live, after, found, if_pos, bind, Except.bind]
    rfl

end

end OpenEmarsys.Keyset
