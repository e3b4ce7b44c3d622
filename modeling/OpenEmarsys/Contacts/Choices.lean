import OpenEmarsys.Contacts.Fields
import OpenEmarsys.Postgres.Solo

/-! The options of a field over its life: one creation, then updates.

What an accepted call does to the options is read off its script; the law of the
identifiers is then a matter of the numbers `withChoiceIds` hands out.
-/

set_option autoImplicit false

namespace OpenEmarsys.Contacts

open Javascript Postgres

def choiceIds (choices : List Choice) : List Nat := choices.map Choice.id

def explicitIds (input : List ChoiceInput) : List Nat := input.filterMap ChoiceInput.id

/-- How many options of a request have no ID yet. -/
def unnumbered (input : List ChoiceInput) : Nat := input.countP fun entry => entry.id.isNone

def greatest (choices : List Choice) : Nat := (choiceIds choices).foldl max 0

/-- `count` numbers from `next` on. -/
def numbersFrom (next : Nat) : Nat → List Nat
  | 0 => []
  | count + 1 => next :: numbersFrom (increment next) count

/-- The IDs of the options that had none in the request. -/
def givenIds (input : List ChoiceInput) (choices : List Choice) : List Nat :=
  (input.zip choices).filterMap fun (entry, choice) => if entry.id.isNone then some choice.id else none

theorem givenIds_numberChoices (next : Nat) (input : List ChoiceInput) :
    givenIds input (numberChoices next input) = numbersFrom next (unnumbered input) := by
  induction input generalizing next with
  | nil => rfl
  | cons entry rest ih =>
    cases given : entry.id with
    | some id => simpa [givenIds, numberChoices, unnumbered, given] using ih next
    | none => simpa [givenIds, numberChoices, unnumbered, numbersFrom, given] using ih (increment next)

theorem choiceIds_numberChoices (next : Nat) (input : List ChoiceInput) :
    (choiceIds (numberChoices next input)).Perm
    (explicitIds input ++ numbersFrom next (unnumbered input)) := by
  induction input generalizing next with
  | nil => exact .nil
  | cons entry rest ih =>
    cases given : entry.id with
    | some id => simpa [choiceIds, numberChoices, explicitIds, unnumbered, given] using (ih next).cons id
    | none =>
      have shift : (choiceIds (numberChoices next (entry :: rest))).Perm
          (next :: (explicitIds rest ++ numbersFrom (increment next) (unnumbered rest))) := by
        simpa [choiceIds, numberChoices, given] using (ih (increment next)).cons next
      simpa [explicitIds, unnumbered, numbersFrom, given] using shift.trans List.perm_middle.symm

theorem nodup_numberChoices (next : Nat) (input : List ChoiceInput) :
    (choiceIds (numberChoices next input)).Nodup ↔
        (explicitIds input).Nodup ∧ (numbersFrom next (unnumbered input)).Nodup ∧
        ∀ id ∈ explicitIds input, id ∉ numbersFrom next (unnumbered input) := by
  rw [(choiceIds_numberChoices next input).nodup_iff, List.nodup_append']
  exact Iff.rfl

/-- An accepted call: the options it asked for, if any, and those of the field after it. -/
structure Revision where
  request : Option (List ChoiceInput)
  choices : List Choice

def Revision.given (revision : Revision) : List Nat :=
  revision.request.elim [] fun input => givenIds input revision.choices

def currentChoices (past : List Revision) : List Choice := (past.head?.map Revision.choices).getD []

/-- Options are told apart by their IDs, and none that is new gets the ID of one there has been.
The revisions are listed newest first. -/
structure Lawful (history : List Revision) : Prop where
  distinct : ∀ revision ∈ history, (choiceIds revision.choices).Nodup
  fresh : ∀ revision past, (revision :: past).IsSuffix history →
    ∀ id ∈ revision.given, ∀ earlier ∈ past, id ∉ choiceIds earlier.choices

/-- The IDs a request names are distinct, and the numbers that follow the greatest current ID,
one for each option without an ID, are distinct too, not named in the request, and not the ID
of an option there has been. -/
structure CarefulRequest (past : List Revision) (input : List ChoiceInput) : Prop where
  named : (explicitIds input).Nodup
  counts : (numbersFrom (increment (greatest (currentChoices past))) (unnumbered input)).Nodup
  apart : ∀ id ∈ explicitIds input,
    id ∉ numbersFrom (increment (greatest (currentChoices past))) (unnumbered input)
  unused : ∀ id ∈ numbersFrom (increment (greatest (currentChoices past))) (unnumbered input),
    ∀ earlier ∈ past, id ∉ choiceIds earlier.choices

def Careful : List Revision → Prop
  | [] => True
  | revision :: past => (∀ input, revision.request = some input → CarefulRequest past input) ∧ Careful past

/-- Each revision has the options its request was given. -/
def Numbered : List Revision → Prop
  | [] => True
  | revision :: past =>
      revision.choices = (revision.request.elim (currentChoices past)
        fun input => withChoiceIds input (currentChoices past)) ∧
        Numbered past

theorem lawful_cons {revision : Revision} {past : List Revision} :
    Lawful (revision :: past) ↔
      ((choiceIds revision.choices).Nodup ∧ ∀ id ∈ revision.given, ∀ earlier ∈ past,
        id ∉ choiceIds earlier.choices) ∧
        Lawful past := by
  constructor
  · intro lawful
    refine ⟨⟨lawful.distinct revision (List.mem_cons_self ..),
      lawful.fresh revision past (List.suffix_refl _)⟩, ?_, ?_⟩
    · exact fun other member => lawful.distinct other (List.mem_cons_of_mem _ member)
    · exact fun other older within => lawful.fresh other older (within.trans (List.suffix_cons ..))
  · rintro ⟨⟨distinct, fresh⟩, lawful⟩
    refine ⟨fun other member => ?_, fun other older within => ?_⟩
    · rcases List.mem_cons.mp member with rfl | member
      · exact distinct
      · exact lawful.distinct other member
    · rcases List.suffix_cons_iff.mp within with same | within
      · cases same
        exact fresh
      · exact lawful.fresh other older within

theorem nodup_current {past : List Revision} (lawful : Lawful past) :
    (choiceIds (currentChoices past)).Nodup := by
  cases past with
  | nil => exact List.nodup_nil
  | cons revision past => exact lawful.distinct revision (List.mem_cons_self ..)

theorem lawful_iff_careful {history : List Revision} (numbered : Numbered history) :
    Lawful history ↔ Careful history := by
  induction history with
  | nil => exact ⟨fun _ => trivial, fun _ => ⟨by simp, by simp⟩⟩
  | cons revision past ih =>
    obtain ⟨computed, before⟩ := numbered
    rw [lawful_cons, Careful, ← ih before]
    refine and_congr_left fun lawful => ?_
    obtain ⟨request, choices⟩ := revision
    cases request with
    | none =>
      simp only [Option.elim_none] at computed
      subst computed
      simpa [Revision.given] using nodup_current lawful
    | some input =>
      simp only [Option.elim_some] at computed
      subst computed
      have numbers : withChoiceIds input (currentChoices past) =
          numberChoices (increment (greatest (currentChoices past))) input := rfl
      simp only [Revision.given, Option.elim_some, numbers, givenIds_numberChoices,
        nodup_numberChoices, Option.some.injEq,
        forall_eq']
      exact ⟨fun ⟨⟨named, counts, apart⟩, unused⟩ => ⟨named, counts, apart, unused⟩,
        fun careful => ⟨⟨careful.named, careful.counts, careful.apart⟩, careful.unused⟩⟩

/-! ## What accepted calls do -/

/-- The definition of the field in these rows has these options. -/
def HasChoices (fieldId : Nat) (choices : List Choice) (rows : List Row) : Prop :=
  ∀ definition, Row.definition definition ∈ rows → definition.fieldId = fieldId → definition.choices = choices

section Calls
variable {rows : List Row} {world : World}

theorem mem_insertRows {row : Row} {inserted after : List Row}
    (run : insertRows false [row] rows = .ok (inserted, after)) :
    after = rows ++ [row] ∧ ∀ old ∈ rows, clash row old = false := by
  simp only [insertRows, Bool.false_eq_true, if_false] at run
  split at run
  · cases run
  · next free =>
    cases run
    exact ⟨rfl, fun old member => Bool.eq_false_iff.mpr
      fun meets => free (List.any_eq_true.mpr ⟨old, member, meets⟩)⟩

theorem nextCustomFieldId_leads : LeadsIn respond nextCustomFieldId rows world fun _ _ _ => True := by
  have read {script : CoreScript Nat} {rows : List Row} (ends : (∃ id, script = .ret id) ∨
    ∃ error, script = .fail error) :
      LeadsIn respond script rows world fun _ _ _ => True := by
    rcases ends with ⟨id, rfl⟩ | ⟨error, rfl⟩
    · exact LeadsIn.ret trivial
    · exact LeadsIn.fail trivial
  unfold nextCustomFieldId
  refine LeadsIn.bind ?_
  refine LeadsIn.sql ?_
  split
  · dsimp only
    split
    · refine LeadsIn.bind ?_
      refine LeadsIn.sql ?_
      split
      · dsimp only
        split
        · refine LeadsIn.bind ?_
          refine LeadsIn.sql ?_
          split
          · exact read (by split; exacts [.inl ⟨_, rfl⟩, .inr ⟨_, rfl⟩])
          · trivial
        · refine LeadsIn.bind (LeadsIn.ret ?_)
          exact read (by split; exacts [.inl ⟨_, rfl⟩, .inr ⟨_, rfl⟩])
      · trivial
    · refine LeadsIn.bind (LeadsIn.ret ?_)
      exact read (by split; exacts [.inl ⟨_, rfl⟩, .inr ⟨_, rfl⟩])
  · trivial

theorem invalidating_leads {α : Type} {process : Nat} {apiName : String} {body : CoreScript α}
    (post : α → List Row → Prop) (leads : Leads respond body rows world
      fun result after _ => ∀ value, result = .ok value → post value after) :
    Leads respond (invalidating process apiName body) rows world
    fun result after _ => ∀ value, result = .ok value → post value after := by
  refine Leads.bind (Leads.handle (Leads.mono leads fun result after later holds => ?_))
  cases result with
  | ok value =>
    refine Leads.bind (Leads.ask fun choice reply last _ => ?_)
    exact Leads.ret fun given same => by cases same; exact holds value rfl
  | error error =>
    refine Leads.bind (Leads.ask fun choice reply last _ => ?_)
    exact Leads.fail fun given same => by cases same

theorem create_leads (process : Nat) (input : FieldCreate) :
    Leads respond (create process input) rows world fun result after _ => ∀ definition,
      result = .ok definition →
      definition.choices = withChoiceIds input.choices [] ∧
      HasChoices definition.fieldId definition.choices after := by
  refine invalidating_leads (fun (definition : FieldDefinition) after =>
    definition.choices = withChoiceIds input.choices [] ∧
    HasChoices definition.fieldId definition.choices after) (Leads.returns (LeadsIn.bind ?_))
  refine LeadsIn.mono nextCustomFieldId_leads fun result middle later _ => ?_
  cases result with
  | error error => exact fun value same => by cases same
  | ok id =>
    refine LeadsIn.bind (LeadsIn.sql ?_)
    split
    · next found after run =>
      obtain ⟨rfl, free⟩ := mem_insertRows run
      refine LeadsIn.ret fun definition same => ?_
      cases same
      refine ⟨rfl, fun other member sameId => ?_⟩
      rcases List.mem_append.mp member with old | new
      · have clear := free _ old
        rw [clash_of_sameRow (sameRow_iff.mpr (by simp [primary, sameId]))] at clear
        cases clear
      · cases List.mem_singleton.mp new
        rfl
    · exact fun value same => by cases same

-- Every row after an update is the new version of one it hit, or was not hit.
theorem mem_updateRows {f : Row → Row} {hits db updated after : List Row}
    (run : updateRows f hits db = .ok (updated, after)) :
    updated = hits.map f ∧
      ∀ row ∈ after, row ∈ hits.map f ∨ (row ∈ db ∧ ∀ hit ∈ hits, sameRow hit row = false) := by
  induction hits generalizing db updated with
  | nil =>
    cases run
    exact ⟨rfl, fun row member => .inr ⟨member, by simp⟩⟩
  | cons hit rest ih =>
    simp only [updateRows] at run
    split at run
    · cases run
    · split at run
      · next later run' =>
        cases run
        obtain ⟨rfl, members⟩ := ih run'
        refine ⟨rfl, fun row member => ?_⟩
        rcases members row member with new | ⟨here, missed⟩
        · exact .inl (List.mem_cons_of_mem _ new)
        · rcases List.mem_append.mp here with old | new
          · obtain ⟨old, differs⟩ := List.mem_filter.mp old
            refine .inr ⟨old, fun other member => ?_⟩
            rcases List.mem_cons.mp member with rfl | member
            · simpa using differs
            · exact missed other member
          · exact .inl (by rw [List.mem_singleton.mp new]; exact List.mem_cons_self ..)
      · cases run

theorem mem_definitions {rows : List Row} {definition : FieldDefinition} :
    definition ∈ rows.filterMap Row.definition? ↔ Row.definition definition ∈ rows := by
  rw [List.mem_filterMap]
  constructor
  · rintro ⟨row, member, found⟩
    cases row with
    | definition other => cases found; exact member
    | _ => cases found
  · exact fun member => ⟨_, member, rfl⟩

theorem findDefinition_leads (fieldId : Nat) :
    LeadsIn respond (findDefinition fieldId) rows world fun result after _ => after = rows ∧
      ∀ definition, result = .ok definition →
      Row.definition definition ∈ rows ∧ definition.fieldId = fieldId := by
  unfold findDefinition
  refine LeadsIn.bind ?_
  refine LeadsIn.select ?_
  dsimp only
  split
  · next definition rest found =>
    refine LeadsIn.ret ⟨rfl, fun given same => ?_⟩
    cases same
    have member : Row.definition definition ∈ rows.filter _ :=
      mem_definitions.mp (found ▸ List.mem_cons_self ..)
    obtain ⟨here, is⟩ := List.mem_filter.mp member
    simp only [Row.isDefinition, Row.definition?, Option.any_some, Bool.and_eq_true, beq_iff_eq] at is
    exact ⟨here, is.1⟩
  · exact LeadsIn.fail ⟨rfl, fun given same => by cases same⟩

theorem checkUnused_leads (fieldId : Nat) (choices : List Choice) :
    LeadsIn respond (checkUnused fieldId choices) rows world fun _ after _ => after = rows := by
  induction choices with
  | nil => exact LeadsIn.ret rfl
  | cons gone rest ih =>
    unfold checkUnused
    have looked : LeadsIn respond (do
        let used ← sql (.select (Row.isContact fun contact =>
          contact.deletedAt.isNone && (contact.data (toString fieldId)).any
            fun value => value.contains gone.id))
        if !used.isEmpty then throw (.conflict s!"choice {gone.id} is in use by contacts")
        checkUnused fieldId rest : CoreScript Unit) rows world fun _ after _ => after = rows := by
      refine LeadsIn.bind ?_
      refine LeadsIn.select ?_
      dsimp only
      split
      · exact LeadsIn.fail rfl
      · exact ih
    split
    · exact LeadsIn.fail rfl
    · exact looked

theorem newChoices_leads (definition : FieldDefinition) (fieldId : Nat) (input : List ChoiceInput) :
    LeadsIn respond (newChoices definition fieldId input) rows world fun result after _ => after = rows ∧
      ∀ choices, result = .ok choices → choices = withChoiceIds input definition.choices := by
  have checked : LeadsIn respond (do
      checkUnused fieldId (definition.choices.filter fun c =>
        !(input.map ChoiceInput.id).contains (some c.id))
      pure (withChoiceIds input definition.choices) : CoreScript (List Choice)) rows world
          fun result after _ =>
      after = rows ∧ ∀ choices, result = .ok choices → choices = withChoiceIds input definition.choices := by
    refine LeadsIn.bind (LeadsIn.mono (checkUnused_leads _ _) fun result after later same => ?_)
    subst same
    cases result with
    | ok done => exact LeadsIn.ret ⟨rfl, fun choices same => by cases same; rfl⟩
    | error error => exact ⟨rfl, fun choices same => by cases same⟩
  unfold newChoices
  dsimp only
  split
  · exact LeadsIn.fail ⟨rfl, fun choices same => by cases same⟩
  · split
    · exact LeadsIn.fail ⟨rfl, fun choices same => by cases same⟩
    · exact checked

theorem setDefinition_leads (fieldId : Nat) (f : FieldDefinition → FieldDefinition) {choices : List Choice}
    (sets : ∀ definition, Row.definition definition ∈ rows → definition.fieldId = fieldId →
      (f definition).choices = choices) :
    LeadsIn respond (setDefinition fieldId f) rows world
    fun result after _ => ∀ definition, result = .ok definition →
      definition.choices = choices ∧ HasChoices fieldId choices after := by
  unfold setDefinition
  refine LeadsIn.bind ?_
  refine LeadsIn.sql ?_
  split
  · next found after run =>
    obtain ⟨rfl, members⟩ := mem_updateRows run
    have written : ∀ definition, Row.definition definition ∈
        (rows.filter (Row.isDefinition fun definition => definition.fieldId == fieldId)).map
          (Row.mapDefinition f) →
        definition.choices = choices := by
      intro definition member
      obtain ⟨row, hit, same⟩ := List.mem_map.mp member
      obtain ⟨here, is⟩ := List.mem_filter.mp hit
      cases row with
      | definition old =>
        simp only [Row.isDefinition, Row.definition?, Option.any_some, beq_iff_eq] at is
        cases same
        exact sets old here is
      | _ => simp [Row.isDefinition, Row.definition?] at is
    dsimp only
    split
    · next definition rest found =>
      refine LeadsIn.ret fun given same => ?_
      cases same
      refine ⟨written definition (mem_definitions.mp (found ▸ List.mem_cons_self ..)),
        fun other member sameId => ?_⟩
      rcases members _ member with new | ⟨old, missed⟩
      · exact written other new
      · have hit : Row.definition other ∈ rows.filter (Row.isDefinition
            fun definition => definition.fieldId == fieldId) :=
          List.mem_filter.mpr ⟨old, by simp [Row.isDefinition, Row.definition?, sameId]⟩
        have self := missed _ hit
        rw [sameRow_refl] at self
        cases self
    · exact LeadsIn.fail fun given same => by cases same
  · exact fun given same => by cases same

theorem updateField_leads (process fieldId : Nat) (input : FieldUpdate) {choices : List Choice}
    (has : HasChoices fieldId choices rows) :
    Leads respond (updateField process fieldId input) rows world
    fun result after _ => ∀ definition, result = .ok definition →
        definition.choices = (input.choices.elim choices fun wanted => withChoiceIds wanted choices) ∧
        HasChoices fieldId definition.choices after := by
  have saved (definition : FieldDefinition) (renamed : Bool) (wanted : Option (List Choice)) (world : World) :
      LeadsIn respond (setDefinition fieldId fun current =>
          { current with
            apiName := if renamed then input.api_name.getD current.apiName else current.apiName
            choices := wanted.getD current.choices }) rows world
              fun result after _ => ∀ definition, result = .ok definition →
        definition.choices = wanted.getD choices ∧ HasChoices fieldId definition.choices after := by
    have sets : ∀ old, Row.definition old ∈ rows → old.fieldId = fieldId →
        wanted.getD old.choices = wanted.getD choices :=
      fun old here sameId => by rw [has old here sameId]
    refine LeadsIn.mono (setDefinition_leads fieldId _ sets) fun result after later holds given same => ?_
    obtain ⟨equal, held⟩ := holds given same
    exact ⟨equal, equal ▸ held⟩
  refine invalidating_leads (fun (definition : FieldDefinition) after =>
    definition.choices = (input.choices.elim choices fun wanted => withChoiceIds wanted choices) ∧
      HasChoices fieldId definition.choices after) (Leads.returns (LeadsIn.bind ?_))
  refine LeadsIn.mono (findDefinition_leads fieldId) fun result middle later holds => ?_
  obtain ⟨rfl, found⟩ := holds
  cases result with
  | error error => exact fun value same => by cases same
  | ok definition =>
    obtain ⟨here, sameId⟩ := found definition rfl
    have current := has definition here sameId
    dsimp only
    split
    · exact LeadsIn.fail fun value same => by cases same
    · cases wanted : input.choices with
      | none => exact saved definition _ none later
      | some entries =>
        refine LeadsIn.bind ?_
        refine LeadsIn.mono (newChoices_leads definition fieldId entries) fun result middle last holds => ?_
        obtain ⟨rfl, computed⟩ := holds
        cases result with
        | error error => exact fun value same => by cases same
        | ok chosen =>
          rw [current] at computed
          cases computed chosen rfl
          exact saved definition _ (some _) last

end Calls

/-! ## The life of a field -/

def Accepted {α : Type} (script : CoreScript α) (rows : List Row) (value : α) (after : List Row) : Prop :=
  ∃ world later, script.Yields (Solo.answer respond) ⟨rows, none, world⟩ (.ok value) ⟨after, none, later⟩

theorem Accepted.holds {α : Type} {script : CoreScript α} {rows after : List Row} {value : α}
    {post : α → List Row → Prop} (accepted : Accepted script rows value after)
    (leads : ∀ world, Leads respond script rows world fun result after _ => ∀ value,
      result = .ok value → post value after) :
    post value after := by
  obtain ⟨world, later, yields⟩ := accepted
  obtain ⟨rows, last, same, holds⟩ := Interleaving.Script.Ends.yields (leads world) yields
  cases same
  exact holds value rfl

/-- The revisions of a field, newest first, with the rows at the moment. Other calls may change
any row but the definition of the field. -/
inductive Revised (fieldId : Nat) : List Row → List Revision → Prop where
  | created {rows after : List Row} {process : Nat} {input : FieldCreate} {definition : FieldDefinition} :
      Accepted (create process input) rows definition after → definition.fieldId = fieldId →
      Revised fieldId after [⟨some input.choices, definition.choices⟩]
  | updated {rows after : List Row} {past : List Revision} {process : Nat} {input : FieldUpdate}
    {definition : FieldDefinition} :
      Revised fieldId rows past → Accepted (updateField process fieldId input) rows definition after →
      Revised fieldId after (⟨input.choices, definition.choices⟩ :: past)
  | elsewhere {rows after : List Row} {past : List Revision} :
      Revised fieldId rows past →
      (∀ definition, definition.fieldId = fieldId → Row.definition definition ∈ after →
        Row.definition definition ∈ rows) →
      Revised fieldId after past

theorem Revised.numbered {fieldId : Nat} {rows : List Row} {history : List Revision}
    (revised : Revised fieldId rows history) :
    Numbered history ∧ HasChoices fieldId (currentChoices history) rows := by
  induction revised with
  | created accepted sameId =>
    obtain ⟨computed, has⟩ := accepted.holds fun world => create_leads _ _
    exact ⟨⟨computed, trivial⟩, sameId ▸ has⟩
  | updated _ accepted ih =>
    obtain ⟨computed, has⟩ := accepted.holds fun world => updateField_leads _ _ _ ih.2
    exact ⟨⟨computed, ih.1⟩, has⟩
  | elsewhere _ kept ih =>
    exact ⟨ih.1, fun definition member sameId =>
      ih.2 definition (kept definition sameId member) sameId⟩

/-- The IDs of a field's options are distinct at all times and never used again, exactly when every
call on it was careful. -/
theorem choices_lawful_iff {fieldId : Nat} {rows : List Row} {history : List Revision}
    (revised : Revised fieldId rows history) :
    Lawful history ↔ Careful history := lawful_iff_careful revised.numbered.1

def emptyWorld : World := ⟨[], [], fun _ => none, []⟩

/-- Two options, `a` and `b`. -/
def planField : FieldCreate := ⟨"plan", .single_choice, [⟨none, "a"⟩, ⟨none, "b"⟩], false⟩

def planDefinition (choices : List Choice) : FieldDefinition :=
  ⟨1000, "plan", .single_choice, choices, false, false, false, none⟩

def planRows (choices : List Choice) : List Row := [.counter 1000, .definition (planDefinition choices)]

theorem accepted_follow {α : Type} {script : CoreScript α} {rows after : List Row} {value : α} {later : World}
    (followed : script.follow (Solo.answer respond) (fun _ _ => Choices.none) ⟨rows, none, emptyWorld⟩ =
      some (.ok value, ⟨after, none, later⟩)) : Accepted script rows value after :=
  ⟨emptyWorld, later, Interleaving.Script.yields_follow followed⟩

theorem plan_created : Revised 1000 (planRows [⟨1, "a"⟩, ⟨2, "b"⟩])
    [⟨some [⟨none, "a"⟩, ⟨none, "b"⟩], [⟨1, "a"⟩, ⟨2, "b"⟩]⟩] := by
  have accepted : Accepted (create 0 planField) [] (planDefinition [⟨1, "a"⟩, ⟨2, "b"⟩])
      (planRows [⟨1, "a"⟩, ⟨2, "b"⟩]) :=
    accepted_follow rfl
  exact .created accepted rfl

/-- `b` stays, so the option added is 3. -/
theorem plan_grown_lawful :
    Lawful [⟨some [⟨some 2, "b"⟩, ⟨none, "c"⟩], [⟨2, "b"⟩, ⟨3, "c"⟩]⟩,
      ⟨some [⟨none, "a"⟩, ⟨none, "b"⟩], [⟨1, "a"⟩, ⟨2, "b"⟩]⟩] := by
  have accepted : Accepted (updateField 0 1000 ⟨none, some [⟨some 2, "b"⟩, ⟨none, "c"⟩]⟩)
    (planRows [⟨1, "a"⟩, ⟨2, "b"⟩])
      (planDefinition [⟨2, "b"⟩, ⟨3, "c"⟩]) (planRows [⟨2, "b"⟩, ⟨3, "c"⟩]) := accepted_follow rfl
  refine (choices_lawful_iff (.updated plan_created accepted)).mpr ⟨?_, ?_, trivial⟩
  · rintro input ⟨⟩
    exact ⟨by decide, by decide, by decide, by decide⟩
  · rintro input ⟨⟩
    exact ⟨by decide, by decide, by decide, by decide⟩

/-- `b` is removed, and the option added next is 2 again. -/
theorem choice_id_reused : ¬ ∀ fieldId rows history, Revised fieldId rows history → Lawful history := by
  intro lawful
  have removed : Accepted (updateField 0 1000 ⟨none, some [⟨some 1, "a"⟩]⟩) (planRows [⟨1, "a"⟩, ⟨2, "b"⟩])
      (planDefinition [⟨1, "a"⟩]) (planRows [⟨1, "a"⟩]) := accepted_follow rfl
  have added : Accepted (updateField 0 1000 ⟨none, some [⟨some 1, "a"⟩, ⟨none, "c"⟩]⟩) (planRows [⟨1, "a"⟩])
      (planDefinition [⟨1, "a"⟩, ⟨2, "c"⟩]) (planRows [⟨1, "a"⟩, ⟨2, "c"⟩]) := accepted_follow rfl
  have found := lawful 1000 _ _ (.updated (.updated plan_created removed) added)
  exact found.fresh _ _ (List.suffix_refl _) 2 (by decide) _
    (List.mem_cons_of_mem _ (List.mem_cons_self ..)) (by decide)

end OpenEmarsys.Contacts
