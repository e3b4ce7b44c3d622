import OpenEmarsys.Contacts.Normalization
import OpenEmarsys.Contacts.Write
import OpenEmarsys.Interleaving.Superposition
import OpenEmarsys.Javascript.Objects

/-! What the stages of a batch make of its items, whatever the database replies.

A pending item is refused once and for all, or ready for the next stage. The results
keep the order and the keys of the items throughout.
-/

set_option autoImplicit false

namespace OpenEmarsys.Contacts

open Javascript Postgres Interleaving

/-- The key of an item as its result repeats it. -/
def keyOf (keyId : String) (item : Item) : Option String :=
  let key := keyText (item.entries.lookup keyId)
  if key.isEmpty then none else some key

def refusals : List Nat := [2008, 2010, 2011, 2012, 2013, 2014]

/-- A result that says why its item was refused, and of which field. -/
structure Refused (item : Item) (r : ItemResult) : Prop where
  unnamed : r.id = none
  uncreated : r.created = false
  unchanged : r.changed = []
  error : ∃ error, r.error = some error ∧ error.code ∈ refusals ∧ ∀ k, error.field_id = some k →
    k ∈ item.entries.map Prod.fst

/-- An item between two stages: refused, or ready for the next one. -/
structure Stage (keyId : String) (items : List Item) (ready : Item → Pending → Prop)
    (p : Pending) : Prop where
  stands : ∃ item, items[p.r.index]? = some item ∧ p.r.key = keyOf keyId item ∧
    (Refused item p.r ∨ p.r.error = none ∧ ready item p)

section Items
variable {core : Core} {keyId : String} {items : List Item} {item : Item} {p : Pending}

@[simp] theorem fail_index (r : ItemResult) (code : Nat) (text : String) (fieldId : Option String) :
    (Contacts.fail r code text fieldId).index = r.index := rfl

@[simp] theorem fail_key (r : ItemResult) (code : Nat) (text : String) (fieldId : Option String) :
    (Contacts.fail r code text fieldId).key = r.key := rfl

theorem refused_fail (r : ItemResult) {code : Nat} (known : code ∈ refusals) (text : String)
    {fieldId : Option String} (sent : ∀ k, fieldId = some k → k ∈ item.entries.map Prod.fst) :
    Refused item (Contacts.fail r code text fieldId) :=
  ⟨rfl, rfl, rfl, _, rfl, known, sent⟩

theorem Refused.invalid (refused : Refused item p.r) : p.valid = false := by
  obtain ⟨error, is, -⟩ := refused.error
  simp [Pending.valid, is]

theorem Stage.of_invalid {ready weaker : Item → Pending → Prop} (stage : Stage keyId items ready p)
    (invalid : p.valid = false) :
    Stage keyId items weaker p := by
  obtain ⟨item, there, key, refused | ⟨fine, -⟩⟩ := stage.stands
  · exact ⟨item, there, key, .inl refused⟩
  · simp [Pending.valid, fine] at invalid

theorem Stage.ready {ready : Item → Pending → Prop} (stage : Stage keyId items ready p)
    (valid : p.valid = true) :
    ∃ item, items[p.r.index]? = some item ∧ p.r.key = keyOf keyId item ∧ p.r.error = none ∧ ready item p := by
  obtain ⟨item, there, key, refused | ⟨fine, is⟩⟩ := stage.stands
  · rw [refused.invalid] at valid
    cases valid
  · exact ⟨item, there, key, fine, is⟩

theorem Stage.refuse {ready weaker : Item → Pending → Prop} (stage : Stage keyId items ready p) {code : Nat}
    (known : code ∈ refusals) (text : String) {fieldId : Option String}
    (sent : ∀ item, items[p.r.index]? = some item → ∀ k, fieldId = some k → k ∈ item.entries.map Prod.fst) :
    Stage keyId items weaker (p.fail code text fieldId) := by
  obtain ⟨item, there, key, -⟩ := stage.stands
  exact ⟨item, there, key, .inl (refused_fail p.r known text (sent item there))⟩

theorem keyedFrom_index (start : Nat) (seen : List String) (items : List Item) :
    (keyedFrom core keyId start seen items).map
    (fun found => found.1.index) = List.range' start items.length := by
  induction items generalizing start seen with
  | nil => rfl
  | cons item rest ih =>
    simp only [keyedFrom]
    split
    · simp [ih, List.range'_succ]
    · split <;> simp [ih, List.range'_succ]

/-- A result as `keyed` leaves it: refused, or fresh and pending. -/
def Keyed (keyId : String) (item : Item) (index : Nat) (found : ItemResult × Bool) : Prop :=
  found.1.index = index ∧ found.1.key = keyOf keyId item ∧
      (found.2 = true → found.1 = ⟨index, keyOf keyId item, none, false, [], none⟩) ∧
      (found.2 = false → Refused item found.1)

theorem keyedFrom_keyed (start : Nat) (seen : List String) (items : List Item) :
    ∀ found ∈ keyedFrom core keyId start seen items, ∃ i item, items[i]? = some item ∧ Keyed keyId item
    (start + i) found := by
  induction items generalizing start seen with
  | nil => exact fun found member => by cases member
  | cons item rest ih =>
    have later (more : List String) : ∀ found ∈ keyedFrom core keyId (start + 1) more rest,
        ∃ i other, (item :: rest)[i]? = some other ∧ Keyed keyId other (start + i) found := by
      intro found member
      obtain ⟨i, other, there, is⟩ := ih (start + 1) more found member
      exact ⟨i + 1, other, there, by rwa [show start + (i + 1) = start + 1 + i by omega]⟩
    have refused (text : String) (r : ItemResult) (index : r.index = start) (key : r.key = keyOf keyId item) :
        ∃ i other, (item :: rest)[i]? = some other ∧
            Keyed keyId other (start + i) (Contacts.fail r 2014 text none, false) :=
      ⟨0, item, rfl, ⟨index, key, Bool.noConfusion, fun _ => refused_fail r (by decide) text
        fun k is => (by cases is)⟩⟩
    intro found member
    simp only [keyedFrom] at member
    split at member
    · rcases List.mem_cons.mp member with rfl | more
      · exact refused _ _ rfl rfl
      · exact later _ found more
    · split at member
      · rcases List.mem_cons.mp member with rfl | more
        · exact refused _ _ rfl rfl
        · exact later _ found more
      · rcases List.mem_cons.mp member with rfl | more
        · exact ⟨0, item, rfl, ⟨rfl, rfl, fun _ => rfl, Bool.noConfusion⟩⟩
        · exact later _ found more

/-- What `keyed` has not touched yet. -/
structure Fresh (p : Pending) : Prop where
  id : p.r.id = none
  created : p.r.created = false
  changed : p.r.changed = []
  set : p.set = []

/-- The first stage, and the results of the whole batch with those of the items that go on. -/
structure Opens (keyId : String) (items : List Item) (all : List ItemResult)
    (pending : List Pending) : Prop where
  indexes : all.map ItemResult.index = List.range items.length
  stage : ∀ p ∈ pending, Stage keyId items (fun _ p => Fresh p) p
  valid : ∀ p ∈ pending, p.valid = true
  rest : ∀ r ∈ all, (∃ p ∈ pending, p.r.index = r.index) ∨ ∃ item, items[r.index]? = some item ∧
    r.key = keyOf keyId item ∧ Refused item r

theorem keyed_opens (core : Core) (keyId : String) (items : List Item) :
    Opens keyId items (keyed core keyId items).1 (keyed core keyId items).2 := by
  refine ⟨?_, fun p member => ?_, fun p member => ?_, fun r member => ?_⟩
  · rw [keyed, List.map_map, List.range_eq_range', ← keyedFrom_index 0 [] items]
    rfl
  · obtain ⟨found, kept, rfl⟩ := List.mem_map.mp member
    obtain ⟨among, goes⟩ := List.mem_filter.mp kept
    obtain ⟨i, item, there, index, key, fresh, -⟩ := keyedFrom_keyed 0 [] items found among
    obtain ⟨r, goes⟩ := found
    cases fresh goes
    exact ⟨item, by simpa using there, key, .inr ⟨rfl, rfl, rfl, rfl, rfl⟩⟩
  · obtain ⟨found, kept, rfl⟩ := List.mem_map.mp member
    obtain ⟨among, goes⟩ := List.mem_filter.mp kept
    obtain ⟨i, item, -, -, -, fresh, -⟩ := keyedFrom_keyed 0 [] items found among
    obtain ⟨r, goes⟩ := found
    cases fresh goes
    rfl
  · obtain ⟨found, among, rfl⟩ := List.mem_map.mp member
    obtain ⟨i, item, there, index, key, -, refused⟩ := keyedFrom_keyed 0 [] items found among
    rw [Nat.zero_add] at index
    cases goes : found.2 with
    | true =>
      exact .inl ⟨⟨found.1, []⟩, List.mem_map.mpr ⟨found,
        List.mem_filter.mpr ⟨among, goes⟩, rfl⟩, rfl⟩
    | false => exact .inr ⟨item, by rw [index]; exact there, key, refused goes⟩

/-! ## Validation -/

/-- What an item sends, as the registry normalizes it, if every field can be written. -/
def sentOf (definitions : Definitions) (keyId : String) :
    List (String × Json) → Option (List (String × Option Value))
  | [] => some []
  | (k, raw) :: rest =>
      if k = "id" ∧ keyId = "id" then sentOf definitions keyId rest
      else
        match if isFieldId k then definitions.get (fieldNumber k) else none with
        | none => none
        | some definition =>
            if definition.readOnly then none
            else
              match normalizeValue definition.type definition.choices raw with
              | .error _ => none
              | .ok value => (sentOf definitions keyId rest).map ((k, value) :: ·)

/-- An item whose values have been read, without a contact yet. -/
structure Read (definitions : Definitions) (keyId : String) (item : Item) (p : Pending) : Prop where
  id : p.r.id = none
  created : p.r.created = false
  changed : p.r.changed = []
  sent : sentOf definitions keyId item.entries = some p.set

/-- A pending item is refused for one of these fields. -/
def RefusedFor (entries : List (String × Json)) (p after : Pending) : Prop :=
  ∃ q : Pending, q.r = p.r ∧ ∃ code text k, code ∈ refusals ∧ k ∈ entries.map Prod.fst ∧
    after = q.fail code text (some k)

theorem RefusedFor.later {entries : List (String × Json)} {entry : String × Json} {q after : Pending}
    (refused : RefusedFor entries q after)
    (same : q.r = p.r) : RefusedFor (entry :: entries) p after := by
  obtain ⟨r, is, code, text, k, known, among, fails⟩ := refused
  exact ⟨r, is.trans same, code, text, k, known, List.mem_cons_of_mem _ among, fails⟩

theorem refusedFor_here (entries : List (String × Json)) (k : String) (raw : Json) (p : Pending) {code : Nat}
    (known : code ∈ refusals)
    (text : String) : RefusedFor ((k, raw) :: entries) p (p.fail code text (some k)) :=
  ⟨p, rfl, code, text, k, known, List.mem_cons_self .., rfl⟩

/-- A value that is refused is refused with this code. -/
def Judged {α : Type} (result : Except (Nat × String) α) : Prop :=
  ∀ code text, result = .error (code, text) → code = 2010

theorem judged_refused {N : Type} (text : String) : Judged
    (refused text : Except (Nat × String) (Option (Stored N))) := by
  rintro code reason ⟨⟩
  rfl

theorem judged_accepted {N : Type} (value : Stored N) : Judged (accepted value) := fun _ _ is => by cases is

theorem normalize_judged {N : Type} [Numerals N] (type : FieldType) (choices : List Choice) (raw : Raw N) :
    Judged (normalize type choices raw) := by
  unfold normalize
  split
  · exact fun _ _ is => by cases is
  · split
    all_goals split
    all_goals first | exact judged_accepted _ | exact judged_refused _ | split
    all_goals first | exact judged_accepted _ | exact judged_refused _

theorem normalizeValue_judged (type : FieldType) (choices : List Choice) (raw : Json) :
    Judged (normalizeValue type choices raw) := by
  intro code text is
  rw [normalizeValue_eq] at is
  cases judged : normalize type choices (rawOf raw) with
  | ok value => simp [judged, Except.map] at is
  | error refusal =>
    rw [judged] at is
    cases is
    exact normalize_judged type choices (rawOf raw) code text judged

-- Reading the entries of an item gives what it sends, or a refusal for one of its fields.
theorem readEntries_reads (definitions : Definitions) (entries : List (String × Json)) (p : Pending) :
    (∃ set, sentOf definitions keyId entries = some set ∧
      readEntries definitions keyId entries p = { p with set := p.set ++ set }) ∨
      RefusedFor entries p (readEntries definitions keyId entries p) := by
  induction entries generalizing p with
  | nil => exact .inl ⟨[], rfl, by simp [readEntries]⟩
  | cons entry rest ih =>
    obtain ⟨k, raw⟩ := entry
    by_cases skipped : k = "id" ∧ keyId = "id"
    · simp only [readEntries, sentOf, if_pos skipped]
      exact (ih p).imp_right fun refused => refused.later rfl
    · simp only [readEntries, sentOf, if_neg skipped]
      cases (if isFieldId k then definitions.get (fieldNumber k) else none) with
      | none => exact .inr (refusedFor_here rest k raw p (by decide) _)
      | some definition =>
        dsimp only
        split
        · exact .inr (refusedFor_here rest k raw p (by decide) _)
        · cases judged : normalizeValue definition.type definition.choices raw with
          | error refusal =>
            have code : refusal.1 ∈ refusals := by
              rw [normalizeValue_judged definition.type definition.choices raw refusal.1 refusal.2 judged]
              decide
            exact .inr (refusedFor_here rest k raw p code _)
          | ok sent =>
            rcases ih { p with set := p.set ++ [(k, sent)] } with ⟨set, gives, reads⟩ | refused
            · exact .inl ⟨(k, sent) :: set, by simp [gives], by simp [reads]⟩
            · exact .inr (refused.later rfl)

theorem readItem_stage (definitions : Definitions) (stage : Stage keyId items (fun _ p => Fresh p) p) :
    Stage keyId items (Read definitions keyId) (readItem definitions keyId items p) ∧
      (readItem definitions keyId items p).r.index = p.r.index := by
  obtain ⟨item, there, key, stands⟩ := stage.stands
  have entries : (items[p.r.index]?.map Item.entries).getD [] = item.entries := by rw [there]; rfl
  rw [readItem, entries]
  rcases readEntries_reads definitions item.entries p with ⟨set, gives, reads⟩ | ⟨q, same, code, text,
    k, known, among, fails⟩
  · rw [reads]
    refine ⟨⟨item, there, key, stands.imp_right fun ⟨fine, fresh⟩ =>
      ⟨fine, fresh.id, fresh.created, fresh.changed, ?_⟩⟩, rfl⟩
    rw [gives, fresh.set, List.nil_append]
  · rw [fails]
    have index : (q.fail code text (some k)).r.index = p.r.index := by simp [Pending.fail, same]
    refine ⟨⟨item, by rwa [index], by simpa [Pending.fail, same] using key, .inl ?_⟩, index⟩
    exact refused_fail q.r known text fun other is => Option.some.inj is ▸ among

/-- An item with its contact, existing or to be created. -/
structure Assigned (definitions : Definitions) (keyId : String) (mode : WriteMode) (item : Item)
    (p : Pending) : Prop where
  id : ∃ id, p.r.id = some id
  changed : p.r.changed = []
  sent : sentOf definitions keyId item.entries = some p.set
  creates : p.r.created = true → mode ≠ .update ∧ keyId ≠ "id"
  finds : p.r.created = false → mode ≠ .create

/-- The pending items after a stage, in the same order. -/
def Staged (keyId : String) (items : List Item) (ready : Item → Pending → Prop) (indexes : List Nat)
    (pending : List Pending) : Prop :=
  (∀ p ∈ pending, Stage keyId items ready p) ∧ pending.map (fun p => p.r.index) = indexes

theorem Staged.cons {ready : Item → Pending → Prop} {index : Nat} {indexes : List Nat} {rest : List Pending}
    (stage : Stage keyId items ready p)
    (same : p.r.index = index) (staged : Staged keyId items ready indexes rest) :
    Staged keyId items ready (index :: indexes) (p :: rest) :=
  ⟨List.forall_mem_cons.mpr ⟨stage, staged.1⟩, by simp [same, staged.2]⟩

theorem Staged.nil {ready next : Item → Pending → Prop} {indexes : List Nat}
    (staged : Staged keyId items ready indexes []) :
    Staged keyId items next indexes [] := ⟨fun p member => (by cases member), staged.2⟩

theorem Staged.map {ready next : Item → Pending → Prop} {indexes : List Nat} {pending : List Pending}
    (staged : Staged keyId items ready indexes pending)
    {f : Pending → Pending} (goes : ∀ p ∈ pending, Stage keyId items ready p → Stage keyId items next (f p) ∧
      (f p).r.index = p.r.index) :
    Staged keyId items next indexes (pending.map f) := by
  refine ⟨fun p member => ?_, ?_⟩
  · obtain ⟨q, among, rfl⟩ := List.mem_map.mp member
    exact (goes q among (staged.1 q among)).1
  · rw [← staged.2, List.map_map]
    apply List.map_congr_left
    intro q among
    exact (goes q among (staged.1 q among)).2

theorem assignIds_staged (definitions : Definitions) (mode : WriteMode) (found : List (String × Uuid))
    {indexes : List Nat}
    {pending : List Pending} (staged : Staged keyId items (Read definitions keyId) indexes pending) :
    (assignIds mode keyId found pending).Gives
    (Staged keyId items (Assigned definitions keyId mode) indexes) := by
  induction pending generalizing indexes with
  | nil => exact staged.nil
  | cons p rest ih =>
    obtain ⟨stage, others⟩ := List.forall_mem_cons.mp staged.1
    obtain ⟨index, more, rfl⟩ : ∃ index more, indexes = index :: more := ⟨_, _, staged.2.symm⟩
    obtain ⟨same, later⟩ := List.cons.inj staged.2
    obtain rfl : p.r.index = index := same
    -- the head is settled, the rest by induction
    have goes (q : Pending) (stage : Stage keyId items (Assigned definitions keyId mode) q)
      (same : q.r.index = p.r.index) :
        (assignIds mode keyId found rest >>= fun others => pure (q :: others)).Gives
          (Staged keyId items (Assigned definitions keyId mode) (p.r.index :: more)) :=
      Script.Gives.bind (ih ⟨others, later⟩) fun done staged => Staged.cons stage same staged
    rw [assignIds]
    cases valid : p.valid with
    | false =>
      rw [Bool.not_false, if_pos rfl]
      exact goes p (stage.of_invalid valid) rfl
    | true =>
      rw [Bool.not_true, if_neg (by decide)]
      obtain ⟨item, there, key, fine, read⟩ := stage.ready valid
      cases found.lookup p.key with
      | some id =>
        dsimp only
        split
        · exact goes (p.fail 2012 "contact already exists" none) (stage.refuse (by decide) _
            fun _ _ k is => by cases is) rfl
        · next writes =>
          refine goes { p with r := { p.r with id := some id, created := false } } ⟨item, there,
            key, .inr ⟨fine, ?_⟩⟩ rfl
          exact ⟨⟨id, rfl⟩, read.changed, read.sent, Bool.noConfusion, fun _ => writes⟩
      | none =>
        dsimp only
        split
        · exact goes (p.fail 2008 "contact not found" none) (stage.refuse (by decide) _
            fun _ _ k is => by cases is) rfl
        · next writes =>
          intro id
          refine goes { p with r := { p.r with id := some id, created := true } } ⟨item, there,
            key, .inr ⟨fine, ?_⟩⟩ rfl
          exact ⟨⟨id, rfl⟩, read.changed, read.sent, fun _ => not_or.mp writes, Bool.noConfusion⟩

theorem sentOf_keys {definitions : Definitions} {entries : List (String × Json)}
    {set : List (String × Option Value)}
    (sent : sentOf definitions keyId entries = some set) :
    (set.map Prod.fst).Sublist (entries.map Prod.fst) := by
  induction entries generalizing set with
  | nil =>
    cases sent
    exact .slnil
  | cons entry rest ih =>
    obtain ⟨k, raw⟩ := entry
    by_cases skipped : k = "id" ∧ keyId = "id"
    · rw [sentOf, if_pos skipped] at sent
      exact (ih sent).cons k
    · rw [sentOf, if_neg skipped] at sent
      cases found : (if isFieldId k then definitions.get (fieldNumber k) else none) with
      | none => simp [found] at sent
      | some definition =>
        simp only [found] at sent
        split at sent
        · cases sent
        · split at sent
          · cases sent
          · obtain ⟨more, gives, rfl⟩ := Option.map_eq_some_iff.mp sent
            exact (ih gives).cons_cons k

theorem setText_sent {definitions : Definitions} {fieldId value : String}
    (sent : sentOf definitions keyId item.entries = some p.set)
    (is : setText fieldId p = some value) : fieldId ∈ item.entries.map Prod.fst := by
  rw [setText] at is
  split at is
  · next found joined =>
    have there : (fieldId, some found) ∈ p.set := mem_of_lookup (Option.join_eq_some_iff.mp joined)
    exact (sentOf_keys sent).subset (List.mem_map_of_mem there)
  · cases is

theorem checkSetters_staged (definitions : Definitions) (mode : WriteMode) (fieldId : String)
    (owners : List (String × Uuid)) (seen : List String) {indexes : List Nat} {pending : List Pending}
    (staged : Staged keyId items (Assigned definitions keyId mode) indexes pending) :
    Staged keyId items (Assigned definitions keyId mode) indexes
    (checkSetters core fieldId owners seen pending) := by
  induction pending generalizing indexes seen with
  | nil => exact staged
  | cons p rest ih =>
    obtain ⟨stage, others⟩ := List.forall_mem_cons.mp staged.1
    obtain ⟨index, more, rfl⟩ : ∃ index more, indexes = index :: more := ⟨_, _, staged.2.symm⟩
    obtain ⟨same, later⟩ := List.cons.inj staged.2
    have goes := fun seen => ih seen ⟨others, later⟩
    rw [checkSetters]
    split
    · exact (goes seen).cons stage same
    · next value is =>
      have valid : p.valid = true := by
        by_contra invalid
        simp [invalid] at is
      rw [if_pos valid] at is
      obtain ⟨item, there, key, fine, assigned⟩ := stage.ready valid
      have sends (other : Item) (at_ : items[p.r.index]? = some other) : ∀ k, some fieldId = some k →
          k ∈ other.entries.map Prod.fst := by
        intro k same
        cases there.symm.trans at_
        exact Option.some.inj same ▸ setText_sent assigned.sent is
      have refuse {code : Nat} (known : code ∈ refusals) (text : String) :
          Stage keyId items (Assigned definitions keyId mode) (p.fail code text (some fieldId)) :=
            stage.refuse known text sends
      refine (goes _).cons ?_ ?_
      · split
        · exact refuse (by decide) _
        · split
          · split
            · exact refuse (by decide) _
            · exact stage
          · exact stage
      · split
        · exact same
        · split
          · split <;> exact same
          · exact same

theorem checkUnique_staged (core : Core) (definitions all : Definitions) (mode : WriteMode) (process : Nat)
    {indexes : List Nat}
    {pending : List Pending} (staged : Staged keyId items (Assigned definitions keyId mode) indexes pending) :
    (checkUnique core process keyId all pending).Gives
    (Staged keyId items (Assigned definitions keyId mode) indexes) := by
  induction all generalizing pending with
  | nil => exact staged
  | cons definition rest ih =>
    rw [checkUnique]
    dsimp only
    split
    · exact ih staged
    · split
      · exact ih staged
      · refine Script.Gives.bind (Script.gives_any _) fun owners _ => ?_
        exact ih (checkSetters_staged definitions mode _ owners [] staged)

/-! ## What is written -/

theorem merge_kept {set : List (String × Option Value)} {k : String} (absent : k ∉ set.map Prod.fst)
    (old : Data) : merge old set k = old k := by
  induction set generalizing old with
  | nil => rfl
  | cons entry rest ih =>
    obtain ⟨other, value⟩ := entry
    obtain ⟨differs, later⟩ := not_or.mp fun member => absent (List.mem_cons.mpr member)
    cases value with
    | some value => exact (ih later (old.set other value)).trans (Function.update_of_ne differs _ _)
    | none => exact (ih later (old.erase other)).trans (Function.update_of_ne differs _ _)

theorem merge_sent {set : List (String × Option Value)} (distinct : (set.map Prod.fst).Nodup) {k : String}
    {value : Option Value} (member : (k, value) ∈ set) (old : Data) : merge old set k = value := by
  induction set generalizing old with
  | nil => cases member
  | cons entry rest ih =>
    obtain ⟨other, first⟩ := entry
    obtain ⟨absent, later⟩ := List.nodup_cons.mp distinct
    rcases List.mem_cons.mp member with is | more
    · cases is
      cases value with
      | some value => exact (merge_kept absent (old.set k value)).trans (Function.update_self ..)
      | none => exact (merge_kept absent (old.erase k)).trans (Function.update_self ..)
    · cases first with
      | some first => exact ih later more (old.set other first)
      | none => exact ih later more (old.erase other)

/-- The answer to a batch: one result for each item, in order, refused or as `done` says. -/
structure Reports (keyId : String) (items : List Item) (done : Item → ItemResult → Prop)
    (results : List ItemResult) : Prop where
  indexes : results.map ItemResult.index = List.range items.length
  each : ∀ r ∈ results, ∃ item, items[r.index]? = some item ∧ r.key = keyOf keyId item ∧
    (Refused item r ∨ r.error = none ∧ done item r)

theorem Reports.mono {done weaker : Item → ItemResult → Prop} {answered : List ItemResult}
    (reported : Reports keyId items done answered)
    (imp : ∀ r ∈ answered, ∀ item, done item r → weaker item r) : Reports keyId items weaker answered := by
  refine ⟨reported.indexes, fun r member => ?_⟩
  obtain ⟨item, there, key, stands⟩ := reported.each r member
  exact ⟨item, there, key, stands.imp_right fun ⟨fine, is⟩ => ⟨fine, imp r member item is⟩⟩

-- What a result comes from: a pending item with its index, or `keyed`.
theorem mem_results {all : List ItemResult} {pending : List Pending} {r : ItemResult}
    (member : r ∈ results all pending) :
    (∃ p ∈ pending, p.r = r) ∨ r ∈ all ∧ ∀ p ∈ pending, p.r.index ≠ r.index := by
  obtain ⟨first, among, rfl⟩ := List.mem_map.mp member
  cases found : pending.find? fun p => p.r.index == first.index with
  | some p => exact .inl ⟨p, List.mem_of_find?_eq_some found, rfl⟩
  | none => exact .inr ⟨among, fun p is same => by simpa [same] using List.find?_eq_none.mp found p is⟩

theorem results_index (all : List ItemResult) (pending : List Pending) :
    (results all pending).map ItemResult.index = all.map ItemResult.index := by
  rw [results, List.map_map]
  apply List.map_congr_left
  intro r _
  cases found : pending.find? fun p => p.r.index == r.index with
  | some p => simpa [found] using List.find?_some found
  | none => simp [found]

-- A result is that of a pending item, or `keyed` has refused it.
theorem results_from {all : List ItemResult} {first pending : List Pending}
    (opens : Opens keyId items all first)
    (same : pending.map (fun p => p.r.index) = first.map fun p => p.r.index) {r : ItemResult}
    (member : r ∈ results all pending) :
    (∃ p ∈ pending, p.r = r) ∨ ∃ item, items[r.index]? = some item ∧
    r.key = keyOf keyId item ∧ Refused item r := by
  rcases mem_results member with from_ | ⟨early, apart⟩
  · exact .inl from_
  · rcases opens.rest r early with ⟨p, among, index⟩ | refused
    · have still : r.index ∈ pending.map fun p => p.r.index := by
        rw [same, ← index]
        exact List.mem_map_of_mem among
      obtain ⟨q, later, is⟩ := List.mem_map.mp still
      exact absurd is (apart q later)
    · exact .inr refused

theorem results_report {all : List ItemResult} {first pending : List Pending}
    (opens : Opens keyId items all first)
    {done : Item → ItemResult → Prop}
    (staged : Staged keyId items (fun item p => done item p.r) (first.map fun p => p.r.index) pending) :
    Reports keyId items done (results all pending) := by
  refine ⟨(results_index all pending).trans opens.indexes, fun r member => ?_⟩
  rcases results_from opens staged.2 member with ⟨p, among, rfl⟩ | ⟨item, there, key, refused⟩
  · exact (staged.1 p among).stands
  · exact ⟨item, there, key, .inl refused⟩

end Items

end OpenEmarsys.Contacts
