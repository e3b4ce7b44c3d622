import OpenEmarsys.Relational.Tables

/-! The columns of a table while calls add to them.

A call writes the whole list back, so it erases what others have added since it read the list. As
long as the columns of a table do not change between a call's read and its write, columns only come,
and their names stay distinct.
-/

set_option autoImplicit false

namespace OpenEmarsys.Relational

open Interleaving Javascript

def names (columns : List Column) : List String := columns.map Column.name

def Distinct (tables : Tables) : Prop := ∀ table ∈ tables, (names table.columns).Nodup

/-- What is left of a table when no column of it is lost. -/
def Keeps (before now : Table) : Prop := now.id = before.id ∧ ∀ column ∈ before.columns, column ∈ now.columns

/-- No table loses a column, and names stay distinct. -/
structure Grows (tables next : Tables) : Prop where
  kept : ∀ id table, tables.get id = some table → ∃ now, next.get id = some now ∧ Keeps table now
  distinct : Distinct tables → Distinct next

theorem Grows.refl (tables : Tables) : Grows tables tables :=
  ⟨fun _ table found => ⟨table, found, rfl, fun _ here => here⟩, id⟩

theorem Grows.trans {first second third : Tables} (before : Grows first second) (after : Grows second third) :
    Grows first third where
  kept id table found := by
    obtain ⟨middle, there, same, kept⟩ := before.kept id table found
    obtain ⟨now, last, still, kept'⟩ := after.kept id middle there
    exact ⟨now, last, still.trans same, fun column here => kept' column (kept column here)⟩
  distinct holds := after.distinct (before.distinct holds)

theorem get_id {tables : Tables} {id : Uuid} {table : Table}
    (found : tables.get id = some table) : table.id = id := by
  simpa using List.find?_some found

theorem get_mem {tables : Tables} {id : Uuid} {table : Table}
    (found : tables.get id = some table) : table ∈ tables :=
  List.mem_of_find?_eq_some found

theorem get_write (tables : Tables) (id other : Uuid) (name : Option String) (columns : List Column) :
    (tables.write id name columns).get other =
      (tables.get other).map fun table => if table.id = id then table.write name columns else table := by
  unfold Tables.write Tables.get
  rw [List.find?_map]
  congr 2
  funext table
  dsimp only [Function.comp]
  split <;> rfl

theorem grows_write {tables : Tables} {id : Uuid} {name : Option String} {columns : List Column}
    (knows : ∀ table, tables.get id = some table → ∀ column ∈ table.columns, column ∈ columns)
    (apart : (names columns).Nodup) :
    Grows tables (tables.write id name columns) where
  kept other table found := by
    rw [get_write, found]
    by_cases same : table.id = id
    · have own : tables.get id = some table := by
        rw [← same, get_id found]
        exact found
      exact ⟨_, congrArg some (if_pos same), rfl, knows table own⟩
    · exact ⟨_, congrArg some (if_neg same), rfl, fun _ here => here⟩
  distinct holds table member := by
    obtain ⟨old, there, same⟩ := List.mem_map.mp member
    subst same
    split
    · exact apart
    · exact holds old there

/-- No call writes a table whose columns have changed since it read them. -/
def undisturbed : Rules Update Act State where
  act pid act state :=
    match act with
    | .findUnique _ => True
    | .update id _ _ => state.seen pid = state.changes id

/-- The others let columns grow, count every change, and leave what a process has seen. -/
structure Alongside (pid : Nat) (state next : State) : Prop where
  grows : Grows state.tables next.tables
  seen : next.seen pid = state.seen pid
  counts : ∀ id, state.changes id ≤ next.changes id
  same : ∀ id, next.changes id = state.changes id → next.tables.columns id = state.tables.columns id

theorem Alongside.refl (pid : Nat) (state : State) : Alongside pid state state :=
  ⟨.refl _, rfl, fun _ => Nat.le_refl _, fun _ _ => rfl⟩

theorem Alongside.trans {pid : Nat} {first second third : State} (before : Alongside pid first second)
    (after : Alongside pid second third) : Alongside pid first third where
  grows := before.grows.trans after.grows
  seen := after.seen.trans before.seen
  counts id := (before.counts id).trans (after.counts id)
  same id still := by
    have early := before.counts id
    have late := after.counts id
    exact (after.same id (by omega)).trans (before.same id (by omega))

/-- The columns a process has read, as long as they have not changed. -/
structure Saw (pid : Nat) (id : Uuid) (columns : List Column) (state : State) : Prop where
  past : state.seen pid ≤ state.changes id
  current : state.seen pid = state.changes id → state.tables.columns id = some columns

theorem columnExists_false {columns added : List Column} (apart : (names columns).Nodup)
    (free : columnExists columns added = false) : (names (columns ++ added)).Nodup := by
  have each : ∀ i (inside : i < added.length),
      added[i].name ∉ names columns ∧ added.findIdx (fun o => o.name == added[i].name) = i := by
    intro i inside
    have member : (added[i], i) ∈ added.zipIdx :=
      List.mk_mem_zipIdx_iff_getElem?.mpr (List.getElem?_eq_getElem inside)
    have fine := List.any_eq_false.mp free _ member
    simpa [names] using fine
  have new : (names added).Nodup := by
    apply List.pairwise_iff_getElem.mpr
    intro i j _ inside before same
    have inside : j < added.length := by simpa [names] using inside
    have earlier : i < added.findIdx (fun o => o.name == added[j].name) := by
      rw [(each j inside).2]
      exact before
    have differs := List.not_of_lt_findIdx earlier
    simp only [names, List.getElem_map] at same
    simp [same] at differs
  rw [names, List.map_append, List.nodup_append']
  refine ⟨apart, new, fun name old added_ => ?_⟩
  obtain ⟨column, member, same⟩ := List.mem_map.mp added_
  obtain ⟨i, inside, is⟩ := List.getElem_of_mem member
  subst is
  exact (each i inside).1 (same ▸ old)

theorem columns_discipline : Discipline machine undisturbed Alongside
    (fun state => Distinct state.tables) fun _ _ => True where
  refl := .refl
  trans := .trans
  inv holds along := along.grows.distinct holds
  idle _ _ _ := trivial
  disturb _ _ taken := by cases taken
  crash _ _ _ _ := .refl _ _

theorem saw_stable (pid : Nat) (id : Uuid) (columns : List Column) :
    Stable Alongside (fun state => Distinct state.tables) pid (Saw pid id columns) := by
  intro state next _ saw along
  have early := along.counts id
  refine ⟨along.seen ▸ saw.past.trans early, fun still => ?_⟩
  -- nothing has changed since, so nothing has changed now
  have then_ : state.seen pid = state.changes id := by
    have past := saw.past
    rw [along.seen] at still
    omega
  exact (along.same id (by rw [← still, along.seen, then_])).trans (saw.current then_)

abbrev Establishes {α : Type} (pid : Nat) (pre : State → Prop) (script : RelationalScript α)
    (post : Except Failure α → State → Prop) : Prop :=
  Triple machine undisturbed Alongside (fun state => Distinct state.tables) pid pre script post

theorem machine_act {pid : Nat} {act : Act} {choice : Choice} {state next : State} {reply : Reply act}
    (taken : machine.act pid act choice state = some (reply, next)) :
    ∃ tables, answer state.tables act choice = some (reply, tables) ∧ next = state.after pid act tables := by
  obtain ⟨⟨found, tables⟩, answered, same⟩ := Option.map_eq_some_iff.mp taken
  cases same
  exact ⟨tables, answered, rfl⟩

-- A table that is found has the columns the process has read from now on, until they change.
theorem findUnique_saw {id : Uuid} {choice : Choice} {state next : State} {pid : Nat}
    {found : Except DbError (Option Table)}
    (taken : machine.act pid (.findUnique id) choice state = some (found, next)) :
    (∀ other, other ≠ pid → Alongside other state next) ∧
      ∀ table, found = .ok (some table) → table ∈ state.tables ∧ Saw pid id table.columns next := by
  obtain ⟨tables, answered, rfl⟩ := machine_act taken
  have same : tables = state.tables ∧ ∀ table, found = .ok (some table) →
      state.tables.get id = some table := by
    cases choice with
    | answer =>
      cases answered
      exact ⟨rfl, fun table is => Except.ok.inj is⟩
    | fail =>
      cases answered
      exact ⟨rfl, fun table is => by cases is⟩
    | lose => cases answered
  obtain ⟨rfl, there⟩ := same
  refine ⟨fun other distinct => ⟨.refl _, Function.update_of_ne distinct .., fun _ => Nat.le_refl _,
    fun _ _ => rfl⟩, fun table is => ?_⟩
  have here := there table is
  refine ⟨get_mem here, (Function.update_self ..).le, fun _ => ?_⟩
  rw [Tables.columns, State.after, here]
  rfl

-- What a write does to the tables: it stores its columns, or nothing changes and it fails, or its
-- reply is lost.
theorem update_cases {id : Uuid} {name : Option String} {columns : List Column} {choice : Choice}
    {tables next : Tables}
    {row : Except DbError Table} (taken : answer tables (.update id name columns) choice = some (row, next)) :
    (next = tables ∧ ∀ table, row ≠ .ok table) ∨ next = tables.write id name columns ∧
    ∃ old, tables.get id = some old := by
  simp only [answer] at taken
  split at taken
  · cases taken
    exact .inl ⟨rfl, fun table same => by cases same⟩
  · next old here =>
    split at taken
    · cases taken
      exact .inl ⟨rfl, fun table same => by cases same⟩
    · cases choice with
      | answer =>
        cases taken
        exact .inr ⟨rfl, old, here⟩
      | fail =>
        cases taken
        exact .inl ⟨rfl, fun table same => by cases same⟩
      | lose =>
        cases taken
        exact .inr ⟨rfl, old, here⟩

theorem columns_write_other {tables : Tables} {id other : Uuid} (distinct : other ≠ id) (name : Option String)
    (columns : List Column) :
    (tables.write id name columns).columns other = tables.columns other := by
  rw [Tables.columns, Tables.columns, get_write, Option.map_map]
  refine Option.map_congr fun table found => ?_
  have apart : table.id ≠ id := fun same => distinct ((get_id found).symm.trans same)
  rw [Function.comp_apply, if_neg apart]

theorem update_alongside {pid : Nat} {id : Uuid} {name : Option String} {columns : List Column}
    {choice : Choice} {state next : State} {row : Except DbError Table}
    (taken : machine.act pid (.update id name columns) choice state = some (row, next))
    (kept : ∀ current, state.tables.columns id = some current → ∀ column ∈ current, column ∈ columns)
    (apart : (names columns).Nodup) :
    (∀ other, Alongside other state next) ∧ ∀ table, row = .ok table → ∃ now, next.tables.get id = some now ∧
    now.columns = columns := by
  obtain ⟨tables, answered, rfl⟩ := machine_act taken
  rcases update_cases answered with ⟨rfl, failed⟩ | ⟨rfl, old, here⟩
  · refine ⟨fun other => ?_, fun table same => absurd same (failed table)⟩
    simpa only [State.after, if_true] using Alongside.refl other state
  · have grows : Grows state.tables (state.tables.write id name columns) := by
      refine grows_write (fun table found => kept _ ?_) apart
      rw [Tables.columns, found]
      rfl
    have written : (state.tables.write id name columns).get id = some (old.write name columns) := by
      rw [get_write, here]
      exact congrArg some (if_pos (get_id here))
    have left : (state.after pid (.update id name columns) (state.tables.write id name columns)).tables =
        state.tables.write id name columns := by
      simp only [State.after]
      split <;> rfl
    refine ⟨fun other => ?_, fun table _ => ⟨old.write name columns, by rw [left, written], rfl⟩⟩
    by_cases same : (state.tables.write id name columns).columns id = state.tables.columns id
    · rw [State.after, if_pos same]
      refine ⟨grows, rfl, fun _ => Nat.le_refl _, fun found _ => ?_⟩
      by_cases is : found = id
      · rw [is]
        exact same
      · exact columns_write_other is name columns
    · rw [State.after, if_neg same]
      refine ⟨grows, rfl, fun found => ?_, fun found still => ?_⟩
      · by_cases is : found = id
        · subst is
          simp
        · simp [is]
      · by_cases is : found = id
        · subst is
          simp at still
        · exact columns_write_other is name columns

def Has (id : Uuid) (columns : List Column) (tables : Tables) : Prop :=
  ∃ now, tables.get id = some now ∧ ∀ column ∈ columns, column ∈ now.columns

theorem Has.grows {tables next : Tables} (grown : Grows tables next) {id : Uuid} {columns : List Column}
    (has : Has id columns tables) : Has id columns next := by
  obtain ⟨table, found, all⟩ := has
  obtain ⟨now, there, _, kept⟩ := grown.kept id table found
  exact ⟨now, there, fun column member => kept column (all column member)⟩

section Scripts
variable {pid : Nat}

def Read (pid : Nat) (id : Uuid) (result : Except Failure (Option Table)) (state : State) : Prop :=
  ∀ table, result = .ok (some table) → (names table.columns).Nodup ∧ Saw pid id table.columns state

theorem read_stable (id : Uuid) (result : Except Failure (Option Table)) :
    Stable Alongside (fun state => Distinct state.tables) pid (Read pid id result) :=
  fun state next distinct read along table same =>
    ⟨(read table same).1, saw_stable pid id table.columns state next distinct (read table same).2 along⟩

theorem findUnique_establishes (id : Uuid) : Establishes pid (fun _ => True) (findUnique id)
    (Read pid id) := by
  refine Triple.call columns_discipline (fun (found : Except DbError (Option Table)) state =>
    ∀ table, found = .ok (some table) → (names table.columns).Nodup ∧
      Saw pid id table.columns state) Stable.true_ ?_ fun found => ?_
  · intro state distinct _ _ choice found next taken
    obtain ⟨along, saw⟩ := findUnique_saw taken
    exact ⟨along, fun table is => ⟨distinct table (saw table is).1, (saw table is).2⟩⟩
  · cases found with
    | ok found =>
      refine Triple.ret_of columns_discipline (read_stable id _) fun state _ known table same => ?_
      cases same
      exact known table rfl
    | error error =>
      refine Triple.fail_of columns_discipline (read_stable id _) fun state _ known table same => ?_
      cases same

theorem find_establishes (id : String) : Establishes pid (fun _ => True) (find id)
    (Read pid (uuidOf id)) := by
  unfold find
  split
  · exact findUnique_establishes (uuidOf id)
  · exact Triple.ret_of columns_discipline (read_stable _ _) fun state _ _ table same => by cases same

theorem get_establishes (id : String) : Establishes pid (fun _ => True) (get id) fun result state =>
    ∀ table, result = .ok table → (names table.columns).Nodup ∧ Saw pid (uuidOf id) table.columns state := by
  have stable (result : Except Failure Table) :
      Stable Alongside (fun state => Distinct state.tables) pid fun state =>
      ∀ table, result = .ok table → (names table.columns).Nodup ∧ Saw pid (uuidOf id) table.columns state :=
    fun state next distinct held along table same =>
      ⟨(held table same).1, saw_stable pid _ table.columns state next distinct (held table same).2 along⟩
  refine Triple.bind columns_discipline (fun found => Read pid (uuidOf id) (.ok found))
    ((find_establishes id).weaken fun result state _ read => ?_) fun found => ?_
  · cases result with
    | ok found => exact read
    | error error => exact fun table same => by cases same
  · cases found with
    | some table =>
      refine Triple.ret_of columns_discipline (stable _) fun state _ read other same => ?_
      cases same
      exact read table rfl
    | none => exact Triple.fail_of columns_discipline (stable _) fun state _ _ table same => by cases same

def Added (id : Uuid) (columns : List Column) (result : Except Failure Table) (state : State) : Prop :=
  ∀ table, result = .ok table → Has id columns state.tables

theorem added_stable (id : Uuid) (columns : List Column) (result : Except Failure Table) :
    Stable Alongside (fun state => Distinct state.tables) pid (Added id columns result) :=
  fun _ _ _ added along table same => (added table same).grows along.grows

-- Writing what was read and some more: by the rules nothing has changed in between.
theorem saveColumns_establishes (id : Uuid) (input : TableUpdate) (read added : List Column)
    (apart : (names (read ++ added)).Nodup) :
    Establishes pid (Saw pid id read) (saveColumns id input (read ++ added)) (Added id (read ++ added)) := by
  refine Triple.call columns_discipline
    (fun (row : Except DbError Table) state => ∀ table, row = .ok table → Has id (read ++ added) state.tables)
    (saw_stable pid id read) ?_ fun row => ?_
  · intro state _ saw still choice row next taken
    have kept : ∀ current, state.tables.columns id = some current →
        ∀ column ∈ current, column ∈ read ++ added := by
      intro current found column member
      rw [saw.current still] at found
      cases found
      exact List.mem_append_left _ member
    obtain ⟨along, written⟩ := update_alongside taken kept apart
    refine ⟨fun other _ => along other, fun table same => ?_⟩
    obtain ⟨now, found, are⟩ := written table same
    exact ⟨now, found, fun column member => are ▸ member⟩
  · cases row with
    | ok table =>
      exact Triple.ret_of columns_discipline (added_stable id _ _) fun state _ has other same => has table rfl
    | error error =>
      exact Triple.fail_of columns_discipline (added_stable id _ _) fun state _ _ other same => by cases same

theorem update_establishes (id : String) (input : TableUpdate) :
    Establishes pid (fun _ => True) (update id input) (Added (uuidOf id) input.added) := by
  refine Triple.bind columns_discipline (fun table state => (names table.columns).Nodup ∧
    Saw pid (uuidOf id) table.columns state)
    ((get_establishes id).weaken fun result state _ read => ?_) fun table => Triple.fact fun apart => ?_
  · cases result with
    | ok table => exact read table rfl
    | error error => exact fun table same => by cases same
  · cases free : columnExists table.columns input.added with
    | true =>
      exact Triple.fail_of columns_discipline (added_stable _ _ _) fun state _ _ other same => by cases same
    | false =>
      refine (saveColumns_establishes (uuidOf id) input table.columns input.added
        (columnExists_false apart free)).weaken
        fun result state _ added other same => ?_
      obtain ⟨now, found, all⟩ := added other same
      exact ⟨now, found, fun column member => all column (List.mem_append_right _ member)⟩

end Scripts

/-! ## Runs -/

abbrev Running := Config Update Act Reply Failure Table State

/-- The columns that the table had, or that a call that returned has added. -/
def Expected (before : Table) (config : Running) (column : Column) : Prop :=
  column ∈ before.columns ∨
      ∃ pid call table, uuidOf call.id = before.id ∧ config.Ended pid call (.ok table) ∧
      column ∈ call.input.added

/-- Every expected column is there as it was, and names are distinct. -/
def NothingLost (first : Tables) (config : Running) : Prop :=
  ∀ id before, first.get id = some before → ∃ now, config.state.tables.get id = some now ∧
    (names now.columns).Nodup ∧
      ∀ column, Expected before config column →
      column ∈ now.columns ∧ ∀ other ∈ now.columns, other.name = column.name → other = column

def AllReturned (config : Running) : Prop :=
  ∀ pid, config.procs pid = .idle ∨ ∃ call table, config.Ended pid call (.ok table)

theorem eq_of_name {columns : List Column} (apart : (names columns).Nodup) {column other : Column}
    (here : column ∈ columns)
    (there : other ∈ columns) (same : other.name = column.name) : other = column :=
  List.inj_on_of_nodup_map apart there here same

/-- What holds of the tables all along a run. -/
def Grown (first : Tables) (state : State) : Prop := Distinct state.tables ∧ Grows first state.tables

theorem grown_discipline (first : Tables) : Discipline machine undisturbed Alongside
    (Grown first) fun _ _ => True where
  refl := .refl
  trans := .trans
  inv holds along := ⟨along.grows.distinct holds.1, holds.2.trans along.grows⟩
  idle _ _ _ := trivial
  disturb _ _ taken := by cases taken
  crash _ _ _ _ := .refl _ _

/-- As long as the columns of a table do not change between a call's read and its write, nothing is lost. -/
theorem columns_kept (first : Tables) (config : Running) (distinct : Distinct first)
    (run : machine.Reaches code undisturbed (.start { tables := first }) config) :
    NothingLost first config := by
  intro id before found
  have sound := (grown_discipline first).reaches
    (fun pid call state _ holds _ => update_establishes call.id call.input state holds.1 trivial) run
    ⟨⟨distinct, .refl first⟩, fun _ => trivial⟩
  obtain ⟨now, there, same, kept⟩ := sound.1.2.kept id before found
  have apart := sound.1.1 now (get_mem there)
  refine ⟨now, there, apart, fun column expected => ?_⟩
  have here : column ∈ now.columns := by
    rcases expected with old | ⟨pid, call, table, own, ended, added⟩
    · exact kept column old
    · have done := sound.2 pid
      rw [Config.Ended] at ended
      rw [ended] at done
      obtain ⟨other, found', all⟩ := (done config.state (.refl _ _)).2 table rfl
      rw [own, get_id found, there] at found'
      cases found'
      exact all column added
  exact ⟨here, fun other member same => eq_of_name apart here member same⟩

def email : Column := ⟨"email", .text, none⟩

def people : Tables := [⟨1, "people", "email", [email]⟩]

def adds (name : String) : Update :=
  ⟨"00000000-0000-0000-0000-000000000001", ⟨none, some [⟨name, .number, none⟩]⟩⟩

def together : List (Move Update Choice) :=
  [.spawn 0 (adds "age"), .spawn 1 (adds "size"), .act 0 .answer, .act 1 .answer,
    .act 0 .answer, .act 1 .answer]

def inTurn : List (Move Update Choice) :=
  [.spawn 0 (adds "age"), .act 0 .answer, .act 0 .answer, .spawn 1 (adds "size"),
    .act 1 .answer, .act 1 .answer]

theorem distinct_people : Distinct people := by
  intro table member
  rw [List.mem_singleton.mp member]
  decide

instance (pid : Nat) (act : Act) (state : State) : Decidable (undisturbed.act pid act state) := by
  cases act with
  | findUnique id => exact .isTrue trivial
  | update id name columns => exact inferInstanceAs (Decidable (state.seen pid = state.changes id))

theorem columns_kept_in_turn : ∃ config : Running, machine.Reaches code undisturbed
    (.start { tables := people }) config ∧
    (config.state.tables.get 1).map (fun table => names table.columns) = some ["email", "age", "size"] ∧
    NothingLost people config := by
  let allowed : Nat → Act → State → Bool := fun pid act state => decide (undisturbed.act pid act state)
  have runs : (machine.guarded code allowed inTurn (.start { tables := people })).map
      (fun config => (config.state.tables.get 1).map fun table => names table.columns) =
          some (some ["email", "age", "size"]) := by
    decide +kernel
  obtain ⟨config, ran, columns⟩ := Option.map_eq_some_iff.mp runs
  have reached : machine.Reaches code undisturbed (.start { tables := people }) config :=
    (machine.reaches_guarded code .refl inTurn ran).permitted (fun _ _ _ checked => of_decide_eq_true checked)
      (fun _ _ _ => trivial) (fun _ _ => trivial) fun _ _ => trivial
  exact ⟨config, reached, columns, columns_kept people config distinct_people reached⟩

/-- The first call returned, and its column is gone. -/
theorem column_erased : ¬ ∀ (first : Tables) (config : Running), Distinct first →
    machine.Reaches code {} (.start { tables := first }) config → AllReturned config →
    NothingLost first config := by
  intro keeps
  let row (added : String) : Table := ⟨1, "people", "email", [email, ⟨added, .number, none⟩]⟩
  have runs : (machine.moves code together (.start { tables := people })).map
      (fun config => (config.outcome 0, config.outcome 1, config.state.tables.get 1)) =
      some (some (adds "age", .inl (row "age")), some (adds "size", .inl (row "size")),
          some (row "size")) := by
    decide +kernel
  obtain ⟨config, ran, found⟩ := Option.map_eq_some_iff.mp runs
  obtain ⟨first, rest⟩ := Prod.mk.inj found
  obtain ⟨second, stored⟩ := Prod.mk.inj rest
  have returned : AllReturned config := by
    intro pid
    by_cases zero : pid = 0
    · exact .inr ⟨adds "age", row "age", zero ▸ ended_of_outcome first⟩
    · by_cases one : pid = 1
      · exact .inr ⟨adds "size", row "size", one ▸ ended_of_outcome second⟩
      · refine .inl (moves_other together ran fun move member => ?_)
        have mover : ∀ move ∈ together, move.pid = 0 ∨ move.pid = 1 := by decide
        rcases mover move member with is | is
        · rwa [is]
        · rwa [is]
  obtain ⟨now, there, -, kept⟩ :=
    keeps people config distinct_people (machine.reaches_moves code .refl together ran) returned 1 _ rfl
  rw [stored] at there
  cases there
  have expected : Expected ⟨1, "people", "email", [email]⟩ config ⟨"age", .number, none⟩ :=
    .inr ⟨0, adds "age", row "age", by decide +kernel, ended_of_outcome first, List.mem_singleton_self _⟩
  exact absurd (kept _ expected).1 (by decide)

end OpenEmarsys.Relational
