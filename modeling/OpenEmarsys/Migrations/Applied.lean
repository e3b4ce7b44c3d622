import OpenEmarsys.Migrations.Migrate

/-! Whether each file is applied once and in order, over all runs of any number of processes.

Only the commit of a transaction counts. One that executes a file has seen that its version is not
recorded, and commits only if the version still is not: two of them put the same key in the table of
versions. What a process has passed is recorded before it goes on to the next file.
-/

set_option autoImplicit false

namespace OpenEmarsys.Migrations

open Postgres Interleaving

def FS.versions (migrations : FS) : List String := migrations.files.map versionOf

theorem versionOf_suffix {name : String} (isSql_ : isSql name = true) :
    name = String.ofList ((versionOf name).toList ++ suffix) := by
  obtain ⟨rest, whole⟩ := List.isSuffixOf_iff_suffix.mp isSql_
  have taken : (versionOf name).toList = rest := by
    rw [versionOf, if_pos isSql_, ← whole]
    simp
  rw [taken, whole, String.ofList_toList]

theorem versions_nodup (migrations : FS) : migrations.versions.Nodup := by
  have files : migrations.files.Nodup :=
    (List.perm_insertionSort _ _).nodup_iff.mpr (migrations.distinct.filter _)
  refine List.Nodup.map_on (fun name here other there same => ?_) files
  have sql {name : String} (member : name ∈ migrations.files) : isSql name = true := by
    have found : name ∈ (migrations.entries.map Prod.fst).filter isSql := (List.mem_insertionSort _).mp member
    exact (List.mem_filter.mp found).2
  rw [versionOf_suffix (sql here), versionOf_suffix (sql there), same]

/-- What a commit does to the versions and the effects: nothing, or it adds those of the next file. -/
def Effect (migrations : FS) (_ : Log) (commit : Commit Row Label) : Prop :=
  (∀ row, tableOf row = Area.migrations → (row ∈ commit.after ↔ row ∈ commit.before)) ∨
      ∃ k name sqlBytes execution, migrations.files[k]? = some name ∧ migrations.readFile name = some sqlBytes ∧
      (∀ earlier ∈ migrations.versions.take k, Row.version earlier ∈ commit.before) ∧
      Row.version (versionOf name) ∉ commit.before ∧ Row.effects sqlBytes execution ∉ commit.before ∧
        ∀ row, tableOf row = Area.migrations →
        (row ∈ commit.after ↔ row ∈ commit.before ∨ row = .version (versionOf name) ∨
          row = .effects sqlBytes execution)

/-- The recorded versions are those of the first files, and the texts of these very files have been
executed, each once: these are the executions. -/
structure InOrder (migrations : FS) (executions : List (String × Nat)) (rows : List Row) : Prop where
  distinct : executions.Nodup
  texts : executions.map (fun execution => some execution.1) =
    (migrations.files.map migrations.readFile).take executions.length
  versions : ∀ version, Row.version version ∈ rows ↔ version ∈ migrations.versions.take executions.length
  effects : ∀ sqlBytes number, Row.effects sqlBytes number ∈ rows ↔ (sqlBytes, number) ∈ executions

-- A file that is not recorded while those before it are is the next one.
theorem next_file {migrations : FS} {name : String} {k length : Nat}
    (at_ : migrations.versions[k]? = some (versionOf name))
    (earlier : ∀ other ∈ migrations.versions.take k, other ∈ migrations.versions.take length)
    (absent : versionOf name ∉ migrations.versions.take length) : k = length := by
  obtain ⟨within, here⟩ := List.getElem?_eq_some_iff.mp at_
  rcases Nat.lt_trichotomy k length with before | same | after
  · exact absurd (List.mem_take_iff_getElem.mpr ⟨k, by omega, here⟩) absent
  · exact same
  · -- the version after the prefix would be in it
    have inside : migrations.versions[length] ∈ migrations.versions.take k :=
      List.mem_take_iff_getElem.mpr ⟨length, by omega, rfl⟩
    obtain ⟨index, bound, same⟩ := List.mem_take_iff_getElem.mp (earlier _ inside)
    have equal := (List.Nodup.getElem_inj_iff (versions_nodup migrations)).mp same
    omega

theorem inOrder_next {migrations : FS} {past : Log} {commit : Commit Row Label}
    {executions : List (String × Nat)}
    (before : InOrder migrations executions commit.before) (effect : Effect migrations past commit) :
    ∃ executions, InOrder migrations executions commit.after := by
  rcases effect with same | ⟨k, name, sqlBytes, execution, at_, read, earlier, absent, unseen, adds⟩
  · exact ⟨executions, before.distinct, before.texts, fun version =>
      (same _ rfl).trans (before.versions version),
      fun sqlBytes number => (same _ rfl).trans (before.effects sqlBytes number)⟩
  · have version : migrations.versions[k]? = some (versionOf name) := by simp [FS.versions, at_]
    obtain rfl : k = executions.length :=
      next_file version (fun other member => (before.versions other).mp (earlier other member))
      fun member => absent ((before.versions _).mpr member)
    refine ⟨executions ++ [(sqlBytes, execution)], ?_, ?_, fun other => ?_, fun other number => ?_⟩
    · refine List.nodup_append.mpr ⟨before.distinct, List.nodup_singleton _,
        fun old member new here same => ?_⟩
      rw [same, List.mem_singleton.mp here] at member
      exact unseen ((before.effects sqlBytes execution).mpr member)
    · rw [List.map_append, List.length_append, List.length_singleton, List.take_add_one, before.texts]
      simp [at_, read]
    · rw [adds _ rfl, before.versions, List.length_append, List.length_singleton, List.take_add_one, version]
      simp
    · rw [adds _ rfl, before.effects, List.mem_append]
      simp

section Journal
variable {migrations : FS} {first : List Row} {log : Log}

theorem inOrder_after (journal : Journal first (Effect migrations) log) {executions : List (String × Nat)}
    (initial : InOrder migrations executions first) : ∃ executions, InOrder migrations executions
    (rowsAfter first log) := by
  refine journal.invariant (fun log => ∃ executions, InOrder migrations executions (rowsAfter first log))
    ⟨executions, initial⟩ ?_
  rintro log commit _ before _ effect ⟨executions, here⟩
  rw [rowsAfter_append]
  exact inOrder_next (before ▸ here) effect

theorem version_stays {past : Log} (journal : Journal first (Effect migrations) log) (earlier : past <+: log)
    {version : String}
    (recorded : Row.version version ∈ rowsAfter first past) : Row.version version ∈ rowsAfter first log := by
  refine journal.invariant (fun log => past <+: log → Row.version version ∈ rowsAfter first log) ?_ ?_ earlier
  · exact fun within => List.prefix_nil.mp within ▸ recorded
  · intro log commit _ before _ effect ih within
    rcases List.prefix_concat_iff.mp within with rfl | shorter
    · exact recorded
    · have here := ih shorter
      rw [← before] at here
      rw [rowsAfter_append]
      rcases effect with same | ⟨k, name, sqlBytes, execution, -, -, -, -, -, adds⟩
      · exact (same _ rfl).mpr here
      · exact (adds _ rfl).mpr (.inl here)

end Journal

/-- The journal of a schema that started with these rows. -/
def chronicle (migrations : FS) (rows : List Row) : Chronicle Row Label World where
  first := rows
  Effect := Effect migrations
  Outside _ _ := True
  outside _ _ := trivial

section Calls
variable {migrations : FS} {first : List Row} {rules : Rules Unit (Action Row Label Request) State}
  {pid : Tid} {label : Label}
  {known : Log → Prop} {α : Type}

/-- What a script does to the log, and what is known of the log afterwards. -/
abbrev Learns {α : Type} (migrations : FS) (first : List Row)
    (rules : Rules Unit (Action Row Label Request) State) (pid : Tid)
    (known : Log → Prop) (script : MigrateScript α) (post : α → Log → Prop) : Prop :=
  (chronicle migrations first).Learns respond rules pid known script post

abbrev Makes {α : Type} (migrations : FS) (first : List Row)
    (rules : Rules Unit (Action Row Label Request) State) (pid : Tid)
    (pre : State → Prop) (script : MigrateScript α) (post : α → State → Prop) : Prop :=
  (chronicle migrations first).Makes respond rules pid pre script post

theorem learns_wrapped {text : String} {script : MigrateScript α} {post : α → Log → Prop}
    (learns : Learns migrations first rules pid known script post) :
    Learns migrations first rules pid known (wrapped text script) post :=
  Chronicle.Learns.handle learns fun _ => Chronicle.Learns.fail

theorem makes_wrapped {text : String} {script : MigrateScript α} {pre : State → Prop}
    {post : α → State → Prop} (makes : Makes migrations first rules pid pre script post) :
    Makes migrations first rules pid pre (wrapped text script) post := by
  refine Triple.handle ((chronicle migrations first).protocol.discipline respond rules) (fun _ _ => True)
    (makes.weaken fun result shared _ held => ?_) fun error => Stage.fail
  cases result with
  | ok value => exact held
  | error error => trivial

theorem learns_inSystemTx {body : MigrateScript α} (persists : Persists known) (last : α → State → Prop)
    (done : α → Log → Prop) (runs : ∀ opened, Makes migrations first rules pid
      (Stage.Here (chronicle migrations first) pid ⟨label, opened, [], .empty⟩ known) body
      fun value => Protocol.Unless pid (last value))
    (lasting : ∀ value, (chronicle migrations first).protocol.Lasting pid (last value))
    (commits : ∀ value shared, (chronicle migrations first).protocol.Inv shared → last value shared →
      let commit : Commit Row Label := ⟨pid, shared.server.rows, shared.server.txs pid⟩
      Effect migrations shared.server.log commit ∧ done value (shared.server.log ++ [commit]))
    (after : ∀ value, Persists (done value)) : Learns migrations first rules pid known
        (inSystemTx label body) done := by
  have committed : Learns migrations first rules pid known (inTx label body)
      fun given log => (given.2 = none → done given.1 log) ∧ True :=
    Stage.inTx persists last done (fun _ _ => True) (fun opened => (runs opened).weaken
        fun result shared _ held => by
      cases result with
      | ok value => exact ⟨held, trivial⟩
      | error error => trivial) lasting commits after fun _ => persists_const True
  unfold inSystemTx
  refine Chronicle.Learns.bind committed fun given => ?_
  obtain ⟨value, refused⟩ := given
  cases refused with
  | none => exact (Chronicle.Learns.ret (after value) fun _ _ => id).strengthen fun log held => held.1 rfl
  | some error => exact Chronicle.Learns.fail

theorem learns_ensureTable : Learns migrations first rules pid
    (fun _ => True) ensureTable fun _ _ => True := by
  let leaving : State → Prop := Chronicle.Leaving pid .ensure Area.migrations
  refine learns_inSystemTx (persists_const True) (fun _ => leaving) _ (fun opened => ?_)
    (fun _ => Chronicle.leaving_lasting) ?_
    fun _ => persists_const True
  · have creates (row : Row) (catalog : tableOf row = Area.catalog) :
        (chronicle migrations first).Spares respond rules pid .ensure Area.migrations (create row) := by
      refine Chronicle.Spares.bind (Chronicle.Spares.sql ?_) fun found => ?_
      · trivial
      · split
        · refine Chronicle.Spares.bind (Chronicle.Spares.sql fun other member => ?_)
            fun _ => Chronicle.Spares.ret ()
          rw [List.mem_singleton.mp member, catalog]
          exact fun same => by cases same
        · exact Chronicle.Spares.ret ()
    exact (Chronicle.Spares.bind (creates .schema rfl) fun _ => creates .schemaMigrations rfl).strengthen
      fun shared _ held => held.imp id Chronicle.leaving_begun
  · exact fun _ shared _ left => ⟨.inl fun row here => left.spares.view _ here, trivial⟩

def Recorded (first : List Row) (version : String) : Log → Prop :=
  Once fun past => Row.version version ∈ rowsAfter first past

def applied (version sqlBytes : String) (execution : Nat) : Contents Row :=
  (Contents.empty : Contents Row).set Area.migrations ⟨[], [.effects sqlBytes execution, .version version]⟩

-- The primary key admits a row that was inserted only if it was not there.
theorem absent_of_added {contents : Contents Row} {shared : State} {row : Row}
    (inv : (chronicle migrations first).protocol.Inv shared)
    (holding : Holding first pid label contents known shared) (nothing : (contents (tableOf row)).gone = [])
    (new : row ∈ (contents (tableOf row)).new) : row ∉ shared.server.rows := by
  intro present
  have kept : row ∈ shared.server.rows.filter fun row => !(shared.server.txs pid).removes row := by
    refine List.mem_filter.mpr ⟨present, ?_⟩
    rw [Bool.not_eq_true', Bool.eq_false_iff]
    intro removes
    obtain ⟨old, gone, -⟩ := (holding.in_.removed _).mp (Tx.removes_iff.mp removes)
    rw [show Tabled.table (primary row) = tableOf row from rfl, nothing] at gone
    cases gone
  have added : row ∈ (shared.server.txs pid).added := (holding.in_.added row).mpr new
  have apart := (List.pairwise_append.mp ((inv.1.fits pid).view_apart inv.1)).2.2 _ kept _ added
  exact absurd (clash_refl row) (by simpa [NoClash] using apart)

theorem effect_of_applied {name sqlBytes : String} {execution k : Nat} {shared : State}
    (inv : (chronicle migrations first).protocol.Inv shared) (at_ : migrations.files[k]? = some name)
    (read : migrations.readFile name = some sqlBytes)
    (holding : Holding first pid (.apply (versionOf name)) (applied (versionOf name) sqlBytes execution)
      (fun log => ∀ earlier ∈ migrations.versions.take k, Recorded first earlier log) shared) :
    Effect migrations shared.server.log ⟨pid, shared.server.rows, shared.server.txs pid⟩ := by
  have sees (row : Row) (here : tableOf row = Area.migrations) :
    row ∈ (shared.server.txs pid).view shared.server.rows ↔
      row ∈ shared.server.rows ∨ row = .effects sqlBytes execution ∨ row = .version (versionOf name) := by
    rw [holding.in_.view, Contents.Sees, here, applied, Contents.set_same]
    simp
  have left : applied (versionOf name) sqlBytes execution Area.migrations = ⟨[],
      [.effects sqlBytes execution, .version (versionOf name)]⟩ := by
    rw [applied, Contents.set_same]
  refine .inr ⟨k, name, sqlBytes, execution, at_, read, fun earlier member => ?_, ?_, ?_, fun row here => ?_⟩
  · obtain ⟨past, within, recorded⟩ := holding.knows earlier member
    exact inv.2.server ▸ version_stays inv.2.journal within recorded
  · refine absent_of_added inv holding ?_ ?_
      <;> rw [show tableOf (Row.version (versionOf name)) = Area.migrations from rfl, left]
    simp
  · refine absent_of_added inv holding ?_ ?_
      <;> rw [show tableOf (Row.effects sqlBytes execution) = Area.migrations from rfl, left]
    simp
  · exact (sees row here).trans (or_congr_right or_comm)

theorem recorded_persists (version : String) : Persists (Recorded first version) := once_persists _

/-- What a file leaves behind before its version is recorded. -/
def executed (sqlBytes : String) (execution : Nat) : Contents Row :=
  (Contents.empty : Contents Row).set Area.migrations ⟨[], [.effects sqlBytes execution]⟩

theorem makes_insert {contents : Contents Row} {row : Row} (persists : Persists known)
    (here : tableOf row = Area.migrations) :
    Makes migrations first rules pid (Has first pid label contents known)
    (sql (.insert [row] false) : MigrateScript (List Row))
      fun _ => Has first pid label (contents.set Area.migrations
        ⟨(contents Area.migrations).gone, (contents Area.migrations).new ++ [row]⟩) known := by
  apply Chronicle.Makes.insert Area.migrations persists
  intro other member
  rw [List.mem_singleton.mp member, here]

theorem makes_exec {touching : String → List (Statement Row)} {sqlBytes : String} (persists : Persists known)
    (alone : touching sqlBytes = []) :
    Makes migrations first rules pid (Has first pid label .empty known) (exec touching sqlBytes)
      fun _ => Protocol.Unless pid fun shared => ∃ execution, Holding first pid label
      (executed sqlBytes execution) known shared := by
  let last (shared : State) : Prop :=
    ∃ execution, Holding first pid label (executed sqlBytes execution) known shared
  have lasting : (chronicle migrations first).protocol.Lasting pid last := by
    rintro shared next inv later ⟨execution, holding⟩ same alongside grown
    exact ⟨execution, holding_lasting persists shared next inv later holding same alongside grown⟩
  refine Chronicle.Makes.bind (Chronicle.Makes.ask persists (Request.exec sqlBytes)
    fun _ _ _ _ _ _ => trivial) fun reply => ?_
  cases reply with
  | none => exact Stage.fail
  | some execution =>
    refine Chronicle.Makes.bind (makes_insert persists rfl) fun _ => ?_
    rw [alone]
    exact Chronicle.Makes.done last lasting fun shared _ holding =>
      ⟨execution, by
        simpa only [executed, Contents.empty_gone, Contents.empty_new, List.nil_append] using holding⟩

theorem makes_record (persists : Persists known) (version sqlBytes : String) (execution : Nat) :
    Makes migrations first rules pid (Has first pid label (executed sqlBytes execution) known)
      (sql (.insert [.version version] false) : MigrateScript (List Row)) fun _ =>
        Has first pid label (applied version sqlBytes execution) known := by
  have makes : Makes migrations first rules pid (Has first pid label (executed sqlBytes execution) known)
      (sql (.insert [.version version] false) : MigrateScript (List Row)) _ := makes_insert persists rfl
  simpa only [executed, applied, Contents.set_same, Contents.set_set, List.singleton_append] using makes

theorem learns_applyFile {touching : String → List (Statement Row)} {name : String} {k : Nat}
    (at_ : migrations.files[k]? = some name)
    (alone : ∀ sqlBytes, migrations.readFile name = some sqlBytes → touching sqlBytes = []) :
    Learns migrations first rules pid
    (fun log => ∀ earlier ∈ migrations.versions.take k, Recorded first earlier log)
      (applyFile touching migrations name) fun _ log => ∀ earlier ∈ migrations.versions.take
      (k + 1), Recorded first earlier log := by
  let version := versionOf name
  have here : migrations.versions[k]? = some version := by simp [FS.versions, at_, version]
  let known (log : Log) : Prop := ∀ earlier ∈ migrations.versions.take k, Recorded first earlier log
  have persists : Persists known :=
    fun log next grown held earlier member => recorded_persists earlier log next grown (held earlier member)
  have next (log : Log) (held : known log) (recorded : Recorded first version log) :
      ∀ earlier ∈ migrations.versions.take (k + 1), Recorded first earlier log := by
    intro earlier member
    rw [List.take_add_one, here] at member
    rcases List.mem_append.mp member with before | now
    · exact held earlier before
    · obtain rfl : earlier = version := by simpa using now
      exact recorded
  let done (log : Log) : Prop := ∀ earlier ∈ migrations.versions.take (k + 1), Recorded first earlier log
  have after : Persists done := fun log later grown held earlier member =>
    recorded_persists earlier log later grown (held earlier member)
  -- either the version was there, or the transaction has added it
  let last (shared : State) : Prop :=
    Holding first pid (.apply version) .empty (fun log => known log ∧ Recorded first version log) shared ∨
      ∃ sqlBytes execution, migrations.readFile name = some sqlBytes ∧
      Holding first pid (.apply version) (applied version sqlBytes execution) known shared
  have lasting : (chronicle migrations first).protocol.Lasting pid last := by
    rintro shared later inv kept (there | ⟨sqlBytes, execution, read, holding⟩) same alongside grown
    · exact .inl (holding_lasting (persists.and (recorded_persists version)) shared later inv kept
        there same alongside grown)
    · exact .inr ⟨sqlBytes, execution, read,
        holding_lasting persists shared later inv kept holding same alongside grown⟩
  refine learns_inSystemTx persists (fun _ => last) (fun _ => done) (fun opened => ?_) (fun _ => lasting) ?_
    fun _ => after
  · refine Chronicle.Makes.bind ((makes_wrapped (Chronicle.Makes.select persists _)).strengthen
        fun shared _ held =>
      held.imp id fun here => ⟨(opened, []), here⟩) fun found => ?_
    by_cases none_ : found.isEmpty = true
    · rw [if_pos none_]
      split
      · exact Stage.fail
      · next sqlBytes read =>
        refine Chronicle.Makes.bind ((makes_wrapped (makes_exec persists (alone sqlBytes read))).strengthen
            fun shared _ held =>
          held.imp id fun holding => holding.weaken fun log here => here.1)
            fun _ => Stage.choose fun execution => ?_
        refine Chronicle.Makes.bind (makes_wrapped (makes_record persists version sqlBytes execution))
          fun _ => Chronicle.Makes.done last lasting ?_
        exact fun shared _ holding => .inr ⟨sqlBytes, execution, read, holding⟩
    · rw [if_neg none_]
      refine Chronicle.Makes.done last lasting fun shared _ holding => .inl (holding.weaken ?_)
      rintro log ⟨held, past, within, -, same⟩
      obtain ⟨row, member⟩ := List.exists_mem_of_ne_nil found (by simpa using none_)
      obtain ⟨is, present⟩ := (same row).mp member
      rw [beq_iff_eq.mp is, Contents.sees_empty] at present
      exact ⟨held, past, within, present⟩
  · rintro _ shared inv (there | ⟨sqlBytes, execution, read, holding⟩)
    · have same (row : Row) : row ∈ (shared.server.txs pid).view shared.server.rows ↔
          row ∈ shared.server.rows := by
        rw [there.in_.view, Contents.sees_empty]
      refine ⟨.inl fun row _ => same row,
        after _ _ (List.prefix_append ..) (next _ there.knows.1 there.knows.2)⟩
    · refine ⟨effect_of_applied inv at_ read holding,
        next _ (persists _ _ (List.prefix_append ..) holding.knows) ?_⟩
      refine ⟨_, List.prefix_rfl, ?_⟩
      show Row.version version ∈ rowsAfter first (_ ++ [_])
      rw [rowsAfter_append, Commit.after, holding.in_.view]
      refine .inr ?_
      rw [show tableOf (Row.version version) = Area.migrations from rfl, applied, Contents.set_same]
      simp

theorem learns_applyAll {touching : String → List (Statement Row)}
    (alone : ∀ name ∈ migrations.files, ∀ sqlBytes, migrations.readFile name = some sqlBytes →
      touching sqlBytes = [])
    {before rest : List String} (split : migrations.files = before ++ rest) :
    Learns migrations first rules pid
    (fun log => ∀ earlier ∈ migrations.versions.take before.length, Recorded first earlier log)
      (applyAll touching migrations rest) fun _ log => ∀ version ∈ migrations.versions,
      Recorded first version log := by
  induction rest generalizing before with
  | nil =>
    refine Chronicle.Learns.ret (fun log next grown held version member =>
      recorded_persists version log next grown (held version member))
      fun log _ held version member => held version ?_
    have all : before.length = migrations.versions.length := by
      rw [FS.versions, List.length_map, split, List.append_nil]
    rwa [all, List.take_length]
  | cons name rest ih =>
    have at_ : migrations.files[before.length]? = some name := by simp [split]
    have member : name ∈ migrations.files := List.mem_of_getElem? at_
    refine Chronicle.Learns.bind (learns_wrapped (learns_applyFile at_ (alone name member))) fun _ => ?_
    have later := @ih (before ++ [name]) (by rw [split, List.append_assoc]; rfl)
    rwa [List.length_append] at later

theorem learns_migrate {touching : String → List (Statement Row)}
    (alone : ∀ name ∈ migrations.files, ∀ sqlBytes, migrations.readFile name = some sqlBytes →
      touching sqlBytes = []) (schema : String) :
    Learns migrations first rules pid (fun _ => True) (migrate touching schema migrations) fun _ log =>
      ∀ version ∈ migrations.versions, Recorded first version log := by
  refine Chronicle.Learns.bind (learns_wrapped learns_ensureTable) fun _ => ?_
  refine (learns_applyAll alone (List.nil_append migrations.files).symm).strengthen
    fun log _ earlier member => ?_
  cases member

end Calls

/-! ## Runs -/

/-- No migration of these files has begun. -/
structure Unmigrated (rows : List Row) : Prop where
  apart : rows.Pairwise NoClash
  none_ : ∀ row ∈ rows, tableOf row = Area.catalog

theorem Unmigrated.inOrder {rows : List Row} (unmigrated : Unmigrated rows) (migrations : FS) :
    InOrder migrations [] rows := by
  refine ⟨List.nodup_nil, rfl, fun version => ?_, fun sqlBytes number => ?_⟩
  · have absent : Row.version version ∉ rows := fun member => nomatch unmigrated.none_ _ member
    simpa using absent
  · have absent : Row.effects sqlBytes number ∉ rows := fun member => nomatch unmigrated.none_ _ member
    simpa using absent

/-- What a schema and its processes are like: the files have been executed in their order up to some
file, each once and with its own text, just these are recorded, and a process whose `Migrate` has
returned nil has every file recorded. -/
structure Migrated (migrations : FS) (config : Config) : Prop where
  inOrder : ∃ executions, InOrder migrations executions config.state.server.rows
  finished : ∀ pid, config.procs pid = .running () (.ret ()) →
    ∀ version ∈ migrations.versions, Row.version version ∈ config.state.server.rows

/-- In every state of every run, if no file touches the table of versions. -/
theorem applied_in_order (touching : String → List (Statement Row)) (schema : String) (migrations : FS)
    (alone : ∀ name ∈ migrations.files, ∀ sqlBytes, migrations.readFile name = some sqlBytes →
      touching sqlBytes = [])
    {rows : List Row} {config : Config} (unmigrated : Unmigrated rows)
    (run : (machine respond).Reaches (code touching schema migrations) {} (initial rows) config) :
    Migrated migrations config := by
  have calls (pid : Tid) (call : Unit) : PublicProtocol.Step (chronicle migrations rows).public_ respond
      ({} : Rules Unit (Action Row Label Request) State) pid (fun _ => True)
        (code touching schema migrations call)
      fun _ state => ∀ version ∈ migrations.versions, Recorded rows version state.log :=
        learns_migrate alone schema
  have ends := PublicProtocol.reaches (fun _ _ _ _ _ _ _ => trivial) calls run (sane_holding unmigrated.apart)
    ⟨.start, rfl, trivial⟩
    fun _ => ⟨rfl, trivial⟩
  have kept := ends.2.1
  have now : config.state.server.rows = rowsAfter rows config.state.server.log := kept.server
  refine ⟨now ▸ inOrder_after kept.journal (unmigrated.inOrder migrations),
    fun pid finished version member => ?_⟩
  obtain ⟨past, within, recorded⟩ := ends.2.2 pid () () finished version member
  exact now ▸ version_stays kept.journal within recorded

/-- How a process has ended: without an error, or with the cause of one. -/
def ended (config : Config) (pid : Tid) : Option (Option Cause) :=
  match config.procs pid with
  | .running _ (.ret _) => some none
  | .running _ (.fail error) => some (some error.cause)
  | _ => none

def acts (pid count : Nat) : List (Move Unit Choice) := List.replicate count (.act pid .plain)

/-- A server that finds one text with something on the table of versions. -/
def clearing (sqlBytes : String) : List (Statement Row) :=
  if sqlBytes = "delete from crm.schema_migrations;" then [.delete fun row => row matches .version _] else []

def twoFiles : FS :=
  ⟨[("2.sql", some "drop table a;"), ("1.sql", some "create table a ();"), ("README", some "")], by decide⟩

/-- Two processes execute the first file: the second one fails, the first one goes on to the second file. -/
theorem applied_in_order_together : ∃ config : Config, ended config 0 = some none ∧ ended config 1 = some
    (some (.sql .unique)) ∧
    Migrated twoFiles config := by
  have runs : ((machine respond).moves (code clearing "crm" twoFiles)
    (.spawn 0 () :: .spawn 1 () :: acts 0 10 ++ acts 1 6 ++
      acts 0 6 ++ acts 1 6 ++ acts 0 3 ++ acts 1 3 ++ acts 0 9) (initial [])).map
      (fun config => (ended config 0, ended config 1)) = some (some none, some (some (.sql .unique))) := by
        decide +kernel
  obtain ⟨config, ran, found⟩ := Option.map_eq_some_iff.mp runs
  simp only [Prod.mk.injEq] at found
  have unmigrated : Unmigrated [] := ⟨.nil, fun _ member => nomatch member⟩
  have alone : ∀ name ∈ twoFiles.files, ∀ sqlBytes, twoFiles.readFile name = some sqlBytes →
      clearing sqlBytes = [] := by
    have files : twoFiles.files = ["1.sql", "2.sql"] := by decide +kernel
    have first : twoFiles.readFile "1.sql" = some "create table a ();" := by decide +kernel
    have second : twoFiles.readFile "2.sql" = some "drop table a;" := by decide +kernel
    intro name member sqlBytes read
    rw [files, List.mem_pair] at member
    rcases member with rfl | rfl
    · rw [first] at read
      cases read
      decide +kernel
    · rw [second] at read
      cases read
      decide +kernel
  exact ⟨config, found.1, found.2, applied_in_order clearing "crm" twoFiles alone unmigrated
    ((machine respond).reaches_moves (code clearing "crm" twoFiles) .refl _ ran)⟩

def clearingFile : FS :=
  ⟨[("1.sql", some "create table a ();"), ("2.sql", some "delete from crm.schema_migrations;")], by decide⟩

/-- A file that deletes the versions leaves its own as the only one. -/
theorem versions_deleted : ¬ ∀ (touching : String → List (Statement Row)) (schema : String) (migrations : FS)
    (rows : List Row) (config : Config), Unmigrated rows →
      (machine respond).Reaches (code touching schema migrations) {} (initial rows) config →
      Migrated migrations config := by
  intro migrated
  have runs : ((machine respond).moves (code clearing "crm" clearingFile)
    (.spawn 0 () :: acts 0 30) (initial [])).map
      (fun config => (decide (Row.version "1" ∈ config.state.server.rows),
        decide (Row.version "2" ∈ config.state.server.rows))) =
        some (false, true) := by decide +kernel
  obtain ⟨config, ran, found⟩ := Option.map_eq_some_iff.mp runs
  simp only [Prod.mk.injEq, decide_eq_false_iff_not, decide_eq_true_eq] at found
  have reached := (machine respond).reaches_moves (code clearing "crm" clearingFile) .refl _ ran
  obtain ⟨executions, inOrder⟩ :=
    (migrated clearing "crm" clearingFile [] config ⟨.nil, fun _ member => nomatch member⟩ reached).inOrder
  have versions : clearingFile.versions = ["1", "2"] := by decide +kernel
  have second := (inOrder.versions "2").mp found.2
  refine found.1 ((inOrder.versions "1").mpr ?_)
  rw [versions] at second ⊢
  cases executions with
  | nil => cases second
  | cons execution rest => exact List.mem_cons_self ..

end OpenEmarsys.Migrations
