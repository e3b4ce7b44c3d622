import OpenEmarsys.Tenancy.Connections

/-! What runs on the connections of `createKysely` is scoped, and none is given back with its transaction
open. -/

set_option autoImplicit false

namespace OpenEmarsys.Tenancy

open Interleaving

/-- The query has run in a transaction with just the scope of the context in which it, or its
transaction, began. System scope without a role sets nothing. -/
def Ran.Scoped (systemRole : Option Role) (ran : Ran) : Prop :=
  match scopeStatement systemRole ran.began with
  | .ok (some statement) => ran.inside = some [statement]
  | .ok none => True
  | .error _ => False

/-- Every query that reached the database was scoped, and a connection in the pool has no open transaction. -/
structure Pool.Kept (systemRole : Option Role) (pool : Pool) : Prop where
  queries : ∀ ran ∈ pool.ran, ran.Scoped systemRole
  closed : ∀ conn, pool.holder conn = none → (pool.backend conn).isOpen = false

/-- What the others do to the connections that a caller holds: they can only be lost. -/
structure Beside (systemRole : Option Role) (pid : Nat) (pool next : Pool) : Prop where
  kept : pool.Kept systemRole → next.Kept systemRole
  mine : ∀ conn, pool.holder conn = some pid → next.holder conn = some pid ∧
    next.inTransaction conn = pool.inTransaction conn ∧
    (next.backend conn = pool.backend conn ∨ next.backend conn = .dead)

section Rely
variable {systemRole : Option Role} {R : Type}

theorem Beside.refl (pid : Nat) (pool : Pool) : Beside systemRole pid pool pool :=
  ⟨id, fun _ held => ⟨held, rfl, .inl rfl⟩⟩

theorem Beside.trans {pid : Nat} {first second third : Pool} (before : Beside systemRole pid first second)
    (after : Beside systemRole pid second third) : Beside systemRole pid first third := by
  refine ⟨fun kept => after.kept (before.kept kept), fun conn held => ?_⟩
  obtain ⟨held, flag, backend⟩ := before.mine conn held
  obtain ⟨still, same, lost⟩ := after.mine conn held
  refine ⟨still, same.trans flag, ?_⟩
  rcases lost with lost | lost
  · rw [lost]
    exact backend
  · exact .inr lost

theorem beside_lost (pid : Nat) (pool : Pool) (conn : ConnId) :
    Beside systemRole pid pool (pool.setBackend conn .dead) := by
  refine ⟨fun kept => ⟨kept.queries, fun other free => ?_⟩, fun other held => ⟨held, rfl, ?_⟩⟩
  · by_cases same : other = conn
    · subst same
      simp [Pool.setBackend, Backend.isOpen]
    · simpa [Pool.setBackend, same] using kept.closed other free
  · by_cases same : other = conn
    · subst same
      exact .inr (by simp [Pool.setBackend])
    · exact .inl (by simp [Pool.setBackend, same])

theorem pool_discipline : Discipline (machine R) ({} : Rules (Session R false) (DriverCall R) Pool)
    (Beside systemRole) (Pool.Kept systemRole) fun _ _ => True where
  refl := Beside.refl
  trans := Beside.trans
  inv kept moved := moved.kept kept
  idle _ _ _ := trivial
  disturb {_ choice _ _} _ _ lost other := by
    cases choice with
    | connection conn =>
      cases lost
      exact beside_lost other _ conn
    | _ => cases lost
  crash _ _ other _ := .refl other _

end Rely

section Scripts
variable {R α β : Type} {systemRole : Option Role} {pid : Nat} {conn : ConnId}

/-- What a script of a caller does, with every other caller and every loss of a connection in between. -/
abbrev Does {R α : Type} (systemRole : Option Role) (pid : Nat) (pre : Pool → Prop)
    (script : DriverScript R α) (post : Except DriverError α → Pool → Prop) : Prop :=
  Triple (machine R) ({} : Rules (Session R false) (DriverCall R) Pool) (Beside systemRole)
    (Pool.Kept systemRole) pid pre script post

/-- The caller holds the connection, whose wrapper and whose other end are as given. -/
structure Holds (pid : Nat) (conn : ConnId) (inTransaction : Bool) (backend : Backend → Prop)
    (pool : Pool) : Prop where
  holder : pool.holder conn = some pid
  inTransaction : pool.inTransaction conn = inTransaction
  backend : backend (pool.backend conn)

def Outside (backend : Backend) : Prop := backend.isOpen = false

/-- A transaction with these scoping statements is open, unless the connection is lost. -/
def Inside (scopes : Transaction) (backend : Backend) : Prop :=
  backend = .dead ∨ ∃ aborted, backend = .opened scopes aborted

/-- What holds if a script returns and what if it throws. -/
def Either (returns throws : Pool → Prop) : Except DriverError α → Pool → Prop
  | .ok _ => returns
  | .error _ => throws

theorem holds_stable {flag : Bool} {backend : Backend → Prop} (dead : backend .dead) :
    Stable (Beside systemRole) (Pool.Kept systemRole) pid (Holds pid conn flag backend) := by
  intro pool next _ holds moved
  obtain ⟨held, same, lost⟩ := moved.mine conn holds.holder
  refine ⟨held, same.trans holds.inTransaction, ?_⟩
  rcases lost with lost | lost
  · exact lost ▸ holds.backend
  · exact lost ▸ dead

theorem Holds.weaken {flag : Bool} {backend weaker : Backend → Prop} {pool : Pool}
    (holds : Holds pid conn flag backend pool)
    (implies : ∀ state, backend state → weaker state) : Holds pid conn flag weaker pool :=
  ⟨holds.holder, holds.inTransaction, implies _ holds.backend⟩

theorem does_ret {pre : Pool → Prop} (stable : Stable (Beside systemRole) (Pool.Kept systemRole) pid pre)
    (value : α)
    (throws : Pool → Prop) : Does systemRole pid pre (.ret value : DriverScript R α) (Either pre throws) :=
  Triple.ret pool_discipline (Either pre throws) stable

theorem does_fail {pre : Pool → Prop} (stable : Stable (Beside systemRole) (Pool.Kept systemRole) pid pre)
    (error : DriverError)
    (returns : Pool → Prop) : Does systemRole pid pre (.fail error : DriverScript R α) (Either returns pre) :=
  Triple.fail pool_discipline (Either returns pre) stable

theorem does_bind {pre middle returns throws : Pool → Prop} {first : DriverScript R β}
    {next : β → DriverScript R α} (head : Does systemRole pid pre first (Either middle throws))
    (tail : ∀ value, Does systemRole pid middle (next value) (Either returns throws)) :
    Does systemRole pid pre (first >>= next) (Either returns throws) := by
  refine Triple.bind pool_discipline (fun _ => middle) (head.weaken fun result pool _ holds => ?_) tail
  cases result <;> exact holds

theorem does_handle {pre caught returns throws : Pool → Prop} {script : DriverScript R α}
    {handler : DriverError → DriverScript R α}
    (body : Does systemRole pid pre script (Either returns caught))
    (rescue : ∀ error, Does systemRole pid caught (handler error) (Either returns throws)) :
    Does systemRole pid pre (script.handle handler) (Either returns throws) := by
  refine Triple.handle pool_discipline (fun _ => caught) (body.weaken fun result pool _ holds => ?_) rescue
  cases result <;> exact holds

theorem does_weaken {pre returns throws weaker caught : Pool → Prop} {script : DriverScript R α}
    (does : Does systemRole pid pre script (Either returns throws))
    (value : ∀ pool, returns pool → weaker pool)
    (error : ∀ pool, throws pool → caught pool) : Does systemRole pid pre script (Either weaker caught) := by
  refine Triple.weaken does fun result pool _ holds => ?_
  cases result with
  | ok result => exact value pool holds
  | error thrown => exact error pool holds

-- After an attempt: whether it has returned or thrown is known.
theorem does_attempt {pre returns throws : Pool → Prop} {script : DriverScript R β}
    {next : Except DriverError β → DriverScript R α}
    {post : Except DriverError α → Pool → Prop}
    (returning : Stable (Beside systemRole) (Pool.Kept systemRole) pid returns)
    (throwing : Stable (Beside systemRole) (Pool.Kept systemRole) pid throws)
    (does : Does systemRole pid pre script (Either returns throws))
    (value : ∀ value, Does systemRole pid returns (next (.ok value)) post)
    (error : ∀ error, Does systemRole pid throws (next (.error error)) post) :
    Does systemRole pid pre (attempt script >>= next) post := by
  let known : Except DriverError β → Pool → Prop
    | .ok _ => returns
    | .error _ => throws
  refine Triple.bind pool_discipline known (Triple.handle pool_discipline (fun _ => throws)
    (Triple.bind pool_discipline (fun _ => returns) ?_ fun value => ?_) fun error => ?_) fun result => ?_
  · refine does.weaken fun result pool _ holds => ?_
    cases result <;> exact holds
  · exact fun pool kept holds later moved => ⟨moved.kept kept, returning pool later kept holds moved⟩
  · exact fun pool kept holds later moved => ⟨moved.kept kept, throwing pool later kept holds moved⟩
  · cases result with
    | ok result => exact value result
    | error thrown => exact error thrown

-- `try … finally`, when the cleanup comes to the same after both.
theorem does_ensuring {pre returns throws returned thrown : Pool → Prop} {body : DriverScript R α}
    {cleanup : DriverScript R Unit}
    (returning : Stable (Beside systemRole) (Pool.Kept systemRole) pid returns)
    (throwing : Stable (Beside systemRole) (Pool.Kept systemRole) pid throws)
    (after : Stable (Beside systemRole) (Pool.Kept systemRole) pid returned)
    (later : Stable (Beside systemRole) (Pool.Kept systemRole) pid thrown)
    (does : Does systemRole pid pre body (Either returns throws))
    (value : Does systemRole pid returns cleanup (Either returned fun _ => False))
    (error : Does systemRole pid throws cleanup (Either thrown fun _ => False)) :
    Does systemRole pid pre (ensuring body cleanup) (Either returned thrown) := by
  refine does_attempt returning throwing does (fun result => ?_) fun failure => ?_
  · exact does_bind (does_weaken value (fun _ => id) nofun) fun _ => does_ret after result thrown
  · exact does_bind (does_weaken error (fun _ => id) nofun) fun _ => does_fail later failure returned

theorem does_setInTransaction {flag : Bool} {backend : Backend → Prop} (dead : backend .dead) (value : Bool) :
    Does systemRole pid (Holds pid conn flag backend) (setInTransaction conn value : DriverScript R Unit)
      (Either (Holds pid conn value backend) fun _ => False) := by
  refine Triple.call pool_discipline (fun _ => Holds pid conn value backend) (holds_stable dead)
    (fun pool kept holds _ choice reply next answered => ?_) fun _ => does_ret (holds_stable dead) _ _
  cases choice with
  | plain =>
    cases answered
    refine ⟨fun other distinct => ⟨fun kept => ⟨kept.queries, kept.closed⟩, fun mine held => ?_⟩,
      holds.holder, ?_, holds.backend⟩
    · have apart : mine ≠ conn :=
        fun same => distinct (Option.some.inj (held.symm.trans (same ▸ holds.holder)))
      exact ⟨held, by simp [apart], .inl rfl⟩
    · simp
  | _ => cases answered

theorem does_inTransaction {flag : Bool} {backend : Backend → Prop} (dead : backend .dead)
    {next : Bool → DriverScript R α}
    {post : Except DriverError α → Pool → Prop}
    (later : Does systemRole pid (Holds pid conn flag backend) (next flag) post) :
    Does systemRole pid (Holds pid conn flag backend) (inTransaction conn >>= next) post := by
  refine Triple.call pool_discipline (fun reply pool => reply = flag ∧
    Holds pid conn flag backend pool) (holds_stable dead)
    (fun pool kept holds _ choice reply last answered => ?_) fun reply => Triple.fact fun same => ?_
  · cases choice with
    | plain =>
      cases answered
      exact ⟨fun other _ => .refl other pool, holds.inTransaction, holds⟩
    | _ => cases answered
  · subst same
    exact later

theorem does_inner {flag : Bool} {sql : Sql} {before works fails : Backend → Prop} (dead : before .dead)
    (last : works .dead) (lost : fails .dead)
    (moves : ∀ (outcome : Outcome R) backend, before backend →
      match backend.execute sql outcome with
      | (.ok _, next) => works next
      | (.error _, next) => fails next)
    (records : ∀ (outcome : Outcome R) backend, before backend →
      ∀ ran ∈ backend.runs sql outcome, ran.Scoped systemRole) :
    Does systemRole pid (Holds pid conn flag before) (inner conn sql : DriverScript R R)
      (Either (Holds pid conn flag works) (Holds pid conn flag fails)) := by
  let after (reply : Except DriverError R) : Pool → Prop :=
    match reply with
    | .ok _ => Holds pid conn flag works
    | .error _ => Holds pid conn flag fails
  refine Triple.call pool_discipline after (holds_stable dead)
    (fun pool kept holds _ choice reply next answered => ?_) fun reply => ?_
  · cases choice with
    | outcome outcome =>
      have moved := moves outcome (pool.backend conn) holds.backend
      have recorded := records outcome (pool.backend conn) holds.backend
      simp only [machine, respond, Option.some.injEq, Prod.mk.injEq] at answered
      obtain ⟨rfl, rfl⟩ := answered
      refine ⟨fun other distinct => ⟨fun kept => ⟨fun ran member => ?_, fun free isFree => ?_⟩,
        fun mine held => ?_⟩, ?_⟩
      · rcases List.mem_append.mp member with old | new
        · exact kept.queries ran old
        · exact recorded ran (by simpa using new)
      · have apart : free ≠ conn := fun same => by
          rw [same] at isFree
          exact nomatch isFree.symm.trans holds.holder
        simpa [Pool.setBackend, apart] using kept.closed free isFree
      · have apart : mine ≠ conn :=
          fun same => distinct (Option.some.inj (held.symm.trans (same ▸ holds.holder)))
        exact ⟨held, rfl, .inl (by simp [Pool.setBackend, apart])⟩
      · revert moved
        rcases (pool.backend conn).execute sql outcome with ⟨reply, state⟩
        intro moved
        cases reply with
        | ok result => exact ⟨holds.holder, holds.inTransaction, by simpa [Pool.setBackend] using moved⟩
        | error error => exact ⟨holds.holder, holds.inTransaction, by simpa [Pool.setBackend] using moved⟩
    | _ => cases answered
  · cases reply with
    | ok result => exact does_ret (holds_stable last) _ _
    | error error => exact does_fail (holds_stable lost) _ _

def Anywhere (_ : Backend) : Prop := True

theorem outside_dead : Outside .dead := rfl

theorem inside_dead (scopes : Transaction) : Inside scopes .dead := .inl rfl

theorem runs_none {sql : Sql} {outcome : Outcome R} {backend : Backend}
    (other : ∀ query began, sql ≠ .query query began) :
    backend.runs sql outcome = none := by
  cases sql with
  | query query began => exact absurd rfl (other query began)
  | _ => rfl

theorem does_begin {flag : Bool} : Does systemRole pid (Holds pid conn flag Outside)
    (inner conn .begin : DriverScript R R)
    (Either (Holds pid conn flag (Inside [])) (Holds pid conn flag Outside)) := by
  refine does_inner outside_dead (inside_dead []) outside_dead (fun outcome backend outside => ?_)
    fun outcome backend _ ran recorded => ?_
  · cases backend with
    | opened scopes aborted => cases outside
    | dead => exact rfl
    | idle =>
      cases outcome with
      | replies result => exact .inr ⟨false, rfl⟩
      | fails sent => exact rfl
      | lost => exact rfl
  · rw [runs_none fun query began same => by cases same] at recorded
    cases recorded

theorem does_scope {flag : Bool} (statement : Statement) :
    Does systemRole pid (Holds pid conn flag (Inside [])) (inner conn (.scope statement) : DriverScript R R)
      (Either (Holds pid conn flag (Inside [statement])) (Holds pid conn flag Anywhere)) := by
  refine does_inner (inside_dead []) (inside_dead _) trivial (fun outcome backend inside => ?_)
    fun outcome backend _ ran recorded => ?_
  · rcases inside with rfl | ⟨aborted, rfl⟩
    · exact trivial
    · cases outcome with
      | replies result =>
        cases aborted with
        | false => exact .inr ⟨false, rfl⟩
        | true => exact trivial
      | fails sent => exact trivial
      | lost => exact trivial
  · rw [runs_none fun query began same => by cases same] at recorded
    cases recorded

theorem does_end {flag : Bool} {sql : Sql} (ends : sql = .commit ∨ sql = .rollback) :
    Does systemRole pid (Holds pid conn flag Anywhere) (inner conn sql : DriverScript R R)
      (Either (Holds pid conn flag Outside) (Holds pid conn flag Outside)) := by
  refine does_inner trivial outside_dead outside_dead (fun outcome backend _ => ?_)
    fun outcome backend _ ran recorded => ?_
  · rcases ends with rfl | rfl <;> cases backend <;> cases outcome <;> exact rfl
  · rw [runs_none fun query began same => by rcases ends with rfl | rfl <;> cases same] at recorded
    cases recorded

theorem does_query_inside {flag : Bool} {query : Statement} {began : AsyncContext} {scopes : Transaction}
    (fits : Ran.Scoped systemRole ⟨query, began, some scopes⟩) :
    Does systemRole pid (Holds pid conn flag (Inside scopes))
    (inner conn (.query query began) : DriverScript R R)
      (Either (Holds pid conn flag (Inside scopes)) (Holds pid conn flag (Inside scopes))) := by
  refine does_inner (inside_dead _) (inside_dead _) (inside_dead _) (fun outcome backend inside => ?_)
    fun outcome backend inside ran recorded => ?_
  · rcases inside with rfl | ⟨aborted, rfl⟩
    · exact inside_dead scopes
    · cases outcome with
      | replies result => cases aborted <;> exact .inr ⟨_, rfl⟩
      | fails sent => cases sent <;> exact .inr ⟨_, rfl⟩
      | lost => exact inside_dead scopes
  · rcases inside with rfl | ⟨aborted, rfl⟩
    · rcases outcome with result | (_ | _) | _ <;> cases recorded
    · rcases outcome with result | (_ | _) | _ <;> cases aborted <;> cases recorded <;> exact fits

-- A query outside every transaction, which only system scope without a role makes.
theorem does_query_outside {flag : Bool} {query : Statement} {began : AsyncContext}
    (fits : Ran.Scoped systemRole ⟨query, began, none⟩) :
    Does systemRole pid (Holds pid conn flag Outside) (inner conn (.query query began) : DriverScript R R)
      (Either (Holds pid conn flag Outside) (Holds pid conn flag Outside)) := by
  refine does_inner outside_dead outside_dead outside_dead (fun outcome backend outside => ?_)
    fun outcome backend outside ran recorded => ?_
  · cases backend with
    | opened scopes aborted => cases outside
    | dead => exact rfl
    | idle => rcases outcome with result | (_ | _) | _ <;> exact rfl
  · cases backend with
    | opened scopes aborted => cases outside
    | dead => rcases outcome with result | (_ | _) | _ <;> cases recorded
    | idle => rcases outcome with result | (_ | _) | _ <;> cases recorded <;> exact fits

theorem does_scoping {pre : Pool → Prop} (stable : Stable (Beside systemRole) (Pool.Kept systemRole) pid pre)
    (context : AsyncContext) {next : Option Statement → DriverScript R α} {returns : Pool → Prop}
    (later : ∀ statement, scopeStatement systemRole context = .ok statement →
      Does systemRole pid pre (next statement) (Either returns pre)) :
    Does systemRole pid pre (scoping systemRole context >>= next) (Either returns pre) := by
  unfold scoping
  split
  · next statement found => exact later statement found
  · exact does_fail stable _ _

theorem does_executeQuery_inside {context began : AsyncContext} {query : Statement} {scopes : Transaction}
    (fits : Ran.Scoped systemRole ⟨query, began, some scopes⟩) :
    Does systemRole pid (Holds pid conn true (Inside scopes))
    (executeQuery systemRole context conn query began : DriverScript R R)
      (Either (Holds pid conn true (Inside scopes)) (Holds pid conn true (Inside scopes))) :=
  does_inTransaction (inside_dead scopes) (does_query_inside fits)

-- A single query runs in a transaction of its own, which is over in any case.
theorem does_executeQuery_outside {context : AsyncContext} {query : Statement} :
    Does systemRole pid (Holds pid conn false Outside)
    (executeQuery systemRole context conn query context : DriverScript R R)
      (Either (Holds pid conn false Outside) (Holds pid conn false Outside)) := by
  refine does_inTransaction outside_dead (does_scoping (holds_stable outside_dead) context
    fun statement found => ?_)
  cases statement with
  | none => exact does_query_outside (by simp [Ran.Scoped, found])
  | some statement =>
    have fits : Ran.Scoped systemRole ⟨query, context, some [statement]⟩ := by simp [Ran.Scoped, found]
    have throws (pool : Pool) (holds : Holds pid conn false (Inside [statement]) pool) :
        Holds pid conn false Anywhere pool :=
      holds.weaken fun _ _ => trivial
    have runs : Does systemRole pid (Holds pid conn false (Inside []))
        (inner conn (.scope statement) >>= fun _ => inner conn (.query query context) >>= fun result =>
          inner conn .commit >>= fun _ => .ret result : DriverScript R R)
        (Either (Holds pid conn false Outside) (Holds pid conn false Anywhere)) := by
      refine does_bind (does_scope statement) fun _ => ?_
      refine does_bind (does_weaken (does_query_inside fits) throws throws) fun result => ?_
      refine does_bind (does_weaken (does_end (.inl rfl)) (fun _ => id) fun _ holds => holds.weaken
        fun _ _ => trivial) fun _ => ?_
      exact does_ret (holds_stable outside_dead) result _
    refine does_bind does_begin fun _ => does_handle runs fun error => ?_
    refine does_attempt (holds_stable outside_dead) (holds_stable outside_dead) (does_end (.inr rfl))
      (fun _ => ?_) fun _ => ?_
    · exact does_fail (holds_stable outside_dead) error _
    · exact does_fail (holds_stable outside_dead) error _

theorem does_streamQuery_inside {began : AsyncContext} {query : Statement} {scopes : Transaction}
    (fits : Ran.Scoped systemRole ⟨query, began, some scopes⟩) :
    Does systemRole pid (Holds pid conn true (Inside scopes))
    (streamQuery conn query began : DriverScript R R)
      (Either (Holds pid conn true (Inside scopes)) (Holds pid conn true (Inside scopes))) :=
  does_inTransaction (inside_dead scopes) (does_query_inside fits)

theorem does_streamQuery_outside {began : AsyncContext} {query : Statement} :
    Does systemRole pid (Holds pid conn false Outside) (streamQuery conn query began : DriverScript R R)
      (Either (Holds pid conn false Outside) (Holds pid conn false Outside)) :=
  does_inTransaction outside_dead (does_fail (holds_stable outside_dead) _ _)

-- A commit or a rollback, with the flag lowered whatever comes of it.
theorem does_over {flag : Bool} {sql : Sql} (ends : sql = .commit ∨ sql = .rollback) :
    Does systemRole pid (Holds pid conn flag Anywhere)
      (ensuring (inner conn sql >>= fun _ => .ret ()) (setInTransaction conn false) : DriverScript R Unit)
      (Either (Holds pid conn false Outside) (Holds pid conn false Outside)) := by
  have stable (flag : Bool) : Stable (Beside systemRole) (Pool.Kept systemRole) pid
      (Holds pid conn flag Outside) :=
    holds_stable outside_dead
  refine does_ensuring (stable flag) (stable flag) (stable false) (stable false) ?_
    (does_setInTransaction outside_dead false) (does_setInTransaction outside_dead false)
  exact does_bind (does_end ends) fun _ => does_ret (stable flag) () _

theorem does_commitTransaction {flag : Bool} :
    Does systemRole pid (Holds pid conn flag Anywhere) (commitTransaction conn : DriverScript R Unit)
      (Either (Holds pid conn false Outside) (Holds pid conn false Outside)) := does_over (.inl rfl)

theorem does_rollbackTransaction {flag : Bool} :
    Does systemRole pid (Holds pid conn flag Anywhere) (rollbackTransaction conn : DriverScript R Unit)
      (Either (Holds pid conn false Outside) (Holds pid conn false Outside)) := does_over (.inr rfl)

/-- In a transaction that began in this context, with its scope set. -/
def Begun (systemRole : Option Role) (pid : Nat) (conn : ConnId) (began : AsyncContext)
    (pool : Pool) : Prop :=
  ∃ statement, scopeStatement systemRole began = .ok statement ∧
    Holds pid conn true (Inside statement.toList) pool

theorem begun_stable (began : AsyncContext) :
    Stable (Beside systemRole) (Pool.Kept systemRole) pid (Begun systemRole pid conn began) :=
  .exists_ fun statement => .and (.const _) (holds_stable (inside_dead statement.toList))

theorem does_beginTransaction {context : AsyncContext} :
    Does systemRole pid (Holds pid conn false Outside)
    (beginTransaction systemRole context conn : DriverScript R Unit)
      (Either (Begun systemRole pid conn context) (Holds pid conn false Outside)) := by
  refine does_scoping (holds_stable outside_dead) context
    fun statement found => does_bind does_begin fun _ => ?_
  refine does_bind (does_weaken (does_setInTransaction (inside_dead []) true) (fun _ => id) nofun) fun _ => ?_
  have scoped_ (pool : Pool) (holds : Holds pid conn true (Inside statement.toList) pool) :
      Begun systemRole pid conn context pool :=
    ⟨statement, found, holds⟩
  cases statement with
  | none => exact does_weaken (does_ret (holds_stable (inside_dead [])) () _) scoped_ fun _ => id
  | some statement =>
    refine does_weaken (does_handle (does_bind (does_scope statement)
      fun _ => does_ret (holds_stable (inside_dead _)) () _)
      fun error => ?_) scoped_ fun _ => id
    exact does_bind does_rollbackTransaction fun _ => does_fail (holds_stable outside_dead) error _

def Ready (systemRole : Option Role) (pid : Nat) (conn : ConnId) (began : AsyncContext) : Bool → Pool → Prop
  | false => Holds pid conn false Outside
  | true => Begun systemRole pid conn began

theorem ready_stable (began : AsyncContext) (inTransaction : Bool) :
    Stable (Beside systemRole) (Pool.Kept systemRole) pid
    (Ready systemRole pid conn began inTransaction) := by
  cases inTransaction with
  | false => exact holds_stable outside_dead
  | true => exact begun_stable began

theorem Ready.anywhere {began : AsyncContext} {inTransaction : Bool} {pool : Pool}
    (ready : Ready systemRole pid conn began inTransaction pool) :
    Holds pid conn inTransaction Anywhere pool := by
  cases inTransaction with
  | false => exact Holds.weaken ready fun _ _ => trivial
  | true =>
    obtain ⟨statement, -, holds⟩ := ready
    exact holds.weaken fun _ _ => trivial

theorem begun_does {began : AsyncContext} {query : Statement} {script : DriverScript R R}
    (does : ∀ scopes, Ran.Scoped systemRole ⟨query, began, some scopes⟩ →
      Does systemRole pid (Holds pid conn true (Inside scopes)) script
        (Either (Holds pid conn true (Inside scopes)) (Holds pid conn true (Inside scopes)))) :
    Does systemRole pid (Begun systemRole pid conn began) script
      (Either (Begun systemRole pid conn began) (Begun systemRole pid conn began)) := by
  refine Triple.exists_ fun statement => Triple.fact fun found => ?_
  have again (pool : Pool) (holds : Holds pid conn true (Inside statement.toList) pool) :
      Begun systemRole pid conn began pool :=
    ⟨statement, found, holds⟩
  refine does_weaken (does statement.toList ?_) again again
  cases statement <;> simp [Ran.Scoped, found]

theorem does_executeQuery {began context : AsyncContext} {inTransaction : Bool} {query : Statement} :
    Does systemRole pid (Ready systemRole pid conn began inTransaction)
      (executeQuery systemRole context conn query (if inTransaction then began
        else context) : DriverScript R R)
      (Either (Ready systemRole pid conn began inTransaction)
        (Ready systemRole pid conn began inTransaction)) := by
  cases inTransaction with
  | false => exact does_executeQuery_outside
  | true => exact begun_does fun scopes fits => does_executeQuery_inside fits

theorem does_streamQuery {began context : AsyncContext} {inTransaction : Bool} {query : Statement} :
    Does systemRole pid (Ready systemRole pid conn began inTransaction)
      (streamQuery conn query (if inTransaction then began else context) : DriverScript R R)
      (Either (Ready systemRole pid conn began inTransaction)
        (Ready systemRole pid conn began inTransaction)) := by
  cases inTransaction with
  | false => exact does_streamQuery_outside
  | true => exact begun_does fun scopes fits => does_streamQuery_inside fits

theorem does_release : Does systemRole pid (Holds pid conn false Outside)
    (Script.await (DriverCall.releaseConnection conn) : DriverScript R Unit)
    (Either (fun _ => True) fun _ => True) := by
  refine Triple.call pool_discipline (fun _ _ => True) (holds_stable outside_dead)
    (fun pool kept holds _ choice reply next answered => ?_)
    fun _ => does_ret .true_ _ _
  cases choice with
  | plain =>
    cases answered
    refine ⟨fun other distinct => ⟨fun kept => ⟨kept.queries, fun free isFree => ?_⟩,
      fun mine held => ?_⟩, trivial⟩
    · by_cases same : free = conn
      · exact same ▸ holds.backend
      · exact kept.closed free (by simpa [same] using isFree)
    · have apart : mine ≠ conn :=
        fun same => distinct (Option.some.inj (held.symm.trans (same ▸ holds.holder)))
      exact ⟨by simpa [apart] using held, rfl, .inl rfl⟩
  | _ => cases answered

theorem session_does {inTransaction : Bool} (session : Session R inTransaction) (began : AsyncContext) :
    Does systemRole pid (Ready systemRole pid conn began inTransaction) (session.run systemRole conn began)
      (Either (fun _ => True) fun _ => True) := by
  induction session generalizing began with
  | release => exact does_release
  | query context query next ih =>
    exact does_attempt (ready_stable began _) (ready_stable began _) does_executeQuery
      (fun value => ih _ began) fun error => ih _ began
  | stream context query next ih =>
    exact does_attempt (ready_stable began _) (ready_stable began _) does_streamQuery
      (fun value => ih _ began) fun error => ih _ began
  | begin context next ih =>
    exact does_attempt (begun_stable context) (holds_stable outside_dead) does_beginTransaction
      (fun _ => ih true context)
      fun _ => ih false context
  | commit next ih =>
    refine does_attempt (holds_stable outside_dead) (holds_stable outside_dead)
      (does_commitTransaction.strengthen fun pool _ ready => Ready.anywhere ready) (fun _ => ih true began)
        fun _ => ih false began
  | rollback next ih =>
    refine does_attempt (holds_stable outside_dead) (holds_stable outside_dead)
      (does_rollbackTransaction.strengthen fun pool _ ready => Ready.anywhere ready) (fun _ => ih true began)
        fun _ => ih false began

/-- What a caller holds that has asked for a connection. -/
def Acquired (pid : Nat) : Except DriverError ConnId → Pool → Prop
  | .ok conn => Holds pid conn false Outside
  | .error _ => fun _ => True

theorem code_does (session : Session R false) :
    Does systemRole pid (fun _ => True) (code systemRole session) (Either (fun _ => True) fun _ => True) := by
  refine Triple.call pool_discipline (Acquired pid) .true_
    (fun pool kept _ _ choice reply next answered => ?_) fun acquired => ?_
  · cases choice with
    | connection conn =>
      simp only [machine, respond] at answered
      split at answered
      · next free =>
        cases answered
        refine ⟨fun other distinct => ⟨fun kept => ⟨kept.queries, fun unused isFree => ?_⟩,
          fun mine held => ?_⟩, ?_, ?_, kept.closed conn free⟩
        · have apart : unused ≠ conn := fun same => by simp [same] at isFree
          exact kept.closed unused (by simpa [apart] using isFree)
        · have apart : mine ≠ conn := fun same => nomatch (same ▸ held).symm.trans free
          exact ⟨by simpa [apart] using held, by simp [apart], .inl rfl⟩
        · simp
        · simp
      · cases answered
    | plain =>
      cases answered
      exact ⟨fun other _ => .refl other pool, trivial⟩
    | outcome outcome => cases answered
  · cases acquired with
    | ok conn => exact session_does session .empty
    | error error => exact does_fail .true_ _ _

end Scripts

/-- Whatever callers do with connections, and whatever fails: every query that reaches the database is
scoped, and no connection is in the pool with a transaction open. -/
theorem connections_scoped {R : Type} (systemRole : Option Role) {config : PoolConfig R}
    (run : (machine R).Reaches (code systemRole) {} (.start .fresh) config) :
    config.state.Kept systemRole := by
  have fresh : Pool.fresh.Kept systemRole := ⟨nofun, fun _ _ => rfl⟩
  exact (pool_discipline.reaches (fun pid session pool _ kept _ => code_does session pool kept trivial) run
    ⟨fresh, fun _ => trivial⟩).1

def alpha : TenantId := ⟨"00000000-0000-0000-0000-00000000000a", by decide +kernel⟩
def beta : TenantId := ⟨"00000000-0000-0000-0000-00000000000b", by decide +kernel⟩

/-- The commit of the first tenant's transaction fails; the second one then queries on the same connection. -/
theorem connections_scoped_reused : ∃ config : PoolConfig Unit,
    config.state.ran.map Ran.inside = [some [setTenant alpha.text], some [setTenant beta.text]] ∧
    config.state.Kept none := by
  let fine : Choice Unit := .outcome (.replies ())
  let moves : List (Move (Session Unit false) (Choice Unit)) :=
    .spawn 0 (.transaction (AsyncContext.empty.withTenant alpha) [⟨"select 1", []⟩]) ::
      .act 0 (.connection 5) ::
      .act 0 fine :: .act 0 .plain :: .act 0 fine :: .act 0 .plain :: .act 0 fine ::
        .act 0 (.outcome (.fails true)) :: .act 0 .plain ::
      .act 0 fine :: .act 0 .plain :: .act 0 .plain ::
      .spawn 1 (.query (AsyncContext.empty.withTenant beta) ⟨"select 2", []⟩
        fun _ => .release) :: .act 1 (.connection 5) ::
      .act 1 .plain :: [.act 1 fine, .act 1 fine, .act 1 fine, .act 1 fine, .act 1 .plain]
  have runs : ((machine Unit).moves (code none) moves (.start .fresh)).map
    (fun config => config.state.ran.map Ran.inside) =
      some [some [setTenant alpha.text], some [setTenant beta.text]] := by decide +kernel
  obtain ⟨config, ran, inside⟩ := Option.map_eq_some_iff.mp runs
  exact ⟨config, inside, connections_scoped none ((machine Unit).reaches_moves (code none) .refl moves ran)⟩

end OpenEmarsys.Tenancy
