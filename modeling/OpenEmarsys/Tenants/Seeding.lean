import OpenEmarsys.Tenants.Creation

/-! Whether every tenant gets its system fields. -/

set_option autoImplicit false

namespace OpenEmarsys.Tenants

open Interleaving (Script Status)
open Contacts (FieldDefinition)

def Seeded (state : State) (tenantId : Uuid) : Prop :=
  ∀ f ∈ SYSTEM_FIELDS, ∃ row ∈ state.definitions, row.tenantId = tenantId ∧ row.field.fieldId = f.fieldId

def seeds (tenantId : Uuid) : List Definition := SYSTEM_FIELDS.map fun f => ⟨tenantId, f⟩

/-- The event is still delivered, or a call publishes it next or seeds the tenant next. -/
def Due (config : Config) (tenantId : Uuid) : Prop :=
  (∃ event ∈ config.state.stream, event.tenantId = tenantId ∧ event.deliverable = true) ∨
      ∃ pid, (config.procs pid).next = some (.publish tenantId) ∨
      (config.procs pid).next = some (.createMany (seeds tenantId))

/-- No call has anything left to do and no event is delivered any more. -/
def Quiescent (config : Config) : Prop :=
  (∀ event ∈ config.state.stream, event.deliverable = false) ∧
    ∀ pid act, (config.procs pid).next = some act → act matches .next

def FieldsDue (config : Config) : Prop :=
  (∀ tenant ∈ config.state.tenants, Seeded config.state tenant.id ∨ Due config tenant.id) ∧
    (Quiescent config → ∀ tenant ∈ config.state.tenants, Seeded config.state tenant.id)

/-- A handler may still fail: the tenant has its fields, or its event has deliveries left. -/
def Spared (redeliveryCount : Nat → Nat) (state : State) (tenantId : Uuid) : Prop :=
  Seeded state tenantId ∨ ∀ event ∈ state.stream, event.tenantId = tenantId →
    event.deliveries < MAX_DELIVER ∧ redeliveryCount event.deliveries + 1 < MAX_DELIVER

/-- No custom field of the tenant has the name of a system field. -/
def Unnamed (rows : List Definition) (tenantId : Uuid) : Prop :=
  ∀ row ∈ rows, row.tenantId = tenantId → row.field.deletedAt = none →
    ∀ f ∈ SYSTEM_FIELDS, row.field.apiName = f.apiName → row.field.fieldId = f.fieldId

/-- The answers with which no tenant is left without its event or its fields. -/
def answers (redeliveryCount : Nat → Nat) (state : State) : Act → Outcome → Prop
  | .transaction .., outcome => outcome ≠ .lost
  | .publish _, outcome => outcome ≠ .failed
  | .createMany data, outcome =>
      ∀ row ∈ data, Unnamed state.definitions row.tenantId ∧
        (outcome = .failed → Spared redeliveryCount state row.tenantId)
  | _, _ => True

def survives (redeliveryCount : Nat → Nat) (state : State) : Act → Prop
  | .publish _ => False
  | .createMany data => ∀ row ∈ data, Spared redeliveryCount state row.tenantId
  | _ => True

def smooth (redeliveryCount : Nat → Nat) (config : Config) : Interleaving.Move Call Fate → Prop
  | .act pid (.outcome outcome) => ∀ act, (config.procs pid).next = some act →
    answers redeliveryCount config.state act outcome
  | .crash pid => ∀ act, (config.procs pid).next = some act → survives redeliveryCount config.state act
  | _ => True

theorem insertDefinition_grows {rows : List Definition} {row : Definition} (data : Definition)
    (member : row ∈ rows) :
    row ∈ insertDefinition rows data := by
  unfold insertDefinition
  split
  · exact member
  · exact List.mem_append_left _ member

theorem createMany_grows {rows : List Definition} {row : Definition} (data : List Definition)
    (member : row ∈ rows) :
    row ∈ createMany data rows := by
  unfold createMany
  induction data generalizing rows with
  | nil => exact member
  | cons head rest ih => exact ih (insertDefinition_grows head member)

theorem mem_insertDefinition {rows : List Definition} {data row : Definition}
    (member : row ∈ insertDefinition rows data) :
    row ∈ rows ∨ row = data := by
  unfold insertDefinition at member
  split at member
  · exact .inl member
  · simpa using member

-- Where only system fields have system names, a system field is skipped only if it is there.
theorem insertDefinition_seeds {rows : List Definition} {tenantId : Uuid} (unnamed : Unnamed rows tenantId)
    {f : FieldDefinition} (isSystem : f ∈ SYSTEM_FIELDS) :
    ∃ row ∈ insertDefinition rows ⟨tenantId, f⟩, row.tenantId = tenantId ∧ row.field.fieldId = f.fieldId := by
  unfold insertDefinition
  split
  · next clash =>
    obtain ⟨row, member, clashes⟩ := List.any_eq_true.mp clash
    simp only [Definition.clashes, Bool.and_eq_true, Bool.or_eq_true, beq_iff_eq,
      Option.isNone_iff_eq_none] at clashes
    obtain ⟨own, same | ⟨live, named⟩⟩ := clashes
    · exact ⟨row, member, own, same⟩
    · exact ⟨row, member, own, unnamed row member own live f isSystem named⟩
  · exact ⟨_, List.mem_append_right _ (List.mem_singleton_self _), rfl, rfl⟩

theorem system_names : ∀ f ∈ SYSTEM_FIELDS, ∀ g ∈ SYSTEM_FIELDS, f.apiName = g.apiName →
    f.fieldId = g.fieldId := by
  decide

theorem insertDefinition_unnamed {rows : List Definition} {tenantId : Uuid} (unnamed : Unnamed rows tenantId)
    {f : FieldDefinition}
    (isSystem : f ∈ SYSTEM_FIELDS) : Unnamed (insertDefinition rows ⟨tenantId, f⟩) tenantId := by
  intro row member own live g other named
  rcases mem_insertDefinition member with old | rfl
  · exact unnamed row old own live g other named
  · exact system_names f isSystem g other named

theorem createMany_seeds {rows : List Definition} {tenantId : Uuid} (unnamed : Unnamed rows tenantId)
    (fields : List FieldDefinition) (areSystem : ∀ f ∈ fields, f ∈ SYSTEM_FIELDS) :
    ∀ f ∈ fields, ∃ row ∈ createMany (fields.map fun f => ⟨tenantId, f⟩) rows, row.tenantId = tenantId ∧
    row.field.fieldId = f.fieldId := by
  induction fields generalizing rows with
  | nil => exact fun f member => nomatch member
  | cons head rest ih =>
    have isSystem := areSystem head (List.mem_cons_self ..)
    intro f member
    rcases List.mem_cons.mp member with rfl | later
    · obtain ⟨row, here, found⟩ := insertDefinition_seeds unnamed isSystem
      have kept : row ∈ createMany (rest.map fun f => ⟨tenantId, f⟩) (insertDefinition rows ⟨tenantId, f⟩) :=
        createMany_grows _ here
      exact ⟨row, kept, found⟩
    · exact ih (insertDefinition_unnamed unnamed isSystem)
        (fun f member => areSystem f (List.mem_cons_of_mem _ member)) f later

attribute [local irreducible] SYSTEM_FIELDS in
theorem seeded_createMany {state : State} {tenantId : Uuid} (unnamed : Unnamed state.definitions tenantId) :
    Seeded (state.withDefinitions (createMany (seeds tenantId) state.definitions)) tenantId := by
  unfold Seeded State.withDefinitions seeds
  exact createMany_seeds unnamed SYSTEM_FIELDS fun _ member => member

/-- Definitions and events stay; events count their deliveries up. -/
structure Grows (state next : State) : Prop where
  seeded : ∀ tenantId, Seeded state tenantId → Seeded next tenantId
  stream : ∀ (seq : Nat) (event : Event), state.stream[seq]? = some event →
      ∃ later, next.stream[seq]? = some later ∧ later.tenantId = event.tenantId ∧
      event.deliveries ≤ later.deliveries

theorem Grows.refl (state : State) : Grows state state :=
  ⟨fun _ seeded => seeded, fun _ event found => ⟨event, found, rfl, Nat.le_refl _⟩⟩

theorem Grows.definitions {state : State} {definitions : List Definition}
    (kept : ∀ row ∈ state.definitions, ∃ later ∈ definitions, later.tenantId = row.tenantId ∧
      later.field.fieldId = row.field.fieldId) :
    Grows state (state.withDefinitions definitions) := by
  refine ⟨fun tenantId seeded f isSystem => ?_, fun _ event found => ⟨event, found, rfl, Nat.le_refl _⟩⟩
  obtain ⟨row, member, own, same⟩ := seeded f isSystem
  obtain ⟨later, there, tenant, field⟩ := kept row member
  exact ⟨later, there, tenant.trans own, field.trans same⟩

theorem Grows.modify {state : State} {f : Event → Event} (seq : Nat)
    (named : ∀ event, (f event).tenantId = event.tenantId)
    (counted : ∀ event, event.deliveries ≤ (f event).deliveries) :
    Grows state (state.withStream (state.stream.modify seq f)) := by
  refine ⟨fun _ seeded => seeded, fun other event found => ?_⟩
  refine ⟨if seq = other then f event else event, ?_, ?_⟩
  · simp only [State.withStream, List.getElem?_modify, found]
    split <;> rfl
  · split
    · exact ⟨named event, counted event⟩
    · exact ⟨rfl, Nat.le_refl _⟩

theorem Grows.append {state : State} (event : Event) : Grows state
    (state.withStream (state.stream ++ [event])) := by
  refine ⟨fun _ seeded => seeded, fun seq old found => ⟨old, ?_, rfl, Nat.le_refl _⟩⟩
  have bound := (List.getElem?_eq_some_iff.mp found).1
  simpa [State.withStream, List.getElem?_append_left bound] using found

/-- The fields of every tenant whose event is at this place are there. -/
def SeededAt (state : State) (seq : Nat) : Prop := ∃ event, state.stream[seq]? = some event ∧
    Seeded state event.tenantId

theorem SeededAt.grows {state next : State} {seq : Nat} (seeded : SeededAt state seq)
    (grows : Grows state next) : SeededAt next seq := by
  obtain ⟨event, found, fields⟩ := seeded
  obtain ⟨later, there, same, -⟩ := grows.stream seq event found
  exact ⟨later, there, by rw [same]; exact grows.seeded _ fields⟩

/-- What is left of a handler that has seeded its tenant, or whose event will be delivered again. -/
inductive Settling (state : State) : CoreScript Answer → Prop where
  | ret (answer : Answer) : Settling state (.ret answer)
  | fail (failure : Failure) : Settling state (.fail failure)
  | ack (seq : Nat) (rest : Unit → CoreScript Answer) : SeededAt state seq →
      (∀ reply, Settling state (rest reply)) →
      Settling state (.call (.ack seq) rest)
  | nak (seq delay : Nat) (rest : Unit → CoreScript Answer) : (∀ reply, Settling state (rest reply)) →
      Settling state (.call (.nak seq delay) rest)
  | term (seq : Nat) (rest : Unit → CoreScript Answer) : SeededAt state seq →
      (∀ reply, Settling state (rest reply)) →
      Settling state (.call (.term seq) rest)
  | deadLetter (tenantId : Uuid) (rest : Except Failure Unit →
    CoreScript Answer) : (∀ reply, Settling state (rest reply)) →
      Settling state (.call (.publishDeadLetter tenantId) rest)

theorem Settling.grows {state next : State} {script : CoreScript Answer} (settling : Settling state script)
    (grows : Grows state next) :
    Settling next script := by
  induction settling with
  | ret answer => exact .ret answer
  | fail failure => exact .fail failure
  | ack seq rest seeded _ ih => exact .ack seq rest (seeded.grows grows) ih
  | nak seq delay rest _ ih => exact .nak seq delay rest ih
  | term seq rest seeded _ ih => exact .term seq rest (seeded.grows grows) ih
  | deadLetter tenantId rest _ ih => exact .deadLetter tenantId rest ih

section
variable (isCommonPassword : String → Bool) (hash : String → String) (redeliveryCount : Nat → Nat)

/-- What a call may have left to do. -/
inductive Stage (state : State) : CoreScript Answer → Prop where
  | begins (call : Call) : Stage state (code isCommonPassword hash call)
  | publishes (tenantId : Uuid) (rest : Except Failure Unit →
    CoreScript Answer) : (∀ reply, Settling state (rest reply)) →
      Stage state (.call (.publish tenantId) rest)
  | processes (msg : Delivery) (event : Event) (count : Nat) : state.stream[msg.seq]? = some event →
      event.tenantId = msg.tenantId →
      count ≤ event.deliveries → msg.redeliveryCount = redeliveryCount count →
      Stage state (process msg >>= fun _ => .ret .done)
  | settles (script : CoreScript Answer) : Settling state script → Stage state script

variable {isCommonPassword hash redeliveryCount}

theorem Stage.grows {state next : State} {script : CoreScript Answer}
    (stage : Stage isCommonPassword hash redeliveryCount state script)
    (grows : Grows state next) : Stage isCommonPassword hash redeliveryCount next script := by
  cases stage with
  | begins call => exact .begins call
  | publishes tenantId rest settling =>
    exact .publishes tenantId rest fun reply => (settling reply).grows grows
  | processes msg event count found own bound counted =>
    obtain ⟨later, there, same, more⟩ := grows.stream msg.seq event found
    exact .processes msg later count there (same.trans own) (Nat.le_trans bound more) counted
  | settles _ settling => exact .settles _ (settling.grows grows)

/-- An event that is still to be delivered, or that is in the hands of a handler. -/
def Tended (procs : Nat → Status Call Act Act.Reply Failure Answer) (state : State)
    (tenantId : Uuid) : Prop :=
  ∃ event ∈ state.stream, event.tenantId = tenantId ∧
    (event.deliveries < MAX_DELIVER ∨ ∃ pid, (procs pid).next = some (.createMany (seeds tenantId)))

def Announced (procs : Nat → Status Call Act Act.Reply Failure Answer) (tenantId : Uuid) : Prop :=
  ∃ pid, (procs pid).next = some (.publish tenantId)

structure Kept (isCommonPassword : String → Bool) (hash : String → String) (redeliveryCount : Nat → Nat)
    (config : Config) : Prop where
  stages : ∀ pid call script, config.procs pid = .running call script →
    Stage isCommonPassword hash redeliveryCount config.state script
  settled : ∀ event ∈ config.state.stream, event.settled = true → Seeded config.state event.tenantId
  tended : ∀ tenant ∈ config.state.tenants, Seeded config.state tenant.id ∨ Announced config.procs tenant.id ∨
    Tended config.procs config.state tenant.id

theorem Kept.due {config : Config} (kept : Kept isCommonPassword hash redeliveryCount config) :
    FieldsDue config := by
  have due : ∀ tenant ∈ config.state.tenants, Seeded config.state tenant.id ∨ Due config tenant.id := by
    intro tenant member
    rcases kept.tended tenant member with seeded | ⟨pid, publishes⟩ | ⟨event, sent, own,
      remaining | ⟨pid, seeding⟩⟩
    · exact .inl seeded
    · exact .inr (.inr ⟨pid, .inl publishes⟩)
    · cases settled : event.settled with
      | true => exact .inl (own ▸ kept.settled event sent settled)
      | false => exact .inr (.inl ⟨event, sent, own, by simp [Event.deliverable, settled, remaining]⟩)
    · exact .inr (.inr ⟨pid, .inr seeding⟩)
  refine ⟨due, fun quiet tenant member => ?_⟩
  rcases due tenant member with seeded | ⟨event, sent, -, deliverable⟩ | ⟨pid, publishes | seeding⟩
  · exact seeded
  · rw [quiet.1 event sent] at deliverable
    cases deliverable
  · cases quiet.2 pid _ publishes
  · cases quiet.2 pid _ seeding

/-! ## One step -/

theorem mem_stream {stream : List Event} {event : Event} (member : event ∈ stream) : ∃ seq :
    Nat, stream[seq]? = some event :=
  List.mem_iff_getElem?.mp member

theorem Announced.put {procs : Nat → Status Call Act Act.Reply Failure Answer} {tenantId : Uuid}
    (announced : Announced procs tenantId)
    {pid : Nat} (status : Status Call Act Act.Reply Failure Answer)
    (other : (procs pid).next ≠ some (.publish tenantId)) :
    Announced (Function.update procs pid status) tenantId := by
  obtain ⟨publisher, publishes⟩ := announced
  have apart : publisher ≠ pid := fun same => other (same ▸ publishes)
  exact ⟨publisher, by rw [Function.update_of_ne apart]; exact publishes⟩

/-- The deliveries of every event are what they were. -/
def Counts (state next : State) : Prop :=
  ∀ (seq : Nat) (event : Event), state.stream[seq]? = some event →
      ∃ later, next.stream[seq]? = some later ∧ later.tenantId = event.tenantId ∧
      later.deliveries = event.deliveries

theorem Tended.put {procs : Nat → Status Call Act Act.Reply Failure Answer} {state next : State}
    {tenantId : Uuid}
    (tended : Tended procs state tenantId) {pid : Nat} (status : Status Call Act Act.Reply Failure Answer)
    (other : (procs pid).next ≠ some (.createMany (seeds tenantId))) (counts : Counts state next) :
    Tended (Function.update procs pid status) next tenantId := by
  obtain ⟨event, member, own, remaining⟩ := tended
  obtain ⟨seq, found⟩ := mem_stream member
  obtain ⟨later, there, same, counted⟩ := counts seq event found
  refine ⟨later, List.mem_of_getElem? there, same.trans own, ?_⟩
  rcases remaining with left | ⟨handler, seeding⟩
  · exact .inl (counted ▸ left)
  · have apart : handler ≠ pid := fun same => other (same ▸ seeding)
    exact .inr ⟨handler, by rw [Function.update_of_ne apart]; exact seeding⟩

variable {config : Config}

theorem Kept.put (kept : Kept isCommonPassword hash redeliveryCount config) {pid : Nat} {next : State}
    {status : Status Call Act Act.Reply Failure Answer} (grows : Grows config.state next)
    (stage : ∀ call script, status = .running call script →
      Stage isCommonPassword hash redeliveryCount next script)
    (settled : ∀ event ∈ next.stream, event.settled = true → Seeded next event.tenantId)
    (tended : ∀ tenant ∈ next.tenants, Seeded next tenant.id ∨
      Announced (Function.update config.procs pid status) tenant.id ∨
      Tended (Function.update config.procs pid status) next tenant.id) :
    Kept isCommonPassword hash redeliveryCount (config.put pid next status) := by
  refine ⟨fun other call script running => ?_, settled, tended⟩
  by_cases same : other = pid
  · subst same
    rw [Interleaving.Config.put_same] at running
    exact stage call script running
  · rw [Interleaving.Config.put_other config next status same] at running
    exact (kept.stages other call script running).grows grows

theorem Kept.quiet (kept : Kept isCommonPassword hash redeliveryCount config) {pid : Nat} {next : State}
    {status : Status Call Act Act.Reply Failure Answer} (grows : Grows config.state next)
    (counts : Counts config.state next)
    (silent : ∀ tenantId, (config.procs pid).next ≠ some (.publish tenantId) ∧
      (config.procs pid).next ≠ some (.createMany (seeds tenantId)))
    (tenants : next.tenants = config.state.tenants)
    (stage : ∀ call script, status = .running call script →
      Stage isCommonPassword hash redeliveryCount next script)
    (settled : ∀ event ∈ next.stream, event.settled = true → Seeded next event.tenantId) :
    Kept isCommonPassword hash redeliveryCount (config.put pid next status) := by
  refine kept.put grows stage settled fun tenant member => ?_
  rw [tenants] at member
  rcases kept.tended tenant member with seeded | announced | tended
  · exact .inl (grows.seeded _ seeded)
  · exact .inr (.inl (announced.put status (silent tenant.id).1))
  · exact .inr (.inr (tended.put status (silent tenant.id).2 counts))

theorem Counts.refl (state : State) : Counts state state := fun _ event found => ⟨event, found, rfl, rfl⟩

theorem counts_settle (state : State) (seq : Nat) : Counts state (state.settle seq) := by
  intro other event found
  refine ⟨if seq = other then { event with settled := true } else event, ?_, ?_⟩
  · simp only [State.settle, State.withStream, List.getElem?_modify, found]
    split <;> rfl
  · split <;> exact ⟨rfl, rfl⟩

theorem Kept.settled_settle (kept : Kept isCommonPassword hash redeliveryCount config) {seq : Nat}
    (seeded : SeededAt config.state seq) :
    ∀ event ∈ (config.state.settle seq).stream, event.settled = true → Seeded
    (config.state.settle seq) event.tenantId := by
  intro event member settled
  obtain ⟨other, found⟩ := mem_stream member
  simp only [State.settle, State.withStream, List.getElem?_modify] at found
  obtain ⟨old, there, same⟩ := Option.map_eq_some_iff.mp found
  split at same
  · next here =>
    subst here
    obtain ⟨known, present, fields⟩ := seeded
    rw [present] at there
    cases there
    subst same
    exact fields
  · subst same
    exact kept.settled old (List.mem_of_getElem? there) settled

theorem Kept.settle (kept : Kept isCommonPassword hash redeliveryCount config) {pid : Nat} {seq : Nat}
    (seeded : SeededAt config.state seq)
    {outcome : Outcome} {status : Status Call Act Act.Reply Failure Answer}
    (silent : ∀ tenantId, (config.procs pid).next ≠ some (.publish tenantId) ∧
      (config.procs pid).next ≠ some (.createMany (seeds tenantId)))
    (stage : ∀ next, Grows config.state next → ∀ call script, status = .running call script →
      Stage isCommonPassword hash redeliveryCount next script) :
    Kept isCommonPassword hash redeliveryCount
      (config.put pid (outcome.apply () config.state (config.state.settle seq)).2 status) := by
  have grows : Grows config.state (config.state.settle seq) :=
    .modify seq (fun _ => rfl) fun _ => Nat.le_refl _
  cases outcome with
  | failed => exact kept.quiet (.refl _) (.refl _) silent rfl (stage _ (.refl _)) kept.settled
  | done =>
    exact kept.quiet grows (counts_settle _ seq) silent rfl (stage _ grows) (kept.settled_settle seeded)
  | lost =>
    exact kept.quiet grows (counts_settle _ seq) silent rfl (stage _ grows) (kept.settled_settle seeded)

/-- What a handler does once `createMany` has answered. -/
def afterSeed (msg : Delivery) : Except Failure Unit → CoreScript Answer
  | .ok _ => .call (.ack msg.seq) fun _ => .ret .done
  | .error _ =>
      if MAX_DELIVER ≤ msg.redeliveryCount + 1 then
        .call (.publishDeadLetter msg.tenantId) fun reply =>
          match reply with
          | .ok _ => .call (.term msg.seq) fun _ => .ret .done
          | .error failure => .fail failure
      else .call (.nak msg.seq (backoff (msg.redeliveryCount + 1))) fun _ => .ret .done

theorem process_eq (msg : Delivery) :
    (process msg >>= fun _ => .ret .done : CoreScript Answer) = .call (.createMany (seeds msg.tenantId))
    (afterSeed msg) := by
  refine congrArg (Script.call (Act.createMany (seeds msg.tenantId))) (funext fun reply => ?_)
  cases reply with
  | ok value => rfl
  | error failure =>
    change (if MAX_DELIVER ≤ msg.redeliveryCount + 1 then deadLetter msg >>= fun _ => ask (.term msg.seq)
      else ask (.nak msg.seq (backoff (msg.redeliveryCount + 1)))) >>=
        (fun _ => .ret .done) = afterSeed msg (.error failure)
    simp only [afterSeed]
    split
    · refine congrArg (Script.call (Act.publishDeadLetter msg.tenantId)) (funext fun reply => ?_)
      cases reply <;> rfl
    · rfl

theorem afterSeed_settling {state : State} {msg : Delivery} (reply : Except Failure Unit)
    (seeded : MAX_DELIVER ≤ msg.redeliveryCount + 1 ∨ reply = .ok () → SeededAt state msg.seq) :
    Settling state (afterSeed msg reply) := by
  cases reply with
  | ok value => exact .ack msg.seq _ (seeded (.inr rfl)) fun _ => .ret _
  | error failure =>
    simp only [afterSeed]
    split
    · next last =>
      refine .deadLetter msg.tenantId _ fun reply => ?_
      cases reply with
      | ok value => exact .term msg.seq _ (seeded (.inl last)) fun _ => .ret _
      | error failure => exact .fail failure
    · exact .nak msg.seq _ _ fun _ => .ret _

section Acts
variable {pid : Nat} {call : Call} {fate : Fate} {next : State}

theorem Kept.settling (kept : Kept isCommonPassword hash redeliveryCount config) {act : Act}
    {rest : act.Reply → CoreScript Answer}
    {reply : act.Reply} (running : config.procs pid = .running call (.call act rest))
    (settling : Settling config.state (.call act rest))
    (answered : perform redeliveryCount act fate config.state = some (reply, next)) :
    Kept isCommonPassword hash redeliveryCount (config.put pid next (.running call (rest reply))) := by
  have awaited : (config.procs pid).next = some act := by rw [running, Status.next]
  have stays : ∀ {rest : CoreScript Answer}, Settling config.state rest →
      ∀ later, Grows config.state later → ∀ other script,
          Status.running call rest = .running other script →
          Stage isCommonPassword hash redeliveryCount later script := by
    intro rest settling later grows other script same
    cases same
    exact .settles _ (settling.grows grows)
  cases settling with
  | ack seq rest seeded settling =>
    cases fate with
    | outcome outcome =>
      cases answered
      exact kept.settle seeded (fun tenantId => by simp [awaited]) (stays (settling ()))
    | _ => cases answered
  | nak seq delay rest settling =>
    cases fate with
    | outcome outcome =>
      cases answered
      exact kept.quiet (.refl _) (.refl _) (fun tenantId => by simp [awaited]) rfl
        (stays (settling ()) _ (.refl _)) kept.settled
    | _ => cases answered
  | term seq rest seeded settling =>
    cases fate with
    | outcome outcome =>
      cases answered
      exact kept.settle seeded (fun tenantId => by simp [awaited]) (stays (settling ()))
    | _ => cases answered
  | deadLetter tenantId rest settling =>
    have same : ∀ later : State, later.definitions = config.state.definitions →
        later.stream = config.state.stream →
            later.tenants = config.state.tenants →
            Kept isCommonPassword hash redeliveryCount (config.put pid later
            (.running call (rest reply))) := by
      intro later definitions stream tenants
      have seeded : ∀ id, Seeded config.state id → Seeded later id := fun id fields => by
        unfold Seeded; rw [definitions]; exact fields
      have grows : Grows config.state later :=
        ⟨seeded, fun _ event found => ⟨event, stream ▸ found, rfl, Nat.le_refl _⟩⟩
      refine kept.quiet grows (fun _ event found => ⟨event, stream ▸ found, rfl, rfl⟩)
        (fun id => by simp [awaited]) tenants
        (stays (settling reply) _ grows) fun event member settled => ?_
      exact seeded _ (kept.settled event (stream ▸ member) settled)
    cases fate with
    | outcome outcome => cases outcome <;> cases answered <;> exact same _ rfl rfl rfl
    | _ => cases answered

theorem Kept.publish (kept : Kept isCommonPassword hash redeliveryCount config) {tenantId : Uuid}
    {rest : Except Failure Unit → CoreScript Answer} {reply : Except Failure Unit}
    (running : config.procs pid = .running call (.call (.publish tenantId) rest))
    (settling : ∀ reply, Settling config.state (rest reply))
    (permitted : smooth redeliveryCount config (.act pid fate))
    (answered : perform redeliveryCount (.publish tenantId) fate config.state = some (reply, next)) :
    Kept isCommonPassword hash redeliveryCount (config.put pid next (.running call (rest reply))) := by
  have awaited : (config.procs pid).next = some (.publish tenantId) := by rw [running, Status.next]
  cases fate with
  | outcome outcome =>
    have sent : next = config.state.withStream (config.state.stream ++ [⟨tenantId, 0, false⟩]) := by
      cases outcome with
      | failed => exact absurd rfl (permitted _ awaited)
      | _ => exact (congrArg Prod.snd (Option.some.inj answered)).symm
    subst sent
    have grows : Grows config.state (config.state.withStream (config.state.stream ++
      [⟨tenantId, 0, false⟩])) := .append _
    refine kept.put grows (fun other script same => ?_) (fun event member settled => ?_)
      fun tenant member => ?_
    · cases same
      exact .settles _ ((settling reply).grows grows)
    · rcases List.mem_append.mp member with old | new
      · exact kept.settled event old settled
      · rw [List.mem_singleton.mp new] at settled
        cases settled
    · by_cases own : tenant.id = tenantId
      · exact .inr (.inr ⟨_, List.mem_append_right _ (List.mem_singleton_self _), own.symm,
          .inl (by simp [MAX_DELIVER])⟩)
      · rcases kept.tended tenant member with seeded | announced | tended
        · exact .inl seeded
        · exact .inr (.inl (announced.put _ (by rw [awaited]; simp [Ne.symm own])))
        · refine .inr (.inr (tended.put _ (by simp [awaited]) fun seq event found => ⟨event, ?_, rfl, rfl⟩))
          have bound := (List.getElem?_eq_some_iff.mp found).1
          simpa [State.withStream, List.getElem?_append_left bound] using found
  | _ => cases answered

theorem mem_seeds (tenantId : Uuid) : ∃ row ∈ seeds tenantId, row.tenantId = tenantId :=
  ⟨⟨tenantId, system 1 "first_name" .text false false []⟩, by simp [seeds, SYSTEM_FIELDS], rfl⟩

attribute [local irreducible] SYSTEM_FIELDS

theorem tenant_of_seeds {tenantId : Uuid} {row : Definition} (member : row ∈ seeds tenantId) :
    row.tenantId = tenantId := by
  obtain ⟨f, -, rfl⟩ := List.mem_map.mp member
  rfl

theorem seeds_injective {tenantId other : Uuid} (same : seeds tenantId = seeds other) : tenantId = other := by
  obtain ⟨row, member, own⟩ := mem_seeds tenantId
  exact own.symm.trans (tenant_of_seeds (same ▸ member))

theorem Kept.createMany (kept : Kept isCommonPassword hash redeliveryCount config)
    (monotone : Monotone redeliveryCount) {msg : Delivery}
    {event : Event} {count : Nat} {reply : Except Failure Unit}
    (running : config.procs pid = .running call (.call (.createMany (seeds msg.tenantId)) (afterSeed msg)))
    (found : config.state.stream[msg.seq]? = some event) (own : event.tenantId = msg.tenantId)
    (bound : count ≤ event.deliveries)
    (counted : msg.redeliveryCount = redeliveryCount count)
    (permitted : smooth redeliveryCount config (.act pid fate))
    (answered : perform redeliveryCount (.createMany (seeds msg.tenantId)) fate
      config.state = some (reply, next)) :
    Kept isCommonPassword hash redeliveryCount
    (config.put pid next (.running call (afterSeed msg reply))) := by
  have awaited : (config.procs pid).next = some (.createMany (seeds msg.tenantId)) := by
    rw [running, Status.next]
  have silent : ∀ tenantId, (config.procs pid).next ≠ some (.publish tenantId) :=
    fun tenantId => by simp [awaited]
  have apart : ∀ tenantId, tenantId ≠ msg.tenantId →
      (config.procs pid).next ≠ some (.createMany (seeds tenantId)) := by
    intro tenantId distinct same
    rw [awaited] at same
    exact distinct (seeds_injective (Act.createMany.inj (Option.some.inj same))).symm
  obtain ⟨row, member, tenant⟩ := mem_seeds msg.tenantId
  cases fate with
  | outcome outcome =>
    have rule := permitted _ awaited row member
    rw [tenant] at rule
    by_cases failed : outcome = .failed
    · subst failed
      cases answered
      have spared := rule.2 rfl
      refine kept.put (.refl _) (fun other script same => ?_) kept.settled fun tenant member => ?_
      · cases same
        refine .settles _ (afterSeed_settling _ fun last => ?_)
        rcases spared with seeded | early
        · exact ⟨event, found, own ▸ seeded⟩
        · have attempts := (early event (List.mem_of_getElem? found) own).2
          have fewer := monotone bound
          rcases last with last | impossible
          · omega
          · cases impossible
      · rcases kept.tended tenant member with seeded | announced | tended
        · exact .inl seeded
        · exact .inr (.inl (announced.put _ (silent _)))
        · by_cases this : tenant.id = msg.tenantId
          · rcases spared with seeded | early
            · exact .inl (this ▸ seeded)
            · obtain ⟨event, sent, own, -⟩ := tended
              exact .inr (.inr ⟨event, sent, own, .inl (early event sent (own.trans this)).1⟩)
          · exact .inr (.inr (tended.put _ (apart _ this) (.refl _)))
    · have made : next = config.state.withDefinitions (Tenants.createMany (seeds msg.tenantId)
          config.state.definitions) := by
        cases outcome with
        | failed => exact absurd rfl failed
        | _ => exact (congrArg Prod.snd (Option.some.inj answered)).symm
      subst made
      have seeded := seeded_createMany rule.1
      have grows :
          Grows config.state (config.state.withDefinitions
          (Tenants.createMany (seeds msg.tenantId) config.state.definitions)) :=
        .definitions fun row member => ⟨row, createMany_grows _ member, rfl, rfl⟩
      refine kept.put grows (fun other script same => ?_) (fun event member settled => ?_)
        fun tenant member => ?_
      · cases same
        exact .settles _ (afterSeed_settling _ fun _ => ⟨event, found, own ▸ seeded⟩)
      · exact grows.seeded _ (kept.settled event member settled)
      · by_cases this : tenant.id = msg.tenantId
        · exact .inl (this ▸ seeded)
        · rcases kept.tended tenant member with seeded | announced | tended
          · exact .inl (grows.seeded _ seeded)
          · exact .inr (.inl (announced.put _ (silent _)))
          · exact .inr (.inr (tended.put _ (apart _ this) (.refl _)))
  | _ => cases answered

/-- `create` once its transaction has answered. -/
def announce : Except Failure Tenant → CoreScript Answer
  | .ok tenant =>
      .call (.publish tenant.id) fun reply =>
        match reply with
        | .ok _ => .ret (.tenant tenant)
        | .error failure => .fail failure
  | .error failure => .fail failure

theorem code_create {input : TenantCreateInput}
    (strong : (input.admin.any fun admin => isCommonPassword admin.password) = false) :
    code isCommonPassword hash (.create input) =
      .call (.transaction input (input.admin.map fun admin => hash admin.password)) announce := by
  simp only [code, create, strong]
  refine congrArg (Script.call (Act.transaction input _)) (funext fun reply => ?_)
  cases reply with
  | error failure => rfl
  | ok tenant =>
    refine congrArg (Script.call (Act.publish tenant.id)) (funext fun reply => ?_)
    cases reply <;> rfl

theorem code_common {input : TenantCreateInput}
    (common : (input.admin.any fun admin => isCommonPassword admin.password) = true) :
    code isCommonPassword hash (.create input) = .fail
    (.badRequest "/admin/password" "this password is too common") := by
  simp only [code, create, common]
  rfl

theorem insertTenant_frame (input : TenantCreateInput) (adminPasswordHash : Option String) (state : State) :
    (insertTenant input adminPasswordHash state).2.tenants =
      (insertTenant input adminPasswordHash state).1 :: state.tenants ∧
      (insertTenant input adminPasswordHash state).2.definitions = state.definitions ∧
      (insertTenant input adminPasswordHash state).2.stream = state.stream := by
  unfold insertTenant
  dsimp only
  split <;> exact ⟨rfl, rfl, rfl⟩

theorem Kept.transaction (kept : Kept isCommonPassword hash redeliveryCount config)
    {input : TenantCreateInput} {adminPasswordHash : Option String} {reply : Except Failure Tenant}
    (running : config.procs pid = .running call (.call (.transaction input adminPasswordHash) announce))
    (permitted : smooth redeliveryCount config (.act pid fate))
    (answered : perform redeliveryCount (.transaction input adminPasswordHash) fate
      config.state = some (reply, next)) :
    Kept isCommonPassword hash redeliveryCount (config.put pid next (.running call (announce reply))) := by
  have awaited : (config.procs pid).next = some (.transaction input adminPasswordHash) := by
    rw [running, Status.next]
  have silent : ∀ tenantId, (config.procs pid).next ≠ some (.publish tenantId) :=
    fun tenantId => by simp [awaited]
  have idle : ∀ tenantId, (config.procs pid).next ≠ some (.createMany (seeds tenantId)) :=
    fun tenantId => by simp [awaited]
  cases fate with
  | outcome outcome =>
    cases outcome with
    | lost => exact absurd rfl (permitted _ awaited)
    | failed =>
      cases answered
      refine kept.quiet (.refl _) (.refl _) (fun id => ⟨silent id, idle id⟩) rfl
        (fun other script same => ?_) kept.settled
      cases same
      exact .settles _ (.fail _)
    | done =>
      obtain ⟨tenants, definitions, stream⟩ := insertTenant_frame input adminPasswordHash config.state
      have made : (Except.ok (insertTenant input adminPasswordHash config.state).1,
        (insertTenant input adminPasswordHash config.state).2) =
          (reply, next) := Option.some.inj answered
      generalize insertTenant input adminPasswordHash config.state = inserted
        at made tenants definitions stream
      cases made
      have seeded : ∀ id, Seeded config.state id → Seeded inserted.2 id := by
        intro id fields
        unfold Seeded
        rw [definitions]
        exact fields
      have grows : Grows config.state inserted.2 :=
        ⟨seeded, fun _ event found => ⟨event, stream ▸ found, rfl, Nat.le_refl _⟩⟩
      refine kept.put grows (fun other script same => ?_) (fun event member settled => ?_)
        fun tenant member => ?_
      · cases same
        refine .publishes _ _ fun reply => ?_
        cases reply with
        | ok _ => exact .ret _
        | error failure => exact .fail failure
      · exact seeded _ (kept.settled event (stream ▸ member) settled)
      · rw [tenants] at member
        rcases List.mem_cons.mp member with rfl | old
        · exact .inr (.inl ⟨pid, by rw [Function.update_self]; rfl⟩)
        · rcases kept.tended tenant old with fields | announced | tended
          · exact .inl (seeded _ fields)
          · exact .inr (.inl (announced.put _ (silent _)))
          · exact .inr (.inr (tended.put _ (idle _) fun _ event found => ⟨event, stream ▸ found, rfl, rfl⟩))
  | _ => cases answered

theorem Kept.receive (kept : Kept isCommonPassword hash redeliveryCount config) {msg : Delivery}
    (running : config.procs pid = .running call (.call .next fun msg => process msg >>= fun _ => .ret .done))
    (answered : perform redeliveryCount .next fate config.state = some (msg, next)) :
    Kept isCommonPassword hash redeliveryCount
    (config.put pid next (.running call (process msg >>= fun _ => .ret .done))) := by
  have awaited : (config.procs pid).next = some .next := by rw [running, Status.next]
  have silent : ∀ tenantId, (config.procs pid).next ≠ some (.publish tenantId) :=
    fun tenantId => by simp [awaited]
  have idle : ∀ tenantId, (config.procs pid).next ≠ some (.createMany (seeds tenantId)) :=
    fun tenantId => by simp [awaited]
  cases fate with
  | delivers seq =>
    simp only [perform] at answered
    split at answered
    · next event found =>
      split at answered
      · cases answered
        let count (event : Event) : Event := { event with deliveries := event.deliveries + 1 }
        have grows : Grows config.state (config.state.withStream (config.state.stream.modify seq count)) :=
          .modify seq (fun _ => rfl) fun event => Nat.le_succ _
        have counted : (config.state.stream.modify seq count)[seq]? = some (count event) := by
          rw [List.getElem?_modify_eq, found]
          rfl
        refine kept.put grows (fun other script same => ?_) (fun event member settled => ?_)
          fun tenant member => ?_
        · cases same
          exact .processes _ (count event) (event.deliveries + 1) counted rfl (Nat.le_refl _) rfl
        · obtain ⟨place, there⟩ := mem_stream member
          obtain ⟨old, here, same⟩ := Option.map_eq_some_iff.mp (List.getElem?_modify .. ▸ there)
          split at same
          · subst same
            exact kept.settled old (List.mem_of_getElem? here) settled
          · subst same
            exact kept.settled old (List.mem_of_getElem? here) settled
        · rcases kept.tended tenant member with fields | announced | tended
          · exact .inl fields
          · exact .inr (.inl (announced.put _ (silent _)))
          · by_cases this : event.tenantId = tenant.id
            · refine .inr (.inr ⟨count event, List.mem_of_getElem? counted, this, .inr ⟨pid, ?_⟩⟩)
              rw [Function.update_self, process_eq, Status.next, ← this]
            · obtain ⟨other, sent, own, remaining⟩ := tended
              obtain ⟨place, there⟩ := mem_stream sent
              have apart : seq ≠ place := by
                rintro rfl
                rw [found] at there
                cases there
                exact this own
              have kept : (config.state.stream.modify seq count)[place]? = some other := by
                rw [List.getElem?_modify_ne _ _ apart, there]
              refine .inr (.inr ⟨other, List.mem_of_getElem? kept, own, remaining.imp_right
                fun ⟨handler, seeding⟩ => ⟨handler, ?_⟩⟩)
              have distinct : handler ≠ pid := fun same => idle tenant.id (same ▸ seeding)
              rw [Function.update_of_ne distinct]
              exact seeding
      · cases answered
    · cases answered
  | _ => cases answered

theorem Kept.act (kept : Kept isCommonPassword hash redeliveryCount config)
    (monotone : Monotone redeliveryCount) {act : Act}
    {rest : act.Reply → CoreScript Answer} {reply : act.Reply}
    (running : config.procs pid = .running call (.call act rest))
    (permitted : smooth redeliveryCount config (.act pid fate))
    (answered : perform redeliveryCount act fate config.state = some (reply, next)) :
    Kept isCommonPassword hash redeliveryCount (config.put pid next (.running call (rest reply))) := by
  have stage := kept.stages pid call _ running
  generalize same : Script.call act rest = script at stage
  cases stage with
  | begins begun =>
    cases begun with
    | create input =>
      cases common : input.admin.any fun admin => isCommonPassword admin.password with
      | true =>
        rw [code_common common] at same
        cases same
      | false =>
        rw [code_create common] at same
        cases same
        exact kept.transaction running permitted answered
    | round =>
      cases same
      exact kept.receive running answered
  | publishes tenantId rest settling =>
    cases same
    exact kept.publish running settling permitted answered
  | processes msg event count found own bound counted =>
    rw [process_eq] at same
    cases same
    exact kept.createMany monotone running found own bound counted permitted answered
  | settles _ settling =>
    subst same
    exact kept.settling running settling answered

end Acts

/-! ## Runs -/

theorem Kept.spawn (kept : Kept isCommonPassword hash redeliveryCount config) {pid : Nat} (call : Call)
    (idle : config.procs pid = .idle) :
    Kept isCommonPassword hash redeliveryCount
    (config.put pid config.state (.running call (code isCommonPassword hash call))) := by
  refine kept.quiet (.refl _) (.refl _) (fun tenantId => by simp [idle, Status.next]) rfl
    (fun other script same => ?_) kept.settled
  cases same
  exact .begins call

theorem Kept.crash (kept : Kept isCommonPassword hash redeliveryCount config) {pid : Nat} {call : Call}
    (permitted : smooth redeliveryCount config (.crash pid)) :
    Kept isCommonPassword hash redeliveryCount (config.put pid config.state (.crashed call)) := by
  have silent : ∀ tenantId, (config.procs pid).next ≠ some (.publish tenantId) :=
    fun tenantId awaited => permitted _ awaited
  refine kept.put (.refl _) (fun other script same => nomatch same) kept.settled fun tenant member => ?_
  rcases kept.tended tenant member with fields | announced | tended
  · exact .inl fields
  · exact .inr (.inl (announced.put _ (silent _)))
  · by_cases seeding : (config.procs pid).next = some (.createMany (seeds tenant.id))
    · obtain ⟨row, seeded, own⟩ := mem_seeds tenant.id
      rcases permitted _ seeding row seeded with fields | early
      · exact .inl (own ▸ fields)
      · obtain ⟨event, sent, same, -⟩ := tended
        exact .inr (.inr ⟨event, sent, same, .inl (early event sent (same.trans own.symm)).1⟩)
    · exact .inr (.inr (tended.put _ seeding (.refl _)))

theorem changeFields_keeps {rows after : List Definition} {tenantId : Uuid} {change : FieldChange}
    (changed : changeFields rows tenantId change = some after) {row : Definition} (member : row ∈ rows) :
    ∃ later ∈ after, later.tenantId = row.tenantId ∧ later.field.fieldId = row.field.fieldId := by
  cases change with
  | create field =>
    simp only [changeFields] at changed
    split at changed <;> cases changed
    exact ⟨row, List.mem_append_left _ member, rfl, rfl⟩
  | rename fieldId apiName =>
    simp only [changeFields] at changed
    split at changed <;> cases changed
    refine ⟨_, List.mem_map_of_mem member, ?_⟩
    split
    · next hit => exact ⟨hit.1.symm, rfl⟩
    · exact ⟨rfl, rfl⟩
  | remove fieldId deletedAt =>
    cases changed
    refine ⟨_, List.mem_map_of_mem member, ?_⟩
    split
    · next hit => exact ⟨hit.1.symm, rfl⟩
    · exact ⟨rfl, rfl⟩

theorem Kept.disturb (kept : Kept isCommonPassword hash redeliveryCount config) {tenantId : Uuid}
    {change : FieldChange}
    {after : List Definition} (changed : changeFields config.state.definitions tenantId change = some after) :
    Kept isCommonPassword hash redeliveryCount
    { config with state := config.state.withDefinitions after } := by
  have grows : Grows config.state (config.state.withDefinitions after) :=
    .definitions fun row member => changeFields_keeps changed member
  refine ⟨fun pid call script running => (kept.stages pid call script running).grows grows,
    fun event member settled => ?_, fun tenant member => ?_⟩
  · exact grows.seeded _ (kept.settled event member settled)
  · rcases kept.tended tenant member with fields | pending
    · exact .inl (grows.seeded _ fields)
    · exact .inr pending

theorem Kept.step (kept : Kept isCommonPassword hash redeliveryCount config)
    (monotone : Monotone redeliveryCount)
    (move : Interleaving.Move Call Fate) {next : Config} (permitted : smooth redeliveryCount config move)
    (taken : (machine redeliveryCount).step (code isCommonPassword hash) config move = some next) :
    Kept isCommonPassword hash redeliveryCount next := by
  cases move with
  | spawn pid call =>
    simp only [Interleaving.Machine.step] at taken
    split at taken <;> cases taken
    next idle => exact kept.spawn call idle
  | act pid fate =>
    simp only [Interleaving.Machine.step] at taken
    split at taken
    · next call act rest running =>
      split at taken
      · next reply after answered =>
        cases taken
        exact kept.act monotone running permitted answered
      · cases taken
    · cases taken
  | disturb pid fate =>
    simp only [Interleaving.Machine.step] at taken
    split at taken
    · next after disturbed =>
      cases taken
      cases fate with
      | field tenantId change =>
        obtain ⟨rows, changed, rfl⟩ := Option.map_eq_some_iff.mp disturbed
        exact kept.disturb changed
      | _ => cases disturbed
    · cases taken
  | crash pid =>
    simp only [Interleaving.Machine.step] at taken
    split at taken <;> cases taken
    exact kept.crash permitted

end

/-- Every tenant has its fields, or will get them, in every smooth run. -/
theorem fields_due (isCommonPassword : String → Bool) (hash : String → String) {redeliveryCount : Nat → Nat}
    (monotone : Monotone redeliveryCount) {first last : Config} (idle : ∀ pid, first.procs pid = .idle)
    (noTenant : first.state.tenants = []) (noEvent : first.state.stream = [])
    (run : (machine redeliveryCount).Within (code isCommonPassword hash) (smooth redeliveryCount) first
      last) : FieldsDue last := by
  have kept : Kept isCommonPassword hash redeliveryCount first := by
    refine ⟨fun pid call script running => ?_, fun event member => ?_, fun tenant member => ?_⟩
    · rw [idle pid] at running
      cases running
    · rw [noEvent] at member
      cases member
    · rw [noTenant] at member
      cases member
  exact Kept.due (run.invariant kept fun config next move kept permitted taken =>
    kept.step monotone move permitted taken)

def empty : State := ⟨0, [], [], [], [], [], [], [], []⟩

def acme : TenantCreateInput := ⟨"Acme", "America/Argentina/Buenos_Aires", .es, none, none⟩

def noneCommon : String → Bool := fun _ => false

def stopped : List (Interleaving.Move Call Fate) :=
  [.spawn 0 (.create acme), .act 0 (.outcome .done), .crash 0]

def afterCrash : Config where
  state := (insertTenant acme none empty).2
  procs :=
    let begun : Nat → Status Call Act Act.Reply Failure Answer :=
      Function.update (fun _ => .idle) 0 (.running (.create acme) (code noneCommon id (.create acme)))
    let publishing : CoreScript Tenant := do
      unwrap (← ask (.publish 0))
      return (insertTenant acme none empty).1
    let committed :=
      Function.update begun 0 (.running (.create acme) (publishing >>= fun tenant => .ret (.tenant tenant)))
    Function.update committed 0 (.crashed (.create acme))

theorem next_afterCrash (pid : Nat) : (afterCrash.procs pid).next = none := by
  by_cases this : pid = 0
  · subst this
    rfl
  · simp [afterCrash, this, Status.next]

theorem crash_leaves_no_fields : ∃ config : Config,
    (machine id).Within (code noneCommon id) (fun _ _ => True) (.start empty) config ∧
    ¬ FieldsDue config := by
  have ran : (machine id).admitted (code noneCommon id) (fun _ _ => true) stopped (.start empty) =
    some afterCrash := rfl
  refine ⟨afterCrash, (machine id).within_admitted _ (fun _ _ _ => trivial) .refl stopped ran, fun due => ?_⟩
  have unseeded : ¬ ∀ tenant ∈ afterCrash.state.tenants, Seeded afterCrash.state tenant.id := by
    intro seeded
    obtain ⟨row, member, -⟩ := seeded _ (List.mem_cons_self ..) (system 1 "first_name" .text false false [])
      (by simp [SYSTEM_FIELDS])
    cases member
  refine unseeded (due.2 ⟨fun event member => (nomatch member), fun pid act awaited => ?_⟩)
  rw [next_afterCrash] at awaited
  cases awaited

section Checks
variable (redeliveryCount : Nat → Nat) (state : State)

instance (tenantId : Uuid) : Decidable (Seeded state tenantId) :=
  inferInstanceAs (Decidable (∀ f ∈ SYSTEM_FIELDS, ∃ row ∈ state.definitions, row.tenantId = tenantId ∧
    row.field.fieldId = f.fieldId))

instance (tenantId : Uuid) : Decidable (Spared redeliveryCount state tenantId) :=
  inferInstanceAs (Decidable (Seeded state tenantId ∨ ∀ event ∈ state.stream, event.tenantId = tenantId →
    event.deliveries < MAX_DELIVER ∧ redeliveryCount event.deliveries + 1 < MAX_DELIVER))

instance (rows : List Definition) (tenantId : Uuid) : Decidable (Unnamed rows tenantId) :=
  inferInstanceAs (Decidable (∀ row ∈ rows, row.tenantId = tenantId → row.field.deletedAt = none →
    ∀ f ∈ SYSTEM_FIELDS, row.field.apiName = f.apiName → row.field.fieldId = f.fieldId))

instance (act : Act) (outcome : Outcome) : Decidable (answers redeliveryCount state act outcome) := by
  cases act with
  | transaction input adminPasswordHash => exact inferInstanceAs (Decidable (outcome ≠ .lost))
  | publish tenantId => exact inferInstanceAs (Decidable (outcome ≠ .failed))
  | createMany data =>
    exact inferInstanceAs (Decidable (∀ row ∈ data,
        Unnamed state.definitions row.tenantId ∧
        (outcome = .failed → Spared redeliveryCount state row.tenantId)))
  | _ => exact .isTrue trivial

/-- `smooth`, for moves that are not crashes. -/
def isSmooth (config : Config) : Interleaving.Move Call Fate → Bool
  | .act pid (.outcome outcome) =>
      match (config.procs pid).next with
      | some act => decide (answers redeliveryCount config.state act outcome)
      | none => true
  | .crash _ => false
  | _ => true

theorem smooth_of_isSmooth (config : Config) (move : Interleaving.Move Call Fate)
    (checked : isSmooth redeliveryCount config move = true) :
    smooth redeliveryCount config move := by
  cases move with
  | act pid fate =>
    cases fate with
    | outcome outcome =>
      intro act awaited
      simpa [isSmooth, awaited] using checked
    | _ => trivial
  | crash pid => cases checked
  | _ => trivial

end Checks

def retried : List (Interleaving.Move Call Fate) :=
  [.spawn 0 (.create acme), .act 0 (.outcome .done), .act 0 (.outcome .done),
    .spawn 1 .round, .act 1 (.delivers 0),
      .act 1 (.outcome .failed), .act 1 (.outcome .done), .spawn 2 .round, .act 2 (.delivers 0),
      .act 2 (.outcome .done),
    .act 2 (.outcome .done)]

theorem fields_due_retried : ∃ config : Config, (machine id).Within (code noneCommon id) (smooth id)
    (.start empty) config ∧
    config.state.stream = [⟨0, 2, true⟩] ∧ FieldsDue config := by
  have runs : ((machine id).admitted (code noneCommon id) (isSmooth id) retried (.start empty)).map
    (fun config => config.state.stream) =
      some [⟨0, 2, true⟩] := by decide
  obtain ⟨config, ran, stream⟩ := Option.map_eq_some_iff.mp runs
  have reached := (machine id).within_admitted (code noneCommon id) (smooth_of_isSmooth id) .refl retried ran
  exact ⟨config, reached, stream, fields_due noneCommon id monotone_id (fun _ => rfl) rfl rfl reached⟩

end OpenEmarsys.Tenants
