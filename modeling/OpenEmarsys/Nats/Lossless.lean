import OpenEmarsys.Nats.Consume

/-! No message is lost, as long as nothing goes wrong on a last delivery.

A process owes every last delivery it has taken a handling or a stored copy. What the
others do never takes either away, so the debts of a process are its own affair.
-/

set_option autoImplicit false

namespace OpenEmarsys.Nats

open Interleaving Golang
open Javascript (uuidText)

section
variable (decode : Bytes → Option Envelope) (maxDeliver : Int)

/-- The delivery is not the last one, or its message is safe. -/
def Stream.settled (stream : Stream) (msg : Msg) : Bool :=
  msg.numDelivered < maxDeliver || stream.safe decode msg.id

/-- What has to go well: payloads decode; and where a delivery is a last one and its message not
safe yet, its metadata is known, the dead letter is stored and the batch it came in has no error. -/
def gently (pid : Nat) : Act → Choice → Stream → Bool
  | .receive, .message id, stream => (decode (stream.messages id).data).isSome
  | .message, .message id, stream => (decode (stream.messages id).data).isSome
  | .batchError, .outcome complete, stream => complete ||
    (stream.taken pid).all (stream.settled decode maxDeliver)
  | .metadata msg, .outcome known, stream => known || stream.settled decode maxDeliver msg
  | .publish _ data, .sent arrives _, stream =>
      arrives || (stream.taken pid).all fun msg => msg.data != data || stream.settled decode maxDeliver msg
  | _, _, _ => true

/-- No process dies with such a delivery in hand. -/
def gentle : Rules Call Act Stream where
  crash pid stream := (stream.taken pid).all (stream.settled decode maxDeliver) = true

end

section
variable {data : Nat → Bytes} {decode : Bytes → Option Envelope} {maxDeliver : Int}

/-- Payloads stay; what has been acknowledged or terminated is safe; a last delivery is in somebody's
hands until it is. -/
structure Kept (data : Nat → Bytes) (decode : Bytes → Option Envelope) (maxDeliver : Int)
    (stream : Stream) : Prop where
  payload : ∀ id, (stream.messages id).data = data id
  acked : ∀ id, (stream.messages id).acked = true → stream.safe decode id = true
  termed : ∀ id, (stream.messages id).termed = true → stream.safe decode id = true
  genuine : ∀ pid, ∀ msg ∈ stream.taken pid, msg.data = data msg.id
  last : ∀ id, maxDeliver ≤ (stream.messages id).deliveries → stream.safe decode id = true ∨
    ∃ pid, ∃ msg ∈ stream.taken pid, msg.id = id ∧ maxDeliver ≤ msg.numDelivered

/-- The others keep the invariant, leave a process its deliveries and make no message unsafe. -/
structure Alongside (data : Nat → Bytes) (decode : Bytes → Option Envelope) (maxDeliver : Int) (pid : Nat)
    (stream next : Stream) : Prop where
  kept : Kept data decode maxDeliver stream → Kept data decode maxDeliver next
  taken : next.taken pid = stream.taken pid
  safe : ∀ id, stream.safe decode id = true → next.safe decode id = true

theorem Alongside.refl (pid : Nat) (stream : Stream) : Alongside data decode maxDeliver pid stream stream :=
  ⟨fun kept => kept, rfl, fun _ safe => safe⟩

theorem Alongside.settled {pid : Nat} {stream next : Stream}
    (along : Alongside data decode maxDeliver pid stream next) {msg : Msg}
    (settled : stream.settled decode maxDeliver msg = true) : next.settled decode maxDeliver msg = true := by
  rw [Stream.settled, Bool.or_eq_true] at settled ⊢
  exact settled.imp_right (along.safe msg.id)

theorem settled_of_safe {stream : Stream} {msg : Msg} (safe : stream.safe decode msg.id = true) :
    stream.settled decode maxDeliver msg = true := by
  rw [Stream.settled, safe, Bool.or_true]

theorem safe_of_settled {stream : Stream} {msg : Msg} (settled : stream.settled decode maxDeliver msg = true)
    (late : maxDeliver ≤ msg.numDelivered) : stream.safe decode msg.id = true := by
  rw [Stream.settled, Bool.or_eq_true, decide_eq_true_iff] at settled
  exact settled.resolve_left (by omega)

/-- A process holds these deliveries, and every other it has had is settled. -/
structure Owing (decode : Bytes → Option Envelope) (maxDeliver : Int) (pid : Nat) (msgs : List Msg)
    (stream : Stream) : Prop where
  held : ∀ msg ∈ msgs, msg ∈ stream.taken pid
  paid : ∀ msg ∈ stream.taken pid, msg ∈ msgs ∨ stream.settled decode maxDeliver msg = true

theorem owing_stable (pid : Nat) (msgs : List Msg) :
    Stable (Alongside data decode maxDeliver) (Kept data decode maxDeliver) pid
    (Owing decode maxDeliver pid msgs) := by
  intro stream next _ owing along
  refine ⟨fun msg member => ?_, fun msg member => ?_⟩
  · rw [along.taken]
    exact owing.held msg member
  · rw [along.taken] at member
    exact (owing.paid msg member).imp_right along.settled

theorem safe_stable (pid id : Nat) :
    Stable (Alongside data decode maxDeliver) (Kept data decode maxDeliver) pid
    fun stream => stream.safe decode id = true :=
  fun _ _ _ safe along => along.safe id safe

theorem Owing.pay {pid : Nat} {msg : Msg} {rest : List Msg} {stream : Stream}
    (owing : Owing decode maxDeliver pid (msg :: rest) stream)
    (settled : stream.settled decode maxDeliver msg = true) : Owing decode maxDeliver pid rest stream := by
  refine ⟨fun other member => owing.held other (List.mem_cons_of_mem _ member), fun other member => ?_⟩
  rcases owing.paid other member with here | done
  · rcases List.mem_cons.mp here with rfl | later
    · exact .inr settled
    · exact .inl later
  · exact .inr done

theorem Owing.reorder {pid : Nat} {msgs others : List Msg} {stream : Stream}
    (owing : Owing decode maxDeliver pid msgs stream)
    (same : ∀ msg, msg ∈ others ↔ msg ∈ msgs) : Owing decode maxDeliver pid others stream :=
  ⟨fun msg member => owing.held msg ((same msg).mp member),
    fun msg member => (owing.paid msg member).imp_left (same msg).mpr⟩

theorem gentle_discipline (data : Nat → Bytes) (decode : Bytes → Option Envelope) :
    Discipline ((jetstream decode maxDeliver).restrict (gently decode maxDeliver)) (gentle decode maxDeliver)
      (Alongside data decode maxDeliver) (Kept data decode maxDeliver) fun pid stream => stream.taken pid =
      [] where
  refl := Alongside.refl
  trans first second := ⟨second.kept ∘ first.kept, second.taken.trans first.taken,
    fun id safe => second.safe id (first.safe id safe)⟩
  inv kept along := along.kept kept
  idle _ none_ along := along.taken.trans none_
  disturb _ _ taken := nomatch taken
  crash {pid stream} _ spares other distinct := by
    refine ⟨fun kept => ⟨kept.payload, kept.acked, kept.termed,
      fun owner msg member => ?_, fun id last => ?_⟩,
      Function.update_of_ne distinct .., fun _ => id⟩
    · by_cases mine : owner = pid
      · subst mine
        simp [jetstream, Machine.restrict] at member
      · refine kept.genuine owner msg ?_
        simpa [jetstream, Machine.restrict, Function.update_of_ne mine] using member
    · rcases kept.last id last with safe | ⟨owner, msg, member, same, late⟩
      · exact .inl safe
      · by_cases mine : owner = pid
        · subst mine
          exact .inl (same ▸ safe_of_settled (List.all_eq_true.mp spares msg member) late)
        · refine .inr ⟨owner, msg, ?_, same, late⟩
          show msg ∈ Function.update stream.taken pid [] owner
          rw [Function.update_of_ne mine]
          exact member

-- A change of flags that makes nothing unsafe, and acknowledges or terminates safe messages only.
theorem alongside_flags {stream next : Stream} (pid : Nat) (taken : next.taken = stream.taken)
    (payload : ∀ id, (next.messages id).data = (stream.messages id).data)
    (deliveries : ∀ id, (next.messages id).deliveries = (stream.messages id).deliveries)
    (safe : ∀ id, stream.safe decode id = true → next.safe decode id = true)
    (acked : ∀ id, (next.messages id).acked = true → (stream.messages id).acked = true ∨
      next.safe decode id = true)
    (termed : ∀ id, (next.messages id).termed = true → (stream.messages id).termed = true ∨
      next.safe decode id = true) :
    Alongside data decode maxDeliver pid stream next where
  kept kept :=
    { payload := fun id => (payload id).trans (kept.payload id)
      acked := fun id is => (acked id is).elim (fun was => safe id (kept.acked id was)) fun now => now
      termed := fun id is => (termed id is).elim (fun was => safe id (kept.termed id was)) fun now => now
      genuine := fun owner msg member => kept.genuine owner msg (taken ▸ member)
      last := fun id late => by
        rw [taken]
        exact (kept.last id (deliveries id ▸ late)).imp_left (safe id) }
  taken := congrFun taken pid
  safe := safe

theorem change_safe {stream : Stream} {id : Nat} {f : Message → Message}
    (payload : (f (stream.messages id)).data = (stream.messages id).data)
    (handled : (f (stream.messages id)).handled = (stream.messages id).handled) (other : Nat) :
    (stream.change id f).safe decode other = stream.safe decode other := by
  by_cases same : other = id
  · subst same
    simp [Stream.safe, Stream.copied, Stream.change, payload, handled]
  · simp [Stream.safe, Stream.copied, Stream.change, same]

theorem alongside_change {stream : Stream} {id : Nat} {f : Message → Message} (pid : Nat)
    (safe : stream.safe decode id = true)
    (payload : (f (stream.messages id)).data = (stream.messages id).data)
    (deliveries : (f (stream.messages id)).deliveries = (stream.messages id).deliveries)
    (handled : (f (stream.messages id)).handled = (stream.messages id).handled) :
    Alongside data decode maxDeliver pid stream (stream.change id f) := by
  have kept (other : Nat) : (stream.change id f).safe decode other = stream.safe decode other :=
    change_safe payload handled other
  refine alongside_flags pid rfl (fun other => ?_) (fun other => ?_)
    (fun other is => (kept other).trans is) (fun other is => ?_)
    fun other is => ?_
  all_goals by_cases same : other = id
  all_goals first | subst same | skip
  · simpa [Stream.change] using payload
  · simp [Stream.change, same]
  · simpa [Stream.change] using deliveries
  · simp [Stream.change, same]
  · exact .inr ((kept _).trans safe)
  · exact .inl (by simpa [Stream.change, same] using is)
  · exact .inr ((kept _).trans safe)
  · exact .inl (by simpa [Stream.change, same] using is)

theorem alongside_publish {stream : Stream} (pid : Nat) (subject : String) (copy : Bytes) :
    Alongside data decode maxDeliver pid stream
    { stream with published := (subject, copy) :: stream.published } := by
  refine alongside_flags pid rfl (fun _ => rfl) (fun _ => rfl) (fun id safe => ?_) (fun _ => .inl)
    fun _ => .inl
  simp only [Stream.safe, Stream.copied, Bool.or_eq_true, Option.any_eq_true, List.contains_eq_mem,
    decide_eq_true_eq] at safe ⊢
  exact safe.imp_right fun ⟨env, found, stored⟩ => ⟨env, found, List.mem_cons_of_mem _ stored⟩

theorem alongside_handle {stream : Stream} (pid : Nat) (batch : List (Msg × Envelope)) :
    Alongside data decode maxDeliver pid stream (stream.handle decode batch) := by
  refine alongside_flags pid rfl (fun _ => rfl) (fun _ => rfl) (fun id safe => ?_) (fun _ => .inl)
    fun _ => .inl
  simp only [Stream.safe, Bool.or_eq_true] at safe ⊢
  exact safe.imp_left fun was => by simp [Stream.handle, was]

/-! ## Scripts -/

/-- A triple about the calls of one process, on a stream where nothing goes wrong on a last delivery. -/
abbrev Does (data : Nat → Bytes) (decode : Bytes → Option Envelope) (maxDeliver : Int) (pid : Nat) {α : Type}
    (pre : Stream → Prop) (script : ConsumeScript α) (post : α → Stream → Prop) : Prop :=
  Triple ((jetstream decode maxDeliver).restrict (gently decode maxDeliver)) (gentle decode maxDeliver)
    (Alongside data decode maxDeliver) (Kept data decode maxDeliver) pid pre script (Returning post)

section Scripts
variable {pid : Nat} {opts : ConsumeOptions} {α β : Type}

theorem does_await {act : Act} {pre : Stream → Prop} {post : act.Reply → Stream → Prop}
    (before : Stable (Alongside data decode maxDeliver) (Kept data decode maxDeliver) pid pre)
    (after : ∀ reply, Stable (Alongside data decode maxDeliver)
      (Kept data decode maxDeliver) pid (post reply))
    (step : ∀ stream, Kept data decode maxDeliver stream → pre stream → ∀ choice reply next,
      gently decode maxDeliver pid act choice stream = true →
      respond decode maxDeliver pid act choice stream = some (reply, next) →
      (∀ other, other ≠ pid → Alongside data decode maxDeliver other stream next) ∧ post reply next) :
    Does data decode maxDeliver pid pre (await act) post := by
  refine Triple.await (gentle_discipline data decode) before after
    fun stream kept holds _ choice reply next taken => ?_
  obtain ⟨went, answered⟩ := Machine.restrict_act.mp taken
  exact step stream kept holds choice reply next went answered

theorem does_bind {pre : Stream → Prop} {first : ConsumeScript β} {next : β → ConsumeScript α}
    {post : α → Stream → Prop}
    (middle : β → Stream → Prop) (head : Does data decode maxDeliver pid pre first middle)
    (tail : ∀ value, Does data decode maxDeliver pid (middle value) (next value) post) :
    Does data decode maxDeliver pid pre (first >>= next) post :=
  Triple.seq (gentle_discipline data decode) middle head tail

theorem does_pure (value : α) (post : α → Stream → Prop)
    (stable : Stable (Alongside data decode maxDeliver) (Kept data decode maxDeliver) pid (post value)) :
    Does data decode maxDeliver pid (post value) (pure value) post :=
  Triple.done (gentle_discipline data decode) value post stable

theorem does_nothing {act : Act} {pre : Stream → Prop}
    (stable : Stable (Alongside data decode maxDeliver) (Kept data decode maxDeliver) pid pre)
    (nothing : ∀ stream choice reply next, respond decode maxDeliver pid act choice stream = some (reply,
      next) → next = stream) :
    Does data decode maxDeliver pid pre (await act) fun _ => pre := by
  refine does_await stable (fun _ => stable) fun stream kept holds choice reply next _ answered => ?_
  obtain rfl := nothing stream choice reply next answered
  exact ⟨fun other _ => .refl other _, holds⟩

theorem does_ack {msg : Msg} {rest : List Msg} :
    Does data decode maxDeliver pid (fun stream => stream.safe decode msg.id = true ∧
      Owing decode maxDeliver pid (msg :: rest) stream)
      (await (.ack msg)) fun _ => Owing decode maxDeliver pid rest := by
  refine does_await (.and (safe_stable _ _) (owing_stable _ _)) (fun _ => owing_stable _ _)
    fun stream kept holds choice reply next _ answered => ?_
  obtain ⟨safe, owing⟩ := holds
  have paid := owing.pay (settled_of_safe safe)
  cases choice with
  | sent arrives acknowledged =>
    cases answered
    split
    · have along (other : Nat) : Alongside data decode maxDeliver other stream
          (stream.change msg.id fun message => { message with acked := true }) :=
            alongside_change other safe rfl rfl rfl
      exact ⟨fun other _ => along other, owing_stable pid rest _ _ kept paid (along pid)⟩
    · exact ⟨fun other _ => .refl other _, paid⟩
  | _ => cases answered

theorem does_term {msg : Msg} {msgs : List Msg} :
    Does data decode maxDeliver pid (fun stream => stream.safe decode msg.id = true ∧
      Owing decode maxDeliver pid msgs stream)
      (await (.term msg)) fun _ => Owing decode maxDeliver pid msgs := by
  refine does_await (.and (safe_stable _ _) (owing_stable _ _)) (fun _ => owing_stable _ _)
    fun stream kept holds choice reply next _ answered => ?_
  obtain ⟨safe, owing⟩ := holds
  cases choice with
  | sent arrives acknowledged =>
    cases answered
    split
    · have along (other : Nat) : Alongside data decode maxDeliver other stream
          (stream.change msg.id fun message => { message with termed := true }) :=
            alongside_change other safe rfl rfl rfl
      exact ⟨fun other _ => along other, owing_stable pid msgs _ _ kept owing (along pid)⟩
    · exact ⟨fun other _ => .refl other _, owing⟩
  | _ => cases answered

theorem published_safe {stream : Stream} {msg : Msg} {env : Envelope} (decoded : decode msg.data = some env)
    (genuine : (stream.messages msg.id).data = msg.data) :
    Stream.safe decode
    { stream with published := ("oe.system.dead_letter." ++ uuidText env.tenantID, msg.data) :: stream.published }
      msg.id = true := by
  simp [Stream.safe, Stream.copied, genuine, decoded]

theorem Kept.genuine_held {stream : Stream} (kept : Kept data decode maxDeliver stream) {msg : Msg}
    (held : msg ∈ stream.taken pid) :
    (stream.messages msg.id).data = msg.data := (kept.payload msg.id).trans (kept.genuine pid msg held).symm

-- A dead letter that is acknowledged is stored; on a last delivery it is stored in any case.
theorem does_deadLetter {msg : Msg} {env : Envelope} {rest : List Msg} (decoded : decode msg.data = some env)
    (late : maxDeliver ≤ msg.numDelivered) :
    Does data decode maxDeliver pid (Owing decode maxDeliver pid (msg :: rest))
    (deadLetter msg env.tenantID) fun _ stream =>
      stream.safe decode msg.id = true ∧ Owing decode maxDeliver pid rest stream := by
  refine does_await (owing_stable _ _) (fun _ => .and (safe_stable _ _) (owing_stable _ _))
    fun stream kept owing choice reply next went answered => ?_
  have held := owing.held msg (List.mem_cons_self ..)
  cases choice with
  | sent arrives acknowledged =>
    cases answered
    split
    · have safe := published_safe decoded (kept.genuine_held held)
      let copy := ("oe.system.dead_letter." ++ uuidText env.tenantID, msg.data)
      have along (other : Nat) : Alongside data decode maxDeliver other stream
          { stream with published := copy :: stream.published } := alongside_publish other copy.1 copy.2
      have later := owing_stable pid (msg :: rest) _ _ kept owing (along pid)
      exact ⟨fun other _ => along other, safe, later.pay (settled_of_safe safe)⟩
    · next lost =>
      have settled : stream.settled decode maxDeliver msg = true := by
        have all : ((stream.taken pid).all fun other => other.data != msg.data ||
            stream.settled decode maxDeliver other) = true := by
          simpa [gently, lost] using went
        simpa using List.all_eq_true.mp all msg held
      exact ⟨fun other _ => .refl other _, safe_of_settled settled late, owing.pay settled⟩
  | _ => cases answered

theorem does_metadata {msg : Msg} {rest : List Msg} :
    Does data decode maxDeliver pid (Owing decode maxDeliver pid (msg :: rest))
    (await (.metadata msg)) fun known stream =>
      match known with
      | none => Owing decode maxDeliver pid rest stream
      | some numDelivered => numDelivered = msg.numDelivered ∧
          Owing decode maxDeliver pid (msg :: rest) stream := by
  refine does_await (owing_stable _ _) (fun known => ?_)
    fun stream kept owing choice reply next went answered => ?_
  · cases known with
    | none => exact owing_stable _ _
    | some numDelivered => exact .and (.const _) (owing_stable _ _)
  · cases choice with
    | outcome known =>
      cases answered
      refine ⟨fun other _ => .refl other _, ?_⟩
      cases known with
      | true => exact ⟨rfl, owing⟩
      | false => exact owing.pay (by simpa [gently] using went)
    | _ => cases answered

theorem does_nak {msg : Msg} {msgs : List Msg} :
    Does data decode maxDeliver pid (Owing decode maxDeliver pid msgs)
    (await (.nak msg)) fun _ => Owing decode maxDeliver pid msgs := by
  refine does_nothing (owing_stable _ _) fun stream choice reply next answered => ?_
  cases choice <;> cases answered
  rfl

theorem does_nakWithDelay {msg : Msg} {delay : Duration} {msgs : List Msg} :
    Does data decode maxDeliver pid (Owing decode maxDeliver pid msgs)
    (await (.nakWithDelay msg delay)) fun _ =>
      Owing decode maxDeliver pid msgs := by
  refine does_nothing (owing_stable _ _) fun stream choice reply next answered => ?_
  cases choice <;> cases answered
  rfl

-- `finish` settles the delivery: it is safe when the handler returned nil.
theorem does_finish {msg : Msg} {env : Envelope} (decoded : decode msg.data = some env) (rest : List Msg)
    (handled : Bool) :
    Does data decode opts.maxDeliver pid
      (fun stream => (handled = true → stream.safe decode msg.id = true) ∧
        Owing decode opts.maxDeliver pid (msg :: rest) stream)
      (finish opts msg env.tenantID handled) fun _ => Owing decode opts.maxDeliver pid rest := by
  unfold finish
  split
  · next good => exact does_ack.strengthen fun stream _ holds => ⟨holds.1 good, holds.2⟩
  · refine Triple.strengthen (does_bind _ does_metadata fun known => ?_) fun stream _ holds => holds.2
    cases known with
    | none => exact does_nak
    | some numDelivered =>
      refine Triple.fact fun same => ?_
      subst same
      dsimp only
      split
      · next late =>
        refine does_bind _ (does_deadLetter decoded late) fun published => ?_
        split
        · exact does_term
        · exact (does_pure _ (fun _ => Owing decode opts.maxDeliver pid rest) (owing_stable _ _)).strengthen
            fun stream _ holds => holds.2
      · next early =>
        refine does_nakWithDelay.strengthen fun stream _ owing => owing.pay ?_
        simp only [Stream.settled, Bool.or_eq_true, decide_eq_true_iff]
        omega

theorem Kept.deliver {id : Nat} {stream : Stream} (kept : Kept data decode maxDeliver stream) :
    Kept data decode maxDeliver
    { stream.change id fun message => { message with deliveries := message.deliveries + 1 } with
      taken := Function.update stream.taken pid
        (⟨id, (stream.messages id).data, (stream.messages id).deliveries + 1⟩ :: stream.taken pid) } := by
  let redelivered := stream.change id fun message => { message with deliveries := message.deliveries + 1 }
  have safe (other : Nat) : redelivered.safe decode other = stream.safe decode other :=
    change_safe rfl rfl other
  refine ⟨fun found => ?_, fun found is => (safe found).trans (kept.acked found ?_),
    fun found is => (safe found).trans (kept.termed found ?_),
    fun owner msg member => ?_, fun found late => ?_⟩
  · by_cases same : found = id
    · subst same
      simpa [Stream.change] using kept.payload found
    · simpa [Stream.change, same] using kept.payload found
  · by_cases same : found = id
    · subst same
      simpa [Stream.change] using is
    · simpa [Stream.change, same] using is
  · by_cases same : found = id
    · subst same
      simpa [Stream.change] using is
    · simpa [Stream.change, same] using is
  · by_cases mine : owner = pid
    · subst mine
      rcases List.mem_cons.mp (by simpa using member) with rfl | member
      · exact kept.payload id
      · exact kept.genuine owner msg member
    · exact kept.genuine owner msg (by simpa [Function.update_of_ne mine] using member)
  · by_cases same : found = id
    · -- the delivery that makes it the last is in the hands of the process
      subst same
      refine .inr ⟨pid, ⟨found, (stream.messages found).data,
        (stream.messages found).deliveries + 1⟩, by simp, rfl, ?_⟩
      simpa [Stream.change] using late
    · refine (kept.last found (by simpa [Stream.change, same] using late)).imp (safe found).trans ?_
      rintro ⟨owner, held, member, is, last⟩
      refine ⟨owner, held, ?_, is, last⟩
      by_cases mine : owner = pid
      · subst mine
        simp [member]
      · simpa [Function.update_of_ne mine] using member

theorem deliver_owing {id : Nat} {msg : Msg} {msgs : List Msg} {stream next : Stream}
    (delivered : stream.deliver maxDeliver pid id = some (msg, next))
    (owing : Owing decode maxDeliver pid msgs stream) :
    (∀ other, other ≠ pid → Alongside data decode maxDeliver other stream next) ∧ msg.data =
      (stream.messages id).data ∧
      Owing decode maxDeliver pid (msg :: msgs) next := by
  simp only [Stream.deliver] at delivered
  split at delivered
  · cases delivered
    let redelivered := stream.change id fun message => { message with deliveries := message.deliveries + 1 }
    have safe (other : Nat) : redelivered.safe decode other = stream.safe decode other :=
      change_safe rfl rfl other
    refine ⟨fun other distinct => ⟨Kept.deliver, Function.update_of_ne distinct ..,
      fun found is => (safe found).trans is⟩, rfl,
      fun other member => ?_, fun other member => ?_⟩
    · rcases List.mem_cons.mp member with rfl | member
      · simp
      · simp [owing.held other member]
    · rcases List.mem_cons.mp (by simpa using member) with rfl | member
      · exact .inl (List.mem_cons_self ..)
      · refine (owing.paid other member).imp (List.mem_cons_of_mem _) fun settled => ?_
        rw [Stream.settled, Bool.or_eq_true] at settled ⊢
        exact settled.imp_right (safe other.id).trans
  · cases delivered

theorem does_receive {msgs : List Msg} :
    Does data decode maxDeliver pid (Owing decode maxDeliver pid msgs) (await .receive) fun msg stream =>
      (decode msg.data).isSome = true ∧ Owing decode maxDeliver pid (msg :: msgs) stream := by
  refine does_await (owing_stable _ _) (fun msg => .and (.const _) (owing_stable _ _))
    fun stream kept owing choice msg next went answered => ?_
  cases choice with
  | message id =>
    obtain ⟨along, same, owing⟩ := deliver_owing answered owing
    exact ⟨along, same ▸ went, owing⟩
  | _ => cases answered

theorem does_message {msgs : List Msg} :
    Does data decode maxDeliver pid (Owing decode maxDeliver pid msgs) (await .message) fun found stream =>
      match found with
      | none => Owing decode maxDeliver pid msgs stream
      | some msg => (decode msg.data).isSome = true ∧ Owing decode maxDeliver pid (msg :: msgs) stream := by
  refine does_await (owing_stable _ _) (fun found => ?_)
    fun stream kept owing choice found next went answered => ?_
  · cases found with
    | none => exact owing_stable _ _
    | some msg => exact .and (.const _) (owing_stable _ _)
  · cases choice with
    | message id =>
      simp only [respond, Option.map_eq_some_iff, Prod.exists, Prod.mk.injEq] at answered
      obtain ⟨msg, after, delivered, rfl, rfl⟩ := answered
      obtain ⟨along, same, owing⟩ := deliver_owing delivered owing
      exact ⟨along, same ▸ went, owing⟩
    | closed =>
      cases answered
      exact ⟨fun other _ => .refl other _, owing⟩
    | _ => cases answered

/-- The entries of a batch are deliveries with what they decode to. -/
abbrev Decoded (decode : Bytes → Option Envelope) (batch : List (Msg × Envelope)) : Prop :=
  ∀ entry ∈ batch, decode entry.1.data = some entry.2

theorem does_handler {batch : List (Msg × Envelope)} (decoded : Decoded decode batch) :
    Does data decode maxDeliver pid (Owing decode maxDeliver pid (batch.map Prod.fst))
    (await (.handler batch)) fun handled stream =>
      (handled = true → ∀ entry ∈ batch, stream.safe decode entry.1.id = true) ∧ Owing decode maxDeliver pid
      (batch.map Prod.fst) stream := by
  have stable (handled : Bool) : Stable (Alongside data decode maxDeliver) (Kept data decode maxDeliver) pid
      fun stream =>
      handled = true → ∀ entry ∈ batch, stream.safe decode entry.1.id = true :=
    fun _ _ _ safe along given entry member => along.safe _ (safe given entry member)
  refine does_await (owing_stable _ _) (fun handled => .and (stable handled) (owing_stable _ _))
    fun stream kept owing choice handled next went answered => ?_
  cases choice with
  | outcome succeeds =>
    cases answered
    split
    · have along (other : Nat) : Alongside data decode maxDeliver other stream (stream.handle decode batch) :=
        alongside_handle other batch
      refine ⟨fun other _ => along other, fun _ entry member => ?_,
        owing_stable pid _ _ _ kept owing (along pid)⟩
      have genuine := kept.genuine_held (owing.held entry.1 (List.mem_map_of_mem member))
      have handled : ((stream.handle decode batch).messages entry.1.id).handled = true := by
        refine Bool.or_eq_true_iff.mpr (.inr (List.any_eq_true.mpr ⟨entry, member, ?_⟩))
        simp [genuine, decoded entry member]
      rw [Stream.safe, handled, Bool.true_or]
    · next failed => exact ⟨fun other _ => .refl other _, fun given => absurd given failed, owing⟩
  | _ => cases answered

theorem does_batchError {msgs : List Msg} :
    Does data decode maxDeliver pid (Owing decode maxDeliver pid msgs)
    (await .batchError) fun complete stream =>
      (complete = false → Owing decode maxDeliver pid [] stream) ∧
      Owing decode maxDeliver pid msgs stream := by
  have stable (complete : Bool) :
      Stable (Alongside data decode maxDeliver) (Kept data decode maxDeliver) pid fun stream =>
      complete = false → Owing decode maxDeliver pid [] stream :=
    fun stream next kept owing along given => owing_stable pid [] stream next kept (owing given) along
  refine does_await (owing_stable _ _) (fun complete => .and (stable complete) (owing_stable _ _))
    fun stream kept owing choice complete next went answered => ?_
  cases choice with
  | outcome complete =>
    cases answered
    refine ⟨fun other _ => .refl other _, fun given => ⟨fun _ member => (nomatch member),
      fun msg member => .inr ?_⟩, owing⟩
    have all : (stream.taken pid).all (stream.settled decode maxDeliver) = true := by
      simpa [gently, given] using went
    exact List.all_eq_true.mp all msg member
  | _ => cases answered

theorem does_handle {msg : Msg} (decodes : (decode msg.data).isSome = true) :
    Does data decode opts.maxDeliver pid (Owing decode opts.maxDeliver pid [msg])
    (handle decode opts msg) fun _ =>
      Owing decode opts.maxDeliver pid [] := by
  obtain ⟨env, found⟩ := Option.isSome_iff_exists.mp decodes
  have decoded : Decoded decode [(msg, env)] := by simpa [Decoded] using found
  unfold handle
  rw [found]
  refine does_bind _ (does_handler decoded) fun handled => ?_
  refine does_bind (fun _ => Owing decode opts.maxDeliver pid [])
    (Triple.strengthen (does_finish found [] handled) fun stream _ holds => ?_) fun _ => ?_
  · exact ⟨fun given => holds.1 given _ (List.mem_singleton_self _), holds.2⟩
  · exact does_pure _ (fun _ => Owing decode opts.maxDeliver pid []) (owing_stable _ _)

theorem does_collect (size : Nat) {msgs : List Msg} :
    Does data decode maxDeliver pid (Owing decode maxDeliver pid msgs)
    (collect decode size) fun found stream =>
      Decoded decode found ∧ Owing decode maxDeliver pid (found.map Prod.fst ++ msgs) stream := by
  have finished (found : List (Msg × Envelope)) (decoded : Decoded decode found) (msgs : List Msg) :
      Does data decode maxDeliver pid (Owing decode maxDeliver pid (found.map Prod.fst ++ msgs)) (pure found)
          fun found stream =>
        Decoded decode found ∧ Owing decode maxDeliver pid (found.map Prod.fst ++ msgs) stream :=
    (does_pure found (fun found stream => Decoded decode found ∧
      Owing decode maxDeliver pid (found.map Prod.fst ++ msgs) stream)
      (.and (.const _) (owing_stable _ _))).strengthen fun stream _ owing => ⟨decoded, owing⟩
  induction size generalizing msgs with
  | zero => exact finished [] (fun _ member => nomatch member) msgs
  | succ more ih =>
    unfold collect
    refine does_bind _ does_message fun next => ?_
    cases next with
    | none => exact finished [] (fun _ member => nomatch member) msgs
    | some msg =>
      refine Triple.fact fun decodes => ?_
      obtain ⟨env, found⟩ := Option.isSome_iff_exists.mp decodes
      dsimp only
      rw [found]
      refine does_bind _ ih fun rest => Triple.fact fun decoded => ?_
      refine (finished ((msg, env) :: rest) (List.forall_mem_cons.mpr ⟨found, decoded⟩) msgs).strengthen
          fun stream _ owing =>
        owing.reorder fun other => ?_
      simp only [List.map_cons, List.cons_append, List.mem_cons, List.mem_append]
      tauto

theorem does_finishAll (handled : Bool) {found : List (Msg × Envelope)} (decoded : Decoded decode found) :
    Does data decode opts.maxDeliver pid
      (fun stream => (handled = true → ∀ entry ∈ found, stream.safe decode entry.1.id = true) ∧
        Owing decode opts.maxDeliver pid (found.map Prod.fst) stream)
      (finishAll opts handled found) fun _ => Owing decode opts.maxDeliver pid [] := by
  induction found with
  | nil =>
    exact (does_pure _ (fun _ => Owing decode opts.maxDeliver pid []) (owing_stable _ _)).strengthen
      fun stream _ holds => holds.2
  | cons entry rest ih =>
    obtain ⟨msg, env⟩ := entry
    obtain ⟨own, others⟩ := List.forall_mem_cons.mp decoded
    refine does_bind (fun _ stream => Owing decode opts.maxDeliver pid (rest.map Prod.fst) stream ∧
      (handled = true → ∀ entry ∈ rest, stream.safe decode entry.1.id = true)) ?_ fun _ => ?_
    · have monotone (other : Nat) (stream next : Stream)
        (along : Alongside data decode opts.maxDeliver other stream next)
          (safe : handled = true → ∀ entry ∈ rest, stream.safe decode entry.1.id = true) :
          handled = true → ∀ entry ∈ rest, next.safe decode entry.1.id = true :=
        fun given entry member => along.safe _ (safe given entry member)
      refine (Triple.frame (fun stream => handled = true →
        ∀ entry ∈ rest, stream.safe decode entry.1.id = true) monotone
        (does_finish own (rest.map Prod.fst) handled)).conseq (fun stream _ holds => ?_)
          fun result stream _ holds => ?_
      · exact ⟨⟨fun given => holds.1 given _ (List.mem_cons_self ..), holds.2⟩,
          fun given entry member => holds.1 given entry (List.mem_cons_of_mem _ member)⟩
      · cases result with
        | ok value => exact holds
        | error error => exact nomatch error
    · exact (ih others).strengthen fun stream _ holds => ⟨holds.2, holds.1⟩

theorem does_consumeBatch (size : Nat) :
    Does data decode opts.maxDeliver pid (Owing decode opts.maxDeliver pid [])
    (consumeBatch decode opts size) fun _ =>
      Owing decode opts.maxDeliver pid [] := by
  have idle : Does data decode opts.maxDeliver pid (Owing decode opts.maxDeliver pid []) (pure ()) fun _ =>
      Owing decode opts.maxDeliver pid [] :=
        does_pure _ (fun _ => Owing decode opts.maxDeliver pid []) (owing_stable _ _)
  unfold consumeBatch
  refine does_bind _ (does_nothing (owing_stable _ _) fun stream choice reply next answered => ?_)
    fun fetched => ?_
  · cases choice <;> cases answered
    rfl
  · split
    · refine does_bind _ (does_collect size) fun found => Triple.fact fun decoded => ?_
      refine does_bind _ does_batchError fun complete => ?_
      split
      · refine does_bind _ ((does_handler decoded).strengthen
          fun stream _ holds => by simpa using holds.2) fun handled => ?_
        exact does_finishAll handled decoded
      · next idle_ =>
        refine idle.strengthen fun stream _ holds => ?_
        rw [Bool.and_eq_true, not_and_or] at idle_
        rcases idle_ with failed | none_
        · exact holds.1 (Bool.eq_false_iff.mpr failed)
        · simpa [List.isEmpty_iff.mp (by simpa using none_)] using holds.2
    · exact idle

theorem does_code (call : Call) :
    Does data decode opts.maxDeliver pid (Owing decode opts.maxDeliver pid [])
    (code decode opts call) fun _ =>
      Owing decode opts.maxDeliver pid [] := by
  cases call with
  | message => exact does_bind _ does_receive fun msg => Triple.fact fun decodes => does_handle decodes
  | batch size => exact does_consumeBatch size

end Scripts

end

/-! ## Runs -/

theorem withDefaults_positive (options : ConsumeOptions) : 0 < options.withDefaults.maxDeliver := by
  simp only [ConsumeOptions.withDefaults]
  split <;> omega

/-- In any run in which nothing goes wrong on a last delivery, a message goes only after the
handler returned nil for it or its dead letter was stored. -/
theorem no_message_lost (decode : Bytes → Option Envelope) (options : ConsumeOptions) (data : Nat → Bytes)
    {config : Config} (run : ((jetstream decode options.withDefaults.maxDeliver).restrict
      (gently decode options.withDefaults.maxDeliver)).Reaches
      (code decode options.withDefaults) (gentle decode options.withDefaults.maxDeliver)
      (.start (.holding data)) config) :
    Lossless decode options.withDefaults.maxDeliver config := by
  have positive := withDefaults_positive options
  have calls : ∀ pid call stream, (gentle decode options.withDefaults.maxDeliver).spawn pid call stream →
      Kept data decode options.withDefaults.maxDeliver stream → stream.taken pid = [] →
      Safe ((jetstream decode options.withDefaults.maxDeliver).restrict
        (gently decode options.withDefaults.maxDeliver))
        (gentle decode options.withDefaults.maxDeliver)
          (Alongside data decode options.withDefaults.maxDeliver) pid
        (code decode options.withDefaults call) (fun result later =>
          Kept data decode options.withDefaults.maxDeliver later ∧
          Returning (fun _ => Owing decode options.withDefaults.maxDeliver pid []) result later) stream := by
    intro pid call stream _ kept none_
    exact does_code call stream kept ⟨fun _ member => (nomatch member),
      fun msg member => by rw [none_] at member; cases member⟩
  have fresh : Kept data decode options.withDefaults.maxDeliver (.holding data) := by
    refine ⟨fun _ => rfl, fun _ is => (by cases is), fun _ is => (by cases is),
      fun _ _ member => (by cases member), fun id late => ?_⟩
    simp only [Stream.holding, Message.fresh] at late
    omega
  have sound := (gentle_discipline data decode).reaches calls run ⟨fresh, fun pid => rfl⟩
  intro id gone
  obtain ⟨kept, procs⟩ := sound
  rcases gone with acked | termed | ⟨late, finished⟩
  · exact kept.acked id acked
  · exact kept.termed id termed
  · rcases kept.last id late with safe | ⟨pid, msg, member, same, last⟩
    · exact safe
    · -- whoever took the last delivery has finished, so it owes nothing any more
      have ended := finished pid msg member same
      have owed := procs pid
      cases status : config.procs pid with
      | idle => rw [status] at ended; cases ended
      | crashed call => rw [status] at ended; cases ended
      | running call script =>
        rw [status] at ended owed
        cases script with
        | ret value =>
          obtain ⟨_, owing⟩ := owed config.state (.refl pid _)
          exact same ▸ safe_of_settled ((owing.paid msg member).resolve_left (by simp)) last
        | fail error => exact nomatch error
        | call act rest => cases ended

/-- An envelope the handler refuses is dead-lettered at its only delivery. -/
theorem no_message_lost_refused : ∃ config : Config, Gone 1 config 0 ∧ Lossless
    (fun _ => some ⟨7, "", []⟩) 1 config ∧
    config.state.published = [("oe.system.dead_letter." ++ uuidText 7, utf8 "x")] := by
  let options : ConsumeOptions := ⟨1, 0, 0, 0⟩
  let decode (_ : Bytes) : Option Envelope := some ⟨7, "", []⟩
  have idle : ((jetstream decode 1).restrict (gently decode 1)).Reaches
    (code decode options.withDefaults) (gentle decode 1)
      (.start (.holding fun _ => utf8 "x")) (.start (.holding fun _ => utf8 "x")) := .refl
  have spawned := idle.move (.spawn 0 .message) trivial rfl
  have received := spawned.move (.act 0 (.message 0)) (fun _ _ _ _ => trivial) rfl
  have refused := received.move (.act 0 (.outcome false)) (fun _ _ _ _ => trivial) rfl
  have known := refused.move (.act 0 (.outcome true)) (fun _ _ _ _ => trivial) rfl
  have copied := known.move (.act 0 (.sent true true)) (fun _ _ _ _ => trivial) rfl
  have run := copied.move (.act 0 (.sent true true)) (fun _ _ _ _ => trivial) rfl
  exact ⟨_, .inr (.inl rfl), no_message_lost decode options (fun _ => utf8 "x") run, rfl⟩

/-- A payload that does not decode is terminated and leaves no copy. -/
theorem undecodable_lost :
    ¬ ∀ (decode : Bytes → Option Envelope) (options : ConsumeOptions) (data : Nat → Bytes) (config : Config),
      (jetstream decode options.withDefaults.maxDeliver).Reaches (code decode options.withDefaults) {}
      (.start (.holding data)) config →
        Lossless decode options.withDefaults.maxDeliver config := by
  intro lossless
  have idle : (jetstream (fun _ => none) 5).Reaches (code (fun _ => none)
    (ConsumeOptions.withDefaults ⟨0, 0, 0, 0⟩)) {}
      (.start (.holding fun _ => utf8 "x")) (.start (.holding fun _ => utf8 "x")) := .refl
  have spawned := idle.move (.spawn 0 .message) trivial rfl
  have received := spawned.move (.act 0 (.message 0)) (fun _ _ _ _ => trivial) rfl
  have run := received.move (.act 0 (.sent true true)) (fun _ _ _ _ => trivial) rfl
  have safe := lossless (fun _ => none) ⟨0, 0, 0, 0⟩ (fun _ => utf8 "x") _ run 0 (.inr (.inl rfl))
  cases safe

end OpenEmarsys.Nats
