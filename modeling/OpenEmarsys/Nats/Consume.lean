import OpenEmarsys.Golang.Values
import OpenEmarsys.Interleaving.Triples
import OpenEmarsys.Javascript.Values

/-! `natsx`: durable consumers of a JetStream stream, one message or one batch at a time.

JetStream delivers a message that is neither acknowledged nor terminated again, up to
`maxDeliver` times. A process is one run of the callback of `Consume`, or one turn of the
loop of `ConsumeBatch`.
-/

set_option autoImplicit false

namespace OpenEmarsys.Nats

open Interleaving Golang
open Javascript (Uuid uuidText)

abbrev Duration := Int64

structure ConsumeOptions where
  maxDeliver : Int
  ackWait : Duration
  backoffBase : Duration
  backoffMax : Duration

def ConsumeOptions.withDefaults (o : ConsumeOptions) : ConsumeOptions where
  maxDeliver := if o.maxDeliver ≤ 0 then 5 else o.maxDeliver
  ackWait := if o.ackWait ≤ 0 then 30000000000 else o.ackWait
  backoffBase := if o.backoffBase ≤ 0 then 1000000000 else o.backoffBase
  backoffMax := if o.backoffMax ≤ 0 then 60000000000 else o.backoffMax

def doubled (most : Duration) : Nat → Duration → Duration
  | 0, delay => delay
  | more + 1, delay => if delay < most then doubled most more (delay * 2) else delay

/-- The exponential Nak delay for the attempt-th delivery (1-indexed). -/
def backoffDelay (opts : ConsumeOptions) (attempt : Nat) : Duration :=
  let delay := doubled opts.backoffMax (attempt - 1) opts.backoffBase
  if opts.backoffMax < delay then opts.backoffMax else delay

structure Envelope where
  tenantID : Uuid
  traceParent : String
  data : Bytes
  deriving DecidableEq

/-- A delivery of a message of the stream. -/
structure Msg where
  id : Nat
  data : Bytes
  numDelivered : Nat
  deriving DecidableEq

inductive Act where
  /-- JetStream hands the callback its next message. -/
  | receive
  | fetch (batchSize : Nat)
  /-- The next message of `batch.Messages()`, until it is closed. -/
  | message
  | batchError
  | handler (batch : List (Msg × Envelope))
  | metadata (msg : Msg)
  | publish (subject : String) (data : Bytes)
  | ack (msg : Msg)
  | nak (msg : Msg)
  | nakWithDelay (msg : Msg) (delay : Duration)
  | term (msg : Msg)

/-- Where Go returns an error, whether it is nil. -/
abbrev Act.Reply : Act → Type
  | .receive => Msg
  | .message => Option Msg
  | .metadata _ => Option Nat
  | _ => Bool

abbrev ConsumeScript (α : Type) := Script Act Act.Reply Empty α

abbrev await (act : Act) : ConsumeScript act.Reply := Script.await act

/-- Republishes the raw envelope to oe.system.dead_letter.<tenant>. -/
def deadLetter (msg : Msg) (tenantID : Uuid) : ConsumeScript Bool :=
  await (.publish ("oe.system.dead_letter." ++ uuidText tenantID) msg.data)

/-- Acks the message on success; on failure naks it, or dead-letters and terms it at the last delivery. -/
def finish (opts : ConsumeOptions) (msg : Msg) (tenantID : Uuid) (handled : Bool) : ConsumeScript Bool :=
  if handled then await (.ack msg)
  else do
    let metadata : Option Nat ← await (.metadata msg)
    match metadata with
    | none => await (.nak msg)
    | some numDelivered =>
        if opts.maxDeliver ≤ numDelivered then do
          let published ← deadLetter msg tenantID
          if published then await (.term msg) else pure false
        else await (.nakWithDelay msg (backoffDelay opts numDelivered))

section
variable (decode : Bytes → Option Envelope) (opts : ConsumeOptions)

/-- Decodes one message, runs the handler and resolves the message. -/
def handle (msg : Msg) : ConsumeScript Unit :=
  match decode msg.data with
  | none => do
      let _ ← await (.term msg)
      pure ()
  | some env => do
      let handled : Bool ← await (.handler [(msg, env)])
      let _ ← finish opts msg env.tenantID handled
      pure ()

/-- One run of the callback that `Consume` registers. -/
def consume : ConsumeScript Unit := do
  let msg : Msg ← await .receive
  handle decode opts msg

/-- The messages of a batch that decode; the others are termed. -/
def collect : Nat → ConsumeScript (List (Msg × Envelope))
  | 0 => pure []
  | more + 1 => do
      let next : Option Msg ← await .message
      match next with
      | none => pure []
      | some msg =>
          match decode msg.data with
          | none => do
              let _ ← await (.term msg)
              collect more
          | some env => do
              let rest ← collect more
              pure ((msg, env) :: rest)

/-- Every message of the batch is resolved by the handler's single error. -/
def finishAll (handled : Bool) : List (Msg × Envelope) → ConsumeScript Unit
  | [] => pure ()
  | (msg, env) :: rest => do
      let _ ← finish opts msg env.tenantID handled
      finishAll handled rest

/-- One turn of the loop of `ConsumeBatch`. -/
def consumeBatch (batchSize : Nat) : ConsumeScript Unit := do
  let fetched : Bool ← await (.fetch batchSize)
  if fetched then do
    let found ← collect decode batchSize
    let complete : Bool ← await .batchError
    if complete && !found.isEmpty then do
      let handled : Bool ← await (.handler found)
      finishAll opts handled found
    else pure ()
  else pure ()

inductive Call where
  | message
  | batch (size : Nat)

def code : Call → ConsumeScript Unit
  | .message => consume decode opts
  | .batch size => consumeBatch decode opts size

end

structure Message where
  data : Bytes
  deliveries : Nat
  acked : Bool
  termed : Bool
  /-- The handler returned nil for it. A history variable. -/
  handled : Bool

def Message.fresh (data : Bytes) : Message := ⟨data, 0, false, false, false⟩

structure Stream where
  messages : Nat → Message
  /-- What was published and stored, with its subjects. -/
  published : List (String × Bytes)
  /-- The deliveries each process has had. A history variable. -/
  taken : Nat → List Msg

def Stream.holding (data : Nat → Bytes) : Stream := ⟨fun id => .fresh (data id), [], fun _ => []⟩

def Stream.change (stream : Stream) (id : Nat) (f : Message → Message) : Stream :=
  { stream with messages := Function.update stream.messages id (f (stream.messages id)) }

def Stream.handle (decode : Bytes → Option Envelope) (batch : List (Msg × Envelope))
    (stream : Stream) : Stream :=
  { stream with messages := fun id =>
      let message := stream.messages id
      { message with
        handled := message.handled || batch.any fun (msg, env) => msg.id = id && decode message.data = some env } }

/-- JetStream delivers the message to the process, if it may. -/
def Stream.deliver (maxDeliver : Int) (pid id : Nat) (stream : Stream) : Option (Msg × Stream) :=
  let message := stream.messages id
  if !message.acked && !message.termed && message.deliveries < maxDeliver then
    let msg : Msg := ⟨id, message.data, message.deliveries + 1⟩
    some (msg, { stream.change id fun message => { message with deliveries := message.deliveries + 1 } with
      taken := Function.update stream.taken pid (msg :: stream.taken pid) })
  else none

section
variable (decode : Bytes → Option Envelope)

/-- A copy of the message is stored for its tenant. -/
def Stream.copied (stream : Stream) (id : Nat) : Bool :=
  (decode (stream.messages id).data).any fun env =>
    stream.published.contains ("oe.system.dead_letter." ++ uuidText env.tenantID, (stream.messages id).data)

def Stream.safe (stream : Stream) (id : Nat) : Bool := (stream.messages id).handled || stream.copied decode id

end

/-- What a call leaves open: the message delivered, whether it succeeds, whether what it sends arrives. -/
inductive Choice where
  | message (id : Nat)
  | closed
  | outcome (succeeds : Bool)
  | sent (arrives acknowledged : Bool)

def respond (decode : Bytes → Option Envelope) (maxDeliver : Int) (pid : Nat) :
    (act : Act) → Choice → Stream → Option (act.Reply × Stream)
  | .receive, .message id, stream => stream.deliver maxDeliver pid id
  | .fetch _, .outcome succeeds, stream => some (succeeds, stream)
  | .message, .message id, stream => (stream.deliver maxDeliver pid id).map
    fun (msg, after) => (some msg, after)
  | .message, .closed, stream => some (none, stream)
  | .batchError, .outcome succeeds, stream => some (succeeds, stream)
  | .handler batch, .outcome succeeds, stream => some (succeeds, if succeeds
    then stream.handle decode batch else stream)
  | .metadata msg, .outcome succeeds, stream => some (if succeeds
    then some msg.numDelivered else none, stream)
  | .publish subject data, .sent arrives acknowledged, stream =>
      some (arrives && acknowledged,
        if arrives then { stream with published := (subject, data) :: stream.published } else stream)
  | .ack msg, .sent arrives acknowledged, stream =>
      some (acknowledged, if arrives then stream.change msg.id
        fun message => { message with acked := true } else stream)
  | .nak _, .sent _ acknowledged, stream => some (acknowledged, stream)
  | .nakWithDelay _ _, .sent _ acknowledged, stream => some (acknowledged, stream)
  | .term msg, .sent arrives acknowledged, stream =>
      some (acknowledged, if arrives then stream.change msg.id
        fun message => { message with termed := true } else stream)
  | _, _, _ => none

/-- A process that dies has nothing in hand any more. -/
def jetstream (decode : Bytes → Option Envelope) (maxDeliver : Int) :
    Machine Act Act.Reply Choice Stream where
  act := respond decode maxDeliver
  disturb _ _ _ := none
  crash pid stream := { stream with taken := Function.update stream.taken pid [] }

abbrev Config := Interleaving.Config Call Act Act.Reply Empty Unit Stream

/-- JetStream does not deliver the message again, and nobody is at work on a delivery of it. -/
def Gone (maxDeliver : Int) (config : Config) (id : Nat) : Prop :=
  let message := config.state.messages id
  message.acked = true ∨ message.termed = true ∨
    (maxDeliver ≤ message.deliveries ∧
      ∀ pid, ∀ msg ∈ config.state.taken pid, msg.id = id → (config.procs pid).outcome.isSome = true)

/-- Every message that is gone was handled, or its copy is stored. -/
def Lossless (decode : Bytes → Option Envelope) (maxDeliver : Int) (config : Config) : Prop :=
  ∀ id, Gone maxDeliver config id → config.state.safe decode id = true

end OpenEmarsys.Nats
