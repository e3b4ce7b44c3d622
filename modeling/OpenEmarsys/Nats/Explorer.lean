import OpenEmarsys.Golang.Values
import OpenEmarsys.Javascript.Values
import Mathlib.Data.List.Range

/-! `NatsConsumerExplorer`: the loop that takes the messages of a durable consumer.

The loop is `void`: what it throws stops it for good, and it awaits handlers and
publications for as long as they take. Sending an acknowledgement only queues it on the
connection.
-/

set_option autoImplicit false

namespace OpenEmarsys.Nats

open Golang Javascript

/-- `DEFAULT_BACKOFF_MS[0]`. -/
def defaultBackoffMs : Nat := 1000

structure JsMsg where
  data : Bytes
  redeliveryCount : Nat
  /-- The header `traceparent`. -/
  traceParent : Option String

/-- What the promise of the handler comes to: an error is thrown with the text `String(err)` makes of it,
if it makes any. -/
inductive Handled where
  | returned
  | threw (text : Option String)
  /-- It never settles. -/
  | pending

/-- What the promise of `js.publish` comes to. -/
inductive Publication where
  | resolved
  | rejected
  | pending
  deriving DecidableEq

/-- A message with what its handler and the publication of its dead letter come to. -/
structure Turn where
  msg : JsMsg
  handler : Json → Handled
  published : Publication

inductive Resolution where
  | acked
  | naked (delay : Nat)
  | termed
  /-- Neither: the stream delivers the message again. -/
  | unresolved
  deriving DecidableEq

structure DeadLetter where
  subject : String
  data : Bytes
  traceParent : Option String

/-- Why the loop takes no further message. -/
inductive Stopped where
  /-- The iterator of messages ended. -/
  | exhausted
  /-- The promise of the loop was rejected. -/
  | rejected
  /-- It awaits a promise that never settles. -/
  | waiting
  deriving DecidableEq

structure Loop where
  resolutions : List Resolution
  /-- The dead letters that were published. -/
  deadLetters : List DeadLetter
  stopped : Option Stopped

section
variable (parse : Bytes → Option Json) (maxDeliver : Nat) (backoffMs : List Nat)

/-- Extracts `tenant_id` from a raw envelope payload, without trusting its shape. -/
def tenantOf (data : Bytes) : String :=
  match parse data with
  | some (.object members) =>
      match members.lookup "tenant_id" with
      | some (.string tenantId) => tenantId
      | _ => "unknown"
  | _ => "unknown"

def attempt (msg : JsMsg) : Nat := msg.redeliveryCount + 1

/-- What handling the message comes to. A payload that is no JSON throws a `SyntaxError`. -/
def outcome (turn : Turn) : Handled :=
  match parse turn.msg.data with
  | none => .threw (some "SyntaxError")
  | some envelope => turn.handler envelope

def nakDelay (msg : JsMsg) : Nat :=
  (backoffMs[min (attempt msg - 1) (backoffMs.length - 1)]?).getD defaultBackoffMs

def deadLetterOf (msg : JsMsg) : DeadLetter :=
  ⟨"oe.system.dead_letter." ++ tenantOf parse msg.data, msg.data, msg.traceParent⟩

def Loop.resolve (loop : Loop) (resolution : Resolution) : Loop :=
  { loop with resolutions := loop.resolutions ++ [resolution] }

/-- The warning at the end of `catch` converts the error to a string once more. -/
def Loop.warn (loop : Loop) (text : Option String) : Loop :=
  if text.isSome then loop else { loop with stopped := some .rejected }

def take (loop : Loop) (turn : Turn) : Loop :=
  match outcome parse turn with
  | .returned => loop.resolve .acked
  | .pending => { loop.resolve .unresolved with stopped := some .waiting }
  | .threw text =>
      if maxDeliver ≤ attempt turn.msg then
        match turn.published with
        | .resolved =>
            ({ loop with deadLetters := loop.deadLetters ++ [deadLetterOf parse turn.msg] }.resolve
              .termed).warn text
        | .rejected => { loop.resolve .unresolved with stopped := some .rejected }
        | .pending => { loop.resolve .unresolved with stopped := some .waiting }
      else (loop.resolve (.naked (nakDelay backoffMs turn.msg))).warn text

/-- `for await`: takes what the iterator yields next, unless the loop has stopped. -/
def next (loop : Loop) (yielded : Option Turn) : Loop :=
  match loop.stopped with
  | some _ => loop
  | none =>
      match yielded with
      | some turn => take parse maxDeliver backoffMs loop turn
      | none => { loop with stopped := some .exhausted }

/-- The loop after `n` steps of the iterator. -/
def loopAfter (messages : Nat → Option Turn) : Nat → Loop
  | 0 => ⟨[], [], none⟩
  | n + 1 => next parse maxDeliver backoffMs (loopAfter messages n) (messages n)

/-- Every message the iterator yields is taken, and resolved or left for redelivery, and the loop
stops only with the iterator. -/
structure GoesOn (messages : Nat → Option Turn) : Prop where
  taken : ∀ n, (∀ i < n, (messages i).isSome = true) →
      (loopAfter parse maxDeliver backoffMs messages n).stopped = none ∧
      (loopAfter parse maxDeliver backoffMs messages n).resolutions.length = n
  ends : ∀ n how, (loopAfter parse maxDeliver backoffMs messages n).stopped = some how → how = .exhausted

/-- Handling it settles; when it fails, the error has a text, and on the last attempt the dead letter is
published. -/
def Survives (turn : Turn) : Prop :=
  match outcome parse turn with
  | .returned => True
  | .threw text => text.isSome = true ∧ (maxDeliver ≤ attempt turn.msg → turn.published = .resolved)
  | .pending => False

theorem take_survives {loop : Loop} (turn : Turn) (running : loop.stopped = none) :
    (Survives parse maxDeliver turn ↔ (take parse maxDeliver backoffMs loop turn).stopped = none) ∧
      (take parse maxDeliver backoffMs loop turn).resolutions.length = loop.resolutions.length + 1 := by
  unfold take Survives
  cases outcome parse turn with
  | returned => simp [Loop.resolve, running]
  | pending => simp [Loop.resolve]
  | threw text =>
    by_cases last : maxDeliver ≤ attempt turn.msg
    · cases published : turn.published with
      | resolved => cases text <;> simp [last, running, Loop.resolve, Loop.warn]
      | rejected => simp [last, Loop.resolve]
      | pending => simp [last, Loop.resolve]
    · cases text <;> simp [last, running, Loop.resolve, Loop.warn]

theorem loopAfter_survives {messages : Nat → Option Turn}
    (survive : ∀ n turn, (∀ i < n, (messages i).isSome = true) → messages n = some turn →
      Survives parse maxDeliver turn) (n : Nat) :
    ((loopAfter parse maxDeliver backoffMs messages n).stopped = none ∧
        (loopAfter parse maxDeliver backoffMs messages n).resolutions.length = n ∧ ∀ i < n,
        (messages i).isSome = true) ∨
      ((loopAfter parse maxDeliver backoffMs messages n).stopped = some .exhausted ∧
        ∃ i < n, messages i = none) := by
  induction n with
  | zero => exact .inl ⟨rfl, rfl, fun i before => by omega⟩
  | succ n ih =>
    rcases ih with ⟨running, count, yielded⟩ | ⟨stopped, i, before, last⟩
    · cases found : messages n with
      | none =>
        refine .inr ⟨?_, n, Nat.lt_succ_self n, found⟩
        simp [loopAfter, next, running, found]
      | some turn =>
        obtain ⟨survives, more⟩ := take_survives parse maxDeliver backoffMs turn running
        refine .inl ⟨?_, ?_, fun i before => ?_⟩
        · simpa [loopAfter, next, running, found] using survives.mp (survive n turn yielded found)
        · simpa [loopAfter, next, running, found, count] using more
        · rcases Nat.lt_succ_iff_lt_or_eq.mp before with earlier | rfl
          · exact yielded i earlier
          · rw [found]; rfl
    · exact .inr ⟨by simp [loopAfter, next, stopped], i, Nat.lt_succ_of_lt before, last⟩

/-- The loop goes on exactly when every message it comes to survives. -/
theorem loop_goes_on_iff (messages : Nat → Option Turn) :
    GoesOn parse maxDeliver backoffMs messages ↔
      ∀ n turn, (∀ i < n, (messages i).isSome = true) → messages n = some turn →
      Survives parse maxDeliver turn := by
  constructor
  · intro goes n turn yielded found
    have running := (goes.taken n yielded).1
    refine (take_survives parse maxDeliver backoffMs turn running).1.mpr ?_
    have yielded : ∀ i < n + 1, (messages i).isSome = true := by
      intro i before
      rcases Nat.lt_succ_iff_lt_or_eq.mp before with earlier | rfl
      · exact yielded i earlier
      · rw [found]; rfl
    simpa [loopAfter, next, running, found] using (goes.taken (n + 1) yielded).1
  · intro survive
    refine ⟨fun n yielded => ?_, fun n how stopped => ?_⟩
    · rcases loopAfter_survives parse maxDeliver backoffMs survive n with ⟨running, count,
        -⟩ | ⟨-, i, before, last⟩
      · exact ⟨running, count⟩
      · have some_ := yielded i before
        rw [last] at some_
        cases some_
    · rcases loopAfter_survives parse maxDeliver backoffMs survive n with ⟨running, -⟩ | ⟨ended, -⟩
      · rw [running] at stopped
        cases stopped
      · rw [ended] at stopped
        cases stopped
        rfl

end

/-- A payload that is no JSON, on its fifth attempt while JetStream does not answer. -/
def poisoned : Turn := ⟨⟨utf8 "x", 4, none⟩, fun _ => .returned, .rejected⟩

/-- The loop stops at it, and leaves the messages behind it. -/
theorem poisoned_stops :
    ¬ ∀ (parse : Bytes → Option Json) (maxDeliver : Nat) (backoffMs : List Nat)
    (messages : Nat → Option Turn),
      GoesOn parse maxDeliver backoffMs messages := by
  intro goes
  have stopped := (goes (fun _ => none) 5 [1000, 5000, 15000] (fun _ => some poisoned)).taken 1 fun _ _ => rfl
  exact absurd stopped.1 (by decide)

end OpenEmarsys.Nats
