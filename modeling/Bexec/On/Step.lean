import Bexec.Foundation.Machine
import Bexec.Signatures.Storage

/-! # The operation of `on`

Three operations in a row: the schedule operation of the target scheduler, the
child, and the schedule operation of the receiver's own scheduler. The
completion of the first two is stored until the third completes.
-/

namespace Bexec.On

open Foundation Signatures

variable {Ty V : Type*}

/-- A schedule sender; its values carry no arguments. -/
structure ScheduleSender (Ty : Type*) where
  signatures : List (Signature Ty)
  connectNothrow : Bool
  plain : ∀ args, Completion.setValue args ∈ signatures → args = []

/-- The senders and schedulers of an `on` operation. -/
structure Operation (Ty : Type*) where
  target : ScheduleSender Ty
  child : List (Signature Ty)
  final : ScheduleSender Ty
  sourceConnectNothrow : Bool
  childConnectNothrow : Bool

/-- The calls that may throw: the connections, and the constructors of storing. -/
inductive Call (Ty : Type*)
  | connectSource | connectSchedule | connectChild | connectFinal
  | store (construction : Construction Ty)

/-- Whose completion, or whose call of `start`, the code runs in. -/
inductive Context
  | starter | target | final
  deriving DecidableEq, Repr

/-- Why the receiver is signalled. -/
inductive Cause
  | connecting | storing | scheduled
  deriving DecidableEq, Repr

/-- A completion whose arguments are typed values. -/
abbrev Signal (Ty V : Type*) := Completion (Ty × V)

abbrev Signal.signature (signal : Signal Ty V) : Signature Ty :=
  signal.map Prod.fst

/-- A terminal signal that the receiver gets. -/
structure Delivery (Ty V : Type*) where
  context : Context
  cause : Cause
  signal : Signal Ty V
  deriving DecidableEq

inductive Phase
  | idle | scheduling | running | returning | done | terminated
  deriving DecidableEq, Repr

/-- `stored` is the field `stored_`. What `on_child_receiver` received and how
the final schedule operation completed are kept for the statements. -/
structure State (Ty V : Type*) where
  phase : Phase
  received : Option (Signal Ty V)
  stored : Option (Signal Ty V)
  finished : Option (Signal Ty V)
  delivered : List (Delivery Ty V)
  deriving DecidableEq

namespace State

def initial : State Ty V :=
  ⟨.idle, none, none, none, []⟩

/-- The receiver gets its terminal signal. -/
def deliver (context : Context) (cause : Cause) (signal : Signal Ty V) (s : State Ty V) :
    State Ty V :=
  { s with phase := .done, delivered := ⟨context, cause, signal⟩ :: s.delivered }

end State

variable [ArgumentTypes Ty]

/-- `set_error(exception_ptr)` with a caught exception. -/
def exception (e : V) : Signal Ty V :=
  .setError (exceptionPtr, e)

/-- The stored copy of a completion has decayed types. -/
def Signal.decayed (signal : Signal Ty V) : Signal Ty V :=
  signal.map fun a => (decay a.1, a.2)

/-- What connecting an operation throws. -/
def connectRaises (nothrow : Bool) (raise : Option V) : Option V :=
  if nothrow then none else raise

/-- `store_value`, `store_error` or `store_stopped`, up to `start_final`. -/
def store (raise : Construction Ty → Option V) : Signature Ty → Ending V (Hop V)
  | .setValue args => storeValue raise args
  | .setError error => storeError raise error
  | .setStopped => .value .startFinal

namespace State

/-- `start_final`, with the completion that was stored. -/
def startFinal (op : Operation Ty) (raise : Call Ty → Option V) (context : Context)
    (stored : Signal Ty V) (s : State Ty V) : State Ty V :=
  match connectRaises op.final.connectNothrow (raise .connectFinal) with
  | none => { s with phase := .returning, stored := some stored }
  | some e => { s with stored := some stored }.deliver context .connecting (exception e)

/-- `on_child_receiver` receives a completion. -/
def receive (op : Operation Ty) (raise : Call Ty → Option V) (context : Context)
    (signal : Signal Ty V) (s : State Ty V) : State Ty V :=
  let s := { s with received := some signal }
  match store (fun c => raise (.store c)) signal.signature with
  | .value .startFinal => s.startFinal op raise context signal.decayed
  | .value (.setError e) => s.deliver context .storing (exception e)
  | .raised _ => { s with phase := .terminated }
  | .terminated => { s with phase := .terminated }

end State

inductive Action (Ty V : Type*)
  | start (raise : Call Ty → Option V)
  | targetCompletes (signal : Signal Ty V) (raise : Call Ty → Option V)
  | childCompletes (signal : Signal Ty V) (raise : Call Ty → Option V)
  | finalCompletes (signal : Signal Ty V)

/-- `start_source`, and `start_schedule` of the `starts_on` operation in it. -/
def State.start (op : Operation Ty) (raise : Call Ty → Option V) (s : State Ty V) : State Ty V :=
  match connectRaises op.sourceConnectNothrow (raise .connectSource) with
  | some e => s.deliver .starter .connecting (exception e)
  | none =>
      match connectRaises op.target.connectNothrow (raise .connectSchedule) with
      | some e => s.receive op raise .starter (exception e)
      | none => { s with phase := .scheduling }

/-- `starts_on_schedule_receiver`, and `start_child` on a value. -/
def State.scheduled (op : Operation Ty) (raise : Call Ty → Option V) (s : State Ty V) :
    Signal Ty V → State Ty V
  | .setValue _ =>
      match connectRaises op.childConnectNothrow (raise .connectChild) with
      | some e => s.receive op raise .target (exception e)
      | none => { s with phase := .running }
  | .setError error => s.receive op raise .target (.setError error)
  | .setStopped => s.receive op raise .target .setStopped

/-- `on_final_receiver`, and `deliver_stored` on a value. -/
def State.returned (s : State Ty V) : Signal Ty V → Option (State Ty V)
  | .setValue _ => s.stored.map fun stored => s.deliver .final .scheduled stored
  | .setError error => some (s.deliver .final .scheduled (.setError error))
  | .setStopped => some (s.deliver .final .scheduled .setStopped)

variable [DecidableEq Ty]

def step (op : Operation Ty) (s : State Ty V) : Action Ty V → Option (State Ty V)
  | .start raise => if s.phase = .idle then some (s.start op raise) else none
  | .targetCompletes signal raise =>
      if s.phase = .scheduling ∧ signal.signature ∈ op.target.signatures then
        some (s.scheduled op raise signal)
      else none
  | .childCompletes signal raise =>
      if s.phase = .running ∧ signal.signature ∈ op.child then
        some (s.receive op raise .target signal)
      else none
  | .finalCompletes signal =>
      if s.phase = .returning ∧ signal.signature ∈ op.final.signatures then
        { s with finished := some signal }.returned signal
      else none

/-- The runs of one operation. -/
def machine (V : Type*) (op : Operation Ty) : Machine (State Ty V) (Action Ty V) where
  initial s := s = .initial
  step := step op

/-- What `on_child_receiver` can receive: a connection of the source failed, the
target scheduler refused, or the child completed. -/
inductive Receives (op : Operation Ty) : Signature Ty → Prop
  | connecting (hthrows : op.target.connectNothrow = false ∨
      Completion.setValue [] ∈ op.target.signatures ∧ op.childConnectNothrow = false) :
      Receives op (.setError exceptionPtr)
  | target {c : Signature Ty} (hmem : c ∈ op.target.signatures) (htag : c.tag ≠ .setValue) :
      Receives op c
  | child {c : Signature Ty} (htarget : Completion.setValue [] ∈ op.target.signatures)
      (hmem : c ∈ op.child) : Receives op c

/-- The states of an operation that can be reached, with how each came about. -/
inductive Reached (op : Operation Ty) : State Ty V → Prop
  | idle : Reached op .initial
  | scheduling : Reached op ⟨.scheduling, none, none, none, []⟩
  | running (htarget : Completion.setValue [] ∈ op.target.signatures) :
      Reached op ⟨.running, none, none, none, []⟩
  | returning (signal : Signal Ty V) (hreceives : Receives op signal.signature) :
      Reached op ⟨.returning, some signal, some signal.decayed, none, []⟩
  | terminated (signal : Signal Ty V) : Reached op ⟨.terminated, some signal, none, none, []⟩
  | connecting (received stored : Option (Signal Ty V)) (context : Context) (e : V) :
      Reached op ⟨.done, received, stored, none, [⟨context, .connecting, exception e⟩]⟩
  | storing (signal : Signal Ty V) (context : Context) (e : V)
      (hreceives : Receives op signal.signature)
      (hthrows : storeNothrow signal.signature = false) :
      Reached op ⟨.done, some signal, none, none, [⟨context, .storing, exception e⟩]⟩
  | stored (signal : Signal Ty V) (hreceives : Receives op signal.signature) :
      Reached op ⟨.done, some signal, some signal.decayed, some (.setValue []),
        [⟨.final, .scheduled, signal.decayed⟩]⟩
  | refused (signal final : Signal Ty V) (hreceives : Receives op signal.signature)
      (hmem : final.signature ∈ op.final.signatures) (htag : final.tag ≠ .setValue) :
      Reached op ⟨.done, some signal, some signal.decayed, some final,
        [⟨.final, .scheduled, final⟩]⟩

end Bexec.On
