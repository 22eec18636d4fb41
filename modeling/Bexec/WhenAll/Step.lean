import Bexec.Foundation.Census
import Bexec.StopToken.Host

/-!
# Steps of `when_all`

One `when_all` operation: its state, its internal stop source and the children
it starts. The children register stop callbacks on the source and complete on
any thread, also inside such a callback. The receiver's stop token calls
`when_all_stop_request` at most once; its callback object is the slot `onStop`,
whose `reset` waits for a callback running on another thread. Constructors do
not throw.
-/

namespace Bexec.WhenAll

open Foundation

/-- What a child sends, and what the receiver is completed with. -/
inductive Signal (Value Error : Type)
  | value (values : List Value)
  | error (error : Error)
  | stopped
  deriving DecidableEq

/-- `terminal_kind`. -/
inductive TerminalKind
  | none
  | error
  | stopped
  deriving DecidableEq

def Signal.kind {Value Error : Type} : Signal Value Error → TerminalKind
  | .value _ => .none
  | .error _ => .error
  | .stopped => .stopped

/-- The child senders: what each sends, and `sender_has_single_value_completion_v`. -/
structure Children (n : Nat) (Value Error : Type) where
  outcome : Fin n → Signal Value Error
  sendsValue : Fin n → Bool
  declared : ∀ k values, outcome k = .value values → sendsValue k = true

/-- `sends_value` of the operation. -/
def Children.sendsValues {n : Nat} {Value Error : Type} (children : Children n Value Error) : Bool :=
  (List.finRange n).all children.sendsValue

/-- Where a child stands: in `child_value`, `child_error` or `child_stopped` up
to `decrement`, in `finish_one` from `resetOnStop` on. -/
inductive ChildPc
  | unstarted
  | running
  | emplace
  | exchange
  | storeError
  | requestStop
  | stopping
  | decrement
  | resetOnStop
  | loadTerminal
  | deliver (final : TerminalKind)
  | done
  deriving DecidableEq

/-- The first program point of the completion function a signal calls. -/
def Signal.firstPc {Value Error : Type} : Signal Value Error → ChildPc
  | .value _ => .emplace
  | _ => .exchange

/-- Where the winner of the terminal exchange goes on. -/
def Signal.wonPc {Value Error : Type} : Signal Value Error → ChildPc
  | .error _ => .storeError
  | _ => .requestStop

/-- `on_stop` and the callback it registered. -/
inductive OnStop (Thread : Type)
  | empty
  | armed
  | running (t : Thread)
  | finished
  | reset
  deriving DecidableEq

/-- Frames of the operation's own code. A child's frame stands for the
completion function it called; where that stands is in `Operation.children`. -/
inductive Code (n : Nat)
  | starter (registered : Bool)
  | childStart (k : Fin n)
  | child (k : Fin n)
  | stopRequest (called : Bool)
  deriving DecidableEq

inductive Event (n : Nat) (Value Error : Type)
  | completed (k : Fin n)
  | won (k : Fin n)
  | decremented (k : Fin n)
  | finishing (k : Fin n)
  | delivered (signal : Signal Value Error)
  deriving DecidableEq

/-- `when_all_state` without its stop source. -/
structure Operation (Thread : Type) (n : Nat) (Value Error : Type) where
  remaining : Nat
  terminal : TerminalKind
  error : Option Error
  values : Fin n → Option (List Value)
  onStop : OnStop Thread
  children : Fin n → ChildPc
  /-- The children whose `start_one` has begun. -/
  started : Nat
  begun : Bool
  log : List (Event n Value Error)

/-- The operation with its stop source, and the stacks of all threads. -/
abbrev State (Thread Record : Type) (n : Nat) (Value Error : Type) :=
  StopToken.Hosted (Operation Thread n Value Error) Thread Record (Code n)

variable {Thread Record Value Error : Type} {n : Nat}

namespace Operation

def initial : Operation Thread n Value Error where
  remaining := n
  terminal := .none
  error := none
  values := fun _ => none
  onStop := .empty
  children := fun _ => .unstarted
  started := 0
  begun := false
  log := []

def setPc (op : Operation Thread n Value Error) (k : Fin n) (pc : ChildPc) :
    Operation Thread n Value Error :=
  { op with children := Function.update op.children k pc }

def record (op : Operation Thread n Value Error) (event : Event n Value Error) :
    Operation Thread n Value Error :=
  { op with log := event :: op.log }

/-- `tuple_cat_values`: none where an empty optional would be dereferenced. -/
def tupleCatValues (op : Operation Thread n Value Error) : Option (List Value) :=
  ((List.finRange n).mapM op.values).map List.flatten

/-- What `finish_one` completes the receiver with. -/
def result (children : Children n Value Error) (op : Operation Thread n Value Error) :
    TerminalKind → Option (Signal Value Error)
  | .error => op.error.map .error
  | .stopped => some .stopped
  | .none => if children.sendsValues then op.tupleCatValues.map .value else some (.value [])

end Operation

variable [DecidableEq Thread] [DecidableEq Record]

namespace State

def initial : State Thread Record n Value Error := ⟨.initial, .initial⟩

/-- User code is in control of the thread. -/
def atUser (s : State Thread Record n Value Error) (t : Thread) : Bool :=
  match s.source.stack t with
  | [] => true
  | .client (.childStart _) :: _ => true
  | .client _ :: _ => false
  | frame :: _ => frame.isUser

/-- `request_stop` has returned to its caller. -/
def resume (s : State Thread Record n Value Error) (t : Thread) : State Thread Record n Value Error :=
  match s.source.stack t with
  | .client (.child k) :: _ =>
      if s.op.children k = .stopping then s.setOp (s.op.setPc k .decrement) else s
  | _ => s

/-- The callback object is destroyed, unless its callback runs on another thread. -/
def resetOnStop (s : State Thread Record n Value Error) (t : Thread) (k : Fin n) :
    Option (State Thread Record n Value Error) :=
  match s.op.onStop with
  | .running u =>
      if u = t then some (s.setOp ({ s.op with onStop := .reset }.setPc k .loadTerminal)) else none
  | .empty => some (s.setOp (s.op.setPc k .loadTerminal))
  | _ => some (s.setOp ({ s.op with onStop := .reset }.setPc k .loadTerminal))

end State

/-- One access of the completion function of a child. -/
def State.childStep (children : Children n Value Error) (s : State Thread Record n Value Error)
    (t : Thread) (k : Fin n) : ChildPc → Option (State Thread Record n Value Error)
  | .emplace =>
      match children.outcome k with
      | .value values =>
          some (s.setOp ({ s.op with values := Function.update s.op.values k (some values) }.setPc k
            .decrement))
      | _ => none
  | .exchange =>
      if s.op.terminal = .none then
        some (s.setOp (({ s.op with terminal := (children.outcome k).kind }.record (.won k)).setPc k
          (children.outcome k).wonPc))
      else some (s.setOp (s.op.setPc k .decrement))
  | .storeError =>
      match children.outcome k with
      | .error error => some (s.setOp ({ s.op with error := some error }.setPc k .requestStop))
      | _ => none
  | .requestStop => (s.setOp (s.op.setPc k .stopping)).via [.requestStop t]
  | .decrement =>
      if s.op.remaining = 1 then
        some (s.setOp ((({ s.op with remaining := 0 }.record (.decremented k)).record
          (.finishing k)).setPc k .resetOnStop))
      else
        (s.setOp (({ s.op with remaining := s.op.remaining - 1 }.record (.decremented k)).setPc k
          .done)).via [.leave t]
  | .resetOnStop => s.resetOnStop t k
  | .loadTerminal => some (s.setOp (s.op.setPc k (.deliver s.op.terminal)))
  | .deliver final =>
      match s.op.result children final with
      | some signal => (s.setOp ((s.op.record (.delivered signal)).setPc k .done)).via [.leave t]
      | none => none
  | _ => none

/-- One access of the operation's own code on top of a stack. -/
def Code.step (children : Children n Value Error) (s : State Thread Record n Value Error)
    (t : Thread) : Code n → Option (State Thread Record n Value Error)
  | .starter false => none
  | .starter true =>
      if hstarted : s.op.started < n then
        (s.setOp ({ s.op with started := s.op.started + 1 }.setPc ⟨s.op.started, hstarted⟩
          .running)).via [.enter t (.childStart ⟨s.op.started, hstarted⟩)]
      else s.via [.leave t]
  | .childStart _ => none
  | .child k => s.childStep children t k (s.op.children k)
  | .stopRequest false => s.via [.become t (.stopRequest true), .requestStop t]
  | .stopRequest true =>
      (s.setOp { s.op with
        onStop := if s.op.onStop = .running t then .finished else s.op.onStop }).via [.leave t]

/-- What the receiver's stop token does with the callback object: it never
stops, it keeps the callback, or it runs it at once. -/
inductive Registration
  | never
  | kept
  | requested
  deriving DecidableEq

inductive Action (Thread Record : Type) (n : Nat)
  | start (thread : Thread)
  | register (thread : Thread) (how : Registration)
  | run (thread : Thread) (weak : Bool)
  | ret (thread : Thread)
  | returnStart (thread : Thread)
  | complete (thread : Thread) (child : Fin n)
  | construct (thread : Thread) (record : Record)
  | destroy (thread : Thread) (record : Record)
  | stop (thread : Thread)
  deriving DecidableEq

/-- A call of the child's own stop callback object that still uses the source. -/
def ownCall (owner : Record → Fin n) (k : Fin n) :
    StopToken.Frame Thread Record (Code n) → Bool
  | .constructor _ .callback => false
  | .constructor r _ => owner r = k
  | .destructor r _ => owner r = k
  | _ => false

variable [Fintype Thread]

/-- A child uses the stop source while it is running: it completes once, not
during its own calls of the source. -/
def step (children : Children n Value Error) (owner : Record → Fin n)
    (s : State Thread Record n Value Error) :
    Action Thread Record n → Option (State Thread Record n Value Error)
  | .start t =>
      if s.atUser t ∧ s.op.begun = false then
        (s.setOp { s.op with begun := true }).via [.enter t (.starter false)]
      else none
  | .register t how =>
      match s.source.stack t, how with
      | .client (.starter false) :: _, .never => s.via [.become t (.starter true)]
      | .client (.starter false) :: _, .kept =>
          (s.setOp { s.op with onStop := .armed }).via [.become t (.starter true)]
      | .client (.starter false) :: _, .requested =>
          (s.setOp { s.op with onStop := .running t }).via
            [.become t (.starter true), .enter t (.stopRequest false)]
      | _, _ => none
  | .run t weak =>
      match s.source.stack t with
      | [] => none
      | .client code :: _ => code.step children s t
      | .requestStop _ :: rest =>
          (s.via [.run t weak]).map fun s' =>
            if (s'.source.stack t).length = rest.length then s'.resume t else s'
      | _ :: _ => s.via [.run t weak]
  | .ret t => s.via [.ret t]
  | .returnStart t =>
      match s.source.stack t with
      | .client (.childStart _) :: _ => s.via [.leave t]
      | _ => none
  | .complete t k =>
      if s.atUser t ∧ s.op.children k = .running ∧
          CallStack.census (ownCall owner k) s.source.stack = 0 then
        (s.setOp ((s.op.record (.completed k)).setPc k (children.outcome k).firstPc)).via
          [.enter t (.child k)]
      else none
  | .construct t r =>
      if s.atUser t ∧ s.op.children (owner r) = .running then s.via [.construct t r] else none
  | .destroy t r =>
      if s.atUser t ∧ s.op.children (owner r) = .running then s.via [.destroy t r] else none
  | .stop t =>
      if s.atUser t ∧ s.op.onStop = .armed then
        (s.setOp { s.op with onStop := .running t }).via [.enter t (.stopRequest false)]
      else none

/-- Any number of threads, children and stop callbacks. -/
def machine (Thread : Type) [Fintype Thread] [DecidableEq Thread]
    (children : Children n Value Error) (owner : Record → Fin n) :
    Machine (State Thread Record n Value Error) (Action Thread Record n) where
  initial s := s = .initial
  step := step children owner

end Bexec.WhenAll
