import Bexec.Foundation.Machine

/-!
# Steps of `repeat_until`

One `repeat_until_operation` with its factory, predicate, child senders and
receiver. A step makes one access to the operation's fields or one call out of
it. User code runs on an empty stack and inside the `start()` of a child, from
where the child may also complete.
-/

namespace Bexec.RepeatUntil

open Foundation

/-- `epoch_`, a `std::uint64_t`. -/
abbrev Epoch := BitVec 64

/-- What `stored_` holds and what the receiver is completed with.
`exception` is the error completion of a `std::exception_ptr`. -/
inductive Completion (Value Error Exception : Type)
  | value (values : Value)
  | error (error : Error)
  | exception (pointer : Exception)
  | stopped
  deriving DecidableEq

/-- The signal of a child, with the exception that copying its arguments into
`stored_` throws, if it does. -/
inductive Signal (Value Error Exception : Type)
  | setValue (values : Value) (copyThrows : Option Exception)
  | setError (error : Error) (copyThrows : Option Exception)
  | setStopped
  deriving DecidableEq

variable {Thread Value Error Exception : Type}

/-- What `child_value`, `child_error` and `child_stopped` leave in `stored_`. -/
def Signal.store : Signal Value Error Exception → Completion Value Error Exception
  | .setValue values none => .value values
  | .setError error none => .error error
  | .setValue _ (some pointer) => .exception pointer
  | .setError _ (some pointer) => .exception pointer
  | .setStopped => .stopped

/-- The code the operation calls. Each entry is indexed by the calls of its kind
made before; the child is numbered by the factory call that made its sender.
The last four fields say what the `nothrow` traits promise. -/
structure Client (Value Error Exception : Type) where
  stopRequested : Nat → Bool
  factory : Nat → Option Exception
  connect : Nat → Option Exception
  predicate : Nat → Except Exception Bool
  child : Nat → Signal Value Error Exception
  errorsNothrow : Bool
  valuesNothrow : Bool
  predicateNothrow : Bool
  factoryNothrow : Bool
  errors_nothrow : errorsNothrow = true → ∀ n e x, child n ≠ .setError e (some x)
  values_nothrow : valuesNothrow = true → ∀ n v x, child n ≠ .setValue v (some x)
  predicate_nothrow : predicateNothrow = true → ∀ n x, predicate n ≠ .error x
  factory_nothrow : factoryNothrow = true → ∀ n, factory n = none

namespace Client

/-- `need_exception_ptr`. -/
def needExceptionPtr (client : Client Value Error Exception) : Bool :=
  !(client.errorsNothrow && client.valuesNothrow && client.predicateNothrow &&
    client.factoryNothrow)

/-- The exception that leaves the factory call or the connection of its sender. -/
def build (client : Client Value Error Exception) (n : Nat) : Option Exception :=
  match client.factory n with
  | some pointer => some pointer
  | none => client.connect n

end Client

/-- The two parties to the compare-exchange of an iteration. -/
inductive Participant
  | drain
  | child
  deriving DecidableEq

/-- The frames of `drain()` up to `childStart`, of a child receiver up to its
exchange, and of `process_stored_completion()`. -/
inductive Frame (Value Error Exception : Type)
  | resetCurrent
  | queryStop
  | loadEpoch
  | emplace (childEpoch : Epoch)
  | startChild (childEpoch : Epoch)
  | childStart (child : Nat) (childEpoch : Epoch)
  | store (child : Nat) (childEpoch : Epoch)
  | exchange (who : Participant) (child : Nat) (childEpoch : Epoch)
  | process (who : Participant) (child : Nat)
  | callPredicate (child : Nat)
  | resetStored
  | completeStored
  | complete (completion : Completion Value Error Exception)
  deriving DecidableEq

/-- What has become of a child; its receiver keeps the epoch it was made with. -/
inductive Child
  | absent
  | connected (childEpoch : Epoch)
  | running (childEpoch : Epoch)
  | completed
  deriving DecidableEq

/-- What can happen in one iteration. -/
inductive Moment
  | started
  | startReturned
  | stored
  | exchanged (who : Participant) (won : Bool)
  | processed (who : Participant)
  | predicateCalled
  deriving DecidableEq

inductive Event (Value Error Exception : Type)
  | moment (child : Nat) (moment : Moment)
  | completed (completion : Completion Value Error Exception)
  deriving DecidableEq

structure State (Thread Value Error Exception : Type) where
  epoch : Epoch
  /-- The child whose operation state `current_` holds. -/
  current : Option Nat
  stored : Option (Completion Value Error Exception)
  stack : Thread → List (Frame Value Error Exception)
  children : Nat → Child
  queries : Nat
  factoryCalls : Nat
  predicateCalls : Nat
  /-- `start()` was called. -/
  begun : Bool
  /-- `std::terminate` was called. -/
  terminated : Bool
  log : List (Event Value Error Exception)

variable [DecidableEq Thread]

namespace State

def initial : State Thread Value Error Exception where
  epoch := 0
  current := none
  stored := none
  stack := fun _ => []
  children := fun _ => .absent
  queries := 0
  factoryCalls := 0
  predicateCalls := 0
  begun := false
  terminated := false
  log := []

def setStack (s : State Thread Value Error Exception) (t : Thread)
    (frames : List (Frame Value Error Exception)) : State Thread Value Error Exception :=
  { s with stack := Function.update s.stack t frames }

def record (s : State Thread Value Error Exception) (event : Event Value Error Exception) :
    State Thread Value Error Exception :=
  { s with log := event :: s.log }

def setChild (s : State Thread Value Error Exception) (n : Nat) (child : Child) :
    State Thread Value Error Exception :=
  { s with children := Function.update s.children n child }

/-- User code is in control of the thread. -/
def atUser (s : State Thread Value Error Exception) (t : Thread) : Bool :=
  match s.stack t with
  | [] => true
  | .childStart _ _ :: _ => true
  | _ => false

end State

variable (client : Client Value Error Exception)

/-- `current_.emplace_from` with the factory call and the connection, and the
handler around it. -/
def State.emplace (s : State Thread Value Error Exception) (t : Thread)
    (rest : List (Frame Value Error Exception)) (childEpoch : Epoch) :
    State Thread Value Error Exception :=
  match client.build s.factoryCalls with
  | some pointer =>
      if client.needExceptionPtr then
        { s with current := none, factoryCalls := s.factoryCalls + 1 }.setStack t
          (.complete (.exception pointer) :: rest)
      else
        { s with current := none, factoryCalls := s.factoryCalls + 1, terminated := true }.setStack
          t rest
  | none =>
      ({ s with current := some s.factoryCalls, factoryCalls := s.factoryCalls + 1 }.setChild
        s.factoryCalls (.connected childEpoch)).setStack t (.startChild childEpoch :: rest)

/-- `epoch_.compare_exchange_strong(child_epoch, child_epoch + 1)`. The winner
returns; the loser processes the stored completion. -/
def State.exchange (s : State Thread Value Error Exception) (t : Thread)
    (rest : List (Frame Value Error Exception)) (who : Participant) (n : Nat) (childEpoch : Epoch) :
    State Thread Value Error Exception :=
  if s.epoch = childEpoch then
    ({ s with epoch := childEpoch + 1 }.record (.moment n (.exchanged who true))).setStack t rest
  else (s.record (.moment n (.exchanged who false))).setStack t (.process who n :: rest)

/-- `process_one` of a value completion, from the predicate call on. -/
def State.callPredicate (s : State Thread Value Error Exception) (t : Thread)
    (rest : List (Frame Value Error Exception)) (n : Nat) : State Thread Value Error Exception :=
  ({ s with predicateCalls := s.predicateCalls + 1 }.record (.moment n .predicateCalled)).setStack t
    (match client.predicate s.predicateCalls with
    | .ok true => .completeStored :: rest
    | .ok false => .resetStored :: rest
    | .error pointer => .complete (.exception pointer) :: rest)

/-- One step of the frame on top of a stack. The loop of `drain()` and the call
of `drain()` that ends `finish_child` both go on with `resetCurrent`. -/
def Frame.step (s : State Thread Value Error Exception) (t : Thread)
    (rest : List (Frame Value Error Exception)) :
    Frame Value Error Exception → Option (State Thread Value Error Exception)
  | .resetCurrent => some ({ s with current := none }.setStack t (.queryStop :: rest))
  | .queryStop =>
      some ({ s with queries := s.queries + 1 }.setStack t
        (if client.stopRequested s.queries then .complete .stopped :: rest
        else .loadEpoch :: rest))
  | .loadEpoch => some (s.setStack t (.emplace s.epoch :: rest))
  | .emplace childEpoch => some (s.emplace client t rest childEpoch)
  | .startChild childEpoch =>
      match s.current with
      | some n =>
          some (((s.setChild n (.running childEpoch)).record (.moment n .started)).setStack t
            (.childStart n childEpoch :: rest))
      | none => none
  | .childStart _ _ => none
  | .store n childEpoch =>
      some (({ s with stored := some (client.child n).store }.record (.moment n .stored)).setStack t
        (.exchange .child n childEpoch :: rest))
  | .exchange who n childEpoch => some (s.exchange t rest who n childEpoch)
  | .process who n =>
      match s.stored with
      | some (.value _) =>
          some ((s.record (.moment n (.processed who))).setStack t (.callPredicate n :: rest))
      | some _ =>
          some ((s.record (.moment n (.processed who))).setStack t (.completeStored :: rest))
      | none => none
  | .callPredicate n => some (s.callPredicate client t rest n)
  | .resetStored => some ({ s with stored := none }.setStack t (.resetCurrent :: rest))
  | .completeStored =>
      match s.stored with
      | some completion => some ((s.record (.completed completion)).setStack t rest)
      | none => none
  | .complete completion => some ((s.record (.completed completion)).setStack t rest)

inductive Action (Thread : Type)
  | start (thread : Thread)
  | run (thread : Thread)
  | returnStart (thread : Thread)
  | completeChild (thread : Thread) (child : Nat)
  deriving DecidableEq

/-- The operation is started once, and a running child completes once. -/
def step (s : State Thread Value Error Exception) :
    Action Thread → Option (State Thread Value Error Exception)
  | .start t =>
      if s.atUser t ∧ s.begun = false then
        some ({ s with begun := true }.setStack t (.resetCurrent :: s.stack t))
      else none
  | .run t =>
      match s.stack t with
      | [] => none
      | frame :: rest => frame.step client s t rest
  | .returnStart t =>
      match s.stack t with
      | .childStart n childEpoch :: rest =>
          some ((s.record (.moment n .startReturned)).setStack t
            (.exchange .drain n childEpoch :: rest))
      | _ => none
  | .completeChild t n =>
      match s.children n with
      | .running childEpoch =>
          if s.atUser t then
            some ((s.setChild n .completed).setStack t (.store n childEpoch :: s.stack t))
          else none
      | _ => none

/-- Any number of threads; nothing runs after `std::terminate`. -/
def machine (Thread : Type) [DecidableEq Thread] (client : Client Value Error Exception) :
    Machine (State Thread Value Error Exception) (Action Thread) where
  initial s := s = .initial
  step s a := if s.terminated then none else step client s a

end Bexec.RepeatUntil
