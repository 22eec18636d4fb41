import Bexec.Foundation.Chain
import Bexec.Foundation.Machine

/-!
# Steps of a run loop

One `run_loop`, the threads that call `enqueue` and `finish` on it and the one
thread that calls `run`. A step makes one access to an atomic, to the mutex or
to the condition variable, with the local computation around it. User code runs
outside these calls and inside `execute`, where it may call the loop again,
destroy the operation and put another one at its address.
-/

namespace Bexec.RunLoop

open Foundation

/-- `run_loop_state`. -/
inductive LoopState
  | starting
  | running
  | finishing
  | finished
  deriving DecidableEq

/-- `head_`: a list of operations, or the address of `run_loop_closed_stack`. -/
inductive Head (Node : Type)
  | list (top : Option Node)
  | closed
  deriving DecidableEq

/-- What a call has published before it wakes the consumer: the state
`finishing`, or the push of that number. -/
inductive Published
  | push (number : Nat)
  | finishing
  deriving DecidableEq

/-- The steps of `wake_one_waiter` and `wake_all_waiters`. -/
inductive WakeStep
  | load
  | lock
  | notify
  | unlock
  deriving DecidableEq

/-- Where a thread is inside `enqueue` or `finish`. `leave` is the decrement of
`producers_`. -/
inductive Call (Node : Type)
  | idle
  | enqueue (op : Node)
  | loadHead (op : Node)
  | push (op : Node) (head : Head Node)
  | finish
  | finishStarting
  | finishRunning
  | wake (published : Published) (step : WakeStep)
  | leave
  deriving DecidableEq

/-- Where the consumer is inside `run`. `closing` tells the two calls of
`try_pop_all` in `pop_all_blocking` apart. -/
inductive Consumer (Node : Type)
  | outside
  | beginRun
  | popLoad (closing : Bool)
  | popSwap (closing : Bool) (operations : Node)
  | loadState
  | drain
  | close
  | finished
  | lock
  | register
  | predicateHead
  | predicateState
  | sleep
  | asleep
  | relock
  | unregister
  | unlock
  | reverse (operations reversed : Option Node)
  | executeAll (operations : Option Node)
  | executing (operations : Option Node)
  | returned
  deriving DecidableEq

/-- `pushed` and `executed` list the successful pushes and the calls of
`execute`, oldest first. `finishCalled` tells that `finish` was called, and
`failed` that an assertion failed. -/
structure State (Thread Node : Type) where
  mutex : Option Thread
  waiting : Int
  head : Head Node
  state : LoopState
  producers : Int
  /-- `run_loop_operation_base::next`. -/
  next : Node → Option Node
  call : Thread → Call Node
  consumer : Consumer Node
  pushed : List Node
  executed : List Node
  finishCalled : Bool
  failed : Bool

variable {Thread Node : Type} [Fintype Thread] [DecidableEq Thread] [DecidableEq Node]

namespace Call

/-- The operation has been handed to `enqueue` and is not yet published. -/
def prepares (op : Node) : Call Node → Bool
  | .enqueue op' => op' = op
  | .loadHead op' => op' = op
  | .push op' _ => op' = op
  | _ => false

end Call

namespace Consumer

/-- The thread of the consumer is outside `run`, or an operation has control. -/
def atUser : Consumer Node → Bool
  | .outside => true
  | .executing _ => true
  | .returned => true
  | _ => false

end Consumer

namespace State

def initial : State Thread Node where
  mutex := none
  waiting := 0
  head := .list none
  state := .starting
  producers := 0
  next := fun _ => none
  call := fun _ => .idle
  consumer := .outside
  pushed := []
  executed := []
  finishCalled := false
  failed := false

def setCall (s : State Thread Node) (t : Thread) (call : Call Node) : State Thread Node :=
  { s with call := Function.update s.call t call }

def setConsumer (s : State Thread Node) (consumer : Consumer Node) : State Thread Node :=
  { s with consumer := consumer }

def assertFailed (s : State Thread Node) : State Thread Node :=
  { s with failed := true }

/-- The operation was pushed and `execute` has not been called since. -/
def queued (s : State Thread Node) (op : Node) : Bool :=
  s.executed.count op < s.pushed.count op

/-- The storage of the operation belongs to the user. -/
def free (s : State Thread Node) (op : Node) : Bool :=
  !s.queued op && decide (∀ t, (s.call t).prepares op = false)

/-- User code is in control of the thread. -/
def atUser (owner : Thread) (s : State Thread Node) (t : Thread) : Bool :=
  s.call t = .idle && (t ≠ owner || s.consumer.atUser)

/-- `run_loop::enqueue`, from the first load of `head_`. -/
def push (s : State Thread Node) (t : Thread) (weak : Bool) (op : Node) :
    Head Node → State Thread Node
  | .closed => s.assertFailed.setCall t .leave
  | .list top =>
      if s.head = .list top ∧ weak = false then
        { s with
          next := Function.update s.next op top
          head := .list (some op)
          pushed := s.pushed ++ [op] }.setCall t (.wake (.push s.pushed.length) .load)
      else { s with next := Function.update s.next op top }.setCall t (.push op s.head)

/-- The first compare-exchange of `run_loop::finish`. -/
def finishStarting (s : State Thread Node) (t : Thread) : State Thread Node :=
  match s.state with
  | .starting => { s with state := .finishing }.setCall t (.wake .finishing .load)
  | .running => s.setCall t .finishRunning
  | _ => s.assertFailed.setCall t .leave

/-- The second compare-exchange of `run_loop::finish`. -/
def finishRunning (s : State Thread Node) (t : Thread) : State Thread Node :=
  if s.state = .running then
    { s with state := .finishing }.setCall t (.wake .finishing .load)
  else s.assertFailed.setCall t .leave

/-- `cv_.notify_one()` and `cv_.notify_all()`: the consumer is the only waiter. -/
def notify (s : State Thread Node) : State Thread Node :=
  if s.consumer = .asleep then s.setConsumer .relock else s

/-- `wake_one_waiter` and `wake_all_waiters`. -/
def wake (s : State Thread Node) (t : Thread) (published : Published) :
    WakeStep → Option (State Thread Node)
  | .load => some (s.setCall t (if s.waiting = 0 then .leave else .wake published .lock))
  | .lock =>
      if s.mutex = none then some ({ s with mutex := some t }.setCall t (.wake published .notify))
      else none
  | .notify => some (s.notify.setCall t (.wake published .unlock))
  | .unlock => some ({ s with mutex := none }.setCall t .leave)

/-- One step of a call of `enqueue` or `finish`. -/
def stepCall (s : State Thread Node) (t : Thread) (weak : Bool) :
    Call Node → Option (State Thread Node)
  | .idle => none
  | .enqueue op => some ({ s with producers := s.producers + 1 }.setCall t (.loadHead op))
  | .loadHead op => some (s.setCall t (.push op s.head))
  | .push op head => some (s.push t weak op head)
  | .finish => some ({ s with producers := s.producers + 1 }.setCall t .finishStarting)
  | .finishStarting => some (s.finishStarting t)
  | .finishRunning => some (s.finishRunning t)
  | .wake published step => s.wake t published step
  | .leave => some ({ s with producers := s.producers - 1 }.setCall t .idle)

/-- `run_loop::begin_run`. -/
def beginRun (s : State Thread Node) : State Thread Node :=
  match s.state with
  | .starting => { s with state := .running }.setConsumer (.popLoad false)
  | .finishing => s.setConsumer (.popLoad false)
  | _ => s.assertFailed.setConsumer .returned

/-- `try_pop_all` has loaded a value of `head_`. -/
def popNext (closing : Bool) : Head Node → Consumer Node
  | .list (some op) => .popSwap closing op
  | _ => if closing then .close else .loadState

/-- The compare-exchange of `try_pop_all`. -/
def popSwap (s : State Thread Node) (weak closing : Bool) (operations : Node) :
    State Thread Node :=
  if s.head = .list (some operations) ∧ weak = false then
    { s with head := .list none }.setConsumer (.reverse (some operations) none)
  else s.setConsumer (popNext closing s.head)

/-- The first compare-exchange of `try_finish_empty`. -/
def close (s : State Thread Node) : State Thread Node :=
  if s.head = .list none then { s with head := .closed }.setConsumer .finished
  else s.setConsumer .lock

/-- The second compare-exchange of `try_finish_empty`. -/
def finished (s : State Thread Node) : State Thread Node :=
  if s.state = .finishing then { s with state := .finished }.setConsumer .returned
  else s.assertFailed.setConsumer .returned

/-- `run_loop::has_work`. -/
def hasWork (s : State Thread Node) : Bool :=
  match s.head with
  | .list (some _) => true
  | _ => false

/-- One turn of the loop of `reverse`. -/
def reverse (s : State Thread Node) (reversed : Option Node) : Option Node → State Thread Node
  | none => s.setConsumer (.executeAll reversed)
  | some op =>
      { s with next := Function.update s.next op reversed }.setConsumer
        (.reverse (s.next op) (some op))

/-- One turn of the loop of `execute_all`, up to the call of `execute`. -/
def executeAll (s : State Thread Node) : Option Node → State Thread Node
  | none => s.setConsumer (.popLoad false)
  | some op =>
      { s with
        next := Function.update s.next op none
        executed := s.executed ++ [op] }.setConsumer (.executing (s.next op))

/-- One step of `run`. The consumer sleeps until it is notified or woken
spuriously, which is an action of its own. -/
def stepConsumer (owner : Thread) (s : State Thread Node) (weak : Bool) :
    Consumer Node → Option (State Thread Node)
  | .outside => none
  | .beginRun => some s.beginRun
  | .popLoad closing => some (s.setConsumer (popNext closing s.head))
  | .popSwap closing operations => some (s.popSwap weak closing operations)
  | .loadState => some (s.setConsumer (if s.state = .finishing then .drain else .lock))
  | .drain => some (s.setConsumer (if s.producers = 0 then .popLoad true else .drain))
  | .close => some s.close
  | .finished => some s.finished
  | .lock =>
      if s.mutex = none then some ({ s with mutex := some owner }.setConsumer .register) else none
  | .register => some ({ s with waiting := s.waiting + 1 }.setConsumer .predicateHead)
  | .predicateHead => some (s.setConsumer (if s.hasWork then .unregister else .predicateState))
  | .predicateState =>
      some (s.setConsumer (if s.state = .finishing then .unregister else .sleep))
  | .sleep => some ({ s with mutex := none }.setConsumer .asleep)
  | .asleep => none
  | .relock =>
      if s.mutex = none then some ({ s with mutex := some owner }.setConsumer .predicateHead)
      else none
  | .unregister => some ({ s with waiting := s.waiting - 1 }.setConsumer .unlock)
  | .unlock => some ({ s with mutex := none }.setConsumer (.popLoad false))
  | .reverse operations reversed => some (s.reverse reversed operations)
  | .executeAll operations => some (s.executeAll operations)
  | .executing _ => none
  | .returned => none

end State

inductive Action (Thread Node : Type)
  | enqueue (thread : Thread) (op : Node)
  | finish (thread : Thread)
  | run
  | proceed (thread : Thread) (weak : Bool)
  | consume (weak : Bool)
  | wakeSpuriously
  | ret
  | reuse (op : Node) (next : Option Node)
  deriving DecidableEq

/-- An operation is handed to `enqueue` when it is not queued, and its storage
may hold anything from the call of `execute` on. `run` is called once. -/
def step (owner : Thread) (s : State Thread Node) :
    Action Thread Node → Option (State Thread Node)
  | .enqueue t op =>
      if s.atUser owner t ∧ s.free op then some (s.setCall t (.enqueue op)) else none
  | .finish t =>
      if s.atUser owner t then some ({ s with finishCalled := true }.setCall t .finish) else none
  | .run =>
      if s.call owner = .idle ∧ s.consumer = .outside then some (s.setConsumer .beginRun)
      else none
  | .proceed t weak => s.stepCall t weak (s.call t)
  | .consume weak =>
      if s.call owner = .idle then s.stepConsumer owner weak s.consumer else none
  | .wakeSpuriously => if s.consumer = .asleep then some (s.setConsumer .relock) else none
  | .ret =>
      match s.consumer with
      | .executing operations =>
          if s.call owner = .idle then some (s.setConsumer (.executeAll operations)) else none
      | _ => none
  | .reuse op next =>
      if s.free op then some { s with next := Function.update s.next op next } else none

/-- Any number of threads and operations on one live loop. -/
def machine (Thread Node : Type) [Fintype Thread] [DecidableEq Thread] [DecidableEq Node]
    (owner : Thread) : Machine (State Thread Node) (Action Thread Node) where
  initial s := s = .initial
  step := step owner

end Bexec.RunLoop
