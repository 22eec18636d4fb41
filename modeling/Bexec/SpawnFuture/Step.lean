import Bexec.Foundation.Census
import Bexec.StopToken.Host

/-!
# Steps of `spawn_future`

One `spawn_future_state` on the heap, with its stop source, and the three
parties that use it: the child, the owner of the future and the stop callback of
the connected receiver. Every lock-protected section is one step, and so is
every access of `request_stop`. What happens to the state after `destroy_self`
is not modelled: the steps go on as if the memory were still there, so that a
step left over is seen as one.
-/

namespace Bexec.SpawnFuture

open Foundation

/-- What a child completes with, decayed, and what the receiver is completed with. -/
inductive Completion (Value Error : Type)
  | value (values : List Value)
  | error (error : Error)
  | stopped
  deriving DecidableEq

/-- `set_complete`: what is stored when the decay copies throw the given exception.
There is nothing to copy without arguments. -/
def Completion.store {Value Error : Type} (thrown : Option Error) :
    Completion Value Error → Completion Value Error
  | .value [] => .value []
  | .value values => thrown.elim (.value values) .error
  | .error failure => thrown.elim (.error failure) .error
  | .stopped => .stopped

/-- `spawn_future_state` without its stop source; `result` is none for
`std::monostate`, and `consumer` stands for `consumer_` and the functions beside it. -/
structure FutureState (Value Error : Type) where
  association : Bool
  result : Option (Completion Value Error)
  consumer : Bool
  completed : Bool
  stopped : Bool
  abandoned : Bool
  cancelling : Bool
  deriving DecidableEq

/-- What a lock-protected section leaves to do. -/
inductive Exit
  | nothing
  | requestStop
  | deliver
  | deliverStopped
  | destroy
  deriving DecidableEq

namespace FutureState

variable {Value Error : Type}

def initial : FutureState Value Error where
  association := false
  result := none
  consumer := false
  completed := false
  stopped := false
  abandoned := false
  cancelling := false

/-- The section of `complete`. -/
def complete (state : FutureState Value Error) : Exit × FutureState Value Error :=
  if state.cancelling then (.nothing, { state with completed := true })
  else if state.stopped || state.abandoned then (.destroy, { state with completed := true })
  else if state.consumer then (.deliver, { state with completed := true, consumer := false })
  else (.nothing, { state with completed := true })

/-- The section of `consume`. -/
def consume (state : FutureState Value Error) : Exit × FutureState Value Error :=
  if state.completed then (.deliver, state)
  else if state.stopped then (.deliverStopped, state)
  else (.nothing, { state with consumer := true })

/-- The section of `try_cancel`. -/
def tryCancel (state : FutureState Value Error) : Exit × FutureState Value Error :=
  if state.completed || state.stopped then (.nothing, state)
  else (.requestStop, { state with cancelling := true })

/-- The section of `abandon`. -/
def abandon (state : FutureState Value Error) : Exit × FutureState Value Error :=
  if state.completed then (.destroy, state) else (.requestStop, { state with abandoned := true })

/-- The section of `finish_cancellation`. -/
def finishCancellation (state : FutureState Value Error) : Exit × FutureState Value Error :=
  if !state.cancelling then (.nothing, state)
  else if state.completed then
    if state.abandoned || state.stopped then (.destroy, { state with cancelling := false })
    else if state.consumer then
      (.deliver, { state with cancelling := false, consumer := false })
    else (.nothing, { state with cancelling := false })
  else if state.consumer then
    (.deliverStopped, { state with cancelling := false, stopped := true, consumer := false })
  else (.nothing, { state with cancelling := false, stopped := true })

end FutureState

/-- Who calls functions of the state. -/
inductive Party
  | child
  | owner
  | cancel
  deriving DecidableEq

/-- Where a party stands: the child in `set_complete` and `complete`, the owner in
`abandon` or in `start` and `consume`, the callback in `try_cancel` and
`finish_cancellation`. From `reset` to `handler` the receiver is being completed,
with the stored result or with stopped; `release` is the end of `destroy_self`. -/
inductive Pc
  | idle
  | running
  | store
  | register
  | lock
  | request
  | requesting
  | finish
  | reset (stored : Bool)
  | signal (stored : Bool)
  | handler (stored : Bool)
  | destroy
  | release (engaged : Bool)
  | returning
  | done
  deriving DecidableEq

/-- The first program point after a section. -/
def Exit.pc : Exit → Pc
  | .nothing => .returning
  | .requestStop => .request
  | .deliver => .reset true
  | .deliverStopped => .reset false
  | .destroy => .destroy

/-- Where a party goes on when `request_stop` has returned. -/
def Party.requested : Party → Pc
  | .cancel => .finish
  | _ => .returning

/-- The handle of the state. -/
inductive Future
  | unspawned
  | constructing
  | held
  | taken
  deriving DecidableEq

/-- `stop_callback_` of the connected operation. -/
inductive OnStop (Thread : Type)
  | empty
  | armed
  | running (t : Thread)
  | finished
  | reset
  deriving DecidableEq

/-- Frames of code that is neither the stop source's nor the user's. -/
inductive Code
  | spawner
  | party (party : Party)
  deriving DecidableEq

/-- The state, where its parties are, and what has come of it. -/
structure Operation (Thread Value Error : Type) where
  state : FutureState Value Error
  future : Future
  /-- Whether `start` has been called. -/
  begun : Bool
  accepted : Bool
  pc : Party → Pc
  onStop : OnStop Thread
  /-- What the child sent, and the exception that storing it throws. -/
  sent : Option (Completion Value Error × Option Error)
  signals : List (Completion Value Error)
  /-- How often `destroy_self` has destroyed the state. -/
  destroyed : Nat
  released : Nat

abbrev State (Thread Record Value Error : Type) :=
  StopToken.Hosted (Operation Thread Value Error) Thread Record Code

variable {Thread Record Value Error : Type}

namespace Operation

def initial : Operation Thread Value Error where
  state := .initial
  future := .unspawned
  begun := false
  accepted := false
  pc := fun _ => .idle
  onStop := .empty
  sent := none
  signals := []
  destroyed := 0
  released := 0

def setPc (op : Operation Thread Value Error) (p : Party) (pc : Pc) :
    Operation Thread Value Error :=
  { op with pc := Function.update op.pc p pc }

/-- The section a party enters first. -/
def locked (op : Operation Thread Value Error) : Party → Exit × FutureState Value Error
  | .child => op.state.complete
  | .owner => if op.begun then op.state.consume else op.state.abandon
  | .cancel => op.state.tryCancel

/-- A party leaves a section. -/
def exit (op : Operation Thread Value Error) (p : Party)
    (after : Exit × FutureState Value Error) : Operation Thread Value Error :=
  { op with state := after.2 }.setPc p after.1.pc

end Operation

/-- User code is in control of the thread. -/
def Code.isUser (op : Operation Thread Value Error) : Code → Bool
  | .spawner => true
  | .party p =>
      match op.pc p with
      | .handler _ => true
      | _ => false

variable [DecidableEq Thread] [DecidableEq Record]

namespace State

def initial : State Thread Record Value Error := ⟨.initial, .initial⟩

def atUser (s : State Thread Record Value Error) (t : Thread) : Bool :=
  match s.source.stack t with
  | [] => true
  | .client code :: _ => code.isUser s.op
  | frame :: _ => frame.isUser

/-- `request_stop` has returned to its caller. -/
def resume (s : State Thread Record Value Error) (t : Thread) : State Thread Record Value Error :=
  match s.source.stack t with
  | .client (.party p) :: _ =>
      if s.op.pc p = .requesting then s.setOp (s.op.setPc p p.requested) else s
  | _ => s

/-- `stop_callback_->reset()`, which waits for a callback on another thread. -/
def resetOnStop (s : State Thread Record Value Error) (t : Thread) (p : Party) (stored : Bool) :
    Option (State Thread Record Value Error) :=
  match s.op.onStop with
  | .running u =>
      if u = t then some (s.setOp ({ s.op with onStop := .reset }.setPc p (.signal stored)))
      else none
  | _ => some (s.setOp ({ s.op with onStop := .reset }.setPc p (.signal stored)))

/-- One access of a party. Nothing is delivered for `std::monostate`. -/
def partyStep (s : State Thread Record Value Error) (t : Thread) (p : Party) :
    Pc → Option (State Thread Record Value Error)
  | .store =>
      match s.op.sent with
      | some (completion, thrown) =>
          some (s.setOp ({ s.op with
            state := { s.op.state with result := some (completion.store thrown) } }.setPc p .lock))
      | none => none
  | .lock => some (s.setOp (s.op.exit p (s.op.locked p)))
  | .request => (s.setOp (s.op.setPc p .requesting)).via [.requestStop t]
  | .finish => some (s.setOp (s.op.exit p s.op.state.finishCancellation))
  | .reset true =>
      match s.op.state.result with
      | none => some (s.setOp (s.op.setPc p .destroy))
      | some _ => s.resetOnStop t p true
  | .reset false => s.resetOnStop t p false
  | .signal true =>
      match s.op.state.result with
      | none => none
      | some completion =>
          some (s.setOp ({ s.op with signals := completion :: s.op.signals }.setPc p
            (.handler true)))
  | .signal false =>
      some (s.setOp ({ s.op with signals := .stopped :: s.op.signals }.setPc p (.handler false)))
  | .destroy =>
      some (s.setOp ({ s.op with
        state := { s.op.state with association := false }
        destroyed := s.op.destroyed + 1 }.setPc p (.release s.op.state.association)))
  | .release engaged =>
      some (s.setOp ({ s.op with released := s.op.released + engaged.toNat }.setPc p .returning))
  | .returning =>
      (s.setOp ({ s.op with
        onStop := if p = Party.cancel ∧ s.op.onStop = OnStop.running t then .finished
          else s.op.onStop }.setPc p .done)).via [.leave t]
  | _ => none

end State

inductive Action (Thread Record Value Error : Type)
  /-- `spawn_future`; `try_associate` succeeds or not. -/
  | spawn (thread : Thread) (accepted : Bool)
  | returnSpawn (thread : Thread)
  /-- The child completes; storing its arguments may throw. -/
  | complete (thread : Thread) (completion : Completion Value Error) (thrown : Option Error)
  /-- The handle is destroyed. -/
  | drop (thread : Thread)
  | start (thread : Thread)
  /-- The receiver's stop token keeps the callback or runs it at once. -/
  | register (thread : Thread) (requested : Bool)
  | stop (thread : Thread)
  | run (thread : Thread) (weak : Bool)
  | ret (thread : Thread)
  /-- The receiver's completion function returns. -/
  | returnHandler (thread : Thread)
  | construct (thread : Thread) (record : Record)
  | destroy (thread : Thread) (record : Record)
  deriving DecidableEq

/-- A call of a stop callback object of the child that still uses the source. -/
def ownCall : StopToken.Frame Thread Record Code → Bool
  | .constructor _ .callback => false
  | .constructor _ _ => true
  | .destructor _ _ => true
  | _ => false

variable [Fintype Thread]

/-- The child uses the stop source while it is running: it completes once, not
during its own calls of the source. A rejected child is completed with stopped. -/
def step (s : State Thread Record Value Error) :
    Action Thread Record Value Error → Option (State Thread Record Value Error)
  | .spawn t accepted =>
      if s.atUser t ∧ s.op.future = .unspawned then
        if accepted then
          (s.setOp ({ s.op with
            state := { s.op.state with association := true }
            future := .constructing
            accepted := true }.setPc .child .running)).via [.enter t .spawner]
        else
          (s.setOp ({ s.op with
            future := .constructing
            sent := some (.stopped, none) }.setPc .child .store)).via
              [.enter t .spawner, .enter t (.party .child)]
      else none
  | .returnSpawn t =>
      match s.source.stack t with
      | .client .spawner :: _ => (s.setOp { s.op with future := .held }).via [.leave t]
      | _ => none
  | .complete t completion thrown =>
      if s.atUser t ∧ s.op.pc .child = .running ∧
          CallStack.census ownCall s.source.stack = 0 then
        (s.setOp ({ s.op with sent := some (completion, thrown) }.setPc .child .store)).via
          [.enter t (.party .child)]
      else none
  | .drop t =>
      if s.atUser t ∧ s.op.future = .held then
        (s.setOp ({ s.op with future := .taken }.setPc .owner .lock)).via
          [.enter t (.party .owner)]
      else none
  | .start t =>
      if s.atUser t ∧ s.op.future = .held then
        (s.setOp ({ s.op with future := .taken, begun := true }.setPc .owner .register)).via
          [.enter t (.party .owner)]
      else none
  | .register t requested =>
      match s.source.stack t with
      | .client (.party .owner) :: _ =>
          if s.op.pc .owner = .register then
            if requested then
              (s.setOp (({ s.op with onStop := .running t }.setPc .owner .lock).setPc .cancel
                .lock)).via [.enter t (.party .cancel)]
            else some (s.setOp ({ s.op with onStop := .armed }.setPc .owner .lock))
          else none
      | _ => none
  | .stop t =>
      if s.atUser t ∧ s.op.onStop = .armed then
        (s.setOp ({ s.op with onStop := .running t }.setPc .cancel .lock)).via
          [.enter t (.party .cancel)]
      else none
  | .run t weak =>
      match s.source.stack t with
      | [] => none
      | .client .spawner :: _ => none
      | .client (.party p) :: _ => s.partyStep t p (s.op.pc p)
      | .requestStop _ :: rest =>
          (s.via [.run t weak]).map fun s' =>
            if (s'.source.stack t).length = rest.length then s'.resume t else s'
      | _ :: _ => s.via [.run t weak]
  | .ret t => s.via [.ret t]
  | .returnHandler t =>
      match s.source.stack t with
      | .client (.party p) :: _ =>
          match s.op.pc p with
          | .handler stored => some (s.setOp (s.op.setPc p (if stored then .destroy else .returning)))
          | _ => none
      | _ => none
  | .construct t r =>
      if s.atUser t ∧ s.op.pc .child = .running then s.via [.construct t r] else none
  | .destroy t r =>
      if s.atUser t ∧ s.op.pc .child = .running then s.via [.destroy t r] else none

/-- Any number of threads and stop callbacks. -/
def machine (Thread Record Value Error : Type) [Fintype Thread] [DecidableEq Thread]
    [DecidableEq Record] :
    Machine (State Thread Record Value Error) (Action Thread Record Value Error) where
  initial s := s = .initial
  step := step

end Bexec.SpawnFuture
