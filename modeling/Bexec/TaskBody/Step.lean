import Bexec.Foundation.Machine
import Bexec.TaskBody.Program

/-!
# Task bodies on promises and awaiters

One task that is not awaited, with the tasks that its body awaits. Each frame
holds its promise, the blocks that it is in and, while it awaits, the
`sender_awaitable`. A completion goes from a final suspend point, or from an
awaiter that is stopped, through the promise to the receiver, which is the
awaiter of the frame below.
-/

namespace Bexec.TaskBody

open Foundation

variable {Value Error : Type}

/-- `promise_type`; `connected` stands for `deliver_connected_`. -/
structure Promise (Value Error : Type) where
  value : Option Value
  error : Option Error
  stopped : Bool
  connected : Bool

/-- The fields of `sender_awaitable` that a completion sets. -/
structure Awaiter (Value Error : Type) where
  value : Option Value
  error : Option Error

/-- What `result()` throws. -/
inductive Thrown (Error : Type)
  | error (error : Error)
  | taskStopped
  deriving DecidableEq

namespace Promise

def initial (connected : Bool) : Promise Value Error := ⟨none, none, false, connected⟩

/-- `deliver_to`; without a completion an assertion fails. -/
def deliverTo (promise : Promise Value Error) : Option (Completion Value Error) :=
  match promise.error with
  | some e => some (.error e)
  | none => if promise.stopped then some .stopped else promise.value.map .value

/-- `consume_result`, with `rethrow_error` first. -/
def consumeResult (promise : Promise Value Error) : Option (Except (Thrown Error) Value) :=
  match promise.error with
  | some e => some (.error (.error e))
  | none => if promise.stopped then some (.error .taskStopped) else promise.value.map .ok

end Promise

namespace Awaiter

def initial : Awaiter Value Error := ⟨none, none⟩

/-- `complete_value`, which stores what the construction of the value throws. -/
def completeValue (awaiter : Awaiter Value Error) (v : Value) (thrown : Option Error) :
    Awaiter Value Error :=
  match thrown with
  | none => { awaiter with value := some v }
  | some failure => { awaiter with error := some failure }

/-- `complete_error`. -/
def completeError (awaiter : Awaiter Value Error) (e : Error) (thrown : Option Error) :
    Awaiter Value Error :=
  { awaiter with error := some (thrown.getD e) }

/-- `await_resume`; without a value an assertion fails. -/
def awaitResume (awaiter : Awaiter Value Error) : Option (Except Error Value) :=
  match awaiter.error with
  | some e => some (.error e)
  | none => awaiter.value.map .ok

end Awaiter

/-- A block that a coroutine is in. -/
inductive Block (Value Error : Type)
  | tryBlock (handler : Error → Body Value Error) (next : Value → Body Value Error)
  | handler (next : Value → Body Value Error)

/-- What follows the block. -/
def Block.next : Block Value Error → Value → Body Value Error
  | .tryBlock _ next | .handler next => next

inductive Place (Value Error : Type)
  | running (body : Body Value Error)
  | awaiting (awaiter : Awaiter Value Error) (next : Value → Body Value Error)
  | finalSuspend

/-- A coroutine frame; the blocks are listed innermost first. -/
structure Coroutine (Value Error : Type) where
  promise : Promise Value Error
  blocks : List (Block Value Error)
  place : Place Value Error

/-- A coroutine at its initial suspend point. -/
def Coroutine.initial (body : Body Value Error) (connected : Bool) : Coroutine Value Error :=
  ⟨.initial connected, [], .running body⟩

/-- The function on top of the call stack. -/
inductive Call (Value Error : Type)
  | notStarted
  | body
  /-- A sender that is not a task is to complete. -/
  | waiting
  /-- `complete_value`, `complete_error` or `complete_stopped`. -/
  | complete (sent : Sent Value Error)
  | awaitResume
  | dispatchConnectedCompletion
  | returned
  deriving DecidableEq

/-- The frames are listed from the innermost to the root; `finished` are those
that have completed and wait for the frame on top to destroy them. -/
structure State (Value Error : Type) where
  frames : List (Coroutine Value Error)
  finished : List (Coroutine Value Error)
  call : Call Value Error
  /-- What the receiver of the root was told. -/
  signals : List (Completion Value Error)
  /-- What the awaited senders have completed with, oldest first. -/
  received : List (Sent Value Error)

namespace State

/-- A task that is connected, or that is driven by `start` and `result`. -/
def initial (body : Body Value Error) (connected : Bool) : State Value Error :=
  ⟨[.initial body connected], [], .notStarted, [], []⟩

/-- `final_suspend` has suspended the coroutine and dispatches. -/
def finish (s : State Value Error) (c : Coroutine Value Error)
    (below : List (Coroutine Value Error)) (promise : Promise Value Error) : State Value Error :=
  { s with
    frames := { c with promise := promise, blocks := [], place := .finalSuspend } :: below
    call := .dispatchConnectedCompletion }

/-- The next statement of the body on top. -/
def bodyStep (s : State Value Error) (c : Coroutine Value Error)
    (below : List (Coroutine Value Error)) : Body Value Error → State Value Error
  | .fallThrough v =>
      match c.blocks with
      | [] => s.finish c below { c.promise with value := some v }
      | block :: blocks =>
          { s with frames := { c with blocks := blocks, place := .running (block.next v) } :: below }
  | .coReturn v none => s.finish c below { c.promise with value := some v }
  -- `return_value` has stored the value by then
  | .coReturn v (some failure) =>
      { s with
        frames :=
          { c with
            promise := { c.promise with value := some v }
            place := .running (.raise failure) } :: below }
  | .raise e =>
      match c.blocks with
      -- `unhandled_exception`
      | [] => s.finish c below { c.promise with error := some e }
      | .tryBlock handler next :: blocks =>
          { s with
            frames :=
              { c with blocks := .handler next :: blocks, place := .running (handler e) } :: below }
      | .handler _ :: blocks =>
          { s with frames := { c with blocks := blocks, place := .running (.raise e) } :: below }
  | .awaitSender (some failure) _ =>
      { s with frames := { c with place := .running (.raise failure) } :: below }
  | .awaitSender none next =>
      { s with
        frames := { c with place := .awaiting .initial next } :: below
        call := .waiting }
  | .awaitTask child next =>
      { s with
        frames := .initial child true :: { c with place := .awaiting .initial next } :: below }
  | .tryCatch block handler next =>
      { s with
        frames :=
          { c with blocks := .tryBlock handler next :: c.blocks, place := .running block } :: below }

/-- The receiver of a task that is awaited forwards to the awaiter. -/
def forward : Completion Value Error → Sent Value Error
  | .value v => .value v none
  | .error e => .error e none
  | .stopped => .stopped

def run (s : State Value Error) : Option (State Value Error) :=
  match s.call, s.frames with
  | .body, c :: below =>
      match c.place with
      | .running body => some (s.bodyStep c below body)
      | _ => none
  | .complete sent, c :: below =>
      match c.place with
      | .awaiting awaiter next =>
          match sent with
          | .value v thrown =>
              some { s with
                frames := { c with place := .awaiting (awaiter.completeValue v thrown) next } :: below
                call := .awaitResume }
          | .error e thrown =>
              some { s with
                frames := { c with place := .awaiting (awaiter.completeError e thrown) next } :: below
                call := .awaitResume }
          -- `unhandled_stopped`; the coroutine stays where it is
          | .stopped =>
              some { s with
                frames := { c with promise := { c.promise with stopped := true } } :: below
                call := .dispatchConnectedCompletion }
      | _ => none
  | .awaitResume, c :: below =>
      match c.place with
      | .awaiting awaiter next =>
          -- the awaiter is destroyed, and with it the operation of a task
          match awaiter.awaitResume with
          | none => none
          | some (.error e) =>
              some { s with
                frames := { c with place := .running (.raise e) } :: below
                finished := []
                call := .body }
          | some (.ok v) =>
              some { s with
                frames := { c with place := .running (next v) } :: below
                finished := []
                call := .body }
      | _ => none
  | .dispatchConnectedCompletion, c :: below =>
      if c.promise.connected then
        match c.promise.deliverTo with
        | none => none
        | some completion =>
            match below with
            | [] => some { s with call := .returned, signals := completion :: s.signals }
            | _ :: _ =>
                some { s with
                  frames := below
                  finished := c :: s.finished
                  call := .complete (forward completion) }
      else some { s with call := .returned }
  | _, _ => none

end State

inductive Action (Value Error : Type)
  | start
  | run
  /-- The sender that is awaited completes, in its `start` or later. -/
  | complete (sent : Sent Value Error)

def step (s : State Value Error) : Action Value Error → Option (State Value Error)
  | .start =>
      match s.call with
      | .notStarted => some { s with call := .body }
      | _ => none
  | .run => s.run
  | .complete sent =>
      match s.call with
      | .waiting => some { s with call := .complete sent, received := s.received ++ [sent] }
      | _ => none

def machine (body : Body Value Error) (connected : Bool) :
    Machine (State Value Error) (Action Value Error) where
  initial s := s = .initial body connected
  step := step

/-- `task::done()`, of the root. -/
def State.done (s : State Value Error) : Bool :=
  match s.frames.getLast? with
  | none => true
  | some c =>
      match c.place with
      | .finalSuspend => true
      | _ => c.promise.stopped

/-- `task::result()`, of the root. -/
def State.result (s : State Value Error) : Option (Except (Thrown Error) Value) :=
  s.frames.getLast?.bind fun c => c.promise.consumeResult

end Bexec.TaskBody
