import Mathlib

/-!
# What the body of a task means

A body awaits senders and other tasks, throws, catches and returns. It is read
here without promises, awaiters or coroutine handles: an await is a function
call, and a stopped completion ends every call that is in progress.
-/

namespace Bexec.TaskBody

/-- A terminal signal, with what it carries. -/
inductive Completion (Value Error : Type)
  | value (value : Value)
  | error (error : Error)
  | stopped
  deriving DecidableEq

/-- What an awaited sender completes with. Storing a value or wrapping an error
may throw. -/
inductive Sent (Value Error : Type)
  | value (value : Value) (thrown : Option Error)
  | error (error : Error) (thrown : Option Error)
  | stopped
  deriving DecidableEq

/-- The statements of a body up to the end of the block. Values of all types are
values of one, and what follows an await depends on what it returned. -/
inductive Body (Value Error : Type)
  /-- The end of the block. -/
  | fallThrough (value : Value)
  /-- The destruction of what is in scope may throw. -/
  | coReturn (value : Value) (thrown : Option Error)
  | raise (error : Error)
  /-- `co_await` of a sender that is not a task; `connect` may throw. -/
  | awaitSender (thrown : Option Error) (next : Value → Body Value Error)
  /-- `co_await` of an rvalue task. -/
  | awaitTask (child : Body Value Error) (next : Value → Body Value Error)
  | tryCatch (block : Body Value Error) (handler : Error → Body Value Error)
      (next : Value → Body Value Error)

/-- How a block ends, or that it waits for a sender still. -/
inductive Flow (Value Error : Type)
  | fellThrough (value : Value)
  | returned (value : Value)
  | threw (error : Error)
  | stopped
  | waiting
  deriving DecidableEq

variable {Value Error : Type}

/-- What the await sees. -/
def Sent.completion : Sent Value Error → Completion Value Error
  | .value v none => .value v
  | .value _ (some failure) => .error failure
  | .error e none => .error e
  | .error _ (some failure) => .error failure
  | .stopped => .stopped

/-- What a task with the body completes with. -/
def Flow.completion : Flow Value Error → Option (Completion Value Error)
  | .fellThrough v | .returned v => some (.value v)
  | .threw e => some (.error e)
  | .stopped => some .stopped
  | .waiting => none

/-- The flow of a block and the completions of senders that it has not used. -/
abbrev Reading (Value Error : Type) := Flow Value Error × List (Sent Value Error)

/-- Go on after an await. -/
def Reading.await (reading : Reading Value Error)
    (next : Value → List (Sent Value Error) → Reading Value Error) : Reading Value Error :=
  match reading with
  | (.fellThrough v, rest) | (.returned v, rest) => next v rest
  | other => other

/-- Go on after a block. -/
def Reading.andThen (reading : Reading Value Error)
    (next : Value → List (Sent Value Error) → Reading Value Error) : Reading Value Error :=
  match reading with
  | (.fellThrough v, rest) => next v rest
  | other => other

/-- A handler catches what its block throws, and nothing else. -/
def Reading.catching (reading : Reading Value Error)
    (handler : Error → List (Sent Value Error) → Reading Value Error) : Reading Value Error :=
  match reading with
  | (.threw e, rest) => handler e rest
  | other => other

/-- Run a body with the completions of the senders that it awaits, in order. -/
def Body.read : Body Value Error → List (Sent Value Error) → Reading Value Error
  | .fallThrough v, sent => (.fellThrough v, sent)
  | .coReturn v none, sent => (.returned v, sent)
  | .coReturn _ (some failure), sent => (.threw failure, sent)
  | .raise e, sent => (.threw e, sent)
  | .awaitSender (some failure) _, sent => (.threw failure, sent)
  | .awaitSender none _, [] => (.waiting, [])
  | .awaitSender none next, first :: rest =>
      match first.completion with
      | .value v => (next v).read rest
      | .error e => (.threw e, rest)
      | .stopped => (.stopped, rest)
  | .awaitTask child next, sent =>
      Reading.await (child.read sent) fun v rest => (next v).read rest
  | .tryCatch block handler next, sent =>
      ((Reading.catching (block.read sent)) fun e rest => (handler e).read rest).andThen
        fun v rest => (next v).read rest

/-- What a task with the body completes with. -/
def Body.completion (body : Body Value Error) (sent : List (Sent Value Error)) :
    Option (Completion Value Error) :=
  (body.read sent).1.completion

end Bexec.TaskBody
