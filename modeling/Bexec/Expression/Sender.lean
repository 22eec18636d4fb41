import Bexec.Adaptors.Sender

/-! # Sender expressions

The senders a user writes: leaves from outside, the factories, and every adaptor
over them. Callables and connections may throw; what they throw is part of the
expression. A thrown exception is passed on as an error, except where a
`repeat_until` has no `exception_ptr` to send.
-/

namespace Bexec.Expression

open Signatures Adaptors

/-- What storing decayed copies of the arguments of a completion throws. -/
structure Copying (V : Type) where
  values : List V → Option V
  error : V → Option V

namespace Copying

variable {V : Type}

def raises (copying : Copying V) : Completion V → Option V
  | .setValue args => copying.values args
  | .setError error => copying.error error
  | .setStopped => none

/-- What is stored in the end: an exception takes the place of the completion. -/
def stored (copying : Copying V) (c : Completion V) : Completion V :=
  match copying.raises c with
  | none => c
  | some x => .setError x

end Copying

/-- A sender from outside: what its `connect` throws, and what it completes with
before its `start` returns, given whether stop was requested by then. Without
such a completion it completes later. -/
structure Leaf (V : Type) where
  connectRaises : Option V
  inlineCompletion : Bool → Option (Completion V)

/-- What a `repeat_until` calls, by iteration: what its factory throws, its predicate,
and the copies it stores. `need_exception_ptr` is false only where none of these throws. -/
structure Loop (V : Type) where
  copying : Copying V
  raises : ℕ → Option V
  predicate : ℕ → Except V Bool
  needExceptionPtr : Bool
  nothrow : needExceptionPtr = false → (∀ c, copying.raises c = none) ∧
    (∀ k, raises k = none) ∧ ∀ k x, predicate k ≠ .error x

/-- The sender expressions. `adapt` stands for `then`, `upon_error` and
`upon_stopped`, `letAdapt` for `let_value`, `let_error` and `let_stopped`. The
children of `repeatUntil` are given by iteration. -/
inductive Sender (V : Type)
  | leaf (l : Leaf V)
  | just (completion : Completion V)
  | adapt (tag : Tag) (fn : Args V tag → Except V (List V)) (upstream : Sender V)
  | letAdapt (tag : Tag) (raises : Args V tag → Option V) (child : Args V tag → Sender V)
      (upstream : Sender V)
  | whenAll (n : ℕ) (copying : Copying V) (joinRaises : List V → Option V)
      (children : Fin (n + 1) → Sender V)
  | startsOn (schedule child : Sender V)
  | onSource (copying : Copying V) (final source : Sender V)
  | repeatUntil (loop : Loop V) (child : ℕ → Sender V)
  | associate (accepted : Bool) (child : Sender V)

namespace Sender

variable {V : Type}

/-- What connecting the sender throws. Only some adaptors connect a child there;
the others do so when they are started. -/
def connectRaises : Sender V → Option V
  | .leaf l => l.connectRaises
  | .adapt _ _ upstream => upstream.connectRaises
  | .letAdapt _ _ _ upstream => upstream.connectRaises
  | .associate true child => child.connectRaises
  | _ => none

/-- `on(scheduler, sender)`: `source_operation_` is that of `starts_on`. -/
def on (copying : Copying V) (schedule final child : Sender V) : Sender V :=
  .onSource copying final (.startsOn schedule child)

/-- `into_variant`: the variant is constructed as a callable would be invoked. -/
def intoVariant (construct : List V → Except V V) (upstream : Sender V) : Sender V :=
  .adapt .setValue (fun args => (construct args).map fun variant => [variant]) upstream

/-- `when_all_with_variant`. -/
def whenAllWithVariant (n : ℕ) (copying : Copying V) (joinRaises : List V → Option V)
    (construct : Fin (n + 1) → List V → Except V V) (children : Fin (n + 1) → Sender V) :
    Sender V :=
  .whenAll n copying joinRaises fun i => (children i).intoVariant (construct i)

end Sender

/-- What `completion_adaptor_receiver` completes its receiver with. -/
def adapted {V : Type} (tag : Tag) (fn : Args V tag → Except V (List V)) (c : Completion V) :
    Completion V :=
  match select tag c with
  | none => c
  | some args =>
      match fn args with
      | .ok result => .setValue result
      | .error x => .setError x

end Bexec.Expression
