import Bexec.StopToken.Placement
import Bexec.StopToken.Sources

/-!
# The stop callback of a scope token

A `scope_stop_callback` registers a reference to itself with the scope's stop
source and then with the base source. The two notifications meet in `call_once`.
Its own registration has the same name on both sources; all other registrations
belong to user code, which runs in callback bodies and on empty stacks.
-/

namespace Bexec.ScopeStop

open Foundation StopToken

/-- The two sources that a `scope_stop_token` combines. -/
inductive Side
  | scope
  | base
  deriving DecidableEq

/-- The constructor body: which of its members is constructed next. -/
inductive EmplacePc
  | scope
  | base
  | finish
  deriving DecidableEq

/-- The destructor, which destroys the members in reverse order. -/
inductive ResetPc
  | base
  | scope
  | finish
  deriving DecidableEq

/-- `call_once`: before the exchange of `called_`, or in the call of `callback_`. -/
inductive CallOncePc
  | exchange
  | callback
  deriving DecidableEq

inductive Code
  | constructor (pc : EmplacePc)
  | destructor (pc : ResetPc)
  | callOnce (pc : CallOncePc)
  deriving DecidableEq

/-- Where the user's callback body is. -/
inductive Body (Thread : Type)
  | idle
  | running (frame : FrameId Thread)
  | returned
  deriving DecidableEq

/-- The `scope_stop_callback` object; `life` is the lifetime of the whole object,
and the last three fields are the history of its callback body. -/
structure Object (Thread : Type) where
  called : Bool
  life : Life Thread
  body : Body Thread
  invoked : List Thread
  returned : List Thread
  /-- Whether the destructor that has returned ran inside the callback body. -/
  tornDown : Option Bool
  deriving DecidableEq

variable {Thread Record : Type}

abbrev Stack (Thread Record : Type) := List (SharedFrame Side Thread Record Code)

structure State (Thread Record : Type) where
  object : Object Thread
  sources : Sources Side Thread Record Code

/-- `run` lets the code on top of a stack make its next step; `ret` ends the
callback body on top; the others are calls that user code makes. -/
inductive Action (Thread Record : Type)
  | run (thread : Thread) (weak : Bool)
  | ret (thread : Thread)
  | requestStop (thread : Thread) (side : Side)
  | constructOther (thread : Thread) (side : Side) (record : Record)
  | destroyOther (thread : Thread) (side : Side) (record : Record)
  | construct (thread : Thread)
  | destroy (thread : Thread)
  deriving DecidableEq

/-- The callback body that the frame runs is the `callback_ref` of the object. -/
def runsOwn [DecidableEq Record] (own : Record) : SharedFrame Side Thread Record Code → Bool
  | .source _ frame => frame.running own
  | .code _ => false

/-- User code is on top: the body of the object's callback, or of another one. -/
def userRuns [DecidableEq Record] (own : Record) : Stack Thread Record → Bool
  | [] => true
  | .source _ frame :: _ => frame.isUser && !frame.running own
  | .code (.callOnce .callback) :: _ => true
  | .code _ :: _ => false

namespace State

def initial [DecidableEq Record] : State Thread Record :=
  ⟨⟨false, .unborn, .idle, [], [], none⟩, .initial⟩

/-- The body of the object's callback runs on the thread. -/
def inside [DecidableEq Thread] (s : State Thread Record) (t : Thread) : Bool :=
  match s.object.body with
  | .running frame => frame.1 = t
  | _ => false

variable [DecidableEq Thread] [DecidableEq Record]

/-- The sources make some steps, and the object changes. -/
def via (s : State Thread Record) (object : Object Thread)
    (actions : List (SourcesAction Side Thread Record Code)) : Option (State Thread Record) :=
  (actions.foldlM Sources.step s.sources).map fun sources => ⟨object, sources⟩

/-- The code of the object that is on top of the stack of `t`. -/
def runCode (own : Record) (s : State Thread Record) (t : Thread) (depth : Nat) :
    Code → Option (State Thread Record)
  | .constructor .scope =>
      s.via s.object [.become t (.constructor .base), .construct t .scope own]
  | .constructor .base =>
      s.via s.object [.become t (.constructor .finish), .construct t .base own]
  | .constructor .finish => s.via { s.object with life := .alive } [.leave t]
  | .destructor .base => s.via s.object [.become t (.destructor .scope), .destroy t .base own]
  | .destructor .scope => s.via s.object [.become t (.destructor .finish), .destroy t .scope own]
  | .destructor .finish =>
      s.via { s.object with life := .destroyed, tornDown := some (s.inside t) } [.leave t]
  | .callOnce .exchange =>
      if s.object.called then s.via s.object [.leave t, .ret t]
      else
        s.via { s.object with
            called := true
            body := .running (t, depth)
            invoked := t :: s.object.invoked }
          [.become t (.callOnce .callback)]
  | .callOnce .callback => none

end State

variable [DecidableEq Thread] [DecidableEq Record]

/-- The object may be constructed once, and destroyed once its constructor has
returned. -/
def step (own : Record) (s : State Thread Record) :
    Action Thread Record → Option (State Thread Record)
  | .run t weak =>
      match s.sources.stack t with
      | [] => none
      | .source _ frame :: _ =>
          if frame.running own then s.via s.object [.enter t (.callOnce .exchange)]
          else s.via s.object [.run t weak]
      | .code code :: rest => s.runCode own t rest.length code
  | .ret t =>
      match s.sources.stack t with
      | .source _ frame :: _ =>
          if frame.running own then none else s.via s.object [.ret t]
      | .code (.callOnce .callback) :: _ =>
          s.via { s.object with body := .returned, returned := t :: s.object.returned }
            [.leave t, .ret t]
      | _ => none
  | .requestStop t i =>
      if userRuns own (s.sources.stack t) then s.via s.object [.requestStop t i] else none
  | .constructOther t i r =>
      if userRuns own (s.sources.stack t) ∧ r ≠ own then s.via s.object [.construct t i r] else none
  | .destroyOther t i r =>
      if userRuns own (s.sources.stack t) ∧ r ≠ own then s.via s.object [.destroy t i r] else none
  | .construct t =>
      if userRuns own (s.sources.stack t) ∧ s.object.life = .unborn then
        s.via { s.object with life := .constructing (t, (s.sources.stack t).length) }
          [.enter t (.constructor .scope)]
      else none
  | .destroy t =>
      if userRuns own (s.sources.stack t) ∧ s.object.life = .alive then
        s.via { s.object with life := .destroying (t, (s.sources.stack t).length) }
          [.enter t (.destructor .base)]
      else none

def machine (Thread Record : Type) [DecidableEq Thread] [DecidableEq Record] (own : Record) :
    Machine (State Thread Record) (Action Thread Record) where
  initial s := s = .initial
  step := step own

end Bexec.ScopeStop
