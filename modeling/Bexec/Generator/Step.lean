import Bexec.Foundation.Machine

/-! # Generators

Generator objects and the coroutine frames that they own. The flag `started_`
is a field of the object; the frame travels from one object to another.
-/

namespace Bexec.Generator

open Foundation

/-- What the body of a coroutine yields, and the exception that ends it, if one does. -/
structure Body (V E : Type*) where
  yields : List V
  ending : Option E
  deriving DecidableEq

/-- A coroutine: what is left of its body, the fields of its promise, and
whether it is suspended at its final suspension point. -/
structure Frame (V E : Type*) where
  remaining : List V
  ending : Option E
  value : Option V
  error : Option E
  done : Bool
  deriving DecidableEq

/-- A generator object. -/
structure Object (Co : Type*) where
  handle : Option Co
  started : Bool
  deriving DecidableEq

/-- What the caller finds after `begin()` or `++`: the value under the iterator, an
iterator without a value, one that equals the sentinel, or an exception. -/
inductive Look (V E : Type*)
  | value (v : V)
  | nothing
  | sentinel
  | threw (e : E)
  deriving DecidableEq

/-- `frames` holds the live frames, `objects` the live generators and
`iterators` the handles of the live iterators. `thrown` is what the last
`begin()` or `++` threw; `aborted` is set by a failed assertion. The bodies and
what callers have seen of each coroutine are kept for the statements. -/
structure State (Obj It Co V E : Type*) where
  bodies : Co → Option (Body V E)
  frames : Co → Option (Frame V E)
  destroyed : Co → ℕ
  objects : Obj → Option (Object Co)
  iterators : It → Option (Option Co)
  thrown : Option E
  seen : Co → List (Look V E)
  aborted : Bool

inductive Action (Obj It Co V E : Type*)
  | create (g : Obj) (co : Co) (body : Body V E)
  | construct (g : Obj)
  | moveConstruct (g other : Obj)
  | moveAssign (g other : Obj)
  | destroy (g : Obj)
  | begin (g : Obj) (it : It)
  | increment (it : It)

namespace Frame

variable {V E : Type*}

/-- A coroutine before its first resumption. -/
def create (body : Body V E) : Frame V E :=
  ⟨body.yields, body.ending, none, none, false⟩

/-- `resume`: run to the next `co_yield`, or to the end of the body. -/
def resume (f : Frame V E) : Frame V E :=
  match f.remaining with
  | v :: rest => { f with remaining := rest, value := some v }
  | [] => { f with error := f.ending, done := true }

end Frame

variable {Obj It Co V E : Type*} [DecidableEq Obj] [DecidableEq It] [DecidableEq Co]

namespace State

def initial : State Obj It Co V E :=
  ⟨fun _ => none, fun _ => none, fun _ => 0, fun _ => none, fun _ => none, none, fun _ => [], false⟩

def created (s : State Obj It Co V E) (co : Co) : Bool := (s.bodies co).isSome

def setObject (g : Obj) (object : Option (Object Co)) (s : State Obj It Co V E) :
    State Obj It Co V E :=
  { s with objects := Function.update s.objects g object }

/-- `handle_.destroy()`. -/
def destroyFrame (co : Co) (s : State Obj It Co V E) : State Obj It Co V E :=
  { s with
    frames := Function.update s.frames co none
    destroyed := Function.update s.destroyed co (s.destroyed co + 1) }

/-- `if (handle_) { handle_.destroy(); }`. -/
def release (object : Object Co) (s : State Obj It Co V E) : State Obj It Co V E :=
  match object.handle with
  | some co => s.destroyFrame co
  | none => s

def setFrame (co : Co) (f : Frame V E) (s : State Obj It Co V E) : State Obj It Co V E :=
  { s with frames := Function.update s.frames co (some f) }

/-- The coroutine is created with the object that owns it. -/
def create (g : Obj) (co : Co) (body : Body V E) (s : State Obj It Co V E) :
    State Obj It Co V E :=
  { s with bodies := Function.update s.bodies co (some body) }.setFrame co (.create body)
    |>.setObject g (some ⟨some co, false⟩)

/-- `generator(generator&& other)`. -/
def moveConstruct (g other : Obj) (source : Object Co) (s : State Obj It Co V E) :
    State Obj It Co V E :=
  (s.setObject g (some ⟨source.handle, false⟩)).setObject other (some ⟨none, source.started⟩)

/-- `operator=(generator&& other)`. -/
def moveAssign (g other : Obj) (target source : Object Co) (s : State Obj It Co V E) :
    State Obj It Co V E :=
  if g = other then s else
    ((s.release target).setObject g (some ⟨source.handle, target.started⟩)).setObject other
      (some ⟨none, source.started⟩)

/-- Resume a coroutine, rethrow what its body threw, and otherwise hand out the
iterator. -/
def advance (co : Co) (f : Frame V E) (it : It) (s : State Obj It Co V E) : State Obj It Co V E :=
  let s := { s.setFrame co f.resume with thrown := f.resume.error }
  match f.resume.error with
  | none => { s with iterators := Function.update s.iterators it (some (some co)) }
  | some _ => s

/-- `begin()`, with the assertion that the generator is not started. A coroutine
at its final suspension point cannot be resumed. -/
def begin (g : Obj) (object : Object Co) (it : It) (s : State Obj It Co V E) :
    Option (State Obj It Co V E) :=
  match object.handle with
  | none =>
      some { s with iterators := Function.update s.iterators it (some none), thrown := none }
  | some co =>
      if object.started then some { s with aborted := true }
      else
        match s.frames co with
        | some f =>
            if f.done then none else some ((s.setObject g (some ⟨some co, true⟩)).advance co f it)
        | none => none

/-- `operator++`. -/
def increment (it : It) (s : State Obj It Co V E) : Option (State Obj It Co V E) :=
  match s.iterators it with
  | some (some co) =>
      match s.frames co with
      | some f => if f.done then none else some (s.advance co f it)
      | none => none
  | _ => none

/-- What `operator*` returns, unless an assertion fails. -/
def deref (s : State Obj It Co V E) (it : It) : Option V :=
  match s.iterators it with
  | some (some co) => (s.frames co).bind Frame.value
  | _ => none

/-- `operator==` with `std::default_sentinel`. -/
def atEnd (s : State Obj It Co V E) (it : It) : Bool :=
  match s.iterators it with
  | some (some co) => (s.frames co).any Frame.done
  | some none => true
  | none => false

/-- What the caller of `begin()` or `++` finds. -/
def look (s : State Obj It Co V E) (it : It) : Look V E :=
  match s.thrown with
  | some e => .threw e
  | none =>
      if s.atEnd it then .sentinel
      else
        match s.deref it with
        | some v => .value v
        | none => .nothing

/-- The caller of `begin()` or `++` on a coroutine looks at the iterator. -/
def observe (handle : Option Co) (it : It) (s : State Obj It Co V E) : State Obj It Co V E :=
  match handle with
  | some co =>
      if s.aborted then s
      else { s with seen := Function.update s.seen co (s.seen co ++ [s.look it]) }
  | none => s

end State

/-- Objects are used while they live; an iterator is incremented while its
coroutine lives and is not done. -/
def step (s : State Obj It Co V E) (a : Action Obj It Co V E) : Option (State Obj It Co V E) :=
  if s.aborted then none else
    match a with
    | .create g co body =>
        if s.objects g = none ∧ s.created co = false then some (s.create g co body) else none
    | .construct g =>
        match s.objects g with
        | none => some (s.setObject g (some ⟨none, false⟩))
        | some _ => none
    | .moveConstruct g other =>
        match s.objects g, s.objects other with
        | none, some source => some (s.moveConstruct g other source)
        | _, _ => none
    | .moveAssign g other =>
        match s.objects g, s.objects other with
        | some target, some source => some (s.moveAssign g other target source)
        | _, _ => none
    | .destroy g =>
        match s.objects g with
        | some object => some ((s.release object).setObject g none)
        | none => none
    | .begin g it =>
        match s.objects g, s.iterators it with
        | some object, none => (s.begin g object it).map (State.observe object.handle it)
        | _, _ => none
    | .increment it =>
        match s.iterators it with
        | some handle => (s.increment it).map (State.observe handle it)
        | none => none

def machine (Obj It Co V E : Type*) [DecidableEq Obj] [DecidableEq It] [DecidableEq Co] :
    Machine (State Obj It Co V E) (Action Obj It Co V E) where
  initial s := s = .initial
  step := step

end Bexec.Generator
