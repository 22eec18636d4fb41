import Bexec.CountingScope.JoinContract

/-!
# Steps of spawned operations

Any number of operations that `spawn` allocates on one counting scope. Each has
two association handles of its own: the member `association_` and the local
into which `finish` moves it. Other code may use the scope through handles of
its own at any time.
-/

namespace Bexec.Spawn

open Foundation

/-- A handle to the scope: the member `association_` of an operation, the local
of its `finish`, or a handle of other code. -/
inductive Holder (Op Handle : Type)
  | association (op : Op)
  | moved (op : Op)
  | other (handle : Handle)
  deriving DecidableEq

/-- Where a call stands in the code of an operation. `starting` is inside the
`start` of the child and `destroying` inside its destructor. -/
inductive Place
  | construct
  | start
  | starting
  | arrive
  | finish
  | destroy
  | destroying
  | deallocate
  | release
  deriving DecidableEq

/-- User code is in control at the place. -/
def Place.isUser : Place → Bool
  | .starting => true
  | .destroying => true
  | _ => false

/-- A call on an operation. It stands on frames of the scope, whose number is
`depth`. -/
structure Frame (Op : Type) where
  place : Place
  op : Op
  depth : Nat
  deriving DecidableEq

/-- `arrived` is a `test_and_set` of `release_arrived_`, by the return of the
child's `start` or by its completion. -/
inductive Event
  | spawned
  | started
  | rejected
  | startReturned
  | completed
  | arrived
  | finishing
  | moved
  | destroyed
  | deallocated
  | released
  deriving DecidableEq

structure State (Thread Op Handle Join : Type) where
  scope : CountingScope.State Thread (Holder Op Handle) Join
  /-- Operations whose storage is allocated. -/
  allocated : Finset Op
  /-- Operations whose child operation is within its lifetime. -/
  alive : Finset Op
  /-- Operations whose `release_arrived_` is set. -/
  arrived : Finset Op
  stack : Thread → List (Frame Op)
  log : List (Event × Op)

variable {Thread Op Handle Join : Type} [Fintype Thread] [DecidableEq Thread] [DecidableEq Op]
  [DecidableEq Handle] [DecidableEq Join]

namespace State

def initial : State Thread Op Handle Join where
  scope := .initial
  allocated := ∅
  alive := ∅
  arrived := ∅
  stack := fun _ => []
  log := []

def setStack (s : State Thread Op Handle Join) (t : Thread) (frames : List (Frame Op)) :
    State Thread Op Handle Join :=
  { s with stack := Function.update s.stack t frames }

def record (s : State Thread Op Handle Join) (event : Event) (op : Op) :
    State Thread Op Handle Join :=
  { s with log := (event, op) :: s.log }

/-- The number of frames of the scope on a stack. -/
def height (s : State Thread Op Handle Join) (t : Thread) : Nat :=
  (s.scope.stack t).length

/-- A frame of the scope is on top. -/
def inScope (s : State Thread Op Handle Join) (t : Thread) : Bool :=
  match s.stack t with
  | [] => true
  | frame :: _ => frame.depth < s.height t

/-- User code is in control of the thread. -/
def atUser (s : State Thread Op Handle Join) (t : Thread) : Bool :=
  s.scope.atUser t &&
    match s.stack t with
    | [] => true
    | frame :: _ => frame.depth < s.height t || frame.place.isUser

/-- Let the scope make a step. -/
def via (s : State Thread Op Handle Join)
    (a : CountingScope.Action Thread (Holder Op Handle) Join) :
    Option (State Thread Op Handle Join) :=
  (CountingScope.step s.scope a).map fun scope => { s with scope := scope }

/-- `spawn_operation::start`, up to the call of the child's `start`. -/
def start (s : State Thread Op Handle Join) (t : Thread) (rest : List (Frame Op)) (op : Op)
    (depth : Nat) : State Thread Op Handle Join :=
  if .association op ∈ s.scope.engaged then
    (s.record .started op).setStack t (⟨.starting, op, depth⟩ :: rest)
  else ((s.record .rejected op).record .finishing op).setStack t (⟨.finish, op, depth⟩ :: rest)

/-- The `test_and_set` in `start` and in `complete`. -/
def arrive (s : State Thread Op Handle Join) (t : Thread) (rest : List (Frame Op)) (op : Op)
    (depth : Nat) : State Thread Op Handle Join :=
  if op ∈ s.arrived then
    ((s.record .arrived op).record .finishing op).setStack t (⟨.finish, op, depth⟩ :: rest)
  else ({ s with arrived := insert op s.arrived }.record .arrived op).setStack t rest

/-- One step of the frame on top. The steps from `finish` on are those of
`spawn_operation::finish`. -/
def advance (s : State Thread Op Handle Join) (t : Thread) (rest : List (Frame Op)) (op : Op)
    (depth : Nat) : Place → Option (State Thread Op Handle Join)
  | .construct =>
      (s.setStack t (⟨.start, op, depth⟩ :: rest)).via (.associate t (.association op))
  | .start => some (s.start t rest op depth)
  | .starting => none
  | .arrive => some (s.arrive t rest op depth)
  | .finish =>
      ((s.record .moved op).setStack t (⟨.destroy, op, depth⟩ :: rest)).via
        (.moveConstruct t (.moved op) (.association op))
  | .destroy =>
      (s.setStack t (⟨.destroying, op, depth⟩ :: rest)).via (.destroy t (.association op))
  | .destroying => none
  | .deallocate =>
      some (({ s with allocated := s.allocated.erase op }.record .deallocated op).setStack t
        (⟨.release, op, depth⟩ :: rest))
  | .release => ((s.record .released op).setStack t rest).via (.destroy t (.moved op))

/-- The return of user code to the frame on top. -/
def ret (s : State Thread Op Handle Join) (t : Thread) (rest : List (Frame Op)) (op : Op)
    (depth : Nat) : Place → Option (State Thread Op Handle Join)
  | .starting => some ((s.record .startReturned op).setStack t (⟨.arrive, op, depth⟩ :: rest))
  | .destroying =>
      some (({ s with alive := s.alive.erase op }.record .destroyed op).setStack t
        (⟨.deallocate, op, depth⟩ :: rest))
  | _ => none

/-- What other code may do with the scope, and where. -/
def foreign (s : State Thread Op Handle Join) :
    CountingScope.Action Thread (Holder Op Handle) Join → Bool
  | .run t _ => s.inScope t
  | .ret t => s.inScope t
  | .create t (.other _) => s.atUser t
  | .associate t (.other _) => s.atUser t
  | .associateFrom t (.other _) (.other _) => s.atUser t
  | .moveConstruct t (.other _) (.other _) => s.atUser t
  | .moveAssign t (.other _) (.other _) => s.atUser t
  | .destroy t (.other _) => s.atUser t
  | .close t => s.atUser t
  | .join t _ => s.atUser t
  | .reuse _ _ => true
  | _ => false

end State

inductive Action (Thread Op Handle Join : Type)
  | scope (action : CountingScope.Action Thread (Holder Op Handle) Join)
  | spawn (thread : Thread) (op : Op)
  | complete (thread : Thread) (op : Op)
  | run (thread : Thread)
  | ret (thread : Thread)
  deriving DecidableEq

/-- A child that was started completes once, at any time and on any thread. -/
def step (s : State Thread Op Handle Join) :
    Action Thread Op Handle Join → Option (State Thread Op Handle Join)
  | .scope a => if s.foreign a then s.via a else none
  | .spawn t op =>
      if s.atUser t ∧ (.spawned, op) ∉ s.log then
        some (({ s with
          allocated := insert op s.allocated
          alive := insert op s.alive }.record .spawned op).setStack t
            (⟨.construct, op, s.height t⟩ :: s.stack t))
      else none
  | .complete t op =>
      if s.atUser t ∧ (.started, op) ∈ s.log ∧ (.completed, op) ∉ s.log then
        some ((s.record .completed op).setStack t (⟨.arrive, op, s.height t⟩ :: s.stack t))
      else none
  | .run t =>
      match s.stack t with
      | [] => none
      | frame :: rest =>
          if s.height t = frame.depth then s.advance t rest frame.op frame.depth frame.place
          else none
  | .ret t =>
      match s.stack t with
      | [] => none
      | frame :: rest =>
          if s.height t = frame.depth then s.ret t rest frame.op frame.depth frame.place
          else none

/-- Any number of threads, spawned operations, other handles and joins on one
live scope. -/
def machine (Thread Op Handle Join : Type) [Fintype Thread] [DecidableEq Thread] [DecidableEq Op]
    [DecidableEq Handle] [DecidableEq Join] :
    Machine (State Thread Op Handle Join) (Action Thread Op Handle Join) where
  initial s := s = .initial
  step := step

end Bexec.Spawn
