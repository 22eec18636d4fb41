import Bexec.Foundation.Machine

/-!
# Tasks, their frames and the delivery of a completion

`task`, `task_operation` and `sender_awaitable` on one call stack. User code may
run in the body of a coroutine, in a receiver, in the move of a receiver and in
the destructors of what lives in a frame, and may call any of the functions
again from there.
-/

namespace Bexec.Task

open Foundation

/-- The objects with a `handle_`. -/
inductive Holder (Id : Type)
  | task (t : Id)
  | operation (o : Id)
  deriving DecidableEq

inductive Object (Id : Type)
  | holder (h : Holder Id)
  | promise (f : Id)
  | awaiter (a : Id)
  deriving DecidableEq

inductive Life
  | unborn
  | alive
  | dead
  deriving DecidableEq

inductive Status (Id : Type)
  /-- At the initial suspend point, or at one that user code resumes. -/
  | suspended
  | running
  | awaiting (a : Id)
  /-- At the final suspend point, or stopped where it awaits. -/
  | completed
  | destroying
  deriving DecidableEq

/-- A coroutine frame with its promise. -/
structure Frame (Id : Type) where
  status : Status Id
  connectedOperation : Option Id
  value : Bool
  error : Bool
  stopped : Bool
  /-- The awaiters that live in the frame. -/
  awaiters : List Id
  deriving DecidableEq

/-- A `sender_awaitable`; its sender is a task or another sender. -/
structure Awaiter (Id : Type) where
  promise : Id
  operation : Option Id
  deriving DecidableEq

inductive Receiver (Id : Type)
  | user
  | awaiter (a : Id)
  deriving DecidableEq

inductive Signal
  | value
  | error
  | stopped
  deriving DecidableEq

/-- `deliver_to` looks at `error_` first, then at `stopped_`. -/
def Frame.completion {Id : Type} (frame : Frame Id) : Signal :=
  if frame.error then .error else if frame.stopped then .stopped else .value

/-- The functions that start a frame or deliver its completion. -/
inductive Fn (Id : Type)
  | taskStart (t : Id)
  | operationStart (o : Id)
  | awaitSuspend (a : Id)
  | finalAwaitSuspend (f : Id)
  | dispatchConnectedCompletion (f : Id)
  | deliver (o : Id)
  | deliverTo (f o : Id)
  | complete (a : Id)
  | completeStopped (a : Id)
  | unhandledStopped (f : Id)
  deriving DecidableEq

/-- What follows the destruction of a frame: the end of a destructor, or the
second half of a move assignment. -/
inductive After (Id : Type)
  | die
  | take (other : Id)
  deriving DecidableEq

/-- The calls on the stack. A function of the chain is `pending` up to the call
that it makes, and `called` from then on. -/
inductive Activation (Id : Type)
  | user
  | body (f : Id)
  | connecting (t o f : Id) (frame : Frame Id)
  | destroying (h : Holder Id) (f : Id) (after : After Id)
  | pending (fn : Fn Id)
  | called (fn : Fn Id)
  deriving DecidableEq

structure Heap (Id : Type) where
  handle : Holder Id → Option Id
  life : Holder Id → Life
  created : Id → Bool
  frames : Id → Option (Frame Id)
  destroyed : Id → Nat
  receiver : Id → Receiver Id
  awaiters : Id → Option (Awaiter Id)
  /-- The frame that an operation took over. -/
  frameOf : Id → Option Id
  /-- What the receiver of an operation was told. -/
  signalled : Id → Option Signal

structure State (Id : Type) where
  heap : Heap Id
  stack : List (Activation Id)

variable {Id : Type}

namespace Activation

/-- User code runs on top of these. -/
def isUser : Activation Id → Bool
  | .pending _ | .called _ => false
  | _ => true

def isPending : Activation Id → Bool
  | .pending _ => true
  | _ => false

/-- What a call that has not returned keeps other calls from using: the object
that it connects, assigns to or destroys, and the frame of it. -/
def binds : Activation Id → List (Object Id)
  | .body f => [.promise f]
  | .connecting t o f _ => [.holder (.task t), .holder (.operation o), .promise f]
  | .destroying h f _ => [.holder h, .promise f]
  | _ => []

/-- What an assignment reads when its destruction has returned. -/
def refs : Activation Id → List (Object Id)
  | .destroying _ _ (.take other) => [.holder (.task other)]
  | _ => []

end Activation

namespace Heap

def initial : Heap Id :=
  ⟨fun _ => none, fun _ => .unborn, fun _ => false, fun _ => none, fun _ => 0, fun _ => .user,
    fun _ => none, fun _ => none, fun _ => none⟩

variable [DecidableEq Id]

/-- The coroutine function allocates a frame, and `get_return_object` makes the task. -/
def create (h : Heap Id) (t f : Id) : Heap Id :=
  { h with
    handle := Function.update h.handle (.task t) (some f)
    life := Function.update h.life (.task t) .alive
    created := Function.update h.created f true
    frames := Function.update h.frames f (some ⟨.suspended, none, false, false, false, []⟩) }

/-- `handle_ = std::exchange(other.handle_, {})`. -/
def exchange (h : Heap Id) (target source : Holder Id) : Heap Id :=
  { h with
    handle := Function.update (Function.update h.handle target (h.handle source)) source none }

def setLife (h : Heap Id) (holder : Holder Id) (life : Life) : Heap Id :=
  { h with life := Function.update h.life holder life }

def setFrame (h : Heap Id) (f : Id) (frame : Frame Id) : Heap Id :=
  { h with frames := Function.update h.frames f (some frame) }

/-- The part of the constructor of `task_operation` that follows the move of the
receiver. -/
def connect (h : Heap Id) (t o f : Id) (frame : Frame Id) (receiver : Receiver Id) : Heap Id :=
  let h := (h.exchange (.operation o) (.task t)).setLife (.operation o) .alive
  let h := h.setFrame f { frame with connectedOperation := some o }
  { h with
    receiver := Function.update h.receiver o receiver
    frameOf := Function.update h.frameOf o (some f) }

/-- The awaiter is constructed in the frame, which then suspends. -/
def suspendOn (h : Heap Id) (a f : Id) (frame : Frame Id) (operation : Option Id) : Heap Id :=
  let h := h.setFrame f { frame with status := .awaiting a, awaiters := a :: frame.awaiters }
  { h with awaiters := Function.update h.awaiters a (some ⟨f, operation⟩) }

def removeAwaiter (h : Heap Id) (a f : Id) (frame : Frame Id) : Heap Id :=
  let h := h.setFrame f { frame with awaiters := frame.awaiters.erase a }
  { h with awaiters := Function.update h.awaiters a none }

def signal (h : Heap Id) (o : Id) (signal : Signal) : Heap Id :=
  { h with signalled := Function.update h.signalled o (some signal) }

/-- `handle_.destroy()` has run the destructors and frees the frame. -/
def free (h : Heap Id) (holder : Holder Id) (f : Id) : Heap Id :=
  { h with
    handle := Function.update h.handle holder none
    frames := Function.update h.frames f none
    destroyed := Function.update h.destroyed f (h.destroyed f + 1) }

/-- The destructors of what lives in the frame begin to run. -/
def beginDestroy (h : Heap Id) (f : Id) (frame : Frame Id) : Heap Id :=
  h.setFrame f { frame with status := .destroying }

/-- The frame of a task or an operation. -/
def frameAt (h : Heap Id) (holder : Holder Id) : Option (Id × Frame Id) :=
  (h.handle holder).bind fun f => (h.frames f).map fun frame => (f, frame)

end Heap

/-- What user code does; `run` is the next step of a function under it. -/
inductive Action (Id : Type)
  | create (t f : Id)
  | moveConstruct (t other : Id)
  | moveAssign (t other : Id)
  | connect (t o : Id)
  | receiverMoved
  | receiverThrew
  | startTask (t : Id)
  | startOperation (o : Id)
  | destroyTask (t : Id)
  | destroyOperation (o : Id)
  | awaitSender (a : Id)
  | awaitTask (a t o : Id)
  | suspend
  | finish (throws : Bool)
  | destroyAwaiter (a : Id)
  | completeSender (a : Id) (stopped : Bool)
  | ret
  | run
  deriving DecidableEq

namespace State

def initial : State Id := ⟨.initial, []⟩

/-- User code runs on top of the stack. -/
def userRuns (s : State Id) : Bool := (s.stack.head?.map Activation.isUser).getD true

def bound (s : State Id) : List (Object Id) := s.stack.flatMap Activation.binds

def refs (s : State Id) : List (Object Id) := s.stack.flatMap Activation.refs

def push (s : State Id) (activation : Activation Id) : State Id :=
  { s with stack := activation :: s.stack }

variable [DecidableEq Id]

/-- An object that user code may use. -/
def usable (s : State Id) (h : Holder Id) : Bool :=
  s.userRuns && decide (s.heap.life h = .alive ∧ .holder h ∉ s.bound)

/-- An identity that a new object may take. -/
def available (s : State Id) (h : Holder Id) : Bool :=
  s.userRuns && decide (s.heap.life h = .unborn ∧ .holder h ∉ s.bound)

/-- `handle_.destroy()`, or nothing without a handle. Only a suspended coroutine
may be destroyed, and no operation that it has started is left unfinished. -/
def destroy (s : State Id) (h : Holder Id) (after : After Id) (idle : State Id) :
    Option (State Id) :=
  match s.heap.handle h with
  | none => some idle
  | some f =>
      match s.heap.frames f with
      | none => none
      | some frame =>
          if frame.status = .suspended ∨ frame.status = .completed then
            some ⟨s.heap.beginDestroy f frame, .destroying h f after :: s.stack⟩
          else none

/-- A coroutine is resumed by a function that makes no other call. -/
def resume (s : State Id) (fn : Fn Id) (f : Id) (frame : Frame Id)
    (rest : List (Activation Id)) : State Id :=
  ⟨s.heap.setFrame f { frame with status := .running }, .body f :: .called fn :: rest⟩

/-- A function of the chain up to its call. -/
def run (s : State Id) (rest : List (Activation Id)) : Fn Id → Option (State Id)
  | .taskStart t =>
      match s.heap.handle (.task t) with
      | none => some ⟨s.heap, rest⟩
      | some f =>
          match s.heap.frames f with
          | none => none
          | some frame =>
              match frame.status with
              | .suspended => some (s.resume (.taskStart t) f frame rest)
              -- `done()`
              | .completed => some ⟨s.heap, rest⟩
              | _ => none
  | .operationStart o =>
      match s.heap.frameAt (.operation o) with
      | none => none
      | some (f, frame) =>
          if frame.status = .suspended then some (s.resume (.operationStart o) f frame rest)
          else none
  | .awaitSuspend a =>
      match s.heap.awaiters a with
      | none => none
      | some awaiter =>
          match awaiter.operation with
          | none => some ⟨s.heap, .user :: .called (.awaitSuspend a) :: rest⟩
          | some o => some ⟨s.heap, .pending (.operationStart o) :: .called (.awaitSuspend a) :: rest⟩
  | .finalAwaitSuspend f =>
      some ⟨s.heap, .pending (.dispatchConnectedCompletion f) :: .called (.finalAwaitSuspend f) :: rest⟩
  | .dispatchConnectedCompletion f =>
      match s.heap.frames f with
      | none => none
      | some frame =>
          match frame.connectedOperation with
          | none => some ⟨s.heap, rest⟩
          | some o =>
              some ⟨s.heap, .pending (.deliver o) :: .called (.dispatchConnectedCompletion f) :: rest⟩
  | .deliver o =>
      match s.heap.handle (.operation o) with
      | none => none
      | some f => some ⟨s.heap, .pending (.deliverTo f o) :: .called (.deliver o) :: rest⟩
  | .deliverTo f o =>
      match s.heap.frames f with
      | none => none
      | some frame =>
          let heap := s.heap.signal o frame.completion
          match s.heap.receiver o with
          | .user => some ⟨heap, .user :: .called (.deliverTo f o) :: rest⟩
          | .awaiter a =>
              if frame.completion = .stopped then
                some ⟨heap, .pending (.completeStopped a) :: .called (.deliverTo f o) :: rest⟩
              else some ⟨heap, .pending (.complete a) :: .called (.deliverTo f o) :: rest⟩
  | .complete a =>
      match s.heap.awaiters a with
      | none => none
      | some awaiter =>
          match s.heap.frames awaiter.promise with
          | none => none
          | some frame => some (s.resume (.complete a) awaiter.promise frame rest)
  | .completeStopped a =>
      match s.heap.awaiters a with
      | none => none
      | some awaiter =>
          some ⟨s.heap,
            .pending (.unhandledStopped awaiter.promise) :: .called (.completeStopped a) :: rest⟩
  | .unhandledStopped f =>
      match s.heap.frames f with
      | none => none
      | some frame =>
          some ⟨s.heap.setFrame f { frame with status := .completed, stopped := true },
            .pending (.dispatchConnectedCompletion f) :: .called (.unhandledStopped f) :: rest⟩

def step (s : State Id) : Action Id → Option (State Id)
  | .create t f =>
      if s.available (.task t) ∧ s.heap.created f = false then
        some { s with heap := s.heap.create t f }
      else none
  | .moveConstruct t other =>
      if s.available (.task t) ∧ s.usable (.task other) then
        some { s with heap := (s.heap.exchange (.task t) (.task other)).setLife (.task t) .alive }
      else none
  | .moveAssign t other =>
      if s.usable (.task t) ∧ s.usable (.task other) then
        if t = other then some s
        else
          s.destroy (.task t) (.take other)
            { s with heap := s.heap.exchange (.task t) (.task other) }
      else none
  | .connect t o =>
      if s.usable (.task t) ∧ s.available (.operation o) then
        match s.heap.frameAt (.task t) with
        | none => none
        | some (f, frame) =>
            if frame.status = .suspended then some (s.push (.connecting t o f frame)) else none
      else none
  | .receiverMoved =>
      match s.stack with
      | .connecting t o f frame :: rest => some ⟨s.heap.connect t o f frame .user, rest⟩
      | _ => none
  | .receiverThrew =>
      match s.stack with
      | .connecting _ _ _ _ :: rest => some { s with stack := rest }
      | _ => none
  | .startTask t =>
      if s.usable (.task t) then
        match s.heap.frameAt (.task t) with
        | none => some (s.push (.pending (.taskStart t)))
        | some (_, frame) =>
            if frame.status = .suspended ∨ frame.status = .completed then
              some (s.push (.pending (.taskStart t)))
            else none
      else none
  | .startOperation o =>
      if s.usable (.operation o) ∧ s.heap.receiver o = .user then
        match s.heap.frameAt (.operation o) with
        | none => none
        | some (_, frame) =>
            if frame.status = .suspended then some (s.push (.pending (.operationStart o))) else none
      else none
  | .destroyTask t =>
      if s.usable (.task t) ∧ .holder (.task t) ∉ s.refs then
        s.destroy (.task t) .die { s with heap := s.heap.setLife (.task t) .dead }
      else none
  | .destroyOperation o =>
      if s.usable (.operation o) ∧ s.heap.receiver o = .user then
        s.destroy (.operation o) .die { s with heap := s.heap.setLife (.operation o) .dead }
      else none
  | .awaitSender a =>
      match s.stack with
      | .body f :: rest =>
          match s.heap.frames f with
          | none => none
          | some frame =>
              if s.heap.awaiters a = none then
                some ⟨s.heap.suspendOn a f frame none, .pending (.awaitSuspend a) :: rest⟩
              else none
      | _ => none
  | .awaitTask a t o =>
      match s.stack with
      | .body f :: rest =>
          match s.heap.frames f, s.heap.frameAt (.task t) with
          | some frame, some (g, child) =>
              if s.heap.awaiters a = none ∧ s.usable (.task t) ∧ s.available (.operation o) ∧
                  child.status = .suspended then
                some ⟨(s.heap.connect t o g child (.awaiter a)).suspendOn a f frame (some o),
                  .pending (.awaitSuspend a) :: rest⟩
              else none
          | _, _ => none
      | _ => none
  | .suspend =>
      match s.stack with
      | .body f :: rest =>
          (s.heap.frames f).map fun frame =>
            ⟨s.heap.setFrame f { frame with status := .suspended }, rest⟩
      | _ => none
  | .finish throws =>
      match s.stack with
      | .body f :: rest =>
          match s.heap.frames f with
          | none => none
          | some frame =>
              if frame.awaiters = [] then
                some ⟨s.heap.setFrame f
                    { frame with
                      status := .completed
                      value := !throws
                      error := throws },
                  .pending (.finalAwaitSuspend f) :: rest⟩
              else none
      | _ => none
  | .destroyAwaiter a =>
      match s.heap.awaiters a, s.stack with
      | some awaiter, .body f :: _ | some awaiter, .destroying _ f _ :: _ =>
          match s.heap.frames f with
          | none => none
          | some frame =>
              if awaiter.promise = f then
                let s := { s with heap := s.heap.removeAwaiter a f frame }
                match awaiter.operation with
                | none => some s
                | some o =>
                    s.destroy (.operation o) .die
                      { s with heap := s.heap.setLife (.operation o) .dead }
              else none
      | _, _ => none
  | .completeSender a stopped =>
      match s.heap.awaiters a with
      | none => none
      | some awaiter =>
          match s.heap.frames awaiter.promise with
          | none => none
          | some frame =>
              if s.userRuns ∧ awaiter.operation = none ∧ frame.status = .awaiting a then
                some (s.push (.pending (if stopped then .completeStopped a else .complete a)))
              else none
  | .ret =>
      match s.stack with
      | .user :: rest => some { s with stack := rest }
      | _ => none
  | .run =>
      match s.stack with
      | .pending fn :: rest => s.run rest fn
      | .called _ :: rest => some { s with stack := rest }
      | .destroying h f after :: rest =>
          match s.heap.frames f with
          | none => none
          | some frame =>
              if frame.awaiters = [] then
                let heap := s.heap.free h f
                match after with
                | .die => some ⟨heap.setLife h .dead, rest⟩
                | .take other => some ⟨heap.exchange h (.task other), rest⟩
              else none
      | _ => none

/-- What a function of the chain reads before its call. After the call it reads
nothing. -/
def reads (s : State Id) : Fn Id → List (Object Id)
  | .taskStart t => .holder (.task t) :: ((s.heap.handle (.task t)).map .promise).toList
  | .operationStart o => .holder (.operation o) :: ((s.heap.handle (.operation o)).map .promise).toList
  | .awaitSuspend a => [.awaiter a]
  | .finalAwaitSuspend f => [.promise f]
  | .dispatchConnectedCompletion f => [.promise f]
  | .deliver o => .holder (.operation o) :: ((s.heap.handle (.operation o)).map .promise).toList
  | .deliverTo f o => [.promise f, .holder (.operation o)]
  | .complete a => .awaiter a :: ((s.heap.awaiters a).map fun awaiter => .promise awaiter.promise).toList
  | .completeStopped a => [.awaiter a]
  | .unhandledStopped f => [.promise f]

/-- The promise that the argument of a completion function refers into. -/
def argument (s : State Id) : Fn Id → List (Object Id)
  | .complete a =>
      (((s.heap.awaiters a).bind Awaiter.operation).bind fun o =>
        (s.heap.handle (.operation o)).map .promise).toList
  | _ => []

def alive (s : State Id) : Object Id → Bool
  | .holder h => s.heap.life h = .alive
  | .promise f => (s.heap.frames f).isSome
  | .awaiter a => (s.heap.awaiters a).isSome

end State

def machine (Id : Type) [DecidableEq Id] : Machine (State Id) (Action Id) where
  initial s := s = .initial
  step := State.step

end Bexec.Task
