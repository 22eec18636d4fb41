import Bexec.Foundation.Machine
import Bexec.StopToken.Memory

/-!
# Steps of the stop source

Every step makes at most one access to the state word, to a field guarded by
the spinlock, or to the completion handshake of a record. A callback body runs
while its frame is on top of a stack; there, and on an empty stack, user code
may register, destroy or request stop. `Client` frames stand for user code that
keeps frames of its own between those calls.
-/

namespace Bexec.StopToken

open Foundation

variable {Thread Record Client : Type} [DecidableEq Thread] [DecidableEq Record]

/-- Program points of the `inplace_stop_callback` constructor, with
`try_add_callback` inlined. -/
inductive ConstructorPc (Record : Type)
  | tryLock (pc : Spin)
  | readHead
  | writeNext (head : Option Record)
  | writePrevPtr
  | readNext
  | writeNextPrevPtr (next : Record)
  | writeHead
  | unlock
  | setState
  | invoke
  | callback
  deriving DecidableEq

/-- Program points of the `inplace_stop_callback` destructor, with
`remove_callback` inlined. `saved` is the value returned by `lock`. -/
inductive DestructorPc (Thread Record : Type)
  | readState
  | lock (pc : Spin)
  | readPrevPtr (saved : Word)
  | readNext (saved : Word) (slot : Slot Record)
  | writeSlot (saved : Word) (slot : Slot Record) (next : Option Record)
  | rereadNext (saved : Word)
  | rereadPrevPtr (saved : Word) (next : Record)
  | writeNextPrevPtr (saved : Word) (next : Record) (prevPtr : Option (Slot Record))
  | unlock (saved : Word)
  | readRequester (saved : Word)
  | unlockPopped (saved : Word) (notifier : Option Thread)
  | readFlag
  | writeFlag (flag : FrameId Thread)
  | waitCompleted
  deriving DecidableEq

/-- Program points of `request_stop`. The local `removed_during_callback` is
false until the callback is entered, so only `callback` carries it. -/
inductive RequestPc (Record : Type)
  | tryLock (pc : Spin)
  | setRequester
  | readHead
  | clearPrevPtr (record : Record)
  | readNext (record : Record)
  | writeHead (record : Record) (next : Option Record)
  | rereadHead (record : Record)
  | writeHeadPrevPtr (record head : Record)
  | setFlag (record : Record)
  | openLock (record : Record)
  | invoke (record : Record)
  | callback (record : Record) (removed : Bool)
  | clearFlag (record : Record)
  | setCompleted (record : Record)
  | relock (pc : Spin)
  | finalUnlock
  deriving DecidableEq

inductive Frame (Thread Record Client : Type)
  | constructor (record : Record) (pc : ConstructorPc Record)
  | destructor (record : Record) (pc : DestructorPc Thread Record)
  | requestStop (pc : RequestPc Record)
  | client (client : Client)
  deriving DecidableEq

namespace Frame

/-- The frame runs the callback body of the record. -/
def running (r : Record) : Frame Thread Record Client → Bool
  | .constructor r' .callback => r' = r
  | .requestStop (.callback r' _) => r' = r
  | _ => false

/-- User code is in control while the frame is on top. -/
def isUser : Frame Thread Record Client → Bool
  | .constructor _ .callback => true
  | .requestStop (.callback _ _) => true
  | .client _ => true
  | _ => false

/-- A write of `true` through a pointer to the frame's local flag. -/
def markRemoved : Frame Thread Record Client → Frame Thread Record Client
  | .requestStop (.callback r _) => .requestStop (.callback r true)
  | frame => frame

end Frame

/-- What becomes of the top frame. -/
inductive Next (Thread Record Client : Type)
  | goto (frame : Frame Thread Record Client)
  | ret
  | flagAndRet (flag : FrameId Thread)

/-- The destructor returns; `inside` tells whether it ran in the callback. -/
def Memory.finishDestructor (m : Memory Thread Record) (thread : Thread)
    (rest : List (Frame Thread Record Client)) (r : Record) : Memory Thread Record :=
  (m.setLife r .destroyed).record [.destroyed r thread (rest.any (·.running r))]

/-- `inplace_stop_callback::inplace_stop_callback` and `try_add_callback`. -/
def constructorStep (thread : Thread) (depth : Nat) (weak : Bool)
    (m : Memory Thread Record) (r : Record) :
    ConstructorPc Record → Option (Memory Thread Record × Next Thread Record Client)
  | .tryLock pc =>
      match tryLockUnlessStopRequested false weak m.state pc with
      | .again pc => some (m, .goto (.constructor r (.tryLock pc)))
      | .acquired _ next =>
          some (({ m with state := next }.record [.acquired (thread, depth)]),
            .goto (.constructor r .readHead))
      | .refused => some (m.record [.addFailed r thread], .goto (.constructor r .invoke))
  | .readHead => some (m, .goto (.constructor r (.writeNext m.links.head)))
  | .writeNext head =>
      some ({ m with links := m.links.write (.next r) head }, .goto (.constructor r .writePrevPtr))
  | .writePrevPtr =>
      some ({ m with links := m.links.setPrev r (some .head) }, .goto (.constructor r .readNext))
  | .readNext =>
      match m.links.next r with
      | none => some (m, .goto (.constructor r .writeHead))
      | some next => some (m, .goto (.constructor r (.writeNextPrevPtr next)))
  | .writeNextPrevPtr next =>
      some ({ m with links := m.links.setPrev next (some (.next r)) },
        .goto (.constructor r .writeHead))
  | .writeHead =>
      some ({ m with links := m.links.write .head (some r) }, .goto (.constructor r .unlock))
  | .unlock =>
      some ({ m with state := 0 }.record [.released (thread, depth), .pushed r],
        .goto (.constructor r .setState))
  | .setState =>
      some (({ m with registered := Function.update m.registered r true }.setLife r .alive).record
        [.constructed r thread], .ret)
  | .invoke => some (m.record [.invoked r thread], .goto (.constructor r .callback))
  | .callback => none

/-- `inplace_stop_callback::~inplace_stop_callback` and `remove_callback`. -/
def destructorStep (thread : Thread) (rest : List (Frame Thread Record Client)) (weak : Bool)
    (m : Memory Thread Record) (r : Record) :
    DestructorPc Thread Record → Option (Memory Thread Record × Next Thread Record Client)
  | .readState =>
      if m.registered r then some (m, .goto (.destructor r (.lock .load)))
      else some (m.finishDestructor thread rest r, .ret)
  | .lock pc =>
      match lock weak m.state pc with
      | .again pc => some (m, .goto (.destructor r (.lock pc)))
      | .acquired prev next =>
          some ({ m with state := next }.record [.acquired (thread, rest.length)],
            .goto (.destructor r (.readPrevPtr prev)))
      | .refused => none
  | .readPrevPtr saved =>
      match m.links.prev r with
      | some slot => some (m, .goto (.destructor r (.readNext saved slot)))
      | none => some (m, .goto (.destructor r (.readRequester saved)))
  | .readNext saved slot =>
      some (m, .goto (.destructor r (.writeSlot saved slot (m.links.next r))))
  | .writeSlot saved slot next =>
      some ({ m with links := m.links.write slot next }, .goto (.destructor r (.rereadNext saved)))
  | .rereadNext saved =>
      match m.links.next r with
      | none => some (m, .goto (.destructor r (.unlock saved)))
      | some next => some (m, .goto (.destructor r (.rereadPrevPtr saved next)))
  | .rereadPrevPtr saved next =>
      some (m, .goto (.destructor r (.writeNextPrevPtr saved next (m.links.prev r))))
  | .writeNextPrevPtr saved next prevPtr =>
      some ({ m with links := m.links.setPrev next prevPtr }, .goto (.destructor r (.unlock saved)))
  | .unlock saved =>
      some (({ m with state := saved }.record
        [.released (thread, rest.length), .unlinked r]).finishDestructor thread rest r, .ret)
  | .readRequester saved =>
      some (m, .goto (.destructor r (.unlockPopped saved m.requesterThread)))
  | .unlockPopped saved notifier =>
      some ({ m with state := saved }.record [.released (thread, rest.length)],
        .goto (.destructor r (if notifier = some thread then .readFlag else .waitCompleted)))
  | .readFlag =>
      match m.removedDuringCallback r with
      | none => some (m.finishDestructor thread rest r, .ret)
      | some flag => some (m, .goto (.destructor r (.writeFlag flag)))
  | .writeFlag flag => some (m.finishDestructor thread rest r, .flagAndRet flag)
  | .waitCompleted =>
      if m.completed r then some (m.finishDestructor thread rest r, .ret)
      else some (m, .goto (.destructor r .waitCompleted))

/-- `inplace_stop_source::request_stop`. -/
def requestStopStep (thread : Thread) (depth : Nat) (weak : Bool) (m : Memory Thread Record) :
    RequestPc Record → Option (Memory Thread Record × Next Thread Record Client)
  | .tryLock pc =>
      match tryLockUnlessStopRequested true weak m.state pc with
      | .again pc => some (m, .goto (.requestStop (.tryLock pc)))
      | .acquired _ next =>
          some ({ m with state := next }.record [.acquired (thread, depth), .claimed (thread, depth)],
            .goto (.requestStop .setRequester))
      | .refused => some (m.record [.stopReturned thread false], .ret)
  | .setRequester =>
      some ({ m with requesterThread := some thread }, .goto (.requestStop .readHead))
  | .readHead =>
      match m.links.head with
      | none => some (m, .goto (.requestStop .finalUnlock))
      | some r => some (m, .goto (.requestStop (.clearPrevPtr r)))
  | .clearPrevPtr r =>
      some ({ m with links := m.links.setPrev r none }, .goto (.requestStop (.readNext r)))
  | .readNext r => some (m, .goto (.requestStop (.writeHead r (m.links.next r))))
  | .writeHead r next =>
      some ({ m with links := m.links.write .head next }, .goto (.requestStop (.rereadHead r)))
  | .rereadHead r =>
      match m.links.head with
      | none => some (m, .goto (.requestStop (.setFlag r)))
      | some head => some (m, .goto (.requestStop (.writeHeadPrevPtr r head)))
  | .writeHeadPrevPtr r head =>
      some ({ m with links := m.links.setPrev head (some .head) }, .goto (.requestStop (.setFlag r)))
  | .setFlag r =>
      some ({ m with
          removedDuringCallback := Function.update m.removedDuringCallback r (some (thread, depth)) },
        .goto (.requestStop (.openLock r)))
  | .openLock r =>
      some ({ m with state := stopRequestedBit }.record [.released (thread, depth), .popped r],
        .goto (.requestStop (.invoke r)))
  | .invoke r => some (m.record [.invoked r thread], .goto (.requestStop (.callback r false)))
  | .callback _ _ => none
  | .clearFlag r =>
      some ({ m with removedDuringCallback := Function.update m.removedDuringCallback r none },
        .goto (.requestStop (.setCompleted r)))
  | .setCompleted r =>
      some ({ m with completed := Function.update m.completed r true }.record [.finalized r],
        .goto (.requestStop (.relock .load)))
  | .relock pc =>
      match lock weak m.state pc with
      | .again pc => some (m, .goto (.requestStop (.relock pc)))
      | .acquired _ next =>
          some ({ m with state := next }.record [.acquired (thread, depth)],
            .goto (.requestStop .readHead))
      | .refused => none
  | .finalUnlock =>
      some ({ m with state := stopRequestedBit }.record
        [.released (thread, depth), .stopReturned thread true], .ret)

/-- One access by the top frame of a thread. -/
def Frame.step (thread : Thread) (rest : List (Frame Thread Record Client)) (weak : Bool)
    (m : Memory Thread Record) :
    Frame Thread Record Client → Option (Memory Thread Record × Next Thread Record Client)
  | .constructor r pc => constructorStep thread rest.length weak m r pc
  | .destructor r pc => destructorStep thread rest weak m r pc
  | .requestStop pc => requestStopStep thread rest.length weak m pc
  | .client _ => none

structure State (Thread Record Client : Type) where
  memory : Memory Thread Record
  stack : Thread → List (Frame Thread Record Client)

namespace State

def initial : State Thread Record Client := ⟨.empty, fun _ => []⟩

/-- User code is in control of the thread. -/
def atUser (s : State Thread Record Client) (t : Thread) : Bool :=
  match s.stack t with
  | [] => true
  | frame :: _ => frame.isUser

def setStack (s : State Thread Record Client) (t : Thread)
    (stack : List (Frame Thread Record Client)) : State Thread Record Client :=
  { s with stack := Function.update s.stack t stack }

def setMemory (s : State Thread Record Client) (m : Memory Thread Record) :
    State Thread Record Client :=
  { s with memory := m }

def push (s : State Thread Record Client) (t : Thread) (frame : Frame Thread Record Client) :
    State Thread Record Client :=
  s.setStack t (frame :: s.stack t)

/-- Continue below a top frame that has made its step. -/
def apply (s : State Thread Record Client) (t : Thread) (rest : List (Frame Thread Record Client)) :
    Next Thread Record Client → State Thread Record Client
  | .goto frame => s.setStack t (frame :: rest)
  | .ret => s.setStack t rest
  | .flagAndRet flag =>
      let popped := s.setStack t rest
      popped.setStack flag.1 (CallStack.modifyAt Frame.markRemoved (popped.stack flag.1) flag.2)

end State

/-- `run` lets the top frame make one access; `ret` ends the callback body on
top of the stack; the others are calls and frame changes made by user code. -/
inductive Action (Thread Record Client : Type)
  | run (thread : Thread) (weak : Bool)
  | ret (thread : Thread)
  | requestStop (thread : Thread)
  | construct (thread : Thread) (record : Record)
  | destroy (thread : Thread) (record : Record)
  | enter (thread : Thread) (client : Client)
  | become (thread : Thread) (client : Client)
  | leave (thread : Thread)
  deriving DecidableEq

/-- A registration may be constructed once, and destroyed once its constructor
has returned: the lifetime rules of the language. -/
def step (s : State Thread Record Client) :
    Action Thread Record Client → Option (State Thread Record Client)
  | .run t weak =>
      match s.stack t with
      | [] => none
      | frame :: rest =>
          match frame.step t rest weak s.memory with
          | none => none
          | some (m, next) => some ((s.setMemory m).apply t rest next)
  | .ret t =>
      match s.stack t with
      | .constructor r .callback :: rest =>
          some ((s.setMemory ((s.memory.setLife r .alive).record
            [.constructed r t, .returned r t])).setStack t rest)
      | .requestStop (.callback r true) :: rest =>
          some ((s.setMemory (s.memory.record [.abandoned r, .returned r t])).setStack t
            (.requestStop (.relock .load) :: rest))
      | .requestStop (.callback r false) :: rest =>
          some ((s.setMemory (s.memory.record [.returned r t])).setStack t
            (.requestStop (.clearFlag r) :: rest))
      | _ => none
  | .requestStop t =>
      if s.atUser t then some (s.push t (.requestStop (.tryLock .load))) else none
  | .construct t r =>
      if s.atUser t ∧ s.memory.life r = .unborn then
        some ((s.setMemory (s.memory.setLife r (.constructing (t, (s.stack t).length)))).push t
          (.constructor r (.tryLock .load)))
      else none
  | .destroy t r =>
      if s.atUser t ∧ s.memory.life r = .alive then
        some ((s.setMemory (s.memory.setLife r (.destroying (t, (s.stack t).length)))).push t
          (.destructor r .readState))
      else none
  | .enter t c => if s.atUser t then some (s.push t (.client c)) else none
  | .become t c =>
      match s.stack t with
      | .client _ :: rest => some (s.setStack t (.client c :: rest))
      | _ => none
  | .leave t =>
      match s.stack t with
      | .client _ :: rest => some (s.setStack t rest)
      | _ => none

/-- Any number of threads and registrations on one live stop source. -/
def machine (Thread Record Client : Type) [DecidableEq Thread] [DecidableEq Record] :
    Machine (State Thread Record Client) (Action Thread Record Client) where
  initial s := s = .initial
  step := step

end Bexec.StopToken
