import Bexec.CountingScope.Word
import Bexec.Foundation.Census
import Bexec.Foundation.Chain
import Bexec.Foundation.Machine

/-!
# Steps of a counting scope

One `simple_counting_scope`, the association handles created from it and the
join operations started on it. A step makes one access to `word_` or to
`joiners_`, with the local computation around it. User code runs on an empty
stack and inside `complete_deferred`, which starts a schedule operation that
may complete inline.
-/

namespace Bexec.CountingScope

open Foundation

/-- `joiners_`: a list of waiters, or the scope's own address once drained. -/
inductive Joiners (Join : Type)
  | list (head : Option Join)
  | sentinel
  deriving DecidableEq

/-- What a call of `disassociate` returns to: a destructor, or a move
assignment that still has to take over its source. -/
inductive After (Handle : Type)
  | done
  | transfer (target source : Handle)
  deriving DecidableEq

/-- `bits` and `head` are the local copies of `word_` and `joiners_`, absent
before the first load. -/
inductive Frame (Handle Join : Type)
  | tryAssociate (target : Handle) (source : Option Handle) (bits : Option Word)
  | disassociate (after : After Handle) (bits : Option Word)
  | completeRegisteredJoins (after : After Handle)
  | drain (after : After Handle) (list : Option Join)
  | completeDeferred (after : After Handle) (list : Option Join)
  | transfer (target source : Handle)
  | startJoin (waiter : Join) (bits : Option Word)
  | registerJoiner (waiter : Join) (head : Option (Joiners Join))
  deriving DecidableEq

inductive Event (Handle Join : Type)
  | associated (handle : Handle)
  | rejected (handle : Handle)
  | disassociated
  | started (join : Join)
  | linked (join : Join)
  | completed (join : Join)
  | drained
  deriving DecidableEq

variable {Thread Handle Join : Type} [Fintype Thread] [DecidableEq Thread] [DecidableEq Handle]
  [DecidableEq Join]

def After.writes (h : Handle) : After Handle → Bool
  | .done => false
  | .transfer target source => target = h || source = h

namespace Frame

/-- The operation is constructing, assigning or moving from the handle. -/
def writes (h : Handle) : Frame Handle Join → Bool
  | .tryAssociate target _ _ => target = h
  | .disassociate after _ => after.writes h
  | .completeRegisteredJoins after => after.writes h
  | .drain after _ => after.writes h
  | .completeDeferred after _ => after.writes h
  | .transfer target source => target = h || source = h
  | _ => false

/-- The operation is associating through the handle. -/
def reads (h : Handle) : Frame Handle Join → Bool
  | .tryAssociate _ (some source) _ => source = h
  | _ => false

/-- The handle that gave up its association has not yet decremented the count. -/
def releasing : Frame Handle Join → Bool
  | .disassociate _ _ => true
  | _ => false

end Frame

structure State (Thread Handle Join : Type) where
  word : Word
  joiners : Joiners Join
  /-- `scope_join_waiter::next`. -/
  next : Join → Option Join
  /-- Handles within their lifetime. -/
  present : Finset Handle
  /-- Handles with a non-null `scope_`. -/
  engaged : Finset Handle
  stack : Thread → List (Frame Handle Join)
  log : List (Event Handle Join)

namespace State

def initial : State Thread Handle Join where
  word := 0
  joiners := .list none
  next := fun _ => none
  present := ∅
  engaged := ∅
  stack := fun _ => []
  log := []

def setStack (s : State Thread Handle Join) (t : Thread) (frames : List (Frame Handle Join)) :
    State Thread Handle Join :=
  { s with stack := Function.update s.stack t frames }

def record (s : State Thread Handle Join) (event : Event Handle Join) : State Thread Handle Join :=
  { s with log := event :: s.log }

/-- User code is in control of the thread. -/
def atUser (s : State Thread Handle Join) (t : Thread) : Bool :=
  match s.stack t with
  | [] => true
  | .completeDeferred _ _ :: _ => true
  | _ => false

/-- No operation in progress writes the handle. -/
def readable (s : State Thread Handle Join) (h : Handle) : Bool :=
  CallStack.census (Frame.writes h) s.stack = 0

/-- No operation in progress uses the handle. -/
def free (s : State Thread Handle Join) (h : Handle) : Bool :=
  s.readable h && CallStack.census (Frame.reads h) s.stack = 0

/-- A handle begins its lifetime. -/
def emplace (s : State Thread Handle Join) (h : Handle) (engaged : Bool) : State Thread Handle Join :=
  { s with
    present := insert h s.present
    engaged := if engaged then insert h s.engaged else s.engaged }

/-- `std::exchange(other.scope_, nullptr)` assigned to the target. -/
def transfer (s : State Thread Handle Join) (target source : Handle) : State Thread Handle Join :=
  { s with
    engaged := if source ∈ s.engaged then insert target (s.engaged.erase source)
      else s.engaged.erase target }

end State

/-- What remains of the operation that called `disassociate`. -/
def After.resume (after : After Handle) (rest : List (Frame Handle Join)) :
    List (Frame Handle Join) :=
  match after with
  | .done => rest
  | .transfer target source => .transfer target source :: rest

/-- The word `disassociate` tries to install. -/
def disassociated (bits : Word) : Word :=
  if countOf bits - 1 = 0 ∧ isJoining bits = true then closedBit
  else makeWord (countOf bits - 1) (stateOf bits)

namespace State

/-- `simple_counting_scope::try_associate`; the caller constructs the handle
from its result. -/
def tryAssociate (s : State Thread Handle Join) (t : Thread) (rest : List (Frame Handle Join))
    (weak : Bool) (target : Handle) (source : Option Handle) :
    Option Word → State Thread Handle Join
  | none => s.setStack t (.tryAssociate target source (some s.word) :: rest)
  | some bits =>
      if isClosed bits || countOf bits = maxAssociations then
        ((s.emplace target false).record (.rejected target)).setStack t rest
      else if s.word = bits ∧ weak = false then
        (({ s with word := makeWord (countOf bits + 1) (stateOf bits ||| joinNeededBit) }.emplace
          target true).record (.associated target)).setStack t rest
      else s.setStack t (.tryAssociate target source (some s.word) :: rest)

/-- `simple_counting_scope::disassociate`. -/
def disassociate (s : State Thread Handle Join) (t : Thread) (rest : List (Frame Handle Join))
    (weak : Bool) (after : After Handle) : Option Word → State Thread Handle Join
  | none => s.setStack t (.disassociate after (some s.word) :: rest)
  | some bits =>
      if s.word = bits ∧ weak = false then
        ({ s with word := disassociated bits }.record .disassociated).setStack t
          (if isJoined (disassociated bits) then .completeRegisteredJoins after :: rest
          else after.resume rest)
      else s.setStack t (.disassociate after (some s.word) :: rest)

/-- `simple_counting_scope::complete_registered_joins`: one turn of its loop. -/
def drain (s : State Thread Handle Join) (t : Thread) (rest : List (Frame Handle Join))
    (after : After Handle) : Option Join → State Thread Handle Join
  | none => s.setStack t (after.resume rest)
  | some waiter =>
      (s.record (.completed waiter)).setStack t (.completeDeferred after (s.next waiter) :: rest)

/-- `simple_counting_scope::start_join`. -/
def startJoin (s : State Thread Handle Join) (t : Thread) (rest : List (Frame Handle Join))
    (weak : Bool) (waiter : Join) : Option Word → State Thread Handle Join
  | none => s.setStack t (.startJoin waiter (some s.word) :: rest)
  | some bits =>
      if s.word = bits ∧ weak = false then
        if countOf bits = 0 then
          ({ s with word := closedBit }.record (.completed waiter)).setStack t rest
        else
          { s with word := bits ||| joinRunningBit }.setStack t (.registerJoiner waiter none :: rest)
      else s.setStack t (.startJoin waiter (some s.word) :: rest)

/-- `simple_counting_scope::register_joiner`; on false the join completes inline. -/
def registerJoiner (s : State Thread Handle Join) (t : Thread) (rest : List (Frame Handle Join))
    (weak : Bool) (waiter : Join) : Option (Joiners Join) → State Thread Handle Join
  | none => s.setStack t (.registerJoiner waiter (some s.joiners) :: rest)
  | some .sentinel => (s.record (.completed waiter)).setStack t rest
  | some (.list head) =>
      if s.joiners = .list head ∧ weak = false then
        ({ s with next := Function.update s.next waiter head, joiners := .list (some waiter) }.record
          (.linked waiter)).setStack t rest
      else
        { s with next := Function.update s.next waiter head }.setStack t
          (.registerJoiner waiter (some s.joiners) :: rest)

end State

/-- One step of the operation on top of a stack. -/
def Frame.step (s : State Thread Handle Join) (t : Thread) (rest : List (Frame Handle Join))
    (weak : Bool) : Frame Handle Join → Option (State Thread Handle Join)
  | .tryAssociate target source bits => some (s.tryAssociate t rest weak target source bits)
  | .disassociate after bits => some (s.disassociate t rest weak after bits)
  | .completeRegisteredJoins after =>
      match s.joiners with
      | .list head =>
          some (({ s with joiners := .sentinel }.record .drained).setStack t
            (.drain after head :: rest))
      | .sentinel => none
  | .drain after list => some (s.drain t rest after list)
  | .completeDeferred _ _ => none
  | .transfer target source => some ((s.transfer target source).setStack t rest)
  | .startJoin waiter bits => some (s.startJoin t rest weak waiter bits)
  | .registerJoiner waiter head => some (s.registerJoiner t rest weak waiter head)

inductive Action (Thread Handle Join : Type)
  | run (thread : Thread) (weak : Bool)
  | ret (thread : Thread)
  | create (thread : Thread) (handle : Handle)
  | associate (thread : Thread) (handle : Handle)
  | associateFrom (thread : Thread) (handle source : Handle)
  | moveConstruct (thread : Thread) (handle source : Handle)
  | moveAssign (thread : Thread) (handle source : Handle)
  | destroy (thread : Thread) (handle : Handle)
  | close (thread : Thread)
  | join (thread : Thread) (join : Join)
  | reuse (join : Join) (next : Option Join)
  deriving DecidableEq

/-- A handle is used by one operation at a time, except that several may
associate through it. A join operation is started once, and its storage is free
for reuse once it has completed. -/
def step (s : State Thread Handle Join) :
    Action Thread Handle Join → Option (State Thread Handle Join)
  | .run t weak =>
      match s.stack t with
      | [] => none
      | frame :: rest => frame.step s t rest weak
  | .ret t =>
      match s.stack t with
      | .completeDeferred after list :: rest => some (s.setStack t (.drain after list :: rest))
      | _ => none
  | .create t h =>
      if s.atUser t ∧ h ∉ s.present ∧ s.free h then some (s.emplace h false) else none
  | .associate t h =>
      if s.atUser t ∧ h ∉ s.present ∧ s.free h then
        some (s.setStack t (.tryAssociate h none none :: s.stack t))
      else none
  | .associateFrom t h source =>
      if s.atUser t ∧ h ∉ s.present ∧ s.free h ∧ source ∈ s.present ∧ s.readable source then
        if source ∈ s.engaged then
          some (s.setStack t (.tryAssociate h (some source) none :: s.stack t))
        else some (s.emplace h false)
      else none
  | .moveConstruct t h source =>
      if s.atUser t ∧ h ∉ s.present ∧ s.free h ∧ source ∈ s.present ∧ s.free source then
        some ((s.emplace h false).transfer h source)
      else none
  | .moveAssign t h source =>
      if s.atUser t ∧ h ∈ s.present ∧ s.free h ∧ source ∈ s.present ∧ s.free source then
        if h = source then some s
        else if h ∈ s.engaged then
          some ({ s with engaged := s.engaged.erase h }.setStack t
            (.disassociate (.transfer h source) none :: s.stack t))
        else some (s.transfer h source)
      else none
  | .destroy t h =>
      if s.atUser t ∧ h ∈ s.present ∧ s.free h then
        if h ∈ s.engaged then
          some ({ s with present := s.present.erase h, engaged := s.engaged.erase h }.setStack t
            (.disassociate .done none :: s.stack t))
        else some { s with present := s.present.erase h }
      else none
  | .close t => if s.atUser t then some { s with word := s.word ||| closedBit } else none
  | .join t j =>
      if s.atUser t ∧ .started j ∉ s.log then
        some ((s.record (.started j)).setStack t (.startJoin j none :: s.stack t))
      else none
  | .reuse j next =>
      if .completed j ∈ s.log then some { s with next := Function.update s.next j next } else none

/-- Any number of threads, handles and joins on one live scope. -/
def machine (Thread Handle Join : Type) [Fintype Thread] [DecidableEq Thread] [DecidableEq Handle]
    [DecidableEq Join] : Machine (State Thread Handle Join) (Action Thread Handle Join) where
  initial s := s = .initial
  step := step

end Bexec.CountingScope
