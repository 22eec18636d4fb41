import Bexec.Foundation.CallStack
import Bexec.Foundation.SlotList

/-!
# Memory of one stop source and its callback records

The fields are those of `detail::stop_state`, of `stop_callback_record` and of
`inplace_stop_callback`. A record is identified by its registration, so that an
address reused after a destruction counts as a new record and any access to the
old one stays visible. The life of a record is the C++ lifetime of the
registration object; the log is an auxiliary history, newest event first.
-/

namespace Bexec.StopToken

open Foundation

/-- `std::atomic<std::uint8_t>`: bit 0 is the stop flag, bit 1 the spinlock. -/
abbrev Word := BitVec 8

def stopRequestedBit : Word := 1
def lockedBit : Word := 2

/-- Position inside a spin loop: before `state.load`, or with a loaded `prev`. -/
inductive Spin
  | load
  | test (prev : Word)
  deriving DecidableEq, Repr

/-- Outcome of one access of a spin loop. Only `acquired` changes the word. -/
inductive SpinResult
  | again (pc : Spin)
  | acquired (prev next : Word)
  | refused
  deriving DecidableEq, Repr

/-- One access of `stop_state::lock`. `weak` makes the compare-exchange fail
although the word matches. -/
def lock (weak : Bool) (state : Word) : Spin → SpinResult
  | .load => .again (.test state)
  | .test prev =>
      if prev &&& lockedBit ≠ 0 then .again .load
      else if state = prev ∧ weak = false then .acquired prev (prev ||| lockedBit)
      else .again (.test state)

/-- One access of `stop_state::try_lock_unless_stop_requested`. -/
def tryLockUnlessStopRequested (setRequested weak : Bool) (state : Word) : Spin → SpinResult
  | .load => .again (.test state)
  | .test prev =>
      if prev &&& stopRequestedBit ≠ 0 then .refused
      else if prev ≠ 0 then .again .load
      else if state = prev ∧ weak = false then
        .acquired prev (if setRequested then lockedBit ||| stopRequestedBit else lockedBit)
      else .again (.test state)

/-- Lifetime of a registration object. Construction and destruction name the
frame that performs them. -/
inductive Life (Thread : Type)
  | unborn
  | constructing (frame : FrameId Thread)
  | alive
  | destroying (frame : FrameId Thread)
  | destroyed
  deriving DecidableEq

/-- What the history remembers about a step. -/
inductive Event (Thread Record : Type)
  | acquired (frame : FrameId Thread)
  | released (frame : FrameId Thread)
  | claimed (frame : FrameId Thread)
  | stopReturned (thread : Thread) (won : Bool)
  | pushed (record : Record)
  | unlinked (record : Record)
  | popped (record : Record)
  | finalized (record : Record)
  | abandoned (record : Record)
  | addFailed (record : Record) (thread : Thread)
  | invoked (record : Record) (thread : Thread)
  | returned (record : Record) (thread : Thread)
  | constructed (record : Record) (thread : Thread)
  | destroyed (record : Record) (thread : Thread) (inside : Bool)
  deriving DecidableEq

structure Memory (Thread Record : Type) where
  state : Word
  links : Links Record
  requesterThread : Option Thread
  /-- `removed_during_callback`: the address of a flag local to a frame. -/
  removedDuringCallback : Record → Option (FrameId Thread)
  completed : Record → Bool
  /-- `inplace_stop_callback::state_ != nullptr`. -/
  registered : Record → Bool
  life : Record → Life Thread
  log : List (Event Thread Record)

namespace Memory

variable {Thread Record : Type} [DecidableEq Record]

def empty : Memory Thread Record where
  state := 0
  links := .empty
  requesterThread := none
  removedDuringCallback := fun _ => none
  completed := fun _ => false
  registered := fun _ => false
  life := fun _ => .unborn
  log := []

def record (m : Memory Thread Record) (events : List (Event Thread Record)) :
    Memory Thread Record :=
  { m with log := events ++ m.log }

def setLife (m : Memory Thread Record) (r : Record) (life : Life Thread) : Memory Thread Record :=
  { m with life := Function.update m.life r life }

end Memory

end Bexec.StopToken
