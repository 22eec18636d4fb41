import Bexec.StopToken.Memory

/-!
# What the history determines

The logical list, the lock owner, the claim and the position of each record in
its life cycle are functions of the log. The protocol's fields are compared
with them.
-/

namespace Bexec.StopToken

open Foundation

variable {Thread Record : Type}

/-- Position of a record in its life cycle. `gone` is a record destroyed inside
its own callback, `inline` one whose callback ran on the registering thread. -/
inductive Phase
  | fresh
  | linked
  | unlinked
  | executing
  | finished
  | gone
  | inline
  deriving DecidableEq, Repr

/-- Taken out of the list by the notifying thread. -/
def Phase.popped : Phase → Bool
  | .executing | .finished | .gone => true
  | _ => false

/-- Threads that failed to register a record, entered and left its callback. -/
@[ext] structure Trail (Thread : Type) where
  failed : List Thread
  invoked : List Thread
  returned : List Thread

namespace Event

def ownerAfter (old : Option (FrameId Thread)) : Event Thread Record → Option (FrameId Thread)
  | .acquired frame => some frame
  | .released _ => none
  | _ => old

def claimerAfter (old : Option (FrameId Thread)) : Event Thread Record → Option (FrameId Thread)
  | .claimed frame => some frame
  | _ => old

def activeAfter (old : Option (FrameId Thread)) : Event Thread Record → Option (FrameId Thread)
  | .claimed frame => some frame
  | .stopReturned _ true => none
  | _ => old

def won : Event Thread Record → Option Thread
  | .stopReturned t true => some t
  | _ => none

section Records

variable [DecidableEq Record]

def phaseAfter (r : Record) (old : Phase) : Event Thread Record → Phase
  | .pushed r' => if r' = r then .linked else old
  | .unlinked r' => if r' = r then .unlinked else old
  | .popped r' => if r' = r then .executing else old
  | .finalized r' => if r' = r then .finished else old
  | .abandoned r' => if r' = r then .gone else old
  | .addFailed r' _ => if r' = r then .inline else old
  | _ => old

def trailAfter (r : Record) (old : Trail Thread) : Event Thread Record → Trail Thread
  | .addFailed r' t => if r' = r then { old with failed := t :: old.failed } else old
  | .invoked r' t => if r' = r then { old with invoked := t :: old.invoked } else old
  | .returned r' t => if r' = r then { old with returned := t :: old.returned } else old
  | _ => old

def linkedAfter (old : List Record) : Event Thread Record → List Record
  | .pushed r => r :: old
  | .unlinked r => old.erase r
  | .popped r => old.erase r
  | _ => old

end Records

end Event

variable (log : List (Event Thread Record))

/-- The frame between acquiring the lock bit and releasing it. -/
def owner : Option (FrameId Thread) :=
  log.foldr (fun event old => event.ownerAfter old) none

/-- The frame that won the claim, also after it has returned. -/
def claimer : Option (FrameId Thread) :=
  log.foldr (fun event old => event.claimerAfter old) none

/-- The frame that won the claim and has not returned. -/
def active : Option (FrameId Thread) :=
  log.foldr (fun event old => event.activeAfter old) none

/-- The threads whose calls of `request_stop` returned true, one entry for each
such call. -/
def wins : List Thread := log.filterMap Event.won

section Records

variable [DecidableEq Record]

def phase (r : Record) : Phase :=
  log.foldr (fun event old => event.phaseAfter r old) .fresh

def trail (r : Record) : Trail Thread :=
  log.foldr (fun event old => event.trailAfter r old) ⟨[], [], []⟩

/-- The logical list, most recently registered record first. -/
def linked : List Record :=
  log.foldr (fun event old => event.linkedAfter old) []

end Records

variable {log}

section Simp

variable (log) (r : Record) (event : Event Thread Record)

@[simp] theorem owner_cons : owner (event :: log) = event.ownerAfter (owner log) := rfl
@[simp] theorem claimer_cons : claimer (event :: log) = event.claimerAfter (claimer log) := rfl
@[simp] theorem active_cons : active (event :: log) = event.activeAfter (active log) := rfl

@[simp] theorem wins_cons : wins (event :: log) = event.won.toList ++ wins log := by
  cases hwon : event.won <;> simp [wins, hwon]

variable [DecidableEq Record]

@[simp] theorem phase_cons : phase (event :: log) r = event.phaseAfter r (phase log r) := rfl
@[simp] theorem trail_cons : trail (event :: log) r = event.trailAfter r (trail log r) := rfl
@[simp] theorem linked_cons : linked (event :: log) = event.linkedAfter (linked log) := rfl

end Simp

attribute [simp] Event.phaseAfter Event.trailAfter Event.linkedAfter
  Event.ownerAfter Event.claimerAfter Event.activeAfter Event.won Phase.popped

/-- The callback was entered at most once, and only by the registering thread if
that thread failed to register. -/
def Trail.Legal (trail : Trail Thread) (phase : Phase) : Prop :=
  trail.invoked.length ≤ 1 ∧ ∀ t ∈ trail.failed, phase = .inline ∧
    trail.failed = [t] ∧ ∀ u ∈ trail.invoked, u = t

namespace Trail

@[simp] theorem legal_silent (returned : List Thread) (phase : Phase) :
    Legal ⟨[], [], returned⟩ phase := by
  simp [Legal]

@[simp] theorem legal_notified (c : Thread) (returned : List Thread) (phase : Phase) :
    Legal ⟨[], [c], returned⟩ phase := by
  simp [Legal]

@[simp] theorem legal_failed (t : Thread) (returned : List Thread) :
    Legal ⟨[t], [], returned⟩ .inline := by
  simp [Legal]

@[simp] theorem legal_inline (t : Thread) (returned : List Thread) :
    Legal ⟨[t], [t], returned⟩ .inline := by
  simp [Legal]

end Trail

/-- The concrete link fields represent the logical list. A record unlinked by
its destructor keeps a stale back-pointer; every other unlinked one has none. -/
structure LinksInv [DecidableEq Record] (log : List (Event Thread Record))
    (links : Links Record) : Prop where
  represents : links.Represents (linked log)
  prev_none : ∀ r, phase log r ≠ .linked → phase log r ≠ .unlinked → links.prev r = none

/-- The state word with the given bits. -/
def encode (requested locked : Bool) : Word :=
  (if requested then stopRequestedBit else 0) ||| (if locked then lockedBit else 0)

theorem encode_requested (requested locked : Bool) :
    encode requested locked &&& stopRequestedBit ≠ 0 ↔ requested = true := by
  cases requested <;> cases locked <;> decide

theorem encode_locked (requested locked : Bool) :
    encode requested locked &&& lockedBit ≠ 0 ↔ locked = true := by
  cases requested <;> cases locked <;> decide

theorem encode_eq_zero (requested locked : Bool) :
    encode requested locked = 0 ↔ requested = false ∧ locked = false := by
  cases requested <;> cases locked <;> decide

theorem encode_or_locked (requested : Bool) :
    encode requested false ||| lockedBit = encode requested true := by
  cases requested <;> decide

theorem encode_claim : lockedBit ||| stopRequestedBit = encode true true := by decide

theorem encode_push : lockedBit = encode false true := by decide

theorem encode_open : stopRequestedBit = encode true false := by decide

theorem encode_idle : (0 : Word) = encode false false := by decide

/-- A spin loop acquires the lock by changing the word from the value it returns. -/
theorem lock_acquired {weak : Bool} {state prev next : Word} {pc : Spin}
    (hlock : lock weak state pc = .acquired prev next) :
    state = prev ∧ prev &&& lockedBit = 0 ∧ next = prev ||| lockedBit := by
  cases pc with
  | load => simp [lock] at hlock
  | test loaded =>
      simp only [lock] at hlock
      split at hlock
      · cases hlock
      next hfree =>
        split at hlock
        next hcas =>
          cases hlock
          exact ⟨hcas.1, not_not.mp hfree, rfl⟩
        next => cases hlock

theorem lock_ne_refused {weak : Bool} {state : Word} {pc : Spin} :
    lock weak state pc ≠ .refused := by
  cases pc with
  | load => simp [lock]
  | test loaded =>
      simp only [lock]
      split
      · simp
      · split <;> simp

theorem tryLock_acquired {setRequested weak : Bool} {state prev next : Word} {pc : Spin}
    (hlock : tryLockUnlessStopRequested setRequested weak state pc = .acquired prev next) :
    state = 0 ∧ next = if setRequested then lockedBit ||| stopRequestedBit else lockedBit := by
  cases pc with
  | load => simp [tryLockUnlessStopRequested] at hlock
  | test loaded =>
      simp only [tryLockUnlessStopRequested] at hlock
      split at hlock
      · cases hlock
      · split at hlock
        · cases hlock
        next hzero =>
          split at hlock
          next hcas =>
            cases hlock
            exact ⟨hcas.1.trans (not_not.mp hzero), rfl⟩
          next => cases hlock

/-- A loaded value with the stop bit was read after the claim. -/
def Spin.Sound (log : List (Event Thread Record)) : Spin → Prop
  | .load => True
  | .test prev => prev &&& stopRequestedBit ≠ 0 → (claimer log).isSome

theorem tryLock_again {setRequested weak : Bool} {state : Word} {pc pc' : Spin}
    (hstate : state &&& stopRequestedBit ≠ 0 → (claimer log).isSome)
    (hlock : tryLockUnlessStopRequested setRequested weak state pc = .again pc') :
    pc'.Sound log := by
  cases pc with
  | load =>
      cases hlock
      exact hstate
  | test loaded =>
      simp only [tryLockUnlessStopRequested] at hlock
      split at hlock
      · cases hlock
      · split at hlock
        · cases hlock
          trivial
        · split at hlock
          · cases hlock
          · cases hlock
            exact hstate

theorem tryLock_refused {setRequested weak : Bool} {state : Word} {pc : Spin}
    (hsound : pc.Sound log)
    (hlock : tryLockUnlessStopRequested setRequested weak state pc = .refused) :
    (claimer log).isSome := by
  cases pc with
  | load => simp [tryLockUnlessStopRequested] at hlock
  | test loaded =>
      simp only [tryLockUnlessStopRequested] at hlock
      split at hlock
      next hrequested => exact hsound hrequested
      next =>
        split at hlock
        · cases hlock
        · split at hlock <;> cases hlock

end Bexec.StopToken
