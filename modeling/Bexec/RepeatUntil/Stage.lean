import Bexec.RepeatUntil.Loop

/-!
# Stages of an iteration

An operation is always at a stage of its current iteration: one thread opens it,
the drain loop and the child meet at the exchange, and the loser of the exchange
closes it. A stage and its iteration determine the state up to the log.
-/

namespace Bexec.RepeatUntil

variable {Thread Value Error Exception : Type}

/-- Up to the start of the child. -/
inductive Opening (Exception : Type)
  | resetCurrent
  | queryStop
  | loadEpoch
  | emplace
  | startChild
  | stopped
  | threw (pointer : Exception)

/-- What the loser of the exchange has left to do. -/
inductive Closing (Exception : Type)
  | process
  | callPredicate
  | resetStored
  | completeStored
  | threw (pointer : Exception)

inductive DrainSide (Thread : Type)
  | starting (t : Thread)
  | exchanging (t : Thread)
  | left

inductive ChildSide (Thread : Type)
  | running
  | storing (t : Thread)
  | exchanging (t : Thread)
  | left

/-- One side has already advanced the epoch. -/
def advanced : DrainSide Thread → ChildSide Thread → Bool
  | .left, _ => true
  | _, .left => true
  | _, _ => false

@[simp] theorem advanced_left (child : ChildSide Thread) : advanced .left child = true := rfl

@[simp] theorem advanced_of_left (drain : DrainSide Thread) : advanced drain .left = true := by
  cases drain <;> rfl

theorem advanced_eq_false (drain : DrainSide Thread) (child : ChildSide Thread)
    (hdrain : drain ≠ .left) (hchild : child ≠ .left) : advanced drain child = false := by
  cases drain <;> cases child <;> first | rfl | contradiction

/-- How the operation was completed. -/
inductive Ending (Exception : Type)
  | stopped
  | failed (pointer : Exception)
  | stored (who : Participant)
  | threw (who : Participant) (pointer : Exception)

inductive Stage (Thread Exception : Type)
  | idle
  | opening (t : Thread) (place : Opening Exception)
  | rendezvous (drain : DrainSide Thread) (child : ChildSide Thread)
  | closing (t : Thread) (who : Participant) (place : Closing Exception)
  | finished (ending : Ending Exception)
  | terminated

/-- The value of `epoch_` when iteration `n` begins. -/
def epochOf (n : Nat) : Epoch := BitVec.ofNat 64 n

@[simp] theorem epochOf_add_one (n : Nat) : epochOf n + 1#64 = epochOf (n + 1) := by
  simp [epochOf, BitVec.ofNat_add]

@[simp] theorem epochOf_succ_ne (n : Nat) : epochOf (n + 1) ≠ epochOf n := by
  intro heq
  have hnat := congrArg BitVec.toNat heq
  simp only [epochOf, BitVec.toNat_ofNat] at hnat
  omega

/-- Every child before the `n`-th has completed. -/
def childrenAt (n : Nat) (child : Child) : Nat → Child := fun k =>
  if k < n then .completed else if k = n then child else .absent

@[simp] theorem childrenAt_self (n : Nat) (child : Child) : childrenAt n child n = child := by
  simp [childrenAt]

@[simp] theorem update_childrenAt (n : Nat) (child next : Child) :
    Function.update (childrenAt n child) n next = childrenAt n next := by
  funext k
  by_cases hk : k = n
  · subst hk
    simp
  · simp [childrenAt, hk]

@[simp] theorem childrenAt_zero : childrenAt 0 .absent = fun _ => .absent := by
  funext k
  simp [childrenAt]

theorem childrenAt_succ (n : Nat) : childrenAt (n + 1) .absent = childrenAt n .completed := by
  funext k
  simp only [childrenAt]
  split_ifs <;> first | rfl | omega

/-- A running child is the current one. -/
theorem childrenAt_running {n k : Nat} {child : Child} {childEpoch : Epoch}
    (hk : childrenAt n child k = .running childEpoch) : k = n ∧ child = .running childEpoch := by
  unfold childrenAt at hk
  split_ifs at hk with hlt heq
  exact ⟨heq, hk⟩

section Threads

variable [DecidableEq Thread]

/-- Only one thread is running, in the given frame. -/
def alone (t : Thread) (frame : Frame Value Error Exception) :
    Thread → List (Frame Value Error Exception) :=
  fun u => if u = t then [frame] else []

@[simp] theorem alone_self (t : Thread) (frame : Frame Value Error Exception) :
    alone t frame t = [frame] := by
  simp [alone]

theorem alone_eq_cons {t u : Thread} {frame top : Frame Value Error Exception}
    {rest : List (Frame Value Error Exception)} (hu : alone t frame u = top :: rest) :
    u = t ∧ top = frame ∧ rest = [] := by
  unfold alone at hu
  split at hu
  next heq =>
    cases hu
    exact ⟨heq, rfl, rfl⟩
  next => cases hu

@[simp] theorem update_alone (t : Thread) (frame next : Frame Value Error Exception) :
    Function.update (alone t frame) t [next] = alone t next := by
  funext u
  by_cases hu : u = t
  · subst hu
    simp
  · simp [alone, hu]

@[simp] theorem update_alone_nil (t : Thread) (frame : Frame Value Error Exception) :
    Function.update (alone t frame) t [] = fun _ => [] := by
  funext u
  by_cases hu : u = t
  · subst hu
    simp
  · simp [alone, hu]

@[simp] theorem update_nil (t : Thread) (frame : Frame Value Error Exception) :
    Function.update (fun _ => []) t [frame] = alone t frame := by
  funext u
  by_cases hu : u = t
  · subst hu
    simp
  · simp [alone, hu]

theorem stack_push (stack : Thread → List (Frame Value Error Exception)) (t : Thread)
    (frame : Frame Value Error Exception) :
    Function.update stack t (frame :: stack t) = fun u => alone t frame u ++ stack u := by
  funext u
  by_cases hu : u = t
  · subst hu
    simp
  · simp [alone, hu]

theorem stack_replace (stack : Thread → List (Frame Value Error Exception)) (t : Thread)
    (frame next : Frame Value Error Exception) :
    Function.update (fun u => alone t frame u ++ stack u) t (next :: stack t) =
      fun u => alone t next u ++ stack u := by
  funext u
  by_cases hu : u = t
  · subst hu
    simp
  · simp [alone, hu]

theorem stack_pop (stack : Thread → List (Frame Value Error Exception)) (t : Thread)
    (frame : Frame Value Error Exception) :
    Function.update (fun u => alone t frame u ++ stack u) t (stack t) = stack := by
  funext u
  by_cases hu : u = t
  · subst hu
    simp
  · simp [alone, hu]

theorem stack_replace_last {stack : Thread → List (Frame Value Error Exception)} {t : Thread}
    (ht : stack t = []) (frame next : Frame Value Error Exception) :
    Function.update (fun u => stack u ++ alone t frame u) t [next] =
      fun u => stack u ++ alone t next u := by
  funext u
  by_cases hu : u = t
  · subst hu
    simp [ht]
  · simp [alone, hu]

theorem stack_pop_last {stack : Thread → List (Frame Value Error Exception)} {t : Thread}
    (ht : stack t = []) (frame : Frame Value Error Exception) :
    Function.update (fun u => stack u ++ alone t frame u) t [] = stack := by
  funext u
  by_cases hu : u = t
  · subst hu
    simp [ht]
  · simp [alone, hu]

def DrainSide.stack (n : Nat) : DrainSide Thread → Thread → List (Frame Value Error Exception)
  | .starting t => alone t (.childStart n (epochOf n))
  | .exchanging t => alone t (.exchange .drain n (epochOf n))
  | .left => fun _ => []

@[simp] theorem DrainSide.stack_starting (n : Nat) (t : Thread) :
    ((DrainSide.starting t).stack n : Thread → List (Frame Value Error Exception)) =
      alone t (.childStart n (epochOf n)) := rfl

@[simp] theorem DrainSide.stack_exchanging (n : Nat) (t : Thread) :
    ((DrainSide.exchanging t).stack n : Thread → List (Frame Value Error Exception)) =
      alone t (.exchange .drain n (epochOf n)) := rfl

@[simp] theorem DrainSide.stack_left (n : Nat) :
    (DrainSide.left.stack n : Thread → List (Frame Value Error Exception)) = fun _ => [] := rfl

def ChildSide.stack (n : Nat) : ChildSide Thread → Thread → List (Frame Value Error Exception)
  | .running => fun _ => []
  | .storing t => alone t (.store n (epochOf n))
  | .exchanging t => alone t (.exchange .child n (epochOf n))
  | .left => fun _ => []

@[simp] theorem ChildSide.stack_running (n : Nat) :
    (ChildSide.running.stack n : Thread → List (Frame Value Error Exception)) = fun _ => [] := rfl

@[simp] theorem ChildSide.stack_storing (n : Nat) (t : Thread) :
    ((ChildSide.storing t).stack n : Thread → List (Frame Value Error Exception)) =
      alone t (.store n (epochOf n)) := rfl

@[simp] theorem ChildSide.stack_exchanging (n : Nat) (t : Thread) :
    ((ChildSide.exchanging t).stack n : Thread → List (Frame Value Error Exception)) =
      alone t (.exchange .child n (epochOf n)) := rfl

@[simp] theorem ChildSide.stack_left (n : Nat) :
    (ChildSide.left.stack n : Thread → List (Frame Value Error Exception)) = fun _ => [] := rfl

end Threads

@[simp] def ChildSide.child (n : Nat) : ChildSide Thread → Child
  | .running => .running (epochOf n)
  | _ => .completed

/-- The completion has been stored. -/
@[simp] def ChildSide.stored : ChildSide Thread → Bool
  | .running => false
  | .storing _ => false
  | .exchanging _ => true
  | .left => true

namespace Client

variable (client : Client Value Error Exception)

/-- Predicate calls at the end of iteration `n`, which makes one after a value. -/
def predicateCallsAfter (n : Nat) : Nat :=
  match (client.child n).store with
  | .value _ => n + 1
  | _ => n

end Client

namespace Opening

@[simp] def frame (n : Nat) : Opening Exception → Frame Value Error Exception
  | .resetCurrent => .resetCurrent
  | .queryStop => .queryStop
  | .loadEpoch => .loadEpoch
  | .emplace => .emplace (epochOf n)
  | .startChild => .startChild (epochOf n)
  | .stopped => .complete .stopped
  | .threw pointer => .complete (.exception pointer)

/-- The previous child is still in `current_` until it is reset. -/
@[simp] def current (n : Nat) : Opening Exception → Option Nat
  | .resetCurrent => if n = 0 then none else some (n - 1)
  | .startChild => some n
  | _ => none

@[simp] def child (n : Nat) : Opening Exception → Child
  | .startChild => .connected (epochOf n)
  | _ => .absent

@[simp] def queries (n : Nat) : Opening Exception → Nat
  | .resetCurrent => n
  | .queryStop => n
  | _ => n + 1

@[simp] def factoryCalls (n : Nat) : Opening Exception → Nat
  | .startChild => n + 1
  | .threw _ => n + 1
  | _ => n

end Opening

namespace Closing

@[simp] def frame (n : Nat) (who : Participant) : Closing Exception → Frame Value Error Exception
  | .process => .process who n
  | .callPredicate => .callPredicate n
  | .resetStored => .resetStored
  | .completeStored => .completeStored
  | .threw pointer => .complete (.exception pointer)

@[simp] def predicateCalls (client : Client Value Error Exception) (n : Nat) : Closing Exception → Nat
  | .process => n
  | .callPredicate => n
  | .resetStored => n + 1
  | .completeStored => client.predicateCallsAfter n
  | .threw _ => n + 1

end Closing

/-- What the receiver was completed with in iteration `n`. -/
@[simp] def Ending.outcome (client : Client Value Error Exception) (n : Nat) :
    Ending Exception → Outcome Value Error Exception
  | .stopped => ⟨.stopped, n, n⟩
  | .failed pointer => ⟨.exception pointer, n + 1, n⟩
  | .stored _ => ⟨(client.child n).store, n + 1, client.predicateCallsAfter n⟩
  | .threw _ pointer => ⟨.exception pointer, n + 1, n + 1⟩

/-- The participant that processed the last iteration. -/
@[simp] def Ending.closedBy : Ending Exception → Option Participant
  | .stored who => some who
  | .threw who _ => some who
  | _ => none

/-- The state at a stage of iteration `n`. -/
def Stage.state [DecidableEq Thread] (client : Client Value Error Exception) (n : Nat)
    (log : List (Event Value Error Exception)) :
    Stage Thread Exception → State Thread Value Error Exception
  | .idle => { State.initial with log := log }
  | .opening t place =>
      { epoch := epochOf n, current := place.current n, stored := none,
        stack := alone t (place.frame n), children := childrenAt n (place.child n),
        queries := place.queries n, factoryCalls := place.factoryCalls n, predicateCalls := n,
        begun := true, terminated := false, log := log }
  | .rendezvous drain child =>
      { epoch := if advanced drain child then epochOf (n + 1) else epochOf n, current := some n,
        stored := if child.stored then some (client.child n).store else none,
        stack := fun u => child.stack n u ++ drain.stack n u,
        children := childrenAt n (child.child n),
        queries := n + 1, factoryCalls := n + 1, predicateCalls := n,
        begun := true, terminated := false, log := log }
  | .closing t who place =>
      { epoch := epochOf (n + 1), current := some n, stored := some (client.child n).store,
        stack := alone t (place.frame n who), children := childrenAt n .completed,
        queries := n + 1, factoryCalls := n + 1, predicateCalls := place.predicateCalls client n,
        begun := true, terminated := false, log := log }
  | .finished ending =>
      { epoch := if ending.closedBy.isSome then epochOf (n + 1) else epochOf n,
        current := if ending.closedBy.isSome then some n else none,
        stored := if ending.closedBy.isSome then some (client.child n).store else none,
        stack := fun _ => [],
        children := childrenAt n (if ending.closedBy.isSome then .completed else .absent),
        queries := n + 1, factoryCalls := (ending.outcome client n).factoryCalls,
        predicateCalls := (ending.outcome client n).predicateCalls,
        begun := true, terminated := false, log := log }
  | .terminated =>
      { epoch := epochOf n, current := none, stored := none, stack := fun _ => [],
        children := childrenAt n .absent, queries := n + 1, factoryCalls := n + 1,
        predicateCalls := n, begun := true, terminated := true, log := log }

/-- The next stage, the event it records and the guard of the move. -/
inductive Moves (client : Client Value Error Exception) (n : Nat) :
    Stage Thread Exception → List (Event Value Error Exception) → Nat →
      Stage Thread Exception → Prop
  | start (t : Thread) (hfirst : n = 0) : Moves client n .idle [] n (.opening t .resetCurrent)
  | resetCurrent (t : Thread) :
      Moves client n (.opening t .resetCurrent) [] n (.opening t .queryStop)
  | queryStop (t : Thread) (hstop : client.stopRequested n = false) :
      Moves client n (.opening t .queryStop) [] n (.opening t .loadEpoch)
  | stop (t : Thread) (hstop : client.stopRequested n = true) :
      Moves client n (.opening t .queryStop) [] n (.opening t .stopped)
  | loadEpoch (t : Thread) :
      Moves client n (.opening t .loadEpoch) [] n (.opening t .emplace)
  | emplace (t : Thread) (hbuild : client.build n = none) :
      Moves client n (.opening t .emplace) [] n (.opening t .startChild)
  | fail (t : Thread) {pointer : Exception} (hbuild : client.build n = some pointer)
      (hneed : client.needExceptionPtr = true) :
      Moves client n (.opening t .emplace) [] n (.opening t (.threw pointer))
  | terminate (t : Thread) {pointer : Exception} (hbuild : client.build n = some pointer)
      (hneed : client.needExceptionPtr = false) :
      Moves client n (.opening t .emplace) [] n .terminated
  | startChild (t : Thread) :
      Moves client n (.opening t .startChild) [.moment n .started] n
        (.rendezvous (.starting t) .running)
  | returnStart (t : Thread) (child : ChildSide Thread) :
      Moves client n (.rendezvous (.starting t) child) [.moment n .startReturned] n
        (.rendezvous (.exchanging t) child)
  | completeChild (t : Thread) (drain : DrainSide Thread) :
      Moves client n (.rendezvous drain .running) [] n (.rendezvous drain (.storing t))
  | store (t : Thread) (drain : DrainSide Thread) :
      Moves client n (.rendezvous drain (.storing t)) [.moment n .stored] n
        (.rendezvous drain (.exchanging t))
  | drainWins (t : Thread) {child : ChildSide Thread} (hchild : child ≠ .left) :
      Moves client n (.rendezvous (.exchanging t) child)
        [.moment n (.exchanged .drain true)] n (.rendezvous .left child)
  | childWins (t : Thread) {drain : DrainSide Thread} (hdrain : drain ≠ .left) :
      Moves client n (.rendezvous drain (.exchanging t))
        [.moment n (.exchanged .child true)] n (.rendezvous drain .left)
  | drainLoses (t : Thread) :
      Moves client n (.rendezvous (.exchanging t) .left)
        [.moment n (.exchanged .drain false)] n (.closing t .drain .process)
  | childLoses (t : Thread) :
      Moves client n (.rendezvous .left (.exchanging t))
        [.moment n (.exchanged .child false)] n (.closing t .child .process)
  | processValue (t : Thread) (who : Participant) {values : Value}
      (hstore : (client.child n).store = .value values) :
      Moves client n (.closing t who .process) [.moment n (.processed who)] n
        (.closing t who .callPredicate)
  | processOther (t : Thread) (who : Participant)
      (hstore : ∀ values, (client.child n).store ≠ .value values) :
      Moves client n (.closing t who .process) [.moment n (.processed who)] n
        (.closing t who .completeStored)
  | satisfied (t : Thread) (who : Participant) (hpredicate : client.predicate n = .ok true) :
      Moves client n (.closing t who .callPredicate) [.moment n .predicateCalled] n
        (.closing t who .completeStored)
  | again (t : Thread) (who : Participant) (hpredicate : client.predicate n = .ok false) :
      Moves client n (.closing t who .callPredicate) [.moment n .predicateCalled] n
        (.closing t who .resetStored)
  | predicateThrows (t : Thread) (who : Participant) {pointer : Exception}
      (hpredicate : client.predicate n = .error pointer) :
      Moves client n (.closing t who .callPredicate) [.moment n .predicateCalled] n
        (.closing t who (.threw pointer))
  | next (t : Thread) (who : Participant) :
      Moves client n (.closing t who .resetStored) [] (n + 1) (.opening t .resetCurrent)
  | finishStopped (t : Thread) :
      Moves client n (.opening t .stopped) [.completed .stopped] n (.finished .stopped)
  | finishFailed (t : Thread) (pointer : Exception) :
      Moves client n (.opening t (.threw pointer)) [.completed (.exception pointer)] n
        (.finished (.failed pointer))
  | finishStored (t : Thread) (who : Participant) :
      Moves client n (.closing t who .completeStored) [.completed (client.child n).store] n
        (.finished (.stored who))
  | finishThrew (t : Thread) (who : Participant) (pointer : Exception) :
      Moves client n (.closing t who (.threw pointer)) [.completed (.exception pointer)] n
        (.finished (.threw who pointer))

end Bexec.RepeatUntil
