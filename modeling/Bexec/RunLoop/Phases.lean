import Bexec.RunLoop.Step

/-!
# Phases of a run loop

The place of the consumer bounds the values of `state_` and of `head_`.
-/

namespace Bexec.RunLoop

open Foundation

namespace Consumer

variable {Node : Type}

/-- The values `state_` can have while the consumer is there. -/
def allows : Consumer Node → LoopState → Prop
  | .outside, state => state = .starting ∨ state = .finishing
  | .beginRun, state => state = .starting ∨ state = .finishing
  | .popLoad true, state => state = .finishing
  | .popSwap true _, state => state = .finishing
  | .drain, state => state = .finishing
  | .close, state => state = .finishing
  | .finished, state => state = .finishing
  | .returned, state => state = .finished
  | _, state => state = .running ∨ state = .finishing

/-- The consumer has closed the stack. -/
def hasClosed : Consumer Node → Bool
  | .finished => true
  | .returned => true
  | _ => false

/-- `finish` may publish its request at any time before the end. -/
theorem allows_finishing {consumer : Consumer Node} {state : LoopState}
    (hallows : consumer.allows state) (hstate : state = .starting ∨ state = .running) :
    consumer.allows .finishing := by
  unfold allows at *
  split at hallows <;> simp_all

end Consumer

/-- `try_pop_all` goes on to its compare-exchange or has found nothing. -/
theorem popNext_cases {Node : Type} (closing : Bool) (head : Head Node) :
    (∃ op, State.popNext closing head = .popSwap closing op) ∨
      State.popNext closing head = .close ∨ State.popNext closing head = .loadState := by
  unfold State.popNext
  split
  · exact Or.inl ⟨_, rfl⟩
  · cases closing <;> simp

variable {Thread Node : Type} [DecidableEq Thread] [DecidableEq Node]
  {owner : Thread} {s s' : State Thread Node}

structure Phases (owner : Thread) (s : State Thread Node) : Prop where
  /-- The thread of the consumer calls the loop from user code only. -/
  busy : s.call owner ≠ .idle → s.consumer.atUser = true
  state : s.consumer.allows s.state
  closed : s.head = .closed ↔ s.consumer.hasClosed = true
  /-- A closed head is never reopened. -/
  seen : ∀ t op, s.call t = .push op .closed → s.head = .closed

namespace Phases

omit [DecidableEq Thread] [DecidableEq Node] in
theorem initial : Phases owner (State.initial : State Thread Node) where
  busy := by simp [State.initial]
  state := by simp [State.initial, Consumer.allows]
  closed := by simp [State.initial, Consumer.hasClosed]
  seen := by simp [State.initial]

variable {t : Thread} {call : Call Node} {consumer : Consumer Node}

omit [DecidableEq Thread] [DecidableEq Node] in
/-- A thread moves within a call. -/
theorem moveCall (h : Phases owner s) (hbusy : t = owner → s.consumer.atUser = true)
    (hcalls : ∀ t', t' ≠ t → s'.call t' = s.call t') (hconsumer : s'.consumer = s.consumer)
    (hhead : s'.head = .closed ↔ s.head = .closed)
    (hstate : s'.state = s.state ∨
      (s.state = .starting ∨ s.state = .running) ∧ s'.state = .finishing)
    (hseen : ∀ op, s'.call t = .push op .closed → s.head = .closed) : Phases owner s' where
  busy := by
    intro hcall
    rw [hconsumer]
    by_cases heq : owner = t
    · exact hbusy heq.symm
    · exact h.busy (hcalls owner heq ▸ hcall)
  state := by
    rw [hconsumer]
    rcases hstate with hstate | ⟨hbefore, hstate⟩
    · rw [hstate]
      exact h.state
    · rw [hstate]
      exact Consumer.allows_finishing h.state hbefore
  closed := by
    rw [hhead, hconsumer]
    exact h.closed
  seen := by
    intro t' op hcall
    rw [hhead]
    by_cases heq : t' = t
    · subst heq
      exact hseen op hcall
    · exact h.seen t' op (hcalls t' heq ▸ hcall)

omit [DecidableEq Thread] [DecidableEq Node] in
/-- The consumer moves while its thread is in no call. -/
theorem moveConsumer (h : Phases owner s) (hidle : s.call owner = .idle)
    (hcall : s'.call = s.call) (hstate : s'.consumer.allows s'.state)
    (hclosed : s'.head = .closed ↔ s'.consumer.hasClosed = true)
    (hhead : s.head = .closed → s'.head = .closed) : Phases owner s' where
  busy := by
    intro hbusy
    rw [hcall] at hbusy
    exact absurd hidle hbusy
  state := hstate
  closed := hclosed
  seen := by
    intro t op hpush
    rw [hcall] at hpush
    exact hhead (h.seen t op hpush)

theorem push (h : Phases owner s) (hbusy : t = owner → s.consumer.atUser = true) {weak : Bool}
    {op : Node} {head : Head Node} : Phases owner (s.push t weak op head) := by
  cases head with
  | closed =>
      apply h.moveCall hbusy <;> simp +contextual [State.push, State.assertFailed, State.setCall]
  | list top =>
      simp only [State.push]
      split
      · next hcas =>
          apply h.moveCall hbusy <;> simp +contextual [State.setCall, hcas.1]
      · apply h.moveCall hbusy <;> simp +contextual [State.setCall]

omit [DecidableEq Node] in
theorem finishStarting (h : Phases owner s) (hbusy : t = owner → s.consumer.atUser = true) :
    Phases owner (s.finishStarting t) := by
  unfold State.finishStarting
  split <;> apply h.moveCall hbusy <;>
    simp +contextual [State.setCall, State.assertFailed, *]

omit [DecidableEq Node] in
theorem finishRunning (h : Phases owner s) (hbusy : t = owner → s.consumer.atUser = true) :
    Phases owner (s.finishRunning t) := by
  unfold State.finishRunning
  split <;> apply h.moveCall hbusy <;>
    simp +contextual [State.setCall, State.assertFailed, *]

omit [DecidableEq Thread] [DecidableEq Node] in
/-- The consumer moves to a place where `state_` can be what it is. -/
theorem setConsumer (h : Phases owner s) (hidle : s.call owner = .idle)
    (hstate : consumer.allows s.state) (hclosed : consumer.hasClosed = s.consumer.hasClosed) :
    Phases owner (s.setConsumer consumer) := by
  apply h.moveConsumer hidle
  · rfl
  · exact hstate
  · show s.head = .closed ↔ consumer.hasClosed = true
    rw [hclosed]
    exact h.closed
  · exact id

omit [DecidableEq Thread] [DecidableEq Node] in
/-- A sleeping consumer may be woken by any thread. -/
theorem relock (h : Phases owner s) (hasleep : s.consumer = .asleep) :
    Phases owner (s.setConsumer .relock) := by
  have hidle : s.call owner = .idle := by
    by_contra hcall
    have hbusy := h.busy hcall
    simp [hasleep, Consumer.atUser] at hbusy
  have hstate := h.state
  apply h.setConsumer hidle
  · simpa [hasleep, Consumer.allows] using hstate
  · simp [hasleep, Consumer.hasClosed]

theorem notify (h : Phases owner s) (hbusy : t = owner → s.consumer.atUser = true)
    {published : Published} : Phases owner (s.notify.setCall t (.wake published .unlock)) := by
  unfold State.notify
  split
  · next hasleep =>
      have hother : t ≠ owner := by
        intro heq
        have hcontrol := hbusy heq
        simp [hasleep, Consumer.atUser] at hcontrol
      apply (h.relock hasleep).moveCall (fun heq => absurd heq hother) <;>
        simp +contextual [State.setConsumer, State.setCall]
  · apply h.moveCall hbusy <;> simp +contextual [State.setCall]

theorem wake (h : Phases owner s) (hbusy : t = owner → s.consumer.atUser = true)
    {published : Published} {step : WakeStep} (hstep : s.wake t published step = some s') :
    Phases owner s' := by
  cases step <;>
    simp only [State.wake, Option.some.injEq, Option.ite_none_right_eq_some] at hstep
  case load =>
    subst hstep
    apply h.moveCall hbusy <;> simp +contextual [State.setCall]
    split <;> simp
  case lock =>
    obtain ⟨-, rfl⟩ := hstep
    apply h.moveCall hbusy <;> simp +contextual [State.setCall]
  case notify =>
    subst hstep
    exact h.notify hbusy
  case unlock =>
    subst hstep
    apply h.moveCall hbusy <;> simp +contextual [State.setCall]

theorem stepCall (h : Phases owner s) (hbusy : t = owner → s.consumer.atUser = true) {weak : Bool}
    (hstep : s.stepCall t weak (s.call t) = some s') : Phases owner s' := by
  cases hcall : s.call t <;> simp only [hcall, State.stepCall, Option.some.injEq] at hstep
  case idle => cases hstep
  case push =>
    subst hstep
    exact h.push hbusy
  case finishStarting =>
    subst hstep
    exact h.finishStarting hbusy
  case finishRunning =>
    subst hstep
    exact h.finishRunning hbusy
  case wake => exact h.wake hbusy hstep
  all_goals
    subst hstep
    apply h.moveCall hbusy <;> simp +contextual [State.setCall]

omit [DecidableEq Thread] [DecidableEq Node] in
theorem popNext (h : Phases owner s) (hidle : s.call owner = .idle) {closing : Bool}
    (hstate : (Consumer.popLoad closing : Consumer Node).allows s.state)
    (hclosed : s.consumer.hasClosed = false) :
    Phases owner (s.setConsumer (State.popNext closing s.head)) := by
  apply h.setConsumer hidle
  · unfold State.popNext
    cases closing <;> split <;> simpa [Consumer.allows] using hstate
  · rw [hclosed]
    unfold State.popNext
    split
    · simp [Consumer.hasClosed]
    · split <;> simp [Consumer.hasClosed]

omit [DecidableEq Thread] [DecidableEq Node] in
theorem beginRun (h : Phases owner s) (hidle : s.call owner = .idle)
    (hconsumer : s.consumer = .beginRun) : Phases owner s.beginRun := by
  have hstate := h.state
  have hclosed := h.closed
  rw [hconsumer] at hstate hclosed
  simp only [Consumer.hasClosed, Bool.false_eq_true, iff_false] at hclosed
  unfold State.beginRun
  rcases hstate with hstate | hstate <;> rw [hstate] <;> apply h.moveConsumer hidle <;>
    simp [State.setConsumer, Consumer.allows, Consumer.hasClosed, hclosed, hstate]

omit [DecidableEq Thread] in
theorem popSwap (h : Phases owner s) (hidle : s.call owner = .idle) {weak closing : Bool}
    {operations : Node} (hconsumer : s.consumer = .popSwap closing operations) :
    Phases owner (s.popSwap weak closing operations) := by
  have hstate := h.state
  rw [hconsumer] at hstate
  unfold State.popSwap
  split
  · next hcas =>
      apply h.moveConsumer hidle <;>
        simp [State.setConsumer, Consumer.allows, Consumer.hasClosed, hcas.1]
      cases closing <;> simp_all [Consumer.allows]
  · apply h.popNext hidle
    · cases closing <;> exact hstate
    · simp [hconsumer, Consumer.hasClosed]

omit [DecidableEq Thread] in
theorem close (h : Phases owner s) (hidle : s.call owner = .idle)
    (hconsumer : s.consumer = .close) : Phases owner s.close := by
  have hstate := h.state
  rw [hconsumer] at hstate
  unfold State.close
  split
  · next hcas =>
      apply h.moveConsumer hidle <;>
        simp [State.setConsumer, Consumer.allows, Consumer.hasClosed, hcas]
      exact hstate
  · apply h.setConsumer hidle
    · exact Or.inr hstate
    · simp [hconsumer, Consumer.hasClosed]

omit [DecidableEq Thread] [DecidableEq Node] in
theorem finished (h : Phases owner s) (hidle : s.call owner = .idle)
    (hconsumer : s.consumer = .finished) : Phases owner s.finished := by
  have hstate := h.state
  have hclosed := h.closed
  rw [hconsumer] at hstate hclosed
  simp only [Consumer.allows] at hstate
  unfold State.finished
  rw [if_pos hstate]
  apply h.moveConsumer hidle <;>
    simp [State.setConsumer, Consumer.allows, Consumer.hasClosed, hclosed]

omit [DecidableEq Thread] in
theorem stepConsumer (h : Phases owner s) (hidle : s.call owner = .idle) {weak : Bool}
    (hstep : s.stepConsumer owner weak s.consumer = some s') : Phases owner s' := by
  have hstate := h.state
  have hclosed := h.closed
  cases hconsumer : s.consumer <;>
    simp only [hconsumer, State.stepConsumer, Option.some.injEq,
      Option.ite_none_right_eq_some, reduceCtorEq] at hstep <;>
    simp only [hconsumer, Consumer.hasClosed, Bool.false_eq_true, iff_false] at hclosed <;>
    simp only [hconsumer, Consumer.allows] at hstate
  case beginRun =>
    subst hstep
    exact h.beginRun hidle hconsumer
  case popLoad closing =>
    subst hstep
    exact h.popNext hidle (hconsumer ▸ h.state) (by simp [hconsumer, Consumer.hasClosed])
  case popSwap closing operations =>
    subst hstep
    exact h.popSwap hidle hconsumer
  case close =>
    subst hstep
    exact h.close hidle hconsumer
  case finished =>
    subst hstep
    exact h.finished hidle hconsumer
  case loadState =>
    subst hstep
    split <;> apply h.setConsumer hidle <;> simp_all [Consumer.allows, Consumer.hasClosed]
  case drain =>
    subst hstep
    split <;> apply h.setConsumer hidle <;> simp_all [Consumer.allows, Consumer.hasClosed]
  case lock =>
    obtain ⟨-, rfl⟩ := hstep
    apply h.moveConsumer hidle <;>
      simp [State.setConsumer, Consumer.allows, Consumer.hasClosed, hstate, hclosed]
  case relock =>
    obtain ⟨-, rfl⟩ := hstep
    apply h.moveConsumer hidle <;>
      simp [State.setConsumer, Consumer.allows, Consumer.hasClosed, hstate, hclosed]
  case predicateHead =>
    subst hstep
    split <;> apply h.setConsumer hidle <;> simp_all [Consumer.allows, Consumer.hasClosed]
  case predicateState =>
    subst hstep
    split <;> apply h.setConsumer hidle <;> simp_all [Consumer.allows, Consumer.hasClosed]
  case reverse operations reversed =>
    subst hstep
    cases operations <;> apply h.moveConsumer hidle <;>
      simp [State.reverse, State.setConsumer, Consumer.allows, Consumer.hasClosed, hstate, hclosed]
  case executeAll operations =>
    subst hstep
    cases operations <;> apply h.moveConsumer hidle <;>
      simp [State.executeAll, State.setConsumer, Consumer.allows, Consumer.hasClosed, hstate,
        hclosed]
  -- register, sleep, unregister and unlock touch only `waiting_` and the mutex
  all_goals
    subst hstep
    apply h.moveConsumer hidle <;>
      simp [State.setConsumer, Consumer.allows, Consumer.hasClosed, hstate, hclosed]

/-- A call begins in user code. -/
theorem enter (h : Phases owner s) (huser : s.atUser owner t = true)
    (hcall : ∀ op head, call ≠ .push op head) : Phases owner (s.setCall t call) := by
  simp only [State.atUser, Bool.and_eq_true, decide_eq_true_eq, Bool.or_eq_true] at huser
  apply h.moveCall (fun heq => huser.2.resolve_left (fun hne => hne heq)) <;>
    simp +contextual [State.setCall, hcall]

omit [DecidableEq Thread] [DecidableEq Node] in
/-- The operation returns from `execute`. -/
theorem ret (h : Phases owner s) (hidle : s.call owner = .idle) {operations : Option Node}
    (hconsumer : s.consumer = .executing operations) :
    Phases owner (s.setConsumer (.executeAll operations)) := by
  have hstate := h.state
  rw [hconsumer] at hstate
  apply h.setConsumer hidle
  · exact hstate
  · simp [hconsumer, Consumer.hasClosed]

omit [DecidableEq Thread] [DecidableEq Node] in
theorem run (h : Phases owner s) (hidle : s.call owner = .idle)
    (hconsumer : s.consumer = .outside) : Phases owner (s.setConsumer .beginRun) := by
  have hstate := h.state
  rw [hconsumer] at hstate
  apply h.setConsumer hidle
  · exact hstate
  · simp [hconsumer, Consumer.hasClosed]

variable [Fintype Thread]

theorem step (h : Phases owner s) {a : Action Thread Node} (hstep : step owner s a = some s') :
    Phases owner s' := by
  cases a with
  | enqueue t op =>
      simp only [RunLoop.step, Option.ite_none_right_eq_some, Option.some.injEq] at hstep
      obtain ⟨⟨huser, -⟩, rfl⟩ := hstep
      exact h.enter huser (by simp)
  | finish t =>
      simp only [RunLoop.step, Option.ite_none_right_eq_some, Option.some.injEq] at hstep
      obtain ⟨huser, rfl⟩ := hstep
      have hcalled : Phases owner { s with finishCalled := true } :=
        ⟨h.busy, h.state, h.closed, h.seen⟩
      exact hcalled.enter huser (by simp)
  | run =>
      simp only [RunLoop.step, Option.ite_none_right_eq_some, Option.some.injEq] at hstep
      obtain ⟨⟨hidle, hconsumer⟩, rfl⟩ := hstep
      exact h.run hidle hconsumer
  | proceed t weak =>
      apply h.stepCall _ hstep
      intro heq
      subst heq
      apply h.busy
      intro hidle
      simp [RunLoop.step, hidle, State.stepCall] at hstep
  | consume weak =>
      simp only [RunLoop.step, Option.ite_none_right_eq_some] at hstep
      exact h.stepConsumer hstep.1 hstep.2
  | wakeSpuriously =>
      simp only [RunLoop.step, Option.ite_none_right_eq_some, Option.some.injEq] at hstep
      obtain ⟨hasleep, rfl⟩ := hstep
      exact h.relock hasleep
  | ret =>
      simp only [RunLoop.step] at hstep
      split at hstep
      · next operations hconsumer =>
          simp only [Option.ite_none_right_eq_some, Option.some.injEq] at hstep
          obtain ⟨hidle, rfl⟩ := hstep
          exact h.ret hidle hconsumer
      · cases hstep
  | reuse op next =>
      simp only [RunLoop.step, Option.ite_none_right_eq_some, Option.some.injEq] at hstep
      obtain ⟨-, rfl⟩ := hstep
      exact ⟨h.busy, h.state, h.closed, h.seen⟩

end Phases

theorem phases_of_reachable [Fintype Thread]
    (hs : (machine Thread Node owner).Reachable s) : Phases owner s := by
  apply hs.invariant
  · intro s hinit
    cases hinit
    exact Phases.initial
  · intro s a t _ h hstep
    exact h.step hstep

end Bexec.RunLoop
