import Bexec.RunLoop.Shutdown
import Bexec.RunLoop.Wakeup

/-!
# What a run loop waits for

Whoever holds the mutex is about to release it, and a request to finish that was
made is under way until it is published.
-/

namespace Bexec.RunLoop

open Foundation

variable {Thread Node : Type} {owner t : Thread} {s s' : State Thread Node}

/-- The mutex is held by the consumer or by a call that is about to release it. -/
def Held (owner : Thread) (s : State Thread Node) : Prop :=
  ∀ t, s.mutex = some t → t = owner ∧ s.consumer.holds = true ∨
    ∃ published step, s.call t = .wake published step ∧ step.holds = true

namespace Held

/-- A step of a call that keeps the mutex as it is. -/
theorem moveCall (h : Held owner s) (t : Thread) (hmutex : s'.mutex = s.mutex)
    (hcalls : ∀ t', t' ≠ t → s'.call t' = s.call t')
    (hconsumer : s.consumer.holds = true → s'.consumer.holds = true)
    (hcall : ∀ published step, s.call t = .wake published step → step.holds = true →
      ∃ step', s'.call t = .wake published step' ∧ step'.holds = true) : Held owner s' := by
  intro t' hheld
  rw [hmutex] at hheld
  rcases h t' hheld with ⟨howner, hholds⟩ | ⟨published, step, hwake, hholds⟩
  · exact .inl ⟨howner, hconsumer hholds⟩
  · by_cases heq : t' = t
    · subst heq
      obtain ⟨step', hwake', hholds'⟩ := hcall published step hwake hholds
      exact .inr ⟨published, step', hwake', hholds'⟩
    · exact .inr ⟨published, step, (hcalls t' heq).trans hwake, hholds⟩

/-- A step of the consumer that keeps the mutex as it is. -/
theorem moveConsumer (h : Held owner s) (hmutex : s'.mutex = s.mutex) (hcall : s'.call = s.call)
    (hconsumer : s.consumer.holds = true → s'.consumer.holds = true) : Held owner s' := by
  intro t hheld
  rw [hmutex] at hheld
  rcases h t hheld with ⟨howner, hholds⟩ | ⟨published, step, hwake, hholds⟩
  · exact .inl ⟨howner, hconsumer hholds⟩
  · exact .inr ⟨published, step, by rw [hcall]; exact hwake, hholds⟩

theorem released (hmutex : s'.mutex = none) : Held owner s' := by
  intro t hheld
  rw [hmutex] at hheld
  cases hheld

variable [DecidableEq Thread] [DecidableEq Node]

theorem wake (h : Held owner s) {published : Published} {step : WakeStep}
    (hcall : s.call t = .wake published step) (hstep : s.wake t published step = some s') :
    Held owner s' := by
  cases step with
  | load =>
      simp only [State.wake, Option.some.injEq] at hstep
      subst hstep
      apply h.moveCall t <;> simp +contextual [State.setCall, hcall, WakeStep.holds]
  | lock =>
      simp only [State.wake, Option.ite_none_right_eq_some, Option.some.injEq] at hstep
      obtain ⟨-, rfl⟩ := hstep
      intro t' hheld
      obtain rfl : t = t' := by simpa [State.setCall] using hheld
      exact .inr ⟨published, .notify, by simp [State.setCall], rfl⟩
  | notify =>
      simp only [State.wake, Option.some.injEq] at hstep
      subst hstep
      unfold State.notify
      split
      next hasleep =>
        apply h.moveCall t <;>
          simp +contextual [State.setCall, State.setConsumer, WakeStep.holds, hcall, hasleep,
            Consumer.holds]
      next => apply h.moveCall t <;> simp +contextual [State.setCall, WakeStep.holds, hcall]
  | unlock =>
      simp only [State.wake, Option.some.injEq] at hstep
      subst hstep
      exact released rfl

theorem stepCall (h : Held owner s) {weak : Bool}
    (hstep : s.stepCall t weak (s.call t) = some s') : Held owner s' := by
  cases hcall : s.call t <;> simp only [hcall, State.stepCall, Option.some.injEq] at hstep
  case idle => cases hstep
  case wake published step => exact h.wake hcall hstep
  case push op head =>
    subst hstep
    cases head with
    | closed => apply h.moveCall t <;> simp +contextual [State.push, State.setCall,
        State.assertFailed, hcall]
    | list top =>
        unfold State.push
        dsimp only
        split <;> apply h.moveCall t <;> simp +contextual [State.setCall, hcall]
  case finishStarting =>
    subst hstep
    unfold State.finishStarting
    split <;> apply h.moveCall t <;>
      simp +contextual [State.setCall, State.assertFailed, hcall]
  case finishRunning =>
    subst hstep
    unfold State.finishRunning
    split <;> apply h.moveCall t <;>
      simp +contextual [State.setCall, State.assertFailed, hcall]
  all_goals
    subst hstep
    apply h.moveCall t <;> simp +contextual [State.setCall, hcall]

omit [DecidableEq Thread] in
theorem stepConsumer (h : Held owner s) {weak : Bool}
    (hstep : s.stepConsumer owner weak s.consumer = some s') : Held owner s' := by
  cases hconsumer : s.consumer <;>
    simp only [hconsumer, State.stepConsumer, Option.some.injEq,
      Option.ite_none_right_eq_some, reduceCtorEq] at hstep
  case lock =>
    obtain ⟨-, rfl⟩ := hstep
    intro t hheld
    simp only [State.setConsumer, Option.some.injEq] at hheld
    exact .inl ⟨hheld.symm, rfl⟩
  case relock =>
    obtain ⟨-, rfl⟩ := hstep
    intro t hheld
    simp only [State.setConsumer, Option.some.injEq] at hheld
    exact .inl ⟨hheld.symm, rfl⟩
  case sleep =>
    subst hstep
    exact released rfl
  case unlock =>
    subst hstep
    exact released rfl
  case beginRun =>
    subst hstep
    unfold State.beginRun
    split <;> apply h.moveConsumer <;>
      simp [State.setConsumer, State.assertFailed, hconsumer, Consumer.holds]
  case popSwap closing operations =>
    subst hstep
    unfold State.popSwap
    split <;> apply h.moveConsumer <;> simp [State.setConsumer, hconsumer, Consumer.holds]
  case close =>
    subst hstep
    unfold State.close
    split <;> apply h.moveConsumer <;> simp [State.setConsumer, hconsumer, Consumer.holds]
  case finished =>
    subst hstep
    unfold State.finished
    split <;> apply h.moveConsumer <;>
      simp [State.setConsumer, State.assertFailed, hconsumer, Consumer.holds]
  case reverse operations reversed =>
    subst hstep
    unfold State.reverse
    split <;> apply h.moveConsumer <;> simp [State.setConsumer, hconsumer, Consumer.holds]
  case executeAll operations =>
    subst hstep
    unfold State.executeAll
    split <;> apply h.moveConsumer <;> simp [State.setConsumer, hconsumer, Consumer.holds]
  case predicateHead =>
    subst hstep
    split <;> apply h.moveConsumer <;> simp [State.setConsumer, Consumer.holds]
  case predicateState =>
    subst hstep
    split <;> apply h.moveConsumer <;> simp [State.setConsumer, Consumer.holds]
  all_goals
    subst hstep
    apply h.moveConsumer <;> simp [State.setConsumer, hconsumer, Consumer.holds]

variable [Fintype Thread]

theorem step (h : Held owner s) {a : Action Thread Node} (hstep : step owner s a = some s') :
    Held owner s' := by
  cases a with
  | enqueue t op =>
      simp only [RunLoop.step, Option.ite_none_right_eq_some, Option.some.injEq, State.atUser,
        Bool.and_eq_true, decide_eq_true_eq] at hstep
      obtain ⟨⟨⟨hidle, -⟩, -⟩, rfl⟩ := hstep
      apply h.moveCall t <;> simp +contextual [State.setCall, hidle]
  | finish t =>
      simp only [RunLoop.step, Option.ite_none_right_eq_some, Option.some.injEq, State.atUser,
        Bool.and_eq_true, decide_eq_true_eq] at hstep
      obtain ⟨⟨hidle, -⟩, rfl⟩ := hstep
      apply h.moveCall t <;> simp +contextual [State.setCall, hidle]
  | run =>
      simp only [RunLoop.step, Option.ite_none_right_eq_some, Option.some.injEq] at hstep
      obtain ⟨⟨-, houtside⟩, rfl⟩ := hstep
      apply h.moveConsumer <;> simp [State.setConsumer, houtside, Consumer.holds]
  | proceed t weak => exact h.stepCall hstep
  | consume weak =>
      simp only [RunLoop.step, Option.ite_none_right_eq_some] at hstep
      exact h.stepConsumer hstep.2
  | wakeSpuriously =>
      simp only [RunLoop.step, Option.ite_none_right_eq_some, Option.some.injEq] at hstep
      obtain ⟨hasleep, rfl⟩ := hstep
      apply h.moveConsumer <;> simp [State.setConsumer, hasleep, Consumer.holds]
  | ret =>
      simp only [RunLoop.step] at hstep
      split at hstep
      next operations hexecuting =>
        simp only [Option.ite_none_right_eq_some, Option.some.injEq] at hstep
        obtain ⟨-, rfl⟩ := hstep
        apply h.moveConsumer <;> simp [State.setConsumer, hexecuting, Consumer.holds]
      next => cases hstep
  | reuse op next =>
      simp only [RunLoop.step, Option.ite_none_right_eq_some, Option.some.injEq] at hstep
      obtain ⟨-, rfl⟩ := hstep
      exact h

end Held

/-- A request to finish is under way or published. -/
def Announced (s : State Thread Node) : Prop :=
  s.finishCalled = true → (∃ t, (s.call t).requesting = true) ∨
    s.state = .finishing ∨ s.state = .finished

namespace Announced

theorem move (h : Announced s) (t : Thread) (hfinish : s'.finishCalled = s.finishCalled)
    (hcalls : ∀ t', t' ≠ t → s'.call t' = s.call t')
    (hstate : s'.state = s.state ∨ s'.state = .finishing ∨ s'.state = .finished)
    (hcall : (s.call t).requesting = true →
      (s'.call t).requesting = true ∨ s'.state = .finishing) : Announced s' := by
  intro hcalled
  rw [hfinish] at hcalled
  rcases h hcalled with ⟨t', hrequesting⟩ | hlate
  · by_cases heq : t' = t
    · subst heq
      rcases hcall hrequesting with hstill | hpublished
      · exact .inl ⟨t', hstill⟩
      · exact .inr (.inl hpublished)
    · exact .inl ⟨t', by rw [hcalls t' heq]; exact hrequesting⟩
  · rcases hstate with hsame | hlater
    · exact .inr (by rw [hsame]; exact hlate)
    · exact .inr hlater

variable [DecidableEq Thread] [DecidableEq Node] [Fintype Thread]

theorem stepCall (h : Announced s) (hshutdown : ShutdownInv owner s) {weak : Bool}
    (hstep : s.stepCall t weak (s.call t) = some s') : Announced s' := by
  cases hcall : s.call t <;> simp only [hcall, State.stepCall, Option.some.injEq] at hstep
  case idle => cases hstep
  case wake published step =>
    cases step <;>
      simp only [State.wake, Option.some.injEq, Option.ite_none_right_eq_some] at hstep
    case notify =>
      subst hstep
      unfold State.notify
      split <;> apply h.move t <;>
        simp +contextual [State.setCall, State.setConsumer, hcall, Call.requesting]
    case lock =>
      obtain ⟨-, rfl⟩ := hstep
      apply h.move t <;> simp +contextual [State.setCall, hcall, Call.requesting]
    all_goals
      subst hstep
      apply h.move t <;> simp +contextual [State.setCall, hcall, Call.requesting]
  case push op head =>
    subst hstep
    cases head with
    | closed =>
        apply h.move t <;> simp +contextual [State.push, State.setCall, State.assertFailed, hcall,
          Call.requesting]
    | list top =>
        unfold State.push
        dsimp only
        split <;> apply h.move t <;>
          simp +contextual [State.setCall, hcall, Call.requesting]
  case finishStarting =>
    subst hstep
    have hearly := hshutdown.requesting t (by simp [hcall, Call.requesting])
    unfold State.finishStarting
    rcases hearly with hstate | hstate <;> rw [hstate] <;> apply h.move t <;>
      simp +contextual [State.setCall, hcall, Call.requesting, hstate]
  case finishRunning =>
    subst hstep
    unfold State.finishRunning
    rw [if_pos (hshutdown.running t hcall)]
    apply h.move t <;> simp +contextual [State.setCall, hcall, Call.requesting]
  all_goals
    subst hstep
    apply h.move t <;> simp +contextual [State.setCall, hcall, Call.requesting]

omit [Fintype Thread] [DecidableEq Thread] [DecidableEq Node] in
theorem moveConsumer (h : Announced s) (hfinish : s'.finishCalled = s.finishCalled)
    (hcall : s'.call = s.call)
    (hstate : s'.state = s.state ∨ s.state = .starting ∨ s'.state = .finished) :
    Announced s' := by
  intro hcalled
  rw [hfinish] at hcalled
  rcases h hcalled with hrequesting | hlate
  · exact .inl (by rw [hcall]; exact hrequesting)
  · rcases hstate with hsame | hstarting | hfinished
    · exact .inr (by rw [hsame]; exact hlate)
    · simp [hstarting] at hlate
    · exact .inr (.inr hfinished)

omit [Fintype Thread] [DecidableEq Thread] in
theorem stepConsumer (h : Announced s) {weak : Bool}
    (hstep : s.stepConsumer owner weak s.consumer = some s') : Announced s' := by
  cases hconsumer : s.consumer <;>
    simp only [hconsumer, State.stepConsumer, Option.some.injEq,
      Option.ite_none_right_eq_some, reduceCtorEq] at hstep
  case lock =>
    obtain ⟨-, rfl⟩ := hstep
    apply h.moveConsumer <;> simp [State.setConsumer]
  case relock =>
    obtain ⟨-, rfl⟩ := hstep
    apply h.moveConsumer <;> simp [State.setConsumer]
  case beginRun =>
    subst hstep
    unfold State.beginRun
    split <;> apply h.moveConsumer <;> simp [State.setConsumer, State.assertFailed, *]
  case popSwap closing operations =>
    subst hstep
    unfold State.popSwap
    split <;> apply h.moveConsumer <;> simp [State.setConsumer]
  case close =>
    subst hstep
    unfold State.close
    split <;> apply h.moveConsumer <;> simp [State.setConsumer]
  case finished =>
    subst hstep
    unfold State.finished
    split <;> apply h.moveConsumer <;> simp [State.setConsumer, State.assertFailed]
  case reverse operations reversed =>
    subst hstep
    unfold State.reverse
    split <;> apply h.moveConsumer <;> simp [State.setConsumer]
  case executeAll operations =>
    subst hstep
    unfold State.executeAll
    split <;> apply h.moveConsumer <;> simp [State.setConsumer]
  all_goals
    subst hstep
    apply h.moveConsumer <;> simp [State.setConsumer]

theorem step (h : Announced s) (hshutdown : ShutdownInv owner s) {a : Action Thread Node}
    (hstep : step owner s a = some s') : Announced s' := by
  cases a with
  | enqueue t op =>
      simp only [RunLoop.step, Option.ite_none_right_eq_some, Option.some.injEq, State.atUser,
        Bool.and_eq_true, decide_eq_true_eq] at hstep
      obtain ⟨⟨⟨hidle, -⟩, -⟩, rfl⟩ := hstep
      apply h.move t <;> simp +contextual [State.setCall, hidle, Call.requesting]
  | finish t =>
      simp only [RunLoop.step, Option.ite_none_right_eq_some, Option.some.injEq] at hstep
      obtain ⟨-, rfl⟩ := hstep
      exact fun _ => .inl ⟨t, by simp [State.setCall, Call.requesting]⟩
  | run =>
      simp only [RunLoop.step, Option.ite_none_right_eq_some, Option.some.injEq] at hstep
      obtain ⟨-, rfl⟩ := hstep
      exact h
  | proceed t weak => exact h.stepCall hshutdown hstep
  | consume weak =>
      simp only [RunLoop.step, Option.ite_none_right_eq_some] at hstep
      exact h.stepConsumer hstep.2
  | wakeSpuriously =>
      simp only [RunLoop.step, Option.ite_none_right_eq_some, Option.some.injEq] at hstep
      obtain ⟨-, rfl⟩ := hstep
      exact h
  | ret =>
      simp only [RunLoop.step] at hstep
      split at hstep
      · simp only [Option.ite_none_right_eq_some, Option.some.injEq] at hstep
        obtain ⟨-, rfl⟩ := hstep
        exact h
      · cases hstep
  | reuse op next =>
      simp only [RunLoop.step, Option.ite_none_right_eq_some, Option.some.injEq] at hstep
      obtain ⟨-, rfl⟩ := hstep
      exact h

end Announced

variable [Fintype Thread] [DecidableEq Thread] [DecidableEq Node]

/-- Everything that holds of a loop used according to the contract. -/
structure Sound (owner : Thread) (s : State Thread Node) : Prop where
  phases : Phases owner s
  queue : QueueInv s
  mutex : MutexInv owner s
  wake : WakeInv s
  shutdown : ShutdownInv owner s
  held : Held owner s
  announced : Announced s

namespace Sound

omit [DecidableEq Thread] in
theorem initial : Sound owner (State.initial : State Thread Node) where
  phases := Phases.initial
  queue := QueueInv.initial
  mutex := MutexInv.initial
  wake := WakeInv.initial
  shutdown := ShutdownInv.initial
  held := Held.released rfl
  announced := by simp [Announced, State.initial]

theorem step (h : Sound owner s) {a : Action Thread Node} (horderly : orderly owner s a = true)
    (hstep : RunLoop.step owner s a = some s') : Sound owner s' where
  phases := h.phases.step hstep
  queue := h.queue.step hstep
  mutex := h.mutex.step h.phases hstep
  wake := h.wake.step h.queue h.mutex h.phases hstep
  shutdown := h.shutdown.step h.phases horderly hstep
  held := h.held.step hstep
  announced := h.announced.step h.shutdown hstep

end Sound

end Bexec.RunLoop
