import Bexec.RunLoop.Queue

/-!
# No lost wake-up in a run loop

The consumer counts itself in `waiting_` before it evaluates the predicate and
holds the mutex until it sleeps. A push or a request to finish that the
predicate did not see therefore sees the consumer waiting, and its notification
comes after the consumer is asleep.
-/

namespace Bexec.RunLoop

open Foundation

variable {Thread Node : Type}

/-- The step holds the mutex. -/
def WakeStep.holds : WakeStep → Bool
  | .notify => true
  | .unlock => true
  | _ => false

namespace Consumer

/-- The consumer holds the mutex. -/
def holds : Consumer Node → Bool
  | .register => true
  | .predicateHead => true
  | .predicateState => true
  | .sleep => true
  | .unregister => true
  | .unlock => true
  | _ => false

/-- The consumer is counted in `waiting_`. -/
def waits : Consumer Node → Bool
  | .predicateHead => true
  | .predicateState => true
  | .sleep => true
  | .asleep => true
  | .relock => true
  | .unregister => true
  | _ => false

/-- The predicate has found the queue empty. -/
def foundEmpty : Consumer Node → Bool
  | .predicateState => true
  | .sleep => true
  | .asleep => true
  | _ => false

/-- The predicate has been false. -/
def foundIdle : Consumer Node → Bool
  | .sleep => true
  | .asleep => true
  | _ => false

theorem foundEmpty_of_foundIdle {consumer : Consumer Node} (hidle : consumer.foundIdle = true) :
    consumer.foundEmpty = true := by
  cases consumer <;> simp_all [foundIdle, foundEmpty]

theorem waits_of_foundEmpty {consumer : Consumer Node} (hempty : consumer.foundEmpty = true) :
    consumer.waits = true := by
  cases consumer <;> simp_all [foundEmpty, waits]

theorem not_holds_of_atUser {consumer : Consumer Node} (hcontrol : consumer.atUser = true) :
    consumer.holds = false := by
  unfold atUser at hcontrol
  split at hcontrol <;> simp_all [holds]

end Consumer

/-- The thread has published and not yet notified. -/
def State.pending (s : State Thread Node) (t : Thread) (published : Published) : Prop :=
  ∃ step, s.call t = .wake published step ∧ step ≠ .unlock

/-- Who holds the mutex. -/
structure MutexInv (owner : Thread) (s : State Thread Node) : Prop where
  call : ∀ t published step, s.call t = .wake published step → step.holds = true →
    s.mutex = some t
  consumer : s.consumer.holds = true → s.mutex = some owner

section PopNext

variable {closing : Bool} {head : Head Node}

@[simp] theorem popNext_holds : (State.popNext closing head).holds = false := by
  rcases popNext_cases closing head with ⟨op, hnext⟩ | hnext | hnext <;> rw [hnext] <;> rfl

@[simp] theorem popNext_waits : (State.popNext closing head).waits = false := by
  rcases popNext_cases closing head with ⟨op, hnext⟩ | hnext | hnext <;> rw [hnext] <;> rfl

@[simp] theorem popNext_foundEmpty : (State.popNext closing head).foundEmpty = false := by
  rcases popNext_cases closing head with ⟨op, hnext⟩ | hnext | hnext <;> rw [hnext] <;> rfl

@[simp] theorem popNext_foundIdle : (State.popNext closing head).foundIdle = false := by
  rcases popNext_cases closing head with ⟨op, hnext⟩ | hnext | hnext <;> rw [hnext] <;> rfl

end PopNext

namespace MutexInv

variable {owner t : Thread} {s s' : State Thread Node}

theorem initial : MutexInv owner (State.initial : State Thread Node) := by
  constructor <;> simp [State.initial, Consumer.holds]

/-- The consumer and a call do not both hold the mutex. -/
theorem not_holds (h : MutexInv owner s) (hphases : Phases owner s) {published : Published}
    {step : WakeStep} (hcall : s.call t = .wake published step) (hholds : step.holds = true) :
    s.consumer.holds = false := by
  by_contra hconsumer
  rw [Bool.not_eq_false] at hconsumer
  have hmutex := h.call t published step hcall hholds
  rw [h.consumer hconsumer] at hmutex
  cases hmutex
  have hcontrol := hphases.busy (by simp [hcall])
  rw [Consumer.not_holds_of_atUser hcontrol] at hconsumer
  cases hconsumer

/-- A step of a call that leaves the mutex alone. -/
theorem moveCall (h : MutexInv owner s) (t : Thread) (hcalls : ∀ t', t' ≠ t → s'.call t' = s.call t')
    (hcall : ∀ published step, s'.call t = .wake published step → step.holds = true →
      s.mutex = some t)
    (hmutex : s'.mutex = s.mutex) (hconsumer : s'.consumer.holds = true → s.consumer.holds = true) :
    MutexInv owner s' where
  call := by
    intro t' published step hstep hholds
    rw [hmutex]
    by_cases heq : t' = t
    · subst heq
      exact hcall published step hstep hholds
    · exact h.call t' published step (hcalls t' heq ▸ hstep) hholds
  consumer := by
    rw [hmutex]
    exact fun hholds => h.consumer (hconsumer hholds)

/-- A step of the consumer that leaves the mutex alone. -/
theorem moveConsumer (h : MutexInv owner s) (hcall : s'.call = s.call) (hmutex : s'.mutex = s.mutex)
    (hconsumer : s'.consumer.holds = true → s.consumer.holds = true) : MutexInv owner s' := by
  apply h.moveCall owner _ _ hmutex hconsumer
  · simp [hcall]
  · rw [hcall]
    exact h.call owner

/-- The consumer takes the mutex. -/
theorem acquire (h : MutexInv owner s) (hfree : s.mutex = none) {consumer : Consumer Node} :
    MutexInv owner ({ s with mutex := some owner }.setConsumer consumer) where
  call := by
    intro t published step hcall hholds
    have hmutex := h.call t published step hcall hholds
    rw [hfree] at hmutex
    cases hmutex
  consumer := fun _ => rfl

/-- The consumer gives the mutex up. -/
theorem release (h : MutexInv owner s) (hidle : s.call owner = .idle)
    (hbefore : s.consumer.holds = true) {consumer : Consumer Node}
    (hafter : consumer.holds = false) :
    MutexInv owner ({ s with mutex := none }.setConsumer consumer) where
  call := by
    intro t published step hcall hholds
    have hmutex := h.call t published step hcall hholds
    rw [h.consumer hbefore] at hmutex
    cases hmutex
    simp [State.setConsumer, hidle] at hcall
  consumer := by simp [State.setConsumer, hafter]

variable [DecidableEq Thread] [DecidableEq Node]

theorem wake (h : MutexInv owner s) (hphases : Phases owner s) {published : Published}
    {step : WakeStep} (hcall : s.call t = .wake published step)
    (hstep : s.wake t published step = some s') : MutexInv owner s' := by
  cases step <;>
    simp only [State.wake, Option.some.injEq, Option.ite_none_right_eq_some] at hstep
  case load =>
    subst hstep
    apply h.moveCall t <;> simp +contextual [State.setCall]
    intro published step hwake hholds
    split at hwake
    · cases hwake
    · cases hwake
      cases hholds
  case lock =>
    obtain ⟨hfree, rfl⟩ := hstep
    constructor
    · intro t' published' step hwake hholds
      by_cases heq : t' = t
      · subst heq
        rfl
      · simp only [State.setCall, Function.update_of_ne heq] at hwake
        have hmutex := h.call t' published' step hwake hholds
        rw [hfree] at hmutex
        cases hmutex
    · intro hholds
      have hmutex := h.consumer hholds
      rw [hfree] at hmutex
      cases hmutex
  case notify =>
    subst hstep
    have hmutex := h.call t published .notify hcall rfl
    unfold State.notify
    split
    · apply h.moveCall t <;>
        simp +contextual [State.setCall, State.setConsumer, Consumer.holds, hmutex]
    · apply h.moveCall t <;> simp +contextual [State.setCall, hmutex]
  case unlock =>
    subst hstep
    have hmutex := h.call t published .unlock hcall rfl
    have hconsumer := h.not_holds hphases hcall rfl
    constructor
    · intro t' published' step hwake hholds
      by_cases heq : t' = t
      · subst heq
        simp [State.setCall] at hwake
      · simp only [State.setCall, Function.update_of_ne heq] at hwake
        have hother := h.call t' published' step hwake hholds
        rw [hmutex] at hother
        cases hother
        exact absurd rfl heq
    · simp [State.setCall, hconsumer]

theorem stepCall (h : MutexInv owner s) (hphases : Phases owner s) {weak : Bool}
    (hstep : s.stepCall t weak (s.call t) = some s') : MutexInv owner s' := by
  cases hcall : s.call t <;> simp only [hcall, State.stepCall, Option.some.injEq] at hstep
  case idle => cases hstep
  case wake published step => exact h.wake hphases hcall hstep
  case push op head =>
    subst hstep
    unfold State.push
    split
    · apply h.moveCall t <;> simp +contextual [State.setCall, State.assertFailed]
    · split <;> apply h.moveCall t <;> simp +contextual [State.setCall, WakeStep.holds]
  case finishStarting =>
    subst hstep
    unfold State.finishStarting
    split <;> apply h.moveCall t <;>
      simp +contextual [State.setCall, State.assertFailed, WakeStep.holds]
  case finishRunning =>
    subst hstep
    unfold State.finishRunning
    split <;> apply h.moveCall t <;>
      simp +contextual [State.setCall, State.assertFailed, WakeStep.holds]
  all_goals
    subst hstep
    apply h.moveCall t <;> simp +contextual [State.setCall]

omit [DecidableEq Thread] in
theorem stepConsumer (h : MutexInv owner s) (hidle : s.call owner = .idle) {weak : Bool}
    (hstep : s.stepConsumer owner weak s.consumer = some s') : MutexInv owner s' := by
  cases hconsumer : s.consumer <;>
    simp only [hconsumer, State.stepConsumer, Option.some.injEq,
      Option.ite_none_right_eq_some, reduceCtorEq] at hstep
  case lock | relock =>
    obtain ⟨hfree, rfl⟩ := hstep
    exact h.acquire hfree
  case sleep | unlock =>
    subst hstep
    apply h.release hidle <;> simp [hconsumer, Consumer.holds]
  case beginRun =>
    subst hstep
    unfold State.beginRun
    split <;> apply h.moveConsumer <;> simp [State.setConsumer, State.assertFailed, Consumer.holds]
  case popLoad closing =>
    subst hstep
    apply h.moveConsumer <;> simp [State.setConsumer]
  case popSwap closing operations =>
    subst hstep
    unfold State.popSwap
    split
    · apply h.moveConsumer <;> simp [State.setConsumer, Consumer.holds]
    · apply h.moveConsumer <;> simp [State.setConsumer]
  case close =>
    subst hstep
    unfold State.close
    split <;> apply h.moveConsumer <;> simp [State.setConsumer, Consumer.holds]
  case finished =>
    subst hstep
    unfold State.finished
    split <;> apply h.moveConsumer <;> simp [State.setConsumer, State.assertFailed, Consumer.holds]
  case reverse operations reversed =>
    subst hstep
    cases operations <;> apply h.moveConsumer <;>
      simp [State.reverse, State.setConsumer, Consumer.holds]
  case executeAll operations =>
    subst hstep
    cases operations <;> apply h.moveConsumer <;>
      simp [State.executeAll, State.setConsumer, Consumer.holds]
  case loadState | drain | predicateHead | predicateState =>
    subst hstep
    split <;> apply h.moveConsumer <;> simp [State.setConsumer, hconsumer, Consumer.holds]
  -- register and unregister
  all_goals
    subst hstep
    apply h.moveConsumer <;> simp [State.setConsumer, hconsumer, Consumer.holds]

variable [Fintype Thread]

theorem step (h : MutexInv owner s) (hphases : Phases owner s) {a : Action Thread Node}
    (hstep : step owner s a = some s') : MutexInv owner s' := by
  cases a with
  | enqueue t op =>
      simp only [RunLoop.step, Option.ite_none_right_eq_some, Option.some.injEq] at hstep
      obtain ⟨-, rfl⟩ := hstep
      apply h.moveCall t <;> simp +contextual [State.setCall]
  | finish t =>
      simp only [RunLoop.step, Option.ite_none_right_eq_some, Option.some.injEq] at hstep
      obtain ⟨-, rfl⟩ := hstep
      apply h.moveCall t <;> simp +contextual [State.setCall]
  | run =>
      simp only [RunLoop.step, Option.ite_none_right_eq_some, Option.some.injEq] at hstep
      obtain ⟨-, rfl⟩ := hstep
      apply h.moveConsumer <;> simp [State.setConsumer, Consumer.holds]
  | proceed t weak => exact h.stepCall hphases hstep
  | consume weak =>
      simp only [RunLoop.step, Option.ite_none_right_eq_some] at hstep
      exact h.stepConsumer hstep.1 hstep.2
  | wakeSpuriously =>
      simp only [RunLoop.step, Option.ite_none_right_eq_some, Option.some.injEq] at hstep
      obtain ⟨-, rfl⟩ := hstep
      apply h.moveConsumer <;> simp [State.setConsumer, Consumer.holds]
  | ret =>
      simp only [RunLoop.step] at hstep
      split at hstep
      · simp only [Option.ite_none_right_eq_some, Option.some.injEq] at hstep
        obtain ⟨-, rfl⟩ := hstep
        apply h.moveConsumer <;> simp [State.setConsumer, Consumer.holds]
      · cases hstep
  | reuse op next =>
      simp only [RunLoop.step, Option.ite_none_right_eq_some, Option.some.injEq] at hstep
      obtain ⟨-, rfl⟩ := hstep
      exact ⟨h.call, h.consumer⟩

end MutexInv

/-- What the consumer does not see before it sleeps is announced to it. -/
structure WakeInv (s : State Thread Node) : Prop where
  waiting : s.waiting = if s.consumer.waits then 1 else 0
  pushes : s.consumer.foundEmpty = true → ∀ k, s.executed.length ≤ k → k < s.pushed.length →
    ∃ t, s.pending t (.push k)
  request : s.consumer.foundIdle = true → s.state = .finishing → ∃ t, s.pending t .finishing

namespace WakeInv

variable {owner t : Thread} {s s' : State Thread Node}

theorem initial : WakeInv (State.initial : State Thread Node) := by
  constructor <;> simp [State.initial, Consumer.waits, Consumer.foundEmpty, Consumer.foundIdle]

/-- The fast path is closed while the consumer may be about to sleep. -/
theorem waiting_ne_zero (h : WakeInv s) (hempty : s.consumer.foundEmpty = true) :
    s.waiting ≠ 0 := by
  rw [h.waiting, Consumer.waits_of_foundEmpty hempty]
  simp

/-- A step of a call that gives up no notification the consumer may need. -/
theorem moveCall (h : WakeInv s) (t : Thread) (hcalls : ∀ t', t' ≠ t → s'.call t' = s.call t')
    (hconsumer : s'.consumer = s.consumer) (hwaiting : s'.waiting = s.waiting)
    (hpending : s.waiting ≠ 0 → ∀ published, s.pending t published → s'.pending t published)
    (hexecuted : s'.executed = s.executed)
    (hpushed : s'.pushed = s.pushed ∨
      ∃ op, s'.pushed = s.pushed ++ [op] ∧ s'.pending t (.push s.pushed.length))
    (hstate : s'.state = s.state ∨ s'.pending t .finishing) : WakeInv s' := by
  have hkeep : s.waiting ≠ 0 → ∀ published, (∃ t', s.pending t' published) →
      ∃ t', s'.pending t' published := by
    rintro hne published ⟨t', ht'⟩
    by_cases heq : t' = t
    · subst heq
      exact ⟨t', hpending hne published ht'⟩
    · obtain ⟨step, hstep, hne⟩ := ht'
      exact ⟨t', step, by rw [hcalls t' heq, hstep], hne⟩
  constructor
  · rw [hconsumer, hwaiting]
    exact h.waiting
  · rw [hconsumer, hexecuted]
    intro hempty k hle hlt
    have hne := h.waiting_ne_zero hempty
    rcases hpushed with hpushed | ⟨op, hpushed, hnew⟩
    · rw [hpushed] at hlt
      exact hkeep hne _ (h.pushes hempty k hle hlt)
    · rw [hpushed, List.length_append, List.length_singleton] at hlt
      rcases Nat.lt_succ_iff_lt_or_eq.mp hlt with hlt | rfl
      · exact hkeep hne _ (h.pushes hempty k hle hlt)
      · exact ⟨t, hnew⟩
  · rw [hconsumer]
    intro hidle hfinishing
    rcases hstate with hstate | hnew
    · rw [hstate] at hfinishing
      exact hkeep (h.waiting_ne_zero (Consumer.foundEmpty_of_foundIdle hidle)) _
        (h.request hidle hfinishing)
    · exact ⟨t, hnew⟩

/-- A step of the consumer that finds nothing. -/
theorem moveConsumer (h : WakeInv s) (hcall : s'.call = s.call)
    (hwaiting : s'.waiting = if s'.consumer.waits then 1 else 0)
    (hempty : s'.consumer.foundEmpty = true → s'.pushed = s.pushed ∧ s'.executed = s.executed ∧
      (s.consumer.foundEmpty = true ∨ s.executed = s.pushed))
    (hidle : s'.consumer.foundIdle = true → s'.state = s.state ∧
      (s.consumer.foundIdle = true ∨ s.state ≠ .finishing)) : WakeInv s' where
  waiting := hwaiting
  pushes := by
    intro hfound k hle hlt
    obtain ⟨hpushed, hexecuted, hbefore⟩ := hempty hfound
    rw [hexecuted] at hle
    rw [hpushed] at hlt
    rcases hbefore with hbefore | hnothing
    · obtain ⟨t, step, hstep, hne⟩ := h.pushes hbefore k hle hlt
      exact ⟨t, step, by rw [hcall, hstep], hne⟩
    · rw [hnothing] at hle
      omega
  request := by
    intro hfound hfinishing
    obtain ⟨hstate, hbefore⟩ := hidle hfound
    rw [hstate] at hfinishing
    rcases hbefore with hbefore | hnot
    · obtain ⟨t, step, hstep, hne⟩ := h.request hbefore hfinishing
      exact ⟨t, step, by rw [hcall, hstep], hne⟩
    · exact absurd hfinishing hnot

variable [DecidableEq Thread] [DecidableEq Node]

theorem push (h : WakeInv s) {weak : Bool} {op : Node} {head : Head Node}
    (hcall : s.call t = .push op head) : WakeInv (s.push t weak op head) := by
  cases head with
  | closed =>
      apply h.moveCall t <;>
        simp +contextual [State.push, State.setCall, State.assertFailed, State.pending, hcall]
  | list top =>
      simp only [State.push]
      split <;> apply h.moveCall t <;>
        simp +contextual [State.setCall, State.pending, hcall]

/-- A notification reaches the consumer if it sleeps. Otherwise the consumer is
not about to, since the notifying thread holds the mutex. -/
theorem notify (h : WakeInv s) (hmutex : MutexInv owner s) (hphases : Phases owner s)
    {published : Published} (hcall : s.call t = .wake published .notify) :
    WakeInv (s.notify.setCall t (.wake published .unlock)) := by
  have hwaiting := h.waiting
  unfold State.notify
  split
  · next hasleep =>
      rw [hasleep] at hwaiting
      constructor <;>
        simp [State.setCall, State.setConsumer, Consumer.foundEmpty, Consumer.foundIdle]
      simpa [Consumer.waits] using hwaiting
  · next hawake =>
      have hholds := hmutex.not_holds hphases hcall rfl
      have hempty : s.consumer.foundEmpty = false := by
        cases hconsumer : s.consumer <;> simp_all [Consumer.holds, Consumer.foundEmpty]
      have hidle : s.consumer.foundIdle = false := by
        cases hconsumer : s.consumer <;> simp_all [Consumer.holds, Consumer.foundIdle]
      constructor <;> simp [State.setCall, hempty, hidle, hwaiting]

theorem wake (h : WakeInv s) (hmutex : MutexInv owner s) (hphases : Phases owner s)
    {published : Published} {step : WakeStep} (hcall : s.call t = .wake published step)
    (hstep : s.wake t published step = some s') : WakeInv s' := by
  cases step <;>
    simp only [State.wake, Option.some.injEq, Option.ite_none_right_eq_some] at hstep
  case load =>
    subst hstep
    apply h.moveCall t <;> simp +contextual [State.setCall, State.pending, hcall]
  case lock =>
    obtain ⟨-, rfl⟩ := hstep
    apply h.moveCall t <;> simp +contextual [State.setCall, State.pending, hcall]
  case notify =>
    subst hstep
    exact h.notify hmutex hphases hcall
  case unlock =>
    subst hstep
    apply h.moveCall t <;> simp +contextual [State.setCall, State.pending, hcall]

theorem stepCall (h : WakeInv s) (hmutex : MutexInv owner s) (hphases : Phases owner s)
    {weak : Bool} (hstep : s.stepCall t weak (s.call t) = some s') : WakeInv s' := by
  cases hcall : s.call t <;> simp only [hcall, State.stepCall, Option.some.injEq] at hstep
  case idle => cases hstep
  case wake published step => exact h.wake hmutex hphases hcall hstep
  case push op head =>
    subst hstep
    exact h.push hcall
  case finishStarting =>
    subst hstep
    unfold State.finishStarting
    split <;> apply h.moveCall t <;>
      simp +contextual [State.setCall, State.assertFailed, State.pending, hcall]
  case finishRunning =>
    subst hstep
    unfold State.finishRunning
    split <;> apply h.moveCall t <;>
      simp +contextual [State.setCall, State.assertFailed, State.pending, hcall]
  all_goals
    subst hstep
    apply h.moveCall t <;> simp +contextual [State.setCall, State.pending, hcall]

omit [DecidableEq Thread] in
/-- The predicate finds the queue empty when every push has been executed. -/
theorem predicateHead (h : WakeInv s) (hqueue : QueueInv s)
    (hconsumer : s.consumer = .predicateHead) :
    WakeInv (s.setConsumer (if s.hasWork then .unregister else .predicateState)) := by
  have hwaiting := h.waiting
  rw [hconsumer] at hwaiting
  split
  · apply h.moveConsumer <;>
      simp [State.setConsumer, Consumer.waits, Consumer.foundEmpty, Consumer.foundIdle, hwaiting]
  · next hwork =>
      apply h.moveConsumer <;>
        simp [State.setConsumer, Consumer.waits, Consumer.foundEmpty, Consumer.foundIdle, hwaiting]
      right
      rw [State.hasWork_iff, not_not] at hwork
      apply hqueue.executed_eq_pushed _ _ hwork <;>
        simp [hconsumer, Consumer.unreversed, Consumer.ordered]

omit [DecidableEq Thread] in
theorem stepConsumer (h : WakeInv s) (hqueue : QueueInv s) {weak : Bool}
    (hstep : s.stepConsumer owner weak s.consumer = some s') : WakeInv s' := by
  have hwaiting := h.waiting
  cases hconsumer : s.consumer <;>
    simp only [hconsumer, State.stepConsumer, Option.some.injEq,
      Option.ite_none_right_eq_some, reduceCtorEq] at hstep <;>
    simp only [hconsumer, Consumer.waits, Bool.false_eq_true, if_false, if_true] at hwaiting
  case predicateHead =>
    subst hstep
    exact h.predicateHead hqueue hconsumer
  case predicateState =>
    subst hstep
    split <;> apply h.moveConsumer <;>
      simp_all [State.setConsumer, Consumer.waits, Consumer.foundEmpty, Consumer.foundIdle]
  case sleep =>
    subst hstep
    apply h.moveConsumer <;>
      simp [State.setConsumer, hconsumer, Consumer.waits, Consumer.foundEmpty, Consumer.foundIdle,
        hwaiting]
  case beginRun =>
    subst hstep
    unfold State.beginRun
    split <;> apply h.moveConsumer <;>
      simp [State.setConsumer, State.assertFailed, Consumer.waits, Consumer.foundEmpty,
        Consumer.foundIdle, hwaiting]
  case popLoad closing =>
    subst hstep
    apply h.moveConsumer <;> simp [State.setConsumer, hwaiting]
  case popSwap closing operations =>
    subst hstep
    unfold State.popSwap
    split
    · apply h.moveConsumer <;>
        simp [State.setConsumer, Consumer.waits, Consumer.foundEmpty, Consumer.foundIdle, hwaiting]
    · apply h.moveConsumer <;> simp [State.setConsumer, hwaiting]
  case close =>
    subst hstep
    unfold State.close
    split <;> apply h.moveConsumer <;>
      simp [State.setConsumer, Consumer.waits, Consumer.foundEmpty, Consumer.foundIdle, hwaiting]
  case finished =>
    subst hstep
    unfold State.finished
    split <;> apply h.moveConsumer <;>
      simp [State.setConsumer, State.assertFailed, Consumer.waits, Consumer.foundEmpty,
        Consumer.foundIdle, hwaiting]
  case reverse operations reversed =>
    subst hstep
    cases operations <;> apply h.moveConsumer <;>
      simp [State.reverse, State.setConsumer, Consumer.waits, Consumer.foundEmpty,
        Consumer.foundIdle, hwaiting]
  case executeAll operations =>
    subst hstep
    cases operations <;> apply h.moveConsumer <;>
      simp [State.executeAll, State.setConsumer, Consumer.waits, Consumer.foundEmpty,
        Consumer.foundIdle, hwaiting]
  case loadState | drain =>
    subst hstep
    split <;> apply h.moveConsumer <;>
      simp [State.setConsumer, Consumer.waits, Consumer.foundEmpty, Consumer.foundIdle, hwaiting]
  case lock | relock =>
    obtain ⟨-, rfl⟩ := hstep
    apply h.moveConsumer <;>
      simp [State.setConsumer, Consumer.waits, Consumer.foundEmpty, Consumer.foundIdle, hwaiting]
  -- register, unregister and unlock
  all_goals
    subst hstep
    apply h.moveConsumer <;>
      simp [State.setConsumer, Consumer.waits, Consumer.foundEmpty, Consumer.foundIdle, hwaiting]

variable [Fintype Thread]

theorem step (h : WakeInv s) (hqueue : QueueInv s) (hmutex : MutexInv owner s)
    (hphases : Phases owner s) {a : Action Thread Node} (hstep : step owner s a = some s') :
    WakeInv s' := by
  have hwaiting := h.waiting
  cases a with
  | enqueue t op =>
      simp only [RunLoop.step, Option.ite_none_right_eq_some, Option.some.injEq] at hstep
      obtain ⟨⟨huser, -⟩, rfl⟩ := hstep
      simp only [State.atUser, Bool.and_eq_true, decide_eq_true_eq] at huser
      apply h.moveCall t <;> simp +contextual [State.setCall, State.pending, huser.1]
  | finish t =>
      simp only [RunLoop.step, Option.ite_none_right_eq_some, Option.some.injEq] at hstep
      obtain ⟨huser, rfl⟩ := hstep
      simp only [State.atUser, Bool.and_eq_true, decide_eq_true_eq] at huser
      apply h.moveCall t <;> simp +contextual [State.setCall, State.pending, huser.1]
  | run =>
      simp only [RunLoop.step, Option.ite_none_right_eq_some, Option.some.injEq] at hstep
      obtain ⟨⟨-, hconsumer⟩, rfl⟩ := hstep
      apply h.moveConsumer <;>
        simp [State.setConsumer, Consumer.waits, Consumer.foundEmpty, Consumer.foundIdle, hwaiting,
          hconsumer]
  | proceed t weak => exact h.stepCall hmutex hphases hstep
  | consume weak =>
      simp only [RunLoop.step, Option.ite_none_right_eq_some] at hstep
      exact h.stepConsumer hqueue hstep.2
  | wakeSpuriously =>
      simp only [RunLoop.step, Option.ite_none_right_eq_some, Option.some.injEq] at hstep
      obtain ⟨hconsumer, rfl⟩ := hstep
      apply h.moveConsumer <;>
        simp [State.setConsumer, Consumer.waits, Consumer.foundEmpty, Consumer.foundIdle, hwaiting,
          hconsumer]
  | ret =>
      simp only [RunLoop.step] at hstep
      split at hstep
      · next operations hconsumer =>
          simp only [Option.ite_none_right_eq_some, Option.some.injEq] at hstep
          obtain ⟨-, rfl⟩ := hstep
          apply h.moveConsumer <;>
            simp [State.setConsumer, Consumer.waits, Consumer.foundEmpty, Consumer.foundIdle,
              hwaiting, hconsumer]
      · cases hstep
  | reuse op next =>
      simp only [RunLoop.step, Option.ite_none_right_eq_some, Option.some.injEq] at hstep
      obtain ⟨-, rfl⟩ := hstep
      exact ⟨h.waiting, h.pushes, h.request⟩

end WakeInv

variable [DecidableEq Thread] [DecidableEq Node] [Fintype Thread] {owner : Thread}
  {s : State Thread Node}

theorem wakeInv_of_reachable (hs : (machine Thread Node owner).Reachable s) :
    MutexInv owner s ∧ WakeInv s := by
  apply hs.invariant
  · intro s hinit
    cases hinit
    exact ⟨MutexInv.initial, WakeInv.initial⟩
  · intro s a t hs h hstep
    have hphases := phases_of_reachable hs
    exact ⟨h.1.step hphases hstep, h.2.step (queueInv_of_reachable hs) h.1 hphases hstep⟩

/-- While the consumer sleeps, each push still queued and the request to finish
are about to be notified, on the path that does not skip the notification. -/
theorem no_lost_wakeup (hs : (machine Thread Node owner).Reachable s)
    (hasleep : s.consumer = .asleep) :
    s.waiting ≠ 0 ∧
      (∀ k, s.executed.length ≤ k → k < s.pushed.length → ∃ t, s.pending t (.push k)) ∧
      (s.state = .finishing → ∃ t, s.pending t .finishing) ∧
      (s.head ≠ .list none ∨ s.state = .finishing → ∃ t published, s.pending t published) := by
  have hqueue := queueInv_of_reachable hs
  have hphases := phases_of_reachable hs
  have h := (wakeInv_of_reachable hs).2
  have hempty : s.consumer.foundEmpty = true := by simp [hasleep, Consumer.foundEmpty]
  have hidle : s.consumer.foundIdle = true := by simp [hasleep, Consumer.foundIdle]
  refine ⟨h.waiting_ne_zero hempty, h.pushes hempty, h.request hidle, ?_⟩
  rintro (hhead | hfinishing)
  · have hopen : s.head ≠ .closed := by
      rw [Ne, hphases.closed, hasleep]
      simp [Consumer.hasClosed]
    obtain ⟨k, hle, hlt⟩ : ∃ k, s.executed.length ≤ k ∧ k < s.pushed.length := by
      refine ⟨s.executed.length, Nat.le_refl _, hqueue.length_lt ?_⟩
      cases hlist : s.head with
      | closed => exact absurd hlist hopen
      | list top => simpa [hlist, Head.top] using hhead
    obtain ⟨t, ht⟩ := h.pushes hempty k hle hlt
    exact ⟨t, _, ht⟩
  · obtain ⟨t, ht⟩ := h.request hidle hfinishing
    exact ⟨t, _, ht⟩

/-- The consumer goes to sleep, then a push succeeds. -/
def parkRun : List (Action Pair Pair) :=
  List.flatten [[.run], List.replicate 8 (.consume false), [.enqueue .second .first],
    List.replicate 3 (.proceed .second false)]

theorem parkRun_runs : ((machine Pair Pair .first).exec State.initial parkRun).isSome := by
  decide

def parked : State Pair Pair :=
  ((machine Pair Pair .first).exec State.initial parkRun).get parkRun_runs

theorem no_lost_wakeup_parked :
    parked.head = .list (some .first) ∧ ∃ t published, parked.pending t published :=
  ⟨by decide, (no_lost_wakeup (Machine.reachable_replay rfl parkRun parkRun_runs)
    (show parked.consumer = .asleep by decide)).2.2.2 (Or.inl (by decide))⟩

end Bexec.RunLoop
