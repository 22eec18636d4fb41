import Bexec.Foundation.Census
import Bexec.RunLoop.Queue

/-!
# Shutdown of a run loop

The owner destroys the loop as soon as `run` returns. Under the contract of
`finish` no other thread is inside the loop by then.
-/

namespace Bexec.RunLoop

open Foundation

variable {Thread Node : Type}

namespace Call

/-- The call has begun and is not yet counted in `producers_`. -/
def entering : Call Node → Bool
  | .enqueue _ => true
  | .finish => true
  | _ => false

/-- The call is counted in `producers_`. -/
def counted : Call Node → Bool
  | .idle => false
  | .enqueue _ => false
  | .finish => false
  | _ => true

/-- The call of `finish` has not yet changed `state_`. -/
def requesting : Call Node → Bool
  | .finish => true
  | .finishStarting => true
  | .finishRunning => true
  | _ => false

theorem eq_idle {call : Call Node} (hentering : call.entering = false)
    (hcounted : call.counted = false) : call = .idle := by
  cases call <;> simp_all [entering, counted]

end Call

/-- The consumer has seen `producers_` at zero after the request to finish. -/
def Consumer.drained : Consumer Node → Bool
  | .popLoad true => true
  | .popSwap true _ => true
  | .close => true
  | .finished => true
  | .returned => true
  | _ => false

theorem Consumer.allows_of_drained {consumer : Consumer Node} {state : LoopState}
    (hallows : consumer.allows state) (hdrained : consumer.drained = true) :
    state = .finishing ∨ state = .finished := by
  unfold Consumer.drained at hdrained
  split at hdrained <;> simp_all [Consumer.allows]

theorem popNext_drained {closing : Bool} {head : Head Node}
    (hdrained : (State.popNext closing head).drained = true) : closing = true := by
  unfold State.popNext at hdrained
  cases closing with
  | true => rfl
  | false => split at hdrained <;> simp [Consumer.drained] at hdrained

/-- The contract of `finish`: it is called once, when every `enqueue` by another
thread than that of `run` is at least counted in `producers_`, and no such
`enqueue` begins later. The thread of `run` may call `enqueue` until `run`
returns. -/
def orderly [Fintype Thread] [DecidableEq Thread] (owner : Thread) (s : State Thread Node) :
    Action Thread Node → Bool
  | .enqueue t _ =>
      if t = owner then
        match s.consumer with
        | .returned => false
        | _ => true
      else !s.finishCalled
  | .finish _ => !s.finishCalled && decide (∀ t, t ≠ owner → (s.call t).entering = false)
  | _ => true

structure ShutdownInv [Fintype Thread] (owner : Thread) (s : State Thread Node) : Prop where
  producers : s.producers = tally Call.counted s.call
  failed : s.failed = false
  early : s.finishCalled = false → (∀ t, (s.call t).requesting = false) ∧
    (s.state = .starting ∨ s.state = .running)
  single : ∀ t t', (s.call t).requesting = true → (s.call t').requesting = true → t = t'
  requesting : ∀ t, (s.call t).requesting = true → s.state = .starting ∨ s.state = .running
  running : ∀ t, s.call t = .finishRunning → s.state = .running
  late : s.finishCalled = true → ∀ t, t ≠ owner → ∀ op, s.call t ≠ .enqueue op
  idle : s.consumer.drained = true → ∀ t, s.call t = .idle

namespace ShutdownInv

variable [Fintype Thread] {owner t : Thread} {s s' : State Thread Node}

theorem initial : ShutdownInv owner (State.initial : State Thread Node) := by
  constructor <;> simp [State.initial, Call.requesting, Consumer.drained]
  simp [tally, Call.counted]

theorem finishCalled (h : ShutdownInv owner s)
    (hstate : s.state = .finishing ∨ s.state = .finished) : s.finishCalled = true := by
  by_contra hcalled
  rw [Bool.not_eq_true] at hcalled
  rcases (h.early hcalled).2 with heq | heq <;> simp [heq] at hstate

/-- What a step of a call does to `state_`: nothing, or it publishes the
request. -/
def Requests (s s' : State Thread Node) (t : Thread) : Prop :=
  s'.state = s.state ∧ ((s'.call t).requesting = true → (s.call t).requesting = true) ∧
      (s'.call t = .finishRunning → s.state = .running) ∨
    s'.state = .finishing ∧ (s.call t).requesting = true ∧ (s'.call t).requesting = false

variable [DecidableEq Thread]

/-- A step of a call in progress. -/
theorem moveCall (h : ShutdownInv owner s) (t : Thread) (hbusy : s.call t ≠ .idle)
    (hcalls : ∀ t', t' ≠ t → s'.call t' = s.call t')
    (hproducers : s'.producers + (if (s.call t).counted then 1 else 0) =
      s.producers + if (s'.call t).counted then 1 else 0)
    (hfailed : s'.failed = s.failed) (hfinish : s'.finishCalled = s.finishCalled)
    (hconsumer : s'.consumer.drained = s.consumer.drained)
    (hlate : ∀ op, s'.call t ≠ .enqueue op) (hrequests : Requests s s' t) :
    ShutdownInv owner s' := by
  have hcall : s'.call = Function.update s.call t (s'.call t) := by
    ext t'
    by_cases heq : t' = t
    · rw [heq, Function.update_self]
    · rw [Function.update_of_ne heq, hcalls t' heq]
  have hothers : ∀ t', (s'.call t').requesting = true → (s.call t').requesting = true := by
    intro t' hrequesting
    by_cases heq : t' = t
    · subst heq
      rcases hrequests with ⟨-, hkeep, -⟩ | ⟨-, -, hdrop⟩
      · exact hkeep hrequesting
      · rw [hdrop] at hrequesting
        cases hrequesting
    · exact hcalls t' heq ▸ hrequesting
  have hstill : ∀ t', (s'.call t').requesting = true →
      s'.state = s.state ∧ (t' = t → s'.call t = .finishRunning → s.state = .running) := by
    intro t' hrequesting
    rcases hrequests with ⟨hstate, -, hrunning⟩ | ⟨-, hbefore, hafter⟩
    · exact ⟨hstate, fun _ => hrunning⟩
    · have heq := h.single t' t (hothers t' hrequesting) hbefore
      rw [heq, hafter] at hrequesting
      cases hrequesting
  constructor
  · have htally := tally_update Call.counted s.call t (s'.call t)
    rw [← hcall] at htally
    have hbefore := h.producers
    cases hold : (s.call t).counted <;> cases hnew : (s'.call t).counted <;>
      simp only [hold, hnew, Bool.false_eq_true, if_false, if_true] at htally hproducers <;> omega
  · rw [hfailed]
    exact h.failed
  · rw [hfinish]
    intro hcalled
    obtain ⟨hnone, hstate⟩ := h.early hcalled
    refine ⟨fun t' => ?_, ?_⟩
    · by_contra hrequesting
      rw [Bool.not_eq_false] at hrequesting
      have hbefore := hothers t' hrequesting
      rw [hnone] at hbefore
      cases hbefore
    · rcases hrequests with ⟨hsame, -⟩ | ⟨-, hbefore, -⟩
      · rw [hsame]
        exact hstate
      · rw [hnone] at hbefore
        cases hbefore
  · exact fun t₁ t₂ h₁ h₂ => h.single t₁ t₂ (hothers t₁ h₁) (hothers t₂ h₂)
  · intro t' hrequesting
    rw [(hstill t' hrequesting).1]
    exact h.requesting t' (hothers t' hrequesting)
  · intro t' hrunning
    have hkept := hstill t' (by rw [hrunning]; rfl)
    rw [hkept.1]
    by_cases heq : t' = t
    · exact hkept.2 heq (heq ▸ hrunning)
    · exact h.running t' (hcalls t' heq ▸ hrunning)
  · rw [hfinish]
    intro hcalled t' hother op
    by_cases heq : t' = t
    · rw [heq]
      exact hlate op
    · rw [hcalls t' heq]
      exact h.late hcalled t' hother op
  · intro hdrained
    rw [hconsumer] at hdrained
    exact absurd (h.idle hdrained t) hbusy

variable [DecidableEq Node]

/-- `enqueue` does not find the stack closed. -/
theorem push (h : ShutdownInv owner s) (hphases : Phases owner s) {weak : Bool} {op : Node}
    {head : Head Node} (hcall : s.call t = .push op head) :
    ShutdownInv owner (s.push t weak op head) := by
  cases head with
  | closed =>
      have hclosed := hphases.closed.mp (hphases.seen t op hcall)
      have hdrained : s.consumer.drained = true := by
        cases hconsumer : s.consumer <;> simp_all [Consumer.hasClosed, Consumer.drained]
      have hidle := h.idle hdrained t
      rw [hcall] at hidle
      cases hidle
  | list top =>
      simp only [State.push]
      split <;> apply h.moveCall t (by simp [hcall]) <;>
        simp +contextual [State.setCall, Requests, hcall, Call.counted, Call.requesting]

omit [DecidableEq Node] in
theorem finishStarting (h : ShutdownInv owner s) (hcall : s.call t = .finishStarting) :
    ShutdownInv owner (s.finishStarting t) := by
  have hstate := h.requesting t (by simp [hcall, Call.requesting])
  unfold State.finishStarting
  rcases hstate with hstate | hstate <;> rw [hstate] <;>
    apply h.moveCall t (by simp [hcall]) <;>
    simp +contextual [State.setCall, Requests, hcall, Call.counted, Call.requesting, hstate]

omit [DecidableEq Node] in
theorem finishRunning (h : ShutdownInv owner s) (hcall : s.call t = .finishRunning) :
    ShutdownInv owner (s.finishRunning t) := by
  have hstate := h.running t hcall
  unfold State.finishRunning
  rw [if_pos hstate]
  apply h.moveCall t (by simp [hcall]) <;>
    simp +contextual [State.setCall, Requests, hcall, Call.counted, Call.requesting]

theorem wake (h : ShutdownInv owner s) {published : Published} {step : WakeStep}
    (hcall : s.call t = .wake published step) (hstep : s.wake t published step = some s') :
    ShutdownInv owner s' := by
  cases step <;>
    simp only [State.wake, Option.some.injEq, Option.ite_none_right_eq_some] at hstep
  case load =>
    subst hstep
    split <;> apply h.moveCall t (by simp [hcall]) <;>
      simp +contextual [State.setCall, Requests, hcall, Call.counted, Call.requesting]
  case lock =>
    obtain ⟨-, rfl⟩ := hstep
    apply h.moveCall t (by simp [hcall]) <;>
      simp +contextual [State.setCall, Requests, hcall, Call.counted, Call.requesting]
  case notify =>
    subst hstep
    unfold State.notify
    split <;> apply h.moveCall t (by simp [hcall]) <;>
      simp +contextual [State.setCall, State.setConsumer, Requests, Call.counted, Call.requesting,
        Consumer.drained, *]
  case unlock =>
    subst hstep
    apply h.moveCall t (by simp [hcall]) <;>
      simp +contextual [State.setCall, Requests, hcall, Call.counted, Call.requesting]

theorem stepCall (h : ShutdownInv owner s) (hphases : Phases owner s) {weak : Bool}
    (hstep : s.stepCall t weak (s.call t) = some s') : ShutdownInv owner s' := by
  cases hcall : s.call t <;> simp only [hcall, State.stepCall, Option.some.injEq] at hstep
  case idle => cases hstep
  case push op head =>
    subst hstep
    exact h.push hphases hcall
  case finishStarting =>
    subst hstep
    exact h.finishStarting hcall
  case finishRunning =>
    subst hstep
    exact h.finishRunning hcall
  case wake published step => exact h.wake hcall hstep
  all_goals
    subst hstep
    apply h.moveCall t (by simp [hcall]) <;>
      simp +contextual [State.setCall, Requests, hcall, Call.counted, Call.requesting]

omit [DecidableEq Thread] [DecidableEq Node] in
/-- A step of the consumer. -/
theorem moveConsumer (h : ShutdownInv owner s) (hcall : s'.call = s.call)
    (hproducers : s'.producers = s.producers) (hfailed : s'.failed = s.failed)
    (hfinish : s'.finishCalled = s.finishCalled)
    (hstate : s'.state = s.state ∨ s.state = .starting ∧ s'.state = .running ∨
      s.state = .finishing ∧ s'.state = .finished)
    (hdrained : s'.consumer.drained = true → s.consumer.drained = true ∨ ∀ t, s.call t = .idle) :
    ShutdownInv owner s' := by
  have hbefore : ∀ {P : Prop}, (P → s.state = .starting ∨ s.state = .running) → P →
      s'.state = .starting ∨ s'.state = .running := by
    intro P hopen hp
    rcases hstate with hsame | ⟨-, hafter⟩ | ⟨hfinishing, -⟩
    · rw [hsame]
      exact hopen hp
    · exact Or.inr hafter
    · rcases hopen hp with heq | heq <;> simp [hfinishing] at heq
  constructor
  · rw [hproducers, hcall]
    exact h.producers
  · rw [hfailed]
    exact h.failed
  · rw [hfinish, hcall]
    intro hcalled
    obtain ⟨hnone, hopen⟩ := h.early hcalled
    exact ⟨hnone, hbefore (fun _ => hopen) trivial⟩
  · rw [hcall]
    exact h.single
  · rw [hcall]
    exact fun t => hbefore (h.requesting t)
  · rw [hcall]
    intro t hrunning
    have hnow := h.running t hrunning
    rcases hstate with hsame | ⟨hstarting, -⟩ | ⟨hfinishing, -⟩
    · rw [hsame, hnow]
    · simp [hstarting] at hnow
    · simp [hfinishing] at hnow
  · rw [hfinish, hcall]
    exact h.late
  · rw [hcall]
    intro hafter
    rcases hdrained hafter with hbefore | hidle
    · exact h.idle hbefore
    · exact hidle

omit [DecidableEq Thread] [DecidableEq Node] in
/-- Once `producers_` is seen at zero after the request, no call is left. -/
theorem idle_of_drain (h : ShutdownInv owner s) (hstate : s.state = .finishing)
    (hidle : s.call owner = .idle) (hproducers : s.producers = 0) (t : Thread) :
    s.call t = .idle := by
  have hcount : tally Call.counted s.call = 0 := by
    have hcast := h.producers
    omega
  have hcounted := tally_eq_zero.mp hcount t
  by_cases howner : t = owner
  · rw [howner]
    exact hidle
  · apply Call.eq_idle _ hcounted
    have hlate := h.late (h.finishCalled (Or.inl hstate)) t howner
    have hrequesting := h.requesting t
    cases hcall : s.call t <;>
      simp_all [Call.entering, Call.requesting]

omit [DecidableEq Thread] in
theorem stepConsumer (h : ShutdownInv owner s) (hphases : Phases owner s)
    (hidle : s.call owner = .idle) {weak : Bool}
    (hstep : s.stepConsumer owner weak s.consumer = some s') : ShutdownInv owner s' := by
  have hstate := hphases.state
  cases hconsumer : s.consumer <;>
    simp only [hconsumer, State.stepConsumer, Option.some.injEq,
      Option.ite_none_right_eq_some, reduceCtorEq] at hstep <;>
    simp only [hconsumer] at hstate
  case beginRun =>
    subst hstep
    unfold State.beginRun
    rcases hstate with hstate | hstate <;> rw [hstate] <;> apply h.moveConsumer <;>
      simp [State.setConsumer, Consumer.drained, hstate]
  case drain =>
    subst hstep
    split
    · next hzero =>
        apply h.moveConsumer <;> simp [State.setConsumer]
        exact fun _ => Or.inr (h.idle_of_drain hstate hidle hzero)
    · apply h.moveConsumer <;> simp [State.setConsumer, Consumer.drained]
  case finished =>
    subst hstep
    unfold State.finished
    simp only [Consumer.allows] at hstate
    rw [if_pos hstate]
    apply h.moveConsumer <;> simp [State.setConsumer, hconsumer, Consumer.drained, hstate]
  case close =>
    subst hstep
    unfold State.close
    split <;> apply h.moveConsumer <;> simp [State.setConsumer, hconsumer, Consumer.drained]
  case popLoad closing =>
    subst hstep
    apply h.moveConsumer <;> simp [State.setConsumer]
    intro hdrained
    rw [popNext_drained hdrained] at hconsumer
    exact Or.inl (by simp [hconsumer, Consumer.drained])
  case popSwap closing operations =>
    subst hstep
    unfold State.popSwap
    split
    · apply h.moveConsumer <;> simp [State.setConsumer, Consumer.drained]
    · apply h.moveConsumer <;> simp [State.setConsumer]
      intro hdrained
      rw [popNext_drained hdrained] at hconsumer
      exact Or.inl (by simp [hconsumer, Consumer.drained])
  case reverse operations reversed =>
    subst hstep
    cases operations <;> apply h.moveConsumer <;>
      simp [State.reverse, State.setConsumer, Consumer.drained]
  case executeAll operations =>
    subst hstep
    cases operations <;> apply h.moveConsumer <;>
      simp [State.executeAll, State.setConsumer, Consumer.drained]
  case loadState | predicateHead | predicateState =>
    subst hstep
    split <;> apply h.moveConsumer <;> simp [State.setConsumer, Consumer.drained]
  case lock | relock =>
    obtain ⟨-, rfl⟩ := hstep
    apply h.moveConsumer <;> simp [State.setConsumer, Consumer.drained]
  -- register, sleep, unregister and unlock
  all_goals
    subst hstep
    apply h.moveConsumer <;> simp [State.setConsumer, Consumer.drained]

/-- A call of `enqueue` that keeps the contract. -/
theorem enqueue (h : ShutdownInv owner s) (hphases : Phases owner s) {op : Node}
    (huser : s.atUser owner t = true) (horderly : orderly owner s (.enqueue t op) = true) :
    ShutdownInv owner (s.setCall t (.enqueue op)) := by
  simp only [State.atUser, Bool.and_eq_true, Bool.or_eq_true, decide_eq_true_eq] at huser
  obtain ⟨hidle, hcontrol⟩ := huser
  have hother : t ≠ owner → s.finishCalled = false := by
    intro hne
    simpa [orderly, hne] using horderly
  have hopen : s.consumer.drained = false := by
    by_contra hdrained
    rw [Bool.not_eq_false] at hdrained
    by_cases howner : t = owner
    · have huser := hcontrol.resolve_left (not_not.mpr howner)
      cases hconsumer : s.consumer <;>
        simp_all [orderly, Consumer.atUser, Consumer.drained]
    · have hcalled := h.finishCalled (Consumer.allows_of_drained hphases.state hdrained)
      rw [hother howner] at hcalled
      cases hcalled
  have hrequesting : ∀ t', (Function.update s.call t (.enqueue op) t').requesting = true →
      (s.call t').requesting = true := by
    intro t' hafter
    by_cases heq : t' = t
    · simp [heq, Call.requesting] at hafter
    · simpa [Function.update_of_ne heq] using hafter
  constructor
  · rw [State.setCall, tally_update_same]
    · exact h.producers
    · simp [hidle, Call.counted]
  · exact h.failed
  · intro hcalled
    obtain ⟨hnone, hstate⟩ := h.early hcalled
    refine ⟨fun t' => ?_, hstate⟩
    by_contra hafter
    have hbefore := hrequesting t' (by simpa [State.setCall] using hafter)
    rw [hnone] at hbefore
    cases hbefore
  · exact fun t₁ t₂ h₁ h₂ => h.single t₁ t₂ (hrequesting t₁ h₁) (hrequesting t₂ h₂)
  · exact fun t' hafter => h.requesting t' (hrequesting t' hafter)
  · intro t' hrunning
    by_cases heq : t' = t
    · simp [State.setCall, heq] at hrunning
    · exact h.running t' (by simpa [State.setCall, Function.update_of_ne heq] using hrunning)
  · intro hcalled t' hne op'
    by_cases heq : t' = t
    · subst heq
      simp [State.setCall, hother hne] at hcalled
    · simpa [State.setCall, Function.update_of_ne heq] using h.late hcalled t' hne op'
  · intro hdrained
    simp [State.setCall, hopen] at hdrained

/-- The one call of `finish`. -/
theorem finish (h : ShutdownInv owner s) (hphases : Phases owner s)
    (huser : s.atUser owner t = true)
    (horderly : orderly owner s (.finish t : Action Thread Node) = true) :
    ShutdownInv owner ({ s with finishCalled := true }.setCall t .finish) := by
  simp only [State.atUser, Bool.and_eq_true, decide_eq_true_eq] at huser
  simp only [orderly, Bool.and_eq_true, Bool.not_eq_true', decide_eq_true_eq] at horderly
  obtain ⟨hfirst, hcounted⟩ := horderly
  obtain ⟨hnone, hstate⟩ := h.early hfirst
  have hother : ∀ t', (Function.update s.call t .finish t').requesting = true → t' = t := by
    intro t' hafter
    by_contra heq
    rw [Function.update_of_ne heq, hnone] at hafter
    cases hafter
  constructor
  · rw [State.setCall, tally_update_same]
    · exact h.producers
    · simp [huser.1, Call.counted]
  · exact h.failed
  · simp [State.setCall]
  · intro t₁ t₂ h₁ h₂
    rw [hother t₁ h₁, hother t₂ h₂]
  · exact fun _ _ => hstate
  · intro t' hrunning
    by_cases heq : t' = t
    · simp [State.setCall, heq] at hrunning
    · exact h.running t' (by simpa [State.setCall, Function.update_of_ne heq] using hrunning)
  · intro _ t' hne op hcall
    by_cases heq : t' = t
    · simp [State.setCall, heq] at hcall
    · have hentering := hcounted t' hne
      simp only [State.setCall, Function.update_of_ne heq] at hcall
      simp [hcall, Call.entering] at hentering
  · intro hdrained
    have hlate := Consumer.allows_of_drained hphases.state hdrained
    rcases hstate with hstate | hstate <;> simp [hstate] at hlate

theorem step (h : ShutdownInv owner s) (hphases : Phases owner s) {a : Action Thread Node}
    (horderly : orderly owner s a = true) (hstep : step owner s a = some s') :
    ShutdownInv owner s' := by
  cases a with
  | enqueue t op =>
      simp only [RunLoop.step, Option.ite_none_right_eq_some, Option.some.injEq] at hstep
      obtain ⟨⟨huser, -⟩, rfl⟩ := hstep
      exact h.enqueue hphases huser horderly
  | finish t =>
      simp only [RunLoop.step, Option.ite_none_right_eq_some, Option.some.injEq] at hstep
      obtain ⟨huser, rfl⟩ := hstep
      exact h.finish hphases huser horderly
  | run =>
      simp only [RunLoop.step, Option.ite_none_right_eq_some, Option.some.injEq] at hstep
      obtain ⟨-, rfl⟩ := hstep
      apply h.moveConsumer <;> simp [State.setConsumer, Consumer.drained]
  | proceed t weak => exact h.stepCall hphases hstep
  | consume weak =>
      simp only [RunLoop.step, Option.ite_none_right_eq_some] at hstep
      exact h.stepConsumer hphases hstep.1 hstep.2
  | wakeSpuriously =>
      simp only [RunLoop.step, Option.ite_none_right_eq_some, Option.some.injEq] at hstep
      obtain ⟨-, rfl⟩ := hstep
      apply h.moveConsumer <;> simp [State.setConsumer, Consumer.drained]
  | ret =>
      simp only [RunLoop.step] at hstep
      split at hstep
      · simp only [Option.ite_none_right_eq_some, Option.some.injEq] at hstep
        obtain ⟨-, rfl⟩ := hstep
        apply h.moveConsumer <;> simp [State.setConsumer, Consumer.drained]
      · cases hstep
  | reuse op next =>
      simp only [RunLoop.step, Option.ite_none_right_eq_some, Option.some.injEq] at hstep
      obtain ⟨-, rfl⟩ := hstep
      apply h.moveConsumer <;> simp +contextual

end ShutdownInv

variable [Fintype Thread] [DecidableEq Thread] [DecidableEq Node] {owner : Thread}
  {s : State Thread Node} {trace : List (State Thread Node × Action Thread Node)}

theorem shutdownInv_of_run (hrun : (machine Thread Node owner).Run State.initial trace s)
    (horderly : ∀ p ∈ trace, orderly owner p.1 p.2 = true) : ShutdownInv owner s := by
  have hpres : ∀ s a s', Phases owner s ∧ ShutdownInv owner s → orderly owner s a = true →
      (machine Thread Node owner).step s a = some s' → Phases owner s' ∧ ShutdownInv owner s' := by
    rintro s a s' ⟨hphases, h⟩ horderly hstep
    exact ⟨hphases.step hstep, h.step hphases horderly hstep⟩
  have hboth := (hrun.invariant_where hpres horderly
    ⟨Phases.initial, ShutdownInv.initial⟩).1
  exact hboth.2

/-- In a run that keeps the contract no assertion fails, and once `run` has
returned the loop is closed, every push has been executed and no thread is
inside the loop. -/
theorem shutdown_safe (hrun : (machine Thread Node owner).Run State.initial trace s)
    (horderly : ∀ p ∈ trace, orderly owner p.1 p.2 = true) :
    s.failed = false ∧ (s.consumer = .returned →
      s.state = .finished ∧ s.head = .closed ∧ s.producers = 0 ∧ (∀ t, s.call t = .idle) ∧
        s.executed = s.pushed) := by
  have h := shutdownInv_of_run hrun horderly
  have hs := (Machine.Reachable.initial rfl).run hrun
  have hphases := phases_of_reachable hs
  refine ⟨h.failed, ?_⟩
  intro hreturned
  have hidle := h.idle (by simp [hreturned, Consumer.drained])
  have hstate := hphases.state
  rw [hreturned] at hstate
  refine ⟨hstate, hphases.closed.mpr (by simp [hreturned, Consumer.hasClosed]), ?_, hidle,
    (queueInv_of_reachable hs).drained hphases hreturned⟩
  rw [h.producers, tally_eq_zero.mpr]
  · rfl
  · intro t
    simp [hidle t, Call.counted]

/-- An operation calls `finish` while the thread that pushed it is still inside
`enqueue`. -/
def finishInsideRun : List (Action Pair Pair) :=
  List.flatten [[.enqueue .second .first], List.replicate 3 (.proceed .second false), [.run],
    List.replicate 6 (.consume false), [.finish .first], List.replicate 5 (.proceed .first false),
    [.ret], List.replicate 4 (.consume false), List.replicate 2 (.proceed .second false),
    List.replicate 4 (.consume false)]

theorem shutdown_safe_finishInside :
    ∃ s : State Pair Pair, s.executed = [.first] ∧ s.state = .finished ∧ s.producers = 0 := by
  obtain ⟨trace, hrun, horderly⟩ := Machine.exists_run_where (machine Pair Pair .first)
    (fun s a => orderly .first s a = true) (s := .initial) finishInsideRun (by decide)
  have hsafe := (shutdown_safe hrun horderly).2 (by decide)
  exact ⟨_, by decide, hsafe.1, hsafe.2.2.1⟩

end Bexec.RunLoop
