import Bexec.RunLoop.Release

/-!
# A run loop that was told to finish

Once `finish` was called the loop needs nobody but the calls that are inside it,
the consumer and the operations that have control: wherever they are, they can
go on until `run` returns.
-/

namespace Bexec.RunLoop

open Foundation

variable {Thread Node : Type} [Fintype Thread] [DecidableEq Thread] [DecidableEq Node]
  {owner t : Thread} {s s' : State Thread Node}

/-- The steps that bring no new work and depend on nobody outside. -/
def internal : Action Thread Node → Bool
  | .run => true
  | .proceed _ weak => !weak
  | .consume weak => !weak
  | .ret => true
  | _ => false

/-- The loop left to itself. -/
abbrev draining (Thread Node : Type) [Fintype Thread] [DecidableEq Thread] [DecidableEq Node]
    (owner : Thread) : Machine (State Thread Node) (Action Thread Node) :=
  (machine Thread Node owner).restrict fun _ a => internal a = true

omit [Fintype Thread] [DecidableEq Thread] [DecidableEq Node] in
theorem internal_cases {a : Action Thread Node} (ha : internal a = true) :
    a = .run ∨ (∃ t, a = .proceed t false) ∨ a = .consume false ∨ a = .ret := by
  cases a with
  | proceed t weak => simp_all [internal]
  | consume weak => simp_all [internal]
  | run => simp
  | ret => simp
  | _ => cases ha

theorem Sound.drain {a : Action Thread Node} (h : Sound owner s)
    (hstep : (draining Thread Node owner).step s a = some s') : Sound owner s' := by
  simp only [draining, Machine.restrict, Option.ite_none_right_eq_some] at hstep
  obtain ⟨hinternal, hstep⟩ := hstep
  refine h.step ?_ hstep
  rcases internal_cases hinternal with rfl | ⟨t, rfl⟩ | rfl | rfl <;> rfl

/-- What a step of a call leaves alone. -/
structure CallFrame (t : Thread) (s s' : State Thread Node) : Prop where
  finishCalled : s'.finishCalled = s.finishCalled
  others : ∀ t', t' ≠ t → s'.call t' = s.call t'
  consumer : s'.consumer = s.consumer ∨ s.consumer = .asleep

omit [Fintype Thread] [DecidableEq Node] in
theorem callFrame_setCall {base : State Thread Node} {call : Call Node}
    (hfinish : base.finishCalled = s.finishCalled) (hcall : base.call = s.call)
    (hconsumer : base.consumer = s.consumer ∨ s.consumer = .asleep) :
    CallFrame t s (base.setCall t call) where
  finishCalled := hfinish
  others t' hother := by simp [State.setCall, hcall, hother]
  consumer := hconsumer

omit [Fintype Thread] in
theorem stepCall_frame {weak : Bool} {call : Call Node}
    (hstep : s.stepCall t weak call = some s') : CallFrame t s s' := by
  cases call <;> simp only [State.stepCall, Option.some.injEq, reduceCtorEq] at hstep
  case wake published step =>
    cases step <;>
      simp only [State.wake, Option.some.injEq, Option.ite_none_right_eq_some] at hstep
    case lock =>
      obtain ⟨-, rfl⟩ := hstep
      exact callFrame_setCall rfl rfl (.inl rfl)
    case notify =>
      subst hstep
      unfold State.notify
      split
      next hasleep => exact callFrame_setCall rfl rfl (.inr hasleep)
      next => exact callFrame_setCall rfl rfl (.inl rfl)
    all_goals
      subst hstep
      exact callFrame_setCall rfl rfl (.inl rfl)
  case push op head =>
    subst hstep
    cases head with
    | closed => exact callFrame_setCall rfl rfl (.inl rfl)
    | list top =>
        unfold State.push
        dsimp only
        split <;> exact callFrame_setCall rfl rfl (.inl rfl)
  case finishStarting =>
    subst hstep
    unfold State.finishStarting
    split <;> exact callFrame_setCall rfl rfl (.inl rfl)
  case finishRunning =>
    subst hstep
    unfold State.finishRunning
    split <;> exact callFrame_setCall rfl rfl (.inl rfl)
  all_goals
    subst hstep
    exact callFrame_setCall rfl rfl (.inl rfl)

omit [Fintype Thread] [DecidableEq Thread] in
theorem stepConsumer_keeps {weak : Bool} {consumer : Consumer Node}
    (hstep : s.stepConsumer owner weak consumer = some s') :
    s'.call = s.call ∧ s'.finishCalled = s.finishCalled := by
  cases consumer <;>
    simp only [State.stepConsumer, Option.some.injEq, Option.ite_none_right_eq_some,
      reduceCtorEq] at hstep
  case lock =>
    obtain ⟨-, rfl⟩ := hstep
    exact ⟨rfl, rfl⟩
  case relock =>
    obtain ⟨-, rfl⟩ := hstep
    exact ⟨rfl, rfl⟩
  case beginRun =>
    subst hstep
    unfold State.beginRun
    split <;> exact ⟨rfl, rfl⟩
  case popSwap closing operations =>
    subst hstep
    unfold State.popSwap
    split <;> exact ⟨rfl, rfl⟩
  case close =>
    subst hstep
    unfold State.close
    split <;> exact ⟨rfl, rfl⟩
  case finished =>
    subst hstep
    unfold State.finished
    split <;> exact ⟨rfl, rfl⟩
  case reverse operations reversed =>
    subst hstep
    unfold State.reverse
    split <;> exact ⟨rfl, rfl⟩
  case executeAll operations =>
    subst hstep
    unfold State.executeAll
    split <;> exact ⟨rfl, rfl⟩
  all_goals
    subst hstep
    exact ⟨rfl, rfl⟩

/-- Only a call of `finish` is recorded as one. -/
theorem step_finishCalled {a : Action Thread Node} (hother : ∀ t, a ≠ .finish t)
    (hstep : step owner s a = some s') : s'.finishCalled = s.finishCalled := by
  cases a with
  | finish t => exact absurd rfl (hother t)
  | proceed t weak => exact (stepCall_frame hstep).finishCalled
  | consume weak =>
      simp only [RunLoop.step, Option.ite_none_right_eq_some] at hstep
      exact (stepConsumer_keeps hstep.2).2
  | ret =>
      simp only [RunLoop.step] at hstep
      split at hstep
      · simp only [Option.ite_none_right_eq_some, Option.some.injEq] at hstep
        obtain ⟨-, rfl⟩ := hstep
        rfl
      · cases hstep
  | _ =>
      simp only [RunLoop.step, Option.ite_none_right_eq_some, Option.some.injEq] at hstep
      obtain ⟨-, rfl⟩ := hstep
      rfl

theorem draining_keeps {a : Action Thread Node}
    (hstep : (draining Thread Node owner).step s a = some s') :
    s'.finishCalled = s.finishCalled := by
  simp only [draining, Machine.restrict, Option.ite_none_right_eq_some, machine] at hstep
  obtain ⟨hinternal, hstep⟩ := hstep
  apply step_finishCalled ?_ hstep
  rintro t rfl
  cases hinternal

/-! ## Calls -/

/-- The call of a thread can return, with the mutex released. -/
def Quits (owner t : Thread) (s : State Thread Node) : Prop :=
  (draining Thread Node owner).CanReach
    (fun s' => s'.mutex = none ∧ s'.call = Function.update s.call t .idle) s

namespace Quits

theorem proceed (base : State Thread Node) (call : Call Node)
    (hstep : s.stepCall t false (s.call t) = some (base.setCall t call))
    (hbase : base.call = s.call) (h : Quits owner t (base.setCall t call)) : Quits owner t s := by
  refine .later (a := .proceed t false) (t := base.setCall t call) ?_ ?_
  · simpa [draining, Machine.restrict, internal, machine, step] using hstep
  · simpa [Quits, State.setCall, hbase] using h

theorem leave (hcall : s.call t = .leave) (hmutex : s.mutex = none) : Quits owner t s := by
  refine .later (a := .proceed t false) (t := { s with producers := s.producers - 1 }.setCall t
    .idle) ?_ (.now ?_)
  · simp [draining, Machine.restrict, internal, machine, step, hcall, State.stepCall]
  · simp [State.setCall, hmutex]

theorem unlock (published : Published) (hcall : s.call t = .wake published .unlock) :
    Quits owner t s := by
  apply proceed { s with mutex := none } .leave
  · simp [hcall, State.stepCall, State.wake]
  · rfl
  · exact leave (by simp [State.setCall]) rfl

theorem notify (published : Published) (hcall : s.call t = .wake published .notify) :
    Quits owner t s := by
  apply proceed s.notify (.wake published .unlock)
  · simp [hcall, State.stepCall, State.wake]
  · unfold State.notify
    split <;> rfl
  · exact unlock published (by simp [State.setCall])

theorem lock (published : Published) (hcall : s.call t = .wake published .lock)
    (hmutex : s.mutex = none) : Quits owner t s := by
  apply proceed { s with mutex := some t } (.wake published .notify)
  · simp [hcall, State.stepCall, State.wake, hmutex]
  · rfl
  · exact notify published (by simp [State.setCall])

theorem load (published : Published) (hcall : s.call t = .wake published .load)
    (hmutex : s.mutex = none) : Quits owner t s := by
  by_cases hwaiting : s.waiting = 0
  · apply proceed s .leave
    · simp [hcall, State.stepCall, State.wake, hwaiting]
    · rfl
    · exact leave (by simp [State.setCall]) hmutex
  · apply proceed s (.wake published .lock)
    · simp [hcall, State.stepCall, State.wake, hwaiting]
    · rfl
    · exact lock published (by simp [State.setCall]) hmutex

/-- The compare-exchange succeeds when nothing came in between. -/
theorem pushFresh (op : Node) (hcall : s.call t = .push op s.head) (hmutex : s.mutex = none) :
    Quits owner t s := by
  cases hhead : s.head with
  | closed =>
      apply proceed s.assertFailed .leave
      · simp [hcall, hhead, State.stepCall, State.push]
      · rfl
      · exact leave (by simp [State.setCall]) hmutex
  | list top =>
      apply proceed { s with
        next := Function.update s.next op top
        head := .list (some op)
        pushed := s.pushed ++ [op] } (.wake (.push s.pushed.length) .load)
      · simp [hcall, hhead, State.stepCall, State.push]
      · rfl
      · exact load (.push s.pushed.length) (by simp [State.setCall]) hmutex

theorem push {op : Node} {head : Head Node} (hcall : s.call t = .push op head)
    (hmutex : s.mutex = none) : Quits owner t s := by
  cases head with
  | closed =>
      apply proceed s.assertFailed .leave
      · simp [hcall, State.stepCall, State.push]
      · rfl
      · exact leave (by simp [State.setCall]) hmutex
  | list top =>
      by_cases hfresh : s.head = .list top
      · exact pushFresh op (hfresh ▸ hcall) hmutex
      · apply proceed { s with next := Function.update s.next op top }
          (.push op s.head)
        · simp [hcall, State.stepCall, State.push, hfresh]
        · rfl
        · exact pushFresh op (by simp [State.setCall]) hmutex

theorem finishRunning (hcall : s.call t = .finishRunning) (hmutex : s.mutex = none) :
    Quits owner t s := by
  by_cases hstate : s.state = .running
  · apply proceed { s with state := .finishing } (.wake .finishing .load)
    · simp [hcall, State.stepCall, State.finishRunning, hstate]
    · rfl
    · exact load .finishing (by simp [State.setCall]) hmutex
  · apply proceed s.assertFailed .leave
    · simp [hcall, State.stepCall, State.finishRunning, hstate]
    · rfl
    · exact leave (by simp [State.setCall]) hmutex

theorem finishStarting (hcall : s.call t = .finishStarting) (hmutex : s.mutex = none) :
    Quits owner t s := by
  cases hstate : s.state with
  | starting =>
      apply proceed { s with state := .finishing } (.wake .finishing .load)
      · simp [hcall, State.stepCall, State.finishStarting, hstate]
      · rfl
      · exact load .finishing (by simp [State.setCall]) hmutex
  | running =>
      apply proceed s .finishRunning
      · simp [hcall, State.stepCall, State.finishStarting, hstate]
      · rfl
      · exact finishRunning (by simp [State.setCall]) hmutex
  | _ =>
      apply proceed s.assertFailed .leave
      · simp [hcall, State.stepCall, State.finishStarting, hstate]
      · rfl
      · exact leave (by simp [State.setCall]) hmutex

/-- Every call can return once the mutex is free. -/
theorem of_free (hbusy : s.call t ≠ .idle) (hmutex : s.mutex = none) : Quits owner t s := by
  have hloadHead : ∀ (s : State Thread Node) (op : Node), s.call t = .loadHead op →
      s.mutex = none → Quits owner t s := by
    intro s op hcall hmutex
    apply proceed s (.push op s.head)
    · simp [hcall, State.stepCall]
    · rfl
    · exact pushFresh op (by simp [State.setCall]) hmutex
  cases hcall : s.call t with
  | idle => exact absurd hcall hbusy
  | enqueue op =>
      apply proceed { s with producers := s.producers + 1 } (.loadHead op)
      · simp [hcall, State.stepCall]
      · rfl
      · exact hloadHead _ op (by simp [State.setCall]) hmutex
  | loadHead op => exact hloadHead s op hcall hmutex
  | push op head => exact push hcall hmutex
  | finish =>
      apply proceed { s with producers := s.producers + 1 } .finishStarting
      · simp [hcall, State.stepCall]
      · rfl
      · exact finishStarting (by simp [State.setCall]) hmutex
  | finishStarting => exact finishStarting hcall hmutex
  | finishRunning => exact finishRunning hcall hmutex
  | wake published step =>
      cases step with
      | load => exact load published hcall hmutex
      | lock => exact lock published hcall hmutex
      | notify => exact notify published hcall
      | unlock => exact unlock published hcall
  | leave => exact leave hcall hmutex

end Quits

/-- Where the mutex is free, every call inside the loop can return. -/
theorem callsReturn (hmutex : s.mutex = none) :
    (draining Thread Node owner).CanReach (fun s' => s'.mutex = none ∧ ∀ t, s'.call t = .idle) s := by
  have hone : ∀ (t : Thread) (s : State Thread Node), s.mutex = none → s.call t ≠ .idle →
      (draining Thread Node owner).CanReach (fun s' => s'.mutex = none ∧ s'.call t = .idle ∧
        ∀ t', s'.call t' ≠ .idle → s.call t' ≠ .idle) s := by
    intro t s hmutex hbusy
    apply (Quits.of_free hbusy hmutex).trans
    rintro s' ⟨hmutex', hcall⟩
    refine .now ⟨hmutex', by simp [hcall], fun t' hbusy' hidle => hbusy' ?_⟩
    by_cases heq : t' = t <;> simp [hcall, heq, hidle]
  simpa using Machine.CanReach.all_of_each (fun t s => s.call t ≠ .idle)
    (fun s : State Thread Node => s.mutex = none) (by simpa using hone) hmutex

/-! ## The consumer -/

theorem consumed {consumer : Consumer Node} {P : State Thread Node → Prop}
    (hidle : s.call owner = .idle) (hconsumer : s.consumer = consumer)
    (hstep : s.stepConsumer owner false consumer = some s')
    (h : (draining Thread Node owner).CanReach P s') :
    (draining Thread Node owner).CanReach P s := by
  refine .later (a := .consume false) (t := s') ?_ h
  simpa [draining, Machine.restrict, internal, machine, step, hidle, hconsumer] using hstep

/-- The mutex can be released. -/
def Frees (owner : Thread) (s : State Thread Node) : Prop :=
  (draining Thread Node owner).CanReach (fun s' => s'.mutex = none) s

namespace Frees

theorem consume {consumer : Consumer Node} (hidle : s.call owner = .idle)
    (hconsumer : s.consumer = consumer) (hstep : s.stepConsumer owner false consumer = some s')
    (h : Frees owner s') : Frees owner s :=
  consumed hidle hconsumer hstep h

theorem unlock (hidle : s.call owner = .idle) (hconsumer : s.consumer = .unlock) :
    Frees owner s :=
  consumed hidle hconsumer rfl (.now rfl)

theorem unregister (hidle : s.call owner = .idle) (hconsumer : s.consumer = .unregister) :
    Frees owner s :=
  consumed hidle hconsumer rfl (unlock hidle rfl)

theorem sleep (hidle : s.call owner = .idle) (hconsumer : s.consumer = .sleep) :
    Frees owner s :=
  consumed hidle hconsumer rfl (.now rfl)

theorem predicateState (hidle : s.call owner = .idle) (hconsumer : s.consumer = .predicateState) :
    Frees owner s := by
  apply consume hidle hconsumer rfl
  by_cases hstate : s.state = .finishing
  · rw [if_pos hstate]
    exact unregister hidle rfl
  · rw [if_neg hstate]
    exact sleep hidle rfl

theorem predicateHead (hidle : s.call owner = .idle) (hconsumer : s.consumer = .predicateHead) :
    Frees owner s := by
  apply consume hidle hconsumer rfl
  by_cases hwork : s.hasWork = true
  · rw [if_pos hwork]
    exact unregister hidle rfl
  · rw [if_neg hwork]
    exact predicateState hidle rfl

theorem of_holds (hidle : s.call owner = .idle) (hholds : s.consumer.holds = true) :
    Frees owner s := by
  cases hconsumer : s.consumer <;>
    simp only [hconsumer, Consumer.holds, Bool.false_eq_true] at hholds
  case register => exact consumed hidle hconsumer rfl (predicateHead hidle rfl)
  case predicateHead => exact predicateHead hidle hconsumer
  case predicateState => exact predicateState hidle hconsumer
  case sleep => exact sleep hidle hconsumer
  case unregister => exact unregister hidle hconsumer
  case unlock => exact unlock hidle hconsumer

end Frees

/-- The mutex is never held for good. -/
theorem Sound.frees (h : Sound owner s) : Frees owner s := by
  cases hmutex : s.mutex with
  | none => exact .now hmutex
  | some t =>
      rcases h.held t hmutex with ⟨-, hholds⟩ | ⟨published, step, hcall, hholds⟩
      · have hidle : s.call owner = .idle := by
          by_contra hbusy
          have hrest := Consumer.not_holds_of_atUser (h.phases.busy hbusy)
          rw [hholds] at hrest
          cases hrest
        exact Frees.of_holds hidle hholds
      · have hquits : Quits owner t s := by
          cases step with
          | notify => exact Quits.notify published hcall
          | unlock => exact Quits.unlock published hcall
          | _ => cases hholds
        exact hquits.trans fun s' hs' => .now hs'.1

/-! ## Returning from `run` -/

/-- The request to finish is published and no call is inside the loop. -/
structure Settled (owner : Thread) (s : State Thread Node) : Prop extends Sound owner s where
  finishCalled : s.finishCalled = true
  idle : ∀ t, s.call t = .idle

/-- `run` can return. -/
def Returns (owner : Thread) (s : State Thread Node) : Prop :=
  (draining Thread Node owner).CanReach (fun s' => s'.consumer = .returned) s

/-- The number of operations that were pushed and not executed. -/
def State.left (s : State Thread Node) : Nat :=
  s.pushed.length - s.executed.length

namespace Settled

theorem consume (h : Settled owner s) {consumer : Consumer Node} (hconsumer : s.consumer = consumer)
    (hstep : s.stepConsumer owner false consumer = some s')
    (hnext : Settled owner s' → Returns owner s') : Returns owner s := by
  obtain ⟨hcall, hfinish⟩ := stepConsumer_keeps hstep
  have hsound : Sound owner s' := by
    apply h.toSound.step (a := .consume false) rfl
    simp only [RunLoop.step, h.idle owner, if_true, hconsumer]
    exact hstep
  apply consumed (h.idle owner) hconsumer hstep
  apply hnext
  exact ⟨hsound, by rw [hfinish]; exact h.finishCalled, by rw [hcall]; exact h.idle⟩

omit [DecidableEq Thread] in
theorem state (h : Settled owner s) : s.state = .finishing ∨ s.state = .finished := by
  rcases h.announced h.finishCalled with ⟨t, hrequesting⟩ | hlate
  · simp [h.idle t, Call.requesting] at hrequesting
  · exact hlate

omit [DecidableEq Thread] in
/-- The request is published wherever the consumer has not finished. -/
theorem finishing (h : Settled owner s)
    (hallows : s.consumer.allows .finished → False) : s.state = .finishing := by
  have hstate := h.phases.state
  rcases h.state with hfinishing | hfinished
  · exact hfinishing
  · rw [hfinished] at hstate
    exact (hallows hstate).elim

omit [DecidableEq Thread] in
theorem producers (h : Settled owner s) : s.producers = 0 := by
  rw [h.shutdown.producers, tally_eq_zero.mpr]
  · rfl
  · intro t
    simp [h.idle t, Call.counted]

omit [DecidableEq Thread] in
theorem mutex_free (h : Settled owner s) (hholds : s.consumer.holds = false) :
    s.mutex = none := by
  cases hmutex : s.mutex with
  | none => rfl
  | some t =>
      rcases h.held t hmutex with ⟨-, hconsumer⟩ | ⟨published, step, hcall, -⟩
      · rw [hholds] at hconsumer
        cases hconsumer
      · rw [h.idle t] at hcall
        cases hcall

omit [DecidableEq Thread] in
/-- Nobody is left to wake the consumer, so it does not sleep. -/
theorem not_foundIdle (h : Settled owner s) : s.consumer.foundIdle = false := by
  by_contra hsleeping
  rw [Bool.not_eq_false] at hsleeping
  have hstate : s.state = .finishing := by
    apply h.finishing
    cases hconsumer : s.consumer <;>
      simp_all [Consumer.foundIdle, Consumer.allows]
  obtain ⟨t, step, hcall, -⟩ := h.wake.request hsleeping hstate
  rw [h.idle t] at hcall
  cases hcall

theorem finished (h : Settled owner s) (hconsumer : s.consumer = .finished) : Returns owner s := by
  have hstate : s.state = .finishing := h.finishing (by simp [hconsumer, Consumer.allows])
  apply h.consume hconsumer rfl
  intro _
  unfold State.finished
  rw [if_pos hstate]
  exact .now rfl

theorem closeEmpty (h : Settled owner s) (hconsumer : s.consumer = .close)
    (hhead : s.head = .list none) : Returns owner s := by
  apply h.consume hconsumer rfl
  unfold State.close
  rw [if_pos hhead]
  intro h
  exact h.finished rfl

omit [DecidableEq Thread] in
theorem not_closed (h : Settled owner s) (hopen : s.consumer.hasClosed = false) :
    s.head ≠ .closed := by
  rw [Ne, h.phases.closed, hopen]
  simp

omit [DecidableEq Thread] in
theorem head_cases (h : Settled owner s) (hopen : s.consumer.hasClosed = false) :
    s.head = .list none ∨ ∃ op, s.head = .list (some op) := by
  cases hhead : s.head with
  | closed => exact absurd hhead (h.not_closed hopen)
  | list top =>
      cases top with
      | none => exact .inl rfl
      | some op => exact .inr ⟨op, rfl⟩

/-! In what follows, every loop with fewer operations left returns. -/

section Smaller

variable {n : Nat} (hsmall : ∀ s' : State Thread Node, Settled owner s' → s'.left < n →
  Returns owner s')

include hsmall

theorem executeSome (h : Settled owner s) {op : Node}
    (hconsumer : s.consumer = .executeAll (some op)) (hleft : s.left ≤ n) : Returns owner s := by
  obtain ⟨stack, popped, ready, hlayout⟩ := h.queue.layout
  have hready := hlayout.onReady
  rw [hconsumer] at hready
  obtain ⟨rest, rfl, -⟩ := hready.cons_of_some
  have hlength := congrArg List.length hlayout.history
  simp only [List.length_append, List.length_cons] at hlength
  apply h.consume hconsumer rfl
  intro hnext
  apply hsmall _ hnext
  simp only [State.left, State.executeAll, State.setConsumer, List.length_append,
    List.length_singleton] at hleft ⊢
  omega

/-- `reverse` turns the whole batch around. -/
theorem reverseAll (h : Settled owner s) {operations reversed : Option Node}
    (hconsumer : s.consumer = .reverse operations reversed)
    (hbatch : operations ≠ none ∨ reversed ≠ none) (hleft : s.left ≤ n) : Returns owner s := by
  obtain ⟨stack, popped, ready, hlayout⟩ := h.queue.layout
  induction popped generalizing s operations reversed ready with
  | nil =>
      have hpopped := hlayout.onPopped
      rw [hconsumer] at hpopped
      obtain rfl : operations = none := hpopped
      obtain ⟨op, rfl⟩ := Option.ne_none_iff_exists'.mp (hbatch.resolve_left (by simp))
      apply h.consume hconsumer rfl
      intro hnext
      exact hnext.executeSome hsmall rfl hleft
  | cons op popped ih =>
      have hpopped := hlayout.onPopped
      rw [hconsumer] at hpopped
      obtain rfl : operations = some op := hpopped.1
      obtain ⟨rest, heq, hturn⟩ := hlayout.turn hconsumer
      obtain ⟨-, rfl⟩ := List.cons.inj heq
      apply h.consume hconsumer rfl
      intro hnext
      exact ih hnext rfl (.inr (by simp)) hleft _ hturn

theorem popSwapFresh (h : Settled owner s) {closing : Bool} {op : Node}
    (hconsumer : s.consumer = .popSwap closing op) (hhead : s.head = .list (some op))
    (hleft : s.left ≤ n) : Returns owner s := by
  apply h.consume hconsumer rfl
  unfold State.popSwap
  rw [if_pos ⟨hhead, rfl⟩]
  intro hnext
  exact hnext.reverseAll hsmall rfl (.inl (by simp)) hleft

theorem popLoadSome (h : Settled owner s) {closing : Bool} {op : Node}
    (hconsumer : s.consumer = .popLoad closing) (hhead : s.head = .list (some op))
    (hleft : s.left ≤ n) : Returns owner s := by
  apply h.consume hconsumer rfl
  rw [hhead]
  intro hnext
  exact hnext.popSwapFresh hsmall rfl hhead hleft

theorem popLoadClosing (h : Settled owner s) (hconsumer : s.consumer = .popLoad true)
    (hleft : s.left ≤ n) : Returns owner s := by
  rcases h.head_cases (by simp [hconsumer, Consumer.hasClosed]) with hhead | ⟨op, hhead⟩
  · apply h.consume hconsumer rfl
    rw [hhead]
    intro hnext
    exact hnext.closeEmpty rfl hhead
  · exact h.popLoadSome hsmall hconsumer hhead hleft

theorem drain (h : Settled owner s) (hconsumer : s.consumer = .drain) (hleft : s.left ≤ n) :
    Returns owner s := by
  apply h.consume hconsumer rfl
  rw [if_pos h.producers]
  intro hnext
  exact hnext.popLoadClosing hsmall rfl hleft

theorem loadState (h : Settled owner s) (hconsumer : s.consumer = .loadState)
    (hleft : s.left ≤ n) : Returns owner s := by
  have hstate : s.state = .finishing := h.finishing (by simp [hconsumer, Consumer.allows])
  apply h.consume hconsumer rfl
  rw [if_pos hstate]
  intro hnext
  exact hnext.drain hsmall rfl hleft

theorem popLoadOpen (h : Settled owner s) (hconsumer : s.consumer = .popLoad false)
    (hleft : s.left ≤ n) : Returns owner s := by
  rcases h.head_cases (by simp [hconsumer, Consumer.hasClosed]) with hhead | ⟨op, hhead⟩
  · apply h.consume hconsumer rfl
    rw [hhead]
    intro hnext
    exact hnext.loadState hsmall rfl hleft
  · exact h.popLoadSome hsmall hconsumer hhead hleft

/-- A compare-exchange that fails has seen the stack as it is now. -/
theorem popSwap (h : Settled owner s) {closing : Bool} {op : Node}
    (hconsumer : s.consumer = .popSwap closing op) (hleft : s.left ≤ n) : Returns owner s := by
  by_cases hfresh : s.head = .list (some op)
  · exact h.popSwapFresh hsmall hconsumer hfresh hleft
  · apply h.consume hconsumer rfl
    unfold State.popSwap
    rw [if_neg (by simp [hfresh])]
    intro hnext
    rcases h.head_cases (by simp [hconsumer, Consumer.hasClosed]) with hhead | ⟨op', hhead⟩
    · rw [hhead] at hnext ⊢
      cases closing with
      | false => exact hnext.loadState hsmall rfl hleft
      | true => exact hnext.closeEmpty rfl hhead
    · rw [hhead] at hnext ⊢
      exact hnext.popSwapFresh hsmall rfl hhead hleft

theorem unlock (h : Settled owner s) (hconsumer : s.consumer = .unlock) (hleft : s.left ≤ n) :
    Returns owner s := by
  apply h.consume hconsumer rfl
  intro hnext
  exact hnext.popLoadOpen hsmall rfl hleft

theorem unregister (h : Settled owner s) (hconsumer : s.consumer = .unregister)
    (hleft : s.left ≤ n) : Returns owner s := by
  apply h.consume hconsumer rfl
  intro hnext
  exact hnext.unlock hsmall rfl hleft

theorem predicateState (h : Settled owner s) (hconsumer : s.consumer = .predicateState)
    (hleft : s.left ≤ n) : Returns owner s := by
  have hstate : s.state = .finishing := h.finishing (by simp [hconsumer, Consumer.allows])
  apply h.consume hconsumer rfl
  rw [if_pos hstate]
  intro hnext
  exact hnext.unregister hsmall rfl hleft

theorem predicateHead (h : Settled owner s) (hconsumer : s.consumer = .predicateHead)
    (hleft : s.left ≤ n) : Returns owner s := by
  apply h.consume hconsumer rfl
  intro hnext
  by_cases hwork : s.hasWork = true
  · rw [if_pos hwork] at hnext ⊢
    exact hnext.unregister hsmall rfl hleft
  · rw [if_neg hwork] at hnext ⊢
    exact hnext.predicateState hsmall rfl hleft

theorem register (h : Settled owner s) (hconsumer : s.consumer = .register) (hleft : s.left ≤ n) :
    Returns owner s := by
  apply h.consume hconsumer rfl
  intro hnext
  exact hnext.predicateHead hsmall rfl hleft

theorem lock (h : Settled owner s) (hconsumer : s.consumer = .lock) (hleft : s.left ≤ n) :
    Returns owner s := by
  have hmutex := h.mutex_free (by simp [hconsumer, Consumer.holds])
  have hstep : s.stepConsumer owner false .lock =
      some ({ s with mutex := some owner }.setConsumer .register) := by
    simp [State.stepConsumer, hmutex]
  apply h.consume hconsumer hstep
  intro hnext
  exact hnext.register hsmall rfl hleft

theorem relock (h : Settled owner s) (hconsumer : s.consumer = .relock) (hleft : s.left ≤ n) :
    Returns owner s := by
  have hmutex := h.mutex_free (by simp [hconsumer, Consumer.holds])
  have hstep : s.stepConsumer owner false .relock =
      some ({ s with mutex := some owner }.setConsumer .predicateHead) := by
    simp [State.stepConsumer, hmutex]
  apply h.consume hconsumer hstep
  intro hnext
  exact hnext.predicateHead hsmall rfl hleft

theorem close (h : Settled owner s) (hconsumer : s.consumer = .close) (hleft : s.left ≤ n) :
    Returns owner s := by
  by_cases hhead : s.head = .list none
  · exact h.closeEmpty hconsumer hhead
  · apply h.consume hconsumer rfl
    unfold State.close
    rw [if_neg hhead]
    intro hnext
    exact hnext.lock hsmall rfl hleft

theorem executeAll (h : Settled owner s) {operations : Option Node}
    (hconsumer : s.consumer = .executeAll operations) (hleft : s.left ≤ n) : Returns owner s := by
  cases operations with
  | none =>
      apply h.consume hconsumer rfl
      intro hnext
      exact hnext.popLoadOpen hsmall rfl hleft
  | some op => exact h.executeSome hsmall hconsumer hleft

theorem executing (h : Settled owner s) {operations : Option Node}
    (hconsumer : s.consumer = .executing operations) (hleft : s.left ≤ n) : Returns owner s := by
  have hstep : RunLoop.step owner s .ret = some (s.setConsumer (.executeAll operations)) := by
    simp [RunLoop.step, hconsumer, h.idle owner]
  have hnext : Settled owner (s.setConsumer (.executeAll operations)) :=
    ⟨h.toSound.step rfl hstep, h.finishCalled, h.idle⟩
  refine .later (a := .ret) ?_ (hnext.executeAll hsmall rfl hleft)
  simpa [draining, Machine.restrict, internal, machine] using hstep

theorem beginRun (h : Settled owner s) (hconsumer : s.consumer = .beginRun) (hleft : s.left ≤ n) :
    Returns owner s := by
  have hstate : s.state = .finishing := h.finishing (by simp [hconsumer, Consumer.allows])
  apply h.consume hconsumer rfl
  unfold State.beginRun
  rw [hstate]
  intro hnext
  exact hnext.popLoadOpen hsmall rfl hleft

theorem outside (h : Settled owner s) (hconsumer : s.consumer = .outside) (hleft : s.left ≤ n) :
    Returns owner s := by
  have hstep : RunLoop.step owner s .run = some (s.setConsumer .beginRun) := by
    simp [RunLoop.step, hconsumer, h.idle owner]
  have hnext : Settled owner (s.setConsumer .beginRun) :=
    ⟨h.toSound.step rfl hstep, h.finishCalled, h.idle⟩
  refine .later (a := .run) ?_ (hnext.beginRun hsmall rfl hleft)
  simpa [draining, Machine.restrict, internal, machine] using hstep

end Smaller

theorem returns (h : Settled owner s) : Returns owner s := by
  -- by induction on the operations left, whatever place the consumer starts from
  induction hn : s.left using Nat.strong_induction_on generalizing s with
  | _ n ih =>
      have hsmall : ∀ s' : State Thread Node, Settled owner s' → s'.left < n → Returns owner s' :=
        fun s' h' hless => ih s'.left hless h' rfl
      have hleft : s.left ≤ n := Nat.le_of_eq hn
      have hawake := h.not_foundIdle
      cases hconsumer : s.consumer with
      | outside => exact h.outside hsmall hconsumer hleft
      | beginRun => exact h.beginRun hsmall hconsumer hleft
      | popLoad closing =>
          cases closing with
          | false => exact h.popLoadOpen hsmall hconsumer hleft
          | true => exact h.popLoadClosing hsmall hconsumer hleft
      | popSwap closing op => exact h.popSwap hsmall hconsumer hleft
      | loadState => exact h.loadState hsmall hconsumer hleft
      | drain => exact h.drain hsmall hconsumer hleft
      | close => exact h.close hsmall hconsumer hleft
      | finished => exact h.finished hconsumer
      | lock => exact h.lock hsmall hconsumer hleft
      | register => exact h.register hsmall hconsumer hleft
      | predicateHead => exact h.predicateHead hsmall hconsumer hleft
      | predicateState => exact h.predicateState hsmall hconsumer hleft
      | sleep => simp [hconsumer, Consumer.foundIdle] at hawake
      | asleep => simp [hconsumer, Consumer.foundIdle] at hawake
      | relock => exact h.relock hsmall hconsumer hleft
      | unregister => exact h.unregister hsmall hconsumer hleft
      | unlock => exact h.unlock hsmall hconsumer hleft
      | reverse operations reversed =>
          by_cases hbatch : operations ≠ none ∨ reversed ≠ none
          · exact h.reverseAll hsmall hconsumer hbatch hleft
          · obtain ⟨rfl, rfl⟩ : operations = none ∧ reversed = none := by simpa using hbatch
            apply h.consume hconsumer rfl
            intro hnext
            exact hnext.executeAll hsmall rfl hleft
      | executeAll operations => exact h.executeAll hsmall hconsumer hleft
      | executing operations => exact h.executing hsmall hconsumer hleft
      | returned => exact .now hconsumer

end Settled

/-- Once `finish` was called, `run` can return from wherever the calls and the
consumer are. -/
theorem Sound.returns (h : Sound owner s) (hfinish : s.finishCalled = true) :
    (draining Thread Node owner).CanReach
      (fun s' => Sound owner s' ∧ s'.consumer = .returned) s := by
  have hkeep : ∀ s a s', (Sound owner s ∧ s.finishCalled = true) →
      (draining Thread Node owner).step s a = some s' → Sound owner s' ∧ s'.finishCalled = true := by
    rintro s a s' ⟨hsound, hcalled⟩ hstep
    exact ⟨hsound.drain hstep, draining_keeps hstep ▸ hcalled⟩
  have hfrees := h.frees.keep hkeep ⟨h, hfinish⟩
  apply hfrees.trans
  rintro s₁ ⟨hsound₁, hmutex⟩
  apply ((callsReturn hmutex).keep hkeep hsound₁).trans
  rintro s₂ ⟨⟨hsound₂, hcalled₂⟩, -, hidle⟩
  have hsettled : Settled owner s₂ := ⟨hsound₂, hcalled₂, hidle⟩
  exact hsettled.returns.keep (fun s a s' hsound hstep => hsound.drain hstep) hsound₂

end Bexec.RunLoop
