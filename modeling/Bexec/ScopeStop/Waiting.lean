import Bexec.ScopeStop.Preservation

/-!
# How long a destructor waits

A destructor waits for the thread that notifies its registration. That thread
needs at most five steps of its own, unless it runs the callback body.
-/

namespace Bexec.ScopeStop

open Foundation StopToken

variable {Thread Record : Type} [DecidableEq Record] {own : Record} {i : Side}

/-- The thread of the stack notifies the registration on source `i`, and needs so
many more steps if it does not run the callback body. -/
inductive Handling (own : Record) (i : Side) : Stack Thread Record → Nat → Prop
  | invoke (rest) : Handling own i (.source i (.requestStop (.invoke own)) :: rest) 5
  | callback (rest) : Handling own i (.source i (.requestStop (.callback own false)) :: rest) 4
  | exchange (rest) :
      Handling own i
        (.code (.callOnce .exchange) :: .source i (.requestStop (.callback own false)) :: rest) 3
  | clearFlag (rest) : Handling own i (.source i (.requestStop (.clearFlag own)) :: rest) 2
  | setCompleted (rest) : Handling own i (.source i (.requestStop (.setCompleted own)) :: rest) 1

section Stacks

variable {stack : Stack Thread Record} {frame : SharedFrame Side Thread Record Code} {depth : Nat}

theorem frameAt_map {α β : Type} (f : α → β) (stack : List α) (depth : Nat) :
    CallStack.frameAt (stack.map f) depth = (CallStack.frameAt stack depth).map f := by
  induction stack with
  | nil => rfl
  | cons top rest ih =>
      rw [List.map_cons, CallStack.frameAt, CallStack.frameAt, List.length_map, ih]
      split <;> rfl

/-- What stands on a callback frame of the object. -/
theorem above_running (h : Chained own stack) (hframe : CallStack.frameAt stack depth = some frame)
    (hruns : runsOwn own frame = true) :
    (∃ rest, stack = frame :: rest) ∨
      (∃ rest, stack = .code (.callOnce .exchange) :: frame :: rest) ∨
        ∃ depth, codeAt stack depth = some (.callOnce .callback) := by
  induction stack with
  | nil => cases hframe
  | cons top rest ih =>
      rcases CallStack.frameAt_cons.mp hframe with ⟨-, rfl⟩ | hbelow
      · exact .inl ⟨rest, rfl⟩
      · rcases ih h.2 hbelow with ⟨below, rfl⟩ | ⟨below, rfl⟩ | ⟨mark, hcode⟩
        · have hcall : isCallOnce top = true := by
            rw [h.1.callOnce]
            simpa using hruns
          cases top with
          | source j f => cases hcall
          | code c =>
              cases c with
              | callOnce pc =>
                  cases pc with
                  | exchange => exact .inr (.inl ⟨below, rfl⟩)
                  | callback => exact .inr (.inr ⟨(frame :: below).length, by simp⟩)
              | _ => cases hcall
        · exact absurd rfl h.1.exchange
        · refine .inr (.inr ⟨mark, ?_⟩)
          have hlt := codeAt_lt hcode
          cases top with
          | source j f => simpa using hcode
          | code c => simpa [Nat.ne_of_lt hlt] using hcode

/-- `call_once` stands on a callback frame of the object. -/
theorem beneath_callOnce (h : Chained own stack) {pc : CallOncePc}
    (hcode : codeAt stack depth = some (.callOnce pc)) :
    ∃ i f, .source i f ∈ stack ∧ f.running own = true := by
  induction stack with
  | nil => cases hcode
  | cons top rest ih =>
      have hrest : ∀ {i f}, .source i f ∈ rest → .source i f ∈ top :: rest :=
        List.mem_cons_of_mem _
      cases top with
      | source j f' =>
          obtain ⟨i, f, hmem, hrunning⟩ := ih h.2 (by simpa using hcode)
          exact ⟨i, f, hrest hmem, hrunning⟩
      | code c =>
          rw [codeAt_code] at hcode
          split at hcode
          · cases hcode
            have hcall := h.1.callOnce
            cases rest with
            | nil => cases hcall
            | cons lower below =>
                cases lower with
                | code c => cases hcall
                | source i f => exact ⟨i, f, by simp, hcall.symm⟩
          · obtain ⟨i, f, hmem, hrunning⟩ := ih h.2 hcode
            exact ⟨i, f, hrest hmem, hrunning⟩

end Stacks

variable [DecidableEq Thread] {s s' : State Thread Record} {t u : Thread}
  {rest : Stack Thread Record}

namespace CompoundInv

omit [DecidableEq Record] in
theorem inside_iff : s.inside t = true ↔ ∃ depth, s.object.body = .running (t, depth) := by
  unfold State.inside
  cases hbody : s.object.body with
  | running frame =>
      cases frame with
      | mk u depth => simp
  | _ => simp

/-- The frame of `request_stop` that holds the claim, while it handles the
registration. -/
theorem executing (h : CompoundInv own s)
    (hphase : phase (s.sources.memory i).log own = .executing)
    (hlife : (s.sources.memory i).life own ≠ .destroyed) :
    ∃ c pc, claimer (s.sources.memory i).log = some c ∧
      CallStack.frameAt (s.sources.stack c.1) c.2 = some (.source i (.requestStop pc)) ∧
      (pc = .invoke own ∨ pc = .callback own false ∨ pc = .clearFlag own ∨
        pc = .setCompleted own) := by
  have hinv := h.inv i
  obtain ⟨c, hactive⟩ := Option.isSome_iff_exists.mp (hinv.memory.executing own hphase)
  obtain ⟨frame, hframe, hclaimed⟩ := hinv.claimFrame c hactive
  have hrequest := hinv.frames c.1 c.2 frame hframe
  rw [Sources.view_stack, frameAt_map] at hframe
  obtain ⟨shared, hshared, rfl⟩ := Option.map_eq_some_iff.mp hframe
  cases shared with
  | code code => cases hclaimed
  | source j f =>
      by_cases heq : j = i
      · subst heq
        simp only [SharedFrame.view_source_self, Sources.view_memory] at hclaimed hrequest
        cases f with
        | requestStop pc =>
            refine ⟨c, pc, hinv.memory.active c hactive, hshared, ?_⟩
            cases pc with
            | tryLock spin => cases hclaimed
            | setRequester =>
                have hpopped := hrequest.2.2 own
                simp [hphase] at hpopped
            | readHead | finalUnlock => exact absurd hphase (hrequest.2.1 own)
            | relock spin => exact absurd hphase (hrequest.2 own)
            | clearPrevPtr r => exact absurd hphase (hrequest.2.1 own)
            | readNext r | writeHead r next | rereadHead r | writeHeadPrevPtr r head | setFlag r =>
                obtain ⟨base, hpop, -⟩ := hrequest
                exact absurd hphase (hpop.2.1 own)
            | openLock r =>
                obtain ⟨⟨base, hpop, -⟩, -⟩ := hrequest
                exact absurd hphase (hpop.2.1 own)
            | invoke r =>
                obtain rfl := (hrequest.1.2 own).mp hphase
                simp
            | callback r removed =>
                obtain rfl := (hrequest.1.2 own).mp hphase
                cases removed with
                | false => simp
                | true => exact absurd (hrequest.2.2.1.mp rfl) hlife
            | clearFlag r =>
                obtain rfl := (hrequest.1.2 own).mp hphase
                simp
            | setCompleted r =>
                obtain rfl := (hrequest.1.2 own).mp hphase
                simp
        | _ => cases hclaimed
      · simp [heq, Frame.claimed] at hclaimed

/-- A frame that is not in user code is on top. -/
theorem top_of_frame (h : CompoundInv own s) {frame : SharedFrame Side Thread Record Code}
    {depth : Nat} (hframe : CallStack.frameAt (s.sources.stack t) depth = some frame)
    (huser : frame.isUser = false) : ∃ rest, s.sources.stack t = frame :: rest := by
  have hsuspended := h.suspended (t := t)
  cases hstack : s.sources.stack t with
  | nil =>
      rw [hstack] at hframe
      cases hframe
  | cons top rest =>
      rw [hstack] at hframe hsuspended
      rcases CallStack.frameAt_cons.mp hframe with ⟨-, rfl⟩ | hbelow
      · exact ⟨rest, rfl⟩
      · have hnot := hsuspended frame (CallStack.frameAt_mem hbelow)
        rw [huser] at hnot
        cases hnot

/-- A destructor that waits does so for a thread that handles its registration
or runs the callback body. -/
theorem handling (h : CompoundInv own s)
    (hstack : s.sources.stack t = .source i (.destructor own .waitCompleted) :: rest)
    (hincomplete : (s.sources.memory i).completed own = false) :
    ∃ c, claimer (s.sources.memory i).log = some c ∧ c.1 ≠ t ∧
      (s.inside c.1 = true ∨ ∃ n, Handling own i (s.sources.stack c.1) n) := by
  have htop := top_inv (h.inv i) hstack
  have hrecord := (h.inv i).memory.records own
  rw [Sources.view_memory] at hrecord
  have hphase : phase (s.sources.memory i).log own = .executing := by
    refine htop.2.resolve_right fun hfinished => ?_
    rw [hrecord.completed.mpr hfinished] at hincomplete
    cases hincomplete
  obtain ⟨c, pc, hclaimer, hframe, hpc⟩ := h.executing hphase (by simp [htop.1])
  refine ⟨c, hclaimer, ?_, ?_⟩
  · obtain ⟨c', hc', hne⟩ := (h.placement i).waiting t rest.length own (by
      rw [Sources.view_stack, frameAt_map, hstack, CallStack.frameAt_top]
      simp)
    rw [Sources.view_memory, hclaimer] at hc'
    cases hc'
    exact hne
  · rcases hpc with rfl | rfl | rfl | rfl
    · obtain ⟨below, heq⟩ := h.top_of_frame hframe rfl
      exact .inr ⟨5, heq ▸ .invoke below⟩
    · rcases above_running (h.stacked c.1).chained hframe (by simp [runsOwn, Frame.running])
        with ⟨below, heq⟩ | ⟨below, heq⟩ | ⟨depth, hcode⟩
      · exact .inr ⟨4, heq ▸ .callback below⟩
      · exact .inr ⟨3, heq ▸ .exchange below⟩
      · exact .inl (inside_iff.mpr ⟨depth, (h.object.body (c.1, depth)).mp hcode⟩)
    · obtain ⟨below, heq⟩ := h.top_of_frame hframe rfl
      exact .inr ⟨2, heq ▸ .clearFlag below⟩
    · obtain ⟨below, heq⟩ := h.top_of_frame hframe rfl
      exact .inr ⟨1, heq ▸ .setCompleted below⟩

end CompoundInv

/-! ## Steps -/

/-- A step changes the stack of its own thread only. -/
theorem effect_other (heffect : Effect own s t s') (hu : u ≠ t) :
    s'.sources.stack u = s.sources.stack u := by
  cases heffect <;> simp [Sources.setStack, Sources.setMemory, hu]

theorem claimer_step {a : Action Thread Record} (h : CompoundInv own s)
    (hstep : step own s a = some s') {c : FrameId Thread}
    (hclaimer : claimer (s.sources.memory i).log = some c) :
    claimer (s'.sources.memory i).log = some c := by
  obtain ⟨object, actions, hvia⟩ := CompoundInv.step_via hstep
  have hkept := CompoundInv.via_invariant (p := fun sources =>
    StopToken.Inv (sources.view i) ∧ claimer (sources.memory i).log = some c) hvia ?_
    ⟨h.inv i, hclaimer⟩
  · exact hkept.2
  · rintro sources a sources' ⟨hinv, hc⟩ hstep
    rcases Sources.view_step hstep i with hsame | ⟨a', hview⟩
    · have hmemory : sources'.memory i = sources.memory i := congrArg StopToken.State.memory hsame
      rw [hsame, hmemory]
      exact ⟨hinv, hc⟩
    · exact ⟨hinv.step hview, hinv.claimer_step hc hview⟩

section Run

variable {f f' : Frame Thread Record Unit} {m' : Memory Thread Record} {weak : Bool}

theorem run_goto (hstack : s.sources.stack u = .source i f :: rest)
    (hnot : f.running own = false)
    (hframe : f.step u (rest.map (SharedFrame.view i)) weak (s.sources.memory i) =
      some (m', .goto f')) :
    step own s (.run u weak) =
      some ⟨s.object, (s.sources.setMemory i m').setStack u (.source i f' :: rest)⟩ := by
  simp [step, hstack, hnot, State.via, Sources.step, hframe, Sources.apply]

theorem run_enter (hstack : s.sources.stack u = .source i f :: rest)
    (hrunning : f.running own = true) (huser : f.isUser = true) :
    step own s (.run u weak) = some
      ⟨s.object, s.sources.setStack u (.code (.callOnce .exchange) :: .source i f :: rest)⟩ := by
  simp [step, hstack, hrunning, State.via, Sources.step, Sources.atUser, SharedFrame.isUser, huser,
    Sources.push]

theorem run_lost
    (hstack : s.sources.stack u =
      .code (.callOnce .exchange) :: .source i (.requestStop (.callback own false)) :: rest)
    (hcalled : s.object.called = true) :
    step own s (.run u weak) = some
      ⟨s.object, (s.sources.setMemory i ((s.sources.memory i).record [.returned own u])).setStack u
        (.source i (.requestStop (.clearFlag own)) :: rest)⟩ := by
  simp [step, hstack, State.runCode, hcalled, State.via, Sources.step, Sources.setStack,
    Sources.endCallback, Sources.setMemory]

theorem run_won (hstack : s.sources.stack u = .code (.callOnce .exchange) :: rest)
    (hcalled : s.object.called = false) :
    step own s (.run u weak) = some
      ⟨{ s.object with
          called := true
          body := .running (u, rest.length)
          invoked := u :: s.object.invoked },
        s.sources.setStack u (.code (.callOnce .callback) :: rest)⟩ := by
  simp [step, hstack, State.runCode, hcalled, State.via, Sources.step]

/-- The thread that handles the registration gets on with each of its steps. -/
theorem Handling.run {n : Nat} (h : Handling own i (s.sources.stack u) n) (weak : Bool) :
    ∃ s', step own s (.run u weak) = some s' ∧
      ((s'.sources.memory i).completed own = true ∨ s'.inside u = true ∨
        ∃ m, m < n ∧ Handling own i (s'.sources.stack u) m) := by
  generalize hstack : s.sources.stack u = stack at h
  cases h with
  | invoke rest =>
      refine ⟨_, run_goto hstack rfl rfl, .inr (.inr ⟨4, by omega, ?_⟩)⟩
      simpa [Sources.setStack] using .callback rest
  | callback rest =>
      refine ⟨_, run_enter hstack (by simp [Frame.running]) rfl, .inr (.inr ⟨3, by omega, ?_⟩)⟩
      simpa [Sources.setStack] using .exchange rest
  | exchange rest =>
      cases hcalled : s.object.called with
      | true =>
          refine ⟨_, run_lost hstack hcalled, .inr (.inr ⟨2, by omega, ?_⟩)⟩
          simpa [Sources.setStack] using .clearFlag rest
      | false =>
          refine ⟨_, run_won hstack hcalled, .inr (.inl ?_)⟩
          simp [State.inside]
  | clearFlag rest =>
      refine ⟨_, run_goto hstack rfl rfl, .inr (.inr ⟨1, by omega, ?_⟩)⟩
      simpa [Sources.setStack] using .setCompleted rest
  | setCompleted rest =>
      refine ⟨_, run_goto hstack rfl rfl, .inl ?_⟩
      simp [Sources.setStack, Sources.setMemory, Memory.record]

/-- It can do nothing else. -/
theorem Handling.only_run {n : Nat} {a : Action Thread Record}
    (h : Handling own i (s.sources.stack a.thread) n) (hstep : step own s a = some s') :
    ∃ weak, a = .run a.thread weak := by
  generalize hstack : s.sources.stack a.thread = stack at h
  have huser : userRuns own (s.sources.stack a.thread) = false := by
    rw [hstack]
    cases h <;> simp [userRuns, Frame.isUser, Frame.running]
  cases a with
  | run t weak => exact ⟨weak, rfl⟩
  | ret t =>
      simp only [Action.thread] at hstack
      simp only [step, hstack] at hstep
      cases h <;> simp [Frame.running, State.via, Sources.step, hstack, Sources.endCallback] at hstep
  | _ =>
      simp only [Action.thread] at huser
      simp [step, huser] at hstep

/-- A destructor that waits stays where it is. -/
theorem waiting_step {a : Action Thread Record} (h : CompoundInv own s)
    (hstack : s.sources.stack t = .source i (.destructor own .waitCompleted) :: rest)
    (hincomplete : (s.sources.memory i).completed own = false)
    (hstep : step own s a = some s') : s'.sources.stack t = s.sources.stack t := by
  by_cases hthread : t = a.thread
  · have huser : userRuns own (s.sources.stack t) = false := by
      rw [hstack]
      rfl
    subst hthread
    cases a with
    | run t weak =>
        simp only [Action.thread] at hstack
        have hspin : (Frame.destructor own DestructorPc.waitCompleted).step t
            (rest.map (SharedFrame.view i)) weak (s.sources.memory i) =
              some (s.sources.memory i, .goto (.destructor own .waitCompleted)) := by
          simp [Frame.step, destructorStep, hincomplete]
        rw [run_goto hstack rfl hspin] at hstep
        cases hstep
        simpa [Sources.setStack, Sources.setMemory, Action.thread] using hstack.symm
    | ret t =>
        simp only [Action.thread] at hstack
        simp [step, hstack, Frame.running, State.via, Sources.step, Sources.endCallback] at hstep
    | _ =>
        simp only [Action.thread] at huser
        simp [step, huser] at hstep
  · exact effect_other (step_effect h.inv (h.stacked _) hstep) hthread

end Run

/-! ## Runs -/

/-- The thread makes a step of its own. -/
def Action.runs (u : Thread) : Action Thread Record → Bool
  | .run t _ => t = u
  | _ => false

/-- The destructor need not wait any longer, or it waits for the callback body. -/
def Settled (own : Record) (i : Side) (u : Thread) (s : State Thread Record) : Prop :=
  (s.sources.memory i).completed own = true ∨ s.inside u = true

omit [DecidableEq Record] [DecidableEq Thread] in
theorem Handling.le {stack : Stack Thread Record} {n : Nat} (h : Handling own i stack n) :
    0 < n ∧ n ≤ 5 := by
  cases h <;> simp

/-- Until then every step of the notifying thread brings it nearer. -/
theorem waits_run {c : FrameId Thread} {trace : List (State Thread Record × Action Thread Record)}
    (hs : (machine Thread Record own).Reachable s)
    (hstack : s.sources.stack t = .source i (.destructor own .waitCompleted) :: rest)
    (hclaimer : claimer (s.sources.memory i).log = some c)
    (hrun : (machine Thread Record own).Run s trace s') :
    (∃ visited ∈ trace.map Prod.fst ++ [s'], Settled own i c.1 visited) ∨
      s'.sources.stack t = .source i (.destructor own .waitCompleted) :: rest ∧
        claimer (s'.sources.memory i).log = some c ∧
        ∃ n, Handling own i (s'.sources.stack c.1) n ∧
          n + trace.countP (fun p => p.2.runs c.1) ≤ 5 := by
  induction hrun with
  | nil =>
      by_cases hsettled : Settled own i c.1 s
      · exact .inl ⟨s, by simp, hsettled⟩
      · obtain ⟨hincomplete, houtside⟩ := not_or.mp hsettled
        obtain ⟨c', hc', -, hcase⟩ := (compound_of_reachable hs).handling hstack
          (by simpa using hincomplete)
        rw [hclaimer] at hc'
        cases hc'
        obtain ⟨n, hn⟩ := hcase.resolve_left houtside
        exact .inr ⟨hstack, hclaimer, n, hn, by simpa using hn.le.2⟩
  | @snoc middle s' trace a hrun hstep ih =>
      have hmiddle := compound_of_reachable (hs.run hrun)
      rcases ih with ⟨visited, hvisited, hsettled⟩ | ⟨hwaits, hc, n, hn, hcount⟩
      · refine .inl ⟨visited, ?_, hsettled⟩
        rw [List.map_append]
        exact List.mem_append_left _ hvisited
      · by_cases hsettled : Settled own i c.1 middle
        · exact .inl ⟨middle, by simp, hsettled⟩
        by_cases hsettled' : Settled own i c.1 s'
        · exact .inl ⟨s', by simp, hsettled'⟩
        have hincomplete : (middle.sources.memory i).completed own = false := by
          simpa using (not_or.mp hsettled).1
        refine .inr ⟨(waiting_step hmiddle hwaits hincomplete hstep).trans hwaits,
          claimer_step hmiddle hstep hc, ?_⟩
        by_cases hthread : c.1 = a.thread
        · obtain ⟨weak, ha⟩ := Handling.only_run (a := a) (hthread ▸ hn) hstep
          rw [← hthread] at ha
          subst ha
          obtain ⟨final, hfinal, hcase⟩ := hn.run weak
          obtain rfl : final = s' := Option.some.inj (hfinal.symm.trans hstep)
          rw [← or_assoc] at hcase
          obtain ⟨m, hm, hhandling⟩ := hcase.resolve_left hsettled'
          refine ⟨m, hhandling, ?_⟩
          have hruns : (Action.run c.1 weak : Action Thread Record).runs c.1 = true := by
            simp [Action.runs]
          simp only [List.countP_append, List.countP_singleton, hruns, if_true]
          omega
        · refine ⟨n, ?_, ?_⟩
          · rw [effect_other (step_effect hmiddle.inv (hmiddle.stacked _) hstep) hthread]
            exact hn
          · have hnot : a.runs c.1 = false := by
              cases a with
              | run t weak => simpa [Action.runs, Action.thread] using Ne.symm hthread
              | _ => rfl
            simpa [List.countP_append, hnot] using hcount

/-- Once the callback has been called, it does not come to run on another thread. -/
theorem outside_step {a : Action Thread Record} (h : CompoundInv own s)
    (hstep : step own s a = some s') (hcalled : s.object.called = true)
    (houtside : s.inside u = false) : s'.object.called = true ∧ s'.inside u = false := by
  have heffect := step_effect h.inv (h.stacked _) hstep
  cases heffect with
  | won hstack hnot =>
      rw [hcalled] at hnot
      cases hnot
  | ended hstack hmoved => exact ⟨hcalled, rfl⟩
  | _ => exact ⟨hcalled, houtside⟩

theorem outside_run {trace : List (State Thread Record × Action Thread Record)}
    (hs : (machine Thread Record own).Reachable s) (hcalled : s.object.called = true)
    (houtside : s.inside u = false) (hrun : (machine Thread Record own).Run s trace s') :
    (∀ visited ∈ trace.map Prod.fst ++ [s'], visited.inside u = false) ∧
      s'.object.called = true := by
  induction hrun with
  | nil => simpa using ⟨houtside, hcalled⟩
  | @snoc middle s' trace a hrun hstep ih =>
      obtain ⟨hvisited, hmiddle⟩ := ih
      have hnext := outside_step (compound_of_reachable (hs.run hrun)) hstep hmiddle
        (hvisited middle (by simp))
      refine ⟨?_, hnext.1⟩
      intro visited hmem
      simp only [List.map_append, List.map_cons, List.map_nil, List.mem_append,
        List.mem_singleton] at hmem
      rcases hmem with hmem | rfl
      · exact hvisited visited (by simpa using hmem)
      · exact hnext.2

end Bexec.ScopeStop
