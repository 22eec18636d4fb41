import Bexec.ScopeStop.Waiting

/-!
# The contract of the stop callback of a scope token

Two sources may be asked to stop by any threads, also by one from the callback of
the other, before, while and after the callback object registers with them.
-/

namespace Bexec.ScopeStop

open Foundation StopToken

variable {Thread Record : Type} [DecidableEq Thread] [DecidableEq Record] {own : Record}
  {s s' : State Thread Record} {t : Thread} {i : Side} {f : Frame Thread Record Unit}

namespace CompoundInv

/-- While a callback of the object runs, its registration is not destroyed, unless
that was done from inside. -/
theorem running_life (h : CompoundInv own s) (hmem : .source i f ∈ s.sources.stack t)
    (hrunning : f.running own = true) :
    (s.sources.memory i).life own ≠ .unborn ∧
      (∀ u, .destroyed own u false ∉ (s.sources.memory i).log) ∧
      ((s.sources.memory i).life own = .destroyed → f = .requestStop (.callback own true)) := by
  obtain ⟨depth, hinv⟩ := h.frame_inv hmem
  have hrecord := (h.inv i).memory.records own
  rw [Sources.view_memory] at hrecord
  cases f with
  | constructor r pc =>
      cases pc with
      | callback =>
          obtain rfl : r = own := by simpa [Frame.running] using hrunning
          refine ⟨by simp [hinv.1], fun u hdestroyed => ?_, by simp [hinv.1]⟩
          have hlife := (hrecord.outside u hdestroyed).1
          simp [hinv.1] at hlife
      | _ => cases hrunning
  | requestStop pc =>
      cases pc with
      | callback r removed =>
          obtain rfl : r = own := by simpa [Frame.running] using hrunning
          have hphase := (hinv.1.2 r).mpr rfl
          refine ⟨fun hlife => ?_, fun u hdestroyed => ?_, fun hlife => ?_⟩
          · simp [(hrecord.unborn hlife).1] at hphase
          · exact (hrecord.outside u hdestroyed).2.1 hphase
          · rw [hinv.2.2.1.mpr hlife]
      | _ => cases hrunning
  | _ => cases hrunning

/-- The callback body runs under a callback frame of one of the sources. -/
theorem body_frame (h : CompoundInv own s) {id : FrameId Thread}
    (hbody : s.object.body = .running id) :
    ∃ i f, .source i f ∈ s.sources.stack id.1 ∧ f.running own = true :=
  beneath_callOnce (h.stacked id.1).chained ((h.object.body id).mpr hbody)

/-- `call_once` finds the object alive, or under construction or destruction. -/
theorem called_alive (h : CompoundInv own s) {rest : Stack Thread Record}
    (hstack : s.sources.stack t = .code (.callOnce .exchange) :: rest) :
    s.object.life ≠ .unborn ∧ s.object.life ≠ .destroyed := by
  have htop := h.stacked t
  rw [hstack] at htop
  obtain ⟨i, f, below, rfl, hrunning⟩ := htop.under_callOnce
  have hmem : .source i f ∈ s.sources.stack t := by
    rw [hstack]
    simp
  obtain ⟨hborn, -, hremoved⟩ := h.running_life hmem hrunning
  have hholds := h.object.life
  unfold LifeInv at hholds
  constructor
  · intro hlife
    rw [hlife] at hholds
    exact hborn (hholds i)
  · intro hlife
    rw [hlife] at hholds
    obtain rfl := hremoved (hholds i)
    cases htop.sits.removed (by simp [removedOwn])

/-- After the destructor has returned outside the body, no callback of the object
is left. -/
theorem quiet (h : CompoundInv own s) (htorn : s.object.tornDown = some false) :
    (∀ id, s.object.body ≠ .running id) ∧
      ∀ t rest, s.sources.stack t ≠ .code (.callOnce .exchange) :: rest := by
  obtain ⟨hlife, hevents⟩ := h.object.torn false htorn
  constructor
  · intro id hbody
    obtain ⟨i, f, hmem, hrunning⟩ := h.body_frame hbody
    obtain ⟨u, hu⟩ := hevents rfl i
    exact (h.running_life hmem hrunning).2.1 u hu
  · exact fun t rest hstack => (h.called_alive hstack).2 hlife

theorem quiet_step {a : Action Thread Record} (h : CompoundInv own s)
    (hstep : ScopeStop.step own s a = some s') (htorn : s.object.tornDown = some false) :
    s'.object.tornDown = some false ∧ s'.object.invoked = s.object.invoked := by
  have hlife := (h.object.torn false htorn).1
  have heffect := step_effect h.inv (h.stacked _) hstep
  cases heffect with
  | won hstack => exact absurd hstack ((h.quiet htorn).2 _ _)
  | destroyed hstack =>
      have hdestroying := h.object.resetting _ _ (codes_top hstack)
      rw [hlife] at hdestroying
      cases hdestroying
  | _ => exact ⟨htorn, rfl⟩

theorem quiet_run {trace : List (State Thread Record × Action Thread Record)}
    (hs : (machine Thread Record own).Reachable s) (htorn : s.object.tornDown = some false)
    (hrun : (machine Thread Record own).Run s trace s') :
    s'.object.tornDown = some false ∧ s'.object.invoked = s.object.invoked := by
  induction hrun with
  | nil => exact ⟨htorn, rfl⟩
  | snoc hrun hstep ih =>
      obtain ⟨hmiddle, hsame⟩ := ih
      have hnext := (compound_of_reachable (hs.run hrun)).quiet_step hstep hmiddle
      exact ⟨hnext.1, hnext.2.trans hsame⟩

/-- A claim that has not been given up has its call of `request_stop`. -/
theorem not_active (h : CompoundInv own s)
    (hidle : ∀ t i pc, .source i (.requestStop pc) ∉ s.sources.stack t) :
    active (s.sources.memory i).log = none := by
  by_contra hsome
  obtain ⟨c, hactive⟩ := Option.ne_none_iff_exists'.mp hsome
  obtain ⟨frame, hframe, hclaimed⟩ := (h.inv i).claimFrame c hactive
  rw [Sources.view_stack, frameAt_map] at hframe
  obtain ⟨shared, hshared, rfl⟩ := Option.map_eq_some_iff.mp hframe
  have hmem := CallStack.frameAt_mem hshared
  cases shared with
  | code code => cases hclaimed
  | source j f =>
      by_cases heq : j = i
      · rw [heq, SharedFrame.view_source_self] at hclaimed
        cases f with
        | requestStop pc => exact hidle _ _ _ hmem
        | _ => cases hclaimed
      · simp [heq, Frame.claimed] at hclaimed

/-- The callback has run, once stop has been requested and no call of
`request_stop` is in progress. -/
theorem delivered (h : CompoundInv own s) (hlife : s.object.life = .alive)
    (hidle : ∀ t i pc, .source i (.requestStop pc) ∉ s.sources.stack t)
    (hrequested : (s.sources.memory i).stopRequested = true) : s.object.body = .returned := by
  have hmemory := (h.inv i).memory
  rw [Sources.view_memory] at hmemory
  have hactive := h.not_active (i := i) hidle
  have halive : ∀ j, (s.sources.memory j).life own = .alive := by
    have hholds := h.object.life
    unfold LifeInv at hholds
    rwa [hlife] at hholds
  have hempty := hmemory.drained (hmemory.stopRequested_iff.mp hrequested) hactive
  have hrecord := hmemory.records own
  have hran : (trail (s.sources.memory i).log own).returned ≠ [] := by
    rcases hrecord.alive (halive i) with ⟨-, hlinked | hexecuting | hfinished⟩ | ⟨-, hinline⟩
    · have hmem := hrecord.mem_linked.mpr hlinked
      rw [hempty] at hmem
      cases hmem
    · have hsome := hmemory.executing own hexecuting
      rw [hactive] at hsome
      cases hsome
    · obtain ⟨c, -, htrail⟩ := hrecord.ran (.inl hfinished)
      simp [htrail]
    · obtain ⟨u, htrail⟩ := hrecord.inline hinline (by simp [halive i])
      simp [htrail]
  have hcalled := h.object.ran i hran
  cases hbody : s.object.body with
  | idle =>
      rw [h.object.called.mpr hbody] at hcalled
      cases hcalled
  | returned => rfl
  | running id =>
      obtain ⟨j, f, hmem, hrunning⟩ := h.body_frame hbody
      cases f with
      | requestStop pc => exact absurd hmem (hidle _ _ _)
      | constructor r pc =>
          obtain ⟨depth, hinv⟩ := h.frame_inv hmem
          cases pc with
          | callback =>
              obtain rfl : r = own := by simpa [Frame.running] using hrunning
              have hconstructing := hinv.1
              rw [halive j] at hconstructing
              cases hconstructing
          | _ => cases hrunning
      | _ => cases hrunning

theorem stopRequested_iff (h : CompoundInv own s) :
    (s.sources.memory i).stopRequested = true ↔
      (claimer (s.sources.memory i).log).isSome = true :=
  (h.inv i).memory.stopRequested_iff

end CompoundInv

/-- What the users of a scope token may rely on. -/
structure ScopeCallbackContract (own : Record) (s : State Thread Record) : Prop where
  /-- The callback runs at most once. -/
  once : s.object.invoked.length ≤ 1
  /-- Once registration has finished, and while the registration is alive and no
  `request_stop` is in progress, the callback has run if and only if stop has been
  requested of a source. -/
  delivered : s.object.life = .alive →
    (∀ t i pc, .source i (.requestStop pc) ∉ s.sources.stack t) →
      ((∃ i, (s.sources.memory i).stopRequested = true) ↔ s.object.returned ≠ []) ∧
        (s.object.invoked ≠ [] ↔ s.object.returned ≠ [])
  /-- After the destructor has returned outside the callback, the callback is not
  running and is never called again. -/
  silent : s.object.tornDown = some false → ∀ trace s',
    (machine Thread Record own).Run s trace s' →
      (∀ id, s'.object.body ≠ .running id) ∧ s'.object.invoked = s.object.invoked
  /-- A notification finds the object, whichever thread destroys it. -/
  sound : ∀ t rest, s.sources.stack t = .code (.callOnce .exchange) :: rest →
    s.object.life ≠ .unborn ∧ s.object.life ≠ .destroyed
  /-- A destructor that waits for a notification does so for another thread, which
  can make a step unless it is in the callback, and which lets the destructor go
  within five steps of its own or comes to run the callback. If another thread runs
  or has run the callback, it lets the destructor go. -/
  waits : ∀ t i rest,
    s.sources.stack t = .source i (.destructor own .waitCompleted) :: rest →
      (s.sources.memory i).completed own = false → ∃ c : FrameId Thread, c.1 ≠ t ∧
        (s.inside c.1 = false → ∀ weak, ∃ s', step own s (.run c.1 weak) = some s') ∧
        ∀ trace s', (machine Thread Record own).Run s trace s' →
          5 ≤ trace.countP (fun p => p.2.runs c.1) → ∃ visited ∈ trace.map Prod.fst ++ [s'],
            (visited.sources.memory i).completed own = true ∨
              visited.inside c.1 = true ∧ (s.object.called = true → s.inside c.1 = true)
  /-- A destructor whose notification is over returns. -/
  returns : ∀ t i rest,
    s.sources.stack t = .source i (.destructor own .waitCompleted) :: rest →
      (s.sources.memory i).completed own = true → ∀ weak, ∃ s',
        step own s (.run t weak) = some s' ∧ s'.sources.stack t = rest

/-- The contract holds in every interleaving. -/
theorem scope_callback_contract (hs : (machine Thread Record own).Reachable s) :
    ScopeCallbackContract own s := by
  have h := compound_of_reachable hs
  refine ⟨?_, ?_, ?_, fun t rest => h.called_alive, ?_, ?_⟩
  · rw [h.object.invoked]
    split <;> simp
  · intro hlife hidle
    have hcalled : s.object.called = true → s.object.returned ≠ [] := by
      intro hcalled
      obtain ⟨i, hi⟩ := h.object.cause hcalled
      exact h.object.returned.mp (h.delivered hlife hidle (h.stopRequested_iff.mpr hi))
    have hbody : s.object.returned ≠ [] → s.object.called = true := by
      intro hreturned
      rw [← Bool.not_eq_false, h.object.called, h.object.returned.mpr hreturned]
      simp
    refine ⟨⟨?_, fun hreturned => ?_⟩, ⟨fun hinvoked => hcalled ?_, fun hreturned => ?_⟩⟩
    · rintro ⟨i, hi⟩
      exact h.object.returned.mp (h.delivered hlife hidle hi)
    · obtain ⟨i, hi⟩ := h.object.cause (hbody hreturned)
      exact ⟨i, h.stopRequested_iff.mpr hi⟩
    · by_contra hnot
      apply hinvoked
      rw [← List.length_eq_zero_iff, h.object.invoked, if_neg hnot]
    · rw [← List.length_pos_iff, h.object.invoked, if_pos (hbody hreturned)]
      exact Nat.one_pos
  · intro htorn trace s' hrun
    obtain ⟨htorn', hinvoked⟩ := CompoundInv.quiet_run hs htorn hrun
    exact ⟨((compound_of_reachable (hs.run hrun)).quiet htorn').1, hinvoked⟩
  · intro t i rest hstack hincomplete
    obtain ⟨c, hclaimer, hne, hcase⟩ := h.handling hstack hincomplete
    refine ⟨c, hne, fun houtside weak => ?_, fun trace s' hrun hcount => ?_⟩
    · obtain ⟨n, hn⟩ := hcase.resolve_left (by simp [houtside])
      obtain ⟨s', hstep, -⟩ := hn.run weak
      exact ⟨s', hstep⟩
    · rcases waits_run hs hstack hclaimer hrun with ⟨visited, hmem, hsettled⟩ | ⟨-, -, n, hn, hle⟩
      · refine ⟨visited, hmem, hsettled.imp_right fun hinside => ⟨hinside, fun hcalled => ?_⟩⟩
        by_contra houtside
        have hvisited := (outside_run hs hcalled (by simpa using houtside) hrun).1 visited hmem
        rw [hinside] at hvisited
        cases hvisited
      · have hpos := hn.le.1
        omega
  · intro t i rest hstack hcompleted weak
    refine ⟨⟨s.object, (s.sources.setMemory i ((s.sources.memory i).finishDestructor t
      (rest.map (SharedFrame.view i)) own)).setStack t rest⟩, ?_, by simp [Sources.setStack]⟩
    simp [step, hstack, Frame.running, State.via, Sources.step, Frame.step, destructorStep,
      hcompleted, Sources.apply]

/-- The first thread registers; the second requests stop of the scope and enters the
callback; the first destroys the object and has to wait. -/
def waitingRun : List (Action Pair Pair) :=
  List.flatten
    [[.construct .first], List.replicate 21 (.run .first false),
      [.requestStop .second .scope], List.replicate 13 (.run .second false),
      [.destroy .first], List.replicate 16 (.run .first false)]

set_option maxRecDepth 8000 in
theorem scope_callback_contract_waitingRun :
    ∃ s : State Pair Pair, ScopeCallbackContract .first s ∧
      s.sources.stack .first = [.source .scope (.destructor .first .waitCompleted),
        .code (.destructor .finish)] ∧
      (s.sources.memory .scope).completed .first = false ∧ s.object.invoked = [.second] := by
  refine ⟨_, scope_callback_contract (Machine.reachable_replay rfl waitingRun (by decide)), ?_⟩
  decide

end Bexec.ScopeStop
