import Bexec.ScopeStop.Invariant

/-!
# Every step preserves the invariant

The sources only go through states that they reach on their own, so their
invariants hold throughout.
-/

namespace Bexec.ScopeStop

open Foundation StopToken

variable {Thread Record : Type} [DecidableEq Thread] [DecidableEq Record] {own : Record}
  {s s' : State Thread Record} {t : Thread} {i : Side} {f : Frame Thread Record Unit}
  {rest : Stack Thread Record}

structure CompoundInv (own : Record) (s : State Thread Record) : Prop where
  views : ∀ i, (StopToken.machine Thread Record Unit).Reachable (s.sources.view i)
  stacked : ∀ t, Stacked own (s.sources.stack t)
  object : ObjectInv own s.object (codes s.sources) s.sources.memory

namespace CompoundInv

theorem inv (h : CompoundInv own s) (i : Side) : StopToken.Inv (s.sources.view i) :=
  inv_of_reachable (h.views i)

theorem placement (h : CompoundInv own s) (i : Side) : Placement (s.sources.view i) :=
  placement_of_reachable (h.views i)

theorem suspended (h : CompoundInv own s) :
    ∀ frame ∈ (s.sources.stack t).tail, frame.isUser = true := by
  intro frame hmem
  cases frame with
  | code c => rfl
  | source j f =>
      have huser := (h.inv j).suspended t f
      rw [Sources.view_stack, ← List.map_tail] at huser
      exact huser (List.mem_map.mpr ⟨_, hmem, by simp⟩)

/-- The frame that constructs or destroys a registration is on the stack. -/
theorem framed (h : CompoundInv own s) (id : FrameId Thread)
    (hframe : ((s.sources.memory i).life own).frame? = some id) :
    id.2 < (s.sources.stack id.1).length := by
  obtain ⟨frame, hat, -⟩ := (h.placement i).handled own id hframe
  simpa using CallStack.frameAt_lt hat

/-- A member's constructor or destructor has returned to that of the object. -/
theorem returned (h : CompoundInv own s) {code : Code}
    (hstack : s.sources.stack t = .code code :: rest) (j : Side) :
    (s.sources.memory j).life own ≠ .constructing (t, rest.length + 1) ∧
      (s.sources.memory j).life own ≠ .destroying (t, rest.length + 1) := by
  constructor
  · intro hlife
    have hlt := h.framed (i := j) (t, rest.length + 1) (by rw [hlife]; rfl)
    simp [hstack] at hlt
  · intro hlife
    have hlt := h.framed (i := j) (t, rest.length + 1) (by rw [hlife]; rfl)
    simp [hstack] at hlt

theorem frame_inv (h : CompoundInv own s) (hmem : .source i f ∈ s.sources.stack t) :
    ∃ depth, FrameInv (s.sources.memory i) (t, depth) f := by
  have hview : f ∈ (s.sources.view i).stack t := by
    rw [Sources.view_stack]
    exact List.mem_map.mpr ⟨_, hmem, by simp⟩
  obtain ⟨depth, hdepth⟩ := CallStack.exists_frameAt_of_mem hview
  exact ⟨depth, (h.inv i).frames t depth f hdepth⟩

/-- While a callback of the object runs, stop has been requested on its source. -/
theorem claimed (h : CompoundInv own s) (hmem : .source i f ∈ s.sources.stack t)
    (hrunning : f.running own = true) :
    (claimer (s.sources.memory i).log).isSome = true := by
  obtain ⟨depth, hinv⟩ := h.frame_inv hmem
  cases f with
  | constructor r pc =>
      cases pc with
      | callback => exact (h.placement i).late r hinv.2.2.1
      | _ => cases hrunning
  | requestStop pc =>
      cases pc with
      | callback r removed =>
          have hclaimer := (h.inv i).memory.active _ hinv.1.1.1
          rw [Sources.view_memory] at hclaimer
          rw [hclaimer]
          rfl
      | _ => cases hrunning
  | _ => cases hrunning

/-- What every step of the sources preserves. -/
theorem via_invariant {p : Sources Side Thread Record Code → Prop} {object : Object Thread}
    {actions : List (SourcesAction Side Thread Record Code)}
    (hvia : s.via object actions = some s')
    (hpres : ∀ sources a sources', p sources → Sources.step sources a = some sources' → p sources')
    (hs : p s.sources) : p s'.sources := by
  obtain ⟨sources, hfold, rfl⟩ := Option.map_eq_some_iff.mp hvia
  clear hvia
  generalize s.sources = start at hfold hs
  induction actions generalizing start with
  | nil =>
      cases hfold
      exact hs
  | cons a actions ih =>
      simp only [List.foldlM_cons, Option.bind_eq_bind] at hfold
      obtain ⟨middle, hstep, hrest⟩ := Option.bind_eq_some_iff.mp hfold
      exact ih middle hrest (hpres _ _ _ hs hstep)

theorem step_via {a : Action Thread Record} (hstep : step own s a = some s') :
    ∃ object actions, s.via object actions = some s' := by
  cases a with
  | run t weak =>
      simp only [step] at hstep
      split at hstep
      next => cases hstep
      next => split at hstep <;> exact ⟨_, _, hstep⟩
      next code rest hstack =>
        unfold State.runCode at hstep
        split at hstep
        case h_7 => split at hstep <;> exact ⟨_, _, hstep⟩
        case h_8 => cases hstep
        all_goals exact ⟨_, _, hstep⟩
  | ret t =>
      simp only [step] at hstep
      split at hstep
      next =>
        split at hstep
        next => cases hstep
        next => exact ⟨_, _, hstep⟩
      next => exact ⟨_, _, hstep⟩
      next => cases hstep
  | _ =>
      simp only [step, Option.ite_none_right_eq_some] at hstep
      exact ⟨_, _, hstep.2⟩

/-! ## The stacks -/

omit [DecidableEq Thread] in
theorem moved_stacked {m' : Memory Thread Record} {stack : Stack Thread Record}
    (hmoved : Moved own t i f rest (s.sources.memory i) m' stack)
    (h : Stacked own (.source i f :: rest)) : Stacked own stack := by
  rcases hmoved.stack with ⟨f', rfl, hfollows⟩ | rfl | ⟨⟨r, pc, rfl⟩, depth, rfl⟩
  · exact Stacked.goto h.chained hfollows
  · exact h.pop (by simp)
  · exact h.mark

omit [DecidableEq Thread] in
/-- `call_once` returns, and the callback frame of a source makes its step. -/
theorem resumed_stacked {pc : CallOncePc} {m' : Memory Thread Record}
    {stack : Stack Thread Record}
    (hmoved : Moved own t i f rest (s.sources.memory i) m' stack)
    (h : Stacked own (.code (.callOnce pc) :: .source i f :: rest)) : Stacked own stack := by
  rcases hmoved.stack with ⟨f', rfl, hfollows⟩ | rfl | ⟨⟨r, pc, rfl⟩, depth, rfl⟩
  · exact h.resumed hfollows
  · exact h.returned
  · have hcall := h.sits.callOnce
    simp [isCallOnce, runsOwn, Frame.running] at hcall

theorem stacked_setStack {sources : Sources Side Thread Record Code} {stack : Stack Thread Record}
    (h : ∀ u, Stacked own (sources.stack u)) (hnew : Stacked own stack) (u : Thread) :
    Stacked own ((sources.setStack t stack).stack u) := by
  by_cases hu : u = t
  · subst hu
    simpa [Sources.setStack] using hnew
  · simpa [Sources.setStack, hu] using h u

omit [DecidableEq Thread] in
theorem not_removed (hnot : f.running own = false) :
    removedOwn own (.source i f : SharedFrame Side Thread Record Code) = false := by
  rw [Bool.eq_false_iff]
  intro hremoved
  have hruns := Stacked.runsOwn_of_removed hremoved
  simp [runsOwn, hnot] at hruns

theorem effect_stacked (h : ∀ u, Stacked own (s.sources.stack u)) (heffect : Effect own s t s') :
    ∀ u, Stacked own (s'.sources.stack u) := by
  have htop := h t
  cases heffect with
  | moved hstack hnot hmoved =>
      rw [hstack] at htop
      exact stacked_setStack h (moved_stacked hmoved htop)
  | pushed huser hlife hlog hnot =>
      exact stacked_setStack h (htop.push huser rfl (not_removed hnot))
  | entered hstack hrunning =>
      rw [hstack] at htop
      exact stacked_setStack h (htop.enter hrunning)
  | won hstack hcalled =>
      rw [hstack] at htop
      exact stacked_setStack h (htop.become rfl (by simp))
  | lost hstack hcalled hmoved =>
      rw [hstack] at htop
      exact stacked_setStack h (resumed_stacked hmoved htop)
  | ended hstack hmoved =>
      rw [hstack] at htop
      exact stacked_setStack h (resumed_stacked hmoved htop)
  | construct huser hlife => exact stacked_setStack h (htop.push huser rfl rfl)
  | destroy huser hlife => exact stacked_setStack h (htop.push huser rfl rfl)
  | @emplace pc i pc' rest hstack hmember hlife =>
      rw [hstack] at htop
      have hnext : Stacked own (.code (.constructor pc') :: rest) := htop.become rfl (by simp)
      exact stacked_setStack h hnext.pushConstructor
  | @reset pc i pc' rest hstack hmember hlife =>
      rw [hstack] at htop
      have hnext : Stacked own (.code (.destructor pc') :: rest) := htop.become rfl (by simp)
      exact stacked_setStack h hnext.pushDestructor
  | constructed hstack =>
      rw [hstack] at htop
      exact stacked_setStack h (htop.pop (by simp))
  | destroyed hstack =>
      rw [hstack] at htop
      exact stacked_setStack h (htop.pop (by simp))

/-! ## The object -/

omit [DecidableEq Thread] in
/-- The destructor of a member notes that it is outside the callback body. -/
theorem outside_of_codes {sources : Sources Side Thread Record Code} {body : Body Thread}
    (hchained : Chained own (.source i f :: rest))
    (hbody : ∀ id, codes sources id = some (.callOnce .callback) ↔ body = .running id)
    (hcodes : ∀ depth, codes sources (t, depth) = codeAt rest depth)
    (hnot : ∀ depth, body ≠ .running (t, depth)) : rest.any (runsOwn own) = false := by
  refine Stacked.clear hchained rfl fun depth hcode => ?_
  rw [← hcodes, hbody] at hcode
  exact hnot depth hcode

/-- The destructor does not run on a thread whose top frame is `call_once`. -/
theorem not_resetting (h : CompoundInv own s) {pc : CallOncePc}
    (hstack : s.sources.stack t = .code (.callOnce pc) :: rest) {id : FrameId Thread}
    (hlife : s.object.life = .destroying id) : id.1 ≠ t := by
  rintro rfl
  have hholds := h.object.life
  unfold LifeInv at hholds
  rw [hlife] at hholds
  obtain ⟨pc', hcode, -⟩ := hholds
  have hchained := (h.stacked id.1).chained
  have husers := h.suspended (t := id.1)
  rw [hstack] at hchained husers
  unfold codes at hcode
  rw [hstack, codeAt_code] at hcode
  split at hcode
  · cases hcode
  · obtain ⟨i, pc'', heq⟩ := Stacked.destructor_top hchained husers hcode
    cases heq

/-- `call_once` has returned, and its caller makes the step that ends the
callback body. -/
theorem after_callOnce (h : CompoundInv own s) {object : Object Thread} {pc : CallOncePc}
    {m' : Memory Thread Record} {stack : Stack Thread Record}
    (hstack : s.sources.stack t = .code (.callOnce pc) :: .source i f :: rest)
    (hmoved : Moved own t i f rest (s.sources.memory i) m' stack)
    (hobject : ObjectInv own object
      (Function.update (codes s.sources) (t, (SharedFrame.source i f :: rest).length) none)
      s.sources.memory)
    (hcalled : object.called = true) :
    ObjectInv own object (codes ((s.sources.setMemory i m').setStack t stack))
      (Function.update s.sources.memory i m') := by
  have hchained := (h.stacked t).chained
  rw [hstack] at hchained
  have hsame : ∀ depth, codeAt stack depth = codeAt (.source i f :: rest) depth := by
    intro depth
    rw [hmoved.codeAt, codeAt_source]
  have hcodes : codes ((s.sources.setMemory i m').setStack t stack) = Function.update
      (codes s.sources) (t, (SharedFrame.source i f :: rest).length) none :=
    codes_leave hstack hsame
  rw [← hcodes] at hobject
  refine hobject.moved hmoved.life hmoved.log (fun _ => .inr hcalled) ?_
  apply outside_of_codes hchained.2 hobject.body
  intro depth
  simp [codes, Sources.setStack, hmoved.codeAt]

theorem effect_object (h : CompoundInv own s) (heffect : Effect own s t s') :
    ObjectInv own s'.object (codes s'.sources) s'.sources.memory := by
  have hchained := (h.stacked t).chained
  cases heffect with
  | @moved i f rest m' stack hstack hnot hmoved =>
      rw [hstack] at hchained
      have hcodes : ∀ depth, codeAt stack depth = codeAt (s.sources.stack t) depth := by
        intro depth
        rw [hmoved.codeAt, hstack, codeAt_source]
      have hsame : codes ((s.sources.setMemory i m').setStack t stack) = codes s.sources :=
        codes_same hcodes
      rw [hsame]
      refine h.object.moved hmoved.life hmoved.log ?_ ?_
      · rw [hmoved.returned hnot]
        exact .inl
      · apply outside_of_codes hchained h.object.body
        intro depth
        rw [codes, hstack, codeAt_source]
  | @pushed i f m' huser hlife hlog hnot =>
      have hsame : codes ((s.sources.setMemory i m').setStack t
          (.source i f :: s.sources.stack t)) = codes s.sources :=
        codes_same (by simp [Sources.setMemory])
      rw [hsame]
      have hstep : LifeStep own (t, 0) True (s.sources.memory i) m' := .same hlife
      refine h.object.moved hstep ?_ ?_ ?_
      · rw [hlog]
      · rw [hlog]
        exact .inl
      · exact fun _ => trivial
  | @entered i f rest hstack hrunning =>
      rw [← hstack, codes_push]
      refine h.object.recode ?_ (ObjectInv.notifies_some _) ?_ (by simp)
      · rw [codes_free]
        exact ObjectInv.notifies_none
      · rw [codes_free]
        simp
  | @won rest hstack hcalled =>
      rw [codes_become hstack]
      apply h.object.won (codes_top hstack) hcalled
      have htop := h.stacked t
      rw [hstack] at htop
      obtain ⟨i, f, below, rfl, hrunning⟩ := htop.under_callOnce
      exact ⟨i, h.claimed (t := t) (f := f) (by rw [hstack]; simp) hrunning⟩
  | @lost i f rest m' stack hstack hcalled hmoved =>
      have htop := codes_top hstack
      refine h.after_callOnce hstack hmoved (h.object.recode ?_ ObjectInv.notifies_none ?_ ?_) hcalled
      · rw [htop]
        exact ObjectInv.notifies_some _
      · rw [htop]
        simp
      · simp
  | @ended i f rest m' stack hstack hmoved =>
      have htop := codes_top hstack
      have hrunning := (h.object.body _).mp htop
      refine h.after_callOnce hstack hmoved
        (h.object.ended htop fun other hother => h.not_resetting hstack hother) ?_
      rw [← Bool.not_eq_false, h.object.called, hrunning]
      simp
  | construct huser hlife =>
      rw [codes_push]
      exact h.object.construct codes_free hlife
  | destroy huser hlife =>
      rw [codes_push]
      exact h.object.destroy codes_free hlife
  | @emplace pc i pc' rest hstack hmember hlife =>
      rw [codes_call _ hstack]
      exact h.object.emplace (codes_top hstack) hmember fun j => (h.returned hstack j).1
  | @reset pc i pc' rest hstack hmember hlife =>
      rw [codes_call _ hstack]
      exact h.object.reset (codes_top hstack) hmember fun j => (h.returned hstack j).2
  | constructed hstack =>
      rw [codes_leave hstack (fun _ => rfl)]
      exact h.object.constructed (codes_top hstack) fun j => (h.returned hstack j).1
  | destroyed hstack =>
      rw [codes_leave hstack (fun _ => rfl)]
      refine h.object.destroyed (codes_top hstack) (fun j => (h.returned hstack j).2) ?_
      intro hinside depth hbody
      simp [State.inside, hbody] at hinside

theorem initial (own : Record) : CompoundInv own (State.initial : State Thread Record) where
  views _ := .initial rfl
  stacked _ := Stacked.nil
  object := .initial own

/-- Every step of any thread keeps the invariant. -/
theorem step {a : Action Thread Record} (h : CompoundInv own s)
    (hstep : ScopeStop.step own s a = some s') : CompoundInv own s' := by
  have heffect := step_effect h.inv (h.stacked a.thread) hstep
  obtain ⟨object, actions, hvia⟩ := step_via hstep
  refine ⟨fun i => ?_, effect_stacked h.stacked heffect, h.effect_object heffect⟩
  apply via_invariant (p := fun sources =>
    (StopToken.machine Thread Record Unit).Reachable (sources.view i)) hvia
  · exact fun sources a sources' hview => Sources.view_reachable_step hview
  · exact h.views i

end CompoundInv

theorem compound_of_reachable (hs : (machine Thread Record own).Reachable s) :
    CompoundInv own s := by
  induction hs with
  | initial hinit =>
      subst hinit
      exact CompoundInv.initial own
  | step hs hstep ih => exact ih.step hstep

end Bexec.ScopeStop
