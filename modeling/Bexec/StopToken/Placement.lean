import Bexec.StopToken.Preservation

/-!
# Where the registrations stand

A registration under construction or destruction has its frame, a destructor
that waits does so for another thread, and only after the request is a callback
run by the registering thread.
-/

namespace Bexec.StopToken

open Foundation

variable {Thread Record Client : Type} [DecidableEq Record] {m m' : Memory Thread Record}
  {t : Thread} {r : Record} {weak : Bool} {rest : List (Frame Thread Record Client)}
  {next : Next Thread Record Client}

attribute [local simp] Memory.record Memory.setLife Memory.finishDestructor

theorem constructorStep_life {depth : Nat} {pc : ConstructorPc Record}
    (hstep : constructorStep t depth weak m r pc = some (m', next)) :
    (m'.life = m.life ∧ ∃ pc', next = .goto (.constructor r pc')) ∨
      (m'.life = Function.update m.life r .alive ∧ next = .ret) := by
  cases pc with
  | tryLock pc | readNext =>
      simp only [constructorStep] at hstep
      split at hstep <;> cases hstep <;> exact .inl ⟨rfl, _, rfl⟩
  | callback => cases hstep
  | setState =>
      cases hstep
      exact .inr ⟨rfl, rfl⟩
  | _ =>
      cases hstep
      exact .inl ⟨rfl, _, rfl⟩

theorem destructorStep_life [DecidableEq Thread] {pc : DestructorPc Thread Record}
    (hstep : destructorStep t rest weak m r pc = some (m', next)) :
    (m'.life = m.life ∧ ∃ pc', next = .goto (.destructor r pc')) ∨
      (m'.life = Function.update m.life r .destroyed ∧ ∀ frame, next ≠ .goto frame) := by
  cases pc with
  | readState | readFlag | waitCompleted =>
      simp only [destructorStep] at hstep
      split at hstep <;> cases hstep
      all_goals first | exact .inl ⟨rfl, _, rfl⟩ | exact .inr ⟨rfl, by simp⟩
  | lock pc | readPrevPtr saved | rereadNext saved =>
      simp only [destructorStep] at hstep
      split at hstep <;> cases hstep <;> exact .inl ⟨rfl, _, rfl⟩
  | unlock saved | writeFlag flag =>
      cases hstep
      exact .inr ⟨rfl, by simp⟩
  | _ =>
      cases hstep
      exact .inl ⟨rfl, _, rfl⟩

theorem requestStopStep_life {depth : Nat} {pc : RequestPc Record}
    (hstep : requestStopStep t depth weak m pc = some (m', next)) :
    m'.life = m.life ∧ (next = .ret ∨ ∃ pc', next = .goto (.requestStop pc')) := by
  cases pc with
  | tryLock pc | readHead | rereadHead r | relock pc =>
      simp only [requestStopStep] at hstep
      split at hstep <;> cases hstep <;> simp
  | callback r removed => cases hstep
  | _ =>
      cases hstep
      simp

def Next.frames : Next Thread Record Client → List (Frame Thread Record Client)
  | .goto frame => [frame]
  | _ => []

/-- The frame constructs, or destroys, the registration. -/
def Frame.handles (r : Record) : Life Thread → Frame Thread Record Client → Bool
  | .constructing _, .constructor r' _ => r' = r
  | .destroying _, .destructor r' _ => r' = r
  | _, _ => false

omit [DecidableEq Record] in
/-- The frame that performs a construction or destruction. -/
def Life.frame? : Life Thread → Option (FrameId Thread)
  | .constructing id => some id
  | .destroying id => some id
  | _ => none

structure Placement (s : State Thread Record Client) : Prop where
  /-- A registration under construction or destruction has its frame. -/
  handled : ∀ r id, (s.memory.life r).frame? = some id → ∃ frame,
    CallStack.frameAt (s.stack id.1) id.2 = some frame ∧ frame.handles r (s.memory.life r) = true
  /-- A destructor waits for another thread. -/
  waiting : ∀ t depth r,
    CallStack.frameAt (s.stack t) depth = some (.destructor r .waitCompleted) →
      ∃ c, claimer s.memory.log = some c ∧ c.1 ≠ t
  /-- A callback runs on the registering thread after the request only. -/
  late : ∀ r, phase s.memory.log r = .inline → (claimer s.memory.log).isSome = true

namespace Placement

omit [DecidableEq Record] in
@[simp] theorem handles_markRemoved (frame : Frame Thread Record Client) [DecidableEq Record]
    (life : Life Thread) : frame.markRemoved.handles r life = frame.handles r life := by
  cases frame with
  | requestStop pc => cases pc <;> cases life <;> rfl
  | _ => rfl

theorem initial : Placement (State.initial : State Thread Record Client) where
  handled := by simp [State.initial, Memory.empty, Life.frame?]
  waiting := by simp [State.initial, CallStack.frameAt]
  late := by simp [State.initial, Memory.empty, phase]

variable [DecidableEq Thread] {s s' : State Thread Record Client}

/-- The frames `old` on top of a stack are replaced by `new`. -/
theorem replace (old new : List (Frame Thread Record Client)) (h : Placement s)
    (hstack : s.stack t = old ++ rest) (hold : old.length ≤ 1)
    (hclaimer : ∀ c, claimer s.memory.log = some c → claimer m'.log = some c)
    (hlife : ∀ r id, (m'.life r).frame? = some id →
      m'.life r = s.memory.life r ∧ (∀ frame ∈ old, frame.handles r (s.memory.life r) = false) ∨
        id.1 = t ∧ ∃ frame, CallStack.frameAt (new ++ rest) id.2 = some frame ∧
          frame.handles r (m'.life r) = true)
    (hwaiting : ∀ depth r,
      CallStack.frameAt (new ++ rest) depth = some (.destructor r .waitCompleted) →
        CallStack.frameAt (s.stack t) depth = some (.destructor r .waitCompleted) ∨
          ∃ c, claimer m'.log = some c ∧ c.1 ≠ t)
    (hlate : ∀ r, phase m'.log r = .inline →
      phase s.memory.log r = .inline ∨ (claimer m'.log).isSome = true) :
    Placement ((s.setMemory m').setStack t (new ++ rest)) where
  handled := by
    intro r id hframe
    rcases hlife r id hframe with ⟨hsame, hnone⟩ | ⟨ht, frame, hframe, hhandles⟩
    · simp only [State.setStack, State.setMemory] at hframe ⊢
      rw [hsame] at hframe ⊢
      obtain ⟨frame, hat, hhandles⟩ := h.handled r id hframe
      rcases CallStack.frameAt_kept new hstack hat with ⟨ht, hdepth⟩ | hkept
      · rw [ht, hstack] at hat
        cases old with
        | nil =>
            have hlt := CallStack.frameAt_lt hat
            simp only [List.nil_append] at hlt
            omega
        | cons top others =>
            obtain rfl : others = [] := by
              rw [List.length_cons] at hold
              exact List.length_eq_zero_iff.mp (by omega)
            obtain ⟨-, rfl⟩ := CallStack.frameAt_top_eq hat hdepth
            rw [hnone _ List.mem_cons_self] at hhandles
            cases hhandles
      · exact ⟨frame, hkept, hhandles⟩
    · refine ⟨frame, ?_, hhandles⟩
      simpa [State.setStack, ht] using hframe
  waiting := by
    intro t' depth r hframe
    simp only [State.setStack, State.setMemory] at hframe ⊢
    by_cases ht : t' = t
    · subst ht
      rw [Function.update_self] at hframe
      rcases hwaiting depth r hframe with hbefore | hafter
      · obtain ⟨c, hc, hne⟩ := h.waiting t' depth r hbefore
        exact ⟨c, hclaimer c hc, hne⟩
      · exact hafter
    · rw [Function.update_of_ne ht] at hframe
      obtain ⟨c, hc, hne⟩ := h.waiting t' depth r hframe
      exact ⟨c, hclaimer c hc, hne⟩
  late := by
    intro r hinline
    rcases hlate r hinline with hbefore | hafter
    · obtain ⟨c, hc⟩ := Option.isSome_iff_exists.mp (h.late r hbefore)
      exact Option.isSome_iff_exists.mpr ⟨c, hclaimer c hc⟩
    · exact hafter

/-- A flag is set in a frame further down. -/
theorem markRemoved (h : Placement s) (flag : FrameId Thread) :
    Placement (s.setStack flag.1
      (CallStack.modifyAt Frame.markRemoved (s.stack flag.1) flag.2)) where
  handled := by
    intro r id hframe
    obtain ⟨frame, hat, hhandles⟩ := h.handled r id hframe
    by_cases ht : id.1 = flag.1
    · by_cases hdepth : id.2 = flag.2
      · refine ⟨frame.markRemoved, ?_, (handles_markRemoved frame _).trans hhandles⟩
        rw [ht, hdepth] at hat
        simp [State.setStack, ht, CallStack.frameAt_modifyAt, hdepth, hat]
      · refine ⟨frame, ?_, hhandles⟩
        rw [ht] at hat
        simp [State.setStack, ht, CallStack.frameAt_modifyAt, hdepth, hat]
    · exact ⟨frame, by simpa [State.setStack, ht] using hat, hhandles⟩
  waiting := by
    intro t depth r hframe
    by_cases ht : t = flag.1
    · subst ht
      simp only [State.setStack, Function.update_self, CallStack.frameAt_modifyAt] at hframe
      split at hframe
      next hdepth =>
        obtain ⟨frame, hat, hmark⟩ := Option.map_eq_some_iff.mp hframe
        cases frame with
        | requestStop pc => cases pc <;> cases hmark
        | destructor r' pc =>
            cases hmark
            exact h.waiting _ depth r hat
        | _ => cases hmark
      next => exact h.waiting _ depth r hframe
    · simp only [State.setStack, Function.update_of_ne ht] at hframe
      exact h.waiting t depth r hframe
  late := h.late

end Placement

section Steps

/-- A registration fails only after the request. -/
theorem constructorStep_late {depth : Nat} {pc : ConstructorPc Record} {id : FrameId Thread}
    (hinv : ConstructorInv m id r pc)
    (hstep : constructorStep t depth weak m r pc = some (m', next)) {r' : Record}
    (hinline : phase m'.log r' = .inline) :
    phase m.log r' = .inline ∨ (claimer m'.log).isSome = true := by
  cases pc with
  | tryLock pc =>
      simp only [constructorStep] at hstep
      split at hstep
      next => cases hstep; exact .inl hinline
      next => cases hstep; exact .inl (by simpa using hinline)
      next hrefused =>
        cases hstep
        exact .inr (by simpa using tryLock_refused hinv.2 hrefused)
  | readNext =>
      simp only [constructorStep] at hstep
      split at hstep <;> cases hstep <;> exact .inl hinline
  | callback => cases hstep
  | unlock =>
      cases hstep
      refine .inl ?_
      by_cases heq : r = r'
      · simp [heq] at hinline
      · simpa [heq] using hinline
  | _ =>
      cases hstep
      exact .inl (by simpa using hinline)

theorem destructorStep_late [DecidableEq Thread] {pc : DestructorPc Thread Record}
    (hstep : destructorStep t rest weak m r pc = some (m', next)) {r' : Record}
    (hinline : phase m'.log r' = .inline) : phase m.log r' = .inline := by
  cases pc with
  | readState | readFlag | waitCompleted | lock pc | readPrevPtr saved | rereadNext saved =>
      simp only [destructorStep] at hstep
      split at hstep <;> cases hstep <;> simpa using hinline
  | unlock saved =>
      cases hstep
      by_cases heq : r = r'
      · simp [heq] at hinline
      · simpa [heq] using hinline
  | _ =>
      cases hstep
      simpa using hinline

theorem requestStopStep_late {depth : Nat} {pc : RequestPc Record}
    (hstep : requestStopStep t depth weak m pc = some (m', next)) {r' : Record}
    (hinline : phase m'.log r' = .inline) : phase m.log r' = .inline := by
  cases pc with
  | tryLock pc | readHead | rereadHead r | relock pc =>
      simp only [requestStopStep] at hstep
      split at hstep <;> cases hstep <;> simpa using hinline
  | callback r removed => cases hstep
  | openLock r | setCompleted r =>
      cases hstep
      by_cases heq : r = r'
      · simp [heq] at hinline
      · simpa [heq] using hinline
  | _ =>
      cases hstep
      simpa using hinline

/-- The destructor waits only if another thread made the request. -/
theorem destructorStep_waiting [DecidableEq Thread] {pc : DestructorPc Thread Record}
    {id : FrameId Thread} (hinv : DestructorInv m id r pc)
    (hstep : destructorStep t rest weak m r pc =
      some (m', .goto (.destructor r .waitCompleted))) :
    pc = .waitCompleted ∨ ∃ c, claimer m'.log = some c ∧ c.1 ≠ t := by
  cases pc with
  | unlockPopped saved notifier =>
      simp only [destructorStep, Option.some.injEq, Prod.mk.injEq, Next.goto.injEq,
        Frame.destructor.injEq, true_and] at hstep
      obtain ⟨rfl, hgoto⟩ := hstep
      obtain ⟨-, -, -, c, hc, rfl⟩ := hinv
      refine .inr ⟨c, by simpa using hc, ?_⟩
      rintro rfl
      simp at hgoto
  | waitCompleted => exact .inl rfl
  | readState | readFlag | lock pc | readPrevPtr saved | rereadNext saved =>
      simp only [destructorStep] at hstep
      split at hstep <;> simp at hstep
  | _ => simp [destructorStep] at hstep

end Steps

namespace Placement

variable [DecidableEq Thread] {s s' : State Thread Record Client}
  {top : Frame Thread Record Client}

/-- The registration that a step of the top frame constructs or destroys keeps
its frame until its life has been changed. -/
theorem run_life (hs : Inv s) (hstack : s.stack t = top :: rest)
    (hstep : top.step t rest weak s.memory = some (m', next)) {id : FrameId Thread}
    (hframe : (m'.life r).frame? = some id) :
    m'.life r = s.memory.life r ∧ top.handles r (s.memory.life r) = false ∨
      id = (t, rest.length) ∧ ∃ frame, next = .goto frame ∧
        frame.handles r (m'.life r) = true := by
  have hinv := hs.frames t rest.length top (by rw [hstack]; exact CallStack.frameAt_top _ _)
  cases top with
  | constructor r' pc =>
      by_cases heq : r' = r
      · subst heq
        rcases constructorStep_life hstep with ⟨hlife, pc', rfl⟩ | ⟨hlife, -⟩
        · rw [hlife, hinv.1] at hframe ⊢
          cases hframe
          exact .inr ⟨rfl, _, rfl, by simp [Frame.handles]⟩
        · simp [hlife, Life.frame?] at hframe
      · refine .inl ⟨?_, ?_⟩
        · rcases constructorStep_life hstep with ⟨hlife, -⟩ | ⟨hlife, -⟩
          · rw [hlife]
          · simp [hlife, Ne.symm heq]
        · cases s.memory.life r <;> simp [Frame.handles, heq]
  | destructor r' pc =>
      by_cases heq : r' = r
      · subst heq
        rcases destructorStep_life hstep with ⟨hlife, pc', rfl⟩ | ⟨hlife, -⟩
        · rw [hlife, hinv.1] at hframe ⊢
          cases hframe
          exact .inr ⟨rfl, _, rfl, by simp [Frame.handles]⟩
        · simp [hlife, Life.frame?] at hframe
      · refine .inl ⟨?_, ?_⟩
        · rcases destructorStep_life hstep with ⟨hlife, -⟩ | ⟨hlife, -⟩
          · rw [hlife]
          · simp [hlife, Ne.symm heq]
        · cases s.memory.life r <;> simp [Frame.handles, heq]
  | requestStop pc =>
      obtain ⟨hlife, -⟩ := requestStopStep_life hstep
      refine .inl ⟨by rw [hlife], ?_⟩
      cases s.memory.life r <;> rfl
  | client c => cases hstep

theorem run_late (hs : Inv s) (hstack : s.stack t = top :: rest)
    (hstep : top.step t rest weak s.memory = some (m', next))
    (hinline : phase m'.log r = .inline) :
    phase s.memory.log r = .inline ∨ (claimer m'.log).isSome = true := by
  have hinv := hs.frames t rest.length top (by rw [hstack]; exact CallStack.frameAt_top _ _)
  cases top with
  | constructor r' pc => exact constructorStep_late hinv.2.2 hstep hinline
  | destructor r' pc => exact .inl (destructorStep_late hstep hinline)
  | requestStop pc => exact .inl (requestStopStep_late hstep hinline)
  | client c => cases hstep

/-- Only a destructor comes to wait, and for another thread. -/
theorem run_waiting (hs : Inv s) (hstack : s.stack t = top :: rest)
    (hstep : top.step t rest weak s.memory =
      some (m', .goto (.destructor r .waitCompleted))) :
    top = .destructor r .waitCompleted ∨ ∃ c, claimer m'.log = some c ∧ c.1 ≠ t := by
  have hinv := hs.frames t rest.length top (by rw [hstack]; exact CallStack.frameAt_top _ _)
  cases top with
  | constructor r' pc =>
      rcases constructorStep_life hstep with ⟨-, pc', hgoto⟩ | ⟨-, hret⟩
      · cases hgoto
      · cases hret
  | destructor r' pc =>
      rcases destructorStep_life hstep with ⟨-, pc', hgoto⟩ | ⟨-, hnot⟩
      · cases hgoto
        rcases destructorStep_waiting hinv.2 hstep with rfl | hclaimer
        · exact .inl rfl
        · exact .inr hclaimer
      · exact absurd rfl (hnot _)
  | requestStop pc =>
      rcases (requestStopStep_life hstep).2 with hret | ⟨pc', hgoto⟩
      · cases hret
      · cases hgoto
  | client c => cases hstep

/-- The top frame makes a step, and another frame or none takes its place. -/
theorem run_replace (h : Placement s) (hs : Inv s) (hstack : s.stack t = top :: rest)
    (hstep : top.step t rest weak s.memory = some (m', next)) :
    Placement ((s.setMemory m').setStack t (next.frames ++ rest)) := by
  refine h.replace [top] next.frames hstack (by simp) (fun c => hs.frame_claimer hstack hstep)
    ?_ ?_ ?_
  · intro r id hframe
    rcases run_life hs hstack hstep hframe with ⟨hsame, hhandles⟩ | ⟨rfl, frame, rfl, hhandles⟩
    · exact .inl ⟨hsame, by simpa using hhandles⟩
    · exact .inr ⟨rfl, frame, CallStack.frameAt_top _ _, hhandles⟩
  · intro depth r hframe
    by_cases hdepth : depth < rest.length
    · rw [CallStack.frameAt_append_of_lt _ hdepth] at hframe
      rw [hstack]
      exact .inl ((CallStack.frameAt_cons_of_lt hdepth).trans hframe)
    · cases next with
      | goto frame =>
          obtain ⟨rfl, rfl⟩ := CallStack.frameAt_top_eq hframe (not_lt.mp hdepth)
          rcases run_waiting hs hstack hstep with rfl | hother
          · refine .inl ?_
            rw [hstack]
            exact CallStack.frameAt_top _ _
          · exact .inr hother
      | ret | flagAndRet flag => exact absurd (CallStack.frameAt_lt hframe) hdepth
  · exact fun r hinline => run_late hs hstack hstep hinline

theorem run (h : Placement s) (hs : Inv s) (hstack : s.stack t = top :: rest)
    (hstep : top.step t rest weak s.memory = some (m', next)) :
    Placement ((s.setMemory m').apply t rest next) := by
  have hreplaced := h.run_replace hs hstack hstep
  cases next with
  | goto frame | ret => exact hreplaced
  | flagAndRet flag => exact hreplaced.markRemoved flag

/-- User code ends, starts or replaces a call, which does not wait yet. -/
theorem change (old new : List (Frame Thread Record Client)) (m' : Memory Thread Record)
    (h : Placement s) (hstack : s.stack t = old ++ rest) (hold : old.length ≤ 1)
    (hcalm : ∀ frame ∈ new, ∀ r, frame ≠ .destructor r .waitCompleted) (hnew : new.length ≤ 1)
    (hclaimer : claimer m'.log = claimer s.memory.log)
    (hphase : ∀ r, phase m'.log r = .inline → phase s.memory.log r = .inline)
    (hlife : ∀ r id, (m'.life r).frame? = some id →
      m'.life r = s.memory.life r ∧ (∀ frame ∈ old, frame.handles r (s.memory.life r) = false) ∨
        id.1 = t ∧ ∃ frame, CallStack.frameAt (new ++ rest) id.2 = some frame ∧
          frame.handles r (m'.life r) = true) :
    Placement ((s.setMemory m').setStack t (new ++ rest)) := by
  refine h.replace old new hstack hold (fun c hc => hclaimer.trans hc) hlife ?_ ?_
  · intro depth r hframe
    have hlt : depth < rest.length := by
      rw [← not_le]
      intro hdepth
      cases new with
      | nil => exact absurd (CallStack.frameAt_lt hframe) (not_lt.mpr hdepth)
      | cons frame others =>
          rw [List.length_cons] at hnew
          obtain rfl : others = [] := List.length_eq_zero_iff.mp (by omega)
          obtain ⟨-, heq⟩ := CallStack.frameAt_top_eq hframe hdepth
          exact hcalm frame List.mem_cons_self r heq.symm
    rw [CallStack.frameAt_append_of_lt new hlt] at hframe
    rw [hstack, CallStack.frameAt_append_of_lt old hlt]
    exact .inl hframe
  · exact fun r hinline => .inl (hphase r hinline)

/-- A callback body ends. -/
theorem endCallback (h : Placement s) (hstep : StopToken.step s (.ret t) = some s') :
    Placement s' := by
  simp only [StopToken.step] at hstep
  split at hstep
  next r rest hstack =>
    cases hstep
    refine h.change [_] [] _ hstack (by simp) (by simp) (by simp) rfl
      (fun _ hinline => hinline) ?_
    intro r' id hframe
    by_cases heq : r' = r
    · subst heq
      simp [Life.frame?] at hframe
    · refine .inl ⟨by simp [heq], ?_⟩
      cases s.memory.life r' <;> simp [Frame.handles, Ne.symm heq]
  next r rest hstack =>
    cases hstep
    refine h.change [_] [.requestStop (.relock .load)] _ hstack (by simp) (by simp)
      (by simp) rfl ?_ ?_
    · intro r' hinline
      by_cases heq : r = r'
      · simp [heq] at hinline
      · simpa [heq] using hinline
    · intro r' id hframe
      refine .inl ⟨rfl, ?_⟩
      cases s.memory.life r' <;> simp [Frame.handles]
  next r rest hstack =>
    cases hstep
    refine h.change [_] [.requestStop (.clearFlag r)] _ hstack (by simp) (by simp)
      (by simp) rfl (fun _ hinline => hinline) ?_
    intro r' id hframe
    refine .inl ⟨rfl, ?_⟩
    cases s.memory.life r' <;> simp [Frame.handles]
  next => cases hstep

theorem step {a : Action Thread Record Client} (h : Placement s) (hs : Inv s)
    (hstep : StopToken.step s a = some s') : Placement s' := by
  cases a with
  | run t weak =>
      simp only [StopToken.step] at hstep
      split at hstep
      next => cases hstep
      next top rest hstack =>
        split at hstep
        next => cases hstep
        next m next hframe =>
          cases hstep
          exact h.run hs hstack hframe
  | ret t => exact h.endCallback hstep
  | requestStop t =>
      simp only [StopToken.step, Option.ite_none_right_eq_some, Option.some.injEq] at hstep
      obtain ⟨-, rfl⟩ := hstep
      exact h.change [] [_] s.memory rfl (by simp) (by simp) (by simp) rfl
        (fun _ hinline => hinline) (fun r id _ => .inl ⟨rfl, by simp⟩)
  | construct t r =>
      simp only [StopToken.step, Option.ite_none_right_eq_some, Option.some.injEq] at hstep
      obtain ⟨⟨-, hlife⟩, rfl⟩ := hstep
      refine h.change [] [_] _ rfl (by simp) (by simp) (by simp) rfl
        (fun _ hinline => hinline) ?_
      intro r' id hframe
      by_cases heq : r' = r
      · subst heq
        simp only [Memory.setLife, Function.update_self, Life.frame?, Option.some.injEq] at hframe
        subst hframe
        exact .inr ⟨rfl, _, CallStack.frameAt_top _ _, by simp [Frame.handles]⟩
      · exact .inl ⟨by simp [heq], by simp⟩
  | destroy t r =>
      simp only [StopToken.step, Option.ite_none_right_eq_some, Option.some.injEq] at hstep
      obtain ⟨⟨-, hlife⟩, rfl⟩ := hstep
      refine h.change [] [_] _ rfl (by simp) (by simp) (by simp) rfl
        (fun _ hinline => hinline) ?_
      intro r' id hframe
      by_cases heq : r' = r
      · subst heq
        simp only [Memory.setLife, Function.update_self, Life.frame?, Option.some.injEq] at hframe
        subst hframe
        exact .inr ⟨rfl, _, CallStack.frameAt_top _ _, by simp [Frame.handles]⟩
      · exact .inl ⟨by simp [heq], by simp⟩
  | enter t c =>
      simp only [StopToken.step, Option.ite_none_right_eq_some, Option.some.injEq] at hstep
      obtain ⟨-, rfl⟩ := hstep
      exact h.change [] [_] s.memory rfl (by simp) (by simp) (by simp) rfl
        (fun _ hinline => hinline) (fun r id _ => .inl ⟨rfl, by simp⟩)
  | become t c =>
      simp only [StopToken.step] at hstep
      split at hstep
      next c' rest hstack =>
        cases hstep
        refine h.change [_] [_] s.memory hstack (by simp) (by simp)
          (by simp) rfl (fun _ hinline => hinline) ?_
        intro r id _
        refine .inl ⟨rfl, ?_⟩
        cases s.memory.life r <;> simp [Frame.handles]
      next => cases hstep
  | leave t =>
      simp only [StopToken.step] at hstep
      split at hstep
      next c' rest hstack =>
        cases hstep
        refine h.change [_] [] s.memory hstack (by simp) (by simp)
          (by simp) rfl (fun _ hinline => hinline) ?_
        intro r id _
        refine .inl ⟨rfl, ?_⟩
        cases s.memory.life r <;> simp [Frame.handles]
      next => cases hstep

end Placement

/-- The placement is maintained by every interleaving. -/
theorem placement_of_reachable [DecidableEq Thread] {s : State Thread Record Client}
    (hs : (machine Thread Record Client).Reachable s) : Placement s := by
  induction hs with
  | initial hinit =>
      subst hinit
      exact Placement.initial
  | step hs hstep ih => exact ih.step (inv_of_reachable hs) hstep

end Bexec.StopToken
