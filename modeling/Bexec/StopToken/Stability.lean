import Bexec.StopToken.Preservation

/-!
# What no step undoes

The history only grows, and a destroyed record stays destroyed: no thread
enters its callback again.
-/

namespace Bexec.StopToken

open Foundation

variable {Thread Record Client : Type} [DecidableEq Record] {m m' : Memory Thread Record}
  {r : Record} {weak : Bool} {next : Next Thread Record Client}

attribute [local simp] Memory.record Memory.setLife

/-- The constructor of another record does not concern `r`. -/
theorem constructorStep_other {t : Thread} {depth : Nat} {r' : Record} (hne : r ≠ r')
    {pc : ConstructorPc Record} (hstep : constructorStep t depth weak m r' pc = some (m', next)) :
    m'.life r = m.life r ∧ trail m'.log r = trail m.log r := by
  cases pc with
  | tryLock pc | readNext =>
      simp only [constructorStep] at hstep
      split at hstep <;> cases hstep <;> simp [Ne.symm hne]
  | callback => cases hstep
  | _ =>
      cases hstep
      simp [hne, Ne.symm hne]

theorem finishDestructor_other {t : Thread} {rest : List (Frame Thread Record Client)}
    {r' : Record} (hne : r ≠ r') :
    (m.finishDestructor t rest r').life r = m.life r ∧
      trail (m.finishDestructor t rest r').log r = trail m.log r := by
  simp [Memory.finishDestructor, hne]

variable [DecidableEq Thread]

theorem destructorStep_other {t : Thread} {rest : List (Frame Thread Record Client)}
    {r' : Record} (hne : r ≠ r') {pc : DestructorPc Thread Record}
    (hstep : destructorStep t rest weak m r' pc = some (m', next)) :
    m'.life r = m.life r ∧ trail m'.log r = trail m.log r := by
  cases pc with
  | readState | lock pc | readPrevPtr saved | rereadNext saved | readFlag | waitCompleted =>
      simp only [destructorStep] at hstep
      split at hstep <;> cases hstep <;> first
        | exact ⟨rfl, rfl⟩
        | exact finishDestructor_other hne
  | unlock saved | writeFlag flag =>
      cases hstep
      exact finishDestructor_other hne
  | _ =>
      cases hstep
      exact ⟨rfl, rfl⟩

omit [DecidableEq Thread] in
/-- `request_stop` enters the callback of `r` at one program point only. -/
theorem requestStopStep_other {t : Thread} {depth : Nat} {pc : RequestPc Record}
    (hne : pc ≠ .invoke r)
    (hstep : requestStopStep t depth weak m pc = some (m', next)) :
    m'.life r = m.life r ∧ trail m'.log r = trail m.log r := by
  cases pc with
  | tryLock pc | readHead | rereadHead r' | relock pc =>
      simp only [requestStopStep] at hstep
      split at hstep <;> cases hstep <;> exact ⟨rfl, rfl⟩
  | callback r' removed => cases hstep
  | invoke r' =>
      cases hstep
      have hne' : r' ≠ r := fun heq => hne (by rw [heq])
      simp [hne']
  | _ =>
      cases hstep
      exact ⟨rfl, rfl⟩

variable {s s' : State Thread Record Client}

/-- A destroyed record stays destroyed and its callback is not entered again. -/
theorem Inv.destroyed_step (hs : Inv s) {a : Action Thread Record Client}
    (hstep : StopToken.step s a = some s') (hlife : s.memory.life r = .destroyed) :
    s'.memory.life r = .destroyed ∧
      (trail s'.memory.log r).invoked = (trail s.memory.log r).invoked := by
  cases a with
  | run t weak =>
      simp only [StopToken.step] at hstep
      split at hstep
      · cases hstep
      next top rest hstack =>
        split at hstep
        · cases hstep
        next m' next hframe =>
          have htop := hs.frames t rest.length top (by rw [hstack]; exact CallStack.frameAt_top _ _)
          have hsame : m'.life r = s.memory.life r ∧ trail m'.log r = trail s.memory.log r := by
            cases top with
            | constructor r' pc =>
                refine constructorStep_other ?_ hframe
                rintro rfl
                rw [htop.1] at hlife
                cases hlife
            | destructor r' pc =>
                refine destructorStep_other ?_ hframe
                rintro rfl
                rw [htop.1] at hlife
                cases hlife
            | requestStop pc =>
                refine requestStopStep_other ?_ hframe
                rintro rfl
                exact htop.2.1 hlife
            | client c => cases hframe
          have hmemory : s'.memory = m' := by
            cases hstep
            cases next <;> rfl
          rw [hmemory, hsame.1, hsame.2]
          exact ⟨hlife, rfl⟩
  | ret t =>
      simp only [StopToken.step] at hstep
      split at hstep
      next r' rest hstack =>
        cases hstep
        have htop := hs.frames t rest.length _ (by rw [hstack]; exact CallStack.frameAt_top _ _)
        have hne : r ≠ r' := by
          rintro rfl
          rw [htop.1] at hlife
          cases hlife
        simpa [State.setStack, State.setMemory, hne, Ne.symm hne] using hlife
      next r' _ _ =>
        cases hstep
        by_cases heq : r' = r <;> simp [State.setStack, State.setMemory, heq, hlife]
      next r' _ _ =>
        cases hstep
        by_cases heq : r' = r <;> simp [State.setStack, State.setMemory, heq, hlife]
      next => cases hstep
  | construct t r' | destroy t r' =>
      simp only [StopToken.step, Option.ite_none_right_eq_some, Option.some.injEq] at hstep
      obtain ⟨⟨_, hlife'⟩, rfl⟩ := hstep
      have hne : r ≠ r' := by
        rintro rfl
        rw [hlife] at hlife'
        cases hlife'
      simpa [State.push, State.setStack, State.setMemory, hne] using hlife
  | requestStop t | enter t c =>
      simp only [StopToken.step, Option.ite_none_right_eq_some, Option.some.injEq] at hstep
      obtain ⟨_, rfl⟩ := hstep
      exact ⟨hlife, rfl⟩
  | become t c | leave t =>
      simp only [StopToken.step] at hstep
      split at hstep
      next =>
        cases hstep
        exact ⟨hlife, rfl⟩
      next => cases hstep

/-- The claim stands. -/
theorem Inv.claimer_step (hs : Inv s) {a : Action Thread Record Client} {c : FrameId Thread}
    (hclaimed : claimer s.memory.log = some c) (hstep : StopToken.step s a = some s') :
    claimer s'.memory.log = some c := by
  cases a with
  | run t weak =>
      simp only [StopToken.step] at hstep
      split at hstep
      next => cases hstep
      next top rest hstack =>
        split at hstep
        next => cases hstep
        next m next hframe =>
          have hmemory : s'.memory = m := by
            cases hstep
            cases next <;> rfl
          rw [hmemory]
          exact hs.frame_claimer hstack hframe hclaimed
  | ret t =>
      simp only [StopToken.step] at hstep
      split at hstep
      next =>
        cases hstep
        simpa [State.setStack, State.setMemory] using hclaimed
      next =>
        cases hstep
        simpa [State.setStack, State.setMemory] using hclaimed
      next =>
        cases hstep
        simpa [State.setStack, State.setMemory] using hclaimed
      next => cases hstep
  | requestStop t | construct t r | destroy t r | enter t client =>
      simp only [StopToken.step, Option.ite_none_right_eq_some, Option.some.injEq] at hstep
      obtain ⟨-, rfl⟩ := hstep
      exact hclaimed
  | become t client | leave t =>
      simp only [StopToken.step] at hstep
      split at hstep
      next =>
        cases hstep
        exact hclaimed
      next => cases hstep

omit [DecidableEq Record] [DecidableEq Thread] in
theorem Memory.record_log (events : List (Event Thread Record)) :
    m.log <:+ (m.record events).log :=
  List.suffix_append _ _

omit [DecidableEq Thread] in
theorem constructorStep_log {t : Thread} {depth : Nat} {pc : ConstructorPc Record}
    (hstep : constructorStep t depth weak m r pc = some (m', next)) : m.log <:+ m'.log := by
  cases pc with
  | tryLock pc | readNext =>
      simp only [constructorStep] at hstep
      split at hstep <;> cases hstep <;> first
        | exact List.suffix_rfl
        | exact Memory.record_log _
  | callback => cases hstep
  | _ =>
      cases hstep
      first
        | exact List.suffix_rfl
        | exact Memory.record_log _

theorem destructorStep_log {t : Thread} {rest : List (Frame Thread Record Client)}
    {pc : DestructorPc Thread Record} (hstep : destructorStep t rest weak m r pc = some (m', next)) :
    m.log <:+ m'.log := by
  cases pc with
  | readState | lock pc | readPrevPtr saved | rereadNext saved | readFlag | waitCompleted =>
      simp only [destructorStep] at hstep
      split at hstep <;> cases hstep <;> first
        | exact List.suffix_rfl
        | exact Memory.record_log _
  | unlock saved =>
      cases hstep
      exact (Memory.record_log _).trans (Memory.record_log _)
  | _ =>
      cases hstep
      first
        | exact List.suffix_rfl
        | exact Memory.record_log _

omit [DecidableEq Thread] in
theorem requestStopStep_log {t : Thread} {depth : Nat} {pc : RequestPc Record}
    (hstep : requestStopStep t depth weak m pc = some (m', next)) : m.log <:+ m'.log := by
  cases pc with
  | tryLock pc | readHead | rereadHead r' | relock pc =>
      simp only [requestStopStep] at hstep
      split at hstep <;> cases hstep <;> first
        | exact List.suffix_rfl
        | exact Memory.record_log _
  | callback r' removed => cases hstep
  | _ =>
      cases hstep
      first
        | exact List.suffix_rfl
        | exact Memory.record_log _

/-- The history only grows. -/
theorem step_log {a : Action Thread Record Client} (hstep : StopToken.step s a = some s') :
    s.memory.log <:+ s'.memory.log := by
  cases a with
  | run t weak =>
      simp only [StopToken.step] at hstep
      split at hstep
      · cases hstep
      next top rest _ =>
        split at hstep
        · cases hstep
        next m' next hframe =>
          have hmemory : s'.memory = m' := by
            cases hstep
            cases next <;> rfl
          rw [hmemory]
          cases top with
          | constructor r pc => exact constructorStep_log hframe
          | destructor r pc => exact destructorStep_log hframe
          | requestStop pc => exact requestStopStep_log hframe
          | client c => cases hframe
  | ret t =>
      simp only [StopToken.step] at hstep
      split at hstep <;> cases hstep <;> exact Memory.record_log _
  | construct t r | destroy t r | requestStop t | enter t c =>
      simp only [StopToken.step, Option.ite_none_right_eq_some, Option.some.injEq] at hstep
      obtain ⟨_, rfl⟩ := hstep
      exact List.suffix_rfl
  | become t c | leave t =>
      simp only [StopToken.step] at hstep
      split at hstep <;> cases hstep
      exact List.suffix_rfl

theorem run_log {trace : List (State Thread Record Client × Action Thread Record Client)}
    (hrun : (machine Thread Record Client).Run s trace s') : s.memory.log <:+ s'.memory.log := by
  induction hrun with
  | nil => exact List.suffix_rfl
  | snoc _ hstep ih => exact ih.trans (step_log hstep)

theorem destroyed_run (hs : (machine Thread Record Client).Reachable s)
    {trace : List (State Thread Record Client × Action Thread Record Client)}
    (hrun : (machine Thread Record Client).Run s trace s')
    (hlife : s.memory.life r = .destroyed) :
    s'.memory.life r = .destroyed ∧
      (trail s'.memory.log r).invoked = (trail s.memory.log r).invoked := by
  induction hrun with
  | nil => exact ⟨hlife, rfl⟩
  | snoc hrun hstep ih =>
      have hkept := (inv_of_reachable (hs.run hrun)).destroyed_step hstep ih.1
      exact ⟨hkept.1, hkept.2.trans ih.2⟩

end Bexec.StopToken
