import Bexec.ScopeStop.Stacks

/-!
# What a step of a source does to the registration

A source steps when its frame is on top of a stack. It changes that stack and
its own memory only; the registration's lifetime advances when its constructor
or destructor returns, and its callback returns with the callback frame.
-/

namespace Bexec.ScopeStop

open Foundation StopToken

variable {Thread Record : Type} [DecidableEq Record] {own r : Record} {t : Thread} {weak : Bool}

section Frames

variable {Client : Type} {m m' : Memory Thread Record} {rest : List (Frame Thread Record Client)}
  {next : Next Thread Record Client}

/-- An access does not end a callback body. -/
theorem constructorStep_returned {depth : Nat} {pc : ConstructorPc Record}
    (hstep : constructorStep t depth weak m r pc = some (m', next)) :
    (trail m'.log own).returned = (trail m.log own).returned := by
  cases pc with
  | tryLock pc | readNext =>
      simp only [constructorStep] at hstep
      split at hstep <;> cases hstep <;> first
        | rfl
        | by_cases heq : r = own <;> simp [Memory.record, heq]
  | callback => cases hstep
  | invoke =>
      cases hstep
      by_cases heq : r = own <;> simp [Memory.record, heq]
  | _ =>
      cases hstep
      rfl

theorem destructorStep_returned [DecidableEq Thread] {pc : DestructorPc Thread Record}
    (hstep : destructorStep t rest weak m r pc = some (m', next)) :
    (trail m'.log own).returned = (trail m.log own).returned := by
  cases pc with
  | readState | lock pc | readPrevPtr saved | rereadNext saved | readFlag | waitCompleted =>
      simp only [destructorStep] at hstep
      split at hstep <;> cases hstep <;> rfl
  | _ =>
      cases hstep
      rfl

theorem requestStopStep_returned {depth : Nat} {pc : RequestPc Record}
    (hstep : requestStopStep t depth weak m pc = some (m', next)) :
    (trail m'.log own).returned = (trail m.log own).returned := by
  cases pc with
  | tryLock pc | readHead | rereadHead r | relock pc =>
      simp only [requestStopStep] at hstep
      split at hstep <;> cases hstep <;> rfl
  | callback r removed => cases hstep
  | invoke r =>
      cases hstep
      by_cases heq : r = own <;> simp [Memory.record, heq]
  | _ =>
      cases hstep
      rfl

theorem destructorStep_destroyed [DecidableEq Thread] {pc : DestructorPc Thread Record}
    (hstep : destructorStep t rest weak m r pc = some (m', next))
    (hlife : m'.life = Function.update m.life r .destroyed) (hold : m.life r ≠ .destroyed) :
    .destroyed r t (rest.any (·.running r)) ∈ m'.log := by
  have hchanged : m'.life ≠ m.life := by
    intro hsame
    rw [hsame] at hlife
    exact hold (by rw [hlife, Function.update_self])
  cases pc with
  | readState | readFlag | waitCompleted =>
      simp only [destructorStep] at hstep
      split at hstep <;> cases hstep <;> first
        | exact absurd rfl hchanged
        | exact List.mem_cons_self
  | lock pc | readPrevPtr saved | rereadNext saved =>
      simp only [destructorStep] at hstep
      split at hstep <;> cases hstep <;> exact absurd rfl hchanged
  | unlock saved | writeFlag flag =>
      cases hstep
      exact List.mem_cons_self
  | _ =>
      cases hstep
      exact absurd rfl hchanged

end Frames

/-- How the lifetime of the registration advances in a step of the frame `id`. -/
inductive LifeStep (own : Record) (id : FrameId Thread) (outside : Prop)
    (m m' : Memory Thread Record) : Prop
  | same (hsame : m'.life own = m.life own)
  | constructed (hold : m.life own = .constructing id) (hnew : m'.life own = .alive)
  | destroyed (hold : m.life own = .destroying id) (hnew : m'.life own = .destroyed)
      (hevent : outside → .destroyed own id.1 false ∈ m'.log)

/-- What a step of the frame `f` of source `i` leaves of its stack and its memory. -/
structure Moved (own : Record) (t : Thread) (i : Side) (f : Frame Thread Record Unit)
    (rest : Stack Thread Record) (m m' : Memory Thread Record) (stack : Stack Thread Record) :
    Prop where
  stack : (∃ f', stack = .source i f' :: rest ∧ Follows f f') ∨ stack = rest ∨
    (∃ r pc, f = .destructor r pc) ∧
      ∃ depth, stack = CallStack.modifyAt (SharedFrame.markRemoved i) rest depth
  life : LifeStep own (t, rest.length) (rest.any (runsOwn own) = false) m m'
  log : m.log <:+ m'.log
  returned : f.running own = false → (trail m'.log own).returned = (trail m.log own).returned

theorem view_running {rest : Stack Thread Record} (i : Side)
    (hclear : rest.any (runsOwn own) = false) :
    (rest.map (SharedFrame.view i)).any (·.running own) = false := by
  rw [List.any_eq_false] at hclear ⊢
  intro frame hmem
  obtain ⟨shared, hshared, rfl⟩ := List.mem_map.mp hmem
  have hnot := hclear shared hshared
  cases shared with
  | code c => simp [Frame.running]
  | source j f =>
      by_cases heq : j = i
      · simpa [SharedFrame.view, heq, runsOwn] using hnot
      · simp [SharedFrame.view, heq, Frame.running]

section Life

variable [DecidableEq Thread] {i : Side} {f : Frame Thread Record Unit}
  {rest : Stack Thread Record} {m m' : Memory Thread Record} {next : Next Thread Record Unit}

theorem frame_lifeStep (hinv : FrameInv m (t, rest.length) f)
    (hstep : f.step t (rest.map (SharedFrame.view i)) weak m = some (m', next)) :
    LifeStep own (t, rest.length) (rest.any (runsOwn own) = false) m m' := by
  cases f with
  | constructor r pc =>
      rcases constructorStep_life hstep with ⟨hlife, -⟩ | ⟨hlife, -⟩
      · exact .same (by rw [hlife])
      · by_cases heq : own = r
        · subst heq
          exact .constructed hinv.1 (by rw [hlife, Function.update_self])
        · exact .same (by rw [hlife, Function.update_of_ne heq])
  | destructor r pc =>
      rcases destructorStep_life hstep with ⟨hlife, -⟩ | ⟨hlife, -⟩
      · exact .same (by rw [hlife])
      · by_cases heq : own = r
        · subst heq
          refine .destroyed hinv.1 (by rw [hlife, Function.update_self]) fun hclear => ?_
          rw [← view_running i hclear]
          exact destructorStep_destroyed hstep hlife (by simp [hinv.1])
        · exact .same (by rw [hlife, Function.update_of_ne heq])
  | requestStop pc => exact .same (by rw [(requestStopStep_life hstep).1])
  | client c => cases hstep

theorem frame_log (hstep : f.step t (rest.map (SharedFrame.view i)) weak m = some (m', next)) :
    m.log <:+ m'.log := by
  cases f with
  | constructor r pc => exact constructorStep_log hstep
  | destructor r pc => exact destructorStep_log hstep
  | requestStop pc => exact requestStopStep_log hstep
  | client c => cases hstep

theorem frame_returned
    (hstep : f.step t (rest.map (SharedFrame.view i)) weak m = some (m', next)) :
    (trail m'.log own).returned = (trail m.log own).returned := by
  cases f with
  | constructor r pc => exact constructorStep_returned hstep
  | destructor r pc => exact destructorStep_returned hstep
  | requestStop pc => exact requestStopStep_returned hstep
  | client c => cases hstep

/-- A frame that an access leaves on top has not been told of a removal. -/
theorem frame_follows {f' : Frame Thread Record Unit}
    (hstep : f.step t (rest.map (SharedFrame.view i)) weak m = some (m', .goto f')) :
    Follows f f' := by
  cases f with
  | constructor r pc =>
      rcases constructorStep_life hstep with ⟨-, pc', hgoto⟩ | ⟨-, hret⟩
      · cases hgoto
        rfl
      · cases hret
  | destructor r pc =>
      rcases destructorStep_life hstep with ⟨-, pc', hgoto⟩ | ⟨-, hnot⟩
      · cases hgoto
        rfl
      · exact absurd rfl (hnot f')
  | requestStop pc =>
      rcases (requestStopStep_life hstep).2 with hret | ⟨pc', hgoto⟩
      · cases hret
      · cases hgoto
        intro r heq
        subst heq
        cases pc with
        | tryLock pc | readHead | rereadHead r | relock pc =>
            simp only [Frame.step, requestStopStep] at hstep
            split at hstep <;> cases hstep
        | _ => cases hstep
  | client c => cases hstep

/-- Only a destructor writes a flag, and of its own thread. -/
theorem frame_flag {flag : FrameId Thread} (hinv : FrameInv m (t, rest.length) f)
    (hstep : f.step t (rest.map (SharedFrame.view i)) weak m = some (m', .flagAndRet flag)) :
    flag.1 = t ∧ ∃ r pc, f = .destructor r pc := by
  cases f with
  | constructor r pc =>
      rcases constructorStep_life hstep with ⟨-, pc', hgoto⟩ | ⟨-, hret⟩
      · cases hgoto
      · cases hret
  | destructor r pc =>
      refine ⟨?_, r, pc, rfl⟩
      cases pc with
      | readState | lock pc | readPrevPtr saved | rereadNext saved | readFlag | waitCompleted =>
          simp only [Frame.step, destructorStep] at hstep
          split at hstep <;> cases hstep
      | writeFlag flag =>
          cases hstep
          exact hinv.2.2.2.1
      | _ => cases hstep
  | requestStop pc =>
      rcases (requestStopStep_life hstep).2 with hret | ⟨pc', hgoto⟩
      · cases hret
      · cases hgoto
  | client c => cases hstep

end Life

section Steps

variable [DecidableEq Thread] {s s' : Sources Side Thread Record Code} {i : Side}
  {f : Frame Thread Record Unit} {rest : Stack Thread Record}

omit [DecidableEq Record] in
theorem setStack_setStack (s : Sources Side Thread Record Code) (t : Thread)
    (stack stack' : Stack Thread Record) :
    (s.setStack t stack).setStack t stack' = s.setStack t stack' := by
  simp [Sources.setStack]

omit [DecidableEq Thread] in
theorem top_inv (hs : StopToken.Inv (s.view i)) (hstack : s.stack t = .source i f :: rest) :
    FrameInv (s.memory i) (t, rest.length) f := by
  refine hs.frames t rest.length f ?_
  rw [Sources.view_stack, hstack, List.map_cons, SharedFrame.view_source_self,
    ← List.length_map (f := SharedFrame.view i)]
  exact CallStack.frameAt_top _ _

/-- One access of the frame on top. -/
theorem run_moved (own : Record) (hs : StopToken.Inv (s.view i))
    (hstack : s.stack t = .source i f :: rest)
    (hstep : s.step (.run t weak) = some s') :
    ∃ m' stack, s' = (s.setMemory i m').setStack t stack ∧
      Moved own t i f rest (s.memory i) m' stack := by
  have hinv := top_inv hs hstack
  simp only [Sources.step, hstack] at hstep
  split at hstep
  next => cases hstep
  next m' next hframe =>
    cases hstep
    have hmoved : ∀ {stack}, _ → Moved own t i f rest (s.memory i) m' stack := fun hshape =>
      ⟨hshape, frame_lifeStep hinv hframe, frame_log hframe, fun _ => frame_returned hframe⟩
    cases next with
    | goto f' => exact ⟨m', _, rfl, hmoved (.inl ⟨f', rfl, frame_follows hframe⟩)⟩
    | ret => exact ⟨m', _, rfl, hmoved (.inr (.inl rfl))⟩
    | flagAndRet flag =>
        obtain ⟨hthread, hdestructor⟩ := frame_flag hinv hframe
        refine ⟨m', _, ?_, hmoved (.inr (.inr ⟨hdestructor, flag.2, rfl⟩))⟩
        simp only [Sources.apply, hthread, setStack_setStack]
        simp [Sources.setStack]

/-- A callback body ends. -/
theorem ret_moved (own : Record) (hs : StopToken.Inv (s.view i))
    (hstack : s.stack t = .source i f :: rest) (hstep : s.step (.ret t) = some s') :
    ∃ m' stack, s' = (s.setMemory i m').setStack t stack ∧
      Moved own t i f rest (s.memory i) m' stack := by
  have hinv := top_inv hs hstack
  simp only [Sources.step, hstack] at hstep
  unfold Sources.endCallback at hstep
  split at hstep
  next r =>
    cases hstep
    refine ⟨_, _, rfl, .inr (.inl rfl), ?_, Memory.record_log _, ?_⟩
    · by_cases heq : own = r
      · subst heq
        exact .constructed hinv.1 (by simp [Memory.record, Memory.setLife])
      · exact .same (by simp [Memory.record, Memory.setLife, heq])
    · intro hnot
      have hne : r ≠ own := by simpa [Frame.running] using hnot
      simp [Memory.record, Memory.setLife, hne]
  next r =>
    cases hstep
    refine ⟨_, _, rfl, .inl ⟨_, rfl, by simp [Follows]⟩, .same rfl, Memory.record_log _, ?_⟩
    intro hnot
    have hne : r ≠ own := by simpa [Frame.running] using hnot
    simp [Memory.record, hne]
  next r =>
    cases hstep
    refine ⟨_, _, rfl, .inl ⟨_, rfl, by simp [Follows]⟩, .same rfl, Memory.record_log _, ?_⟩
    intro hnot
    have hne : r ≠ own := by simpa [Frame.running] using hnot
    simp [Memory.record, hne]
  next => cases hstep

end Steps

/-! ## Steps of the whole -/

/-- The member that the constructor constructs next, and where that leaves it. -/
def EmplacePc.member : EmplacePc → Option (Side × EmplacePc)
  | .scope => some (.scope, .base)
  | .base => some (.base, .finish)
  | .finish => none

/-- The member that the destructor destroys next, and where that leaves it. -/
def ResetPc.member : ResetPc → Option (Side × ResetPc)
  | .base => some (.base, .scope)
  | .scope => some (.scope, .finish)
  | .finish => none

variable [DecidableEq Thread] {s s' : State Thread Record}

/-- What a step of thread `t` does. -/
inductive Effect (own : Record) (s : State Thread Record) (t : Thread) :
    State Thread Record → Prop
  /-- A frame of a source that is not in the object's callback steps. -/
  | moved {i f rest m' stack} (hstack : s.sources.stack t = .source i f :: rest)
      (hnot : f.running own = false)
      (hmoved : Moved own t i f rest (s.sources.memory i) m' stack) :
      Effect own s t ⟨s.object, (s.sources.setMemory i m').setStack t stack⟩
  /-- User code calls a source. -/
  | pushed {i f m'} (huser : userRuns own (s.sources.stack t) = true)
      (hlife : m'.life own = (s.sources.memory i).life own)
      (hlog : m'.log = (s.sources.memory i).log) (hnot : f.running own = false) :
      Effect own s t
        ⟨s.object, (s.sources.setMemory i m').setStack t (.source i f :: s.sources.stack t)⟩
  /-- The object's callback frame calls `call_once`. -/
  | entered {i f rest} (hstack : s.sources.stack t = .source i f :: rest)
      (hrunning : f.running own = true) :
      Effect own s t
        ⟨s.object, s.sources.setStack t (.code (.callOnce .exchange) :: .source i f :: rest)⟩
  | won {rest} (hstack : s.sources.stack t = .code (.callOnce .exchange) :: rest)
      (hcalled : s.object.called = false) :
      Effect own s t
        ⟨{ s.object with
            called := true
            body := .running (t, rest.length)
            invoked := t :: s.object.invoked },
          s.sources.setStack t (.code (.callOnce .callback) :: rest)⟩
  | lost {i f rest m' stack}
      (hstack : s.sources.stack t = .code (.callOnce .exchange) :: .source i f :: rest)
      (hcalled : s.object.called = true)
      (hmoved : Moved own t i f rest (s.sources.memory i) m' stack) :
      Effect own s t ⟨s.object, (s.sources.setMemory i m').setStack t stack⟩
  | ended {i f rest m' stack}
      (hstack : s.sources.stack t = .code (.callOnce .callback) :: .source i f :: rest)
      (hmoved : Moved own t i f rest (s.sources.memory i) m' stack) :
      Effect own s t
        ⟨{ s.object with body := .returned, returned := t :: s.object.returned },
          (s.sources.setMemory i m').setStack t stack⟩
  | construct (huser : userRuns own (s.sources.stack t) = true)
      (hlife : s.object.life = .unborn) :
      Effect own s t
        ⟨{ s.object with life := .constructing (t, (s.sources.stack t).length) },
          s.sources.setStack t (.code (.constructor .scope) :: s.sources.stack t)⟩
  | destroy (huser : userRuns own (s.sources.stack t) = true) (hlife : s.object.life = .alive) :
      Effect own s t
        ⟨{ s.object with life := .destroying (t, (s.sources.stack t).length) },
          s.sources.setStack t (.code (.destructor .base) :: s.sources.stack t)⟩
  | emplace {pc i pc' rest} (hstack : s.sources.stack t = .code (.constructor pc) :: rest)
      (hmember : pc.member = some (i, pc'))
      (hlife : (s.sources.memory i).life own = .unborn) :
      Effect own s t
        ⟨s.object, (s.sources.setMemory i ((s.sources.memory i).setLife own
          (.constructing (t, rest.length + 1)))).setStack t
            (.source i (.constructor own (.tryLock .load)) :: .code (.constructor pc') :: rest)⟩
  | reset {pc i pc' rest} (hstack : s.sources.stack t = .code (.destructor pc) :: rest)
      (hmember : pc.member = some (i, pc')) (hlife : (s.sources.memory i).life own = .alive) :
      Effect own s t
        ⟨s.object, (s.sources.setMemory i ((s.sources.memory i).setLife own
          (.destroying (t, rest.length + 1)))).setStack t
            (.source i (.destructor own .readState) :: .code (.destructor pc') :: rest)⟩
  | constructed {rest} (hstack : s.sources.stack t = .code (.constructor .finish) :: rest) :
      Effect own s t ⟨{ s.object with life := .alive }, s.sources.setStack t rest⟩
  | destroyed {rest} (hstack : s.sources.stack t = .code (.destructor .finish) :: rest) :
      Effect own s t
        ⟨{ s.object with life := .destroyed, tornDown := some (s.inside t) },
          s.sources.setStack t rest⟩

/-- The thread that takes the step. -/
def Action.thread : Action Thread Record → Thread
  | .run t _ | .ret t | .requestStop t _ | .constructOther t _ _ | .destroyOther t _ _
  | .construct t | .destroy t => t

section Via

variable {object : Object Thread} {a b : SourcesAction Side Thread Record Code}

theorem via_one (h : s.via object [a] = some s') :
    ∃ sources, Sources.step s.sources a = some sources ∧ s' = ⟨object, sources⟩ := by
  obtain ⟨sources, hfold, rfl⟩ := Option.map_eq_some_iff.mp h
  exact ⟨sources, by simpa using hfold, rfl⟩

theorem via_two (h : s.via object [a, b] = some s') :
    ∃ middle sources, Sources.step s.sources a = some middle ∧
      Sources.step middle b = some sources ∧ s' = ⟨object, sources⟩ := by
  obtain ⟨sources, hfold, rfl⟩ := Option.map_eq_some_iff.mp h
  simp only [List.foldlM_cons, List.foldlM_nil, Option.bind_eq_bind] at hfold
  obtain ⟨middle, hfirst, hsecond⟩ := Option.bind_eq_some_iff.mp hfold
  exact ⟨middle, sources, hfirst, by simpa using hsecond, rfl⟩

end Via

section Calls

variable {sources sources' : Sources Side Thread Record Code} {c c' : Code}
  {rest : Stack Thread Record} {i : Side}

theorem step_enter (h : sources.step (.enter t c) = some sources') :
    sources' = sources.setStack t (.code c :: sources.stack t) := by
  simp only [Sources.step, Option.ite_none_right_eq_some, Option.some.injEq] at h
  exact h.2.symm

theorem step_become (hstack : sources.stack t = .code c :: rest)
    (h : sources.step (.become t c') = some sources') :
    sources' = sources.setStack t (.code c' :: rest) := by
  simp only [Sources.step, hstack, Option.some.injEq] at h
  exact h.symm

theorem step_leave (hstack : sources.stack t = .code c :: rest)
    (h : sources.step (.leave t) = some sources') : sources' = sources.setStack t rest := by
  simp only [Sources.step, hstack, Option.some.injEq] at h
  exact h.symm

theorem step_construct (h : sources.step (.construct t i r) = some sources') :
    (sources.memory i).life r = .unborn ∧
      sources' = (sources.setMemory i ((sources.memory i).setLife r
        (.constructing (t, (sources.stack t).length)))).setStack t
          (.source i (.constructor r (.tryLock .load)) :: sources.stack t) := by
  simp only [Sources.step, Option.ite_none_right_eq_some, Option.some.injEq] at h
  exact ⟨h.1.2, h.2.symm⟩

theorem step_destroy (h : sources.step (.destroy t i r) = some sources') :
    (sources.memory i).life r = .alive ∧
      sources' = (sources.setMemory i ((sources.memory i).setLife r
        (.destroying (t, (sources.stack t).length)))).setStack t
          (.source i (.destructor r .readState) :: sources.stack t) := by
  simp only [Sources.step, Option.ite_none_right_eq_some, Option.some.injEq] at h
  exact ⟨h.1.2, h.2.symm⟩

end Calls

section Codes

variable {code : Code} {rest : Stack Thread Record}

/-- The constructor or destructor calls that of a member. -/
theorem effect_emplace {pc pc' : EmplacePc} {i : Side}
    (hstack : s.sources.stack t = .code (.constructor pc) :: rest)
    (hmember : pc.member = some (i, pc'))
    (hstep : s.via s.object [.become t (.constructor pc'), .construct t i own] = some s') :
    Effect own s t s' := by
  obtain ⟨middle, sources, hbecome, hconstruct, rfl⟩ := via_two hstep
  obtain rfl := step_become hstack hbecome
  obtain ⟨hlife, rfl⟩ := step_construct hconstruct
  have heffect := Effect.emplace hstack hmember hlife
  simpa [Sources.setStack, Sources.setMemory] using heffect

theorem effect_reset {pc pc' : ResetPc} {i : Side}
    (hstack : s.sources.stack t = .code (.destructor pc) :: rest)
    (hmember : pc.member = some (i, pc'))
    (hstep : s.via s.object [.become t (.destructor pc'), .destroy t i own] = some s') :
    Effect own s t s' := by
  obtain ⟨middle, sources, hbecome, hdestroy, rfl⟩ := via_two hstep
  obtain rfl := step_become hstack hbecome
  obtain ⟨hlife, rfl⟩ := step_destroy hdestroy
  have heffect := Effect.reset hstack hmember hlife
  simpa [Sources.setStack, Sources.setMemory] using heffect

/-- `call_once` returns, and with it the callback that called it. -/
theorem leave_moved (own : Record) {pc : CallOncePc} {i : Side} {f : Frame Thread Record Unit}
    {sources middle : Sources Side Thread Record Code} (hs : StopToken.Inv (sources.view i))
    (hstack : sources.stack t = .code (.callOnce pc) :: .source i f :: rest)
    (hleave : sources.step (.leave t) = some middle) {final : Sources Side Thread Record Code}
    (hret : middle.step (.ret t) = some final) :
    ∃ m' stack, final = (sources.setMemory i m').setStack t stack ∧
      Moved own t i f rest (sources.memory i) m' stack := by
  have hview : StopToken.Inv (middle.view i) := by
    rcases Sources.view_step hleave i with hsame | ⟨a, hstep⟩
    · rw [hsame]
      exact hs
    · exact hs.step hstep
  obtain rfl := step_leave hstack hleave
  have hbelow : (sources.setStack t (.source i f :: rest)).stack t = .source i f :: rest := by
    simp [Sources.setStack]
  obtain ⟨m', stack, rfl, hmoved⟩ := ret_moved own hview hbelow hret
  exact ⟨m', stack, by simp [Sources.setStack, Sources.setMemory], hmoved⟩

theorem effect_code (hs : ∀ i, StopToken.Inv (s.sources.view i))
    (hstacked : Stacked own (s.sources.stack t))
    (hstack : s.sources.stack t = .code code :: rest)
    (hstep : s.runCode own t rest.length code = some s') : Effect own s t s' := by
  cases code with
  | constructor pc =>
      cases pc with
      | scope => exact effect_emplace hstack rfl hstep
      | base => exact effect_emplace hstack rfl hstep
      | finish =>
          obtain ⟨sources, hleave, rfl⟩ := via_one hstep
          obtain rfl := step_leave hstack hleave
          exact .constructed hstack
  | destructor pc =>
      cases pc with
      | base => exact effect_reset hstack rfl hstep
      | scope => exact effect_reset hstack rfl hstep
      | finish =>
          obtain ⟨sources, hleave, rfl⟩ := via_one hstep
          obtain rfl := step_leave hstack hleave
          exact .destroyed hstack
  | callOnce pc =>
      cases pc with
      | callback => cases hstep
      | exchange =>
          simp only [State.runCode] at hstep
          split at hstep
          next hcalled =>
            rw [hstack] at hstacked
            obtain ⟨i, f, below, rfl, -⟩ := hstacked.under_callOnce
            obtain ⟨middle, sources, hleave, hret, rfl⟩ := via_two hstep
            obtain ⟨m', stack, rfl, hmoved⟩ := leave_moved own (hs i) hstack hleave hret
            exact .lost hstack hcalled hmoved
          next hcalled =>
            obtain ⟨sources, hbecome, rfl⟩ := via_one hstep
            obtain rfl := step_become hstack hbecome
            exact .won hstack (by simpa using hcalled)

end Codes

/-- What a step can do. -/
theorem step_effect {a : Action Thread Record} (hs : ∀ i, StopToken.Inv (s.sources.view i))
    (hstacked : Stacked own (s.sources.stack a.thread)) (hstep : step own s a = some s') :
    Effect own s a.thread s' := by
  cases a with
  | run t weak =>
      simp only [step] at hstep
      split at hstep
      next => cases hstep
      next i f rest hstack =>
        split at hstep
        next hrunning =>
          obtain ⟨sources, henter, rfl⟩ := via_one hstep
          obtain rfl := step_enter henter
          rw [hstack]
          exact .entered hstack hrunning
        next hrunning =>
          obtain ⟨sources, hrun, rfl⟩ := via_one hstep
          obtain ⟨m', stack, rfl, hmoved⟩ := run_moved own (hs i) hstack hrun
          exact .moved hstack (by simpa using hrunning) hmoved
      next code rest hstack => exact effect_code hs hstacked hstack hstep
  | ret t =>
      simp only [step] at hstep
      split at hstep
      next i f rest hstack =>
        split at hstep
        next => cases hstep
        next hrunning =>
          obtain ⟨sources, hret, rfl⟩ := via_one hstep
          obtain ⟨m', stack, rfl, hmoved⟩ := ret_moved own (hs i) hstack hret
          exact .moved hstack (by simpa using hrunning) hmoved
      next rest hstack =>
        simp only [Action.thread] at hstacked ⊢
        rw [hstack] at hstacked
        obtain ⟨i, f, below, rfl, -⟩ := hstacked.under_callOnce
        obtain ⟨middle, sources, hleave, hret, rfl⟩ := via_two hstep
        obtain ⟨m', stack, rfl, hmoved⟩ := leave_moved own (hs i) hstack hleave hret
        exact .ended hstack hmoved
      next => cases hstep
  | requestStop t i =>
      simp only [step, Option.ite_none_right_eq_some] at hstep
      obtain ⟨huser, hstep⟩ := hstep
      obtain ⟨sources, hcall, rfl⟩ := via_one hstep
      simp only [Sources.step, Option.ite_none_right_eq_some, Option.some.injEq] at hcall
      obtain ⟨-, rfl⟩ := hcall
      have hsame : s.sources.setMemory i (s.sources.memory i) = s.sources := by
        simp [Sources.setMemory]
      have heffect := Effect.pushed (i := i) (f := .requestStop (.tryLock .load)) huser rfl rfl rfl
      rwa [hsame] at heffect
  | constructOther t i r =>
      simp only [step, Option.ite_none_right_eq_some] at hstep
      obtain ⟨⟨huser, hne⟩, hstep⟩ := hstep
      obtain ⟨sources, hcall, rfl⟩ := via_one hstep
      obtain ⟨-, rfl⟩ := step_construct hcall
      exact .pushed huser (by simp [Memory.setLife, Ne.symm hne]) rfl rfl
  | destroyOther t i r =>
      simp only [step, Option.ite_none_right_eq_some] at hstep
      obtain ⟨⟨huser, hne⟩, hstep⟩ := hstep
      obtain ⟨sources, hcall, rfl⟩ := via_one hstep
      obtain ⟨-, rfl⟩ := step_destroy hcall
      exact .pushed huser (by simp [Memory.setLife, Ne.symm hne]) rfl rfl
  | construct t =>
      simp only [step, Option.ite_none_right_eq_some] at hstep
      obtain ⟨⟨huser, hlife⟩, hstep⟩ := hstep
      obtain ⟨sources, henter, rfl⟩ := via_one hstep
      obtain rfl := step_enter henter
      exact .construct huser hlife
  | destroy t =>
      simp only [step, Option.ite_none_right_eq_some] at hstep
      obtain ⟨⟨huser, hlife⟩, hstep⟩ := hstep
      obtain ⟨sources, henter, rfl⟩ := via_one hstep
      obtain rfl := step_enter henter
      exact .destroy huser hlife

end Bexec.ScopeStop
