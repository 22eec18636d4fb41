import Bexec.StopToken.StateWord
import Bexec.StopToken.Step

/-!
# The calls of the stop source as users of the word

Every step of the stop source is to the word an access by one frame, the start
of a call, or nothing, so what holds of the word in every interleaving of such
accesses holds of it in the stop source.
-/

namespace Bexec.StopToken

open Foundation

variable {Thread Record Client : Type}

def ConstructorPc.word : ConstructorPc Record → Option StateWord.Pc
  | .tryLock pc => some (.adding pc)
  | .setState | .invoke | .callback => none
  | _ => some .added

def DestructorPc.word : DestructorPc Thread Record → Option StateWord.Pc
  | .lock pc => some (.locking pc)
  | .readPrevPtr saved | .readNext saved _ | .writeSlot saved _ _ | .rereadNext saved
  | .rereadPrevPtr saved _ | .writeNextPrevPtr saved _ _ | .unlock saved
  | .readRequester saved | .unlockPopped saved _ => some (.locked saved)
  | .readState | .readFlag | .writeFlag _ | .waitCompleted => none

def RequestPc.word : RequestPc Record → Option StateWord.Pc
  | .tryLock pc => some (.claiming pc)
  | .invoke _ | .callback _ _ | .clearFlag _ | .setCompleted _ => some .window
  | .relock pc => some (.relocking pc)
  | _ => some .draining

/-- Where the frame stands among its accesses to the word. -/
def Frame.word : Frame Thread Record Client → Option StateWord.Pc
  | .constructor _ pc => pc.word
  | .destructor _ pc => pc.word
  | .requestStop pc => pc.word
  | .client _ => none

def Next.word : Next Thread Record Client → Option StateWord.Pc
  | .goto frame => frame.word
  | _ => none

/-- Every frame is a caller. -/
def State.word (s : State Thread Record Client) : StateWord.State (FrameId Thread) :=
  ⟨s.memory.state, fun id => (CallStack.frameAt (s.stack id.1) id.2).bind Frame.word⟩

/-- What one step makes of the word and of the acting frame. -/
inductive WordStep (word word' : Word) (old new : Option StateWord.Pc) : Prop
  | none (hword : word' = word) (hsame : new = old)
  | enter (call : StateWord.Call) (hword : word' = word) (hold : old = Option.none)
      (hnew : new = some call.entry)
  | access {pc : StateWord.Pc} (move : StateWord.Move) {access : StateWord.Access}
      (hold : old = some pc) (haccess : pc.access word move = some access)
      (hword : word' = access.store.getD word) (hnew : new = access.next)

attribute [local simp] ConstructorPc.word DestructorPc.word RequestPc.word Frame.word Next.word
  Memory.record Memory.setLife Memory.finishDestructor StateWord.Pc.access StateWord.Access.ofSpin

variable {m m' : Memory Thread Record} {t : Thread} {r : Record} {weak : Bool}
  {next : Next Thread Record Client}

theorem constructorStep_word [DecidableEq Record] {depth : Nat} {pc : ConstructorPc Record}
    (hstep : constructorStep t depth weak m r pc = some (m', next)) :
    WordStep m.state m'.state pc.word next.word := by
  cases pc with
  | tryLock spin =>
      simp only [constructorStep] at hstep
      split at hstep
      all_goals
        next hlock =>
          cases hstep
          exact .access (.spin weak) rfl rfl (by simp [hlock]) (by simp [hlock])
  | readNext =>
      simp only [constructorStep] at hstep
      split at hstep <;> cases hstep <;> exact .none rfl rfl
  | unlock =>
      cases hstep
      exact .access .unlock rfl rfl rfl rfl
  | callback => cases hstep
  | _ =>
      cases hstep
      exact .none rfl rfl

theorem destructorStep_word [DecidableEq Thread] {rest : List (Frame Thread Record Client)}
    [DecidableEq Record] {pc : DestructorPc Thread Record}
    (hstep : destructorStep t rest weak m r pc = some (m', next)) :
    WordStep m.state m'.state pc.word next.word := by
  cases pc with
  | readState =>
      simp only [destructorStep] at hstep
      split at hstep <;> cases hstep
      · exact .enter .pair rfl rfl rfl
      · exact .none rfl rfl
  | lock spin =>
      simp only [destructorStep] at hstep
      split at hstep
      next hlock =>
        cases hstep
        exact .access (.spin weak) rfl rfl (by simp [hlock]) (by simp [hlock])
      next hlock =>
        cases hstep
        exact .access (.spin weak) rfl rfl (by simp [hlock]) (by simp [hlock])
      next => cases hstep
  | readPrevPtr saved | rereadNext saved =>
      simp only [destructorStep] at hstep
      split at hstep <;> cases hstep <;> exact .none rfl rfl
  | unlock saved =>
      cases hstep
      exact .access .unlock rfl rfl rfl rfl
  | unlockPopped saved notifier =>
      cases hstep
      refine .access .unlock rfl rfl rfl ?_
      by_cases heq : notifier = some t <;> simp [heq]
  | readFlag | waitCompleted =>
      simp only [destructorStep] at hstep
      split at hstep <;> cases hstep <;> exact .none rfl rfl
  | _ =>
      cases hstep
      exact .none rfl rfl

theorem requestStopStep_word [DecidableEq Record] {depth : Nat} {pc : RequestPc Record}
    (hstep : requestStopStep t depth weak m pc = some (m', next)) :
    WordStep m.state m'.state pc.word next.word := by
  cases pc with
  | tryLock spin =>
      simp only [requestStopStep] at hstep
      split at hstep
      all_goals
        next hlock =>
          cases hstep
          exact .access (.spin weak) rfl rfl (by simp [hlock]) (by simp [hlock])
  | relock spin =>
      simp only [requestStopStep] at hstep
      split at hstep
      next hlock =>
        cases hstep
        exact .access (.spin weak) rfl rfl (by simp [hlock]) (by simp [hlock])
      next hlock =>
        cases hstep
        exact .access (.spin weak) rfl rfl (by simp [hlock]) (by simp [hlock])
      next => cases hstep
  | readHead | rereadHead r =>
      simp only [requestStopStep] at hstep
      split at hstep <;> cases hstep <;> exact .none rfl rfl
  | openLock r =>
      cases hstep
      exact .access .openWindow rfl rfl rfl rfl
  | setCompleted r =>
      cases hstep
      exact .access .callbackReturned rfl rfl rfl rfl
  | finalUnlock =>
      cases hstep
      exact .access .unlock rfl rfl rfl rfl
  | callback r removed => cases hstep
  | _ =>
      cases hstep
      exact .none rfl rfl

variable [DecidableEq Record] [DecidableEq Thread] {s s' : State Thread Record Client}
  {rest : List (Frame Thread Record Client)} {top : Frame Thread Record Client}

theorem Frame.step_word (hstep : top.step t rest weak m = some (m', next)) :
    WordStep m.state m'.state top.word next.word := by
  cases top with
  | constructor r pc => exact constructorStep_word hstep
  | destructor r pc => exact destructorStep_word hstep
  | requestStop pc => exact requestStopStep_word hstep
  | client c => cases hstep

namespace State

omit [DecidableEq Record] [DecidableEq Thread] in
theorem word_calls_top (hstack : s.stack t = top :: rest) :
    s.word.calls (t, rest.length) = top.word := by
  simp [word, hstack]

omit [DecidableEq Record] [DecidableEq Thread] in
theorem word_calls_above (s : State Thread Record Client) (t : Thread) :
    s.word.calls (t, (s.stack t).length) = none := by
  cases hframe : CallStack.frameAt (s.stack t) (s.stack t).length with
  | none => simp [word, hframe]
  | some frame => exact absurd (CallStack.frameAt_lt hframe) (lt_irrefl _)

omit [DecidableEq Record] in
/-- Only the frame at one depth is replaced, or comes or goes at that depth. -/
theorem word_setStack {m : Memory Thread Record} {stack : List (Frame Thread Record Client)}
    {d : Nat} (hsame : ∀ other, other ≠ d →
      (CallStack.frameAt stack other).bind Frame.word =
        (CallStack.frameAt (s.stack t) other).bind Frame.word) :
    ((s.setMemory m).setStack t stack).word =
      ⟨m.state, Function.update s.word.calls (t, d)
        ((CallStack.frameAt stack d).bind Frame.word)⟩ := by
  unfold word setStack setMemory
  congr 1
  ext1 id
  dsimp only
  by_cases ht : id.1 = t
  · by_cases hdepth : id.2 = d
    · obtain rfl : id = (t, d) := Prod.ext ht hdepth
      simp
    · have hne : id ≠ (t, d) := fun heq => hdepth (Prod.ext_iff.mp heq).2
      rw [Function.update_of_ne hne, ht, Function.update_self]
      exact hsame id.2 hdepth
  · have hne : id ≠ (t, d) := fun heq => ht (Prod.ext_iff.mp heq).1
    rw [Function.update_of_ne hne, Function.update_of_ne ht]

omit [DecidableEq Record] in
theorem word_replace {m : Memory Thread Record} {frame : Frame Thread Record Client}
    (hstack : s.stack t = top :: rest) :
    ((s.setMemory m).setStack t (frame :: rest)).word =
      ⟨m.state, Function.update s.word.calls (t, rest.length) frame.word⟩ := by
  rw [word_setStack (d := rest.length)]
  · simp
  · intro other hne
    simp [hstack, CallStack.frameAt, hne]

omit [DecidableEq Record] in
theorem word_pop {m : Memory Thread Record} (hstack : s.stack t = top :: rest) :
    ((s.setMemory m).setStack t rest).word =
      ⟨m.state, Function.update s.word.calls (t, rest.length) none⟩ := by
  rw [word_setStack (d := rest.length)]
  · cases hframe : CallStack.frameAt rest rest.length with
    | none => rfl
    | some frame => exact absurd (CallStack.frameAt_lt hframe) (lt_irrefl _)
  · intro other hne
    simp [hstack, CallStack.frameAt, hne]

omit [DecidableEq Record] in
theorem word_push {m : Memory Thread Record} {frame : Frame Thread Record Client} :
    ((s.setMemory m).push t frame).word =
      ⟨m.state, Function.update s.word.calls (t, (s.stack t).length) frame.word⟩ := by
  unfold push
  rw [word_setStack (d := (s.stack t).length)]
  · simp [setMemory]
  · intro other hne
    simp [setMemory, CallStack.frameAt, hne]

omit [DecidableEq Record] in
theorem word_markRemoved (s : State Thread Record Client) (flag : FrameId Thread) :
    (s.setStack flag.1 (CallStack.modifyAt Frame.markRemoved (s.stack flag.1) flag.2)).word =
      s.word := by
  have hmark : ∀ frame : Frame Thread Record Client, frame.markRemoved.word = frame.word := by
    intro frame
    cases frame with
    | requestStop pc => cases pc <;> rfl
    | _ => rfl
  unfold word setStack
  congr 1
  ext1 id
  by_cases ht : id.1 = flag.1
  · simp only [ht, Function.update_self, CallStack.frameAt_modifyAt]
    split
    · cases CallStack.frameAt (s.stack flag.1) id.2 with
      | none => rfl
      | some frame => simp only [Option.map_some, Option.bind_some, hmark]
    · rfl
  · dsimp only
    rw [Function.update_of_ne ht]

end State

/-- The word and the calls make the step of one access. -/
theorem WordStep.machine_step {word word' : StateWord.State (FrameId Thread)}
    {id : FrameId Thread} {new : Option StateWord.Pc}
    (hstep : WordStep word.word word'.word (word.calls id) new)
    (hcalls : word'.calls = Function.update word.calls id new) :
    word' = word ∨ ∃ a, StateWord.step word a = some word' := by
  cases hstep with
  | none hword hsame =>
      refine .inl ?_
      cases word'
      subst hword hcalls hsame
      simp
  | enter call hword hold hnew =>
      refine .inr ⟨.enter id call, ?_⟩
      cases word'
      subst hword hcalls hnew
      simp [StateWord.step, hold]
  | @access pc move access hold haccess hword hnew =>
      refine .inr ⟨.move id move, ?_⟩
      cases word'
      subst hword hcalls hnew
      simp only [StateWord.step, StateWord.State.access, hold, Option.bind_some, haccess,
        Option.map_some]

namespace State

omit [DecidableEq Record] in
theorem word_replace_step {m : Memory Thread Record} {frame : Frame Thread Record Client}
    (hstack : s.stack t = top :: rest)
    (hword : WordStep s.memory.state m.state top.word frame.word) :
    ((s.setMemory m).setStack t (frame :: rest)).word = s.word ∨
      ∃ a, StateWord.step s.word a = some ((s.setMemory m).setStack t (frame :: rest)).word := by
  rw [← word_calls_top hstack] at hword
  exact hword.machine_step (congrArg _ (word_replace hstack))

omit [DecidableEq Record] in
theorem word_pop_step {m : Memory Thread Record} (hstack : s.stack t = top :: rest)
    (hword : WordStep s.memory.state m.state top.word none) :
    ((s.setMemory m).setStack t rest).word = s.word ∨
      ∃ a, StateWord.step s.word a = some ((s.setMemory m).setStack t rest).word := by
  rw [← word_calls_top hstack] at hword
  exact hword.machine_step (congrArg _ (word_pop hstack))

omit [DecidableEq Record] in
theorem word_push_step {m : Memory Thread Record} {frame : Frame Thread Record Client}
    (hword : WordStep s.memory.state m.state none frame.word) :
    ((s.setMemory m).push t frame).word = s.word ∨
      ∃ a, StateWord.step s.word a = some ((s.setMemory m).push t frame).word := by
  rw [← word_calls_above s t] at hword
  exact hword.machine_step (congrArg _ word_push)

/-- A step of the stop source is at most one access to its word. -/
theorem word_step {a : Action Thread Record Client} (hstep : StopToken.step s a = some s') :
    s'.word = s.word ∨ ∃ a', StateWord.step s.word a' = some s'.word := by
  cases a with
  | run t weak =>
      simp only [StopToken.step] at hstep
      split at hstep
      next => cases hstep
      next top rest hstack =>
        split at hstep
        next => cases hstep
        next m next hframe =>
          cases hstep
          have hword := Frame.step_word hframe
          cases next with
          | goto frame => exact word_replace_step hstack hword
          | ret => exact word_pop_step hstack hword
          | flagAndRet flag =>
              unfold apply
              rw [word_markRemoved]
              exact word_pop_step hstack hword
  | ret t =>
      simp only [StopToken.step] at hstep
      split at hstep
      next r rest hstack =>
        cases hstep
        exact word_pop_step hstack (.none rfl rfl)
      next r rest hstack =>
        cases hstep
        exact word_replace_step hstack (.access .callbackReturned rfl rfl rfl rfl)
      next r rest hstack =>
        cases hstep
        exact word_replace_step hstack (.none rfl rfl)
      next => cases hstep
  | requestStop t =>
      simp only [StopToken.step, Option.ite_none_right_eq_some, Option.some.injEq] at hstep
      obtain ⟨-, rfl⟩ := hstep
      exact word_push_step (m := s.memory) (.enter .requestStop rfl rfl rfl)
  | construct t r =>
      simp only [StopToken.step, Option.ite_none_right_eq_some, Option.some.injEq] at hstep
      obtain ⟨-, rfl⟩ := hstep
      exact word_push_step (.enter .tryAddCallback rfl rfl rfl)
  | destroy t r =>
      simp only [StopToken.step, Option.ite_none_right_eq_some, Option.some.injEq] at hstep
      obtain ⟨-, rfl⟩ := hstep
      exact word_push_step (.none rfl rfl)
  | enter t c =>
      simp only [StopToken.step, Option.ite_none_right_eq_some, Option.some.injEq] at hstep
      obtain ⟨-, rfl⟩ := hstep
      exact word_push_step (m := s.memory) (.none rfl rfl)
  | become t c =>
      simp only [StopToken.step] at hstep
      split at hstep
      next c' rest hstack =>
        cases hstep
        exact word_replace_step (m := s.memory) hstack (.none rfl rfl)
      next => cases hstep
  | leave t =>
      simp only [StopToken.step] at hstep
      split at hstep
      next c' rest hstack =>
        cases hstep
        exact word_pop_step (m := s.memory) hstack (.none rfl rfl)
      next => cases hstep

/-- The word of the stop source goes only through states that the accesses reach
on their own. -/
theorem word_reachable (hs : (machine Thread Record Client).Reachable s) :
    (StateWord.machine (FrameId Thread)).Reachable s.word := by
  induction hs with
  | initial hinit =>
      subst hinit
      exact .initial rfl
  | step hs hstep ih =>
      rcases word_step hstep with hsame | ⟨a', hword⟩
      · rw [hsame]
        exact ih
      · exact .step (a := a') ih hword

end State

end Bexec.StopToken
