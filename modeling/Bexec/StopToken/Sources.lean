import Bexec.StopToken.Calls

/-!
# Stop sources on shared stacks

Any number of stop sources whose calls stand on the stacks of the same threads,
among the frames of other code. To one source the frames of the others are
client frames, so each of them goes only through states that it reaches on its
own.
-/

namespace Bexec.StopToken

open Foundation

variable {ι Thread Record Code : Type}

/-- A frame of a call on one of the sources, or of other code. -/
inductive SharedFrame (ι Thread Record Code : Type)
  | source (i : ι) (frame : Frame Thread Record Unit)
  | code (code : Code)
  deriving DecidableEq

/-- The stop sources and the stacks of all threads. -/
structure Sources (ι Thread Record Code : Type) where
  memory : ι → Memory Thread Record
  stack : Thread → List (SharedFrame ι Thread Record Code)

namespace SharedFrame

/-- User code, or the code that owns the sources, is in control while the frame
is on top. -/
def isUser : SharedFrame ι Thread Record Code → Bool
  | .source _ frame => frame.isUser
  | .code _ => true

variable [DecidableEq ι]

/-- The frame as one source sees it. -/
def view (i : ι) : SharedFrame ι Thread Record Code → Frame Thread Record Unit
  | .source j frame => if j = i then frame else .client ()
  | .code _ => .client ()

/-- A write of `true` through a pointer to a flag that is local to the frame. -/
def markRemoved (i : ι) : SharedFrame ι Thread Record Code → SharedFrame ι Thread Record Code
  | .source j frame => .source j (if j = i then frame.markRemoved else frame)
  | .code c => .code c

@[simp] theorem view_source_self (i : ι) (frame : Frame Thread Record Unit) :
    (source i frame : SharedFrame ι Thread Record Code).view i = frame := by
  simp [view]

@[simp] theorem view_source_of_ne {i j : ι} (hne : j ≠ i) (frame : Frame Thread Record Unit) :
    (source j frame : SharedFrame ι Thread Record Code).view i = .client () := by
  simp [view, hne]

@[simp] theorem view_code (i : ι) (c : Code) :
    (code c : SharedFrame ι Thread Record Code).view i = .client () := rfl

@[simp] theorem view_markRemoved_self (i : ι) (frame : SharedFrame ι Thread Record Code) :
    (frame.markRemoved i).view i = (frame.view i).markRemoved := by
  cases frame with
  | source j frame => by_cases heq : j = i <;> simp [markRemoved, view, heq, Frame.markRemoved]
  | code c => rfl

@[simp] theorem view_markRemoved_of_ne {i j : ι} (hne : j ≠ i)
    (frame : SharedFrame ι Thread Record Code) : (frame.markRemoved j).view i = frame.view i := by
  cases frame with
  | source k frame =>
      by_cases heq : k = j
      · simp [markRemoved, view, heq, hne]
      · simp [markRemoved, heq]
  | code c => rfl

theorem view_isUser {frame : SharedFrame ι Thread Record Code} (huser : frame.isUser = true)
    (i : ι) : (frame.view i).isUser = true := by
  cases frame with
  | source j frame =>
      by_cases heq : j = i
      · subst heq
        simpa [isUser] using huser
      · simp [heq, Frame.isUser]
  | code c => rfl

end SharedFrame

namespace Sources

section

variable [DecidableEq ι]

/-- The state of one source: to it the other frames are client frames. -/
def view (s : Sources ι Thread Record Code) (i : ι) : State Thread Record Unit :=
  ⟨s.memory i, fun t => (s.stack t).map (SharedFrame.view i)⟩

def setMemory (s : Sources ι Thread Record Code) (i : ι) (m : Memory Thread Record) :
    Sources ι Thread Record Code :=
  { s with memory := Function.update s.memory i m }

end

def initial [DecidableEq Record] : Sources ι Thread Record Code := ⟨fun _ => .empty, fun _ => []⟩

def atUser (s : Sources ι Thread Record Code) (t : Thread) : Bool :=
  match s.stack t with
  | [] => true
  | frame :: _ => frame.isUser

variable [DecidableEq Thread]

def setStack (s : Sources ι Thread Record Code) (t : Thread)
    (stack : List (SharedFrame ι Thread Record Code)) : Sources ι Thread Record Code :=
  { s with stack := Function.update s.stack t stack }

def push (s : Sources ι Thread Record Code) (t : Thread)
    (frame : SharedFrame ι Thread Record Code) : Sources ι Thread Record Code :=
  s.setStack t (frame :: s.stack t)

/-- Continue below a top frame of a source that has made its step. -/
def apply [DecidableEq ι] (s : Sources ι Thread Record Code) (i : ι) (t : Thread)
    (rest : List (SharedFrame ι Thread Record Code)) :
    Next Thread Record Unit → Sources ι Thread Record Code
  | .goto frame => s.setStack t (.source i frame :: rest)
  | .ret => s.setStack t rest
  | .flagAndRet flag =>
      let popped := s.setStack t rest
      popped.setStack flag.1
        (CallStack.modifyAt (SharedFrame.markRemoved i) (popped.stack flag.1) flag.2)

end Sources

/-- The actions of the single source, with the source they are about. -/
inductive SourcesAction (ι Thread Record Code : Type)
  | run (thread : Thread) (weak : Bool)
  | ret (thread : Thread)
  | requestStop (thread : Thread) (i : ι)
  | construct (thread : Thread) (i : ι) (record : Record)
  | destroy (thread : Thread) (i : ι) (record : Record)
  | enter (thread : Thread) (code : Code)
  | become (thread : Thread) (code : Code)
  | leave (thread : Thread)
  deriving DecidableEq

variable [DecidableEq ι] [DecidableEq Thread] [DecidableEq Record]

/-- The end of a callback body. -/
def Sources.endCallback (s : Sources ι Thread Record Code) (t : Thread) (i : ι)
    (rest : List (SharedFrame ι Thread Record Code)) :
    Frame Thread Record Unit → Option (Sources ι Thread Record Code)
  | .constructor r .callback =>
      some ((s.setMemory i (((s.memory i).setLife r .alive).record
        [.constructed r t, .returned r t])).setStack t rest)
  | .requestStop (.callback r true) =>
      some ((s.setMemory i ((s.memory i).record [.abandoned r, .returned r t])).setStack t
        (.source i (.requestStop (.relock .load)) :: rest))
  | .requestStop (.callback r false) =>
      some ((s.setMemory i ((s.memory i).record [.returned r t])).setStack t
        (.source i (.requestStop (.clearFlag r)) :: rest))
  | _ => none

/-- A step of one source, or of the code around the sources. -/
def Sources.step (s : Sources ι Thread Record Code) :
    SourcesAction ι Thread Record Code → Option (Sources ι Thread Record Code)
  | .run t weak =>
      match s.stack t with
      | .source i frame :: rest =>
          match frame.step t (rest.map (SharedFrame.view i)) weak (s.memory i) with
          | none => none
          | some (m, next) => some ((s.setMemory i m).apply i t rest next)
      | _ => none
  | .ret t =>
      match s.stack t with
      | .source i frame :: rest => s.endCallback t i rest frame
      | _ => none
  | .requestStop t i =>
      if s.atUser t then some (s.push t (.source i (.requestStop (.tryLock .load)))) else none
  | .construct t i r =>
      if s.atUser t ∧ (s.memory i).life r = .unborn then
        some ((s.setMemory i ((s.memory i).setLife r
          (.constructing (t, (s.stack t).length)))).push t
            (.source i (.constructor r (.tryLock .load))))
      else none
  | .destroy t i r =>
      if s.atUser t ∧ (s.memory i).life r = .alive then
        some ((s.setMemory i ((s.memory i).setLife r
          (.destroying (t, (s.stack t).length)))).push t (.source i (.destructor r .readState)))
      else none
  | .enter t c => if s.atUser t then some (s.push t (.code c)) else none
  | .become t c =>
      match s.stack t with
      | .code _ :: rest => some (s.setStack t (.code c :: rest))
      | _ => none
  | .leave t =>
      match s.stack t with
      | .code _ :: rest => some (s.setStack t rest)
      | _ => none

/-! ## One source among the others -/

namespace Sources

variable {s s' : Sources ι Thread Record Code} {t : Thread} {i j : ι}
  {rest : List (SharedFrame ι Thread Record Code)}

omit [DecidableEq Record] [DecidableEq Thread] in
@[simp] theorem view_memory (s : Sources ι Thread Record Code) (i : ι) :
    (s.view i).memory = s.memory i := rfl

omit [DecidableEq Record] [DecidableEq Thread] in
@[simp] theorem view_stack (s : Sources ι Thread Record Code) (i : ι) (t : Thread) :
    (s.view i).stack t = (s.stack t).map (SharedFrame.view i) := rfl

omit [DecidableEq Record] in
@[simp] theorem view_setStack (s : Sources ι Thread Record Code) (t : Thread)
    (stack : List (SharedFrame ι Thread Record Code)) (i : ι) :
    (s.setStack t stack).view i = (s.view i).setStack t (stack.map (SharedFrame.view i)) := by
  unfold view setStack State.setStack
  congr 1
  funext u
  by_cases hu : u = t
  · subst hu
    simp
  · simp [hu]

omit [DecidableEq Record] in
@[simp] theorem view_push (s : Sources ι Thread Record Code) (t : Thread)
    (frame : SharedFrame ι Thread Record Code) (i : ι) :
    (s.push t frame).view i = (s.view i).push t (frame.view i) := by
  simp [push, State.push]

omit [DecidableEq Record] [DecidableEq Thread] in
@[simp] theorem view_setMemory_self (s : Sources ι Thread Record Code) (i : ι)
    (m : Memory Thread Record) : (s.setMemory i m).view i = (s.view i).setMemory m := by
  simp [view, setMemory, State.setMemory]

omit [DecidableEq Record] [DecidableEq Thread] in
@[simp] theorem view_setMemory_of_ne (s : Sources ι Thread Record Code) (hne : i ≠ j)
    (m : Memory Thread Record) : (s.setMemory j m).view i = s.view i := by
  simp [view, setMemory, hne]

omit [DecidableEq Record] [DecidableEq Thread] in
theorem view_atUser (huser : s.atUser t = true) (i : ι) : (s.view i).atUser t = true := by
  unfold atUser at huser
  unfold State.atUser
  cases hstack : s.stack t with
  | nil => simp [hstack]
  | cons frame rest =>
      rw [hstack] at huser
      simpa [hstack] using SharedFrame.view_isUser huser i

omit [DecidableEq Thread] [DecidableEq Record] in
theorem map_view_modifyAt (i j : ι) (stack : List (SharedFrame ι Thread Record Code))
    (depth : Nat) :
    (CallStack.modifyAt (SharedFrame.markRemoved j) stack depth).map (SharedFrame.view i) =
      if j = i then CallStack.modifyAt Frame.markRemoved (stack.map (SharedFrame.view i)) depth
      else stack.map (SharedFrame.view i) := by
  induction stack with
  | nil => simp [CallStack.modifyAt]
  | cons frame rest ih =>
      by_cases heq : j = i
      · subst heq
        by_cases hdepth : depth = rest.length
        · simp [CallStack.modifyAt, hdepth]
        · simpa [CallStack.modifyAt, hdepth] using ih
      · by_cases hdepth : depth = rest.length
        · simp [CallStack.modifyAt, hdepth, heq]
        · simpa [CallStack.modifyAt, hdepth, heq] using ih

omit [DecidableEq Record] in
theorem view_apply_self (s : Sources ι Thread Record Code) (i : ι) (t : Thread)
    (rest : List (SharedFrame ι Thread Record Code)) (next : Next Thread Record Unit) :
    (s.apply i t rest next).view i =
      (s.view i).apply t (rest.map (SharedFrame.view i)) next := by
  cases next with
  | goto frame => simp [apply, State.apply]
  | ret => simp [apply, State.apply]
  | flagAndRet flag =>
      simp only [apply, State.apply, view_setStack]
      congr 1
      rw [map_view_modifyAt, if_pos rfl, ← view_setStack, view_stack]

omit [DecidableEq Record] in
/-- Another source sees at most a return. -/
theorem view_apply_of_ne (s : Sources ι Thread Record Code) (hne : j ≠ i) (t : Thread)
    (rest : List (SharedFrame ι Thread Record Code)) (next : Next Thread Record Unit) :
    (s.apply j t rest next).view i =
        (s.view i).setStack t (.client () :: rest.map (SharedFrame.view i)) ∨
      (s.apply j t rest next).view i = (s.view i).setStack t (rest.map (SharedFrame.view i)) := by
  cases next with
  | goto frame => simp [apply, hne]
  | ret => simp [apply]
  | flagAndRet flag =>
      refine .inr ?_
      simp only [apply, view_setStack]
      rw [map_view_modifyAt, if_neg hne, ← view_stack, view_setStack]
      unfold State.setStack
      simp

omit [DecidableEq Record] in
/-- Nothing changes for a source while another frame stays on top. -/
theorem setStack_same {frame : Frame Thread Record Unit} (s : Sources ι Thread Record Code)
    (hstack : (s.stack t).map (SharedFrame.view i) = frame :: rest.map (SharedFrame.view i)) :
    (s.view i).setStack t (frame :: rest.map (SharedFrame.view i)) = s.view i := by
  rw [← hstack]
  unfold State.setStack
  rw [← view_stack, Function.update_eq_self]

theorem view_run_self {frame : Frame Thread Record Unit} {weak : Bool}
    (hstack : s.stack t = .source i frame :: rest) (hstep : s.step (.run t weak) = some s') :
    StopToken.step (s.view i) (.run t weak) = some (s'.view i) := by
  simp only [step, hstack] at hstep
  simp only [StopToken.step, view_stack, hstack, List.map_cons, SharedFrame.view_source_self,
    view_memory]
  split at hstep
  next => cases hstep
  next m next hframe =>
    cases hstep
    rw [hframe]
    simp only [Option.some.injEq]
    rw [view_apply_self, view_setMemory_self]

theorem view_ret_self {frame : Frame Thread Record Unit}
    (hstack : s.stack t = .source i frame :: rest) (hstep : s.step (.ret t) = some s') :
    StopToken.step (s.view i) (.ret t) = some (s'.view i) := by
  simp only [step, hstack] at hstep
  simp only [StopToken.step, view_stack, hstack, List.map_cons, SharedFrame.view_source_self,
    view_memory]
  unfold endCallback at hstep
  split at hstep <;> cases hstep <;> simp

/-- What another source's step is to this one: nothing, or a return. -/
theorem view_frame_of_ne {m : Memory Thread Record} {top : SharedFrame ι Thread Record Code}
    (hne : j ≠ i) (hstack : s.stack t = top :: rest) (htop : top.view i = .client ())
    (hview : s'.view i =
        ((s.setMemory j m).view i).setStack t (.client () :: rest.map (SharedFrame.view i)) ∨
      s'.view i = ((s.setMemory j m).view i).setStack t (rest.map (SharedFrame.view i))) :
    s'.view i = s.view i ∨ StopToken.step (s.view i) (.leave t) = some (s'.view i) := by
  rw [view_setMemory_of_ne s hne.symm] at hview
  rcases hview with hsame | hreturned
  · refine .inl (hsame.trans (setStack_same s ?_))
    simp [hstack, htop]
  · refine .inr ?_
    simp [StopToken.step, hstack, htop, hreturned]

theorem view_run_of_ne {frame : Frame Thread Record Unit} {weak : Bool} (hne : j ≠ i)
    (hstack : s.stack t = .source j frame :: rest) (hstep : s.step (.run t weak) = some s') :
    s'.view i = s.view i ∨ StopToken.step (s.view i) (.leave t) = some (s'.view i) := by
  simp only [step, hstack] at hstep
  split at hstep
  next => cases hstep
  next m next hframe =>
    cases hstep
    exact view_frame_of_ne hne hstack (by simp [hne]) (view_apply_of_ne _ hne _ _ _)

theorem view_ret_of_ne {frame : Frame Thread Record Unit} (hne : j ≠ i)
    (hstack : s.stack t = .source j frame :: rest) (hstep : s.step (.ret t) = some s') :
    s'.view i = s.view i ∨ StopToken.step (s.view i) (.leave t) = some (s'.view i) := by
  simp only [step, hstack] at hstep
  have hgoto : ∀ (m : Memory Thread Record) (frame' : Frame Thread Record Unit),
      (((s.setMemory j m).setStack t (.source j frame' :: rest)).view i) =
        ((s.setMemory j m).view i).setStack t (.client () :: rest.map (SharedFrame.view i)) := by
    intro m frame'
    simp [hne]
  unfold endCallback at hstep
  split at hstep
  next => cases hstep; exact view_frame_of_ne hne hstack (by simp [hne]) (.inr (view_setStack ..))
  next => cases hstep; exact view_frame_of_ne hne hstack (by simp [hne]) (.inl (hgoto _ _))
  next => cases hstep; exact view_frame_of_ne hne hstack (by simp [hne]) (.inl (hgoto _ _))
  next => cases hstep

/-- A step is a step of the source, or nothing to it. -/
theorem view_step {a : SourcesAction ι Thread Record Code} (hstep : s.step a = some s') (i : ι) :
    s'.view i = s.view i ∨ ∃ a', StopToken.step (s.view i) a' = some (s'.view i) := by
  cases a with
  | run t weak =>
      cases hstack : s.stack t with
      | nil => simp [step, hstack] at hstep
      | cons top rest =>
          cases top with
          | code c => simp [step, hstack] at hstep
          | source j frame =>
              by_cases heq : j = i
              · subst heq
                exact .inr ⟨_, view_run_self hstack hstep⟩
              · exact (view_run_of_ne heq hstack hstep).imp_right fun h => ⟨_, h⟩
  | ret t =>
      cases hstack : s.stack t with
      | nil => simp [step, hstack] at hstep
      | cons top rest =>
          cases top with
          | code c => simp [step, hstack] at hstep
          | source j frame =>
              by_cases heq : j = i
              · subst heq
                exact .inr ⟨_, view_ret_self hstack hstep⟩
              · exact (view_ret_of_ne heq hstack hstep).imp_right fun h => ⟨_, h⟩
  | requestStop t j =>
      simp only [step, Option.ite_none_right_eq_some, Option.some.injEq] at hstep
      obtain ⟨huser, rfl⟩ := hstep
      have hview := view_atUser huser i
      by_cases heq : j = i
      · subst heq
        exact .inr ⟨.requestStop t, by simp [StopToken.step, hview]⟩
      · exact .inr ⟨.enter t (), by simp [StopToken.step, hview, heq]⟩
  | construct t j r =>
      simp only [step, Option.ite_none_right_eq_some, Option.some.injEq] at hstep
      obtain ⟨⟨huser, hlife⟩, rfl⟩ := hstep
      have hview := view_atUser huser i
      by_cases heq : j = i
      · subst heq
        exact .inr ⟨.construct t r, by simp [StopToken.step, hview, hlife]⟩
      · exact .inr ⟨.enter t (), by simp [StopToken.step, hview, heq, Ne.symm heq]⟩
  | destroy t j r =>
      simp only [step, Option.ite_none_right_eq_some, Option.some.injEq] at hstep
      obtain ⟨⟨huser, hlife⟩, rfl⟩ := hstep
      have hview := view_atUser huser i
      by_cases heq : j = i
      · subst heq
        exact .inr ⟨.destroy t r, by simp [StopToken.step, hview, hlife]⟩
      · exact .inr ⟨.enter t (), by simp [StopToken.step, hview, heq, Ne.symm heq]⟩
  | enter t c =>
      simp only [step, Option.ite_none_right_eq_some, Option.some.injEq] at hstep
      obtain ⟨huser, rfl⟩ := hstep
      have hview := view_atUser huser i
      exact .inr ⟨.enter t (), by simp [StopToken.step, hview]⟩
  | become t c =>
      simp only [step] at hstep
      split at hstep
      next c' rest hstack =>
        cases hstep
        refine .inl ?_
        rw [view_setStack]
        exact setStack_same s (by simp [hstack])
      next => cases hstep
  | leave t =>
      simp only [step] at hstep
      split at hstep
      next c' rest hstack =>
        cases hstep
        exact .inr ⟨.leave t, by simp [StopToken.step, hstack]⟩
      next => cases hstep

theorem view_reachable_step {a : SourcesAction ι Thread Record Code} {i : ι}
    (hs : (machine Thread Record Unit).Reachable (s.view i)) (hstep : s.step a = some s') :
    (machine Thread Record Unit).Reachable (s'.view i) := by
  rcases view_step hstep i with hsame | ⟨a', hview⟩
  · rw [hsame]
    exact hs
  · exact .step (a := a') hs hview

end Sources

end Bexec.StopToken
