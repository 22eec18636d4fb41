import Bexec.StopToken.Stability

/-!
# Calls in progress

What code that owns a stop source sees of the stacks: which operation on the
source each frame belongs to, not where the operation stands. A step continues
the call on top of one stack, returns from it or makes a new one.
-/

namespace Bexec.StopToken

open Foundation

variable {Thread Record Client : Type}

/-- A frame without its program point; a constructor may be inside the callback
that it runs itself. -/
inductive Call (Record Client : Type)
  | constructing (record : Record) (inCallback : Bool)
  | destroying (record : Record)
  | requesting
  | client (client : Client)
  deriving DecidableEq

def Frame.call : Frame Thread Record Client → Call Record Client
  | .constructor r .callback => .constructing r true
  | .constructor r _ => .constructing r false
  | .destructor r _ => .destroying r
  | .requestStop _ => .requesting
  | .client c => .client c

/-- The call that a step of the same frame leads to. -/
def Call.Continues : Call Record Client → Call Record Client → Prop
  | .constructing r false, new => ∃ inCallback, new = .constructing r inCallback
  | old, new => new = old

/-- The calls in progress, innermost first. -/
def State.calls (s : State Thread Record Client) (t : Thread) : List (Call Record Client) :=
  (s.stack t).map Frame.call

@[simp] theorem Frame.call_markRemoved (frame : Frame Thread Record Client) :
    frame.markRemoved.call = frame.call := by
  cases frame with
  | requestStop pc => cases pc <;> rfl
  | _ => rfl

theorem map_call_modifyAt (stack : List (Frame Thread Record Client)) (depth : Nat) :
    (CallStack.modifyAt Frame.markRemoved stack depth).map Frame.call = stack.map Frame.call := by
  induction stack with
  | nil => rfl
  | cons frame rest ih =>
      unfold CallStack.modifyAt
      split <;> simp [ih]

theorem setMemory_calls (s : State Thread Record Client) (m : Memory Thread Record) :
    (s.setMemory m).calls = s.calls := rfl

/-- `inplace_stop_source::stop_requested`. -/
def Memory.stopRequested (m : Memory Thread Record) : Bool :=
  decide (m.state &&& stopRequestedBit ≠ 0)

theorem MemoryInv.stopRequested_iff [DecidableEq Record] {m : Memory Thread Record}
    (hm : MemoryInv m) : m.stopRequested = true ↔ (claimer m.log).isSome = true := by
  rw [Memory.stopRequested, hm.word, decide_eq_true_iff]
  exact encode_requested _ _

/-- A claim is never taken back. -/
theorem claimer_append {events log : List (Event Thread Record)}
    (hclaimer : (claimer log).isSome = true) : (claimer (events ++ log)).isSome = true := by
  induction events with
  | nil => exact hclaimer
  | cons event events ih => cases event <;> simp_all [Event.claimerAfter]

variable [DecidableEq Thread]

theorem setStack_calls (s : State Thread Record Client) (t : Thread)
    (stack : List (Frame Thread Record Client)) :
    (s.setStack t stack).calls = Function.update s.calls t (stack.map Frame.call) := by
  funext u
  by_cases hu : u = t
  · subst hu
    simp [State.calls, State.setStack]
  · simp [State.calls, State.setStack, hu]

/-- A call made by user code. -/
theorem push_calls (s : State Thread Record Client) (t : Thread)
    (frame : Frame Thread Record Client) :
    (s.push t frame).calls = Function.update s.calls t (frame.call :: s.calls t) :=
  setStack_calls _ _ _

variable [DecidableEq Record] {s s' : State Thread Record Client} {m m' : Memory Thread Record}
  {t : Thread} {weak : Bool} {frame : Frame Thread Record Client}
  {rest : List (Frame Thread Record Client)}

/-- The frame that an access leaves on top belongs to the same call. -/
theorem Frame.step_goto {frame' : Frame Thread Record Client}
    (hstep : frame.step t rest weak m = some (m', .goto frame')) :
    frame.call.Continues frame'.call := by
  cases frame with
  | constructor r pc =>
      cases pc with
      | tryLock pc =>
          simp only [Frame.step, constructorStep] at hstep
          split at hstep <;> cases hstep <;> exact ⟨_, rfl⟩
      | readNext =>
          simp only [Frame.step, constructorStep] at hstep
          split at hstep <;> cases hstep <;> exact ⟨_, rfl⟩
      | callback => cases hstep
      | _ => cases hstep <;> exact ⟨_, rfl⟩
  | destructor r pc =>
      cases pc with
      | readState | lock pc | readPrevPtr saved | rereadNext saved | readFlag | waitCompleted =>
          simp only [Frame.step, destructorStep] at hstep
          split at hstep <;> cases hstep <;> rfl
      | _ => cases hstep <;> rfl
  | requestStop pc =>
      cases pc with
      | tryLock pc | readHead | rereadHead r | relock pc =>
          simp only [Frame.step, requestStopStep] at hstep
          split at hstep <;> cases hstep <;> rfl
      | callback => cases hstep
      | _ => cases hstep <;> rfl
  | client c => cases hstep

/-- One access continues the call on top of the stack or returns from it. -/
theorem run_calls (hstack : s.stack t = frame :: rest) (hstep : step s (.run t weak) = some s') :
    (∃ call, frame.call.Continues call ∧
      s'.calls = Function.update s.calls t (call :: rest.map Frame.call)) ∨
    s'.calls = Function.update s.calls t (rest.map Frame.call) := by
  simp only [step, hstack] at hstep
  split at hstep
  · cases hstep
  next m next hframe =>
    cases hstep
    cases next with
    | goto frame' =>
        refine Or.inl ⟨frame'.call, Frame.step_goto hframe, ?_⟩
        exact setStack_calls _ _ _
    | ret => exact Or.inr (setStack_calls _ _ _)
    | flagAndRet flag =>
        refine Or.inr ?_
        simp only [State.apply, setStack_calls, map_call_modifyAt, setMemory_calls]
        funext u
        by_cases hu : u = flag.1
        · subst hu
          rw [Function.update_self]
          exact congrFun (setStack_calls _ _ _) _
        · rw [Function.update_of_ne hu]

/-- The end of a callback body returns from a constructor or goes on in
`request_stop`. -/
theorem ret_calls (hstep : step s (.ret t) = some s') :
    (∃ r below, s.calls t = .constructing r true :: below ∧
      s'.calls = Function.update s.calls t below) ∨
    ∃ below, s.calls t = .requesting :: below ∧
      s'.calls = Function.update s.calls t (.requesting :: below) := by
  simp only [step] at hstep
  split at hstep
  next r below hstack =>
    cases hstep
    refine Or.inl ⟨r, below.map Frame.call, ?_, setStack_calls _ _ _⟩
    simp [State.calls, hstack, Frame.call]
  next r below hstack =>
    cases hstep
    refine Or.inr ⟨below.map Frame.call, ?_, setStack_calls _ _ _⟩
    simp [State.calls, hstack, Frame.call]
  next r below hstack =>
    cases hstep
    refine Or.inr ⟨below.map Frame.call, ?_, setStack_calls _ _ _⟩
    simp [State.calls, hstack, Frame.call]
  next => cases hstep

/-- Stop stays requested. -/
theorem stopRequested_step (hs : Inv s) {a : Action Thread Record Client}
    (hstep : step s a = some s') (hrequested : s.memory.stopRequested = true) :
    s'.memory.stopRequested = true := by
  rw [hs.memory.stopRequested_iff] at hrequested
  rw [(hs.step hstep).memory.stopRequested_iff]
  obtain ⟨events, hlog⟩ := step_log hstep
  rw [← hlog]
  exact claimer_append hrequested

theorem stopRequested_run (hs : (machine Thread Record Client).Reachable s)
    {trace : List (State Thread Record Client × Action Thread Record Client)}
    (hrun : (machine Thread Record Client).Run s trace s')
    (hrequested : s.memory.stopRequested = true) : s'.memory.stopRequested = true := by
  induction hrun with
  | nil => exact hrequested
  | snoc hrun hstep ih => exact stopRequested_step (inv_of_reachable (hs.run hrun)) hstep ih

omit [DecidableEq Thread] in
/-- An access that returns from `request_stop` finds stop requested. -/
theorem requestStopStep_return (hm : MemoryInv m) {pc : RequestPc Record} {depth : Nat}
    (hinv : RequestInv m (t, depth) pc)
    (hstep : requestStopStep t depth weak m pc =
      some (m', (.ret : Next Thread Record Client))) : (claimer m'.log).isSome = true := by
  cases pc with
  | tryLock pc =>
      simp only [requestStopStep] at hstep
      split at hstep
      · cases hstep
      · cases hstep
      next hrefused =>
        cases hstep
        exact tryLock_refused hinv hrefused
  | finalUnlock =>
      cases hstep
      exact Option.isSome_iff_exists.mpr ⟨_, hm.active _ hinv.1.1⟩
  | readHead | rereadHead r | relock pc =>
      simp only [requestStopStep] at hstep
      split at hstep <;> cases hstep
  | _ => cases hstep

/-- When a call of `request_stop` returns, stop has been requested. -/
theorem stopRequested_of_return (hs : Inv s) {pc : RequestPc Record}
    (hstack : s.stack t = .requestStop pc :: rest) (hstep : step s (.run t weak) = some s')
    (hreturned : (s'.stack t).length = rest.length) : s'.memory.stopRequested = true := by
  have htop := hs.frames t rest.length (.requestStop pc) (by simp [hstack])
  rw [(hs.step hstep).memory.stopRequested_iff]
  simp only [step, hstack] at hstep
  split at hstep
  · cases hstep
  next m next hframe =>
    cases hstep
    cases next with
    | goto frame =>
        simp [State.apply, State.setStack] at hreturned
    | ret => exact requestStopStep_return hs.memory htop hframe
    | flagAndRet flag =>
        change requestStopStep _ _ _ _ _ = _ at hframe
        cases pc with
        | tryLock pc | readHead | rereadHead r | relock pc =>
            simp only [requestStopStep] at hframe
            split at hframe <;> cases hframe
        | _ => cases hframe

end Bexec.StopToken
