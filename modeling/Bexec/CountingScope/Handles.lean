import Bexec.CountingScope.Accounting

/-!
# Handles a step does not name

A step changes the handles it names and those that the operation on top of its
stack is writing. Code that shares a scope keeps what it knows about its own
handles.
-/

namespace Bexec.CountingScope

open Foundation

variable {Thread Handle Join : Type} [Fintype Thread] [DecidableEq Thread] [DecidableEq Handle]
  [DecidableEq Join] {s s' : State Thread Handle Join} {h : Handle} {t : Thread}
  {old new rest : List (Frame Handle Join)}

/-- The action is an operation on the handle. -/
def Action.names (h : Handle) : Action Thread Handle Join → Bool
  | .create _ target => target = h
  | .associate _ target => target = h
  | .associateFrom _ target source => target = h || source = h
  | .moveConstruct _ target source => target = h || source = h
  | .moveAssign _ target source => target = h || source = h
  | .destroy _ target => target = h
  | _ => false

/-- Nothing about the handle has changed. -/
structure SameFacts (h : Handle) (s s' : State Thread Handle Join) : Prop where
  handle : SameHandle s s' h
  associated : .associated h ∈ s'.log ↔ .associated h ∈ s.log
  rejected : .rejected h ∈ s'.log ↔ .rejected h ∈ s.log
  writes : CallStack.census (Frame.writes h) s'.stack = CallStack.census (Frame.writes h) s.stack

namespace SameFacts

omit [DecidableEq Thread] [DecidableEq Join] in
theorem refl (h : Handle) (s : State Thread Handle Join) : SameFacts h s s :=
  ⟨⟨Iff.rfl, Iff.rfl⟩, Iff.rfl, Iff.rfl, rfl⟩

variable (old new) in
omit [DecidableEq Join] in
/-- The top of one stack is replaced by frames that write the handle as often. -/
theorem of_replace (hstack : s.stack t = old ++ rest)
    (hstack' : s'.stack = Function.update s.stack t (new ++ rest))
    (hwrites : new.countP (Frame.writes h) = old.countP (Frame.writes h))
    (hhandle : SameHandle s s' h)
    (hassociated : .associated h ∈ s'.log ↔ .associated h ∈ s.log)
    (hrejected : .rejected h ∈ s'.log ↔ .rejected h ∈ s.log) : SameFacts h s s' := by
  refine ⟨hhandle, hassociated, hrejected, ?_⟩
  have hcensus := CallStack.census_replace (Frame.writes h) old new hstack
  rw [hstack']
  omega

omit [DecidableEq Join] in
theorem resume_writes_eq_zero {after : After Handle} (hwrites : after.writes h = false) :
    (after.resume ([] : List (Frame Handle Join))).countP (Frame.writes h) = 0 := by
  rw [resume_writes, hwrites]
  rfl

omit [DecidableEq Join] in
theorem tryAssociate {weak : Bool} {target : Handle} {source : Option Handle} {bits : Option Word}
    (hstack : s.stack t = .tryAssociate target source bits :: rest) (hne : target ≠ h) :
    SameFacts h s (s.tryAssociate t rest weak target source bits) := by
  have hreload : SameFacts h s (s.setStack t (.tryAssociate target source (some s.word) :: rest)) := by
    apply of_replace [_] [.tryAssociate target source (some s.word)] hstack <;>
      simp [State.setStack, SameHandle, Frame.writes]
  cases bits with
  | none => exact hreload
  | some bits =>
      simp only [State.tryAssociate]
      split
      · apply of_replace [_] [] hstack <;>
          simp [State.setStack, State.emplace, State.record, SameHandle, Frame.writes, hne, hne.symm]
      · split
        · apply of_replace [_] [] hstack <;>
            simp [State.setStack, State.emplace, State.record, SameHandle, Frame.writes, hne,
              hne.symm]
        · exact hreload

omit [DecidableEq Join] in
theorem disassociate {weak : Bool} {after : After Handle} {bits : Option Word}
    (hstack : s.stack t = .disassociate after bits :: rest) (hafter : after.writes h = false) :
    SameFacts h s (s.disassociate t rest weak after bits) := by
  have hreload : SameFacts h s (s.setStack t (.disassociate after (some s.word) :: rest)) := by
    apply of_replace [_] [.disassociate after (some s.word)] hstack <;>
      simp [State.setStack, SameHandle, Frame.writes, hafter]
  cases bits with
  | none => exact hreload
  | some bits =>
      simp only [State.disassociate]
      split
      · split
        · apply of_replace [_] [.completeRegisteredJoins after] hstack <;>
            simp [State.setStack, State.record, SameHandle, Frame.writes, hafter]
        · rw [resume_eq after rest]
          apply of_replace [_] (after.resume []) hstack <;>
            simp [State.setStack, State.record, SameHandle, resume_writes_eq_zero hafter,
              Frame.writes, hafter]
      · exact hreload

omit [DecidableEq Join] in
theorem startJoin {weak : Bool} {waiter : Join} {bits : Option Word}
    (hstack : s.stack t = .startJoin waiter bits :: rest) :
    SameFacts h s (s.startJoin t rest weak waiter bits) := by
  have hreload : SameFacts h s (s.setStack t (.startJoin waiter (some s.word) :: rest)) := by
    apply of_replace [_] [.startJoin waiter (some s.word)] hstack <;>
      simp [State.setStack, SameHandle, Frame.writes]
  cases bits with
  | none => exact hreload
  | some bits =>
      simp only [State.startJoin]
      split
      · split
        · apply of_replace [_] [] hstack <;>
            simp [State.setStack, State.record, SameHandle, Frame.writes]
        · apply of_replace [_] [.registerJoiner waiter none] hstack <;>
            simp [State.setStack, SameHandle, Frame.writes]
      · exact hreload

theorem registerJoiner {weak : Bool} {waiter : Join} {head : Option (Joiners Join)}
    (hstack : s.stack t = .registerJoiner waiter head :: rest) :
    SameFacts h s (s.registerJoiner t rest weak waiter head) := by
  cases head with
  | none =>
      apply of_replace [_] [.registerJoiner waiter (some s.joiners)] hstack <;>
        simp [State.registerJoiner, State.setStack, SameHandle, Frame.writes]
  | some joiners =>
      cases joiners with
      | sentinel =>
          apply of_replace [_] [] hstack <;>
            simp [State.registerJoiner, State.setStack, State.record, SameHandle, Frame.writes]
      | list head =>
          simp only [State.registerJoiner]
          split
          · apply of_replace [_] [] hstack <;>
              simp [State.setStack, State.record, SameHandle, Frame.writes]
          · apply of_replace [_] [.registerJoiner waiter (some s.joiners)] hstack <;>
              simp [State.setStack, SameHandle, Frame.writes]

omit [DecidableEq Join] in
theorem drain {after : After Handle} {list : Option Join}
    (hstack : s.stack t = .drain after list :: rest) (hafter : after.writes h = false) :
    SameFacts h s (s.drain t rest after list) := by
  cases list with
  | none =>
      simp only [State.drain]
      rw [resume_eq after rest]
      apply of_replace [_] (after.resume []) hstack <;>
        simp [State.setStack, SameHandle, resume_writes_eq_zero hafter, Frame.writes, hafter]
  | some waiter =>
      apply of_replace [_] [.completeDeferred after (s.next waiter)] hstack <;>
        simp [State.drain, State.setStack, State.record, SameHandle, Frame.writes, hafter]

theorem frameStep {weak : Bool} {frame : Frame Handle Join} (hstack : s.stack t = frame :: rest)
    (hwrites : frame.writes h = false) (hstep : frame.step s t rest weak = some s') :
    SameFacts h s s' := by
  cases frame with
  | tryAssociate target source bits =>
      cases hstep
      exact tryAssociate hstack (by simpa [Frame.writes] using hwrites)
  | disassociate after bits =>
      cases hstep
      exact disassociate hstack hwrites
  | completeRegisteredJoins after =>
      simp only [Frame.step] at hstep
      have hafter : after.writes h = false := hwrites
      split at hstep <;> cases hstep
      next head _ =>
        apply of_replace [_] [.drain after head] hstack <;>
          simp [State.setStack, State.record, SameHandle, Frame.writes, hafter]
  | drain after list =>
      cases hstep
      exact drain hstack hwrites
  | completeDeferred after list => cases hstep
  | transfer target source =>
      cases hstep
      simp only [Frame.writes, Bool.or_eq_false_iff, decide_eq_false_iff_not] at hwrites
      apply of_replace [_] [] hstack <;>
        simp [State.setStack, State.transfer, SameHandle, Frame.writes, hwrites]
      split <;> simp [Ne.symm hwrites.1, Ne.symm hwrites.2]
  | startJoin waiter bits =>
      cases hstep
      exact startJoin hstack
  | registerJoiner waiter head =>
      cases hstep
      exact registerJoiner hstack

variable (t new) in
omit [DecidableEq Join] in
/-- User code begins an operation that does not write the handle. -/
theorem of_push (hstack' : s'.stack = Function.update s.stack t (new ++ s.stack t))
    (hwrites : new.countP (Frame.writes h) = 0) (hhandle : SameHandle s s' h)
    (hassociated : .associated h ∈ s'.log ↔ .associated h ∈ s.log)
    (hrejected : .rejected h ∈ s'.log ↔ .rejected h ∈ s.log) : SameFacts h s s' :=
  of_replace [] new rfl hstack' hwrites hhandle hassociated hrejected

omit [DecidableEq Thread] [DecidableEq Join] in
/-- User code changes handles without starting an operation. -/
theorem of_same_stack (hstack' : s'.stack = s.stack) (hhandle : SameHandle s s' h)
    (hassociated : .associated h ∈ s'.log ↔ .associated h ∈ s.log)
    (hrejected : .rejected h ∈ s'.log ↔ .rejected h ∈ s.log) : SameFacts h s s' :=
  ⟨hhandle, hassociated, hrejected, by rw [hstack']⟩

/-- A step that neither names the handle nor runs an operation that writes it. -/
theorem step {a : Action Thread Handle Join} (hstep : step s a = some s')
    (hnames : a.names h = false)
    (htop : ∀ t weak, a = .run t weak → ∀ frame rest, s.stack t = frame :: rest →
      frame.writes h = false) : SameFacts h s s' := by
  cases a with
  | run t weak =>
      simp only [CountingScope.step] at hstep
      split at hstep
      · cases hstep
      · next frame rest hstack =>
          exact frameStep hstack (htop t weak rfl frame rest hstack) hstep
  | ret t =>
      simp only [CountingScope.step] at hstep
      split at hstep <;> cases hstep
      next after list rest hstack =>
        apply of_replace [_] [.drain after list] hstack
        · rfl
        · cases hafter : after.writes h <;> simp [Frame.writes, hafter]
        · simp [State.setStack, SameHandle]
        · simp [State.setStack]
        · simp [State.setStack]
  | create t target =>
      simp only [CountingScope.step, Option.ite_none_right_eq_some, Option.some.injEq] at hstep
      obtain ⟨-, rfl⟩ := hstep
      have hne : target ≠ h := by simpa [Action.names] using hnames
      apply of_same_stack <;> simp [State.emplace, SameHandle, hne.symm]
  | associate t target =>
      simp only [CountingScope.step, Option.ite_none_right_eq_some, Option.some.injEq] at hstep
      obtain ⟨-, rfl⟩ := hstep
      have hne : target ≠ h := by simpa [Action.names] using hnames
      apply of_push t [.tryAssociate target none none] <;>
        simp [State.setStack, SameHandle, Frame.writes, hne]
  | associateFrom t target source =>
      simp only [CountingScope.step, Option.ite_none_right_eq_some] at hstep
      have hne : target ≠ h := by
        simp only [Action.names, Bool.or_eq_false_iff, decide_eq_false_iff_not] at hnames
        exact hnames.1
      obtain ⟨-, hstep⟩ := hstep
      split at hstep <;> cases hstep
      · apply of_push t [.tryAssociate target (some source) none] <;>
          simp [State.setStack, SameHandle, Frame.writes, hne]
      · apply of_same_stack <;> simp [State.emplace, SameHandle, hne.symm]
  | moveConstruct t target source =>
      simp only [CountingScope.step, Option.ite_none_right_eq_some, Option.some.injEq] at hstep
      simp only [Action.names, Bool.or_eq_false_iff, decide_eq_false_iff_not] at hnames
      obtain ⟨-, rfl⟩ := hstep
      apply of_same_stack <;>
        simp [State.emplace, State.transfer, SameHandle, Ne.symm hnames.1]
      split <;> simp [Ne.symm hnames.1, Ne.symm hnames.2]
  | moveAssign t target source =>
      simp only [CountingScope.step, Option.ite_none_right_eq_some] at hstep
      simp only [Action.names, Bool.or_eq_false_iff, decide_eq_false_iff_not] at hnames
      obtain ⟨-, hstep⟩ := hstep
      split at hstep
      · cases hstep
        exact refl h s
      · split at hstep <;> cases hstep
        · apply of_push t [.disassociate (.transfer target source) none] <;>
            simp [State.setStack, SameHandle, Frame.writes, After.writes, hnames,
              Ne.symm hnames.1]
        · apply of_same_stack <;> simp [State.transfer, SameHandle]
          split <;> simp [Ne.symm hnames.1, Ne.symm hnames.2]
  | destroy t target =>
      simp only [CountingScope.step, Option.ite_none_right_eq_some] at hstep
      have hne : target ≠ h := by simpa [Action.names] using hnames
      obtain ⟨-, hstep⟩ := hstep
      split at hstep <;> cases hstep
      · apply of_push t [.disassociate .done none] <;>
          simp [State.setStack, SameHandle, Frame.writes, After.writes, hne.symm]
      · apply of_same_stack <;> simp [SameHandle, hne.symm]
  | close t =>
      simp only [CountingScope.step, Option.ite_none_right_eq_some, Option.some.injEq] at hstep
      obtain ⟨-, rfl⟩ := hstep
      apply of_same_stack <;> simp [SameHandle]
  | join t waiter =>
      simp only [CountingScope.step, Option.ite_none_right_eq_some, Option.some.injEq] at hstep
      obtain ⟨-, rfl⟩ := hstep
      apply of_push t [.startJoin waiter none] <;>
        simp [State.setStack, State.record, SameHandle, Frame.writes]
  | reuse waiter next =>
      simp only [CountingScope.step, Option.ite_none_right_eq_some, Option.some.injEq] at hstep
      obtain ⟨-, rfl⟩ := hstep
      apply of_same_stack <;> simp [SameHandle]

end SameFacts

omit [Fintype Thread] [DecidableEq Join] in
/-- One turn of an association: it goes on, or it ends and says how. -/
theorem tryAssociate_outcome (s : State Thread Handle Join) (t : Thread) (h : Handle)
    (rest : List (Frame Handle Join)) (weak : Bool) (source : Option Handle)
    (bits : Option Word) :
    (s.tryAssociate t rest weak h source bits).stack =
        Function.update s.stack t (.tryAssociate h source (some s.word) :: rest) ∧
      (s.tryAssociate t rest weak h source bits).engaged = s.engaged ∧
      (s.tryAssociate t rest weak h source bits).log = s.log ∨
    (s.tryAssociate t rest weak h source bits).stack = Function.update s.stack t rest ∧
      ((s.tryAssociate t rest weak h source bits).engaged = insert h s.engaged ∧
          (s.tryAssociate t rest weak h source bits).log = .associated h :: s.log ∨
        (s.tryAssociate t rest weak h source bits).engaged = s.engaged ∧
          (s.tryAssociate t rest weak h source bits).log = .rejected h :: s.log) := by
  cases bits with
  | none => simp [State.tryAssociate, State.setStack]
  | some bits =>
      simp only [State.tryAssociate]
      split
      · simp [State.setStack, State.emplace, State.record]
      · split <;> simp [State.setStack, State.emplace, State.record]

omit [Fintype Thread] in
theorem frameStep_stack {weak : Bool} {frame : Frame Handle Join}
    (hstep : frame.step s t rest weak = some s') :
    ∃ frames, s'.stack = Function.update s.stack t frames := by
  cases frame with
  | tryAssociate target source bits =>
      cases hstep
      rcases tryAssociate_outcome s t target rest weak source bits with
        ⟨hstack, -⟩ | ⟨hstack, -⟩
      · exact ⟨_, hstack⟩
      · exact ⟨_, hstack⟩
  | disassociate after bits =>
      cases hstep
      cases bits with
      | none => exact ⟨_, rfl⟩
      | some bits =>
          simp only [State.disassociate]
          split <;> exact ⟨_, rfl⟩
  | completeRegisteredJoins after =>
      simp only [Frame.step] at hstep
      split at hstep <;> cases hstep
      exact ⟨_, rfl⟩
  | drain after list =>
      cases hstep
      cases list <;> exact ⟨_, rfl⟩
  | completeDeferred after list => cases hstep
  | transfer target source =>
      cases hstep
      exact ⟨_, rfl⟩
  | startJoin waiter bits =>
      cases hstep
      cases bits with
      | none => exact ⟨_, rfl⟩
      | some bits =>
          simp only [State.startJoin]
          split
          · split <;> exact ⟨_, rfl⟩
          · exact ⟨_, rfl⟩
  | registerJoiner waiter head =>
      cases hstep
      cases head with
      | none => exact ⟨_, rfl⟩
      | some joiners =>
          cases joiners with
          | sentinel => exact ⟨_, rfl⟩
          | list head =>
              simp only [State.registerJoiner]
              split <;> exact ⟨_, rfl⟩

/-- A thread inside an operation moves only when the operation runs. -/
theorem step_stack_inside {a : Action Thread Handle Join} (hstep : step s a = some s')
    (hrun : ∀ weak, a ≠ .run t weak) (hinside : s.atUser t = false) :
    s'.stack t = s.stack t := by
  have hne : ∀ t', s.atUser t' = true → t ≠ t' := by
    intro t' huser heq
    rw [← heq, hinside] at huser
    cases huser
  cases a with
  | run t' weak =>
      have hother : t ≠ t' := fun heq => hrun weak (by rw [heq])
      simp only [CountingScope.step] at hstep
      split at hstep
      · cases hstep
      · obtain ⟨frames, hstack⟩ := frameStep_stack hstep
        rw [hstack, Function.update_of_ne hother]
  | ret t' =>
      simp only [CountingScope.step] at hstep
      split at hstep
      · next hstack =>
          have hother : t ≠ t' := by
            apply hne
            simp [State.atUser, hstack]
          cases hstep
          simp [State.setStack, Function.update_of_ne hother]
      · cases hstep
  | reuse waiter next =>
      simp only [CountingScope.step, Option.ite_none_right_eq_some, Option.some.injEq] at hstep
      obtain ⟨-, rfl⟩ := hstep
      rfl
  | create t' target | moveConstruct t' target source | close t' =>
      simp only [CountingScope.step, Option.ite_none_right_eq_some, Option.some.injEq] at hstep
      obtain ⟨-, rfl⟩ := hstep
      rfl
  | associate t' target | join t' waiter =>
      simp only [CountingScope.step, Option.ite_none_right_eq_some, Option.some.injEq] at hstep
      obtain ⟨huser, rfl⟩ := hstep
      simp [State.setStack, State.record, Function.update_of_ne (hne t' huser.1)]
  | associateFrom t' target source | destroy t' target =>
      simp only [CountingScope.step, Option.ite_none_right_eq_some] at hstep
      obtain ⟨huser, hstep⟩ := hstep
      split at hstep <;> cases hstep <;>
        simp [State.setStack, State.emplace, Function.update_of_ne (hne t' huser.1)]
  | moveAssign t' target source =>
      simp only [CountingScope.step, Option.ite_none_right_eq_some] at hstep
      obtain ⟨huser, hstep⟩ := hstep
      split at hstep
      · cases hstep
        rfl
      · split at hstep <;> cases hstep <;>
          simp [State.setStack, State.transfer, Function.update_of_ne (hne t' huser.1)]

end Bexec.CountingScope
