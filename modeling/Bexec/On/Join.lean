import Bexec.On.Declared

/-! # The join sender of a counting scope

A join that is not complete at once is completed later through the scheduler of
its receiver.
-/

namespace Bexec.Join

open Foundation Signatures On

variable {Ty V : Type*} [ArgumentTypes Ty]

/-- `join_sender::completion_signatures`. -/
def joinCompletionSignatures : List (Signature Ty) :=
  [.setValue [], .setError exceptionPtr, .setStopped]

inductive Phase
  | idle | registered | scheduled | done
  deriving DecidableEq, Repr

structure State (Ty V : Type*) where
  phase : Phase
  delivered : List (Signal Ty V)
  deriving DecidableEq

inductive Action (Ty V : Type*)
  | start (joined : Bool)
  | completeDeferred (raise : Option V)
  | finalCompletes (signal : Signal Ty V)

namespace State

def initial : State Ty V :=
  ⟨.idle, []⟩

def deliver (signal : Signal Ty V) (s : State Ty V) : State Ty V :=
  ⟨.done, signal :: s.delivered⟩

/-- `start`, with what `start_join` returned. -/
def start (joined : Bool) (s : State Ty V) : State Ty V :=
  if joined then s.deliver (.setValue []) else { s with phase := .registered }

/-- `complete_deferred`: connect and start the schedule operation. -/
def completeDeferred (schedule : ScheduleSender Ty) (raise : Option V) (s : State Ty V) :
    State Ty V :=
  match connectRaises schedule.connectNothrow raise with
  | none => { s with phase := .scheduled }
  | some e => s.deliver (exception e)

/-- `final_receiver`. -/
def returned (s : State Ty V) : Signal Ty V → State Ty V
  | .setValue _ => s.deliver (.setValue [])
  | .setError error => s.deliver (.setError error)
  | .setStopped => s.deliver .setStopped

end State

variable [DecidableEq Ty]

def step (schedule : ScheduleSender Ty) (s : State Ty V) : Action Ty V → Option (State Ty V)
  | .start joined => if s.phase = .idle then some (s.start joined) else none
  | .completeDeferred raise =>
      if s.phase = .registered then some (s.completeDeferred schedule raise) else none
  | .finalCompletes signal =>
      if s.phase = .scheduled ∧ signal.signature ∈ schedule.signatures then
        some (s.returned signal)
      else none

def machine (V : Type*) (schedule : ScheduleSender Ty) : Machine (State Ty V) (Action Ty V) where
  initial s := s = .initial
  step := step schedule

/-- Every signal the receiver got is declared. -/
def DeliversDeclared (s : State Ty V) : Prop :=
  ∀ signal ∈ s.delivered, Declares joinCompletionSignatures signal.signature

variable {schedule : ScheduleSender Ty}

omit [DecidableEq Ty] in
theorem declares_setError_iff {error : Ty} :
    Declares joinCompletionSignatures (.setError error) ↔ decay error = exceptionPtr := by
  simp [Declares, joinCompletionSignatures, Completion.map, eq_comm]

omit [DecidableEq Ty] in
theorem DeliversDeclared.deliver {s : State Ty V} {signal : Signal Ty V}
    (h : DeliversDeclared s) (hsignal : Declares joinCompletionSignatures signal.signature) :
    DeliversDeclared (s.deliver signal) := by
  intro other hmem
  rcases List.mem_cons.mp hmem with rfl | hmem
  · exact hsignal
  · exact h other hmem

omit [DecidableEq Ty] in
theorem declares_of_mem {signal : Signal Ty V}
    (hmem : signal.signature ∈ (joinCompletionSignatures : List (Signature Ty))) :
    Declares joinCompletionSignatures signal.signature :=
  .of_mem hmem

theorem DeliversDeclared.step {s s' : State Ty V} {a : Action Ty V} (h : DeliversDeclared s)
    (herrors : ∀ e, Completion.setError e ∈ schedule.signatures → decay e = exceptionPtr)
    (hstep : Join.step schedule s a = some s') : DeliversDeclared s' := by
  cases a with
  | start joined =>
      simp only [Join.step, Option.ite_none_right_eq_some, Option.some.injEq] at hstep
      obtain ⟨-, rfl⟩ := hstep
      unfold State.start
      split
      · exact h.deliver (declares_of_mem (by simp [joinCompletionSignatures, Completion.map]))
      · exact h
  | completeDeferred raise =>
      simp only [Join.step, Option.ite_none_right_eq_some, Option.some.injEq] at hstep
      obtain ⟨-, rfl⟩ := hstep
      unfold State.completeDeferred
      split
      · exact h
      · exact h.deliver
          (declares_of_mem (by simp [joinCompletionSignatures, Completion.map, exception]))
  | finalCompletes signal =>
      simp only [Join.step, Option.ite_none_right_eq_some, Option.some.injEq] at hstep
      obtain ⟨⟨-, hmem⟩, rfl⟩ := hstep
      cases signal with
      | setValue args =>
          exact h.deliver (declares_of_mem (by simp [joinCompletionSignatures, Completion.map]))
      | setError error => exact h.deliver (declares_setError_iff.mpr (herrors _ hmem))
      | setStopped =>
          exact h.deliver (declares_of_mem (by simp [joinCompletionSignatures, Completion.map]))

/-- An error of the scheduler reaches the receiver in some run. -/
theorem exists_delivered_error [Inhabited V] {error : Ty}
    (hmem : Completion.setError error ∈ schedule.signatures) :
    ∃ s : State Ty V, (machine V schedule).Reachable s ∧
      ∃ signal ∈ s.delivered, signal.signature = .setError error := by
  have hregistered : (machine V schedule).Reachable ⟨.registered, []⟩ := by
    apply Machine.Reachable.step (.initial rfl) (a := .start false)
    simp [machine, Join.step, State.initial, State.start]
  have hscheduled : (machine V schedule).Reachable ⟨.scheduled, []⟩ := by
    apply hregistered.step (a := .completeDeferred none)
    simp [machine, Join.step, State.completeDeferred, connectRaises]
  have hstep : (machine V schedule).step ⟨.scheduled, []⟩
      (.finalCompletes (typed (.setError error))) =
      some ⟨.done, [typed (.setError error)]⟩ := by
    simp [machine, Join.step, hmem, State.returned, State.deliver, typed, Completion.map]
  refine ⟨_, hscheduled.step hstep, _, List.mem_singleton_self _, ?_⟩
  exact signature_typed (.setError error)

/-- `join` only delivers what it declares exactly when its receiver's scheduler
sends no error but an exception. -/
theorem deliversDeclared_iff [Inhabited V] :
    (∀ s : State Ty V, (machine V schedule).Reachable s → DeliversDeclared s) ↔
      ∀ e, Completion.setError e ∈ schedule.signatures → decay e = exceptionPtr := by
  constructor
  · intro h error hmem
    obtain ⟨s, hs, signal, hsignal, hsignature⟩ := exists_delivered_error (V := V) hmem
    have hdeclared := h s hs signal hsignal
    rw [hsignature] at hdeclared
    exact declares_setError_iff.mp hdeclared
  · intro herrors s hs
    apply hs.invariant (P := DeliversDeclared)
    · intro s hinit
      cases hinit
      simp [DeliversDeclared, State.initial]
    · intro s a s' _ h hstep
      exact h.step herrors hstep

end Bexec.Join

namespace Bexec.On

open Foundation Signatures

variable {Ty V : Type*} [ArgumentTypes Ty] [DecidableEq Ty]

/-- For every final scheduler, target scheduler and child, `on` and `join` only
deliver what they declare exactly when they declare each error that the final
scheduler sends and that can be reached. -/
theorem final_scheduler_declared_iff [Inhabited V] (op : Operation Ty) :
    ((∀ s : State Ty V, (machine V op).Reachable s → DeliversDeclared op s) ↔
      ((∃ c, Receives op c) →
        ∀ e, Completion.setError e ∈ op.final.signatures → DeclaresError op e)) ∧
    ((∀ s : Join.State Ty V, (Join.machine V op.final).Reachable s → Join.DeliversDeclared s) ↔
      ∀ e, Completion.setError e ∈ op.final.signatures → decay e = exceptionPtr) :=
  ⟨deliversDeclared_iff, Join.deliversDeclared_iff⟩

/-- A final scheduler with an error type of its own. -/
def typedErrors : Operation ArgumentType where
  target := copiesChild.target
  child := [.setValue []]
  final := ⟨[.setValue [], .setError (.object ⟨0, true, true⟩)], true, by simp⟩
  sourceConnectNothrow := true
  childConnectNothrow := true

theorem final_error_undeclared :
    (¬ ∀ s : State ArgumentType ℕ, (machine ℕ typedErrors).Reachable s →
      DeliversDeclared typedErrors s) ∧
    ¬ ∀ s : Join.State ArgumentType ℕ, (Join.machine ℕ typedErrors.final).Reachable s →
      Join.DeliversDeclared s := by
  constructor
  · rw [deliversDeclared_iff]
    intro h
    have hreceives : Receives typedErrors (.setValue []) :=
      .child (List.mem_singleton_self _) (List.mem_singleton_self _)
    rcases h ⟨_, hreceives⟩ (.object ⟨0, true, true⟩) (by decide) with hdecay | ⟨e, hmem, -⟩
    · cases hdecay
    · revert hmem
      simp [typedErrors, copiesChild]
  · rw [Join.deliversDeclared_iff]
    intro h
    cases h (.object ⟨0, true, true⟩) (by decide)

end Bexec.On
