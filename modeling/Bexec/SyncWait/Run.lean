import Bexec.RunLoop.Drain
import Bexec.SyncWait.Receiver

/-! # Runs of `sync_wait`

The thread of `sync_wait` starts the operation and runs the loop. The operation
completes on any thread: inside `start`, before `run`, while the loop sleeps, or
from an operation that the loop executes.
-/

namespace Bexec.SyncWait

open Foundation Signatures

variable {Thread Node Ty V E : Type}

/-- Where the completion is: not yet sent, stored by a thread that has still to
call `finish`, or handed over. -/
inductive Delivery (Thread : Type)
  | awaited
  | stored (thread : Thread)
  | handedOver
  deriving DecidableEq

structure State (Thread Node Ty V E : Type) where
  loop : RunLoop.State Thread Node
  fields : SyncWaitState Ty V E
  delivery : Delivery Thread
  outcome : Option (Result Ty V E)

def State.initial : State Thread Node Ty V E where
  loop := .initial
  fields := .initial
  delivery := .awaited
  outcome := none

inductive Action (Thread Node : Type)
  | complete (thread : Thread)
  | finish
  | loop (action : RunLoop.Action Thread Node)
  | result
  deriving DecidableEq

/-- The thread that takes a step of the loop. -/
def actor (owner : Thread) : RunLoop.Action Thread Node → Option Thread
  | .enqueue t _ => some t
  | .finish t => some t
  | .run => some owner
  | .proceed t _ => some t
  | .consume _ => some owner
  | .wakeSpuriously => none
  | .ret => some owner
  | .reuse _ _ => none

/-- Only the receiver calls `finish`, and a thread that stores a completion does
nothing else before. -/
def permits [DecidableEq Thread] (owner : Thread) :
    Delivery Thread → RunLoop.Action Thread Node → Bool
  | _, .finish _ => false
  | .stored t, a => actor owner a ≠ some t
  | _, _ => true

section Step

variable [Fintype Thread] [DecidableEq Thread] [DecidableEq Node] [DecidableEq Ty]
  [ArgumentTypes Ty] (owner : Thread) (raise : Site Ty → Option E)
  (signal : Completion (Argument Ty V))

/-- A step of the loop within its contract. -/
def State.loopStep (s : State Thread Node Ty V E) (a : RunLoop.Action Thread Node) :
    Option (State Thread Node Ty V E) :=
  if RunLoop.orderly owner s.loop a = true then
    (RunLoop.step owner s.loop a).map fun loop => { s with loop := loop }
  else none

/-- The operation completes with the signal when it likes to. An exception that
leaves the receiver ends the process. -/
def step (s : State Thread Node Ty V E) (a : Action Thread Node) :
    Option (State Thread Node Ty V E) :=
  if s.outcome.isSome then none
  else
    match a with
    | .complete t =>
        if s.delivery = .awaited ∧ s.loop.atUser owner t = true then
          match s.fields.receive raise signal with
          | .value fields => some { s with fields := fields, delivery := .stored t }
          | _ => some { s with delivery := .stored t, outcome := some .terminated }
        else none
    | .finish =>
        match s.delivery with
        | .stored t => { s with delivery := .handedOver }.loopStep owner (.finish t)
        | _ => none
    | .loop a => if permits owner s.delivery a = true then s.loopStep owner a else none
    | .result =>
        if s.loop.call owner = .idle ∧ s.loop.consumer = .returned then
          some { s with outcome := some (s.fields.result raise) }
        else none

variable (Node) in
def machine : Machine (State Thread Node Ty V E) (Action Thread Node) where
  initial s := s = .initial
  step := step owner raise signal

end Step

/-! ## The invariant -/

section Invariant

variable [Fintype Thread] [DecidableEq Thread] [DecidableEq Node]
  {owner : Thread}

/-- A thread that user code controls keeps it while others take steps. -/
theorem atUser_step {loop loop' : RunLoop.State Thread Node} {a : RunLoop.Action Thread Node}
    {t : Thread} (hactor : actor owner a ≠ some t)
    (hstep : RunLoop.step owner loop a = some loop') (huser : loop.atUser owner t = true) :
    loop'.atUser owner t = true := by
  have hframe : loop'.call t = loop.call t ∧
      (t = owner → loop'.consumer = loop.consumer ∨ loop.consumer = .asleep) := by
    cases a with
    | proceed t' weak =>
        have hne : t ≠ t' := by simpa [actor, eq_comm] using hactor
        have hkept := RunLoop.stepCall_frame hstep
        exact ⟨hkept.others t hne, fun _ => hkept.consumer⟩
    | enqueue t' op =>
        have hne : t ≠ t' := by simpa [actor, eq_comm] using hactor
        simp only [RunLoop.step, Option.ite_none_right_eq_some, Option.some.injEq] at hstep
        obtain ⟨-, rfl⟩ := hstep
        exact ⟨by simp [RunLoop.State.setCall, hne], fun _ => .inl rfl⟩
    | finish t' =>
        have hne : t ≠ t' := by simpa [actor, eq_comm] using hactor
        simp only [RunLoop.step, Option.ite_none_right_eq_some, Option.some.injEq] at hstep
        obtain ⟨-, rfl⟩ := hstep
        exact ⟨by simp [RunLoop.State.setCall, hne], fun _ => .inl rfl⟩
    | run =>
        have hne : t ≠ owner := by simpa [actor, eq_comm] using hactor
        simp only [RunLoop.step, Option.ite_none_right_eq_some, Option.some.injEq] at hstep
        obtain ⟨-, rfl⟩ := hstep
        exact ⟨rfl, fun heq => absurd heq hne⟩
    | consume weak =>
        have hne : t ≠ owner := by simpa [actor, eq_comm] using hactor
        simp only [RunLoop.step, Option.ite_none_right_eq_some] at hstep
        rw [(RunLoop.stepConsumer_keeps hstep.2).1]
        exact ⟨rfl, fun heq => absurd heq hne⟩
    | wakeSpuriously =>
        simp only [RunLoop.step, Option.ite_none_right_eq_some, Option.some.injEq] at hstep
        obtain ⟨hasleep, rfl⟩ := hstep
        exact ⟨rfl, fun _ => .inr hasleep⟩
    | ret =>
        have hne : t ≠ owner := by simpa [actor, eq_comm] using hactor
        simp only [RunLoop.step] at hstep
        split at hstep
        · simp only [Option.ite_none_right_eq_some, Option.some.injEq] at hstep
          obtain ⟨-, rfl⟩ := hstep
          exact ⟨rfl, fun heq => absurd heq hne⟩
        · cases hstep
    | reuse op next =>
        simp only [RunLoop.step, Option.ite_none_right_eq_some, Option.some.injEq] at hstep
        obtain ⟨-, rfl⟩ := hstep
        exact ⟨rfl, fun _ => .inl rfl⟩
  simp only [RunLoop.State.atUser, Bool.and_eq_true, decide_eq_true_eq, Bool.or_eq_true]
    at huser ⊢
  rw [hframe.1]
  refine ⟨huser.1, ?_⟩
  by_cases heq : t = owner
  · have hconsumer := huser.2.resolve_left (not_not_intro heq)
    rcases hframe.2 heq with hsame | hasleep
    · exact .inr (by rw [hsame]; exact hconsumer)
    · rw [hasleep] at hconsumer
      cases hconsumer
  · exact .inl heq

variable [DecidableEq Ty] [ArgumentTypes Ty] {raise : Site Ty → Option E}
  {signal : Completion (Argument Ty V)} {s s' : State Thread Node Ty V E}

variable (owner raise signal) in
/-- The fields hold what the receiver makes of the signal from the completion on,
and `finish` is called afterwards. -/
structure Inv (s : State Thread Node Ty V E) : Prop where
  sound : RunLoop.Sound owner s.loop
  awaited : s.delivery = .awaited →
    s.fields = .initial ∧ s.loop.finishCalled = false ∧ s.outcome = none
  stored : ∀ t, s.delivery = .stored t → s.outcome = none →
    SyncWaitState.initial.receive raise signal = .value s.fields ∧
      s.loop.finishCalled = false ∧ s.loop.atUser owner t = true
  handedOver : s.delivery = .handedOver →
    SyncWaitState.initial.receive raise signal = .value s.fields ∧ s.loop.finishCalled = true
  outcome : ∀ r, s.outcome = some r → s.delivery ≠ .awaited ∧ r = syncWait raise signal ∧
    (r = .terminated ∨ ∀ t, s.loop.call t = .idle)

namespace Inv

theorem initial : Inv owner raise signal (State.initial : State Thread Node Ty V E) where
  sound := RunLoop.Sound.initial
  awaited _ := ⟨rfl, rfl, rfl⟩
  stored _ h := by cases h
  handedOver h := by cases h
  outcome _ h := by cases h

omit [DecidableEq Thread] in
/-- `run` has not returned before `finish` was called. -/
theorem finishCalled_of_returned {loop : RunLoop.State Thread Node}
    (h : RunLoop.Sound owner loop) (hreturned : loop.consumer = .returned) :
    loop.finishCalled = true := by
  apply h.shutdown.finishCalled
  have hstate := h.phases.state
  rw [hreturned] at hstate
  exact .inr hstate

theorem complete (h : Inv owner raise signal s) (hrunning : s.outcome = none) {t : Thread}
    (hstep : step owner raise signal s (.complete t) = some s') : Inv owner raise signal s' := by
  simp only [step, hrunning, Option.isSome_none, Bool.false_eq_true, if_false,
    Option.ite_none_right_eq_some] at hstep
  obtain ⟨⟨hawaited, huser⟩, hstep⟩ := hstep
  obtain ⟨hfields, hfinish, -⟩ := h.awaited hawaited
  rw [hfields] at hstep
  cases hreceive : SyncWaitState.initial.receive raise signal with
  | value fields =>
      rw [hreceive] at hstep
      cases hstep
      refine ⟨h.sound, by simp, ?_, by simp, by simp⟩
      intro t' ht' _
      obtain rfl : t = t' := by simpa using ht'
      exact ⟨hreceive, hfinish, huser⟩
  | _ =>
      rw [hreceive] at hstep
      cases hstep
      refine ⟨h.sound, by simp, by simp, by simp, ?_⟩
      intro r hr
      obtain rfl : .terminated = r := by simpa using hr
      exact ⟨by simp, by simp [syncWait, hreceive], .inl rfl⟩

theorem finish (h : Inv owner raise signal s) (hrunning : s.outcome = none)
    (hstep : step owner raise signal s .finish = some s') : Inv owner raise signal s' := by
  simp only [step, hrunning, Option.isSome_none, Bool.false_eq_true, if_false] at hstep
  split at hstep
  next t hstored =>
    simp only [State.loopStep, Option.ite_none_right_eq_some] at hstep
    obtain ⟨horderly, hstep⟩ := hstep
    obtain ⟨loop, hloop, rfl⟩ := Option.map_eq_some_iff.mp hstep
    have hcalled : loop.finishCalled = true := by
      simp only [RunLoop.step, Option.ite_none_right_eq_some, Option.some.injEq] at hloop
      obtain ⟨-, rfl⟩ := hloop
      rfl
    exact ⟨h.sound.step horderly hloop, by simp, by simp,
      fun _ => ⟨(h.stored t hstored hrunning).1, hcalled⟩, by simp⟩
  next => cases hstep

theorem loop (h : Inv owner raise signal s) (hrunning : s.outcome = none)
    {a : RunLoop.Action Thread Node}
    (hstep : step owner raise signal s (.loop a) = some s') : Inv owner raise signal s' := by
  simp only [step, hrunning, Option.isSome_none, Bool.false_eq_true, if_false,
    Option.ite_none_right_eq_some, State.loopStep] at hstep
  obtain ⟨hpermits, horderly, hstep⟩ := hstep
  obtain ⟨loop, hloop, rfl⟩ := Option.map_eq_some_iff.mp hstep
  have hother : ∀ t, a ≠ .finish t := by
    rintro t rfl
    cases s.delivery <;> cases hpermits
  have hcalled := RunLoop.step_finishCalled hother hloop
  refine ⟨h.sound.step horderly hloop, ?_, ?_, ?_, by simp⟩
  · intro hawaited
    obtain ⟨hfields, hfinish, -⟩ := h.awaited hawaited
    exact ⟨hfields, by rw [hcalled]; exact hfinish, rfl⟩
  · intro t hstored _
    obtain ⟨hreceive, hfinish, huser⟩ := h.stored t hstored hrunning
    have hactor : actor owner a ≠ some t := by
      rw [show s.delivery = .stored t from hstored] at hpermits
      cases a <;> simp_all [permits]
    exact ⟨hreceive, by rw [hcalled]; exact hfinish, atUser_step hactor hloop huser⟩
  · intro hover
    rw [hcalled]
    exact h.handedOver hover

theorem result (h : Inv owner raise signal s) (hrunning : s.outcome = none)
    (hstep : step owner raise signal s .result = some s') : Inv owner raise signal s' := by
  simp only [step, hrunning, Option.isSome_none, Bool.false_eq_true, if_false,
    Option.ite_none_right_eq_some, Option.some.injEq] at hstep
  obtain ⟨⟨-, hreturned⟩, rfl⟩ := hstep
  have hcalled := finishCalled_of_returned h.sound hreturned
  have hover : s.delivery = .handedOver := by
    cases hdelivery : s.delivery with
    | awaited =>
        rw [(h.awaited hdelivery).2.1] at hcalled
        cases hcalled
    | stored t =>
        rw [(h.stored t hdelivery hrunning).2.1] at hcalled
        cases hcalled
    | handedOver => rfl
  have hreceive := (h.handedOver hover).1
  refine ⟨h.sound, by simp [hover], by simp [hover], h.handedOver, ?_⟩
  intro r hr
  obtain rfl : s.fields.result raise = r := by simpa using hr
  refine ⟨by simp [hover], by simp [syncWait, hreceive], .inr ?_⟩
  exact h.sound.shutdown.idle (by simp [hreturned, RunLoop.Consumer.drained])

theorem step {a : Action Thread Node} (h : Inv owner raise signal s)
    (hstep : SyncWait.step owner raise signal s a = some s') : Inv owner raise signal s' := by
  have hrunning : s.outcome = none := by
    by_contra hended
    simp [SyncWait.step, Option.isSome_iff_ne_none.mpr hended] at hstep
  cases a with
  | complete t => exact h.complete hrunning hstep
  | finish => exact h.finish hrunning hstep
  | loop a => exact h.loop hrunning hstep
  | result => exact h.result hrunning hstep

theorem of_reachable (hs : (machine Node owner raise signal).Reachable s) :
    Inv owner raise signal s := by
  refine Machine.Reachable.invariant ?_ ?_ hs
  · intro s hinit
    cases hinit
    exact initial
  · intro s a t _ h hstep
    exact h.step hstep

end Inv

/-! ## Progress -/

variable (raise signal) in
/-- The loop goes on inside `sync_wait` as it does on its own. -/
theorem canReach_of_draining {P : RunLoop.State Thread Node → Prop}
    (hrunning : s.outcome = none) (hover : s.delivery = .handedOver)
    (h : (RunLoop.draining Thread Node owner).CanReach P s.loop) :
    (machine Node owner raise signal).CanReach
      (fun s' => P s'.loop ∧ s'.outcome = none ∧ s'.delivery = .handedOver) s := by
  generalize hloop : s.loop = loop at h
  induction h generalizing s with
  | now h => exact .now ⟨hloop ▸ h, hrunning, hover⟩
  | @later loop loop' a hstep _ ih =>
      simp only [RunLoop.draining, Machine.restrict, Option.ite_none_right_eq_some] at hstep
      obtain ⟨hinternal, hstep⟩ := hstep
      refine .later (a := .loop a) (t := { s with loop := loop' }) ?_ (ih hrunning hover rfl)
      have horderly : RunLoop.orderly owner s.loop a = true := by
        rcases RunLoop.internal_cases hinternal with rfl | ⟨t, rfl⟩ | rfl | rfl <;> rfl
      have hpermits : permits owner Delivery.handedOver a = true := by
        rcases RunLoop.internal_cases hinternal with rfl | ⟨t, rfl⟩ | rfl | rfl <;> rfl
      subst hloop
      have hloop : RunLoop.step owner s.loop a = some loop' := hstep
      simp [machine, SyncWait.step, hrunning, hover, hpermits, State.loopStep, horderly, hloop]

/-- A call that has just begun gets itself counted. -/
theorem enter (h : Inv owner raise signal s) (hrunning : s.outcome = none) {t t' : Thread}
    (hstored : s.delivery = .stored t) (hentering : (s.loop.call t').entering = true) :
    ∃ loop : RunLoop.State Thread Node, (loop.call t').entering = false ∧
      (∀ t'', t'' ≠ t' → loop.call t'' = s.loop.call t'') ∧
        step owner raise signal s (.loop (.proceed t' false)) = some { s with loop := loop } := by
  have huser := (h.stored t hstored hrunning).2.2
  have hne : t' ≠ t := by
    rintro rfl
    simp only [RunLoop.State.atUser, Bool.and_eq_true, decide_eq_true_eq] at huser
    simp [huser.1, RunLoop.Call.entering] at hentering
  have hpermits : permits owner s.delivery (.proceed t' false : RunLoop.Action Thread Node) =
      true := by
    simp [hstored, permits, actor, hne]
  obtain ⟨call, hcounted, hcall⟩ : ∃ call : RunLoop.Call Node, call.entering = false ∧
      s.loop.stepCall t' false (s.loop.call t') =
        some ({ s.loop with producers := s.loop.producers + 1 }.setCall t' call) := by
    cases hcall : s.loop.call t' <;>
      simp only [hcall, RunLoop.Call.entering, Bool.false_eq_true] at hentering
    case enqueue op => exact ⟨.loadHead op, rfl, rfl⟩
    case finish => exact ⟨.finishStarting, rfl, rfl⟩
  refine ⟨{ s.loop with producers := s.loop.producers + 1 }.setCall t' call, ?_, ?_, ?_⟩
  · simpa [RunLoop.State.setCall] using hcounted
  · intro t'' hother
    simp [RunLoop.State.setCall, hother]
  · simp [step, hrunning, hpermits, State.loopStep, RunLoop.orderly, RunLoop.step, hcall]

/-- The thread that stored the completion can call `finish`. -/
theorem handOver (h : Inv owner raise signal s) (hrunning : s.outcome = none) {t : Thread}
    (hstored : s.delivery = .stored t) :
    (machine Node owner raise signal).CanReach
      (fun s' => Inv owner raise signal s' ∧ s'.outcome = none ∧ s'.delivery = .handedOver) s := by
  have hcounted := Machine.CanReach.all_of_each (M := machine Node owner raise signal)
    (fun t' s => (s.loop.call t').entering = true)
    (fun s => Inv owner raise signal s ∧ s.outcome = none ∧ s.delivery = .stored t) (s := s)
    ?_ ⟨h, hrunning, hstored⟩
  · apply hcounted.trans
    rintro s₁ ⟨⟨h₁, hrunning₁, hstored₁⟩, hnone⟩
    obtain ⟨-, hcalled, huser⟩ := h₁.stored t hstored₁ hrunning₁
    have hstep : step owner raise signal s₁ .finish = some
        { s₁ with
          delivery := .handedOver
          loop := { s₁.loop with finishCalled := true }.setCall t .finish } := by
      have horderly : RunLoop.orderly owner s₁.loop (.finish t) = true := by
        simp [RunLoop.orderly, hcalled, hnone]
      simp [step, hrunning₁, hstored₁, State.loopStep, horderly, RunLoop.step, huser]
    exact .later (a := .finish) hstep (.now ⟨h₁.step hstep, hrunning₁, rfl⟩)
  · rintro t' s₁ ⟨h₁, hrunning₁, hstored₁⟩ hentering
    obtain ⟨loop, hcounted, hothers, hstep⟩ := enter h₁ hrunning₁ hstored₁ hentering
    refine .later (a := .loop (.proceed t' false)) hstep (.now ⟨⟨h₁.step hstep, hrunning₁, hstored₁⟩, by simp [hcounted], ?_⟩)
    intro t'' hentering''
    by_cases heq : t'' = t'
    · rw [heq]
      exact hentering
    · rwa [← hothers t'' heq]

/-- Once the operation has completed, `sync_wait` can end. -/
theorem canEnd (h : Inv owner raise signal s) (hcompleted : s.delivery ≠ .awaited) :
    (machine Node owner raise signal).CanReach
      (fun s' => s'.outcome = some (syncWait raise signal)) s := by
  cases houtcome : s.outcome with
  | some r =>
      have hr := (h.outcome r houtcome).2.1
      exact .now (by rw [houtcome, hr])
  | none =>
      have hover : (machine Node owner raise signal).CanReach
          (fun s' => Inv owner raise signal s' ∧ s'.outcome = none ∧ s'.delivery = .handedOver)
          s := by
        cases hdelivery : s.delivery with
        | awaited => exact absurd hdelivery hcompleted
        | stored t => exact handOver h houtcome hdelivery
        | handedOver => exact .now ⟨h, houtcome, hdelivery⟩
      apply hover.trans
      rintro s₁ ⟨h₁, hrunning₁, hover₁⟩
      have hreturns := canReach_of_draining raise signal hrunning₁ hover₁
        (h₁.sound.returns (h₁.handedOver hover₁).2)
      apply (hreturns.keep (I := Inv owner raise signal)
        (fun s a s' h hstep => Inv.step (a := a) h hstep) h₁).trans
      rintro s₂ ⟨h₂, ⟨hsound₂, hreturned₂⟩, hrunning₂, hover₂⟩
      have hidle := hsound₂.shutdown.idle (by simp [hreturned₂, RunLoop.Consumer.drained])
      have hreceive := (h₂.handedOver hover₂).1
      have hstep : step owner raise signal s₂ .result = some
          { s₂ with outcome := some (s₂.fields.result raise) } := by
        simp [step, hrunning₂, hidle owner, hreturned₂]
      exact .later (a := .result) hstep (.now (by simp [syncWait, hreceive]))

/-! ## Faithfulness -/

variable (Node owner raise signal) in
/-- `sync_wait` ends after the completion, with its faithful result and nobody
left inside the loop, and once the operation has completed it can end so. -/
structure Faithful : Prop where
  ends : ∀ s : State Thread Node Ty V E, (machine Node owner raise signal).Reachable s →
    ∀ r, s.outcome = some r →
      s.delivery ≠ .awaited ∧ r ≠ .terminated ∧ r = faithful raise signal ∧
        ∀ t, s.loop.call t = .idle
  proceeds : ∀ s : State Thread Node Ty V E, (machine Node owner raise signal).Reachable s →
    s.delivery ≠ .awaited → (machine Node owner raise signal).CanReach
      (fun s' => s'.outcome = some (faithful raise signal)) s

omit [DecidableEq Thread] in
theorem faithful_ne_terminated : faithful raise signal ≠ .terminated := by
  unfold faithful meaning
  split
  · simp
  · split
    · simp
    · split <;> simp
    · simp

/-- The operation may complete inside `start`, so every completion gets through. -/
theorem Faithful.eq (h : Faithful Node owner raise signal) :
    syncWait raise signal = faithful raise signal := by
  have hreached : (machine Node owner raise signal).Reachable
      (State.initial : State Thread Node Ty V E) := .initial rfl
  obtain ⟨s, hstep, hcompleted⟩ : ∃ s : State Thread Node Ty V E,
      step owner raise signal .initial (.complete owner) = some s ∧ s.delivery ≠ .awaited := by
    have huser : (RunLoop.State.initial : RunLoop.State Thread Node).atUser owner owner = true := by
      simp [RunLoop.State.atUser, RunLoop.State.initial, RunLoop.Consumer.atUser]
    cases hreceive : SyncWaitState.initial.receive raise signal with
    | value fields =>
        exact ⟨⟨.initial, fields, .stored owner, none⟩,
          by simp [step, State.initial, huser, hreceive], by simp⟩
    | _ =>
        exact ⟨⟨.initial, .initial, .stored owner, some .terminated⟩,
          by simp [step, State.initial, huser, hreceive], by simp⟩
  have hs : (machine Node owner raise signal).Reachable s :=
    .step (a := .complete owner) hreached hstep
  obtain ⟨trace, t, hrun, hended⟩ := (canEnd (Inv.of_reachable hs) hcompleted).exists_run
  exact (h.ends t (hs.run hrun) _ hended).2.2.1

/-- `sync_wait` is faithful in every run exactly when the stored value or error
passes through without throwing. -/
theorem faithful_iff :
    Faithful Node owner raise signal ↔ PassesThrough raise signal := by
  rw [← syncWait_eq_faithful_iff]
  constructor
  · exact Faithful.eq
  · intro heq
    constructor
    · intro s hs r hr
      obtain ⟨hcompleted, rfl, hleft⟩ := (Inv.of_reachable hs).outcome r hr
      have hne : syncWait raise signal ≠ .terminated := by
        rw [heq]
        exact faithful_ne_terminated
      exact ⟨hcompleted, hne, heq, hleft.resolve_left hne⟩
    · intro s hs hcompleted
      rw [← heq]
      exact canEnd (Inv.of_reachable hs) hcompleted

end Invariant

/-- An error type has a copy constructor only, and it throws. -/
theorem not_faithful_throwing_copy :
    ¬ Faithful Pair Pair.first
      (fun site => if site = .storeError (ArgumentType.object ⟨0, false, false⟩) then some 7
        else none)
      (.setError (⟨.object ⟨0, false, false⟩, 1⟩ : Argument ArgumentType ℕ)) := by
  intro h
  have hterminated : (.terminated : Result ArgumentType ℕ ℕ) = .raised (.raised 7) := h.eq
  cases hterminated

end Bexec.SyncWait
