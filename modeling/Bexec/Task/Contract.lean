import Bexec.Task.Preservation

/-!
# What tasks promise about their frames
-/

namespace Bexec.Task

open Foundation

variable {Id : Type}

/-- What the next step under user code reads. A function that has made its call
reads nothing more. -/
def State.touched (s : State Id) : List (Object Id) :=
  match s.stack with
  | .pending fn :: _ => s.reads fn
  | _ => []

/-- The object is alive, and no call under the top one changes or destroys it. -/
def State.Sound (s : State Id) (rest : List (Activation Id)) (object : Object Id) : Prop :=
  s.alive object = true ∧ object ∉ rest.flatMap Activation.binds

/-- The object belongs to the delivery of an operation that took the frame over. -/
def Heap.Delivers (h : Heap Id) (o f : Id) (object : Object Id) : Prop :=
  object = .holder (.operation o) ∨ object = .promise f ∨
    ∃ a w, h.awaiters a = some w ∧ w.promise = f ∧ object = .awaiter a

variable [DecidableEq Id]

namespace Inv

variable {s s' : State Id} {rest : List (Activation Id)} {f o : Id} {frame : Frame Id}

omit [DecidableEq Id] in
/-- The frame of an operation that has signalled is on its way out. -/
theorem finished (hs : Inv s) (hsignalled : s.heap.signalled o ≠ none)
    (hfrom : s.heap.frameOf o = some f) (hframe : s.heap.frames f = some frame) :
    s.heap.handle (.operation o) = some f ∧
      (frame.status = .completed ∨ frame.status = .destroying) := by
  have hhandle : s.heap.handle (.operation o) = some f := by
    rcases (hs.owned.took o f hfrom).2 with hhandle | hdead
    · exact hhandle
    · rw [hframe] at hdead
      cases hdead
  exact ⟨hhandle, hs.owned.finished o f frame hsignalled hhandle hframe⟩

omit [DecidableEq Id] in
theorem not_promise (hs : Inv s) {status : Status Id} {g : Id}
    (hsignalled : s.heap.signalled o ≠ none) (hfrom : s.heap.frameOf o = some f)
    (hat : s.heap.At g status) (hcompleted : status ≠ .completed)
    (hdestroying : status ≠ .destroying) : g ≠ f := by
  rintro rfl
  obtain ⟨frame, hframe, rfl⟩ := hat
  rcases (hs.finished hsignalled hfrom hframe).2 with hstatus | hstatus
  · exact hcompleted hstatus
  · exact hdestroying hstatus

omit [DecidableEq Id] in
/-- The owner of a frame, unless it is the operation, has another frame. -/
theorem not_promise_of_owner (hs : Inv s) {x : Holder Id} {g : Id}
    (hsignalled : s.heap.signalled o ≠ none) (hfrom : s.heap.frameOf o = some f)
    (hhandle : s.heap.handle x = some g) (hne : x ≠ .operation o) : g ≠ f := by
  rintro rfl
  obtain ⟨frame, hframe⟩ := hs.owned.frame_of_handle hhandle
  exact hne (hs.owned.owners.unique _ _ _ hhandle (hs.finished hsignalled hfrom hframe).1)

omit [DecidableEq Id] in
theorem not_awaiter (hs : Inv s) {a : Id} {completed : Id → Prop}
    (hsignalled : s.heap.signalled o ≠ none) (hfrom : s.heap.frameOf o = some f)
    (hsuspended : s.heap.Suspended a completed) :
    ¬ s.heap.Delivers o f (.awaiter a) ∧
      ∀ w, s.heap.awaiters a = some w → ¬ s.heap.Delivers o f (.promise w.promise) := by
  obtain ⟨w, hawaiter, hat, -⟩ := hsuspended
  have hne := hs.not_promise hsignalled hfrom hat (by simp) (by simp)
  refine ⟨?_, ?_⟩
  · rintro (heq | heq | ⟨a', w', hawaiter', hpromise, heq⟩)
    · cases heq
    · cases heq
    · cases heq
      rw [hawaiter, Option.some.injEq] at hawaiter'
      exact hne (hawaiter' ▸ hpromise)
  · intro w' hawaiter'
    rw [hawaiter, Option.some.injEq] at hawaiter'
    subst hawaiter'
    simpa [Heap.Delivers] using hne

omit [DecidableEq Id] in
/-- No function of the chain reads what belongs to a delivery that is over. -/
theorem quiet (hs : Inv s) {fn : Fn Id} (hinv : fn.Inv s.heap)
    (hsignalled : s.heap.signalled o ≠ none) (hfrom : s.heap.frameOf o = some f) :
    ∀ object ∈ s.reads fn, ¬ s.heap.Delivers o f object := by
  have hpromise : ∀ {g : Id}, g ≠ f → ¬ s.heap.Delivers o f (.promise g) := by
    simp [Heap.Delivers]
  have hholder : ∀ {x : Holder Id}, x ≠ .operation o → ¬ s.heap.Delivers o f (.holder x) := by
    simp [Heap.Delivers]
  cases fn with
  | taskStart t =>
      intro object hreads
      rcases List.mem_cons.mp hreads with rfl | hreads
      · exact hholder (by simp)
      · obtain ⟨g, hhandle, rfl⟩ : ∃ g, s.heap.handle (.task t) = some g ∧ .promise g = object := by
          simpa using hreads
        exact hpromise (hs.not_promise_of_owner hsignalled hfrom hhandle (by simp))
  | operationStart o' =>
      obtain ⟨g, hhandle, hat⟩ := hinv
      have hne := hs.not_promise hsignalled hfrom hat (by simp) (by simp)
      have hother : o' ≠ o := by
        rintro rfl
        rw [hs.owned.held o' g hhandle, Option.some.injEq] at hfrom
        exact hne hfrom
      simpa [State.reads, hhandle] using ⟨hholder (by simpa using hother), hpromise hne⟩
  | awaitSuspend a => simpa [State.reads] using (hs.not_awaiter hsignalled hfrom hinv).1
  | finalAwaitSuspend g | dispatchConnectedCompletion g =>
      obtain ⟨⟨frame, hframe, -⟩, hunsignalled⟩ := hinv
      have hne : g ≠ f := by
        rintro rfl
        exact hsignalled (hunsignalled o (hs.finished hsignalled hfrom hframe).1)
      simpa [State.reads] using hpromise hne
  | deliver o' =>
      obtain ⟨hunsignalled, g, hhandle, -⟩ := hinv
      have hother : Holder.operation o' ≠ .operation o := by
        rintro ⟨⟩
        exact hsignalled hunsignalled
      have hne := hs.not_promise_of_owner hsignalled hfrom hhandle hother
      simpa [State.reads, hhandle] using ⟨hholder hother, hpromise hne⟩
  | deliverTo g o' =>
      obtain ⟨hunsignalled, hhandle, -⟩ := hinv
      have hother : Holder.operation o' ≠ .operation o := by
        rintro ⟨⟩
        exact hsignalled hunsignalled
      have hne := hs.not_promise_of_owner hsignalled hfrom hhandle hother
      simpa [State.reads] using ⟨hpromise hne, hholder hother⟩
  | complete a =>
      obtain ⟨hawaiter, hpromise'⟩ := hs.not_awaiter hsignalled hfrom hinv
      obtain ⟨w, hw, -⟩ := hinv
      simpa [State.reads, hw] using ⟨hawaiter, hpromise' w hw⟩
  | completeStopped a => simpa [State.reads] using (hs.not_awaiter hsignalled hfrom hinv).1
  | unhandledStopped g =>
      obtain ⟨a, w, -, -, hat, -⟩ := hinv
      simpa [State.reads] using
        hpromise (hs.not_promise hsignalled hfrom hat (by simp) (by simp))

section Sound

variable {top : Activation Id} {x : Holder Id} {status : Status Id} {a : Id}

omit [DecidableEq Id] in
theorem sound_promise (hs : Inv s) (hstack : s.stack = top :: rest) (hat : s.heap.At f status)
    (hrunning : status ≠ .running) (hdestroying : status ≠ .destroying)
    (hsuspended : status ≠ .suspended) : s.Sound rest (.promise f) := by
  obtain ⟨frame, hframe, rfl⟩ := hat
  exact ⟨by simp [State.alive, hframe],
    promise_unbound (hs.each_rest hstack) hframe hrunning hdestroying hsuspended⟩

omit [DecidableEq Id] in
theorem sound_operation (hs : Inv s) (hstack : s.stack = top :: rest)
    (hhandle : s.heap.handle (.operation o) = some f) (hat : s.heap.At f status)
    (hdestroying : status ≠ .destroying) : s.Sound rest (.holder (.operation o)) := by
  obtain ⟨frame, hframe, rfl⟩ := hat
  exact ⟨by simpa [State.alive] using hs.owned.alive _ f hhandle,
    hs.operation_unbound (hs.each_rest hstack) hhandle hframe hdestroying⟩

omit [DecidableEq Id] in
theorem sound_promise_of_owner (hs : Inv s) (hstack : s.stack = top :: rest)
    (hhandle : s.heap.handle x = some f) (hidle : s.heap.At f .suspended ∨ s.heap.At f .completed)
    (hx : s.Sound rest (.holder x)) : s.Sound rest (.promise f) := by
  rcases hidle with ⟨frame, hframe, hstatus⟩ | hat
  · exact ⟨by simp [State.alive, hframe],
      hs.promise_unbound_of_owner (hs.each_rest hstack) hhandle hframe (.inl hstatus) hx.2⟩
  · exact hs.sound_promise hstack hat (by simp) (by simp) (by simp)

omit [DecidableEq Id] in
theorem sound_awaiter {w : Awaiter Id} (hawaiter : s.heap.awaiters a = some w) :
    s.Sound rest (.awaiter a) := by
  refine ⟨by simp [State.alive, hawaiter], ?_⟩
  intro hbound
  obtain ⟨activation, -, hbinds⟩ := List.mem_flatMap.mp hbound
  cases activation <;> simp [Activation.binds] at hbinds

omit [DecidableEq Id] in
/-- The argument of a completion refers into the promise of the awaited task. -/
theorem sound_argument (hs : Inv s) (hstack : s.stack = .pending (.complete a) :: rest) :
    ∀ object ∈ s.argument (.complete a), s.Sound rest object := by
  obtain ⟨w, hawaiter, -, hsignalled⟩ := hs.each_top hstack
  cases hoperation : w.operation with
  | none => simp [State.argument, hawaiter, hoperation]
  | some o =>
      obtain ⟨-, g, child, hhandle, hchild, hlive⟩ := hs.awaited.child a w o hawaiter hoperation
      have hcompleted := (hs.owned.finished o g child (hsignalled o hoperation) hhandle
        hchild).resolve_right hlive
      have hsound : s.Sound rest (.promise g) :=
        hs.sound_promise hstack ⟨child, hchild, hcompleted⟩ (by simp) (by simp) (by simp)
      simpa [State.argument, hawaiter, hoperation, hhandle] using hsound

omit [DecidableEq Id] in
/-- What a function of the chain reads is alive, and no call under it destroys it
or changes it. -/
theorem reads_sound (hs : Inv s) {fn : Fn Id} (hstack : s.stack = .pending fn :: rest) :
    ∀ object ∈ s.reads fn, s.Sound rest object := by
  have hinv := hs.each_top hstack
  cases fn with
  | taskStart t =>
      obtain ⟨halive, hidle⟩ := hinv
      have ht : s.Sound rest (.holder (.task t)) :=
        ⟨by simpa [State.alive] using halive, hs.taskStart_unbound hstack⟩
      intro object hreads
      rcases List.mem_cons.mp hreads with rfl | hreads
      · exact ht
      · obtain ⟨g, hhandle, rfl⟩ : ∃ g, s.heap.handle (.task t) = some g ∧ .promise g = object := by
          simpa using hreads
        exact hs.sound_promise_of_owner hstack hhandle (hidle g hhandle) ht
  | operationStart o =>
      obtain ⟨g, hhandle, hat⟩ := hinv
      have ho := hs.sound_operation hstack hhandle hat (by simp)
      simpa [State.reads, hhandle] using
        ⟨ho, hs.sound_promise_of_owner hstack hhandle (.inl hat) ho⟩
  | awaitSuspend a | completeStopped a =>
      obtain ⟨w, hawaiter, -⟩ := hinv
      simpa [State.reads] using sound_awaiter hawaiter
  | finalAwaitSuspend g | dispatchConnectedCompletion g =>
      simpa [State.reads] using hs.sound_promise hstack hinv.1 (by simp) (by simp) (by simp)
  | deliver o =>
      obtain ⟨-, g, hhandle, hat⟩ := hinv
      simpa [State.reads, hhandle] using ⟨hs.sound_operation hstack hhandle hat (by simp),
        hs.sound_promise hstack hat (by simp) (by simp) (by simp)⟩
  | deliverTo g o =>
      obtain ⟨-, hhandle, hat⟩ := hinv
      simpa [State.reads] using ⟨hs.sound_promise hstack hat (by simp) (by simp) (by simp),
        hs.sound_operation hstack hhandle hat (by simp)⟩
  | complete a =>
      obtain ⟨w, hawaiter, hat, -⟩ := hinv
      simpa [State.reads, hawaiter] using ⟨sound_awaiter hawaiter,
        hs.sound_promise hstack hat (by simp) (by simp) (by simp)⟩
  | unhandledStopped g =>
      obtain ⟨a, w, -, -, hat, -⟩ := hinv
      simpa [State.reads] using hs.sound_promise hstack hat (by simp) (by simp) (by simp)

end Sound

/-- A function of the chain never gets stuck. -/
theorem progress (hs : Inv s) {fn : Fn Id} (hstack : s.stack = .pending fn :: rest) :
    (s.step .run).isSome = true := by
  have hinv := hs.each_top hstack
  simp only [State.step, hstack]
  cases fn with
  | taskStart t =>
      obtain ⟨-, hidle⟩ := hinv
      cases hhandle : s.heap.handle (.task t) with
      | none => simp [State.run, hhandle]
      | some g =>
          rcases hidle g hhandle with ⟨frame, hframe, hstatus⟩ | ⟨frame, hframe, hstatus⟩
          · simp [State.run, hhandle, hframe, hstatus]
          · simp [State.run, hhandle, hframe, hstatus]
  | operationStart o =>
      obtain ⟨g, hhandle, frame, hframe, hstatus⟩ := hinv
      simp [State.run, frameAt_eq_some.mpr ⟨hhandle, hframe⟩, hstatus]
  | awaitSuspend a =>
      obtain ⟨w, hawaiter, -⟩ := hinv
      cases hoperation : w.operation <;> simp [State.run, hawaiter, hoperation]
  | finalAwaitSuspend g => simp [State.run]
  | dispatchConnectedCompletion g =>
      obtain ⟨⟨frame, hframe, -⟩, -⟩ := hinv
      cases hconnected : frame.connectedOperation <;> simp [State.run, hframe, hconnected]
  | deliver o =>
      obtain ⟨-, g, hhandle, -⟩ := hinv
      simp [State.run, hhandle]
  | deliverTo g o =>
      obtain ⟨-, -, frame, hframe, -⟩ := hinv
      cases hreceiver : s.heap.receiver o with
      | user => simp [State.run, hframe, hreceiver]
      | awaiter a => by_cases hstopped : frame.completion = .stopped <;>
          simp [State.run, hframe, hreceiver, hstopped]
  | complete a =>
      obtain ⟨w, hawaiter, ⟨frame, hframe, -⟩, -⟩ := hinv
      simp [State.run, hawaiter, hframe]
  | completeStopped a =>
      obtain ⟨w, hawaiter, -⟩ := hinv
      simp [State.run, hawaiter]
  | unhandledStopped g =>
      obtain ⟨a, w, -, -, ⟨frame, hframe, -⟩, -⟩ := hinv
      simp [State.run, hframe]

end Inv

/-! ## What was signalled stays signalled -/

/-- Nothing that was signalled or taken over is forgotten. -/
structure Heap.Grows (h h' : Heap Id) : Prop where
  signalled : ∀ o signal, h.signalled o = some signal → h'.signalled o = some signal
  frameOf : ∀ o f, h.frameOf o = some f → h'.frameOf o = some f

namespace Inv

variable {s s' idle : State Id} {rest : List (Activation Id)} {x : Holder Id}

omit [DecidableEq Id] in
theorem grows_of_eq {h h' : Heap Id} (hsignalled : h'.signalled = h.signalled)
    (hfrom : h'.frameOf = h.frameOf) : h.Grows h' :=
  ⟨by simp [hsignalled], by simp [hfrom]⟩

theorem destroy_grows {h : Heap Id} {after : After Id} (hheap : h.Grows s.heap)
    (hidle : h.Grows idle.heap) (hdestroy : s.destroy x after idle = some s') :
    h.Grows s'.heap := by
  unfold State.destroy at hdestroy
  split at hdestroy
  next =>
    cases hdestroy
    exact hidle
  next =>
    split at hdestroy
    next => cases hdestroy
    next =>
      simp only [Option.ite_none_right_eq_some, Option.some.injEq] at hdestroy
      obtain ⟨-, rfl⟩ := hdestroy
      exact ⟨hheap.signalled, hheap.frameOf⟩

theorem connect_grows (hs : Inv s) {t o f : Id} {frame : Frame Id} {receiver : Receiver Id}
    (hunborn : s.heap.life (.operation o) = .unborn) :
    s.heap.Grows (s.heap.connect t o f frame receiver) where
  signalled := fun _ _ hsignalled => hsignalled
  frameOf := by
    intro o' g hfrom
    have hother : o' ≠ o := by
      rintro rfl
      rw [(hs.owned.born o' hunborn).2] at hfrom
      cases hfrom
    simpa [Heap.connect, Heap.setFrame, Heap.setLife, Heap.exchange, hother] using hfrom

theorem runFn_grows (hs : Inv s) {fn : Fn Id} (hstack : s.stack = .pending fn :: rest)
    (hstep : s.run rest fn = some s') : s.heap.Grows s'.heap := by
  cases fn with
  | deliverTo f o =>
      obtain ⟨hunsignalled, -, frame, hframe, -⟩ := hs.each_top hstack
      have hgrows : s.heap.Grows (s.heap.signal o frame.completion) := by
        refine ⟨?_, fun _ _ hfrom => hfrom⟩
        intro o' signal hsignalled
        have hother : o' ≠ o := by
          rintro rfl
          rw [hunsignalled] at hsignalled
          cases hsignalled
        simpa [Heap.signal, hother] using hsignalled
      simp only [State.run, hframe] at hstep
      split at hstep
      next =>
        cases hstep
        exact hgrows
      next => split at hstep <;> cases hstep <;> exact hgrows
  | _ =>
      simp only [State.run] at hstep
      repeat' split at hstep
      all_goals cases hstep
      all_goals exact grows_of_eq rfl rfl

theorem grows (hs : Inv s) {action : Action Id} (hstep : s.step action = some s') :
    s.heap.Grows s'.heap := by
  cases action with
  | moveAssign t other =>
      simp only [State.step, Option.ite_none_right_eq_some] at hstep
      obtain ⟨-, hstep⟩ := hstep
      split at hstep
      next =>
        cases hstep
        exact grows_of_eq rfl rfl
      next =>
        refine destroy_grows ?_ ?_ hstep
        · exact grows_of_eq rfl rfl
        · exact grows_of_eq rfl rfl
  | destroyTask t | destroyOperation o =>
      simp only [State.step, Option.ite_none_right_eq_some] at hstep
      refine destroy_grows ?_ ?_ hstep.2
      · exact grows_of_eq rfl rfl
      · exact grows_of_eq rfl rfl
  | receiverMoved =>
      simp only [State.step] at hstep
      split at hstep
      next t o f frame rest hstack =>
        cases hstep
        obtain ⟨-, -, -, hunborn⟩ := hs.each_top hstack
        exact hs.connect_grows hunborn
      next => cases hstep
  | awaitTask a t o =>
      simp only [State.step] at hstep
      split at hstep
      next =>
        split at hstep
        next frame g child hframe hat =>
          simp only [Option.ite_none_right_eq_some, Option.some.injEq, available_iff] at hstep
          obtain ⟨⟨-, -, ⟨-, hunborn, -⟩, -⟩, rfl⟩ := hstep
          have hgrows : s.heap.Grows (s.heap.connect t o g child (.awaiter a)) :=
            hs.connect_grows hunborn
          exact ⟨hgrows.signalled, hgrows.frameOf⟩
        next => cases hstep
      next => cases hstep
  | destroyAwaiter a =>
      simp only [State.step] at hstep
      repeat' split at hstep
      all_goals first | cases hstep | skip
      all_goals first | exact grows_of_eq rfl rfl | refine destroy_grows ?_ ?_ hstep
      all_goals exact grows_of_eq rfl rfl
  | suspend =>
      simp only [State.step] at hstep
      split at hstep
      next =>
        obtain ⟨frame, -, rfl⟩ := Option.map_eq_some_iff.mp hstep
        exact grows_of_eq rfl rfl
      next => cases hstep
  | run =>
      simp only [State.step] at hstep
      split at hstep
      next fn rest hstack => exact hs.runFn_grows hstack hstep
      all_goals
        repeat' split at hstep
        all_goals cases hstep
        all_goals exact grows_of_eq rfl rfl
  | _ =>
      simp only [State.step] at hstep
      repeat' split at hstep
      all_goals cases hstep
      all_goals exact grows_of_eq rfl rfl

end Inv

/-! ## The contract -/

/-- One owner for each frame, one destruction, a connect that throws without a
trace, and a delivery that reads nothing once it has signalled. -/
structure FrameContract (s : State Id) : Prop where
  owner : ∀ f frame, s.heap.frames f = some frame → ∃! x, s.heap.handle x = some f
  held : ∀ x f, s.heap.handle x = some f →
    s.heap.life x = .alive ∧ ∃ frame, s.heap.frames f = some frame
  destroyed : ∀ f, s.heap.created f = true →
    s.heap.destroyed f = if (s.heap.frames f).isSome then 0 else 1
  released : (∀ x, s.heap.life x ≠ .alive) →
    ∀ f, s.heap.created f = true → s.heap.destroyed f = 1
  connecting : ∀ t o s', s.step (.connect t o) = some s' → ∃ f frame,
    s.heap.handle (.task t) = some f ∧ s.heap.frames f = some frame ∧
      s' = s.push (.connecting t o f frame)
  threw : ∀ t o f frame rest, s.stack = .connecting t o f frame :: rest →
    s.heap.handle (.task t) = some f ∧ s.heap.frames f = some frame ∧
      s.step .receiverThrew = some ⟨s.heap, rest⟩
  chain : ∀ fn rest, s.stack = .pending fn :: rest → (s.step .run).isSome = true ∧
    ∀ object ∈ s.reads fn ++ s.argument fn, s.Sound rest object
  silent : ∀ o f, s.heap.signalled o ≠ none → s.heap.frameOf o = some f →
    ∀ trace s', (machine Id).Run s trace s' → ∀ visit ∈ trace,
      ∀ object ∈ visit.1.touched, ¬ visit.1.heap.Delivers o f object
  unique : ∀ o signal trace s', s.heap.signalled o = some signal →
    (machine Id).Run s trace s' → s'.heap.signalled o = some signal

omit [DecidableEq Id] in
theorem Inv.touched_quiet {s : State Id} (hs : Inv s) {o f : Id}
    (hsignalled : s.heap.signalled o ≠ none) (hfrom : s.heap.frameOf o = some f) :
    ∀ object ∈ s.touched, ¬ s.heap.Delivers o f object := by
  unfold State.touched
  split
  next fn rest hstack => exact hs.quiet (hs.each_top hstack) hsignalled hfrom
  next => simp

/-- What was signalled stays so along a run. -/
theorem Inv.run_grows {s s' : State Id} (hs : Inv s) {trace : List (State Id × Action Id)}
    (hrun : (machine Id).Run s trace s') :
    (Inv s' ∧ s.heap.Grows s'.heap) ∧
      ∀ visit ∈ trace, Inv visit.1 ∧ s.heap.Grows visit.1.heap := by
  have hpres : ∀ t a u, (Inv t ∧ s.heap.Grows t.heap) → True →
      (machine Id).step t a = some u → Inv u ∧ s.heap.Grows u.heap := by
    rintro t a u ⟨ht, hgrows⟩ - hstep
    have hnext := ht.grows hstep
    exact ⟨ht.step hstep, fun o signal h => hnext.signalled o signal (hgrows.signalled o signal h),
      fun o f h => hnext.frameOf o f (hgrows.frameOf o f h)⟩
  exact Machine.Run.invariant_where hpres hrun (fun _ _ => trivial)
    ⟨hs, fun _ _ h => h, fun _ _ h => h⟩

/-- Every sequence of calls, nested or not, meets the contract. -/
theorem frame_contract {s : State Id} (hs : (machine Id).Reachable s) : FrameContract s := by
  have hinv := inv_of_reachable hs
  have howners := hinv.owned.owners
  constructor
  case owner =>
    intro f frame hframe
    obtain ⟨-, -, x, hhandle⟩ := howners.owned f frame hframe
    exact ⟨x, hhandle, fun y hy => howners.unique _ _ _ hy hhandle⟩
  case held => exact fun x f hhandle => ⟨hinv.owned.alive x f hhandle, howners.held x f hhandle⟩
  case destroyed =>
    intro f hcreated
    cases hframe : s.heap.frames f with
    | none => simpa using howners.gone f hcreated hframe
    | some frame => simpa using (howners.owned f frame hframe).2.1
  case released =>
    intro hdead f hcreated
    apply howners.gone f hcreated
    rw [Option.eq_none_iff_forall_ne_some]
    intro frame hframe
    obtain ⟨-, -, x, hhandle⟩ := howners.owned f frame hframe
    exact hdead x (hinv.owned.alive x f hhandle)
  case connecting =>
    intro t o s' hstep
    simp only [State.step, Option.ite_none_right_eq_some] at hstep
    obtain ⟨-, hstep⟩ := hstep
    split at hstep
    next => cases hstep
    next f frame hat =>
      simp only [Option.ite_none_right_eq_some, Option.some.injEq] at hstep
      obtain ⟨hhandle, hframe⟩ := Inv.frameAt_eq_some.mp hat
      exact ⟨f, frame, hhandle, hframe, hstep.2.symm⟩
  case threw =>
    intro t o f frame rest hstack
    obtain ⟨hhandle, hframe, -, -⟩ := hinv.each_top hstack
    refine ⟨hhandle, hframe, ?_⟩
    simp [State.step, hstack]
  case chain =>
    intro fn rest hstack
    refine ⟨hinv.progress hstack, ?_⟩
    intro object hmem
    rcases List.mem_append.mp hmem with hreads | hargument
    · exact hinv.reads_sound hstack object hreads
    · cases fn with
      | complete a => exact hinv.sound_argument hstack object hargument
      | _ => simp [State.argument] at hargument
  case silent =>
    intro o f hsignalled hfrom trace s' hrun visit hvisit
    obtain ⟨hthen, hgrows⟩ := (hinv.run_grows hrun).2 visit hvisit
    obtain ⟨signal, hsignal⟩ := Option.ne_none_iff_exists'.mp hsignalled
    apply hthen.touched_quiet
    · rw [hgrows.signalled o signal hsignal]
      simp
    · exact hgrows.frameOf o f hfrom
  case unique =>
    intro o signal trace s' hsignalled hrun
    exact (hinv.run_grows hrun).1.2.signalled o signal hsignalled

/-- An outer task awaits an inner one, whose sender completes stopped; the
receiver of the outer one destroys its operation from inside the signal. -/
def stoppedChain : List (Action ℕ) :=
  List.flatten
    [[.create 0 0, .create 1 1, .connect 0 0, .receiverThrew, .connect 0 0, .receiverMoved],
      [.startOperation 0, .run, .awaitTask 0 1 1, .run, .run, .awaitSender 1, .run],
      [.completeSender 1 true, .run, .run, .run, .run, .run, .run, .run, .run, .run, .run],
      [.destroyOperation 0, .destroyAwaiter 0, .destroyAwaiter 1, .run, .run]]

theorem frame_contract_stoppedChain :
    ∃ s : State ℕ, FrameContract s ∧ s.heap.signalled 0 = some .stopped ∧
      s.heap.destroyed 0 = 1 ∧ s.heap.destroyed 1 = 1 ∧ s.stack.length = 16 := by
  refine ⟨_, frame_contract (Machine.reachable_replay rfl stoppedChain (by decide)), ?_⟩
  decide

end Bexec.Task
