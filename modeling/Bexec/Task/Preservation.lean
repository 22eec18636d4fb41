import Bexec.Task.Delivery

/-!
# Every step keeps the calls apart

One lemma for each action.
-/

namespace Bexec.Task

open Foundation

variable {Id : Type} [DecidableEq Id]

namespace Inv

variable {s s' : State Id} {rest : List (Activation Id)} {x : Holder Id}
  {f a o t other : Id} {frame : Frame Id}

omit [DecidableEq Id] in
theorem ne_of_unbound {object object' : Object Id} {objects : List (Object Id)}
    (hbound : object ∈ objects) (hunbound : object' ∉ objects) : object ≠ object' := by
  rintro rfl
  exact hunbound hbound

theorem usable_iff : s.usable x = true ↔
    s.userRuns = true ∧ s.heap.life x = .alive ∧ .holder x ∉ s.bound := by
  simp [State.usable]

theorem available_iff : s.available x = true ↔
    s.userRuns = true ∧ s.heap.life x = .unborn ∧ .holder x ∉ s.bound := by
  simp [State.available]

omit [DecidableEq Id] in
theorem handle_none (hs : Inv s) (hlife : s.heap.life x = .unborn) : s.heap.handle x = none :=
  hs.owned.handle_eq_none (by simp [hlife])

omit [DecidableEq Id] in
theorem frameAt_eq_some : s.heap.frameAt x = some (f, frame) ↔
    s.heap.handle x = some f ∧ s.heap.frames f = some frame := by
  unfold Heap.frameAt
  cases hhandle : s.heap.handle x with
  | none => simp
  | some g =>
      cases hframe : s.heap.frames g with
      | none => grind
      | some frame' => grind

omit [DecidableEq Id] in
/-- An owner that user code may use owns a frame that no call binds. -/
theorem owned_unbound (hs : Inv s) (hx : .holder x ∉ s.bound) (hhandle : s.heap.handle x = some f)
    (hframe : s.heap.frames f = some frame)
    (hidle : frame.status = .suspended ∨ frame.status = .completed) :
    .promise f ∉ s.bound :=
  hs.promise_unbound_of_owner hs.each hhandle hframe hidle hx

theorem create (hs : Inv s) (hstep : s.step (.create t f) = some s') : Inv s' := by
  simp only [State.step, Option.ite_none_right_eq_some, Option.some.injEq, available_iff] at hstep
  obtain ⟨⟨⟨huser, hlife, hunbound⟩, hfresh⟩, rfl⟩ := hstep
  have hdead := (hs.owned.owners.fresh f hfresh).1
  have hpromise : .promise f ∉ s.bound := by
    intro hbound
    have hat : ∃ status, s.heap.At f status := by
      rcases of_bound_promise hs.each hbound with hat | hat | ⟨hat, -⟩
      · exact ⟨_, hat⟩
      · exact ⟨_, hat⟩
      · exact ⟨_, hat⟩
    obtain ⟨status, frame, hframe, -⟩ := hat
    rw [hdead] at hframe
    cases hframe
  apply hs.modify huser (hs.owned.create hlife hfresh) (hs.awaited.create hs.owned hfresh)
  · intro object hbound
    exact Heap.same_create (ne_of_unbound hbound hunbound) (ne_of_unbound hbound hpromise)
  · intro y _ halive
    by_cases heq : y = .task t
    · simp [Heap.create, heq]
    · simpa [Heap.create, heq] using halive

/-- Two tasks that no call binds exchange a handle. -/
theorem exchange (hs : Inv s) (huser : s.userRuns = true) (hne : t ≠ other)
    (ht : .holder (.task t) ∉ s.bound) (hother : .holder (.task other) ∉ s.bound)
    (hnone : s.heap.handle (.task t) = none) (hlife : s.heap.life (.task t) = .alive) :
    Inv { s with heap := s.heap.exchange (.task t) (.task other) } := by
  apply hs.modify huser (hs.owned.exchange hne hnone hlife) hs.awaited.exchange
  · intro object hbound
    exact Heap.same_exchange (ne_of_unbound hbound ht) (ne_of_unbound hbound hother)
  · exact fun y _ halive => halive

theorem setLife (life : Life) (hs : Inv s) (huser : s.userRuns = true)
    (hx : .holder x ∉ s.bound)
    (hnone : s.heap.handle x = none) (hborn : life ≠ .unborn)
    (hrefs : life = .alive ∨ .holder x ∉ s.refs) :
    Inv { s with heap := s.heap.setLife x life } := by
  apply hs.modify huser (hs.owned.setLife hnone hborn) hs.awaited.setLife
  · exact fun object hbound => Heap.same_setLife (ne_of_unbound hbound hx)
  · intro y hreads halive
    by_cases heq : y = x
    · subst heq
      rcases hrefs with rfl | hrefs
      · simp [Heap.setLife]
      · exact absurd hreads hrefs
    · simpa [Heap.setLife, heq] using halive

theorem moveConstruct (hs : Inv s) (hstep : s.step (.moveConstruct t other) = some s') :
    Inv s' := by
  simp only [State.step, Option.ite_none_right_eq_some, Option.some.injEq, available_iff,
    usable_iff] at hstep
  obtain ⟨⟨⟨huser, hlife, ht⟩, -, halive, hother⟩, rfl⟩ := hstep
  have hne : t ≠ other := by
    rintro rfl
    rw [hlife] at halive
    cases halive
  -- the object is alive before its member is initialised, as far as anyone can tell
  have hborn := hs.setLife .alive huser ht (hs.handle_none hlife) (by simp) (.inl rfl)
  exact hborn.exchange huser hne ht hother (hs.handle_none hlife) (by simp [Heap.setLife])

/-- A destructor or an assignment begins to destroy a frame. -/
theorem destroy (hs : Inv s) {after : After Id} {idle : State Id} (huser : s.userRuns = true)
    (hx : .holder x ∉ s.bound)
    (hafter : ∀ other, after = .take other → s.heap.life (.task other) = .alive ∧
      .holder (.task other) ∉ s.bound ∧ ∃ t, x = .task t ∧ t ≠ other)
    (hdie : after = .die → .holder x ∉ s.refs)
    (hreceiver : ∀ o, x = .operation o → s.heap.receiver o = .user)
    (hidle : s.heap.handle x = none → Inv idle)
    (hdestroy : s.destroy x after idle = some s') : Inv s' := by
  unfold State.destroy at hdestroy
  split at hdestroy
  next hnone =>
    cases hdestroy
    exact hidle hnone
  next f hhandle =>
    split at hdestroy
    next => cases hdestroy
    next frame hframe =>
      simp only [Option.ite_none_right_eq_some, Option.some.injEq] at hdestroy
      obtain ⟨hstatus, rfl⟩ := hdestroy
      have hpromise := hs.owned_unbound hx hhandle hframe hstatus
      apply hs.push huser
      · exact hs.owned.setFrame hframe rfl (fun o _ _ => .inr rfl)
      · exact hs.awaited.beginDestroy hs.owned hhandle hframe hstatus hreceiver
      · exact fun object hbound => Heap.same_setFrame (ne_of_unbound hbound hpromise)
      · exact fun y halive => halive
      · refine ⟨hhandle, ⟨_, Function.update_self .., rfl⟩, ?_⟩
        intro other hother
        obtain ⟨halive, -, hne⟩ := hafter other hother
        exact ⟨halive, hne⟩
      · intro object huses
        cases after with
        | die =>
            simp only [Activation.uses, Activation.binds, Activation.refs, List.append_nil,
              List.mem_cons, List.not_mem_nil, or_false] at huses
            rcases huses with rfl | rfl
            · exact hx
            · exact hpromise
        | take other =>
            simp only [Activation.uses, Activation.binds, Activation.refs, List.mem_append,
              List.mem_cons, List.not_mem_nil, or_false] at huses
            rcases huses with (rfl | rfl) | rfl
            · exact hx
            · exact hpromise
            · exact (hafter other rfl).2.1
      · cases after with
        | die => simpa [Activation.kills] using hdie rfl
        | take other => simp [Activation.kills]

theorem moveAssign (hs : Inv s) (hstep : s.step (.moveAssign t other) = some s') : Inv s' := by
  simp only [State.step, Option.ite_none_right_eq_some, usable_iff] at hstep
  obtain ⟨⟨⟨huser, hlife, ht⟩, -, halive, hother⟩, hstep⟩ := hstep
  split at hstep
  next =>
    cases hstep
    exact hs
  next hne =>
    apply hs.destroy huser ht _ (by simp) (by simp) _ hstep
    · rintro _ ⟨⟩
      exact ⟨halive, hother, t, rfl, hne⟩
    · exact fun hnone => hs.exchange huser hne ht hother hnone hlife

theorem connect (hs : Inv s) (hstep : s.step (.connect t o) = some s') : Inv s' := by
  simp only [State.step, Option.ite_none_right_eq_some, usable_iff, available_iff] at hstep
  obtain ⟨⟨⟨huser, hlife, ht⟩, -, hunborn, ho⟩, hstep⟩ := hstep
  split at hstep
  next => cases hstep
  next f frame hat =>
    obtain ⟨hhandle, hframe⟩ := frameAt_eq_some.mp hat
    simp only [Option.ite_none_right_eq_some, Option.some.injEq] at hstep
    obtain ⟨hstatus, rfl⟩ := hstep
    have hpromise := hs.owned_unbound ht hhandle hframe (.inl hstatus)
    apply hs.push huser hs.owned hs.awaited
    · exact fun object _ => s.heap.same_refl object
    · exact fun y halive => halive
    · exact ⟨hhandle, hframe, hstatus, hunborn⟩
    · simpa [Activation.uses, Activation.binds, Activation.refs] using ⟨ht, ho, hpromise⟩
    · simp [Activation.kills]

theorem receiverMoved (hs : Inv s) (hstep : s.step .receiverMoved = some s') : Inv s' := by
  simp only [State.step] at hstep
  split at hstep
  next t o f frame rest hstack =>
    cases hstep
    obtain ⟨hhandle, hframe, hstatus, hunborn⟩ := hs.each_top hstack
    have hunbound : ∀ object ∈ [.holder (.task t), .holder (.operation o), .promise f],
        object ∉ rest.flatMap Activation.binds := by
      intro object hmem
      exact hs.top_unbound hstack (List.mem_append_left _ hmem)
    apply hs.replace [_] [] hstack (hs.owned.connect hhandle hframe hunborn)
      (hs.awaited.connect hs.owned hhandle hframe hunborn) (hs.calm_rest hstack)
    · intro object hbound
      apply Heap.same_connect
      · exact ne_of_unbound hbound (hunbound _ (by simp))
      · exact ne_of_unbound hbound (hunbound _ (by simp))
      · exact ne_of_unbound hbound (hunbound _ (by simp))
    · intro y _ halive
      by_cases heq : y = .operation o
      · simp [Heap.connect, Heap.setLife, Heap.setFrame, heq]
      · simpa [Heap.connect, Heap.setLife, Heap.setFrame, Heap.exchange, heq] using halive
    · simp
    · simp
    · simp
    · simp
  next => cases hstep

theorem receiverThrew (hs : Inv s) (hstep : s.step .receiverThrew = some s') : Inv s' := by
  simp only [State.step] at hstep
  split at hstep
  next hstack =>
    cases hstep
    exact hs.pop hstack
  next => cases hstep

theorem startTask (hs : Inv s) (hstep : s.step (.startTask t) = some s') : Inv s' := by
  simp only [State.step, Option.ite_none_right_eq_some, usable_iff] at hstep
  obtain ⟨⟨huser, hlife, ht⟩, hstep⟩ := hstep
  have hpush : (∀ f, s.heap.handle (.task t) = some f →
      s.heap.At f .suspended ∨ s.heap.At f .completed) →
      Inv (s.push (.pending (.taskStart t))) := by
    intro hidle
    apply hs.push huser hs.owned hs.awaited
    · exact fun object _ => s.heap.same_refl object
    · exact fun y halive => halive
    · exact ⟨hlife, hidle⟩
    · simpa [Activation.uses] using ht
    · simp [Activation.kills]
  split at hstep
  next hnone =>
    cases hstep
    apply hpush
    intro f hhandle
    obtain ⟨frame, hframe⟩ := hs.owned.frame_of_handle hhandle
    rw [frameAt_eq_some.mpr ⟨hhandle, hframe⟩] at hnone
    cases hnone
  next f frame hat =>
    obtain ⟨hhandle, hframe⟩ := frameAt_eq_some.mp hat
    simp only [Option.ite_none_right_eq_some, Option.some.injEq] at hstep
    obtain ⟨hstatus, rfl⟩ := hstep
    apply hpush
    intro g hhandle'
    rw [hhandle, Option.some.injEq] at hhandle'
    subst hhandle'
    exact hstatus.imp (fun h => ⟨frame, hframe, h⟩) (fun h => ⟨frame, hframe, h⟩)

theorem startOperation (hs : Inv s) (hstep : s.step (.startOperation o) = some s') : Inv s' := by
  simp only [State.step, Option.ite_none_right_eq_some, usable_iff] at hstep
  obtain ⟨⟨⟨huser, -, -⟩, -⟩, hstep⟩ := hstep
  split at hstep
  next => cases hstep
  next f frame hat =>
    obtain ⟨hhandle, hframe⟩ := frameAt_eq_some.mp hat
    simp only [Option.ite_none_right_eq_some, Option.some.injEq] at hstep
    obtain ⟨hstatus, rfl⟩ := hstep
    apply hs.push huser hs.owned hs.awaited
    · exact fun object _ => s.heap.same_refl object
    · exact fun y halive => halive
    · exact ⟨f, hhandle, frame, hframe, hstatus⟩
    · simp [Activation.uses, Activation.binds, Activation.refs]
    · simp [Activation.kills]

theorem destroyTask (hs : Inv s) (hstep : s.step (.destroyTask t) = some s') : Inv s' := by
  simp only [State.step, Option.ite_none_right_eq_some, usable_iff] at hstep
  obtain ⟨⟨⟨huser, -, ht⟩, hrefs⟩, hstep⟩ := hstep
  apply hs.destroy huser ht (by simp) (fun _ => hrefs) (by simp) _ hstep
  exact fun hnone => hs.setLife .dead huser ht hnone (by simp) (.inr hrefs)

omit [DecidableEq Id] in
/-- Only tasks are assigned to. -/
theorem operation_unread (stack : List (Activation Id)) :
    .holder (.operation o) ∉ stack.flatMap Activation.refs := by
  intro hreads
  obtain ⟨activation, -, hmem⟩ := List.mem_flatMap.mp hreads
  cases activation with
  | destroying x f after => cases after <;> simp [Activation.refs] at hmem
  | _ => simp [Activation.refs] at hmem

theorem destroyOperation (hs : Inv s) (hstep : s.step (.destroyOperation o) = some s') :
    Inv s' := by
  simp only [State.step, Option.ite_none_right_eq_some, usable_iff] at hstep
  obtain ⟨⟨⟨huser, -, ho⟩, hreceiver⟩, hstep⟩ := hstep
  have hrefs : .holder (.operation o) ∉ s.refs := operation_unread s.stack
  apply hs.destroy huser ho (by simp) (fun _ => hrefs) _ _ hstep
  · rintro _ ⟨⟩
    exact hreceiver
  · exact fun hnone => hs.setLife .dead huser ho hnone (by simp) (.inr hrefs)

omit [DecidableEq Id] in
/-- The promise of a running coroutine is bound by its own call only. -/
theorem body_unbound (hs : Inv s) (hstack : s.stack = .body f :: rest) :
    .promise f ∉ rest.flatMap Activation.binds :=
  hs.top_unbound hstack (by simp [Activation.uses, Activation.binds])

omit [DecidableEq Id] in
/-- The operation of a coroutine that runs or awaits has not signalled. -/
theorem not_finished (hs : Inv s) (hframe : s.heap.frames f = some frame)
    (hcompleted : frame.status ≠ .completed) (hdestroying : frame.status ≠ .destroying)
    (hhandle : s.heap.handle (.operation o) = some f) : s.heap.signalled o = none := by
  by_contra hsignalled
  rcases hs.owned.finished o f frame hsignalled hhandle hframe with hstatus | hstatus
  · exact hcompleted hstatus
  · exact hdestroying hstatus

omit [DecidableEq Id] in
/-- The operations of the awaiters in a frame have signalled, apart from the one
that the frame awaits. -/
theorem awaited_signalled (hs : Inv s) (hframe : s.heap.frames f = some frame)
    {w : Awaiter Id} (hawaiter : s.heap.awaiters a = some w) (hpromise : w.promise = f)
    (hoperation : w.operation = some o) (hstatus : frame.status ≠ .awaiting a) :
    s.heap.signalled o ≠ none := by
  intro hnone
  exact hstatus (hs.awaited.unsignalled a w o frame hawaiter hoperation hnone (hpromise ▸ hframe))

omit [DecidableEq Id] in
theorem inside (hs : Inv s) (hframe : s.heap.frames f = some frame) {w : Awaiter Id}
    (hawaiter : s.heap.awaiters a = some w) (hpromise : w.promise = f) : a ∈ frame.awaiters := by
  obtain ⟨frame', hframe', hmem⟩ := hs.awaited.inside a w hawaiter
  rw [hpromise, hframe, Option.some.injEq] at hframe'
  exact hframe' ▸ hmem

/-- A coroutine leaves its body, for good or to be resumed. -/
theorem leaveBody (frame' : Frame Id) (new : List (Activation Id)) (hs : Inv s)
    (hstack : s.stack = .body f :: rest) (hframe : s.heap.frames f = some frame)
    (hconnected : frame'.connectedOperation = frame.connectedOperation)
    (hawaiters : frame'.awaiters = frame.awaiters)
    (hstatus : frame'.status = .suspended ∨ frame'.status = .completed)
    (hnew : new = [] ∨ ∃ fn, new = [.pending fn] ∧
      fn.Inv (s.heap.setFrame f frame') ∧ (Activation.pending fn).uses = []) :
    Inv ⟨s.heap.setFrame f frame', new ++ rest⟩ := by
  have hrunning : frame.status = .running := status_eq (hs.each_top hstack) hframe
  apply hs.replace [.body f] new hstack
  · apply hs.owned.setFrame hframe hconnected
    intro o hsignalled hhandle
    exact absurd (hs.not_finished hframe (by simp [hrunning]) (by simp [hrunning]) hhandle)
      hsignalled
  · apply hs.awaited.setFrame hframe
    · intro hdestroying
      rcases hstatus with hstatus | hstatus <;> simp [hstatus] at hdestroying
    · simp [hrunning]
    · intro a w o hawaiter hpromise hoperation hnone
      exact absurd hnone
        (hs.awaited_signalled hframe hawaiter hpromise hoperation (by simp [hrunning]))
    · intro a hawaiting
      rcases hstatus with hstatus | hstatus <;> simp [hstatus] at hawaiting
    · intro a w hawaiter hpromise
      exact hawaiters ▸ hs.inside hframe hawaiter hpromise
  · exact hs.calm_rest hstack
  · exact fun object hbound => Heap.same_setFrame (ne_of_unbound hbound (hs.body_unbound hstack))
  · exact fun y _ halive => halive
  · rcases hnew with rfl | ⟨fn, rfl, hinv, -⟩
    · simp
    · intro activation hmem
      obtain rfl := List.mem_singleton.mp hmem
      exact hinv
  · rcases hnew with rfl | ⟨fn, rfl, -, -⟩ <;> simp
  · rcases hnew with rfl | ⟨fn, rfl, -, -⟩ <;> simp
  · rcases hnew with rfl | ⟨fn, rfl, -, huses⟩
    · simp
    · intro upper hmem
      obtain rfl := List.mem_singleton.mp hmem
      simp [huses, Activation.kills]

theorem suspend (hs : Inv s) (hstep : s.step .suspend = some s') : Inv s' := by
  simp only [State.step] at hstep
  split at hstep
  next f rest hstack =>
    obtain ⟨frame, hframe, rfl⟩ := Option.map_eq_some_iff.mp hstep
    exact hs.leaveBody { frame with status := .suspended } [] hstack hframe rfl rfl (.inl rfl)
      (.inl rfl)
  next => cases hstep

theorem finish {throws : Bool} (hs : Inv s) (hstep : s.step (.finish throws) = some s') :
    Inv s' := by
  simp only [State.step] at hstep
  split at hstep
  next f rest hstack =>
    split at hstep
    next => cases hstep
    next frame hframe =>
      simp only [Option.ite_none_right_eq_some, Option.some.injEq] at hstep
      obtain ⟨-, rfl⟩ := hstep
      have hrunning : frame.status = .running := status_eq (hs.each_top hstack) hframe
      apply hs.leaveBody
        { frame with status := .completed, value := !throws, error := throws }
        [.pending (.finalAwaitSuspend f)] hstack hframe rfl rfl (.inr rfl)
      refine .inr ⟨_, rfl, ⟨⟨_, Function.update_self .., rfl⟩, ?_⟩, by
        simp [Activation.uses, Activation.binds, Activation.refs]⟩
      intro o hhandle
      exact hs.not_finished hframe (by simp [hrunning]) (by simp [hrunning]) hhandle
  next => cases hstep

theorem awaitSender (hs : Inv s) (hstep : s.step (.awaitSender a) = some s') : Inv s' := by
  simp only [State.step] at hstep
  split at hstep
  next f rest hstack =>
    split at hstep
    next => cases hstep
    next frame hframe =>
      simp only [Option.ite_none_right_eq_some, Option.some.injEq] at hstep
      obtain ⟨hfresh, rfl⟩ := hstep
      have hrunning : frame.status = .running := status_eq (hs.each_top hstack) hframe
      apply hs.replace [.body f] [_] hstack
      · apply Owned.withAwaiters
        apply hs.owned.setFrame hframe
        · rfl
        · intro o hsignalled hhandle
          exact absurd (hs.not_finished hframe (by simp [hrunning]) (by simp [hrunning]) hhandle)
            hsignalled
      · exact hs.awaited.suspendOn hframe hrunning hfresh
      · exact hs.calm_rest hstack
      · exact fun object hbound =>
          Heap.same_suspendOn (ne_of_unbound hbound (hs.body_unbound hstack))
      · exact fun y _ halive => halive
      · simp only [List.mem_singleton, forall_eq]
        refine ⟨⟨f, none⟩, Function.update_self .., ⟨_, Function.update_self .., rfl⟩, ?_⟩
        simp
      · simp
      · simp
      · simp [Activation.uses, Activation.binds, Activation.refs, Activation.kills]
  next => cases hstep

theorem awaitTask (hs : Inv s) (hstep : s.step (.awaitTask a t o) = some s') : Inv s' := by
  simp only [State.step] at hstep
  split at hstep
  next f rest hstack =>
    split at hstep
    next frame g child hframe hat =>
      obtain ⟨hhandle, hchild⟩ := frameAt_eq_some.mp hat
      simp only [Option.ite_none_right_eq_some, Option.some.injEq, usable_iff,
        available_iff] at hstep
      obtain ⟨⟨hfresh, ⟨-, hlife, ht⟩, ⟨-, hunborn, ho⟩, hsuspended⟩, rfl⟩ := hstep
      have hrunning : frame.status = .running := status_eq (hs.each_top hstack) hframe
      have hne : f ≠ g := by
        rintro rfl
        rw [hframe, Option.some.injEq] at hchild
        rw [← hchild, hrunning] at hsuspended
        cases hsuspended
      have hg := hs.owned_unbound ht hhandle hchild (.inl hsuspended)
      have hrest : ∀ object ∈ rest.flatMap Activation.binds, object ∈ s.bound := by
        intro object hbound
        simp [State.bound, hstack, hbound]
      have hframe' : (s.heap.connect t o g child (.awaiter a)).frames f = some frame := by
        simp [Heap.connect, Heap.setFrame, Heap.setLife, Heap.exchange, hne, hframe]
      apply hs.replace [.body f] [_] hstack
      · apply Owned.withAwaiters
        apply (hs.owned.connect hhandle hchild hunborn).setFrame hframe'
        · rfl
        · intro o' hsignalled hhandle'
          have hother : o' ≠ o := by
            rintro rfl
            exact hsignalled (hs.owned.born o' hunborn).1
          have hhandle' : s.heap.handle (.operation o') = some f := by
            simpa [Heap.connect, Heap.setFrame, Heap.setLife, Heap.exchange, hother]
              using hhandle'
          exact absurd
            (hs.not_finished hframe (by simp [hrunning]) (by simp [hrunning]) hhandle') hsignalled
      · exact hs.awaited.awaitTask hs.owned hhandle hchild hsuspended hunborn hframe hrunning hfresh
      · exact hs.calm_rest hstack
      · intro object hbound
        have hfirst : s.heap.Same (s.heap.connect t o g child (.awaiter a)) object := by
          apply Heap.same_connect
          · exact ne_of_unbound (hrest object hbound) ht
          · exact ne_of_unbound (hrest object hbound) ho
          · exact ne_of_unbound (hrest object hbound) hg
        exact hfirst.trans (Heap.same_suspendOn (ne_of_unbound hbound (hs.body_unbound hstack)))
      · intro y _ halive
        by_cases heq : y = .operation o
        · simp [Heap.suspendOn, Heap.connect, Heap.setLife, Heap.setFrame, heq]
        · simpa [Heap.suspendOn, Heap.connect, Heap.setLife, Heap.setFrame, Heap.exchange, heq]
            using halive
      · simp only [List.mem_singleton, forall_eq]
        refine ⟨⟨f, some o⟩, Function.update_self .., ⟨_, Function.update_self .., rfl⟩, ?_⟩
        rintro o' ⟨⟩
        refine ⟨g, ?_, { child with connectedOperation := some o }, ?_, hsuspended⟩
        · simp [Heap.suspendOn, Heap.connect, Heap.setLife, Heap.setFrame, Heap.exchange, hhandle]
        · simp [Heap.suspendOn, Heap.connect, Heap.setLife, Heap.setFrame, Heap.exchange, hne.symm]
      · simp
      · simp
      · simp [Activation.uses, Activation.binds, Activation.refs, Activation.kills]
    next => cases hstep
  next => cases hstep

/-! ## The destructor of an awaiter -/

omit [DecidableEq Id] in
/-- The body of a coroutine, or the destruction of its frame, goes on with
another list of awaiters. -/
theorem host {h h' : Heap Id} {top : Activation Id}
    (htop : top = .body f ∨ ∃ x after, top = .destroying x f after) (hinv : top.Inv h)
    (hhandle : h'.handle = h.handle) (hlife : h'.life = h.life)
    (hframe : h.frames f = some frame)
    (hframe' : ∃ frame', h'.frames f = some frame' ∧ frame'.status = frame.status) :
    top.Inv h' := by
  obtain ⟨frame', hframe', hstatus⟩ := hframe'
  have hat : ∀ status, h.At f status → h'.At f status := by
    rintro status ⟨frame'', hframe'', hstatus''⟩
    rw [hframe, Option.some.injEq] at hframe''
    exact ⟨frame', hframe', by rw [hstatus, hframe'', hstatus'']⟩
  rcases htop with rfl | ⟨x, after, rfl⟩
  · exact hat _ hinv
  · obtain ⟨hx, hdestroying, hafter⟩ := hinv
    exact ⟨by rw [hhandle, hx], hat _ hdestroying, by rwa [hlife]⟩

section Host

variable {top : Activation Id} {w : Awaiter Id}

omit [DecidableEq Id] in
theorem host_status (hs : Inv s) (htop : top = .body f ∨ ∃ x after, top = .destroying x f after)
    (hstack : s.stack = top :: rest) (hframe : s.heap.frames f = some frame) :
    frame.status = .running ∨ frame.status = .destroying := by
  have hinv := hs.each_top hstack
  rcases htop with rfl | ⟨x, after, rfl⟩
  · exact .inl (status_eq hinv hframe)
  · exact .inr (status_eq hinv.2.1 hframe)

omit [DecidableEq Id] in
theorem host_unbound (hs : Inv s) (htop : top = .body f ∨ ∃ x after, top = .destroying x f after)
    (hstack : s.stack = top :: rest) : .promise f ∉ rest.flatMap Activation.binds := by
  apply hs.top_unbound hstack
  rcases htop with rfl | ⟨x, after, rfl⟩ <;> simp [Activation.uses, Activation.binds]

theorem owned_removeAwaiter (hs : Inv s) (hframe : s.heap.frames f = some frame) :
    Owned (s.heap.removeAwaiter a f frame) := by
  apply Owned.withAwaiters
  apply hs.owned.setFrame hframe
  · rfl
  · exact fun o hsignalled hhandle => hs.owned.finished o f frame hsignalled hhandle hframe

theorem destroySenderAwaiter (hs : Inv s)
    (htop : top = .body f ∨ ∃ x after, top = .destroying x f after)
    (hstack : s.stack = top :: rest) (hawaiter : s.heap.awaiters a = some w)
    (hframe : s.heap.frames f = some frame) (hpromise : w.promise = f)
    (hoperation : w.operation = none) :
    Inv { s with heap := s.heap.removeAwaiter a f frame } := by
  have hstatus : frame.status ≠ .awaiting a := by
    rcases hs.host_status htop hstack hframe with hstatus | hstatus <;> simp [hstatus]
  rw [hstack]
  apply hs.replace [top] [top] hstack (hs.owned_removeAwaiter hframe)
    (hs.awaited.removeAwaiter hawaiter hoperation hpromise hframe hstatus) (hs.calm_rest hstack)
  · exact fun object hbound =>
      Heap.same_removeAwaiter (ne_of_unbound hbound (hs.host_unbound htop hstack))
  · exact fun y _ halive => halive
  · intro activation hmem
    obtain rfl := List.mem_singleton.mp hmem
    exact host htop (hs.each_top hstack) rfl rfl hframe ⟨_, Function.update_self .., rfl⟩
  · simp
  · simp
  · intro upper hmem
    obtain rfl := List.mem_singleton.mp hmem
    exact ⟨fun object huses => hs.top_unbound hstack huses,
      fun object hkills => hs.top_unread hstack hkills⟩

omit [DecidableEq Id] in
/-- The operation of an awaited task has signalled by the time that its awaiter
is destroyed. -/
theorem child_completed (hs : Inv s) (hawaiter : s.heap.awaiters a = some w)
    (hframe : s.heap.frames f = some frame) (hpromise : w.promise = f)
    (hoperation : w.operation = some o) (hstatus : frame.status ≠ .awaiting a) :
    ∃ g child, s.heap.handle (.operation o) = some g ∧ s.heap.frames g = some child ∧
      child.status = .completed := by
  obtain ⟨-, g, child, hhandle, hchild, hlive⟩ := hs.awaited.child a w o hawaiter hoperation
  refine ⟨g, child, hhandle, hchild, ?_⟩
  have hsignalled := hs.awaited_signalled hframe hawaiter hpromise hoperation hstatus
  exact (hs.owned.finished o g child hsignalled hhandle hchild).resolve_right hlive

theorem destroyTaskAwaiter (hs : Inv s)
    (htop : top = .body f ∨ ∃ x after, top = .destroying x f after)
    (hstack : s.stack = top :: rest) (hawaiter : s.heap.awaiters a = some w)
    (hframe : s.heap.frames f = some frame) (hpromise : w.promise = f)
    (hoperation : w.operation = some o) {idle : State Id}
    (hdestroy : State.destroy { s with heap := s.heap.removeAwaiter a f frame } (.operation o) .die
      idle = some s') : Inv s' := by
  have hhost := hs.host_status htop hstack hframe
  have hstatus : frame.status ≠ .awaiting a := by
    rcases hhost with hstatus | hstatus <;> simp [hstatus]
  obtain ⟨g, child, hhandle, hchild, hcompleted⟩ :=
    hs.child_completed hawaiter hframe hpromise hoperation hstatus
  have hne : g ≠ f := by
    rintro rfl
    rw [hframe, Option.some.injEq] at hchild
    rw [hchild, hcompleted] at hhost
    simp at hhost
  have hchild' : (s.heap.removeAwaiter a f frame).frames g = some child := by
    simp [Heap.removeAwaiter, Heap.setFrame, hne, hchild]
  obtain rfl : s' = ⟨(s.heap.removeAwaiter a f frame).beginDestroy g child,
      .destroying (.operation o) g .die :: s.stack⟩ := by
    have hhandle' : (s.heap.removeAwaiter a f frame).handle (.operation o) = some g := hhandle
    simpa [State.destroy, hhandle', hchild', hcompleted, eq_comm] using hdestroy
  have hg := promise_unbound (hs.each_rest hstack) hchild (by simp [hcompleted])
    (by simp [hcompleted]) (by simp [hcompleted])
  have ho := hs.operation_unbound (hs.each_rest hstack) hhandle hchild (by simp [hcompleted])
  have htop' : .holder (.operation o) ∉ top.binds ∧ .promise g ∉ top.binds := by
    have hinv := hs.each_top hstack
    rcases htop with rfl | ⟨x, after, rfl⟩
    · simp [Activation.binds, hne]
    · have hx : x ≠ .operation o := by
        rintro rfl
        have hx := hinv.1
        rw [hhandle, Option.some.injEq] at hx
        exact hne hx
      simp [Activation.binds, hne, hx.symm]
  have huses' : ∀ object ∈ (Activation.destroying (.operation o) g .die).uses,
      object = .holder (.operation o) ∨ object = .promise g := by
    simp [Activation.uses, Activation.binds, Activation.refs]
  have hkills' : ∀ object ∈ (Activation.destroying (.operation o) g .die).kills,
      object = .holder (.operation o) := by
    simp [Activation.kills]
  rw [hstack]
  apply hs.replace [top] [.destroying (.operation o) g .die, top] hstack
  · exact (hs.owned_removeAwaiter hframe).setFrame hchild' rfl (fun _ _ _ => .inr rfl)
  · exact hs.awaited.destroyChild hs.owned hawaiter hoperation hpromise hframe hstatus hhandle hne
      hchild (.inr hcompleted)
  · exact hs.calm_rest hstack
  · intro object hbound
    have hfirst : s.heap.Same (s.heap.removeAwaiter a f frame) object :=
      Heap.same_removeAwaiter (ne_of_unbound hbound (hs.host_unbound htop hstack))
    exact hfirst.trans (Heap.same_setFrame (ne_of_unbound hbound hg))
  · exact fun y _ halive => halive
  · intro activation hmem
    rcases List.mem_cons.mp hmem with rfl | hmem
    · exact ⟨hhandle, ⟨_, Function.update_self .., rfl⟩, by simp⟩
    · obtain rfl := List.mem_singleton.mp hmem
      refine host htop (hs.each_top hstack) ?_ ?_ hframe
        ⟨{ frame with awaiters := frame.awaiters.erase a }, ?_, ?_⟩
      · rfl
      · rfl
      · simp [Heap.beginDestroy, Heap.removeAwaiter, Heap.setFrame, hne.symm]
      · rfl
  · refine List.pairwise_pair.mpr ⟨?_, ?_⟩
    · intro object huses
      rcases huses' object huses with rfl | rfl
      · exact htop'.1
      · exact htop'.2
    · intro object hkills
      rw [hkills' object hkills]
      simpa using operation_unread [top]
  · intro activation hmem
    obtain rfl := List.mem_singleton.mp hmem
    rcases htop with rfl | ⟨x, after, rfl⟩ <;> rfl
  · intro upper hmem
    rcases List.mem_cons.mp hmem with rfl | hmem
    · refine ⟨?_, ?_⟩
      · intro object huses
        rcases huses' object huses with rfl | rfl
        · exact ho
        · exact hg
      · intro object hkills
        rw [hkills' object hkills]
        exact operation_unread rest
    · obtain rfl := List.mem_singleton.mp hmem
      exact ⟨fun object huses => hs.top_unbound hstack huses,
        fun object hkills => hs.top_unread hstack hkills⟩

end Host

theorem destroyAwaiter (hs : Inv s) (hstep : s.step (.destroyAwaiter a) = some s') : Inv s' := by
  simp only [State.step] at hstep
  split at hstep
  all_goals first | cases hstep | skip
  all_goals
    next hawaiter hstack =>
      split at hstep
      next => cases hstep
      next frame hframe =>
        simp only [Option.ite_none_right_eq_some] at hstep
        obtain ⟨hpromise, hstep⟩ := hstep
        split at hstep
        next hoperation =>
          cases hstep
          exact hs.destroySenderAwaiter (by simp) hstack hawaiter hframe hpromise hoperation
        next o hoperation =>
          exact hs.destroyTaskAwaiter (by simp) hstack hawaiter hframe hpromise hoperation hstep

theorem completeSender {stopped : Bool} (hs : Inv s)
    (hstep : s.step (.completeSender a stopped) = some s') : Inv s' := by
  simp only [State.step] at hstep
  split at hstep
  next => cases hstep
  next w hawaiter =>
    split at hstep
    next => cases hstep
    next frame hframe =>
      simp only [Option.ite_none_right_eq_some, Option.some.injEq] at hstep
      obtain ⟨⟨huser, hoperation, hawaiting⟩, rfl⟩ := hstep
      have hinv : s.heap.Suspended a fun o => s.heap.signalled o ≠ none :=
        ⟨w, hawaiter, ⟨frame, hframe, hawaiting⟩, by simp [hoperation]⟩
      apply hs.push huser hs.owned hs.awaited
      · exact fun object _ => s.heap.same_refl object
      · exact fun y halive => halive
      · cases stopped <;> exact hinv
      · cases stopped <;> simp [Activation.uses, Activation.binds, Activation.refs]
      · simp [Activation.kills]

theorem ret (hs : Inv s) (hstep : s.step .ret = some s') : Inv s' := by
  simp only [State.step] at hstep
  split at hstep
  next hstack =>
    cases hstep
    exact hs.pop hstack
  next => cases hstep

/-! ## The functions of the chain -/

omit [DecidableEq Id] in
/-- A function calls another one and leaves the heap as it is. -/
theorem callOn (hs : Inv s) {fn : Fn Id} {activation : Activation Id}
    (hstack : s.stack = .pending fn :: rest) (hinv : activation.Inv s.heap)
    (huses : activation.uses = []) (hkills : activation.kills = []) :
    Inv ⟨s.heap, activation :: .called fn :: rest⟩ := by
  apply hs.call hstack hs.owned hs.awaited _ rfl hinv _ hkills
  · exact fun object _ => s.heap.same_refl object
  · simp [huses]

/-- A function resumes a coroutine that does not run. -/
theorem resume (hs : Inv s) {fn : Fn Id} (hstack : s.stack = .pending fn :: rest)
    (hframe : s.heap.frames f = some frame)
    (hstatus : frame.status = .suspended ∨ frame.status = .awaiting a)
    (hsignalled : ∀ o w, frame.status = .awaiting a → s.heap.awaiters a = some w →
      w.operation = some o → s.heap.signalled o ≠ none)
    (hunbound : .promise f ∉ rest.flatMap Activation.binds) :
    Inv (s.resume fn f frame rest) := by
  have hcompleted : frame.status ≠ .completed := by
    rcases hstatus with hstatus | hstatus <;> simp [hstatus]
  have hdestroying : frame.status ≠ .destroying := by
    rcases hstatus with hstatus | hstatus <;> simp [hstatus]
  apply hs.call hstack
  · apply hs.owned.setFrame hframe
    · rfl
    · intro o hnot hhandle
      exact absurd (hs.not_finished hframe hcompleted hdestroying hhandle) hnot
  · apply hs.awaited.setFrame hframe
    · simp
    · simp [hdestroying]
    · intro a' w o hawaiter hpromise hoperation hnone
      have hawaiting := hs.awaited.unsignalled a' w o frame hawaiter hoperation hnone
        (hpromise ▸ hframe)
      rcases hstatus with hstatus | hstatus
      · rw [hstatus] at hawaiting
        cases hawaiting
      · obtain rfl : a = a' := by simpa [hstatus] using hawaiting
        exact absurd hnone (hsignalled o w hstatus hawaiter hoperation)
    · simp
    · intro a' w hawaiter hpromise
      have hmem : a' ∈ frame.awaiters := hs.inside hframe hawaiter hpromise
      exact hmem
  · exact fun object hbound => Heap.same_setFrame (ne_of_unbound hbound hunbound)
  · rfl
  · exact ⟨_, Function.update_self .., rfl⟩
  · simpa [Activation.uses, Activation.binds, Activation.refs] using hunbound
  · rfl

omit [DecidableEq Id] in
/-- A task that an unfinished call uses is not bound under it. -/
theorem taskStart_unbound (hs : Inv s) (hstack : s.stack = .pending (.taskStart t) :: rest) :
    .holder (.task t) ∉ rest.flatMap Activation.binds :=
  hs.top_unbound hstack (by simp [Activation.uses])

theorem runTaskStart (hs : Inv s) (hstack : s.stack = .pending (.taskStart t) :: rest)
    (hstep : s.run rest (.taskStart t) = some s') : Inv s' := by
  simp only [State.run] at hstep
  split at hstep
  next =>
    cases hstep
    exact hs.pop hstack
  next f hhandle =>
    split at hstep
    next => cases hstep
    next frame hframe =>
      split at hstep
      next hstatus =>
        cases hstep
        apply hs.resume (a := t) hstack hframe (.inl hstatus)
        · simp [hstatus]
        · exact hs.promise_unbound_of_owner (hs.each_rest hstack) hhandle hframe (.inl hstatus)
            (hs.taskStart_unbound hstack)
      next =>
        cases hstep
        exact hs.pop hstack
      next => cases hstep

theorem runOperationStart (hs : Inv s) (hstack : s.stack = .pending (.operationStart o) :: rest)
    (hstep : s.run rest (.operationStart o) = some s') : Inv s' := by
  simp only [State.run] at hstep
  split at hstep
  next => cases hstep
  next f frame hat =>
    obtain ⟨hhandle, hframe⟩ := frameAt_eq_some.mp hat
    simp only [Option.ite_none_right_eq_some, Option.some.injEq] at hstep
    obtain ⟨hstatus, rfl⟩ := hstep
    apply hs.resume (a := o) hstack hframe (.inl hstatus)
    · simp [hstatus]
    · apply hs.promise_unbound_of_owner (hs.each_rest hstack) hhandle hframe (.inl hstatus)
      exact hs.operation_unbound (hs.each_rest hstack) hhandle hframe (by simp [hstatus])

theorem runAwaitSuspend (hs : Inv s) (hstack : s.stack = .pending (.awaitSuspend a) :: rest)
    (hstep : s.run rest (.awaitSuspend a) = some s') : Inv s' := by
  obtain ⟨w, hawaiter, -, hstartable⟩ := hs.each_top hstack
  simp only [State.run, hawaiter] at hstep
  split at hstep
  next =>
    cases hstep
    exact hs.callOn hstack trivial rfl rfl
  next o hoperation =>
    cases hstep
    exact hs.callOn hstack (hstartable o hoperation) rfl rfl

theorem runFinalAwaitSuspend (hs : Inv s)
    (hstack : s.stack = .pending (.finalAwaitSuspend f) :: rest)
    (hstep : s.run rest (.finalAwaitSuspend f) = some s') : Inv s' := by
  have hinv := hs.each_top hstack
  cases hstep
  exact hs.callOn hstack hinv rfl rfl

theorem runDispatch (hs : Inv s)
    (hstack : s.stack = .pending (.dispatchConnectedCompletion f) :: rest)
    (hstep : s.run rest (.dispatchConnectedCompletion f) = some s') : Inv s' := by
  obtain ⟨hat, hunsignalled⟩ := hs.each_top hstack
  simp only [State.run] at hstep
  split at hstep
  next => cases hstep
  next frame hframe =>
    split at hstep
    next =>
      cases hstep
      exact hs.pop hstack
    next o hconnected =>
      cases hstep
      have hhandle := (hs.owned.registered o f frame hframe).mp hconnected
      exact hs.callOn hstack ⟨hunsignalled o hhandle, f, hhandle, hat⟩ rfl rfl

theorem runDeliver (hs : Inv s) (hstack : s.stack = .pending (.deliver o) :: rest)
    (hstep : s.run rest (.deliver o) = some s') : Inv s' := by
  obtain ⟨hunsignalled, f, hhandle, hat⟩ := hs.each_top hstack
  simp only [State.run, hhandle] at hstep
  cases hstep
  exact hs.callOn hstack ⟨hunsignalled, hhandle, hat⟩ rfl rfl

theorem runDeliverTo (hs : Inv s) (hstack : s.stack = .pending (.deliverTo f o) :: rest)
    (hstep : s.run rest (.deliverTo f o) = some s') : Inv s' := by
  obtain ⟨hunsignalled, hhandle, frame, hframe, hcompleted⟩ := hs.each_top hstack
  simp only [State.run, hframe] at hstep
  have hcall : ∀ activation : Activation Id, activation.Inv (s.heap.signal o frame.completion) →
      activation.uses = [] → activation.kills = [] →
      Inv ⟨s.heap.signal o frame.completion, activation :: .called (.deliverTo f o) :: rest⟩ := by
    intro activation hinv huses hkills
    apply hs.call hstack (hs.owned.signal hhandle hframe hcompleted) hs.awaited.signal _ rfl hinv _
      hkills
    · exact fun object _ => s.heap.same_signal o frame.completion object
    · simp [huses]
  split at hstep
  next =>
    cases hstep
    exact hcall .user trivial rfl rfl
  next a hreceiver =>
    have hsuspended : (s.heap.signal o frame.completion).Suspended a fun o' =>
        (s.heap.signal o frame.completion).signalled o' ≠ none := by
      obtain ⟨w, hawaiter, hoperation⟩ := hs.awaited.parent o a f frame hreceiver hhandle hframe
        (by simp [hcompleted])
      obtain ⟨parent, hparent, -⟩ := hs.awaited.inside a w hawaiter
      refine ⟨w, hawaiter, ⟨parent, hparent, ?_⟩, ?_⟩
      · exact hs.awaited.unsignalled a w o parent hawaiter hoperation hunsignalled hparent
      · intro o' hoperation'
        rw [hoperation, Option.some.injEq] at hoperation'
        simp [Heap.signal, hoperation']
    split at hstep
    next =>
      cases hstep
      exact hcall (.pending (.completeStopped a)) hsuspended rfl rfl
    next =>
      cases hstep
      exact hcall (.pending (.complete a)) hsuspended rfl rfl

theorem runComplete (hs : Inv s) (hstack : s.stack = .pending (.complete a) :: rest)
    (hstep : s.run rest (.complete a) = some s') : Inv s' := by
  obtain ⟨w, hawaiter, ⟨frame, hframe, hstatus⟩, hsignalled⟩ := hs.each_top hstack
  simp only [State.run, hawaiter, hframe] at hstep
  cases hstep
  apply hs.resume (a := a) hstack hframe (.inr hstatus)
  · intro o w' _ hawaiter' hoperation
    rw [hawaiter, Option.some.injEq] at hawaiter'
    exact hsignalled o (hawaiter' ▸ hoperation)
  · exact promise_unbound (hs.each_rest hstack) hframe (by simp [hstatus]) (by simp [hstatus])
      (by simp [hstatus])

theorem runCompleteStopped (hs : Inv s) (hstack : s.stack = .pending (.completeStopped a) :: rest)
    (hstep : s.run rest (.completeStopped a) = some s') : Inv s' := by
  obtain ⟨w, hawaiter, hat, hsignalled⟩ := hs.each_top hstack
  simp only [State.run, hawaiter] at hstep
  cases hstep
  exact hs.callOn hstack ⟨a, w, hawaiter, rfl, hat, hsignalled⟩ rfl rfl

theorem runUnhandledStopped (hs : Inv s)
    (hstack : s.stack = .pending (.unhandledStopped f) :: rest)
    (hstep : s.run rest (.unhandledStopped f) = some s') : Inv s' := by
  obtain ⟨a, w, hawaiter, hpromise, ⟨frame, hframe, hstatus⟩, hsignalled⟩ := hs.each_top hstack
  simp only [State.run, hframe] at hstep
  cases hstep
  have hunbound := promise_unbound (hs.each_rest hstack) hframe (by simp [hstatus])
    (by simp [hstatus]) (by simp [hstatus])
  apply hs.call hstack
  · apply hs.owned.setFrame hframe
    · rfl
    · exact fun _ _ _ => .inl rfl
  · apply hs.awaited.setFrame hframe
    · simp
    · simp [hstatus]
    · intro a' w' o hawaiter' hpromise' hoperation hnone
      have hawaiting := hs.awaited.unsignalled a' w' o frame hawaiter' hoperation hnone
        (hpromise' ▸ hframe)
      obtain rfl : a = a' := by simpa [hstatus] using hawaiting
      rw [hawaiter, Option.some.injEq] at hawaiter'
      exact absurd hnone (hsignalled o (hawaiter' ▸ hoperation))
    · simp
    · intro a' w' hawaiter' hpromise'
      have hmem : a' ∈ frame.awaiters := hs.inside hframe hawaiter' hpromise'
      exact hmem
  · exact fun object hbound => Heap.same_setFrame (ne_of_unbound hbound hunbound)
  · rfl
  · refine ⟨⟨_, Function.update_self .., rfl⟩, ?_⟩
    intro o hhandle
    exact hs.not_finished hframe (by simp [hstatus]) (by simp [hstatus]) hhandle
  · simp [Activation.uses, Activation.binds, Activation.refs]
  · rfl

theorem runFn (hs : Inv s) {fn : Fn Id} (hstack : s.stack = .pending fn :: rest)
    (hstep : s.run rest fn = some s') : Inv s' := by
  cases fn with
  | taskStart t => exact hs.runTaskStart hstack hstep
  | operationStart o => exact hs.runOperationStart hstack hstep
  | awaitSuspend a => exact hs.runAwaitSuspend hstack hstep
  | finalAwaitSuspend f => exact hs.runFinalAwaitSuspend hstack hstep
  | dispatchConnectedCompletion f => exact hs.runDispatch hstack hstep
  | deliver o => exact hs.runDeliver hstack hstep
  | deliverTo f o => exact hs.runDeliverTo hstack hstep
  | complete a => exact hs.runComplete hstack hstep
  | completeStopped a => exact hs.runCompleteStopped hstack hstep
  | unhandledStopped f => exact hs.runUnhandledStopped hstack hstep

/-- The destructors in a frame have run, and the frame goes. -/
theorem free (hs : Inv s) {after : After Id} (hstack : s.stack = .destroying x f after :: rest)
    (hframe : s.heap.frames f = some frame) (hempty : frame.awaiters = []) :
    (after = .die → Inv ⟨(s.heap.free x f).setLife x .dead, rest⟩) ∧
      ∀ other, after = .take other → Inv ⟨(s.heap.free x f).exchange x (.task other), rest⟩ := by
  obtain ⟨hhandle, hat, hafter⟩ := hs.each_top hstack
  have hstatus := status_eq hat hframe
  have howned := hs.owned.free hhandle
  have hawaited := hs.awaited.free hs.owned hhandle hframe hstatus hempty
  have hx : .holder x ∉ rest.flatMap Activation.binds :=
    hs.top_unbound hstack (by simp [Activation.uses, Activation.binds])
  have hf : .promise f ∉ rest.flatMap Activation.binds :=
    hs.top_unbound hstack (by simp [Activation.uses, Activation.binds])
  have hsame : ∀ object ∈ rest.flatMap Activation.binds, s.heap.Same (s.heap.free x f) object :=
    fun object hbound =>
      Heap.same_free (ne_of_unbound hbound hx) (ne_of_unbound hbound hf)
  have hnone : (s.heap.free x f).handle x = none := Function.update_self ..
  refine ⟨?_, ?_⟩
  · rintro rfl
    apply hs.replace [_] [] hstack (howned.setLife hnone (by simp)) hawaited.setLife
      (hs.calm_rest hstack)
    · exact fun object hbound =>
        (hsame object hbound).trans (Heap.same_setLife (ne_of_unbound hbound hx))
    · intro y hreads halive
      have hne : y ≠ x := by
        rintro rfl
        exact hs.top_unread hstack (by simp [Activation.kills]) hreads
      simpa [Heap.setLife, Heap.free, hne] using halive
    · simp
    · simp
    · simp
    · simp
  · intro other hother
    subst hother
    obtain ⟨-, t, rfl, hne⟩ := hafter other rfl
    have hunbound : .holder (.task other) ∉ rest.flatMap Activation.binds :=
      hs.top_unbound hstack (by simp [Activation.uses, Activation.refs])
    apply hs.replace [_] [] hstack (howned.exchange hne hnone (hs.owned.alive _ _ hhandle))
      hawaited.exchange (hs.calm_rest hstack)
    · exact fun object hbound => (hsame object hbound).trans
        (Heap.same_exchange (ne_of_unbound hbound hx) (ne_of_unbound hbound hunbound))
    · exact fun y _ halive => halive
    · simp
    · simp
    · simp
    · simp

theorem run (hs : Inv s) (hstep : s.step .run = some s') : Inv s' := by
  simp only [State.step] at hstep
  split at hstep
  next fn rest hstack => exact hs.runFn hstack hstep
  next fn rest hstack =>
    cases hstep
    exact hs.pop hstack
  next x f after rest hstack =>
    split at hstep
    next => cases hstep
    next frame hframe =>
      simp only [Option.ite_none_right_eq_some] at hstep
      obtain ⟨hempty, hstep⟩ := hstep
      obtain ⟨hdie, htake⟩ := hs.free hstack hframe hempty
      split at hstep
      next =>
        cases hstep
        exact hdie rfl
      next other =>
        cases hstep
        exact htake other rfl
  next => cases hstep

theorem step (hs : Inv s) {action : Action Id} (hstep : s.step action = some s') : Inv s' := by
  cases action with
  | create t f => exact hs.create hstep
  | moveConstruct t other => exact hs.moveConstruct hstep
  | moveAssign t other => exact hs.moveAssign hstep
  | connect t o => exact hs.connect hstep
  | receiverMoved => exact hs.receiverMoved hstep
  | receiverThrew => exact hs.receiverThrew hstep
  | startTask t => exact hs.startTask hstep
  | startOperation o => exact hs.startOperation hstep
  | destroyTask t => exact hs.destroyTask hstep
  | destroyOperation o => exact hs.destroyOperation hstep
  | awaitSender a => exact hs.awaitSender hstep
  | awaitTask a t o => exact hs.awaitTask hstep
  | suspend => exact hs.suspend hstep
  | finish throws => exact hs.finish hstep
  | destroyAwaiter a => exact hs.destroyAwaiter hstep
  | completeSender a stopped => exact hs.completeSender hstep
  | ret => exact hs.ret hstep
  | run => exact hs.run hstep

end Inv

/-- Every sequence of calls keeps the invariant. -/
theorem inv_of_reachable {s : State Id} (hs : (machine Id).Reachable s) : Inv s := by
  induction hs with
  | initial hinit =>
      cases hinit
      exact .initial
  | step _ hstep ih => exact ih.step hstep

end Bexec.Task
