import Bexec.Task.Ownership

/-!
# Awaiters and the operations they own

An awaiter and the operation of the task that it awaits name each other until
the operation is destroyed, and the awaiting frame stays suspended until the
operation has signalled.
-/

namespace Bexec.Task

open Foundation

variable {Id : Type}

structure Awaited (h : Heap Id) : Prop where
  child : ∀ a w o, h.awaiters a = some w → w.operation = some o →
    h.receiver o = .awaiter a ∧ ∃ g frame, h.handle (.operation o) = some g ∧
      h.frames g = some frame ∧ frame.status ≠ .destroying
  parent : ∀ o a g frame, h.receiver o = .awaiter a → h.handle (.operation o) = some g →
    h.frames g = some frame → frame.status ≠ .destroying →
    ∃ w, h.awaiters a = some w ∧ w.operation = some o
  unsignalled : ∀ a w o frame, h.awaiters a = some w → w.operation = some o →
    h.signalled o = none → h.frames w.promise = some frame → frame.status = .awaiting a
  waiting : ∀ f a frame, h.frames f = some frame → frame.status = .awaiting a →
    ∃ w, h.awaiters a = some w ∧ w.promise = f
  inside : ∀ a w, h.awaiters a = some w →
    ∃ frame, h.frames w.promise = some frame ∧ a ∈ frame.awaiters

namespace Awaited

theorem initial : Awaited (Heap.initial : Heap Id) where
  child := by simp [Heap.initial]
  parent := by simp [Heap.initial]
  unsignalled := by simp [Heap.initial]
  waiting := by simp [Heap.initial]
  inside := by simp [Heap.initial]

variable [DecidableEq Id] {h : Heap Id} {x : Holder Id} {t other o f g a : Id}
  {frame frame' child : Frame Id}

theorem create (ha : Awaited h) (ho : Owned h) (hfresh : h.created f = false) :
    Awaited (h.create t f) := by
  have hnot : ∀ x, h.handle x ≠ some f := fun x => ho.handle_ne_of_fresh hfresh
  have hdead := (ho.owners.fresh f hfresh).1
  obtain ⟨hchild, hparent, hunsignalled, hwaiting, hinside⟩ := ha
  constructor <;> simp only [Heap.create]
  · grind
  · grind
  · grind
  · grind
  · grind

omit [DecidableEq Id] in
/-- Nothing here depends on which task has which frame. -/
theorem congr {handle : Holder Id → Option Id} {life : Holder Id → Life} (ha : Awaited h)
    (hhandle : ∀ o, handle (.operation o) = h.handle (.operation o)) :
    Awaited { h with handle := handle, life := life } := by
  obtain ⟨hchild, hparent, hunsignalled, hwaiting, hinside⟩ := ha
  constructor <;> simp only [hhandle] <;> assumption

theorem exchange (ha : Awaited h) : Awaited (h.exchange (.task t) (.task other)) :=
  ha.congr (by simp)

theorem setLife (ha : Awaited h) {life : Life} : Awaited (h.setLife x life) :=
  ha.congr (by simp)

/-- A frame changes, not in a way that its awaiters or its own receiver notice. -/
theorem setFrame (ha : Awaited h) (hframe : h.frames f = some frame)
    (hchild : frame'.status = .destroying → ∀ o a w, h.awaiters a = some w →
      w.operation = some o → h.handle (.operation o) ≠ some f)
    (hparent : frame.status = .destroying → frame'.status = .destroying)
    (hunsignalled : ∀ a w o, h.awaiters a = some w → w.promise = f → w.operation = some o →
      h.signalled o = none → frame'.status = .awaiting a)
    (hwaiting : ∀ a, frame'.status = .awaiting a → ∃ w, h.awaiters a = some w ∧ w.promise = f)
    (hinside : ∀ a w, h.awaiters a = some w → w.promise = f → a ∈ frame'.awaiters) :
    Awaited (h.setFrame f frame') := by
  constructor <;> simp only [Heap.setFrame]
  · intro a w o hawaiter hoperation
    obtain ⟨hreceiver, g, child, hhandle, hlive, hstatus⟩ := ha.child a w o hawaiter hoperation
    refine ⟨hreceiver, g, ?_⟩
    by_cases heq : g = f
    · subst heq
      exact ⟨frame', hhandle, by simp, fun hbusy => hchild hbusy o a w hawaiter hoperation hhandle⟩
    · exact ⟨child, hhandle, by simpa [heq] using hlive, hstatus⟩
  · intro o a g frame'' hreceiver hhandle hlive hstatus
    by_cases heq : g = f
    · subst heq
      simp only [Function.update_self, Option.some.injEq] at hlive
      subst hlive
      exact ha.parent o a g frame hreceiver hhandle hframe (fun hbusy => hstatus (hparent hbusy))
    · rw [Function.update_of_ne heq] at hlive
      exact ha.parent o a g frame'' hreceiver hhandle hlive hstatus
  · intro a w o frame'' hawaiter hoperation hnone hlive
    by_cases heq : w.promise = f
    · rw [heq, Function.update_self, Option.some.injEq] at hlive
      rw [← hlive]
      exact hunsignalled a w o hawaiter heq hoperation hnone
    · rw [Function.update_of_ne heq] at hlive
      exact ha.unsignalled a w o frame'' hawaiter hoperation hnone hlive
  · intro g a frame'' hlive hstatus
    by_cases heq : g = f
    · subst heq
      simp only [Function.update_self, Option.some.injEq] at hlive
      exact hwaiting a (hlive ▸ hstatus)
    · rw [Function.update_of_ne heq] at hlive
      exact ha.waiting g a frame'' hlive hstatus
  · intro a w hawaiter
    by_cases heq : w.promise = f
    · exact ⟨frame', by simp [heq], hinside a w hawaiter heq⟩
    · obtain ⟨frame'', hlive, hmem⟩ := ha.inside a w hawaiter
      exact ⟨frame'', by simpa [heq] using hlive, hmem⟩

/-- The operation reports to user code. -/
theorem connect (ha : Awaited h) (ho : Owned h) (hhandle : h.handle (.task t) = some f)
    (hframe : h.frames f = some frame) (hlife : h.life (.operation o) = .unborn) :
    Awaited (h.connect t o f frame .user) := by
  have hnone := ho.handle_eq_none (x := .operation o) (by simp [hlife])
  have howner : ∀ y, h.handle y = some f → y = .task t :=
    fun y hy => ho.owners.unique _ _ _ hy hhandle
  obtain ⟨hchild, hparent, hunsignalled, hwaiting, hinside⟩ := ha
  constructor <;> simp only [Heap.connect, Heap.exchange, Heap.setLife, Heap.setFrame]
  · grind
  · grind
  · grind
  · grind
  · grind

/-- A coroutine awaits a sender that is not a task. -/
theorem suspendOn (ha : Awaited h) (hframe : h.frames f = some frame)
    (hstatus : frame.status = .running) (hfresh : h.awaiters a = none) :
    Awaited (h.suspendOn a f frame none) := by
  obtain ⟨hchild, hparent, hunsignalled, hwaiting, hinside⟩ := ha
  constructor <;> simp only [Heap.suspendOn, Heap.setFrame]
  · grind
  · grind
  · grind
  · intro f' a' frame'' hlive hawaiting
    by_cases heq : f' = f
    · subst heq
      simp only [Function.update_self, Option.some.injEq] at hlive
      subst hlive
      cases hawaiting
      exact ⟨_, Function.update_self .., rfl⟩
    · grind
  · grind

/-- A coroutine awaits a task. -/
theorem awaitTask (ha : Awaited h) (ho : Owned h) (hhandle : h.handle (.task t) = some g)
    (hchild : h.frames g = some child) (hsuspended : child.status = .suspended)
    (hlife : h.life (.operation o) = .unborn) (hframe : h.frames f = some frame)
    (hstatus : frame.status = .running) (hfresh : h.awaiters a = none) :
    Awaited ((h.connect t o g child (.awaiter a)).suspendOn a f frame (some o)) := by
  have hnone := ho.handle_eq_none (x := .operation o) (by simp [hlife])
  have howner : ∀ y, h.handle y = some g → y = .task t :=
    fun y hy => ho.owners.unique _ _ _ hy hhandle
  have hne : g ≠ f := by
    rintro rfl
    rw [hchild, Option.some.injEq] at hframe
    rw [hframe, hstatus] at hsuspended
    cases hsuspended
  obtain ⟨hchild, hparent, hunsignalled, hwaiting, hinside⟩ := ha
  constructor <;>
    simp only [Heap.suspendOn, Heap.connect, Heap.exchange, Heap.setLife, Heap.setFrame]
  · intro a' w o' hawaiter hoperation
    by_cases heq : a' = a
    · subst heq
      obtain rfl : o' = o := by grind
      exact ⟨by simp, g, { child with connectedOperation := some o' }, by simp [hhandle],
        by simp [hne], by simp [hsuspended]⟩
    · have hother : o' ≠ o := by grind
      rw [Function.update_of_ne heq] at hawaiter
      obtain ⟨hreceiver, g', frame'', hhandle', hlive, hnot⟩ := hchild a' w o' hawaiter hoperation
      have hg : g' ≠ g := by grind
      refine ⟨by simp [hother, hreceiver], g', ?_⟩
      by_cases hf : g' = f
      · exact ⟨_, by simp [hother, hhandle'], by simp [hf]; rfl, by simp⟩
      · exact ⟨frame'', by simp [hother, hhandle'], by simp [hf, hg, hlive], hnot⟩
  · intro o' a' g' frame'' hreceiver hhandle' hlive hnot
    by_cases heq : o' = o
    · subst heq
      obtain rfl : a = a' := by simpa using hreceiver
      exact ⟨_, Function.update_self .., rfl⟩
    · grind
  · grind
  · intro f' a' frame'' hlive hawaiting
    by_cases heq : f' = f
    · subst heq
      simp only [Function.update_self, Option.some.injEq] at hlive
      subst hlive
      cases hawaiting
      exact ⟨_, Function.update_self .., rfl⟩
    · grind
  · grind

theorem signal (ha : Awaited h) {signal : Signal} : Awaited (h.signal o signal) := by
  obtain ⟨hchild, hparent, hunsignalled, hwaiting, hinside⟩ := ha
  constructor <;> simp only [Heap.signal]
  · exact hchild
  · exact hparent
  · grind
  · exact hwaiting
  · exact hinside

/-- An awaiter of another sender is destroyed. -/
theorem removeAwaiter (ha : Awaited h) {w : Awaiter Id} (hawaiter : h.awaiters a = some w)
    (hnone : w.operation = none) (hpromise : w.promise = f) (hframe : h.frames f = some frame)
    (hstatus : frame.status ≠ .awaiting a) : Awaited (h.removeAwaiter a f frame) := by
  obtain ⟨hchild, hparent, hunsignalled, hwaiting, hinside⟩ := ha
  constructor <;> simp only [Heap.removeAwaiter, Heap.setFrame]
  · grind
  · grind
  · grind
  · grind
  · grind

/-- An awaiter is destroyed, and with it the operation of the task. -/
theorem destroyChild (ha : Awaited h) (ho : Owned h) {w : Awaiter Id}
    (hawaiter : h.awaiters a = some w) (hoperation : w.operation = some o)
    (hpromise : w.promise = f) (hframe : h.frames f = some frame)
    (hstatus : frame.status ≠ .awaiting a) (hhandle : h.handle (.operation o) = some g)
    (hne : g ≠ f) (hchild : h.frames g = some child)
    (hidle : child.status = .suspended ∨ child.status = .completed) :
    Awaited ((h.removeAwaiter a f frame).beginDestroy g child) := by
  have howner : ∀ y, h.handle y = some g → y = .operation o :=
    fun y hy => ho.owners.unique _ _ _ hy hhandle
  obtain ⟨hchildren, hparent, hunsignalled, hwaiting, hinside⟩ := ha
  constructor <;> simp only [Heap.beginDestroy, Heap.removeAwaiter, Heap.setFrame]
  · intro a' w' o' hawaiter' hoperation'
    have hother : a' ≠ a := by grind
    rw [Function.update_of_ne hother] at hawaiter'
    obtain ⟨hreceiver, g', frame'', hhandle', hlive, hnot⟩ :=
      hchildren a' w' o' hawaiter' hoperation'
    have hg : g' ≠ g := by grind
    refine ⟨hreceiver, g', ?_⟩
    by_cases hf : g' = f
    · subst hf
      rw [hframe, Option.some.injEq] at hlive
      exact ⟨{ frame with awaiters := frame.awaiters.erase a }, hhandle', by simp [hg],
        hlive ▸ hnot⟩
    · exact ⟨frame'', hhandle', by simp [hf, hg, hlive], hnot⟩
  · grind
  · grind
  · grind
  · grind

/-- The frame of an object that user code destroys. -/
theorem beginDestroy (ha : Awaited h) (ho : Owned h) (hhandle : h.handle x = some f)
    (hframe : h.frames f = some frame)
    (hstatus : frame.status = .suspended ∨ frame.status = .completed)
    (huser : ∀ o, x = .operation o → h.receiver o = .user) :
    Awaited (h.beginDestroy f frame) := by
  apply ha.setFrame hframe
  · intro _ o a w hawaiter hoperation hoperation'
    have hx := ho.owners.unique _ _ _ hhandle hoperation'
    have hreceiver := (ha.child a w o hawaiter hoperation).1
    rw [huser o hx] at hreceiver
    cases hreceiver
  · simp
  · intro a w o hawaiter hpromise hoperation hnone
    have hawaiting := ha.unsignalled a w o frame hawaiter hoperation hnone (hpromise ▸ hframe)
    rcases hstatus with hstatus | hstatus <;> cases hstatus.symm.trans hawaiting
  · simp
  · intro a w hawaiter hpromise
    obtain ⟨frame'', hframe'', hmem⟩ := ha.inside a w hawaiter
    rw [hpromise, hframe, Option.some.injEq] at hframe''
    exact hframe'' ▸ hmem

/-- A frame without awaiters is freed. -/
theorem free (ha : Awaited h) (ho : Owned h) (hhandle : h.handle x = some f)
    (hframe : h.frames f = some frame) (hstatus : frame.status = .destroying)
    (hempty : frame.awaiters = []) : Awaited (h.free x f) := by
  have howner : ∀ y, h.handle y = some f → y = x :=
    fun y hy => ho.owners.unique _ _ _ hy hhandle
  obtain ⟨hchild, hparent, hunsignalled, hwaiting, hinside⟩ := ha
  constructor <;> simp only [Heap.free]
  · grind
  · grind
  · grind
  · grind
  · grind

end Awaited

end Bexec.Task
