import Bexec.Foundation.Ownership
import Bexec.Task.Step

/-!
# The owner of a frame

A task or an operation, one at a time; the promise names the operation back.
-/

namespace Bexec.Task

open Foundation

variable {Id : Type}

/-- The part of the state that says who owns which frame. -/
structure Owned (h : Heap Id) : Prop where
  owners : Ownership h.created h.frames h.destroyed h.handle
  alive : ∀ x f, h.handle x = some f → h.life x = .alive
  registered : ∀ o f frame, h.frames f = some frame →
    (frame.connectedOperation = some o ↔ h.handle (.operation o) = some f)
  finished : ∀ o f frame, h.signalled o ≠ none → h.handle (.operation o) = some f →
    h.frames f = some frame → frame.status = .completed ∨ frame.status = .destroying
  born : ∀ o, h.life (.operation o) = .unborn → h.signalled o = none ∧ h.frameOf o = none
  took : ∀ o f, h.frameOf o = some f →
    h.created f = true ∧ (h.handle (.operation o) = some f ∨ h.frames f = none)
  held : ∀ o f, h.handle (.operation o) = some f → h.frameOf o = some f

namespace Owned

theorem initial : Owned (Heap.initial : Heap Id) where
  owners := Ownership.initial
  alive := by simp [Heap.initial]
  registered := by simp [Heap.initial]
  finished := by simp [Heap.initial]
  born := by simp [Heap.initial]
  took := by simp [Heap.initial]
  held := by simp [Heap.initial]

variable {h : Heap Id} {x : Holder Id} {t other o f a : Id} {frame frame' : Frame Id}

theorem handle_eq_none (ho : Owned h) (hlife : h.life x ≠ .alive) : h.handle x = none := by
  rw [Option.eq_none_iff_forall_ne_some]
  intro f hhandle
  exact hlife (ho.alive x f hhandle)

theorem frame_of_handle (ho : Owned h) (hhandle : h.handle x = some f) :
    ∃ frame, h.frames f = some frame :=
  ho.owners.held x f hhandle

/-- No handle refers to a frame that was not created. -/
theorem handle_ne_of_fresh (ho : Owned h) (hfresh : h.created f = false) : h.handle x ≠ some f := by
  intro hhandle
  obtain ⟨frame, hframe⟩ := ho.frame_of_handle hhandle
  rw [(ho.owners.fresh f hfresh).1] at hframe
  cases hframe

/-- Nothing here depends on the awaiters. -/
theorem withAwaiters (ho : Owned h) (awaiters : Id → Option (Awaiter Id)) :
    Owned { h with awaiters := awaiters } where
  owners := ho.owners
  alive := ho.alive
  registered := ho.registered
  finished := ho.finished
  born := ho.born
  took := ho.took
  held := ho.held

variable [DecidableEq Id]

theorem create (ho : Owned h) (hlife : h.life (.task t) = .unborn) (hfresh : h.created f = false) :
    Owned (h.create t f) := by
  have hnone := ho.handle_eq_none (x := .task t) (by simp [hlife])
  have hnot : ∀ x, h.handle x ≠ some f := fun x => ho.handle_ne_of_fresh hfresh
  obtain ⟨howners, halive, hregistered, hfinished, hborn, htook, hheld⟩ := ho
  constructor <;> simp only [Heap.create]
  · exact howners.create _ hfresh hnone
  · grind
  · grind
  · grind
  · grind
  · grind
  · grind

/-- A task that is empty takes the frame of another one. -/
theorem exchange (ho : Owned h) (hne : t ≠ other) (hnone : h.handle (.task t) = none)
    (hlife : h.life (.task t) = .alive) : Owned (h.exchange (.task t) (.task other)) := by
  obtain ⟨howners, halive, hregistered, hfinished, hborn, htook, hheld⟩ := ho
  constructor <;> simp only [Heap.exchange]
  · exact howners.transfer (by simpa using hne) hnone
  · grind
  · grind
  · grind
  · grind
  · grind
  · grind

/-- An object without a frame begins or ends its life. -/
theorem setLife (ho : Owned h) {life : Life} (hnone : h.handle x = none)
    (hborn : life ≠ .unborn) : Owned (h.setLife x life) := by
  constructor <;> simp only [Heap.setLife]
  · exact ho.owners
  · intro y f hhandle
    have hother : y ≠ x := by
      rintro rfl
      rw [hnone] at hhandle
      cases hhandle
    rw [Function.update_of_ne hother]
    exact ho.alive y f hhandle
  · exact ho.registered
  · exact ho.finished
  · intro o hunborn
    apply ho.born o
    by_cases heq : .operation o = x
    · subst heq
      exact absurd (by simpa using hunborn) hborn
    · simpa [heq] using hunborn
  · exact ho.took
  · exact ho.held

/-- A frame changes, and stays finished if its receiver was signalled. -/
theorem setFrame (ho : Owned h) (hframe : h.frames f = some frame)
    (hconnected : frame'.connectedOperation = frame.connectedOperation)
    (hfinished : ∀ o, h.signalled o ≠ none → h.handle (.operation o) = some f →
      frame'.status = .completed ∨ frame'.status = .destroying) :
    Owned (h.setFrame f frame') := by
  have hlive : ∀ g, Function.update h.frames f (some frame') g = none ↔ h.frames g = none := by
    intro g
    by_cases heq : g = f
    · subst heq
      simp [hframe]
    · simp [heq]
  constructor <;> simp only [Heap.setFrame]
  · exact ho.owners.modify frame' hframe
  · exact ho.alive
  · intro o g frame'' hframe''
    by_cases heq : g = f
    · subst heq
      simp only [Function.update_self, Option.some.injEq] at hframe''
      rw [← hframe'', hconnected]
      exact ho.registered o g frame hframe
    · rw [Function.update_of_ne heq] at hframe''
      exact ho.registered o g frame'' hframe''
  · intro o g frame'' hsignalled hhandle hframe''
    by_cases heq : g = f
    · subst heq
      simp only [Function.update_self, Option.some.injEq] at hframe''
      rw [← hframe'']
      exact hfinished o hsignalled hhandle
    · rw [Function.update_of_ne heq] at hframe''
      exact ho.finished o g frame'' hsignalled hhandle hframe''
  · exact ho.born
  · intro o g hfrom
    rw [hlive]
    exact ho.took o g hfrom
  · exact ho.held

/-- The frame passes from the task to the operation, which registers itself. -/
theorem connect (ho : Owned h) {receiver : Receiver Id} (hhandle : h.handle (.task t) = some f)
    (hframe : h.frames f = some frame) (hlife : h.life (.operation o) = .unborn) :
    Owned (h.connect t o f frame receiver) := by
  have hnone := ho.handle_eq_none (x := .operation o) (by simp [hlife])
  have hunborn := ho.born o hlife
  have howner : ∀ y, h.handle y = some f → y = .task t :=
    fun y hy => ho.owners.unique _ _ _ hy hhandle
  have hcreated := (ho.owners.owned f frame hframe).1
  obtain ⟨howners, halive, hregistered, hfinished, hborn, htook, hheld⟩ := ho
  constructor <;> simp only [Heap.connect, Heap.exchange, Heap.setLife, Heap.setFrame]
  · exact (howners.transfer (by simp) hnone).modify _ hframe
  · grind
  · grind
  · grind
  · grind
  · grind
  · grind

theorem signal (ho : Owned h) {signal : Signal} (hhandle : h.handle (.operation o) = some f)
    (hframe : h.frames f = some frame) (hcompleted : frame.status = .completed) :
    Owned (h.signal o signal) := by
  have hlife := ho.alive _ _ hhandle
  obtain ⟨howners, halive, hregistered, hfinished, hborn, htook, hheld⟩ := ho
  constructor <;> simp only [Heap.signal]
  · exact howners
  · exact halive
  · exact hregistered
  · grind
  · grind
  · exact htook
  · exact hheld

/-- The owner of a frame frees it. -/
theorem free (ho : Owned h) (hhandle : h.handle x = some f) : Owned (h.free x f) := by
  have howner : ∀ y, h.handle y = some f → y = x :=
    fun y hy => ho.owners.unique _ _ _ hy hhandle
  obtain ⟨howners, halive, hregistered, hfinished, hborn, htook, hheld⟩ := ho
  constructor <;> simp only [Heap.free]
  · exact howners.drop hhandle
  · grind
  · grind
  · grind
  · grind
  · grind
  · grind

end Owned

end Bexec.Task
