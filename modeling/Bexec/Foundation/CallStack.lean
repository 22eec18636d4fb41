import Mathlib

/-!
# Call stacks

A stack lists its frames innermost first. A frame is identified by its depth,
the number of frames beneath it, which no call or return above it changes.
-/

namespace Bexec.Foundation

/-- A frame of a thread, by its depth in that thread's stack. -/
abbrev FrameId (Thread : Type*) := Thread × Nat

namespace CallStack

variable {Frame : Type*}

/-- The frame at a depth. -/
def frameAt : List Frame → Nat → Option Frame
  | [], _ => none
  | frame :: rest, depth => if depth = rest.length then some frame else frameAt rest depth

/-- Change the frame at a depth in place. -/
def modifyAt (change : Frame → Frame) : List Frame → Nat → List Frame
  | [], _ => []
  | frame :: rest, depth =>
      if depth = rest.length then change frame :: rest
      else frame :: modifyAt change rest depth

theorem frameAt_eq_ite (frame : Frame) (rest : List Frame) (depth : Nat) :
    frameAt (frame :: rest) depth =
      if depth = rest.length then some frame else frameAt rest depth := rfl

theorem modifyAt_eq_ite (change : Frame → Frame) (frame : Frame) (rest : List Frame) (depth : Nat) :
    modifyAt change (frame :: rest) depth =
      if depth = rest.length then change frame :: rest
      else frame :: modifyAt change rest depth := rfl

@[simp] theorem frameAt_top (frame : Frame) (rest : List Frame) :
    frameAt (frame :: rest) rest.length = some frame := by
  simp [frameAt_eq_ite]

theorem frameAt_lt {stack : List Frame} {depth : Nat} {frame : Frame}
    (hframe : frameAt stack depth = some frame) : depth < stack.length := by
  induction stack with
  | nil => cases hframe
  | cons top rest ih =>
      rw [frameAt_eq_ite] at hframe
      split at hframe
      · simp only [List.length_cons]
        omega
      · exact Nat.lt_succ_of_lt (ih hframe)

theorem frameAt_mem {stack : List Frame} {depth : Nat} {frame : Frame}
    (hframe : frameAt stack depth = some frame) : frame ∈ stack := by
  induction stack with
  | nil => cases hframe
  | cons top rest ih =>
      rw [frameAt_eq_ite] at hframe
      split at hframe
      · cases hframe
        exact List.mem_cons_self
      · exact List.mem_cons_of_mem _ (ih hframe)

/-- A frame beneath the top is the frame of the same depth in the tail. -/
theorem frameAt_cons_of_lt {top : Frame} {rest : List Frame} {depth : Nat}
    (hlt : depth < rest.length) : frameAt (top :: rest) depth = frameAt rest depth := by
  simp [frameAt_eq_ite, Nat.ne_of_lt hlt]

theorem frameAt_cons {top : Frame} {rest : List Frame} {depth : Nat} {frame : Frame} :
    frameAt (top :: rest) depth = some frame ↔
      depth = rest.length ∧ top = frame ∨ frameAt rest depth = some frame := by
  by_cases heq : depth = rest.length
  · subst heq
    have hnone : frameAt rest rest.length ≠ some frame :=
      fun hframe => Nat.lt_irrefl _ (frameAt_lt hframe)
    simp [frameAt_eq_ite, hnone]
  · simp [frameAt_eq_ite, heq]

theorem exists_frameAt_of_mem {stack : List Frame} {frame : Frame} (hmem : frame ∈ stack) :
    ∃ depth, frameAt stack depth = some frame := by
  induction stack with
  | nil => simp at hmem
  | cons top rest ih =>
      rcases List.mem_cons.mp hmem with rfl | hmem
      · exact ⟨rest.length, frameAt_top _ _⟩
      · obtain ⟨depth, hdepth⟩ := ih hmem
        exact ⟨depth, frameAt_cons.mpr (Or.inr hdepth)⟩

@[simp] theorem length_modifyAt (change : Frame → Frame) (stack : List Frame) (depth : Nat) :
    (modifyAt change stack depth).length = stack.length := by
  induction stack with
  | nil => rfl
  | cons top rest ih =>
      rw [modifyAt_eq_ite]
      split <;> simp [ih]

theorem frameAt_modifyAt (change : Frame → Frame) (stack : List Frame) (depth other : Nat) :
    frameAt (modifyAt change stack depth) other =
      if other = depth then (frameAt stack other).map change else frameAt stack other := by
  induction stack with
  | nil => exact (ite_self none).symm
  | cons top rest ih =>
      rw [modifyAt_eq_ite]
      split
      next heq =>
        subst heq
        by_cases hother : other = rest.length <;> simp [frameAt_eq_ite, hother]
      next hne =>
        simp only [frameAt_eq_ite, length_modifyAt, ih]
        by_cases hother : other = rest.length
        · subst hother
          simp [Ne.symm hne]
        · simp [hother]

theorem mem_modifyAt {change : Frame → Frame} {stack : List Frame} {depth : Nat} {frame : Frame}
    (hmem : frame ∈ modifyAt change stack depth) :
    frame ∈ stack ∨ ∃ old ∈ stack, frame = change old := by
  induction stack with
  | nil => cases hmem
  | cons top rest ih =>
      rw [modifyAt_eq_ite] at hmem
      split at hmem
      · rcases List.mem_cons.mp hmem with rfl | hmem
        · exact Or.inr ⟨top, List.mem_cons_self, rfl⟩
        · exact Or.inl (List.mem_cons_of_mem _ hmem)
      · rcases List.mem_cons.mp hmem with rfl | hmem
        · exact Or.inl List.mem_cons_self
        · rcases ih hmem with hmem | ⟨old, hold, rfl⟩
          · exact Or.inl (List.mem_cons_of_mem _ hmem)
          · exact Or.inr ⟨old, List.mem_cons_of_mem _ hold, rfl⟩

theorem frameAt_append_of_lt {rest : List Frame} {depth : Nat} (new : List Frame)
    (hlt : depth < rest.length) : frameAt (new ++ rest) depth = frameAt rest depth := by
  induction new with
  | nil => rfl
  | cons top new ih =>
      have hbelow : depth < (new ++ rest).length := by
        rw [List.length_append]
        omega
      rw [List.cons_append, frameAt_cons_of_lt hbelow, ih]

/-- A frame beneath those that a step replaces stays where it is. -/
theorem frameAt_kept {Thread : Type*} [DecidableEq Thread] {stack : Thread → List Frame}
    {t : Thread} {id : FrameId Thread} {old rest : List Frame} {frame : Frame} (new : List Frame)
    (hstack : stack t = old ++ rest) (hframe : frameAt (stack id.1) id.2 = some frame) :
    (id.1 = t ∧ rest.length ≤ id.2) ∨
      frameAt (Function.update stack t (new ++ rest) id.1) id.2 = some frame := by
  by_cases ht : id.1 = t
  · by_cases hdepth : rest.length ≤ id.2
    · exact .inl ⟨ht, hdepth⟩
    · have hlt : id.2 < rest.length := by omega
      refine .inr ?_
      rw [ht] at hframe ⊢
      rw [Function.update_self, frameAt_append_of_lt new hlt]
      rwa [hstack, frameAt_append_of_lt old hlt] at hframe
  · refine .inr ?_
    rwa [Function.update_of_ne ht]

/-- The only frame at or above the depth of the top is the top. -/
theorem frameAt_top_eq {rest : List Frame} {top frame : Frame} {depth : Nat}
    (hframe : frameAt (top :: rest) depth = some frame) (hdepth : rest.length ≤ depth) :
    depth = rest.length ∧ frame = top := by
  have hlt := frameAt_lt hframe
  simp only [List.length_cons] at hlt
  obtain rfl : depth = rest.length := by omega
  rw [frameAt_top] at hframe
  exact ⟨rfl, (Option.some.inj hframe).symm⟩

end CallStack

end Bexec.Foundation
