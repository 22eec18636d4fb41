import Bexec.Foundation.Census

/-!
# What stands on what in a call stack

A rule says which frame may stand on which. A stack keeps to it when every frame
of it does, so that one frame tells something about the frames around it.
-/

namespace Bexec.Foundation.CallStack

variable {Frame : Type*}

/-- Every frame may stand on the frame beneath it. -/
def Nested (rule : Frame → Option Frame → Prop) : List Frame → Prop
  | [] => True
  | frame :: rest => rule frame rest.head? ∧ Nested rule rest

namespace Nested

variable {rule rule' : Frame → Option Frame → Prop} {stack rest : List Frame} {frame : Frame}

@[simp] theorem nil : Nested rule [] := trivial

@[simp] theorem cons_iff :
    Nested rule (frame :: rest) ↔ rule frame rest.head? ∧ Nested rule rest := Iff.rfl

theorem beneath {old : List Frame} (h : Nested rule (old ++ rest)) : Nested rule rest := by
  induction old with
  | nil => exact h
  | cons top old ih => exact ih h.2

/-- A rule that allows what stands on the frames of the stack. -/
theorem mono (h : Nested rule stack) (hbottom : ∀ frame, rule frame none → rule' frame none)
    (hrule : ∀ upper, ∀ lower ∈ stack.tail, rule upper (some lower) → rule' upper (some lower)) :
    Nested rule' stack := by
  induction stack with
  | nil => trivial
  | cons frame rest ih =>
      refine ⟨?_, ih h.2 fun upper lower hlower => ?_⟩
      · cases rest with
        | nil => exact hbottom _ h.1
        | cons lower below => exact hrule _ _ List.mem_cons_self h.1
      · exact hrule upper lower (List.mem_of_mem_tail hlower)

/-- Something may stand on a frame that is not on top. -/
theorem above (h : Nested rule stack) (hframe : frame ∈ stack.tail) :
    ∃ upper ∈ stack, rule upper (some frame) := by
  induction stack with
  | nil => cases hframe
  | cons top rest ih =>
      cases rest with
      | nil => cases hframe
      | cons next below =>
          rcases List.mem_cons.mp hframe with rfl | hframe
          · exact ⟨top, List.mem_cons_self, h.1⟩
          · obtain ⟨upper, hupper, hrule⟩ := ih h.2 hframe
            exact ⟨upper, List.mem_cons_of_mem _ hupper, hrule⟩

/-- A frame that may not be the last one stands on another. -/
theorem below (h : Nested rule stack) (hframe : frame ∈ stack) (hlast : ¬ rule frame none) :
    ∃ lower ∈ stack, rule frame (some lower) := by
  induction stack with
  | nil => cases hframe
  | cons top rest ih =>
      rcases List.mem_cons.mp hframe with rfl | hframe
      · cases rest with
        | nil => exact absurd h.1 hlast
        | cons lower below => exact ⟨lower, by simp, h.1⟩
      · obtain ⟨lower, hlower, hrule⟩ := ih h.2 hframe
        exact ⟨lower, List.mem_cons_of_mem _ hlower, hrule⟩

end Nested

section Threads

variable {Thread : Type*} [DecidableEq Thread] {stack : Thread → List Frame} {t : Thread}
  {frame : Frame} {old new rest : List Frame}

/-- The top of one stack is replaced. -/
theorem nested_replace {rule rule' : Frame → Option Frame → Prop}
    (h : ∀ u, Nested rule (stack u))
    (hother : ∀ u, Nested rule (stack u) → Nested rule' (stack u))
    (hnew : Nested rule (stack t) → Nested rule' new) (u : Thread) :
    Nested rule' (Function.update stack t new u) := by
  by_cases hu : u = t
  · subst hu
    rw [Function.update_self]
    exact hnew (h u)
  · rw [Function.update_of_ne hu]
    exact hother u (h u)

variable (old) in
/-- A frame counted at most once over all stacks is nowhere else. -/
theorem not_elsewhere [Fintype Thread] {p : Frame → Bool} (hcensus : census p stack ≤ 1)
    (hstack : stack t = old ++ frame :: rest) (hframe : p frame = true) :
    (∀ other ∈ rest, p other = false) ∧ ∀ u, u ≠ t → ∀ other ∈ stack u, p other = false := by
  have hsplit : stack t = (old ++ [frame]) ++ rest := by simp [hstack]
  have hreplace := census_replace p _ [] hsplit
  simp only [List.nil_append, List.countP_append, List.countP_singleton, hframe, if_true,
    List.countP_nil] at hreplace
  have hzero : census p (Function.update stack t rest) = 0 := by omega
  have hnone := census_eq_zero.mp hzero
  constructor
  · intro other hother
    exact hnone t other (by rwa [Function.update_self])
  · intro u hu other hother
    exact hnone u other (by rwa [Function.update_of_ne hu])

end Threads

end Bexec.Foundation.CallStack
