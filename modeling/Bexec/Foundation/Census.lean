import Bexec.Foundation.CallStack

/-!
# Counting frames over all stacks

How many frames of any thread satisfy a predicate. One step changes one stack,
so it changes the count by what it adds to and removes from that stack.
-/

namespace Bexec.Foundation.CallStack

variable {Thread Frame : Type*} [Fintype Thread] [DecidableEq Thread]

/-- The number of frames, over all threads, that satisfy the predicate. -/
def census (p : Frame → Bool) (stack : Thread → List Frame) : Nat :=
  ∑ t, (stack t).countP p

theorem census_update (p : Frame → Bool) (stack : Thread → List Frame) (t : Thread)
    (frames : List Frame) :
    census p (Function.update stack t frames) + (stack t).countP p =
      census p stack + frames.countP p := by
  have hrest : ∑ x ∈ Finset.univ.erase t, (Function.update stack t frames x).countP p =
      ∑ x ∈ Finset.univ.erase t, (stack x).countP p := by
    refine Finset.sum_congr rfl ?_
    intro x hx
    rw [Function.update_of_ne (Finset.ne_of_mem_erase hx)]
  have hnew := Finset.add_sum_erase Finset.univ
    (fun x => (Function.update stack t frames x).countP p) (Finset.mem_univ t)
  have hold := Finset.add_sum_erase Finset.univ (fun x => (stack x).countP p) (Finset.mem_univ t)
  simp only [Function.update_self] at hnew
  unfold census
  omega

omit [DecidableEq Thread] in
theorem census_pos {p : Frame → Bool} {stack : Thread → List Frame} :
    0 < census p stack ↔ ∃ t, ∃ frame ∈ stack t, p frame = true := by
  unfold census
  rw [Finset.sum_pos_iff]
  simp only [Finset.mem_univ, true_and, List.countP_pos_iff]

omit [DecidableEq Thread] in
theorem census_eq_zero {p : Frame → Bool} {stack : Thread → List Frame} :
    census p stack = 0 ↔ ∀ t, ∀ frame ∈ stack t, p frame = false := by
  simp only [census, Finset.sum_eq_zero_iff, Finset.mem_univ, forall_const,
    List.countP_eq_zero, Bool.not_eq_true]

omit [DecidableEq Thread] in
@[simp] theorem census_nil (p : Frame → Bool) :
    census p (fun _ : Thread => ([] : List Frame)) = 0 := by
  simp [census]

section Replace

variable {p : Frame → Bool} {stack : Thread → List Frame} {t : Thread} {old new rest : List Frame}

variable (p) (old new) in
/-- The census when the top of one stack is replaced. -/
theorem census_replace (hstack : stack t = old ++ rest) :
    census p (Function.update stack t (new ++ rest)) + old.countP p =
      census p stack + new.countP p := by
  have hupdate := census_update p stack t (new ++ rest)
  rw [hstack, List.countP_append, List.countP_append] at hupdate
  omega

variable (new) in
omit [Fintype Thread] in
theorem mem_replace {t' : Thread} {frame : Frame}
    (hframe : frame ∈ Function.update stack t (new ++ rest) t') :
    frame ∈ new ∨ frame ∈ Function.update stack t rest t' := by
  by_cases heq : t' = t
  · subst heq
    simp only [Function.update_self] at hframe ⊢
    exact List.mem_append.mp hframe
  · rw [Function.update_of_ne heq] at hframe ⊢
    exact Or.inr hframe

variable (old) in
omit [Fintype Thread] in
theorem mem_beneath (hstack : stack t = old ++ rest) {t' : Thread} {frame : Frame}
    (hframe : frame ∈ Function.update stack t rest t') : frame ∈ stack t' := by
  by_cases heq : t' = t
  · subst heq
    rw [Function.update_self] at hframe
    rw [hstack]
    exact List.mem_append_right old hframe
  · rwa [Function.update_of_ne heq] at hframe

end Replace

end Bexec.Foundation.CallStack

namespace Bexec.Foundation

variable {ι α : Type*} [Fintype ι]

/-- How many of the processes are at a place that satisfies the predicate. -/
def tally (p : α → Bool) (place : ι → α) : Nat :=
  ∑ i, if p (place i) then 1 else 0

theorem tally_update [DecidableEq ι] (p : α → Bool) (place : ι → α) (i : ι) (a : α) :
    tally p (Function.update place i a) + (if p (place i) then 1 else 0) =
      tally p place + if p a then 1 else 0 := by
  have hrest : ∑ x ∈ Finset.univ.erase i, (if p (Function.update place i a x) then 1 else 0) =
      ∑ x ∈ Finset.univ.erase i, (if p (place x) then 1 else 0) := by
    refine Finset.sum_congr rfl ?_
    intro x hx
    rw [Function.update_of_ne (Finset.ne_of_mem_erase hx)]
  have hnew := Finset.add_sum_erase Finset.univ
    (fun x => if p (Function.update place i a x) then 1 else 0) (Finset.mem_univ i)
  have hold := Finset.add_sum_erase Finset.univ
    (fun x => if p (place x) then 1 else 0) (Finset.mem_univ i)
  simp only [Function.update_self] at hnew
  unfold tally
  omega

theorem tally_eq_zero {p : α → Bool} {place : ι → α} :
    tally p place = 0 ↔ ∀ i, p (place i) = false := by
  simp [tally]

theorem tally_pos {p : α → Bool} {place : ι → α} {i : ι} (hi : p (place i) = true) :
    0 < tally p place := by
  rw [Nat.pos_iff_ne_zero, Ne, tally_eq_zero]
  intro hall
  rw [hall i] at hi
  cases hi

/-- A process that moves to a place of the same kind is counted as before. -/
theorem tally_update_same [DecidableEq ι] {p : α → Bool} {place : ι → α} {i : ι} {a : α}
    (hsame : p a = p (place i)) : tally p (Function.update place i a) = tally p place := by
  have hupdate := tally_update p place i a
  rw [hsame] at hupdate
  omega

end Bexec.Foundation
