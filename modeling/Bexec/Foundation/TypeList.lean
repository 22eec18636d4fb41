import Mathlib

/-! # Lists without repetition, in order of first occurrence -/

namespace Bexec.Foundation

variable {T : Type*} [DecidableEq T]

/-- Append to `seen` the members of a list that it does not contain yet. -/
def uniqueTypeListImpl (seen : List T) : List T → List T
  | [] => seen
  | head :: tail =>
      uniqueTypeListImpl (if head ∈ seen then seen else seen ++ [head]) tail

/-- A list without its later occurrences. -/
def uniqueTypeList (list : List T) : List T :=
  uniqueTypeListImpl [] list

theorem mem_uniqueTypeListImpl {seen list : List T} {a : T} :
    a ∈ uniqueTypeListImpl seen list ↔ a ∈ seen ∨ a ∈ list := by
  induction list generalizing seen with
  | nil => simp [uniqueTypeListImpl]
  | cons head tail ih =>
      rw [uniqueTypeListImpl, ih]
      split
      · next hseen =>
          constructor
          · rintro (hmem | hmem)
            · exact .inl hmem
            · exact .inr (List.mem_cons_of_mem _ hmem)
          · rintro (hmem | hmem)
            · exact .inl hmem
            · rcases List.mem_cons.mp hmem with rfl | hmem
              · exact .inl hseen
              · exact .inr hmem
      · simp only [List.mem_append, List.mem_cons, List.not_mem_nil, or_false, or_assoc]

@[simp] theorem mem_uniqueTypeList {list : List T} {a : T} : a ∈ uniqueTypeList list ↔ a ∈ list := by
  simp [uniqueTypeList, mem_uniqueTypeListImpl]

end Bexec.Foundation
