import Mathlib

/-! # Descent in one member of a family

A finite family of accessible elements is accessible when its members are
replaced one at a time by smaller ones.
-/

namespace Bexec.Foundation

variable {ι α : Type*} [DecidableEq ι]

/-- One member of the family, among those of `s`, is replaced by a smaller one. -/
def Replaces (r : α → α → Prop) (s : Finset ι) (later earlier : ι → α) : Prop :=
  ∃ i ∈ s, ∃ a, r a (earlier i) ∧ later = Function.update earlier i a

variable {r : α → α → Prop}

theorem Replaces.acc_insert {s : Finset ι} {j : ι} (hj : j ∉ s) {a : α} (ha : Acc r a)
    {f : ι → α} (hf : Acc (Replaces r s) f) :
    Acc (Replaces r (insert j s)) (Function.update f j a) := by
  -- outer induction on the new member, inner induction on the others
  induction ha generalizing f with
  | intro a _ iha =>
      induction hf with
      | intro f hbelow ihf =>
          refine Acc.intro _ fun later hlater => ?_
          obtain ⟨i, hi, b, hb, rfl⟩ := hlater
          by_cases hij : i = j
          · subst hij
            rw [Function.update_self] at hb
            rw [Function.update_idem]
            exact iha b hb (Acc.intro f hbelow)
          · have his : i ∈ s := (Finset.mem_insert.mp hi).resolve_left hij
            rw [Function.update_of_ne hij] at hb
            rw [Function.update_comm (Ne.symm hij)]
            exact ihf _ ⟨i, his, b, hb, rfl⟩

theorem Replaces.acc {s : Finset ι} {f : ι → α} (hf : ∀ i, Acc r (f i)) :
    Acc (Replaces r s) f := by
  induction s using Finset.induction_on with
  | empty => exact Acc.intro _ fun later hlater => by simp [Replaces] at hlater
  | insert j s hj ih =>
      have h := Replaces.acc_insert hj (hf j) ih
      rwa [Function.update_eq_self] at h

end Bexec.Foundation
