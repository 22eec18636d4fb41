import Mathlib

/-! # Resources and their owners

Owners hold at most one resource each. A resource is created together with its
owner's hold on it, passed on, and destroyed when its owner lets it go.
-/

namespace Bexec.Foundation

variable {Owner Resource F : Type*}

/-- Every live resource has exactly one owner, and every resource that is no
longer live was destroyed once. -/
structure Ownership (created : Resource → Bool) (live : Resource → Option F)
    (destroyed : Resource → ℕ) (holds : Owner → Option Resource) : Prop where
  fresh : ∀ r, created r = false → live r = none ∧ destroyed r = 0
  held : ∀ o r, holds o = some r → ∃ f, live r = some f
  unique : ∀ o o' r, holds o = some r → holds o' = some r → o = o'
  owned : ∀ r f, live r = some f → created r = true ∧ destroyed r = 0 ∧ ∃ o, holds o = some r
  gone : ∀ r, created r = true → live r = none → destroyed r = 1

namespace Ownership

variable {created : Resource → Bool} {live : Resource → Option F} {destroyed : Resource → ℕ}
  {holds : Owner → Option Resource}

theorem initial : Ownership (fun _ : Resource => false) (fun _ => (none : Option F)) (fun _ => 0)
    (fun _ : Owner => none) := by
  constructor <;> simp

variable [DecidableEq Resource]

/-- A live resource changes. -/
theorem modify (h : Ownership created live destroyed holds) {r : Resource} {f : F} (f' : F)
    (hlive : live r = some f) :
    Ownership created (Function.update live r (some f')) destroyed holds := by
  have hlive' : ∀ r', (∃ f, Function.update live r (some f') r' = some f) ↔
      ∃ f, live r' = some f := by
    intro r'
    by_cases heq : r' = r
    · subst heq
      simp [hlive]
    · simp [heq]
  constructor
  · intro r' hfresh
    have hother : r' ≠ r := by
      rintro rfl
      rw [(h.fresh _ hfresh).1] at hlive
      cases hlive
    simpa [hother] using h.fresh r' hfresh
  · intro o r' hholds
    exact (hlive' r').mpr (h.held o r' hholds)
  · exact h.unique
  · intro r' f'' hlive''
    obtain ⟨g, hg⟩ := (hlive' r').mp ⟨f'', hlive''⟩
    exact h.owned r' g hg
  · intro r' hcreated hnone
    apply h.gone r' hcreated
    by_contra hsome
    obtain ⟨f'', hf''⟩ := (hlive' r').mpr (Option.ne_none_iff_exists'.mp hsome)
    rw [hnone] at hf''
    cases hf''

variable [DecidableEq Owner]

/-- A new resource is held by an owner that held nothing. -/
theorem create (h : Ownership created live destroyed holds) {o : Owner} {r : Resource} (f : F)
    (hfresh : created r = false) (hempty : holds o = none) :
    Ownership (Function.update created r true) (Function.update live r (some f)) destroyed
      (Function.update holds o (some r)) := by
  obtain ⟨hdead, hcount⟩ := h.fresh r hfresh
  have hnot : ∀ o', holds o' ≠ some r := by
    intro o' hholds
    obtain ⟨f', hlive⟩ := h.held o' r hholds
    rw [hdead] at hlive
    cases hlive
  constructor
  · intro r' hcreated
    by_cases heq : r' = r
    · subst heq
      simp at hcreated
    · simpa [heq] using h.fresh r' (by simpa [heq] using hcreated)
  · intro o' r' hholds
    by_cases heq : r' = r
    · subst heq
      exact ⟨f, by simp⟩
    · by_cases howner : o' = o
      · subst howner
        simp only [Function.update_self, Option.some.injEq] at hholds
        exact absurd hholds.symm heq
      · simpa [heq] using h.held o' r' (by simpa [howner] using hholds)
  · intro o₁ o₂ r' hfirst hsecond
    by_cases hfirst' : o₁ = o <;> by_cases hsecond' : o₂ = o
    · rw [hfirst', hsecond']
    · subst hfirst'
      simp only [Function.update_self, Option.some.injEq] at hfirst
      rw [Function.update_of_ne hsecond', ← hfirst] at hsecond
      exact absurd hsecond (hnot _)
    · subst hsecond'
      simp only [Function.update_self, Option.some.injEq] at hsecond
      rw [Function.update_of_ne hfirst', ← hsecond] at hfirst
      exact absurd hfirst (hnot _)
    · rw [Function.update_of_ne hfirst'] at hfirst
      rw [Function.update_of_ne hsecond'] at hsecond
      exact h.unique _ _ _ hfirst hsecond
  · intro r' f' hlive
    by_cases heq : r' = r
    · subst heq
      exact ⟨by simp, hcount, o, by simp⟩
    · rw [Function.update_of_ne heq] at hlive
      obtain ⟨hcreated, hzero, o', hholds⟩ := h.owned r' f' hlive
      refine ⟨by simpa [heq] using hcreated, hzero, o', ?_⟩
      rw [Function.update_of_ne]
      · exact hholds
      · rintro rfl
        rw [hempty] at hholds
        cases hholds
  · intro r' hcreated hnone
    by_cases heq : r' = r
    · subst heq
      simp at hnone
    · exact h.gone r' (by simpa [heq] using hcreated) (by simpa [heq] using hnone)

/-- An owner lets its resource go, which is destroyed. -/
theorem drop (h : Ownership created live destroyed holds) {o : Owner} {r : Resource}
    (hholds : holds o = some r) :
    Ownership created (Function.update live r none)
      (Function.update destroyed r (destroyed r + 1)) (Function.update holds o none) := by
  obtain ⟨f, hlive⟩ := h.held o r hholds
  obtain ⟨hcreated, hzero, -⟩ := h.owned r f hlive
  constructor
  · intro r' hfresh
    have hother : r' ≠ r := by
      rintro rfl
      rw [hcreated] at hfresh
      cases hfresh
    simpa [hother] using h.fresh r' hfresh
  · intro o' r' hholds'
    have howner : o' ≠ o := by
      rintro rfl
      simp at hholds'
    rw [Function.update_of_ne howner] at hholds'
    have hother : r' ≠ r := by
      rintro rfl
      exact howner (h.unique _ _ _ hholds' hholds)
    simpa [hother] using h.held o' r' hholds'
  · intro o₁ o₂ r' hfirst hsecond
    have hfirst' : o₁ ≠ o := by
      rintro rfl
      simp at hfirst
    have hsecond' : o₂ ≠ o := by
      rintro rfl
      simp at hsecond
    rw [Function.update_of_ne hfirst'] at hfirst
    rw [Function.update_of_ne hsecond'] at hsecond
    exact h.unique _ _ _ hfirst hsecond
  · intro r' f' hlive'
    have hother : r' ≠ r := by
      rintro rfl
      simp at hlive'
    rw [Function.update_of_ne hother] at hlive'
    obtain ⟨hcreated', hzero', o', hholds'⟩ := h.owned r' f' hlive'
    refine ⟨hcreated', by simpa [hother] using hzero', o', ?_⟩
    rw [Function.update_of_ne]
    · exact hholds'
    · rintro rfl
      rw [hholds] at hholds'
      exact hother (Option.some.inj hholds').symm
  · intro r' hcreated' hnone
    by_cases heq : r' = r
    · subst heq
      simp [hzero]
    · simpa [heq] using h.gone r' hcreated' (by simpa [heq] using hnone)

omit [DecidableEq Resource] in
/-- An owner that held nothing takes over what another one held. -/
theorem transfer (h : Ownership created live destroyed holds) {o other : Owner}
    (hne : o ≠ other) (hempty : holds o = none) :
    Ownership created live destroyed
      (Function.update (Function.update holds o (holds other)) other none) := by
  have hholds : ∀ o' r, Function.update (Function.update holds o (holds other)) other none o' =
      some r ↔ (o' = o ∧ holds other = some r) ∨ (o' ≠ o ∧ o' ≠ other ∧ holds o' = some r) := by
    intro o' r
    by_cases hother : o' = other
    · subst hother
      simp [Ne.symm hne]
    · by_cases howner : o' = o
      · subst howner
        simp [hne]
      · simp [hother, howner]
  constructor
  · exact h.fresh
  · intro o' r hheld
    rcases (hholds o' r).mp hheld with ⟨-, hheld⟩ | ⟨-, -, hheld⟩
    · exact h.held _ _ hheld
    · exact h.held _ _ hheld
  · intro o₁ o₂ r hfirst hsecond
    rcases (hholds o₁ r).mp hfirst with ⟨heq₁, hheld₁⟩ | ⟨-, hnot₁, hheld₁⟩
    · rcases (hholds o₂ r).mp hsecond with ⟨heq₂, -⟩ | ⟨-, hnot₂, hheld₂⟩
      · rw [heq₁, heq₂]
      · exact absurd (h.unique _ _ _ hheld₂ hheld₁) hnot₂
    · rcases (hholds o₂ r).mp hsecond with ⟨-, hheld₂⟩ | ⟨-, -, hheld₂⟩
      · exact absurd (h.unique _ _ _ hheld₁ hheld₂) hnot₁
      · exact h.unique _ _ _ hheld₁ hheld₂
  · intro r f hlive
    obtain ⟨hcreated, hzero, o', hheld⟩ := h.owned r f hlive
    refine ⟨hcreated, hzero, ?_⟩
    by_cases hother : o' = other
    · subst hother
      exact ⟨o, (hholds o r).mpr (.inl ⟨rfl, hheld⟩)⟩
    · refine ⟨o', (hholds o' r).mpr (.inr ⟨?_, hother, hheld⟩)⟩
      rintro rfl
      rw [hempty] at hheld
      cases hheld
  · exact h.gone

end Ownership

end Bexec.Foundation
