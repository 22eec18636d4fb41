import Mathlib

/-!
# Executable transition systems

A machine is a partial step function together with its initial states. The
action names which party moves next and resolves every nondeterministic choice,
so an interleaving is a list of actions and can be replayed by evaluation.
-/

namespace Bexec.Foundation

/-- A transition system whose step is a partial function of state and action. -/
structure Machine (σ α : Type*) where
  initial : σ → Prop
  step : σ → α → Option σ

namespace Machine

variable {σ α : Type*} (M : Machine σ α)

/-- States reached from an initial state by finitely many steps. -/
inductive Reachable : σ → Prop
  | initial {s : σ} (hinit : M.initial s) : Reachable s
  | step {s t : σ} {a : α} (hs : Reachable s) (hstep : M.step s a = some t) : Reachable t

/-- A finite run. The trace lists every action taken together with the state
it was taken in, oldest first. -/
inductive Run (s : σ) : List (σ × α) → σ → Prop
  | nil : Run s [] s
  | snoc {t u : σ} {trace : List (σ × α)} {a : α}
      (hrun : Run s trace t) (hstep : M.step t a = some u) : Run s (trace ++ [(t, a)]) u

/-- Replay a list of actions. -/
def exec (s : σ) (actions : List α) : Option σ :=
  actions.foldlM M.step s

variable {M}

theorem Run.cons {s t u : σ} {a : α} {trace : List (σ × α)}
    (hstep : M.step s a = some t) (hrun : M.Run t trace u) :
    M.Run s ((s, a) :: trace) u := by
  induction hrun with
  | nil => exact Run.snoc Run.nil hstep
  | snoc _ hlast ih => exact Run.snoc ih hlast

theorem exists_run_of_exec {s t : σ} (actions : List α) (hexec : M.exec s actions = some t) :
    ∃ trace, M.Run s trace t ∧ trace.map Prod.snd = actions := by
  induction actions generalizing s with
  | nil =>
      have heq : s = t := by simpa [exec] using hexec
      subst heq
      exact ⟨[], Run.nil, rfl⟩
  | cons a rest ih =>
      simp only [exec, List.foldlM_cons, Option.bind_eq_bind, Option.bind_eq_some_iff] at hexec
      obtain ⟨middle, hstep, hrest⟩ := hexec
      obtain ⟨trace, hrun, hactions⟩ := ih hrest
      exact ⟨(s, a) :: trace, hrun.cons hstep, by simp [hactions]⟩

theorem Reachable.run {s t : σ} {trace : List (σ × α)}
    (hs : M.Reachable s) (hrun : M.Run s trace t) : M.Reachable t := by
  induction hrun with
  | nil => exact hs
  | snoc _ hstep ih => exact .step ih hstep

theorem Reachable.exec {s t : σ} {actions : List α}
    (hs : M.Reachable s) (hexec : M.exec s actions = some t) : M.Reachable t := by
  obtain ⟨_, hrun, _⟩ := exists_run_of_exec _ hexec
  exact hs.run hrun

/-- The state a replay ends in is reachable. -/
theorem reachable_replay {s : σ} (hinit : M.initial s) (actions : List α)
    (hexec : (M.exec s actions).isSome) : M.Reachable ((M.exec s actions).get hexec) :=
  (Reachable.initial hinit).exec (Option.some_get hexec).symm

/-- A property of the initial states that every step preserves holds of every
reachable state. The step may use that its source is reachable. -/
theorem Reachable.invariant {P : σ → Prop} (hinit : ∀ s, M.initial s → P s)
    (hpres : ∀ s a t, M.Reachable s → P s → M.step s a = some t → P t)
    {s : σ} (hs : M.Reachable s) : P s := by
  induction hs with
  | initial h => exact hinit _ h
  | step hs hstep ih => exact hpres _ _ _ hs ih hstep

/-- The invariant rule for runs all of whose steps meet a condition. -/
theorem Run.invariant_where {P : σ → Prop} {cond : σ → α → Prop}
    (hpres : ∀ s a t, P s → cond s a → M.step s a = some t → P t)
    {s t : σ} {trace : List (σ × α)} (hrun : M.Run s trace t)
    (hcond : ∀ p ∈ trace, cond p.1 p.2) (hs : P s) :
    P t ∧ ∀ p ∈ trace, P p.1 := by
  induction hrun with
  | nil => exact ⟨hs, by simp⟩
  | @snoc middle _ trace a _ hstep ih =>
      have hprefix : ∀ p ∈ trace, cond p.1 p.2 :=
        fun p hp => hcond p (List.mem_append_left _ hp)
      obtain ⟨hmiddle, hvisited⟩ := ih hprefix
      refine ⟨hpres _ _ _ hmiddle (hcond (middle, a) (by simp)) hstep, ?_⟩
      intro p hp
      rcases List.mem_append.mp hp with hp | hp
      · exact hvisited p hp
      · rw [List.mem_singleton.mp hp]
        exact hmiddle

section CanReach

variable (M) in
/-- Some continuation reaches a state with the property. -/
inductive CanReach (P : σ → Prop) : σ → Prop
  | now {s : σ} (h : P s) : CanReach P s
  | later {s t : σ} {a : α} (hstep : M.step s a = some t) (h : CanReach P t) : CanReach P s

namespace CanReach

variable {P Q I : σ → Prop} {s : σ}

theorem trans (h : M.CanReach P s) (hP : ∀ t, P t → M.CanReach Q t) : M.CanReach Q s := by
  induction h with
  | now h => exact hP _ h
  | later hstep _ ih => exact .later hstep ih

/-- What every step preserves still holds when the property does. -/
theorem keep (hpres : ∀ s a t, I s → M.step s a = some t → I t) (h : M.CanReach P s) (hs : I s) :
    M.CanReach (fun t => I t ∧ P t) s := by
  induction h with
  | now h => exact .now ⟨hs, h⟩
  | later hstep _ ih => exact .later hstep (ih (hpres _ _ _ hs hstep))

/-- What can be settled for one index at a time, without unsettling another, can
be settled for all of them. -/
theorem all_of_each {ι : Type*} [Fintype ι] (pending : ι → σ → Prop) (I : σ → Prop)
    (hone : ∀ i s, I s → pending i s →
      M.CanReach (fun t => I t ∧ ¬ pending i t ∧ ∀ j, pending j t → pending j s) s)
    (hs : I s) : M.CanReach (fun t => I t ∧ ∀ i, ¬ pending i t) s := by
  classical
  -- by induction on the number of open indices
  induction hn : (Finset.univ.filter fun i => pending i s).card using Nat.strong_induction_on
    generalizing s with
  | _ n ih =>
      by_cases hnone : ∀ i, ¬ pending i s
      · exact .now ⟨hs, hnone⟩
      · obtain ⟨i, hi⟩ := not_forall_not.mp hnone
        apply (hone i s hs hi).trans
        rintro t ⟨ht, hclosed, hothers⟩
        refine ih _ ?_ ht rfl
        rw [← hn]
        apply Finset.card_lt_card
        rw [Finset.ssubset_iff_of_subset]
        · exact ⟨i, by simp [hi], by simp [hclosed]⟩
        · intro j hj
          simp only [Finset.mem_filter, Finset.mem_univ, true_and] at hj ⊢
          exact hothers j hj

theorem exists_run (h : M.CanReach P s) : ∃ trace t, M.Run s trace t ∧ P t := by
  induction h with
  | now h => exact ⟨[], _, .nil, h⟩
  | later hstep _ ih =>
      obtain ⟨trace, t, hrun, ht⟩ := ih
      exact ⟨_, t, hrun.cons hstep, ht⟩

end CanReach

end CanReach

section Restrict

variable (M) (cond : σ → α → Prop) [∀ s a, Decidable (cond s a)]

/-- The machine without the steps that fail a condition. -/
def restrict : Machine σ α where
  initial := M.initial
  step s a := if cond s a then M.step s a else none

variable {M cond}

theorem Run.of_restrict {s t : σ} {trace : List (σ × α)} (hrun : (M.restrict cond).Run s trace t) :
    M.Run s trace t ∧ ∀ p ∈ trace, cond p.1 p.2 := by
  induction hrun with
  | nil => exact ⟨.nil, by simp⟩
  | @snoc middle _ trace a _ hstep ih =>
      simp only [restrict, Option.ite_none_right_eq_some] at hstep
      refine ⟨ih.1.snoc hstep.2, fun p hp => ?_⟩
      rcases List.mem_append.mp hp with hp | hp
      · exact ih.2 p hp
      · rw [List.mem_singleton.mp hp]
        exact hstep.1

variable (M cond) in
/-- A replay whose steps all meet the condition. -/
theorem exists_run_where {s : σ} (actions : List α)
    (hexec : ((M.restrict cond).exec s actions).isSome) :
    ∃ trace, M.Run s trace (((M.restrict cond).exec s actions).get hexec) ∧
      ∀ p ∈ trace, cond p.1 p.2 := by
  obtain ⟨trace, hrun, -⟩ := exists_run_of_exec _ (Option.some_get hexec).symm
  exact ⟨trace, hrun.of_restrict⟩

end Restrict

end Machine

/-- Two threads, records or handles, for runs on fixed inputs. -/
inductive Pair
  | first
  | second
  deriving DecidableEq, Inhabited

instance : Fintype Pair where
  elems := {.first, .second}
  complete pair := by cases pair <;> simp

end Bexec.Foundation
