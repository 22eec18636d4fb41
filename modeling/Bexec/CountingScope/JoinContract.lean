import Bexec.CountingScope.Joins

/-!
# Contract of join

A join completes at most once and never early, no waiter is stranded, and once
every started join has completed the scope has no step of its own left.
-/

namespace Bexec.CountingScope

open Foundation

variable {Thread Handle Join : Type} [Fintype Thread] [DecidableEq Handle] [DecidableEq Join]
  {s : State Thread Handle Join} {j : Join} {waiting draining : List Join}

/-- The operation still has to access `word_` or `joiners_` for a join or a release. -/
def Frame.usesScope : Frame Handle Join → Bool
  | .disassociate _ _ | .completeRegisteredJoins _ | .startJoin _ _ | .registerJoiner _ _ => true
  | _ => false

theorem Places.uncompleted (h : Places s waiting draining) (hmem : j ∈ waiting ++ draining) :
    .started j ∈ s.log ∧ .completed j ∉ s.log := by
  have haccount := h.account j
  have honce := h.once j
  have hpos := List.count_pos_iff.mpr hmem
  rw [← List.count_pos_iff, ← List.count_pos_iff]
  omega

theorem Places.uncompleted_of_frame (h : Places s waiting draining) {t : Thread}
    {frame : Frame Handle Join} (hframe : frame ∈ s.stack t) (hjoining : frame.joining j = true) :
    .started j ∈ s.log ∧ .completed j ∉ s.log := by
  obtain ⟨_, _, hcompleted, hstarted⟩ := h.of_joining (j := j)
    (CallStack.census_pos.mpr ⟨t, frame, hframe, hjoining⟩)
  rw [← List.count_pos_iff, ← List.count_pos_iff]
  omega

/-- Between the decrement that joins the scope and the exchange, some join is waiting. -/
theorem Phases.window (h : Phases s waiting) (hplaces : Places s waiting draining)
    (hclaim : isJoining s.word = true ∨ 0 < CallStack.census Frame.claiming s.stack) :
    ∃ j, .started j ∈ s.log ∧ .completed j ∉ s.log := by
  rcases h.outstanding hclaim with hwaiting | hregistering
  · obtain ⟨j, hj⟩ := List.exists_mem_of_ne_nil waiting hwaiting
    exact ⟨j, hplaces.uncompleted (List.mem_append_left _ hj)⟩
  · obtain ⟨t, frame, hframe, hregisters⟩ := CallStack.census_pos.mp hregistering
    cases frame with
    | registerJoiner waiter head =>
        exact ⟨waiter, hplaces.uncompleted_of_frame hframe (by simp [Frame.joining])⟩
    | _ => cases hregisters

/-- With every operation returned, only a joining scope has waiters left. -/
theorem Phases.quiescent (h : Phases s waiting) (hplaces : Places s waiting draining)
    (hlegal : Legal s.word) (hreturned : ∀ t, s.stack t = []) (hzero : associations s.word = 0) :
    waiting = [] ∧ draining = [] := by
  have hnone : ∀ p : Frame Handle Join → Bool, CallStack.census p s.stack = 0 := by
    intro p
    refine CallStack.census_eq_zero.mpr ?_
    intro t frame hframe
    rw [hreturned t] at hframe
    cases hframe
  refine ⟨?_, hplaces.finished (hnone _)⟩
  by_contra hwaiting
  rcases h.attached (Or.inr hwaiting) with hjoining | hbegun
  · have hpos := hlegal.pos_of_joining hjoining
    omega
  · rw [CountingScope.begun, hnone, Nat.zero_add] at hbegun
    have hlist := hplaces.list
    rw [h.sentinel.mpr hbegun] at hlist
    exact hwaiting hlist

variable [DecidableEq Thread]

/-- What a client of `join` may rely on. -/
structure JoinContract (s : State Thread Handle Join) : Prop where
  once : ∀ j, s.log.count (.completed j) ≤ 1
  /-- A join completes after it was started, on a joined scope, and with no
  association outstanding. -/
  timely : ∀ j, .completed j ∈ s.log → .started j ∈ s.log ∧ s.word = closedBit ∧
    s.engaged = ∅ ∧ pendingReleases s = 0
  /-- At most one drain ever begins, and the exchange finds a list. -/
  drain : begun s ≤ 1
  exchange : ∀ t after, .completeRegisteredJoins after ∈ s.stack t → s.joiners ≠ .sentinel
  linked_before : LinkedBefore s.log
  /-- No waiter is stranded. -/
  quiescent : (∀ t, s.stack t = []) → associations s.word = 0 →
    ∀ j, .linked j ∈ s.log → .completed j ∈ s.log
  /-- Until the exchange, some started join has not completed. -/
  window : ∀ t after, .completeRegisteredJoins after ∈ s.stack t →
    ∃ j, .started j ∈ s.log ∧ .completed j ∉ s.log
  /-- When every started join has completed, no step on the scope is pending,
  and a drain in progress has reached the end of its list. -/
  settled : (∃ j, .started j ∈ s.log) → (∀ j, .started j ∈ s.log → .completed j ∈ s.log) →
    ∀ t, ∀ frame ∈ s.stack t, frame.usesScope = false ∧
      ∀ list, frame.cursor = some list → list = none

theorem join_contract (hs : (machine Thread Handle Join).Reachable s) : JoinContract s := by
  have hscope := scopeInv_of_reachable hs
  obtain ⟨waiting, draining, hplaces, hphases⟩ := joins_of_reachable hs
  have hclaiming : ∀ {t after}, .completeRegisteredJoins after ∈ s.stack t →
      0 < CallStack.census Frame.claiming s.stack :=
    fun hframe => CallStack.census_pos.mpr ⟨_, _, hframe, rfl⟩
  refine ⟨?_, ?_, hphases.begun, ?_, hphases.order, ?_, ?_, ?_⟩
  · intro j
    have haccount := hplaces.account j
    have honce := hplaces.once j
    omega
  · intro j hj
    have haccount := hplaces.account j
    have hpos := List.count_pos_iff.mpr hj
    have hclosed := hphases.completed j hj
    have hcount := hscope.count
    rw [hclosed, associations_closedBit] at hcount
    refine ⟨List.count_pos_iff.mp (by omega), hclosed, ?_, by omega⟩
    exact Finset.card_eq_zero.mp (by omega)
  · intro t after hframe hsentinel
    have hbegun := hphases.begun
    have hdrained := hphases.sentinel.mp hsentinel
    have hclaim := hclaiming hframe
    rw [begun] at hbegun
    omega
  · intro hreturned hzero j hj
    obtain ⟨rfl, rfl⟩ := hphases.quiescent hplaces hscope.legal hreturned hzero
    rcases hplaces.linked j hj with hmem | hcompleted
    · cases hmem
    · exact hcompleted
  · intro t after hframe
    exact hphases.window hplaces (Or.inr (hclaiming hframe))
  · rintro ⟨j, hj⟩ hall t frame hframe
    have hclosed := hphases.completed j (hall j hj)
    refine ⟨?_, ?_⟩
    · cases frame with
      | disassociate after bits =>
          have hpos := hscope.release_pos hframe
          rw [hclosed, associations_closedBit] at hpos
          cases hpos
      | completeRegisteredJoins after =>
          obtain ⟨j', hstarted, hnot⟩ := hphases.window hplaces (Or.inr (hclaiming hframe))
          exact absurd (hall j' hstarted) hnot
      | startJoin waiter bits | registerJoiner waiter head =>
          obtain ⟨hstarted, hnot⟩ :=
            hplaces.uncompleted_of_frame (j := waiter) hframe (by simp [Frame.joining])
          exact absurd (hall waiter hstarted) hnot
      | _ => rfl
    · intro list hlist
      have hchain := hplaces.cursor t frame hframe list hlist
      cases draining with
      | nil => exact hchain
      | cons first left =>
          obtain ⟨hstarted, hnot⟩ :=
            hplaces.uncompleted (j := first) (List.mem_append_right _ List.mem_cons_self)
          exact absurd (hall first hstarted) hnot

/-- Two joins wait for one association; its release completes both. -/
def drainRun : List (Action Pair Unit Pair) :=
  List.flatten
    [[.associate .first ()], List.replicate 2 (.run .first false), [.join .second .first],
      List.replicate 4 (.run .second false), [.join .second .second],
      List.replicate 4 (.run .second false), [.destroy .first ()],
      List.replicate 4 (.run .first false), [.ret .first, .run .first false]]

set_option maxRecDepth 4000 in
theorem join_contract_drainRun :
    ∃ s : State Pair Unit Pair, JoinContract s ∧
      s.stack .first = [.completeDeferred .done none] ∧ ∀ j, .linked j ∈ s.log ∧ .completed j ∈ s.log := by
  refine ⟨_, join_contract (Machine.reachable_replay rfl drainRun (by decide)), ?_⟩
  decide

end Bexec.CountingScope
