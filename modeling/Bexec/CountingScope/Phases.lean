import Bexec.CountingScope.Places

/-!
# How far joining has come

The packed word decides whether a drain of `joiners_` is still to come, has
begun or is over, and with it which joins may still be waiting.
-/

namespace Bexec.CountingScope

open Foundation

variable {Thread Handle Join : Type} [Fintype Thread] [DecidableEq Thread]
  [DecidableEq Handle] [DecidableEq Join] {s s' : State Thread Handle Join} {t : Thread} {j : Join}
  {old new rest : List (Frame Handle Join)} {waiting : List Join}

/-- Every link happened before the drain. -/
def LinkedBefore : List (Event Handle Join) → Prop
  | [] => True
  | event :: log => LinkedBefore log ∧ ∀ j, event = .linked j → .drained ∉ log

/-- Drains that have begun: those about to exchange `joiners_`, and those past it. -/
def begun (s : State Thread Handle Join) : Nat :=
  CallStack.census Frame.claiming s.stack + s.log.count .drained

/-- How far joining has come: what the word says about drains begun and joins
still waiting. -/
structure Phases (s : State Thread Handle Join) (waiting : List Join) : Prop where
  order : LinkedBefore s.log
  begun : begun s ≤ 1
  running : isJoining s.word = true → CountingScope.begun s = 0
  closed : 0 < CountingScope.begun s → s.word = closedBit
  sentinel : s.joiners = .sentinel ↔ 0 < s.log.count .drained
  refused : ∀ t, ∀ frame ∈ s.stack t, frame.refused = true → 0 < s.log.count .drained
  attached : 0 < CallStack.census Frame.registering s.stack ∨ waiting ≠ [] →
    isJoining s.word = true ∨ 0 < CountingScope.begun s
  outstanding : isJoining s.word = true ∨ 0 < CallStack.census Frame.claiming s.stack →
    waiting ≠ [] ∨ 0 < CallStack.census Frame.registering s.stack
  completed : ∀ j, .completed j ∈ s.log → s.word = closedBit

namespace Phases

omit [DecidableEq Thread] in
theorem drained_le (h : Phases s waiting) : s.log.count .drained ≤ 1 := by
  have hbegun := h.begun
  rw [CountingScope.begun] at hbegun
  omega

variable (old new) in
/-- A step that begins no drain and links no join. -/
theorem quiet (h : Phases s waiting) (hstack : s.stack t = old ++ rest)
    (hstack' : s'.stack = Function.update s.stack t (new ++ rest))
    (hjoiners : s'.joiners = s.joiners)
    (hlog : s'.log = s.log ∨ ∃ event, s'.log = event :: s.log ∧ event ≠ .drained ∧
      ∀ j, event ≠ .linked j)
    (hregistering : new.countP Frame.registering = old.countP Frame.registering)
    (hclaiming : new.countP Frame.claiming = old.countP Frame.claiming)
    (hrefused : ∀ frame ∈ new, frame.refused = true → 0 < s.log.count .drained)
    (hword : isJoining s'.word = isJoining s.word)
    (hclosed : s.word = closedBit → s'.word = closedBit)
    (hcompleted : ∀ j, .completed j ∈ s'.log → .completed j ∈ s.log ∨ s'.word = closedBit) :
    Phases s' waiting := by
  have hcensus : ∀ p : Frame Handle Join → Bool, new.countP p = old.countP p →
      CallStack.census p s'.stack = CallStack.census p s.stack := by
    intro p hp
    have hreplace := CallStack.census_replace p _ new hstack
    rw [hstack']
    omega
  have hdrained : s'.log.count .drained = s.log.count .drained := by
    rcases hlog with heq | ⟨event, heq, hne, _⟩
    · rw [heq]
    · rw [heq, count_of_ne _ _ hne]
  have hbegun : CountingScope.begun s' = CountingScope.begun s := by
    rw [CountingScope.begun, CountingScope.begun, hcensus _ hclaiming, hdrained]
  refine ⟨?_, ?_, ?_, ?_, ?_, ?_, ?_, ?_, ?_⟩
  · rcases hlog with heq | ⟨event, heq, _, hne⟩
    · rw [heq]
      exact h.order
    · rw [heq]
      exact ⟨h.order, fun j hj => absurd hj (hne j)⟩
  · rw [hbegun]
    exact h.begun
  · rw [hword, hbegun]
    exact h.running
  · rw [hbegun]
    exact fun hpos => hclosed (h.closed hpos)
  · rw [hjoiners, hdrained]
    exact h.sentinel
  · intro t' frame hframe
    rw [hstack'] at hframe
    rw [hdrained]
    rcases CallStack.mem_replace _ hframe with hmine | hother
    · exact hrefused frame hmine
    · exact h.refused t' frame (CallStack.mem_beneath _ hstack hother)
  · rw [hcensus _ hregistering, hword, hbegun]
    exact h.attached
  · rw [hcensus _ hregistering, hcensus _ hclaiming, hword]
    exact h.outstanding
  · intro j hj
    rcases hcompleted j hj with hold | hnow
    · exact hclosed (h.completed j hold)
    · exact hnow

variable (old new) in
/-- The frames a step leaves in place saw the sentinel only after a drain. -/
theorem refused_others (h : Phases s waiting) (hstack : s.stack t = old ++ rest)
    (hnew : ∀ frame ∈ new, frame.refused = false) {t' : Thread} {frame : Frame Handle Join}
    (hframe : frame ∈ Function.update s.stack t (new ++ rest) t')
    (hrefused : frame.refused = true) : 0 < s.log.count .drained := by
  rcases CallStack.mem_replace _ hframe with hmine | hother
  · rw [hnew frame hmine] at hrefused
    cases hrefused
  · exact h.refused t' frame (CallStack.mem_beneath _ hstack hother) hrefused

/-- The decrement that leaves a joining scope without associations. -/
theorem disassociateLast (h : Phases s waiting) {after : After Handle} {bits : Option Word}
    (hstack : s.stack t = .disassociate after bits :: rest) (hjoining : isJoining s.word = true)
    (hs' : s' = ({ s with word := closedBit }.record .disassociated).setStack t
      (.completeRegisteredJoins after :: rest)) : Phases s' waiting := by
  have hcensus := census_single s' hstack (by rw [hs']; rfl)
  have hclaiming : CallStack.census Frame.claiming s'.stack =
      CallStack.census Frame.claiming s.stack + 1 := hcensus Frame.claiming
  have hregistering : CallStack.census Frame.registering s'.stack =
      CallStack.census Frame.registering s.stack := hcensus Frame.registering
  have hlog : s'.log = .disassociated :: s.log := by rw [hs']; rfl
  have hword : s'.word = closedBit := by rw [hs']; rfl
  have hdrained : s'.log.count .drained = s.log.count .drained := by
    rw [hlog]
    exact count_of_ne _ _ (by simp)
  have hzero := h.running hjoining
  have hone : CountingScope.begun s' = 1 := by
    rw [CountingScope.begun] at hzero ⊢
    omega
  refine ⟨?_, by omega, ?_, fun _ => hword, ?_, ?_, fun _ => Or.inr (by omega), ?_, ?_⟩
  · rw [hlog]
    exact ⟨h.order, (by simp)⟩
  · rw [hword, isJoining_closedBit]
    simp
  · rw [hdrained, hs']
    exact h.sentinel
  · intro t' frame hframe hrefused
    rw [hdrained]
    rw [hs'] at hframe
    exact h.refused_others [_] [_] hstack (by simp [Frame.refused]) hframe
      hrefused
  · rw [hregistering]
    exact fun _ => h.outstanding (Or.inl hjoining)
  · intro j hj
    exact hword

/-- A join that finds no association closes the scope and completes. -/
theorem joinIdle (h : Phases s waiting) {bits : Option Word}
    (hstack : s.stack t = .startJoin j bits :: rest) (hidle : isJoining s.word = false)
    (hs' : s' = ({ s with word := closedBit }.record (.completed j)).setStack t rest) :
    Phases s' waiting := by
  refine h.quiet [_] [] hstack (by rw [hs']; rfl) (by rw [hs']; rfl)
    (Or.inr ⟨.completed j, by rw [hs']; rfl, (by simp), (by simp)⟩) rfl rfl (by simp) ?_ ?_ ?_
  · rw [hs', hidle]
    exact isJoining_closedBit
  · intro _
    rw [hs']
    rfl
  · intro _ _
    rw [hs']
    exact Or.inr rfl

/-- A join that finds associations marks the scope joining. -/
theorem joinBusy (h : Phases s waiting) {bits : Option Word} {word : Word}
    (hstack : s.stack t = .startJoin j bits :: rest) (hopen : s.word ≠ closedBit)
    (hjoining : isJoining word = true)
    (hs' : s' = { s with word := word }.setStack t (.registerJoiner j none :: rest)) :
    Phases s' waiting := by
  have hcensus := census_single s' hstack (by rw [hs']; rfl)
  have hclaiming : CallStack.census Frame.claiming s'.stack =
      CallStack.census Frame.claiming s.stack := hcensus Frame.claiming
  have hregistering : CallStack.census Frame.registering s'.stack =
      CallStack.census Frame.registering s.stack + 1 := hcensus Frame.registering
  have hlog : s'.log = s.log := by rw [hs']; rfl
  have hword : isJoining s'.word = true := by rw [hs']; exact hjoining
  have hzero : CountingScope.begun s' = 0 := by
    have hnone : ¬ 0 < CountingScope.begun s := fun hpos => hopen (h.closed hpos)
    rw [CountingScope.begun] at hnone ⊢
    rw [hclaiming, hlog]
    omega
  refine ⟨hlog ▸ h.order, by omega, fun _ => hzero, by omega, ?_, ?_, fun _ => Or.inl hword, ?_, ?_⟩
  · rw [hlog, hs']
    exact h.sentinel
  · intro t' frame hframe hrefused
    rw [hlog]
    rw [hs'] at hframe
    exact h.refused_others [_] [_] hstack (by simp [Frame.refused]) hframe
      hrefused
  · exact fun _ => Or.inr (by omega)
  · intro j' hj'
    rw [hlog] at hj'
    exact absurd (h.completed j' hj') hopen

/-- A waiter is pushed on the list, which has not been drained. -/
theorem push (h : Phases s waiting) {head : Option Join} {seen : Option (Joiners Join)}
    (hstack : s.stack t = .registerJoiner j seen :: rest) (hjoiners : s.joiners = .list head)
    (hs' : s' = ({ s with
      next := Function.update s.next j head, joiners := .list (some j) }.record
        (.linked j)).setStack t rest) : Phases s' (j :: waiting) := by
  have hcensus := census_return s' hstack (by rw [hs']; rfl)
  have hclaiming : CallStack.census Frame.claiming s'.stack =
      CallStack.census Frame.claiming s.stack := hcensus Frame.claiming
  have hpos : 0 < CallStack.census Frame.registering s.stack := by
    refine CallStack.census_pos.mpr ⟨t, .registerJoiner j seen, ?_, rfl⟩
    rw [hstack]
    exact List.mem_cons_self
  have hlog : s'.log = .linked j :: s.log := by rw [hs']; rfl
  have hword : s'.word = s.word := by rw [hs']; rfl
  have hnone : s.log.count .drained = 0 := by
    have hsentinel := h.sentinel
    rw [hjoiners] at hsentinel
    exact Nat.eq_zero_of_not_pos (fun hdrained => by cases hsentinel.mpr hdrained)
  have hdrained : s'.log.count .drained = 0 := by
    rw [hlog, count_of_ne .drained (.linked j) (by simp), hnone]
  have hbegun : CountingScope.begun s' = CountingScope.begun s := by
    rw [CountingScope.begun, CountingScope.begun]
    omega
  refine ⟨?_, ?_, ?_, ?_, ?_, ?_, ?_, fun _ => Or.inl (by simp), ?_⟩
  · rw [hlog]
    exact ⟨h.order, fun _ _ => List.count_eq_zero.mp hnone⟩
  · rw [hbegun]
    exact h.begun
  · rw [hword, hbegun]
    exact h.running
  · rw [hword, hbegun]
    exact h.closed
  · rw [hdrained, hs']
    exact ⟨(by rintro ⟨⟩), fun hzero => absurd hzero (Nat.lt_irrefl 0)⟩
  · intro t' frame hframe hrefused
    rw [hs'] at hframe
    have hseen := h.refused_others [_] [] hstack (by simp) hframe hrefused
    omega
  · rw [hword, hbegun]
    exact fun _ => h.attached (Or.inl hpos)
  · intro j' hj'
    rw [hlog] at hj'
    rw [hword]
    exact h.completed j' (by simpa using hj')

/-- A waiter that comes too late completes: the scope is joined. -/
theorem refuse (h : Phases s waiting)
    (hstack : s.stack t = .registerJoiner j (some .sentinel) :: rest)
    (hs' : s' = (s.record (.completed j)).setStack t rest) : Phases s' waiting := by
  have hseen : 0 < s.log.count .drained :=
    h.refused t _ (by rw [hstack]; exact List.mem_cons_self) rfl
  have hcensus := census_return s' hstack (by rw [hs']; rfl)
  have hclaiming : CallStack.census Frame.claiming s'.stack =
      CallStack.census Frame.claiming s.stack := hcensus Frame.claiming
  have hlog : s'.log = .completed j :: s.log := by rw [hs']; rfl
  have hdrained : s'.log.count .drained = s.log.count .drained := by
    rw [hlog]
    exact count_of_ne _ _ (by simp)
  have hbegun : CountingScope.begun s' = CountingScope.begun s := by
    rw [CountingScope.begun, CountingScope.begun]
    omega
  have hpos : 0 < CountingScope.begun s := by
    rw [CountingScope.begun]
    omega
  have hword : s'.word = s.word := by rw [hs']; rfl
  have hclosed := h.closed hpos
  refine ⟨?_, ?_, ?_, ?_, ?_, ?_, fun _ => Or.inr (by omega), ?_, ?_⟩
  · rw [hlog]
    exact ⟨h.order, (by simp)⟩
  · rw [hbegun]
    exact h.begun
  · rw [hword, hbegun]
    exact h.running
  · exact fun _ => hword.trans hclosed
  · rw [hdrained, hs']
    exact h.sentinel
  · intro t' frame hframe hrefused
    omega
  · rintro (hjoining | hclaim)
    · rw [hword] at hjoining
      have hzero := h.running hjoining
      omega
    · have hone := h.begun
      rw [CountingScope.begun] at hone
      omega
  · exact fun _ _ => hword.trans hclosed

/-- The exchange: from here on the sentinel refuses every registration. -/
theorem exchange (h : Phases s waiting) {head : Option Join} {after : After Handle}
    (hstack : s.stack t = .completeRegisteredJoins after :: rest)
    (hs' : s' = ({ s with joiners := .sentinel }.record .drained).setStack t
      (.drain after head :: rest)) : Phases s' [] := by
  have hcensus := census_single s' hstack (by rw [hs']; rfl)
  have hclaiming : CallStack.census Frame.claiming s'.stack + 1 =
      CallStack.census Frame.claiming s.stack := hcensus Frame.claiming
  have hlog : s'.log = .drained :: s.log := by rw [hs']; rfl
  have hdrained : s'.log.count .drained = s.log.count .drained + 1 := by
    rw [hlog, List.count_cons_self]
  have hbegun : CountingScope.begun s' = CountingScope.begun s := by
    rw [CountingScope.begun, CountingScope.begun]
    omega
  have hone := h.begun
  have hpos : 0 < CountingScope.begun s := by
    rw [CountingScope.begun]
    omega
  have hword : s'.word = s.word := by rw [hs']; rfl
  have hclosed := h.closed hpos
  refine ⟨?_, by omega, ?_, fun _ => hword.trans hclosed, ?_, fun _ _ _ _ => by omega,
    fun _ => Or.inr (by omega), ?_, fun _ _ => hword.trans hclosed⟩
  · rw [hlog]
    exact ⟨h.order, (by simp)⟩
  · rw [hword, hbegun]
    exact h.running
  · rw [hdrained, hs']
    exact ⟨fun _ => Nat.succ_pos _, fun _ => rfl⟩
  · rintro (hjoining | hclaim)
    · rw [hword] at hjoining
      have hzero := h.running hjoining
      omega
    · rw [CountingScope.begun] at hone
      omega

end Phases

end Bexec.CountingScope
