import Bexec.CountingScope.Accounting

/-!
# Contract of the packed word

The joined word is final, and in every reachable state the word agrees exactly
with the handles.
-/

namespace Bexec.CountingScope

open Foundation

variable {Thread Handle Join : Type} [Fintype Thread] [DecidableEq Thread] [DecidableEq Handle]
  [DecidableEq Join] {s s' : State Thread Handle Join} {t : Thread}
  {rest : List (Frame Handle Join)}

/-- Calls of `try_associate` that succeeded. -/
def successes (log : List (Event Handle Join)) : Nat :=
  log.countP (fun event => match event with
    | .associated _ => true
    | _ => false)

/-- The joined word is final: no later call succeeds. -/
theorem ScopeInv.closed_frameStep (hs : ScopeInv s) {weak : Bool} {frame : Frame Handle Join}
    (hstack : s.stack t = frame :: rest) (hclosed : s.word = closedBit)
    (hstep : frame.step s t rest weak = some s') :
    s'.word = closedBit ∧ successes s'.log = successes s.log := by
  cases frame with
  | tryAssociate target source bits =>
      cases hstep
      cases bits with
      | none => exact ⟨hclosed, rfl⟩
      | some bits =>
          simp only [State.tryAssociate]
          split
          · exact ⟨hclosed, rfl⟩
          next hopen =>
            split
            next hcas =>
              rw [← hcas.1, hclosed] at hopen
              exact absurd (by decide) hopen
            next => exact ⟨hclosed, rfl⟩
  | disassociate after bits =>
      have hpos : 0 < associations s.word :=
        hs.release_pos (by rw [hstack]; exact List.mem_cons_self)
      rw [hclosed, associations_closedBit] at hpos
      cases hpos
  | completeRegisteredJoins after =>
      simp only [Frame.step] at hstep
      split at hstep <;> cases hstep
      exact ⟨hclosed, rfl⟩
  | drain after list =>
      cases hstep
      cases list <;> exact ⟨hclosed, rfl⟩
  | completeDeferred after list => cases hstep
  | transfer target source =>
      cases hstep
      exact ⟨hclosed, rfl⟩
  | startJoin waiter bits =>
      cases hstep
      cases bits with
      | none => exact ⟨hclosed, rfl⟩
      | some bits =>
          simp only [State.startJoin]
          split
          next hcas =>
            split
            · exact ⟨rfl, rfl⟩
            next hne =>
              rw [← hcas.1, hclosed] at hne
              exact absurd (by decide) hne
          next => exact ⟨hclosed, rfl⟩
  | registerJoiner waiter head =>
      cases hstep
      cases head with
      | none => exact ⟨hclosed, rfl⟩
      | some joiners =>
          cases joiners with
          | sentinel => exact ⟨hclosed, rfl⟩
          | list head =>
              simp only [State.registerJoiner]
              split <;> exact ⟨hclosed, rfl⟩

theorem ScopeInv.closed_step (hs : ScopeInv s) {a : Action Thread Handle Join}
    (hclosed : s.word = closedBit) (hstep : CountingScope.step s a = some s') :
    s'.word = closedBit ∧ successes s'.log = successes s.log := by
  cases a with
  | run t weak =>
      simp only [CountingScope.step] at hstep
      split at hstep
      · cases hstep
      next hstack => exact hs.closed_frameStep hstack hclosed hstep
  | ret t =>
      simp only [CountingScope.step] at hstep
      split at hstep <;> cases hstep
      exact ⟨hclosed, rfl⟩
  | close t =>
      simp only [CountingScope.step, Option.ite_none_right_eq_some, Option.some.injEq] at hstep
      obtain ⟨_, rfl⟩ := hstep
      refine ⟨?_, rfl⟩
      rw [hclosed]
      exact BitVec.or_self
  | associateFrom t h source | destroy t h =>
      simp only [CountingScope.step, Option.ite_none_right_eq_some] at hstep
      obtain ⟨_, hstep⟩ := hstep
      split at hstep <;> cases hstep <;> exact ⟨hclosed, rfl⟩
  | moveAssign t h source =>
      simp only [CountingScope.step, Option.ite_none_right_eq_some] at hstep
      obtain ⟨_, hstep⟩ := hstep
      split at hstep
      · cases hstep
        exact ⟨hclosed, rfl⟩
      · split at hstep <;> cases hstep <;> exact ⟨hclosed, rfl⟩
  | _ =>
      simp only [CountingScope.step, Option.ite_none_right_eq_some, Option.some.injEq] at hstep
      obtain ⟨_, rfl⟩ := hstep
      exact ⟨hclosed, rfl⟩

theorem closed_run (hs : (machine Thread Handle Join).Reachable s)
    {trace : List (State Thread Handle Join × Action Thread Handle Join)}
    (hrun : (machine Thread Handle Join).Run s trace s') (hclosed : s.word = closedBit) :
    s'.word = closedBit ∧ successes s'.log = successes s.log := by
  induction hrun with
  | nil => exact ⟨hclosed, rfl⟩
  | snoc hrun hstep ih =>
      obtain ⟨hword, hcount⟩ := (scopeInv_of_reachable (hs.run hrun)).closed_step ih.1 hstep
      exact ⟨hword, hcount.trans ih.2⟩

/-- What the packed word says about the handles. -/
structure WordContract (s : State Thread Handle Join) : Prop where
  packed : s.word = makeWord (countOf s.word) (stateOf s.word)
  state : stateOf s.word ∈ [(0 : Word), 1, 2, 3, 6, 7]
  joining : stateOf s.word ∈ [(6 : Word), 7] → 0 < associations s.word
  idle : stateOf s.word ∈ [(0 : Word), 1] → associations s.word = 0
  /-- Engaged handles, and releases that have not decremented the count yet. -/
  exact : associations s.word = s.engaged.card + pendingReleases s
  bounded : associations s.word ≤ maxAssociations.toNat
  /-- The assertion in `disassociate` never fails. -/
  asserted : ∀ t after bits, .disassociate after (some bits) ∈ s.stack t → 0 < associations bits
  /-- The joined word is final. -/
  closed : s.word = closedBit → ∀ trace s', (machine Thread Handle Join).Run s trace s' →
    s'.word = closedBit ∧ successes s'.log = successes s.log

theorem word_contract (hs : (machine Thread Handle Join).Reachable s) : WordContract s := by
  have hinv := scopeInv_of_reachable hs
  have hmid : ∀ st ∈ [(2 : Word), 3], st ∉ [(6 : Word), 7] ∧ st ∉ [(0 : Word), 1] :=
    forall_of_all (by decide)
  have hlow : ∀ st ∈ [(0 : Word), 1], st ∉ [(6 : Word), 7] := forall_of_all (by decide)
  refine ⟨(makeWord_of s.word).symm, hinv.legal.state, ?_, ?_, hinv.count, associations_le s.word,
    ?_, fun hclosed trace s' hrun => closed_run hs hrun hclosed⟩
  · intro hjoining
    rcases hinv.legal with ⟨hstate, _⟩ | hstate | ⟨_, hpos⟩
    · exact absurd hjoining (hlow _ hstate)
    · exact absurd hjoining (hmid _ hstate).1
    · exact hpos
  · intro hidle
    rcases hinv.legal with ⟨_, hzero⟩ | hstate | ⟨hstate, _⟩
    · exact hzero
    · exact absurd hidle (hmid _ hstate).2
    · exact absurd hstate (hlow _ hidle)
  · exact fun t after bits hframe => hinv.loaded t _ hframe

/-- One handle is obtained, a join starts, a second handle is refused, and a
move assignment releases the first. -/
def joinRun : List (Action Pair Pair Unit) :=
  List.flatten
    [[.associate .first .first], List.replicate 2 (.run .first false), [.join .second ()],
      List.replicate 4 (.run .second false), [.close .second, .associate .second .second],
      List.replicate 2 (.run .second false), [.moveAssign .first .first .second],
      List.replicate 2 (.run .first false)]

set_option maxRecDepth 4000 in
theorem word_contract_joinRun :
    ∃ s : State Pair Pair Unit, WordContract s ∧ s.word = closedBit ∧ successes s.log = 1 ∧
      s.stack .first = [.completeRegisteredJoins (.transfer .first .second)] := by
  refine ⟨_, word_contract (Machine.reachable_replay rfl joinRun (by decide)), ?_⟩
  decide

end Bexec.CountingScope
