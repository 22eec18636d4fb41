import Bexec.WhenAll.Stacks

/-!
# The contract of `when_all`

The receiver is completed: a completion function goes on until it returns, and
when all children have completed and no completion function is left, the
terminal signal has been sent, with the result the children determine.
-/

namespace Bexec.WhenAll

open Foundation StopToken

variable {Thread Record Value Error : Type} {n : Nat} {children : Children n Value Error}
  {owner : Record → Fin n} {op op' : Operation Thread n Value Error}

variable [DecidableEq Thread] [Fintype Thread]

omit [DecidableEq Thread] in
/-- A child that has completed and has no frame is done. -/
theorem StackInv.done {calls : Thread → List (Call Record (Code n))}
    (h : StackInv owner op calls) (hop : OpInv children op) {k : Fin n}
    (hcompleted : .completed k ∈ op.log) (hnone : ∀ t, .client (.child k) ∉ calls t) :
    op.children k = .done := by
  obtain ⟨hunstarted, hrunning⟩ := (hop.child k).completed.mp hcompleted
  have hcensus : CallStack.census (isChild k) calls = 0 := by
    rw [CallStack.census_eq_zero]
    intro t call hcall
    cases hchild : isChild k call with
    | false => rfl
    | true =>
        cases call with
        | client code =>
            cases code with
            | child j =>
                obtain rfl : j = k := by simpa [isChild] using hchild
                exact absurd hcall (hnone t)
            | _ => cases hchild
        | _ => cases hchild
  rw [h.child k] at hcensus
  cases hpc : op.children k with
  | unstarted => exact absurd hpc hunstarted
  | running => exact absurd hpc hrunning
  | done => rfl
  | _ =>
      rw [hpc] at hcensus
      cases hcensus

omit [DecidableEq Thread] in
theorem StackInv.active {calls : Thread → List (Call Record (Code n))}
    (h : StackInv owner op calls) {t : Thread} {k : Fin n} (hmem : .client (.child k) ∈ calls t) :
    (op.children k).active = true := by
  have hpos : 0 < CallStack.census (isChild k) calls :=
    CallStack.census_pos.mpr ⟨t, _, hmem, by simp [isChild]⟩
  rw [h.child k] at hpos
  cases hactive : (op.children k).active with
  | true => rfl
  | false => simp [hactive] at hpos

/-! ## A completion function goes on -/

/-- A completion function on top of its stack is not waiting for `request_stop`. -/
def TopsMove (s : State Thread Record n Value Error) : Prop :=
  ∀ t k rest, s.source.calls t = .client (.child k) :: rest → s.op.children k ≠ .stopping

section Tops

variable {s s' : State Thread Record n Value Error} {t : Thread} {k : Fin n}

omit [DecidableEq Thread] [Fintype Thread] in
theorem Progress.not_stopping (h : Progress children t k op op') :
    op'.children k ≠ .stopping := by
  cases h with
  | win hpc hfree =>
      change Function.update op.children k (children.outcome k).wonPc k ≠ .stopping
      rw [Function.update_self]
      cases children.outcome k <;> simp [Signal.wonPc]
  | emplace | lose | storeError | decrement | resetOnStop | loadTerminal =>
      simp [Operation.setPc]

omit [Fintype Thread] in
/-- Only its own call of `request_stop` makes a child wait. -/
theorem Effect.stopping (heffect : Effect children owner s s' t)
    (hpc : s'.op.children k = .stopping) :
    s.op.children k = .stopping ∨
      (∃ rest, s.source.calls t = .client (.child k) :: rest ∧
        s'.source.calls t = .requesting :: .client (.child k) :: rest) := by
  have hsame : ∀ {j} pc, s'.op.children = Function.update s.op.children j pc → pc ≠ .stopping →
      s.op.children k = .stopping := by
    intro j pc hchildren hpc'
    rw [hchildren] at hpc
    by_cases heq : k = j
    · subst heq
      rw [Function.update_self] at hpc
      exact absurd hpc hpc'
    · rwa [Function.update_of_ne heq] at hpc
  cases heffect with
  | call _ _ _ _ _ hop | inside _ _ _ _ _ _ hop | returns _ _ _ _ _ hop | start _ _ hop
  | register _ _ _ _ hop | registerLate _ _ hop | leave _ _ _ _ hop | stop _ _ hop
  | request _ _ hop | stopped _ _ hop =>
      rw [hop] at hpc
      exact Or.inl hpc
  | resume j below hstack hpc' hrequested hop =>
      exact Or.inl (hsame (j := j) .decrement (by rw [hop]; rfl) (by simp))
  | startChild j rest hstack hj hop =>
      exact Or.inl (hsame (j := j) .running (by rw [hop]; rfl) (by simp))
  | complete j huser hrunning hown hop =>
      refine Or.inl (hsame (j := j) (children.outcome j).firstPc (by rw [hop]; rfl) ?_)
      cases children.outcome j <;> simp [Signal.firstPc]
  | progress j rest hstack hop =>
      obtain ⟨pc, hchildren, -⟩ := hop.moves
      refine Or.inl (hsame _ hchildren ?_)
      rintro rfl
      exact hop.not_stopping (by rw [hchildren, Function.update_self])
  | childRequest j rest hstack hpc' hop hcalls =>
      by_cases heq : k = j
      · subst heq
        exact Or.inr ⟨rest, hstack, by rw [hcalls, Function.update_self]⟩
      · rw [hop] at hpc
        exact Or.inl ((Function.update_of_ne heq _ _).symm.trans hpc)
  | childReturns j rest hstack hop =>
      exact Or.inl (hsame _ hop.moves.1 (by simp))

/-- The completion function a step leaves on top of the stack of its thread goes on. -/
theorem Effect.top_moves (heffect : Effect children owner s s' t)
    (h : StackInv owner s.op s.source.calls) {rest : List (Call Record (Code n))}
    (htop : s'.source.calls t = .client (.child k) :: rest) : s'.op.children k ≠ .stopping := by
  -- A call that returns, other than `request_stop`, was not made by a completion function.
  have hbelow : ∀ {top below}, s.source.calls t = top :: below →
      below = .client (.child k) :: rest →
      top = .requesting ∧ s.op.children k = .stopping := by
    intro top below hstack heq
    subst heq
    have hrule : MayStand s.op top (some (.client (.child k))) := by
      have hnested := h.nested t
      rw [hstack] at hnested
      exact hnested.1
    cases top with
    | requesting => exact ⟨rfl, hrule⟩
    | _ => cases hrule
  cases heffect with
  | call r call huser hcall hrunning hop hcalls =>
      rw [hcalls, Function.update_self] at htop
      rcases hcall with rfl | rfl <;> cases htop
  | inside top new below hstack hclient hnew hop hcalls =>
      rw [hcalls, Function.update_self] at htop
      cases htop
      exact absurd rfl (Continues.ne_client hnew hclient _)
  | returns top below hstack hclient hcaller hop hcalls =>
      rw [hcalls, Function.update_self] at htop
      obtain ⟨hrequesting, hstopping⟩ := hbelow hstack htop
      exact absurd hstopping (hcaller hrequesting k rest htop)
  | resume j below hstack hpc hrequested hop hcalls =>
      rw [hcalls, Function.update_self] at htop
      cases htop
      simp [hop, Operation.setPc]
  | complete j huser hrunning hown hop hcalls =>
      rw [hcalls, Function.update_self] at htop
      cases htop
      rw [hop]
      cases hfirst : children.outcome k <;> simp [Operation.setPc, Signal.firstPc]
  | progress j below hstack hop hcalls =>
      rw [hcalls, hstack] at htop
      cases htop
      exact hop.not_stopping
  | leave code below hstack hcode hop hcalls =>
      rw [hcalls, Function.update_self] at htop
      cases (hbelow hstack htop).1
  | stopped below hstack hop hcalls =>
      rw [hcalls, Function.update_self] at htop
      cases (hbelow hstack htop).1
  | childReturns j below hstack hop hcalls =>
      rw [hcalls, Function.update_self] at htop
      cases (hbelow hstack htop).1
  | start _ _ _ hcalls | register _ _ _ _ _ hcalls | registerLate _ _ _ hcalls
  | startChild _ _ _ _ _ hcalls | stop _ _ _ hcalls | request _ _ _ hcalls
  | childRequest _ _ _ _ _ hcalls =>
      rw [hcalls, Function.update_self] at htop
      cases htop

omit [Fintype Thread] in
/-- The other stacks stay. -/
theorem Effect.calls_other (heffect : Effect children owner s s' t) {u : Thread} (hu : u ≠ t) :
    s'.source.calls u = s.source.calls u := by
  cases heffect with
  | progress _ _ _ _ hcalls => rw [hcalls]
  | call _ _ _ _ _ _ hcalls | inside _ _ _ _ _ _ _ hcalls | returns _ _ _ _ _ _ hcalls
  | resume _ _ _ _ _ _ hcalls | start _ _ _ hcalls | register _ _ _ _ _ hcalls
  | registerLate _ _ _ hcalls | startChild _ _ _ _ _ hcalls | leave _ _ _ _ _ hcalls
  | stop _ _ _ hcalls | request _ _ _ hcalls | stopped _ _ _ hcalls | complete _ _ _ _ _ hcalls
  | childRequest _ _ _ _ _ hcalls | childReturns _ _ _ _ hcalls =>
      rw [hcalls, Function.update_of_ne hu]

theorem Effect.topsMove (heffect : Effect children owner s s' t)
    (hstacks : StackInv owner s.op s.source.calls) (h : TopsMove s) : TopsMove s' := by
  intro u k rest htop hpc
  by_cases hu : u = t
  · subst hu
    exact heffect.top_moves hstacks htop hpc
  · rw [heffect.calls_other hu] at htop
    rcases heffect.stopping hpc with hbefore | ⟨below, hstack, -⟩
    · exact h u k rest htop hbefore
    · have hcensus : CallStack.census (isChild k) s.source.calls ≤ 1 := by
        rw [hstacks.child k]
        exact Bool.toNat_le _
      obtain ⟨-, hothers⟩ := CallStack.not_elsewhere [] hcensus hstack (by simp [isChild])
      have hnot := hothers u hu (.client (.child k)) (by rw [htop]; exact List.mem_cons_self)
      simp [isChild] at hnot

end Tops

variable [DecidableEq Record] {s s' : State Thread Record n Value Error}

/-- The operation at any time, with the stacks of its calls. -/
structure ContractInv (children : Children n Value Error) (owner : Record → Fin n)
    (s : State Thread Record n Value Error) : Prop where
  whenAll : WhenAllInv children s
  frames : StackInv owner s.op s.source.calls
  tops : TopsMove s

theorem ContractInv.step (h : ContractInv children owner s) {a : Action Thread Record n}
    (hstep : WhenAll.step children owner s a = some s') : ContractInv children owner s' := by
  have heffect := step_effect (inv_of_reachable h.whenAll.source) hstep
  exact ⟨h.whenAll.step hstep, heffect.stackInv h.whenAll.op h.frames,
    heffect.topsMove h.frames h.tops⟩

end Bexec.WhenAll
