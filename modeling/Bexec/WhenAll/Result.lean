import Bexec.WhenAll.Accounting

/-!
# The result of `when_all`

Whatever the arrival order, the operation finishes once, after the last child,
and completes the receiver with the values of all children or with the signal of
the child that won the terminal exchange.
-/

namespace Bexec.WhenAll

open Foundation StopToken

variable {Thread Record Value Error : Type} {n : Nat} {children : Children n Value Error}
  {op : Operation Thread n Value Error}

theorem Children.sendsValues_of_value (hall : ∀ k, (children.outcome k).kind = .none) :
    children.sendsValues = true := by
  simp only [sendsValues, List.all_eq_true]
  intro k _
  cases houtcome : children.outcome k with
  | value values => exact children.declared k values houtcome
  | error | stopped =>
      have hkind := hall k
      rw [houtcome] at hkind
      cases hkind

/-- Every slot is full when every child sent a value and none is outstanding. -/
theorem OpInv.tupleCatValues (h : OpInv children op)
    (hdone : ∀ k, (op.children k).outstanding = false)
    (hall : ∀ k, (children.outcome k).kind = .none) :
    op.tupleCatValues = some children.concatenation := by
  have hvalues : op.values = fun k => pure (children.outcome k).tuple := by
    funext k
    cases houtcome : children.outcome k with
    | value values =>
        exact (h.child k).slot values houtcome (by simp [ChildPc.arrived, hdone k])
    | error | stopped =>
        have hkind := hall k
        rw [houtcome] at hkind
        cases hkind
  rw [Operation.tupleCatValues, hvalues, List.mapM_pure]
  simp [Children.concatenation, List.flatMap]

/-- When no child is outstanding, the terminal state names a complete result. -/
theorem OpInv.result (h : OpInv children op) (hdone : ∀ k, (op.children k).outstanding = false) :
    ∃ signal, op.result children op.terminal = some signal ∧ Expected children op.log signal := by
  have harrived : ∀ k, (op.children k).arrived = true := fun k => by
    simp [ChildPc.arrived, hdone k]
  by_cases hterminal : op.terminal = .none
  · have hall : ∀ k, (children.outcome k).kind = .none := by
      intro k
      by_contra hkind
      exact (h.child k).lost (harrived k) hkind hterminal
    refine ⟨.value children.concatenation, ?_, Or.inl ⟨rfl, hall⟩⟩
    rw [hterminal, Operation.result, if_pos (children.sendsValues_of_value hall),
      h.tupleCatValues hdone hall]
    rfl
  · obtain ⟨k, hwon⟩ := h.terminal hterminal
    obtain ⟨hkind, hne, -⟩ := (h.child k).won hwon
    refine ⟨children.outcome k, ?_, Or.inr ⟨k, hwon, rfl, hne⟩⟩
    rw [hkind]
    cases houtcome : children.outcome k with
    | value values =>
        rw [houtcome] at hne
        exact absurd rfl hne
    | error error =>
        have hpc : op.children k ≠ .storeError := by
          intro hpc
          have houtstanding := hdone k
          rw [hpc] at houtstanding
          cases houtstanding
        change op.error.map Signal.error = _
        rw [(h.child k).stored error hwon houtcome hpc]
        rfl
    | stopped => rfl

/-- Nobody is outstanding while a child finishes. -/
theorem OpInv.done_of_finishing (h : OpInv children op) {k : Fin n}
    (hk : (op.children k).finishing = true) (j : Fin n) : (op.children j).outstanding = false := by
  by_contra hj
  have hfinishing := h.not_finishing (Bool.eq_true_of_not_eq_false hj) k
  rw [hk] at hfinishing
  cases hfinishing

/-- A finishing child finds its result. -/
theorem OpInv.deliver_result (h : OpInv children op) {k : Fin n} {final : TerminalKind}
    (hpc : op.children k = .deliver final) :
    ∃ signal, op.result children final = some signal ∧ Expected children op.log signal := by
  rw [(h.child k).final final hpc]
  exact h.result (h.done_of_finishing (k := k) (by rw [hpc]; rfl))

theorem Progress.opInv {t : Thread} {k : Fin n} {op' : Operation Thread n Value Error}
    (hstep : Progress children t k op op') (h : OpInv children op) : OpInv children op' := by
  cases hstep with
  | emplace hpc houtcome => exact h.emplace hpc houtcome
  | win hpc hfree => exact h.win hpc hfree
  | lose hpc htaken => exact h.lose hpc htaken
  | storeError hpc houtcome => exact h.storeError hpc houtcome
  | decrement hpc hlast => exact h.decrementLast hpc hlast
  | resetOnStop hpc => exact h.finish .loadTerminal (by rw [hpc]; rfl) rfl (by simp) _
  | loadTerminal hpc =>
      refine h.finish _ (by rw [hpc]; rfl) rfl ?_ op.onStop
      intro kind hkind
      cases hkind
      rfl

theorem Return.opInv {k : Fin n} {op' : Operation Thread n Value Error}
    (hstep : Return children k op op') (h : OpInv children op) : OpInv children op' := by
  cases hstep with
  | decrement hpc hlast => exact h.decrement hpc hlast
  | deliver hpc hresult =>
      obtain ⟨signal, hsignal, hexpected⟩ := h.deliver_result hpc
      rw [hresult] at hsignal
      cases hsignal
      exact h.deliver hpc hexpected

/-- The stop callback and the start of the operation do not enter the accounting. -/
theorem OpInv.keep (h : OpInv children op) (onStop : OnStop Thread) (begun : Bool) :
    OpInv children { op with onStop := onStop, begun := begun } :=
  { child := fun k =>
      let hk := h.child k
      { completed := hk.completed, decremented := hk.decremented, emplace := hk.emplace,
        exchange := hk.exchange, storeError := hk.storeError, slot := hk.slot,
        winning := hk.winning, won := hk.won, stored := hk.stored, lost := hk.lost,
        final := hk.final },
    terminal := h.terminal, unique := h.unique, unstarted := h.unstarted,
    remaining := h.remaining, finishes := h.finishes, deliveries := h.deliveries,
    delivered := h.delivered }

variable [DecidableEq Thread] {owner : Record → Fin n} {s s' : State Thread Record n Value Error}
  {t : Thread}

theorem Effect.opInv (heffect : Effect children owner s s' t) (h : OpInv children s.op) :
    OpInv children s'.op := by
  cases heffect with
  | call _ _ _ _ _ hop | inside _ _ _ _ _ _ hop | returns _ _ _ _ _ hop
  | leave _ _ _ _ hop | request _ _ hop =>
      rw [hop]
      exact h
  | resume _ _ _ hpc _ hop =>
      rw [hop]
      exact h.winner (by rw [hpc]; rfl) (by simp [hpc]) (Or.inr rfl)
  | childRequest _ _ _ hpc hop =>
      rw [hop]
      exact h.winner (by rw [hpc]; rfl) (by simp [hpc]) (Or.inl rfl)
  | start _ _ hop | register _ _ _ _ hop | registerLate _ _ hop | stop _ _ hop
  | stopped _ _ hop =>
      rw [hop]
      exact h.keep _ _
  | startChild _ _ _ hk hop =>
      rw [hop]
      exact h.startChild hk
  | complete _ _ hrunning _ hop =>
      rw [hop]
      exact h.complete hrunning
  | progress _ _ _ hop => exact hop.opInv h
  | childReturns _ _ _ hop => exact hop.opInv h

/-- A winner that has arrived at its decrement has requested stop. -/
def Requested (s : State Thread Record n Value Error) : Prop :=
  ∀ k, .won k ∈ s.op.log → (s.op.children k).arrived = true →
    s.source.memory.stopRequested = true

/-- The winner only arrives by returning from `request_stop`. -/
def Arrivals (op op' : Operation Thread n Value Error) : Prop :=
  ∀ k, .won k ∈ op'.log → (op'.children k).arrived = true →
    .won k ∈ op.log ∧ (op.children k).arrived = true

section Arrivals

omit [DecidableEq Thread]

variable {op' : Operation Thread n Value Error} {k : Fin n}

/-- A step of one child to a place it may have arrived at before. -/
theorem OpInv.arrivals (h : OpInv children op) (pc : ChildPc)
    (hchildren : op'.children = Function.update op.children k pc)
    (hwon : ∀ j, .won j ∈ op'.log → .won j ∈ op.log ∨ j = k ∧ pc.arrived = false)
    (hpc : pc.arrived = true → (op.children k).arrived = true ∨ (op.children k).winning = false) :
    Arrivals op op' := by
  intro j hj harrived
  rw [hchildren] at harrived
  by_cases heq : j = k
  · subst heq
    rw [Function.update_self] at harrived
    have hold : .won j ∈ op.log := by
      rcases hwon j hj with hold | ⟨-, hnot⟩
      · exact hold
      · rw [harrived] at hnot
        cases hnot
    refine ⟨hold, ?_⟩
    rcases hpc harrived with harrived | hwinning
    · exact harrived
    · rcases ((h.child j).won hold).2.2 with htrue | htrue
      · rw [hwinning] at htrue
        cases htrue
      · exact htrue
  · rw [Function.update_of_ne heq] at harrived
    refine ⟨?_, harrived⟩
    rcases hwon j hj with hold | ⟨hk, -⟩
    · exact hold
    · exact absurd hk heq

theorem Progress.arrivals {t : Thread} (hstep : Progress children t k op op')
    (h : OpInv children op) : Arrivals op op' := by
  cases hstep with
  | emplace hpc houtcome | lose hpc htaken | storeError hpc houtcome =>
      refine h.arrivals _ rfl (fun _ hj => Or.inl hj) ?_
      rw [hpc]
      decide
  | win hpc hfree =>
      have hwonPc : (children.outcome k).wonPc.arrived = false := by
        cases children.outcome k <;> rfl
      refine h.arrivals _ rfl ?_ (fun harrived => ?_)
      · intro j hj
        rcases List.mem_cons.mp hj with heq | hj
        · cases heq
          exact Or.inr ⟨rfl, hwonPc⟩
        · exact Or.inl hj
      · rw [hwonPc] at harrived
        cases harrived
  | decrement hpc hlast =>
      refine h.arrivals _ rfl ?_ ?_
      · intro j hj
        exact Or.inl (by simpa [Operation.setPc, Operation.record] using hj)
      · rw [hpc]
        decide
  | resetOnStop hpc | loadTerminal hpc =>
      refine h.arrivals _ rfl (fun _ hj => Or.inl hj) ?_
      rw [hpc]
      exact fun _ => Or.inl rfl

theorem Return.arrivals (hstep : Return children k op op') (h : OpInv children op) :
    Arrivals op op' := by
  cases hstep with
  | decrement hpc | deliver hpc =>
      refine h.arrivals _ rfl ?_ ?_
      · intro j hj
        exact Or.inl (by simpa [Operation.setPc, Operation.record] using hj)
      · rw [hpc]
        exact fun _ => Or.inl rfl

end Arrivals

/-- Only the return of `request_stop` makes a winner arrive. -/
theorem Effect.arrivals (heffect : Effect children owner s s' t) (h : OpInv children s.op) :
    Arrivals s.op s'.op ∨ s'.source.memory.stopRequested = true := by
  cases heffect with
  | call _ _ _ _ _ hop | inside _ _ _ _ _ _ hop | returns _ _ _ _ _ hop
  | leave _ _ _ _ hop | request _ _ hop | start _ _ hop | register _ _ _ _ hop
  | registerLate _ _ hop | stop _ _ hop | stopped _ _ hop =>
      refine Or.inl ?_
      rw [hop]
      exact fun _ hwon harrived => ⟨hwon, harrived⟩
  | resume _ _ _ _ hrequested => exact Or.inr hrequested
  | childRequest k _ _ hpc hop =>
      refine Or.inl (h.arrivals (k := k) .stopping (by rw [hop]; rfl) ?_ (by rintro ⟨⟩))
      rw [hop]
      exact fun _ hj => Or.inl hj
  | startChild k _ _ _ hop =>
      refine Or.inl (h.arrivals (k := k) .running (by rw [hop]; rfl) ?_ (by rintro ⟨⟩))
      rw [hop]
      exact fun _ hj => Or.inl hj
  | complete k _ hrunning _ hop =>
      refine Or.inl (h.arrivals (k := k) (children.outcome k).firstPc (by rw [hop]; rfl) ?_ ?_)
      · rw [hop]
        intro j hj
        exact Or.inl (by simpa [Operation.setPc, Operation.record] using hj)
      · cases children.outcome k <;> rintro ⟨⟩
  | progress _ _ _ hop => exact Or.inl (hop.arrivals h)
  | childReturns _ _ _ hop => exact Or.inl (hop.arrivals h)

variable [DecidableEq Record] [Fintype Thread]

/-- The operation at any time: its stop source is one, its children are accounted
for, and a winner that has arrived has requested stop. -/
structure WhenAllInv (children : Children n Value Error) (s : State Thread Record n Value Error) :
    Prop where
  source : (StopToken.machine Thread Record (Code n)).Reachable s.source
  op : OpInv children s.op
  requested : Requested s

theorem WhenAllInv.step (h : WhenAllInv children s) {a : Action Thread Record n}
    (hstep : WhenAll.step children owner s a = some s') : WhenAllInv children s' := by
  have hsource := step_source hstep
  have heffect := step_effect (inv_of_reachable h.source) hstep
  refine ⟨hsource.reachable h.source, heffect.opInv h.op, ?_⟩
  intro k hwon harrived
  rcases heffect.arrivals h.op with harrivals | hrequested
  · obtain ⟨hwon, harrived⟩ := harrivals k hwon harrived
    exact hsource.stopRequested h.source (h.requested k hwon harrived)
  · exact hrequested

theorem whenAllInv_of_reachable (hn : 0 < n) (hs : (machine Thread children owner).Reachable s) :
    WhenAllInv children s := by
  refine Machine.Reachable.invariant (P := WhenAllInv children) ?_ ?_ hs
  · rintro s rfl
    exact ⟨.initial rfl, .initial hn, by simp [Requested, State.initial, Operation.initial]⟩
  · rintro s a s' - h hstep
    exact h.step hstep

end Bexec.WhenAll
