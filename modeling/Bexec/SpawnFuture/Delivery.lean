import Bexec.SpawnFuture.Duties

/-!
# The stop callback and what the receiver is completed with

The callback object is destroyed before the receiver is completed, and a party
that is to destroy the state afterwards has waited for the callback to return.
-/

namespace Bexec.SpawnFuture

open Foundation

variable {Thread Value Error : Type} {t : Thread} {op op' : Operation Thread Value Error}
  {p : Party} {x y : Pc}

/-- The callback object is destroyed, and its callback does not run. -/
def Gone (op : Operation Thread Value Error) : Prop :=
  op.onStop = .reset ∧ (op.pc .cancel = .idle ∨ op.pc .cancel = .done)

structure CallbackInv (op : Operation Thread Value Error) : Prop where
  child : (op.pc .child).after = true → Gone op
  owner : (op.pc .owner).after = true ∨ op.begun = true ∧ op.pc .owner = .destroy → Gone op
  childDestroys : op.pc .child = .destroy →
    op.state.abandoned = true ∨ op.state.stopped = true ∨ Gone op
  childResets : (op.pc .child).resets = true → (op.pc .cancel).cancels = false ∧
    (op.pc .cancel).isTail = false
  cancel : (op.pc .cancel).after = true → op.onStop = .reset
  signalled : op.signals ≠ [] → op.onStop = .reset
  right : op.onStop = .reset → 1 ≤ op.count Pc.signals + op.signals.length

/-- A party is behind `reset` because it was, or because it has just destroyed the
callback object. -/
theorem Move.after_cases [DecidableEq Thread] (hop : Move t op op') {q : Party}
    (hafter : (op'.pc q).after = true) :
    (op.pc q).after = true ∨ ∃ stored, op.pc q = .reset stored ∧
      op' = { op with onStop := .reset }.setPc q (.signal stored) ∧
        (q ≠ .cancel → ∀ u, op.onStop ≠ .running u) := by
  have hother : ∀ {p y}, op'.pc = Function.update op.pc p y → y.after = false →
      (op.pc q).after = true := by
    intro p y hmoved hy
    rw [hmoved] at hafter
    by_cases hq : q = p
    · subst hq
      rw [Function.update_self, hy] at hafter
      cases hafter
    · rwa [Function.update_of_ne hq] at hafter
  cases hop with
  | same | hold => exact .inl hafter
  | spawn | reject | request => exact .inl (hother rfl rfl)
  | registerLate hpc =>
      left
      by_cases hcancel : q = .cancel
      · subst hcancel
        simp [Operation.setPc, Pc.after] at hafter
      · by_cases howner : q = .owner
        · subst howner
          simp [Operation.setPc, Pc.after] at hafter
        · simpa [Operation.setPc, hcancel, howner] using hafter
  | @resume p hpc => exact .inl (hother rfl (by cases p <;> rfl))
  | leave => exact .inl (hother rfl rfl)
  | enter hop => cases hop <;> exact .inl (hother rfl rfl)
  | @progress p _ hop hclear =>
      cases hop with
      | @reset stored hpc hresult hwait =>
          by_cases hq : q = p
          · subst hq
            exact .inr ⟨stored, hpc, rfl, hclear (by rw [hpc]; rfl)⟩
          · left
            simpa [Operation.setPc, hq] using hafter
      | @signal stored hpc completion hsignal =>
          left
          by_cases hq : q = p
          · subst hq
            rw [hpc]
            rfl
          · simpa [Operation.setPc, hq] using hafter
      | lock | finish => exact .inl (hother rfl (by unfold Exit.pc; split <;> rfl))
      | @handled stored hpc => exact .inl (hother rfl (by cases stored <;> rfl))
      | _ => exact .inl (hother rfl rfl)

/-- A party that is to destroy the state next was so before, has completed the
receiver, or has been told so in a section. -/
theorem Move.destroy_cases [DecidableEq Thread] (hop : Move t op op') {q : Party}
    (hdestroy : op'.pc q = .destroy) :
    op.pc q = .destroy ∨ op.pc q = .handler true ∨
      op.pc q = .reset true ∧ op.state.result = none ∨
      op.pc q = .lock ∧ (op.locked q).1 = .destroy ∧ op' = op.exit q (op.locked q) ∨
      op.pc q = .finish ∧ op.state.finishCancellation.1 = .destroy := by
  have hother : ∀ {p y}, op'.pc = Function.update op.pc p y → y ≠ .destroy →
      op.pc q = .destroy := by
    intro p y hmoved hy
    rw [hmoved] at hdestroy
    by_cases hq : q = p
    · subst hq
      rw [Function.update_self] at hdestroy
      exact absurd hdestroy hy
    · rwa [Function.update_of_ne hq] at hdestroy
  have hpc_destroy : ∀ exit : Exit, exit.pc = .destroy → exit = .destroy := by
    intro exit hpc
    cases exit <;> first | rfl | cases hpc
  cases hop with
  | same | hold => exact .inl hdestroy
  | spawn | reject | request | leave => exact .inl (hother rfl (by simp))
  | registerLate hpc =>
      left
      by_cases hcancel : q = .cancel
      · subst hcancel
        simp [Operation.setPc] at hdestroy
      · by_cases howner : q = .owner
        · subst howner
          simp [Operation.setPc] at hdestroy
        · simpa [Operation.setPc, hcancel, howner] using hdestroy
  | @resume p hpc => exact .inl (hother rfl (by cases p <;> simp [Party.requested]))
  | enter hop => cases hop <;> exact .inl (hother rfl (by simp))
  | @progress p _ hop hclear =>
      by_cases hq : q = p
      · subst hq
        cases hop with
        | lock hpc =>
            have hexit := hpc_destroy (op.locked q).1 (by
              simpa [Operation.exit, Operation.setPc] using hdestroy)
            exact .inr (.inr (.inr (.inl ⟨hpc, hexit, rfl⟩)))
        | finish hpc =>
            have hexit := hpc_destroy op.state.finishCancellation.1 (by
              simpa [Operation.exit, Operation.setPc] using hdestroy)
            exact .inr (.inr (.inr (.inr ⟨hpc, hexit⟩)))
        | skip hpc hresult => exact .inr (.inr (.inl ⟨hpc, hresult⟩))
        | @handled stored hpc =>
            cases stored with
            | true => exact .inr (.inl hpc)
            | false => simp [Operation.setPc] at hdestroy
        | _ => simp [Operation.setPc] at hdestroy
      · left
        cases hop <;> simpa [Operation.exit, Operation.setPc, hq] using hdestroy

/-- Flags that are never cleared. -/
theorem Move.flags [DecidableEq Thread] (hop : Move t op op') :
    (op.state.completed = true → op'.state.completed = true) ∧
      (op.state.stopped = true → op'.state.stopped = true) ∧
      (op.state.abandoned = true → op'.state.abandoned = true) := by
  have hexit : ∀ {p : Party} {after : Exit × FutureState Value Error},
      (op.state.completed = true → after.2.completed = true) ∧
        (op.state.stopped = true → after.2.stopped = true) ∧
        (op.state.abandoned = true → after.2.abandoned = true) →
      (op.state.completed = true → (op.exit p after).state.completed = true) ∧
        (op.state.stopped = true → (op.exit p after).state.stopped = true) ∧
        (op.state.abandoned = true → (op.exit p after).state.abandoned = true) := id
  cases hop with
  | enter hop => cases hop <;> exact ⟨id, id, id⟩
  | @progress p _ hop hclear =>
      cases hop with
      | lock hpc =>
          refine hexit ?_
          cases p with
          | child =>
              simp only [Operation.locked, FutureState.complete]
              split_ifs <;> simp
          | owner =>
              simp only [Operation.locked, FutureState.consume, FutureState.abandon]
              split_ifs <;> simp
          | cancel =>
              simp only [Operation.locked, FutureState.tryCancel]
              split_ifs <;> simp
      | finish hpc =>
          refine hexit ?_
          unfold FutureState.finishCancellation
          split_ifs <;> simp_all
      | _ => exact ⟨id, id, id⟩
  | _ => exact ⟨id, id, id⟩

/-- Only `start` sets the owner off. -/
theorem Move.begun [DecidableEq Thread] (hop : Move t op op') (hplaces : Places op)
    (howner : op.pc .owner ≠ .idle) : op'.begun = op.begun := by
  cases hop with
  | enter hop =>
      cases hop with
      | start hheld =>
          rw [hplaces.taken.mpr howner] at hheld
          cases hheld
      | _ => rfl
  | progress hop hclear => cases hop <;> rfl
  | _ => rfl

/-- Either nothing is signalled, or a party makes its last access before the receiver's
completion function. -/
theorem Move.signals_cases [DecidableEq Thread] (hop : Move t op op') :
    op'.signals = op.signals ∨ ∃ p stored, op.pc p = .signal stored := by
  cases hop with
  | enter hop => cases hop <;> exact .inl rfl
  | progress hop hclear =>
      cases hop with
      | signal hpc hsignal => exact .inr ⟨_, _, hpc⟩
      | _ => exact .inl rfl
  | _ => exact .inl rfl

theorem Move.reset_stays [DecidableEq Thread] (hop : Move t op op') (hplaces : Places op)
    (honStop : op.onStop = .reset) : op'.onStop = .reset := by
  have hregistered : op.pc .owner ≠ .register := by
    intro hpc
    have hempty := (hplaces.unregistered (.inr hpc)).1
    rw [honStop] at hempty
    cases hempty
  cases hop with
  | enter hop =>
      cases hop with
      | stop harmed =>
          rw [honStop] at harmed
          cases harmed
      | _ => exact honStop
  | registerLate hpc => exact absurd hpc hregistered
  | leave hpc hcallback => simp [Operation.leave, Operation.setPc, honStop]
  | progress hop hclear =>
      cases hop with
      | register hp hpc => exact absurd (hp ▸ hpc) hregistered
      | reset hpc hresult hwait => rfl
      | _ => exact honStop
  | _ => exact honStop

theorem count_signals_kept (hmoved : op'.pc = Function.update op.pc p y)
    (hpc : (op.pc p).signals = false) : op.count Pc.signals ≤ op'.count Pc.signals := by
  have hcount := count_moved Pc.signals rfl hmoved
  rw [hpc, Bool.toNat_false] at hcount
  omega

/-- What is signalled was prepared by the party that has destroyed the callback object. -/
theorem Move.count_signals [DecidableEq Thread] (hop : Move t op op') (hplaces : Places op) :
    op.count Pc.signals + op.signals.length ≤ op'.count Pc.signals + op'.signals.length ∧
      (op'.onStop = .reset → op.onStop = .reset ∨ 0 < op'.count Pc.signals) := by
  have hkept : ∀ {p y}, op'.pc = Function.update op.pc p y → (op.pc p).signals = false →
      op'.signals = op.signals → (op'.onStop = .reset → op.onStop = .reset) →
      op.count Pc.signals + op.signals.length ≤ op'.count Pc.signals + op'.signals.length ∧
        (op'.onStop = .reset → op.onStop = .reset ∨ 0 < op'.count Pc.signals) := by
    intro p y hmoved hpc hsignals honStop
    rw [hsignals]
    exact ⟨Nat.add_le_add_right (count_signals_kept hmoved hpc) _, fun heq => .inl (honStop heq)⟩
  cases hop with
  | same | hold => exact ⟨le_rfl, .inl⟩
  | spawn hfuture | reject hfuture =>
      exact hkept (p := .child) rfl (by rw [hplaces.unspawned.mp hfuture]; rfl) rfl id
  | registerLate hpc =>
      have hfirst : op.count Pc.signals ≤ (op.setPc .owner .lock).count Pc.signals :=
        count_signals_kept rfl (by rw [hpc]; rfl)
      have hcancel := (hplaces.unregistered (.inr hpc)).2
      have hsecond : (op.setPc .owner .lock).count Pc.signals ≤
          ((op.setPc .owner .lock).setPc .cancel .lock).count Pc.signals :=
        count_signals_kept rfl (by simp [Operation.setPc, hcancel, Pc.signals])
      exact ⟨Nat.add_le_add_right (hfirst.trans hsecond) _, by simp [Operation.setPc]⟩
  | enter hop =>
      cases hop with
      | complete hpc => exact hkept rfl (by rw [hpc]; rfl) rfl id
      | drop hheld | start hheld => exact hkept rfl (by rw [(hplaces.idle_of_held hheld).1]; rfl) rfl id
      | stop harmed =>
          exact hkept rfl (by rw [hplaces.kept (.inr harmed)]; rfl) rfl (by simp [Operation.setPc])
  | request hpc | resume hpc => exact hkept rfl (by rw [hpc]; rfl) rfl id
  | leave hpc hcallback =>
      refine hkept rfl (by rw [hpc]; rfl) rfl ?_
      simp only [Operation.leave, Operation.setPc]
      split
      · simp
      · exact id
  | @progress p _ hop hclear =>
      cases hop with
      | register hp hpc => exact hkept rfl (by rw [hpc]; rfl) rfl (by simp [Operation.setPc])
      | @reset stored hpc hresult hwait =>
          refine ⟨Nat.add_le_add_right (count_signals_kept rfl (by rw [hpc]; rfl)) _, fun _ => ?_⟩
          exact .inr (count_pos (p := p) (by simp [Operation.setPc, Pc.signals]))
      | @signal stored hpc completion hsignal =>
          refine ⟨?_, .inl⟩
          have hcount : ({ op with signals := completion :: op.signals }.setPc p
              (.handler stored)).count Pc.signals + (Pc.signals (.signal stored)).toNat =
                op.count Pc.signals + (Pc.signals (.handler stored)).toNat :=
            count_moved Pc.signals hpc rfl
          change _ + 1 = _ + 0 at hcount
          change _ ≤ _ + (op.signals.length + 1)
          omega
      | lock hpc | finish hpc | store hpc | skip hpc | handled hpc | destroy hpc | release hpc =>
          exact hkept rfl (by rw [hpc]; rfl) rfl id

/-- A destroyed callback object stays destroyed, and nobody calls the callback. -/
theorem Gone.move [DecidableEq Thread] (h : Gone op) (hplaces : Places op)
    (hop : Move t op op') : Gone op' := by
  have hregistered : op.pc .owner ≠ .register := by
    intro hpc
    have honStop := (hplaces.unregistered (.inr hpc)).1
    rw [h.1] at honStop
    cases honStop
  obtain ⟨honStop, hcancel⟩ := h
  cases hop with
  | same | spawn | reject | hold => exact ⟨honStop, hcancel⟩
  | registerLate hpc => exact absurd hpc hregistered
  | enter hop =>
      cases hop with
      | stop harmed =>
          rw [honStop] at harmed
          cases harmed
      | _ => exact ⟨honStop, hcancel⟩
  | @request p hpc | @resume p hpc =>
      cases p with
      | cancel => simp [hpc] at hcancel
      | _ => exact ⟨honStop, hcancel⟩
  | @leave p hpc hcallback =>
      cases p with
      | cancel => simp [hpc] at hcancel
      | _ => exact ⟨by simp [Operation.leave, Operation.setPc, honStop], hcancel⟩
  | @progress p _ hop hclear =>
      cases p with
      | cancel => cases hop <;> simp_all
      | _ =>
          cases hop with
          | register hp hpc => simp_all
          | reset hpc hresult hwait => exact ⟨rfl, hcancel⟩
          | _ => exact ⟨honStop, hcancel⟩

namespace CallbackInv

/-- No party is to destroy a callback object that is destroyed. -/
theorem not_reset (h : CallbackInv op) (hduties : Duties op) (hresets : (op.pc p).resets = true) :
    op.onStop ≠ .reset := by
  intro honStop
  have hright := hduties.right
  have hused := h.right honStop
  have hpos := count_pos hresets
  have hbegun := Bool.toNat_le op.begun
  omega

/-- A party other than the callback has destroyed the callback object. -/
theorem gone_of_reset (h : CallbackInv op) (hplaces : Places op) (hduties : Duties op)
    (hresets : (op.pc p).resets = true) (hclear : ∀ u, op.onStop ≠ .running u) :
    op.pc .cancel = .idle ∨ op.pc .cancel = .done := by
  cases honStop : op.onStop with
  | empty => exact .inl (hplaces.kept (.inl honStop))
  | armed => exact .inl (hplaces.kept (.inr honStop))
  | running u => exact absurd honStop (hclear u)
  | finished => exact .inr (hplaces.finished honStop)
  | reset => exact absurd honStop (h.not_reset hduties hresets)

theorem initial : CallbackInv (.initial : Operation Thread Value Error) := by
  constructor <;> simp [Operation.initial, Pc.after, Pc.resets]

variable [DecidableEq Thread]

omit [DecidableEq Thread] in
theorem complete_delivers (hplaces : Places op) (hduties : Duties op)
    (hpc : op.pc .child = .lock)
    (hresets : ((op.exit .child op.state.complete).pc .child).resets = true) :
    ((op.exit .child op.state.complete).pc .cancel).cancels = false ∧
      ((op.exit .child op.state.complete).pc .cancel).isTail = false := by
  have hnot : op.state.completed = false := by
    rw [hplaces.completed, hpc]
    rfl
  have hearly := hduties.early hnot
  have hreleases := hduties.releases
  have hdestroys : (op.pc .cancel).destroys = false := by
    by_contra hdestroys
    have hpos := count_pos (p := .cancel) (by simpa using hdestroys : Pc.destroys _ = true)
    omega
  have hreleasing : (op.pc .cancel).releases = false := by
    by_contra hreleasing
    have hpos := count_pos (p := .cancel) (by simpa using hreleasing : Pc.releases _ = true)
    omega
  change (op.pc .cancel).cancels = false ∧ (op.pc .cancel).isTail = false
  unfold FutureState.complete at hresets
  split_ifs at hresets with hcancelling hdestroy hconsumer <;>
    simp [Operation.exit, Operation.setPc, Exit.pc, Pc.resets] at hresets
  rw [← hplaces.cancelling]
  refine ⟨by simpa using hcancelling, ?_⟩
  have hstops : (op.pc .cancel).stops = false := by
    by_contra hstops
    have hstopped := hplaces.stops .cancel (by simpa using hstops)
    simp [hstopped] at hdestroy
  cases hcancel : op.pc .cancel with
  | reset stored | signal stored | handler stored =>
      cases stored <;> simp_all [Pc.destroys, Pc.stops]
  | _ => simp_all [Pc.destroys, Pc.releases, Pc.isTail]

/-- The callback is not in `finish_cancellation` when the child decides to complete the
receiver. -/
theorem child_resets (h : CallbackInv op) (hplaces : Places op) (hduties : Duties op)
    (hop : Move t op op') (hresets : (op'.pc .child).resets = true) :
    (op'.pc .cancel).cancels = false ∧ (op'.pc .cancel).isTail = false := by
  by_cases hold : (op.pc .child).resets = true
  · have hcancel := h.childResets hold
    have hcompleted : op.state.completed = true := by
      rw [hplaces.completed]
      cases hpc : op.pc .child <;> simp_all [Pc.resets, Pc.completed]
    have hplace := hplaces.cancel
    cases hop with
    | same | spawn | reject | hold => exact hcancel
    | registerLate hpc => exact ⟨rfl, rfl⟩
    | enter hop => cases hop <;> first | exact hcancel | exact ⟨rfl, rfl⟩
    | @request p hpc | @resume p hpc =>
        cases p with
        | cancel => simp [hpc, Pc.cancels] at hcancel
        | _ => exact hcancel
    | @leave p hpc hcallback =>
        cases p with
        | cancel => exact ⟨rfl, rfl⟩
        | _ => exact hcancel
    | @progress p _ hop hclear =>
        cases p with
        | cancel =>
            cases hop with
            | lock hpc =>
                simp only [Operation.locked, FutureState.tryCancel, hcompleted, Bool.true_or,
                  if_true]
                exact ⟨rfl, rfl⟩
            | _ => simp_all [Pc.cancels, Pc.isTail, Pc.ofCancel]
        | _ => cases hop <;> exact hcancel
  · have hsame : op'.pc .child = op.pc .child → False := by
      intro heq
      rw [heq] at hresets
      exact hold hresets
    cases hop with
    | same | hold => exact absurd hresets hold
    | spawn | reject => simp [Operation.setPc, Pc.resets] at hresets
    | registerLate hpc => exact (hsame rfl).elim
    | enter hop =>
        cases hop with
        | complete hpc => simp [Operation.setPc, Pc.resets] at hresets
        | _ => exact (hsame rfl).elim
    | @request p hpc | @resume p hpc =>
        cases p with
        | child => simp [Operation.setPc, Party.requested, Pc.resets] at hresets
        | _ => exact (hsame rfl).elim
    | @leave p hpc hcallback =>
        cases p with
        | child => simp [Operation.leave, Operation.setPc, Pc.resets] at hresets
        | _ => exact (hsame rfl).elim
    | @progress p _ hop hclear =>
        cases p with
        | owner | cancel => cases hop <;> exact (hsame rfl).elim
        | child =>
            cases hop with
            | lock hpc => exact complete_delivers hplaces hduties hpc hresets
            | finish hpc => cases hplaces.cancel_of_finish hpc
            | @handled stored hpc => cases stored <;> simp [Operation.setPc, Pc.resets] at hresets
            | _ => simp [Operation.setPc, Pc.resets] at hresets

/-- What the object's destruction has to do with a completion. -/
theorem owner_destroys (h : CallbackInv op) (hplaces : Places op) (hduties : Duties op)
    (hop : Move t op op') (hbegun : op'.begun = true) (howner : op'.pc .owner = .destroy) :
    Gone op' := by
  have hsame : ∀ {x}, op.pc .owner = x → x ≠ .idle → op.begun = true := by
    intro x hpc hx
    rw [← hop.begun hplaces (by rwa [hpc])]
    exact hbegun
  rcases hop.destroy_cases howner with hpc | hpc | ⟨hpc, hresult⟩ | ⟨hpc, hexit, -⟩ | ⟨hpc, -⟩
  · exact (h.owner (.inr ⟨hsame hpc (by simp), hpc⟩)).move hplaces hop
  · exact (h.owner (.inl (by rw [hpc]; rfl))).move hplaces hop
  · exact absurd hresult (hduties.result_of_destroys (p := .owner) hplaces (by rw [hpc]; rfl))
  · rw [Operation.locked, if_pos (hsame hpc (by simp))] at hexit
    unfold FutureState.consume at hexit
    split_ifs at hexit
  · cases hplaces.cancel_of_finish hpc

theorem child_destroys (h : CallbackInv op) (hplaces : Places op) (hduties : Duties op)
    (hop : Move t op op') (hchild : op'.pc .child = .destroy) :
    op'.state.abandoned = true ∨ op'.state.stopped = true ∨ Gone op' := by
  rcases hop.destroy_cases hchild with hpc | hpc | ⟨hpc, hresult⟩ | ⟨hpc, hexit, rfl⟩ | ⟨hpc, -⟩
  · exact (h.childDestroys hpc).imp hop.flags.2.2
      (Or.imp hop.flags.2.1 fun hgone => hgone.move hplaces hop)
  · exact .inr (.inr ((h.child (by rw [hpc]; rfl)).move hplaces hop))
  · exact absurd hresult (hduties.result_of_destroys (p := .child) hplaces (by rw [hpc]; rfl))
  · simp only [Operation.locked, FutureState.complete] at hexit
    split_ifs at hexit with hcancelling hdestroy hconsumer
    have hflags := hop.flags
    rw [Bool.or_eq_true] at hdestroy
    exact hdestroy.symm.imp hflags.2.2 fun hstopped => .inl (hflags.2.1 hstopped)
  · cases hplaces.cancel_of_finish hpc

omit [DecidableEq Thread] in
theorem after_signal (h : CallbackInv op) (hafter : (op.pc p).after = true) :
    op.onStop = .reset := by
  cases p with
  | child => exact (h.child hafter).1
  | owner => exact (h.owner (.inl hafter)).1
  | cancel => exact h.cancel hafter

theorem move (h : CallbackInv op) (hplaces : Places op) (hduties : Duties op)
    (hop : Move t op op') : CallbackInv op' := by
  have hafter : ∀ q, q ≠ .cancel → ((op.pc q).after = true → Gone op) →
      (op'.pc q).after = true → Gone op' := by
    intro q hq hgone hafter
    rcases hop.after_cases hafter with hold | ⟨stored, hpc, rfl, hclear⟩
    · exact (hgone hold).move hplaces hop
    · refine ⟨rfl, ?_⟩
      have hcancel := h.gone_of_reset (p := q) hplaces hduties (by rw [hpc]; rfl) (hclear hq)
      simpa [Operation.setPc, hq.symm] using hcancel
  constructor
  · exact hafter .child (by simp) h.child
  · rintro (howner | ⟨hbegun, howner⟩)
    · exact hafter .owner (by simp) (fun hold => h.owner (.inl hold)) howner
    · exact h.owner_destroys hplaces hduties hop hbegun howner
  · exact h.child_destroys hplaces hduties hop
  · exact h.child_resets hplaces hduties hop
  · intro hcancel
    rcases hop.after_cases hcancel with hold | ⟨stored, hpc, rfl, -⟩
    · exact hop.reset_stays hplaces (h.cancel hold)
    · rfl
  · intro hsignals
    rcases hop.signals_cases with hsame | ⟨p, stored, hpc⟩
    · rw [hsame] at hsignals
      exact hop.reset_stays hplaces (h.signalled hsignals)
    · exact hop.reset_stays hplaces (h.after_signal (p := p) (by rw [hpc]; rfl))
  · intro honStop
    obtain ⟨hsignals, hnew⟩ := hop.count_signals hplaces
    rcases hnew honStop with hold | hnew
    · exact (h.right hold).trans hsignals
    · omega

end CallbackInv

/-! ## What the receiver is completed with -/

structure OutcomeInv (op : Operation Thread Value Error) : Prop where
  running : op.pc .child = .running → op.accepted = true
  rejected : op.accepted = false → op.pc .child = .idle ∨ op.sent = some (.stopped, none)
  sent : ∀ completion, op.state.result = some completion →
    ∃ original thrown, op.sent = some (original, thrown) ∧ completion = original.store thrown
  signals : ∀ completion ∈ op.signals, op.state.result = some completion ∨
    completion = .stopped ∧ op.state.stopped = true

theorem Exit.pc_ne_running (exit : Exit) : exit.pc ≠ .running := by
  cases exit <;> simp [Exit.pc]

theorem FutureState.finishCancellation_result (state : FutureState Value Error) :
    state.finishCancellation.2.result = state.result := by
  unfold finishCancellation
  split_ifs <;> rfl

/-- No section touches the result. -/
theorem Operation.locked_result (op : Operation Thread Value Error) (p : Party) :
    (op.locked p).2.result = op.state.result := by
  cases p with
  | child =>
      simp only [locked, FutureState.complete]
      split_ifs <;> rfl
  | owner =>
      simp only [locked, FutureState.consume, FutureState.abandon]
      split_ifs <;> rfl
  | cancel =>
      simp only [locked, FutureState.tryCancel]
      split_ifs <;> rfl

namespace OutcomeInv

theorem initial : OutcomeInv (.initial : Operation Thread Value Error) := by
  constructor <;> simp [Operation.initial, FutureState.initial]

theorem result_eq_none (hplaces : Places op) (hpc : (op.pc .child).stored = false) :
    op.state.result = none := by
  rw [← hplaces.result] at hpc
  simpa using hpc

/-- The child is not set off again, and nothing is stored or signalled. -/
theorem keep (h : OutcomeInv op)
    (hchild : op'.pc .child = op.pc .child ∨ op'.pc .child ≠ .running ∧ op.pc .child ≠ .idle)
    (haccepted : op'.accepted = op.accepted) (hsent : op'.sent = op.sent)
    (hresult : op'.state.result = op.state.result) (hsignals : op'.signals = op.signals)
    (hstopped : op.state.stopped = true → op'.state.stopped = true) : OutcomeInv op' := by
  constructor
  · intro hrunning
    rw [haccepted]
    rcases hchild with hchild | ⟨hnot, -⟩
    · exact h.running (hchild ▸ hrunning)
    · exact absurd hrunning hnot
  · rw [haccepted, hsent]
    intro hrejected
    rcases h.rejected hrejected with hidle | hsent
    · rcases hchild with hchild | ⟨-, hnot⟩
      · exact .inl (hchild.trans hidle)
      · exact absurd hidle hnot
    · exact .inr hsent
  · rw [hresult, hsent]
    exact h.sent
  · rw [hresult, hsignals]
    intro completion hmem
    exact (h.signals completion hmem).imp_right (And.imp_right hstopped)

theorem move [DecidableEq Thread] (h : OutcomeInv op) (hplaces : Places op)
    (hop : Move t op op') : OutcomeInv op' := by
  have hflags := hop.flags.2.1
  cases hop with
  | same => exact h
  | hold hfuture => exact h.keep (.inl rfl) rfl rfl rfl rfl id
  | registerLate hpc => exact h.keep (.inl rfl) rfl rfl rfl rfl id
  | spawn hfuture =>
      have hidle := hplaces.unspawned.mp hfuture
      have hnone := result_eq_none hplaces (by rw [hidle]; rfl)
      refine ⟨fun _ => rfl, by simp [Operation.setPc], ?_, h.signals⟩
      simp [Operation.setPc, hnone]
  | reject hfuture =>
      have hidle := hplaces.unspawned.mp hfuture
      have hnone := result_eq_none hplaces (by rw [hidle]; rfl)
      refine ⟨by simp [Operation.setPc], fun _ => .inr rfl, ?_, h.signals⟩
      simp [Operation.setPc, hnone]
  | enter hop =>
      cases hop with
      | complete hpc completion thrown =>
          have hnone := result_eq_none hplaces (by rw [hpc]; rfl)
          have haccepted := h.running hpc
          refine ⟨by simp [Operation.setPc], by simp [Operation.setPc, haccepted], ?_, h.signals⟩
          simp [Operation.setPc, hnone]
      | _ => exact h.keep (.inl rfl) rfl rfl rfl rfl id
  | @request p hpc | @resume p hpc =>
      refine h.keep ?_ rfl rfl rfl rfl id
      cases p with
      | child => exact .inr ⟨by simp [Operation.setPc, Party.requested], by simp [hpc]⟩
      | _ => exact .inl rfl
  | @leave p hpc hcallback =>
      refine h.keep ?_ rfl rfl rfl rfl id
      cases p with
      | child => exact .inr ⟨by simp [Operation.leave, Operation.setPc], by simp [hpc]⟩
      | _ => exact .inl rfl
  | @progress p _ hop hclear =>
      have hmoved : ∀ {y}, op.pc p ≠ .idle → y ≠ .running →
          Function.update op.pc p y .child = op.pc .child ∨
            Function.update op.pc p y .child ≠ .running ∧ op.pc .child ≠ .idle := by
        intro y hx hy
        by_cases hp : Party.child = p
        · subst hp
          rw [Function.update_self]
          exact .inr ⟨hy, hx⟩
        · exact .inl (Function.update_of_ne hp _ _)
      cases hop with
      | lock hpc =>
          exact h.keep (hmoved (by simp [hpc]) (Exit.pc_ne_running _)) rfl rfl
            (op.locked_result p) rfl hflags
      | finish hpc =>
          exact h.keep (hmoved (by simp [hpc]) (Exit.pc_ne_running _)) rfl rfl
            op.state.finishCancellation_result rfl hflags
      | @store hpc completion thrown hsent =>
          have hchild : (op.pc .child).stored = false := by
            have hplace := hplaces.owner
            have hcancel := hplaces.cancel
            cases p with
            | child => rw [hpc]; rfl
            | owner => simp [hpc, Pc.ofOwner] at hplace
            | cancel => simp [hpc, Pc.ofCancel] at hcancel
          have hnone := result_eq_none hplaces hchild
          have hkept : OutcomeInv (op.setPc p .lock) :=
            h.keep (hmoved (by simp [hpc]) (by simp)) rfl rfl rfl rfl id
          refine ⟨hkept.running, hkept.rejected, ?_, ?_⟩
          · intro stored hstored
            cases hstored
            exact ⟨completion, thrown, hsent, rfl⟩
          · intro signal hmem
            rcases h.signals signal hmem with hresult | hstopped
            · rw [hnone] at hresult
              cases hresult
            · exact .inr hstopped
      | @signal stored hpc completion hsignal =>
          have hkept : OutcomeInv (op.setPc p (.handler stored)) :=
            h.keep (hmoved (by simp [hpc]) (by simp)) rfl rfl rfl rfl id
          refine ⟨hkept.running, hkept.rejected, hkept.sent, ?_⟩
          intro signal hmem
          rcases List.mem_cons.mp hmem with rfl | hmem
          · rcases hsignal with ⟨hresult, -⟩ | ⟨rfl, rfl⟩
            · exact .inl hresult
            · exact .inr ⟨rfl, hplaces.stops p (by rw [hpc]; rfl)⟩
          · exact h.signals signal hmem
      | @handled stored hpc =>
          exact h.keep (hmoved (by simp [hpc]) (by cases stored <;> simp)) rfl rfl rfl rfl id
      | register hp hpc | skip hpc | reset hpc | destroy hpc | release hpc =>
          exact h.keep (hmoved (by simp [hpc]) (by simp)) rfl rfl rfl rfl id

end OutcomeInv

/-- What holds of the fields in every run. -/
structure OpInv (op : Operation Thread Value Error) : Prop where
  places : Places op
  duties : Duties op
  callback : CallbackInv op
  outcome : OutcomeInv op

theorem OpInv.move [DecidableEq Thread] (h : OpInv op) (hop : Move t op op') : OpInv op' :=
  ⟨h.places.move hop, h.duties.move h.places hop, h.callback.move h.places h.duties hop,
    h.outcome.move h.places hop⟩

end Bexec.SpawnFuture
