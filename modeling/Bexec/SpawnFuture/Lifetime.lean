import Bexec.SpawnFuture.Delivery

/-!
# The lifetime of the state

Two of the orders in which the parties may meet are wrong. A child that completes
while `abandon` is still in `request_stop` frees the stop source it runs on, and
a child that completes after a cancellation that found no consumer frees the
state before `consume` reads it. Without them the state is destroyed once, and by
then nobody uses it.
-/

namespace Bexec.SpawnFuture

open Foundation

variable {Thread Value Error : Type} {op op' : Operation Thread Value Error} {p : Party}

/-- The party still reads or writes the state before it returns. -/
def Pc.touches : Pc → Bool
  | .store | .register | .lock | .request | .requesting | .finish | .destroy => true
  | .reset stored | .signal stored | .handler stored => stored
  | _ => false

theorem Pc.touches_cases {x : Pc} (hx : x.touches = true) : x.destroys = true ∨
    x = .store ∨ x = .register ∨ x = .lock ∨ x = .request ∨ x = .requesting ∨ x = .finish := by
  cases x with
  | reset stored | signal stored | handler stored => cases stored <;> simp_all [touches, destroys]
  | _ => simp_all [touches, destroys]

theorem Pc.touches_of_stops {x : Pc} (hx : x.stops = true) : x.touches = false := by
  cases x with
  | reset stored | signal stored | handler stored => cases stored <;> simp_all [touches, stops]
  | _ => simp_all [stops]

/-- No call that would use the state can be made any more. -/
structure Retired (op : Operation Thread Value Error) : Prop where
  child : op.pc .child ≠ .idle ∧ op.pc .child ≠ .running
  owner : op.future = .taken
  onStop : op.onStop ≠ .armed

/-- What is left of the duty to destroy the state. -/
def Operation.duty (op : Operation Thread Value Error) : Nat :=
  op.destroyed + op.count Pc.destroys + (op.pc .owner).before.toNat +
    (op.state.cancelling && op.state.consumer).toNat

structure LifetimeInv (op : Operation Thread Value Error) : Prop where
  abandoned : op.state.completed = true → op.pc .owner ≠ .request ∧ op.pc .owner ≠ .requesting
  single : op.state.completed = true → op.duty ≤ 1
  quiet : 0 < op.destroyed → (∀ p, (op.pc p).touches = false) ∧ Retired op

variable {t : Thread}

/-- A party without further use of the state goes on without it. -/
theorem Retired.move [DecidableEq Thread] (h : Retired op)
    (hquiet : ∀ p, (op.pc p).touches = false) (hop : Move t op op') :
    (∀ p, (op'.pc p).touches = false) ∧ Retired op' := by
  obtain ⟨⟨hidle, hrunning⟩, howner, honStop⟩ := h
  have hmoved : ∀ {p y}, op'.pc = Function.update op.pc p y → y.touches = false →
      y ≠ .idle → y ≠ .running → op'.future = .taken → op'.onStop ≠ .armed →
      (∀ p, (op'.pc p).touches = false) ∧ Retired op' := by
    intro p y hmoved hy hyidle hyrunning hfuture harmed
    refine ⟨fun q => ?_, ⟨?_, ?_⟩, hfuture, harmed⟩
    · rw [hmoved]
      by_cases hq : q = p
      · subst hq
        rwa [Function.update_self]
      · rw [Function.update_of_ne hq]
        exact hquiet q
    all_goals
      rw [hmoved]
      by_cases hp : Party.child = p
      · subst hp
        rwa [Function.update_self]
      · rwa [Function.update_of_ne hp]
  cases hop with
  | same => exact ⟨hquiet, ⟨hidle, hrunning⟩, howner, honStop⟩
  | spawn hfuture | reject hfuture | hold hfuture => simp [howner] at hfuture
  | registerLate hpc => simpa [hpc, Pc.touches] using hquiet .owner
  | @request p hpc | @resume p hpc => simpa [hpc, Pc.touches] using hquiet p
  | enter hop =>
      cases hop with
      | complete hpc => exact absurd hpc hrunning
      | drop hheld | start hheld => simp [howner] at hheld
      | stop harmed => exact absurd harmed honStop
  | leave hpc hcallback =>
      refine hmoved rfl rfl (by simp) (by simp) howner ?_
      simp only [Operation.leave, Operation.setPc]
      split
      · simp
      · exact honStop
  | @progress p _ hop hclear =>
      have hp := hquiet p
      cases hop with
      | @reset stored hpc | @signal stored hpc | @handled stored hpc =>
          cases stored with
          | true => simp [hpc, Pc.touches] at hp
          | false =>
              refine hmoved rfl rfl (by simp) (by simp) howner ?_
              first | exact honStop | simp [Operation.setPc]
      | release hpc => exact hmoved rfl rfl (by simp) (by simp) howner honStop
      | lock hpc | finish hpc | store hpc | register _ hpc | skip hpc | destroy hpc =>
          simp [hpc, Pc.touches] at hp

/-! ## The duty to destroy the state -/

theorem Move.destroyed_le [DecidableEq Thread] (hop : Move t op op') :
    op.destroyed ≤ op'.destroyed := by
  cases hop with
  | enter hop => cases hop <;> exact le_rfl
  | progress hop hclear =>
      cases hop with
      | destroy hpc => exact Nat.le_succ _
      | _ => exact le_rfl
  | _ => exact le_rfl

/-- Only `abandon` brings the owner to `request_stop`, before the child has completed. -/
theorem Move.request_cases [DecidableEq Thread] (hop : Move t op op')
    (hcompleted : op.state.completed = true)
    (hrequest : op'.pc .owner = .request ∨ op'.pc .owner = .requesting) :
    op.pc .owner = .request ∨ op.pc .owner = .requesting := by
  have hother : ∀ {p y}, op'.pc = Function.update op.pc p y → y ≠ .request → y ≠ .requesting →
      op.pc .owner = .request ∨ op.pc .owner = .requesting := by
    intro p y hmoved hy hy'
    rw [hmoved] at hrequest
    by_cases hp : Party.owner = p
    · subst hp
      rw [Function.update_self] at hrequest
      exact absurd hrequest (by simp [hy, hy'])
    · rwa [Function.update_of_ne hp] at hrequest
  cases hop with
  | same | hold => exact hrequest
  | spawn | reject | leave => exact hother rfl (by simp) (by simp)
  | registerLate hpc => simp [Operation.setPc] at hrequest
  | @request p hpc =>
      cases p with
      | owner => exact .inl hpc
      | _ => exact hrequest
  | @resume p hpc =>
      have hrequested : p.requested ≠ .request ∧ p.requested ≠ .requesting := by
        cases p <;> simp [Party.requested]
      exact hother rfl hrequested.1 hrequested.2
  | enter hop => cases hop <;> exact hother rfl (by simp) (by simp)
  | @progress p _ hop hclear =>
      cases p with
      | child | cancel => cases hop <;> exact hrequest
      | owner =>
          cases hop with
          | lock hpc =>
              have hexit : (op.locked .owner).1 ≠ .requestStop := by
                simp only [Operation.locked, FutureState.consume, FutureState.abandon, hcompleted,
                  if_true]
                split <;> simp
              refine hother rfl ?_ ?_ <;> cases hlocked : (op.locked .owner).1 <;>
                simp_all [Exit.pc]
          | finish hpc =>
              refine hother rfl ?_ ?_ <;> unfold FutureState.finishCancellation <;> split_ifs <;>
                simp [Exit.pc]
          | @handled stored hpc =>
              exact hother rfl (by cases stored <;> simp) (by cases stored <;> simp)
          | _ => exact hother rfl (by simp) (by simp)

/-- Only the section of `complete` sets `completed_`. -/
theorem Progress.completes (hop : Progress t op p op') (hbefore : op.state.completed = false)
    (hafter : op'.state.completed = true) :
    p = .child ∧ op.pc .child = .lock ∧ op' = op.exit .child op.state.complete := by
  have hsame : op'.state.completed = op.state.completed → False := by
    intro heq
    rw [heq, hbefore] at hafter
    cases hafter
  cases hop with
  | lock hpc =>
      cases p with
      | child => exact ⟨rfl, hpc, rfl⟩
      | owner =>
          refine (hsame ?_).elim
          change (op.locked .owner).2.completed = _
          simp only [Operation.locked, FutureState.consume, FutureState.abandon]
          split_ifs <;> rfl
      | cancel =>
          refine (hsame ?_).elim
          change (op.locked .cancel).2.completed = _
          simp only [Operation.locked, FutureState.tryCancel]
          split_ifs <;> rfl
  | finish hpc =>
      refine (hsame ?_).elim
      change op.state.finishCancellation.2.completed = _
      unfold FutureState.finishCancellation
      split_ifs <;> rfl
  | _ => exact (hsame rfl).elim

theorem Move.completes [DecidableEq Thread] (hop : Move t op op')
    (hbefore : op.state.completed = false) (hafter : op'.state.completed = true) :
    op.pc .child = .lock ∧ op' = op.exit .child op.state.complete := by
  have hsame : op'.state.completed = op.state.completed → False := by
    intro heq
    rw [heq, hbefore] at hafter
    cases hafter
  cases hop with
  | enter hop => cases hop <;> exact (hsame rfl).elim
  | progress hop hclear => exact (hop.completes hbefore hafter).2
  | _ => exact (hsame rfl).elim

/-- The duty when a party moves and leaves the consumer slot alone. -/
theorem duty_moved {x y : Pc} (hpc : op.pc p = x) (hmoved : op'.pc = Function.update op.pc p y)
    (hbefore : (op'.pc .owner).before = (op.pc .owner).before)
    (hslot : (op'.state.cancelling && op'.state.consumer) =
      (op.state.cancelling && op.state.consumer))
    (hduty : y.destroys.toNat + op'.destroyed ≤ x.destroys.toNat + op.destroyed) :
    op'.duty ≤ op.duty := by
  have hcount := count_moved Pc.destroys hpc hmoved
  unfold Operation.duty
  rw [hslot, hbefore]
  omega

/-- When the child has completed the duty is only passed on. -/
theorem Move.duty_le [DecidableEq Thread] (hop : Move t op op') (hplaces : Places op)
    (hcompleted : op.state.completed = true) : op'.duty ≤ op.duty := by
  cases hop with
  | same | hold => exact le_rfl
  | spawn hfuture | reject hfuture =>
      exact duty_moved (p := .child) (hplaces.unspawned.mp hfuture) rfl rfl rfl le_rfl
  | registerLate hpc =>
      have howner : (op.setPc .owner .lock).duty ≤ op.duty :=
        duty_moved hpc rfl (before_moved hpc rfl rfl) rfl le_rfl
      have hcancel : (op.setPc .owner .lock).pc .cancel = .idle := by
        simp [Operation.setPc, (hplaces.unregistered (.inr hpc)).2]
      have hnext : ((op.setPc .owner .lock).setPc .cancel .lock).duty ≤
          (op.setPc .owner .lock).duty := duty_moved hcancel rfl rfl rfl le_rfl
      exact hnext.trans howner
  | enter hop =>
      cases hop with
      | complete hpc => exact duty_moved hpc rfl rfl rfl le_rfl
      | drop hheld | start hheld =>
          have hidle := (hplaces.idle_of_held hheld).1
          exact duty_moved hidle rfl (before_moved hidle rfl rfl) rfl le_rfl
      | stop harmed => exact duty_moved (hplaces.kept (.inr harmed)) rfl rfl rfl le_rfl
  | request hpc | leave hpc =>
      exact duty_moved hpc rfl (before_moved hpc rfl rfl) rfl le_rfl
  | @resume p hpc =>
      have hrequested : p.requested.before = false ∧ p.requested.destroys = false := by
        cases p <;> exact ⟨rfl, rfl⟩
      refine duty_moved hpc rfl (before_moved hpc rfl hrequested.1) rfl ?_
      rw [hrequested.2]
      exact le_rfl
  | @progress p _ hop hclear =>
      cases hop with
      | store hpc =>
          cases p with
          | owner =>
              have howner := hplaces.owner
              rw [hpc] at howner
              cases howner
          | _ => exact duty_moved hpc rfl rfl rfl le_rfl
      | register _ hpc | skip hpc | release hpc =>
          exact duty_moved hpc rfl (before_moved hpc rfl rfl) rfl le_rfl
      | @reset stored hpc | @signal stored hpc =>
          refine duty_moved hpc rfl (before_moved hpc rfl rfl) rfl ?_
          cases stored <;> exact le_rfl
      | @handled stored hpc =>
          cases stored <;> exact duty_moved hpc rfl (before_moved hpc rfl rfl) rfl le_rfl
      | destroy hpc =>
          refine duty_moved hpc rfl (before_moved hpc rfl rfl) rfl ?_
          change 0 + (op.destroyed + 1) ≤ 1 + op.destroyed
          omega
      | lock hpc =>
          cases p with
          | child =>
              rw [hplaces.completed, hpc] at hcompleted
              cases hcompleted
          | owner =>
              have hexit : op.locked .owner = (.deliver, op.state) ∨
                  op.locked .owner = (.destroy, op.state) := by
                simp only [Operation.locked, FutureState.consume, FutureState.abandon, hcompleted,
                  if_true]
                split <;> simp
              have howner : ∀ y : Pc, y.destroys = true → y.before = false →
                  (op.setPc .owner y).duty ≤ op.duty := by
                intro y hy hbefore
                have hcount : (op.setPc .owner y).count Pc.destroys + (Pc.destroys .lock).toNat =
                    op.count Pc.destroys + y.destroys.toNat := count_moved Pc.destroys hpc rfl
                simp only [Operation.duty, Operation.setPc, Function.update_self, hpc, hy,
                  hbefore] at hcount ⊢
                change _ + 0 = _ + 1 at hcount
                change op.destroyed + _ + 0 + _ ≤ op.destroyed + _ + 1 + _
                omega
              rcases hexit with hexit | hexit <;> rw [hexit] <;> exact howner _ rfl rfl
          | cancel =>
              have hexit : op.locked .cancel = (.nothing, op.state) := by
                simp [Operation.locked, FutureState.tryCancel, hcompleted]
              rw [hexit]
              exact duty_moved hpc rfl rfl rfl le_rfl
      | finish hpc =>
          obtain rfl := hplaces.cancel_of_finish hpc
          have hcancelling : op.state.cancelling = true := by
            rw [hplaces.cancelling, hpc]
            rfl
          obtain ⟨hstopped, habandoned⟩ := hplaces.of_cancelling hcancelling
          have howner : ∀ exit, (op.exit .cancel exit).pc .owner = op.pc .owner := by
            intro exit
            simp [Operation.exit, Operation.setPc]
          have hexits : ∀ exit, (op.exit .cancel exit).count Pc.destroys =
              op.count Pc.destroys + exit.1.pc.destroys.toNat := by
            intro exit
            have hmoved : (op.exit .cancel exit).count Pc.destroys + (Pc.destroys .finish).toNat =
              op.count Pc.destroys + exit.1.pc.destroys.toNat := count_moved Pc.destroys hpc rfl
            exact hmoved
          unfold FutureState.finishCancellation Operation.duty
          rw [howner, hexits, hcancelling, hcompleted, hstopped, habandoned]
          cases hconsumer : op.state.consumer <;>
            simp [Operation.exit, Operation.setPc, Exit.pc, Pc.destroys]
          all_goals omega

/-- The child does not complete in one of the two wrong orders. -/
def SafeMove (op op' : Operation Thread Value Error) : Prop :=
  op.state.completed = false → op'.state.completed = true →
    op.pc .owner ≠ .request ∧ op.pc .owner ≠ .requesting ∧
      (op.state.stopped = true → (op.pc .owner).before = false)

namespace LifetimeInv

theorem initial : LifetimeInv (.initial : Operation Thread Value Error) := by
  constructor <;> simp [Operation.initial, FutureState.initial]

/-- The child completes: nobody else has a duty but the owner or the consumer. -/
theorem single_of_complete (hplaces : Places op) (hduties : Duties op)
    (hpc : op.pc .child = .lock)
    (hsafe : op.state.stopped = true → (op.pc .owner).before = false) :
    (op.exit .child op.state.complete).duty ≤ 1 := by
  have hnot : op.state.completed = false := by
    rw [hplaces.completed, hpc]
    rfl
  obtain ⟨hdestroyed, hcount⟩ := hduties.early hnot
  have hexits : ∀ exit, (op.exit .child exit).duty = exit.1.pc.destroys.toNat +
      (op.pc .owner).before.toNat + (exit.2.cancelling && exit.2.consumer).toNat := by
    intro exit
    have hmoved : (op.exit .child exit).count Pc.destroys + (Pc.destroys .lock).toNat =
      op.count Pc.destroys + exit.1.pc.destroys.toNat := count_moved Pc.destroys hpc rfl
    change (op.exit .child exit).count Pc.destroys = _ at hmoved
    unfold Operation.duty
    change op.destroyed + _ + (op.pc .owner).before.toNat + _ = _
    rw [hdestroyed, hmoved, hcount]
    simp only [Nat.zero_add]
    rfl
  -- a waiting consumer has left its section
  have hconsumer : op.state.consumer = true → (op.pc .owner).before = false := by
    intro hconsumer
    rcases (hplaces.consumer hconsumer).2 with howner | howner <;> rw [howner] <;> rfl
  have habandoned : op.state.abandoned = true → (op.pc .owner).before = false := by
    intro habandoned
    rcases (hplaces.abandoned habandoned).2 with howner | howner | howner | howner <;>
      rw [howner] <;> rfl
  have hbefore := Bool.toNat_le (op.pc .owner).before
  rw [hexits]
  unfold FutureState.complete
  split_ifs with hcancelling hdestroy hwaits
  · cases hslot : op.state.consumer with
    | false => simpa [Exit.pc, Pc.destroys] using hbefore
    | true => simp [Exit.pc, Pc.destroys, hconsumer hslot, hcancelling]
  · rw [Bool.or_eq_true] at hdestroy
    have howner := hdestroy.elim hsafe habandoned
    simp [Exit.pc, Pc.destroys, howner, hcancelling]
  · simp [Exit.pc, Pc.destroys, hconsumer hwaits]
  · simpa [Exit.pc, Pc.destroys, hcancelling] using hbefore

/-- The callback has no business with a state that another party is to destroy. -/
theorem cancel_over (hplaces : Places op) (hcallback : CallbackInv op) (hp : p ≠ .cancel)
    (hpc : op.pc p = .destroy) : op.onStop ≠ .armed ∧ (op.pc .cancel = .idle ∨
      op.pc .cancel = .done ∨ (op.pc .cancel).stops = true ∨ op.pc .cancel = .returning) := by
  have hgone : Gone op → op.onStop ≠ .armed ∧ (op.pc .cancel = .idle ∨ op.pc .cancel = .done ∨
      (op.pc .cancel).stops = true ∨ op.pc .cancel = .returning) := by
    rintro ⟨hreset, hcancel⟩
    exact ⟨by simp [hreset], hcancel.imp_right .inl⟩
  have hunbegun : op.begun = false → op.onStop ≠ .armed ∧ (op.pc .cancel = .idle ∨
      op.pc .cancel = .done ∨ (op.pc .cancel).stops = true ∨ op.pc .cancel = .returning) := by
    intro hbegun
    obtain ⟨hempty, hidle⟩ := hplaces.unregistered (.inl hbegun)
    exact ⟨by simp [hempty], .inl hidle⟩
  cases p with
  | cancel => exact absurd rfl hp
  | owner =>
      cases hbegun : op.begun with
      | true => exact hgone (hcallback.owner (.inr ⟨hbegun, hpc⟩))
      | false => exact hunbegun hbegun
  | child =>
      rcases hcallback.childDestroys hpc with habandoned | hstopped | hchild
      · exact hunbegun (hplaces.abandoned habandoned).1
      · have hcancel := hplaces.stopped hstopped
        refine ⟨fun harmed => ?_, .inr ?_⟩
        · rw [hplaces.kept (.inr harmed)] at hcancel
          simp [Pc.stops] at hcancel
        · rcases hcancel with hstops | hreturning | hdone
          · exact .inr (.inl hstops)
          · exact .inr (.inr hreturning)
          · exact .inl hdone
      · exact hgone hchild

/-- Who destroys the state is the last one to use it. -/
theorem quiet_of_destroy (h : LifetimeInv op) (hplaces : Places op) (hduties : Duties op)
    (hcallback : CallbackInv op) (hpc : op.pc p = .destroy) :
    (∀ q, q ≠ p → (op.pc q).touches = false) ∧ Retired op := by
  have hdestroys : (op.pc p).destroys = true := by rw [hpc]; rfl
  have hcompleted := hduties.completed_of_destroys hdestroys
  have hsingle := h.single hcompleted
  have hchild : (op.pc .child).completed = true := by rw [← hplaces.completed, hcompleted]
  unfold Operation.duty at hsingle
  have hpos := count_pos hdestroys
  have howner : (op.pc .owner).before = false := by
    by_contra hbefore
    rw [Bool.not_eq_false] at hbefore
    rw [hbefore, Bool.toNat_true] at hsingle
    omega
  have hothers : ∀ q, q ≠ p → (op.pc q).destroys = false := by
    intro q hq
    by_contra hother
    have htwo : 2 ≤ op.count Pc.destroys := by
      unfold Operation.count
      rw [Bool.not_eq_false] at hother
      cases p <;> cases q <;> first | exact absurd rfl hq | simp [hdestroys, hother]
    omega
  have hcancel : p ≠ .cancel → (op.pc .cancel).touches = false := by
    intro hp
    rcases (cancel_over hplaces hcallback hp hpc).2 with hidle | hdone | hstops | hreturning
    · rw [hidle]; rfl
    · rw [hdone]; rfl
    · exact Pc.touches_of_stops hstops
    · rw [hreturning]; rfl
  constructor
  · intro q hq
    by_contra htouches
    rcases Pc.touches_cases (by simpa using htouches) with hdestroys | hplace
    · rw [hothers q hq] at hdestroys
      cases hdestroys
    · cases q with
      | cancel => exact htouches (hcancel (Ne.symm hq))
      | child =>
          have hofChild := hplaces.child
          rcases hplace with hpc | hpc | hpc | hpc | hpc | hpc <;>
            simp [hpc, Pc.completed, Pc.ofChild] at hchild hofChild
      | owner =>
          have hofOwner := hplaces.owner
          rcases hplace with hpc | hpc | hpc | hpc | hpc | hpc
          · rw [hpc] at hofOwner
            cases hofOwner
          · rw [hpc] at howner
            cases howner
          · rw [hpc] at howner
            cases howner
          · exact (h.abandoned hcompleted).1 hpc
          · exact (h.abandoned hcompleted).2 hpc
          · rw [hpc] at hofOwner
            cases hofOwner
  · refine ⟨?_, ?_, ?_⟩
    · constructor <;> intro hplace <;> rw [hplace] at hchild <;> cases hchild
    · refine hplaces.taken.mpr fun hidle => ?_
      rw [hidle] at howner
      cases howner
    · by_cases hp : p = .cancel
      · subst hp
        intro harmed
        rw [hplaces.kept (.inr harmed)] at hpc
        cases hpc
      · exact (cancel_over hplaces hcallback hp hpc).1

theorem move [DecidableEq Thread] (h : LifetimeInv op) (hinv : OpInv op) (hop : Move t op op')
    (hsafe : SafeMove op op') : LifetimeInv op' := by
  obtain ⟨hplaces, hduties, hcallback, -⟩ := hinv
  have hlocked : op.state.completed = false → op'.state.completed = true →
      op.pc .child = .lock ∧ op' = op.exit .child op.state.complete := hop.completes
  constructor
  · intro hcompleted
    cases hold : op.state.completed with
    | true =>
        have howner := h.abandoned hold
        refine ⟨fun hrequest => ?_, fun hrequest => ?_⟩
        · exact (hop.request_cases hold (.inl hrequest)).elim howner.1 howner.2
        · exact (hop.request_cases hold (.inr hrequest)).elim howner.1 howner.2
    | false =>
        obtain ⟨hrequest, hrequesting, -⟩ := hsafe hold hcompleted
        obtain ⟨-, rfl⟩ := hlocked hold hcompleted
        exact ⟨hrequest, hrequesting⟩
  · intro hcompleted
    cases hold : op.state.completed with
    | true => exact (hop.duty_le hplaces hold).trans (h.single hold)
    | false =>
        obtain ⟨hpc, rfl⟩ := hlocked hold hcompleted
        exact single_of_complete hplaces hduties hpc (hsafe hold hcompleted).2.2
  · intro hdestroyed
    by_cases hold : 0 < op.destroyed
    · obtain ⟨hquiet, hretired⟩ := h.quiet hold
      exact hretired.move hquiet hop
    · have hfirst : op'.destroyed = op.destroyed → False := by omega
      cases hop with
      | enter hop => cases hop <;> exact (hfirst rfl).elim
      | @progress p _ hop hclear =>
          cases hop with
          | destroy hpc =>
              obtain ⟨hothers, ⟨hidle, hrunning⟩, howner, harmed⟩ :=
                h.quiet_of_destroy hplaces hduties hcallback hpc
              have hmoved : ∀ q, q ≠ p → Function.update op.pc p
                  (.release op.state.association) q = op.pc q :=
                fun q hq => Function.update_of_ne hq _ _
              refine ⟨fun q => ?_, ⟨?_, ?_⟩, howner, harmed⟩
              · change (Function.update op.pc p _ q).touches = false
                by_cases hq : q = p
                · rw [hq, Function.update_self]
                  rfl
                · rw [hmoved q hq]
                  exact hothers q hq
              all_goals
                change Function.update op.pc p _ .child ≠ _
                by_cases hp : Party.child = p
                · rw [hp, Function.update_self]
                  simp
                · rw [hmoved _ hp]
                  assumption
          | _ => exact (hfirst rfl).elim
      | _ => exact (hfirst rfl).elim

end LifetimeInv

end Bexec.SpawnFuture
