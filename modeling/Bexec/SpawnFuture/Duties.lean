import Bexec.SpawnFuture.Places

/-!
# The right to complete the receiver and the duty to destroy the state

The right passes from the owner to the consumer slot and from there to one
party, the duty from the owner or the slot to a party. Both are counted, and so
is the association.
-/

namespace Bexec.SpawnFuture

open Foundation

variable {Thread Value Error : Type}

namespace Pc

def releases : Pc → Bool
  | .release _ => true
  | _ => false

def engaged : Pc → Bool
  | .release engaged => engaged
  | _ => false

/-- The kinds of points that are counted, as numbers. -/
def weights (x : Pc) : Nat × Nat × Nat × Nat × Nat :=
  (x.resets.toNat, x.signals.toNat, x.destroys.toNat, x.releases.toNat, x.engaged.toNat)

theorem weights_of_not_tail {x : Pc} (hx : x.isTail = false) : x.weights = (0, 0, 0, 0, 0) := by
  cases x <;> first | rfl | cases hx

end Pc

/-- How many of the parties are at a point of the given kind. -/
def Operation.count (op : Operation Thread Value Error) (kind : Pc → Bool) : Nat :=
  (kind (op.pc .child)).toNat + (kind (op.pc .owner)).toNat + (kind (op.pc .cancel)).toNat

structure Duties (op : Operation Thread Value Error) : Prop where
  right : (op.begun && (op.pc .owner).before).toNat + op.state.consumer.toNat +
    op.count Pc.resets + op.count Pc.signals + op.signals.length = op.begun.toNat
  signalled : op.signals ≠ [] → op.state.completed = true ∨ op.state.stopped = true
  early : op.state.completed = false → op.destroyed = 0 ∧ op.count Pc.destroys = 0
  late : op.state.completed = true → 1 ≤ op.destroyed + op.count Pc.destroys +
    (op.pc .owner).before.toNat + (op.state.cancelling && op.state.consumer).toNat
  dropped : op.begun = false →
    (op.pc .owner).before = true ∨ op.state.abandoned = true ∨ op.state.completed = true
  releases : op.count Pc.releases ≤ op.destroyed
  unspawned : op.future = .unspawned → op.accepted = false
  association : op.state.association.toNat + op.count Pc.engaged + op.released =
    op.accepted.toNat

variable {t : Thread} {op op' : Operation Thread Value Error} {p : Party} {x y : Pc}

/-- The counts when one party moves. -/
structure Counts (op op' : Operation Thread Value Error) (x y : Pc) : Prop where
  resets : op'.count Pc.resets + x.weights.1 = op.count Pc.resets + y.weights.1
  signals : op'.count Pc.signals + x.weights.2.1 = op.count Pc.signals + y.weights.2.1
  destroys : op'.count Pc.destroys + x.weights.2.2.1 = op.count Pc.destroys + y.weights.2.2.1
  releases : op'.count Pc.releases + x.weights.2.2.2.1 =
    op.count Pc.releases + y.weights.2.2.2.1
  engaged : op'.count Pc.engaged + x.weights.2.2.2.2 = op.count Pc.engaged + y.weights.2.2.2.2

theorem count_moved (kind : Pc → Bool) (hpc : op.pc p = x)
    (hmoved : op'.pc = Function.update op.pc p y) :
    op'.count kind + (kind x).toNat = op.count kind + (kind y).toNat := by
  unfold Operation.count
  rw [hmoved, ← hpc]
  cases p <;> simp <;> omega

theorem counts (hpc : op.pc p = x) (hmoved : op'.pc = Function.update op.pc p y) :
    Counts op op' x y where
  resets := count_moved _ hpc hmoved
  signals := count_moved _ hpc hmoved
  destroys := count_moved _ hpc hmoved
  releases := count_moved _ hpc hmoved
  engaged := count_moved _ hpc hmoved

theorem before_moved (hpc : op.pc p = x) (hmoved : op'.pc = Function.update op.pc p y)
    (hsame : y.before = x.before) : (op'.pc .owner).before = (op.pc .owner).before := by
  rw [hmoved]
  by_cases hp : Party.owner = p
  · subst hp
    rw [Function.update_self, hsame, hpc]
  · rw [Function.update_of_ne hp]

theorem count_pos {kind : Pc → Bool} (hkind : kind (op.pc p) = true) : 0 < op.count kind := by
  unfold Operation.count
  cases p <;> simp [hkind]

/-- The flags that exclude a cancellation in progress. -/
theorem Places.of_cancelling (h : Places op) (hcancelling : op.state.cancelling = true) :
    op.state.stopped = false ∧ op.state.abandoned = false := by
  rw [h.cancelling] at hcancelling
  constructor
  · by_contra hstopped
    have hcancel := h.stopped (by simpa using hstopped)
    cases hpc : op.pc .cancel <;> simp_all [Pc.cancels, Pc.stops]
  · by_contra habandoned
    have hbegun := (h.abandoned (by simpa using habandoned)).1
    rw [(h.unregistered (.inl hbegun)).2] at hcancelling
    cases hcancelling

namespace Duties

theorem initial : Duties (.initial : Operation Thread Value Error) := by
  constructor <;> simp [Operation.initial, FutureState.initial, Operation.count, Pc.before,
    Pc.resets, Pc.signals, Pc.destroys, Pc.releases, Pc.engaged]

/-- A party moves outside the tails of the sections. -/
theorem plain (h : Duties op) (hmoved : op'.pc = Function.update op.pc p y)
    (hx : (op.pc p).isTail = false) (hy : y.isTail = false)
    (hbefore : (op'.pc .owner).before = (op.pc .owner).before)
    (hbegun : op'.begun = op.begun) (hsignals : op'.signals = op.signals)
    (hdestroyed : op'.destroyed = op.destroyed) (hreleased : op'.released = op.released)
    (haccepted : op'.accepted = op.accepted)
    (hfuture : op'.future = .unspawned → op.future = .unspawned)
    (hstate : op'.state = { op.state with result := op'.state.result }) : Duties op' := by
  obtain ⟨c1, c2, c3, c4, c5⟩ := counts rfl hmoved
  rw [Pc.weights_of_not_tail hx, Pc.weights_of_not_tail hy] at c1 c2 c3 c4 c5
  simp only [Nat.add_right_cancel_iff] at c1 c2 c3 c4 c5
  obtain ⟨d1, d2, d3, d4, d5, d6, d7, d8⟩ := h
  constructor <;> simp only [c1, c2, c3, c4, c5, hbefore, hbegun, hsignals, hdestroyed, hreleased,
    haccepted] <;> (try rw [hstate]) <;> first | assumption | exact fun hu => d7 (hfuture hu)

/-- Nobody is to destroy the state before the child has completed. -/
theorem completed_of_destroys (h : Duties op) (hp : (op.pc p).destroys = true) :
    op.state.completed = true := by
  have hpos := count_pos hp
  by_contra hnot
  have hearly := h.early (by simpa using hnot)
  omega

/-- A party that is to destroy the state has a result to deliver. -/
theorem result_of_destroys (h : Duties op) (hplaces : Places op)
    (hp : (op.pc p).destroys = true) : op.state.result ≠ none := by
  have hcompleted := h.completed_of_destroys hp
  rw [hplaces.completed] at hcompleted
  have hstored : op.state.result.isSome = true := by
    rw [hplaces.result]
    cases hpc : op.pc .child <;> simp_all [Pc.completed, Pc.stored]
  intro hnone
  rw [hnone] at hstored
  cases hstored

/-- What the right to complete the receiver was used for. -/
theorem decided_of_delivers (h : Duties op) (hplaces : Places op)
    (hp : (op.pc p).resets = true ∨ (op.pc p).signals = true) :
    op.state.completed = true ∨ op.state.stopped = true := by
  have hcases : (op.pc p).destroys = true ∨ (op.pc p).stops = true := by
    cases hpc : op.pc p with
    | reset stored | signal stored => cases stored <;> simp [Pc.destroys, Pc.stops]
    | _ => simp_all [Pc.resets, Pc.signals]
  exact hcases.imp h.completed_of_destroys (hplaces.stops p)

theorem not_delivering (h : Duties op) (hplaces : Places op)
    (hcompleted : op.state.completed = false) (hstopped : op.state.stopped = false) :
    op.count Pc.resets = 0 ∧ op.count Pc.signals = 0 ∧ op.signals = [] := by
  have hnone : ∀ p, (op.pc p).resets = false ∧ (op.pc p).signals = false := by
    intro p
    by_contra hp
    have hdecided := h.decided_of_delivers (p := p) hplaces (by
      cases hresets : (op.pc p).resets <;> cases hsignals : (op.pc p).signals <;> simp_all)
    simp [hcompleted, hstopped] at hdecided
  refine ⟨by simp [Operation.count, hnone], by simp [Operation.count, hnone], ?_⟩
  by_contra hsignals
  have hdecided := h.signalled hsignals
  simp [hcompleted, hstopped] at hdecided

/-- Before the child has completed, the owner is before its section or waits as the
consumer, unless the future was abandoned or cancelled. -/
theorem waiting (h : Duties op) (hplaces : Places op) (hcompleted : op.state.completed = false)
    (hstopped : op.state.stopped = false) (habandoned : op.state.abandoned = false) :
    (op.pc .owner).before = true ∨ op.state.consumer = true := by
  obtain ⟨hresets, hsignals, hnil⟩ := h.not_delivering hplaces hcompleted hstopped
  have hright := h.right
  rw [hresets, hsignals, hnil, List.length_nil] at hright
  cases hbegun : op.begun with
  | false =>
      have hdropped := h.dropped hbegun
      simp [hcompleted, habandoned] at hdropped
      exact .inl hdropped
  | true =>
      by_contra hnot
      simp_all

/-- A party goes on behind its section. -/
theorem behind (h : Duties op) (hpc : op.pc p = x) (hmoved : op'.pc = Function.update op.pc p y)
    (hbefore : x.before = false ∧ y.before = false) (hbegun : op'.begun = op.begun)
    (haccepted : op'.accepted = op.accepted) (hfuture : op'.future = op.future)
    (hstate : op'.state = { op.state with association := op'.state.association })
    (hright : y.weights.1 + y.weights.2.1 + op'.signals.length =
      x.weights.1 + x.weights.2.1 + op.signals.length)
    (hsignalled : op'.signals ≠ [] → op.state.completed = true ∨ op.state.stopped = true)
    (hduty : y.weights.2.2.1 + op'.destroyed = x.weights.2.2.1 + op.destroyed)
    (hdestroyed : op.state.completed = false → op'.destroyed = op.destroyed)
    (hreleases : y.weights.2.2.2.1 + op.destroyed ≤ x.weights.2.2.2.1 + op'.destroyed)
    (hassociation : op'.state.association.toNat + y.weights.2.2.2.2 + op'.released =
      op.state.association.toNat + x.weights.2.2.2.2 + op.released) : Duties op' := by
  obtain ⟨c1, c2, c3, c4, c5⟩ := counts hpc hmoved
  have howner := before_moved hpc hmoved (hbefore.2.trans hbefore.1.symm)
  obtain ⟨d1, d2, d3, d4, d5, d6, d7, d8⟩ := h
  have hconsumer : op'.state.consumer = op.state.consumer := by rw [hstate]
  have hcompleted : op'.state.completed = op.state.completed := by rw [hstate]
  have hstopped : op'.state.stopped = op.state.stopped := by rw [hstate]
  have hcancelling : op'.state.cancelling = op.state.cancelling := by rw [hstate]
  have habandoned : op'.state.abandoned = op.state.abandoned := by rw [hstate]
  constructor
  · rw [hbegun, howner, hconsumer]
    omega
  · rwa [hcompleted, hstopped]
  · rw [hcompleted]
    intro hnot
    have hold := d3 hnot
    have hsame := hdestroyed hnot
    omega
  · rw [hcompleted, howner, hcancelling, hconsumer]
    intro hdone
    have hold := d4 hdone
    omega
  · rwa [hbegun, howner, habandoned, hcompleted]
  · omega
  · rwa [hfuture, haccepted]
  · rw [haccepted]
    omega

theorem progress_tail (h : Duties op) (hplaces : Places op) (hop : Progress t op p op')
    (htail : (op.pc p).isTail = true) : Duties op' := by
  cases hop with
  | lock hpc | finish hpc | store hpc hsent | register hp hpc =>
      rw [hpc] at htail
      cases htail
  | skip hpc hresult =>
      exact absurd hresult (h.result_of_destroys (p := p) hplaces (by rw [hpc]; rfl))
  | @reset stored hpc hresult hwait =>
      exact h.behind hpc rfl ⟨rfl, rfl⟩ rfl rfl rfl rfl (by cases stored <;> rfl) h.signalled
        (by cases stored <;> rfl) (fun _ => rfl) (by cases stored <;> exact le_rfl)
        (by cases stored <;> rfl)
  | @signal stored hpc completion hsignal =>
      have hdecided := h.decided_of_delivers (p := p) hplaces (by rw [hpc]; exact .inr rfl)
      refine h.behind hpc rfl ⟨rfl, rfl⟩ rfl rfl rfl rfl ?_ (fun _ => hdecided)
        (by cases stored <;> rfl) (fun _ => rfl) (by cases stored <;> exact le_rfl)
        (by cases stored <;> rfl)
      cases stored <;> simp [Operation.setPc, Pc.weights, Pc.resets, Pc.signals] <;> omega
  | @handled stored hpc =>
      cases stored with
      | true =>
          exact h.behind hpc rfl ⟨rfl, rfl⟩ rfl rfl rfl rfl rfl h.signalled rfl (fun _ => rfl)
            le_rfl rfl
      | false =>
          exact h.behind hpc rfl ⟨rfl, rfl⟩ rfl rfl rfl rfl rfl h.signalled rfl (fun _ => rfl)
            le_rfl rfl
  | destroy hpc =>
      have hcompleted := h.completed_of_destroys (p := p) (by rw [hpc]; rfl)
      refine h.behind hpc rfl ⟨rfl, rfl⟩ rfl rfl rfl rfl rfl h.signalled ?_ ?_ ?_ ?_
      · simp [Operation.setPc, Pc.weights, Pc.destroys]
        omega
      · simp [hcompleted]
      · simp [Operation.setPc, Pc.weights, Pc.releases]
        omega
      · simp [Operation.setPc, Pc.weights, Pc.engaged]
  | @release engaged hpc =>
      refine h.behind hpc rfl ⟨rfl, rfl⟩ rfl rfl rfl rfl rfl h.signalled rfl (fun _ => rfl) ?_ ?_
      · simp [Operation.setPc, Pc.weights, Pc.releases]
      · simp [Operation.setPc, Pc.weights, Pc.engaged]
        omega

/-- Whether the owner is still before its section when a party has left one. -/
def ownerBefore (op : Operation Thread Value Error) (p : Party) : Bool :=
  decide (p ≠ .owner) && (op.pc .owner).before

/-- A party leaves a section. -/
theorem leaves (h : Duties op) {exit : Exit} {state : FutureState Value Error}
    (hpc : (op.pc p).isTail = false) (hassociation : state.association = op.state.association)
    (hcompleted : op.state.completed = true → state.completed = true)
    (hstopped : op.state.stopped = true → state.stopped = true)
    (hright : (op.begun && ownerBefore op p).toNat + state.consumer.toNat + exit.pc.weights.1 =
      (op.begun && (op.pc .owner).before).toNat + op.state.consumer.toNat)
    (hearly : state.completed = false → exit.pc.weights.2.2.1 = 0)
    (hlate : state.completed = true → 1 ≤ op.destroyed + op.count Pc.destroys +
      exit.pc.weights.2.2.1 + (ownerBefore op p).toNat +
        (state.cancelling && state.consumer).toNat)
    (hdropped : op.begun = false →
      ownerBefore op p = true ∨ state.abandoned = true ∨ state.completed = true) :
    Duties (op.exit p (exit, state)) := by
  obtain ⟨c1, c2, c3, c4, c5⟩ : Counts op (op.exit p (exit, state)) (op.pc p) exit.pc :=
    counts rfl rfl
  rw [Pc.weights_of_not_tail hpc] at c1 c2 c3 c4 c5
  have hbefore : ((op.exit p (exit, state)).pc .owner).before = ownerBefore op p := by
    unfold ownerBefore Operation.exit Operation.setPc
    cases p <;> cases exit <;> simp [Exit.pc, Pc.before]
  have hsignals : exit.pc.weights.2.1 = 0 := by cases exit <;> rfl
  have hreleases : exit.pc.weights.2.2.2.1 = 0 := by cases exit <;> rfl
  have hengaged : exit.pc.weights.2.2.2.2 = 0 := by cases exit <;> rfl
  simp only [hsignals, hreleases, hengaged] at c1 c2 c3 c4 c5
  obtain ⟨d1, d2, d3, d4, d5, d6, d7, d8⟩ := h
  constructor
  · rw [hbefore]
    change (op.begun && _).toNat + state.consumer.toNat + _ + _ + op.signals.length = op.begun.toNat
    omega
  · exact fun hsignals => (d2 hsignals).imp hcompleted hstopped
  · intro hnot
    change state.completed = false at hnot
    have hold : op.state.completed = false := by
      by_contra hdone
      rw [hcompleted (by simpa using hdone)] at hnot
      cases hnot
    have hzero := d3 hold
    have hnone := hearly hnot
    exact ⟨hzero.1, by omega⟩
  · intro hdone
    have hnew := hlate hdone
    rw [hbefore]
    change 1 ≤ op.destroyed + _ + _ + (state.cancelling && state.consumer).toNat
    omega
  · intro hbegun
    rw [hbefore]
    exact hdropped hbegun
  · change _ ≤ op.destroyed
    omega
  · exact d7
  · change state.association.toNat + _ + op.released = op.accepted.toNat
    rw [hassociation]
    omega

theorem complete (h : Duties op) (hplaces : Places op) (hpc : op.pc .child = .lock) :
    Duties (op.exit .child op.state.complete) := by
  have hnot : op.state.completed = false := by
    rw [hplaces.completed, hpc]
    rfl
  have htail : (op.pc .child).isTail = false := by
    rw [hpc]
    rfl
  have hwaiting := h.waiting hplaces hnot
  unfold FutureState.complete
  split_ifs with hcancelling hdestroy hconsumer
  · refine h.leaves htail rfl (fun _ => rfl) id rfl (fun _ => rfl) ?_ fun _ => .inr (.inr rfl)
    obtain ⟨hstopped, habandoned⟩ := hplaces.of_cancelling hcancelling
    intro _
    rcases hwaiting hstopped habandoned with hbefore | hconsumer
    · simp only [ownerBefore, hbefore, ne_eq, reduceCtorEq, not_false_eq_true, decide_true,
        Bool.and_self, Bool.toNat_true]
      omega
    · simp only [hcancelling, hconsumer, Bool.and_self, Bool.toNat_true]
      omega
  · refine h.leaves htail rfl (fun _ => rfl) id rfl (by simp) ?_ fun _ => .inr (.inr rfl)
    intro _
    change 1 ≤ _ + _ + 1 + _ + _
    omega
  · refine h.leaves htail rfl (fun _ => rfl) id ?_ (by simp) ?_ fun _ => .inr (.inr rfl)
    · rw [hconsumer]
      rfl
    · intro _
      change 1 ≤ _ + _ + 1 + _ + _
      omega
  · refine h.leaves htail rfl (fun _ => rfl) id rfl (fun _ => rfl) ?_ fun _ => .inr (.inr rfl)
    simp only [Bool.not_eq_true, Bool.or_eq_false_iff] at hdestroy hconsumer
    have hbefore : (op.pc .owner).before = true := by
      simpa [hconsumer] using hwaiting hdestroy.1 hdestroy.2
    intro _
    simp only [ownerBefore, hbefore, ne_eq, reduceCtorEq, not_false_eq_true, decide_true,
      Bool.and_self, Bool.toNat_true]
    omega

theorem consume (h : Duties op) (hplaces : Places op) (hpc : op.pc .owner = .lock)
    (hbegun : op.begun = true) : Duties (op.exit .owner op.state.consume) := by
  have htail : (op.pc .owner).isTail = false := by
    rw [hpc]
    rfl
  have hconsumer : op.state.consumer = false := by
    by_contra hconsumer
    have howner := (hplaces.consumer (by simpa using hconsumer)).2
    simp [hpc] at howner
  unfold FutureState.consume
  split_ifs with hcompleted hstopped
  · refine h.leaves htail rfl id id ?_ (by simp [hcompleted]) ?_ (by simp [hbegun])
    · rw [hbegun, hpc, hconsumer]
      rfl
    · intro _
      change 1 ≤ _ + _ + 1 + _ + _
      omega
  · refine h.leaves htail rfl id id ?_ (fun _ => rfl) (by simp [hcompleted]) (by simp [hbegun])
    rw [hbegun, hpc, hconsumer]
    rfl
  · refine h.leaves htail rfl id id ?_ (fun _ => rfl) (by simp [hcompleted]) (by simp [hbegun])
    rw [hbegun, hpc, hconsumer]
    rfl

theorem abandon (h : Duties op) (hpc : op.pc .owner = .lock) (hbegun : op.begun = false) :
    Duties (op.exit .owner op.state.abandon) := by
  have htail : (op.pc .owner).isTail = false := by
    rw [hpc]
    rfl
  unfold FutureState.abandon
  split_ifs with hcompleted
  · refine h.leaves htail rfl id id (by rw [hbegun]; rfl) (by simp [hcompleted]) ?_
      fun _ => .inr (.inr hcompleted)
    intro _
    change 1 ≤ _ + _ + 1 + _ + _
    omega
  · exact h.leaves htail rfl id id (by rw [hbegun]; rfl) (fun _ => rfl) (by simp [hcompleted])
      fun _ => .inr (.inl rfl)

/-- A section that changes nothing. -/
theorem leaves_unchanged (h : Duties op) (hp : p ≠ .owner) (hpc : (op.pc p).isTail = false) :
    Duties (op.exit p (.nothing, op.state)) := by
  have hbefore : ownerBefore op p = (op.pc .owner).before := by simp [ownerBefore, hp]
  refine h.leaves hpc rfl id id (by rw [hbefore]; rfl) (fun _ => rfl) ?_ ?_
  · rw [hbefore]
    exact h.late
  · rw [hbefore]
    exact h.dropped

theorem tryCancel (h : Duties op) (hpc : op.pc .cancel = .lock) :
    Duties (op.exit .cancel op.state.tryCancel) := by
  have htail : (op.pc .cancel).isTail = false := by
    rw [hpc]
    rfl
  unfold FutureState.tryCancel
  split_ifs with hdone
  · exact h.leaves_unchanged (by simp) htail
  · simp only [Bool.not_eq_true, Bool.or_eq_false_iff] at hdone
    exact h.leaves htail rfl id id rfl (fun _ => rfl) (by simp [hdone.1]) h.dropped

theorem finishCancellation (h : Duties op) (hplaces : Places op) (hpc : op.pc .cancel = .finish) :
    Duties (op.exit .cancel op.state.finishCancellation) := by
  have htail : (op.pc .cancel).isTail = false := by
    rw [hpc]
    rfl
  unfold FutureState.finishCancellation
  split_ifs with hcancelling hcompleted hdestroy hconsumer hconsumer
  · exact h.leaves_unchanged (by simp) htail
  · have hflags := hplaces.of_cancelling (by simpa using hcancelling)
    simp [hflags] at hdestroy
  · refine h.leaves htail rfl id id ?_ (by simp [hcompleted]) ?_ h.dropped
    · rw [hconsumer]
      rfl
    · intro _
      change 1 ≤ _ + _ + 1 + _ + _
      omega
  · refine h.leaves htail rfl id id rfl (fun _ => rfl) ?_ h.dropped
    intro hdone
    have hlate := h.late hdone
    simp only [Bool.not_eq_true] at hconsumer
    simp only [hconsumer, Bool.and_false] at hlate ⊢
    exact hlate
  · refine h.leaves htail rfl id (fun _ => rfl) ?_ (fun _ => rfl) (by simp [hcompleted]) h.dropped
    rw [hconsumer]
    rfl
  · exact h.leaves htail rfl id (fun _ => rfl) rfl (fun _ => rfl) (by simp [hcompleted]) h.dropped

/-- The future is started, and with it comes the right to complete the receiver. -/
theorem start (h : Duties op) (hplaces : Places op) (hheld : op.future = .held) :
    Duties ({ op with future := .taken, begun := true }.setPc .owner .register) := by
  obtain ⟨hidle, hbegun⟩ := hplaces.idle_of_held hheld
  obtain ⟨c1, c2, c3, c4, c5⟩ :
      Counts op ({ op with future := .taken, begun := true }.setPc .owner .register) .idle
        .register := counts hidle rfl
  obtain ⟨d1, d2, d3, d4, d5, d6, d7, d8⟩ := h
  rw [hbegun] at d1
  change _ + 0 = _ + 0 at c1 c2 c3 c4 c5
  constructor
  · change 1 + op.state.consumer.toNat + _ + _ + op.signals.length = 1
    simp only [Bool.false_and, Bool.toNat_false] at d1
    omega
  · exact d2
  · intro hnot
    have hearly := d3 hnot
    exact ⟨hearly.1, by omega⟩
  · intro hdone
    have hlate := d4 hdone
    rw [hidle] at hlate
    change 1 ≤ op.destroyed + _ + 1 + _
    omega
  · simp [Operation.setPc]
  · change _ ≤ op.destroyed
    omega
  · simp [Operation.setPc]
  · change op.state.association.toNat + _ + op.released = op.accepted.toNat
    omega

/-- The association is engaged. -/
theorem spawn (h : Duties op) (hplaces : Places op) (hfuture : op.future = .unspawned) :
    Duties ({ op with
      state := { op.state with association := true }
      future := .constructing
      accepted := true }.setPc .child .running) := by
  obtain ⟨c1, c2, c3, c4, c5⟩ : Counts op ({ op with
      state := { op.state with association := true }
      future := .constructing
      accepted := true }.setPc .child .running) .idle .running :=
    counts (hplaces.unspawned.mp hfuture) rfl
  change _ + 0 = _ + 0 at c1 c2 c3 c4 c5
  have hnone := h.association
  rw [h.unspawned hfuture, Bool.toNat_false] at hnone
  obtain ⟨d1, d2, d3, d4, d5, d6, d7, d8⟩ := h
  constructor
  · change (op.begun && (op.pc .owner).before).toNat + op.state.consumer.toNat + _ + _ +
      op.signals.length = op.begun.toNat
    omega
  · exact d2
  · intro hnot
    have hearly := d3 hnot
    exact ⟨hearly.1, by omega⟩
  · intro hdone
    have hlate := d4 hdone
    change 1 ≤ op.destroyed + _ + (op.pc .owner).before.toNat +
      (op.state.cancelling && op.state.consumer).toNat
    omega
  · exact d5
  · change _ ≤ op.destroyed
    omega
  · simp [Operation.setPc]
  · change 1 + _ + op.released = 1
    omega

theorem enter (h : Duties op) (hplaces : Places op) (hop : Enter t op p op') : Duties op' := by
  cases hop with
  | complete hpc completion thrown =>
      exact h.plain (p := .child) rfl (by rw [hpc]; rfl) rfl rfl rfl rfl rfl rfl rfl id rfl
  | drop hheld =>
      have hidle := (hplaces.idle_of_held hheld).1
      exact h.plain (p := .owner) rfl (by rw [hidle]; rfl) rfl (by rw [hidle]; rfl) rfl rfl rfl rfl
        rfl (by simp [Operation.setPc]) rfl
  | start hheld => exact h.start hplaces hheld
  | stop harmed =>
      exact h.plain (p := .cancel) rfl (by rw [hplaces.kept (.inr harmed)]; rfl) rfl rfl rfl rfl rfl
        rfl rfl id rfl

theorem progress (h : Duties op) (hplaces : Places op) (hop : Progress t op p op') :
    Duties op' := by
  by_cases htail : (op.pc p).isTail = true
  · exact h.progress_tail hplaces hop htail
  · cases hop with
    | lock hpc =>
        cases p with
        | child => exact h.complete hplaces hpc
        | cancel => exact h.tryCancel hpc
        | owner =>
            simp only [Operation.locked]
            split
            next hbegun => exact h.consume hplaces hpc hbegun
            next hbegun => exact h.abandon hpc (by simpa using hbegun)
    | finish hpc =>
        obtain rfl := hplaces.cancel_of_finish hpc
        exact h.finishCancellation hplaces hpc
    | store hpc hsent =>
        have hp : p ≠ .owner := by
          rintro rfl
          have howner := hplaces.owner
          rw [hpc] at howner
          cases howner
        exact h.plain rfl (by rw [hpc]; rfl) rfl (by simp [Operation.setPc, hp.symm]) rfl rfl rfl
          rfl rfl id rfl
    | register hp hpc =>
        subst hp
        exact h.plain rfl (by rw [hpc]; rfl) rfl (by rw [hpc]; rfl) rfl rfl rfl rfl rfl id rfl
    | skip hpc | reset hpc | signal hpc | handled hpc | destroy hpc | release hpc =>
        rw [hpc] at htail
        exact absurd rfl htail

theorem move [DecidableEq Thread] (h : Duties op) (hplaces : Places op) (hop : Move t op op') :
    Duties op' := by
  cases hop with
  | same => exact h
  | enter hop => exact h.enter hplaces hop
  | progress hop hclear => exact h.progress hplaces hop
  | spawn hfuture => exact h.spawn hplaces hfuture
  | reject hfuture =>
      exact h.plain (p := .child) rfl (by rw [hplaces.unspawned.mp hfuture]; rfl) rfl rfl rfl rfl
        rfl rfl rfl (by simp [Operation.setPc]) rfl
  | hold hfuture =>
      exact ⟨h.right, h.signalled, h.early, h.late, h.dropped, h.releases, by simp, h.association⟩
  | registerLate hpc =>
      have howner : Duties ({ op with onStop := .running t }.setPc .owner .lock) :=
        h.plain rfl (by rw [hpc]; rfl) rfl (by rw [hpc]; rfl) rfl rfl rfl rfl rfl id rfl
      have hcancel := (hplaces.unregistered (.inr hpc)).2
      exact howner.plain (p := .cancel) rfl (by simp [Operation.setPc, hcancel, Pc.isTail]) rfl rfl
        rfl rfl rfl rfl rfl id rfl
  | request hpc =>
      exact h.plain rfl (by rw [hpc]; rfl) rfl (before_moved hpc rfl rfl) rfl rfl rfl rfl rfl id rfl
  | @resume p hpc =>
      have hrequested : p.requested.isTail = false ∧ p.requested.before = false := by
        cases p <;> exact ⟨rfl, rfl⟩
      exact h.plain rfl (by rw [hpc]; rfl) hrequested.1 (before_moved hpc rfl hrequested.2) rfl rfl
        rfl rfl rfl id rfl
  | leave hpc hcallback =>
      exact h.plain rfl (by rw [hpc]; rfl) rfl (before_moved hpc rfl rfl) rfl rfl rfl rfl rfl id rfl

end Duties

end Bexec.SpawnFuture
