import Bexec.Spawn.Effect

/-!
# The ledger of a spawned operation

What has entered a place and not left it is still there, so the counts of calls
and of records balance.
-/

namespace Bexec.Spawn

open Foundation

variable {Thread Op Handle Join : Type} [Fintype Thread] [DecidableEq Thread] [DecidableEq Op]
  {s s' : State Thread Op Handle Join} {t : Thread} {k : Op} {old new : List Place}
  {events : List Event}

/-- Calls neither appear nor vanish between the records. -/
structure Conserves (old new : List Place) (events : List Event) : Prop where
  spawned : new.count .construct + new.count .start + events.count .started +
    events.count .rejected = old.count .construct + old.count .start + events.count .spawned
  returning : new.count .starting + events.count .startReturned =
    old.count .starting + events.count .started
  arriving : new.count .arrive + events.count .arrived =
    old.count .arrive + events.count .startReturned + events.count .completed
  moving : new.count .finish + events.count .moved = old.count .finish + events.count .finishing
  destroying : new.count .destroy + new.count .destroying + events.count .destroyed =
    old.count .destroy + old.count .destroying + events.count .moved
  deallocating : new.count .deallocate + events.count .deallocated =
    old.count .deallocate + events.count .destroyed
  releasing : new.count .release + events.count .released =
    old.count .release + events.count .deallocated

theorem Turn.conserves (turn : Turn) :
    Conserves turn.leaves turn.enters turn.records := by
  cases turn <;> constructor <;> decide

/-- The balance of one operation. `finish` is called once for a rejected
operation and by the second arrival for an accepted one. -/
structure Ledger (s : State Thread Op Handle Join) (k : Op) : Prop where
  spawned : s.callsAt .construct k + s.callsAt .start k + s.times .started k +
    s.times .rejected k = s.times .spawned k
  once : s.times .spawned k ≤ 1
  returning : s.callsAt .starting k + s.times .startReturned k = s.times .started k
  completes : s.times .completed k ≤ s.times .started k
  arriving : s.callsAt .arrive k + s.times .arrived k =
    s.times .startReturned k + s.times .completed k
  finishing : s.times .finishing k = s.times .rejected k + (s.times .arrived k - 1)
  moving : s.callsAt .finish k + s.times .moved k = s.times .finishing k
  destroying : s.callsAt .destroy k + s.callsAt .destroying k + s.times .destroyed k =
    s.times .moved k
  deallocating : s.callsAt .deallocate k + s.times .deallocated k = s.times .destroyed k
  releasing : s.callsAt .release k + s.times .released k = s.times .deallocated k
  arrived : k ∈ s.arrived ↔ 0 < s.times .arrived k
  allocated : k ∈ s.allocated ↔ s.times .deallocated k < s.times .spawned k
  alive : k ∈ s.alive ↔ s.times .destroyed k < s.times .spawned k

namespace Ledger

omit [DecidableEq Thread] in
/-- A step about another operation. -/
theorem congr (h : Ledger s k) (hat : ∀ place, s'.callsAt place k = s.callsAt place k)
    (htimes : ∀ event, s'.times event k = s.times event k) (harrived : k ∈ s'.arrived ↔ k ∈ s.arrived)
    (hallocated : k ∈ s'.allocated ↔ k ∈ s.allocated) (halive : k ∈ s'.alive ↔ k ∈ s.alive) :
    Ledger s' k := by
  constructor <;> simp only [hat, htimes, harrived, hallocated, halive]
  · exact h.spawned
  · exact h.once
  · exact h.returning
  · exact h.completes
  · exact h.arriving
  · exact h.finishing
  · exact h.moving
  · exact h.destroying
  · exact h.deallocating
  · exact h.releasing
  · exact h.arrived
  · exact h.allocated
  · exact h.alive

/-- A step about the operation itself. -/
theorem turn (h : Ledger s k) (hturn : Turns s s' t k old new events)
    (hconserves : Conserves old new events) (honce : s'.times .spawned k ≤ 1)
    (hcompletes : s'.times .completed k ≤ s'.times .started k)
    (hfinishing : s'.times .finishing k = s'.times .rejected k + (s'.times .arrived k - 1))
    (harrived : k ∈ s'.arrived ↔ 0 < s'.times .arrived k)
    (hallocated : k ∈ s'.allocated ↔ s'.times .deallocated k < s'.times .spawned k)
    (halive : k ∈ s'.alive ↔ s'.times .destroyed k < s'.times .spawned k) : Ledger s' k := by
  have hat := hturn.callsAt_eq
  have htimes := hturn.times_eq
  constructor
  · have hflow := hconserves.spawned
    have hbefore := h.spawned
    have hconstruct := hat .construct
    have hstart := hat .start
    simp only [htimes]
    omega
  · exact honce
  · have hflow := hconserves.returning
    have hbefore := h.returning
    have hstarting := hat .starting
    simp only [htimes]
    omega
  · exact hcompletes
  · have hflow := hconserves.arriving
    have hbefore := h.arriving
    have harrive := hat .arrive
    simp only [htimes]
    omega
  · exact hfinishing
  · have hflow := hconserves.moving
    have hbefore := h.moving
    have hfinish := hat .finish
    simp only [htimes]
    omega
  · have hflow := hconserves.destroying
    have hbefore := h.destroying
    have hdestroy := hat .destroy
    have hdestroying := hat .destroying
    simp only [htimes]
    omega
  · have hflow := hconserves.deallocating
    have hbefore := h.deallocating
    have hdeallocate := hat .deallocate
    simp only [htimes]
    omega
  · have hflow := hconserves.releasing
    have hbefore := h.releasing
    have hrelease := hat .release
    simp only [htimes]
    omega
  · exact harrived
  · exact hallocated
  · exact halive

omit [DecidableEq Thread] in
theorem initial : Ledger (State.initial : State Thread Op Handle Join) k := by
  constructor <;> simp [State.initial, State.callsAt, State.times]

omit [DecidableEq Thread] in
/-- Later records are no more numerous than earlier ones. -/
theorem order (h : Ledger s k) : s.times .deallocated k ≤ s.times .destroyed k ∧
    s.times .destroyed k ≤ s.times .moved k ∧ s.times .moved k ≤ s.times .finishing k ∧
      s.times .finishing k ≤ s.times .spawned k := by
  obtain ⟨hspawned, honce, hreturning, hcompletes, harriving, hfinishing, hmoving, hdestroying,
    hdeallocating, -, -, -, -⟩ := h
  omega

variable [DecidableEq Handle] [DecidableEq Join]

/-- The turn of a call on the operation itself. -/
theorem own (h : Ledger s k) {turn : Turn} (heffect : TurnEffect s s' t k turn) :
    Ledger s' k := by
  obtain ⟨hturn, hguard, -, -, hallocated, halive, harrived⟩ := heffect
  have honce := h.once
  have horder := h.order
  have harrives := h.arrived
  apply h.turn hturn turn.conserves <;> simp only [hturn.times_eq]
  · cases turn <;> simp [Turn.records, Turn.Guard] at hguard ⊢ <;> omega
  · have hcompletes := h.completes
    cases turn <;> simp [Turn.records, Turn.Guard] at hguard ⊢ <;> omega
  · have hfinishing := h.finishing
    cases turn <;> simp [Turn.records, Turn.Guard, harrives] at hguard ⊢ <;> omega
  · rw [harrived]
    cases turn <;> simp [Turn.records, Turn.arrived, Turn.Guard, harrives] at hguard ⊢
    exact hguard
  · have hstorage := h.allocated
    rw [hallocated]
    cases turn <;> simp [Turn.records, Turn.allocated, Turn.Guard, hstorage] at hguard ⊢ <;> omega
  · have hchild := h.alive
    rw [halive]
    cases turn <;> simp [Turn.records, Turn.alive, Turn.Guard, hchild] at hguard ⊢ <;> omega

theorem effect (h : Ledger s k) (heffect : Effect s s') : Ledger s' k := by
  cases heffect with
  | scope a hforeign hstep hstack hlog hallocated halive harrived =>
      apply h.congr <;> simp [State.callsAt, State.times, hstack, hlog, hallocated, halive, harrived]
  | turn t k₁ turn hturn =>
      by_cases heq : k₁ = k
      · subst heq
        exact h.own hturn
      · apply h.congr (hturn.turns.callsAt_other heq) (hturn.turns.times_other heq)
        · rw [hturn.arrived]
          cases turn <;> simp [Turn.arrived, Ne.symm heq]
        · rw [hturn.allocated]
          cases turn <;> simp [Turn.allocated, Ne.symm heq]
        · rw [hturn.alive]
          cases turn <;> simp [Turn.alive, Ne.symm heq]

end Ledger

end Bexec.Spawn
