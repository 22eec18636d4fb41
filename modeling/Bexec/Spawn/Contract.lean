import Bexec.Spawn.Association

/-!
# Contract of spawn

A join that has completed proves the storage of every accepted operation gone.
-/

namespace Bexec.Spawn

open Foundation CountingScope

variable {Thread Op Handle Join : Type} [Fintype Thread] [DecidableEq Thread] [DecidableEq Op]
  [DecidableEq Handle] [DecidableEq Join] {s : State Thread Op Handle Join} {k : Op}

/-- What a client of `spawn` and of the scope may rely on, for each operation. -/
structure SpawnContract (s : State Thread Op Handle Join) (k : Op) : Prop where
  /-- Only an accepted call starts its child. -/
  started : 0 < s.times .started k → s.accepted k
  /-- The call that was refused is on its way through `finish`, or has freed
  the storage. -/
  rejected : s.refused k → s.times .started k = 0 ∧ s.times .completed k = 0 ∧
    (k ∈ s.allocated → ∃ place ∈ [Place.start, .finish, .destroy, .destroying, .deallocate],
      0 < s.callsAt place k)
  once : s.times .finishing k ≤ 1
  /-- `finish` waits for both arrivals. -/
  both : s.accepted k → 0 < s.times .finishing k →
    s.times .startReturned k = 1 ∧ s.times .completed k = 1
  /-- After both and with no call left the operation is finished and released. -/
  settled : s.accepted k → s.times .startReturned k = 1 → s.times .completed k = 1 →
    (∀ place, s.callsAt place k = 0) → s.times .finishing k = 1 ∧ s.times .released k = 1
  /-- A refused operation with no call left has been through `finish`: its child
  operation is destroyed and its storage freed. -/
  freed : s.refused k → (∀ place, s.callsAt place k = 0) →
    s.times .finishing k = 1 ∧ s.times .released k = 1 ∧ k ∉ s.allocated ∧ k ∉ s.alive
  /-- The association outlives the storage and the child operation. -/
  released : 0 < s.times .released k → k ∉ s.allocated ∧ k ∉ s.alive
  held : s.accepted k → k ∈ s.allocated ∨ k ∈ s.alive →
    .association k ∈ s.scope.engaged ∨ .moved k ∈ s.scope.engaged
  joined : ∀ j, .completed j ∈ s.scope.log → s.accepted k → k ∉ s.allocated ∧ k ∉ s.alive

namespace OperationInv

omit [DecidableEq Thread] [DecidableEq Join]

theorem decided_of_outcome (h : OperationInv s k) (houtcome : s.accepted k ∨ s.refused k) :
    Decided s k := by
  cases h.status with
  | fresh hcalls haccepted hrefused => exact absurd houtcome (by simp [haccepted, hrefused])
  | associating t rest base bits hstack hscope haccepted hrefused =>
      exact absurd houtcome (by simp [haccepted, hrefused])
  | decided hdecided => exact hdecided

theorem started (h : OperationInv s k) (hstarted : 0 < s.times .started k) : s.accepted k := by
  cases h.status with
  | fresh hcalls =>
      have hspawned := h.ledger.spawned
      omega
  | associating t rest base bits hstack =>
      have hstart := callsAt_pos (hstack ▸ List.mem_cons_self)
      have hspawned := h.ledger.spawned
      have honce := h.ledger.once
      omega
  | decided hdecided => exact hdecided.started hstarted

/-- An accepted operation that was not refused at `start` has the counts of one
that waits for two arrivals. -/
theorem not_rejected (h : OperationInv s k) (haccepted : s.accepted k) :
    s.times .rejected k = 0 := by
  have hdecided := h.decided_of_outcome (Or.inl haccepted)
  by_contra hrejected
  exact hdecided.outcome.mp (hdecided.rejected (Nat.pos_of_ne_zero hrejected)) haccepted

theorem held (h : OperationInv s k) (haccepted : s.accepted k)
    (hlive : k ∈ s.allocated ∨ k ∈ s.alive) :
    .association k ∈ s.scope.engaged ∨ .moved k ∈ s.scope.engaged := by
  have hdecided := h.decided_of_outcome (Or.inl haccepted)
  have hone := hdecided.spawned
  have hreleasing := h.ledger.releasing
  have horder := h.ledger.order
  rw [h.ledger.allocated, h.ledger.alive] at hlive
  rw [hdecided.engaged, h.moved.engaged]
  by_cases hmoved : s.times .moved k = 0
  · exact Or.inl ⟨haccepted, hmoved⟩
  · exact Or.inr ⟨haccepted, by omega, by omega⟩

theorem rejected (h : OperationInv s k) (hrefused : s.refused k) :
    s.times .started k = 0 ∧ s.times .completed k = 0 ∧
      (k ∈ s.allocated → ∃ place ∈ [Place.start, .finish, .destroy, .destroying, .deallocate],
        0 < s.callsAt place k) := by
  have hdecided := h.decided_of_outcome (Or.inr hrefused)
  have hstarted : s.times .started k = 0 := by
    by_contra hstarted
    exact hdecided.outcome.mp hrefused (hdecided.started (Nat.pos_of_ne_zero hstarted))
  have hcompletes := h.ledger.completes
  refine ⟨hstarted, by omega, ?_⟩
  intro hallocated
  rw [h.ledger.allocated] at hallocated
  by_contra hnone
  simp only [List.mem_cons, List.not_mem_nil, or_false, exists_eq_or_imp, exists_eq_left,
    not_or] at hnone
  have hone := hdecided.spawned
  have hconstructed := hdecided.constructed
  obtain ⟨hspawned, -, -, -, -, hfinishing, hmoving, hdestroying, hdeallocating, -⟩ := h.ledger
  omega

theorem freed (h : OperationInv s k) (hrefused : s.refused k)
    (hnone : ∀ place, s.callsAt place k = 0) :
    s.times .finishing k = 1 ∧ s.times .released k = 1 ∧ k ∉ s.allocated ∧ k ∉ s.alive := by
  have hstarted := (h.rejected hrefused).1
  have hone := (h.decided_of_outcome (Or.inr hrefused)).spawned
  have hconstruct := hnone .construct
  have hstart := hnone .start
  have harrive := hnone .arrive
  have hfinish := hnone .finish
  have hdestroy := hnone .destroy
  have hdestroying' := hnone .destroying
  have hdeallocate := hnone .deallocate
  have hrelease := hnone .release
  rw [h.ledger.allocated, h.ledger.alive]
  obtain ⟨hspawned, -, hreturning, hcompletes, harriving, hends, hmoving, hdestroying,
    hdeallocating, hreleasing, -⟩ := h.ledger
  omega

end OperationInv

theorem spawn_contract (hs : (machine Thread Op Handle Join).Reachable s) (k : Op) :
    SpawnContract s k := by
  have h := operationInv_of_reachable hs k
  have hjoin := join_contract (scope_reachable hs)
  have honce := h.ledger.once
  have horder := h.ledger.order
  constructor
  · exact h.started
  · exact h.rejected
  · omega
  · intro haccepted hfinishing
    have hrejected := h.not_rejected haccepted
    obtain ⟨hspawned, -, hreturning, hcompletes, harriving, hends, -⟩ := h.ledger
    omega
  · intro haccepted hreturned hcompleted hnone
    have hrejected := h.not_rejected haccepted
    have harrive := hnone .arrive
    have hfinish := hnone .finish
    have hdestroy := hnone .destroy
    have hdestroying' := hnone .destroying
    have hdeallocate := hnone .deallocate
    have hrelease := hnone .release
    obtain ⟨-, -, -, -, harriving, hends, hmoving, hdestroying, hdeallocating, hreleasing, -⟩ :=
      h.ledger
    omega
  · exact h.freed
  · intro hreleased
    have hreleasing := h.ledger.releasing
    rw [h.ledger.allocated, h.ledger.alive]
    omega
  · exact h.held
  · intro j hj haccepted
    have hempty := (hjoin.timely j hj).2.2.1
    have hnone : ¬ (k ∈ s.allocated ∨ k ∈ s.alive) := by
      intro hlive
      have hengaged := h.held haccepted hlive
      simp [hempty] at hengaged
    rw [not_or] at hnone
    exact hnone

/-- The child completes on another thread before its `start` returns, and a
join waits for the operation. -/
def joinedRun : List (Action Pair Unit Unit Unit) :=
  List.flatten [[.spawn .first (), .run .first], List.replicate 2 (.scope (.run .first false)),
    [.run .first, .complete .second (), .run .second, .scope (.join .second ())],
    List.replicate 4 (.scope (.run .second false)), [.ret .first],
    List.replicate 3 (.run .first), [.ret .first], List.replicate 2 (.run .first),
    List.replicate 4 (.scope (.run .first false))]

/-- The scope is closed before the call, which is refused and returns. -/
def refusedRun : List (Action Pair Unit Unit Unit) :=
  List.flatten [[.scope (.close .first), .spawn .first (), .run .first],
    List.replicate 2 (.scope (.run .first false)), List.replicate 3 (.run .first), [.ret .first],
    List.replicate 2 (.run .first)]

set_option maxRecDepth 4000 in
theorem spawn_contract_joinedRun :
    (∃ s : State Pair Unit Unit Unit, SpawnContract s () ∧ s.accepted () ∧
      .completed () ∈ s.scope.log ∧ s.allocated = ∅) ∧
    ∃ s : State Pair Unit Unit Unit, SpawnContract s () ∧ s.refused () ∧
      s.times .finishing () = 1 ∧ s.allocated = ∅ ∧ s.alive = ∅ ∧ s.stack .first = [] := by
  constructor
  · refine ⟨_, spawn_contract (Machine.reachable_replay rfl joinedRun (by decide)) (), ?_⟩
    unfold State.accepted
    decide
  · refine ⟨_, spawn_contract (Machine.reachable_replay rfl refusedRun (by decide)) (), ?_⟩
    unfold State.refused
    decide

end Bexec.Spawn
