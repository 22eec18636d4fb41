import Bexec.Expression.Operation

/-! # What a `when_all` state keeps

The state of `when_all` against the completions of its children: which have
arrived and in what order, how many have not been counted yet, and what the last
one delivers.
-/

namespace Bexec.Expression

open Foundation Signatures
open WhenAll (TerminalKind)

variable {V : Type} {n : ℕ}

/-- A completion that ends `when_all` without values. -/
def fails (c : Completion V) : Bool :=
  c.tag ≠ .setValue

/-- The completions the children stored, in the order of their arrival. -/
def storedInOrder (copying : Copying V) (outcome : Fin n → Completion V) (order : List (Fin n)) :
    List (Completion V) :=
  order.map fun i => copying.stored (outcome i)

/-- What `when_all` completes with: the first failure in the order of arrival, or
the values of all children in the order of the children. -/
def joined (copying : Copying V) (joinRaises : List V → Option V)
    (outcome : Fin n → Completion V) (order : List (Fin n)) : Completion V :=
  match (storedInOrder copying outcome order).find? fails with
  | some failure => failure
  | none =>
      Join.deliverSuccess joinRaises
        ((List.finRange n).flatMap fun i => (copying.stored (outcome i)).args)

namespace Join

/-- The first failure that has arrived. -/
def firstFailure (j : Join V n) : Option (Completion V) :=
  (j.arrivals.map Prod.snd).find? fails

def failureKind : Option (Completion V) → TerminalKind
  | some (.setError _) => .error
  | some .setStopped => .stopped
  | _ => .none

def failureError : Option (Completion V) → Option V
  | some (.setError error) => some error
  | _ => none

/-- The state accounts for the children that have completed so far. -/
structure Tallies (copying : Copying V) (j : Join V n) (outcome : Fin n → Option (Completion V)) :
    Prop where
  count : j.remaining + j.arrivals.length = n + j.leaving.length
  nodup : (j.arrivals.map Prod.fst).Nodup
  arrived : ∀ i c, (i, c) ∈ j.arrivals ↔ (outcome i).map copying.stored = some c
  leaving_nodup : j.leaving.Nodup
  leaving : ∀ i ∈ j.leaving, (outcome i).isSome
  terminal : j.terminal = failureKind j.firstFailure
  error : j.error = failureError j.firstFailure
  values : ∀ i args, (i, .setValue args) ∈ j.arrivals → j.values i = some args

theorem initial_tallies (copying : Copying V) (stop : Bool) :
    (initial stop : Join V n).Tallies copying fun _ => none where
  count := rfl
  nodup := List.nodup_nil
  arrived i c := by simp [initial]
  leaving_nodup := List.nodup_nil
  leaving i hmem := absurd hmem List.not_mem_nil
  terminal := rfl
  error := rfl
  values i args hmem := absurd hmem List.not_mem_nil

variable {copying : Copying V} {j : Join V n} {outcome : Fin n → Option (Completion V)}

@[simp] theorem terminate_arrivals (kind : TerminalKind) (error : Option V) :
    (j.terminate kind error).arrivals = j.arrivals := by
  unfold terminate
  split <;> rfl

@[simp] theorem terminate_values (kind : TerminalKind) (error : Option V) :
    (j.terminate kind error).values = j.values := by
  unfold terminate
  split <;> rfl

@[simp] theorem terminate_remaining (kind : TerminalKind) (error : Option V) :
    (j.terminate kind error).remaining = j.remaining := by
  unfold terminate
  split <;> rfl

@[simp] theorem terminate_started (kind : TerminalKind) (error : Option V) :
    (j.terminate kind error).started = j.started := by
  unfold terminate
  split <;> rfl

/-- Storing a completion leaves the counts alone. -/
theorem store_counts (i : Fin n) (c : Completion V) :
    (j.store i c).remaining = j.remaining ∧ (j.store i c).started = j.started := by
  cases c <;> simp [store]

theorem failureKind_eq_none {failure : Option (Completion V)}
    (hfails : ∀ c ∈ failure, fails c = true) : failureKind failure = .none ↔ failure = none := by
  cases failure with
  | none => exact iff_of_true rfl rfl
  | some c =>
      have hc := hfails c rfl
      cases c with
      | setValue args => simp [fails, Completion.tag] at hc
      | setError error => simp [failureKind]
      | setStopped => simp [failureKind]

theorem firstFailure_fails : ∀ c ∈ j.firstFailure, fails c = true :=
  fun _ hc => List.find?_some hc

/-- The exchange is won by the first failure. -/
theorem store_failure (i : Fin n) (c : Completion V)
    (hterminal : j.terminal = failureKind j.firstFailure)
    (herror : j.error = failureError j.firstFailure) :
    (j.store i c).terminal = failureKind (j.firstFailure.or (some c)) ∧
      (j.store i c).error = failureError (j.firstFailure.or (some c)) := by
  cases hfirst : j.firstFailure with
  | none =>
      rw [hfirst] at hterminal herror
      cases c with
      | setValue args => exact ⟨hterminal, herror⟩
      | setError error => simp [store, terminate, hterminal, failureKind, failureError]
      | setStopped => simp [store, terminate, hterminal, failureKind, failureError]
  | some first =>
      have hlost : j.terminal ≠ .none := by
        rw [hterminal]
        intro hnone
        have := (failureKind_eq_none firstFailure_fails).mp hnone
        rw [hfirst] at this
        cases this
      rw [hfirst] at hterminal herror
      cases c with
      | setValue args => exact ⟨hterminal, herror⟩
      | setError error =>
          simp only [store, terminate, if_neg hlost]
          exact ⟨hterminal, herror⟩
      | setStopped =>
          simp only [store, terminate, if_neg hlost]
          exact ⟨hterminal, herror⟩

theorem failureKind_or (first : Option (Completion V)) (c : Completion V) :
    failureKind (first.or (if fails c then some c else none)) = failureKind (first.or (some c)) ∧
      failureError (first.or (if fails c then some c else none)) =
        failureError (first.or (some c)) := by
  cases first with
  | some failure => exact ⟨rfl, rfl⟩
  | none => cases c <;> simp [fails, Completion.tag, failureKind, failureError]

/-- The first failure after one more arrival. -/
theorem arrive_firstFailure (i : Fin n) (c : Completion V) :
    (j.arrive copying i c).firstFailure =
      j.firstFailure.or (if fails (copying.stored c) then some (copying.stored c) else none) := by
  simp only [firstFailure, arrive, List.map_append, List.map_cons, List.map_nil, List.find?_append,
    List.find?_singleton]

theorem store_values (i k : Fin n) (c : Completion V) (args : List V)
    (h : k ≠ i ∧ j.values k = some args ∨ k = i ∧ c = .setValue args) :
    (j.store i c).values k = some args := by
  rcases h with ⟨hne, hvalues⟩ | ⟨rfl, rfl⟩
  · cases c with
    | setValue other => simp [store, Function.update_of_ne hne, hvalues]
    | setError error => simpa [store] using hvalues
    | setStopped => simpa [store] using hvalues
  · simp [store]

/-- A child that has not completed before arrives. -/
theorem Tallies.arrive (h : j.Tallies copying outcome) {i : Fin n} (hi : outcome i = none)
    (c : Completion V) :
    (j.arrive copying i c).Tallies copying (Function.update outcome i (some c)) := by
  have hfresh : ∀ d, (i, d) ∉ j.arrivals := by
    intro d hmem
    rw [h.arrived, hi] at hmem
    cases hmem
  obtain ⟨hterminal, herror⟩ := store_failure i (copying.stored c) h.terminal h.error
  obtain ⟨hkind, hfailure⟩ := failureKind_or j.firstFailure (copying.stored c)
  constructor
  case count =>
    have hcount := h.count
    simp only [Join.arrive, (store_counts i _).1, List.length_append, List.length_cons,
      List.length_nil]
    omega
  case nodup =>
    simp only [Join.arrive, List.map_append, List.map_cons, List.map_nil]
    refine List.Nodup.append h.nodup (List.nodup_singleton i) ?_
    intro k hk hki
    obtain ⟨entry, hentry, rfl⟩ := List.mem_map.mp hk
    rw [List.mem_singleton] at hki
    exact hfresh entry.2 (hki ▸ hentry)
  case arrived =>
    intro k d
    simp only [Join.arrive, List.mem_append, List.mem_singleton, Prod.mk.injEq]
    by_cases hk : k = i
    · subst hk
      simp [hfresh d, eq_comm]
    · simp [hk, h.arrived]
  case leaving_nodup =>
    refine List.nodup_cons.mpr ⟨fun hmem => ?_, h.leaving_nodup⟩
    have hsome := h.leaving i hmem
    rw [hi] at hsome
    cases hsome
  case leaving =>
    intro k hk
    by_cases heq : k = i
    · simp [heq]
    · rw [Function.update_of_ne heq]
      exact h.leaving k ((List.mem_cons.mp hk).resolve_left heq)
  case terminal =>
    rw [arrive_firstFailure, hkind]
    exact hterminal
  case error =>
    rw [arrive_firstFailure, hfailure]
    exact herror
  case values =>
    intro k args hmem
    simp only [Join.arrive, List.mem_append, List.mem_singleton, Prod.mk.injEq] at hmem
    refine store_values i k _ args ?_
    rcases hmem with hmem | ⟨hk, hargs⟩
    · exact .inl ⟨fun hk => hfresh _ (hk ▸ hmem), h.values k args hmem⟩
    · exact .inr ⟨hk, hargs.symm⟩

/-- A child that has arrived is counted. -/
theorem Tallies.leave (h : j.Tallies copying outcome) (joinRaises : List V → Option V) {i : Fin n}
    (hi : i ∈ j.leaving) : (j.leave joinRaises i).1.Tallies copying outcome where
  count := by
    have hcount := h.count
    have harrivals : j.arrivals.length ≤ n := by
      simpa using h.nodup.length_le_card
    have hlength := List.length_erase_of_mem hi
    have hpos := List.length_pos_of_mem hi
    simp only [Join.leave]
    omega
  nodup := h.nodup
  arrived := h.arrived
  leaving_nodup := h.leaving_nodup.erase i
  leaving k hk := h.leaving k (List.mem_of_mem_erase hk)
  terminal := h.terminal
  error := h.error
  values := h.values

/-- The count does not depend on how many children were started or on the stop source. -/
theorem Tallies.of_eq (h : j.Tallies copying outcome) (started : ℕ) (stopRequested : Bool) :
    { j with started := started, stopRequested := stopRequested }.Tallies copying outcome :=
  ⟨h.count, h.nodup, h.arrived, h.leaving_nodup, h.leaving, h.terminal, h.error, h.values⟩

/-- A child that leaves has not been counted. -/
theorem Tallies.remaining_pos (h : j.Tallies copying outcome) {i : Fin n} (hi : i ∈ j.leaving) :
    0 < j.remaining := by
  have hcount := h.count
  have harrivals : j.arrivals.length ≤ n := by
    simpa using h.nodup.length_le_card
  have hpos := List.length_pos_of_mem hi
  omega

theorem Tallies.mem_arrivals (h : j.Tallies copying outcome) (i : Fin n) :
    i ∈ j.arrivals.map Prod.fst ↔ (outcome i).isSome := by
  constructor
  · intro hmem
    obtain ⟨entry, hentry, rfl⟩ := List.mem_map.mp hmem
    have hsome := (h.arrived entry.1 entry.2).mp hentry
    cases houtcome : outcome entry.1 with
    | none => simp [houtcome] at hsome
    | some c => rfl
  · intro hsome
    obtain ⟨c, hc⟩ := Option.isSome_iff_exists.mp hsome
    exact List.mem_map.mpr ⟨(i, copying.stored c), (h.arrived i _).mpr (by simp [hc]), rfl⟩

/-- When all have been counted, all have completed. -/
theorem Tallies.all_arrived (h : j.Tallies copying outcome) (hremaining : j.remaining = 0) :
    j.leaving = [] ∧ ∀ i, (outcome i).isSome := by
  have hcount := h.count
  have harrivals : j.arrivals.length ≤ n := by
    simpa using h.nodup.length_le_card
  refine ⟨List.eq_nil_of_length_eq_zero (by omega), fun i => (h.mem_arrivals i).mp ?_⟩
  have hperm : (j.arrivals.map Prod.fst).Subperm (List.finRange n) :=
    List.subperm_of_subset h.nodup fun k _ => List.mem_finRange k
  have hlength : (List.finRange n).length ≤ (j.arrivals.map Prod.fst).length := by
    simp only [List.length_finRange, List.length_map]
    omega
  exact (hperm.perm_of_length_le hlength).mem_iff.mpr (List.mem_finRange i)

/-- While some have not been counted, one has not completed or is about to be
counted. -/
theorem Tallies.pending (h : j.Tallies copying outcome) (hremaining : j.remaining ≠ 0) :
    j.leaving ≠ [] ∨ ∃ i, outcome i = none := by
  by_contra hnone
  simp only [ne_eq, not_or, not_not, not_exists] at hnone
  obtain ⟨hleaving, hall⟩ := hnone
  have hsub : (List.finRange n).Subperm (j.arrivals.map Prod.fst) :=
    List.subperm_of_subset (List.nodup_finRange n) fun i _ =>
      (h.mem_arrivals i).mpr (Option.isSome_iff_ne_none.mpr (hall i))
  have hle := hsub.length_le
  have hcount := h.count
  simp only [List.length_finRange, List.length_map, hleaving, List.length_nil] at hle hcount
  omega

/-- The arrivals, once every child has completed. -/
theorem Tallies.arrivals_eq (h : j.Tallies copying outcome) {total : Fin n → Completion V}
    (htotal : ∀ i, outcome i = some (total i)) :
    j.arrivals.map Prod.snd = storedInOrder copying total (j.arrivals.map Prod.fst) ∧
      (j.arrivals.map Prod.fst).Perm (List.finRange n) := by
  refine ⟨?_, ?_⟩
  · rw [storedInOrder, List.map_map]
    refine List.map_congr_left fun entry hentry => ?_
    have hstored := (h.arrived entry.1 entry.2).mp hentry
    rw [htotal] at hstored
    exact (Option.some.inj hstored).symm
  · refine (List.perm_ext_iff_of_nodup h.nodup (List.nodup_finRange n)).mpr fun i => ?_
    simp [h.mem_arrivals i, htotal i, -List.mem_map]

/-- What the last child delivers. -/
theorem Tallies.finishOne (h : j.Tallies copying outcome) {total : Fin n → Completion V}
    (htotal : ∀ i, outcome i = some (total i)) (joinRaises : List V → Option V) :
    j.finishOne joinRaises = some (joined copying joinRaises total (j.arrivals.map Prod.fst)) := by
  obtain ⟨harrivals, -⟩ := h.arrivals_eq htotal
  have hfirst : (storedInOrder copying total (j.arrivals.map Prod.fst)).find? fails =
      j.firstFailure := by
    rw [← harrivals]
    rfl
  unfold joined
  rw [hfirst]
  cases hfailure : j.firstFailure with
  | some failure =>
      have hfails := firstFailure_fails failure hfailure
      have hterminal := h.terminal
      have herror := h.error
      rw [hfailure] at hterminal herror
      cases failure with
      | setValue args => simp [fails, Completion.tag] at hfails
      | setError error => simp [Join.finishOne, hterminal, herror, failureKind, failureError]
      | setStopped => simp [Join.finishOne, hterminal, failureKind]
  | none =>
      have hterminal := h.terminal
      rw [hfailure] at hterminal
      have hvalues : j.values = fun i => pure (copying.stored (total i)).args := by
        funext i
        have hmem : (i, copying.stored (total i)) ∈ j.arrivals := by
          rw [h.arrived, htotal]
          rfl
        cases hstored : copying.stored (total i) with
        | setValue args => exact h.values i args (hstored ▸ hmem)
        | setError error =>
            have := List.find?_eq_none.mp hfailure _ (List.mem_map_of_mem hmem)
            simp [hstored, fails, Completion.tag] at this
        | setStopped =>
            have := List.find?_eq_none.mp hfailure _ (List.mem_map_of_mem hmem)
            simp [hstored, fails, Completion.tag] at this
      simp only [Join.finishOne, hterminal, failureKind, tupleCatValues, hvalues]
      rw [List.mapM_pure]
      simp [List.flatMap]

end Join

end Bexec.Expression
