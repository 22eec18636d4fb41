import Bexec.RepeatUntil.Step

/-!
# The sequential loop

What `repeat_until` is for: a loop on one thread that checks the stop token,
runs a fresh child and asks the predicate after each value. Iteration `n` makes
the `n`-th query, the `n`-th factory call and, after a value, the `n`-th
predicate call.
-/

namespace Bexec.RepeatUntil

variable {Value Error Exception : Type}

/-- What the loop completes with, and the calls it has made by then. -/
structure Outcome (Value Error Exception : Type) where
  completion : Completion Value Error Exception
  factoryCalls : Nat
  predicateCalls : Nat
  deriving DecidableEq

namespace Client

variable (client : Client Value Error Exception)

/-- What the predicate makes of the value of iteration `n`. -/
def ask (n : Nat) (values : Value) : Option (Outcome Value Error Exception) :=
  match client.predicate n with
  | .ok true => some ⟨.value values, n + 1, n + 1⟩
  | .ok false => none
  | .error pointer => some ⟨.exception pointer, n + 1, n + 1⟩

/-- One iteration: the outcome it ends the loop with, or none to go on. -/
def iteration (n : Nat) : Option (Outcome Value Error Exception) :=
  if client.stopRequested n then some ⟨.stopped, n, n⟩
  else
    match client.factory n, client.connect n with
    | some pointer, _ => some ⟨.exception pointer, n + 1, n⟩
    | none, some pointer => some ⟨.exception pointer, n + 1, n⟩
    | none, none =>
        match client.child n with
        | .setValue values none => client.ask n values
        | .setValue _ (some pointer) => some ⟨.exception pointer, n + 1, n⟩
        | .setError error none => some ⟨.error error, n + 1, n⟩
        | .setError _ (some pointer) => some ⟨.exception pointer, n + 1, n⟩
        | .setStopped => some ⟨.stopped, n + 1, n⟩

variable {client} {n : Nat}

theorem iteration_stopped (hstop : client.stopRequested n = true) :
    client.iteration n = some ⟨.stopped, n, n⟩ := by
  rw [iteration, if_pos hstop]

/-- A factory or a connection that throws ends the loop. -/
theorem iteration_threw (hstop : client.stopRequested n = false) {pointer : Exception}
    (hbuild : client.build n = some pointer) :
    client.iteration n = some ⟨.exception pointer, n + 1, n⟩ := by
  unfold build at hbuild
  cases hfactory : client.factory n with
  | some thrown =>
      rw [hfactory] at hbuild
      cases hbuild
      simp [iteration, hstop, hfactory]
  | none =>
      rw [hfactory] at hbuild
      simp [iteration, hstop, hfactory, hbuild]

theorem of_build_none (hbuild : client.build n = none) :
    client.factory n = none ∧ client.connect n = none := by
  unfold build at hbuild
  cases hfactory : client.factory n with
  | some thrown =>
      rw [hfactory] at hbuild
      cases hbuild
  | none =>
      rw [hfactory] at hbuild
      exact ⟨rfl, hbuild⟩

/-- The value in `stored_` is the one the child sent. -/
theorem store_eq_value {signal : Signal Value Error Exception} {values : Value} :
    signal.store = .value values ↔ signal = .setValue values none := by
  cases signal with
  | setValue sent copyThrows => cases copyThrows <;> simp [Signal.store]
  | setError error copyThrows => cases copyThrows <;> simp [Signal.store]
  | setStopped => simp [Signal.store]

/-- The predicate is asked about the value in `stored_`. -/
theorem iteration_value (hstop : client.stopRequested n = false) (hbuild : client.build n = none)
    {values : Value} (hstore : (client.child n).store = .value values) :
    client.iteration n = client.ask n values := by
  obtain ⟨hfactory, hconnect⟩ := of_build_none hbuild
  simp [iteration, hstop, hfactory, hconnect, store_eq_value.mp hstore]

/-- Any other completion in `stored_` ends the loop. -/
theorem iteration_other (hstop : client.stopRequested n = false) (hbuild : client.build n = none)
    (hstore : ∀ values, (client.child n).store ≠ .value values) :
    client.iteration n = some ⟨(client.child n).store, n + 1, n⟩ := by
  obtain ⟨hfactory, hconnect⟩ := of_build_none hbuild
  cases hchild : client.child n with
  | setValue values copyThrows =>
      cases copyThrows with
      | none => exact absurd (by rw [hchild]; rfl) (hstore values)
      | some pointer => simp [iteration, hstop, hfactory, hconnect, hchild, Signal.store]
  | setError error copyThrows =>
      cases copyThrows <;> simp [iteration, hstop, hfactory, hconnect, hchild, Signal.store]
  | setStopped => simp [iteration, hstop, hfactory, hconnect, hchild, Signal.store]

/-- How an iteration ends the loop. -/
theorem iteration_cases {outcome : Outcome Value Error Exception}
    (hiteration : client.iteration n = some outcome) :
    (outcome.predicateCalls = n ∧ ∀ values, outcome.completion ≠ .value values) ∨
      ∃ values, client.child n = .setValue values none ∧ client.ask n values = some outcome := by
  cases hstop : client.stopRequested n with
  | true =>
      rw [iteration_stopped hstop] at hiteration
      cases hiteration
      exact Or.inl ⟨rfl, by simp⟩
  | false =>
      cases hbuild : client.build n with
      | some pointer =>
          rw [iteration_threw hstop hbuild] at hiteration
          cases hiteration
          exact Or.inl ⟨rfl, by simp⟩
      | none =>
          by_cases hvalue : ∃ values, (client.child n).store = .value values
          · obtain ⟨values, hstore⟩ := hvalue
            rw [iteration_value hstop hbuild hstore] at hiteration
            exact Or.inr ⟨values, store_eq_value.mp hstore, hiteration⟩
          · have hother : ∀ values, (client.child n).store ≠ .value values :=
              fun values hstore => hvalue ⟨values, hstore⟩
            rw [iteration_other hstop hbuild hother] at hiteration
            cases hiteration
            exact Or.inl ⟨rfl, hother⟩

variable (client)

/-- The predicate is only asked about a value. -/
theorem value_of_asked {outcome : Outcome Value Error Exception}
    (hiteration : client.iteration n = some outcome) (hcalls : outcome.predicateCalls = n + 1) :
    ∃ values, (client.child n).store = .value values := by
  rcases iteration_cases hiteration with ⟨hnone, -⟩ | ⟨values, hchild, -⟩
  · omega
  · exact ⟨values, store_eq_value.mpr hchild⟩

/-- A value that ends the loop is that of the child. -/
theorem value_of_completion {outcome : Outcome Value Error Exception} {values : Value}
    (hiteration : client.iteration n = some outcome)
    (hcompletion : outcome.completion = .value values) :
    outcome.factoryCalls = n + 1 ∧ client.child n = .setValue values none := by
  rcases iteration_cases hiteration with ⟨-, hnone⟩ | ⟨sent, hchild, hask⟩
  · exact absurd hcompletion (hnone values)
  · unfold ask at hask
    split at hask <;> cases hask <;> cases hcompletion
    exact ⟨rfl, hchild⟩

/-- The loop from iteration `n` on, for at most `fuel` iterations. -/
def loop : Nat → Nat → Option (Outcome Value Error Exception)
  | 0, _ => none
  | fuel + 1, n =>
      match client.iteration n with
      | some outcome => some outcome
      | none => loop fuel (n + 1)

/-- The loop ends in the first iteration that does not go on. -/
theorem loop_eq_some {fuel n : Nat} {outcome : Outcome Value Error Exception} :
    client.loop fuel n = some outcome ↔
      ∃ k, n ≤ k ∧ k < n + fuel ∧ (∀ i, n ≤ i → i < k → client.iteration i = none) ∧
        client.iteration k = some outcome := by
  induction fuel generalizing n with
  | zero =>
      constructor
      · intro hloop
        cases hloop
      · rintro ⟨k, hle, hlt, -⟩
        omega
  | succ fuel ih =>
      unfold loop
      cases hiteration : client.iteration n with
      | some first =>
          constructor
          · intro hloop
            refine ⟨n, Nat.le_refl n, by omega, fun i _ _ => by omega, ?_⟩
            rw [hiteration]
            exact hloop
          · rintro ⟨k, hle, -, hbefore, hk⟩
            rcases Nat.eq_or_lt_of_le hle with rfl | hlt
            · exact hiteration.symm.trans hk
            · rw [hbefore n (Nat.le_refl n) hlt] at hiteration
              cases hiteration
      | none =>
          refine ih.trans ⟨?_, ?_⟩
          · rintro ⟨k, hle, hlt, hbefore, hk⟩
            refine ⟨k, by omega, by omega, ?_, hk⟩
            intro i hi hik
            rcases Nat.eq_or_lt_of_le hi with rfl | hi
            · exact hiteration
            · exact hbefore i hi hik
          · rintro ⟨k, hle, hlt, hbefore, hk⟩
            rcases Nat.eq_or_lt_of_le hle with rfl | hle
            · rw [hk] at hiteration
              cases hiteration
            · exact ⟨k, hle, by omega, fun i hi hik => hbefore i (by omega) hik, hk⟩

/-- The outcome does not depend on the fuel. -/
theorem loop_unique {fuel fuel' n : Nat} {outcome outcome' : Outcome Value Error Exception}
    (hloop : client.loop fuel n = some outcome) (hloop' : client.loop fuel' n = some outcome') :
    outcome = outcome' := by
  obtain ⟨k, hle, -, hbefore, hk⟩ := client.loop_eq_some.mp hloop
  obtain ⟨k', hle', -, hbefore', hk'⟩ := client.loop_eq_some.mp hloop'
  rcases Nat.lt_trichotomy k k' with hlt | rfl | hgt
  · rw [hbefore' k hle hlt] at hk
    cases hk
  · exact Option.some.inj (hk.symm.trans hk')
  · rw [hbefore k' hle' hgt] at hk'
    cases hk'

end Client

end Bexec.RepeatUntil
