import Bexec.RepeatUntil.Rendezvous

/-!
# The operation refines the loop

Whoever wins the exchanges, the receiver is completed as the sequential loop
completes it, after the same calls. Every step makes progress, so an operation
whose loop ends is completed after boundedly many steps.
-/

namespace Bexec.RepeatUntil

open Foundation

variable {Thread Value Error Exception : Type}

def DrainSide.progress : DrainSide Thread → Nat
  | .starting _ => 0
  | .exchanging _ => 1
  | .left => 2

def ChildSide.progress : ChildSide Thread → Nat
  | .running => 0
  | .storing _ => 1
  | .exchanging _ => 2
  | .left => 3

/-- The steps an operation may have taken by the time it is at a stage; an
iteration takes at most thirteen. -/
def Stage.progress (n : Nat) : Stage Thread Exception → Nat
  | .idle => 0
  | .opening _ .resetCurrent => 13 * n + 1
  | .opening _ .queryStop => 13 * n + 2
  | .opening _ .loadEpoch => 13 * n + 3
  | .opening _ .emplace => 13 * n + 4
  | .opening _ .startChild => 13 * n + 5
  | .opening _ .stopped => 13 * n + 12
  | .opening _ (.threw _) => 13 * n + 12
  | .rendezvous drain child => 13 * n + 6 + drain.progress + child.progress
  | .closing _ _ .process => 13 * n + 11
  | .closing _ _ .callPredicate => 13 * n + 12
  | .closing _ _ _ => 13 * n + 13
  | .finished _ => 13 * n + 14
  | .terminated => 13 * n + 14

variable {client : Client Value Error Exception} {n n' : Nat} {stage stage' : Stage Thread Exception}
  {events log : List (Event Value Error Exception)}

theorem Moves.progress (h : Moves client n stage events n' stage') :
    stage.progress n < stage'.progress n' := by
  cases h with
  | drainWins _ hchild =>
      simp only [Stage.progress, DrainSide.progress]
      omega
  | childWins _ hdrain =>
      simp only [Stage.progress, ChildSide.progress]
      omega
  | _ =>
      simp only [Stage.progress, DrainSide.progress, ChildSide.progress]
      omega

theorem Stage.progress_le (hfits : stage.Fits client n) : stage.progress n ≤ 13 * n + 14 := by
  cases stage with
  | rendezvous drain child =>
      have hboth := hfits.2
      cases drain <;> cases child <;>
        simp_all [Stage.progress, DrainSide.progress, ChildSide.progress]
  | opening t place => cases place <;> simp [Stage.progress]
  | closing t who place => cases place <;> simp [Stage.progress]
  | _ => simp [Stage.progress]

/-- No iteration before the current one has ended the loop. -/
theorem Stage.Sound.le_of_iteration (h : stage.Sound client n) {k : Nat}
    {outcome : Outcome Value Error Exception} (hk : client.iteration k = some outcome) : n ≤ k := by
  by_contra hlt
  rw [(h.again k (Nat.lt_of_not_le hlt)).1] at hk
  cases hk

theorem Stage.Sound.not_terminated (h : stage.Sound client n)
    (hconnect : client.needExceptionPtr = false → ∀ k, client.connect k = none) :
    stage ≠ .terminated := by
  rintro rfl
  obtain ⟨hneed, pointer, hbuild⟩ := h.fits
  have hnothrow : client.factoryNothrow = true := by
    simp only [Client.needExceptionPtr, Bool.not_eq_false', Bool.and_eq_true] at hneed
    exact hneed.2
  rw [Client.build, client.factory_nothrow hnothrow, hconnect hneed] at hbuild
  cases hbuild

variable [DecidableEq Thread]

variable (log) in
/-- Some participant can always go on, or the environment can complete the child. -/
theorem Stage.enabled (t : Thread) (hfits : stage.Fits client n) :
    (∃ ending, stage = .finished ending) ∨ stage = .terminated ∨
      ∃ a, (machine Thread client).step (stage.state client n log) a ≠ none := by
  cases stage with
  | finished ending => exact Or.inl ⟨ending, rfl⟩
  | terminated => exact Or.inr (Or.inl rfl)
  | idle =>
      refine Or.inr (Or.inr ⟨.start t, ?_⟩)
      simp [machine, step, Stage.state, State.initial, State.atUser]
  | opening u place =>
      refine Or.inr (Or.inr ⟨.run u, ?_⟩)
      cases place <;> simp [machine, step, Stage.state, Frame.step]
  | closing u who place =>
      refine Or.inr (Or.inr ⟨.run u, ?_⟩)
      cases place <;> simp [machine, step, Stage.state, Frame.step]
      cases (client.child n).store <;> simp
  | rendezvous drain child =>
      refine Or.inr (Or.inr ?_)
      cases child with
      | storing u | exchanging u =>
          refine ⟨.run u, ?_⟩
          simp [machine, step, Stage.state, Frame.step]
      | left =>
          cases drain with
          | starting u =>
              refine ⟨.returnStart u, ?_⟩
              simp [machine, step, Stage.state]
          | exchanging u =>
              refine ⟨.run u, ?_⟩
              simp [machine, step, Stage.state, Frame.step]
          | left => exact absurd ⟨rfl, rfl⟩ hfits.2
      | running =>
          cases drain with
          | starting u =>
              refine ⟨.returnStart u, ?_⟩
              simp [machine, step, Stage.state]
          | exchanging u =>
              refine ⟨.run u, ?_⟩
              simp [machine, step, Stage.state, Frame.step]
          | left =>
              refine ⟨.completeChild t n, ?_⟩
              simp [machine, step, Stage.state, State.atUser]

/-- A run is no longer than the progress it makes. -/
theorem At.of_run {s : State Thread Value Error Exception}
    {trace : List (State Thread Value Error Exception × Action Thread)}
    (hrun : (machine Thread client).Run .initial trace s) :
    ∃ n stage, At client n stage s ∧ trace.length ≤ stage.progress n := by
  induction hrun with
  | nil => exact ⟨0, .idle, .initial client, Nat.zero_le _⟩
  | snoc _ hstep ih =>
      obtain ⟨n, stage, hat, hlength⟩ := ih
      obtain ⟨n', events, stage', hmoves, hat'⟩ := hat.step hstep
      refine ⟨n', stage', hat', ?_⟩
      have hprogress := hmoves.progress
      rw [List.length_append, List.length_singleton]
      omega

/-- The receiver was completed with this outcome, after the calls it counts. -/
def Delivered (s : State Thread Value Error Exception) (outcome : Outcome Value Error Exception) :
    Prop :=
  .completed outcome.completion ∈ s.log ∧ s.factoryCalls = outcome.factoryCalls ∧
    s.predicateCalls = outcome.predicateCalls

/-- A completed receiver was given the outcome of the iteration that ends the loop. -/
theorem At.delivered {s : State Thread Value Error Exception} (h : At client n stage s)
    {completion : Completion Value Error Exception} (hmem : .completed completion ∈ s.log) :
    ∃ outcome, Delivered s outcome ∧ outcome.completion = completion ∧
      client.iteration n = some outcome := by
  obtain ⟨hstate, hsound, hhistory⟩ := h
  generalize s.log = log at hstate hhistory hmem
  subst hstate
  obtain ⟨ending, rfl, rfl⟩ := hhistory.finished hmem
  refine ⟨ending.outcome client n, ⟨?_, rfl, rfl⟩, rfl, hsound.fits⟩
  rwa [Stage.state_log]

/-- What a run of the operation has to do with the loop. -/
structure RefinesLoop (client : Client Value Error Exception)
    (s : State Thread Value Error Exception) (steps : Nat) : Prop where
  /-- The receiver is completed as the loop completes, after the same calls. -/
  sound : ∀ completion, .completed completion ∈ s.log →
    ∃ fuel outcome, client.loop fuel 0 = some outcome ∧ outcome.completion = completion ∧
      Delivered s outcome
  /-- Where the loop ends, a run is bounded, and one that cannot be continued has
  delivered the outcome. -/
  bounded : ∀ fuel outcome, client.loop fuel 0 = some outcome → steps ≤ 13 * fuel + 1
  complete : ∀ fuel outcome, client.loop fuel 0 = some outcome →
    (∀ a, (machine Thread client).step s a = none) → Delivered s outcome
  /-- Where the loop goes on for ever, so does every run. -/
  diverges : (∀ fuel, client.loop fuel 0 = none) →
    (∀ completion, .completed completion ∉ s.log) ∧ ∃ a, (machine Thread client).step s a ≠ none
  /-- No other interleaving ends differently. -/
  unique : ∀ s' outcome outcome', (machine Thread client).Reachable s' → Delivered s outcome →
    Delivered s' outcome' → outcome = outcome'
  /-- A value is that of the last child. -/
  last : ∀ values, .completed (.value values) ∈ s.log →
    ∃ k, s.factoryCalls = k + 1 ∧ client.child k = .setValue values none

/-- `repeat_until` refines the sequential loop, in every run. -/
theorem loop_refinement [Nonempty Thread] {s : State Thread Value Error Exception}
    {trace : List (State Thread Value Error Exception × Action Thread)}
    (hconnect : client.needExceptionPtr = false → ∀ k, client.connect k = none)
    (hrun : (machine Thread client).Run .initial trace s) :
    RefinesLoop client s trace.length := by
  obtain ⟨n, stage, hat, hlength⟩ := At.of_run hrun
  have hnot := hat.sound.not_terminated hconnect
  have hloop : ∀ {outcome}, client.iteration n = some outcome →
      client.loop (n + 1) 0 = some outcome := by
    intro outcome hiteration
    refine client.loop_eq_some.mpr ⟨n, Nat.zero_le n, by omega, fun i _ hi => ?_, hiteration⟩
    exact (hat.sound.again i hi).1
  constructor
  case sound =>
    intro completion hmem
    obtain ⟨outcome, hdelivered, hcompletion, hiteration⟩ := hat.delivered hmem
    exact ⟨n + 1, outcome, hloop hiteration, hcompletion, hdelivered⟩
  case bounded =>
    intro fuel outcome hsome
    obtain ⟨k, -, hlt, -, hk⟩ := client.loop_eq_some.mp hsome
    have hn := hat.sound.le_of_iteration hk
    have hprogress := Stage.progress_le hat.sound.fits
    omega
  case complete =>
    intro fuel outcome hsome hstuck
    obtain ⟨t⟩ := ‹Nonempty Thread›
    rcases Stage.enabled s.log t hat.sound.fits with ⟨ending, rfl⟩ | hterminated |
      ⟨a, ha⟩
    · have hmem := (hat.history.completed _).mpr rfl
      obtain ⟨delivered, hdelivered, -, hiteration⟩ := hat.delivered hmem
      rw [client.loop_unique hsome (hloop hiteration)]
      exact hdelivered
    · exact absurd hterminated hnot
    · rw [← hat.state] at ha
      exact absurd (hstuck a) ha
  case diverges =>
    intro hnone
    refine ⟨fun completion hmem => ?_, ?_⟩
    · obtain ⟨outcome, -, -, hiteration⟩ := hat.delivered hmem
      have hsome := hloop hiteration
      rw [hnone] at hsome
      cases hsome
    · obtain ⟨t⟩ := ‹Nonempty Thread›
      rcases Stage.enabled s.log t hat.sound.fits with ⟨ending, rfl⟩ | hterminated |
        ⟨a, ha⟩
      · have hsome := hloop hat.sound.fits
        rw [hnone] at hsome
        cases hsome
      · exact absurd hterminated hnot
      · rw [← hat.state] at ha
        exact ⟨a, ha⟩
  case unique =>
    rintro s' ⟨completion, _, _⟩ ⟨completion', _, _⟩ hs' hdelivered hdelivered'
    obtain ⟨n', stage', hat'⟩ := at_of_reachable hs'
    obtain ⟨first, hfirst, rfl, hiteration⟩ := hat.delivered hdelivered.1
    obtain ⟨second, hsecond, rfl, hiteration'⟩ := hat'.delivered hdelivered'.1
    have heq : n = n' := Nat.le_antisymm (hat.sound.le_of_iteration hiteration')
      (hat'.sound.le_of_iteration hiteration)
    subst heq
    have hsame : first = second := Option.some.inj (hiteration.symm.trans hiteration')
    subst hsame
    simp_all [Delivered]
  case last =>
    intro values hmem
    obtain ⟨outcome, hdelivered, hcompletion, hiteration⟩ := hat.delivered hmem
    obtain ⟨hcalls, hchild⟩ := client.value_of_completion hiteration hcompletion
    exact ⟨n, hdelivered.2.1.trans hcalls, hchild⟩

/-- The first child sends a value the predicate refuses, the second the given signal. -/
def lastChild (last : Signal Nat Nat Nat) : Client Nat Nat Nat where
  stopRequested _ := false
  factory _ := none
  connect _ := none
  predicate n := .ok (n = 1)
  child n := if n = 0 then .setValue n none else last
  errorsNothrow := false
  valuesNothrow := false
  predicateNothrow := true
  factoryNothrow := true
  errors_nothrow := by simp
  values_nothrow := by simp
  predicate_nothrow := by simp
  factory_nothrow := by simp

/-- The loop ends with a value, with an error and with the exception of copying a value. -/
theorem loop_refinement_twoChildrenRun :
    (∃ (s : State Pair Nat Unit Unit) (steps : Nat), RefinesLoop twoChildren s steps ∧
      Delivered s ⟨.value 1, 2, 2⟩ ∧ twoChildren.loop 2 0 = some ⟨.value 1, 2, 2⟩) ∧
    (∃ (s : State Pair Nat Nat Nat) (steps : Nat),
      RefinesLoop (lastChild (.setError 5 none)) s steps ∧ Delivered s ⟨.error 5, 2, 1⟩ ∧
        (lastChild (.setError 5 none)).loop 2 0 = some ⟨.error 5, 2, 1⟩) ∧
    ∃ (s : State Pair Nat Nat Nat) (steps : Nat),
      RefinesLoop (lastChild (.setValue 1 (some 8))) s steps ∧ Delivered s ⟨.exception 8, 2, 1⟩ ∧
        (lastChild (.setValue 1 (some 8))).loop 2 0 = some ⟨.exception 8, 2, 1⟩ := by
  refine ⟨?_, ?_, ?_⟩
  · obtain ⟨trace, hrun, -⟩ := Machine.exists_run_of_exec (M := machine Pair twoChildren)
      (s := .initial) twoChildrenRun (Option.some_get (by decide)).symm
    refine ⟨_, _, loop_refinement (fun _ _ => rfl) hrun, ?_⟩
    unfold Delivered
    decide
  · obtain ⟨trace, hrun, -⟩ := Machine.exists_run_of_exec
      (M := machine Pair (lastChild (.setError 5 none))) (s := .initial) twoChildrenRun.dropLast
      (Option.some_get (by decide)).symm
    refine ⟨_, _, loop_refinement (fun _ _ => rfl) hrun, ?_⟩
    unfold Delivered
    decide
  · obtain ⟨trace, hrun, -⟩ := Machine.exists_run_of_exec
      (M := machine Pair (lastChild (.setValue 1 (some 8)))) (s := .initial)
      twoChildrenRun.dropLast (Option.some_get (by decide)).symm
    refine ⟨_, _, loop_refinement (fun _ _ => rfl) hrun, ?_⟩
    unfold Delivered
    decide

end Bexec.RepeatUntil
