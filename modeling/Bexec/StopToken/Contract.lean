import Bexec.StopToken.Stability

/-!
# Invocation contract

What a client of the stop source may rely on in every reachable state: one
winning request, each callback body at most once, and no body running or to run
once its registration has been destroyed from outside it.
-/

namespace Bexec.StopToken

open Foundation

variable {Thread Record Client : Type}

section Log

variable {log : List (Event Thread Record)} {t : Thread}

theorem mem_wins : t ∈ wins log ↔ .stopReturned t true ∈ log := by
  simp only [wins, List.mem_filterMap]
  constructor
  · rintro ⟨event, hmem, hwon⟩
    cases event with
    | stopReturned t' result =>
        cases result with
        | false => cases hwon
        | true =>
            cases hwon
            exact hmem
    | _ => cases hwon
  · exact fun hmem => ⟨_, hmem, rfl⟩

theorem mem_of_claimer {c : FrameId Thread} (hc : claimer log = some c) : .claimed c ∈ log := by
  induction log with
  | nil => cases hc
  | cons event log ih =>
      cases event with
      | claimed c' =>
          cases hc
          exact List.mem_cons_self
      | _ => exact List.mem_cons_of_mem _ (ih hc)

theorem mem_failed [DecidableEq Record] {r : Record} :
    t ∈ (trail log r).failed ↔ .addFailed r t ∈ log := by
  induction log with
  | nil => simp [trail]
  | cons event log ih =>
      cases event with
      | addFailed r' t' =>
          by_cases heq : r' = r
          · simp [heq, ih]
          · simp [heq, Ne.symm heq, ih]
      | invoked r' t' | returned r' t' => by_cases heq : r' = r <;> simp [heq, ih]
      | _ => simpa using ih

end Log

variable [DecidableEq Record] {m : Memory Thread Record} {r : Record}

/-- Some thread is executing the callback body of the record. -/
def State.Running (s : State Thread Record Client) (r : Record) : Prop :=
  ∃ t, ∃ frame ∈ s.stack t, frame.running r = true

variable {s : State Thread Record Client}

theorem Inv.running (hs : Inv s) (hrunning : s.Running r) :
    phase s.memory.log r = .executing ∨ ∃ id, s.memory.life r = .constructing id := by
  obtain ⟨t, frame, hmem, hframe⟩ := hrunning
  obtain ⟨depth, hdepth⟩ := CallStack.exists_frameAt_of_mem hmem
  have hinv := hs.frames t depth frame hdepth
  cases frame with
  | constructor r' pc =>
      cases pc with
      | callback =>
          obtain rfl : r' = r := by simpa [Frame.running] using hframe
          exact Or.inr ⟨_, hinv.1⟩
      | _ => cases hframe
  | requestStop pc =>
      cases pc with
      | callback r' removed =>
          obtain rfl : r' = r := by simpa [Frame.running] using hframe
          exact Or.inl ((hinv.1.2 r').mpr rfl)
      | _ => cases hframe
  | _ => cases hframe

/-- The threads whose calls won are the claiming thread, once it has returned. -/
theorem MemoryInv.winner (hm : MemoryInv m) {t : Thread} (hwon : .stopReturned t true ∈ m.log) :
    StopToken.active m.log = none ∧ ∃ depth, claimer m.log = some (t, depth) := by
  rw [← mem_wins, hm.wins] at hwon
  split at hwon
  next hactive =>
    cases hclaimer : claimer m.log with
    | none => simp [hclaimer] at hwon
    | some c =>
        obtain rfl : t = c.1 := by simpa [hclaimer] using hwon
        exact ⟨Option.isNone_iff_eq_none.mp hactive, c.2, rfl⟩
  next => cases hwon

/-- Once the claim is over, a record that was linked has been unlinked or run. -/
theorem MemoryInv.settled (hm : MemoryInv m) (hclaimed : (claimer m.log).isSome = true)
    (hidle : StopToken.active m.log = none) (hpushed : .pushed r ∈ m.log) :
    phase m.log r = .unlinked ∨ phase m.log r = .finished ∨ phase m.log r = .gone := by
  have hrecord := hm.records r
  have hempty := hm.drained hclaimed hidle
  cases hphase : phase m.log r with
  | fresh => exact absurd hphase (hrecord.pushed.mp hpushed).1
  | inline => exact absurd hphase (hrecord.pushed.mp hpushed).2
  | linked =>
      have hmem := hrecord.mem_linked.mpr hphase
      rw [hempty] at hmem
      cases hmem
  | executing =>
      have hsome := hm.executing r hphase
      rw [hidle] at hsome
      cases hsome
  | unlinked => exact Or.inl rfl
  | finished => exact Or.inr (Or.inl rfl)
  | gone => exact Or.inr (Or.inr rfl)

/-- Once the claim is over, every linked record that was not unlinked has run. -/
theorem MemoryInv.notified (hm : MemoryInv m) {t : Thread} (hwon : .stopReturned t true ∈ m.log)
    (hpushed : .pushed r ∈ m.log) (hunlinked : .unlinked r ∉ m.log) :
    trail m.log r = ⟨[], [t], [t]⟩ := by
  obtain ⟨hactive, depth, hclaimer⟩ := hm.winner hwon
  have hrecord := hm.records r
  have hdone : phase m.log r = .finished ∨ phase m.log r = .gone := by
    rcases hm.settled (by simp [hclaimer]) hactive hpushed with hphase | hdone
    · exact absurd (hrecord.erased.mpr hphase) hunlinked
    · exact hdone
  obtain ⟨c, hc, htrail⟩ := hrecord.ran hdone
  rw [hclaimer] at hc
  cases hc
  exact htrail

/-- A thread that failed to register runs the callback itself, before its
constructor returns. -/
theorem RecordInv.late (h : RecordInv m r) {t t' : Thread} (hfailed : .addFailed r t ∈ m.log)
    (hconstructed : .constructed r t' ∈ m.log) : trail m.log r = ⟨[t], [t], [t]⟩ := by
  obtain ⟨hphase, hlist, _⟩ := h.legal.2 t (mem_failed.mpr hfailed)
  obtain ⟨u, htrail⟩ := h.inline hphase (h.constructed t' hconstructed).2
  have hu : u = t := by simpa [htrail] using hlist
  rw [htrail, hu]

variable [DecidableEq Thread]

/-- The guarantees of the stop source to its clients. -/
structure InvocationContract (s : State Thread Record Client) : Prop where
  /-- At most one call of `request_stop` has returned true. -/
  one_win : (wins s.memory.log).length ≤ 1
  /-- Every callback body has been entered at most once. -/
  once : ∀ r, (trail s.memory.log r).invoked.length ≤ 1
  /-- By the time the winning call returns, every record that was linked and not
  unlinked has been run to its end, once, by the claiming thread. -/
  notified : ∀ t r, .stopReturned t true ∈ s.memory.log → .pushed r ∈ s.memory.log →
    .unlinked r ∉ s.memory.log → (∃ depth, .claimed (t, depth) ∈ s.memory.log) ∧
      (trail s.memory.log r).invoked = [t] ∧ (trail s.memory.log r).returned = [t]
  /-- A registration that finds stop requested is never linked. Only the
  registering thread runs its callback, once, inside the constructor. -/
  late : ∀ r t, .addFailed r t ∈ s.memory.log → .pushed r ∉ s.memory.log ∧
    (∀ u ∈ (trail s.memory.log r).invoked, u = t) ∧
    ∀ t', .constructed r t' ∈ s.memory.log →
      (trail s.memory.log r).invoked = [t] ∧ (trail s.memory.log r).returned = [t]
  /-- After a destructor has returned outside the callback, the body is not
  running and will not be entered, now or later. -/
  destroyed : ∀ r t, .destroyed r t false ∈ s.memory.log → ∀ trace s',
    (machine Thread Record Client).Run s trace s' → ¬ s'.Running r ∧
      (trail s'.memory.log r).invoked = (trail s.memory.log r).invoked

/-- The contract holds in every interleaving. -/
theorem invocation_contract (hs : (machine Thread Record Client).Reachable s) :
    InvocationContract s := by
  have hinv := inv_of_reachable hs
  refine ⟨?_, fun r => (hinv.memory.records r).legal.1, ?_, ?_, ?_⟩
  · rw [hinv.memory.wins]
    split
    · cases claimer s.memory.log <;> simp
    · simp
  · intro t r hwon hpushed hunlinked
    obtain ⟨_, depth, hclaimer⟩ := hinv.memory.winner hwon
    rw [hinv.memory.notified hwon hpushed hunlinked]
    exact ⟨⟨depth, mem_of_claimer hclaimer⟩, rfl, rfl⟩
  · intro r t hfailed
    have hrecord := hinv.memory.records r
    obtain ⟨hphase, _, honly⟩ := hrecord.legal.2 t (mem_failed.mpr hfailed)
    refine ⟨fun hpushed => (hrecord.pushed.mp hpushed).2 hphase, honly, ?_⟩
    intro t' hconstructed
    rw [hrecord.late hfailed hconstructed]
    exact ⟨rfl, rfl⟩
  · intro r t hdestroyed trace s' hrun
    have hlife := ((hinv.memory.records r).outside t hdestroyed).1
    obtain ⟨hlife', hinvoked⟩ := destroyed_run hs hrun hlife
    refine ⟨?_, hinvoked⟩
    intro hrunning
    have hinv' := inv_of_reachable (hs.run hrun)
    have hkept := (run_log hrun).subset hdestroyed
    rcases hinv'.running hrunning with hphase | ⟨id, hconstructing⟩
    · exact ((hinv'.memory.records r).outside t hkept).2.1 hphase
    · rw [hlife'] at hconstructing
      cases hconstructing

/-- The first thread registers the first record, the second requests stop and runs
it, the first registers the second record too late and then destroys the first. -/
def notifiedRun : List (Action Pair Pair Empty) :=
  List.flatten
    [[.construct .first .first], List.replicate 9 (.run .first false), [.requestStop .second],
      List.replicate 11 (.run .second false), [.ret .second], List.replicate 6 (.run .second false),
      [.construct .first .second], List.replicate 3 (.run .first false),
      [.ret .first, .destroy .first .first], List.replicate 7 (.run .first false)]

set_option maxRecDepth 4000 in
theorem invocation_contract_notifiedRun :
    ∃ s : State Pair Pair Empty, InvocationContract s ∧
      .stopReturned .second true ∈ s.memory.log ∧ .pushed .first ∈ s.memory.log ∧
      .addFailed .second .first ∈ s.memory.log ∧
      .destroyed .first .first false ∈ s.memory.log := by
  refine ⟨_, invocation_contract (Machine.reachable_replay rfl notifiedRun (by decide)), ?_⟩
  decide

end Bexec.StopToken
