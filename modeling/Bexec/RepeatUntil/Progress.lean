import Bexec.RepeatUntil.Simulation

/-!
# What the log of an operation holds

At every stage the log is known up to order: each earlier iteration is settled,
the current one has recorded what its stage has seen, and nothing is recorded
twice.
-/

namespace Bexec.RepeatUntil

variable {Thread Value Error Exception : Type} (client : Client Value Error Exception)

/-- The predicate has been called by this place of the current iteration. -/
def Closing.asked (n : Nat) : Closing Exception → Prop
  | .process => False
  | .callPredicate => False
  | .resetStored => True
  | .completeStored => ∃ values, (client.child n).store = .value values
  | .threw _ => True

def Closing.seen (n : Nat) (who : Participant) (place : Closing Exception) : Moment → Prop
  | .started => True
  | .startReturned => True
  | .stored => True
  | .exchanged party won => won = decide (party ≠ who)
  | .processed party => party = who ∧ place ≠ .process
  | .predicateCalled => place.asked client n

/-- What an iteration has recorded once the predicate asked for another one. -/
def Settled (who : Participant) : Moment → Prop
  | .exchanged party won => won = decide (party ≠ who)
  | .processed party => party = who
  | _ => True

def Stage.seen (n : Nat) : Stage Thread Exception → Moment → Prop
  | .rendezvous drain child => fun
      | .started => True
      | .startReturned => ∀ t, drain ≠ .starting t
      | .stored => child.stored = true
      | .exchanged .drain won => won = true ∧ drain = .left
      | .exchanged .child won => won = true ∧ child = .left
      | _ => False
  | .closing _ who place => place.seen client n who
  | .finished (.stored who) => Closing.completeStored.seen client n who
  | .finished (.threw who pointer) => (Closing.threw pointer).seen client n who
  | _ => fun _ => False

/-- What the receiver has been completed with. -/
def Stage.completion (n : Nat) : Stage Thread Exception → Option (Completion Value Error Exception)
  | .finished ending => some (ending.outcome client n).completion
  | _ => none

structure History (n : Nat) (stage : Stage Thread Exception)
    (log : List (Event Value Error Exception)) : Prop where
  nodup : log.Nodup
  past : ∀ k < n, ∃ who, ∀ m, .moment k m ∈ log ↔ Settled who m
  present : ∀ m, .moment n m ∈ log ↔ stage.seen client n m
  future : ∀ k, n < k → ∀ m, .moment k m ∉ log
  completed : ∀ completion, .completed completion ∈ log ↔
    stage.completion client n = some completion

variable {client} {n n' : Nat} {stage stage' : Stage Thread Exception}
  {log events : List (Event Value Error Exception)}

namespace History

/-- A move within an iteration that records nothing. -/
theorem quiet (h : History client n stage log)
    (hseen : ∀ m, stage'.seen client n m ↔ stage.seen client n m)
    (hcompletion : stage'.completion client n = stage.completion client n) :
    History client n stage' log where
  nodup := h.nodup
  past := h.past
  present m := (h.present m).trans (hseen m).symm
  future := h.future
  completed completion := by rw [h.completed, hcompletion]

/-- A move within an iteration that records a moment. -/
theorem moment (h : History client n stage log) {m : Moment} (hnew : ¬ stage.seen client n m)
    (hseen : ∀ m', stage'.seen client n m' ↔ m' = m ∨ stage.seen client n m')
    (hcompletion : stage'.completion client n = stage.completion client n) :
    History client n stage' (.moment n m :: log) where
  nodup := List.nodup_cons.mpr ⟨fun hmem => hnew ((h.present m).mp hmem), h.nodup⟩
  past k hk := by
    obtain ⟨who, hwho⟩ := h.past k hk
    refine ⟨who, fun m' => ?_⟩
    rw [List.mem_cons, ← hwho m']
    simp [Nat.ne_of_lt hk]
  present m' := by
    rw [List.mem_cons, h.present m', hseen m']
    simp
  future k hk m' := by
    rw [List.mem_cons, not_or]
    exact ⟨by simp [Nat.ne_of_gt hk], h.future k hk m'⟩
  completed completion := by
    rw [List.mem_cons, h.completed, hcompletion]
    simp

/-- The last move completes the receiver. -/
theorem complete (h : History client n stage log) {completion : Completion Value Error Exception}
    (hnew : stage.completion client n = none)
    (hseen : ∀ m, stage'.seen client n m ↔ stage.seen client n m)
    (hcompletion : stage'.completion client n = some completion) :
    History client n stage' (.completed completion :: log) where
  nodup := by
    refine List.nodup_cons.mpr ⟨fun hmem => ?_, h.nodup⟩
    rw [h.completed, hnew] at hmem
    cases hmem
  past k hk := by simpa using h.past k hk
  present m := by simpa using (h.present m).trans (hseen m).symm
  future k hk m := by simpa using h.future k hk m
  completed other := by
    rw [List.mem_cons, h.completed, hnew, hcompletion]
    simp [eq_comm]

/-- The next iteration begins. -/
theorem next {t u : Thread} {who : Participant}
    (h : History client n (.closing t who .resetStored) log) :
    History client (n + 1) (.opening u .resetCurrent) log where
  nodup := h.nodup
  past k hk := by
    rcases Nat.lt_succ_iff_lt_or_eq.mp hk with hlt | rfl
    · exact h.past k hlt
    · refine ⟨who, fun m => (h.present m).trans ?_⟩
      cases m <;> simp [Stage.seen, Closing.seen, Settled, Closing.asked]
  present m := by simpa [Stage.seen] using h.future (n + 1) (Nat.lt_succ_self n) m
  future k hk := h.future k (by omega)
  completed completion := h.completed completion

end History

/-- The history is kept by every move. -/
theorem Moves.history (h : Moves client n stage events n' stage') (hfits : stage.Fits client n)
    (hhistory : History client n stage log) : History client n' stage' (events ++ log) := by
  cases h with
  | start | resetCurrent | queryStop | stop | loadEpoch | emplace | fail | terminate =>
      exact hhistory.quiet (fun _ => Iff.rfl) rfl
  | startChild =>
      refine hhistory.moment not_false ?_ rfl
      rintro (_ | _ | _ | ⟨_ | _, _⟩ | _ | _) <;> simp [Stage.seen]
  | returnStart _ child =>
      refine hhistory.moment (by simp [Stage.seen]) ?_ rfl
      rintro (_ | _ | _ | ⟨_ | _, _⟩ | _ | _) <;> simp [Stage.seen]
  | completeChild _ drain =>
      refine hhistory.quiet ?_ rfl
      rintro (_ | _ | _ | ⟨_ | _, _⟩ | _ | _) <;> simp [Stage.seen]
  | store _ drain =>
      refine hhistory.moment (by simp [Stage.seen]) ?_ rfl
      rintro (_ | _ | _ | ⟨_ | _, _⟩ | _ | _) <;> simp [Stage.seen]
  | drainWins =>
      refine hhistory.moment (by simp [Stage.seen]) ?_ rfl
      rintro (_ | _ | _ | ⟨_ | _, _⟩ | _ | _) <;> simp [Stage.seen]
  | childWins =>
      refine hhistory.moment (by simp [Stage.seen]) ?_ rfl
      rintro (_ | _ | _ | ⟨_ | _, _⟩ | _ | _) <;> simp [Stage.seen]
  | drainLoses =>
      refine hhistory.moment (by simp [Stage.seen]) ?_ rfl
      rintro (_ | _ | _ | ⟨_ | _, _ | _⟩ | _ | _) <;> simp [Stage.seen, Closing.seen, Closing.asked]
  | childLoses =>
      refine hhistory.moment (by simp [Stage.seen]) ?_ rfl
      rintro (_ | _ | _ | ⟨_ | _, _ | _⟩ | _ | _) <;> simp [Stage.seen, Closing.seen, Closing.asked]
  | processValue =>
      refine hhistory.moment (by simp [Stage.seen, Closing.seen]) ?_ rfl
      rintro (_ | _ | _ | _ | _ | _) <;> simp [Stage.seen, Closing.seen, Closing.asked]
  | processOther _ _ hstore =>
      refine hhistory.moment (by simp [Stage.seen, Closing.seen]) ?_ rfl
      rintro (_ | _ | _ | _ | _ | _) <;> simp [Stage.seen, Closing.seen, Closing.asked, hstore]
  | satisfied =>
      obtain ⟨-, values, hstore⟩ := hfits
      refine hhistory.moment (by simp [Stage.seen, Closing.seen, Closing.asked]) ?_ rfl
      rintro (_ | _ | _ | _ | _ | _) <;> simp [Stage.seen, Closing.seen, Closing.asked, hstore]
  | again | predicateThrows =>
      refine hhistory.moment (by simp [Stage.seen, Closing.seen, Closing.asked]) ?_ rfl
      rintro (_ | _ | _ | _ | _ | _) <;> simp [Stage.seen, Closing.seen, Closing.asked]
  | next => exact hhistory.next
  | finishStopped | finishFailed | finishStored | finishThrew =>
      exact hhistory.complete rfl (fun _ => Iff.rfl) rfl

variable [DecidableEq Thread]

/-- The operation is at a stage, with the log that belongs to it. -/
structure At (client : Client Value Error Exception) (n : Nat) (stage : Stage Thread Exception)
    (s : State Thread Value Error Exception) : Prop where
  state : s = stage.state client n s.log
  sound : stage.Sound client n
  history : History client n stage s.log

theorem Stage.state_log (client : Client Value Error Exception) (n : Nat)
    (log : List (Event Value Error Exception)) (stage : Stage Thread Exception) :
    (stage.state client n log).log = log := by
  cases stage <;> rfl

theorem At.initial (client : Client Value Error Exception) :
    At client 0 (.idle : Stage Thread Exception) .initial where
  state := rfl
  sound := ⟨(by simp), rfl⟩
  history := ⟨List.nodup_nil, (by simp), by simp [State.initial, Stage.seen], by simp [State.initial],
    by simp [State.initial, Stage.completion]⟩

theorem At.step {s s' : State Thread Value Error Exception} {a : Action Thread}
    (h : At client n stage s) (hstep : (machine Thread client).step s a = some s') :
    ∃ n' events stage', Moves client n stage events n' stage' ∧ At client n' stage' s' := by
  rw [h.state] at hstep
  obtain ⟨n', events, stage', hmoves, rfl⟩ := step_moves h.sound.fits hstep
  refine ⟨n', events, stage', hmoves, ?_, hmoves.sound h.sound, ?_⟩
  · rw [Stage.state_log]
  · rw [Stage.state_log]
    exact hmoves.history h.sound.fits h.history

theorem at_of_reachable {s : State Thread Value Error Exception}
    (hs : (machine Thread client).Reachable s) : ∃ n stage, At client n stage s := by
  refine Foundation.Machine.Reachable.invariant (P := fun s => ∃ n stage, At client n stage s)
    ?_ ?_ hs
  · rintro s rfl
    exact ⟨0, .idle, .initial client⟩
  · rintro s a s' - ⟨n, stage, h⟩ hstep
    obtain ⟨n', -, stage', -, h'⟩ := h.step hstep
    exact ⟨n', stage', h'⟩

end Bexec.RepeatUntil
