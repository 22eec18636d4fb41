import Bexec.RepeatUntil.Stage

/-!
# The code moves from stage to stage

Every step of the machine, from the state of a stage, is a move of the stages.
The facts about the client that a stage rests on are kept by every move.
-/

namespace Bexec.RepeatUntil

variable {Thread Value Error Exception : Type} (client : Client Value Error Exception)

/-- The checks that iteration `n` has passed when its child starts. -/
def Client.Passed (n : Nat) : Prop :=
  client.stopRequested n = false ∧ client.build n = none

/-- What is known about the client at a stage of iteration `n`. -/
def Stage.Fits (n : Nat) : Stage Thread Exception → Prop
  | .idle => n = 0
  | .opening _ .resetCurrent => True
  | .opening _ .queryStop => True
  | .opening _ .loadEpoch => client.stopRequested n = false
  | .opening _ .emplace => client.stopRequested n = false
  | .opening _ .startChild => client.Passed n
  | .opening _ .stopped => client.iteration n = some (Ending.stopped.outcome client n)
  | .opening _ (.threw pointer) =>
      client.iteration n = some ((Ending.failed pointer).outcome client n)
  | .rendezvous drain child => client.Passed n ∧ ¬(drain = .left ∧ child = .left)
  | .closing _ _ .process => client.Passed n
  | .closing _ _ .callPredicate =>
      client.Passed n ∧ ∃ values, (client.child n).store = .value values
  | .closing _ _ .resetStored =>
      client.iteration n = none ∧ ∃ values, (client.child n).store = .value values
  | .closing _ who .completeStored =>
      client.iteration n = some ((Ending.stored who).outcome client n)
  | .closing _ who (.threw pointer) =>
      client.iteration n = some ((Ending.threw who pointer).outcome client n)
  | .finished ending => client.iteration n = some (ending.outcome client n)
  | .terminated => client.needExceptionPtr = false ∧ ∃ pointer, client.build n = some pointer

/-- The stage fits, and the loop has gone on through every earlier iteration. -/
structure Stage.Sound (n : Nat) (stage : Stage Thread Exception) : Prop where
  again : ∀ k < n, client.iteration k = none ∧ ∃ values, (client.child k).store = .value values
  fits : stage.Fits client n

variable {client} {n n' : Nat} {stage stage' : Stage Thread Exception}
  {events : List (Event Value Error Exception)}

theorem Moves.fits (h : Moves client n stage events n' stage') (hfits : stage.Fits client n) :
    stage'.Fits client n' := by
  cases h with
  | start | resetCurrent | next => trivial
  | queryStop _ hstop => exact hstop
  | stop _ hstop => exact Client.iteration_stopped hstop
  | loadEpoch => exact hfits
  | emplace _ hbuild => exact ⟨hfits, hbuild⟩
  | fail _ hbuild hneed => exact Client.iteration_threw hfits hbuild
  | terminate _ hbuild hneed => exact ⟨hneed, _, hbuild⟩
  | startChild => exact ⟨hfits, by simp⟩
  | returnStart | completeChild | store | drainWins _ _ | childWins _ _ =>
      refine ⟨hfits.1, ?_⟩
      simp_all
  | drainLoses | childLoses => exact hfits.1
  | processValue _ _ hstore => exact ⟨hfits, _, hstore⟩
  | processOther _ _ hstore =>
      obtain ⟨hstop, hbuild⟩ := hfits
      have hcalls : client.predicateCallsAfter n = n := by
        unfold Client.predicateCallsAfter
        cases hcompletion : (client.child n).store with
        | value values => exact absurd hcompletion (hstore values)
        | error | exception | stopped => rfl
      simp [Stage.Fits, Client.iteration_other hstop hbuild hstore, Ending.outcome, hcalls]
  | satisfied _ _ hpredicate =>
      obtain ⟨⟨hstop, hbuild⟩, values, hstore⟩ := hfits
      simp [Stage.Fits, Client.iteration_value hstop hbuild hstore, Client.ask, hstore, hpredicate,
        Ending.outcome, Client.predicateCallsAfter]
  | again _ _ hpredicate =>
      obtain ⟨⟨hstop, hbuild⟩, values, hstore⟩ := hfits
      refine ⟨?_, values, hstore⟩
      simp [Client.iteration_value hstop hbuild hstore, Client.ask, hpredicate]
  | predicateThrows _ _ hpredicate =>
      obtain ⟨⟨hstop, hbuild⟩, values, hstore⟩ := hfits
      simp [Stage.Fits, Client.iteration_value hstop hbuild hstore, Client.ask, hpredicate,
        Ending.outcome]
  | finishStopped | finishFailed | finishStored | finishThrew => exact hfits

theorem Moves.sound (h : Moves client n stage events n' stage') (hsound : stage.Sound client n) :
    stage'.Sound client n' := by
  refine ⟨?_, h.fits hsound.fits⟩
  cases h with
  | next =>
      intro k hk
      rcases Nat.lt_succ_iff_lt_or_eq.mp hk with hlt | rfl
      · exact hsound.again k hlt
      · exact hsound.fits
  | _ => exact hsound.again

variable [DecidableEq Thread] {log : List (Event Value Error Exception)} {t : Thread}
  {s' : State Thread Value Error Exception}

/-- Some move leads to the state. -/
def Stage.Advances (client : Client Value Error Exception) (n : Nat)
    (log : List (Event Value Error Exception)) (stage : Stage Thread Exception)
    (s' : State Thread Value Error Exception) : Prop :=
  ∃ n' events stage', Moves client n stage events n' stage' ∧
    s' = stage'.state client n' (events ++ log)

theorem Opening.advances {place : Opening Exception}
    (hstep : (place.frame n).step client (Stage.state client n log (.opening t place)) t [] =
      some s') : (Stage.opening t place).Advances client n log s' := by
  cases place with
  | resetCurrent =>
      cases hstep
      refine ⟨n, [], _, .resetCurrent t, ?_⟩
      simp [Stage.state, State.setStack]
  | queryStop =>
      cases hstop : client.stopRequested n with
      | false =>
          refine ⟨n, [], _, .queryStop t hstop, ?_⟩
          simpa [Stage.state, State.setStack, Frame.step, hstop] using hstep.symm
      | true =>
          refine ⟨n, [], _, .stop t hstop, ?_⟩
          simpa [Stage.state, State.setStack, Frame.step, hstop] using hstep.symm
  | loadEpoch =>
      cases hstep
      refine ⟨n, [], _, .loadEpoch t, ?_⟩
      simp [Stage.state, State.setStack]
  | emplace =>
      cases hbuild : client.build n with
      | none =>
          refine ⟨n, [], _, .emplace t hbuild, ?_⟩
          simpa [Stage.state, State.setStack, State.setChild, Frame.step, State.emplace,
            hbuild] using hstep.symm
      | some pointer =>
          cases hneed : client.needExceptionPtr with
          | true =>
              refine ⟨n, [], _, .fail t hbuild hneed, ?_⟩
              simpa [Stage.state, State.setStack, Frame.step, State.emplace, hbuild,
                hneed] using hstep.symm
          | false =>
              refine ⟨n, [], _, .terminate t hbuild hneed, ?_⟩
              simpa [Stage.state, State.setStack, Frame.step, State.emplace, hbuild,
                hneed] using hstep.symm
  | startChild =>
      cases hstep
      refine ⟨n, _, _, .startChild t, ?_⟩
      simp [Stage.state, State.setStack, State.setChild, State.record, advanced]
  | stopped =>
      cases hstep
      refine ⟨n, _, _, .finishStopped t, ?_⟩
      simp [Stage.state, State.setStack, State.record]
  | threw pointer =>
      cases hstep
      refine ⟨n, _, _, .finishFailed t pointer, ?_⟩
      simp [Stage.state, State.setStack, State.record]

theorem Closing.advances {who : Participant} {place : Closing Exception}
    (hfits : (Stage.closing t who place).Fits client n)
    (hstep : (place.frame n who).step client (Stage.state client n log (.closing t who place)) t
      [] = some s') : (Stage.closing t who place).Advances client n log s' := by
  cases place with
  | process =>
      by_cases hvalue : ∃ values, (client.child n).store = .value values
      · obtain ⟨values, hstore⟩ := hvalue
        refine ⟨n, _, _, .processValue t who hstore, ?_⟩
        simpa [Stage.state, State.setStack, State.record, Frame.step, hstore] using hstep.symm
      · have hother := not_exists.mp hvalue
        refine ⟨n, _, _, .processOther t who hother, ?_⟩
        cases hstore : (client.child n).store with
        | value values => exact absurd hstore (hother values)
        | error | exception | stopped =>
            simpa [Stage.state, State.setStack, State.record, Frame.step, hstore,
              Client.predicateCallsAfter] using hstep.symm
  | callPredicate =>
      obtain ⟨-, values, hstore⟩ := hfits
      cases hpredicate : client.predicate n with
      | ok again =>
          cases again with
          | true =>
              refine ⟨n, _, _, .satisfied t who hpredicate, ?_⟩
              simpa [Stage.state, State.setStack, State.record, Frame.step, State.callPredicate,
                hpredicate, Client.predicateCallsAfter, hstore] using hstep.symm
          | false =>
              refine ⟨n, _, _, .again t who hpredicate, ?_⟩
              simpa [Stage.state, State.setStack, State.record, Frame.step, State.callPredicate,
                hpredicate] using hstep.symm
      | error pointer =>
          refine ⟨n, _, _, .predicateThrows t who hpredicate, ?_⟩
          simpa [Stage.state, State.setStack, State.record, Frame.step, State.callPredicate,
            hpredicate] using hstep.symm
  | resetStored =>
      cases hstep
      refine ⟨n + 1, [], _, .next t who, ?_⟩
      simp [Stage.state, State.setStack, childrenAt_succ]
  | completeStored =>
      cases hstep
      refine ⟨n, _, _, .finishStored t who, ?_⟩
      simp [Stage.state, State.setStack, State.record]
  | threw pointer =>
      cases hstep
      refine ⟨n, _, _, .finishThrew t who pointer, ?_⟩
      simp [Stage.state, State.setStack, State.record]

/-- The exchange of the drain loop, no frame of the child being above it. -/
theorem DrainSide.advances {child : ChildSide Thread}
    (hchild : child.stack n t = ([] : List (Frame Value Error Exception))) :
    (Stage.rendezvous (.exchanging t) child).Advances client n log
      ((Stage.state client n log (.rendezvous (.exchanging t) child)).exchange t [] .drain n
        (epochOf n)) := by
  by_cases hleft : child = .left
  · subst hleft
    refine ⟨n, _, _, .drainLoses t, ?_⟩
    simp [Stage.state, State.exchange, State.setStack, State.record]
  · refine ⟨n, _, _, .drainWins t hleft, ?_⟩
    have hfirst := advanced_eq_false (.exchanging t) child (by simp) hleft
    simp [Stage.state, State.exchange, State.setStack, State.record, hfirst, stack_pop_last hchild]

/-- The exchange of the child. -/
theorem ChildSide.advances (drain : DrainSide Thread) :
    (Stage.rendezvous drain (.exchanging t)).Advances client n log
      ((Stage.state client n log (.rendezvous drain (.exchanging t))).exchange t
        (drain.stack n t) .child n (epochOf n)) := by
  by_cases hleft : drain = .left
  · subst hleft
    refine ⟨n, _, _, .childLoses t, ?_⟩
    simp [Stage.state, State.exchange, State.setStack, State.record]
  · refine ⟨n, _, _, .childWins t hleft, ?_⟩
    have hfirst := advanced_eq_false drain (.exchanging t) hleft (by simp)
    cases drain <;>
      simp_all [Stage.state, State.exchange, State.setStack, State.record, stack_pop]

/-- The frame on top of a thread's stack at the exchange: the child's, if it has
one there, and the drain loop's otherwise. -/
theorem rendezvous_top {drain : DrainSide Thread} {child : ChildSide Thread}
    {frame : Frame Value Error Exception} {rest : List (Frame Value Error Exception)}
    (htop : child.stack n t ++ drain.stack n t = frame :: rest) :
    (child = .storing t ∧ frame = .store n (epochOf n) ∧ rest = drain.stack n t) ∨
    (child = .exchanging t ∧ frame = .exchange .child n (epochOf n) ∧ rest = drain.stack n t) ∨
    (child.stack n t = ([] : List (Frame Value Error Exception)) ∧
      drain = .starting t ∧ frame = .childStart n (epochOf n) ∧ rest = []) ∨
    (child.stack n t = ([] : List (Frame Value Error Exception)) ∧
      drain = .exchanging t ∧ frame = .exchange .drain n (epochOf n) ∧ rest = []) := by
  cases hchild : (child.stack n t : List (Frame Value Error Exception)) with
  | nil =>
      rw [hchild, List.nil_append] at htop
      cases drain with
      | left => cases htop
      | starting u =>
          obtain ⟨rfl, rfl, rfl⟩ := alone_eq_cons htop
          simp
      | exchanging u =>
          obtain ⟨rfl, rfl, rfl⟩ := alone_eq_cons htop
          simp
  | cons top below =>
      rw [hchild] at htop
      cases child with
      | running | left => cases hchild
      | storing u =>
          obtain ⟨rfl, rfl, rfl⟩ := alone_eq_cons hchild
          cases htop
          simp
      | exchanging u =>
          obtain ⟨rfl, rfl, rfl⟩ := alone_eq_cons hchild
          cases htop
          simp

theorem rendezvous_run {drain : DrainSide Thread} {child : ChildSide Thread}
    {frame : Frame Value Error Exception} {rest : List (Frame Value Error Exception)}
    (htop : child.stack n t ++ drain.stack n t = frame :: rest)
    (hstep : frame.step client (Stage.state client n log (.rendezvous drain child)) t rest =
      some s') : (Stage.rendezvous drain child).Advances client n log s' := by
  rcases rendezvous_top htop with ⟨rfl, rfl, rfl⟩ | ⟨rfl, rfl, rfl⟩ | ⟨-, rfl, rfl, rfl⟩ |
    ⟨hchild, rfl, rfl, rfl⟩
  · cases hstep
    refine ⟨n, _, _, .store t drain, ?_⟩
    cases drain <;> simp [Stage.state, State.setStack, State.record, advanced, stack_replace]
  · cases hstep
    exact ChildSide.advances drain
  · cases hstep
  · cases hstep
    exact DrainSide.advances hchild

/-- Every step of the code is a move. -/
theorem step_moves {a : Action Thread} (hfits : stage.Fits client n)
    (hstep : (machine Thread client).step (stage.state client n log) a = some s') :
    stage.Advances client n log s' := by
  have hlive : (stage.state client n log).terminated = false := by
    by_contra hterminated
    simp [machine, hterminated] at hstep
  simp only [machine, hlive, Bool.false_eq_true, if_false] at hstep
  cases a with
  | start t =>
      simp only [step, Option.ite_none_right_eq_some] at hstep
      obtain ⟨⟨huser, hbegun⟩, hstart⟩ := hstep
      cases stage with
      | idle =>
          refine ⟨n, [], _, .start t hfits, ?_⟩
          subst hfits
          cases hstart
          simp [Stage.state, State.initial, State.setStack, epochOf]
      | _ => cases hbegun
  | run t =>
      simp only [step] at hstep
      split at hstep
      · cases hstep
      next frame rest htop =>
        cases stage with
        | idle | finished | terminated => cases htop
        | opening u place =>
            obtain ⟨rfl, rfl, rfl⟩ := alone_eq_cons htop
            exact Opening.advances hstep
        | rendezvous drain child => exact rendezvous_run htop hstep
        | closing u who place =>
            obtain ⟨rfl, rfl, rfl⟩ := alone_eq_cons htop
            exact Closing.advances hfits hstep
  | returnStart t =>
      simp only [step] at hstep
      split at hstep
      next k childEpoch rest htop =>
        cases stage with
        | idle | finished | terminated => cases htop
        | opening u place =>
            obtain ⟨-, hframe, -⟩ := alone_eq_cons htop
            cases place <;> cases hframe
        | rendezvous drain child =>
            rcases rendezvous_top htop with ⟨-, hframe, -⟩ | ⟨-, hframe, -⟩ | ⟨hchild, rfl, hframe, rfl⟩ |
              ⟨-, -, hframe, -⟩
            · cases hframe
            · cases hframe
            · cases hframe
              cases hstep
              refine ⟨n, _, _, .returnStart t child, ?_⟩
              cases child <;>
                simp_all [Stage.state, State.setStack, State.record, advanced, stack_replace_last]
            · cases hframe
        | closing u who place =>
            obtain ⟨-, hframe, -⟩ := alone_eq_cons htop
            cases place <;> cases hframe
      next => cases hstep
  | completeChild t k =>
      simp only [step] at hstep
      split at hstep
      next childEpoch hchild =>
        rw [Option.ite_none_right_eq_some] at hstep
        obtain ⟨huser, hstep⟩ := hstep
        cases stage with
        | idle => cases hchild
        | opening u place =>
            obtain ⟨rfl, hplace⟩ := childrenAt_running hchild
            cases place <;> cases hplace
        | rendezvous drain child =>
            obtain ⟨rfl, hrunning⟩ := childrenAt_running hchild
            cases child <;> cases hrunning
            cases hstep
            refine ⟨_, [], _, .completeChild t drain, ?_⟩
            cases drain <;>
              simp [Stage.state, State.setStack, State.setChild, advanced, stack_push]
        | closing u who place =>
            obtain ⟨-, hcompleted⟩ := childrenAt_running hchild
            cases hcompleted
        | finished ending =>
            obtain ⟨-, hcompleted⟩ := childrenAt_running hchild
            split at hcompleted <;> cases hcompleted
        | terminated => cases hlive
      next => cases hstep

end Bexec.RepeatUntil
