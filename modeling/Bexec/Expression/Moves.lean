import Bexec.Expression.Start

/-! # The moves of a started operation

What a move can be at each kind of operation state, and that it keeps how the
operation stands: only a running operation has moves, and the receiver is told
exactly when the last one is made.
-/

namespace Bexec.Expression

open Foundation Signatures Adaptors

variable {V : Type} {stop : Bool} {path : List ℕ} {command : Command V} {r : Effect V}

/-! ## The moves at each operation state -/

theorem act_empty : act stop (.empty : Operation V) path command = none := by
  cases path <;> cases command <;> rfl

theorem act_just {sent : List (Completion V)} : act stop (.just sent) path command = none := by
  cases path <;> cases command <;> rfl

theorem act_leaf_cons {c : Completion V} {sent : List (Completion V)} :
    act stop (.leaf (c :: sent)) path command = none := by
  cases path <;> cases command <;> rfl

theorem act_leaf (h : act stop (.leaf []) path command = some r) :
    ∃ c, r = (.leaf [c], some c) := by
  cases path with
  | nil =>
      cases command with
      | complete c => exact ⟨c, (Option.some.inj h).symm⟩
      | startOne | leave | drain | stopCallback => cases h
  | cons i rest => cases command <;> cases h

/-- The moves of an operation with one child. -/
theorem act_adapt {tag : Tag} {fn : Args V tag → Except V (List V)} {calls : ℕ}
    {sent : List (Completion V)} {upstream : Operation V}
    (h : act stop (.adapt tag fn calls sent upstream) path command = some r) :
    ∃ rest r', act stop upstream rest command = some r' ∧
      r = Operation.adaptStep tag fn calls sent r' := by
  cases path with
  | nil => cases command <;> cases h
  | cons i rest =>
      cases i with
      | zero =>
          obtain ⟨r', hact, rfl⟩ := Option.map_eq_some_iff.mp h
          exact ⟨rest, r', hact, rfl⟩
      | succ i => cases h

theorem act_let {tag : Tag} {raises : Args V tag → Option V} {child : Args V tag → Sender V}
    {calls : ℕ} {sent : List (Completion V)} {upstream childOp : Operation V}
    (h : act stop (.letAdapt tag raises child calls sent upstream childOp) path command = some r) :
    (∃ rest r', act stop upstream rest command = some r' ∧
        r = Operation.letStep tag raises child (fun args => start stop (child args)) calls sent
          childOp r') ∨
      ∃ rest r', act stop childOp rest command = some r' ∧
        r = (.letAdapt tag raises child calls (sent ++ r'.2.toList) upstream r'.1, r'.2) := by
  cases path with
  | nil => cases command <;> cases h
  | cons i rest =>
      -- The upstream operation, the child, and no other.
      rcases i with _ | _ | i
      · obtain ⟨r', hact, rfl⟩ := Option.map_eq_some_iff.mp h
        exact .inl ⟨rest, r', hact, rfl⟩
      · obtain ⟨r', hact, rfl⟩ := Option.map_eq_some_iff.mp h
        exact .inr ⟨rest, r', hact, rfl⟩
      · cases h

theorem act_startsOn {child : Sender V} {sent : List (Completion V)}
    {schedule childOp : Operation V}
    (h : act stop (.startsOn child sent schedule childOp) path command = some r) :
    (∃ rest r', act stop schedule rest command = some r' ∧
        r = Operation.startsOnStep child (start stop child) sent childOp r') ∨
      ∃ rest r', act stop childOp rest command = some r' ∧
        r = (.startsOn child (sent ++ r'.2.toList) schedule r'.1, r'.2) := by
  cases path with
  | nil => cases command <;> cases h
  | cons i rest =>
      rcases i with _ | _ | i
      · obtain ⟨r', hact, rfl⟩ := Option.map_eq_some_iff.mp h
        exact .inl ⟨rest, r', hact, rfl⟩
      · obtain ⟨r', hact, rfl⟩ := Option.map_eq_some_iff.mp h
        exact .inr ⟨rest, r', hact, rfl⟩
      · cases h

theorem act_onSource {copying : Copying V} {final : Sender V} {stored : Option (Completion V)}
    {sent : List (Completion V)} {source finalOp : Operation V}
    (h : act stop (.onSource copying final stored sent source finalOp) path command = some r) :
    (∃ rest r', act stop source rest command = some r' ∧
        r = Operation.sourceStep copying final (start stop final) stored sent finalOp r') ∨
      ∃ rest r', act stop finalOp rest command = some r' ∧
        r = Operation.finalStep copying final stored sent source r' := by
  cases path with
  | nil => cases command <;> cases h
  | cons i rest =>
      rcases i with _ | _ | i
      · obtain ⟨r', hact, rfl⟩ := Option.map_eq_some_iff.mp h
        exact .inl ⟨rest, r', hact, rfl⟩
      · obtain ⟨r', hact, rfl⟩ := Option.map_eq_some_iff.mp h
        exact .inr ⟨rest, r', hact, rfl⟩
      · cases h

theorem act_draining {loop : Loop V} {child : ℕ → Sender V} {k : ℕ}
    {sent : List (Completion V)} {current : Operation V}
    (h : act stop (.repeatUntil loop child k true sent current) path command = some r) :
    Turn stop loop child k sent r := by
  cases path with
  | nil =>
      cases command with
      | drain => exact drain_turn h
      | complete | startOne | leave | stopCallback => cases h
  | cons i rest => cases h

theorem act_waiting {loop : Loop V} {child : ℕ → Sender V} {k : ℕ}
    {sent : List (Completion V)} {current : Operation V}
    (h : act stop (.repeatUntil loop child k false sent current) path command = some r) :
    ∃ rest r', act stop current rest command = some r' ∧
      r = Operation.repeatStep loop child k sent r' := by
  cases path with
  | nil => cases command <;> cases h
  | cons i rest =>
      cases i with
      | zero =>
          obtain ⟨r', hact, rfl⟩ := Option.map_eq_some_iff.mp h
          exact ⟨rest, r', hact, rfl⟩
      | succ i => cases h

theorem act_associate {sent : List (Completion V)} {child : Operation V}
    (h : act stop (.associate sent child) path command = some r) :
    ∃ rest r', act stop child rest command = some r' ∧
      r = (.associate (sent ++ r'.2.toList) r'.1, r'.2) := by
  cases path with
  | nil => cases command <;> cases h
  | cons i rest =>
      cases i with
      | zero =>
          obtain ⟨r', hact, rfl⟩ := Option.map_eq_some_iff.mp h
          exact ⟨rest, r', hact, rfl⟩
      | succ i => cases h

section WhenAll

variable {n : ℕ} {copying : Copying V} {joinRaises : List V → Option V}
  {senders : Fin (n + 1) → Sender V} {join : Join V (n + 1)} {sent : List (Completion V)}
  {children : Fin (n + 1) → Operation V}

/-- The moves of `when_all`: the next child, a child that is counted, the stop
callback, and the moves of its children. -/
theorem act_whenAll
    (h : act stop (.whenAll n copying joinRaises senders join sent children) path command =
      some r) :
    (∃ hlt : join.started < n + 1,
        r = Operation.whenAllStep copying joinRaises senders
          { join with started := join.started + 1 } sent children ⟨join.started, hlt⟩
          (emplace (senders ⟨join.started, hlt⟩).connectRaises
            (start join.stopRequested (senders ⟨join.started, hlt⟩)))) ∨
      (∃ i ∈ join.leaving, r = (.whenAll n copying joinRaises senders (join.leave joinRaises i).1
        (sent ++ (join.leave joinRaises i).2.toList) children, (join.leave joinRaises i).2)) ∨
      (join.stopRequested = false ∧ join.remaining ≠ 0 ∧ stop = true ∧
        r = (.whenAll n copying joinRaises senders { join with stopRequested := true } sent
          children, none)) ∨
      ∃ i rest r', act join.stopRequested (children i) rest command = some r' ∧
        r = Operation.whenAllStep copying joinRaises senders join sent children i r' := by
  cases path with
  | nil =>
      -- At the operation itself: `start_one`, a decrement, or the stop callback.
      cases command with
      | complete | drain => cases h
      | startOne =>
          simp only [act, startOne] at h
          split at h
          next hlt => exact .inl ⟨hlt, (Option.some.inj h).symm⟩
          next => cases h
      | leave i =>
          simp only [act] at h
          split at h
          next hlt =>
            split at h
            next hmem => exact .inr (.inl ⟨_, hmem, (Option.some.inj h).symm⟩)
            next => cases h
          next => cases h
      | stopCallback =>
          simp only [act] at h
          split at h
          next hdue =>
            exact .inr (.inr (.inl ⟨hdue.2.1, hdue.2.2, hdue.1, (Option.some.inj h).symm⟩))
          next => cases h
  | cons i rest =>
      simp only [act] at h
      split at h
      next hlt =>
        obtain ⟨r', hact, rfl⟩ := Option.map_eq_some_iff.mp h
        exact .inr (.inr (.inr ⟨_, rest, r', hact, rfl⟩))
      next => cases h

/-- A child that has arrived is counted; the last one completes the receiver. -/
theorem leave_stands {outcome : Fin (n + 1) → Option (Completion V)} {i : Fin (n + 1)}
    (htallies : join.Tallies copying outcome)
    (hunstarted : ∀ k : Fin (n + 1), join.started ≤ k.val → outcome k = none ∧ children k = .empty)
    (hchildren : ∀ k : Fin (n + 1), k.val < join.started →
      Stands ((senders k).guarded none) (children k) (outcome k))
    (hi : i ∈ join.leaving) :
    Stands (.whenAll n copying joinRaises senders)
      (.whenAll n copying joinRaises senders (join.leave joinRaises i).1
        (join.leave joinRaises i).2.toList children) (join.leave joinRaises i).2 := by
  have hpos := htallies.remaining_pos hi
  have htallies' := htallies.leave joinRaises hi
  by_cases hlast : join.remaining = 1
  · -- every other child has been counted, so all have completed
    have hzero : (join.leave joinRaises i).1.remaining = 0 := by
      simp [Join.leave, hlast]
    have htold : (join.leave joinRaises i).2 = (join.leave joinRaises i).1.finishOne joinRaises := by
      simp only [Join.leave, hlast, if_true]
      rfl
    have hall := (htallies'.all_arrived hzero).2
    choose total htotal using fun k => Option.isSome_iff_exists.mp (hall k)
    obtain rfl : outcome = fun k => some (total k) := funext htotal
    have hstarted : n + 1 ≤ join.started := by
      by_contra hlt
      have hnone := (hunstarted ⟨join.started, by omega⟩ (Nat.le_refl _)).1
      cases hnone
    have hfinish := htallies'.finishOne (fun _ => rfl) joinRaises
    rw [htold, hfinish]
    exact .whenAllDone total htallies' hstarted
      (fun k => hchildren k (Nat.lt_of_lt_of_le k.isLt hstarted)) hzero hfinish
  · have htold : (join.leave joinRaises i).2 = none := by
      simp [Join.leave, hlast]
    rw [htold]
    refine .whenAllRunning outcome htallies' hunstarted hchildren ?_
    simp only [Join.leave]
    omega

end WhenAll

/-! ## Every move -/

/-- Only a running operation has moves, and it stands after each. -/
theorem Stands.move {s : Sender V} {op : Operation V} {o : Option (Completion V)}
    (h : Stands s op o) (hact : act stop op path command = some r) :
    o = none ∧ Stands s r.1 r.2 := by
  induction h generalizing stop path command r with
  | raised x =>
      rw [act_empty] at hact
      cases hact
  | leafRunning hleaf =>
      obtain ⟨c, rfl⟩ := act_leaf hact
      exact ⟨rfl, .leafDone (hleaf.imp fun _ => .inl)⟩
  | leafDone =>
      rw [act_leaf_cons] at hact
      cases hact
  | just =>
      rw [act_just] at hact
      cases hact
  | adapt _ ih =>
      obtain ⟨rest, r', hmove, rfl⟩ := act_adapt hact
      obtain ⟨rfl, hr⟩ := ih hmove
      exact ⟨rfl, adaptStep_stands hr⟩
  | letUpstream _ ih =>
      rcases act_let hact with ⟨rest, r', hmove, rfl⟩ | ⟨rest, r', hmove, rfl⟩
      · obtain ⟨-, hr⟩ := ih hmove
        exact ⟨rfl, letStep_stands (fun args => start_stands stop _) hr⟩
      · rw [act_empty] at hmove
        cases hmove
  | letForward _ _ ih =>
      rcases act_let hact with ⟨rest, r', hmove, rfl⟩ | ⟨rest, r', hmove, rfl⟩
      · obtain ⟨hnone, -⟩ := ih hmove
        cases hnone
      · rw [act_empty] at hmove
        cases hmove
  | letChild hupstream hselect _ ih ihchild =>
      rcases act_let hact with ⟨rest, r', hmove, rfl⟩ | ⟨rest, r', hmove, rfl⟩
      · obtain ⟨hnone, -⟩ := ih hmove
        cases hnone
      · obtain ⟨rfl, hr⟩ := ihchild hmove
        exact ⟨rfl, .letChild hupstream hselect hr⟩
  | @whenAllRunning n copying joinRaises senders join children outcome htallies hunstarted hchildren
      hremaining ih =>
      rcases act_whenAll hact with ⟨hlt, rfl⟩ | ⟨i, hi, rfl⟩ | ⟨-, -, -, rfl⟩ |
        ⟨i, rest, r', hmove, rfl⟩
      · refine ⟨rfl, whenAllStep_stands (htallies.of_eq _ _) (fun k hk => ?_) (fun k hk hne => ?_)
          hremaining (Nat.lt_succ_self _) (hunstarted _ (Nat.le_refl _)).1
          (emplace_none_stands (start_stands _ _))⟩
        · exact hunstarted k (Nat.le_of_succ_le hk)
        · refine hchildren k (Nat.lt_of_le_of_ne (Nat.le_of_lt_succ hk) fun heq => ?_)
          exact hne (Fin.ext heq)
      · exact ⟨rfl, leave_stands htallies hunstarted hchildren hi⟩
      · exact ⟨rfl, .whenAllRunning outcome (htallies.of_eq _ _) hunstarted hchildren hremaining⟩
      · by_cases hi : i.val < join.started
        · obtain ⟨hnone, hr⟩ := ih i hi hmove
          exact ⟨rfl, whenAllStep_stands htallies hunstarted (fun k hk _ => hchildren k hk) hremaining
            hi hnone hr⟩
        · rw [(hunstarted i (Nat.le_of_not_lt hi)).2, act_empty] at hmove
          cases hmove
  | @whenAllDone n copying joinRaises senders join children c outcome htallies hstarted hchildren
      hremaining hfinish ih =>
      rcases act_whenAll hact with ⟨hlt, rfl⟩ | ⟨i, hi, rfl⟩ | ⟨-, hne, -, rfl⟩ |
        ⟨i, rest, r', hmove, rfl⟩
      · omega
      · have hpos := htallies.remaining_pos hi
        omega
      · exact absurd hremaining hne
      · obtain ⟨hnone, -⟩ := ih i hmove
        cases hnone
  | scheduleRaises =>
      rcases act_startsOn hact with ⟨rest, r', hmove, rfl⟩ | ⟨rest, r', hmove, rfl⟩
      all_goals
        rw [act_empty] at hmove
        cases hmove
  | scheduling hraises _ ih =>
      rcases act_startsOn hact with ⟨rest, r', hmove, rfl⟩ | ⟨rest, r', hmove, rfl⟩
      · obtain ⟨-, hr⟩ := ih hmove
        exact ⟨rfl, startsOnStep_stands hraises (start_stands _ _) hr⟩
      · rw [act_empty] at hmove
        cases hmove
  | scheduleRefuses _ _ _ ih =>
      rcases act_startsOn hact with ⟨rest, r', hmove, rfl⟩ | ⟨rest, r', hmove, rfl⟩
      · obtain ⟨hnone, -⟩ := ih hmove
        cases hnone
      · rw [act_empty] at hmove
        cases hmove
  | startsOn hraises hschedule _ ih ihchild =>
      rcases act_startsOn hact with ⟨rest, r', hmove, rfl⟩ | ⟨rest, r', hmove, rfl⟩
      · obtain ⟨hnone, -⟩ := ih hmove
        cases hnone
      · obtain ⟨rfl, hr⟩ := ihchild hmove
        exact ⟨rfl, .startsOn hraises hschedule hr⟩
  | sourceRaises =>
      rcases act_onSource hact with ⟨rest, r', hmove, rfl⟩ | ⟨rest, r', hmove, rfl⟩
      all_goals
        rw [act_empty] at hmove
        cases hmove
  | sourceRunning hraises _ ih =>
      rcases act_onSource hact with ⟨rest, r', hmove, rfl⟩ | ⟨rest, r', hmove, rfl⟩
      · obtain ⟨-, hr⟩ := ih hmove
        exact ⟨rfl, sourceStep_stands hraises (start_stands _ _) hr⟩
      · rw [act_empty] at hmove
        cases hmove
  | storeRaises _ _ _ ih =>
      rcases act_onSource hact with ⟨rest, r', hmove, rfl⟩ | ⟨rest, r', hmove, rfl⟩
      · obtain ⟨hnone, -⟩ := ih hmove
        cases hnone
      · rw [act_empty] at hmove
        cases hmove
  | onSource hraises hsource hstore _ ih ihfinal =>
      rcases act_onSource hact with ⟨rest, r', hmove, rfl⟩ | ⟨rest, r', hmove, rfl⟩
      · obtain ⟨hnone, -⟩ := ih hmove
        cases hnone
      · obtain ⟨rfl, hr⟩ := ihfinal hmove
        exact ⟨rfl, finalStep_stands hraises hsource hstore hr⟩
  | repeatFirst =>
      exact ⟨rfl, (act_draining hact).stands fun m hm => absurd hm (Nat.not_lt_zero m)⟩
  | repeatAgain hcontinued => exact ⟨rfl, (act_draining hact).stands hcontinued⟩
  | repeatRunning hcontinued hraises _ ih =>
      obtain ⟨rest, r', hmove, rfl⟩ := act_waiting hact
      obtain ⟨-, hr⟩ := ih hmove
      exact ⟨rfl, repeatStep_stands hcontinued hraises hr⟩
  | repeatStopped =>
      obtain ⟨rest, r', hmove, rfl⟩ := act_waiting hact
      rw [act_empty] at hmove
      cases hmove
  | repeatRaises =>
      obtain ⟨rest, r', hmove, rfl⟩ := act_waiting hact
      rw [act_empty] at hmove
      cases hmove
  | repeatEnds _ _ _ _ ih =>
      obtain ⟨rest, r', hmove, rfl⟩ := act_waiting hact
      obtain ⟨hnone, -⟩ := ih hmove
      cases hnone
  | associate _ ih =>
      obtain ⟨rest, r', hmove, rfl⟩ := act_associate hact
      obtain ⟨rfl, hr⟩ := ih hmove
      exact ⟨rfl, .associate hr⟩
  | rejected =>
      obtain ⟨rest, r', hmove, rfl⟩ := act_associate hact
      rw [act_empty] at hmove
      cases hmove

end Bexec.Expression
