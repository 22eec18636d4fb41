import Bexec.Expression.Stands

/-! # Starting an operation

One lemma for each receiver: what its operation does with the move of a child.
Together they say how every started operation stands.
-/

namespace Bexec.Expression

open Foundation Signatures Adaptors

variable {V : Type}

theorem emplace_stands {raises : Option V} {s : Sender V} {started : Effect V}
    (hstarted : Stands s started.1 started.2) :
    Stands (s.guarded raises) (emplace (raises.or s.connectRaises) started).1
      (emplace (raises.or s.connectRaises) started).2 := by
  cases hraises : raises.or s.connectRaises with
  | none =>
      rw [guarded_eq_self hraises]
      exact hstarted
  | some x =>
      rw [guarded_eq_just hraises]
      exact .raised x

theorem emplace_none_stands {s : Sender V} {started : Effect V}
    (hstarted : Stands s started.1 started.2) :
    Stands (s.guarded none) (emplace s.connectRaises started).1
      (emplace s.connectRaises started).2 := by
  have h : Stands (s.guarded none) (emplace ((none : Option V).or s.connectRaises) started).1
      (emplace ((none : Option V).or s.connectRaises) started).2 := emplace_stands hstarted
  rwa [Option.none_or] at h

section Receivers

variable {r : Effect V}

theorem adaptStep_stands {tag : Tag} {fn : Args V tag → Except V (List V)} {upstream : Sender V}
    (hr : Stands upstream r.1 r.2) :
    Stands (.adapt tag fn upstream) (Operation.adaptStep tag fn 0 [] r).1
      (Operation.adaptStep tag fn 0 [] r).2 := by
  simp only [Operation.adaptStep, Nat.zero_add, List.nil_append]
  exact .adapt hr

theorem letStep_stands {tag : Tag} {raises : Args V tag → Option V} {child : Args V tag → Sender V}
    {upstream : Sender V} {started : Args V tag → Effect V}
    (hstarted : ∀ args, Stands (child args) (started args).1 (started args).2)
    (hr : Stands upstream r.1 r.2) :
    Stands (.letAdapt tag raises child upstream)
      (Operation.letStep tag raises child started 0 [] .empty r).1
      (Operation.letStep tag raises child started 0 [] .empty r).2 := by
  obtain ⟨op, o⟩ := r
  cases o with
  | none => exact .letUpstream hr
  | some c =>
      simp only [Operation.letStep, Nat.zero_add, List.nil_append, letReceive]
      cases hselect : select tag c with
      | none => exact .letForward hr hselect
      | some args => exact .letChild hr hselect (emplace_stands (hstarted args))

theorem startsOnStep_stands {schedule child : Sender V} {started : Effect V}
    (hraises : schedule.connectRaises = none) (hstarted : Stands child started.1 started.2)
    (hr : Stands schedule r.1 r.2) :
    Stands (.startsOn schedule child) (Operation.startsOnStep child started [] .empty r).1
      (Operation.startsOnStep child started [] .empty r).2 := by
  obtain ⟨op, o⟩ := r
  cases o with
  | none => exact .scheduling hraises hr
  | some c =>
      simp only [Operation.startsOnStep, List.nil_append, scheduleReceive]
      cases c with
      | setValue args => exact .startsOn hraises hr (emplace_none_stands hstarted)
      | setError error => exact .scheduleRefuses hraises hr (by simp [Completion.tag])
      | setStopped => exact .scheduleRefuses hraises hr (by simp [Completion.tag])

theorem sourceStep_stands {copying : Copying V} {final source : Sender V} {started : Effect V}
    (hraises : source.connectRaises = none) (hstarted : Stands final started.1 started.2)
    (hr : Stands source r.1 r.2) :
    Stands (.onSource copying final source)
      (Operation.sourceStep copying final started none [] .empty r).1
      (Operation.sourceStep copying final started none [] .empty r).2 := by
  obtain ⟨op, o⟩ := r
  cases o with
  | none => exact .sourceRunning hraises hr
  | some c =>
      simp only [Operation.sourceStep, List.nil_append, sourceReceive]
      cases hstore : copying.raises c with
      | some x => exact .storeRaises hraises hr hstore
      | none =>
          exact .onSource hraises hr hstore (emplace_none_stands hstarted)

theorem finalStep_stands {copying : Copying V} {final source : Sender V} {op : Operation V}
    {c : Completion V} (hraises : source.connectRaises = none)
    (hsource : Stands source op (some c)) (hstore : copying.raises c = none)
    (hr : Stands (final.guarded none) r.1 r.2) :
    Stands (.onSource copying final source)
      (Operation.finalStep copying final (some c) [] op r).1
      (Operation.finalStep copying final (some c) [] op r).2 :=
  .onSource hraises hsource hstore hr

theorem repeatStep_stands {loop : Loop V} {child : ℕ → Sender V} {k : ℕ}
    (hcontinued : Continued loop child k)
    (hraises : (loop.raises k).or (child k).connectRaises = none) (hr : Stands (child k) r.1 r.2) :
    Stands (.repeatUntil loop child) (Operation.repeatStep loop child k [] r).1
      (Operation.repeatStep loop child k [] r).2 := by
  obtain ⟨op, o⟩ := r
  cases o with
  | none => exact .repeatRunning hcontinued hraises hr
  | some c =>
      simp only [Operation.repeatStep]
      cases hprocess : processStored loop.copying (loop.predicate k) c with
      | none =>
          have hchild := Attempted.completes (not_makeThrows hraises) (hr.completes rfl)
          exact .repeatAgain (hcontinued.next hchild hprocess) hr
      | some d => exact .repeatEnds hcontinued hraises hr hprocess

/-- The state of `when_all` after the move of a child that has started. -/
theorem whenAllStep_stands {n : ℕ} {copying : Copying V} {joinRaises : List V → Option V}
    {senders : Fin (n + 1) → Sender V} {join : Join V (n + 1)}
    {children : Fin (n + 1) → Operation V} {outcome : Fin (n + 1) → Option (Completion V)}
    {i : Fin (n + 1)} (htallies : join.Tallies copying outcome)
    (hunstarted : ∀ k : Fin (n + 1), join.started ≤ k.val → outcome k = none ∧ children k = .empty)
    (hchildren : ∀ k : Fin (n + 1), k.val < join.started → k ≠ i →
      Stands ((senders k).guarded none) (children k) (outcome k))
    (hremaining : join.remaining ≠ 0) (hstarted : i.val < join.started) (hi : outcome i = none)
    (hr : Stands ((senders i).guarded none) r.1 r.2) :
    Stands (.whenAll n copying joinRaises senders)
      (Operation.whenAllStep copying joinRaises senders join [] children i r).1
      (Operation.whenAllStep copying joinRaises senders join [] children i r).2 := by
  obtain ⟨op, o⟩ := r
  simp only [Operation.whenAllStep]
  have hne : ∀ k : Fin (n + 1), join.started ≤ k.val → k ≠ i := by
    rintro k hk rfl
    omega
  cases o with
  | none =>
      refine .whenAllRunning outcome htallies (fun k hk => ?_) (fun k hk => ?_) hremaining
      · rw [Function.update_of_ne (hne k hk)]
        exact hunstarted k hk
      · by_cases heq : k = i
        · subst heq
          rw [Function.update_self, hi]
          exact hr
        · rw [Function.update_of_ne heq]
          exact hchildren k hk heq
  | some c =>
      have hcounts := Join.store_counts (j := join) i (copying.stored c)
      refine .whenAllRunning (Function.update outcome i (some c)) (htallies.arrive hi c)
        (fun k hk => ?_) (fun k hk => ?_) ?_
      · have hk' : join.started ≤ k.val := by
          rw [← hcounts.2]
          exact hk
        rw [Function.update_of_ne (hne k hk'), Function.update_of_ne (hne k hk')]
        exact hunstarted k hk'
      · have hk' : k.val < join.started := by
          rw [← hcounts.2]
          exact hk
        by_cases heq : k = i
        · subst heq
          rw [Function.update_self, Function.update_self]
          exact hr
        · rw [Function.update_of_ne heq, Function.update_of_ne heq]
          exact hchildren k hk' heq
      · exact hcounts.1.trans_ne hremaining

end Receivers

/-- Every operation stands once it is started. -/
theorem start_stands (stop : Bool) (s : Sender V) : Stands s (start stop s).1 (start stop s).2 := by
  induction s generalizing stop with
  | leaf l =>
      simp only [start]
      cases hinline : l.inlineCompletion stop with
      | none => exact .leafRunning ⟨stop, hinline⟩
      | some c => exact .leafDone ⟨stop, .inr hinline⟩
  | just c => exact .just c
  | adapt tag fn upstream ih => exact adaptStep_stands (ih stop)
  | letAdapt tag raises child upstream ihchild ih =>
      exact letStep_stands (fun args => ihchild args stop) (ih stop)
  | whenAll n copying joinRaises children ih =>
      exact .whenAllRunning (fun _ => none) (Join.initial_tallies copying stop)
        (fun i _ => ⟨rfl, rfl⟩) (fun i hi => absurd hi (Nat.not_lt_zero _)) (Nat.succ_ne_zero n)
  | startsOn schedule child ih ihchild =>
      simp only [start]
      cases hraises : schedule.connectRaises with
      | none => exact startsOnStep_stands hraises (ihchild stop) (ih stop)
      | some x => exact .scheduleRaises hraises
  | onSource copying final source ihfinal ih =>
      simp only [start]
      cases hraises : source.connectRaises with
      | none => exact sourceStep_stands hraises (ihfinal stop) (ih stop)
      | some x => exact .sourceRaises hraises
  | repeatUntil loop child ih => exact .repeatFirst
  | associate accepted child ih =>
      cases accepted with
      | true => exact .associate (ih stop)
      | false => exact .rejected

/-! ## One turn of the loop -/

section Drain

variable {stop : Bool} {loop : Loop V} {child : ℕ → Sender V} {k : ℕ} {sent : List (Completion V)}
  {r : Effect V}

/-- What a turn of `drain` does that does not terminate the process. -/
inductive Turn (stop : Bool) (loop : Loop V) (child : ℕ → Sender V) (k : ℕ)
    (sent : List (Completion V)) : Effect V → Prop
  | stopped (hstop : stop = true) :
      Turn stop loop child k sent
        (.repeatUntil loop child k false (sent ++ [.setStopped]) .empty, some .setStopped)
  | starts (hraises : (loop.raises k).or (child k).connectRaises = none) :
      Turn stop loop child k sent (Operation.repeatStep loop child k sent (start stop (child k)))
  | throws {x : V} (hneed : loop.needExceptionPtr = true)
      (hraises : (loop.raises k).or (child k).connectRaises = some x) :
      Turn stop loop child k sent
        (.repeatUntil loop child k false (sent ++ [.setError x]) .empty, some (.setError x))

theorem drain_turn (hdrain : drain stop loop child k sent = some r) :
    Turn stop loop child k sent r := by
  unfold drain at hdrain
  split at hdrain
  next hstop =>
    obtain rfl := Option.some.inj hdrain
    exact .stopped hstop
  next =>
    split at hdrain
    next hraises =>
      obtain rfl := Option.some.inj hdrain
      exact .starts hraises
    next x hraises =>
      split at hdrain
      next hneed =>
        obtain rfl := Option.some.inj hdrain
        exact .throws hneed hraises
      next => cases hdrain

/-- The process is terminated by an exception that cannot be sent. -/
theorem drain_eq_none (hdrain : drain stop loop child k sent = none) :
    loop.needExceptionPtr = false ∧ ∃ x, (loop.raises k).or (child k).connectRaises = some x := by
  unfold drain at hdrain
  split at hdrain
  next => cases hdrain
  next =>
    split at hdrain
    next => cases hdrain
    next x hraises =>
      split at hdrain
      next => cases hdrain
      next hneed => exact ⟨Bool.eq_false_iff.mpr hneed, x, hraises⟩

theorem Turn.stands (h : Turn stop loop child k [] r) (hcontinued : Continued loop child k) :
    Stands (.repeatUntil loop child) r.1 r.2 := by
  cases h with
  | stopped => exact .repeatStopped hcontinued
  | starts hraises => exact repeatStep_stands hcontinued hraises (start_stands stop (child k))
  | throws hneed hraises => exact .repeatRaises hcontinued hneed hraises

end Drain

end Bexec.Expression
