import Bexec.Expression.Meaning

/-! # How an operation stands

An operation of an expression is running, or it has completed and nothing in it
is running. Starting it leads there, and every move inside it leads on.
-/

namespace Bexec.Expression

open Foundation Signatures Adaptors

variable {V : Type}

/-- The number of invocations of a callable by a completion. -/
def invocations (tag : Tag) (o : Option (Completion V)) : ℕ :=
  ((o.bind (select tag)).map fun _ => 1).getD 0

/-- What a sender amounts to that is made and connected in a `try` block: an
exception is sent as an error. -/
def Sender.guarded (raises : Option V) (s : Sender V) : Sender V :=
  match raises.or s.connectRaises with
  | none => s
  | some x => .just (.setError x)

/-- The loop has gone through its first `k` turns. -/
def Continued (loop : Loop V) (child : ℕ → Sender V) (k : ℕ) : Prop :=
  ∀ m, m < k → ∃ args, Attempted (child m) (loop.raises m) (.setValue args) ∧
    loop.copying.values args = none ∧ loop.predicate m = .ok false

/-- The operation `op` of a sender is running, or it has completed with `c`:
`Stands s op none` or `Stands s op (some c)`. An empty storage stands for a
connection that threw. -/
inductive Stands : Sender V → Operation V → Option (Completion V) → Prop
  | raised (x : V) : Stands (.just (.setError x)) .empty (some (.setError x))
  | leafRunning {l : Leaf V} (hleaf : ∃ stop, l.inlineCompletion stop = none) :
      Stands (.leaf l) (.leaf []) none
  | leafDone {l : Leaf V} {c : Completion V}
      (hleaf : ∃ stop, l.inlineCompletion stop = none ∨ l.inlineCompletion stop = some c) :
      Stands (.leaf l) (.leaf [c]) (some c)
  | just (c : Completion V) : Stands (.just c) (.just [c]) (some c)
  | adapt {tag : Tag} {fn : Args V tag → Except V (List V)} {upstream : Sender V}
      {op : Operation V} {o : Option (Completion V)} (hupstream : Stands upstream op o) :
      Stands (.adapt tag fn upstream)
        (.adapt tag fn (invocations tag o) (o.map (adapted tag fn)).toList op)
        (o.map (adapted tag fn))
  | letUpstream {tag : Tag} {raises : Args V tag → Option V} {child : Args V tag → Sender V}
      {upstream : Sender V} {op : Operation V} (hupstream : Stands upstream op none) :
      Stands (.letAdapt tag raises child upstream) (.letAdapt tag raises child 0 [] op .empty) none
  | letForward {tag : Tag} {raises : Args V tag → Option V} {child : Args V tag → Sender V}
      {upstream : Sender V} {op : Operation V} {c : Completion V}
      (hupstream : Stands upstream op (some c)) (hselect : select tag c = none) :
      Stands (.letAdapt tag raises child upstream) (.letAdapt tag raises child 0 [c] op .empty)
        (some c)
  | letChild {tag : Tag} {raises : Args V tag → Option V} {child : Args V tag → Sender V}
      {upstream : Sender V} {op childOp : Operation V} {c : Completion V}
      {o : Option (Completion V)} {args : Args V tag} (hupstream : Stands upstream op (some c))
      (hselect : select tag c = some args)
      (hchild : Stands ((child args).guarded (raises args)) childOp o) :
      Stands (.letAdapt tag raises child upstream)
        (.letAdapt tag raises child 1 o.toList op childOp) o
  | whenAllRunning {n : ℕ} {copying : Copying V} {joinRaises : List V → Option V}
      {senders : Fin (n + 1) → Sender V} {join : Join V (n + 1)}
      {children : Fin (n + 1) → Operation V} (outcome : Fin (n + 1) → Option (Completion V))
      (htallies : join.Tallies copying outcome)
      (hunstarted : ∀ i : Fin (n + 1), join.started ≤ i.val →
        outcome i = none ∧ children i = .empty)
      (hchildren : ∀ i : Fin (n + 1), i.val < join.started →
        Stands ((senders i).guarded none) (children i) (outcome i))
      (hremaining : join.remaining ≠ 0) :
      Stands (.whenAll n copying joinRaises senders)
        (.whenAll n copying joinRaises senders join [] children) none
  | whenAllDone {n : ℕ} {copying : Copying V} {joinRaises : List V → Option V}
      {senders : Fin (n + 1) → Sender V} {join : Join V (n + 1)}
      {children : Fin (n + 1) → Operation V} {c : Completion V}
      (outcome : Fin (n + 1) → Completion V)
      (htallies : join.Tallies copying fun i => some (outcome i))
      (hstarted : n + 1 ≤ join.started)
      (hchildren : ∀ i, Stands ((senders i).guarded none) (children i) (some (outcome i)))
      (hremaining : join.remaining = 0) (hfinish : join.finishOne joinRaises = some c) :
      Stands (.whenAll n copying joinRaises senders)
        (.whenAll n copying joinRaises senders join [c] children) (some c)
  | scheduleRaises {schedule child : Sender V} {x : V}
      (hraises : schedule.connectRaises = some x) :
      Stands (.startsOn schedule child) (.startsOn child [.setError x] .empty .empty)
        (some (.setError x))
  | scheduling {schedule child : Sender V} {op : Operation V}
      (hraises : schedule.connectRaises = none) (hschedule : Stands schedule op none) :
      Stands (.startsOn schedule child) (.startsOn child [] op .empty) none
  | scheduleRefuses {schedule child : Sender V} {op : Operation V} {c : Completion V}
      (hraises : schedule.connectRaises = none) (hschedule : Stands schedule op (some c))
      (htag : c.tag ≠ .setValue) :
      Stands (.startsOn schedule child) (.startsOn child [c] op .empty) (some c)
  | startsOn {schedule child : Sender V} {op childOp : Operation V} {args : List V}
      {o : Option (Completion V)} (hraises : schedule.connectRaises = none)
      (hschedule : Stands schedule op (some (.setValue args)))
      (hchild : Stands (child.guarded none) childOp o) :
      Stands (.startsOn schedule child) (.startsOn child o.toList op childOp) o
  | sourceRaises {copying : Copying V} {final source : Sender V} {x : V}
      (hraises : source.connectRaises = some x) :
      Stands (.onSource copying final source)
        (.onSource copying final none [.setError x] .empty .empty) (some (.setError x))
  | sourceRunning {copying : Copying V} {final source : Sender V} {op : Operation V}
      (hraises : source.connectRaises = none) (hsource : Stands source op none) :
      Stands (.onSource copying final source) (.onSource copying final none [] op .empty) none
  | storeRaises {copying : Copying V} {final source : Sender V} {op : Operation V}
      {c : Completion V} {x : V} (hraises : source.connectRaises = none)
      (hsource : Stands source op (some c)) (hstore : copying.raises c = some x) :
      Stands (.onSource copying final source)
        (.onSource copying final none [.setError x] op .empty) (some (.setError x))
  | onSource {copying : Copying V} {final source : Sender V} {op finalOp : Operation V}
      {c : Completion V} {o : Option (Completion V)} (hraises : source.connectRaises = none)
      (hsource : Stands source op (some c)) (hstore : copying.raises c = none)
      (hfinal : Stands (final.guarded none) finalOp o) :
      Stands (.onSource copying final source)
        (.onSource copying final (some c) (o.bind (finalReceive (some c))).toList op finalOp)
        (o.bind (finalReceive (some c)))
  | repeatFirst {loop : Loop V} {child : ℕ → Sender V} :
      Stands (.repeatUntil loop child) (.repeatUntil loop child 0 true [] .empty) none
  | repeatAgain {loop : Loop V} {child : ℕ → Sender V} {k : ℕ} {op : Operation V}
      {c : Completion V} (hcontinued : Continued loop child (k + 1))
      (hcurrent : Stands (child k) op (some c)) :
      Stands (.repeatUntil loop child) (.repeatUntil loop child (k + 1) true [] op) none
  | repeatRunning {loop : Loop V} {child : ℕ → Sender V} {k : ℕ} {op : Operation V}
      (hcontinued : Continued loop child k)
      (hraises : (loop.raises k).or (child k).connectRaises = none)
      (hcurrent : Stands (child k) op none) :
      Stands (.repeatUntil loop child) (.repeatUntil loop child k false [] op) none
  | repeatStopped {loop : Loop V} {child : ℕ → Sender V} {k : ℕ}
      (hcontinued : Continued loop child k) :
      Stands (.repeatUntil loop child)
        (.repeatUntil loop child k false [.setStopped] .empty) (some .setStopped)
  | repeatRaises {loop : Loop V} {child : ℕ → Sender V} {k : ℕ} {x : V}
      (hcontinued : Continued loop child k) (hneed : loop.needExceptionPtr = true)
      (hraises : (loop.raises k).or (child k).connectRaises = some x) :
      Stands (.repeatUntil loop child)
        (.repeatUntil loop child k false [.setError x] .empty) (some (.setError x))
  | repeatEnds {loop : Loop V} {child : ℕ → Sender V} {k : ℕ} {op : Operation V}
      {c d : Completion V} (hcontinued : Continued loop child k)
      (hraises : (loop.raises k).or (child k).connectRaises = none)
      (hcurrent : Stands (child k) op (some c))
      (hends : processStored loop.copying (loop.predicate k) c = some d) :
      Stands (.repeatUntil loop child) (.repeatUntil loop child k false [d] op) (some d)
  | associate {child : Sender V} {op : Operation V} {o : Option (Completion V)}
      (hchild : Stands child op o) : Stands (.associate true child) (.associate o.toList op) o
  | rejected {child : Sender V} :
      Stands (.associate false child) (.associate [.setStopped] .empty) (some .setStopped)

theorem guarded_eq_self {raises : Option V} {s : Sender V}
    (hraises : raises.or s.connectRaises = none) : s.guarded raises = s := by
  simp [Sender.guarded, hraises]

theorem guarded_eq_just {raises : Option V} {s : Sender V} {x : V}
    (hraises : raises.or s.connectRaises = some x) :
    s.guarded raises = .just (.setError x) := by
  simp [Sender.guarded, hraises]

/-! ## The rules, from what the receivers do -/

section Rules

variable {copying : Copying V} {c d : Completion V} {s : Sender V} {raises : Option V} {x : V}

theorem connectThrows_iff : ConnectThrows s x ↔ s.connectRaises = some x := by
  constructor
  · intro h
    induction h with
    | leaf hleaf => exact hleaf
    | adapt _ ih => exact ih
    | letAdapt _ ih => exact ih
    | associate _ ih => exact ih
  · intro h
    induction s with
    | leaf l => exact .leaf h
    | adapt tag fn upstream ih => exact .adapt (ih h)
    | letAdapt tag raises child upstream _ ih => exact .letAdapt (ih h)
    | associate accepted child ih =>
        cases accepted with
        | true => exact .associate (ih h)
        | false => cases h
    | just | whenAll | startsOn | onSource | repeatUntil => cases h

theorem not_connectThrows (hraises : s.connectRaises = none) (x : V) : ¬ ConnectThrows s x := by
  rw [connectThrows_iff, hraises]
  rintro ⟨⟩

theorem makeThrows_iff : MakeThrows s raises x ↔ raises.or s.connectRaises = some x := by
  constructor
  · intro h
    cases h with
    | makes => rfl
    | connects hconnect => exact connectThrows_iff.mp hconnect
  · intro h
    cases raises with
    | none => exact .connects (connectThrows_iff.mpr h)
    | some y =>
        cases h
        exact .makes

theorem not_makeThrows (hraises : raises.or s.connectRaises = none) (x : V) :
    ¬ MakeThrows s raises x := by
  rw [makeThrows_iff, hraises]
  rintro ⟨⟩

/-- An exception of the `try` block is an error that is sent at once. -/
theorem attempted_of_guarded (h : Completes (s.guarded raises) c) : Attempted s raises c := by
  cases hraises : raises.or s.connectRaises with
  | none =>
      rw [guarded_eq_self hraises] at h
      exact .completes (not_makeThrows hraises) h
  | some x =>
      rw [guarded_eq_just hraises] at h
      cases h
      exact .throws (makeThrows_iff.mpr hraises)

theorem keeps_of_raises (hraises : copying.raises c = none) : Keeps copying c := by
  cases c with
  | setValue args => exact .values hraises
  | setError error => exact .error hraises
  | setStopped => exact .stopped

theorem loses_of_raises {x : V} (hraises : copying.raises c = some x) : Loses copying c x := by
  cases c with
  | setValue args => exact .values hraises
  | setError error => exact .error hraises
  | setStopped => cases hraises

theorem stored_stored : Stored copying c (copying.stored c) := by
  unfold Copying.stored
  cases hraises : copying.raises c with
  | none => exact .kept (keeps_of_raises hraises)
  | some x => exact .lost (loses_of_raises hraises)

/-- A stored value is the value that was sent. -/
theorem stored_eq_setValue {args : List V} (hstored : copying.stored c = .setValue args) :
    c = .setValue args ∧ copying.values args = none := by
  unfold Copying.stored at hstored
  cases hraises : copying.raises c with
  | none =>
      rw [hraises] at hstored
      obtain rfl : c = .setValue args := hstored
      exact ⟨rfl, hraises⟩
  | some x =>
      rw [hraises] at hstored
      cases hstored

/-- The loop goes on after a value that the predicate refuses. -/
theorem processStored_eq_none {answer : Except V Bool}
    (hprocess : processStored copying answer c = none) :
    ∃ args, c = .setValue args ∧ copying.values args = none ∧ answer = .ok false := by
  unfold processStored at hprocess
  split at hprocess
  next args hstored =>
    obtain ⟨hc, hcopy⟩ := stored_eq_setValue hstored
    refine ⟨args, hc, hcopy, ?_⟩
    split at hprocess
    · cases hprocess
    · rfl
    · cases hprocess
  next => cases hprocess

/-- Otherwise it ends: with something else than a value, or as the predicate says. -/
theorem processStored_eq_some {answer : Except V Bool}
    (hprocess : processStored copying answer c = some d) :
    (Stored copying c d ∧ d.tag ≠ .setValue) ∨
      ∃ args, c = .setValue args ∧ copying.values args = none ∧
        (answer = .ok true ∧ d = .setValue args ∨ ∃ x, answer = .error x ∧ d = .setError x) := by
  unfold processStored at hprocess
  split at hprocess
  next args hstored =>
    obtain ⟨hc, hcopy⟩ := stored_eq_setValue hstored
    refine .inr ⟨args, hc, hcopy, ?_⟩
    split at hprocess
    · exact .inl ⟨rfl, (Option.some.inj hprocess).symm⟩
    · cases hprocess
    · next x => exact .inr ⟨x, rfl, (Option.some.inj hprocess).symm⟩
  next hother =>
    obtain rfl := Option.some.inj hprocess
    refine .inl ⟨stored_stored, fun htag => ?_⟩
    cases hstored : copying.stored c with
    | setValue args => exact hother args hstored
    | setError error =>
        rw [hstored] at htag
        cases htag
    | setStopped =>
        rw [hstored] at htag
        cases htag

theorem tag_ne_of_select {tag : Tag} (hselect : select tag c = none) : c.tag ≠ tag := by
  rintro rfl
  cases c <;> cases hselect

theorem completes_adapted {tag : Tag} {fn : Args V tag → Except V (List V)} {upstream : Sender V}
    (hupstream : Completes upstream c) :
    Completes (.adapt tag fn upstream) (adapted tag fn c) := by
  unfold adapted
  cases hselect : select tag c with
  | none => exact .adaptForward hupstream (tag_ne_of_select hselect)
  | some args =>
      rw [eq_completion_of_select hselect] at hupstream
      cases hfn : fn args with
      | ok result =>
          simp only [hfn]
          exact .adaptReturns hupstream hfn
      | error x =>
          simp only [hfn]
          exact .adaptThrows hupstream hfn

/-- What `when_all` delivers: the first failure, or the values of all. -/
theorem completes_joined {n : ℕ} {joinRaises : List V → Option V}
    {children : Fin (n + 1) → Sender V} {outcome : Fin (n + 1) → Completion V}
    {order : List (Fin (n + 1))} (horder : order.Perm (List.finRange (n + 1)))
    (hchildren : ∀ i, Attempted (children i) none (outcome i)) :
    Completes (.whenAll n copying joinRaises children)
      (joined copying joinRaises outcome order) := by
  unfold joined
  cases hfirst : (storedInOrder copying outcome order).find? fails with
  | some failure =>
      obtain ⟨i, -, rfl⟩ := List.mem_map.mp (List.mem_of_find?_eq_some hfirst)
      have hfails := List.find?_some hfirst
      exact .whenAllFails outcome (fun i => copying.stored (outcome i)) hchildren
        (fun _ => stored_stored) i (by simpa [fails] using hfails)
  | none =>
      have hvalue : ∀ i, ∃ args, copying.stored (outcome i) = .setValue args := by
        intro i
        have hmem : copying.stored (outcome i) ∈ storedInOrder copying outcome order :=
          List.mem_map.mpr ⟨i, horder.mem_iff.mpr (List.mem_finRange i), rfl⟩
        have hfine := List.find?_eq_none.mp hfirst _ hmem
        cases hstored : copying.stored (outcome i) with
        | setValue args => exact ⟨args, rfl⟩
        | setError error => simp [hstored, fails, Completion.tag] at hfine
        | setStopped => simp [hstored, fails, Completion.tag] at hfine
      choose values hvalues using hvalue
      have hargs : (List.finRange (n + 1)).flatMap (fun i => (copying.stored (outcome i)).args) =
          (List.finRange (n + 1)).flatMap values := by
        congr 1
        funext i
        rw [hvalues i]
        rfl
      have hsent : ∀ i, Attempted (children i) none (.setValue (values i)) := by
        intro i
        rw [← (stored_eq_setValue (hvalues i)).1]
        exact hchildren i
      have hcopy := fun i => (stored_eq_setValue (hvalues i)).2
      dsimp only
      rw [hargs, Join.deliverSuccess]
      cases hjoin : joinRaises ((List.finRange (n + 1)).flatMap values) with
      | none => exact .whenAllValues values hsent hcopy hjoin
      | some x => exact .whenAllThrows values hsent hcopy hjoin

end Rules

namespace Continued

variable {loop : Loop V} {child : ℕ → Sender V} {k : ℕ}

theorem next (h : Continued loop child k) {c : Completion V}
    (hchild : Attempted (child k) (loop.raises k) c)
    (hagain : processStored loop.copying (loop.predicate k) c = none) :
    Continued loop child (k + 1) := by
  obtain ⟨args, rfl, hcopy, hanswer⟩ := processStored_eq_none hagain
  intro m hm
  rcases Nat.lt_succ_iff_lt_or_eq.mp hm with hlt | rfl
  · exact h m hlt
  · exact ⟨args, hchild, hcopy, hanswer⟩

/-- The values of the turns so far, and one more. -/
theorem exists_values (h : Continued loop child k) (last : List V) :
    ∃ values : ℕ → List V, values k = last ∧
      (∀ m, m < k → Attempted (child m) (loop.raises m) (.setValue (values m))) ∧
        (∀ m, m < k → loop.copying.values (values m) = none) ∧
          ∀ m, m < k → loop.predicate m = .ok false := by
  have hvalues : ∀ m, ∃ args, (m = k → args = last) ∧
      (m < k → Attempted (child m) (loop.raises m) (.setValue args) ∧
        loop.copying.values args = none ∧ loop.predicate m = .ok false) := by
    intro m
    by_cases hm : m < k
    · obtain ⟨args, hargs⟩ := h m hm
      exact ⟨args, fun heq => absurd hm (by omega), fun _ => hargs⟩
    · exact ⟨last, fun _ => rfl, fun hlt => absurd hlt hm⟩
  choose values hlast hvalues using hvalues
  exact ⟨values, hlast k rfl, fun m hm => (hvalues m hm).1, fun m hm => (hvalues m hm).2.1,
    fun m hm => (hvalues m hm).2.2⟩

/-- A turn that ends the loop. -/
theorem completes (h : Continued loop child k)
    (hraises : (loop.raises k).or (child k).connectRaises = none) {c d : Completion V}
    (hchild : Completes (child k) c)
    (hends : processStored loop.copying (loop.predicate k) c = some d) :
    Completes (.repeatUntil loop child) d := by
  rcases processStored_eq_some hends with ⟨hstored, htag⟩ | ⟨args, rfl, hcopy, hanswer⟩
  · obtain ⟨values, -, hvalues, hcopied, hagain⟩ := h.exists_values []
    exact .repeatFails values hvalues hcopied hagain (not_makeThrows hraises) hchild hstored htag
  · obtain ⟨values, rfl, hvalues, hcopied, hagain⟩ := h.exists_values args
    have hlast := Attempted.completes (not_makeThrows hraises) hchild
    have hvalues' : ∀ m, m < k + 1 →
        Attempted (child m) (loop.raises m) (.setValue (values m)) := by
      intro m hm
      rcases Nat.lt_succ_iff_lt_or_eq.mp hm with hlt | rfl
      · exact hvalues m hlt
      · exact hlast
    have hcopied' : ∀ m, m < k + 1 → loop.copying.values (values m) = none := by
      intro m hm
      rcases Nat.lt_succ_iff_lt_or_eq.mp hm with hlt | rfl
      · exact hcopied m hlt
      · exact hcopy
    rcases hanswer with ⟨hanswer, rfl⟩ | ⟨x, hanswer, rfl⟩
    · exact .repeatEnds values hvalues' hcopied' hagain hanswer
    · exact .repeatThrows values hvalues' hcopied' hagain hanswer

end Continued

/-- A completed operation completed by the rules. -/
theorem Stands.completes {s : Sender V} {op : Operation V} {o : Option (Completion V)}
    (h : Stands s op o) {c : Completion V} (ho : o = some c) : Completes s c := by
  induction h generalizing c with
  | raised x =>
      cases ho
      exact .just _
  | leafRunning => cases ho
  | leafDone hleaf =>
      cases ho
      exact .leaf hleaf
  | just =>
      cases ho
      exact .just _
  | adapt _ ih =>
      obtain ⟨d, hd, rfl⟩ := Option.map_eq_some_iff.mp ho
      exact completes_adapted (ih hd)
  | letUpstream => cases ho
  | letForward _ hselect ih =>
      cases ho
      exact .letForward (ih rfl) (tag_ne_of_select hselect)
  | letChild _ hselect _ ih ihchild =>
      have hupstream := ih rfl
      rw [eq_completion_of_select hselect] at hupstream
      exact .letChild hupstream (attempted_of_guarded (ihchild ho))
  | whenAllRunning => cases ho
  | whenAllDone outcome htallies hstarted _ hremaining hfinish ih =>
      cases ho
      have hjoined := hfinish.symm.trans (htallies.finishOne (fun _ => rfl) _)
      cases hjoined
      exact completes_joined (htallies.arrivals_eq fun _ => rfl).2 fun i =>
        attempted_of_guarded (ih i rfl)
  | scheduleRaises hraises =>
      cases ho
      exact .scheduleRefuses (.throws (.connects (connectThrows_iff.mpr hraises)))
        (by simp [Completion.tag])
  | scheduling => cases ho
  | scheduleRefuses hraises _ htag ih =>
      cases ho
      exact .scheduleRefuses (.completes (not_makeThrows hraises) (ih rfl)) htag
  | startsOn hraises _ _ ih ihchild =>
      exact .startsOn (.completes (not_makeThrows hraises) (ih rfl))
        (attempted_of_guarded (ihchild ho))
  | sourceRaises hraises =>
      cases ho
      exact .sourceRaises (connectThrows_iff.mpr hraises)
  | sourceRunning => cases ho
  | storeRaises hraises _ hstore ih =>
      cases ho
      exact .storeRaises (not_connectThrows hraises) (ih rfl) (loses_of_raises hstore)
  | @onSource copying final source op finalOp c' o hraises _ hstore _ ih ihfinal =>
      have hkeeps := keeps_of_raises hstore
      have hconnect := not_connectThrows hraises
      obtain ⟨d, rfl, hd⟩ := Option.bind_eq_some_iff.mp ho
      cases d with
      | setValue args =>
          cases hd
          exact .onSource hconnect (ih rfl) hkeeps (attempted_of_guarded (ihfinal rfl))
      | setError error =>
          cases hd
          exact .finalRefuses hconnect (ih rfl) hkeeps (attempted_of_guarded (ihfinal rfl))
            (by simp [Completion.tag])
      | setStopped =>
          cases hd
          exact .finalRefuses hconnect (ih rfl) hkeeps (attempted_of_guarded (ihfinal rfl))
            (by simp [Completion.tag])
  | repeatFirst => cases ho
  | repeatAgain => cases ho
  | repeatRunning => cases ho
  | repeatStopped hcontinued =>
      cases ho
      obtain ⟨values, -, hvalues, hcopy, hagain⟩ := hcontinued.exists_values []
      exact .repeatStopped values hvalues hcopy hagain
  | repeatRaises hcontinued hneed hraises =>
      cases ho
      obtain ⟨values, -, hvalues, hcopy, hagain⟩ := hcontinued.exists_values []
      exact .repeatRaises values hvalues hcopy hagain hneed (makeThrows_iff.mpr hraises)
  | repeatEnds hcontinued hraises _ hends ih =>
      cases ho
      exact hcontinued.completes hraises (ih rfl) hends
  | associate _ ih => exact .associate (ih ho)
  | rejected =>
      cases ho
      exact .rejected

end Bexec.Expression
