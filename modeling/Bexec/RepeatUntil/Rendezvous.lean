import Bexec.RepeatUntil.Progress

/-!
# The epoch rendezvous

Of the drain loop and the child, the one whose exchange fails processes the
completion, after it was stored and after `start()` returned. The fields that no
lock protects are touched by one participant at a time.
-/

namespace Bexec.RepeatUntil

variable {Thread Value Error Exception : Type}

namespace Frame

/-- The thread is inside `drain()` or `process_stored_completion()`. -/
def inDrain : Frame Value Error Exception → Bool
  | .store _ _ => false
  | .exchange .child _ _ => false
  | _ => true

/-- The next access destroys or replaces what `current_` holds. -/
def resetsCurrent : Frame Value Error Exception → Bool
  | .resetCurrent => true
  | .emplace _ => true
  | _ => false

end Frame

/-- What the participants of an operation may rely on. -/
structure RendezvousContract [DecidableEq Thread] (client : Client Value Error Exception)
    (s : State Thread Value Error Exception) : Prop where
  /-- No moment of an iteration and no completion happens twice. -/
  once : s.log.Nodup
  exclusive : ∀ t u frame other, frame ∈ s.stack t → other ∈ s.stack u →
    frame.inDrain = true → other.inDrain = true → t = u
  /-- When both participants have made their exchange, exactly one has failed. -/
  exchanged : ∀ k who party won won', .moment k (.exchanged who won) ∈ s.log →
    .moment k (.exchanged party won') ∈ s.log → who ≠ party → won' = !won
  /-- The loser processes the completion stored by the child, never earlier than
  the return of `start()`. -/
  processing : ∀ t who k, .process who k ∈ s.stack t →
    .moment k (.exchanged who false) ∈ s.log ∧ .moment k .stored ∈ s.log ∧
      .moment k .startReturned ∈ s.log ∧ s.stored = some (client.child k).store
  processed : ∀ k who, .moment k (.processed who) ∈ s.log →
    .moment k (.exchanged who false) ∈ s.log ∧ .moment k .stored ∈ s.log ∧
      .moment k .startReturned ∈ s.log
  attended : ∀ k who, .moment k (.exchanged who false) ∈ s.log →
    .moment k (.processed who) ∈ s.log ∨ ∃ t, .process who k ∈ s.stack t
  /-- The predicate is called for a processed value and for nothing else. -/
  predicate : ∀ k, .moment k .predicateCalled ∈ s.log →
    (∃ who, .moment k (.processed who) ∈ s.log) ∧
      ∃ values, (client.child k).store = .value values
  asked : ∀ k who values, .moment k (.processed who) ∈ s.log →
    (client.child k).store = .value values →
      .moment k .predicateCalled ∈ s.log ∨ ∃ t, .callPredicate k ∈ s.stack t
  /-- A child is destroyed after its `start()` returned and its completion was
  stored. -/
  current : ∀ t frame, frame ∈ s.stack t → frame.resetsCurrent = true →
    ∀ k, s.current = some k → .moment k .startReturned ∈ s.log ∧ .moment k .stored ∈ s.log ∧
      ∀ u childEpoch, .childStart k childEpoch ∉ s.stack u
  held : ∀ k childEpoch, s.children k = .running childEpoch → s.current = some k
  /-- A child stores its completion where every earlier one was processed. -/
  storing : ∀ t k childEpoch, .store k childEpoch ∈ s.stack t →
    s.stored = none ∧ ∀ j < k, ∃ who, .moment j (.processed who) ∈ s.log
  terminal : ∀ completion other, .completed completion ∈ s.log → .completed other ∈ s.log →
    completion = other
  /-- After the terminal signal no participant has a step left. -/
  silent : ∀ completion, .completed completion ∈ s.log →
    (∀ t, s.stack t = []) ∧ ∀ a, (machine Thread client).step s a = none

section Stacks

variable [DecidableEq Thread] {client : Client Value Error Exception} {n : Nat}
  {stage : Stage Thread Exception} {log : List (Event Value Error Exception)} {t : Thread}
  {frame : Frame Value Error Exception}

theorem mem_alone {u : Thread} {other : Frame Value Error Exception} :
    frame ∈ alone u other t ↔ t = u ∧ frame = other := by
  unfold alone
  split
  next heq => simp [heq]
  next hne => simp [hne]

/-- The thread that holds the unsynchronised fields. -/
def Stage.drainer : Stage Thread Exception → Option Thread
  | .opening t _ => some t
  | .rendezvous (.starting t) _ => some t
  | .rendezvous (.exchanging t) _ => some t
  | .closing t _ _ => some t
  | _ => none

/-- Where a frame stands, and at which stage. -/
theorem Stage.frame_cases (hframe : frame ∈ (stage.state client n log).stack t) :
    (∃ place, stage = .opening t place ∧ frame = place.frame n) ∨
    (∃ who place, stage = .closing t who place ∧ frame = place.frame n who) ∨
    (∃ child, stage = .rendezvous (.starting t) child ∧ frame = .childStart n (epochOf n)) ∨
    (∃ child, stage = .rendezvous (.exchanging t) child ∧
      frame = .exchange .drain n (epochOf n)) ∨
    (∃ drain, stage = .rendezvous drain (.storing t) ∧ frame = .store n (epochOf n)) ∨
    ∃ drain, stage = .rendezvous drain (.exchanging t) ∧
      frame = .exchange .child n (epochOf n) := by
  cases stage with
  | idle | finished | terminated => cases hframe
  | opening u place =>
      obtain ⟨rfl, rfl⟩ := mem_alone.mp hframe
      simp
  | closing u who place =>
      obtain ⟨rfl, rfl⟩ := mem_alone.mp hframe
      simp
  | rendezvous drain child =>
      rcases List.mem_append.mp hframe with hframe | hframe
      · cases child with
        | running | left => cases hframe
        | storing u | exchanging u =>
            obtain ⟨rfl, rfl⟩ := mem_alone.mp hframe
            simp
      · cases drain with
        | left => cases hframe
        | starting u | exchanging u =>
            obtain ⟨rfl, rfl⟩ := mem_alone.mp hframe
            simp

theorem Stage.drainer_of_frame (hframe : frame ∈ (stage.state client n log).stack t)
    (hdrain : frame.inDrain = true) : stage.drainer = some t := by
  rcases frame_cases hframe with ⟨_, rfl, -⟩ | ⟨_, _, rfl, -⟩ | ⟨_, rfl, -⟩ | ⟨_, rfl, -⟩ |
    ⟨_, rfl, rfl⟩ | ⟨_, rfl, rfl⟩
  · rfl
  · rfl
  · rfl
  · rfl
  · cases hdrain
  · cases hdrain

theorem Stage.of_process {who : Participant} {k : Nat}
    (hframe : .process who k ∈ (stage.state client n log).stack t) :
    k = n ∧ stage = .closing t who .process := by
  rcases frame_cases hframe with ⟨place, rfl, hplace⟩ | ⟨_, place, rfl, hplace⟩ | ⟨_, -, hplace⟩ |
    ⟨_, -, hplace⟩ | ⟨_, -, hplace⟩ | ⟨_, -, hplace⟩
  · cases place <;> cases hplace
  · cases place <;> cases hplace
    exact ⟨rfl, rfl⟩
  all_goals cases hplace

theorem Stage.of_store {k : Nat} {childEpoch : Epoch}
    (hframe : .store k childEpoch ∈ (stage.state client n log).stack t) :
    k = n ∧ ∃ drain, stage = .rendezvous drain (.storing t) := by
  rcases frame_cases hframe with ⟨place, rfl, hplace⟩ | ⟨_, place, rfl, hplace⟩ | ⟨_, -, hplace⟩ |
    ⟨_, -, hplace⟩ | ⟨drain, rfl, hplace⟩ | ⟨_, -, hplace⟩
  · cases place <;> cases hplace
  · cases place <;> cases hplace
  · cases hplace
  · cases hplace
  · cases hplace
    exact ⟨rfl, drain, rfl⟩
  · cases hplace

theorem Stage.of_childStart {k : Nat} {childEpoch : Epoch}
    (hframe : .childStart k childEpoch ∈ (stage.state client n log).stack t) :
    ∃ child, stage = .rendezvous (.starting t) child := by
  rcases frame_cases hframe with ⟨place, rfl, hplace⟩ | ⟨_, place, rfl, hplace⟩ |
    ⟨child, rfl, -⟩ | ⟨_, -, hplace⟩ | ⟨_, -, hplace⟩ | ⟨_, -, hplace⟩
  · cases place <;> cases hplace
  · cases place <;> cases hplace
  · exact ⟨child, rfl⟩
  all_goals cases hplace

theorem Stage.of_resetsCurrent (hframe : frame ∈ (stage.state client n log).stack t)
    (hresets : frame.resetsCurrent = true) :
    stage = .opening t .resetCurrent ∨ stage = .opening t .emplace := by
  rcases frame_cases hframe with ⟨place, rfl, rfl⟩ | ⟨_, place, rfl, rfl⟩ | ⟨_, -, rfl⟩ |
    ⟨_, -, rfl⟩ | ⟨_, -, rfl⟩ | ⟨_, -, rfl⟩
  · cases place <;> simp [Opening.frame, Frame.resetsCurrent] at hresets ⊢
  · cases place <;> cases hresets
  all_goals cases hresets

end Stacks

variable {client : Client Value Error Exception} {n : Nat} {stage : Stage Thread Exception}
  {log : List (Event Value Error Exception)}

/-- What the moments of one iteration say about each other, whichever of them
have happened. -/
structure Coherent (client : Client Value Error Exception) (k : Nat) (seen : Moment → Prop) :
    Prop where
  exchanged : ∀ who party won won', seen (.exchanged who won) → seen (.exchanged party won') →
    who ≠ party → won' = !won
  processed : ∀ who, seen (.processed who) →
    seen (.exchanged who false) ∧ seen .stored ∧ seen .startReturned
  predicate : seen .predicateCalled →
    (∃ who, seen (.processed who)) ∧ ∃ values, (client.child k).store = .value values

/-- Of two different participants, one is the given one exactly if the other is not. -/
theorem decide_ne_not {who party loser : Participant} (hne : who ≠ party) :
    decide (party ≠ loser) = !decide (who ≠ loser) := by
  cases who <;> cases party <;> cases loser <;> simp_all

theorem Settled.coherent {k : Nat} (who : Participant)
    (hvalue : ∃ values, (client.child k).store = .value values) :
    Coherent client k (Settled who) where
  exchanged := by
    rintro party other won won' rfl rfl hne
    exact decide_ne_not hne
  processed party hparty := by
    cases hparty
    exact ⟨by simp [Settled], trivial, trivial⟩
  predicate _ := ⟨⟨who, rfl⟩, hvalue⟩

theorem Closing.coherent {who : Participant} {place : Closing Exception} {k : Nat}
    (hvalue : place.asked client k → place ≠ .process ∧
      ∃ values, (client.child k).store = .value values) :
    Coherent client k (place.seen client k who) where
  exchanged := by
    rintro party other won won' rfl rfl hne
    exact decide_ne_not hne
  processed := by
    rintro party ⟨rfl, -⟩
    exact ⟨by simp [seen], trivial, trivial⟩
  predicate hasked := ⟨⟨who, rfl, (hvalue hasked).1⟩, (hvalue hasked).2⟩

theorem Stage.coherent (hfits : stage.Fits client n) :
    Coherent client n (stage.seen client n) := by
  cases stage with
  | idle | opening | terminated => exact ⟨(by rintro _ _ _ _ ⟨⟩), (by rintro _ ⟨⟩), (by rintro ⟨⟩)⟩
  | rendezvous drain child =>
      refine ⟨?_, (by rintro _ ⟨⟩), (by rintro ⟨⟩)⟩
      rintro (_ | _) (_ | _) won won' hseen hseen' hne
      · exact absurd rfl hne
      · exact absurd ⟨hseen.2, hseen'.2⟩ hfits.2
      · exact absurd ⟨hseen'.2, hseen.2⟩ hfits.2
      · exact absurd rfl hne
  | closing t who place =>
      refine Closing.coherent fun hasked => ?_
      cases place with
      | process | callPredicate => cases hasked
      | completeStored => exact ⟨(by simp), hasked⟩
      | resetStored => exact ⟨(by simp), hfits.2⟩
      | threw => exact ⟨(by simp), client.value_of_asked hfits rfl⟩
  | finished ending =>
      cases ending with
      | stopped | failed => exact ⟨(by rintro _ _ _ _ ⟨⟩), (by rintro _ ⟨⟩), (by rintro ⟨⟩)⟩
      | stored who => exact Closing.coherent fun hasked => ⟨(by simp), hasked⟩
      | threw who pointer => exact Closing.coherent fun _ => ⟨(by simp), client.value_of_asked hfits rfl⟩

/-- The recorded moments of any iteration are coherent. -/
theorem History.coherent (h : History client n stage log) (hsound : stage.Sound client n)
    (k : Nat) : Coherent client k fun m => .moment k m ∈ log := by
  rcases Nat.lt_trichotomy k n with hlt | rfl | hgt
  · obtain ⟨who, hwho⟩ := h.past k hlt
    simp only [hwho]
    exact Settled.coherent who (hsound.again k hlt).2
  · simp only [h.present]
    exact Stage.coherent hsound.fits
  · exact ⟨fun _ _ _ _ hmem => absurd hmem (h.future k hgt _),
      fun _ hmem => absurd hmem (h.future k hgt _), fun hmem => absurd hmem (h.future k hgt _)⟩

/-- After a failed exchange in the current iteration its loser closes the
iteration or has closed it. -/
theorem Stage.seen_lost {who : Participant} (hseen : stage.seen client n (.exchanged who false)) :
    (∃ t place, stage = .closing t who place) ∨
      ∃ ending, stage = .finished ending ∧ ending.closedBy = some who := by
  cases stage with
  | idle | opening | terminated => cases hseen
  | rendezvous drain child => cases who <;> cases hseen.1
  | closing t party place =>
      have hparty : who = party := by simpa [seen, Closing.seen] using hseen
      subst hparty
      exact Or.inl ⟨t, place, rfl⟩
  | finished ending =>
      refine Or.inr ⟨ending, rfl, ?_⟩
      cases ending with
      | stopped | failed => cases hseen
      | stored party | threw party =>
          have hparty : who = party := by simpa [seen, Closing.seen] using hseen
          simp [hparty]

/-- An iteration that has ended or whose loser has read the completion. -/
theorem History.processed_of_lost (h : History client n stage log) {k : Nat} {who : Participant}
    (hlost : .moment k (.exchanged who false) ∈ log) :
    .moment k (.processed who) ∈ log ∨ k = n ∧ ∃ t, stage = .closing t who .process := by
  rcases Nat.lt_trichotomy k n with hlt | rfl | hgt
  · obtain ⟨loser, hloser⟩ := h.past k hlt
    have heq : who = loser := by simpa [Settled] using (hloser _).mp hlost
    subst heq
    exact Or.inl ((hloser _).mpr rfl)
  · rcases Stage.seen_lost ((h.present _).mp hlost) with ⟨t, place, rfl⟩ | ⟨ending, rfl, hclosed⟩
    · cases place with
      | process => exact Or.inr ⟨rfl, t, rfl⟩
      | _ => exact Or.inl ((h.present _).mpr ⟨rfl, (by simp)⟩)
    · cases ending with
      | stopped | failed => cases hclosed
      | stored | threw =>
          cases hclosed
          exact Or.inl ((h.present _).mpr ⟨rfl, (by simp)⟩)
  · exact absurd hlost (h.future k hgt _)

/-- A processed value has been put to the predicate or is about to be. -/
theorem History.asked_of_processed (h : History client n stage log)
    (hsound : stage.Sound client n) {k : Nat} {who : Participant} {values : Value}
    (hprocessed : .moment k (.processed who) ∈ log)
    (hstore : (client.child k).store = .value values) :
    .moment k .predicateCalled ∈ log ∨ k = n ∧ ∃ t, stage = .closing t who .callPredicate := by
  rcases Nat.lt_trichotomy k n with hlt | rfl | hgt
  · obtain ⟨loser, hloser⟩ := h.past k hlt
    exact Or.inl ((hloser _).mpr trivial)
  · have hseen := (h.present _).mp hprocessed
    cases stage with
    | idle | opening | rendezvous | terminated => cases hseen
    | closing t party place =>
        obtain ⟨rfl, hplace⟩ := hseen
        cases place with
        | process => exact absurd rfl hplace
        | callPredicate => exact Or.inr ⟨rfl, t, rfl⟩
        | resetStored | threw => exact Or.inl ((h.present _).mpr trivial)
        | completeStored => exact Or.inl ((h.present _).mpr ⟨values, hstore⟩)
    | finished ending =>
        cases ending with
        | stopped | failed => cases hseen
        | stored => exact Or.inl ((h.present _).mpr ⟨values, hstore⟩)
        | threw => exact Or.inl ((h.present _).mpr trivial)
  · exact absurd hprocessed (h.future k hgt _)

theorem History.finished (h : History client n stage log)
    {completion : Completion Value Error Exception} (hmem : .completed completion ∈ log) :
    ∃ ending, stage = .finished ending ∧ completion = (ending.outcome client n).completion := by
  have hcompletion := (h.completed completion).mp hmem
  cases stage with
  | finished ending => exact ⟨ending, rfl, (Option.some.inj hcompletion).symm⟩
  | _ => cases hcompletion

variable [DecidableEq Thread]

/-- Nothing can happen to a finished operation. -/
theorem Stage.finished_silent {ending : Ending Exception}
    (hfits : (Stage.finished ending : Stage Thread Exception).Fits client n) (a : Action Thread) :
    (machine Thread client).step (Stage.state client n log (.finished ending)) a = none := by
  cases hstep : (machine Thread client).step (Stage.state client n log (.finished ending)) a with
  | none => rfl
  | some s' =>
      obtain ⟨_, _, _, hmoves, -⟩ := step_moves hfits hstep
      cases hmoves

/-- The epoch rendezvous keeps its contract for every client, any number of
iterations and any interleaving. -/
theorem rendezvous_contract {s : State Thread Value Error Exception}
    (hs : (machine Thread client).Reachable s) : RendezvousContract client s := by
  obtain ⟨n, stage, hstate, hsound, hhistory⟩ := at_of_reachable hs
  generalize s.log = log at hstate hhistory
  subst hstate
  have hcoherent := hhistory.coherent hsound
  constructor
  all_goals try simp only [Stage.state_log]
  case once => exact hhistory.nodup
  case exclusive =>
    intro t u frame other hframe hother hdrain hdrain'
    have ht := Stage.drainer_of_frame hframe hdrain
    have hu := Stage.drainer_of_frame hother hdrain'
    exact Option.some.inj (ht.symm.trans hu)
  case exchanged => exact fun k => (hcoherent k).exchanged
  case processing =>
    intro t who k hframe
    obtain ⟨rfl, rfl⟩ := Stage.of_process hframe
    simp only [hhistory.present]
    exact ⟨by simp [Stage.seen, Closing.seen], trivial, trivial, rfl⟩
  case processed => exact fun k => (hcoherent k).processed
  case attended =>
    intro k who hlost
    rcases hhistory.processed_of_lost hlost with hprocessed | ⟨rfl, t, rfl⟩
    · exact Or.inl hprocessed
    · exact Or.inr ⟨t, by simp [Stage.state]⟩
  case predicate => exact fun k => (hcoherent k).predicate
  case asked =>
    intro k who values hprocessed hstore
    rcases hhistory.asked_of_processed hsound hprocessed hstore with hasked | ⟨rfl, t, rfl⟩
    · exact Or.inl hasked
    · exact Or.inr ⟨t, by simp [Stage.state]⟩
  case current =>
    intro t frame hframe hresets k hcurrent
    rcases Stage.of_resetsCurrent hframe hresets with rfl | rfl
    · obtain ⟨hpos, hprevious⟩ := Option.ite_none_left_eq_some.mp hcurrent
      have hlt : k < n := by
        have heq := Option.some.inj hprevious
        omega
      obtain ⟨who, hwho⟩ := hhistory.past k hlt
      refine ⟨(hwho _).mpr trivial, (hwho _).mpr trivial, fun u childEpoch hstart => ?_⟩
      obtain ⟨_, hrendezvous⟩ := Stage.of_childStart hstart
      cases hrendezvous
    · cases hcurrent
  case held =>
    intro k childEpoch hrunning
    cases stage with
    | idle => cases hrunning
    | rendezvous drain child =>
        obtain ⟨rfl, -⟩ := childrenAt_running hrunning
        rfl
    | opening t place =>
        obtain ⟨-, hplace⟩ := childrenAt_running hrunning
        cases place <;> cases hplace
    | closing | terminated =>
        obtain ⟨-, hchild⟩ := childrenAt_running hrunning
        cases hchild
    | finished ending =>
        obtain ⟨-, hchild⟩ := childrenAt_running hrunning
        split at hchild <;> cases hchild
  case storing =>
    intro t k childEpoch hframe
    obtain ⟨rfl, drain, rfl⟩ := Stage.of_store hframe
    refine ⟨rfl, fun j hj => ?_⟩
    obtain ⟨who, hwho⟩ := hhistory.past j hj
    exact ⟨who, (hwho _).mpr rfl⟩
  case terminal =>
    intro completion other hmem hmem'
    obtain ⟨ending, rfl, rfl⟩ := hhistory.finished hmem
    obtain ⟨_, hending, rfl⟩ := hhistory.finished hmem'
    cases hending
    rfl
  case silent =>
    intro completion hmem
    obtain ⟨ending, rfl, -⟩ := hhistory.finished hmem
    exact ⟨fun _ => rfl, Stage.finished_silent hsound.fits⟩

/-- Numbered children that all send their number; the second one is enough. -/
def twoChildren : Client Nat Unit Unit where
  stopRequested _ := false
  factory _ := none
  connect _ := none
  predicate n := .ok (n = 1)
  child n := .setValue n none
  errorsNothrow := true
  valuesNothrow := true
  predicateNothrow := true
  factoryNothrow := true
  errors_nothrow := by simp
  values_nothrow := by simp
  predicate_nothrow := by simp
  factory_nothrow := by simp

/-- The first child completes inside its `start()`, the second on another thread
after the drain loop has left. -/
def twoChildrenRun : List (Action Foundation.Pair) :=
  List.flatten
    [[.start .first], List.replicate 5 (.run .first),
      [.completeChild .first 0, .run .first, .run .first, .returnStart .first],
      List.replicate 9 (.run .first), [.returnStart .first, .run .first, .completeChild .second 1],
      List.replicate 5 (.run .second)]

theorem rendezvous_contract_twoChildrenRun :
    ∃ s : State Foundation.Pair Nat Unit Unit, RendezvousContract twoChildren s ∧
      .moment 0 (.processed .drain) ∈ s.log ∧ .moment 1 (.processed .child) ∈ s.log ∧
      .completed (.value 1) ∈ s.log := by
  refine ⟨_, rendezvous_contract
    (Foundation.Machine.reachable_replay rfl twoChildrenRun (by decide)), ?_⟩
  decide

end Bexec.RepeatUntil
