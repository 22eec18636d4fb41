import Bexec.CountingScope.Accounting

/-!
# Where a started join is

Every started join is in exactly one place until it completes: in its own
`start`, on the list behind `joiners_`, or on the list the drain walks. The
packed word decides whether a drain is still to come.
-/

namespace Bexec.CountingScope

open Foundation

variable {Thread Handle Join : Type}

namespace Frame

/-- The join operation is inside its own `start`. -/
def joining [DecidableEq Join] (j : Join) : Frame Handle Join → Bool
  | .startJoin waiter _ => waiter = j
  | .registerJoiner waiter _ => waiter = j
  | _ => false

def registering : Frame Handle Join → Bool
  | .registerJoiner _ _ => true
  | _ => false

/-- The decrement wrote `closed_bit` and `joiners_` is still to be exchanged. -/
def claiming : Frame Handle Join → Bool
  | .completeRegisteredJoins _ => true
  | _ => false

/-- The rest of the list walked by `complete_registered_joins`. -/
def cursor : Frame Handle Join → Option (Option Join)
  | .drain _ list => some list
  | .completeDeferred _ list => some list
  | _ => none

def walking (frame : Frame Handle Join) : Bool := frame.cursor.isSome

/-- The load in `register_joiner` returned the sentinel. -/
def refused : Frame Handle Join → Bool
  | .registerJoiner _ (some .sentinel) => true
  | _ => false

end Frame

variable [Fintype Thread] [DecidableEq Handle] [DecidableEq Join]

/-- Where the started joins are: `waiting` is the list behind `joiners_`,
`draining` what the drain has left. -/
structure Places (s : State Thread Handle Join) (waiting draining : List Join) : Prop where
  list : match s.joiners with
    | .list head => Chain s.next head waiting
    | .sentinel => waiting = []
  cursor : ∀ t, ∀ frame ∈ s.stack t, ∀ list, frame.cursor = some list →
    Chain s.next list draining
  walking : CallStack.census Frame.walking s.stack ≤ s.log.count .drained
  finished : CallStack.census Frame.walking s.stack = 0 → draining = []
  nodup : (waiting ++ draining).Nodup
  account : ∀ j, s.log.count (.started j) = CallStack.census (Frame.joining j) s.stack +
    (waiting ++ draining).count j + s.log.count (.completed j)
  once : ∀ j, s.log.count (.started j) ≤ 1
  linked : ∀ j, .linked j ∈ s.log → j ∈ waiting ++ draining ∨ .completed j ∈ s.log

variable [DecidableEq Thread] {s s' : State Thread Handle Join} {t : Thread} {j : Join}
  {old new rest : List (Frame Handle Join)} {waiting draining : List Join}

variable (s') in
omit [DecidableEq Handle] [DecidableEq Join] in
/-- The census of one predicate when one frame is replaced by another. -/
theorem census_single {frame frame' : Frame Handle Join} (hstack : s.stack t = frame :: rest)
    (hstack' : s'.stack = Function.update s.stack t (frame' :: rest)) (p : Frame Handle Join → Bool) :
    CallStack.census p s'.stack + (p frame).toNat =
      CallStack.census p s.stack + (p frame').toNat := by
  rw [hstack', ← countP_singleton, ← countP_singleton]
  exact CallStack.census_replace _ [_] [_] hstack

variable (s') in
omit [DecidableEq Handle] [DecidableEq Join] in
theorem census_return {frame : Frame Handle Join} (hstack : s.stack t = frame :: rest)
    (hstack' : s'.stack = Function.update s.stack t rest) (p : Frame Handle Join → Bool) :
    CallStack.census p s'.stack + (p frame).toNat = CallStack.census p s.stack := by
  rw [hstack', ← countP_singleton]
  exact CallStack.census_replace _ [_] [] hstack

omit [DecidableEq Handle] [DecidableEq Join] in
theorem census_call {frame : Frame Handle Join}
    (hstack' : s'.stack = Function.update s.stack t (frame :: s.stack t))
    (p : Frame Handle Join → Bool) :
    CallStack.census p s'.stack = CallStack.census p s.stack + (p frame).toNat := by
  rw [hstack', ← countP_singleton]
  exact CallStack.census_replace _ [] [_] rfl

omit [Fintype Thread] [DecidableEq Thread] in
theorem count_of_ne (e event : Event Handle Join) {log : List (Event Handle Join)}
    (hne : event ≠ e) : (event :: log).count e = log.count e :=
  List.count_cons_of_ne hne

namespace Places

omit [DecidableEq Thread] in
/-- A join inside its own `start` is on neither list and has not completed. -/
theorem of_joining (h : Places s waiting draining)
    (hpos : 0 < CallStack.census (Frame.joining j) s.stack) :
    CallStack.census (Frame.joining j) s.stack = 1 ∧ j ∉ waiting ++ draining ∧
      s.log.count (.completed j) = 0 ∧ s.log.count (.started j) = 1 := by
  have haccount := h.account j
  have honce := h.once j
  refine ⟨by omega, ?_, by omega, by omega⟩
  rw [← List.count_pos_iff]
  omega

omit [DecidableEq Thread] in
/-- A completed join is on neither list. -/
theorem of_completed (h : Places s waiting draining) (hmem : .completed j ∈ s.log) :
    j ∉ waiting ++ draining := by
  have haccount := h.account j
  have honce := h.once j
  have hpos := List.count_pos_iff.mpr hmem
  rw [← List.count_pos_iff]
  omega

variable (old new) in
/-- A step that moves no join. -/
theorem quiet (h : Places s waiting draining) (hstack : s.stack t = old ++ rest)
    (hstack' : s'.stack = Function.update s.stack t (new ++ rest))
    (hjoiners : s'.joiners = s.joiners)
    (hnext : ∀ list nodes, (∀ j ∈ nodes, j ∈ waiting ++ draining) → Chain s.next list nodes →
      Chain s'.next list nodes)
    (hlog : ∀ event : Event Handle Join, (∀ h, event ≠ .associated h) → (∀ h, event ≠ .rejected h) →
      event ≠ .disassociated → s'.log.count event = s.log.count event)
    (hjoining : ∀ j, new.countP (Frame.joining j) = old.countP (Frame.joining j))
    (hwalking : new.countP Frame.walking = old.countP Frame.walking)
    (hcursor : ∀ frame ∈ new, ∀ list, frame.cursor = some list →
      ∃ frame' ∈ old, frame'.cursor = some list) : Places s' waiting draining := by
  have hcensus : ∀ p : Frame Handle Join → Bool, new.countP p = old.countP p →
      CallStack.census p s'.stack = CallStack.census p s.stack := by
    intro p hp
    have hreplace := CallStack.census_replace p _ new hstack
    rw [hstack']
    omega
  have hstarted : ∀ j, s'.log.count (.started j) = s.log.count (.started j) :=
    fun j => hlog _ (by simp) (by simp) (by simp)
  have hcompleted : ∀ j, s'.log.count (.completed j) = s.log.count (.completed j) :=
    fun j => hlog _ (by simp) (by simp) (by simp)
  have hlinked : ∀ j, s'.log.count (.linked j) = s.log.count (.linked j) :=
    fun j => hlog _ (by simp) (by simp) (by simp)
  have hdrained : s'.log.count .drained = s.log.count .drained := hlog _ (by simp) (by simp) (by simp)
  refine ⟨?_, ?_, ?_, ?_, h.nodup, ?_, ?_, ?_⟩
  · have hlist := h.list
    rw [hjoiners]
    cases hjoin : s.joiners with
    | sentinel => simpa [hjoin] using hlist
    | list head =>
        simp only [hjoin] at hlist
        exact hnext head waiting (fun j hj => List.mem_append_left _ hj) hlist
  · intro t' frame hframe list hlist
    rw [hstack'] at hframe
    refine hnext list draining (fun j hj => List.mem_append_right _ hj) ?_
    rcases CallStack.mem_replace _ hframe with hmine | hother
    · obtain ⟨frame', hold, hlist'⟩ := hcursor frame hmine list hlist
      refine h.cursor t frame' ?_ list hlist'
      rw [hstack]
      exact List.mem_append_left _ hold
    · exact h.cursor t' frame (CallStack.mem_beneath _ hstack hother) list hlist
  · rw [hcensus _ hwalking, hdrained]
    exact h.walking
  · rw [hcensus _ hwalking]
    exact h.finished
  · intro j
    rw [hcensus _ (hjoining j), hstarted, hcompleted]
    exact h.account j
  · intro j
    rw [hstarted]
    exact h.once j
  · intro j hj
    rw [← List.count_pos_iff, hlinked, List.count_pos_iff] at hj
    rw [← List.count_pos_iff (a := Event.completed j), hcompleted, List.count_pos_iff]
    exact h.linked j hj

omit [DecidableEq Thread] in
theorem cursor_of (h : Places s waiting draining) {frame : Frame Handle Join}
    (hstack : s.stack t = frame :: rest) {list : Option Join} (hlist : frame.cursor = some list) :
    Chain s.next list draining :=
  h.cursor t frame (by rw [hstack]; exact List.mem_cons_self) list hlist

variable (old new) in
/-- The cursors of the frames a step leaves in place. -/
theorem cursor_others (h : Places s waiting draining) (hstack : s.stack t = old ++ rest)
    (hnew : ∀ frame ∈ new, frame.cursor = none) {t' : Thread} {frame : Frame Handle Join}
    (hframe : frame ∈ Function.update s.stack t (new ++ rest) t') {list : Option Join}
    (hlist : frame.cursor = some list) : Chain s.next list draining := by
  rcases CallStack.mem_replace _ hframe with hmine | hother
  · rw [hnew frame hmine] at hlist
    cases hlist
  · exact h.cursor t' frame (CallStack.mem_beneath _ hstack hother) list hlist

/-- A join begins its `start`. -/
theorem start (h : Places s waiting draining) (hnew : .started j ∉ s.log)
    (hs' : s' = (s.record (.started j)).setStack t (.startJoin j none :: s.stack t)) :
    Places s' waiting draining := by
  have hzero : s.log.count (.started j) = 0 := List.count_eq_zero.mpr hnew
  have hstack' : s'.stack = Function.update s.stack t (.startJoin j none :: s.stack t) := by
    rw [hs']
    rfl
  have hcensus := census_call hstack'
  have hlog : s'.log = .started j :: s.log := by rw [hs']; rfl
  have hwalking : CallStack.census Frame.walking s'.stack = CallStack.census Frame.walking s.stack :=
    hcensus Frame.walking
  refine ⟨?_, ?_, ?_, ?_, h.nodup, ?_, ?_, ?_⟩
  · rw [hs']
    exact h.list
  · intro t' frame hframe list hlist
    rw [hs'] at hframe ⊢
    exact h.cursor_others [] [_] rfl (by simp [Frame.cursor]) hframe hlist
  · rw [hwalking, hlog]
    exact Nat.le_trans h.walking (List.count_le_count_cons)
  · rw [hwalking]
    exact h.finished
  · intro j'
    have haccount := h.account j'
    have hjoining := hcensus (Frame.joining j')
    rw [hlog, hjoining, count_of_ne (.completed j') (.started j) (by simp)]
    by_cases heq : j = j'
    · subst heq
      simp only [Frame.joining, decide_true, Bool.toNat_true, List.count_cons_self]
      omega
    · simp only [Frame.joining, heq, decide_false, Bool.toNat_false, Nat.add_zero]
      rw [count_of_ne (.started j') (.started j) (by simpa using heq)]
      exact haccount
  · intro j'
    have honce := h.once j'
    rw [hlog]
    by_cases heq : j = j'
    · subst heq
      simp [hzero]
    · rw [count_of_ne (.started j') (.started j) (by simpa using heq)]
      exact honce
  · intro j' hj'
    rw [hlog] at hj' ⊢
    simpa using h.linked j' (by simpa using hj')

/-- A join completes inside its own `start`. -/
theorem completeInline (h : Places s waiting draining) {frame : Frame Handle Join} (word : Word)
    (hstack : s.stack t = frame :: rest) (hwalks : frame.walking = false)
    (hmine : ∀ j', frame.joining j' = decide (j = j'))
    (hs' : s' = ({ s with word := word }.record (.completed j)).setStack t rest) :
    Places s' waiting draining := by
  have hcensus := census_return s' hstack (by rw [hs']; rfl)
  have hlog : s'.log = .completed j :: s.log := by rw [hs']; rfl
  have hwalking : CallStack.census Frame.walking s'.stack =
      CallStack.census Frame.walking s.stack := by
    simpa [hwalks] using hcensus Frame.walking
  refine ⟨?_, ?_, ?_, ?_, h.nodup, ?_, ?_, ?_⟩
  · rw [hs']
    exact h.list
  · intro t' frame' hframe list hlist
    rw [hs'] at hframe ⊢
    exact h.cursor_others [_] [] hstack (by simp) hframe hlist
  · rw [hwalking, hlog]
    exact Nat.le_trans h.walking (List.count_le_count_cons)
  · rw [hwalking]
    exact h.finished
  · intro j'
    have haccount := h.account j'
    have hjoining := hcensus (Frame.joining j')
    rw [hlog, count_of_ne (.started j') (.completed j) (by simp)]
    rw [hmine j'] at hjoining
    by_cases heq : j = j'
    · subst heq
      simp only [decide_true, Bool.toNat_true, List.count_cons_self] at hjoining ⊢
      omega
    · simp only [heq, decide_false, Bool.toNat_false, Nat.add_zero] at hjoining
      rw [count_of_ne (.completed j') (.completed j) (by simpa using heq), hjoining]
      exact haccount
  · intro j'
    rw [hlog, count_of_ne (.started j') (.completed j) (by simp)]
    exact h.once j'
  · intro j' hj'
    rw [hlog] at hj' ⊢
    rcases h.linked j' (by simpa using hj') with hmem | hmem
    · exact Or.inl hmem
    · exact Or.inr (List.mem_cons_of_mem _ hmem)

/-- A waiter is pushed on the list. -/
theorem push (h : Places s waiting draining) {head : Option Join} {seen : Option (Joiners Join)}
    (hstack : s.stack t = .registerJoiner j seen :: rest) (hjoiners : s.joiners = .list head)
    (hs' : s' = ({ s with
      next := Function.update s.next j head, joiners := .list (some j) }.record
        (.linked j)).setStack t rest) : Places s' (j :: waiting) draining := by
  have hcensus := census_return s' hstack (by rw [hs']; rfl)
  have hlog : s'.log = .linked j :: s.log := by rw [hs']; rfl
  have hpos : 0 < CallStack.census (Frame.joining j) s.stack := by
    refine CallStack.census_pos.mpr ⟨t, .registerJoiner j seen, ?_, by simp [Frame.joining]⟩
    rw [hstack]
    exact List.mem_cons_self
  obtain ⟨hone, hnot, _⟩ := h.of_joining hpos
  obtain ⟨hnotWaiting, hnotDraining⟩ := not_or.mp (fun hmem => hnot (List.mem_append.mpr hmem))
  have hwalking : CallStack.census Frame.walking s'.stack =
      CallStack.census Frame.walking s.stack := hcensus Frame.walking
  refine ⟨?_, ?_, ?_, ?_, ?_, ?_, ?_, ?_⟩
  · have hlist := h.list
    rw [hjoiners] at hlist
    rw [hs']
    exact hlist.push hnotWaiting
  · intro t' frame hframe list hlist
    rw [hs'] at hframe ⊢
    exact (h.cursor_others [_] [] hstack (by simp) hframe hlist).update
      hnotDraining head
  · rw [hwalking, hlog]
    exact Nat.le_trans h.walking (List.count_le_count_cons)
  · rw [hwalking]
    exact h.finished
  · exact List.nodup_cons.mpr ⟨hnot, h.nodup⟩
  · intro j'
    have haccount := h.account j'
    have hjoining := hcensus (Frame.joining j')
    rw [hlog, count_of_ne (.started j') (.linked j) (by simp), count_of_ne (.completed j') (.linked j) (by simp),
      List.cons_append]
    by_cases heq : j = j'
    · subst heq
      simp only [Frame.joining, decide_true, Bool.toNat_true, List.count_cons_self] at hjoining ⊢
      omega
    · simp only [Frame.joining, heq, decide_false, Bool.toNat_false, Nat.add_zero] at hjoining
      rw [List.count_cons_of_ne heq, hjoining]
      exact haccount
  · intro j'
    rw [hlog, count_of_ne (.started j') (.linked j) (by simp)]
    exact h.once j'
  · intro j' hj'
    rw [hlog] at hj' ⊢
    rcases List.mem_cons.mp hj' with heq | hj'
    · cases heq
      exact Or.inl List.mem_cons_self
    · rcases h.linked j' hj' with hmem | hmem
      · exact Or.inl (List.mem_cons_of_mem _ hmem)
      · exact Or.inr (List.mem_cons_of_mem _ hmem)

/-- The exchange hands the whole list to the drain. -/
theorem exchange (h : Places s waiting draining) {head : Option Join} {after : After Handle}
    (hstack : s.stack t = .completeRegisteredJoins after :: rest)
    (hjoiners : s.joiners = .list head) (hfirst : s.log.count .drained = 0)
    (hs' : s' = ({ s with joiners := .sentinel }.record .drained).setStack t
      (.drain after head :: rest)) : Places s' [] waiting := by
  have hcensus := census_single s' hstack (by rw [hs']; rfl)
  have hlog : s'.log = .drained :: s.log := by rw [hs']; rfl
  have hnone : CallStack.census Frame.walking s.stack = 0 := by
    have hwalking := h.walking
    omega
  have hdraining := h.finished hnone
  subst hdraining
  have hone : CallStack.census Frame.walking s'.stack = 1 := by
    have hwalking := hcensus Frame.walking
    rw [hnone] at hwalking
    exact hwalking
  refine ⟨?_, ?_, ?_, ?_, ?_, ?_, ?_, ?_⟩
  · rw [hs']
    rfl
  · intro t' frame hframe list hlist
    have hlistInv := h.list
    rw [hjoiners] at hlistInv
    rw [hs'] at hframe ⊢
    rcases CallStack.mem_replace [_] hframe with hmine | hother
    · rw [List.mem_singleton.mp hmine] at hlist
      cases hlist
      exact hlistInv
    · have hfalse := CallStack.census_eq_zero.mp hnone t' frame
        (CallStack.mem_beneath [_] hstack hother)
      rw [Frame.walking, hlist] at hfalse
      cases hfalse
  · rw [hone, hlog, List.count_cons_self]
    omega
  · intro hzero
    omega
  · have hnodup := h.nodup
    rwa [List.append_nil] at hnodup
  · intro j'
    have haccount := h.account j'
    have hjoining : CallStack.census (Frame.joining j') s'.stack =
        CallStack.census (Frame.joining j') s.stack := hcensus (Frame.joining j')
    rw [hlog, count_of_ne (.started j') .drained (by simp), count_of_ne (.completed j') .drained (by simp), hjoining]
    rwa [List.append_nil] at haccount
  · intro j'
    rw [hlog, count_of_ne (.started j') .drained (by simp)]
    exact h.once j'
  · intro j' hj'
    rw [hlog] at hj' ⊢
    simpa using h.linked j' (by simpa using hj')

/-- The drain completes the first waiter of its list. -/
theorem drainNext (h : Places s waiting draining) {after : After Handle}
    (hstack : s.stack t = .drain after (some j) :: rest) (hone : s.log.count .drained ≤ 1)
    (hs' : s' = (s.record (.completed j)).setStack t (.completeDeferred after (s.next j) :: rest)) :
    ∃ left, draining = j :: left ∧ Places s' waiting left := by
  have hcensus := census_single s' hstack (by rw [hs']; rfl)
  have hlog : s'.log = .completed j :: s.log := by rw [hs']; rfl
  obtain ⟨left, rfl, hchain⟩ := (h.cursor_of hstack rfl).cons_of_some
  have hwalking : CallStack.census Frame.walking s'.stack =
      CallStack.census Frame.walking s.stack := Nat.add_right_cancel (hcensus Frame.walking)
  have hothers : CallStack.census Frame.walking (Function.update s.stack t rest) = 0 := by
    have hreturn := CallStack.census_replace (Frame.walking) [_] [] hstack
    have hle := h.walking
    rw [countP_singleton] at hreturn
    simp only [Frame.walking, Frame.cursor, Option.isSome_some, Bool.toNat_true,
      List.nil_append, List.countP_nil] at hreturn hle ⊢
    omega
  refine ⟨left, rfl, ?_, ?_, ?_, ?_, ?_, ?_, ?_, ?_⟩
  · rw [hs']
    exact h.list
  · intro t' frame hframe list hlist
    rw [hs'] at hframe ⊢
    rcases CallStack.mem_replace [_] hframe with hmine | hother
    · rw [List.mem_singleton.mp hmine] at hlist
      cases hlist
      exact hchain
    · have hfalse := CallStack.census_eq_zero.mp hothers t' frame hother
      rw [Frame.walking, hlist] at hfalse
      cases hfalse
  · rw [hwalking, hlog]
    exact Nat.le_trans h.walking (List.count_le_count_cons)
  · rw [hwalking]
    intro hzero
    cases h.finished hzero
  · exact h.nodup.sublist (List.Sublist.append_left (List.sublist_cons_self _ _) _)
  · intro j'
    have haccount := h.account j'
    have hjoining : CallStack.census (Frame.joining j') s'.stack =
        CallStack.census (Frame.joining j') s.stack := hcensus (Frame.joining j')
    rw [hlog, count_of_ne (.started j') (.completed j) (by simp), hjoining]
    rw [List.count_append] at haccount ⊢
    by_cases heq : j = j'
    · subst heq
      rw [List.count_cons_self] at haccount ⊢
      omega
    · rw [List.count_cons_of_ne heq] at haccount
      rw [count_of_ne (.completed j') (.completed j) (by simpa using heq)]
      exact haccount
  · intro j'
    rw [hlog, count_of_ne (.started j') (.completed j) (by simp)]
    exact h.once j'
  · intro j' hj'
    rw [hlog] at hj' ⊢
    rcases h.linked j' (by simpa using hj') with hmem | hmem
    · rcases List.mem_append.mp hmem with hmem | hmem
      · exact Or.inl (List.mem_append_left _ hmem)
      · rcases List.mem_cons.mp hmem with rfl | hmem
        · exact Or.inr List.mem_cons_self
        · exact Or.inl (List.mem_append_right _ hmem)
    · exact Or.inr (List.mem_cons_of_mem _ hmem)

/-- The drain reaches the end of its list. -/
theorem drainEnd (h : Places s waiting draining) {after : After Handle}
    (hstack : s.stack t = .drain after none :: rest)
    (hs' : s' = s.setStack t (after.resume rest)) : Places s' waiting draining := by
  obtain rfl := (h.cursor_of hstack rfl).nil_iff
  have hresume : ∀ p : Frame Handle Join → Bool,
      CallStack.census p s'.stack + (p (.drain after none)).toNat =
        CallStack.census p s.stack + (after.resume []).countP p := by
    intro p
    rw [hs', ← countP_singleton]
    have hreplace := CallStack.census_replace p [_] (after.resume []) hstack
    rwa [← resume_eq] at hreplace
  have hjoining : ∀ j, CallStack.census (Frame.joining j) s'.stack =
      CallStack.census (Frame.joining j) s.stack := by
    intro j
    have hcount := hresume (Frame.joining j)
    cases after <;> exact hcount
  have hwalking : CallStack.census Frame.walking s'.stack + 1 =
      CallStack.census Frame.walking s.stack := by
    have hcount := hresume Frame.walking
    cases after <;> exact hcount
  have hlog : s'.log = s.log := by rw [hs']; rfl
  refine ⟨?_, ?_, ?_, fun _ => rfl, h.nodup, ?_, hlog ▸ h.once, hlog ▸ h.linked⟩
  · rw [hs']
    exact h.list
  · intro t' frame hframe list hlist
    rw [hs'] at hframe ⊢
    rw [State.setStack, resume_eq] at hframe
    refine h.cursor_others [_] _ hstack ?_ hframe hlist
    intro frame' hframe'
    cases after with
    | done => cases hframe'
    | transfer target source =>
        rw [List.mem_singleton.mp hframe']
        rfl
  · have hle := h.walking
    rw [hlog]
    omega
  · intro j
    rw [hlog, hjoining]
    exact h.account j

end Places

end Bexec.CountingScope
