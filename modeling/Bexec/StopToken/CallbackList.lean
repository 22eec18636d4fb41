import Bexec.Foundation.Machine
import Bexec.Foundation.SlotList

/-!
# The intrusive callback list

The four places that change the list, each run under the spinlock, in any order
over a heap of records. A record is pushed by its constructor, once, and removed
by its destructor, once.
-/

namespace Bexec.StopToken.CallbackList

open Foundation

variable {Record : Type}

/-- What the list operations have done with a record. -/
inductive Fate
  | fresh
  | linked
  | unlinked
  | taken
  deriving DecidableEq

/-- The fields of the records that the list operations use, and the head. The
fate is auxiliary. -/
structure State (Record : Type) where
  links : Links Record
  completed : Record → Bool
  fate : Record → Fate

inductive Action (Record : Type)
  | tryAddCallback (record : Record)
  | removeCallback (record : Record)
  | pop
  | drain (fuel : Nat)
  deriving DecidableEq

def initial : State Record := ⟨.empty, fun _ => false, fun _ => .fresh⟩

variable [DecidableEq Record]

/-- `try_add_callback`, with the lock acquired. -/
def tryAddCallback (l : Links Record) (r : Record) : Links Record :=
  let l := l.write (.next r) l.head
  let l := l.setPrev r (some .head)
  let l :=
    match l.next r with
    | some next => l.setPrev next (some (.next r))
    | none => l
  l.write .head (some r)

/-- `remove_callback` of a record whose `prev_ptr` is not null. -/
def unlink (l : Links Record) (r : Record) (slot : Slot Record) : Links Record :=
  let l := l.write slot (l.next r)
  match l.next r with
  | some next => l.setPrev next (l.prev r)
  | none => l

/-- `request_stop` takes the first record off the list. -/
def pop (l : Links Record) (r : Record) : Links Record :=
  let l := l.setPrev r none
  let l := l.write .head (l.next r)
  match l.head with
  | some head => l.setPrev head (some .head)
  | none => l

/-- One turn of the loop of `~inplace_stop_source`. -/
def drainOne (s : State Record) (r : Record) : State Record :=
  let l := s.links.write .head (s.links.next r)
  let l :=
    match l.head with
    | some head => l.setPrev head (some .head)
    | none => l
  ⟨(l.setPrev r none).write (.next r) none, Function.update s.completed r true,
    Function.update s.fate r .taken⟩

/-- The loop of `~inplace_stop_source`, without a result if the fuel runs out. -/
def drain : Nat → State Record → Option (State Record)
  | fuel, s =>
      match s.links.head with
      | none => some s
      | some r =>
          match fuel with
          | 0 => none
          | fuel + 1 => drain fuel (drainOne s r)

/-- A constructor pushes its record, a destructor removes a record that was
pushed, and `request_stop` tests the head before it pops. -/
def step (s : State Record) : Action Record → Option (State Record)
  | .tryAddCallback r =>
      if s.fate r = .fresh then
        some { s with
          links := tryAddCallback s.links r, fate := Function.update s.fate r .linked }
      else none
  | .removeCallback r =>
      if s.fate r = .linked ∨ s.fate r = .taken then
        match s.links.prev r with
        | some slot =>
            some { s with links := unlink s.links r slot, fate := Function.update s.fate r .unlinked }
        | none => some s
      else none
  | .pop =>
      match s.links.head with
      | some r => some { s with links := pop s.links r, fate := Function.update s.fate r .taken }
      | none => none
  | .drain fuel => drain fuel s

def machine (Record : Type) [DecidableEq Record] : Machine (State Record) (Action Record) where
  initial s := s = initial
  step := step

/-! ## The operations and the list they represent -/

theorem tryAddCallback_eq (l : Links Record) (r : Record) : tryAddCallback l r = l.push r := by
  cases hhead : l.head <;> simp [tryAddCallback, Links.push, Links.relink, Links.write,
    Links.setPrev, hhead]

theorem pop_eq (l : Links Record) (r : Record) : pop l r = l.pop r := by
  cases hnext : l.next r <;> simp [pop, Links.pop, Links.relink, Links.write, Links.setPrev, hnext]

/-- The two reads after the first write still see the successor and the slot. -/
theorem unlink_eq {l : Links Record} {nodes : List Record} (hrep : l.Represents nodes)
    {r : Record} {slot : Slot Record} (hr : r ∈ nodes) (hslot : l.prev r = some slot) :
    unlink l r slot = l.unlink r slot := by
  have hnext := hrep.next_write_slot hr hslot (l.next r)
  simp only [unlink, Links.unlink, hnext, Links.prev_write, hslot]
  cases l.next r <;> rfl

/-- The destructor of the source takes a record off as `request_stop` does, and
clears its link. -/
theorem drainOne_links {s : State Record} {r : Record} (hself : s.links.next r ≠ some r) :
    (drainOne s r).links = (s.links.pop r).write (.next r) none := by
  cases hnext : s.links.next r with
  | none => simp [drainOne, Links.pop, Links.relink, Links.write, Links.setPrev, hnext]
  | some head =>
      have hne : head ≠ r := fun heq => hself (heq ▸ hnext)
      simp [drainOne, Links.pop, Links.relink, Links.write, Links.setPrev, hnext,
        Function.update_comm hne]

/-- The list that the links represent holds the linked records, and only records
in it or unlinked from it point back at a slot. -/
structure Inv (s : State Record) (nodes : List Record) : Prop where
  represents : s.links.Represents nodes
  linked : ∀ r, r ∈ nodes ↔ s.fate r = .linked
  null : ∀ r, s.fate r = .fresh ∨ s.fate r = .taken → s.links.prev r = none

variable {s s' : State Record} {nodes rest : List Record} {r : Record}

namespace Inv

omit [DecidableEq Record] in
theorem initial : Inv (CallbackList.initial : State Record) [] where
  represents := Links.represents_empty
  linked := by simp [CallbackList.initial]
  null := fun _ _ => rfl

omit [DecidableEq Record] in
theorem not_mem (h : Inv s nodes) (hfate : s.fate r = .fresh ∨ s.fate r = .taken) : r ∉ nodes := by
  rw [h.linked]
  rcases hfate with hfate | hfate <;> simp [hfate]

theorem tryAddCallback (h : Inv s nodes) (hfresh : s.fate r = .fresh) :
    Inv { s with
      links := CallbackList.tryAddCallback s.links r,
      fate := Function.update s.fate r .linked } (r :: nodes) where
  represents := by
    rw [tryAddCallback_eq]
    exact h.represents.push (h.not_mem (.inl hfresh))
  linked := by
    intro other
    by_cases heq : other = r
    · simp [heq]
    · simpa [heq] using h.linked other
  null := by
    intro other hfate
    by_cases heq : other = r
    · subst heq
      simp at hfate
    · simp only [ne_eq, heq, not_false_eq_true, Function.update_of_ne] at hfate
      have hhead : s.links.head ≠ some other := by
        intro hhead
        exact h.not_mem hfate (h.represents.reached_iff.mp (.head hhead))
      simp only [tryAddCallback_eq]
      rw [Links.prev_push_of_ne heq hhead]
      exact h.null other hfate

theorem unlink (h : Inv s nodes) (hr : r ∈ nodes) {slot : Slot Record}
    (hslot : s.links.prev r = some slot) :
    Inv { s with
      links := CallbackList.unlink s.links r slot,
      fate := Function.update s.fate r .unlinked } (nodes.erase r) where
  represents := by
    rw [unlink_eq h.represents hr hslot]
    exact h.represents.unlink hr hslot
  linked := by
    intro other
    rw [h.represents.nodup.mem_erase_iff]
    by_cases heq : other = r
    · simp [heq]
    · simpa [heq] using h.linked other
  null := by
    intro other hfate
    by_cases heq : other = r
    · subst heq
      simp at hfate
    · simp only [ne_eq, heq, not_false_eq_true, Function.update_of_ne] at hfate
      have hnext : s.links.next r ≠ some other :=
        fun hnext => h.not_mem hfate (h.represents.segment.next_mem hr hnext)
      simp only [unlink_eq h.represents hr hslot]
      rw [Links.prev_unlink_of_ne hnext]
      exact h.null other hfate

/-- The first record is taken off the list; its own link may be written as well. -/
theorem take (links : Links Record) (h : Inv s (r :: rest)) {completed : Record → Bool}
    (hrep : links.Represents rest) (hprev : links.prev = (s.links.pop r).prev) :
    Inv ⟨links, completed, Function.update s.fate r .taken⟩ rest where
  represents := hrep
  linked := by
    intro other
    have hnot := (List.nodup_cons.mp h.represents.nodup).1
    by_cases heq : other = r
    · subst heq
      simp [hnot]
    · simpa [heq] using h.linked other
  null := by
    intro other hfate
    simp only [hprev]
    have hself := h.represents.segment.next_ne_self h.represents.nodup List.mem_cons_self
    by_cases heq : other = r
    · subst heq
      exact Links.prev_pop_self hself
    · simp only [ne_eq, heq, not_false_eq_true, Function.update_of_ne] at hfate
      have hnext : s.links.next r ≠ some other := by
        intro hnext
        exact h.not_mem hfate (h.represents.segment.next_mem List.mem_cons_self hnext)
      rw [Links.prev_pop_of_ne heq hnext]
      exact h.null other hfate

theorem pop (h : Inv s (r :: rest)) :
    Inv { s with
      links := CallbackList.pop s.links r, fate := Function.update s.fate r .taken } rest := by
  apply h.take
  · rw [pop_eq]
    exact h.represents.pop
  · rw [pop_eq]

theorem drainOne (h : Inv s (r :: rest)) : Inv (CallbackList.drainOne s r) rest := by
  have hself := h.represents.segment.next_ne_self h.represents.nodup List.mem_cons_self
  have hnot := (List.nodup_cons.mp h.represents.nodup).1
  have hpop := h.represents.pop
  refine h.take (CallbackList.drainOne s r).links ?_ ?_
  · rw [drainOne_links hself]
    refine ⟨hpop.nodup, hpop.segment.congr ?_ ?_ ?_⟩
    · simp
    · intro other hother
      have hne : other ≠ r := fun heq => hnot (heq ▸ hother)
      simp [hne]
    · simp
  · rw [drainOne_links hself, Links.prev_write]

omit [DecidableEq Record] in
theorem next_ne (h : Inv s nodes) {first : Record} (hfirst : first ∈ nodes)
    (hr : s.fate r ≠ .linked) : s.links.next first ≠ some r :=
  fun hnext => hr ((h.linked r).mp (h.represents.segment.next_mem hfirst hnext))

omit [DecidableEq Record] in
theorem ne_of_mem (h : Inv s nodes) {first : Record} (hfirst : first ∈ nodes)
    (hr : s.fate r ≠ .linked) : r ≠ first :=
  fun heq => hr ((h.linked r).mp (heq ▸ hfirst))

theorem prev_drainOne (h : Inv s (r :: rest)) {other : Record} (hother : s.fate other ≠ .linked) :
    (CallbackList.drainOne s r).links.prev other = s.links.prev other := by
  have hself := h.represents.segment.next_ne_self h.represents.nodup List.mem_cons_self
  rw [drainOne_links hself, Links.prev_write]
  exact Links.prev_pop_of_ne (h.ne_of_mem List.mem_cons_self hother)
    (h.next_ne List.mem_cons_self hother)

/-- The drain takes every linked record, leaves the links of the others, and ends if
it may turn that often. -/
theorem drain (h : Inv s nodes) (fuel : Nat) :
    (nodes.length ≤ fuel → (CallbackList.drain fuel s).isSome = true) ∧
      ∀ s', CallbackList.drain fuel s = some s' → Inv s' [] ∧
        (∀ r, s'.fate r = if s.fate r = .linked then .taken else s.fate r) ∧
        ∀ r, s.fate r ≠ .linked → s'.links.prev r = s.links.prev r := by
  induction nodes generalizing s fuel with
  | nil =>
      have hhead : s.links.head = none := h.represents.segment
      have hdrain : CallbackList.drain fuel s = some s := by
        unfold CallbackList.drain
        simp [hhead]
      refine ⟨fun _ => by simp [hdrain], ?_⟩
      rintro s' hs'
      cases hdrain.symm.trans hs'
      refine ⟨h, ?_, fun r _ => rfl⟩
      intro r
      have hnot : s.fate r ≠ .linked := fun hlinked => by simpa using (h.linked r).mpr hlinked
      rw [if_neg hnot]
  | cons first rest ih =>
      have hhead : s.links.head = some first := h.represents.segment.1
      cases fuel with
      | zero =>
          have hdrain : CallbackList.drain 0 s = none := by
            unfold CallbackList.drain
            simp [hhead]
          simp [hdrain]
      | succ fuel =>
          have hdrain : CallbackList.drain (fuel + 1) s =
              CallbackList.drain fuel (CallbackList.drainOne s first) := by
            rw [CallbackList.drain]
            simp [hhead]
          obtain ⟨hsome, hresult⟩ := ih h.drainOne fuel
          rw [hdrain]
          refine ⟨fun hlength => hsome (by simpa using hlength), ?_⟩
          intro s' hs'
          obtain ⟨hinv, hfate, hprev⟩ := hresult s' hs'
          refine ⟨hinv, ?_, ?_⟩
          · intro r
            rw [hfate r]
            by_cases heq : r = first
            · subst heq
              have hlinked := (h.linked r).mp List.mem_cons_self
              simp [CallbackList.drainOne, hlinked]
            · simp [CallbackList.drainOne, heq]
          · intro r hr
            have hne := h.ne_of_mem List.mem_cons_self hr
            have hfate' : (CallbackList.drainOne s first).fate r = s.fate r := by
              simp [CallbackList.drainOne, hne]
            rw [hprev r (hfate' ▸ hr), h.prev_drainOne hr]

end Inv

/-- What each operation is for, on the list of the linked records. -/
def Action.onList : Action Record → List Record → List Record
  | .tryAddCallback r, nodes => r :: nodes
  | .removeCallback r, nodes => nodes.erase r
  | .pop, nodes => nodes.tail
  | .drain _, _ => []

theorem Inv.step (h : Inv s nodes) {a : Action Record} (hstep : CallbackList.step s a = some s') :
    Inv s' (a.onList nodes) ∧ ∀ r, s.fate r = .taken → s'.fate r = .taken := by
  cases a with
  | tryAddCallback r =>
      simp only [CallbackList.step, Option.ite_none_right_eq_some, Option.some.injEq] at hstep
      obtain ⟨hfresh, rfl⟩ := hstep
      refine ⟨h.tryAddCallback hfresh, ?_⟩
      intro other htaken
      have hne : other ≠ r := fun heq => by simp [heq, hfresh] at htaken
      simpa [hne] using htaken
  | removeCallback r =>
      simp only [CallbackList.step, Option.ite_none_right_eq_some] at hstep
      obtain ⟨hfate, hstep⟩ := hstep
      split at hstep
      next slot hslot =>
        cases hstep
        have hlinked : s.fate r = .linked := by
          refine hfate.resolve_right fun htaken => ?_
          rw [h.null r (.inr htaken)] at hslot
          cases hslot
        refine ⟨h.unlink ((h.linked r).mpr hlinked) hslot, ?_⟩
        intro other htaken
        have hne : other ≠ r := fun heq => by simp [heq, hlinked] at htaken
        simpa [hne] using htaken
      next hnull =>
        cases hstep
        have hnot : r ∉ nodes := fun hr => h.represents.segment.prev_ne_none hr hnull
        refine ⟨?_, fun _ htaken => htaken⟩
        rw [Action.onList, List.erase_of_not_mem hnot]
        exact h
  | pop =>
      simp only [CallbackList.step] at hstep
      split at hstep
      next r hhead =>
        cases hstep
        have hfirst := h.represents.segment.read_eq_head
        cases nodes with
        | nil => cases hhead.symm.trans hfirst
        | cons first rest =>
            obtain rfl : r = first := Option.some.inj (hhead.symm.trans hfirst)
            refine ⟨h.pop, ?_⟩
            intro other htaken
            by_cases heq : other = r
            · simp [heq]
            · simpa [heq] using htaken
      next => cases hstep
  | drain fuel =>
      obtain ⟨hinv, hfate, -⟩ := (h.drain _).2 s' hstep
      refine ⟨hinv, ?_⟩
      intro other htaken
      simp [hfate, htaken]

/-- No operation writes `prev_ptr` of a record that it unlinks, or that was unlinked. -/
theorem Inv.step_prev (h : Inv s nodes) {a : Action Record}
    (hstep : CallbackList.step s a = some s') (hr : s'.fate r = .unlinked) :
    s'.links.prev r = s.links.prev r ∧ (s.fate r = .unlinked ∨ s.links.prev r ≠ none) := by
  cases a with
  | tryAddCallback pushed =>
      simp only [CallbackList.step, Option.ite_none_right_eq_some, Option.some.injEq] at hstep
      obtain ⟨-, rfl⟩ := hstep
      have hne : r ≠ pushed := fun heq => by simp [heq] at hr
      have hfate : s.fate r = .unlinked := by simpa [hne] using hr
      have hhead : s.links.head ≠ some r := by
        intro hhead
        have hlinked := (h.linked r).mp (h.represents.reached_iff.mp (.head hhead))
        rw [hfate] at hlinked
        cases hlinked
      simp only [tryAddCallback_eq]
      exact ⟨Links.prev_push_of_ne hne hhead, .inl hfate⟩
  | removeCallback removed =>
      simp only [CallbackList.step, Option.ite_none_right_eq_some] at hstep
      obtain ⟨hfates, hstep⟩ := hstep
      split at hstep
      next slot hslot =>
        cases hstep
        have hlinked : s.fate removed = .linked := by
          refine hfates.resolve_right fun htaken => ?_
          rw [h.null removed (.inr htaken)] at hslot
          cases hslot
        have hmem := (h.linked removed).mpr hlinked
        simp only [unlink_eq h.represents hmem hslot]
        by_cases heq : r = removed
        · -- the write to its successor does not hit the record itself
          subst heq
          have hself := h.represents.segment.next_ne_self h.represents.nodup hmem
          exact ⟨Links.prev_unlink_of_ne hself, .inr (by simp [hslot])⟩
        · have hfate : s.fate r = .unlinked := by simpa [heq] using hr
          exact ⟨Links.prev_unlink_of_ne (h.next_ne hmem (by simp [hfate])), .inl hfate⟩
      next =>
        cases hstep
        exact ⟨rfl, .inl hr⟩
  | pop =>
      simp only [CallbackList.step] at hstep
      split at hstep
      next first hhead =>
        cases hstep
        have hmem := h.represents.reached_iff.mp (.head hhead)
        have hne : r ≠ first := fun heq => by simp [heq] at hr
        have hfate : s.fate r = .unlinked := by simpa [hne] using hr
        simp only [pop_eq]
        exact ⟨Links.prev_pop_of_ne hne (h.next_ne hmem (by simp [hfate])), .inl hfate⟩
      next => cases hstep
  | drain fuel =>
      obtain ⟨-, hfates, hprev⟩ := (h.drain _).2 s' hstep
      have hfate : s.fate r = .unlinked := by
        have hfate := hfates r
        rw [hr] at hfate
        split at hfate
        · cases hfate
        · exact hfate.symm
      exact ⟨hprev r (by simp [hfate]), .inl hfate⟩

/-- The links of every reachable state represent a list. -/
theorem inv_of_reachable (hs : (machine Record).Reachable s) : ∃ nodes, Inv s nodes := by
  induction hs with
  | initial hinit =>
      subst hinit
      exact ⟨_, Inv.initial⟩
  | step hs hstep ih =>
      obtain ⟨nodes, hinv⟩ := ih
      exact ⟨_, (hinv.step hstep).1⟩

/-- An unlinked record points at the slot that it was unlinked from. -/
theorem prev_of_unlinked (hs : (machine Record).Reachable s) (hr : s.fate r = .unlinked) :
    s.links.prev r ≠ none := by
  induction hs with
  | initial hinit =>
      subst hinit
      cases hr
  | step hs hstep ih =>
      obtain ⟨nodes, hinv⟩ := inv_of_reachable hs
      obtain ⟨hprev, hfate | hbefore⟩ := hinv.step_prev hstep hr
      · rw [hprev]
        exact ih hfate
      · rw [hprev]
        exact hbefore

theorem taken_run {trace : List (State Record × Action Record)}
    (hs : (machine Record).Reachable s) (hrun : (machine Record).Run s trace s')
    (htaken : s.fate r = .taken) : s'.fate r = .taken := by
  induction hrun with
  | nil => exact htaken
  | snoc hprefix hstep ih =>
      obtain ⟨nodes, hinv⟩ := inv_of_reachable (hs.run hprefix)
      exact (hinv.step hstep).2 r ih

/-- A record that a pop or the drain takes off the list. -/
theorem Inv.taken (h : Inv s nodes) {a : Action Record} (hstep : CallbackList.step s a = some s')
    (ha : a = .pop ∨ ∃ fuel, a = .drain fuel) (hbefore : s.links.Reached r)
    (hafter : ¬ s'.links.Reached r) : s'.fate r = .taken := by
  have hr := h.represents.reached_iff.mp hbefore
  have hlinked := (h.linked r).mp hr
  rcases ha with rfl | ⟨fuel, rfl⟩
  · have hinv := (h.step hstep).1
    have hnot : r ∉ nodes.tail := fun hmem => hafter (hinv.represents.reached_iff.mpr hmem)
    simp only [CallbackList.step] at hstep
    split at hstep
    next first hhead =>
      cases hstep
      have hfirst := h.represents.segment.read_eq_head
      cases nodes with
      | nil => cases hr
      | cons first' rest =>
          obtain rfl : first = first' := Option.some.inj (hhead.symm.trans hfirst)
          obtain rfl : r = first := (List.mem_cons.mp hr).resolve_right hnot
          simp
    next => cases hstep
  · obtain ⟨-, hfate, -⟩ := (h.drain _).2 s' hstep
    simp [hfate, hlinked]

/-- The shape of the list and the effect of each operation on it. -/
structure ListContract (s : State Record) : Prop where
  /-- Following `next` from the head visits finitely many records, none twice. -/
  shape : ∃ nodes, s.links.Represents nodes ∧ ∀ r, s.links.Reached r ↔ r ∈ nodes
  /-- A linked record points back at the slot that points at it. -/
  slot : ∀ r, s.links.Reached r → ∃ place, s.links.prev r = some place ∧
    s.links.read place = some r ∧
      (place = .head ∨ ∃ before, s.links.Reached before ∧ place = .next before)
  /-- Unless a record was unlinked, it is linked if and only if it points back at
  a slot; one that was unlinked is not in the list and keeps its last `prev_ptr`. -/
  linked_iff : ∀ r, s.fate r ≠ .unlinked → (s.links.Reached r ↔ s.links.prev r ≠ none)
  unlinked : ∀ r, s.fate r = .unlinked → ¬ s.links.Reached r ∧ s.links.prev r ≠ none
  kept : ∀ a s' r, step s a = some s' → s'.fate r = .unlinked →
    s'.links.prev r = s.links.prev r
  /-- A push puts its record first, an unlink removes exactly its record, a pop
  the first, and the drain all of them. -/
  effect : ∀ a s' nodes, s.links.Represents nodes → step s a = some s' →
    s'.links.Represents (a.onList nodes)
  /-- The drain ends. -/
  drained : ∃ fuel, (step s (.drain fuel)).isSome = true
  /-- A popped or drained record is never linked again. -/
  never : ∀ a s₁ r, (a = .pop ∨ ∃ fuel, a = .drain fuel) → step s a = some s₁ →
    s.links.Reached r → ¬ s₁.links.Reached r →
    ∀ trace s', (machine Record).Run s₁ trace s' → ¬ s'.links.Reached r

/-- The contract holds after any sequence of operations. -/
theorem list_contract (hs : (machine Record).Reachable s) : ListContract s := by
  obtain ⟨nodes, hinv⟩ := inv_of_reachable hs
  have hreached : ∀ r, s.links.Reached r ↔ r ∈ nodes := fun r => hinv.represents.reached_iff
  refine ⟨⟨nodes, hinv.represents, hreached⟩, ?_, ?_, ?_, ?_, ?_,
    ⟨nodes.length, hinv.drain _ |>.1 le_rfl⟩, ?_⟩
  · intro r hr
    obtain ⟨place, hplace, hread, hwhere⟩ :=
      hinv.represents.segment.prev_spec ((hreached r).mp hr)
    refine ⟨place, hplace, hread, hwhere.imp_right ?_⟩
    rintro ⟨before, hbefore, hplace⟩
    exact ⟨before, (hreached before).mpr hbefore, hplace⟩
  · intro r hfate
    constructor
    · exact fun hr => hinv.represents.segment.prev_ne_none ((hreached r).mp hr)
    · intro hprev
      rw [hreached, hinv.linked]
      cases hr : s.fate r with
      | linked => rfl
      | unlinked => exact absurd hr hfate
      | fresh => exact absurd (hinv.null r (.inl hr)) hprev
      | taken => exact absurd (hinv.null r (.inr hr)) hprev
  · intro r hfate
    refine ⟨fun hr => ?_, prev_of_unlinked hs hfate⟩
    have hlinked := (hinv.linked r).mp ((hreached r).mp hr)
    rw [hfate] at hlinked
    cases hlinked
  · intro a s' r hstep hfate
    exact (hinv.step_prev hstep hfate).1
  · intro a s' nodes' hrep hstep
    obtain rfl : nodes' = nodes := hrep.segment.unique hinv.represents.segment
    exact (hinv.step hstep).1.represents
  · intro a s₁ r ha hstep hbefore hafter trace s' hrun hr
    have hs₁ := Machine.Reachable.step (a := a) hs hstep
    have htaken := taken_run hs₁ hrun (hinv.taken hstep ha hbefore hafter)
    obtain ⟨nodes', hinv'⟩ := inv_of_reachable (hs₁.run hrun)
    exact hinv'.not_mem (.inr htaken) (hinv'.represents.reached_iff.mp hr)

/-- Two records are pushed and the first is unlinked from behind the second. -/
def unlinkRun : List (Action Pair) :=
  [.tryAddCallback .first, .tryAddCallback .second, .removeCallback .first]

theorem list_contract_unlinkRun :
    ∃ s : State Pair, ListContract s ∧ s.links.head = some .second ∧
      s.fate .first = .unlinked := by
  refine ⟨_, list_contract (Machine.reachable_replay rfl unlinkRun (by decide)), ?_⟩
  decide

omit [DecidableEq Record] in
theorem not_reached_of_empty (hhead : s.links.head = none) : ¬ s.links.Reached r := by
  intro hreached
  induction hreached with
  | head hr => cases hhead.symm.trans hr
  | next _ _ ih => exact ih

/-- A record keeps its stale `prev_ptr` when its destructor has unlinked it. -/
theorem not_linked_iff_of_unlinked :
    ∃ s : State Pair, (machine Pair).Reachable s ∧
      ¬ ∀ r, s.links.Reached r ↔ s.links.prev r ≠ none := by
  refine ⟨_, Machine.reachable_replay rfl [.tryAddCallback .first, .removeCallback .first]
    (by decide), ?_⟩
  intro hall
  have hprev := (hall .first).mpr (by decide)
  exact not_reached_of_empty (by decide) hprev

end Bexec.StopToken.CallbackList
