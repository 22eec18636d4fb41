import Bexec.CountingScope.Phases

/-!
# Every step keeps the joins in order

The invariant of the joins is preserved by every step of the scope, given the
accounting of its word.
-/

namespace Bexec.CountingScope

open Foundation

variable {Thread Handle Join : Type} [Fintype Thread] [DecidableEq Handle] [DecidableEq Join]
  [DecidableEq Thread] {s s' : State Thread Handle Join} {t : Thread} {j : Join}
  {old new rest : List (Frame Handle Join)}

/-- The invariant of the joins. -/
def Joins (s : State Thread Handle Join) : Prop :=
  ∃ waiting draining, Places s waiting draining ∧ Phases s waiting

namespace Joins

variable (old new) in
/-- A step of the handles: it moves no join. -/
theorem quiet (h : Joins s) (hstack : s.stack t = old ++ rest)
    (hstack' : s'.stack = Function.update s.stack t (new ++ rest))
    (hjoiners : s'.joiners = s.joiners) (hnext : s'.next = s.next)
    (hlog : s'.log = s.log ∨ (∃ h, s'.log = .associated h :: s.log) ∨
      (∃ h, s'.log = .rejected h :: s.log) ∨ s'.log = .disassociated :: s.log)
    (hold : ∀ frame ∈ old, frame.registering = false ∧ frame.claiming = false ∧
      frame.walking = false)
    (hnew : ∀ frame ∈ new, frame.registering = false ∧ frame.claiming = false ∧
      frame.walking = false)
    (hjoining : ∀ j, new.countP (Frame.joining j) = old.countP (Frame.joining j))
    (hword : isJoining s'.word = isJoining s.word)
    (hclosed : s.word = closedBit → s'.word = closedBit) : Joins s' := by
  obtain ⟨waiting, draining, hplaces, hphases⟩ := h
  have hzero : ∀ (p : Frame Handle Join → Bool) (frames : List (Frame Handle Join)),
      (∀ frame ∈ frames, p frame = false) → frames.countP p = 0 := by
    intro p frames hp
    exact List.countP_eq_zero.mpr fun frame hframe => by simp [hp frame hframe]
  have hcount : ∀ event : Event Handle Join, (∀ h, event ≠ .associated h) →
      (∀ h, event ≠ .rejected h) → event ≠ .disassociated →
      s'.log.count event = s.log.count event := by
    intro event hassociated hrejected hdisassociated
    rcases hlog with heq | ⟨handle, heq⟩ | ⟨handle, heq⟩ | heq
    · rw [heq]
    · rw [heq, count_of_ne _ _ (hassociated handle).symm]
    · rw [heq, count_of_ne _ _ (hrejected handle).symm]
    · rw [heq, count_of_ne _ _ hdisassociated.symm]
  refine ⟨waiting, draining, ?_, ?_⟩
  · refine hplaces.quiet _ _ hstack hstack' hjoiners (fun _ _ _ hchain => hnext ▸ hchain) hcount
      hjoining ?_ ?_
    · rw [hzero _ _ fun frame hframe => (hnew frame hframe).2.2,
        hzero _ _ fun frame hframe => (hold frame hframe).2.2]
    · intro frame hframe list hlist
      have hfalse := (hnew frame hframe).2.2
      rw [Frame.walking, hlist] at hfalse
      cases hfalse
  · refine hphases.quiet _ _ hstack hstack' hjoiners ?_ ?_ ?_ ?_ hword hclosed ?_
    · rcases hlog with heq | ⟨handle, heq⟩ | ⟨handle, heq⟩ | heq
      · exact Or.inl heq
      · exact Or.inr ⟨_, heq, (by simp), (by simp)⟩
      · exact Or.inr ⟨_, heq, (by simp), (by simp)⟩
      · exact Or.inr ⟨_, heq, (by simp), (by simp)⟩
    · rw [hzero _ _ fun frame hframe => (hnew frame hframe).1,
        hzero _ _ fun frame hframe => (hold frame hframe).1]
    · rw [hzero _ _ fun frame hframe => (hnew frame hframe).2.1,
        hzero _ _ fun frame hframe => (hold frame hframe).2.1]
    · intro frame hframe hrefused
      have hfalse := (hnew frame hframe).1
      cases frame with
      | registerJoiner waiter head => cases hfalse
      | _ => cases hrefused
    · intro j hj
      have hcompleted := hcount (.completed j) (by simp) (by simp) (by simp)
      rw [← List.count_pos_iff, hcompleted, List.count_pos_iff] at hj
      exact Or.inl hj

theorem tryAssociate (h : Joins s) (hs : ScopeInv s) {weak : Bool} {target : Handle}
    {source : Option Handle} {bits : Option Word}
    (hstack : s.stack t = .tryAssociate target source bits :: rest) :
    Joins (s.tryAssociate t rest weak target source bits) := by
  have hload : Joins (s.setStack t (.tryAssociate target source (some s.word) :: rest)) :=
    h.quiet [_] [_] hstack rfl rfl rfl (Or.inl rfl)
      (by simp [Frame.registering, Frame.claiming, Frame.walking, Frame.cursor])
      (by simp [Frame.registering, Frame.claiming, Frame.walking, Frame.cursor])
      (fun _ => rfl) rfl id
  have hreturn : ∀ (s' : State Thread Handle Join) event, s'.log = event :: s.log →
      event = .rejected target ∨ event = .associated target →
      s'.stack = Function.update s.stack t rest → s'.joiners = s.joiners → s'.next = s.next →
      isJoining s'.word = isJoining s.word → (s.word = closedBit → s'.word = closedBit) →
      Joins s' := by
    intro s' event hlog hevent hstack' hjoiners hnext hword hclosed
    refine h.quiet [_] [] hstack hstack' hjoiners hnext ?_
      (by simp [Frame.registering, Frame.claiming, Frame.walking, Frame.cursor]) (by simp)
      (fun _ => rfl) hword hclosed
    rcases hevent with rfl | rfl
    · exact Or.inr (Or.inr (Or.inl ⟨target, hlog⟩))
    · exact Or.inr (Or.inl ⟨target, hlog⟩)
  cases bits with
  | none => exact hload
  | some bits =>
      simp only [State.tryAssociate]
      split
      · exact hreturn _ _ rfl (Or.inl rfl) rfl rfl rfl rfl id
      next hopen =>
        split
        next hcas =>
          obtain ⟨rfl, -⟩ := hcas
          simp only [Bool.or_eq_true, decide_eq_true_eq, not_or, Bool.not_eq_true] at hopen
          obtain ⟨_, _, hjoining⟩ := hs.legal.associate hopen.1 hopen.2 rfl
          refine hreturn _ _ rfl (Or.inr rfl) rfl rfl rfl hjoining ?_
          intro hclosed
          rw [hclosed] at hopen
          exact absurd hopen.1 (by decide)
        next => exact hload

theorem disassociate (h : Joins s) (hs : ScopeInv s) {weak : Bool} {after : After Handle}
    {bits : Option Word} (hstack : s.stack t = .disassociate after bits :: rest) :
    Joins (s.disassociate t rest weak after bits) := by
  have hframe : .disassociate after bits ∈ s.stack t := by
    rw [hstack]
    exact List.mem_cons_self
  have hpos := hs.release_pos hframe
  have hload : Joins (s.setStack t (.disassociate after (some s.word) :: rest)) :=
    h.quiet [_] [_] hstack rfl rfl rfl (Or.inl rfl)
      (by simp [Frame.registering, Frame.claiming, Frame.walking, Frame.cursor])
      (by simp [Frame.registering, Frame.claiming, Frame.walking, Frame.cursor])
      (fun _ => rfl) rfl id
  cases bits with
  | none => exact hload
  | some bits =>
      simp only [State.disassociate]
      split
      next hcas =>
        obtain ⟨rfl, -⟩ := hcas
        by_cases hlast : countOf s.word - 1 = 0 ∧ isJoining s.word = true
        · have hword : disassociated s.word = closedBit := if_pos hlast
          rw [hword, if_pos (by decide)]
          obtain ⟨waiting, draining, hplaces, hphases⟩ := h
          refine ⟨waiting, draining, ?_, hphases.disassociateLast hstack hlast.2 rfl⟩
          refine hplaces.quiet [_] [_] hstack rfl rfl (fun _ _ _ hchain => hchain)
            ?_ (fun _ => rfl) rfl (by simp [Frame.cursor])
          intro event _ _ hne
          exact count_of_ne _ _ hne.symm
        · have hword : disassociated s.word = makeWord (countOf s.word - 1) (stateOf s.word) :=
            if_neg hlast
          obtain ⟨_, _, hjoining, hne⟩ := hs.legal.disassociate hpos hlast hword
          rw [if_neg (by simpa [isJoined] using hne), resume_eq]
          refine h.quiet [_] _ hstack rfl rfl rfl (Or.inr (Or.inr (Or.inr rfl)))
            (by simp [Frame.registering, Frame.claiming, Frame.walking, Frame.cursor]) ?_ ?_
            hjoining ?_
          · intro frame hframe
            cases after with
            | done => cases hframe
            | transfer target source =>
                rw [List.mem_singleton.mp hframe]
                exact ⟨rfl, rfl, rfl⟩
          · intro j
            cases after <;> rfl
          · intro hclosed
            rw [hclosed, associations_closedBit] at hpos
            cases hpos
      next => exact hload

theorem startJoin (h : Joins s) (hs : ScopeInv s) {weak : Bool} {bits : Option Word}
    (hstack : s.stack t = .startJoin j bits :: rest) :
    Joins (s.startJoin t rest weak j bits) := by
  have hload : Joins (s.setStack t (.startJoin j (some s.word) :: rest)) :=
    h.quiet [_] [_] hstack rfl rfl rfl (Or.inl rfl)
      (by simp [Frame.registering, Frame.claiming, Frame.walking, Frame.cursor])
      (by simp [Frame.registering, Frame.claiming, Frame.walking, Frame.cursor])
      (fun _ => rfl) rfl id
  cases bits with
  | none => exact hload
  | some bits =>
      simp only [State.startJoin]
      split
      next hcas =>
        obtain ⟨rfl, -⟩ := hcas
        obtain ⟨waiting, draining, hplaces, hphases⟩ := h
        split
        next hzero =>
          have hcount : associations s.word = 0 := by
            rw [associations, hzero]
            rfl
          have hidle : isJoining s.word = false := by
            rw [Bool.eq_false_iff]
            intro hjoining
            have hpos := hs.legal.pos_of_joining hjoining
            omega
          refine ⟨waiting, draining, ?_, hphases.joinIdle hstack hidle rfl⟩
          exact hplaces.completeInline _ hstack rfl (fun _ => rfl) rfl
        next hne =>
          have hpos : 0 < associations s.word := by
            rw [Nat.pos_iff_ne_zero]
            exact fun hzero => hne (BitVec.eq_of_toNat_eq hzero)
          have hopen : s.word ≠ closedBit := by
            intro hclosed
            rw [hclosed, associations_closedBit] at hpos
            cases hpos
          obtain ⟨_, _, hjoining⟩ := hs.legal.startJoin hpos
          refine ⟨waiting, draining, ?_, hphases.joinBusy hstack hopen hjoining rfl⟩
          exact hplaces.quiet [_] [_] hstack rfl rfl (fun _ _ _ hchain => hchain)
            (fun _ _ _ _ => rfl) (fun _ => rfl) rfl (by simp [Frame.cursor])
      next => exact hload

theorem registerJoiner (h : Joins s) {weak : Bool} {seen : Option (Joiners Join)}
    (hstack : s.stack t = .registerJoiner j seen :: rest) :
    Joins (s.registerJoiner t rest weak j seen) := by
  obtain ⟨waiting, draining, hplaces, hphases⟩ := h
  have hpos : 0 < CallStack.census (Frame.joining j) s.stack := by
    refine CallStack.census_pos.mpr ⟨t, .registerJoiner j seen, ?_, by simp [Frame.joining]⟩
    rw [hstack]
    exact List.mem_cons_self
  obtain ⟨_, hnot, _⟩ := hplaces.of_joining hpos
  have hload : ∀ next', (next' = s.next ∨ ∃ head, next' = Function.update s.next j head) →
      Joins ({ s with next := next' }.setStack t (.registerJoiner j (some s.joiners) :: rest)) := by
    intro next' hnext'
    refine ⟨waiting, draining, ?_, ?_⟩
    · refine hplaces.quiet [_] [_] hstack rfl rfl ?_ (fun _ _ _ _ => rfl)
        (fun _ => rfl) rfl (by simp [Frame.cursor])
      intro list nodes hnodes hchain
      rcases hnext' with rfl | ⟨head, rfl⟩
      · exact hchain
      · exact hchain.update (fun hmem => hnot (hnodes j hmem)) head
    · refine hphases.quiet [_] [_] hstack rfl rfl (Or.inl rfl) rfl rfl ?_ rfl id
        (fun _ => Or.inl)
      intro frame hframe hrefused
      rw [List.mem_singleton.mp hframe] at hrefused
      refine hphases.sentinel.mp ?_
      cases hjoiners : s.joiners with
      | sentinel => rfl
      | list head =>
          rw [hjoiners] at hrefused
          cases hrefused
  cases seen with
  | none => exact hload s.next (Or.inl rfl)
  | some joiners =>
      cases joiners with
      | sentinel =>
          refine ⟨waiting, draining, ?_, hphases.refuse hstack rfl⟩
          exact hplaces.completeInline s.word hstack rfl (fun _ => rfl) rfl
      | list head =>
          simp only [State.registerJoiner]
          split
          next hcas =>
            exact ⟨j :: waiting, draining, hplaces.push hstack hcas.1 rfl,
              hphases.push hstack hcas.1 rfl⟩
          next => exact hload _ (Or.inr ⟨head, rfl⟩)

theorem drain (h : Joins s) {after : After Handle} {list : Option Join}
    (hstack : s.stack t = .drain after list :: rest) : Joins (s.drain t rest after list) := by
  obtain ⟨waiting, draining, hplaces, hphases⟩ := h
  have hpos : 0 < s.log.count .drained := by
    refine Nat.lt_of_lt_of_le ?_ hplaces.walking
    refine CallStack.census_pos.mpr ⟨t, .drain after list, ?_, rfl⟩
    rw [hstack]
    exact List.mem_cons_self
  have hclosed : s.word = closedBit := by
    refine hphases.closed ?_
    rw [begun]
    omega
  cases list with
  | none =>
      refine ⟨waiting, draining, hplaces.drainEnd hstack rfl, ?_⟩
      refine hphases.quiet [_] (after.resume []) hstack ?_ rfl (Or.inl rfl) ?_ ?_
        ?_ rfl id (fun _ => Or.inl)
      · rw [← resume_eq]
        rfl
      · cases after <;> rfl
      · cases after <;> rfl
      · intro frame hframe hrefused
        cases after with
        | done => cases hframe
        | transfer target source =>
            rw [List.mem_singleton.mp hframe] at hrefused
            cases hrefused
  | some waiter =>
      obtain ⟨left, rfl, hplaces'⟩ := hplaces.drainNext hstack hphases.drained_le rfl
      refine ⟨waiting, left, hplaces', ?_⟩
      exact hphases.quiet [_] [_] hstack rfl rfl
        (Or.inr ⟨.completed waiter, rfl, (by simp), (by simp)⟩) rfl rfl (by simp [Frame.refused]) rfl id
        (fun _ _ => Or.inr hclosed)

theorem frameStep (h : Joins s) (hs : ScopeInv s) {weak : Bool} {frame : Frame Handle Join}
    (hstack : s.stack t = frame :: rest) (hstep : frame.step s t rest weak = some s') :
    Joins s' := by
  cases frame with
  | tryAssociate target source bits =>
      cases hstep
      exact h.tryAssociate hs hstack
  | disassociate after bits =>
      cases hstep
      exact h.disassociate hs hstack
  | completeRegisteredJoins after =>
      simp only [Frame.step] at hstep
      split at hstep
      next head hjoiners =>
        cases hstep
        obtain ⟨waiting, draining, hplaces, hphases⟩ := h
        have hfirst : s.log.count .drained = 0 := by
          refine Nat.eq_zero_of_not_pos (fun hpos => ?_)
          have hsentinel := hphases.sentinel.mpr hpos
          rw [hjoiners] at hsentinel
          cases hsentinel
        exact ⟨[], waiting, hplaces.exchange hstack hjoiners hfirst rfl,
          hphases.exchange hstack rfl⟩
      next => cases hstep
  | drain after list =>
      cases hstep
      exact h.drain hstack
  | completeDeferred after list => cases hstep
  | transfer target source =>
      cases hstep
      exact h.quiet [_] [] hstack rfl rfl rfl (Or.inl rfl)
        (by simp [Frame.registering, Frame.claiming, Frame.walking, Frame.cursor]) (by simp)
        (fun _ => rfl) rfl id
  | startJoin waiter bits =>
      cases hstep
      exact h.startJoin hs hstack
  | registerJoiner waiter head =>
      cases hstep
      exact h.registerJoiner hstack

/-- User code calls an operation of the handles. -/
theorem call (h : Joins s) {frame : Frame Handle Join}
    (hstack' : s'.stack = Function.update s.stack t (frame :: s.stack t))
    (hjoiners : s'.joiners = s.joiners) (hnext : s'.next = s.next) (hlog : s'.log = s.log)
    (hword : s'.word = s.word) (hframe : frame.registering = false ∧ frame.claiming = false ∧
      frame.walking = false) (hjoining : ∀ j, frame.joining j = false) : Joins s' := by
  refine h.quiet [] [frame] rfl hstack' hjoiners hnext (Or.inl hlog) (by simp) ?_ ?_
    (by rw [hword]) (fun hclosed => hword.trans hclosed)
  · intro frame' hframe'
    rw [List.mem_singleton.mp hframe']
    exact hframe
  · intro j
    rw [countP_singleton, hjoining]
    rfl

/-- User code changes handles or closes the scope. -/
theorem direct (h : Joins s) (hstack : s'.stack = s.stack) (hjoiners : s'.joiners = s.joiners)
    (hnext : s'.next = s.next) (hlog : s'.log = s.log)
    (hword : isJoining s'.word = isJoining s.word)
    (hclosed : s.word = closedBit → s'.word = closedBit) (t : Thread) : Joins s' := by
  refine h.quiet (t := t) [] [] rfl ?_ hjoiners hnext (Or.inl hlog) (by simp) (by simp)
    (fun _ => rfl) hword hclosed
  rw [hstack]
  exact (Function.update_eq_self t s.stack).symm

theorem step (h : Joins s) (hs : ScopeInv s) {a : Action Thread Handle Join}
    (hstep : CountingScope.step s a = some s') : Joins s' := by
  cases a with
  | run t weak =>
      simp only [CountingScope.step] at hstep
      split at hstep
      · cases hstep
      next hstack => exact h.frameStep hs hstack hstep
  | ret t =>
      simp only [CountingScope.step] at hstep
      split at hstep
      next after list rest hstack =>
        cases hstep
        obtain ⟨waiting, draining, hplaces, hphases⟩ := h
        refine ⟨waiting, draining, ?_, ?_⟩
        · exact hplaces.quiet [_] [_] hstack rfl rfl (fun _ _ _ hchain => hchain)
            (fun _ _ _ _ => rfl) (fun _ => rfl) rfl (by simp [Frame.cursor])
        · exact hphases.quiet [_] [_] hstack rfl rfl (Or.inl rfl) rfl rfl
            (by simp [Frame.refused]) rfl id (fun _ => Or.inl)
      next => cases hstep
  | create t handle | moveConstruct t handle source =>
      simp only [CountingScope.step, Option.ite_none_right_eq_some, Option.some.injEq] at hstep
      obtain ⟨_, rfl⟩ := hstep
      exact h.direct rfl rfl rfl rfl rfl id t
  | associate t handle =>
      simp only [CountingScope.step, Option.ite_none_right_eq_some, Option.some.injEq] at hstep
      obtain ⟨_, rfl⟩ := hstep
      exact h.call rfl rfl rfl rfl rfl ⟨rfl, rfl, rfl⟩ (fun _ => rfl)
  | associateFrom t handle source | destroy t handle =>
      simp only [CountingScope.step, Option.ite_none_right_eq_some] at hstep
      obtain ⟨_, hstep⟩ := hstep
      split at hstep <;> cases hstep
      · exact h.call rfl rfl rfl rfl rfl ⟨rfl, rfl, rfl⟩ (fun _ => rfl)
      · exact h.direct rfl rfl rfl rfl rfl id t
  | moveAssign t handle source =>
      simp only [CountingScope.step, Option.ite_none_right_eq_some] at hstep
      obtain ⟨_, hstep⟩ := hstep
      split at hstep
      · cases hstep
        exact h
      · split at hstep <;> cases hstep
        · exact h.call rfl rfl rfl rfl rfl ⟨rfl, rfl, rfl⟩ (fun _ => rfl)
        · exact h.direct rfl rfl rfl rfl rfl id t
  | close t =>
      simp only [CountingScope.step, Option.ite_none_right_eq_some, Option.some.injEq] at hstep
      obtain ⟨_, rfl⟩ := hstep
      refine h.direct rfl rfl rfl rfl hs.legal.close.2.2 ?_ t
      intro hclosed
      rw [hclosed]
      exact BitVec.or_self
  | join t j =>
      simp only [CountingScope.step, Option.ite_none_right_eq_some, Option.some.injEq] at hstep
      obtain ⟨⟨_, hnew⟩, rfl⟩ := hstep
      obtain ⟨waiting, draining, hplaces, hphases⟩ := h
      refine ⟨waiting, draining, hplaces.start hnew rfl, ?_⟩
      refine hphases.quiet [] [_] rfl rfl rfl
        (Or.inr ⟨.started j, rfl, (by simp), (by simp)⟩) rfl rfl (by simp [Frame.refused]) rfl id ?_
      intro j' hj'
      exact Or.inl (by simpa [State.setStack, State.record] using hj')
  | reuse j next =>
      simp only [CountingScope.step, Option.ite_none_right_eq_some, Option.some.injEq] at hstep
      obtain ⟨hcompleted, rfl⟩ := hstep
      obtain ⟨waiting, draining, hplaces, hphases⟩ := h
      have hnot := hplaces.of_completed hcompleted
      refine ⟨waiting, draining, ⟨?_, ?_, hplaces.walking, hplaces.finished, hplaces.nodup,
        hplaces.account, hplaces.once, hplaces.linked⟩, ⟨hphases.order, hphases.begun,
        hphases.running, hphases.closed, hphases.sentinel, hphases.refused, hphases.attached,
        hphases.outstanding, hphases.completed⟩⟩
      · have hlist := hplaces.list
        cases hjoiners : s.joiners with
        | sentinel => simpa [hjoiners] using hlist
        | list head =>
            simp only [hjoiners] at hlist ⊢
            exact hlist.update (fun hmem => hnot (List.mem_append_left _ hmem)) next
      · intro t frame hframe list hlist
        exact (hplaces.cursor t frame hframe list hlist).update
          (fun hmem => hnot (List.mem_append_right _ hmem)) next

omit [DecidableEq Thread] in
theorem initial : Joins (State.initial : State Thread Handle Join) := by
  refine ⟨[], [], ⟨rfl, (by rintro _ _ ⟨⟩), ?_, fun _ => rfl, List.nodup_nil, ?_, fun _ => Nat.zero_le _, (by rintro _ ⟨⟩)⟩,
    ⟨trivial, ?_, ?_, ?_, ?_, (by rintro _ _ ⟨⟩), ?_, ?_, (by rintro _ ⟨⟩)⟩⟩
  all_goals simp [State.initial, begun, isJoining]

end Joins

theorem joins_of_reachable (hs : (machine Thread Handle Join).Reachable s) : Joins s := by
  refine hs.invariant ?_ ?_
  · intro s hs
    rw [hs]
    exact Joins.initial
  · exact fun s a s' hreach hinv hstep => hinv.step (scopeInv_of_reachable hreach) hstep

end Bexec.CountingScope
