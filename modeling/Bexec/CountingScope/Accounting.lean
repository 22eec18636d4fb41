import Bexec.CountingScope.Step

/-!
# Exact accounting of associations

The count in the word is the number of engaged handles plus the releases that
have emptied their handle and not yet decremented, in every reachable state.
-/

namespace Bexec.CountingScope

open Foundation

variable {Thread Handle Join : Type} [Fintype Thread]

section Definitions

variable [DecidableEq Handle]

/-- Releases between `std::exchange(scope_, nullptr)` and the decrement. -/
def pendingReleases (s : State Thread Handle Join) : Nat := CallStack.census Frame.releasing s.stack

/-- A move assignment in progress has emptied its target. -/
def After.Ready (s : State Thread Handle Join) : After Handle → Prop
  | .done => True
  | .transfer target _ => target ∈ s.present ∧ target ∉ s.engaged

/-- What a frame in progress knows about its handles. -/
def Frame.Ready (s : State Thread Handle Join) : Frame Handle Join → Prop
  | .tryAssociate target _ _ => target ∉ s.present
  | .disassociate after _ => after.Ready s
  | .completeRegisteredJoins after => after.Ready s
  | .drain after _ => after.Ready s
  | .completeDeferred after _ => after.Ready s
  | .transfer target source => (After.transfer target source).Ready s
  | _ => True

/-- The assertion in `disassociate` holds of the word it loaded. -/
def Frame.Loaded : Frame Handle Join → Prop
  | .disassociate _ (some bits) => 0 < associations bits
  | _ => True

structure ScopeInv (s : State Thread Handle Join) : Prop where
  legal : Legal s.word
  count : associations s.word = s.engaged.card + pendingReleases s
  within : s.engaged ⊆ s.present
  exclusive : ∀ h, CallStack.census (Frame.writes h) s.stack ≤ 1
  ready : ∀ t, ∀ frame ∈ s.stack t, frame.Ready s
  loaded : ∀ t, ∀ frame ∈ s.stack t, frame.Loaded

/-- The handle has the same status in both states. -/
def SameHandle (s s' : State Thread Handle Join) (h : Handle) : Prop :=
  (h ∈ s'.present ↔ h ∈ s.present) ∧ (h ∈ s'.engaged ↔ h ∈ s.engaged)

variable {s s' : State Thread Handle Join}

omit [Fintype Thread] in
theorem After.Ready.congr (after : After Handle)
    (hsame : ∀ h, after.writes h = true → SameHandle s s' h) (hready : after.Ready s) :
    after.Ready s' := by
  cases after with
  | done => trivial
  | transfer target source =>
      obtain ⟨hpresent, hengaged⟩ := hsame target (by simp [After.writes])
      obtain ⟨hin, hout⟩ := hready
      exact ⟨hpresent.mpr hin, fun hmem => hout (hengaged.mp hmem)⟩

omit [Fintype Thread] in
theorem Frame.Ready.congr {frame : Frame Handle Join}
    (hsame : ∀ h, frame.writes h = true → SameHandle s s' h) (hready : frame.Ready s) :
    frame.Ready s' := by
  cases frame with
  | tryAssociate target source bits =>
      obtain ⟨hpresent, _⟩ := hsame target (by simp [Frame.writes])
      exact fun hmem => hready (hpresent.mp hmem)
  | transfer target source => exact After.Ready.congr (.transfer target source) hsame hready
  | disassociate after _ | completeRegisteredJoins after | drain after _
  | completeDeferred after _ => exact After.Ready.congr after hsame hready
  | _ => trivial

end Definitions

section Resume

omit [Fintype Thread]

variable {s : State Thread Handle Join} {after : After Handle}

theorem resume_eq (after : After Handle) (rest : List (Frame Handle Join)) :
    after.resume rest = after.resume [] ++ rest := by
  cases after <;> rfl

theorem resume_ready (hready : after.Ready s) :
    ∀ frame ∈ after.resume ([] : List (Frame Handle Join)), frame.Ready s := by
  intro frame hframe
  cases after with
  | done => cases hframe
  | transfer target source =>
      rw [List.mem_singleton.mp hframe]
      exact hready

theorem resume_loaded : ∀ frame ∈ after.resume ([] : List (Frame Handle Join)), frame.Loaded := by
  intro frame hframe
  cases after with
  | done => cases hframe
  | transfer target source =>
      rw [List.mem_singleton.mp hframe]
      trivial

theorem resume_releasing :
    (after.resume ([] : List (Frame Handle Join))).countP Frame.releasing = 0 := by
  cases after <;> rfl

theorem resume_writes [DecidableEq Handle] (h : Handle) :
    (after.resume ([] : List (Frame Handle Join))).countP (Frame.writes h) =
      (after.writes h).toNat := by
  cases after with
  | done => rfl
  | transfer target source =>
      by_cases htarget : target = h <;> by_cases hsource : source = h <;>
        simp [After.resume, Frame.writes, After.writes, htarget, hsource]

theorem countP_singleton {Frame : Type} (p : Frame → Bool) (frame : Frame) :
    [frame].countP p = (p frame).toNat := by
  cases hp : p frame <;> simp [hp]

end Resume

/-- A release in progress is counted. -/
theorem ScopeInv.release_pos [DecidableEq Handle] {s : State Thread Handle Join} {t : Thread}
    (hs : ScopeInv s) {after : After Handle} {bits : Option Word}
    (hframe : .disassociate after bits ∈ s.stack t) : 0 < associations s.word := by
  have hpos : 0 < pendingReleases s := CallStack.census_pos.mpr ⟨t, _, hframe, rfl⟩
  have hcount := hs.count
  omega

variable [DecidableEq Thread] [DecidableEq Handle] {s s' : State Thread Handle Join} {t : Thread}
  {old new rest : List (Frame Handle Join)}

variable (old new) in
/-- A step replaces the top of one stack and changes only handles that no other
operation writes. -/
theorem ScopeInv.replace (hs : ScopeInv s) (hstack : s.stack t = old ++ rest)
    (hstack' : s'.stack = Function.update s.stack t (new ++ rest)) (hlegal : Legal s'.word)
    (hcount : associations s'.word + old.countP Frame.releasing + s.engaged.card =
      associations s.word + new.countP Frame.releasing + s'.engaged.card)
    (hwithin : s'.engaged ⊆ s'.present)
    (hexclusive : ∀ h, new.countP (Frame.writes h) ≤ old.countP (Frame.writes h) ∨
      CallStack.census (Frame.writes h) s.stack = 0 ∧ new.countP (Frame.writes h) ≤ 1)
    (hsame : ∀ h, SameHandle s s' h ∨ 0 < old.countP (Frame.writes h) ∨
      CallStack.census (Frame.writes h) s.stack = 0)
    (hready : ∀ frame ∈ new, frame.Ready s') (hloaded : ∀ frame ∈ new, frame.Loaded) :
    ScopeInv s' := by
  have hbeneath : ∀ h, 0 < old.countP (Frame.writes h) ∨
      CallStack.census (Frame.writes h) s.stack = 0 →
      CallStack.census (Frame.writes h) (Function.update s.stack t rest) = 0 := by
    intro h hcase
    have hcensus := CallStack.census_replace (Frame.writes h) _ [] hstack
    have hone := hs.exclusive h
    simp only [List.nil_append, List.countP_nil, Nat.add_zero] at hcensus
    omega
  refine ⟨hlegal, ?_, hwithin, ?_, ?_, ?_⟩
  · have hcensus := CallStack.census_replace (Frame.releasing) _ new hstack
    have hold := hs.count
    rw [pendingReleases] at hold ⊢
    rw [hstack']
    omega
  · intro h
    have hcensus := CallStack.census_replace (Frame.writes h) _ new hstack
    have hone := hs.exclusive h
    rw [hstack']
    rcases hexclusive h with hle | ⟨hzero, hle⟩ <;> omega
  · intro t' frame hframe
    rw [hstack'] at hframe
    rcases CallStack.mem_replace _ hframe with hnew | hother
    · exact hready frame hnew
    · refine Frame.Ready.congr ?_ (hs.ready t' frame (CallStack.mem_beneath _ hstack hother))
      intro h hwrites
      rcases hsame h with hsame | hmine
      · exact hsame
      · have hfalse := CallStack.census_eq_zero.mp (hbeneath h hmine) t' frame hother
        rw [hwrites] at hfalse
        cases hfalse
  · intro t' frame hframe
    rw [hstack'] at hframe
    rcases CallStack.mem_replace _ hframe with hnew | hother
    · exact hloaded frame hnew
    · exact hs.loaded t' frame (CallStack.mem_beneath _ hstack hother)

variable (old new) in
/-- A step that concerns neither the word nor the handles. -/
theorem ScopeInv.quiet (hs : ScopeInv s) (hstack : s.stack t = old ++ rest)
    (hstack' : s'.stack = Function.update s.stack t (new ++ rest)) (hword : s'.word = s.word)
    (hpresent : s'.present = s.present) (hengaged : s'.engaged = s.engaged)
    (hreleasing : new.countP Frame.releasing = old.countP Frame.releasing)
    (hwrites : ∀ h, new.countP (Frame.writes h) ≤ old.countP (Frame.writes h))
    (hready : ∀ frame ∈ new, frame.Ready s) (hloaded : ∀ frame ∈ new, frame.Loaded) :
    ScopeInv s' := by
  have hsame : ∀ h, SameHandle s s' h := fun h => ⟨by rw [hpresent], by rw [hengaged]⟩
  refine hs.replace _ _ hstack hstack' (hword ▸ hs.legal) ?_ ?_ (fun h => Or.inl (hwrites h))
    (fun h => Or.inl (hsame h)) ?_ hloaded
  · rw [hword, hengaged, hreleasing]
  · rw [hengaged, hpresent]
    exact hs.within
  · exact fun frame hframe => (hready frame hframe).congr fun h _ => hsame h

theorem ScopeInv.tryAssociate (hs : ScopeInv s) {weak : Bool} {target : Handle}
    {source : Option Handle} {bits : Option Word}
    (hstack : s.stack t = .tryAssociate target source bits :: rest) :
    ScopeInv (s.tryAssociate t rest weak target source bits) := by
  have htarget : target ∉ s.present :=
    hs.ready t (.tryAssociate target source bits) (by rw [hstack]; exact List.mem_cons_self)
  have hretry : ScopeInv (s.setStack t (.tryAssociate target source (some s.word) :: rest)) := by
    refine hs.quiet [_] [_] hstack rfl rfl rfl rfl ?_ ?_ ?_ ?_
    · rfl
    · exact fun h => by simp only [countP_singleton, Frame.writes, Nat.le_refl]
    · simpa [Frame.Ready] using htarget
    · simp [Frame.Loaded]
  have hothers : ∀ h, h = target ∨ ∀ engaged, SameHandle s (s.emplace target engaged) h := by
    intro h
    by_cases heq : h = target
    · exact Or.inl heq
    · refine Or.inr fun engaged => ⟨by simp [State.emplace, heq], ?_⟩
      cases engaged <;> simp [State.emplace, heq]
  have hsame : ∀ engaged h, SameHandle s (s.emplace target engaged) h ∨
      0 < [(.tryAssociate target source bits : Frame Handle Join)].countP (Frame.writes h) ∨
      CallStack.census (Frame.writes h) s.stack = 0 := by
    intro engaged h
    rcases hothers h with rfl | hother
    · exact Or.inr (Or.inl (by simp [Frame.writes]))
    · exact Or.inl (hother engaged)
  cases bits with
  | none => exact hretry
  | some bits =>
      simp only [State.tryAssociate]
      split
      · -- no effect: the handle is constructed empty
        refine hs.replace [_] [] hstack rfl hs.legal rfl ?_
          (fun h => Or.inl (Nat.zero_le _)) (hsame false) (by simp) (by simp)
        exact hs.within.trans (Finset.subset_insert _ _)
      next hopen =>
        split
        next hcas =>
          obtain ⟨rfl, -⟩ := hcas
          simp only [Bool.or_eq_true, decide_eq_true_eq, not_or, Bool.not_eq_true] at hopen
          obtain ⟨hlegal, hcount, _⟩ := hs.legal.associate hopen.1 hopen.2 rfl
          have hnew : target ∉ s.engaged := fun hmem => htarget (hs.within hmem)
          refine hs.replace [_] [] hstack rfl hlegal ?_ ?_
            (fun h => Or.inl (Nat.zero_le _)) (hsame true) (by simp) (by simp)
          · have hcard := Finset.card_insert_of_notMem hnew
            change associations (makeWord _ _) + 0 + s.engaged.card =
              associations s.word + 0 + (insert target s.engaged).card
            omega
          · exact Finset.insert_subset_insert _ hs.within
        next => exact hretry

theorem ScopeInv.disassociate (hs : ScopeInv s) {weak : Bool} {after : After Handle}
    {bits : Option Word} (hstack : s.stack t = .disassociate after bits :: rest) :
    ScopeInv (s.disassociate t rest weak after bits) := by
  have hframe : .disassociate after bits ∈ s.stack t := by
    rw [hstack]
    exact List.mem_cons_self
  have hready : after.Ready s := hs.ready t _ hframe
  have hpos := hs.release_pos hframe
  have hretry : ScopeInv (s.setStack t (.disassociate after (some s.word) :: rest)) := by
    refine hs.quiet [_] [_] hstack rfl rfl rfl rfl ?_ ?_ ?_ ?_
    · rfl
    · exact fun h => by simp only [countP_singleton, Frame.writes, Nat.le_refl]
    · simpa [Frame.Ready] using hready
    · simpa [Frame.Loaded] using hpos
  cases bits with
  | none => exact hretry
  | some bits =>
      simp only [State.disassociate]
      split
      next hcas =>
        obtain ⟨rfl, -⟩ := hcas
        by_cases hlast : countOf s.word - 1 = 0 ∧ isJoining s.word = true
        · have hword : disassociated s.word = closedBit := if_pos hlast
          have hone : associations s.word = 1 := by
            have hle : countOf s.word = 1 := by
              rw [← BitVec.sub_add_cancel (countOf s.word) 1, hlast.1]
              rfl
            rw [associations, hle]
            rfl
          rw [hword, if_pos (by decide)]
          refine hs.replace [_] [_] hstack rfl legal_closedBit ?_ hs.within ?_
            (fun _ => Or.inl ⟨Iff.rfl, Iff.rfl⟩) ?_ ?_
          · change associations closedBit + 1 + s.engaged.card =
              associations s.word + 0 + s.engaged.card
            rw [associations_closedBit, hone]
          · exact fun h => Or.inl (Nat.le_of_eq (by simp only [countP_singleton, Frame.writes]))
          · intro frame hframe
            rw [List.mem_singleton.mp hframe]
            exact hready
          · intro frame hframe
            rw [List.mem_singleton.mp hframe]
            trivial
        · have hword : disassociated s.word = makeWord (countOf s.word - 1) (stateOf s.word) :=
            if_neg hlast
          obtain ⟨hlegal, hcount, _, hne⟩ := hs.legal.disassociate hpos hlast hword
          rw [if_neg (by simpa [isJoined] using hne), resume_eq]
          refine hs.replace [_] _ hstack rfl hlegal ?_ hs.within ?_
            (fun _ => Or.inl ⟨Iff.rfl, Iff.rfl⟩) (resume_ready hready) resume_loaded
          · rw [resume_releasing]
            change associations (disassociated s.word) + 1 + s.engaged.card =
              associations s.word + 0 + s.engaged.card
            omega
          · intro h
            rw [resume_writes, countP_singleton]
            exact Or.inl (Nat.le_refl _)
      next => exact hretry

theorem ScopeInv.startJoin [DecidableEq Join] (hs : ScopeInv s) {weak : Bool} {waiter : Join}
    {bits : Option Word} (hstack : s.stack t = .startJoin waiter bits :: rest) :
    ScopeInv (s.startJoin t rest weak waiter bits) := by
  have hretry : ScopeInv (s.setStack t (.startJoin waiter (some s.word) :: rest)) :=
    hs.quiet [_] [_] hstack rfl rfl rfl rfl rfl (fun _ => Nat.le_refl _)
      (by simp [Frame.Ready]) (by simp [Frame.Loaded])
  cases bits with
  | none => exact hretry
  | some bits =>
      simp only [State.startJoin]
      split
      next hcas =>
        obtain ⟨rfl, -⟩ := hcas
        split
        next hzero =>
          have hcount : associations s.word = 0 := by
            rw [associations, hzero]
            rfl
          refine hs.replace [_] [] hstack rfl legal_closedBit ?_ hs.within
            (fun h => Or.inl (Nat.zero_le _)) (fun _ => Or.inl ⟨Iff.rfl, Iff.rfl⟩) (by simp) (by simp)
          change associations closedBit + 0 + s.engaged.card =
            associations s.word + 0 + s.engaged.card
          rw [associations_closedBit, hcount]
        next hne =>
          have hpos : 0 < associations s.word := by
            rw [Nat.pos_iff_ne_zero]
            exact fun hzero => hne (BitVec.eq_of_toNat_eq hzero)
          obtain ⟨hlegal, hcount, _⟩ := hs.legal.startJoin hpos
          refine hs.replace [_] [_] hstack rfl hlegal ?_ hs.within
            (fun h => Or.inl (Nat.le_refl _)) (fun _ => Or.inl ⟨Iff.rfl, Iff.rfl⟩)
            (by simp [Frame.Ready]) (by simp [Frame.Loaded])
          change associations (s.word ||| joinRunningBit) + 0 + s.engaged.card =
            associations s.word + 0 + s.engaged.card
          omega
      next => exact hretry

theorem ScopeInv.registerJoiner [DecidableEq Join] (hs : ScopeInv s) {weak : Bool} {waiter : Join}
    {head : Option (Joiners Join)} (hstack : s.stack t = .registerJoiner waiter head :: rest) :
    ScopeInv (s.registerJoiner t rest weak waiter head) := by
  have hdone : ∀ s' : State Thread Handle Join, s'.stack = Function.update s.stack t rest →
      s'.word = s.word → s'.present = s.present → s'.engaged = s.engaged → ScopeInv s' :=
    fun s' hstack' hword hpresent hengaged => hs.quiet [_] [] hstack hstack'
      hword hpresent hengaged rfl (fun _ => Nat.zero_le _) (by simp) (by simp)
  have hmove : ∀ (s' : State Thread Handle Join) head',
      s'.stack = Function.update s.stack t (.registerJoiner waiter head' :: rest) →
      s'.word = s.word → s'.present = s.present → s'.engaged = s.engaged → ScopeInv s' :=
    fun s' head' hstack' hword hpresent hengaged => hs.quiet [_] [_] hstack
      hstack' hword hpresent hengaged rfl (fun _ => Nat.le_refl _) (by simp [Frame.Ready])
      (by simp [Frame.Loaded])
  cases head with
  | none => exact hmove _ _ rfl rfl rfl rfl
  | some joiners =>
      cases joiners with
      | sentinel => exact hdone _ rfl rfl rfl rfl
      | list head =>
          simp only [State.registerJoiner]
          split
          · exact hdone _ rfl rfl rfl rfl
          · exact hmove _ _ rfl rfl rfl rfl

omit [DecidableEq Thread] in
theorem ScopeInv.top_ready (hs : ScopeInv s) {frame : Frame Handle Join}
    (hstack : s.stack t = frame :: rest) : frame.Ready s :=
  hs.ready t frame (by rw [hstack]; exact List.mem_cons_self)

omit [Fintype Thread] [DecidableEq Thread] in
/-- Moving an association from handle to handle. -/
theorem transfer_spec {target source : Handle} (hwithin : s.engaged ⊆ s.present)
    (hpresent : target ∈ s.present) (hempty : target ∉ s.engaged) :
    (s.transfer target source).engaged.card = s.engaged.card ∧
      (s.transfer target source).engaged ⊆ s.present ∧
      ∀ h, h = target ∨ h = source ∨ SameHandle s (s.transfer target source) h := by
  have hothers : ∀ h, h = target ∨ h = source ∨ SameHandle s (s.transfer target source) h := by
    intro h
    by_cases htarget : h = target
    · exact Or.inl htarget
    · by_cases hsource : h = source
      · exact Or.inr (Or.inl hsource)
      · refine Or.inr (Or.inr ⟨Iff.rfl, ?_⟩)
        simp only [State.transfer]
        split <;> simp [htarget, hsource]
  refine ⟨?_, ?_, hothers⟩
  · simp only [State.transfer]
    split
    next hmem =>
      have herase : target ∉ s.engaged.erase source :=
        fun htarget => hempty (Finset.mem_of_mem_erase htarget)
      rw [Finset.card_insert_of_notMem herase, Finset.card_erase_of_mem hmem]
      have hpos := Finset.card_pos.mpr ⟨source, hmem⟩
      omega
    next => rw [Finset.erase_eq_of_notMem hempty]
  · simp only [State.transfer]
    split
    next =>
      refine Finset.insert_subset hpresent ?_
      exact (Finset.erase_subset _ _).trans hwithin
    next => exact (Finset.erase_subset _ _).trans hwithin

theorem ScopeInv.transfer (hs : ScopeInv s) {target source : Handle}
    (hstack : s.stack t = .transfer target source :: rest) :
    ScopeInv ((s.transfer target source).setStack t rest) := by
  obtain ⟨hpresent, hempty⟩ := hs.top_ready hstack
  obtain ⟨hcard, hwithin, hsame⟩ := transfer_spec hs.within hpresent hempty
  refine hs.replace [_] [] hstack rfl hs.legal ?_ hwithin
    (fun _ => Or.inl (Nat.zero_le _)) ?_ (by simp) (by simp)
  · change associations s.word + 0 + s.engaged.card =
      associations s.word + 0 + (s.transfer target source).engaged.card
    omega
  · intro h
    rcases hsame h with rfl | rfl | hsame
    · exact Or.inr (Or.inl (by simp [Frame.writes]))
    · exact Or.inr (Or.inl (by simp [Frame.writes]))
    · exact Or.inl hsame

theorem ScopeInv.frameStep [DecidableEq Join] (hs : ScopeInv s) {weak : Bool}
    {frame : Frame Handle Join} (hstack : s.stack t = frame :: rest)
    (hstep : frame.step s t rest weak = some s') : ScopeInv s' := by
  have hready := hs.top_ready hstack
  cases frame with
  | tryAssociate target source bits =>
      cases hstep
      exact hs.tryAssociate hstack
  | disassociate after bits =>
      cases hstep
      exact hs.disassociate hstack
  | completeRegisteredJoins after =>
      simp only [Frame.step] at hstep
      split at hstep
      · cases hstep
        refine hs.quiet [_] [_] hstack rfl rfl rfl rfl rfl ?_ ?_ ?_
        · exact fun h => by simp only [countP_singleton, Frame.writes, Nat.le_refl]
        · simpa [Frame.Ready] using hready
        · simp [Frame.Loaded]
      · cases hstep
  | drain after list =>
      cases hstep
      cases list with
      | none =>
          simp only [State.drain]
          rw [resume_eq]
          refine hs.quiet [_] _ hstack rfl rfl rfl rfl ?_ ?_ (resume_ready hready)
            resume_loaded
          · rw [resume_releasing]
            rfl
          · intro h
            rw [resume_writes, countP_singleton]
            exact Nat.le_refl _
      | some waiter =>
          refine hs.quiet [_] [_] hstack rfl rfl rfl rfl rfl ?_ ?_ ?_
          · exact fun h => by simp only [countP_singleton, Frame.writes, Nat.le_refl]
          · simpa [Frame.Ready] using hready
          · simp [Frame.Loaded]
  | completeDeferred after list => cases hstep
  | transfer target source =>
      cases hstep
      exact hs.transfer hstack
  | startJoin waiter bits =>
      cases hstep
      exact hs.startJoin hstack
  | registerJoiner waiter head =>
      cases hstep
      exact hs.registerJoiner hstack

omit [DecidableEq Thread] in
theorem free_iff {h : Handle} : s.free h = true ↔
    CallStack.census (Frame.writes h) s.stack = 0 ∧
      CallStack.census (Frame.reads h) s.stack = 0 := by
  simp [State.free, State.readable]

/-- User code calls an operation that changes no handle yet. -/
theorem ScopeInv.call (hs : ScopeInv s) {frame : Frame Handle Join}
    (hstack' : s'.stack = Function.update s.stack t (frame :: s.stack t))
    (hword : s'.word = s.word) (hpresent : s'.present = s.present)
    (hengaged : s'.engaged = s.engaged) (hreleasing : frame.releasing = false)
    (hwrites : ∀ h, frame.writes h = true → CallStack.census (Frame.writes h) s.stack = 0)
    (hready : frame.Ready s) (hloaded : frame.Loaded) : ScopeInv s' := by
  have hsame : ∀ h, SameHandle s s' h := fun h => ⟨by rw [hpresent], by rw [hengaged]⟩
  refine hs.replace [] [frame] rfl hstack' (hword ▸ hs.legal) ?_ ?_ ?_
    (fun h => Or.inl (hsame h)) ?_ ?_
  · rw [hword, hengaged, countP_singleton, hreleasing]
    rfl
  · rw [hengaged, hpresent]
    exact hs.within
  · intro h
    rw [countP_singleton]
    cases hmine : frame.writes h with
    | false => exact Or.inl (Nat.le_refl _)
    | true => exact Or.inr ⟨hwrites h hmine, Nat.le_refl _⟩
  · intro frame' hframe
    rw [List.mem_singleton.mp hframe]
    exact hready.congr fun h _ => hsame h
  · intro frame' hframe
    rw [List.mem_singleton.mp hframe]
    exact hloaded

omit [DecidableEq Thread] in
/-- User code changes handles no operation in progress writes, and the word. -/
theorem ScopeInv.direct (hs : ScopeInv s) (hstack : s'.stack = s.stack) (hlegal : Legal s'.word)
    (hcount : associations s'.word + s.engaged.card = associations s.word + s'.engaged.card)
    (hwithin : s'.engaged ⊆ s'.present)
    (hsame : ∀ h, SameHandle s s' h ∨ CallStack.census (Frame.writes h) s.stack = 0) :
    ScopeInv s' := by
  refine ⟨hlegal, ?_, hwithin, hstack ▸ hs.exclusive, ?_, hstack ▸ hs.loaded⟩
  · have hold := hs.count
    rw [pendingReleases] at hold ⊢
    rw [hstack]
    omega
  · intro t frame hframe
    rw [hstack] at hframe
    refine (hs.ready t frame hframe).congr ?_
    intro h hwrites
    rcases hsame h with hsame | hzero
    · exact hsame
    · have hfalse := CallStack.census_eq_zero.mp hzero t frame hframe
      rw [hwrites] at hfalse
      cases hfalse

omit [DecidableEq Thread] in
theorem ScopeInv.emplace (hs : ScopeInv s) {h : Handle} (hfree : s.free h = true) :
    ScopeInv (s.emplace h false) := by
  refine hs.direct rfl hs.legal rfl (hs.within.trans (Finset.subset_insert _ _)) ?_
  intro h'
  by_cases heq : h' = h
  · exact Or.inr (heq ▸ (free_iff.mp hfree).1)
  · exact Or.inl ⟨by simp [State.emplace, heq], Iff.rfl⟩

omit [DecidableEq Thread] in
/-- A move between two handles, neither of which is in use. -/
theorem ScopeInv.move (hs : ScopeInv s) {target source : Handle} (hpresent : target ∈ s.present)
    (hempty : target ∉ s.engaged)
    (htarget : CallStack.census (Frame.writes target) s.stack = 0)
    (hsource : CallStack.census (Frame.writes source) s.stack = 0) :
    ScopeInv (s.transfer target source) := by
  obtain ⟨hcard, hwithin, hsame⟩ := transfer_spec hs.within hpresent hempty
  refine hs.direct rfl hs.legal (by rw [hcard]; rfl) hwithin ?_
  intro h
  rcases hsame h with rfl | rfl | hsame
  · exact Or.inr htarget
  · exact Or.inr hsource
  · exact Or.inl hsame

/-- A handle gives up its association, which is still to be released. -/
theorem ScopeInv.beginRelease (hs : ScopeInv s) {h : Handle} {after : After Handle}
    {present : Finset Handle} (hengaged : h ∈ s.engaged) (hfree : s.free h = true)
    (hpresent : present = s.present ∨ present = s.present.erase h)
    (hwrites : ∀ h', after.writes h' = true → CallStack.census (Frame.writes h') s.stack = 0)
    (hready : after.Ready { s with present := present, engaged := s.engaged.erase h }) :
    ScopeInv ({ s with present := present, engaged := s.engaged.erase h }.setStack t
      (.disassociate after none :: s.stack t)) := by
  have hcard := Finset.card_erase_of_mem hengaged
  have hpos := Finset.card_pos.mpr ⟨h, hengaged⟩
  refine hs.replace [] [_] rfl rfl hs.legal ?_ ?_ ?_ ?_ ?_ ?_
  · change associations s.word + 0 + s.engaged.card =
      associations s.word + 1 + (s.engaged.erase h).card
    omega
  · rcases hpresent with rfl | rfl
    · exact (Finset.erase_subset _ _).trans hs.within
    · exact Finset.erase_subset_erase _ hs.within
  · intro h'
    rw [countP_singleton]
    cases hmine : after.writes h' with
    | false => exact Or.inl (by simp [Frame.writes, hmine])
    | true => exact Or.inr ⟨hwrites h' hmine, by simp [Frame.writes, hmine]⟩
  · intro h'
    by_cases heq : h' = h
    · exact Or.inr (Or.inr (heq ▸ (free_iff.mp hfree).1))
    · refine Or.inl ⟨?_, by simp [State.setStack, heq]⟩
      rcases hpresent with rfl | rfl
      · exact Iff.rfl
      · simp [State.setStack, heq]
  · intro frame hframe
    rw [List.mem_singleton.mp hframe]
    exact hready
  · intro frame hframe
    rw [List.mem_singleton.mp hframe]
    trivial

theorem ScopeInv.step [DecidableEq Join] (hs : ScopeInv s) {a : Action Thread Handle Join}
    (hstep : CountingScope.step s a = some s') : ScopeInv s' := by
  cases a with
  | run t weak =>
      simp only [CountingScope.step] at hstep
      split at hstep
      · cases hstep
      next hstack => exact hs.frameStep hstack hstep
  | ret t =>
      simp only [CountingScope.step] at hstep
      split at hstep
      next after list rest hstack =>
        cases hstep
        refine hs.quiet [_] [_] hstack rfl rfl rfl rfl rfl ?_ ?_ ?_
        · exact fun h => by simp only [countP_singleton, Frame.writes, Nat.le_refl]
        · simpa [Frame.Ready] using hs.top_ready hstack
        · simp [Frame.Loaded]
      next => cases hstep
  | create t h =>
      simp only [CountingScope.step, Option.ite_none_right_eq_some, Option.some.injEq] at hstep
      obtain ⟨⟨_, _, hfree⟩, rfl⟩ := hstep
      exact hs.emplace hfree
  | associate t h =>
      simp only [CountingScope.step, Option.ite_none_right_eq_some, Option.some.injEq] at hstep
      obtain ⟨⟨_, habsent, hfree⟩, rfl⟩ := hstep
      refine hs.call rfl rfl rfl rfl rfl ?_ habsent trivial
      intro h' hwrites
      obtain rfl : h = h' := by simpa [Frame.writes] using hwrites
      exact (free_iff.mp hfree).1
  | associateFrom t h source =>
      simp only [CountingScope.step, Option.ite_none_right_eq_some] at hstep
      obtain ⟨⟨_, habsent, hfree, _, _⟩, hstep⟩ := hstep
      split at hstep <;> cases hstep
      · refine hs.call rfl rfl rfl rfl rfl ?_ habsent trivial
        intro h' hwrites
        obtain rfl : h = h' := by simpa [Frame.writes] using hwrites
        exact (free_iff.mp hfree).1
      · exact hs.emplace hfree
  | moveConstruct t h source =>
      simp only [CountingScope.step, Option.ite_none_right_eq_some, Option.some.injEq] at hstep
      obtain ⟨⟨_, habsent, hfree, _, hfreeSource⟩, rfl⟩ := hstep
      refine (hs.emplace hfree).move (Finset.mem_insert_self _ _) ?_
        (free_iff.mp hfree).1 (free_iff.mp hfreeSource).1
      exact fun hmem => habsent (hs.within hmem)
  | moveAssign t h source =>
      simp only [CountingScope.step, Option.ite_none_right_eq_some] at hstep
      obtain ⟨⟨_, hpresent, hfree, _, hfreeSource⟩, hstep⟩ := hstep
      have htarget := (free_iff.mp hfree).1
      have hsource := (free_iff.mp hfreeSource).1
      split at hstep
      · cases hstep
        exact hs
      next =>
        split at hstep <;> cases hstep
        next hengaged =>
          refine hs.beginRelease hengaged hfree (Or.inl rfl) ?_ ?_
          · intro h' hwrites
            simp only [After.writes, Bool.or_eq_true, decide_eq_true_eq] at hwrites
            rcases hwrites with rfl | rfl
            · exact htarget
            · exact hsource
          · exact ⟨hpresent, Finset.notMem_erase _ _⟩
        next hempty => exact hs.move hpresent hempty htarget hsource
  | destroy t h =>
      simp only [CountingScope.step, Option.ite_none_right_eq_some] at hstep
      obtain ⟨⟨_, hpresent, hfree⟩, hstep⟩ := hstep
      split at hstep <;> cases hstep
      next hengaged => exact hs.beginRelease hengaged hfree (Or.inr rfl) (by rintro _ ⟨⟩) trivial
      next hempty =>
        refine hs.direct rfl hs.legal rfl ?_ ?_
        · exact Finset.subset_erase.mpr ⟨hs.within, hempty⟩
        · intro h'
          by_cases heq : h' = h
          · exact Or.inr (heq ▸ (free_iff.mp hfree).1)
          · exact Or.inl ⟨by simp [heq], Iff.rfl⟩
  | close t =>
      simp only [CountingScope.step, Option.ite_none_right_eq_some, Option.some.injEq] at hstep
      obtain ⟨_, rfl⟩ := hstep
      obtain ⟨hlegal, hcount, _⟩ := hs.legal.close
      exact hs.direct rfl hlegal (by rw [hcount]) hs.within (fun _ => Or.inl ⟨Iff.rfl, Iff.rfl⟩)
  | join t j =>
      simp only [CountingScope.step, Option.ite_none_right_eq_some, Option.some.injEq] at hstep
      obtain ⟨_, rfl⟩ := hstep
      exact hs.call rfl rfl rfl rfl rfl (fun _ hwrites => by cases hwrites) trivial trivial
  | reuse j next =>
      simp only [CountingScope.step, Option.ite_none_right_eq_some, Option.some.injEq] at hstep
      obtain ⟨_, rfl⟩ := hstep
      exact hs.direct rfl hs.legal rfl hs.within (fun _ => Or.inl ⟨Iff.rfl, Iff.rfl⟩)

omit [DecidableEq Thread] in
theorem ScopeInv.initial : ScopeInv (State.initial : State Thread Handle Join) := by
  refine ⟨legal_zero, ?_, Finset.empty_subset _, ?_, (by rintro _ _ ⟨⟩), (by rintro _ _ ⟨⟩)⟩
  · have hzero : associations 0 = 0 := by decide
    rw [pendingReleases, CallStack.census_eq_zero.mpr (by rintro _ _ ⟨⟩)]
    exact hzero
  · intro h
    rw [CallStack.census_eq_zero.mpr (by rintro _ _ ⟨⟩)]
    exact Nat.zero_le _

theorem scopeInv_of_reachable [DecidableEq Join]
    (hs : (machine Thread Handle Join).Reachable s) : ScopeInv s := by
  refine hs.invariant ?_ ?_
  · intro s hs
    rw [hs]
    exact ScopeInv.initial
  · exact fun s a s' _ hinv hstep => hinv.step hstep

end Bexec.CountingScope
