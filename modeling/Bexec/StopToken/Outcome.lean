import Bexec.StopToken.Effects

/-!
# Outcome of one access

Each access is matched with its effect on the memory, and the assertion of the
program point it reaches is established.
-/

namespace Bexec.StopToken

open Foundation

variable {Thread Record Client : Type} [DecidableEq Record] {m m' : Memory Thread Record} {id : FrameId Thread} {r : Record} {weak : Bool}
  {rest : List (Frame Thread Record Client)} {next : Next Thread Record Client}

/-- A claim in progress after the step was in progress before it, unless the
stepping frame holds it. -/
def KeepsActive (m m' : Memory Thread Record) (id : FrameId Thread) : Prop :=
  ∀ c, c ≠ id → active m'.log = some c → active m.log = some c

/-- What the step of a frame at `id` yields when the frames `rest` are beneath it. -/
inductive Outcome (m m' : Memory Thread Record) (id : FrameId Thread)
    (rest : List (Frame Thread Record Client)) : Next Thread Record Client → Prop
  | goto {frame : Frame Thread Record Client} (hallowed : Allowed (· = id) m m')
      (hframe : FrameInv m' id frame) (hactive : KeepsActive m m' id)
      (hclaimed : active m'.log = some id → frame.claimed = true) :
      Outcome m m' id rest (.goto frame)
  | ret (hallowed : Allowed (· = id) m m') (hactive : KeepsActive m m' id)
      (hclaimed : active m'.log ≠ some id) : Outcome m m' id rest .ret
  | flag {c : FrameId Thread} {r : Record}
      (hallowed : Allowed (fun other => other = id ∨ other = c) m m')
      (hactive : active m'.log = active m.log) (hclaimed : active m.log ≠ some id)
      (hthread : c.1 = id.1)
      (hbeneath : CallStack.frameAt rest c.2 = some (.requestStop (.callback r false)))
      (hframe : RequestInv m' c (.callback r true)) : Outcome m m' id rest (.flagAndRet c)

namespace Outcome

theorem move {frame : Frame Thread Record Client} (hallowed : Allowed (· = id) m m')
    (hframe : FrameInv m' id frame) (hactive : active m'.log = active m.log)
    (hidle : active m.log = some id → frame.claimed = true) :
    Outcome m m' id rest (.goto frame) :=
  .goto hallowed hframe (fun _ _ hc => hactive ▸ hc) (fun hc => hidle (hactive ▸ hc))

/-- A step that only reads. -/
theorem look {frame : Frame Thread Record Client} (hm : MemoryInv m)
    (hframe : FrameInv m id frame) (hidle : active m.log = some id → frame.claimed = true) :
    Outcome m m id rest (.goto frame) :=
  move (Allowed.refl hm) hframe rfl hidle

theorem leave (hallowed : Allowed (· = id) m m') (hactive : active m'.log = active m.log)
    (hidle : active m.log ≠ some id) : Outcome m m' id rest .ret :=
  .ret hallowed (fun _ _ hc => hactive ▸ hc) (hactive ▸ hidle)

end Outcome

/-- A spinning frame that changed the word found it unlocked. -/
theorem MemoryInv.lock_free (hm : MemoryInv m) {prev next : Word} {pc : Spin}
    (hlock : lock weak m.state pc = .acquired prev next) :
    owner m.log = none ∧ Saved m prev ∧ next = encode (claimer m.log).isSome true := by
  obtain ⟨hprev, hfree, hnext⟩ := lock_acquired hlock
  have howner : owner m.log = none := by
    cases howner : owner m.log with
    | none => rfl
    | some holder =>
        rw [← hprev, hm.word, howner] at hfree
        exact absurd hfree ((encode_locked _ _).mpr rfl)
  have hsaved : Saved m prev := by
    rw [Saved, ← hprev, hm.word, howner]
    rfl
  refine ⟨howner, hsaved, ?_⟩
  rw [hnext, hsaved, encode_or_locked]

theorem MemoryInv.tryLock_free (hm : MemoryInv m) {setRequested : Bool} {prev next : Word}
    {pc : Spin}
    (hlock : tryLockUnlessStopRequested setRequested weak m.state pc = .acquired prev next) :
    owner m.log = none ∧ claimer m.log = none ∧ next = encode setRequested true := by
  obtain ⟨hzero, hnext⟩ := tryLock_acquired hlock
  rw [hm.word, encode_eq_zero] at hzero
  refine ⟨by simpa using hzero.2, by simpa using hzero.1, ?_⟩
  rw [hnext]
  cases setRequested
  · exact encode_push
  · exact encode_claim

theorem MemoryInv.word_requested (hm : MemoryInv m) (hbit : m.state &&& stopRequestedBit ≠ 0) :
    (claimer m.log).isSome := by
  rw [hm.word] at hbit
  exact (encode_requested _ _).mp hbit

theorem MemoryInv.holding (hm : MemoryInv m) (howner : owner m.log = none) {state : Word} :
    Holding ({ m with state := state }.record [.acquired id]) id m.links := by
  have hlinks := hm.links howner
  exact ⟨rfl, hlinks.represents, hlinks.prev_none⟩

theorem constructorStep_outcome {t : Thread} {depth : Nat} (hm : MemoryInv m)
    (hidle : active m.log ≠ some (t, depth)) {pc : ConstructorPc Record}
    (hlife : m.life r = .constructing (t, depth)) (hregistered : m.registered r = false)
    (hinv : ConstructorInv m (t, depth) r pc)
    (hstep : constructorStep t depth weak m r pc = some (m', next)) :
    Outcome m m' (t, depth) rest next := by
  have hidle' : ∀ pc', active m.log = some (t, depth) →
      (Frame.constructor r pc' : Frame Thread Record Client).claimed = true :=
    fun _ hactive => absurd hactive hidle
  cases pc with
  | tryLock pc =>
      obtain ⟨hfresh, hsound⟩ := hinv
      simp only [constructorStep] at hstep
      split at hstep
      next pc' hagain =>
        cases hstep
        exact .look hm ⟨hlife, hregistered, hfresh, tryLock_again hm.word_requested hagain⟩
          (hidle' _)
      next prev word hacquired =>
        cases hstep
        obtain ⟨howner, hclaimer, hword⟩ := hm.tryLock_free hacquired
        refine .move (Allowed.acquire hm howner (by rw [hword, hclaimer]; rfl)) ?_ rfl (hidle' _)
        exact ⟨hlife, hregistered, hfresh, hclaimer, hm.holding howner⟩
      next hrefused =>
        cases hstep
        have htrail := (hm.records r).silent (Or.inl hfresh)
        refine .move (Allowed.addFailed hm hlife hfresh) ?_ rfl (hidle' _)
        exact ⟨hlife, hregistered, by simp [Memory.record], by simp [Memory.record, htrail]⟩
  | readHead =>
      cases hstep
      obtain ⟨hfresh, hclaimer, hhold⟩ := hinv
      exact .look hm ⟨hlife, hregistered, hfresh, hclaimer, hhold, rfl⟩ (hidle' _)
  | writeNext head =>
      cases hstep
      obtain ⟨hfresh, hclaimer, hhold, rfl⟩ := hinv
      refine .move (Allowed.setLinks hm hhold.1 _) ?_ rfl (hidle' _)
      exact ⟨hlife, hregistered, hfresh, hclaimer, m.links, hhold, rfl⟩
  | writePrevPtr =>
      cases hstep
      obtain ⟨hfresh, hclaimer, base, hhold, hlinks⟩ := hinv
      refine .move (Allowed.setLinks hm hhold.1 _) ?_ rfl (hidle' _)
      exact ⟨hlife, hregistered, hfresh, hclaimer, base, hhold, by simp [hlinks]⟩
  | readNext =>
      obtain ⟨hfresh, hclaimer, base, hhold, hlinks⟩ := hinv
      have hnext : m.links.next r = base.head := by
        simp [hlinks, Links.setPrev, Links.write]
      simp only [constructorStep] at hstep
      split at hstep
      next hnone =>
        cases hstep
        refine .look hm ⟨hlife, hregistered, hfresh, hclaimer, base, hhold, ?_⟩ (hidle' _)
        rw [hlinks, ← hnext, hnone]
        rfl
      next head hsome =>
        cases hstep
        exact .look hm
          ⟨hlife, hregistered, hfresh, hclaimer, base, hhold, hnext ▸ hsome, hlinks⟩ (hidle' _)
  | writeNextPrevPtr next =>
      cases hstep
      obtain ⟨hfresh, hclaimer, base, hhold, hhead, hlinks⟩ := hinv
      refine .move (Allowed.setLinks hm hhold.1 _) ?_ rfl (hidle' _)
      refine ⟨hlife, hregistered, hfresh, hclaimer, base, hhold, ?_⟩
      simp [hlinks, hhead, Links.relink]
  | writeHead =>
      cases hstep
      obtain ⟨hfresh, hclaimer, base, hhold, hlinks⟩ := hinv
      refine .move (Allowed.setLinks hm hhold.1 _) ?_ rfl (hidle' _)
      exact ⟨hlife, hregistered, hfresh, hclaimer, base, hhold, by simp [hlinks, Links.push]⟩
  | unlock =>
      cases hstep
      obtain ⟨hfresh, hclaimer, base, hhold, hlinks⟩ := hinv
      refine .move (Allowed.push hm hhold.1 hclaimer hlife hfresh hhold.2 hlinks) ?_ rfl (hidle' _)
      exact ⟨hlife, hregistered, Or.inl (by simp [Memory.record])⟩
  | setState =>
      cases hstep
      exact .leave (Allowed.construct hm hlife hinv) rfl hidle
  | invoke =>
      cases hstep
      obtain ⟨hphase, htrail⟩ := hinv
      refine .move (Allowed.invokeInline hm hlife hphase htrail) ?_ rfl (hidle' _)
      exact ⟨hlife, hregistered, by simpa [Memory.record] using hphase,
        by simp [Memory.record, htrail]⟩
  | callback => cases hstep

/-- What a destructor may use of the claiming frame when that frame is beneath
it on the same stack. -/
def Beneath (m : Memory Thread Record) (id : FrameId Thread)
    (rest : List (Frame Thread Record Client)) : Prop :=
  ∀ c, active m.log = some c → c.1 = id.1 → ∃ r removed,
    CallStack.frameAt rest c.2 = some (.requestStop (.callback r removed)) ∧
      RequestInv m c (.callback r removed)

theorem Beneath.of_executing {c : FrameId Thread} (hbeneath : Beneath m id rest)
    (hactive : active m.log = some c) (hthread : c.1 = id.1) (hphase : phase m.log r = .executing)
    (hlife : m.life r ≠ .destroyed) :
    CallStack.frameAt rest c.2 = some (.requestStop (.callback r false)) ∧
      RequestInv m c (.callback r false) := by
  obtain ⟨r', removed, hframe, hinv⟩ := hbeneath c hactive hthread
  obtain rfl : r = r' := (hinv.1.2 r).mp hphase
  cases removed with
  | false => exact ⟨hframe, hinv⟩
  | true => exact absurd (hinv.2.2.1.mp rfl) hlife

theorem destructorStep_outcome [DecidableEq Thread] {t : Thread} (hm : MemoryInv m)
    (hidle : active m.log ≠ some (t, rest.length)) (hbeneath : Beneath m (t, rest.length) rest)
    {pc : DestructorPc Thread Record} (hlife : m.life r = .destroying (t, rest.length))
    (hinv : DestructorInv m (t, rest.length) r pc)
    (hstep : destructorStep t rest weak m r pc = some (m', next)) :
    Outcome m m' (t, rest.length) rest next := by
  have hidle' : ∀ pc', active m.log = some (t, rest.length) →
      (Frame.destructor r pc' : Frame Thread Record Client).claimed = true :=
    fun _ hactive => absurd hactive hidle
  have halive : m.life r ≠ .destroyed := by simp [hlife]
  cases pc with
  | readState =>
      simp only [destructorStep] at hstep
      split at hstep
      next hregistered =>
        cases hstep
        rcases hinv with ⟨_, hphase⟩ | ⟨hfalse, _⟩
        · exact .look hm ⟨hlife, hphase⟩ (hidle' _)
        · rw [hregistered] at hfalse
          cases hfalse
      next hregistered =>
        cases hstep
        rcases hinv with ⟨htrue, _⟩ | ⟨_, hphase⟩
        · exact absurd htrue hregistered
        · refine .leave (Allowed.destroy hm hlife (Or.inr hphase) _) ?_ hidle
          rfl
  | lock pc =>
      simp only [destructorStep] at hstep
      split at hstep
      next pc' _ =>
        cases hstep
        exact .look hm ⟨hlife, hinv⟩ (hidle' _)
      next prev word hacquired =>
        cases hstep
        obtain ⟨howner, hsaved, hword⟩ := hm.lock_free hacquired
        refine .move (Allowed.acquire hm howner hword) ?_ rfl (hidle' _)
        exact ⟨hlife, hinv, hsaved, hm.holding howner⟩
      next => cases hstep
  | readPrevPtr saved =>
      obtain ⟨hphase, hsaved, hhold⟩ := hinv
      have hprev : phase m.log r = .linked ↔ m.links.prev r ≠ none := by
        constructor
        · intro hlinked
          exact hhold.2.represents.segment.prev_ne_none ((hm.records r).mem_linked.mpr hlinked)
        · intro hsome
          rcases hphase with hlinked | hpopped | hpopped
          · exact hlinked
          · exact absurd (hhold.2.prev_none r (by simp [hpopped]) (by simp [hpopped])) hsome
          · exact absurd (hhold.2.prev_none r (by simp [hpopped]) (by simp [hpopped])) hsome
      simp only [destructorStep] at hstep
      split at hstep
      next slot hslot =>
        cases hstep
        exact .look hm ⟨hlife, hprev.mpr (by simp [hslot]), hsaved, hhold, hslot⟩ (hidle' _)
      next hnone =>
        cases hstep
        have hpopped : Popped m r := by
          rcases hphase with hlinked | hpopped
          · exact absurd hnone (hprev.mp hlinked)
          · exact hpopped
        exact .look hm ⟨hlife, hpopped, hsaved, hhold⟩ (hidle' _)
  | readNext saved slot =>
      cases hstep
      obtain ⟨hphase, hsaved, hhold, hslot⟩ := hinv
      exact .look hm ⟨hlife, hphase, hsaved, hhold, hslot, rfl⟩ (hidle' _)
  | writeSlot saved slot next =>
      cases hstep
      obtain ⟨hphase, hsaved, hhold, hslot, rfl⟩ := hinv
      refine .move (Allowed.setLinks hm hhold.1 _) ?_ rfl (hidle' _)
      exact ⟨hlife, hphase, hsaved, m.links, slot, hhold, hslot, rfl⟩
  | rereadNext saved =>
      obtain ⟨hphase, hsaved, base, slot, hhold, hslot, hlinks⟩ := hinv
      have hnext : m.links.next r = base.next r := by
        have hmem : r ∈ linked m.log := (hm.records r).mem_linked.mpr hphase
        rw [hlinks]
        exact hhold.2.represents.next_write_slot hmem hslot _
      simp only [destructorStep] at hstep
      split at hstep
      next hnone =>
        cases hstep
        refine .look hm ⟨hlife, hphase, hsaved, base, slot, hhold, hslot, ?_⟩ (hidle' _)
        rw [hlinks, Links.unlink, ← hnext, hnone]
        rfl
      next next hsome =>
        cases hstep
        exact .look hm
          ⟨hlife, hphase, hsaved, base, slot, hhold, hslot, hlinks, hnext ▸ hsome⟩ (hidle' _)
  | rereadPrevPtr saved next =>
      cases hstep
      obtain ⟨hphase, hsaved, base, slot, hhold, hslot, hlinks, hnext⟩ := hinv
      refine .look hm ⟨hlife, hphase, hsaved, base, slot, hhold, hslot, hlinks, hnext, ?_⟩
        (hidle' _)
      rw [hlinks, Links.prev_write, hslot]
  | writeNextPrevPtr saved next prevPtr =>
      cases hstep
      obtain ⟨hphase, hsaved, base, slot, hhold, hslot, hlinks, hnext, rfl⟩ := hinv
      refine .move (Allowed.setLinks hm hhold.1 _) ?_ rfl (hidle' _)
      refine ⟨hlife, hphase, hsaved, base, slot, hhold, hslot, ?_⟩
      simp [hlinks, hnext, Links.unlink, Links.relink]
  | unlock saved =>
      cases hstep
      obtain ⟨hphase, hsaved, base, slot, hhold, hslot, hlinks⟩ := hinv
      exact .leave (Allowed.unlink hm hhold.1 hsaved hlife hphase hhold.2 hslot hlinks _) rfl hidle
  | readRequester saved =>
      cases hstep
      obtain ⟨hpopped, hsaved, hhold⟩ := hinv
      obtain ⟨c, hc, hrequester⟩ := hm.popped r (by rcases hpopped with h | h <;> simp [h])
      exact .look hm ⟨hlife, hpopped, hsaved, hhold, c, hc, hrequester⟩ (hidle' _)
  | unlockPopped saved notifier =>
      cases hstep
      obtain ⟨hpopped, hsaved, hhold, c, hc, rfl⟩ := hinv
      refine .move (Allowed.release hm hhold.1 hsaved hhold.2) ?_ rfl (hidle' _)
      split
      next heq => exact ⟨hlife, hpopped, c, hc, Option.some.inj heq⟩
      next => exact ⟨hlife, hpopped⟩
  | readFlag =>
      obtain ⟨hpopped, c, hc, hthread⟩ := hinv
      have hexecuting : phase m.log r = .executing → active m.log = some c ∧
          CallStack.frameAt rest c.2 = some (.requestStop (.callback r false)) ∧
          RequestInv m c (.callback r false) := by
        intro hphase
        obtain ⟨c', hc'⟩ := Option.isSome_iff_exists.mp (hm.executing r hphase)
        obtain rfl : c' = c := Option.some.inj ((hm.active c' hc').symm.trans hc)
        exact ⟨hc', hbeneath.of_executing hc' hthread hphase halive⟩
      simp only [destructorStep] at hstep
      split at hstep
      next hnone =>
        cases hstep
        have hfinished : phase m.log r = .finished := by
          rcases hpopped with hphase | hphase
          · have hflag := (hexecuting hphase).2.2.2.2.2
            rw [hnone] at hflag
            cases hflag
          · exact hphase
        exact .leave (Allowed.destroy hm hlife (Or.inl hfinished) _) rfl hidle
      next flag hsome =>
        cases hstep
        have hphase : phase m.log r = .executing := by
          rcases hpopped with hphase | hphase
          · exact hphase
          · rw [(hm.records r).finished hphase] at hsome
            cases hsome
        obtain ⟨hactive, hframe, hrequest⟩ := hexecuting hphase
        obtain rfl : flag = c := by
          have hflag := hrequest.2.2.2
          rw [hsome] at hflag
          exact Option.some.inj hflag
        exact .look hm ⟨hlife, hphase, hactive, hthread, CallStack.frameAt_lt hframe⟩ (hidle' _)
  | writeFlag flag =>
      cases hstep
      obtain ⟨hphase, hactive, hthread, _⟩ := hinv
      obtain ⟨hframe, hexec, htrail, _, hremoved⟩ :=
        hbeneath.of_executing hactive hthread hphase halive
      have hinside : rest.any (·.running r) = true :=
        List.any_eq_true.mpr ⟨_, CallStack.frameAt_mem hframe, by simp [Frame.running]⟩
      rw [Memory.finishDestructor, hinside]
      refine .flag (Allowed.destroyInside hm hlife hphase hactive) rfl hidle hthread hframe ?_
      refine ⟨⟨hexec.1, ?_⟩, ?_, ?_, hremoved⟩
      · simpa [Memory.record, Memory.setLife] using hexec.2
      · simpa [Memory.record, Memory.setLife] using htrail
      · simp [Memory.record, Memory.setLife]
  | waitCompleted =>
      simp only [destructorStep] at hstep
      split at hstep
      next hcompleted =>
        cases hstep
        have hfinished := (hm.records r).completed.mp hcompleted
        exact .leave (Allowed.destroy hm hlife (Or.inl hfinished) _) rfl hidle
      next =>
        cases hstep
        exact .look hm ⟨hlife, hinv⟩ (hidle' _)

theorem requestStopStep_outcome {t : Thread} {depth : Nat} (hm : MemoryInv m)
    {pc : RequestPc Record}
    (hclaimed : active m.log = some (t, depth) →
      (Frame.requestStop pc : Frame Thread Record Client).claimed = true)
    (hinv : RequestInv m (t, depth) pc)
    (hstep : requestStopStep t depth weak m pc = some (m', next)) :
    Outcome m m' (t, depth) rest next := by
  cases pc with
  | tryLock pc =>
      simp only [requestStopStep] at hstep
      split at hstep
      next pc' hagain =>
        cases hstep
        exact .look hm (tryLock_again hm.word_requested hagain) hclaimed
      next prev word hacquired =>
        cases hstep
        obtain ⟨howner, hclaimer, hword⟩ := hm.tryLock_free hacquired
        have hpopped : ∀ r, (phase m.log r).popped = false := by
          intro r
          cases hpopped : (phase m.log r).popped with
          | false => rfl
          | true =>
              obtain ⟨c, hc, _⟩ := hm.popped r hpopped
              rw [hclaimer] at hc
              cases hc
        refine .goto (Allowed.claim hm howner hclaimer hword) ?_ ?_ (fun _ => rfl)
        · refine ⟨rfl, ⟨rfl, ?_⟩, hpopped⟩
          exact ⟨(hm.links howner).represents, (hm.links howner).prev_none⟩
        · intro c hne hc
          exact absurd (Option.some.inj hc).symm hne
      next hrefused =>
        cases hstep
        exact .leave (Allowed.refuse hm) rfl (fun hactive => by cases hclaimed hactive)
  | setRequester =>
      cases hstep
      obtain ⟨hactive, hhold, hpopped⟩ := hinv
      refine .move (Allowed.setRequester hm hactive hpopped) ?_ rfl (fun _ => rfl)
      refine ⟨⟨hactive, rfl⟩, ?_, hhold⟩
      intro r hphase
      have := hpopped r
      rw [hphase] at this
      cases this
  | readHead =>
      obtain ⟨hdrain, hnone, hhold⟩ := hinv
      have hhead := hhold.2.represents.segment.read_eq_head
      simp only [requestStopStep] at hstep
      split at hstep
      next hempty =>
        cases hstep
        have hlinked : linked m.log = [] := List.head?_eq_none_iff.mp (hhead.symm.trans hempty)
        exact .look hm ⟨hdrain, hnone, hhold, hlinked⟩ (fun _ => rfl)
      next r hsome =>
        cases hstep
        exact .look hm ⟨hdrain, hnone, hhold, hhead.symm.trans hsome⟩ (fun _ => rfl)
  | clearPrevPtr r =>
      cases hstep
      exact .move (Allowed.setLinks hm hinv.2.2.1.1 _) ⟨m.links, hinv, rfl⟩ rfl (fun _ => rfl)
  | readNext r =>
      cases hstep
      obtain ⟨base, hpop, hlinks⟩ := hinv
      exact .look hm ⟨base, hpop, hlinks, by simp [hlinks, Links.setPrev]⟩ (fun _ => rfl)
  | writeHead r next =>
      cases hstep
      obtain ⟨base, hpop, hlinks, rfl⟩ := hinv
      refine .move (Allowed.setLinks hm hpop.2.2.1.1 _) ?_ rfl (fun _ => rfl)
      exact ⟨base, hpop, by simp [hlinks]⟩
  | rereadHead r =>
      obtain ⟨base, hpop, hlinks⟩ := hinv
      have hhead : m.links.head = base.next r := by simp [hlinks, Links.write]
      simp only [requestStopStep] at hstep
      split at hstep
      next hnone =>
        cases hstep
        refine .look hm ⟨base, hpop, ?_⟩ (fun _ => rfl)
        rw [hlinks, Links.pop, ← hhead, hnone]
        rfl
      next head hsome =>
        cases hstep
        exact .look hm ⟨base, hpop, hhead ▸ hsome, hlinks⟩ (fun _ => rfl)
  | writeHeadPrevPtr r head =>
      cases hstep
      obtain ⟨base, hpop, hnext, hlinks⟩ := hinv
      refine .move (Allowed.setLinks hm hpop.2.2.1.1 _) ?_ rfl (fun _ => rfl)
      exact ⟨base, hpop, by simp [hlinks, hnext, Links.pop, Links.relink]⟩
  | setFlag r =>
      cases hstep
      obtain ⟨base, hpop, hlinks⟩ := hinv
      have hphase : phase m.log r = .linked :=
        (hm.records r).mem_linked.mp (List.mem_of_mem_head? hpop.2.2.2)
      refine .move (Allowed.setFlag hm hpop.1.1 (by simp [hphase])) ?_ rfl (fun _ => rfl)
      exact ⟨⟨base, hpop, hlinks⟩, by simp⟩
  | openLock r =>
      cases hstep
      obtain ⟨⟨base, hpop, hlinks⟩, hflag⟩ := hinv
      have hphase : phase m.log r = .linked :=
        (hm.records r).mem_linked.mp (List.mem_of_mem_head? hpop.2.2.2)
      have halive : m.life r ≠ .destroyed :=
        fun hlife => ((hm.records r).destroyed hlife).2 hphase
      have htrail := (hm.records r).silent (Or.inr (Or.inl hphase))
      refine .move (Allowed.pop hm hpop hlinks halive) ?_ rfl (fun _ => rfl)
      refine ⟨⟨hpop.1, ?_⟩, halive, hflag, htrail⟩
      intro r'
      by_cases heq : r = r'
      · simp [Memory.record, heq]
      · simp [Memory.record, heq, Ne.symm heq, hpop.2.1 r']
  | invoke r =>
      cases hstep
      obtain ⟨hexec, halive, hflag, htrail⟩ := hinv
      have hentered : trail (.invoked r t :: m.log) r = ⟨[], [t], []⟩ := by simp [htrail]
      refine .move (Allowed.callback hm hexec (Or.inl rfl) hentered) ?_ rfl (fun _ => rfl)
      exact ⟨hexec, by simp [Memory.record, htrail], ⟨(by simp), fun hlife => absurd hlife halive⟩, hflag⟩
  | callback r removed => cases hstep
  | clearFlag r =>
      cases hstep
      obtain ⟨hexec, halive, htrail⟩ := hinv
      refine .move (Allowed.setFlag hm hexec.1.1 (fun _ => rfl)) ?_ rfl (fun _ => rfl)
      exact ⟨hexec, halive, htrail, by simp⟩
  | setCompleted r =>
      cases hstep
      obtain ⟨hexec, halive, htrail, hflag⟩ := hinv
      refine .move (Allowed.finalize hm hexec halive htrail hflag) ?_ rfl (fun _ => rfl)
      refine ⟨hexec.1, ?_⟩
      intro r'
      by_cases heq : r = r'
      · simp [Memory.record, heq]
      · simpa [Memory.record, heq] using fun hphase => heq ((hexec.2 r').mp hphase).symm
  | relock pc =>
      obtain ⟨hdrain, hnone⟩ := hinv
      simp only [requestStopStep] at hstep
      split at hstep
      next pc' _ =>
        cases hstep
        exact .look hm ⟨hdrain, hnone⟩ (fun _ => rfl)
      next prev word hacquired =>
        cases hstep
        obtain ⟨howner, hsaved, hword⟩ := hm.lock_free hacquired
        refine .move (Allowed.acquire hm howner hword) ?_ rfl (fun _ => rfl)
        exact ⟨hdrain, hnone, hm.holding howner⟩
      next => cases hstep
  | finalUnlock =>
      cases hstep
      obtain ⟨hdrain, hnone, hhold, hempty⟩ := hinv
      refine .ret (Allowed.finish hm hdrain hnone hhold hempty) ?_ (by simp [Memory.record])
      intro c _ hc
      simp [Memory.record] at hc

end Bexec.StopToken
