import Bexec.StopToken.Calls
import Bexec.StopToken.Contract

/-!
# The drain ends

After the claim nothing is linked any more, so each turn of the loop in
`request_stop` takes one record of those that were linked, and the loop turns at
most that often, whatever the callbacks and the other threads do.
-/

namespace Bexec.StopToken

open Foundation

variable {Thread Record Client : Type}

def Event.poppedRecord : Event Thread Record → Option Record
  | .popped r => some r
  | _ => none

/-- The records taken off the list, last one first. -/
def pops (log : List (Event Thread Record)) : List Record := log.filterMap Event.poppedRecord

section Drained

variable [DecidableEq Record]

/-- A callback entered while the claiming frame handles its record. -/
def Event.drainedRecord (log : List (Event Thread Record)) : Event Thread Record → Option Record
  | .invoked r _ => if phase log r = .executing then some r else none
  | _ => none

/-- The records whose callbacks the drain has entered, last one first. -/
def drained : List (Event Thread Record) → List Record
  | [] => []
  | event :: log => (event.drainedRecord log).toList ++ drained log

@[simp] theorem drained_cons (event : Event Thread Record) (log : List (Event Thread Record)) :
    drained (event :: log) = (event.drainedRecord log).toList ++ drained log := rfl

omit [DecidableEq Record] in
@[simp] theorem pops_cons (event : Event Thread Record) (log : List (Event Thread Record)) :
    pops (event :: log) = event.poppedRecord.toList ++ pops log := by
  cases hpopped : event.poppedRecord <;> simp [pops, hpopped]

omit [DecidableEq Record] in
theorem mem_pops {log : List (Event Thread Record)} {r : Record} :
    r ∈ pops log ↔ .popped r ∈ log := by
  simp only [pops, List.mem_filterMap]
  constructor
  · rintro ⟨event, hmem, hpopped⟩
    cases event with
    | popped r' =>
        cases hpopped
        exact hmem
    | _ => cases hpopped
  · exact fun hmem => ⟨_, hmem, rfl⟩

/-- A drained callback is in the trail of its record. -/
theorem invoked_of_mem_drained {log : List (Event Thread Record)} {r : Record}
    (hr : r ∈ drained log) : (trail log r).invoked ≠ [] := by
  induction log with
  | nil => simp [drained] at hr
  | cons event log ih =>
      rw [drained_cons, List.mem_append] at hr
      rcases hr with hr | hr
      · cases event with
        | invoked r' t =>
            simp only [Event.drainedRecord, Option.mem_toList] at hr
            split at hr
            · cases hr
              simp
            · cases hr
        | _ => simp [Event.drainedRecord] at hr
      · have hbefore := ih hr
        cases event with
        | invoked r' t => by_cases heq : r' = r <;> simp [heq, hbefore]
        | addFailed r' t | returned r' t => by_cases heq : r' = r <;> simp [heq, hbefore]
        | _ => simpa using hbefore

end Drained

attribute [local simp] Event.poppedRecord Event.drainedRecord Memory.record Memory.setLife
  Memory.finishDestructor

variable [DecidableEq Record] {m m' : Memory Thread Record} {t : Thread} {r : Record}
  {weak : Bool} {next : Next Thread Record Client} {id : FrameId Thread}

/-- Every popped record has had its callback entered, but for one that the
claiming frame is about to enter. -/
def Handled (m : Memory Thread Record) : Prop :=
  pops m.log = drained m.log ∨ ∃ r, pops m.log = r :: drained m.log ∧
    phase m.log r = .executing ∧ trail m.log r = ⟨[], [], []⟩

/-- What a step does to the list, to the records taken off it and to the callbacks
entered. -/
inductive DrainStep (m m' : Memory Thread Record) : Prop
  | quiet (hlinked : linked m'.log = linked m.log) (hpops : pops m'.log = pops m.log)
      (hdrained : drained m'.log = drained m.log)
  | push {r : Record} (hunclaimed : claimer m.log = none)
      (hlinked : linked m'.log = r :: linked m.log) (hpops : pops m'.log = pops m.log)
      (hdrained : drained m'.log = drained m.log)
  | unlink {r : Record} (hlinked : linked m'.log = (linked m.log).erase r)
      (hpops : pops m'.log = pops m.log) (hdrained : drained m'.log = drained m.log)
  | pop {r : Record} (hlinked : linked m.log = r :: linked m'.log)
      (hpops : pops m'.log = r :: pops m.log) (hdrained : drained m'.log = drained m.log)
  | enter {r : Record} (hlinked : linked m'.log = linked m.log) (hpops : pops m'.log = pops m.log)
      (hdrained : drained m'.log = r :: drained m.log)

/-- A step that leaves alone the record about to be run. -/
theorem Handled.keep (h : Handled m) (hpops : pops m'.log = pops m.log)
    (hdrained : drained m'.log = drained m.log)
    (hkeep : ∀ r, phase m.log r = .executing → trail m.log r = ⟨[], [], []⟩ →
      phase m'.log r = .executing ∧ trail m'.log r = ⟨[], [], []⟩) : Handled m' := by
  rcases h with heq | ⟨r, heq, hphase, htrail⟩
  · exact .inl (by rw [hpops, hdrained, heq])
  · exact .inr ⟨r, by rw [hpops, hdrained, heq], hkeep r hphase htrail⟩

/-- A step that the history does not record. -/
theorem Handled.silent (h : Handled m) (hlog : m'.log = m.log) : DrainStep m m' ∧ Handled m' := by
  refine ⟨.quiet (by rw [hlog]) (by rw [hlog]) (by rw [hlog]), ?_⟩
  apply h.keep (by rw [hlog]) (by rw [hlog])
  intro r hphase htrail
  rw [hlog]
  exact ⟨hphase, htrail⟩

theorem constructorStep_drain {depth : Nat} {pc : ConstructorPc Record} (h : Handled m)
    (hinv : ConstructorInv m id r pc)
    (hstep : constructorStep t depth weak m r pc = some (m', next)) :
    DrainStep m m' ∧ Handled m' := by
  have hother : ∀ {phase'}, phase m.log r = phase' → phase' ≠ .executing →
      ∀ r', phase m.log r' = .executing → r ≠ r' := by
    rintro phase' hphase hne r' hexecuting rfl
    exact hne (hphase.symm.trans hexecuting)
  cases pc with
  | tryLock spin =>
      simp only [constructorStep] at hstep
      split at hstep
      next =>
        cases hstep
        exact h.silent rfl
      next =>
        cases hstep
        exact ⟨.quiet rfl rfl rfl, h.keep rfl rfl fun _ hphase htrail => ⟨hphase, htrail⟩⟩
      next =>
        cases hstep
        refine ⟨.quiet rfl rfl rfl, h.keep rfl rfl ?_⟩
        intro r' hphase htrail
        have hne := hother hinv.1 (by simp) r' hphase
        simp [hne, hphase, htrail]
  | readNext =>
      simp only [constructorStep] at hstep
      split at hstep <;> cases hstep <;> exact h.silent rfl
  | unlock =>
      cases hstep
      refine ⟨.push (r := r) hinv.2.1 rfl rfl rfl, h.keep rfl rfl ?_⟩
      intro r' hphase htrail
      have hne := hother hinv.1 (by simp) r' hphase
      simp [hne, hphase, htrail]
  | invoke =>
      cases hstep
      have hidle : phase m.log r ≠ .executing := by simp [hinv.1]
      refine ⟨.quiet rfl rfl (by simp [hidle]), h.keep rfl (by simp [hidle]) ?_⟩
      intro r' hphase htrail
      have hne := hother hinv.1 (by simp) r' hphase
      simp [hne, hphase, htrail]
  | setState =>
      cases hstep
      exact ⟨.quiet rfl rfl rfl, h.keep rfl rfl fun _ hphase htrail => ⟨hphase, htrail⟩⟩
  | callback => cases hstep
  | _ =>
      cases hstep
      exact h.silent rfl

theorem destructorStep_drain [DecidableEq Thread] {rest : List (Frame Thread Record Client)}
    {pc : DestructorPc Thread Record} (h : Handled m) (hinv : DestructorInv m id r pc)
    (hstep : destructorStep t rest weak m r pc = some (m', next)) :
    DrainStep m m' ∧ Handled m' := by
  have hfinish : DrainStep m (m.finishDestructor t rest r) ∧
      Handled (m.finishDestructor t rest r) :=
    ⟨.quiet rfl rfl rfl, h.keep rfl rfl fun _ hphase htrail => ⟨hphase, htrail⟩⟩
  have hrecord : ∀ {m' : Memory Thread Record} {event : Event Thread Record},
      event = .acquired (t, rest.length) ∨ event = .released (t, rest.length) →
      m'.log = event :: m.log → DrainStep m m' ∧ Handled m' := by
    rintro m' event (rfl | rfl) hlog <;>
      refine ⟨.quiet (by simp [hlog]) (by simp [hlog]) (by simp [hlog]), ?_⟩ <;>
      refine h.keep (by simp [hlog]) (by simp [hlog]) ?_ <;>
      intro r' hphase htrail <;> simp [hlog, hphase, htrail]
  cases pc with
  | readState | readFlag | waitCompleted =>
      simp only [destructorStep] at hstep
      split at hstep <;> cases hstep
      all_goals first | exact hfinish | exact h.silent rfl
  | lock spin =>
      simp only [destructorStep] at hstep
      split at hstep
      next =>
        cases hstep
        exact h.silent rfl
      next =>
        cases hstep
        exact hrecord (.inl rfl) rfl
      next => cases hstep
  | readPrevPtr saved | rereadNext saved =>
      simp only [destructorStep] at hstep
      split at hstep <;> cases hstep <;> exact h.silent rfl
  | unlock saved =>
      cases hstep
      refine ⟨.unlink (r := r) rfl rfl rfl, h.keep rfl rfl ?_⟩
      intro r' hphase htrail
      have hne : r ≠ r' := by
        rintro rfl
        rw [hinv.1] at hphase
        cases hphase
      simp [hne, hphase, htrail]
  | unlockPopped saved notifier =>
      cases hstep
      exact hrecord (.inr rfl) rfl
  | writeFlag flag =>
      cases hstep
      exact hfinish
  | _ =>
      cases hstep
      exact h.silent rfl

/-- While no record is being handled, none is waiting to be entered. -/
theorem Handled.settled (h : Handled m) (hnone : NoneExecuting m) :
    pops m.log = drained m.log := by
  rcases h with heq | ⟨r, -, hphase, -⟩
  · exact heq
  · exact absurd hphase (hnone r)

/-- The record whose callback is about to be entered is the last one popped. -/
theorem Handled.pending (h : Handled m) (hm : MemoryInv m) (hexec : Executing m id r)
    (htrail : trail m.log r = ⟨[], [], []⟩) : pops m.log = r :: drained m.log := by
  have hphase := (hexec.2 r).mpr rfl
  rcases h with heq | ⟨r', heq, hphase', -⟩
  · have hpopped : r ∈ pops m.log := mem_pops.mpr ((hm.records r).popped.mpr (.inl hphase))
    rw [heq] at hpopped
    exact absurd (by rw [htrail]) (invoked_of_mem_drained hpopped)
  · rw [(hexec.2 r').mp hphase'] at heq
    exact heq

/-- Once the callback has been entered, no record waits. -/
theorem Handled.entered (h : Handled m) (hexec : Executing m id r)
    (htrail : (trail m.log r).invoked ≠ []) : pops m.log = drained m.log := by
  rcases h with heq | ⟨r', -, hphase', htrail'⟩
  · exact heq
  · obtain rfl := (hexec.2 r').mp hphase'
    rw [htrail'] at htrail
    exact absurd rfl htrail

theorem requestStopStep_drain {depth : Nat} {pc : RequestPc Record} (hm : MemoryInv m)
    (h : Handled m) (hinv : RequestInv m id pc)
    (hstep : requestStopStep t depth weak m pc = some (m', next)) :
    DrainStep m m' ∧ Handled m' := by
  cases pc with
  | tryLock spin | relock spin =>
      simp only [requestStopStep] at hstep
      split at hstep
      next =>
        cases hstep
        exact h.silent rfl
      next =>
        cases hstep
        exact ⟨.quiet rfl rfl rfl, h.keep rfl rfl fun _ hphase htrail => ⟨hphase, htrail⟩⟩
      next =>
        cases hstep
        try exact ⟨.quiet rfl rfl rfl, h.keep rfl rfl fun _ hphase htrail => ⟨hphase, htrail⟩⟩
  | readHead | rereadHead r' =>
      simp only [requestStopStep] at hstep
      split at hstep <;> cases hstep <;> exact h.silent rfl
  | openLock r' =>
      cases hstep
      obtain ⟨⟨base, ⟨hdrain, hnone, hold, hhead⟩, hlinks⟩, hflag⟩ := hinv
      have hmem := List.mem_of_mem_head? hhead
      have hphase := (hm.records r').mem_linked.mp hmem
      obtain ⟨rest, hrest⟩ : ∃ rest, linked m.log = r' :: rest := by
        cases hlinked : linked m.log with
        | nil => simp [hlinked] at hhead
        | cons first rest =>
            rw [hlinked, List.head?_cons, Option.some.injEq] at hhead
            exact ⟨rest, by rw [hhead]⟩
      refine ⟨.pop (r := r') (by simp [hrest]) (by simp) (by simp), .inr ⟨r', ?_, by simp, ?_⟩⟩
      · simp [h.settled hnone]
      · simpa using (hm.records r').silent (.inr (.inl hphase))
  | invoke r' =>
      cases hstep
      obtain ⟨hexec, -, -, htrail⟩ := hinv
      have hphase := (hexec.2 r').mpr rfl
      refine ⟨.enter (r := r') rfl (by simp) (by simp [hphase]), .inl ?_⟩
      simp [hphase, h.pending hm hexec htrail]
  | callback r' removed => cases hstep
  | setCompleted r' =>
      cases hstep
      obtain ⟨hexec, -, htrail, -⟩ := hinv
      refine ⟨.quiet (by simp) (by simp) (by simp), .inl ?_⟩
      simpa using h.entered hexec (by simp [htrail])
  | finalUnlock =>
      cases hstep
      refine ⟨.quiet (by simp) (by simp) (by simp), .inl ?_⟩
      simpa using h.settled hinv.2.1
  | _ =>
      cases hstep
      exact h.silent rfl

variable [DecidableEq Thread] {s s' : State Thread Record Client}
  {rest : List (Frame Thread Record Client)} {top : Frame Thread Record Client}

theorem Inv.run_drain (hs : Inv s) (h : Handled s.memory) (hstack : s.stack t = top :: rest)
    (hstep : top.step t rest weak s.memory = some (m', next)) :
    DrainStep s.memory m' ∧ Handled m' := by
  have hinv := hs.frames t rest.length top (by rw [hstack]; exact CallStack.frameAt_top _ _)
  cases top with
  | constructor r pc => exact constructorStep_drain h hinv.2.2 hstep
  | destructor r pc => exact destructorStep_drain h hinv.2 hstep
  | requestStop pc => exact requestStopStep_drain hs.memory h hinv hstep
  | client c => cases hstep

theorem Inv.endCallback_drain (hs : Inv s) (h : Handled s.memory)
    (hstep : StopToken.step s (.ret t) = some s') :
    DrainStep s.memory s'.memory ∧ Handled s'.memory := by
  simp only [StopToken.step] at hstep
  split at hstep
  next r rest hstack =>
    cases hstep
    obtain ⟨-, -, hphase, -⟩ :=
      hs.frames t rest.length _ (by rw [hstack]; exact CallStack.frameAt_top _ _)
    refine ⟨.quiet rfl rfl rfl, h.keep rfl rfl ?_⟩
    intro r' hphase' htrail
    have hne : r ≠ r' := by
      rintro rfl
      rw [hphase] at hphase'
      cases hphase'
    simp [State.setStack, State.setMemory, hne, hphase', htrail]
  next r rest hstack =>
    cases hstep
    obtain ⟨hexec, htrail, -⟩ :=
      hs.frames t rest.length _ (by rw [hstack]; exact CallStack.frameAt_top _ _)
    exact ⟨.quiet rfl rfl rfl, .inl (h.entered hexec (by simp [htrail]))⟩
  next r rest hstack =>
    cases hstep
    obtain ⟨hexec, htrail, -⟩ :=
      hs.frames t rest.length _ (by rw [hstack]; exact CallStack.frameAt_top _ _)
    exact ⟨.quiet rfl rfl rfl, .inl (h.entered hexec (by simp [htrail]))⟩
  next => cases hstep

/-- Every step is one of those that `DrainStep` lists. -/
theorem Inv.drain_step (hs : Inv s) (h : Handled s.memory) {a : Action Thread Record Client}
    (hstep : StopToken.step s a = some s') :
    DrainStep s.memory s'.memory ∧ Handled s'.memory := by
  cases a with
  | run t weak =>
      simp only [StopToken.step] at hstep
      split at hstep
      next => cases hstep
      next top rest hstack =>
        split at hstep
        next => cases hstep
        next m next hframe =>
          have hmemory : s'.memory = m := by
            cases hstep
            cases next <;> rfl
          rw [hmemory]
          exact hs.run_drain h hstack hframe
  | ret t => exact hs.endCallback_drain h hstep
  | requestStop t | construct t r | destroy t r | enter t c =>
      simp only [StopToken.step, Option.ite_none_right_eq_some, Option.some.injEq] at hstep
      obtain ⟨-, rfl⟩ := hstep
      exact h.silent rfl
  | become t c | leave t =>
      simp only [StopToken.step] at hstep
      split at hstep
      next =>
        cases hstep
        exact h.silent rfl
      next => cases hstep

theorem handled_of_reachable (hs : (machine Thread Record Client).Reachable s) :
    Handled s.memory := by
  induction hs with
  | initial hinit =>
      subst hinit
      exact .inl rfl
  | step hs hstep ih => exact ((inv_of_reachable hs).drain_step ih hstep).2

/-! ## How long the drain lasts -/

/-- Accesses left until the list is tested for the next record, at most. -/
def RequestPc.rank : RequestPc Record → Nat
  | .tryLock _ => 0
  | .finalUnlock => 1
  | .openLock _ => 2
  | .setFlag _ => 3
  | .writeHeadPrevPtr _ _ => 4
  | .rereadHead _ => 5
  | .writeHead _ _ => 6
  | .readNext _ => 7
  | .clearPrevPtr _ => 8
  | .readHead => 9
  | .setRequester | .relock _ => 10
  | .setCompleted _ => 11
  | .clearFlag _ => 12
  | .callback _ _ => 13
  | .invoke _ => 14

def Frame.drainRank : Frame Thread Record Client → Nat
  | .requestStop pc => pc.rank
  | _ => 0

/-- The frame is in the spin loop by which the drain takes the lock again. -/
def Frame.relocks : Frame Thread Record Client → Bool
  | .requestStop (.relock _) => true
  | _ => false

/-- Steps that the drain of the claiming frame can still make, at most. -/
def State.drainRank (s : State Thread Record Client) (c : FrameId Thread) : Nat :=
  if active s.memory.log = some c then
    13 * (linked s.memory.log).length +
      ((CallStack.frameAt (s.stack c.1) c.2).map Frame.drainRank).getD 0
  else 0

/-- The action is a step of the drain, not counting those of its spin loop. -/
def State.advances (c : FrameId Thread) (s : State Thread Record Client) :
    Action Thread Record Client → Bool
  | .run t _ | .ret t =>
      decide (active s.memory.log = some c ∧ t = c.1 ∧ (s.stack t).length = c.2 + 1) &&
        !(s.stack t).head?.any Frame.relocks
  | _ => false

/-- No call makes a second claim. -/
theorem active_frame_step (hm : MemoryInv m) (hclaimed : (claimer m.log).isSome = true)
    (hstep : top.step t rest weak m = some (m', next)) {c : FrameId Thread}
    (hactive : active m'.log = some c) : active m.log = some c := by
  cases top with
  | constructor r pc =>
      cases pc with
      | tryLock spin | readNext =>
          simp only [Frame.step, constructorStep] at hstep
          split at hstep <;> cases hstep <;> simpa using hactive
      | callback => cases hstep
      | _ =>
          cases hstep
          simpa using hactive
  | destructor r pc =>
      cases pc with
      | readState | lock spin | readPrevPtr saved | rereadNext saved | readFlag | waitCompleted =>
          simp only [Frame.step, destructorStep] at hstep
          split at hstep <;> cases hstep <;> simpa using hactive
      | _ =>
          cases hstep
          simpa using hactive
  | requestStop pc =>
      cases pc with
      | tryLock spin =>
          simp only [Frame.step, requestStopStep] at hstep
          split at hstep
          next =>
            cases hstep
            exact hactive
          next hlock =>
            obtain ⟨hzero, -⟩ := tryLock_acquired hlock
            rw [hm.word, hclaimed, encode_eq_zero] at hzero
            cases hzero.1
          next =>
            cases hstep
            simpa using hactive
      | readHead | rereadHead r | relock spin =>
          simp only [Frame.step, requestStopStep] at hstep
          split at hstep <;> cases hstep <;> simpa using hactive
      | callback r removed => cases hstep
      | finalUnlock =>
          cases hstep
          simp at hactive
      | _ =>
          cases hstep
          simpa using hactive
  | client c => cases hstep

theorem Inv.active_step (hs : Inv s) (hclaimed : (claimer s.memory.log).isSome = true)
    {a : Action Thread Record Client} (hstep : StopToken.step s a = some s') {c : FrameId Thread}
    (hactive : active s'.memory.log = some c) : active s.memory.log = some c := by
  cases a with
  | run t weak =>
      simp only [StopToken.step] at hstep
      split at hstep
      next => cases hstep
      next top rest hstack =>
        split at hstep
        next => cases hstep
        next m next hframe =>
          have hmemory : s'.memory = m := by
            cases hstep
            cases next <;> rfl
          rw [hmemory] at hactive
          exact active_frame_step hs.memory hclaimed hframe hactive
  | ret t =>
      simp only [StopToken.step] at hstep
      split at hstep
      next =>
        cases hstep
        simpa [State.setStack, State.setMemory] using hactive
      next =>
        cases hstep
        simpa [State.setStack, State.setMemory] using hactive
      next =>
        cases hstep
        simpa [State.setStack, State.setMemory] using hactive
      next => cases hstep
  | requestStop t | construct t r | destroy t r | enter t c =>
      simp only [StopToken.step, Option.ite_none_right_eq_some, Option.some.injEq] at hstep
      obtain ⟨-, rfl⟩ := hstep
      exact hactive
  | become t c | leave t =>
      simp only [StopToken.step] at hstep
      split at hstep
      next =>
        cases hstep
        exact hactive
      next => cases hstep

omit [DecidableEq Thread] in
/-- A step of the claiming frame comes nearer to the end, unless it spins. -/
theorem requestStopStep_rank {depth : Nat} {pc : RequestPc Record}
    (hinv : RequestInv m id pc)
    (hstep : requestStopStep t depth weak m pc = some (m', next)) :
    (∃ pc' : RequestPc Record, next = .goto (.requestStop pc') ∧
      13 * (linked m'.log).length + pc'.rank +
        (if (Frame.requestStop pc : Frame Thread Record Client).relocks then 0 else 1) ≤
          13 * (linked m.log).length + pc.rank) ∨
      (next = .ret ∧ active m'.log = none) ∨ ∃ spin, pc = .tryLock spin := by
  cases pc with
  | tryLock spin => exact .inr (.inr ⟨spin, rfl⟩)
  | readHead | rereadHead r' | relock spin =>
      simp only [requestStopStep] at hstep
      split at hstep <;> cases hstep <;>
        exact .inl ⟨_, rfl, by simp [RequestPc.rank, Frame.relocks]⟩
  | openLock r' =>
      cases hstep
      obtain ⟨⟨base, ⟨-, -, -, hhead⟩, -⟩, -⟩ := hinv
      have hmem := List.mem_of_mem_head? hhead
      have hlength := List.length_erase_of_mem hmem
      have hpos := List.length_pos_of_mem hmem
      refine .inl ⟨_, rfl, ?_⟩
      simp only [RequestPc.rank, Frame.relocks, Memory.record, List.cons_append, List.nil_append,
        linked_cons, Event.linkedAfter, hlength]
      simp only [Bool.false_eq_true, if_false]
      omega
  | callback r' removed => cases hstep
  | finalUnlock =>
      cases hstep
      exact .inr (.inl ⟨rfl, by simp⟩)
  | _ =>
      cases hstep
      exact .inl ⟨_, rfl, by simp [RequestPc.rank, Frame.relocks]⟩

omit [DecidableEq Thread] in
/-- After the claim nothing is linked any more. -/
theorem DrainStep.sublist (h : DrainStep m m') (hclaimed : (claimer m.log).isSome = true) :
    (linked m'.log).Sublist (linked m.log) := by
  cases h with
  | quiet hlinked | enter hlinked =>
      rw [hlinked]
  | push hunclaimed =>
      rw [hunclaimed] at hclaimed
      cases hclaimed
  | unlink hlinked =>
      rw [hlinked]
      exact List.erase_sublist
  | pop hlinked =>
      rw [hlinked]
      exact List.sublist_cons_self _ _

section Rank

variable {c : FrameId Thread} {frame : Frame Thread Record Client}

theorem State.drainRank_of_active (hactive : active s.memory.log = some c)
    (hframe : CallStack.frameAt (s.stack c.1) c.2 = some frame) :
    s.drainRank c = 13 * (linked s.memory.log).length + frame.drainRank := by
  simp [State.drainRank, hactive, hframe]

theorem State.drainRank_le {frame' : Frame Thread Record Client}
    (hframe : CallStack.frameAt (s.stack c.1) c.2 = some frame')
    (hrank : frame'.drainRank ≤ frame.drainRank) :
    s.drainRank c ≤ 13 * (linked s.memory.log).length + frame.drainRank := by
  unfold State.drainRank
  split
  · simp only [hframe, Option.map_some, Option.getD_some]
    omega
  · omega

omit [DecidableEq Record] in
/-- A frame other than the one that a step replaces stays. -/
theorem frameAt_stays (old new : List (Frame Thread Record Client))
    (hframe : CallStack.frameAt (s.stack c.1) c.2 = some frame)
    (hstack : s.stack t = old ++ rest) (hold : old.length ≤ 1) (hne : c ≠ (t, rest.length)) :
    CallStack.frameAt (((s.setMemory m).setStack t (new ++ rest)).stack c.1) c.2 = some frame := by
  rcases CallStack.frameAt_kept new hstack hframe with ⟨ht, hdepth⟩ | hkept
  · have hlt := CallStack.frameAt_lt hframe
    rw [ht, hstack, List.length_append] at hlt
    exact absurd (Prod.ext ht (by omega)) hne
  · exact hkept

omit [DecidableEq Record] in
theorem drainRank_markRemoved (flag : FrameId Thread)
    (hframe : CallStack.frameAt (s.stack c.1) c.2 = some frame) :
    ∃ frame', CallStack.frameAt ((s.setStack flag.1
        (CallStack.modifyAt Frame.markRemoved (s.stack flag.1) flag.2)).stack c.1) c.2 =
          some frame' ∧ frame'.drainRank = frame.drainRank := by
  have hmark : frame.markRemoved.drainRank = frame.drainRank := by
    cases frame with
    | requestStop pc => cases pc <;> rfl
    | _ => rfl
  by_cases ht : c.1 = flag.1
  · rw [ht] at hframe
    simp only [State.setStack, ht, Function.update_self, CallStack.frameAt_modifyAt, hframe]
    split
    · exact ⟨_, rfl, hmark⟩
    · exact ⟨_, rfl, rfl⟩
  · exact ⟨frame, by simpa [State.setStack, ht] using hframe, rfl⟩

omit [DecidableEq Record] in
/-- A step of another frame is none of the drain. -/
theorem advances_of_ne {a : Action Thread Record Client} (hstack : s.stack t = top :: rest)
    (hne : c ≠ (t, rest.length)) (ha : (∃ weak, a = .run t weak) ∨ a = .ret t) :
    s.advances c a = false := by
  have hnot : ¬ (active s.memory.log = some c ∧ t = c.1 ∧ (s.stack t).length = c.2 + 1) := by
    rintro ⟨-, ht, hlength⟩
    rw [hstack, List.length_cons] at hlength
    exact hne (Prod.ext ht.symm (by simpa using (Nat.succ_injective hlength).symm))
  rcases ha with ⟨weak, rfl⟩ | rfl <;> simp only [State.advances, hnot, decide_false, Bool.false_and]

omit [DecidableEq Record] [DecidableEq Thread] in
theorem rank_pos {pc : RequestPc Record}
    (hclaimed : (Frame.requestStop pc : Frame Thread Record Client).claimed = true) :
    1 ≤ pc.rank := by
  cases pc with
  | tryLock spin => cases hclaimed
  | _ => simp [RequestPc.rank]

omit [DecidableEq Record] in
theorem frameAt_pushed {frame' : Frame Thread Record Client}
    (hframe : CallStack.frameAt (s.stack c.1) c.2 = some frame) :
    CallStack.frameAt (((s.setMemory m).push t frame').stack c.1) c.2 = some frame := by
  refine frameAt_stays [] [frame'] hframe rfl (by simp) ?_
  rintro rfl
  exact absurd (CallStack.frameAt_lt hframe) (lt_irrefl _)

omit [DecidableEq Record] in
/-- The access of a frame that is not the claiming one. -/
theorem run_stays (hframe : CallStack.frameAt (s.stack c.1) c.2 = some frame)
    (hstack : s.stack t = top :: rest) (hne : c ≠ (t, rest.length)) :
    ∃ frame', CallStack.frameAt (((s.setMemory m).apply t rest next).stack c.1) c.2 =
      some frame' ∧ frame'.drainRank = frame.drainRank := by
  cases next with
  | goto frame' =>
      exact ⟨frame, frameAt_stays [top] [frame'] hframe hstack (by simp) hne, rfl⟩
  | ret => exact ⟨frame, frameAt_stays [top] [] hframe hstack (by simp) hne, rfl⟩
  | flagAndRet flag =>
      have hpopped := frameAt_stays (m := m) [top] [] hframe hstack (by simp) hne
      exact drainRank_markRemoved flag hpopped

/-- The claiming frame itself makes an access. -/
theorem Inv.rank_run (hs : Inv s) {pc : RequestPc Record}
    (hactive : active s.memory.log = some (t, rest.length))
    (hstack : s.stack t = .requestStop pc :: rest)
    (hstep : requestStopStep t rest.length weak s.memory pc = some (m, next)) :
    ((s.setMemory m).apply t rest next).drainRank (t, rest.length) +
        (if (Frame.requestStop pc : Frame Thread Record Client).relocks then 0 else 1) ≤
      13 * (linked s.memory.log).length + pc.rank := by
  have hclaimed := hs.top_claimed hstack hactive
  have hinv := hs.frames t rest.length _ (by rw [hstack]; exact CallStack.frameAt_top _ _)
  rcases requestStopStep_rank hinv hstep with ⟨pc', rfl, hrank⟩ | ⟨rfl, hnone⟩ | ⟨spin, rfl⟩
  · have hframe : CallStack.frameAt (((s.setMemory m).apply t rest
        (.goto (.requestStop pc'))).stack t) rest.length = some (.requestStop pc') := by
      simp [State.apply, State.setStack]
    have hle := State.drainRank_le (c := (t, rest.length)) hframe le_rfl
    simp only [Frame.drainRank] at hle
    exact (Nat.add_le_add_right hle _).trans hrank
  · have hzero : ((s.setMemory m).apply t rest
        (.ret : Next Thread Record Client)).drainRank (t, rest.length) = 0 := by
      simp [State.drainRank, State.apply, State.setStack, State.setMemory, hnone]
    have hpos := rank_pos hclaimed
    rw [hzero]
    split <;> omega
  · cases hclaimed

/-- The drain comes nearer to its end with each of its own steps, and no other step
takes it further away. -/
theorem Inv.rank_step (hs : Inv s) (h : Handled s.memory) {a : Action Thread Record Client}
    (hclaimed : claimer s.memory.log = some c) (hstep : StopToken.step s a = some s') :
    s'.drainRank c + (if s.advances c a then 1 else 0) ≤ s.drainRank c := by
  have hsome : (claimer s.memory.log).isSome = true := by simp [hclaimed]
  by_cases hactive : active s.memory.log = some c
  · obtain ⟨frame, hframe, hfclaimed⟩ := hs.claimFrame c hactive
    have hlength := ((hs.drain_step h hstep).1.sublist hsome).length_le
    rw [State.drainRank_of_active hactive hframe]
    -- a step that leaves the claiming frame where it is
    have hpassive : (∃ frame', CallStack.frameAt (s'.stack c.1) c.2 = some frame' ∧
        frame'.drainRank = frame.drainRank) → s.advances c a = false →
          s'.drainRank c + (if s.advances c a then 1 else 0) ≤
            13 * (linked s.memory.log).length + frame.drainRank := by
      rintro ⟨frame', hframe', hrank⟩ hnone
      have hle := State.drainRank_le hframe' hrank.le
      simp only [hnone, Bool.false_eq_true, if_false]
      omega
    cases a with
    | run t weak =>
        simp only [StopToken.step] at hstep
        split at hstep
        next => cases hstep
        next top rest hstack =>
          split at hstep
          next => cases hstep
          next m next hstep' =>
            cases hstep
            by_cases hc : c = (t, rest.length)
            · subst hc
              rw [hstack, CallStack.frameAt_top] at hframe
              cases hframe
              cases frame with
              | requestStop pc =>
                  have hrank := hs.rank_run hactive hstack hstep'
                  cases hspin : (Frame.requestStop pc : Frame Thread Record Client).relocks <;>
                    simpa [State.advances, hactive, hstack, Frame.drainRank, hspin] using hrank
              | _ => cases hfclaimed
            · exact hpassive (run_stays hframe hstack hc) (advances_of_ne hstack hc (.inl ⟨_, rfl⟩))
    | ret t =>
        -- the body that returns was run by the claiming frame, or by another one
        have hreturn : ∀ {r : Record} {removed : Bool} {rest : List (Frame Thread Record Client)}
            {pc : RequestPc Record}, s.stack t = .requestStop (.callback r removed) :: rest →
            (∃ m : Memory Thread Record, s' =
              (s.setMemory m).setStack t (.requestStop pc :: rest)) → pc.rank < 13 →
              s'.drainRank c + (if s.advances c (.ret t) then 1 else 0) ≤
                13 * (linked s.memory.log).length + frame.drainRank := by
          rintro r removed rest pc hstack ⟨m, rfl⟩ hpc
          by_cases hc : c = (t, rest.length)
          · subst hc
            rw [hstack, CallStack.frameAt_top] at hframe
            cases hframe
            have hframe' : CallStack.frameAt (((s.setMemory m).setStack t
                (.requestStop pc :: rest)).stack t) rest.length = some (.requestStop pc) := by
              simp [State.setStack]
            have hle := State.drainRank_le (c := (t, rest.length)) hframe' le_rfl
            simp only [Frame.drainRank] at hle ⊢
            have hcallback : (RequestPc.callback r removed).rank = 13 := rfl
            split <;> omega
          · refine hpassive ⟨frame, ?_, rfl⟩ (advances_of_ne hstack hc (.inr rfl))
            exact frameAt_stays [_] [_] hframe hstack (by simp) hc
        simp only [StopToken.step] at hstep
        split at hstep
        next r rest hstack =>
          cases hstep
          have hc : c ≠ (t, rest.length) := by
            rintro rfl
            rw [hstack, CallStack.frameAt_top] at hframe
            cases hframe
            cases hfclaimed
          refine hpassive ⟨frame, ?_, rfl⟩ (advances_of_ne hstack hc (.inr rfl))
          exact frameAt_stays [_] [] hframe hstack (by simp) hc
        next r rest hstack =>
          cases hstep
          exact hreturn hstack ⟨_, rfl⟩ (by simp [RequestPc.rank])
        next r rest hstack =>
          cases hstep
          exact hreturn hstack ⟨_, rfl⟩ (by simp [RequestPc.rank])
        next => cases hstep
    | requestStop t | construct t r | destroy t r | enter t client =>
        simp only [StopToken.step, Option.ite_none_right_eq_some, Option.some.injEq] at hstep
        obtain ⟨-, rfl⟩ := hstep
        exact hpassive ⟨frame, frameAt_pushed hframe, rfl⟩ rfl
    | become t client | leave t =>
        simp only [StopToken.step] at hstep
        split at hstep
        next client' rest hstack =>
          cases hstep
          refine hpassive ⟨frame, ?_, rfl⟩ rfl
          first
            | refine frameAt_stays [.client client'] [_] hframe hstack (by simp) ?_
            | refine frameAt_stays [.client client'] [] hframe hstack (by simp) ?_
          rintro rfl
          rw [hstack, CallStack.frameAt_top] at hframe
          cases hframe
          cases hfclaimed
        next => cases hstep
  · have hnone : s.advances c a = false := by
      cases a <;> simp [State.advances, hactive]
    have hafter : active s'.memory.log ≠ some c :=
      fun hafter => hactive (hs.active_step hsome hstep hafter)
    simp [State.drainRank, hafter, hnone]

end Rank

/-! ## Runs after the claim -/

/-- How the list and the records taken off it have changed since the claim: the
records popped meanwhile, in that order, and then those still linked are among
those linked at the claim, in the order of the list. -/
def Drained (s s' : State Thread Record Client) (popped : List Record) : Prop :=
  pops s'.memory.log = popped.reverse ++ pops s.memory.log ∧
    (popped ++ linked s'.memory.log).Sublist (linked s.memory.log)

/-- By induction on the run; each step falls under one case of `DrainStep`. -/
theorem drained_run (hs : (machine Thread Record Client).Reachable s)
    (hclaimed : (claimer s.memory.log).isSome = true)
    {trace : List (State Thread Record Client × Action Thread Record Client)}
    (hrun : (machine Thread Record Client).Run s trace s') :
    (claimer s'.memory.log).isSome = true ∧ ∃ popped, Drained s s' popped := by
  induction hrun with
  | nil => exact ⟨hclaimed, [], by simp [Drained]⟩
  | @snoc middle last trace a hprefix hstep ih =>
      obtain ⟨hmiddle, popped, hpops, horder⟩ := ih
      have hreach := hs.run hprefix
      have hafter : (claimer last.memory.log).isSome = true := by
        obtain ⟨events, hlog⟩ := step_log hstep
        rw [← hlog]
        exact claimer_append hmiddle
      refine ⟨hafter, ?_⟩
      cases ((inv_of_reachable hreach).drain_step (handled_of_reachable hreach) hstep).1 with
      | quiet hlinked hsame | enter hlinked hsame =>
          exact ⟨popped, hsame.trans hpops, by rwa [hlinked]⟩
      | push hunclaimed =>
          rw [hunclaimed] at hmiddle
          cases hmiddle
      | unlink hlinked hsame =>
          refine ⟨popped, hsame.trans hpops, ?_⟩
          rw [hlinked]
          exact (List.Sublist.append_left List.erase_sublist popped).trans horder
      | @pop r hlinked hpopped =>
          refine ⟨popped ++ [r], ?_, ?_⟩
          · rw [hpopped, hpops, List.reverse_append]
            rfl
          · rw [hlinked] at horder
            simpa using horder

theorem rank_run {c : FrameId Thread} (hs : (machine Thread Record Client).Reachable s)
    (hclaimed : claimer s.memory.log = some c)
    {trace : List (State Thread Record Client × Action Thread Record Client)}
    (hrun : (machine Thread Record Client).Run s trace s') :
    claimer s'.memory.log = some c ∧
      s'.drainRank c + (trace.filter fun p => p.1.advances c p.2).length ≤ s.drainRank c := by
  induction hrun with
  | nil => exact ⟨hclaimed, by simp⟩
  | @snoc middle last trace a hprefix hstep ih =>
      obtain ⟨hmiddle, hrank⟩ := ih
      have hreach := hs.run hprefix
      have hinv := inv_of_reachable hreach
      have hstep_rank := hinv.rank_step (handled_of_reachable hreach) hmiddle hstep
      refine ⟨hinv.claimer_step hmiddle hstep, ?_⟩
      · rw [List.filter_append, List.length_append]
        cases hadvances : middle.advances c a <;> simp [hadvances] at hstep_rank ⊢ <;> omega

/-- Only the compare-exchange of `request_stop` makes a claim. -/
theorem claim_frame_step (hunclaimed : claimer m.log = none) {c : FrameId Thread}
    (hstep : top.step t rest weak m = some (m', next)) (hclaimed : claimer m'.log = some c) :
    c = (t, rest.length) ∧ next = .goto (.requestStop .setRequester) ∧
      m'.log = .acquired c :: .claimed c :: m.log := by
  have hsame : claimer m'.log ≠ claimer m.log := by simp [hunclaimed, hclaimed]
  cases top with
  | constructor r pc =>
      cases pc with
      | tryLock spin | readNext =>
          simp only [Frame.step, constructorStep] at hstep
          split at hstep <;> cases hstep <;> exact absurd (by simp) hsame
      | callback => cases hstep
      | _ =>
          cases hstep
          exact absurd (by simp) hsame
  | destructor r pc =>
      cases pc with
      | readState | lock spin | readPrevPtr saved | rereadNext saved | readFlag | waitCompleted =>
          simp only [Frame.step, destructorStep] at hstep
          split at hstep <;> cases hstep <;> exact absurd (by simp) hsame
      | _ =>
          cases hstep
          exact absurd (by simp) hsame
  | requestStop pc =>
      cases pc with
      | tryLock spin =>
          simp only [Frame.step, requestStopStep] at hstep
          split at hstep <;> cases hstep
          · exact absurd rfl hsame
          · obtain rfl : (t, rest.length) = c := by simpa using hclaimed
            exact ⟨rfl, rfl, rfl⟩
          · exact absurd (by simp) hsame
      | readHead | rereadHead r | relock spin =>
          simp only [Frame.step, requestStopStep] at hstep
          split at hstep <;> cases hstep <;> exact absurd (by simp) hsame
      | callback r removed => cases hstep
      | _ =>
          cases hstep
          exact absurd (by simp) hsame
  | client c => cases hstep

theorem claim_step {a : Action Thread Record Client} {c : FrameId Thread}
    (hunclaimed : claimer s.memory.log = none) (hstep : step s a = some s')
    (hclaimed : claimer s'.memory.log = some c) :
    s'.memory.log = .acquired c :: .claimed c :: s.memory.log ∧
      CallStack.frameAt (s'.stack c.1) c.2 = some (.requestStop .setRequester) := by
  cases a with
  | run t weak =>
      simp only [step] at hstep
      split at hstep
      next => cases hstep
      next top rest hstack =>
        split at hstep
        next => cases hstep
        next m next hframe =>
          have hmemory : s'.memory = m := by
            cases hstep
            cases next <;> rfl
          rw [hmemory] at hclaimed ⊢
          obtain ⟨rfl, rfl, hlog⟩ := claim_frame_step hunclaimed hframe hclaimed
          cases hstep
          exact ⟨hlog, by simp [State.apply, State.setStack]⟩
  | ret t =>
      simp only [step] at hstep
      split at hstep
      next =>
        cases hstep
        simp [State.setStack, State.setMemory, hunclaimed] at hclaimed
      next =>
        cases hstep
        simp [State.setStack, State.setMemory, hunclaimed] at hclaimed
      next =>
        cases hstep
        simp [State.setStack, State.setMemory, hunclaimed] at hclaimed
      next => cases hstep
  | requestStop t | construct t r | destroy t r | enter t client =>
      simp only [step, Option.ite_none_right_eq_some, Option.some.injEq] at hstep
      obtain ⟨-, rfl⟩ := hstep
      cases hunclaimed.symm.trans hclaimed
  | become t client | leave t =>
      simp only [step] at hstep
      split at hstep
      next =>
        cases hstep
        cases hunclaimed.symm.trans hclaimed
      next => cases hstep

/-- The guarantees of the drain to the thread that made the claim in the step that
led to `s`. -/
structure DrainContract (s : State Thread Record Client) (c : FrameId Thread) : Prop where
  /-- The drain pops records that were linked at the claim, in the order of the list,
  that is last registered first; those still linked come behind them. Callbacks
  are entered in the order of the pops, all but at most the last. -/
  order : ∀ trace s', (machine Thread Record Client).Run s trace s' → ∃ popped,
    pops s'.memory.log = popped.reverse ∧
    (popped ++ linked s'.memory.log).Sublist (linked s.memory.log) ∧
    ((drained s'.memory.log).reverse = popped ∨
      ∃ r, (drained s'.memory.log).reverse ++ [r] = popped)
  /-- At most as many callbacks are entered as records were linked at the claim. -/
  bounded : ∀ trace s', (machine Thread Record Client).Run s trace s' →
    (drained s'.memory.log).length ≤ (linked s.memory.log).length
  /-- No step adds to the list, and a pop takes one record off it. -/
  shrinks : ∀ trace s' a s'', (machine Thread Record Client).Run s trace s' →
    step s' a = some s'' → (linked s''.memory.log).Sublist (linked s'.memory.log) ∧
      (pops s''.memory.log = pops s'.memory.log ∨
        ∃ r, pops s''.memory.log = r :: pops s'.memory.log ∧
          linked s'.memory.log = r :: linked s''.memory.log)
  /-- When the claiming call has returned, every record linked at the claim has had
  its callback entered or was unregistered. -/
  complete : ∀ trace s', (machine Thread Record Client).Run s trace s' →
    active s'.memory.log = none → ∀ r ∈ linked s.memory.log,
      r ∈ drained s'.memory.log ∨ .unlinked r ∈ s'.memory.log
  /-- The drain makes only so many steps, not counting attempts to take the lock. -/
  ends : ∀ trace s', (machine Thread Record Client).Run s trace s' →
    (trace.filter fun p => p.1.advances c p.2).length ≤ 13 * (linked s.memory.log).length + 10

omit [DecidableEq Thread] in
/-- Before the claim nothing has been popped. -/
theorem MemoryInv.pops_eq_nil (hm : MemoryInv m) (hunclaimed : claimer m.log = none) :
    pops m.log = [] := by
  rw [List.eq_nil_iff_forall_not_mem]
  intro r hr
  have hpopped : (phase m.log r).popped = true := by
    rcases (hm.records r).popped.mp (mem_pops.mp hr) with hphase | hphase | hphase <;>
      simp [hphase]
  obtain ⟨c, hc, -⟩ := hm.popped r hpopped
  rw [hunclaimed] at hc
  cases hc

/-- The drain ends whatever the callbacks and the other threads do. -/
theorem drain_contract {s₀ : State Thread Record Client} {a : Action Thread Record Client}
    {c : FrameId Thread} (hs : (machine Thread Record Client).Reachable s₀)
    (hunclaimed : claimer s₀.memory.log = none) (hstep : step s₀ a = some s)
    (hclaimed : claimer s.memory.log = some c) : DrainContract s c := by
  have hreach : (machine Thread Record Client).Reachable s := .step (a := a) hs hstep
  have hsome : (claimer s.memory.log).isSome = true := by simp [hclaimed]
  obtain ⟨hlog, hframe⟩ := claim_step hunclaimed hstep hclaimed
  have hnone : pops s.memory.log = [] := by
    rw [hlog]
    simpa using (inv_of_reachable hs).memory.pops_eq_nil hunclaimed
  have horder : ∀ trace s', (machine Thread Record Client).Run s trace s' → ∃ popped,
      pops s'.memory.log = popped.reverse ∧
      (popped ++ linked s'.memory.log).Sublist (linked s.memory.log) ∧
      ((drained s'.memory.log).reverse = popped ∨
        ∃ r, (drained s'.memory.log).reverse ++ [r] = popped) := by
    intro trace s' hrun
    obtain ⟨-, popped, hpops, hsublist⟩ := drained_run hreach hsome hrun
    rw [hnone, List.append_nil] at hpops
    refine ⟨popped, hpops, hsublist, ?_⟩
    rcases handled_of_reachable (hreach.run hrun) with heq | ⟨r, heq, -⟩
    · exact .inl (by rw [← heq, hpops, List.reverse_reverse])
    · refine .inr ⟨r, ?_⟩
      rw [← List.reverse_cons, ← heq, hpops, List.reverse_reverse]
  refine ⟨horder, ?_, ?_, ?_, ?_⟩
  · intro trace s' hrun
    obtain ⟨popped, -, hsublist, hdrained⟩ := horder trace s' hrun
    have hlength := hsublist.length_le
    rw [List.length_append] at hlength
    rcases hdrained with rfl | ⟨r, rfl⟩
    · rw [List.length_reverse] at hlength
      omega
    · rw [List.length_append, List.length_reverse] at hlength
      omega
  · intro trace s' a' s'' hrun hnext
    have hmiddle := (drained_run hreach hsome hrun).1
    have hinv := inv_of_reachable (hreach.run hrun)
    have hdrain := (hinv.drain_step (handled_of_reachable (hreach.run hrun)) hnext).1
    refine ⟨hdrain.sublist hmiddle, ?_⟩
    cases hdrain with
    | quiet _ hpops | push _ _ hpops | unlink _ hpops | enter _ hpops => exact .inl hpops
    | pop hlinked hpops => exact .inr ⟨_, hpops, hlinked⟩
  · intro trace s' hrun hidle r hr
    have hafter := (drained_run hreach hsome hrun).1
    have hinv := inv_of_reachable hreach
    have hinv' := inv_of_reachable (hreach.run hrun)
    have hphase := ((hinv.memory.records r).mem_linked.mp hr)
    have hpushed := (run_log hrun).subset
      ((hinv.memory.records r).pushed.mpr ⟨by simp [hphase], by simp [hphase]⟩)
    have hrecord := hinv'.memory.records r
    rcases hinv'.memory.settled hafter hidle hpushed with hunlinked | hdone
    · exact .inr (hrecord.erased.mpr hunlinked)
    · have hpopped : r ∈ pops s'.memory.log := mem_pops.mpr (hrecord.popped.mpr (.inr hdone))
      have hnoneExecuting : NoneExecuting s'.memory := by
        intro r' hexecuting
        have hactive := hinv'.memory.executing r' hexecuting
        rw [hidle] at hactive
        cases hactive
      rw [(handled_of_reachable (hreach.run hrun)).settled hnoneExecuting] at hpopped
      exact .inl hpopped
  · intro trace s' hrun
    have hbound := (rank_run hreach hclaimed hrun).2
    have hinitial := State.drainRank_le hframe le_rfl
    have hrank : (Frame.requestStop .setRequester : Frame Thread Record Client).drainRank = 10 :=
      rfl
    omega

/-- Two records are registered and a second thread is about to make the claim. -/
def registeredRun : List (Action Pair Pair Empty) :=
  List.flatten
    [[.construct .first .first], List.replicate 9 (.run .first false), [.construct .first .second],
      List.replicate 10 (.run .first false), [.requestStop .second, .run .second false]]

set_option maxRecDepth 4000 in
theorem drain_contract_registeredRun :
    ∃ s : State Pair Pair Empty, DrainContract s (.second, 0) ∧
      linked s.memory.log = [.second, .first] := by
  have hstep : (step (((machine Pair Pair Empty).exec .initial registeredRun).get (by decide))
      (.run .second false)).isSome = true := by decide
  refine ⟨_, drain_contract (Machine.reachable_replay rfl registeredRun (by decide)) (by decide)
    (Option.some_get hstep).symm (by decide +revert), by decide +revert⟩

end Bexec.StopToken
