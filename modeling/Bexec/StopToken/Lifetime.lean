import Bexec.StopToken.Stability

/-!
# Lifetime of a record

Which records a step of `request_stop` reads or writes, and why none of them
has been destroyed. The handshake between the notifying thread and a destructor
leaves nothing to wait for once no notification is in progress.
-/

namespace Bexec.StopToken

open Foundation

variable {Thread Record Client : Type} [DecidableEq Record]

/-- The records whose fields the next access reads or writes. -/
def RequestPc.touches : RequestPc Record → List Record
  | .clearPrevPtr r | .readNext r | .setFlag r | .invoke r | .clearFlag r | .setCompleted r => [r]
  | .writeHeadPrevPtr _ head => [head]
  | _ => []

/-- The two memories differ at most in the fields of the record. -/
structure AgreeOff (r : Record) (m₁ m₂ : Memory Thread Record) : Prop where
  state : m₁.state = m₂.state
  head : m₁.links.head = m₂.links.head
  next : ∀ r', r' ≠ r → m₁.links.next r' = m₂.links.next r'
  prev : ∀ r', r' ≠ r → m₁.links.prev r' = m₂.links.prev r'
  requester : m₁.requesterThread = m₂.requesterThread
  removed : ∀ r', r' ≠ r → m₁.removedDuringCallback r' = m₂.removedDuringCallback r'
  completed : ∀ r', r' ≠ r → m₁.completed r' = m₂.completed r'
  registered : ∀ r', r' ≠ r → m₁.registered r' = m₂.registered r'
  log : m₁.log = m₂.log

/-- The step leaves the fields of the record alone. -/
structure Unwritten (r : Record) (m m' : Memory Thread Record) : Prop where
  next : m'.links.next r = m.links.next r
  prev : m'.links.prev r = m.links.prev r
  removed : m'.removedDuringCallback r = m.removedDuringCallback r
  completed : m'.completed r = m.completed r
  registered : m'.registered r = m.registered r

variable {m m' : Memory Thread Record} {r : Record} {id : FrameId Thread} {weak : Bool}
  {next : Next Thread Record Client}

/-- A step of `request_stop` neither reads nor writes a record it does not touch. -/
theorem requestStopStep_untouched {t : Thread} {depth : Nat} {pc : RequestPc Record}
    {m₁ m₂ m₁' : Memory Thread Record} (htouch : r ∉ pc.touches) (hagree : AgreeOff r m₁ m₂)
    (hstep : requestStopStep t depth weak m₁ pc = some (m₁', next)) :
    Unwritten r m₁ m₁' ∧ ∃ m₂', requestStopStep t depth weak m₂ pc = some (m₂', next) ∧
      AgreeOff r m₁' m₂' := by
  have hsame := hagree
  obtain ⟨hstate, hhead, hnext, hprev, hrequester, hremoved, hcompleted, hregistered, hlog⟩ :=
    hagree
  cases pc with
  | callback r' removed => cases hstep
  | tryLock pc | relock pc =>
      simp only [requestStopStep, ← hstate] at hstep ⊢
      split at hstep <;> cases hstep <;> refine ⟨⟨rfl, rfl, rfl, rfl, rfl⟩, _, rfl, ?_⟩ <;>
        exact ⟨by simp [Memory.record, hstate], hhead, hnext, hprev, hrequester, hremoved, hcompleted,
          hregistered, by simp [Memory.record, hlog]⟩
  | readHead | rereadHead r' =>
      simp only [requestStopStep, ← hhead] at hstep ⊢
      split at hstep <;> cases hstep <;>
        exact ⟨⟨rfl, rfl, rfl, rfl, rfl⟩, m₂, rfl, hsame⟩
  | readNext r' =>
      cases hstep
      have hne : r' ≠ r := fun heq => htouch (by simp [RequestPc.touches, heq])
      refine ⟨⟨rfl, rfl, rfl, rfl, rfl⟩, m₂, ?_, hsame⟩
      simp only [requestStopStep, hnext r' hne]
  | _ =>
      cases hstep
      refine ⟨?_, _, rfl, ?_⟩
      · constructor <;> simp_all [Memory.record, RequestPc.touches, Links.setPrev, Links.write]
      · refine ⟨?_, ?_, ?_, ?_, ?_, ?_, ?_, ?_, ?_⟩ <;> try assumption
        all_goals simp_all [Memory.record, Links.setPrev, Links.write, Function.update]

/-- Only linked records and the one being executed are touched. -/
theorem RequestInv.touches_alive (hm : MemoryInv m) {pc : RequestPc Record}
    (hinv : RequestInv m id pc) (htouch : r ∈ pc.touches) : m.life r ≠ .destroyed := by
  have hlinked : ∀ r', r' ∈ linked m.log → m.life r' ≠ .destroyed := by
    intro r' hmem hlife
    exact ((hm.records r').destroyed hlife).2 ((hm.records r').mem_linked.mp hmem)
  have hpopping : ∀ {r' base}, Popping m id r' base → r' ∈ linked m.log :=
    fun hpop => List.mem_of_mem_head? hpop.2.2.2
  cases pc with
  | clearPrevPtr r' =>
      obtain rfl : r = r' := by simpa [RequestPc.touches] using htouch
      exact hlinked r (hpopping hinv)
  | readNext r' | setFlag r' =>
      obtain rfl : r = r' := by simpa [RequestPc.touches] using htouch
      obtain ⟨base, hpop, _⟩ := hinv
      exact hlinked r (hpopping hpop)
  | writeHeadPrevPtr r' head =>
      obtain rfl : r = head := by simpa [RequestPc.touches] using htouch
      obtain ⟨base, hpop, hnext, _⟩ := hinv
      have hsegment := hpop.2.2.1.2.represents.segment
      exact hlinked r (hsegment.next_mem (hpopping hpop) hnext)
  | invoke r' | clearFlag r' | setCompleted r' =>
      obtain rfl : r = r' := by simpa [RequestPc.touches] using htouch
      exact hinv.2.1
  | _ => cases htouch

/-- A record taken off the list and not destroyed is either being executed or
already finalized. -/
theorem RecordInv.settled (h : RecordInv m r) (hpopped : .popped r ∈ m.log)
    (hlife : m.life r ≠ .destroyed) (hidle : phase m.log r ≠ .executing) :
    m.completed r = true ∧ m.removedDuringCallback r = none := by
  have hfinished : phase m.log r = .finished := by
    rcases h.popped.mp hpopped with hphase | hphase | hphase
    · exact absurd hphase hidle
    · exact hphase
    · exact absurd (h.gone hphase) hlife
  exact ⟨h.completed.mpr hfinished, h.finished hfinished⟩

variable [DecidableEq Thread] {s : State Thread Record Client}

/-- The handshake over a record between its destructor and `request_stop`. -/
structure RecordLifetime (s : State Thread Record Client) : Prop where
  /-- The notifying thread touches no record whose destructor has returned. -/
  notifier : ∀ t depth pc, CallStack.frameAt (s.stack t) depth = some (.requestStop pc) →
    ∀ r ∈ pc.touches, s.memory.life r ≠ .destroyed
  /-- A destructor about to write through the flag does so on the stack of the
  frame owning it, which is executing the callback of that very record. -/
  flag : ∀ t r flag rest, s.stack t = .destructor r (.writeFlag flag) :: rest →
    flag.1 = t ∧ CallStack.frameAt rest flag.2 = some (.requestStop (.callback r false))
  /-- With no `request_stop` in progress, a popped record has been finalized, and
  the destructor's wait ends at its first test. -/
  settled : (∀ t depth pc, CallStack.frameAt (s.stack t) depth ≠ some (.requestStop pc)) →
    ∀ r, .popped r ∈ s.memory.log → s.memory.life r ≠ .destroyed →
      s.memory.completed r = true ∧ s.memory.removedDuringCallback r = none ∧
      ∀ t (rest : List (Frame Thread Record Client)) weak,
        ∃ m', destructorStep t rest weak s.memory r .waitCompleted = some (m', .ret)

theorem record_lifetime (hs : (machine Thread Record Client).Reachable s) : RecordLifetime s := by
  have hinv := inv_of_reachable hs
  refine ⟨?_, ?_, ?_⟩
  · intro t depth pc hframe r htouch
    exact RequestInv.touches_alive hinv.memory (hinv.frames t depth _ hframe) htouch
  · intro t r flag rest hstack
    obtain ⟨hlife, hphase, hactive, hthread, _⟩ :=
      hinv.frames t rest.length _ (by rw [hstack]; exact CallStack.frameAt_top _ _)
    have hidle : active s.memory.log ≠ some (t, rest.length) :=
      fun hclaim => by cases hinv.top_claimed hstack hclaim
    have halive : s.memory.life r ≠ .destroyed := by simp [hlife]
    exact ⟨hthread, ((hinv.beneath hstack hidle).of_executing hactive hthread hphase halive).1⟩
  · intro hnone r hpopped hlife
    have hidle : phase s.memory.log r ≠ .executing := by
      intro hphase
      obtain ⟨c, hc⟩ := Option.isSome_iff_exists.mp (hinv.memory.executing r hphase)
      obtain ⟨frame, hframe, hclaimed⟩ := hinv.claimFrame c hc
      cases frame with
      | requestStop pc => exact hnone c.1 c.2 pc hframe
      | _ => cases hclaimed
    obtain ⟨hcompleted, hremoved⟩ := (hinv.memory.records r).settled hpopped hlife hidle
    refine ⟨hcompleted, hremoved, ?_⟩
    intro t rest weak
    exact ⟨s.memory.finishDestructor t rest r, by simp [destructorStep, hcompleted]⟩

/-- Two records are registered; the callback of the second destroys its own
registration and is about to set the flag. -/
def destroyInsideRun : List (Action Pair Pair Empty) :=
  List.flatten
    [[.construct .first .first], List.replicate 9 (.run .first false), [.construct .first .second],
      List.replicate 10 (.run .first false), [.requestStop .second],
      List.replicate 12 (.run .second false), [.destroy .second .second],
      List.replicate 7 (.run .second false)]

set_option maxRecDepth 4000 in
theorem record_lifetime_destroyInsideRun :
    ∃ s : State Pair Pair Empty, RecordLifetime s ∧ s.stack .second =
      [.destructor .second (.writeFlag (.second, 0)), .requestStop (.callback .second false)] := by
  refine ⟨_, record_lifetime (Machine.reachable_replay rfl destroyInsideRun (by decide)), ?_⟩
  decide

end Bexec.StopToken
