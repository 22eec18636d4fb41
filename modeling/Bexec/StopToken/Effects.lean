import Bexec.StopToken.Invariant

/-!
# Effects of single accesses

One lemma for each kind of change a step makes to the memory. Each keeps the
memory invariant and satisfies the guarantee of the frame that makes it.
-/

namespace Bexec.StopToken

open Foundation

variable {Thread Record Client : Type} [DecidableEq Record]

/-- A change of the memory that the given frames may make. -/
structure Allowed (actors : FrameId Thread → Prop) (m m' : Memory Thread Record) : Prop where
  inv : MemoryInv m'
  guarantee : Guarantee actors m m'

variable {actors : FrameId Thread → Prop} {m : Memory Thread Record}
  {id : FrameId Thread} {r : Record} {t : Thread}

attribute [local simp] Memory.record Memory.setLife Phase.Advance

namespace Allowed

theorem refl (hm : MemoryInv m) : Allowed actors m m := ⟨hm, Guarantee.refl actors m⟩

/-- The lock owner writes a link field. -/
theorem setLinks (hm : MemoryInv m) (howner : owner m.log = some id) (links : Links Record) :
    Allowed (· = id) m { m with links := links } := by
  refine ⟨⟨hm.word, ?_, hm.popped, hm.executing, hm.active, hm.drained, hm.wins, ?_⟩, ?_⟩
  · intro hnone
    rw [howner] at hnone
    cases hnone
  · exact fun r => (hm.records r).congr (by constructor <;> simp)
  · refine ⟨?_, by simp, by simp, by simp⟩
    intro other hne hother
    rw [howner] at hother
    exact absurd (Option.some.inj hother).symm hne

theorem acquire (hm : MemoryInv m) {next : Word} (howner : owner m.log = none)
    (hnext : next = encode (claimer m.log).isSome true) :
    Allowed (· = id) m ({ m with state := next }.record [.acquired id]) := by
  refine ⟨⟨by simp [hnext], by simp, ?_, ?_, ?_, ?_, ?_, ?_⟩, ⟨by simp [howner], ?_, ?_, ?_⟩⟩
  · exact fun r => by simpa using hm.popped r
  · exact fun r => by simpa using hm.executing r
  · simpa using hm.active
  · simpa using hm.drained
  · simpa using hm.wins
  · exact fun r => (hm.records r).congr (by constructor <;> simp)
  · simp
  · simp
  · simp

/-- Winning the claim: only from the word 0, so nothing was claimed before. -/
theorem claim (hm : MemoryInv m) {next : Word} (howner : owner m.log = none)
    (hclaimer : claimer m.log = none) (hnext : next = encode true true) :
    Allowed (· = id) m ({ m with state := next }.record [.acquired id, .claimed id]) := by
  have hactive : active m.log = none := by
    cases hactive : active m.log with
    | none => rfl
    | some c => rw [hm.active c hactive] at hclaimer; cases hclaimer
  have hwins : wins m.log = [] := by simpa [hclaimer] using hm.wins
  have hpopped : ∀ r, (phase m.log r).popped = true → False := by
    intro r hr
    obtain ⟨c, hc, _⟩ := hm.popped r hr
    rw [hclaimer] at hc
    cases hc
  refine ⟨⟨by simp [hnext], by simp, ?_, by simp, by simp, by simp, by simp [hwins], ?_⟩,
    ⟨by simp [howner], by simp, by simp [hclaimer], by simp [hactive]⟩⟩
  · exact fun r hr => (hpopped r hr).elim
  · exact fun r => (hm.records r).congr (by constructor <;> simp [hclaimer])

end Allowed

/-- A step that concerns one record and neither the claim nor its drain. -/
structure RecordChange (actors : FrameId Thread → Prop) (r : Record) (m m' : Memory Thread Record) :
    Prop where
  others : ∀ r', r' ≠ r → SameRecord m m' r'
  record : RecordInv m' r
  claimer : claimer m'.log = StopToken.claimer m.log
  active : active m'.log = StopToken.active m.log
  wins : wins m'.log = StopToken.wins m.log
  requester : m'.requesterThread = m.requesterThread
  popped : (phase m'.log r).popped = true →
    (phase m.log r).popped = true ∨ ∃ c, Draining m c
  executing : phase m'.log r = .executing → (StopToken.active m.log).isSome
  held : ∀ other, ¬ actors other → m.life r = .constructing other ∨ m.life r = .destroying other →
    m'.life r = m.life r ∧ m'.registered r = m.registered r ∧
    (phase m.log r).Advance (phase m'.log r) ∧
    (phase m.log r = .inline → trail m'.log r = trail m.log r)
  observed : ∀ c, ¬ actors c → StopToken.active m.log = some c →
    m'.removedDuringCallback r = m.removedDuringCallback r ∧
    (phase m'.log r = .executing ↔ phase m.log r = .executing) ∧
    (phase m'.log r).popped = (phase m.log r).popped ∧
    (phase m.log r = .executing → trail m'.log r = trail m.log r ∧
      (m'.life r = .destroyed ↔ m.life r = .destroyed))

namespace RecordChange

variable {m' : Memory Thread Record}

theorem held' (h : RecordChange actors r m m') (r' : Record) (other : FrameId Thread)
    (hne : ¬ actors other) (hheld : m.life r' = .constructing other ∨ m.life r' = .destroying other) :
    m'.life r' = m.life r' ∧ m'.registered r' = m.registered r' ∧
      (phase m.log r').Advance (phase m'.log r') ∧
      (phase m.log r' = .inline → trail m'.log r' = trail m.log r') := by
  by_cases heq : r' = r
  · subst heq
    exact h.held other hne hheld
  · have same := h.others r' heq
    exact ⟨same.life, same.registered, Or.inl same.phase, fun _ => same.trail⟩

theorem observed' (h : RecordChange actors r m m') (c : FrameId Thread) (hne : ¬ actors c)
    (hc : StopToken.active m.log = some c) :
    StopToken.active m'.log = some c ∧ m'.requesterThread = m.requesterThread ∧
      m'.removedDuringCallback = m.removedDuringCallback ∧
      ∀ r', (phase m'.log r' = .executing ↔ phase m.log r' = .executing) ∧
        ((phase m'.log r').popped = (phase m.log r').popped) ∧
        (phase m.log r' = .executing → trail m'.log r' = trail m.log r' ∧
          (m'.life r' = .destroyed ↔ m.life r' = .destroyed)) := by
  obtain ⟨hremoved, hexecuting, hpopped, hstory⟩ := h.observed c hne hc
  refine ⟨h.active.trans hc, h.requester, ?_, ?_⟩
  · funext r'
    by_cases heq : r' = r
    · rw [heq, hremoved]
    · exact (h.others r' heq).removed
  · intro r'
    by_cases heq : r' = r
    · rw [heq]
      exact ⟨hexecuting, hpopped, hstory⟩
    · have same := h.others r' heq
      rw [same.phase, same.trail, same.life]
      exact ⟨Iff.rfl, rfl, fun _ => ⟨rfl, Iff.rfl⟩⟩

theorem allowed (h : RecordChange actors r m m') (hm : MemoryInv m)
    (hword : m'.state = encode (StopToken.claimer m'.log).isSome (owner m'.log).isSome)
    (hlinks : owner m'.log = none → LinksInv m'.log m'.links)
    (hdrained : linked m.log = [] → linked m'.log = [] ∨ StopToken.claimer m.log = none)
    (howned : ∀ other, ¬ actors other → owner m.log = some other →
      owner m'.log = some other ∧ m'.links = m.links ∧ linked m'.log = linked m.log ∧
      ∀ r, (phase m'.log r = .linked ↔ phase m.log r = .linked) ∧
        (phase m'.log r = .unlinked ↔ phase m.log r = .unlinked)) :
    Allowed actors m m' := by
  refine ⟨⟨hword, hlinks, ?_, ?_, ?_, ?_, ?_, ?_⟩, ⟨?_, h.held', ?_, h.observed'⟩⟩
  · intro r' hpopped
    rw [h.claimer, h.requester]
    by_cases heq : r' = r
    · subst heq
      rcases h.popped hpopped with hold | ⟨c, hdrain⟩
      · exact hm.popped _ hold
      · exact ⟨c, hm.active c hdrain.1, hdrain.2⟩
    · rw [(h.others r' heq).phase] at hpopped
      exact hm.popped r' hpopped
  · intro r' hexecuting
    rw [h.active]
    by_cases heq : r' = r
    · subst heq
      exact h.executing hexecuting
    · rw [(h.others r' heq).phase] at hexecuting
      exact hm.executing r' hexecuting
  · rw [h.active, h.claimer]
    exact hm.active
  · rw [h.active, h.claimer]
    intro hclaimer hactive
    rcases hdrained (hm.drained hclaimer hactive) with hnil | hnone
    · exact hnil
    · rw [hnone] at hclaimer
      cases hclaimer
  · rw [h.wins, h.active, h.claimer]
    exact hm.wins
  · intro r'
    by_cases heq : r' = r
    · rw [heq]
      exact h.record
    · exact (hm.records r').congr (h.others r' heq)
  · intro other hne howner
    obtain ⟨howner', hlinks', hlinked, hphase⟩ := howned other hne howner
    exact ⟨howner', hlinks', hlinked, h.claimer, hphase⟩
  · intro c hc
    rw [h.claimer]
    exact hc

/-- The step leaves the lock, the list and membership in it alone. -/
theorem keepLock (h : RecordChange actors r m m') (hm : MemoryInv m) (hstate : m'.state = m.state)
    (hlinks : m'.links = m.links) (howner : owner m'.log = owner m.log)
    (hlinked : linked m'.log = linked m.log)
    (hphase : (phase m'.log r = .linked ↔ phase m.log r = .linked) ∧
      (phase m'.log r = .unlinked ↔ phase m.log r = .unlinked)) : Allowed actors m m' := by
  have hphases : ∀ r', (phase m'.log r' = .linked ↔ phase m.log r' = .linked) ∧
      (phase m'.log r' = .unlinked ↔ phase m.log r' = .unlinked) := by
    intro r'
    by_cases heq : r' = r
    · rw [heq]
      exact hphase
    · rw [(h.others r' heq).phase]
      exact ⟨Iff.rfl, Iff.rfl⟩
  refine h.allowed hm ?_ ?_ ?_ ?_
  · rw [hstate, howner, h.claimer]
    exact hm.word
  · intro hnone
    have hinv := hm.links (howner ▸ hnone)
    rw [hlinks]
    refine ⟨hlinked ▸ hinv.represents, ?_⟩
    intro r' hl hu
    exact hinv.prev_none r' (fun heq => hl ((hphases r').1.mpr heq))
      (fun heq => hu ((hphases r').2.mpr heq))
  · exact fun hnil => Or.inl (hlinked.trans hnil)
  · exact fun other _ hother => ⟨howner.trans hother, hlinks, hlinked, hphases⟩

/-- The step releases the lock with the list well formed. -/
theorem releaseLock (h : RecordChange actors r m m') (hm : MemoryInv m)
    (howner : owner m.log = some id) (hid : actors id)
    (hstate : m'.state = encode (StopToken.claimer m.log).isSome false)
    (hreleased : owner m'.log = none) (hlinks : LinksInv m'.log m'.links)
    (hdrained : linked m.log = [] → linked m'.log = [] ∨ StopToken.claimer m.log = none) :
    Allowed actors m m' := by
  refine h.allowed hm ?_ (fun _ => hlinks) hdrained ?_
  · rw [hstate, hreleased, h.claimer]
    rfl
  · intro other hne hother
    rw [howner] at hother
    exact absurd (Option.some.inj hother ▸ hid) hne

end RecordChange

namespace Allowed

variable {rest : List (Frame Thread Record Client)}

/-- A registration that finds stop already requested. -/
theorem addFailed (hm : MemoryInv m) (hlife : m.life r = .constructing id)
    (hphase : phase m.log r = .fresh) : Allowed (· = id) m (m.record [.addFailed r t]) := by
  obtain ⟨hlinked, _, _, _, _, _, hcompleted, _, hsilent, _, _, hpushed, herased, hpopped, hconstructed,
    houtside, hlegal⟩ := hm.records r
  refine RecordChange.keepLock (r := r) ?_ hm rfl rfl rfl rfl (by simp [hphase])
  refine ⟨?_, ?_, by simp, by simp, by simp, rfl, by simp, by simp, ?_, by simp [hphase]⟩
  · intro r' hne
    constructor <;> simp [Ne.symm hne]
  · constructor <;> simp_all
  · intro other hne hheld
    simp [hlife, Ne.symm hne] at hheld

/-- The callback of a late registration is entered by the registering thread. -/
theorem invokeInline (hm : MemoryInv m) (hlife : m.life r = .constructing id)
    (hphase : phase m.log r = .inline) (htrail : trail m.log r = ⟨[t], [], []⟩) :
    Allowed (· = id) m (m.record [.invoked r t]) := by
  obtain ⟨hlinked, _, _, _, _, _, hcompleted, _, hsilent, _, _, hpushed, herased, hpopped, hconstructed,
    houtside, hlegal⟩ := hm.records r
  refine RecordChange.keepLock (r := r) ?_ hm rfl rfl rfl rfl (by simp)
  refine ⟨?_, ?_, by simp, by simp, by simp, rfl, by simp [hphase], by simp [hphase], ?_,
    by simp [hphase]⟩
  · intro r' hne
    constructor <;> simp [Ne.symm hne]
  · constructor <;> simp_all
  · intro other hne hheld
    simp [hlife, Ne.symm hne] at hheld

/-- The constructor of a late registration returns after its callback. -/
theorem returnInline (hm : MemoryInv m) (hlife : m.life r = .constructing id)
    (hregistered : m.registered r = false) (hphase : phase m.log r = .inline)
    (htrail : trail m.log r = ⟨[t], [t], []⟩) :
    Allowed (· = id) m ((m.setLife r .alive).record [.constructed r t, .returned r t]) := by
  obtain ⟨hlinked, _, _, _, _, _, hcompleted, _, hsilent, _, _, hpushed, herased, hpopped, hconstructed,
    houtside, hlegal⟩ := hm.records r
  refine RecordChange.keepLock (r := r) ?_ hm rfl rfl rfl rfl (by simp)
  refine ⟨?_, ?_, by simp, by simp, by simp, rfl, by simp [hphase], by simp [hphase], ?_,
    by simp [hphase]⟩
  · intro r' hne
    constructor <;> simp [Ne.symm hne, hne]
  · constructor <;> simp_all
  · intro other hne hheld
    simp [hlife, Ne.symm hne] at hheld

/-- The constructor of a linked registration returns. -/
theorem construct (hm : MemoryInv m) (hlife : m.life r = .constructing id)
    (hphase : Registered m r) :
    Allowed (· = id) m (({ m with registered := Function.update m.registered r true }.setLife
      r .alive).record [.constructed r t]) := by
  obtain ⟨hlinked, _, _, _, hdead, _, hcompleted, hfinished, hsilent, hran, _, hpushed,
    herased, hpopped, hconstructed, houtside, hlegal⟩ := hm.records r
  refine RecordChange.keepLock (r := r) ?_ hm rfl rfl rfl rfl (by simp)
  refine ⟨?_, ?_, by simp, by simp, by simp, rfl, Or.inl, ?_, ?_, ?_⟩
  · intro r' hne
    constructor <;> simp [hne]
  · rcases hphase with hphase | hphase | hphase <;> constructor <;> simp_all
  · simpa using hm.executing r
  · intro other hne hheld
    simp [hlife, Ne.symm hne] at hheld
  · simp [hlife]

/-- User code begins to construct a registration. -/
theorem beginConstruct (hm : MemoryInv m) (hlife : m.life r = .unborn) :
    Allowed (· = id) m (m.setLife r (.constructing id)) := by
  obtain ⟨hlinked, hunborn, _, _, _, _, hcompleted, _, hsilent, _, _, hpushed, herased, hpopped,
    hconstructed, houtside, hlegal⟩ := hm.records r
  obtain ⟨hphase, hregistered⟩ := hunborn hlife
  refine RecordChange.keepLock (r := r) ?_ hm rfl rfl rfl rfl (by simp)
  refine ⟨?_, ?_, rfl, rfl, rfl, rfl, Or.inl, by simp [hphase], by simp [hlife],
    by simp [hphase]⟩
  · intro r' hne
    constructor <;> simp [hne]
  · constructor <;> simp_all

/-- User code begins to destroy a registration. -/
theorem beginDestroy (hm : MemoryInv m) (hlife : m.life r = .alive) :
    Allowed (· = id) m (m.setLife r (.destroying id)) := by
  obtain ⟨hlinked, _, halive, _, hdead, hgone, hcompleted, hfinished, hsilent, hran, hinline,
    hpushed, herased, hpopped, hconstructed, houtside, hlegal⟩ := hm.records r
  refine RecordChange.keepLock (r := r) ?_ hm rfl rfl rfl rfl (by simp)
  refine ⟨?_, ?_, rfl, rfl, rfl, rfl, Or.inl, hm.executing r, by simp [hlife], by simp [hlife]⟩
  · intro r' hne
    constructor <;> simp [hne]
  · constructor <;> simp_all

/-- The destructor returns for a record nobody will touch again. -/
theorem destroy (hm : MemoryInv m) (hlife : m.life r = .destroying id)
    (hphase : phase m.log r = .finished ∨ phase m.log r = .inline) (inside : Bool) :
    Allowed (· = id) m ((m.setLife r .destroyed).record [.destroyed r t inside]) := by
  obtain ⟨hlinked, _, _, _, _, _, hcompleted, hfinished, hsilent, hran, hinline, hpushed,
    herased, hpopped, hconstructed, houtside, hlegal⟩ := hm.records r
  refine RecordChange.keepLock (r := r) ?_ hm rfl rfl (by cases inside <;> rfl)
    (by cases inside <;> rfl) (by cases inside <;> simp)
  refine ⟨?_, ?_, by simp, by simp, by simp, rfl, ?_, ?_, ?_, ?_⟩
  · intro r' hne
    cases inside <;> constructor <;> simp [hne]
  · rcases hphase with hphase | hphase <;> cases inside <;> constructor <;> simp_all
  · exact Or.inl
  · rcases hphase with hphase | hphase <;> simp [hphase]
  · intro other hne hheld
    simp [hlife, Ne.symm hne] at hheld
  · rcases hphase with hphase | hphase <;> simp [hphase]

/-- The destructor returns inside the callback: the claiming frame `c` beneath
it on the same stack takes part, since its local flag is set. -/
theorem destroyInside (hm : MemoryInv m) (hlife : m.life r = .destroying id)
    (hphase : phase m.log r = .executing) {c : FrameId Thread} (hactive : active m.log = some c) :
    Allowed (fun other => other = id ∨ other = c) m
      ((m.setLife r .destroyed).record [.destroyed r t true]) := by
  obtain ⟨hlinked, _, _, _, _, _, hcompleted, hfinished, hsilent, hran, hinline, hpushed,
    herased, hpopped, hconstructed, houtside, hlegal⟩ := hm.records r
  refine RecordChange.keepLock (r := r) ?_ hm rfl rfl rfl rfl (by simp)
  refine ⟨?_, ?_, by simp, by simp, by simp, rfl, Or.inl, by simp [hactive], ?_, ?_⟩
  · intro r' hne
    constructor <;> simp [hne]
  · constructor <;> simp_all
  · intro other hne hheld
    obtain ⟨hne, _⟩ := not_or.mp hne
    simp [hlife, Ne.symm hne] at hheld
  · intro c' hne hc'
    rw [hactive] at hc'
    exact absurd (Or.inr (Option.some.inj hc').symm) hne

/-- The lock is released without a change to the list. -/
theorem release (hm : MemoryInv m) (howner : owner m.log = some id) {saved : Word}
    (hsaved : Saved m saved) (hlinks : LinksInv m.log m.links) :
    Allowed (· = id) m ({ m with state := saved }.record [.released id]) := by
  refine ⟨⟨?_, ?_, ?_, ?_, by simpa using hm.active, by simpa using hm.drained,
    by simpa using hm.wins, ?_⟩, ⟨?_, by simp, by simp, by simp⟩⟩
  · simpa [Saved] using hsaved
  · intro _
    exact ⟨by simpa using hlinks.represents, by simpa using hlinks.prev_none⟩
  · exact fun r => by simpa using hm.popped r
  · exact fun r => by simpa using hm.executing r
  · exact fun r => (hm.records r).congr (by constructor <;> simp)
  · intro other hne hother
    rw [howner] at hother
    exact absurd (Option.some.inj hother).symm hne

/-- Unlocking publishes a push. -/
theorem push (hm : MemoryInv m) (howner : owner m.log = some id)
    (hclaimer : claimer m.log = none) (hlife : m.life r = .constructing id)
    (hphase : phase m.log r = .fresh) {base : Links Record} (hbase : LinksInv m.log base)
    (hlinks : m.links = base.push r) :
    Allowed (· = id) m ({ m with state := 0 }.record [.released id, .pushed r]) := by
  obtain ⟨hlinked, _, _, hdestroyed, _, _, hcompleted, _, hsilent, _, _, hpushed, herased, hpopped,
    hconstructed, houtside, hlegal⟩ := hm.records r
  have hnot : r ∉ linked m.log := by simp [hlinked, hphase]
  have hpair : RecordChange (· = id) r m
      ({ m with state := 0 }.record [.released id, .pushed r]) := by
    refine ⟨?_, ?_, by simp, by simp, by simp, rfl, by simp, by simp, ?_, by simp [hphase]⟩
    · intro r' hne
      constructor <;> simp [Ne.symm hne, hne]
    · constructor <;> simp_all
    · intro other hne hheld
      simp [hlife, Ne.symm hne] at hheld
  refine hpair.releaseLock hm howner rfl (by simp [hclaimer, ← encode_idle]) (by simp) ?_
    (fun _ => Or.inr hclaimer)
  refine ⟨by simpa [hlinks] using hbase.represents.push hnot, ?_⟩
  intro r' hl hu
  have hne : r ≠ r' := by
    rintro rfl
    simp at hl
  have hl' : phase m.log r' ≠ .linked := by simpa [hne] using hl
  have hhead : base.head ≠ some r' := by
    intro heq
    have hmem : r' ∈ linked m.log :=
      List.mem_of_mem_head? (hbase.represents.segment.read_eq_head ▸ heq)
    exact hl' ((hm.records r').mem_linked.mp hmem)
  simp only [Memory.record, hlinks]
  rw [Links.prev_push_of_ne (Ne.symm hne) hhead]
  exact hbase.prev_none r' hl' (by simpa [hne] using hu)

/-- Unlocking publishes an unlink, and the destructor returns. -/
theorem unlink (hm : MemoryInv m) (howner : owner m.log = some id) {saved : Word}
    (hsaved : Saved m saved) (hlife : m.life r = .destroying id)
    (hphase : phase m.log r = .linked) {base : Links Record} {slot : Slot Record}
    (hbase : LinksInv m.log base) (hslot : base.prev r = some slot)
    (hlinks : m.links = base.unlink r slot) (inside : Bool) :
    Allowed (· = id) m ((({ m with state := saved }.record [.released id, .unlinked r]).setLife
      r .destroyed).record [.destroyed r t inside]) := by
  obtain ⟨hlinked, _, _, hdestroyed, _, _, hcompleted, _, hsilent, _, _, hpushed, herased, hpopped,
    hconstructed, houtside, hlegal⟩ := hm.records r
  have hmem : r ∈ linked m.log := hlinked.mpr hphase
  have hnodup := hbase.represents.nodup
  have hpair : RecordChange (· = id) r m ((({ m with state := saved }.record
      [.released id, .unlinked r]).setLife r .destroyed).record [.destroyed r t inside]) := by
    refine ⟨?_, ?_, by simp, by simp, by simp, rfl, by simp, by simp, ?_, by simp [hphase]⟩
    · intro r' hne
      cases inside <;> constructor <;> simp [Ne.symm hne, hne, List.mem_erase_of_ne]
    · have hgone : r ∉ (linked m.log).erase r := hnodup.not_mem_erase
      cases inside <;> constructor <;> simp_all
    · intro other hne hheld
      simp [hlife, Ne.symm hne] at hheld
  refine hpair.releaseLock hm howner rfl hsaved (by simp) ?_ ?_
  · refine ⟨by simpa [hlinks] using hbase.represents.unlink hmem hslot, ?_⟩
    intro r' hl hu
    have hne : r ≠ r' := by
      rintro rfl
      simp at hu
    have hl' : phase m.log r' ≠ .linked := by simpa [hne] using hl
    have hnext : base.next r ≠ some r' := by
      intro heq
      exact hl' ((hm.records r').mem_linked.mp (hbase.represents.segment.next_mem hmem heq))
    simp only [Memory.record, Memory.setLife, hlinks]
    rw [Links.prev_unlink_of_ne hnext]
    exact hbase.prev_none r' hl' (by simpa [hne] using hu)
  · intro hnil
    rw [hnil] at hmem
    cases hmem

/-- The claiming frame publishes a pop and opens the lock. -/
theorem pop (hm : MemoryInv m) {base : Links Record} (hpop : Popping m id r base)
    (hlinks : m.links = base.pop r) (hlife : m.life r ≠ .destroyed) :
    Allowed (· = id) m
      ({ m with state := stopRequestedBit }.record [.released id, .popped r]) := by
  obtain ⟨hdrain, hnone, ⟨howner, hbase⟩, hhead⟩ := hpop
  obtain ⟨hlinked, hunborn, halive, hdestroyed, hdead, hgone, hcompleted, _, hsilent, _, _,
    hpushed, herased, hpopped, hconstructed, houtside, hlegal⟩ := hm.records r
  obtain ⟨rest, hrest⟩ : ∃ rest, linked m.log = r :: rest := by
    cases hlist : linked m.log with
    | nil => simp [hlist] at hhead
    | cons first rest =>
        rw [hlist] at hhead
        exact ⟨rest, by rw [Option.some.inj hhead]⟩
  have hphase : phase m.log r = .linked := hlinked.mp (by simp [hrest])
  have hclaimer := hm.active id hdrain.1
  have hrepresents := hbase.represents
  rw [hrest] at hrepresents
  have hnot : r ∉ rest := (List.nodup_cons.mp hrepresents.nodup).1
  have hpair : RecordChange (· = id) r m
      ({ m with state := stopRequestedBit }.record [.released id, .popped r]) := by
    refine ⟨?_, ?_, by simp, by simp, by simp, rfl, fun _ => Or.inr ⟨id, hdrain⟩,
      by simp [hdrain.1], ?_, ?_⟩
    · intro r' hne
      constructor <;> simp [Ne.symm hne, hne, List.mem_erase_of_ne]
    · constructor <;> simp_all
      assumption
    · intro other _ _
      simp [hphase]
    · intro c hne hc
      rw [hdrain.1] at hc
      exact absurd (Option.some.inj hc).symm hne
  refine hpair.releaseLock hm howner rfl (by simp [hclaimer, encode_open]) (by simp) ?_ ?_
  · refine ⟨by simpa [hlinks, hrest] using hrepresents.pop, ?_⟩
    intro r' hl hu
    simp only [Memory.record, hlinks]
    have hnext : ∀ r'', r'' ∉ rest → base.next r ≠ some r'' := by
      intro r'' hmem heq
      have hfirst : rest.head? = some r'' :=
        hrepresents.segment.2.2.read_eq_head ▸ heq
      exact hmem (List.mem_of_mem_head? hfirst)
    by_cases hne : r' = r
    · subst hne
      exact Links.prev_pop_self (hnext _ hnot)
    · have hl' : phase m.log r' ≠ .linked := by simpa [Ne.symm hne] using hl
      have hmem : r' ∉ rest := by
        intro hmem
        exact hl' ((hm.records r').mem_linked.mp (by simp [hrest, hmem]))
      rw [Links.prev_pop_of_ne hne (hnext _ hmem)]
      exact hbase.prev_none r' hl' (by simpa [Ne.symm hne] using hu)
  · intro hnil
    rw [hrest] at hnil
    cases hnil

theorem setRequester (hm : MemoryInv m) (hactive : active m.log = some id)
    (hpopped : ∀ r, (phase m.log r).popped = false) :
    Allowed (· = id) m { m with requesterThread := some id.1 } := by
  refine ⟨⟨hm.word, hm.links, ?_, hm.executing, hm.active, hm.drained, hm.wins, ?_⟩,
    ⟨by simp, by simp, by simp, ?_⟩⟩
  · intro r hr
    rw [hpopped r] at hr
    cases hr
  · exact fun r => (hm.records r).congr (by constructor <;> simp)
  · intro c hne hc
    rw [hactive] at hc
    exact absurd (Option.some.inj hc).symm hne

/-- Only the claiming frame writes the pointer to its flag. -/
theorem setFlag (hm : MemoryInv m) (hactive : active m.log = some id) {flag : Option (FrameId Thread)}
    (hphase : phase m.log r = .finished → flag = none) :
    Allowed (· = id) m
      { m with removedDuringCallback := Function.update m.removedDuringCallback r flag } := by
  obtain ⟨hlinked, hunborn, halive, hdestroyed, hdead, hgone, hcompleted, _, hsilent, hran,
    hinline, hpushed, herased, hpopped, hconstructed, houtside, hlegal⟩ := hm.records r
  refine RecordChange.keepLock (r := r) ?_ hm rfl rfl rfl rfl (by simp)
  refine ⟨?_, ?_, rfl, rfl, rfl, rfl, Or.inl, hm.executing r, ?_, ?_⟩
  · intro r' hne
    constructor <;> simp [hne]
  · exact ⟨hlinked, hunborn, halive, hdestroyed, hdead, hgone, hcompleted, by simpa using hphase,
      hsilent, hran, hinline, hpushed, herased, hpopped, hconstructed, houtside, hlegal⟩
  · exact fun _ _ _ => ⟨rfl, rfl, Or.inl rfl, fun _ => rfl⟩
  · intro c hne hc
    rw [hactive] at hc
    exact absurd (Option.some.inj hc).symm hne

/-- The claiming frame enters or leaves the callback of the record it popped. -/
theorem callback (hm : MemoryInv m) (hexec : Executing m id r) {event : Event Thread Record}
    (hevent : event = .invoked r id.1 ∨ event = .returned r id.1) {returned : List Thread}
    (htrail : trail (event :: m.log) r = ⟨[], [id.1], returned⟩) :
    Allowed (· = id) m (m.record [event]) := by
  have hphase := (hexec.2 r).mpr rfl
  obtain ⟨hlinked, hunborn, halive, hdestroyed, hdead, hgone, hcompleted, _, hsilent, hran,
    hinline, hpushed, herased, hpopped, hconstructed, houtside, hlegal⟩ := hm.records r
  have hpair : RecordChange (· = id) r m (m.record [event]) := by
    refine ⟨?_, ?_, ?_, ?_, ?_, rfl, ?_, ?_, ?_, ?_⟩
    · intro r' hne
      rcases hevent with rfl | rfl <;> constructor <;> simp [Ne.symm hne]
    · rcases hevent with rfl | rfl <;> constructor <;> simp_all <;> assumption
    · rcases hevent with rfl | rfl <;> simp
    · rcases hevent with rfl | rfl <;> simp
    · rcases hevent with rfl | rfl <;> simp
    · rcases hevent with rfl | rfl <;> simp [hphase]
    · rcases hevent with rfl | rfl <;> simp [hexec.1.1]
    · rcases hevent with rfl | rfl <;> simp [hphase]
    · intro c hne hc
      rw [hexec.1.1] at hc
      exact absurd (Option.some.inj hc).symm hne
  rcases hevent with rfl | rfl <;> exact hpair.keepLock hm rfl rfl rfl rfl (by simp)

/-- The callback returned and its record was destroyed inside it. -/
theorem abandon (hm : MemoryInv m) (hexec : Executing m id r) (hlife : m.life r = .destroyed)
    (htrail : trail m.log r = ⟨[], [id.1], []⟩) :
    Allowed (· = id) m (m.record [.abandoned r, .returned r id.1]) := by
  have hphase := (hexec.2 r).mpr rfl
  have hclaimer := hm.active id hexec.1.1
  obtain ⟨hlinked, hunborn, halive, hdestroyed, hdead, hgone, hcompleted, _, hsilent, hran,
    hinline, hpushed, herased, hpopped, hconstructed, houtside, hlegal⟩ := hm.records r
  refine RecordChange.keepLock (r := r) ?_ hm rfl rfl rfl rfl (by simp [hphase])
  refine ⟨?_, ?_, by simp, by simp, by simp, rfl, by simp [hphase], by simp, ?_, ?_⟩
  · intro r' hne
    constructor <;> simp [Ne.symm hne]
  · constructor <;> simp_all
  · simp [hlife]
  · intro c hne hc
    rw [hexec.1.1] at hc
    exact absurd (Option.some.inj hc).symm hne

/-- The record is finalized; unregistering threads stop waiting for it. -/
theorem finalize (hm : MemoryInv m) (hexec : Executing m id r) (hlife : m.life r ≠ .destroyed)
    (htrail : trail m.log r = ⟨[], [id.1], [id.1]⟩) (hflag : m.removedDuringCallback r = none) :
    Allowed (· = id) m ({ m with completed := Function.update m.completed r true }.record
      [.finalized r]) := by
  have hphase := (hexec.2 r).mpr rfl
  have hclaimer := hm.active id hexec.1.1
  obtain ⟨hlinked, hunborn, halive, hdestroyed, hdead, hgone, hcompleted, _, hsilent, hran,
    hinline, hpushed, herased, hpopped, hconstructed, houtside, hlegal⟩ := hm.records r
  refine RecordChange.keepLock (r := r) ?_ hm rfl rfl rfl rfl (by simp [hphase])
  refine ⟨?_, ?_, by simp, by simp, by simp, rfl, by simp [hphase], by simp, ?_, ?_⟩
  · intro r' hne
    constructor <;> simp [Ne.symm hne, hne]
  · constructor <;> simp_all
    assumption
  · simp [hphase]
  · intro c hne hc
    rw [hexec.1.1] at hc
    exact absurd (Option.some.inj hc).symm hne

theorem refuse (hm : MemoryInv m) : Allowed actors m (m.record [.stopReturned t false]) := by
  refine ⟨⟨by simpa using hm.word, ?_, ?_, ?_, by simpa using hm.active,
    by simpa using hm.drained, by simpa using hm.wins, ?_⟩, ⟨?_, by simp, by simp, by simp⟩⟩
  · intro howner
    have hlinks := hm.links (by simpa using howner)
    exact ⟨by simpa using hlinks.represents, by simpa using hlinks.prev_none⟩
  · exact fun r => by simpa using hm.popped r
  · exact fun r => by simpa using hm.executing r
  · exact fun r => (hm.records r).congr (by constructor <;> simp)
  · exact fun other _ howner => ⟨by simpa using howner, rfl, by simp, by simp, by simp⟩

/-- The last unlock of the claiming call, which then returns true. -/
theorem finish (hm : MemoryInv m) (hdrain : Draining m id) (hnone : NoneExecuting m)
    (hhold : Holding m id m.links) (hempty : linked m.log = []) :
    Allowed (· = id) m ({ m with state := stopRequestedBit }.record
      [.released id, .stopReturned id.1 true]) := by
  have hclaimer := hm.active id hdrain.1
  have hwins : wins m.log = [] := by simpa [hdrain.1] using hm.wins
  refine ⟨⟨by simp [hclaimer, encode_open], ?_, ?_, ?_, by simp, by simp [hempty],
    by simp [hclaimer, hwins], ?_⟩, ⟨?_, by simp, by simp, ?_⟩⟩
  · exact fun _ => ⟨by simpa using hhold.2.represents, by simpa using hhold.2.prev_none⟩
  · exact fun r => by simpa using hm.popped r
  · exact fun r hr => absurd (by simpa using hr) (hnone r)
  · exact fun r => (hm.records r).congr (by constructor <;> simp)
  · intro other hne hother
    rw [hhold.1] at hother
    exact absurd (Option.some.inj hother).symm hne
  · intro c hne hc
    rw [hdrain.1] at hc
    exact absurd (Option.some.inj hc).symm hne

end Allowed

end Bexec.StopToken
