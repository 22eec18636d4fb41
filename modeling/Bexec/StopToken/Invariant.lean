import Bexec.StopToken.History
import Bexec.StopToken.Step

/-!
# The invariant of the stop source

`MemoryInv` relates the fields to the history, `FrameInv` gives the assertion
of each program point, and `Guarantee` says what a step of one frame leaves
alone, so that the assertions of all other frames survive it.
-/

namespace Bexec.StopToken

open Foundation

variable {Thread Record Client : Type} [DecidableEq Record]

/-- What holds of one record between any two steps. -/
structure RecordInv (m : Memory Thread Record) (r : Record) : Prop where
  mem_linked : r ∈ linked m.log ↔ phase m.log r = .linked
  unborn : m.life r = .unborn → phase m.log r = .fresh ∧ m.registered r = false
  alive : m.life r = .alive →
    (m.registered r = true ∧
      (phase m.log r = .linked ∨ phase m.log r = .executing ∨ phase m.log r = .finished)) ∨
    (m.registered r = false ∧ phase m.log r = .inline)
  destroyed : m.life r = .destroyed → phase m.log r ≠ .fresh ∧ phase m.log r ≠ .linked
  unlinked : phase m.log r = .unlinked → m.life r = .destroyed
  gone : phase m.log r = .gone → m.life r = .destroyed
  completed : m.completed r = true ↔ phase m.log r = .finished
  finished : phase m.log r = .finished → m.removedDuringCallback r = none
  silent : phase m.log r = .fresh ∨ phase m.log r = .linked ∨ phase m.log r = .unlinked →
    trail m.log r = ⟨[], [], []⟩
  ran : phase m.log r = .finished ∨ phase m.log r = .gone →
    ∃ c, claimer m.log = some c ∧ trail m.log r = ⟨[], [c.1], [c.1]⟩
  inline : phase m.log r = .inline → (∀ id, m.life r ≠ .constructing id) →
    ∃ t, trail m.log r = ⟨[t], [t], [t]⟩
  pushed : .pushed r ∈ m.log ↔ phase m.log r ≠ .fresh ∧ phase m.log r ≠ .inline
  erased : .unlinked r ∈ m.log ↔ phase m.log r = .unlinked
  popped : .popped r ∈ m.log ↔
    phase m.log r = .executing ∨ phase m.log r = .finished ∨ phase m.log r = .gone
  constructed : ∀ t, .constructed r t ∈ m.log →
    m.life r ≠ .unborn ∧ ∀ id, m.life r ≠ .constructing id
  outside : ∀ t, .destroyed r t false ∈ m.log →
    m.life r = .destroyed ∧ phase m.log r ≠ .executing ∧ phase m.log r ≠ .gone
  legal : (trail m.log r).Legal (phase m.log r)

/-- A step that does not concern the record. -/
structure SameRecord (m m' : Memory Thread Record) (r : Record) : Prop where
  life : m'.life r = m.life r
  registered : m'.registered r = m.registered r
  completed : m'.completed r = m.completed r
  removed : m'.removedDuringCallback r = m.removedDuringCallback r
  phase : phase m'.log r = StopToken.phase m.log r
  trail : trail m'.log r = StopToken.trail m.log r
  pushed : .pushed r ∈ m'.log ↔ .pushed r ∈ m.log
  erased : .unlinked r ∈ m'.log ↔ .unlinked r ∈ m.log
  popped : .popped r ∈ m'.log ↔ .popped r ∈ m.log
  constructed : ∀ t, .constructed r t ∈ m'.log ↔ .constructed r t ∈ m.log
  outside : ∀ t, .destroyed r t false ∈ m'.log ↔ .destroyed r t false ∈ m.log
  mem_linked : r ∈ linked m'.log ↔ r ∈ linked m.log
  claimer : ∀ c, claimer m.log = some c → StopToken.claimer m'.log = some c

theorem RecordInv.congr {m m' : Memory Thread Record} {r : Record} (h : RecordInv m r)
    (same : SameRecord m m' r) : RecordInv m' r where
  mem_linked := by rw [same.mem_linked, same.phase]; exact h.mem_linked
  unborn := by rw [same.life, same.phase, same.registered]; exact h.unborn
  alive := by rw [same.life, same.phase, same.registered]; exact h.alive
  destroyed := by rw [same.life, same.phase]; exact h.destroyed
  unlinked := by rw [same.life, same.phase]; exact h.unlinked
  gone := by rw [same.life, same.phase]; exact h.gone
  completed := by rw [same.completed, same.phase]; exact h.completed
  finished := by rw [same.removed, same.phase]; exact h.finished
  silent := by rw [same.trail, same.phase]; exact h.silent
  ran := by
    rw [same.trail, same.phase]
    intro hphase
    obtain ⟨c, hc, htrail⟩ := h.ran hphase
    exact ⟨c, same.claimer c hc, htrail⟩
  inline := by rw [same.life, same.trail, same.phase]; exact h.inline
  pushed := by rw [same.pushed, same.phase]; exact h.pushed
  erased := by rw [same.erased, same.phase]; exact h.erased
  popped := by rw [same.popped, same.phase]; exact h.popped
  constructed t := by rw [same.constructed, same.life]; exact h.constructed t
  outside t := by rw [same.outside, same.life, same.phase]; exact h.outside t
  legal := by rw [same.trail, same.phase]; exact h.legal

/-- Facts about the memory that hold between any two steps. -/
structure MemoryInv (m : Memory Thread Record) : Prop where
  word : m.state = encode (claimer m.log).isSome (owner m.log).isSome
  links : owner m.log = none → LinksInv m.log m.links
  popped : ∀ r, (phase m.log r).popped = true →
    ∃ c, claimer m.log = some c ∧ m.requesterThread = some c.1
  executing : ∀ r, phase m.log r = .executing → (active m.log).isSome
  active : ∀ c, active m.log = some c → claimer m.log = some c
  drained : (claimer m.log).isSome → StopToken.active m.log = none → linked m.log = []
  wins : StopToken.wins m.log =
    if (StopToken.active m.log).isNone then ((claimer m.log).map Prod.fst).toList else []
  records : ∀ r, RecordInv m r

/-- The frame holds the lock and the list is well formed. -/
def Holding (m : Memory Thread Record) (id : FrameId Thread) (base : Links Record) : Prop :=
  owner m.log = some id ∧ LinksInv m.log base

/-- The constructor of `r` at `id`. Under the lock, `base` is the state of the
list fields before the push began. -/
def ConstructorInv (m : Memory Thread Record) (id : FrameId Thread) (r : Record) :
    ConstructorPc Record → Prop
  | .tryLock pc => phase m.log r = .fresh ∧ pc.Sound m.log
  | .readHead => phase m.log r = .fresh ∧ claimer m.log = none ∧ Holding m id m.links
  | .writeNext head =>
      phase m.log r = .fresh ∧ claimer m.log = none ∧ Holding m id m.links ∧ head = m.links.head
  | .writePrevPtr =>
      phase m.log r = .fresh ∧ claimer m.log = none ∧
        ∃ base, Holding m id base ∧ m.links = base.write (.next r) base.head
  | .readNext =>
      phase m.log r = .fresh ∧ claimer m.log = none ∧
        ∃ base, Holding m id base ∧
          m.links = (base.write (.next r) base.head).setPrev r (some .head)
  | .writeNextPrevPtr next =>
      phase m.log r = .fresh ∧ claimer m.log = none ∧
        ∃ base, Holding m id base ∧ base.head = some next ∧
          m.links = (base.write (.next r) base.head).setPrev r (some .head)
  | .writeHead =>
      phase m.log r = .fresh ∧ claimer m.log = none ∧
        ∃ base, Holding m id base ∧ m.links =
          ((base.write (.next r) base.head).setPrev r (some .head)).relink base.head (.next r)
  | .unlock =>
      phase m.log r = .fresh ∧ claimer m.log = none ∧
        ∃ base, Holding m id base ∧ m.links = base.push r
  | .setState => phase m.log r = .linked ∨ phase m.log r = .executing ∨ phase m.log r = .finished
  | .invoke => phase m.log r = .inline ∧ trail m.log r = ⟨[id.1], [], []⟩
  | .callback => phase m.log r = .inline ∧ trail m.log r = ⟨[id.1], [id.1], []⟩

/-- Still in the list or taken out by the notifying thread. -/
def Registered (m : Memory Thread Record) (r : Record) : Prop :=
  phase m.log r = .linked ∨ phase m.log r = .executing ∨ phase m.log r = .finished

def Popped (m : Memory Thread Record) (r : Record) : Prop :=
  phase m.log r = .executing ∨ phase m.log r = .finished

/-- The value `lock` returned: the word without the lock bit. -/
def Saved (m : Memory Thread Record) (saved : Word) : Prop :=
  saved = encode (claimer m.log).isSome false

def DestructorInv (m : Memory Thread Record) (id : FrameId Thread) (r : Record) :
    DestructorPc Thread Record → Prop
  | .readState =>
      (m.registered r = true ∧ Registered m r) ∨ (m.registered r = false ∧ phase m.log r = .inline)
  | .lock _ => Registered m r
  | .readPrevPtr saved => Registered m r ∧ Saved m saved ∧ Holding m id m.links
  | .readNext saved slot =>
      phase m.log r = .linked ∧ Saved m saved ∧ Holding m id m.links ∧ m.links.prev r = some slot
  | .writeSlot saved slot next =>
      phase m.log r = .linked ∧ Saved m saved ∧ Holding m id m.links ∧
        m.links.prev r = some slot ∧ next = m.links.next r
  | .rereadNext saved =>
      phase m.log r = .linked ∧ Saved m saved ∧ ∃ base slot, Holding m id base ∧
        base.prev r = some slot ∧ m.links = base.write slot (base.next r)
  | .rereadPrevPtr saved next =>
      phase m.log r = .linked ∧ Saved m saved ∧ ∃ base slot, Holding m id base ∧
        base.prev r = some slot ∧ m.links = base.write slot (base.next r) ∧
        base.next r = some next
  | .writeNextPrevPtr saved next prevPtr =>
      phase m.log r = .linked ∧ Saved m saved ∧ ∃ base slot, Holding m id base ∧
        base.prev r = some slot ∧ m.links = base.write slot (base.next r) ∧
        base.next r = some next ∧ prevPtr = some slot
  | .unlock saved =>
      phase m.log r = .linked ∧ Saved m saved ∧ ∃ base slot, Holding m id base ∧
        base.prev r = some slot ∧ m.links = base.unlink r slot
  | .readRequester saved => Popped m r ∧ Saved m saved ∧ Holding m id m.links
  | .unlockPopped saved notifier =>
      Popped m r ∧ Saved m saved ∧ Holding m id m.links ∧
        ∃ c, claimer m.log = some c ∧ notifier = some c.1
  | .readFlag => Popped m r ∧ ∃ c, claimer m.log = some c ∧ c.1 = id.1
  | .writeFlag flag =>
      phase m.log r = .executing ∧ active m.log = some flag ∧ flag.1 = id.1 ∧ flag.2 < id.2
  | .waitCompleted => Popped m r

/-- The claiming frame between its claim and its return. -/
def Draining (m : Memory Thread Record) (id : FrameId Thread) : Prop :=
  active m.log = some id ∧ m.requesterThread = some id.1

def NoneExecuting (m : Memory Thread Record) : Prop := ∀ r, phase m.log r ≠ .executing

/-- The claiming frame is taking `r` off the list whose fields were `base`. -/
def Popping (m : Memory Thread Record) (id : FrameId Thread) (r : Record)
    (base : Links Record) : Prop :=
  Draining m id ∧ NoneExecuting m ∧ Holding m id base ∧ (linked m.log).head? = some r

/-- The claiming frame is handling the callback of `r`, and of no other record. -/
def Executing (m : Memory Thread Record) (id : FrameId Thread) (r : Record) : Prop :=
  Draining m id ∧ ∀ r', phase m.log r' = .executing ↔ r' = r

def RequestInv (m : Memory Thread Record) (id : FrameId Thread) : RequestPc Record → Prop
  | .tryLock pc => pc.Sound m.log
  | .setRequester =>
      active m.log = some id ∧ Holding m id m.links ∧ ∀ r, (phase m.log r).popped = false
  | .readHead => Draining m id ∧ NoneExecuting m ∧ Holding m id m.links
  | .clearPrevPtr r => Popping m id r m.links
  | .readNext r => ∃ base, Popping m id r base ∧ m.links = base.setPrev r none
  | .writeHead r next =>
      ∃ base, Popping m id r base ∧ m.links = base.setPrev r none ∧ next = base.next r
  | .rereadHead r =>
      ∃ base, Popping m id r base ∧ m.links = (base.setPrev r none).write .head (base.next r)
  | .writeHeadPrevPtr r head =>
      ∃ base, Popping m id r base ∧ base.next r = some head ∧
        m.links = (base.setPrev r none).write .head (base.next r)
  | .setFlag r => ∃ base, Popping m id r base ∧ m.links = base.pop r
  | .openLock r =>
      (∃ base, Popping m id r base ∧ m.links = base.pop r) ∧
        m.removedDuringCallback r = some id
  | .invoke r =>
      Executing m id r ∧ m.life r ≠ .destroyed ∧ m.removedDuringCallback r = some id ∧
        trail m.log r = ⟨[], [], []⟩
  | .callback r removed =>
      Executing m id r ∧ trail m.log r = ⟨[], [id.1], []⟩ ∧
        (removed = true ↔ m.life r = .destroyed) ∧ m.removedDuringCallback r = some id
  | .clearFlag r =>
      Executing m id r ∧ m.life r ≠ .destroyed ∧ trail m.log r = ⟨[], [id.1], [id.1]⟩
  | .setCompleted r =>
      Executing m id r ∧ m.life r ≠ .destroyed ∧ trail m.log r = ⟨[], [id.1], [id.1]⟩ ∧
        m.removedDuringCallback r = none
  | .relock _ => Draining m id ∧ NoneExecuting m
  | .finalUnlock =>
      Draining m id ∧ NoneExecuting m ∧ Holding m id m.links ∧ linked m.log = []

def FrameInv (m : Memory Thread Record) (id : FrameId Thread) :
    Frame Thread Record Client → Prop
  | .constructor r pc =>
      m.life r = .constructing id ∧ m.registered r = false ∧ ConstructorInv m id r pc
  | .destructor r pc => m.life r = .destroying id ∧ DestructorInv m id r pc
  | .requestStop pc => RequestInv m id pc
  | .client _ => True

/-- The frame of `request_stop` has won the claim. -/
def Frame.claimed : Frame Thread Record Client → Bool
  | .requestStop (.tryLock _) => false
  | .requestStop _ => true
  | _ => false

structure Inv (s : State Thread Record Client) : Prop where
  memory : MemoryInv s.memory
  frames : ∀ t depth frame, CallStack.frameAt (s.stack t) depth = some frame →
    FrameInv s.memory (t, depth) frame
  suspended : ∀ t, ∀ frame ∈ (s.stack t).tail, frame.isUser = true
  claimFrame : ∀ c, active s.memory.log = some c → ∃ frame,
    CallStack.frameAt (s.stack c.1) c.2 = some frame ∧ frame.claimed = true

/-- Phases a record goes through while others act on it. -/
def Phase.Advance (old new : Phase) : Prop :=
  new = old ∨ (old = .linked ∧ new = .executing) ∨ (old = .executing ∧ new = .finished)

/-- What a step leaves to the frames that take no part in it. -/
structure Guarantee (actors : FrameId Thread → Prop) (m m' : Memory Thread Record) : Prop where
  owned : ∀ other, ¬ actors other → owner m.log = some other →
    owner m'.log = some other ∧ m'.links = m.links ∧ linked m'.log = linked m.log ∧
    claimer m'.log = claimer m.log ∧
    ∀ r, (phase m'.log r = .linked ↔ phase m.log r = .linked) ∧
      (phase m'.log r = .unlinked ↔ phase m.log r = .unlinked)
  held : ∀ r other, ¬ actors other → m.life r = .constructing other ∨ m.life r = .destroying other →
    m'.life r = m.life r ∧ m'.registered r = m.registered r ∧
    (phase m.log r).Advance (phase m'.log r) ∧
    (phase m.log r = .inline → trail m'.log r = trail m.log r)
  claimer : ∀ c, claimer m.log = some c → StopToken.claimer m'.log = some c
  active : ∀ c, ¬ actors c → active m.log = some c →
    StopToken.active m'.log = some c ∧ m'.requesterThread = m.requesterThread ∧
    m'.removedDuringCallback = m.removedDuringCallback ∧
    ∀ r, (phase m'.log r = .executing ↔ phase m.log r = .executing) ∧
      ((phase m'.log r).popped = (phase m.log r).popped) ∧
      (phase m.log r = .executing → trail m'.log r = trail m.log r ∧
        (m'.life r = .destroyed ↔ m.life r = .destroyed))

namespace Guarantee

variable {actors : FrameId Thread → Prop} {other : FrameId Thread} {m m' : Memory Thread Record}

theorem refl (actors : FrameId Thread → Prop) (m : Memory Thread Record) :
    Guarantee actors m m where
  owned _ _ howner := ⟨howner, rfl, rfl, rfl, fun _ => ⟨Iff.rfl, Iff.rfl⟩⟩
  held _ _ _ _ := ⟨rfl, rfl, Or.inl rfl, fun _ => rfl⟩
  claimer _ hc := hc
  active _ _ hc := ⟨hc, rfl, rfl, fun _ => ⟨Iff.rfl, rfl, fun _ => ⟨rfl, Iff.rfl⟩⟩⟩

theorem holding (h : Guarantee actors m m') (hne : ¬ actors other) {base : Links Record}
    (hold : Holding m other base) : Holding m' other base := by
  obtain ⟨howner, hrepresents, hprev⟩ := hold
  obtain ⟨howner', _, hlinked, _, hphase⟩ := h.owned other hne howner
  refine ⟨howner', hlinked ▸ hrepresents, ?_⟩
  intro r hl hu
  exact hprev r (fun heq => hl ((hphase r).1.mpr heq)) (fun heq => hu ((hphase r).2.mpr heq))

theorem links_eq (h : Guarantee actors m m') (hne : ¬ actors other) {base : Links Record}
    (hold : Holding m other base) : m'.links = m.links :=
  (h.owned other hne hold.1).2.1

theorem unclaimed (h : Guarantee actors m m') (hne : ¬ actors other) {base : Links Record}
    (hold : Holding m other base) (hclaimer : StopToken.claimer m.log = none) :
    StopToken.claimer m'.log = none :=
  (h.owned other hne hold.1).2.2.2.1 ▸ hclaimer

theorem saved (h : Guarantee actors m m') (hne : ¬ actors other) {base : Links Record}
    (hold : Holding m other base) {saved : Word} (hsaved : Saved m saved) : Saved m' saved := by
  unfold Saved at *
  rw [(h.owned other hne hold.1).2.2.2.1]
  exact hsaved

theorem linked (h : Guarantee actors m m') (hne : ¬ actors other) {base : Links Record}
    (hold : Holding m other base) {r : Record} (hphase : phase m.log r = .linked) :
    phase m'.log r = .linked :=
  ((h.owned other hne hold.1).2.2.2.2 r).1.mpr hphase

theorem fresh (h : Guarantee actors m m') (hne : ¬ actors other) {r : Record}
    (hlife : m.life r = .constructing other) (hphase : phase m.log r = .fresh) :
    phase m'.log r = .fresh := by
  rcases (h.held r other hne (Or.inl hlife)).2.2.1 with hadv | ⟨hadv, _⟩ | ⟨hadv, _⟩
  · exact hadv.trans hphase
  · rw [hphase] at hadv; cases hadv
  · rw [hphase] at hadv; cases hadv

theorem inline (h : Guarantee actors m m') (hne : ¬ actors other) {r : Record}
    (hlife : m.life r = .constructing other ∨ m.life r = .destroying other)
    (hphase : phase m.log r = .inline) :
    phase m'.log r = .inline ∧ trail m'.log r = trail m.log r := by
  obtain ⟨_, _, hadv, htrail⟩ := h.held r other hne hlife
  refine ⟨?_, htrail hphase⟩
  rcases hadv with hadv | ⟨hadv, _⟩ | ⟨hadv, _⟩
  · exact hadv.trans hphase
  · rw [hphase] at hadv; cases hadv
  · rw [hphase] at hadv; cases hadv

theorem registered (h : Guarantee actors m m') (hne : ¬ actors other) {r : Record}
    (hlife : m.life r = .constructing other ∨ m.life r = .destroying other)
    (hreg : Registered m r) : Registered m' r := by
  rcases (h.held r other hne hlife).2.2.1 with hadv | ⟨_, hadv⟩ | ⟨_, hadv⟩
  · rw [Registered, hadv]; exact hreg
  · exact Or.inr (Or.inl hadv)
  · exact Or.inr (Or.inr hadv)

theorem popped (h : Guarantee actors m m') (hne : ¬ actors other) {r : Record}
    (hlife : m.life r = .destroying other) (hpopped : Popped m r) : Popped m' r := by
  rcases (h.held r other hne (Or.inr hlife)).2.2.1 with hadv | ⟨_, hadv⟩ | ⟨_, hadv⟩
  · rw [Popped, hadv]; exact hpopped
  · exact Or.inl hadv
  · exact Or.inr hadv

theorem draining (h : Guarantee actors m m') (hne : ¬ actors other) (hdrain : Draining m other) :
    Draining m' other := by
  obtain ⟨hactive, hrequester, _⟩ := h.active other hne hdrain.1
  exact ⟨hactive, hrequester.trans hdrain.2⟩

theorem noneExecuting (h : Guarantee actors m m') (hne : ¬ actors other) (hdrain : Draining m other)
    (hnone : NoneExecuting m) : NoneExecuting m' :=
  fun r hr => hnone r (((h.active other hne hdrain.1).2.2.2 r).1.mp hr)

theorem popping (h : Guarantee actors m m') (hne : ¬ actors other) {r : Record} {base : Links Record}
    (hpop : Popping m other r base) : Popping m' other r base := by
  obtain ⟨hdrain, hnone, hold, hhead⟩ := hpop
  exact ⟨h.draining hne hdrain, h.noneExecuting hne hdrain hnone, h.holding hne hold,
    (h.owned other hne hold.1).2.2.1 ▸ hhead⟩

theorem executing (h : Guarantee actors m m') (hne : ¬ actors other) {r : Record}
    (hexec : Executing m other r) :
    Executing m' other r ∧ trail m'.log r = trail m.log r ∧
      (m'.life r = .destroyed ↔ m.life r = .destroyed) ∧
      m'.removedDuringCallback r = m.removedDuringCallback r := by
  obtain ⟨_, _, hremoved, hphase⟩ := h.active other hne hexec.1.1
  obtain ⟨htrail, hlife⟩ := (hphase r).2.2 ((hexec.2 r).mpr rfl)
  exact ⟨⟨h.draining hne hexec.1, fun r' => (hphase r').1.trans (hexec.2 r')⟩, htrail, hlife,
    congrFun hremoved r⟩

theorem sound (h : Guarantee actors m m') {pc : Spin} (hsound : pc.Sound m.log) :
    pc.Sound m'.log := by
  cases pc with
  | load => trivial
  | test prev =>
      intro hrequested
      obtain ⟨c, hc⟩ := Option.isSome_iff_exists.mp (hsound hrequested)
      exact Option.isSome_iff_exists.mpr ⟨c, h.claimer c hc⟩

theorem constructorInv (h : Guarantee actors m m') (hne : ¬ actors other) {r : Record}
    (hlife : m.life r = .constructing other) {pc : ConstructorPc Record}
    (hinv : ConstructorInv m other r pc) : ConstructorInv m' other r pc := by
  have hheld := Or.inl (b := m.life r = .destroying other) hlife
  cases pc with
  | tryLock pc => exact ⟨h.fresh hne hlife hinv.1, h.sound hinv.2⟩
  | readHead =>
      obtain ⟨hfresh, hclaimer, hold⟩ := hinv
      refine ⟨h.fresh hne hlife hfresh, h.unclaimed hne hold hclaimer, ?_⟩
      rw [h.links_eq hne hold]
      exact h.holding hne hold
  | writeNext head =>
      obtain ⟨hfresh, hclaimer, hold, hhead⟩ := hinv
      refine ⟨h.fresh hne hlife hfresh, h.unclaimed hne hold hclaimer, ?_⟩
      rw [h.links_eq hne hold]
      exact ⟨h.holding hne hold, hhead⟩
  | writePrevPtr | readNext | writeHead | unlock =>
      obtain ⟨hfresh, hclaimer, base, hold, hlinks⟩ := hinv
      refine ⟨h.fresh hne hlife hfresh, h.unclaimed hne hold hclaimer, base,
        h.holding hne hold, ?_⟩
      rw [h.links_eq hne hold]
      exact hlinks
  | writeNextPrevPtr next =>
      obtain ⟨hfresh, hclaimer, base, hold, hhead, hlinks⟩ := hinv
      refine ⟨h.fresh hne hlife hfresh, h.unclaimed hne hold hclaimer, base,
        h.holding hne hold, hhead, ?_⟩
      rw [h.links_eq hne hold]
      exact hlinks
  | setState => exact h.registered hne hheld hinv
  | invoke | callback =>
      obtain ⟨hphase, htrail⟩ := h.inline hne hheld hinv.1
      exact ⟨hphase, htrail.trans hinv.2⟩

theorem destructorInv (h : Guarantee actors m m') (hne : ¬ actors other)
    (hthread : ∀ flag : FrameId Thread, flag.1 = other.1 → ¬ actors flag) {r : Record}
    (hlife : m.life r = .destroying other) {pc : DestructorPc Thread Record}
    (hinv : DestructorInv m other r pc) : DestructorInv m' other r pc := by
  have hheld := Or.inr (a := m.life r = .constructing other) hlife
  cases pc with
  | readState =>
      have hregistered := (h.held r other hne hheld).2.1
      rcases hinv with ⟨hreg, hphase⟩ | ⟨hreg, hphase⟩
      · exact Or.inl ⟨hregistered.trans hreg, h.registered hne hheld hphase⟩
      · exact Or.inr ⟨hregistered.trans hreg, (h.inline hne hheld hphase).1⟩
  | lock pc => exact h.registered hne hheld hinv
  | readPrevPtr saved =>
      obtain ⟨hreg, hsaved, hold⟩ := hinv
      refine ⟨h.registered hne hheld hreg, h.saved hne hold hsaved, ?_⟩
      rw [h.links_eq hne hold]
      exact h.holding hne hold
  | readNext saved slot =>
      obtain ⟨hphase, hsaved, hold, hrest⟩ := hinv
      refine ⟨h.linked hne hold hphase, h.saved hne hold hsaved, ?_⟩
      rw [h.links_eq hne hold]
      exact ⟨h.holding hne hold, hrest⟩
  | writeSlot saved slot next =>
      obtain ⟨hphase, hsaved, hold, hrest⟩ := hinv
      refine ⟨h.linked hne hold hphase, h.saved hne hold hsaved, ?_⟩
      rw [h.links_eq hne hold]
      exact ⟨h.holding hne hold, hrest⟩
  | rereadNext saved | rereadPrevPtr saved next | writeNextPrevPtr saved next prevPtr
  | unlock saved =>
      obtain ⟨hphase, hsaved, base, slot, hold, hrest⟩ := hinv
      refine ⟨h.linked hne hold hphase, h.saved hne hold hsaved, base, slot,
        h.holding hne hold, ?_⟩
      rw [h.links_eq hne hold]
      exact hrest
  | readRequester saved =>
      obtain ⟨hpopped, hsaved, hold⟩ := hinv
      refine ⟨h.popped hne hlife hpopped, h.saved hne hold hsaved, ?_⟩
      rw [h.links_eq hne hold]
      exact h.holding hne hold
  | unlockPopped saved notifier =>
      obtain ⟨hpopped, hsaved, hold, c, hc, hnotifier⟩ := hinv
      refine ⟨h.popped hne hlife hpopped, h.saved hne hold hsaved, ?_⟩
      rw [h.links_eq hne hold]
      exact ⟨h.holding hne hold, c, h.claimer c hc, hnotifier⟩
  | readFlag =>
      obtain ⟨hpopped, c, hc, hthread⟩ := hinv
      exact ⟨h.popped hne hlife hpopped, c, h.claimer c hc, hthread⟩
  | writeFlag flag =>
      obtain ⟨hphase, hactive, hflag, hdepth⟩ := hinv
      obtain ⟨hactive', _, _, hphases⟩ := h.active flag (hthread flag hflag) hactive
      exact ⟨(hphases r).1.mpr hphase, hactive', hflag, hdepth⟩
  | waitCompleted => exact h.popped hne hlife hinv

theorem requestInv (h : Guarantee actors m m') (hne : ¬ actors other) {pc : RequestPc Record}
    (hinv : RequestInv m other pc) : RequestInv m' other pc := by
  cases pc with
  | tryLock pc => exact h.sound hinv
  | setRequester =>
      obtain ⟨hactive, hold, hpopped⟩ := hinv
      obtain ⟨hactive', _, _, hphase⟩ := h.active other hne hactive
      refine ⟨hactive', ?_, fun r => (hphase r).2.1.trans (hpopped r)⟩
      rw [h.links_eq hne hold]
      exact h.holding hne hold
  | readHead =>
      obtain ⟨hdrain, hnone, hold⟩ := hinv
      refine ⟨h.draining hne hdrain, h.noneExecuting hne hdrain hnone, ?_⟩
      rw [h.links_eq hne hold]
      exact h.holding hne hold
  | clearPrevPtr r =>
      have hlinks := h.links_eq hne hinv.2.2.1
      change Popping m' other r m'.links
      rw [hlinks]
      exact h.popping hne hinv
  | readNext r | writeHead r next | rereadHead r | writeHeadPrevPtr r head | setFlag r =>
      obtain ⟨base, hpop, hrest⟩ := hinv
      refine ⟨base, h.popping hne hpop, ?_⟩
      rw [h.links_eq hne hpop.2.2.1]
      exact hrest
  | openLock r =>
      obtain ⟨⟨base, hpop, hlinks⟩, hremoved⟩ := hinv
      refine ⟨⟨base, h.popping hne hpop, ?_⟩, ?_⟩
      · rw [h.links_eq hne hpop.2.2.1]
        exact hlinks
      · rw [(h.active other hne hpop.1.1).2.2.1]
        exact hremoved
  | invoke r =>
      obtain ⟨hexec, hlife, hremoved, htrail⟩ := hinv
      obtain ⟨hexec', htrail', hlife', hremoved'⟩ := h.executing hne hexec
      exact ⟨hexec', fun heq => hlife (hlife'.mp heq), hremoved'.trans hremoved,
        htrail'.trans htrail⟩
  | callback r removed =>
      obtain ⟨hexec, htrail, hlife, hremoved⟩ := hinv
      obtain ⟨hexec', htrail', hlife', hremoved'⟩ := h.executing hne hexec
      exact ⟨hexec', htrail'.trans htrail, hlife.trans hlife'.symm, hremoved'.trans hremoved⟩
  | clearFlag r =>
      obtain ⟨hexec, hlife, htrail⟩ := hinv
      obtain ⟨hexec', htrail', hlife', _⟩ := h.executing hne hexec
      exact ⟨hexec', fun heq => hlife (hlife'.mp heq), htrail'.trans htrail⟩
  | setCompleted r =>
      obtain ⟨hexec, hlife, htrail, hremoved⟩ := hinv
      obtain ⟨hexec', htrail', hlife', hremoved'⟩ := h.executing hne hexec
      exact ⟨hexec', fun heq => hlife (hlife'.mp heq), htrail'.trans htrail,
        hremoved'.trans hremoved⟩
  | relock pc =>
      exact ⟨h.draining hne hinv.1, h.noneExecuting hne hinv.1 hinv.2⟩
  | finalUnlock =>
      obtain ⟨hdrain, hnone, hold, hempty⟩ := hinv
      refine ⟨h.draining hne hdrain, h.noneExecuting hne hdrain hnone, ?_⟩
      rw [h.links_eq hne hold]
      exact ⟨h.holding hne hold, (h.owned other hne hold.1).2.2.1.trans hempty⟩

/-- The assertion of a frame that takes no part survives the step. -/
theorem frameInv (h : Guarantee actors m m') (hne : ¬ actors other)
    {frame : Frame Thread Record Client}
    (hthread : frame.isUser = false → ∀ flag : FrameId Thread, flag.1 = other.1 → ¬ actors flag)
    (hinv : FrameInv m other frame) : FrameInv m' other frame := by
  cases frame with
  | constructor r pc =>
      obtain ⟨hlife, hregistered, hpc⟩ := hinv
      obtain ⟨hlife', hregistered', _⟩ := h.held r other hne (Or.inl hlife)
      exact ⟨hlife'.trans hlife, hregistered'.trans hregistered, h.constructorInv hne hlife hpc⟩
  | destructor r pc =>
      obtain ⟨hlife, hpc⟩ := hinv
      obtain ⟨hlife', _⟩ := h.held r other hne (Or.inr hlife)
      exact ⟨hlife'.trans hlife, h.destructorInv hne (hthread rfl) hlife hpc⟩
  | requestStop pc => exact h.requestInv hne hinv
  | client c => trivial

end Guarantee

end Bexec.StopToken
