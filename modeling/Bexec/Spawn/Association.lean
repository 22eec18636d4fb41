import Bexec.CountingScope.Handles
import Bexec.Foundation.Nesting
import Bexec.Spawn.Ledger

/-!
# The association of a spawned operation

From the outcome of `try_associate` on, an accepted operation holds its
association in one of its two handles until it releases it.
-/

namespace Bexec.Spawn

open Foundation CountingScope

variable {Thread Op Handle Join : Type} [Fintype Thread] [DecidableEq Thread] [DecidableEq Op]
  [DecidableEq Handle] [DecidableEq Join] {s s' : State Thread Op Handle Join} {t : Thread} {k : Op}

namespace State

def accepted (s : State Thread Op Handle Join) (k : Op) : Prop :=
  .associated (.association k) ∈ s.scope.log

def refused (s : State Thread Op Handle Join) (k : Op) : Prop :=
  .rejected (.association k) ∈ s.scope.log

/-- No operation on the scope is writing the handle. -/
def quiet (s : State Thread Op Handle Join) (h : Holder Op Handle) : Prop :=
  CallStack.census (CountingScope.Frame.writes h) s.scope.stack = 0

end State

omit [DecidableEq Thread] [DecidableEq Handle] [DecidableEq Join] in
theorem callsAt_pos {place : Place} {depth : Nat} (hframe : ⟨place, k, depth⟩ ∈ s.stack t) :
    0 < s.callsAt place k :=
  CallStack.census_pos.mpr ⟨t, _, hframe, by simp⟩

omit [DecidableEq Thread] [DecidableEq Handle] [DecidableEq Join] in
/-- An operation about to look at its association has done nothing else. -/
theorem Ledger.starting_alone (h : Ledger s k) (hstart : 0 < s.callsAt .start k) :
    s.times .spawned k = 1 ∧ s.callsAt .construct k = 0 ∧ s.times .started k = 0 ∧
      s.times .rejected k = 0 ∧ s.times .moved k = 0 := by
  obtain ⟨hspawned, honce, hreturning, hcompletes, harriving, hfinishing, hmoving, -⟩ := h
  omega

omit [DecidableEq Thread] [DecidableEq Handle] [DecidableEq Join] in
theorem Ledger.constructing_alone (h : Ledger s k) (hconstruct : 0 < s.callsAt .construct k) :
    s.times .moved k = 0 := by
  obtain ⟨hspawned, honce, hreturning, hcompletes, harriving, hfinishing, hmoving, -⟩ := h
  omega

/-- The association has ended: the operation was accepted or refused, and an
accepted one holds its association until the move. -/
structure Decided (s : State Thread Op Handle Join) (k : Op) : Prop where
  spawned : s.times .spawned k = 1
  constructed : s.callsAt .construct k = 0
  outcome : s.refused k ↔ ¬ s.accepted k
  quiet : s.quiet (.association k)
  engaged : .association k ∈ s.scope.engaged ↔ s.accepted k ∧ s.times .moved k = 0
  started : 0 < s.times .started k → s.accepted k
  rejected : 0 < s.times .rejected k → s.refused k

/-- Before, during and after the association. -/
inductive Status (s : State Thread Op Handle Join) (k : Op) : Prop
  | fresh (hcalls : s.times .spawned k = s.callsAt .construct k) (haccepted : ¬ s.accepted k)
      (hrefused : ¬ s.refused k) (hquiet : s.quiet (.association k))
      (hempty : .association k ∉ s.scope.engaged)
  | associating (t : Thread) (rest : List (Frame Op))
      (base : List (CountingScope.Frame (Holder Op Handle) Join)) (bits : Option Word)
      (hstack : s.stack t = ⟨.start, k, base.length⟩ :: rest)
      (hscope : s.scope.stack t = .tryAssociate (.association k) none bits :: base)
      (haccepted : ¬ s.accepted k) (hrefused : ¬ s.refused k)
      (hempty : .association k ∉ s.scope.engaged)
  | decided (hdecided : Decided s k)

/-- The local of `finish` holds the association between the move and the release. -/
structure Moved (s : State Thread Op Handle Join) (k : Op) : Prop where
  quiet : s.quiet (.moved k)
  engaged : .moved k ∈ s.scope.engaged ↔
    s.accepted k ∧ 0 < s.times .moved k ∧ s.times .released k = 0

omit [DecidableEq Thread] [DecidableEq Join] in
theorem State.quiet.top {h : Holder Op Handle} (hquiet : s.quiet h)
    {frame : CountingScope.Frame (Holder Op Handle) Join}
    {rest : List (CountingScope.Frame (Holder Op Handle) Join)}
    (hstack : s.scope.stack t = frame :: rest) : frame.writes h = false :=
  CallStack.census_eq_zero.mp hquiet t frame (by simp [hstack])

omit [Fintype Thread] [DecidableEq Thread] [DecidableEq Join] in
theorem foreign_names {a : CountingScope.Action Thread (Holder Op Handle) Join}
    (hforeign : s.foreign a = true) :
    a.names (.association k) = false ∧ a.names (.moved k) = false := by
  unfold State.foreign at hforeign
  split at hforeign <;> simp_all [CountingScope.Action.names]

/-- A step leaves alone what the scope knows about the handles of an operation. -/
structure Unmoved (s s' : State Thread Op Handle Join) (k : Op) : Prop where
  accepted : s'.accepted k ↔ s.accepted k
  refused : s'.refused k ↔ s.refused k
  engaged : .association k ∈ s'.scope.engaged ↔ .association k ∈ s.scope.engaged
  quiet : s.quiet (.association k) → s'.quiet (.association k)
  movedEngaged : .moved k ∈ s'.scope.engaged ↔ .moved k ∈ s.scope.engaged
  movedQuiet : s.quiet (.moved k) → s'.quiet (.moved k)

omit [DecidableEq Thread] [DecidableEq Join] in
theorem Unmoved.of_same (hassociation : SameFacts (.association k) s.scope s'.scope)
    (hmoved : SameFacts (.moved k) s.scope s'.scope) : Unmoved s s' k where
  accepted := hassociation.associated
  refused := hassociation.rejected
  engaged := hassociation.handle.2
  quiet := hassociation.writes.trans
  movedEngaged := hmoved.handle.2
  movedQuiet := hmoved.writes.trans

omit [DecidableEq Thread] [DecidableEq Join] in
theorem Unmoved.of_eq (hscope : s'.scope = s.scope) : Unmoved s s' k := by
  apply Unmoved.of_same <;> rw [hscope] <;> exact SameFacts.refl _ _

namespace Moved

omit [DecidableEq Thread] [DecidableEq Join]

theorem keep (h : Moved s k) (hsame : Unmoved s s' k)
    (hmoved : s'.times .moved k = s.times .moved k)
    (hreleased : s'.times .released k = s.times .released k) : Moved s' k where
  quiet := hsame.movedQuiet h.quiet
  engaged := by
    rw [hsame.movedEngaged, hsame.accepted, hmoved, hreleased]
    exact h.engaged

/-- Before the move the local of `finish` does not exist. -/
theorem keep_before (h : Moved s k) (hsame : SameFacts (.moved k) s.scope s'.scope)
    (hzero : s.times .moved k = 0) (hmoved : s'.times .moved k = s.times .moved k) :
    Moved s' k where
  quiet := hsame.writes.trans h.quiet
  engaged := by
    rw [hsame.handle.2, h.engaged, hmoved, hzero]
    simp

end Moved

namespace Status

omit [DecidableEq Thread] [DecidableEq Join] in
/-- Steps that concern neither the handles nor these records of the operation. -/
theorem keep (h : Status s k) (hsame : Unmoved s s' k)
    (hspawned' : s'.times .spawned k = s.times .spawned k)
    (hstarted' : s'.times .started k = s.times .started k)
    (hrejected' : s'.times .rejected k = s.times .rejected k)
    (hmoved' : s'.times .moved k = s.times .moved k)
    (hat : s'.callsAt .construct k = s.callsAt .construct k)
    (hinside : ∀ t rest base bits, s.stack t = ⟨.start, k, base.length⟩ :: rest →
      s.scope.stack t = .tryAssociate (.association k) none bits :: base →
      s'.stack t = s.stack t ∧ s'.scope.stack t = s.scope.stack t) : Status s' k := by
  cases h with
  | fresh hcalls haccepted hrefused hquiet hempty =>
      apply Status.fresh
      · rw [hspawned', hat, hcalls]
      · rwa [hsame.accepted]
      · rwa [hsame.refused]
      · exact hsame.quiet hquiet
      · rwa [hsame.engaged]
  | associating t rest base bits hstack hscope haccepted hrefused hempty =>
      obtain ⟨hstack', hscope'⟩ := hinside t rest base bits hstack hscope
      apply Status.associating t rest base bits
      · rw [hstack', hstack]
      · rw [hscope', hscope]
      · rwa [hsame.accepted]
      · rwa [hsame.refused]
      · rwa [hsame.engaged]
  | decided hdecided =>
      apply Status.decided
      constructor
      · rw [hspawned', hdecided.spawned]
      · rw [hat, hdecided.constructed]
      · rw [hsame.accepted, hsame.refused]
        exact hdecided.outcome
      · exact hsame.quiet hdecided.quiet
      · rw [hsame.engaged, hsame.accepted, hmoved']
        exact hdecided.engaged
      · rw [hstarted', hsame.accepted]
        exact hdecided.started
      · rw [hrejected', hsame.refused]
        exact hdecided.rejected

/-- The stacks beneath an association in progress stay while others move. -/
theorem inside {a : CountingScope.Action Thread (Holder Op Handle) Join} {bits : Option Word}
    {base : List (CountingScope.Frame (Holder Op Handle) Join)}
    (hstep : CountingScope.step s.scope a = some s'.scope)
    (htop : s.scope.stack t = .tryAssociate (.association k) none bits :: base)
    (hrun : ∀ weak, a ≠ .run t weak) : s'.scope.stack t = s.scope.stack t := by
  apply step_stack_inside hstep hrun
  simp [CountingScope.State.atUser, htop]

/-- The association makes a step of its own. -/
theorem associate (hscope : ScopeInv s.scope) (hledger : Ledger s k) {rest : List (Frame Op)}
    {base : List (CountingScope.Frame (Holder Op Handle) Join)} {bits : Option Word} {weak : Bool}
    (hframe : s.stack t = ⟨.start, k, base.length⟩ :: rest)
    (htop : s.scope.stack t = .tryAssociate (.association k) none bits :: base)
    (haccepted : ¬ s.accepted k) (hrefused : ¬ s.refused k)
    (hempty : .association k ∉ s.scope.engaged)
    (hstep : CountingScope.step s.scope (.run t weak) = some s'.scope) (hstack : s'.stack = s.stack)
    (hlog : s'.log = s.log) : Status s' k := by
  have hscope' : s.scope.tryAssociate t base weak (.association k) none bits = s'.scope := by
    simpa [CountingScope.step, htop, CountingScope.Frame.step] using hstep
  obtain ⟨hspawned, hconstruct, hstarted, hrejected, hmoved⟩ :=
    hledger.starting_alone (callsAt_pos (hframe ▸ List.mem_cons_self))
  have htimes : ∀ event, s'.times event k = s.times event k := by simp [State.times, hlog]
  have hat : s'.callsAt .construct k = s.callsAt .construct k := by simp [State.callsAt, hstack]
  have hquiet : s'.scope.stack = Function.update s.scope.stack t base →
      s'.quiet (.association k) := by
    intro hbase
    have hreplace := CallStack.census_replace
      (CountingScope.Frame.writes (Holder.association k : Holder Op Handle))
      [.tryAssociate (.association k) none bits] [] htop
    have honce := hscope.exclusive (.association k)
    simp only [List.nil_append, ← hbase] at hreplace
    simp only [List.countP_singleton, CountingScope.Frame.writes, decide_true, if_true,
      List.countP_nil] at hreplace
    unfold State.quiet
    omega
  rcases tryAssociate_outcome s.scope t (.association k) base weak none bits with
    ⟨hloop, hengaged, hscopelog⟩ | ⟨hdone, ⟨hengaged, hscopelog⟩ | ⟨hengaged, hscopelog⟩⟩ <;>
    rw [hscope'] at *
  · apply Status.associating t rest base (some s.scope.word)
    · rw [hstack, hframe]
    · rw [hloop, Function.update_self]
    · unfold State.accepted
      rwa [hscopelog]
    · unfold State.refused
      rwa [hscopelog]
    · rwa [hengaged]
  · have hyes : s'.accepted k := by simp [State.accepted, hscopelog]
    have hno : ¬ s'.refused k := by
      simpa [State.refused, hscopelog] using hrefused
    apply Status.decided
    constructor
    · rw [htimes, hspawned]
    · rw [hat, hconstruct]
    · simp [hyes, hno]
    · exact hquiet hdone
    · simp [hengaged, hyes, htimes, hmoved]
    · exact fun _ => hyes
    · simp [htimes, hrejected]
  · have hno : ¬ s'.accepted k := by
      simpa [State.accepted, hscopelog] using haccepted
    have hyes : s'.refused k := by simp [State.refused, hscopelog]
    apply Status.decided
    constructor
    · rw [htimes, hspawned]
    · rw [hat, hconstruct]
    · simp [hyes, hno]
    · exact hquiet hdone
    · simp [hengaged, hno, hempty]
    · simp [htimes, hstarted]
    · exact fun _ => hyes

/-- A step of other code on the scope. -/
theorem foreign (h : Status s k) (hmoved : Moved s k) (hscope : ScopeInv s.scope)
    (hledger : Ledger s k) {a : CountingScope.Action Thread (Holder Op Handle) Join}
    (hforeign : s.foreign a = true) (hstep : CountingScope.step s.scope a = some s'.scope)
    (hstack : s'.stack = s.stack) (hlog : s'.log = s.log) : Status s' k ∧ Moved s' k := by
  obtain ⟨hassociation, hlocal⟩ := foreign_names (k := k) hforeign
  have htimes : ∀ event, s'.times event k = s.times event k := by simp [State.times, hlog]
  have hat : s'.callsAt .construct k = s.callsAt .construct k := by simp [State.callsAt, hstack]
  have hmovedsame : SameFacts (.moved k) s.scope s'.scope :=
    SameFacts.step hstep hlocal fun t weak hrun frame rest htop => hmoved.quiet.top htop
  have hkeep : ∀ hsame : SameFacts (.association k) s.scope s'.scope,
      Status s' k → Status s' k ∧ Moved s' k :=
    fun hsame h' => ⟨h', hmoved.keep (.of_same hsame hmovedsame) (htimes _) (htimes _)⟩
  by_cases hquiet : s.quiet (.association k)
  · have hsame : SameFacts (.association k) s.scope s'.scope :=
      SameFacts.step hstep hassociation fun t weak hrun frame rest htop => hquiet.top htop
    apply hkeep hsame
    apply h.keep (.of_same hsame hmovedsame) (htimes _) (htimes _) (htimes _) (htimes _) hat
    intro t rest base bits hframe htop
    have hwrites := hquiet.top htop
    simp [CountingScope.Frame.writes] at hwrites
  · cases h with
    | fresh hcalls haccepted hrefused hempty' hempty => exact absurd hempty' hquiet
    | decided hdecided => exact absurd hdecided.quiet hquiet
    | associating t rest base bits hframe htop haccepted hrefused hempty =>
        by_cases hrun : ∃ weak, a = .run t weak
        · obtain ⟨weak, rfl⟩ := hrun
          obtain ⟨-, -, -, -, hzero⟩ :=
            hledger.starting_alone (callsAt_pos (hframe ▸ List.mem_cons_self))
          exact ⟨associate hscope hledger hframe htop haccepted hrefused hempty hstep hstack hlog,
            hmoved.keep_before hmovedsame hzero (htimes _)⟩
        · have hrun' : ∀ weak, a ≠ .run t weak := fun weak heq => hrun ⟨weak, heq⟩
          obtain ⟨-, helsewhere⟩ := CallStack.not_elsewhere [] (hscope.exclusive (.association k))
            htop (by simp [CountingScope.Frame.writes])
          have hsame : SameFacts (.association k) s.scope s'.scope := by
            apply SameFacts.step hstep hassociation
            intro u weak heq frame rest hother
            have hne : u ≠ t := fun hu => hrun' weak (by rw [heq, hu])
            exact helsewhere u hne frame (by rw [hother]; exact List.mem_cons_self)
          apply hkeep hsame
          have h : Status s k :=
            .associating t rest base bits hframe htop haccepted hrefused hempty
          apply h.keep (.of_same hsame hmovedsame) (htimes _) (htimes _) (htimes _) (htimes _) hat
          intro u rest' base' bits' hframe' hother
          have heq : u = t := by
            by_contra hne
            have hwrites := helsewhere u hne _ (by rw [hother]; exact List.mem_cons_self)
            simp [CountingScope.Frame.writes] at hwrites
          subst heq
          exact ⟨by rw [hstack], inside hstep htop hrun'⟩

end Status

namespace TurnEffect

variable {k₁ : Op} {u : Thread} {turn : Turn}

/-- No call turns on a thread that is inside an association. -/
theorem elsewhere (h : TurnEffect s s' u k₁ turn) {rest : List (Frame Op)}
    {base : List (CountingScope.Frame (Holder Op Handle) Join)} {bits : Option Word}
    (hframe : s.stack t = ⟨.start, k, base.length⟩ :: rest)
    (htop : s.scope.stack t = .tryAssociate (.association k) none bits :: base) : t ≠ u := by
  intro heq
  subst heq
  obtain ⟨rest', hstack, -⟩ := h.turns.stack
  have hguard := h.guard
  rw [hframe] at hstack
  cases turn <;>
    simp [Turn.leaves, Turn.Guard, State.height, CountingScope.State.atUser, htop] at hstack hguard

/-- The association in progress is not disturbed. -/
theorem undisturbed (h : TurnEffect s s' u k₁ turn) {rest : List (Frame Op)}
    {base : List (CountingScope.Frame (Holder Op Handle) Join)} {bits : Option Word}
    (hframe : s.stack t = ⟨.start, k, base.length⟩ :: rest)
    (htop : s.scope.stack t = .tryAssociate (.association k) none bits :: base) :
    s'.stack t = s.stack t ∧ s'.scope.stack t = s.scope.stack t := by
  have hne := h.elsewhere hframe htop
  constructor
  · obtain ⟨rest', -, hstack'⟩ := h.turns.stack
    rw [hstack', Function.update_of_ne hne]
  · cases haction : (turn.scopeAction u k₁ :
      Option (CountingScope.Action Thread (Holder Op Handle) Join)) with
    | none => rw [h.still haction]
    | some a =>
        apply Status.inside (h.step a haction) htop
        intro weak heq
        subst heq
        cases turn <;> cases haction

/-- A turn of a call on another operation. -/
theorem other (h : TurnEffect s s' u k₁ turn) (hne : k₁ ≠ k) (hstatus : Status s k)
    (hmoved : Moved s k) : Status s' k ∧ Moved s' k := by
  have hsame : Unmoved s s' k := by
    cases haction : (turn.scopeAction u k₁ :
      Option (CountingScope.Action Thread (Holder Op Handle) Join)) with
    | none => exact Unmoved.of_eq (h.still haction)
    | some a =>
        have hstep := h.step a haction
        apply Unmoved.of_same <;> apply SameFacts.step hstep <;>
          cases turn <;> cases haction <;> simp [CountingScope.Action.names, hne]
  have htimes := h.turns.times_other hne
  exact ⟨hstatus.keep hsame (htimes _) (htimes _) (htimes _) (htimes _)
    (h.turns.callsAt_other hne _) fun t rest base bits hframe htop => h.undisturbed hframe htop,
    hmoved.keep hsame (htimes _) (htimes _)⟩

/-- Turns in which neither the association nor its records change. -/
theorem keep (h : TurnEffect s s' u k turn) (hstatus : Status s k) (hmoved : Moved s k)
    (hsame : Unmoved s s' k)
    (hrecords : ∀ event ∈ [Event.spawned, .started, .rejected, .moved, .released],
      turn.records.count event = 0)
    (hconstruct : turn.leaves.count .construct = turn.enters.count .construct) :
    Status s' k ∧ Moved s' k := by
  have htimes : ∀ event ∈ [Event.spawned, .started, .rejected, .moved, .released],
      s'.times event k = s.times event k := by
    intro event hevent
    rw [h.turns.times_eq, hrecords event hevent, Nat.zero_add]
  have hat := h.turns.callsAt_eq .construct
  refine ⟨hstatus.keep hsame (htimes _ ?_) (htimes _ ?_) (htimes _ ?_) (htimes _ ?_) (by omega)
    fun t rest base bits hframe htop => h.undisturbed hframe htop,
    hmoved.keep hsame (htimes _ ?_) (htimes _ ?_)⟩ <;> simp

theorem spawn (h : TurnEffect s s' u k .spawn) (hledger : Ledger s k) (hstatus : Status s k)
    (hmoved : Moved s k) : Status s' k ∧ Moved s' k := by
  have hscope : s'.scope = s.scope := h.still rfl
  have hsame : Unmoved s s' k := Unmoved.of_eq hscope
  have htimes := h.turns.times_eq
  have hat := h.turns.callsAt_eq .construct
  have hnone := h.guard.2
  have hspawned := hledger.spawned
  simp only [Turn.leaves, Turn.enters, List.count_nil, List.count_singleton_self] at hat
  constructor
  · cases hstatus with
    | fresh hcalls haccepted hrefused hquiet hempty =>
        apply Status.fresh
        · rw [htimes]
          simp only [Turn.records, List.count_singleton_self]
          omega
        · rwa [hsame.accepted]
        · rwa [hsame.refused]
        · exact hsame.quiet hquiet
        · rwa [hsame.engaged]
    | associating t rest base bits hstack =>
        have hstart := callsAt_pos (hstack ▸ List.mem_cons_self)
        omega
    | decided hdecided =>
        have hone := hdecided.spawned
        omega
  · apply hmoved.keep hsame <;> rw [htimes] <;> simp [Turn.records]

/-- Only an operation that is not yet associated is at `construct`. -/
theorem associate (h : TurnEffect s s' u k .associate) (hledger : Ledger s k)
    (hstatus : Status s k) (hmoved : Moved s k) : Status s' k ∧ Moved s' k := by
  obtain ⟨rest, hstack, hstack'⟩ := h.turns.stack
  have hpos := h.turns.callsAt_pos .construct (by simp [Turn.leaves])
  have htimes := h.turns.times_eq
  have hspawned := hledger.spawned
  have honce := hledger.once
  have hstep := h.step _ rfl
  have hscope : s'.scope.log = s.scope.log ∧ s'.scope.engaged = s.scope.engaged ∧
      s'.scope.stack = Function.update s.scope.stack u
        (.tryAssociate (.association k) none none :: s.scope.stack u) := by
    simp only [CountingScope.step, Option.ite_none_right_eq_some, Option.some.injEq] at hstep
    rw [← hstep.2]
    exact ⟨rfl, rfl, rfl⟩
  obtain ⟨hlog, hengaged, hscopestack⟩ := hscope
  constructor
  · cases hstatus with
    | fresh hcalls haccepted hrefused hquiet hempty =>
        apply Status.associating u rest (s.scope.stack u) none
        · rw [hstack', Function.update_self]
          rfl
        · rw [hscopestack, Function.update_self]
        · unfold State.accepted
          rwa [hlog]
        · unfold State.refused
          rwa [hlog]
        · rwa [hengaged]
    | associating t rest base bits hframe =>
        have hstart := callsAt_pos (hframe ▸ List.mem_cons_self)
        omega
    | decided hdecided =>
        have hconstructed := hdecided.constructed
        omega
  · have hsame : SameFacts (.moved k) s.scope s'.scope := by
      apply SameFacts.step hstep <;> simp [CountingScope.Action.names]
    apply hmoved.keep_before hsame
    · exact hledger.constructing_alone hpos
    · rw [htimes]
      simp [Turn.records]

/-- A call that looks at the association finds it decided. -/
theorem decided_of_start (h : TurnEffect s s' u k turn) (hleaves : turn.leaves = [.start])
    (hledger : Ledger s k) (hstatus : Status s k) : Decided s k := by
  have hpos := h.turns.callsAt_pos .start (by simp [hleaves])
  have hspawned := hledger.spawned
  have honce := hledger.once
  cases hstatus with
  | fresh hcalls => omega
  | decided hdecided => exact hdecided
  | associating t rest base bits hframe htop =>
      exfalso
      have hone : CallStack.census (fun frame => decide (frame.place = .start ∧ frame.op = k))
          s.stack ≤ 1 := by
        have hcalls : s.callsAt .start k ≤ 1 := by omega
        exact hcalls
      have hne := h.elsewhere hframe htop
      obtain ⟨-, hnowhere⟩ := CallStack.not_elsewhere [] hone hframe (by simp)
      obtain ⟨rest', hstack, -⟩ := h.turns.stack
      rw [hleaves] at hstack
      have hfalse := hnowhere u (Ne.symm hne) ⟨.start, k, s.height u⟩ (by simp [hstack])
      simp at hfalse

theorem accept (h : TurnEffect s s' u k .accept) (hledger : Ledger s k) (hstatus : Status s k)
    (hmoved : Moved s k) : Status s' k ∧ Moved s' k := by
  have hsame : Unmoved s s' k := Unmoved.of_eq (h.still rfl)
  have hpos := h.turns.callsAt_pos .start (by simp [Turn.leaves])
  have htimes := h.turns.times_eq
  have hat := h.turns.callsAt_eq .construct
  simp only [Turn.leaves, Turn.enters, List.count_singleton] at hat
  obtain ⟨hspawned, hconstruct, hstarted, hrejected, hzero⟩ := hledger.starting_alone hpos
  have hdecided := h.decided_of_start rfl hledger hstatus
  constructor
  · apply Status.decided
    constructor
    · simp [htimes, Turn.records, hspawned]
    · simpa [hconstruct] using hat
    · rw [hsame.accepted, hsame.refused]
      exact hdecided.outcome
    · exact hsame.quiet hdecided.quiet
    · simpa [hsame.engaged, hsame.accepted, htimes, Turn.records] using hdecided.engaged
    · exact fun _ => hsame.accepted.mpr (hdecided.engaged.mp h.guard).1
    · simp [htimes, Turn.records, hrejected]
  · apply hmoved.keep hsame <;> rw [htimes] <;> simp [Turn.records]

theorem reject (h : TurnEffect s s' u k .reject) (hledger : Ledger s k) (hstatus : Status s k)
    (hmoved : Moved s k) : Status s' k ∧ Moved s' k := by
  have hsame : Unmoved s s' k := Unmoved.of_eq (h.still rfl)
  have hpos := h.turns.callsAt_pos .start (by simp [Turn.leaves])
  have htimes := h.turns.times_eq
  have hat := h.turns.callsAt_eq .construct
  simp only [Turn.leaves, Turn.enters, List.count_singleton] at hat
  obtain ⟨hspawned, hconstruct, hstarted, hrejected, hzero⟩ := hledger.starting_alone hpos
  have hdecided := h.decided_of_start rfl hledger hstatus
  have hnot : ¬ s.accepted k := fun hyes => h.guard (hdecided.engaged.mpr ⟨hyes, hzero⟩)
  constructor
  · apply Status.decided
    constructor
    · simp [htimes, Turn.records, hspawned]
    · simpa [hconstruct] using hat
    · rw [hsame.accepted, hsame.refused]
      exact hdecided.outcome
    · exact hsame.quiet hdecided.quiet
    · simpa [hsame.engaged, hsame.accepted, htimes, Turn.records] using hdecided.engaged
    · simp [htimes, Turn.records, hstarted]
    · exact fun _ => hsame.refused.mpr (hdecided.outcome.mpr hnot)
  · apply hmoved.keep hsame <;> rw [htimes] <;> simp [Turn.records]

omit [DecidableEq Thread] [DecidableEq Join] in
/-- Only a decided operation finishes. -/
theorem decided_of_finishing (hledger : Ledger s k) (hstatus : Status s k)
    (hfinishing : 0 < s.times .finishing k) : Decided s k := by
  have hspawned := hledger.spawned
  have honce := hledger.once
  have hreturning := hledger.returning
  have hcompletes := hledger.completes
  have harriving := hledger.arriving
  have hends := hledger.finishing
  cases hstatus with
  | fresh hcalls => omega
  | decided hdecided => exact hdecided
  | associating t rest base bits hframe htop =>
      have hstart := callsAt_pos (hframe ▸ List.mem_cons_self)
      omega

theorem move (h : TurnEffect s s' u k .move) (hledger : Ledger s k) (hstatus : Status s k)
    (hmoved : Moved s k) : Status s' k ∧ Moved s' k := by
  have hpos := h.turns.callsAt_pos .finish (by simp [Turn.leaves])
  have hmoving := hledger.moving
  have horder := hledger.order
  have hreleasing := hledger.releasing
  have honce := hledger.once
  have hdecided := decided_of_finishing hledger hstatus (by omega)
  have hstep := h.step _ rfl
  have htimes := h.turns.times_eq
  have hat := h.turns.callsAt_eq .construct
  simp only [Turn.leaves, Turn.enters, List.count_singleton] at hat
  obtain ⟨-, hscope⟩ := Option.ite_none_right_eq_some.mp hstep
  have hlog : s'.scope.log = s.scope.log := by
    rw [← Option.some.inj hscope]
    rfl
  have hstack : s'.scope.stack = s.scope.stack := by
    rw [← Option.some.inj hscope]
    rfl
  have hengaged : s'.scope.engaged =
      if .association k ∈ s.scope.engaged then
        insert (.moved k) (s.scope.engaged.erase (.association k))
      else s.scope.engaged.erase (.moved k) := by
    rw [← Option.some.inj hscope]
    simp [CountingScope.State.transfer, CountingScope.State.emplace]
  have haccepted : s'.accepted k ↔ s.accepted k := by simp [State.accepted, hlog]
  have hrefused : s'.refused k ↔ s.refused k := by simp [State.refused, hlog]
  have hbefore : s.times .moved k = 0 := by omega
  have hheld := hdecided.engaged
  constructor
  · apply Status.decided
    constructor
    · simp [htimes, Turn.records, hdecided.spawned]
    · simpa [hdecided.constructed] using hat
    · rw [haccepted, hrefused]
      exact hdecided.outcome
    · unfold State.quiet
      rw [hstack]
      exact hdecided.quiet
    · rw [hengaged]
      split <;> simp_all [Turn.records]
    · simpa [htimes, Turn.records, haccepted] using hdecided.started
    · simpa [htimes, Turn.records, hrefused] using hdecided.rejected
  · constructor
    · unfold State.quiet
      rw [hstack]
      exact hmoved.quiet
    · have hreleased : s.times .released k = 0 := by omega
      rw [hengaged]
      split <;> simp_all [Turn.records]

theorem destroy (h : TurnEffect s s' u k .destroy) (hledger : Ledger s k) (hstatus : Status s k)
    (hmoved : Moved s k) : Status s' k ∧ Moved s' k := by
  have hpos := h.turns.callsAt_pos .destroy (by simp [Turn.leaves])
  have hdestroying := hledger.destroying
  have horder := hledger.order
  have hdecided := decided_of_finishing hledger hstatus (by omega)
  have hempty : .association k ∉ s.scope.engaged := by
    rw [hdecided.engaged]
    omega
  obtain ⟨-, hscope⟩ := Option.ite_none_right_eq_some.mp (h.step _ rfl)
  rw [if_neg hempty, Option.some.injEq] at hscope
  apply h.keep hstatus hmoved
  · constructor <;> simp [← hscope, State.accepted, State.refused, State.quiet]
  · simp [Turn.records]
  · simp [Turn.leaves, Turn.enters]

theorem release (h : TurnEffect s s' u k .release) (hledger : Ledger s k) (hstatus : Status s k)
    (hmoved : Moved s k) : Status s' k ∧ Moved s' k := by
  have hpos := h.turns.callsAt_pos .release (by simp [Turn.leaves])
  have hreleasing := hledger.releasing
  have horder := hledger.order
  have hdecided := decided_of_finishing hledger hstatus (by omega)
  have hstep := h.step _ rfl
  have htimes := h.turns.times_eq
  have hat := h.turns.callsAt_eq .construct
  simp only [Turn.leaves, Turn.enters, List.count_singleton, List.count_nil] at hat
  have hsame : SameFacts (.association k) s.scope s'.scope := by
    apply SameFacts.step hstep <;> simp [CountingScope.Action.names]
  have haccepted : s'.accepted k ↔ s.accepted k := hsame.associated
  have hrefused : s'.refused k ↔ s.refused k := hsame.rejected
  obtain ⟨-, hscope⟩ := Option.ite_none_right_eq_some.mp hstep
  constructor
  · apply Status.decided
    constructor
    · simp [htimes, Turn.records, hdecided.spawned]
    · simpa [hdecided.constructed] using hat
    · rw [haccepted, hrefused]
      exact hdecided.outcome
    · exact hsame.writes.trans hdecided.quiet
    · rw [hsame.handle.2, haccepted]
      simpa [htimes, Turn.records] using hdecided.engaged
    · simpa [htimes, Turn.records, haccepted] using hdecided.started
    · simpa [htimes, Turn.records, hrefused] using hdecided.rejected
  · by_cases hheld : .moved k ∈ s.scope.engaged
    · rw [if_pos hheld, Option.some.injEq] at hscope
      constructor
      · have hreplace := CallStack.census_update
          (CountingScope.Frame.writes (Holder.moved k : Holder Op Handle)) s.scope.stack u
          (.disassociate .done none :: s.scope.stack u)
        have hquiet := hmoved.quiet
        simp only [List.countP_cons, CountingScope.Frame.writes, After.writes, Bool.false_eq_true,
          if_false, Nat.add_zero] at hreplace
        unfold State.quiet at hquiet ⊢
        rw [← hscope]
        simp only [CountingScope.State.setStack]
        omega
      · simp [← hscope, CountingScope.State.setStack, htimes, Turn.records]
    · rw [if_neg hheld, Option.some.injEq] at hscope
      constructor
      · unfold State.quiet
        rw [← hscope]
        exact hmoved.quiet
      · simp [← hscope, hheld, htimes, Turn.records]

/-- A turn of a call on the operation. -/
theorem own (h : TurnEffect s s' u k turn) (hledger : Ledger s k) (hstatus : Status s k)
    (hmoved : Moved s k) : Status s' k ∧ Moved s' k := by
  cases turn with
  | spawn => exact h.spawn hledger hstatus hmoved
  | associate => exact h.associate hledger hstatus hmoved
  | accept => exact h.accept hledger hstatus hmoved
  | reject => exact h.reject hledger hstatus hmoved
  | move => exact h.move hledger hstatus hmoved
  | destroy => exact h.destroy hledger hstatus hmoved
  | release => exact h.release hledger hstatus hmoved
  | startReturn | complete | arriveFirst | arriveSecond | destroyed | deallocate =>
      apply h.keep hstatus hmoved (Unmoved.of_eq (h.still rfl)) <;>
        simp [Turn.records, Turn.leaves, Turn.enters]

end TurnEffect

/-- What is known of an operation in every reachable state. -/
structure OperationInv (s : State Thread Op Handle Join) (k : Op) : Prop where
  ledger : Ledger s k
  status : Status s k
  moved : Moved s k

omit [DecidableEq Thread] [DecidableEq Join] in
theorem OperationInv.initial : OperationInv (State.initial : State Thread Op Handle Join) k where
  ledger := Ledger.initial
  status := by
    apply Status.fresh <;>
      simp [State.initial, State.times, State.callsAt, State.accepted, State.refused, State.quiet,
        CountingScope.State.initial]
  moved := by
    constructor <;>
      simp [State.initial, State.times, State.accepted, State.quiet, CountingScope.State.initial]

theorem OperationInv.effect (h : OperationInv s k) (hscope : ScopeInv s.scope)
    (heffect : Effect s s') : OperationInv s' k := by
  have hledger := h.ledger.effect heffect
  cases heffect with
  | scope a hforeign hstep hstack hlog =>
      obtain ⟨hstatus, hmoved⟩ :=
        h.status.foreign h.moved hscope h.ledger hforeign hstep hstack hlog
      exact ⟨hledger, hstatus, hmoved⟩
  | turn t k₁ turn hturn =>
      by_cases heq : k₁ = k
      · subst heq
        obtain ⟨hstatus, hmoved⟩ := hturn.own h.ledger h.status h.moved
        exact ⟨hledger, hstatus, hmoved⟩
      · obtain ⟨hstatus, hmoved⟩ := hturn.other heq h.status h.moved
        exact ⟨hledger, hstatus, hmoved⟩

/-- The scope only goes through states that it reaches on its own. -/
theorem scope_reachable (hs : (machine Thread Op Handle Join).Reachable s) :
    (CountingScope.machine Thread (Holder Op Handle) Join).Reachable s.scope := by
  induction hs with
  | initial hinit =>
      cases hinit
      exact .initial rfl
  | step _ hstep ih =>
      cases effect_of_step hstep with
      | scope a hforeign hscope => exact ih.step hscope
      | turn t k turn hturn =>
          cases haction : turn.scopeAction t k with
          | none =>
              rw [hturn.still haction]
              exact ih
          | some a => exact ih.step (hturn.step a haction)

theorem operationInv_of_reachable (hs : (machine Thread Op Handle Join).Reachable s) (k : Op) :
    OperationInv s k := by
  apply hs.invariant (P := fun s => OperationInv s k)
  · intro s hinit
    cases hinit
    exact OperationInv.initial
  · intro s a s' hs h hstep
    exact h.effect (scopeInv_of_reachable (scope_reachable hs)) (effect_of_step hstep)

end Bexec.Spawn
