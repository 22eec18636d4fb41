import Bexec.Associate.Programs

/-! # Every association of an associated sender is accounted for

The count of the scope is what the live objects hold, at every step of every
call, and between calls an object has a payload exactly with an association.
-/

namespace Bexec.Associate

open Foundation CountingScope

/-! ## One access to the word -/

section Words

variable {word next : Word}

theorem tryAssociate_of_closed (hclosed : isClosed word = true) : tryAssociate word = none := by
  simp [tryAssociate, hclosed]

theorem tryAssociate_spec (h : Legal word) (hnext : tryAssociate word = some next) :
    Legal next ∧ associations next = associations word + 1 := by
  unfold tryAssociate at hnext
  split at hnext
  · cases hnext
  · next hopen =>
      simp only [Bool.or_eq_true, decide_eq_true_eq, not_or, Bool.not_eq_true] at hopen
      obtain ⟨hlegal, hcount, -⟩ := h.associate hopen.1 hopen.2 (Option.some.inj hnext).symm
      exact ⟨hlegal, hcount⟩

theorem disassociated_spec (h : Legal word) (hpos : 0 < associations word) :
    Legal (disassociated word) ∧ associations (disassociated word) + 1 = associations word ∧
      (isClosed word = true → isClosed (disassociated word) = true) := by
  unfold disassociated
  split
  · next hlast =>
      refine ⟨legal_closedBit, ?_, fun _ => by decide⟩
      have hone : countOf word = 1 := by
        have hzero := hlast.1
        rw [sub_eq_zero] at hzero
        exact hzero
      rw [associations_closedBit, associations, hone]
      rfl
  · next hlast =>
      obtain ⟨hlegal, hcount, -⟩ := h.disassociate hpos hlast rfl
      refine ⟨hlegal, hcount, ?_⟩
      intro hclosed
      have hle := associations_le word
      have hfits : (countOf word - 1).toNat ≤ maxAssociations.toNat := by
        have hone : (1 : Word) ≤ countOf word := by
          rw [BitVec.le_def]
          exact hpos
        rw [BitVec.toNat_sub_of_le hone]
        exact (Nat.sub_le _ _).trans hle
      rw [isClosed_eq] at hclosed ⊢
      rwa [stateOf_makeWord hfits (stateOf_lt word)]

theorem startJoin_spec (h : Legal word) :
    Legal (startJoin word) ∧ associations (startJoin word) = associations word ∧
      (isClosed word = true → isClosed (startJoin word) = true) := by
  unfold startJoin
  split
  · next hzero =>
      refine ⟨legal_closedBit, ?_, fun _ => by decide⟩
      rw [associations_closedBit, associations, hzero]
      rfl
  · next hne =>
      have hpos : 0 < associations word := by
        rw [Nat.pos_iff_ne_zero]
        exact fun hzero => hne (BitVec.eq_of_toNat_eq hzero)
      obtain ⟨hlegal, hcount, -⟩ := h.startJoin hpos
      refine ⟨hlegal, hcount, ?_⟩
      intro hclosed
      have hbits : ∀ st ∈ [(0 : Word), 1, 2, 3, 4, 5, 6, 7], (st &&& closedBit ≠ 0 : Bool) = true →
          ((st ||| joinRunningBit) &&& closedBit ≠ 0 : Bool) = true := forall_of_all (by decide)
      rw [isClosed_eq] at hclosed ⊢
      rw [stateOf_or joinRunningBit (by decide)]
      exact hbits _ (stateOf_cases word) hclosed

theorem close_spec (h : Legal word) : Legal (word ||| closedBit) ∧
    associations (word ||| closedBit) = associations word ∧ isClosed (word ||| closedBit) = true := by
  obtain ⟨hlegal, hcount, -⟩ := h.close
  refine ⟨hlegal, hcount, ?_⟩
  have hbits : ∀ st ∈ [(0 : Word), 1, 2, 3, 4, 5, 6, 7],
      ((st ||| closedBit) &&& closedBit ≠ 0 : Bool) = true := forall_of_all (by decide)
  rw [isClosed_eq, stateOf_or closedBit (by decide)]
  exact hbits _ (stateOf_cases word)

end Words

variable {Sender Operation : Type} [DecidableEq Sender] [DecidableEq Operation]
  {s s' : State Sender Operation}

namespace Holders

variable {h : Holders Sender Operation} {i : Instruction Sender Operation} {accepted : Bool}

/-- An instruction that asks the scope adds the association it gets. -/
theorem card_apply_of_asks (hfits : h.Fits accepted i) (hasks : h.asks i = true) :
    (h.apply accepted i).associated.card = h.associated.card + accepted.toNat := by
  cases i with
  | tryAssociate p =>
      obtain ⟨-, hassociated, -⟩ := hfits
      cases accepted <;> simp [Holders.apply, setAssociated, hassociated]
  | tryAssociateFrom p source =>
      obtain ⟨-, hassociated, -⟩ := hfits
      simp only [asks, decide_eq_true_eq] at hasks
      cases accepted <;> simp [Holders.apply, setAssociated, hassociated, hasks]
  | _ => cases hasks

theorem card_apply_of_returns (hfits : h.Fits accepted i) (hreturns : h.returns i = true) :
    (h.apply accepted i).associated.card + 1 = h.associated.card := by
  cases i with
  | resetAssociation p =>
      simp only [returns, decide_eq_true_eq] at hreturns
      exact Finset.card_erase_add_one hreturns
  | moveAssociation p source =>
      simp only [returns, decide_eq_true_eq] at hreturns
      exact absurd hreturns hfits.2.1
  | _ => cases hreturns

/-- The other instructions at most pass an association on. -/
theorem card_apply_of_neither (hfits : h.Fits accepted i) (hasks : h.asks i = false)
    (hreturns : h.returns i = false) :
    (h.apply accepted i).associated.card = h.associated.card := by
  cases i with
  | tryAssociate p => cases hasks
  | tryAssociateFrom p source =>
      obtain ⟨-, hassociated, -⟩ := hfits
      simp only [asks, decide_eq_false_iff_not] at hasks
      simp [Holders.apply, setAssociated, hasks, hassociated]
  | resetAssociation p =>
      simp only [returns, decide_eq_false_iff_not] at hreturns
      simp [Holders.apply, setAssociated, hreturns]
  | moveAssociation p source =>
      obtain ⟨-, hassociated, hne, -⟩ := hfits
      by_cases hsource : source ∈ h.associated
      · have hmem : source ∈ insert p h.associated := Finset.mem_insert_of_mem hsource
        simp [Holders.apply, setAssociated, hsource, Finset.card_erase_of_mem hmem, hassociated]
      · simp [Holders.apply, setAssociated, hsource, hassociated]
  | resetUnlessAssociated p =>
      simp only [Holders.apply]
      split <;> rfl
  | copyPayload p source =>
      simp only [Holders.apply]
      split <;> rfl
  | movePayload p source =>
      simp only [Holders.apply]
      split <;> rfl
  | begin p | finish p | wrap p | moveReceiver | resetPayload p => rfl

end Holders

/-- Whether the association of the operation was held. -/
def Event.held : Event Operation → Bool
  | .connected _ held => held
  | .started _ held => held
  | .stopped _ => true
  | .destroyedChild _ held => held

structure AccountsInv (s : State Sender Operation) : Prop where
  legal : Legal s.word
  sound : s.holders.Sound
  count : associations s.word = s.others + s.holders.associated.card
  safe : ∃ closed, (closed = true → isClosed s.word = true) ∧ s.running.Safe closed s.holders
  log : ∀ e ∈ s.log, e.held = true

namespace AccountsInv

theorem initial : AccountsInv (State.initial : State Sender Operation) := by
  have hpaired : (Holders.empty : Holders Sender Operation).Settled := by
    constructor
    · constructor <;> simp [Holders.empty]
    · simp [Holders.empty]
    · simp [Holders.empty]
  have hcount : associations 0 = 0 := by decide
  refine ⟨legal_zero, hpaired.toPaired.sound, ?_, ⟨false, by simp, hpaired⟩, ?_⟩
  · simpa [State.initial, Holders.empty] using hcount
  · simp [State.initial]

/-- Only the word changes, and a closed scope stays closed. -/
theorem setWord (hs : AccountsInv s) {word : Word} {others : ℕ} (hlegal : Legal word)
    (hcount : associations word = others + s.holders.associated.card)
    (hclosed : isClosed s.word = true → isClosed word = true) :
    AccountsInv { s with word := word, others := others } := by
  obtain ⟨closed, hword, hsafe⟩ := hs.safe
  exact ⟨hlegal, hs.sound, hcount, ⟨closed, fun h => hclosed (hword h), hsafe⟩, hs.log⟩

theorem wordAfter (hs : AccountsInv s) {i : Instruction Sender Operation}
    (hfits : s.holders.Fits (tryAssociate s.word).isSome i) :
    Legal (s.wordAfter i) ∧
      associations (s.wordAfter i) = s.others +
        (s.holders.apply (tryAssociate s.word).isSome i).associated.card ∧
      (isClosed s.word = true → isClosed (s.wordAfter i) = true) := by
  unfold State.wordAfter
  cases hasks : s.holders.asks i with
  | true =>
      rw [Holders.card_apply_of_asks hfits hasks, if_pos rfl]
      cases hword : tryAssociate s.word with
      | none => exact ⟨hs.legal, by simpa using hs.count, id⟩
      | some next =>
          obtain ⟨hlegal, hcount⟩ := tryAssociate_spec hs.legal hword
          refine ⟨hlegal, ?_, ?_⟩
          · have hbefore := hs.count
            simp
            omega
          · intro hclosed
            rw [tryAssociate_of_closed hclosed] at hword
            cases hword
  | false =>
      cases hreturns : s.holders.returns i with
      | true =>
          have hcard := Holders.card_apply_of_returns hfits hreturns
          have hbefore := hs.count
          obtain ⟨hlegal, hcount, hclosed⟩ := disassociated_spec hs.legal (by omega)
          refine ⟨hlegal, ?_, hclosed⟩
          simp
          omega
      | false =>
          rw [Holders.card_apply_of_neither hfits hasks hreturns]
          exact ⟨hs.legal, hs.count, id⟩

/-- The events of an instruction happen under the association. -/
theorem events_held (hs : AccountsInv s) {i : Instruction Sender Operation}
    (hfits : s.holders.Fits (tryAssociate s.word).isSome i) : ∀ e ∈ s.events i, e.held = true := by
  unfold State.events
  split
  · next o source =>
      split
      · next hsource =>
          have hheld := (hfits.2 hsource).2 o rfl
          simp [Event.held, hheld]
      · simp
  · next o =>
      split
      · next hloaded =>
          have hheld := hs.sound.children o hloaded
          simp [Event.held, hheld]
      · simp
  · simp

/-- An instruction is executed. -/
theorem perform (hs : AccountsInv s) {i : Instruction Sender Operation}
    {next : Program Sender Operation} {closed : Bool}
    (hclosed : closed = true → isClosed s.word = true)
    (hturn : ∀ accepted, (closed = true → accepted = false) →
      s.holders.Fits accepted i ∧ next.Safe closed (s.holders.apply accepted i)) :
    AccountsInv (s.perform i next) := by
  have hrefused : closed = true → (tryAssociate s.word).isSome = false := by
    intro h
    rw [tryAssociate_of_closed (hclosed h)]
    rfl
  obtain ⟨hfits, hnext⟩ := hturn _ hrefused
  obtain ⟨hlegal, hcount, hkeeps⟩ := hs.wordAfter hfits
  refine ⟨hlegal, hs.sound.apply hfits, hcount, ⟨closed, fun h => hkeeps (hclosed h), hnext⟩, ?_⟩
  intro e he
  rcases List.mem_append.mp he with he | he
  · exact hs.events_held hfits e he
  · exact hs.log e he

theorem settled (hs : AccountsInv s) (hdone : s.running = .done) : s.holders.Settled := by
  obtain ⟨closed, -, hsafe⟩ := hs.safe
  rw [hdone] at hsafe
  exact hsafe

/-- A call begins on an object that is not live. -/
theorem call (hs : AccountsInv s) {p : Object Sender Operation} {rejected : Bool}
    {program : Program Sender Operation} (hlive : p ∉ s.holders.live)
    (hsafe : program.Safe (isClosed s.word) (s.call p rejected program).holders) :
    AccountsInv (s.call p rejected program) := by
  have hnothing : p ∉ s.holders.associated ∧ p ∉ s.holders.loaded :=
    ⟨fun hmem => hlive (hs.sound.associated hmem), fun hmem => hlive (hs.sound.loaded hmem)⟩
  refine ⟨hs.legal, ⟨hs.sound.children, ?_, hs.sound.associated, hs.sound.loaded⟩, hs.count,
    ⟨_, id, hsafe⟩, hs.log⟩
  intro q hq
  cases rejected with
  | true =>
      rcases Finset.mem_insert.mp hq with rfl | hq
      · exact hnothing
      · exact hs.sound.rejected q hq
  | false => exact hs.sound.rejected q (Finset.mem_of_mem_erase hq)

/-- The objects are settled when a call begins. -/
theorem settled_call (hs : AccountsInv s) (hdone : s.running = .done)
    {p : Object Sender Operation} {rejected : Bool} {program : Program Sender Operation}
    (hlive : p ∉ s.holders.live) (hp : p ≠ .parameter) :
    (s.call p rejected program).holders.Settled := by
  have hsettled := hs.settled hdone
  refine ⟨⟨hsettled.paired, hsettled.live, ?_⟩, hsettled.parameter, ?_⟩
  · intro q hq
    cases rejected with
    | true =>
        rcases Finset.mem_insert.mp hq with rfl | hq
        · exact fun hmem => hlive (hsettled.live hmem)
        · exact hsettled.rejected q hq
    | false => exact hsettled.rejected q (Finset.mem_of_mem_erase hq)
  · cases rejected with
    | true => simp [State.call, Ne.symm hp, hsettled.kept]
    | false => simp [State.call, hsettled.kept]

theorem mem_rejected_call {p : Object Sender Operation} {rejected : Bool}
    {program : Program Sender Operation} :
    p ∈ (s.call p rejected program).holders.rejected ↔ rejected = true := by
  cases rejected <;> simp [State.call]

theorem step (hs : AccountsInv s) {a : Action Sender Operation} (hstep : step s a = some s') :
    AccountsInv s' := by
  cases a with
  | create i =>
      simp only [Associate.step, Option.ite_none_right_eq_some, Option.some.injEq] at hstep
      obtain ⟨⟨hdone, hlive⟩, rfl⟩ := hstep
      apply hs.call hlive
      exact Program.safe_create (hs.settled_call hdone hlive (by simp)) hlive mem_rejected_call.mp
  | copy i source =>
      simp only [Associate.step, Option.ite_none_right_eq_some, Option.some.injEq] at hstep
      obtain ⟨⟨hdone, hlive, -⟩, rfl⟩ := hstep
      apply hs.call hlive
      apply Program.safe_copy (hs.settled_call hdone hlive (by simp)) hlive
      intro hi
      have hcause := mem_rejected_call.mp hi
      simp only [Bool.or_eq_true, decide_eq_true_eq] at hcause
      exact hcause.imp_right fun hsource => (hs.sound.rejected _ hsource).1
  | move i source =>
      simp only [Associate.step, Option.ite_none_right_eq_some, Option.some.injEq] at hstep
      obtain ⟨⟨hdone, hlive, hsource⟩, rfl⟩ := hstep
      apply hs.call hlive
      apply Program.safe_move (hs.settled_call hdone hlive (by simp)) hlive hsource
      intro hi
      exact (hs.sound.rejected _ (of_decide_eq_true (mem_rejected_call.mp hi))).1
  | connect i o =>
      simp only [Associate.step, Option.ite_none_right_eq_some, Option.some.injEq] at hstep
      obtain ⟨⟨hdone, hlive, -, hsource⟩, rfl⟩ := hstep
      apply hs.call hlive
      apply Program.safe_connect (hs.settled_call hdone hlive (by simp)) hlive hsource
      intro ho
      exact (hs.sound.rejected _ (of_decide_eq_true (mem_rejected_call.mp ho))).1
  | connectCopy i o =>
      simp only [Associate.step, Option.ite_none_right_eq_some, Option.some.injEq] at hstep
      obtain ⟨⟨hdone, hlive, -, -⟩, rfl⟩ := hstep
      apply hs.call hlive
      apply Program.safe_connectCopy (hs.settled_call hdone hlive (by simp)) hlive
      intro ho
      have hcause := mem_rejected_call.mp ho
      simp only [Bool.or_eq_true, decide_eq_true_eq] at hcause
      exact hcause.imp_right fun hsource => (hs.sound.rejected _ hsource).1
  | start o =>
      simp only [Associate.step, Option.ite_none_right_eq_some, Option.some.injEq] at hstep
      obtain ⟨⟨-, -, -⟩, rfl⟩ := hstep
      refine ⟨hs.legal, hs.sound, hs.count, hs.safe, ?_⟩
      intro e he
      rcases List.mem_cons.mp he with rfl | he
      · split
        · next hloaded =>
            have hheld := hs.sound.children o hloaded
            simp [Event.held, hheld]
        · rfl
      · exact hs.log e he
  | destroySender i =>
      simp only [Associate.step, Option.ite_none_right_eq_some, Option.some.injEq] at hstep
      obtain ⟨⟨hdone, -⟩, rfl⟩ := hstep
      exact ⟨hs.legal, hs.sound, hs.count,
        ⟨_, id, Program.safe_destroy (hs.settled hdone).drop⟩, hs.log⟩
  | destroyOperation o =>
      simp only [Associate.step, Option.ite_none_right_eq_some, Option.some.injEq] at hstep
      obtain ⟨⟨hdone, -⟩, rfl⟩ := hstep
      exact ⟨hs.legal, hs.sound, hs.count,
        ⟨_, id, Program.safe_destroy (hs.settled hdone).drop⟩, hs.log⟩
  | run throws =>
      obtain ⟨closed, hclosed, hsafe⟩ := hs.safe
      unfold Associate.step at hstep
      cases hrunning : s.running with
      | done => simp [hrunning] at hstep
      | terminate => simp [hrunning] at hstep
      | act i next =>
          rw [hrunning] at hsafe
          simp only [hrunning, Option.ite_none_left_eq_some, Option.some.injEq] at hstep
          obtain ⟨-, rfl⟩ := hstep
          exact hs.perform hclosed hsafe
      | attempt i next unwind =>
          rw [hrunning] at hsafe
          simp only [hrunning] at hstep
          split at hstep
          · split at hstep
            · next hthrows =>
                cases hstep
                exact ⟨hs.legal, hs.sound, hs.count, ⟨closed, hclosed, hsafe.2 hthrows⟩, hs.log⟩
            · cases hstep
          · cases hstep
            exact hs.perform hclosed hsafe.1
  | close =>
      cases hstep
      obtain ⟨hlegal, hcount, hclosed⟩ := close_spec hs.legal
      exact hs.setWord hlegal (hcount.trans hs.count) fun _ => hclosed
  | join =>
      cases hstep
      obtain ⟨hlegal, hcount, hclosed⟩ := startJoin_spec hs.legal
      exact hs.setWord hlegal (hcount.trans hs.count) hclosed
  | associateOther =>
      simp only [Associate.step] at hstep
      split at hstep
      · next next hnext =>
          cases hstep
          obtain ⟨hlegal, hcount⟩ := tryAssociate_spec hs.legal hnext
          have hbefore := hs.count
          apply hs.setWord hlegal (by omega)
          intro hclosed
          rw [tryAssociate_of_closed hclosed] at hnext
          cases hnext
      · cases hstep
  | disassociateOther =>
      simp only [Associate.step] at hstep
      split at hstep
      · cases hstep
      · next others hothers =>
          cases hstep
          have hbefore := hs.count
          obtain ⟨hlegal, hcount, hclosed⟩ := disassociated_spec hs.legal (by omega)
          exact hs.setWord hlegal (by omega) hclosed

end AccountsInv

/-- What holds of the associated senders and operations. -/
structure Accounts (s : State Sender Operation) : Prop where
  /-- Between calls an object has a payload exactly with an association. -/
  paired : s.running = .done → .parameter ∉ s.holders.live ∧
    ∀ p ∈ s.holders.live, p ∈ s.holders.loaded ↔ p ∈ s.holders.associated
  /-- At every step of a call the scope counts the objects that hold one. -/
  count : associations s.word =
    s.others + (s.holders.live.filter fun p => p ∈ s.holders.associated).card
  child : ∀ o, .operation o ∈ s.holders.loaded → .operation o ∈ s.holders.associated
  /-- Children are connected, started and destroyed under the association. -/
  log : ∀ e ∈ s.log, e.held = true
  rejected : ∀ p ∈ s.holders.rejected, p ∉ s.holders.associated ∧ p ∉ s.holders.loaded
  /-- After `close()` a copy is rejected, also the one that a connection makes. -/
  copies : isClosed s.word = true →
    (∀ i source s', step s (.copy i source) = some s' → .sender i ∈ s'.holders.rejected) ∧
      ∀ i o s', step s (.connectCopy i o) = some s' → .operation o ∈ s'.holders.rejected
  connects : ∀ i o s', .sender i ∈ s.holders.rejected →
    step s (.connect i o) = some s' ∨ step s (.connectCopy i o) = some s' →
      .operation o ∈ s'.holders.rejected
  stops : ∀ o s', .operation o ∈ s.holders.rejected → step s (.start o) = some s' →
    s'.log = .stopped o :: s.log

theorem AccountsInv.accounts (hs : AccountsInv s) : Accounts s := by
  constructor
  · intro hdone
    have hsettled := hs.settled hdone
    refine ⟨hsettled.parameter, ?_⟩
    intro p _
    rw [hsettled.paired]
  · rw [Finset.filter_mem_eq_inter, Finset.inter_eq_right.mpr hs.sound.associated]
    exact hs.count
  · exact hs.sound.children
  · exact hs.log
  · exact hs.sound.rejected
  · intro hclosed
    constructor
    · intro i source s' hstep
      simp only [Associate.step, Option.ite_none_right_eq_some, Option.some.injEq] at hstep
      obtain ⟨-, rfl⟩ := hstep
      rw [mem_rejected_call, hclosed]
      rfl
    · intro i o s' hstep
      simp only [Associate.step, Option.ite_none_right_eq_some, Option.some.injEq] at hstep
      obtain ⟨-, rfl⟩ := hstep
      rw [mem_rejected_call, hclosed]
      rfl
  · rintro i o s' hi (hstep | hstep)
    · simp only [Associate.step, Option.ite_none_right_eq_some, Option.some.injEq] at hstep
      obtain ⟨-, rfl⟩ := hstep
      simp [mem_rejected_call, hi]
    · simp only [Associate.step, Option.ite_none_right_eq_some, Option.some.injEq] at hstep
      obtain ⟨-, rfl⟩ := hstep
      simp [mem_rejected_call, hi]
  · intro o s' ho hstep
    simp only [Associate.step, Option.ite_none_right_eq_some, Option.some.injEq] at hstep
    obtain ⟨-, rfl⟩ := hstep
    simp [State.start, (hs.sound.rejected _ ho).2]

/-- In every reachable state, also in the middle of a call, `associate` accounts
for every copy. -/
theorem accounts_of_reachable (hs : (machine Sender Operation).Reachable s) : Accounts s := by
  have hinv : AccountsInv s := by
    induction hs with
    | initial hinit =>
        rw [hinit]
        exact .initial
    | step _ hstep ih => exact ih.step hstep
  exact hinv.accounts

/-- A sender is created, copied by a connection and started; after `close()` it
is copied once more. -/
def copiedTwice : List (Action Bool Unit) :=
  List.flatten [[.create false], List.replicate 11 (.run false), [.connectCopy false ()],
    List.replicate 12 (.run false), [.start (), .close, .copy true false],
    List.replicate 3 (.run false)]

set_option maxRecDepth 4000 in
theorem accounts_copiedTwice :
    ∃ s : State Bool Unit, associations s.word = 2 ∧ .sender true ∈ s.holders.rejected ∧
      Accounts s := by
  have hreach := Machine.reachable_replay (M := machine Bool Unit)
    (rfl : State.initial = State.initial) copiedTwice (by decide)
  exact ⟨_, by decide, by decide, accounts_of_reachable hreach⟩

end Bexec.Associate
