import Bexec.Associate.Step

/-! # What the constructors and destructors leave

Between two calls the objects with a payload are those with an association. Each
constructor keeps this, also when it throws.
-/

namespace Bexec.Associate

variable {Sender Operation : Type} [DecidableEq Sender] [DecidableEq Operation]

namespace Holders

/-- At every time: children are covered by an association, and a rejected object
has nothing. -/
structure Sound (h : Holders Sender Operation) : Prop where
  children : ∀ o, .operation o ∈ h.loaded → .operation o ∈ h.associated
  rejected : ∀ p ∈ h.rejected, p ∉ h.associated ∧ p ∉ h.loaded
  associated : h.associated ⊆ h.live
  loaded : h.loaded ⊆ h.live

/-- When an instruction may be executed. -/
def Fits (h : Holders Sender Operation) (accepted : Bool) : Instruction Sender Operation → Prop
  | .begin p => p ∉ h.live
  | .finish p => p ∉ h.associated ∧ p ∉ h.loaded
  | .wrap p => p = .parameter ∧ p ∈ h.live ∧ p ∉ h.rejected
  | .tryAssociate p => p ∈ h.live ∧ p ∉ h.associated ∧ p ∉ h.rejected
  | .tryAssociateFrom p source => p ∈ h.live ∧ p ∉ h.associated ∧
      (source ∈ h.associated → accepted = true → p ∉ h.rejected)
  | .copyPayload p _ => p ∈ h.live
  | .movePayload p source => p ∈ h.live ∧ (source ∈ h.loaded → p ∉ h.rejected ∧
      ∀ o, p = .operation o → p ∈ h.associated)
  | .moveAssociation p source => p ∈ h.live ∧ p ∉ h.associated ∧ p ≠ source ∧
      (source ∈ h.associated → p ∉ h.rejected) ∧ ∀ o, source ≠ .operation o
  | .resetAssociation p => ∀ o, p = .operation o → p ∉ h.loaded
  | .resetUnlessAssociated _ | .moveReceiver | .resetPayload _ => True

namespace Sound

variable {h : Holders Sender Operation} {p : Object Sender Operation}

theorem begin (hs : h.Sound) (p : Object Sender Operation) :
    Sound { h with live := insert p h.live } := by
  refine ⟨hs.children, hs.rejected, ?_, ?_⟩
  · exact hs.associated.trans (Finset.subset_insert p _)
  · exact hs.loaded.trans (Finset.subset_insert p _)

theorem finish (hs : h.Sound) (hassociated : p ∉ h.associated) (hloaded : p ∉ h.loaded) :
    Sound { h with live := h.live.erase p } := by
  refine ⟨hs.children, hs.rejected, ?_, ?_⟩
  · exact Finset.subset_erase.mpr ⟨hs.associated, hassociated⟩
  · exact Finset.subset_erase.mpr ⟨hs.loaded, hloaded⟩

theorem load (hs : h.Sound) (hlive : p ∈ h.live) (hrejected : p ∉ h.rejected)
    (hchild : ∀ o, p = .operation o → p ∈ h.associated) : (h.setLoaded p true).Sound := by
  constructor
  · intro o hloaded
    rcases Finset.mem_insert.mp hloaded with heq | hloaded
    · rw [heq]
      exact hchild o heq.symm
    · exact hs.children o hloaded
  · intro q hq
    obtain ⟨hassociated, hloaded⟩ := hs.rejected q hq
    refine ⟨hassociated, ?_⟩
    intro hinsert
    rcases Finset.mem_insert.mp hinsert with rfl | hq'
    · exact hrejected hq
    · exact hloaded hq'
  · exact hs.associated
  · exact Finset.insert_subset hlive hs.loaded

theorem unload (hs : h.Sound) (p : Object Sender Operation) : (h.setLoaded p false).Sound := by
  constructor
  · intro o hloaded
    exact hs.children o (Finset.mem_of_mem_erase hloaded)
  · intro q hq
    obtain ⟨hassociated, hloaded⟩ := hs.rejected q hq
    refine ⟨hassociated, ?_⟩
    intro herase
    exact hloaded (Finset.mem_of_mem_erase herase)
  · exact hs.associated
  · exact (Finset.erase_subset p _).trans hs.loaded

theorem associate (hs : h.Sound) (hlive : p ∈ h.live) (hrejected : p ∉ h.rejected) :
    (h.setAssociated p true).Sound := by
  constructor
  · intro o hloaded
    exact Finset.mem_insert_of_mem (hs.children o hloaded)
  · intro q hq
    obtain ⟨hassociated, hloaded⟩ := hs.rejected q hq
    refine ⟨?_, hloaded⟩
    intro hinsert
    rcases Finset.mem_insert.mp hinsert with rfl | hq'
    · exact hrejected hq
    · exact hassociated hq'
  · exact Finset.insert_subset hlive hs.associated
  · exact hs.loaded

theorem disassociate (hs : h.Sound) (hchild : ∀ o, p = .operation o → p ∉ h.loaded) :
    (h.setAssociated p false).Sound := by
  constructor
  · intro o hloaded
    apply Finset.mem_erase_of_ne_of_mem
    · rintro rfl
      exact hchild o rfl hloaded
    · exact hs.children o hloaded
  · intro q hq
    obtain ⟨hassociated, hloaded⟩ := hs.rejected q hq
    refine ⟨?_, hloaded⟩
    intro herase
    exact hassociated (Finset.mem_of_mem_erase herase)
  · exact (Finset.erase_subset p _).trans hs.associated
  · exact hs.loaded

/-- An association is given away, but not the one of a child. -/
theorem moveAssociation (hs : h.Sound) {source : Object Sender Operation} (hlive : p ∈ h.live)
    (hassociated : p ∉ h.associated)
    (hrejected : source ∈ h.associated → p ∉ h.rejected) (hdata : ∀ o, source ≠ .operation o) :
    ((h.setAssociated p (source ∈ h.associated)).setAssociated source false).Sound := by
  have htarget : (h.setAssociated p (source ∈ h.associated)).Sound := by
    by_cases hsource : source ∈ h.associated
    · simpa [hsource] using hs.associate hlive (hrejected hsource)
    · have hsame : h.setAssociated p false = h := by
        simp [setAssociated, hassociated]
      simpa [hsource, hsame] using hs
  apply htarget.disassociate
  intro o heq
  exact absurd heq (hdata o)

theorem apply (hs : h.Sound) {accepted : Bool} {i : Instruction Sender Operation}
    (hfits : h.Fits accepted i) : (h.apply accepted i).Sound := by
  cases i with
  | begin p => exact hs.begin p
  | finish p => exact hs.finish hfits.1 hfits.2
  | wrap p =>
      obtain ⟨rfl, hlive, hrejected⟩ := hfits
      apply hs.load hlive hrejected
      intro o heq
      cases heq
  | tryAssociate p =>
      obtain ⟨hlive, hassociated, hrejected⟩ := hfits
      cases accepted with
      | true => exact hs.associate hlive hrejected
      | false => simpa [Holders.apply, setAssociated, hassociated] using hs
  | tryAssociateFrom p source =>
      obtain ⟨hlive, hassociated, hrejected⟩ := hfits
      cases haccepted : (decide (source ∈ h.associated) && accepted) with
      | true =>
          simp only [Bool.and_eq_true, decide_eq_true_eq] at haccepted
          simpa [Holders.apply, haccepted] using
            hs.associate hlive (hrejected haccepted.1 haccepted.2)
      | false => simpa [Holders.apply, haccepted, setAssociated, hassociated] using hs
  | resetUnlessAssociated p =>
      simp only [Holders.apply]
      split
      · exact hs
      · exact hs.unload p
  | copyPayload p source =>
      simp only [Holders.apply]
      split
      · next hassociated =>
          apply hs.load hfits
          · intro hrejected
            exact (hs.rejected p hrejected).1 hassociated
          · intro o _
            exact hassociated
      · exact hs
  | movePayload p source =>
      obtain ⟨hlive, hload⟩ := hfits
      simp only [Holders.apply]
      split
      · next hsource => exact hs.load hlive (hload hsource).1 (hload hsource).2
      · exact hs
  | moveAssociation p source =>
      obtain ⟨hlive, hassociated, -, hrejected, hdata⟩ := hfits
      exact hs.moveAssociation hlive hassociated hrejected hdata
  | moveReceiver => exact hs
  | resetPayload p => exact hs.unload p
  | resetAssociation p => exact hs.disassociate hfits

end Sound

/-- Between two calls: the objects with a payload are those with an association. -/
structure Paired (h : Holders Sender Operation) : Prop where
  paired : h.loaded = h.associated
  live : h.associated ⊆ h.live
  rejected : ∀ p ∈ h.rejected, p ∉ h.associated

/-- An object that was made with both or with nothing. -/
def put (p : Object Sender Operation) (full : Bool) (h : Holders Sender Operation) :
    Holders Sender Operation :=
  { (h.setAssociated p full).setLoaded p full with live := insert p h.live }

def drop (p : Object Sender Operation) (h : Holders Sender Operation) : Holders Sender Operation :=
  { (h.setAssociated p false).setLoaded p false with live := h.live.erase p }

/-- One object takes over what another one has. -/
def take (p source : Object Sender Operation) (h : Holders Sender Operation) :
    Holders Sender Operation :=
  ((h.put p (source ∈ h.associated)).setAssociated source false).setLoaded source false

namespace Paired

variable {h : Holders Sender Operation} {p source : Object Sender Operation}

omit [DecidableEq Sender] [DecidableEq Operation] in
theorem sound (hs : h.Paired) : h.Sound := by
  constructor
  · intro o hloaded
    rwa [hs.paired] at hloaded
  · intro q hq
    rw [hs.paired]
    exact ⟨hs.rejected q hq, hs.rejected q hq⟩
  · exact hs.live
  · rw [hs.paired]
    exact hs.live

theorem put (hs : h.Paired) {full : Bool} (hrejected : p ∈ h.rejected → full = false) :
    (h.put p full).Paired := by
  cases full with
  | true =>
      constructor
      · simp [Holders.put, setAssociated, setLoaded, hs.paired]
      · exact Finset.insert_subset_insert p hs.live
      · intro q hq hinsert
        rcases Finset.mem_insert.mp hinsert with rfl | hq'
        · cases hrejected hq
        · exact hs.rejected q hq hq'
  | false =>
      constructor
      · simp [Holders.put, setAssociated, setLoaded, hs.paired]
      · exact (Finset.erase_subset p _).trans (hs.live.trans (Finset.subset_insert p _))
      · intro q hq herase
        exact hs.rejected q hq (Finset.mem_of_mem_erase herase)

theorem drop (hs : h.Paired) (p : Object Sender Operation) : (h.drop p).Paired := by
  constructor
  · simp [Holders.drop, setAssociated, setLoaded, hs.paired]
  · exact Finset.erase_subset_erase p hs.live
  · intro q hq herase
    exact hs.rejected q hq (Finset.mem_of_mem_erase herase)

theorem take (hs : h.Paired) (hrejected : p ∈ h.rejected → source ∉ h.associated) :
    (h.take p source).Paired := by
  have hput : (h.put p (source ∈ h.associated)).Paired := by
    apply hs.put
    intro hp
    simp [hrejected hp]
  constructor
  · simp [Holders.take, setAssociated, setLoaded, hput.paired]
  · exact (Finset.erase_subset source _).trans hput.live
  · intro q hq herase
    exact hput.rejected q hq (Finset.mem_of_mem_erase herase)

omit [DecidableEq Sender] [DecidableEq Operation] in
theorem notMem (hs : h.Paired) (hlive : p ∉ h.live) : p ∉ h.associated ∧ p ∉ h.loaded := by
  have hassociated : p ∉ h.associated := fun hmem => hlive (hs.live hmem)
  rw [hs.paired]
  exact ⟨hassociated, hassociated⟩

end Paired

/-- Between two calls no temporary is left. -/
structure Settled (h : Holders Sender Operation) : Prop extends Paired h where
  parameter : .parameter ∉ h.live
  kept : .parameter ∉ h.rejected

theorem Settled.drop {h : Holders Sender Operation} {p : Object Sender Operation}
    (hs : h.Settled) : (h.drop p).Settled :=
  ⟨hs.toPaired.drop p, fun hmem => hs.parameter (Finset.mem_of_mem_erase hmem), hs.kept⟩

theorem Paired.settled {h : Holders Sender Operation} (hs : h.Paired)
    (hkept : .parameter ∉ h.rejected) : (h.drop .parameter).Settled :=
  ⟨hs.drop _, Finset.notMem_erase _ _, hkept⟩

end Holders

open Holders

namespace Program

/-- Every instruction may be executed when its turn comes, whatever throws and
whatever the scope answers, which refuses once it is closed. -/
def Safe (closed : Bool) : Program Sender Operation → Holders Sender Operation → Prop
  | .done, h => h.Settled
  | .terminate, _ => True
  | .act i next, h => ∀ accepted, (closed = true → accepted = false) →
      h.Fits accepted i ∧ next.Safe closed (h.apply accepted i)
  | .attempt i next unwind, h => (∀ accepted, (closed = true → accepted = false) →
      h.Fits accepted i ∧ next.Safe closed (h.apply accepted i)) ∧
        (h.throws i = true → unwind.Safe closed h)

variable {closed : Bool} {h : Holders Sender Operation} {p source : Object Sender Operation}
  {next unwind : Program Sender Operation}

theorem safe_destroy (hnext : next.Safe closed (h.drop p)) : (destroy p next).Safe closed h := by
  intro accepted _
  refine ⟨trivial, ?_⟩
  intro accepted _
  refine ⟨?_, ?_⟩
  · intro o _
    simp [Holders.apply, setLoaded]
  · intro accepted _
    refine ⟨?_, hnext⟩
    simp [Fits, Holders.apply, setLoaded, setAssociated]

/-- The object is gone again when its constructor throws. -/
theorem safe_finish (hlive : p ∉ h.live) (hpaired : h.Paired) (hunwind : unwind.Safe closed h) :
    (Program.act (.finish p) unwind).Safe closed { h with live := insert p h.live } := by
  intro accepted _
  refine ⟨hpaired.notMem hlive, ?_⟩
  simpa [Holders.apply, Finset.erase_insert hlive] using hunwind

theorem safe_createData (hpaired : h.Paired) (hlive : .parameter ∉ h.live)
    (hrejected : .parameter ∉ h.rejected)
    (hnext : ∀ full, (closed = true → full = false) → next.Safe closed (h.put .parameter full))
    (hunwind : unwind.Safe closed h) : (createData .parameter next unwind).Safe closed h := by
  obtain ⟨hassociated, -⟩ := hpaired.notMem hlive
  intro accepted _
  refine ⟨hlive, ?_, ?_⟩
  · intro accepted _
    refine ⟨⟨rfl, Finset.mem_insert_self _ _, hrejected⟩, ?_⟩
    intro full hfull
    refine ⟨⟨Finset.mem_insert_self _ _, hassociated, hrejected⟩, ?_⟩
    intro accepted _
    refine ⟨trivial, ?_⟩
    have hput := hnext full hfull
    cases full with
    | true => simpa [Holders.apply, Holders.put, setLoaded, setAssociated] using hput
    | false => simpa [Holders.apply, Holders.put, setLoaded, setAssociated] using hput
  · intro _
    exact safe_finish hlive hpaired hunwind

/-- The second half of the copy constructor, after the scope's answer. -/
theorem safe_copyPayload (hpaired : h.Paired) (hlive : p ∉ h.live) {full : Bool}
    (hnext : next.Safe closed (h.put p full)) (hunwind : unwind.Safe closed h) :
    (Program.attempt (.copyPayload p source) next
      (.act (.resetAssociation p) <| .act (.finish p) unwind)).Safe closed
        (setAssociated p full { h with live := insert p h.live }) := by
  obtain ⟨hassociated, hloaded⟩ := hpaired.notMem hlive
  cases full with
  | true =>
      constructor
      · intro accepted _
        refine ⟨Finset.mem_insert_self _ _, ?_⟩
        simpa [Holders.apply, Holders.put, setLoaded, setAssociated] using hnext
      · intro _ accepted _
        refine ⟨fun _ _ => hloaded, ?_⟩
        have hundone := safe_finish hlive hpaired hunwind
        simpa [Holders.apply, setAssociated, Finset.erase_insert hassociated] using hundone
  | false =>
      constructor
      · intro accepted _
        refine ⟨Finset.mem_insert_self _ _, ?_⟩
        simpa [Holders.apply, Holders.put, setLoaded, setAssociated,
          Finset.erase_eq_of_notMem hloaded] using hnext
      · intro hthrows
        simp [Holders.throws, setAssociated] at hthrows

theorem safe_copyData (hpaired : h.Paired) (hlive : p ∉ h.live)
    (hrejected : p ∈ h.rejected → closed = true ∨ source ∉ h.associated)
    (hnext : ∀ full, (closed = true ∨ source ∉ h.associated → full = false) →
      next.Safe closed (h.put p full))
    (hunwind : unwind.Safe closed h) : (copyData p source next unwind).Safe closed h := by
  intro accepted _
  refine ⟨hlive, ?_⟩
  intro accepted hclosed
  have hrefused : closed = true ∨ source ∉ h.associated →
      (decide (source ∈ h.associated) && accepted) = false := by
    rintro (hclosed' | hsource)
    · simp [hclosed hclosed']
    · simp [hsource]
  refine ⟨⟨Finset.mem_insert_self _ _, (hpaired.notMem hlive).1, ?_⟩,
    safe_copyPayload hpaired hlive (hnext _ hrefused) hunwind⟩
  intro hsource haccepted hp
  have hsource' : source ∈ h.associated := hsource
  have hfull := hrefused (hrejected hp)
  simp [hsource', haccepted] at hfull

theorem safe_moveData (hpaired : h.Paired) (hlive : p ∉ h.live) (hsource : source ∈ h.live)
    (hdata : ∀ o, p ≠ .operation o) (hdata' : ∀ o, source ≠ .operation o)
    (hrejected : p ∈ h.rejected → source ∉ h.associated)
    (hnext : next.Safe closed (h.take p source)) (hunwind : unwind.Safe closed h) :
    (moveData p source next unwind).Safe closed h := by
  obtain ⟨hassociated, hloaded⟩ := hpaired.notMem hlive
  have hne : p ≠ source := by
    rintro rfl
    exact hlive hsource
  intro accepted _
  refine ⟨hlive, ?_, ?_⟩
  · intro accepted _
    refine ⟨⟨Finset.mem_insert_self _ _, ?_⟩, ?_⟩
    · intro hmem
      have hmem' : source ∈ h.associated := by
        rw [← hpaired.paired]
        exact hmem
      refine ⟨fun hp => hrejected hp hmem', ?_⟩
      intro o heq
      exact absurd heq (hdata o)
    · by_cases hmem : source ∈ h.associated
      · have hmem' : source ∈ h.loaded := by
          rw [hpaired.paired]
          exact hmem
        simp only [Holders.apply, hmem', if_true]
        intro accepted _
        refine ⟨⟨Finset.mem_insert_self _ _, hassociated, hne, fun hs hp => hrejected hp hs, hdata'⟩, ?_⟩
        intro accepted _
        refine ⟨trivial, ?_⟩
        simpa [Holders.apply, take, Holders.put, setLoaded, setAssociated, hmem] using hnext
      · have hmem' : source ∉ h.loaded := by
          rw [hpaired.paired]
          exact hmem
        simp only [Holders.apply, hmem', if_false]
        intro accepted _
        refine ⟨⟨Finset.mem_insert_self _ _, hassociated, hne, fun hs hp => hrejected hp hs, hdata'⟩, ?_⟩
        intro accepted _
        refine ⟨trivial, ?_⟩
        simpa [Holders.apply, take, Holders.put, setLoaded, setAssociated, hmem,
          Finset.erase_eq_of_notMem hloaded] using hnext
  · intro _
    exact safe_finish hlive hpaired hunwind

/-- The association moved to an operation that has no child yet. -/
def takeAssociation (o : Operation) (h : Holders Sender Operation) : Holders Sender Operation :=
  (setAssociated (.operation o) (.parameter ∈ h.associated)
    { h with live := insert (.operation o) h.live }).setAssociated .parameter false

/-- The operation gives the association back when it cannot connect its child. -/
theorem safe_destroyMembers {o : Operation} (hpaired : h.Paired) (hkept : .parameter ∉ h.rejected)
    (hlive : .operation o ∉ h.live) :
    (createOperation.destroyMembers o : Program Sender Operation).Safe closed
      (takeAssociation o h) := by
  obtain ⟨hassociated, hloaded⟩ := hpaired.notMem hlive
  intro accepted _
  refine ⟨fun _ _ => hloaded, ?_⟩
  intro accepted _
  refine ⟨⟨Finset.notMem_erase _ _, hloaded⟩, ?_⟩
  apply safe_destroy
  have hdropped := hpaired.settled hkept
  change Settled _
  convert hdropped using 1
  ext q
  · simp [Holders.drop, takeAssociation, Holders.apply, setAssociated, setLoaded,
      Finset.erase_insert hlive]
  · by_cases hparameter : .parameter ∈ h.associated
    · simp [Holders.drop, takeAssociation, Holders.apply, setAssociated, setLoaded, hparameter]
      grind
    · simp [Holders.drop, takeAssociation, Holders.apply, setAssociated, setLoaded, hparameter]
      grind
  · rfl
  · rfl

/-- The constructor of an operation, from data that has both or nothing. -/
theorem safe_createOperation {o : Operation} (hpaired : h.Paired) (hkept : .parameter ∉ h.rejected)
    (hlive : .operation o ∉ h.live)
    (hrejected : .operation o ∈ h.rejected → .parameter ∉ h.associated) :
    (createOperation o : Program Sender Operation).Safe closed h := by
  obtain ⟨hassociated, hloaded⟩ := hpaired.notMem hlive
  intro accepted _
  refine ⟨hlive, ?_⟩
  intro accepted _
  refine ⟨⟨Finset.mem_insert_self _ _, hassociated, by simp, fun hp ho => hrejected ho hp,
    by simp⟩, ?_⟩
  constructor
  · intro accepted _
    refine ⟨trivial, ?_⟩
    constructor
    · intro accepted _
      refine ⟨⟨Finset.mem_insert_self _ _, ?_⟩, ?_⟩
      · intro hp
        have hp' : .parameter ∈ h.associated := by
          rw [← hpaired.paired]
          exact hp
        refine ⟨fun ho => hrejected ho hp', ?_⟩
        intro o' heq
        simp [Holders.apply, setAssociated, hp']
      · intro accepted _
        refine ⟨trivial, ?_⟩
        apply safe_destroy
        have htaken := (hpaired.take hrejected).settled hkept
        change Settled _
        convert htaken using 1
        have hparameter : .parameter ∈ h.loaded ↔ .parameter ∈ h.associated := by
          rw [hpaired.paired]
        by_cases hmem : .parameter ∈ h.associated
        · ext q <;>
            simp [Holders.drop, Holders.take, Holders.put, Holders.apply, setAssociated, setLoaded,
              hmem, hparameter]
        · ext q <;>
            simp [Holders.drop, Holders.take, Holders.put, Holders.apply, setAssociated, setLoaded,
              hmem, hparameter]
          rintro hq rfl
          exact hloaded hq
    · intro _
      exact safe_destroyMembers hpaired hkept hlive
  · intro _
    exact safe_destroyMembers hpaired hkept hlive

/-! ## The calls -/

theorem safe_destroyParameter (hpaired : h.Paired) (hkept : .parameter ∉ h.rejected) :
    (destroy .parameter .done : Program Sender Operation).Safe closed h :=
  safe_destroy (hpaired.settled hkept)

theorem safe_create {i : Sender} (hs : h.Settled) (hlive : .sender i ∉ h.live)
    (hrejected : .sender i ∈ h.rejected → closed = true) :
    (create i : Program Sender Operation).Safe closed h := by
  apply safe_createData hs.toPaired hs.parameter hs.kept
  · intro full hfull
    have hput : (h.put .parameter full).Paired := hs.toPaired.put fun hp => absurd hp hs.kept
    have hrefused : .sender i ∈ h.rejected → .parameter ∉ (h.put .parameter full).associated := by
      intro hi
      rw [hfull (hrejected hi)]
      exact Finset.notMem_erase _ _
    apply safe_moveData hput
    · simpa [put, setAssociated, setLoaded] using hlive
    · exact Finset.mem_insert_self _ _
    · simp
    · simp
    · exact hrefused
    · exact safe_destroyParameter (hput.take hrefused) hs.kept
    · exact safe_destroyParameter hput hs.kept
  · exact hs

theorem safe_copy {i source : Sender} (hs : h.Settled) (hlive : .sender i ∉ h.live)
    (hrejected : .sender i ∈ h.rejected → closed = true ∨ .sender source ∉ h.associated) :
    (copy i source : Program Sender Operation).Safe closed h := by
  apply safe_copyData hs.toPaired hlive hrejected
  · intro full hfull
    refine ⟨hs.toPaired.put fun hi => hfull (hrejected hi), ?_, hs.kept⟩
    simpa [put, setAssociated, setLoaded] using hs.parameter
  · exact hs

theorem safe_move {i source : Sender} (hs : h.Settled) (hlive : .sender i ∉ h.live)
    (hsource : .sender source ∈ h.live)
    (hrejected : .sender i ∈ h.rejected → .sender source ∉ h.associated) :
    (move i source : Program Sender Operation).Safe closed h := by
  apply safe_moveData hs.toPaired hlive hsource (by simp) (by simp) hrejected
  · refine ⟨hs.toPaired.take hrejected, ?_, hs.kept⟩
    simpa [take, put, setAssociated, setLoaded] using hs.parameter
  · trivial

/-- The rest of `connect`, once `data` was built. -/
theorem safe_passReceiver {o : Operation} (hpaired : h.Paired) (hkept : .parameter ∉ h.rejected)
    (hlive : .operation o ∉ h.live)
    (hrejected : .operation o ∈ h.rejected → .parameter ∉ h.associated) :
    (passReceiver (createOperation o) : Program Sender Operation).Safe closed h := by
  constructor
  · intro accepted _
    exact ⟨trivial, safe_createOperation hpaired hkept hlive hrejected⟩
  · intro _
    exact safe_destroyParameter hpaired hkept

theorem safe_connect {i : Sender} {o : Operation} (hs : h.Settled)
    (hlive : .operation o ∉ h.live) (hsource : .sender i ∈ h.live)
    (hrejected : .operation o ∈ h.rejected → .sender i ∉ h.associated) :
    (connect i o : Program Sender Operation).Safe closed h := by
  have hkept : .parameter ∈ h.rejected → .sender i ∉ h.associated := fun hp => absurd hp hs.kept
  apply safe_moveData hs.toPaired hs.parameter hsource (by simp) (by simp) hkept
  · apply safe_passReceiver (hs.toPaired.take hkept) hs.kept
    · simpa [take, put, setAssociated, setLoaded] using hlive
    · intro ho
      have hnone := hrejected ho
      simp [take, put, setAssociated, setLoaded, hnone]
  · exact hs

theorem safe_connectCopy {i : Sender} {o : Operation} (hs : h.Settled)
    (hlive : .operation o ∉ h.live)
    (hrejected : .operation o ∈ h.rejected → closed = true ∨ .sender i ∉ h.associated) :
    (connectCopy i o : Program Sender Operation).Safe closed h := by
  have hkept : .parameter ∈ h.rejected → closed = true ∨ .sender i ∉ h.associated :=
    fun hp => absurd hp hs.kept
  apply safe_copyData hs.toPaired hs.parameter hkept
  · intro full hfull
    apply safe_passReceiver (hs.toPaired.put fun hp => absurd hp hs.kept) hs.kept
    · simpa [put, setAssociated, setLoaded] using hlive
    · intro ho
      simp [put, setAssociated, setLoaded, hfull (hrejected ho)]
  · exact hs

end Program

end Bexec.Associate
