import Bexec.SpawnFuture.Lifetime
import Bexec.SpawnFuture.Stacks

/-!
# Runs of `spawn_future`

In every run the receiver is completed at most once, with what the child sent or
with stopped after a cancellation. The state is destroyed in time when the child
avoids the two wrong orders, and only then.
-/

namespace Bexec.SpawnFuture

open Foundation StopToken

variable {Thread Record Value Error : Type} {op op' : Operation Thread Value Error} {p : Party}

/-- The consumer slot is filled only while somebody is to empty it, and the
association is held by a state that is there. -/
structure SlotInv (op : Operation Thread Value Error) : Prop where
  waits : op.state.consumer = true → op.state.stopped = false ∧
    (op.state.completed = true → op.state.cancelling = true)
  engaged : op.state.association = true → op.destroyed = 0

namespace SlotInv

theorem initial : SlotInv (.initial : Operation Thread Value Error) := by
  constructor <;> simp [Operation.initial, FutureState.initial]

/-- A party leaves a section. -/
theorem leaves {exit : Exit} {state : FutureState Value Error} (h : SlotInv op)
    (hassociation : state.association = op.state.association)
    (hwaits : state.consumer = true → state.stopped = false ∧
      (state.completed = true → state.cancelling = true)) :
    SlotInv (op.exit p (exit, state)) := by
  refine ⟨hwaits, fun hengaged => h.engaged ?_⟩
  rw [← hassociation]
  exact hengaged

theorem complete (h : SlotInv op) (hplaces : Places op) :
    SlotInv (op.exit .child op.state.complete) := by
  unfold FutureState.complete
  split_ifs with hcancelling hdestroy hconsumer
  · exact h.leaves rfl fun hconsumer => ⟨(h.waits hconsumer).1, fun _ => hcancelling⟩
  · refine h.leaves rfl fun hconsumer => ?_
    -- a future with a consumer is started, so it is not abandoned
    have hbegun := (hplaces.consumer hconsumer).1
    rw [(h.waits hconsumer).1, Bool.false_or] at hdestroy
    rw [(hplaces.abandoned hdestroy).1] at hbegun
    cases hbegun
  · exact h.leaves rfl (by simp)
  · exact h.leaves rfl fun hwaits => absurd hwaits hconsumer

theorem finishCancellation (h : SlotInv op) (hplaces : Places op) :
    SlotInv (op.exit .cancel op.state.finishCancellation) := by
  unfold FutureState.finishCancellation
  split_ifs with hcancelling hcompleted hdestroy hconsumer hconsumer
  · exact h.leaves rfl h.waits
  · obtain ⟨hstopped, habandoned⟩ := hplaces.of_cancelling (by simpa using hcancelling)
    simp [hstopped, habandoned] at hdestroy
  · exact h.leaves rfl (by simp)
  · exact h.leaves rfl fun hwaits => absurd hwaits hconsumer
  · exact h.leaves rfl (by simp)
  · exact h.leaves rfl fun hwaits => absurd hwaits hconsumer

theorem locked (h : SlotInv op) (hplaces : Places op) : SlotInv (op.exit p (op.locked p)) := by
  cases p with
  | child => exact h.complete hplaces
  | cancel =>
      simp only [Operation.locked, FutureState.tryCancel]
      split
      · exact h.leaves rfl h.waits
      · exact h.leaves rfl fun hconsumer => ⟨(h.waits hconsumer).1, fun _ => rfl⟩
  | owner =>
      simp only [Operation.locked, FutureState.consume, FutureState.abandon]
      split_ifs with hbegun hcompleted hstopped hdone
      · exact h.leaves rfl h.waits
      · exact h.leaves rfl h.waits
      · exact h.leaves rfl fun _ => ⟨by simpa using hstopped, fun hdone => absurd hdone hcompleted⟩
      · exact h.leaves rfl h.waits
      · exact h.leaves rfl h.waits

theorem move [DecidableEq Thread] {t : Thread} (h : SlotInv op) (hinv : OpInv op)
    (hop : Move t op op') : SlotInv op' := by
  cases hop with
  | spawn hfuture =>
      have hnot : op.state.completed = false := by
        rw [hinv.places.completed, hinv.places.unspawned.mp hfuture]
        rfl
      exact ⟨h.waits, fun _ => (hinv.duties.early hnot).1⟩
  | enter hop => cases hop <;> exact ⟨h.waits, h.engaged⟩
  | progress hop hclear =>
      cases hop with
      | lock hpc => exact h.locked hinv.places
      | finish hpc =>
          obtain rfl := hinv.places.cancel_of_finish hpc
          exact h.finishCancellation hinv.places
      | destroy hpc => exact ⟨h.waits, by simp [Operation.setPc]⟩
      | _ => exact ⟨h.waits, h.engaged⟩
  | _ => exact ⟨h.waits, h.engaged⟩

end SlotInv

variable [DecidableEq Thread] [Fintype Thread]

/-- What holds in every run. -/
structure FutureInv (s : State Thread Record Value Error) : Prop where
  op : OpInv s.op
  slot : SlotInv s.op
  frames : StackInv s.op s.source.calls

variable [DecidableEq Record] {s s' : State Thread Record Value Error} {t : Thread}

omit [DecidableEq Record] in
theorem FutureInv.effect (h : FutureInv s) (heffect : Effect s s' t) : FutureInv s' := by
  have hmove := heffect.move h.op h.frames
  exact ⟨h.op.move hmove, h.slot.move h.op hmove, heffect.stackInv h.op.places h.frames⟩

omit [DecidableEq Thread] [DecidableEq Record] in
theorem FutureInv.initial : FutureInv (.initial : State Thread Record Value Error) where
  op := ⟨.initial, .initial, .initial, .initial⟩
  slot := .initial
  frames := .initial

theorem futureInv_of_reachable (hs : (machine Thread Record Value Error).Reachable s) :
    FutureInv s := by
  refine hs.invariant (fun s hinit => ?_) fun s a s' _ h hstep => h.effect (step_effect hstep)
  cases hinit
  exact .initial

/-- Every party that has been set off has returned. -/
def Operation.Settled (op : Operation Thread Value Error) : Prop :=
  op.pc .child = .done ∧ op.pc .owner = .done ∧ (op.pc .cancel = .idle ∨ op.pc .cancel = .done)

omit [DecidableEq Thread] [Fintype Thread] in
theorem Operation.Settled.count (h : op.Settled) {kind : Pc → Bool} (hidle : kind .idle = false)
    (hdone : kind .done = false) : op.count kind = 0 := by
  obtain ⟨hchild, howner, hcancel | hcancel⟩ := h <;>
    simp [Operation.count, hchild, howner, hcancel, hidle, hdone]

omit [DecidableEq Thread] [Fintype Thread] in
theorem Operation.Settled.facts (h : op.Settled) (hplaces : Places op) :
    op.state.completed = true ∧ op.state.cancelling = false ∧ (op.pc .owner).before = false := by
  rw [hplaces.completed, hplaces.cancelling, h.1, h.2.1]
  refine ⟨rfl, ?_, rfl⟩
  rcases h.2.2 with hcancel | hcancel <;> rw [hcancel] <;> rfl

/-- What the child sent, and what the copies of its arguments threw if there was
anything to copy, become what the receiver is completed with. -/
inductive Passes : Completion Value Error → Option Error → Completion Value Error → Prop
  | copied {original : Completion Value Error} : Passes original none original
  | noValue {thrown : Option Error} : Passes (.value []) thrown (.value [])
  | noArgument {thrown : Option Error} : Passes .stopped thrown .stopped
  | valueThrows {values : List Value} {failure : Error} (hvalues : values ≠ []) :
      Passes (.value values) (some failure) (.error failure)
  | errorThrows {error failure : Error} : Passes (.error error) (some failure) (.error failure)

theorem passes_store (original : Completion Value Error) (thrown : Option Error) :
    Passes original thrown (original.store thrown) := by
  cases original with
  | value values =>
      cases values with
      | nil => exact .noValue
      | cons v values =>
          cases thrown with
          | none => exact .copied
          | some failure => exact .valueThrows (List.cons_ne_nil v values)
  | error error =>
      cases thrown with
      | none => exact .copied
      | some failure => exact .errorThrows
  | stopped => exact .noArgument

/-- In every state the receiver has been completed at most once, after its stop
callback has been destroyed, with what the child sent or with stopped after a
cancellation; when every party has returned it has been completed. -/
theorem receiver_completion (hs : (machine Thread Record Value Error).Reachable s) :
    s.op.signals.length ≤ 1 ∧
      (∀ completion ∈ s.op.signals, s.op.onStop = .reset ∧
        ((∃ original thrown, s.op.sent = some (original, thrown) ∧
            Passes original thrown completion) ∨
          completion = .stopped ∧ s.op.state.stopped = true ∧ s.op.pc .cancel ≠ .idle)) ∧
      (s.op.accepted = false → ∀ completion ∈ s.op.signals, completion = .stopped) ∧
      (s.op.Settled → s.op.begun = true → s.op.signals.length = 1) := by
  obtain ⟨⟨hplaces, hduties, hcallback, houtcome⟩, hslot, -⟩ := futureInv_of_reachable hs
  have hright := hduties.right
  have hbegun := Bool.toNat_le s.op.begun
  refine ⟨by omega, fun completion hmem => ⟨?_, ?_⟩, fun hrejected completion hmem => ?_,
    fun hsettled hbegun => ?_⟩
  · exact hcallback.signalled (List.ne_nil_of_mem hmem)
  · rcases houtcome.signals completion hmem with hresult | ⟨rfl, hstopped⟩
    · obtain ⟨original, thrown, hsent, rfl⟩ := houtcome.sent completion hresult
      exact .inl ⟨original, thrown, hsent, passes_store original thrown⟩
    · refine .inr ⟨rfl, hstopped, fun hidle => ?_⟩
      have hcancel := hplaces.stopped hstopped
      simp [hidle, Pc.stops] at hcancel
  · rcases houtcome.signals completion hmem with hresult | ⟨rfl, -⟩
    · obtain ⟨original, thrown, hsent, rfl⟩ := houtcome.sent completion hresult
      rcases houtcome.rejected hrejected with hidle | hstopped
      · have hstored := hplaces.result
        rw [hresult, hidle] at hstored
        cases hstored
      · rw [hsent] at hstopped
        cases hstopped
        rfl
    · rfl
  · obtain ⟨hcompleted, hcancelling, hbefore⟩ := hsettled.facts hplaces
    have hconsumer : s.op.state.consumer = false := by
      by_contra hconsumer
      have hwaits := (hslot.waits (by simpa using hconsumer)).2 hcompleted
      rw [hcancelling] at hwaits
      cases hwaits
    rw [hbegun, hbefore, hconsumer, hsettled.count rfl rfl, hsettled.count rfl rfl] at hright
    simpa using hright

/-- The receiver asks for a stop, is completed with stopped, and the child sends a value
afterwards. -/
def cancelledRun : List (Action Unit Unit Nat Nat) :=
  List.flatten
    [[.spawn () true, .returnSpawn (), .start (), .register () false],
      List.replicate 2 (.run () false), [.stop ()], List.replicate 10 (.run () false),
      [.returnHandler (), .run () false, .complete () (.value [7]) none],
      List.replicate 5 (.run () false)]

set_option maxRecDepth 4000 in
theorem receiver_completion_cancelled : ∃ s : State Unit Unit Nat Nat,
    s.op.sent = some (.value [7], none) ∧ s.op.signals = [.stopped] ∧ s.op.onStop = .reset := by
  have hreach := Machine.reachable_replay (M := machine Unit Unit Nat Nat)
    (rfl : State.initial = State.initial) cancelledRun (by decide)
  refine ⟨_, ?_, ?_, ((receiver_completion hreach).2.1 .stopped ?_).1⟩ <;> decide

/-! ## The lifetime of the state -/

/-- The call still reads or writes the state or the stop source in it. -/
def Call.Touches (op : Operation Thread Value Error) : Call Record Code → Prop
  | .constructing _ inCallback => inCallback = false
  | .destroying _ => True
  | .requesting => True
  | .client .spawner => False
  | .client (.party p) => (op.pc p).touches = true

/-- No access to the state is pending, and none can be started any more. -/
structure Quiet (s : State Thread Record Value Error) : Prop where
  calls : ∀ t, ∀ call ∈ s.source.calls t, ¬ Call.Touches s.op call
  retired : Retired s.op

/-- A child that enters the section of `complete` does not find `abandon` in
`request_stop`, nor a finished cancellation and an owner before `consume`. -/
def SafeCompletion (s : State Thread Record Value Error) (t : Thread) : Prop :=
  ∀ rest, s.source.calls t = .client (.party .child) :: rest → s.op.pc .child = .lock →
    s.op.pc .owner ≠ .request ∧ s.op.pc .owner ≠ .requesting ∧
      (s.op.state.stopped = true → (s.op.pc .owner).before = false)

omit [DecidableEq Thread] [Fintype Thread] [DecidableEq Record] in
theorem safeCompletion_iff : SafeCompletion s t ↔
    (match s.source.calls t with
      | .client (.party .child) :: _ =>
          !(s.op.pc .child = .lock && (s.op.pc .owner = .request || s.op.pc .owner = .requesting ||
            s.op.state.stopped && (s.op.pc .owner).before))
      | _ => true) = true := by
  unfold SafeCompletion
  split
  next rest hstack =>
    simp only [hstack, List.cons.injEq, true_and, forall_eq', Bool.not_eq_true', Bool.and_eq_false_iff,
      decide_eq_false_iff_not, Bool.or_eq_false_iff]
    cases s.op.state.stopped <;> simp [imp_iff_not_or, and_assoc]
  next hother =>
    simp only [iff_true]
    intro rest hstack
    exact absurd hstack (hother rest)

instance (s : State Thread Record Value Error) (t : Thread) : Decidable (SafeCompletion s t) :=
  decidable_of_iff _ safeCompletion_iff.symm

omit [Fintype Thread] [DecidableEq Record] in
/-- Only a step of the child in the section of `complete` sets `completed_`. -/
theorem Effect.completes (heffect : Effect s s' t) (hbefore : s.op.state.completed = false)
    (hafter : s'.op.state.completed = true) :
    ∃ rest, s.source.calls t = .client (.party .child) :: rest ∧ s.op.pc .child = .lock := by
  have hsame : s'.op.state.completed = s.op.state.completed → False := by
    intro heq
    rw [heq, hbefore] at hafter
    cases hafter
  cases heffect with
  | progress p rest hstack hop hcalls =>
      obtain ⟨rfl, hpc, -⟩ := hop.completes hbefore hafter
      exact ⟨rest, hstack, hpc⟩
  | enter p huser hop hown hcalls =>
      refine (hsame ?_).elim
      generalize s'.op = op' at hop
      cases hop <;> rfl
  | call _ _ _ _ hop | inside _ _ _ _ _ _ hop | returns _ _ _ _ _ hop | resume _ _ _ _ hop
  | spawn _ _ hop | reject _ _ hop | hold _ _ hop | registerLate _ _ _ hop | request _ _ _ _ hop
  | leave _ _ _ _ hop =>
      refine (hsame ?_).elim
      first | rw [hop]; rfl | rw [hop]

omit [DecidableEq Record] in
theorem LifetimeInv.effect (h : LifetimeInv s.op) (hinv : FutureInv s) (heffect : Effect s s' t)
    (hsafe : SafeCompletion s t) : LifetimeInv s'.op := by
  refine h.move hinv.op (heffect.move hinv.op hinv.frames) fun hbefore hafter => ?_
  obtain ⟨rest, hstack, hpc⟩ := heffect.completes hbefore hafter
  exact hsafe rest hstack hpc

omit [DecidableEq Thread] [DecidableEq Record] in
/-- When the state is destroyed no call uses it any more. -/
theorem quiet_of_destroyed (h : LifetimeInv s.op) (hinv : FutureInv s)
    (hdestroyed : 0 < s.op.destroyed) : Quiet s := by
  obtain ⟨hquiet, hretired⟩ := h.quiet hdestroyed
  refine ⟨fun t call hcall htouches => ?_, hretired⟩
  cases call with
  | constructing r inCallback =>
      exact hretired.child.2 (hinv.frames.own t _ hcall htouches)
  | destroying r => exact hretired.child.2 (hinv.frames.own t _ hcall trivial)
  | requesting =>
      obtain ⟨lower, -, p, hlower, hpc⟩ := (hinv.frames.nested t).below hcall (by
        rintro ⟨p, hlower, -⟩
        cases hlower)
      have hp := hquiet p
      rw [hpc] at hp
      cases hp
  | client code =>
      cases code with
      | spawner => exact htouches
      | party p =>
          rw [Call.Touches, hquiet p] at htouches
          cases htouches

/-- Neither the state nor its stop source has changed. -/
def Untouched (s s' : State Thread Record Value Error) : Prop :=
  s'.op.state = s.op.state ∧
    ∃ life log, s'.source.memory = { s.source.memory with life := life, log := log }

omit [Fintype Thread] in
theorem untouched_leave {op' : Operation Thread Value Error} (hstate : op'.state = s.op.state)
    (hvia : (s.setOp op').via [.leave t] = some s') : Untouched s s' := by
  obtain ⟨source, hleave, rfl⟩ := Hosted.via_one hvia
  refine ⟨hstate, s.source.memory.life, s.source.memory.log, ?_⟩
  simp only [StopToken.step] at hleave
  split at hleave <;> cases hleave
  rfl

omit [DecidableEq Thread] [Fintype Thread] [DecidableEq Record] in
theorem untouched_op {op' : Operation Thread Value Error} (hstate : op'.state = s.op.state) :
    Untouched s (s.setOp op') :=
  ⟨hstate, _, _, rfl⟩

omit [Fintype Thread] in
/-- An access of a party that does not use the state. -/
theorem partyStep_untouched (htouches : (s.op.pc p).touches = false)
    (hstep : s.partyStep t p (s.op.pc p) = some s') : Untouched s s' := by
  cases hpc : s.op.pc p with
  | idle | running | handler stored | done =>
      rw [hpc] at hstep
      cases hstep
  | store | register | lock | request | requesting | finish | destroy =>
      rw [hpc] at htouches
      cases htouches
  | reset stored =>
      rw [hpc] at hstep htouches
      cases htouches
      change s.resetOnStop t p false = some s' at hstep
      unfold State.resetOnStop at hstep
      split at hstep
      next u honStop =>
        simp only [Option.ite_none_right_eq_some, Option.some.injEq] at hstep
        obtain ⟨-, rfl⟩ := hstep
        exact untouched_op rfl
      next hother =>
        cases hstep
        exact untouched_op rfl
  | signal stored =>
      rw [hpc] at hstep htouches
      cases htouches
      cases hstep
      exact untouched_op rfl
  | release engaged =>
      rw [hpc] at hstep
      cases hstep
      exact untouched_op rfl
  | returning =>
      rw [hpc] at hstep
      refine untouched_leave ?_ hstep
      rfl

/-- Every step that is left only completes the receiver with stopped or returns. -/
theorem Quiet.untouched (h : Quiet s) {a : Action Thread Record Value Error}
    (hstep : SpawnFuture.step s a = some s') : Untouched s s' := by
  obtain ⟨hcalls, ⟨hidle, hrunning⟩, hfuture, harmed⟩ := h
  have htop : ∀ {t frame rest}, s.source.stack t = frame :: rest →
      ¬ Call.Touches s.op frame.call := by
    intro t frame rest hstack
    exact hcalls t _ (by rw [calls_cons hstack]; exact List.mem_cons_self)
  cases a with
  | spawn t accepted =>
      simp only [step, hfuture, reduceCtorEq, and_false, if_false] at hstep
  | complete t completion thrown =>
      simp only [step, hrunning, false_and, and_false, if_false, reduceCtorEq] at hstep
  | drop t | start t =>
      simp only [step, hfuture, reduceCtorEq, and_false, if_false] at hstep
  | stop t =>
      simp only [step, harmed, and_false, if_false, reduceCtorEq] at hstep
  | construct t r | destroy t r =>
      simp only [step, hrunning, and_false, if_false, reduceCtorEq] at hstep
  | returnSpawn t =>
      simp only [step] at hstep
      split at hstep
      · refine untouched_leave ?_ hstep
        rfl
      · cases hstep
  | register t requested =>
      simp only [step] at hstep
      split at hstep
      next rest hstack =>
        have hnot : s.op.pc .owner ≠ .register := by
          intro hpc
          exact htop hstack (by simp [Frame.call, Call.Touches, hpc, Pc.touches])
        rw [if_neg hnot] at hstep
        cases hstep
      next => cases hstep
  | returnHandler t =>
      simp only [step] at hstep
      split at hstep
      next p rest hstack =>
        split at hstep
        next =>
          cases hstep
          exact untouched_op rfl
        next => cases hstep
      next => cases hstep
  | ret t =>
      obtain ⟨source, hret, rfl⟩ := Hosted.via_one hstep
      simp only [StopToken.step] at hret
      split at hret
      next r rest hstack =>
        cases hret
        exact ⟨rfl, _, _, rfl⟩
      next hstack => exact absurd trivial (htop hstack)
      next hstack => exact absurd trivial (htop hstack)
      next => cases hret
  | run t weak =>
      simp only [step] at hstep
      split at hstep
      · cases hstep
      · cases hstep
      next p rest hstack =>
        have hp : (s.op.pc p).touches = false := by
          simpa [Frame.call, Call.Touches] using htop hstack
        exact partyStep_untouched hp hstep
      next pc rest hstack => exact absurd trivial (htop hstack)
      next frame rest hspawner hparty hrequest hstack =>
        obtain ⟨source, hrun, rfl⟩ := Hosted.via_one hstep
        cases frame with
        | constructor r pc =>
            cases pc with
            | callback => simp [StopToken.step, hstack, Frame.step, constructorStep] at hrun
            | _ => exact absurd rfl (htop hstack)
        | destructor r pc => exact absurd trivial (htop hstack)
        | requestStop pc => exact absurd rfl (hrequest pc)
        | client code =>
            cases code with
            | spawner => exact absurd rfl hspawner
            | party p => exact absurd rfl (hparty p)

omit [DecidableEq Thread] [Fintype Thread] [DecidableEq Record] in
/-- A state nobody uses is not completed any more. -/
theorem Quiet.safeCompletion (h : Quiet s) (t : Thread) : SafeCompletion s t := by
  intro rest hstack hpc
  have hnot := h.calls t (.client (.party .child)) (by rw [hstack]; exact List.mem_cons_self)
  exact absurd (by rw [Call.Touches, hpc]; rfl) hnot

omit [DecidableEq Thread] [DecidableEq Record] in
/-- With everybody gone the state is destroyed and the association released. -/
theorem destroyed_of_settled (hinv : FutureInv s) (hlife : LifetimeInv s.op)
    (hsettled : s.op.Settled) :
    s.op.destroyed = 1 ∧ s.op.released = s.op.accepted.toNat := by
  obtain ⟨hcompleted, hcancelling, hbefore⟩ := hsettled.facts hinv.op.places
  have hlate := hinv.op.duties.late hcompleted
  have hsingle := hlife.single hcompleted
  have hassociation := hinv.op.duties.association
  unfold Operation.duty at hsingle
  rw [hsettled.count rfl rfl, hbefore, hcancelling] at hlate hsingle
  rw [hsettled.count rfl rfl] at hassociation
  have hdestroyed : s.op.destroyed = 1 := by
    simp at hlate hsingle
    omega
  refine ⟨hdestroyed, ?_⟩
  cases hengaged : s.op.state.association with
  | true => simp [hinv.slot.engaged hengaged] at hdestroyed
  | false => simpa [hengaged] using hassociation

/-- While the child avoids the two wrong orders the state is destroyed at most once,
by then for the last time used, and once when every party has returned; the
association is released with it. -/
theorem destroyed_in_time
    {trace : List (State Thread Record Value Error × Action Thread Record Value Error)}
    (hrun : (machine Thread Record Value Error).Run .initial trace s)
    (hsafe : ∀ entry ∈ trace, SafeCompletion entry.1 entry.2.thread) :
    s.op.destroyed ≤ 1 ∧
      (0 < s.op.destroyed → Quiet s ∧
        ∀ after s', (machine Thread Record Value Error).Run s after s' →
          Quiet s' ∧ Untouched s s' ∧ s'.op.destroyed = 1) ∧
      (s.op.Settled → s.op.destroyed = 1 ∧ s.op.released = s.op.accepted.toNat) := by
  have hpres : ∀ (s : State Thread Record Value Error) a s', FutureInv s ∧ LifetimeInv s.op →
      SafeCompletion s a.thread → step s a = some s' → FutureInv s' ∧ LifetimeInv s'.op := by
    rintro s a s' ⟨hinv, hlife⟩ hsafe hstep
    have heffect := step_effect hstep
    exact ⟨hinv.effect heffect, hlife.effect hinv heffect hsafe⟩
  have hboth : FutureInv s ∧ LifetimeInv s.op :=
    (hrun.invariant_where (P := fun s => FutureInv s ∧ LifetimeInv s.op) hpres hsafe
      ⟨.initial, .initial⟩).1
  have honce : ∀ s : State Thread Record Value Error, FutureInv s ∧ LifetimeInv s.op →
      s.op.destroyed ≤ 1 := by
    intro s hboth
    by_contra hmore
    have hcompleted : s.op.state.completed = true := by
      by_contra hnot
      have hearly := hboth.1.op.duties.early (by simpa using hnot)
      omega
    have hsingle := hboth.2.single hcompleted
    unfold Operation.duty at hsingle
    omega
  refine ⟨honce s hboth, fun hdestroyed => ?_, destroyed_of_settled hboth.1 hboth.2⟩
  have hquiet := quiet_of_destroyed hboth.2 hboth.1 hdestroyed
  refine ⟨hquiet, fun after s' hafter => ?_⟩
  have hlast : (FutureInv s' ∧ LifetimeInv s'.op) ∧ 0 < s'.op.destroyed ∧ Quiet s' ∧
      Untouched s s' := by
    induction hafter with
    | nil => exact ⟨hboth, hdestroyed, hquiet, rfl, _, _, rfl⟩
    | snoc hafter hstep ih =>
        obtain ⟨hmiddle, hpos, hquiet', hstate, life, log, hmemory⟩ := ih
        obtain ⟨hstate', life', log', hmemory'⟩ := hquiet'.untouched hstep
        have hnext := hpres _ _ _ hmiddle (hquiet'.safeCompletion _) hstep
        have hpos' := hpos.trans_le ((step_effect hstep).move hmiddle.1.op
          hmiddle.1.frames).destroyed_le
        refine ⟨hnext, hpos', quiet_of_destroyed hnext.2 hnext.1 hpos', hstate'.trans hstate,
          life', log', ?_⟩
        rw [hmemory', hmemory]
  obtain ⟨hboth', hpos, hquiet', huntouched⟩ := hlast
  exact ⟨hquiet', huntouched, Nat.le_antisymm (honce s' hboth') hpos⟩

set_option maxRecDepth 4000 in
theorem destroyed_in_time_cancelled :
    ∃ s : State Unit Unit Nat Nat, s.op.signals = [.stopped] ∧ s.op.destroyed = 1 ∧ Quiet s := by
  obtain ⟨trace, hrun, hsafe⟩ := Machine.exists_run_where (machine Unit Unit Nat Nat)
    (fun s a => SafeCompletion s a.thread) (s := .initial) cancelledRun (by decide)
  refine ⟨_, ?_, ?_, ((destroyed_in_time hrun hsafe).2.1 ?_).1⟩ <;> decide

/-! ## The two wrong orders -/

omit [DecidableEq Thread] [Fintype Thread] [DecidableEq Record] in
theorem stack_of_calls {c : Code} {below : List (Call Record Code)}
    {source : StopToken.State Thread Record Code} (hcalls : source.calls t = .client c :: below) :
    ∃ rest, source.stack t = .client c :: rest := by
  cases hstack : source.stack t with
  | nil => simp [StopToken.State.calls, hstack] at hcalls
  | cons frame rest =>
      rw [calls_cons hstack] at hcalls
      cases frame with
      | client code =>
          cases hcalls
          exact ⟨rest, rfl⟩
      | constructor r pc => cases pc <;> cases hcalls
      | destructor r pc | requestStop pc => cases hcalls

omit [Fintype Thread] [DecidableEq Record] in
/-- A child about to enter its section makes no other step. -/
theorem Effect.of_locked {rest : List (Call Record Code)} (heffect : Effect s s' t)
    (hstack : s.source.calls t = .client (.party .child) :: rest) (hpc : s.op.pc .child = .lock) :
    s'.op = s.op.exit .child s.op.state.complete ∧ s'.source.calls = s.source.calls := by
  have huser : ¬ UserTop s.op (s.source.calls t) := by
    intro huser
    have htop := huser (.client (.party .child)) (by rw [hstack]; rfl)
    simp [userCall, Code.isUser, hpc] at htop
  cases heffect with
  | call _ hopen | spawn hopen | reject hopen | enter _ hopen => exact absurd hopen huser
  | inside top new below htop hclient | returns top below htop hclient =>
      rw [hstack] at htop
      cases htop
      exact absurd rfl (hclient _)
  | resume _ _ htop | hold _ htop | registerLate _ htop =>
      rw [hstack] at htop
      cases htop
  | request p below htop hother | leave p below htop hother =>
      rw [hstack] at htop
      cases htop
      rw [hpc] at hother
      cases hother
  | progress p below htop hop hcalls =>
      rw [hstack] at htop
      cases htop
      refine ⟨?_, hcalls⟩
      generalize s'.op = op' at hop
      cases hop with
      | lock hother => rfl
      | register hp => cases hp
      | store hother | finish hother | skip hother | reset hother | signal hother | handled hother
      | destroy hother | release hother =>
          rw [hpc] at hother
          cases hother

/-- A child that completes in one of the two orders destroys the state with its next
step, while another party still uses it or can still start to. -/
theorem destroyed_too_early (hs : (machine Thread Record Value Error).Reachable s)
    {a : Action Thread Record Value Error} (hstep : step s a = some s')
    (hwrong : ¬ SafeCompletion s a.thread) :
    ∃ early, step s' (.run a.thread false) = some early ∧ 0 < early.op.destroyed ∧
      ¬ Quiet early := by
  obtain ⟨⟨hplaces, hduties, -, -⟩, -, hframes⟩ := futureInv_of_reachable hs
  unfold SafeCompletion at hwrong
  push Not at hwrong
  obtain ⟨rest, hstack, hpc, hwrong⟩ := hwrong
  obtain ⟨hop, hcalls⟩ := (step_effect hstep).of_locked hstack hpc
  have hlate : s.op.pc .owner = .request ∨ s.op.pc .owner = .requesting ∨
      s.op.state.stopped = true ∧ (s.op.pc .owner).before = true := by
    by_cases hrequest : s.op.pc .owner = .request
    · exact .inl hrequest
    by_cases hrequesting : s.op.pc .owner = .requesting
    · exact .inr (.inl hrequesting)
    obtain ⟨hstopped, hbefore⟩ := hwrong hrequest hrequesting
    exact .inr (.inr ⟨hstopped, by simpa using hbefore⟩)
  have hdecided : (s.op.state.stopped || s.op.state.abandoned) = true := by
    rw [Bool.or_eq_true]
    rcases hlate with howner | howner | ⟨hstopped, -⟩
    · exact .inr (hplaces.abandons (.inl howner))
    · exact .inr (hplaces.abandons (.inr howner))
    · exact .inl hstopped
  have hcancelling : s.op.state.cancelling = false := by
    by_contra hcancelling
    have hflags := hplaces.of_cancelling (by simpa using hcancelling)
    simp [hflags] at hdecided
  have hcomplete : s.op.state.complete = (.destroy, { s.op.state with completed := true }) := by
    simp [FutureState.complete, hcancelling, hdecided]
  rw [hcomplete] at hop
  obtain ⟨below, hnext⟩ := stack_of_calls ((congrFun hcalls a.thread).trans hstack)
  have hdestroy : s'.op.pc .child = .destroy := by
    rw [hop]
    simp [Operation.exit, Operation.setPc, Exit.pc]
  have howner : s'.op.pc .owner = s.op.pc .owner := by
    rw [hop]
    simp [Operation.exit, Operation.setPc]
  have hfuture : s'.op.future = s.op.future := by
    rw [hop]
    rfl
  have hearly : step s' (.run a.thread false) =
      s'.partyStep a.thread .child (s'.op.pc .child) := by
    simp only [step, hnext]
  rw [hdestroy, State.partyStep] at hearly
  refine ⟨_, hearly, Nat.succ_pos _, ?_⟩
  rintro ⟨hquiet, -, htaken, -⟩
  -- the owner has a frame, or it still holds the future
  by_cases hidle : s.op.pc .owner = .idle
  · exact hplaces.taken.mp (hfuture.symm.trans htaken) hidle
  · have hplace : (s.op.pc .owner).active = true ∧ (s.op.pc .owner).touches = true := by
      rcases hlate with hpc | hpc | ⟨-, hbefore⟩
      · rw [hpc]
        exact ⟨rfl, rfl⟩
      · rw [hpc]
        exact ⟨rfl, rfl⟩
      · cases hpc : s.op.pc .owner <;> simp_all [Pc.before, Pc.active, Pc.touches]
    have hcensus := hframes.party .owner
    rw [hplace.1, Bool.toNat_true] at hcensus
    obtain ⟨u, call, hmem, hparty⟩ := CallStack.census_pos.mp (hcensus ▸ Nat.one_pos)
    have hcall : call = .client (.party .owner) := by
      cases call with
      | client code =>
          cases code with
          | party q => simpa [isParty] using hparty
          | spawner => cases hparty
      | constructing | destroying | requesting => cases hparty
    subst hcall
    refine hquiet u (.client (.party .owner)) (by rw [← hcalls] at hmem; exact hmem) ?_
    simpa [Call.Touches, Hosted.setOp, Operation.setPc, howner] using hplace.2

/-- The owner drops the future, and the child completes on another thread before
`request_stop` has returned. -/
def droppedRun : List (Action Pair Unit Nat Nat) :=
  [.spawn .first true, .returnSpawn .first, .drop .first, .run .first false, .run .first false,
    .complete .second .stopped none, .run .second false]

theorem droppedRun_runs :
    ((machine Pair Unit Nat Nat).exec State.initial droppedRun).isSome = true := by
  decide

set_option maxRecDepth 4000 in
theorem destroyed_too_early_dropped : ∃ s s' : State Pair Unit Nat Nat,
    s.op.pc .owner = .requesting ∧ step s (.run .second false) = some s' ∧
      ∃ early, step s' (.run .second false) = some early ∧ 0 < early.op.destroyed ∧
        ¬ Quiet early := by
  have hreach := Machine.reachable_replay (M := machine Pair Unit Nat Nat)
    (rfl : State.initial = State.initial) droppedRun droppedRun_runs
  obtain ⟨s', hstep⟩ := Option.isSome_iff_exists.mp (by decide :
    (step (((machine Pair Unit Nat Nat).exec State.initial droppedRun).get droppedRun_runs)
      (.run .second false)).isSome = true)
  exact ⟨_, s', by decide, hstep, destroyed_too_early hreach hstep (by decide)⟩

end Bexec.SpawnFuture
