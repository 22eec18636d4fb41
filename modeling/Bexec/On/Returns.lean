import Bexec.On.Step

/-! # Every signal returns through the receiver's scheduler

The states an `on` operation reaches, and in which context it signals its
receiver.
-/

namespace Bexec.On

open Foundation Signatures

variable {Ty V : Type*} [ArgumentTypes Ty] {op : Operation Ty} {raise : Call Ty → Option V}

/-- A completion is stored, its exception is caught, or the process ends. -/
theorem store_cases (raise : Construction Ty → Option V) (c : Signature Ty) :
    store raise c = .value .startFinal ∨
      (storeNothrow c = false ∧ ∃ e, store raise c = .value (.setError e)) ∨
      store raise c = .terminated := by
  cases c with
  | setValue args =>
      rcases storing_cases raise (.setValue args) Hop.startFinal Hop.setError with
        hstored | hraised | ⟨-, hend⟩
      · exact .inl hstored
      · exact .inr (.inl hraised)
      · exact .inr (.inr hend)
  | setError error =>
      rcases storing_cases raise (.setError error) Hop.startFinal Hop.setError with
        hstored | hraised | ⟨-, hend⟩
      · exact .inl hstored
      · exact .inr (.inl hraised)
      · exact .inr (.inr hend)
  | setStopped => exact .inl rfl

theorem store_quiet {raise : Construction Ty → Option V} (c : Signature Ty)
    (hquiet : ∀ call, raise call = none) : store raise c = .value .startFinal := by
  cases c with
  | setValue args => exact storing_quiet hquiet
  | setError error => exact storing_quiet hquiet
  | setStopped => rfl

theorem exists_store_raised [DecidableEq Ty] {c : Signature Ty} (e : V)
    (hguarded : storeNothrow c = false) :
    ∃ raise : Construction Ty → Option V, store raise c = .value (.setError e) := by
  cases c with
  | setValue args => exact exists_storing_raised e hguarded
  | setError error => exact exists_storing_raised e hguarded
  | setStopped => cases hguarded

theorem Reached.receive {signal : Signal Ty V} {context : Context} {phase : Phase}
    (hreceives : Receives op signal.signature) :
    Reached op (State.receive op raise context signal ⟨phase, none, none, none, []⟩) := by
  unfold State.receive
  dsimp only
  rcases store_cases (fun c => raise (.store c)) signal.signature with
    hstored | ⟨hthrows, e, hraised⟩ | hend
  · rw [hstored]
    dsimp only
    unfold State.startFinal
    split
    · exact .returning signal hreceives
    · exact .connecting _ _ _ _
  · rw [hraised]
    exact .storing signal context e hreceives hthrows
  · rw [hend]
    exact .terminated signal

theorem connectRaises_eq_some {nothrow : Bool} {raise : Option V} {e : V}
    (hraises : connectRaises nothrow raise = some e) : nothrow = false := by
  cases nothrow with
  | false => rfl
  | true => cases hraises

theorem Reached.start : Reached op (State.start op raise .initial) := by
  unfold State.start
  split
  · exact .connecting _ _ _ _
  · split
    · next hraises => exact .receive (.connecting (.inl (connectRaises_eq_some hraises)))
    · exact .scheduling

theorem Reached.scheduled {signal : Signal Ty V}
    (hmem : signal.signature ∈ op.target.signatures) :
    Reached op (State.scheduled op raise ⟨.scheduling, none, none, none, []⟩ signal) := by
  cases signal with
  | setValue args =>
      have htarget : Completion.setValue [] ∈ op.target.signatures := by
        rwa [← op.target.plain _ hmem]
      unfold State.scheduled
      dsimp only
      split
      · next hraises =>
          exact .receive (.connecting (.inr ⟨htarget, connectRaises_eq_some hraises⟩))
      · exact .running htarget
  | setError error => exact .receive (.target hmem (by simp [Completion.tag, Completion.map]))
  | setStopped => exact .receive (.target hmem (by simp [Completion.tag, Completion.map]))

theorem Reached.returned {signal final : Signal Ty V} {s : State Ty V}
    (hreceives : Receives op signal.signature)
    (hmem : final.signature ∈ op.final.signatures)
    (hstep : State.returned ⟨.returning, some signal, some signal.decayed, some final, []⟩ final =
      some s) : Reached op s := by
  cases final with
  | setValue args =>
      have hplain : args = [] := List.map_eq_nil_iff.mp (op.final.plain _ hmem)
      subst hplain
      cases hstep
      exact .stored signal hreceives
  | setError error =>
      cases hstep
      exact .refused signal _ hreceives hmem (by simp [Completion.tag])
  | setStopped =>
      cases hstep
      exact .refused signal _ hreceives hmem (by simp [Completion.tag])

variable [DecidableEq Ty]

theorem Reached.step {s s' : State Ty V} {a : Action Ty V} (h : Reached op s)
    (hstep : On.step op s a = some s') : Reached op s' := by
  cases a with
  | start raise =>
      simp only [On.step, Option.ite_none_right_eq_some, Option.some.injEq] at hstep
      obtain ⟨hphase, rfl⟩ := hstep
      cases h with
      | idle => exact .start
      | _ => cases hphase
  | targetCompletes signal raise =>
      simp only [On.step, Option.ite_none_right_eq_some, Option.some.injEq] at hstep
      obtain ⟨⟨hphase, hmem⟩, rfl⟩ := hstep
      cases h with
      | scheduling => exact .scheduled hmem
      | _ => cases hphase
  | childCompletes signal raise =>
      simp only [On.step, Option.ite_none_right_eq_some, Option.some.injEq] at hstep
      obtain ⟨⟨hphase, hmem⟩, rfl⟩ := hstep
      cases h with
      | running htarget => exact .receive (.child htarget hmem)
      | _ => cases hphase
  | finalCompletes signal =>
      simp only [On.step, Option.ite_none_right_eq_some] at hstep
      obtain ⟨⟨hphase, hmem⟩, hstep⟩ := hstep
      cases h with
      | returning received hreceives => exact .returned hreceives hmem hstep
      | _ => cases hphase

theorem reached_of_reachable {s : State Ty V} (hs : (machine V op).Reachable s) :
    Reached op s := by
  apply hs.invariant (P := Reached op)
  · intro s hinit
    cases hinit
    exact .idle
  · intro s a s' _ h hstep
    exact h.step hstep

/-- The receiver is signalled from the completion of the final schedule
operation, and with the stored completion when that completes with a value;
otherwise a connection failed. -/
def ReturnsToScheduler (s : State Ty V) : Prop :=
  ∀ d ∈ s.delivered, d.cause = .connecting ∨
    (d.context = .final ∧ ∃ signal final, s.received = some signal ∧
      s.stored = some signal.decayed ∧ s.finished = some final ∧
        (final.tag = .setValue → d.signal = signal.decayed))

omit [DecidableEq Ty] in
theorem Reached.returnsToScheduler {s : State Ty V} (h : Reached op s)
    (hquiet : ∀ c, Receives op c → storeNothrow c = true) : ReturnsToScheduler s := by
  intro d hd
  cases h with
  | connecting received stored context e =>
      rw [List.mem_singleton.mp hd]
      exact .inl rfl
  | storing signal context e hreceives hthrows =>
      rw [hquiet _ hreceives] at hthrows
      cases hthrows
  | stored signal hreceives =>
      rw [List.mem_singleton.mp hd]
      exact .inr ⟨rfl, signal, .setValue [], rfl, rfl, rfl, fun _ => rfl⟩
  | refused signal final hreceives hmem htag =>
      rw [List.mem_singleton.mp hd]
      exact .inr ⟨rfl, signal, final, rfl, rfl, rfl, fun hvalue => absurd hvalue htag⟩
  | _ => simp [State.initial] at hd

/-- A signal with the given types. -/
def typed [Inhabited V] (c : Signature Ty) : Signal Ty V :=
  c.map fun T => (T, default)

omit [ArgumentTypes Ty] [DecidableEq Ty] in
@[simp] theorem signature_typed [Inhabited V] (c : Signature Ty) :
    (typed c : Signal Ty V).signature = c := by
  cases c <;> simp [typed, Completion.map, Function.comp_def]

theorem reachable_scheduling :
    (machine V op).Reachable ⟨.scheduling, none, none, none, []⟩ := by
  apply Machine.Reachable.step (.initial rfl) (a := .start fun _ => none)
  simp [machine, On.step, State.initial, State.start, connectRaises]

theorem reachable_running [Inhabited V]
    (htarget : Completion.setValue [] ∈ op.target.signatures) :
    (machine V op).Reachable ⟨.running, none, none, none, []⟩ := by
  apply reachable_scheduling.step (a := .targetCompletes (typed (.setValue [])) fun _ => none)
  simp [machine, On.step, State.scheduled, connectRaises, typed, Completion.map, htarget]

theorem reachable_target [Inhabited V] {c : Signature Ty} (hmem : c ∈ op.target.signatures)
    (htag : c.tag ≠ .setValue) (raise : Call Ty → Option V) :
    (machine V op).Reachable
      (State.receive op raise .target (typed c) ⟨.scheduling, none, none, none, []⟩) := by
  apply reachable_scheduling.step (a := .targetCompletes (typed c) raise)
  cases c with
  | setValue args => exact absurd rfl htag
  | setError error => simp [machine, On.step, State.scheduled, hmem, typed, Completion.map]
  | setStopped => simp [machine, On.step, State.scheduled, hmem, typed, Completion.map]

theorem reachable_child [Inhabited V] {c : Signature Ty}
    (htarget : Completion.setValue [] ∈ op.target.signatures) (hmem : c ∈ op.child)
    (raise : Call Ty → Option V) :
    (machine V op).Reachable
      (State.receive op raise .target (typed c) ⟨.running, none, none, none, []⟩) := by
  apply (reachable_running htarget).step (a := .childCompletes (typed c) raise)
  simp [machine, On.step, hmem]

/-- Whatever can be received is, in some run, with any exceptions of storing. -/
theorem Receives.reachable [Inhabited V] {c : Signature Ty} (h : Receives op c)
    (hother : c ≠ .setError exceptionPtr) (raise : Call Ty → Option V) :
    ∃ context phase, (machine V op).Reachable
      (State.receive op raise context (typed c) ⟨phase, none, none, none, []⟩) := by
  cases h with
  | connecting hthrows => exact absurd rfl hother
  | target hmem htag => exact ⟨_, _, reachable_target hmem htag raise⟩
  | child htarget hmem => exact ⟨_, _, reachable_child htarget hmem raise⟩

/-- The exceptions of a step in which only storing throws. -/
def Call.onlyStoring (raise : Construction Ty → Option V) : Call Ty → Option V
  | .store construction => raise construction
  | _ => none

/-- A completion that may throw while it is stored is, in some run, answered
with a signal from the context it arrives in. -/
theorem Receives.exists_not_returns [Inhabited V] {c : Signature Ty} (h : Receives op c)
    (hthrows : storeNothrow c = false) :
    ∃ s : State Ty V, (machine V op).Reachable s ∧ ¬ ReturnsToScheduler s := by
  have hother : c ≠ .setError exceptionPtr := by
    intro heq
    subst heq
    simp [storeNothrow, Completion.args] at hthrows
  obtain ⟨raise, hraised⟩ := exists_store_raised (default : V) hthrows
  obtain ⟨context, phase, hs⟩ := h.reachable hother (Call.onlyStoring raise)
  refine ⟨_, hs, ?_⟩
  intro hreturns
  simp only [State.receive, signature_typed, Call.onlyStoring, hraised, State.deliver]
    at hreturns
  rcases hreturns _ (List.mem_singleton_self _) with hcause | ⟨-, signal, final, -, hstored, -⟩
  · cases hcause
  · cases hstored

/-- The signal of `on` always returns through the receiver's scheduler exactly
when storing what the target side may send throws nothing. -/
theorem returns_to_scheduler_iff [Inhabited V] (op : Operation Ty) :
    (∀ s : State Ty V, (machine V op).Reachable s → ReturnsToScheduler s) ↔
      ∀ c, Receives op c → storeNothrow c = true := by
  constructor
  · intro h c hreceives
    by_contra hthrows
    obtain ⟨s, hs, hnot⟩ := hreceives.exists_not_returns (V := V) (Bool.eq_false_iff.mpr hthrows)
    exact hnot (h s hs)
  · intro hquiet s hs
    exact (reached_of_reachable hs).returnsToScheduler hquiet

/-- A child that sends an lvalue whose copy may throw, between two schedulers
that only send values. -/
def copiesChild : Operation ArgumentType where
  target := ⟨[.setValue []], true, by simp⟩
  child := [.setValue [.lvalue ⟨0, false, true⟩]]
  final := ⟨[.setValue []], true, by simp⟩
  sourceConnectNothrow := true
  childConnectNothrow := true

theorem copy_signalled_elsewhere :
    ¬ ∀ s : State ArgumentType ℕ, (machine ℕ copiesChild).Reachable s → ReturnsToScheduler s := by
  intro h
  have hreceives : Receives copiesChild (.setValue [.lvalue ⟨0, false, true⟩]) :=
    .child (List.mem_singleton_self _) (List.mem_singleton_self _)
  obtain ⟨s, hs, hnot⟩ := hreceives.exists_not_returns (V := ℕ) rfl
  exact hnot (h s hs)

end Bexec.On
