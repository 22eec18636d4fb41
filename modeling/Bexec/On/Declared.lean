import Bexec.On.Returns

/-! # What `on` and `join` declare

Both finish through the scheduler of the receiver, whose schedule sender may
send errors of its own.
-/

namespace Bexec.On

open Foundation Signatures

variable {Ty V : Type*} [ArgumentTypes Ty] {op : Operation Ty}

namespace ScheduleSender

/-- `sender_error_types_t` of a schedule sender. -/
def errorTypes (sender : ScheduleSender Ty) : List Ty :=
  sender.signatures.flatMap fun c => if c.tag = .setError then c.args else []

/-- `sender_sends_stopped_v` of a schedule sender. -/
def sendsStopped (sender : ScheduleSender Ty) : Bool :=
  sender.signatures.any fun c => decide (c.tag = .setStopped)

omit [ArgumentTypes Ty] in
theorem mem_errorTypes {sender : ScheduleSender Ty} {e : Ty} :
    e ∈ sender.errorTypes ↔ Completion.setError e ∈ sender.signatures := by
  simp only [errorTypes, List.mem_flatMap]
  constructor
  · rintro ⟨c, hmem, he⟩
    cases c with
    | setError error =>
        simp only [Completion.tag, if_true, Completion.args, List.mem_singleton] at he
        rwa [he]
    | setValue args => simp [Completion.tag] at he
    | setStopped => simp [Completion.tag] at he
  · intro hmem
    exact ⟨_, hmem, by simp [Completion.tag, Completion.args]⟩

end ScheduleSender

variable [DecidableEq Ty]

/-- `starts_on_completion_signatures`. -/
def startsOnCompletionSignatures (scheduler : ScheduleSender Ty) (child : List (Signature Ty)) :
    List (Signature Ty) :=
  uniqueTypeList (child ++ scheduler.errorTypes.map .setError ++ [.setError exceptionPtr] ++
    maybeTypeList scheduler.sendsStopped [.setStopped])

/-- `on_completion_signatures`. -/
def onCompletionSignatures (scheduler : ScheduleSender Ty) (child : List (Signature Ty)) :
    List (Signature Ty) :=
  uniqueTypeList (startsOnCompletionSignatures scheduler child ++
    [.setError exceptionPtr, .setStopped])

theorem mem_onCompletionSignatures {scheduler : ScheduleSender Ty} {child : List (Signature Ty)}
    {c : Signature Ty} :
    c ∈ onCompletionSignatures scheduler child ↔ c ∈ child ∨
      (c.tag = .setError ∧ c ∈ scheduler.signatures) ∨ c = .setError exceptionPtr ∨
        c = .setStopped := by
  have herrors : c ∈ scheduler.errorTypes.map Completion.setError ↔
      c.tag = .setError ∧ c ∈ scheduler.signatures := by
    simp only [List.mem_map, ScheduleSender.mem_errorTypes]
    constructor
    · rintro ⟨e, hmem, rfl⟩
      exact ⟨rfl, hmem⟩
    · rintro ⟨htag, hmem⟩
      cases c with
      | setError error => exact ⟨error, hmem, rfl⟩
      | _ => cases htag
  have hstopped : c ∈ maybeTypeList scheduler.sendsStopped [.setStopped] → c = .setStopped := by
    unfold maybeTypeList
    split <;> simp
  simp only [onCompletionSignatures, startsOnCompletionSignatures, mem_uniqueTypeList,
    List.mem_append, List.mem_cons, List.not_mem_nil, or_false, herrors]
  tauto

/-- Everything the target side sends is declared. -/
theorem Receives.mem_onCompletionSignatures {c : Signature Ty} (h : Receives op c) :
    c ∈ onCompletionSignatures op.target op.child := by
  rw [On.mem_onCompletionSignatures]
  cases h with
  | connecting hthrows => simp
  | target hmem htag =>
      cases c with
      | setValue args => exact absurd rfl htag
      | setError error => exact .inr (.inl ⟨rfl, hmem⟩)
      | setStopped => simp
  | child htarget hmem => exact .inl hmem

/-- An error type that `on` declares: that of an exception, one of the child or
one of the target scheduler, up to decay. -/
def DeclaresError (op : Operation Ty) (error : Ty) : Prop :=
  decay error = exceptionPtr ∨
    ∃ e, (Completion.setError e ∈ op.child ∨ Completion.setError e ∈ op.target.signatures) ∧
      decay e = decay error

theorem declares_setError_iff {error : Ty} :
    Declares (onCompletionSignatures op.target op.child) (.setError error) ↔
      DeclaresError op error := by
  unfold Declares DeclaresError
  simp only [mem_onCompletionSignatures]
  constructor
  · rintro ⟨c, hmem, heq⟩
    cases c with
    | setError e =>
        have hdecay : decay e = decay error := by simpa [Completion.map] using heq
        rcases hmem with hchild | ⟨-, htarget⟩ | hexception | hstopped
        · exact .inr ⟨e, .inl hchild, hdecay⟩
        · exact .inr ⟨e, .inr htarget, hdecay⟩
        · cases hexception
          rw [← hdecay]
          exact .inl (ArgumentTypes.decay_exceptionPtr)
        · cases hstopped
    | _ => cases heq
  · rintro (hexception | ⟨e, hmem, hdecay⟩)
    · refine ⟨.setError exceptionPtr, by simp, ?_⟩
      simp [Completion.map, hexception]
    · refine ⟨.setError e, ?_, by simp [Completion.map, hdecay]⟩
      rcases hmem with hchild | htarget
      · exact .inl hchild
      · exact .inr (.inl ⟨rfl, htarget⟩)

/-- Every signal the receiver got is declared. -/
def DeliversDeclared (op : Operation Ty) (s : State Ty V) : Prop :=
  ∀ d ∈ s.delivered, Declares (onCompletionSignatures op.target op.child) d.signal.signature

omit [DecidableEq Ty] in
theorem signature_decayed (signal : Signal Ty V) :
    signal.decayed.signature.decayed = signal.signature.decayed := by
  cases signal <;> simp [Signal.decayed, Completion.map]

theorem declares_exception (e : V) :
    Declares (onCompletionSignatures op.target op.child) (exception e : Signal Ty V).signature := by
  rw [exception]
  apply Declares.of_mem
  simp [mem_onCompletionSignatures, Completion.map]

theorem Reached.deliversDeclared {s : State Ty V} (h : Reached op s)
    (hdeclared : (∃ c, Receives op c) →
      ∀ e, Completion.setError e ∈ op.final.signatures → DeclaresError op e) :
    DeliversDeclared op s := by
  intro d hd
  cases h with
  | connecting received stored context e =>
      rw [List.mem_singleton.mp hd]
      exact declares_exception e
  | storing signal context e hreceives hthrows =>
      rw [List.mem_singleton.mp hd]
      exact declares_exception e
  | stored signal hreceives =>
      rw [List.mem_singleton.mp hd]
      exact (Declares.of_mem hreceives.mem_onCompletionSignatures).congr
        (signature_decayed signal).symm
  | refused signal final hreceives hmem htag =>
      rw [List.mem_singleton.mp hd]
      cases final with
      | setValue args => exact absurd rfl htag
      | setError error => exact declares_setError_iff.mpr (hdeclared ⟨_, hreceives⟩ _ hmem)
      | setStopped =>
          apply Declares.of_mem
          simp [mem_onCompletionSignatures, Completion.map]
  | _ => simp [State.initial] at hd

omit [DecidableEq Ty] in
/-- Without exceptions what is received is stored, and the final schedule
operation starts. -/
theorem receive_quiet {signal : Signal Ty V} {context : Context} {phase : Phase}
    {raise : Call Ty → Option V} (hstore : ∀ c, raise (.store c) = none)
    (hfinal : raise .connectFinal = none) :
    State.receive op raise context signal ⟨phase, none, none, none, []⟩ =
      ⟨.returning, some signal, some signal.decayed, none, []⟩ := by
  simp [State.receive, store_quiet signal.signature hstore, State.startFinal, connectRaises,
    hfinal]

/-- The exceptions of a step in which only connecting the two inner operations
throws. -/
def Call.onlyInner (e : V) : Call Ty → Option V
  | .connectSchedule => some e
  | .connectChild => some e
  | _ => none

/-- What can be received is stored in some run, and the final schedule operation
starts. -/
theorem Receives.exists_returning [Inhabited V] {c : Signature Ty} (h : Receives op c) :
    ∃ signal : Signal Ty V, (machine V op).Reachable
      ⟨.returning, some signal, some signal.decayed, none, []⟩ := by
  have hquiet : ∀ (signal : Signal Ty V) context phase,
      State.receive op (Call.onlyInner default) context signal ⟨phase, none, none, none, []⟩ =
        ⟨.returning, some signal, some signal.decayed, none, []⟩ :=
    fun signal context phase => receive_quiet (fun _ => rfl) rfl
  cases h with
  | connecting hthrows =>
      refine ⟨exception default, ?_⟩
      rcases hthrows with hconnect | ⟨htarget, hconnect⟩
      · apply Machine.Reachable.step (.initial rfl) (a := .start (Call.onlyInner default))
        simp [machine, On.step, State.initial, State.start, connectRaises, Call.onlyInner,
          hconnect, ← hquiet (exception default) .starter .idle]
      · apply reachable_scheduling.step
          (a := .targetCompletes (typed (.setValue [])) (Call.onlyInner default))
        simp [machine, On.step, State.scheduled, connectRaises, Call.onlyInner, hconnect, typed,
          Completion.map, htarget, ← hquiet (exception default) .target .scheduling]
  | target hmem htag =>
      have hs := reachable_target hmem htag (Call.onlyInner (default : V))
      rw [hquiet] at hs
      exact ⟨_, hs⟩
  | child htarget hmem =>
      have hs := reachable_child htarget hmem (Call.onlyInner (default : V))
      rw [hquiet] at hs
      exact ⟨_, hs⟩

/-- An error of the final scheduler reaches the receiver in some run. -/
theorem Receives.exists_delivered_error [Inhabited V] {c : Signature Ty} {error : Ty}
    (h : Receives op c) (hmem : Completion.setError error ∈ op.final.signatures) :
    ∃ s : State Ty V, (machine V op).Reachable s ∧
      ∃ d ∈ s.delivered, d.signal.signature = .setError error := by
  obtain ⟨signal, hs⟩ := h.exists_returning (V := V)
  have hstep : (machine V op).step ⟨.returning, some signal, some signal.decayed, none, []⟩
      (.finalCompletes (typed (.setError error))) =
      some ⟨.done, some signal, some signal.decayed, some (typed (.setError error)),
        [⟨.final, .scheduled, typed (.setError error)⟩]⟩ := by
    simp [machine, On.step, hmem, State.returned, State.deliver, typed, Completion.map]
  refine ⟨_, hs.step hstep, _, List.mem_singleton_self _, ?_⟩
  exact signature_typed (.setError error)

/-- `on` only delivers what it declares exactly when its first two operations
never complete, or it declares every error of the final scheduler. -/
theorem deliversDeclared_iff [Inhabited V] :
    (∀ s : State Ty V, (machine V op).Reachable s → DeliversDeclared op s) ↔
      ((∃ c, Receives op c) →
        ∀ e, Completion.setError e ∈ op.final.signatures → DeclaresError op e) := by
  constructor
  · rintro h ⟨c, hreceives⟩ error hmem
    obtain ⟨s, hs, d, hd, hsignature⟩ := hreceives.exists_delivered_error (V := V) hmem
    have hdeclared := h s hs d hd
    rw [hsignature] at hdeclared
    exact declares_setError_iff.mp hdeclared
  · intro hdeclared s hs
    exact (reached_of_reachable hs).deliversDeclared hdeclared

end Bexec.On
