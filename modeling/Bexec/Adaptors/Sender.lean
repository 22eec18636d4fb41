import Bexec.Foundation.Logged
import Bexec.Signatures.Completion

/-! # Senders and the adaptors that call back

A sender is connected to a receiver and started. `then` and its siblings adapt
the receiver; `let` replaces one completion by a child sender.
-/

namespace Bexec.Adaptors

open Foundation Signatures

/-- The arguments of a completion with the given tag. -/
abbrev Args (V : Type*) : Tag → Type _
  | .setValue => List V
  | .setError => V
  | .setStopped => PUnit

section Completions

variable {V : Type*}

def completion : (tag : Tag) → Args V tag → Completion V
  | .setValue, args => .setValue args
  | .setError, error => .setError error
  | .setStopped, _ => .setStopped

/-- The arguments of a completion on the selected channel. -/
def select : (tag : Tag) → Completion V → Option (Args V tag)
  | .setValue, .setValue args => some args
  | .setError, .setError error => some error
  | .setStopped, .setStopped => some ⟨⟩
  | _, _ => none

@[simp] theorem select_completion (tag : Tag) (args : Args V tag) :
    select tag (completion tag args) = some args := by
  cases tag <;> rfl

theorem eq_completion_of_select {tag : Tag} {c : Completion V} {args : Args V tag}
    (hselect : select tag c = some args) : c = completion tag args := by
  cases tag <;> cases c <;> simp [select] at hselect <;> simp [completion, hselect]

@[simp] theorem select_setError_self (error : V) :
    select .setError (.setError error) = some error := rfl

theorem select_eq_none {tag : Tag} {c : Completion V} (htag : c.tag ≠ tag) :
    select tag c = none := by
  cases hselect : select tag c with
  | none => rfl
  | some args =>
      rw [eq_completion_of_select hselect] at htag
      cases tag <;> exact absurd rfl htag

end Completions

/-- How a thrown exception is passed as an error. -/
class Exceptions (X : Type*) (V : outParam (Type*)) where
  currentException : X → V

export Exceptions (currentException)

/-- What a receiver does on a completion. -/
abbrev Receiver (Ev X V : Type*) := Completion V → Logged Ev X Unit

section Model

variable {Ω Ev X V : Type*}

/-- `set_value`, `set_error` and `set_stopped`, which are `noexcept`. -/
def signal (receiver : Receiver Ev X V) (c : Completion V) : Logged Ev X Unit :=
  (receiver c).noexcept

/-- A sender, connected to a receiver and started under an outcome of the
leaves. It completes once, and what happens before does not depend on the
receiver. -/
structure Sender (Ω Ev X V : Type*) where
  start : Ω → Receiver Ev X V → Logged Ev X Unit
  completes : ∀ ω, ∃ log c, ∀ receiver, start ω receiver = (signal receiver c).after log

/-- A callable that is invoked on a completion: whether the call is `noexcept`,
and the call. It returns, or throws where it may. -/
structure Callable (Ev X V : Type*) (tag : Tag) (R : Type*) where
  nothrowInvocable : Args V tag → Bool
  invoke : Args V tag → Logged Ev X R
  ends : ∀ args, (∃ log result, invoke args = (Logged.pure result).after log) ∨
    nothrowInvocable args = false ∧ ∃ log x, invoke args = (Logged.raise x).after log

/-- A callable that returns a sender, and whether its connection is `noexcept`. -/
structure SenderCallable (Ω Ev X V : Type*) (tag : Tag) extends
    Callable Ev X V tag (Sender Ω Ev X V) where
  connectNothrow : Args V tag → Bool

/-- A leaf: it completes as the outcome says. -/
def leaf (outcome : Ω → Completion V) : Sender Ω Ev X V where
  start ω receiver := signal receiver (outcome ω)
  completes ω := ⟨[], outcome ω, by simp⟩

/-- `just_sender`. -/
def just (values : List V) : Sender Ω Ev X V :=
  leaf fun _ => .setValue values

/-- `just_error_sender`. -/
def justError (error : V) : Sender Ω Ev X V :=
  leaf fun _ => .setError error

/-- `just_stopped_sender`. -/
def justStopped : Sender Ω Ev X V :=
  leaf fun _ => .setStopped

/-- The `just` sender of a channel. -/
def justOf : (tag : Tag) → Args V tag → Sender Ω Ev X V
  | .setValue, values => just values
  | .setError, error => justError error
  | .setStopped, _ => justStopped

@[simp] theorem signal_signal (receiver : Receiver Ev X V) (c : Completion V) :
    signal (signal receiver) c = signal receiver c :=
  Logged.noexcept_noexcept _

@[simp] theorem signal_noexcept (receiver : Receiver Ev X V) (c : Completion V) :
    (signal receiver c).noexcept = signal receiver c :=
  Logged.noexcept_noexcept _

@[simp] theorem signal_catching (receiver : Receiver Ev X V) (c : Completion V)
    (handler : X → Logged Ev X Unit) :
    (signal receiver c).catching handler = signal receiver c :=
  Logged.noexcept_catching _ _

theorem justOf_start (tag : Tag) (args : Args V tag) (ω : Ω) (receiver : Receiver Ev X V) :
    (justOf tag args).start ω receiver = signal receiver (completion tag args) := by
  cases tag <;> rfl

@[simp] theorem Sender.start_signal (s : Sender Ω Ev X V) (ω : Ω) (receiver : Receiver Ev X V) :
    s.start ω (signal receiver) = s.start ω receiver := by
  obtain ⟨log, c, hstart⟩ := s.completes ω
  rw [hstart, hstart, signal_signal]

@[simp] theorem Sender.start_noexcept (s : Sender Ω Ev X V) (ω : Ω) (receiver : Receiver Ev X V) :
    (s.start ω receiver).noexcept = s.start ω receiver := by
  obtain ⟨log, c, hstart⟩ := s.completes ω
  simp [hstart]

@[simp] theorem Sender.start_catching (s : Sender Ω Ev X V) (ω : Ω) (receiver : Receiver Ev X V)
    (handler : X → Logged Ev X Unit) :
    (s.start ω receiver).catching handler = s.start ω receiver := by
  obtain ⟨log, c, hstart⟩ := s.completes ω
  simp [hstart]

variable [Exceptions X V]

/-! ## Receiver adaptors -/

/-- `invoke_and_set_value`; a callable that returns `void` returns `none`. -/
def invokeAndSetValue {tag : Tag} (fn : Callable Ev X V tag (Option V))
    (receiver : Receiver Ev X V) (args : Args V tag) : Logged Ev X Unit :=
  (fn.invoke args).bind fun result => signal receiver (.setValue result.toList)

/-- `complete_selected`. -/
def completeSelected {tag : Tag} (fn : Callable Ev X V tag (Option V))
    (receiver : Receiver Ev X V) (args : Args V tag) : Logged Ev X Unit :=
  if fn.nothrowInvocable args then (invokeAndSetValue fn receiver args).noexcept
  else ((invokeAndSetValue fn receiver args).catching fun x =>
    signal receiver (.setError (currentException x))).noexcept

/-- `completion_adaptor_receiver`. -/
def completionAdaptorReceiver (tag : Tag) (fn : Callable Ev X V tag (Option V))
    (receiver : Receiver Ev X V) : Receiver Ev X V := fun c =>
  match select tag c with
  | some args => completeSelected fn receiver args
  | none => signal receiver c

/-! ## `let` -/

/-- `let_child_receiver`. -/
def letChildReceiver (receiver : Receiver Ev X V) : Receiver Ev X V :=
  signal receiver

/-- `start_child`. The connection throws nothing, but only one that says so
takes the path without `try`. -/
def startChild {tag : Tag} (ω : Ω) (fn : SenderCallable Ω Ev X V tag)
    (receiver : Receiver Ev X V) (args : Args V tag) : Logged Ev X Unit :=
  let emplaceAndStart := (fn.invoke args).bind fun child =>
    child.start ω (letChildReceiver receiver)
  if fn.nothrowInvocable args && fn.connectNothrow args then emplaceAndStart.noexcept
  else (emplaceAndStart.catching fun x =>
    signal receiver (.setError (currentException x))).noexcept

/-- `let_receiver`. -/
def letReceiver (tag : Tag) (ω : Ω) (fn : SenderCallable Ω Ev X V tag)
    (receiver : Receiver Ev X V) : Receiver Ev X V := fun c =>
  match select tag c with
  | some args => startChild ω fn receiver args
  | none => signal receiver c

/-- The selected channel: the result is sent as a value, an exception as an
error. -/
theorem completeSelected_eq {tag : Tag} (fn : Callable Ev X V tag (Option V))
    (receiver : Receiver Ev X V) (args : Args V tag) :
    completeSelected fn receiver args =
      ((fn.invoke args).bind fun result => signal receiver (.setValue result.toList)).catching
        fun x => signal receiver (.setError (currentException x)) := by
  unfold completeSelected invokeAndSetValue
  rcases fn.ends args with ⟨log, result, hinvoke⟩ | ⟨hthrows, log, x, hinvoke⟩
  · simp [hinvoke]
  · simp [hinvoke, hthrows]

/-- The selected channel: the child is started, or the exception is sent. -/
theorem startChild_eq {tag : Tag} (ω : Ω) (fn : SenderCallable Ω Ev X V tag)
    (receiver : Receiver Ev X V) (args : Args V tag) :
    startChild ω fn receiver args =
      ((fn.invoke args).bind fun child => child.start ω receiver).catching
        fun x => signal receiver (.setError (currentException x)) := by
  unfold startChild letChildReceiver
  rcases fn.ends args with ⟨log, child, hinvoke⟩ | ⟨hthrows, log, x, hinvoke⟩
  · simp [hinvoke]
  · simp [hinvoke, hthrows]

section Channels

variable {tag : Tag} {c : Completion V} {args : Args V tag} (ω : Ω) (receiver : Receiver Ev X V)
  (fn : Callable Ev X V tag (Option V)) (sfn : SenderCallable Ω Ev X V tag)

theorem signal_adaptor_of_none (hselect : select tag c = none) :
    signal (completionAdaptorReceiver tag fn receiver) c = signal receiver c := by
  unfold completionAdaptorReceiver
  rw [signal]
  simp only [hselect, signal_noexcept]

theorem signal_adaptor_of_some (hselect : select tag c = some args) :
    signal (completionAdaptorReceiver tag fn receiver) c =
      ((fn.invoke args).bind fun result => signal receiver (.setValue result.toList)).catching
        fun x => signal receiver (.setError (currentException x)) := by
  unfold completionAdaptorReceiver
  rw [signal]
  simp only [hselect, completeSelected_eq]
  rcases fn.ends args with ⟨log, result, hinvoke⟩ | ⟨-, log, x, hinvoke⟩
  · simp [hinvoke]
  · simp [hinvoke]

theorem signal_let_of_none (hselect : select tag c = none) :
    signal (letReceiver tag ω sfn receiver) c = signal receiver c := by
  unfold letReceiver
  rw [signal]
  simp only [hselect, signal_noexcept]

theorem signal_let_of_some (hselect : select tag c = some args) :
    signal (letReceiver tag ω sfn receiver) c =
      ((sfn.invoke args).bind fun child => child.start ω receiver).catching
        fun x => signal receiver (.setError (currentException x)) := by
  unfold letReceiver
  rw [signal]
  simp only [hselect, startChild_eq]
  rcases sfn.ends args with ⟨log, child, hinvoke⟩ | ⟨-, log, x, hinvoke⟩
  · simp [hinvoke]
  · simp [hinvoke]

end Channels

/-- On every completion the receiver is signalled once. -/
theorem completionAdaptorReceiver_completes (tag : Tag) (fn : Callable Ev X V tag (Option V))
    (c : Completion V) : ∃ log d, ∀ receiver : Receiver Ev X V,
      signal (completionAdaptorReceiver tag fn receiver) c = (signal receiver d).after log := by
  cases hselect : select tag c with
  | none => exact ⟨[], c, by simp [signal_adaptor_of_none _ _ hselect]⟩
  | some args =>
      rcases fn.ends args with ⟨log, result, hinvoke⟩ | ⟨-, log, x, hinvoke⟩
      · refine ⟨log, .setValue result.toList, ?_⟩
        simp [signal_adaptor_of_some _ _ hselect, hinvoke]
      · refine ⟨log, .setError (currentException x), ?_⟩
        simp [signal_adaptor_of_some _ _ hselect, hinvoke]

theorem letReceiver_completes (tag : Tag) (ω : Ω) (fn : SenderCallable Ω Ev X V tag)
    (c : Completion V) : ∃ log d, ∀ receiver : Receiver Ev X V,
      signal (letReceiver tag ω fn receiver) c = (signal receiver d).after log := by
  cases hselect : select tag c with
  | none => exact ⟨[], c, by simp [signal_let_of_none _ _ _ hselect]⟩
  | some args =>
      rcases fn.ends args with ⟨log, child, hinvoke⟩ | ⟨-, log, x, hinvoke⟩
      · obtain ⟨rest, d, hstart⟩ := child.completes ω
        refine ⟨log ++ rest, d, ?_⟩
        simp [signal_let_of_some _ _ _ hselect, hinvoke, hstart]
      · refine ⟨log, .setError (currentException x), ?_⟩
        simp [signal_let_of_some _ _ _ hselect, hinvoke]

/-! ## The adapted senders -/

/-- `then`, `upon_error` and `upon_stopped`. -/
def completionAdaptor (tag : Tag) (s : Sender Ω Ev X V) (fn : Callable Ev X V tag (Option V)) :
    Sender Ω Ev X V where
  start ω receiver := s.start ω (completionAdaptorReceiver tag fn receiver)
  completes ω := by
    obtain ⟨log, c, hstart⟩ := s.completes ω
    obtain ⟨rest, d, hsignal⟩ := completionAdaptorReceiver_completes tag fn c
    refine ⟨log ++ rest, d, ?_⟩
    intro receiver
    rw [hstart, hsignal, Logged.after_after]

def thenSender (s : Sender Ω Ev X V) (fn : Callable Ev X V .setValue (Option V)) :
    Sender Ω Ev X V :=
  completionAdaptor .setValue s fn

def uponError (s : Sender Ω Ev X V) (fn : Callable Ev X V .setError (Option V)) :
    Sender Ω Ev X V :=
  completionAdaptor .setError s fn

def uponStopped (s : Sender Ω Ev X V) (fn : Callable Ev X V .setStopped (Option V)) :
    Sender Ω Ev X V :=
  completionAdaptor .setStopped s fn

/-- `let_value`, `let_error` and `let_stopped`. -/
def letSender (tag : Tag) (s : Sender Ω Ev X V) (fn : SenderCallable Ω Ev X V tag) :
    Sender Ω Ev X V where
  start ω receiver := s.start ω (letReceiver tag ω fn receiver)
  completes ω := by
    obtain ⟨log, c, hstart⟩ := s.completes ω
    obtain ⟨rest, d, hsignal⟩ := letReceiver_completes tag ω fn c
    refine ⟨log ++ rest, d, ?_⟩
    intro receiver
    rw [hstart, hsignal, Logged.after_after]

def letValue (s : Sender Ω Ev X V) (fn : SenderCallable Ω Ev X V .setValue) : Sender Ω Ev X V :=
  letSender .setValue s fn

def letError (s : Sender Ω Ev X V) (fn : SenderCallable Ω Ev X V .setError) : Sender Ω Ev X V :=
  letSender .setError s fn

def letStopped (s : Sender Ω Ev X V) (fn : SenderCallable Ω Ev X V .setStopped) :
    Sender Ω Ev X V :=
  letSender .setStopped s fn

end Model

end Bexec.Adaptors
