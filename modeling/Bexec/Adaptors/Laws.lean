import Bexec.Adaptors.Sender

/-! # The algebra of `just`, `then` and `let`

Senders are compared by the callables they invoke and the signal they send.
-/

namespace Bexec.Adaptors

open Foundation Signatures

variable {Ω Ev X V : Type*}

/-- Under the outcome `ω` the sender logs these events and then sends `c`. -/
def Sender.Sends (s : Sender Ω Ev X V) (ω : Ω) (log : List Ev) (c : Completion V) : Prop :=
  ∀ receiver : Receiver Ev X V, s.start ω receiver = (signal receiver c).after log

/-- Equal events and an equal signal, for every outcome of the leaves. -/
def Equivalent (s t : Sender Ω Ev X V) : Prop :=
  ∀ ω log c, s.Sends ω log c ↔ t.Sends ω log c

theorem Equivalent.of_start {s t : Sender Ω Ev X V}
    (h : ∀ ω receiver, s.start ω receiver = t.start ω receiver) : Equivalent s t := by
  intro ω log c
  unfold Sender.Sends
  simp only [h]

/-- Senders that agree after each completion of the sender they adapt. -/
theorem Equivalent.of_completion (s : Sender Ω Ev X V) {t u : Sender Ω Ev X V}
    (first second : Ω → Receiver Ev X V → Receiver Ev X V)
    (hfirst : ∀ ω receiver, t.start ω receiver = s.start ω (first ω receiver))
    (hsecond : ∀ ω receiver, u.start ω receiver = s.start ω (second ω receiver))
    (h : ∀ ω receiver c, signal (first ω receiver) c = signal (second ω receiver) c) :
    Equivalent t u := by
  apply of_start
  intro ω receiver
  obtain ⟨log, c, hstart⟩ := s.completes ω
  rw [hfirst, hsecond, hstart, hstart, h]

/-! ## Callables made of callables -/

/-- A lambda that is not declared `noexcept`. -/
def Callable.lambda {tag : Tag} {R : Type*} (invoke : Args V tag → Logged Ev X R)
    (hends : ∀ args, (invoke args).Ends) : Callable Ev X V tag R where
  nothrowInvocable _ := false
  invoke := invoke
  ends args := (hends args).imp_right fun h => ⟨rfl, h⟩

/-- A lambda that returns a sender. -/
def SenderCallable.lambda {tag : Tag} (invoke : Args V tag → Logged Ev X (Sender Ω Ev X V))
    (hends : ∀ args, (invoke args).Ends) : SenderCallable Ω Ev X V tag where
  toCallable := .lambda invoke hends
  connectNothrow _ := false

theorem Callable.invoke_ends {tag : Tag} {R : Type*} (fn : Callable Ev X V tag R)
    (args : Args V tag) : (fn.invoke args).Ends :=
  (fn.ends args).imp_right And.right

/-- `just`, `just_error` and `just_stopped` as callables. -/
def justCallable (tag : Tag) : SenderCallable Ω Ev X V tag :=
  .lambda (fun args => .pure (justOf tag args)) fun args => .pure (justOf tag args)

/-- `x => just(fn(x))`. -/
def Callable.thenJust {tag : Tag} (fn : Callable Ev X V tag (Option V)) :
    SenderCallable Ω Ev X V tag :=
  .lambda (fun args => (fn.invoke args).bind fun result => .pure (just result.toList))
    fun args => (fn.invoke_ends args).bind fun _ => .pure _

/-- `x => second(first(x))`. -/
def Callable.comp {tag : Tag} (second : Callable Ev X V .setValue (Option V))
    (first : Callable Ev X V tag (Option V)) : Callable Ev X V tag (Option V) :=
  .lambda (fun args => (first.invoke args).bind fun result => second.invoke result.toList)
    fun args => (first.invoke_ends args).bind fun _ => second.invoke_ends _

variable [Exceptions X V]

/-- `x => let_*(first(x), second)`. -/
def SenderCallable.thenLet {tag : Tag} (first second : SenderCallable Ω Ev X V tag) :
    SenderCallable Ω Ev X V tag :=
  .lambda (fun args => (first.invoke args).bind fun child => .pure (letSender tag child second))
    fun args => (first.invoke_ends args).bind fun _ => .pure _

/-- `x => first(x)`, or `second` of the exception where `first` throws. -/
def Callable.orElse {R : Type*} (first second : Callable Ev X V .setError R) :
    Callable Ev X V .setError R :=
  .lambda (fun error => (first.invoke error).catching fun x => second.invoke (currentException x))
    fun error => (first.invoke_ends error).catching fun _ => second.invoke_ends _

/-- `x => let_error(first(x), second)`, or `second` of the exception where
`first` throws. -/
def SenderCallable.thenLetOrElse (first second : SenderCallable Ω Ev X V .setError) :
    SenderCallable Ω Ev X V .setError :=
  .lambda (fun error => ((first.invoke error).bind fun child => .pure (letError child second)).catching
      fun x => second.invoke (currentException x))
    fun error => ((first.invoke_ends error).bind fun _ => .pure _).catching
      fun _ => second.invoke_ends _

/-- `fn(args)`, with an exception of `fn` sent as an error. -/
def ofCall {tag : Tag} (fn : SenderCallable Ω Ev X V tag) (args : Args V tag) :
    Sender Ω Ev X V where
  start ω receiver := ((fn.invoke args).bind fun child => child.start ω receiver).catching
    fun x => signal receiver (.setError (currentException x))
  completes ω := by
    rcases fn.ends args with ⟨log, child, hinvoke⟩ | ⟨-, log, x, hinvoke⟩
    · obtain ⟨rest, c, hstart⟩ := child.completes ω
      refine ⟨log ++ rest, c, ?_⟩
      simp [hinvoke, hstart]
    · refine ⟨log, .setError (currentException x), ?_⟩
      simp [hinvoke]

/-! ## The laws -/

theorem let_just (tag : Tag) (args : Args V tag) (fn : SenderCallable Ω Ev X V tag) :
    Equivalent (letSender tag (justOf tag args) fn) (ofCall fn args) := by
  apply Equivalent.of_start
  intro ω receiver
  unfold letSender
  dsimp only
  rw [justOf_start, signal_let_of_some _ _ _ (select_completion tag args)]
  rfl

theorem let_justCallable (tag : Tag) (s : Sender Ω Ev X V) :
    Equivalent (letSender tag s (justCallable tag)) s := by
  apply Equivalent.of_completion s (fun ω => letReceiver tag ω (justCallable tag))
    (fun _ receiver => receiver) (fun _ _ => rfl) (fun _ _ => rfl)
  intro ω receiver c
  cases hselect : select tag c with
  | none => exact signal_let_of_none _ _ _ hselect
  | some args =>
      rw [signal_let_of_some _ _ _ hselect, eq_completion_of_select hselect]
      simp [justCallable, SenderCallable.lambda, Callable.lambda, justOf_start]

theorem adaptor_eq_let (tag : Tag) (s : Sender Ω Ev X V)
    (fn : Callable Ev X V tag (Option V)) :
    Equivalent (completionAdaptor tag s fn) (letSender tag s fn.thenJust) := by
  apply Equivalent.of_completion s (fun _ => completionAdaptorReceiver tag fn)
    (fun ω => letReceiver tag ω fn.thenJust) (fun _ _ => rfl) (fun _ _ => rfl)
  intro ω receiver c
  cases hselect : select tag c with
  | none => rw [signal_let_of_none _ _ _ hselect, signal_adaptor_of_none _ _ hselect]
  | some args =>
      rw [signal_let_of_some _ _ _ hselect, signal_adaptor_of_some _ _ hselect]
      unfold Callable.thenJust SenderCallable.lambda Callable.lambda
      rw [Logged.bind_assoc]
      simp [just, leaf]

/-- The exception of a callable is not selected on the value and the stopped
channel. -/
theorem let_let {tag : Tag} (htag : tag ≠ .setError) (s : Sender Ω Ev X V)
    (first second : SenderCallable Ω Ev X V tag) :
    Equivalent (letSender tag (letSender tag s first) second)
      (letSender tag s (first.thenLet second)) := by
  apply Equivalent.of_completion s
    (fun ω receiver => letReceiver tag ω first (letReceiver tag ω second receiver))
    (fun ω => letReceiver tag ω (first.thenLet second)) (fun _ _ => rfl) (fun _ _ => rfl)
  intro ω receiver c
  cases hselect : select tag c with
  | none =>
      rw [signal_let_of_none _ _ _ hselect, signal_let_of_none _ _ _ hselect,
        signal_let_of_none _ _ _ hselect]
  | some args =>
      rw [signal_let_of_some _ _ _ hselect, signal_let_of_some _ _ _ hselect]
      unfold SenderCallable.thenLet SenderCallable.lambda Callable.lambda
      rw [Logged.bind_assoc]
      have hforwarded : ∀ error, select tag (Completion.setError error : Completion V) = none :=
        fun _ => select_eq_none htag.symm
      simp only [signal_let_of_none _ _ _ (hforwarded _), Logged.pure_bind]
      rfl

/-- On the error channel the second callable gets the exception of the first. -/
theorem letError_letError (s : Sender Ω Ev X V)
    (first second : SenderCallable Ω Ev X V .setError) :
    Equivalent (letError (letError s first) second)
      (letError s (first.thenLetOrElse second)) := by
  apply Equivalent.of_completion s
    (fun ω receiver => letReceiver .setError ω first (letReceiver .setError ω second receiver))
    (fun ω => letReceiver .setError ω (first.thenLetOrElse second)) (fun _ _ => rfl)
    (fun _ _ => rfl)
  intro ω receiver c
  cases hselect : select .setError c with
  | none =>
      rw [signal_let_of_none _ _ _ hselect, signal_let_of_none _ _ _ hselect,
        signal_let_of_none _ _ _ hselect]
  | some error =>
      rw [signal_let_of_some _ _ _ hselect, signal_let_of_some _ _ _ hselect]
      unfold SenderCallable.thenLetOrElse SenderCallable.lambda Callable.lambda
      rcases first.ends error with ⟨log, child, hinvoke⟩ | ⟨-, log, x, hinvoke⟩
      · simp [hinvoke, letError, letSender]
      · simp [hinvoke, signal_let_of_some _ _ _ (select_setError_self _)]

theorem then_then (s : Sender Ω Ev X V) (first second : Callable Ev X V .setValue (Option V)) :
    Equivalent (thenSender (thenSender s first) second) (thenSender s (second.comp first)) := by
  apply Equivalent.of_completion s
    (fun _ receiver => completionAdaptorReceiver .setValue first
      (completionAdaptorReceiver .setValue second receiver))
    (fun _ => completionAdaptorReceiver .setValue (second.comp first)) (fun _ _ => rfl)
    (fun _ _ => rfl)
  intro _ receiver c
  cases hselect : select .setValue c with
  | none =>
      rw [signal_adaptor_of_none _ _ hselect, signal_adaptor_of_none _ _ hselect,
        signal_adaptor_of_none _ _ hselect]
  | some args =>
      rw [signal_adaptor_of_some _ _ hselect, signal_adaptor_of_some _ _ hselect]
      unfold Callable.comp Callable.lambda
      rcases first.ends args with ⟨log, result, hinvoke⟩ | ⟨-, log, x, hinvoke⟩
      · have hselected : select .setValue (.setValue result.toList) = some result.toList := rfl
        simp only [hinvoke, Logged.after_bind, Logged.pure_bind, Logged.after_catching,
          signal_catching]
        rw [signal_adaptor_of_some _ _ hselected]
      · have hforwarded : select .setValue (.setError (currentException x)) = none := rfl
        simp [hinvoke, signal_adaptor_of_none _ _ hforwarded]

/-- The result of the first callable is a value, only its exception is an error. -/
theorem uponError_uponError (s : Sender Ω Ev X V)
    (first second : Callable Ev X V .setError (Option V)) :
    Equivalent (uponError (uponError s first) second) (uponError s (first.orElse second)) := by
  apply Equivalent.of_completion s
    (fun _ receiver => completionAdaptorReceiver .setError first
      (completionAdaptorReceiver .setError second receiver))
    (fun _ => completionAdaptorReceiver .setError (first.orElse second)) (fun _ _ => rfl)
    (fun _ _ => rfl)
  intro _ receiver c
  cases hselect : select .setError c with
  | none =>
      rw [signal_adaptor_of_none _ _ hselect, signal_adaptor_of_none _ _ hselect,
        signal_adaptor_of_none _ _ hselect]
  | some error =>
      rw [signal_adaptor_of_some _ _ hselect, signal_adaptor_of_some _ _ hselect]
      unfold Callable.orElse Callable.lambda
      rcases first.ends error with ⟨log, result, hinvoke⟩ | ⟨-, log, x, hinvoke⟩
      · have hforwarded : select .setError (.setValue result.toList) = none := rfl
        simp [hinvoke, signal_adaptor_of_none _ _ hforwarded]
      · simp [hinvoke, signal_adaptor_of_some _ _ (select_setError_self _)]

theorem uponStopped_uponStopped (s : Sender Ω Ev X V)
    (first second : Callable Ev X V .setStopped (Option V)) :
    Equivalent (uponStopped (uponStopped s first) second) (uponStopped s first) := by
  apply Equivalent.of_completion s
    (fun _ receiver => completionAdaptorReceiver .setStopped first
      (completionAdaptorReceiver .setStopped second receiver))
    (fun _ => completionAdaptorReceiver .setStopped first) (fun _ _ => rfl) (fun _ _ => rfl)
  intro _ receiver c
  cases hselect : select .setStopped c with
  | none =>
      rw [signal_adaptor_of_none _ _ hselect, signal_adaptor_of_none _ _ hselect,
        signal_adaptor_of_none _ _ hselect]
  | some args =>
      rw [signal_adaptor_of_some _ _ hselect, signal_adaptor_of_some _ _ hselect]
      rcases first.ends args with ⟨log, result, hinvoke⟩ | ⟨-, log, x, hinvoke⟩
      · have hforwarded : select .setStopped (.setValue result.toList) = none := rfl
        simp [hinvoke, signal_adaptor_of_none _ _ hforwarded]
      · have hforwarded : select .setStopped (.setError (currentException x)) = none := rfl
        simp [hinvoke, signal_adaptor_of_none _ _ hforwarded]

/-- Where the first callable of a nested `let_error` does not throw, the law of
the other channels holds. -/
theorem letError_letError_of_returns (s : Sender Ω Ev X V)
    (first second : SenderCallable Ω Ev X V .setError)
    (hreturns : ∀ error, ∃ log child, first.invoke error = (Logged.pure child).after log) :
    Equivalent (letError (letError s first) second) (letError s (first.thenLet second)) := by
  apply Equivalent.of_completion s
    (fun ω receiver => letReceiver .setError ω first (letReceiver .setError ω second receiver))
    (fun ω => letReceiver .setError ω (first.thenLet second)) (fun _ _ => rfl) (fun _ _ => rfl)
  intro ω receiver c
  cases hselect : select .setError c with
  | none =>
      rw [signal_let_of_none _ _ _ hselect, signal_let_of_none _ _ _ hselect,
        signal_let_of_none _ _ _ hselect]
  | some error =>
      rw [signal_let_of_some _ _ _ hselect, signal_let_of_some _ _ _ hselect]
      unfold SenderCallable.thenLet SenderCallable.lambda Callable.lambda
      obtain ⟨log, child, hinvoke⟩ := hreturns error
      simp [hinvoke, letSender]

/-- The exception of the selected callable is sent downstream, and nothing is
invoked after it. -/
theorem completionAdaptor_reports {tag : Tag} {s : Sender Ω Ev X V}
    {fn : Callable Ev X V tag (Option V)} {ω : Ω} {before log : List Ev} {args : Args V tag} {x : X}
    (hsends : s.Sends ω before (completion tag args))
    (hthrows : fn.invoke args = (Logged.raise x).after log) :
    (completionAdaptor tag s fn).Sends ω (before ++ log) (.setError (currentException x)) := by
  intro receiver
  have hstart := hsends (completionAdaptorReceiver tag fn receiver)
  rw [signal_adaptor_of_some _ _ (select_completion tag args), hthrows] at hstart
  simp only [Logged.after_bind, Logged.raise_bind, Logged.after_catching, Logged.raise_catching,
    Logged.after_after] at hstart
  exact hstart

theorem letSender_reports {tag : Tag} {s : Sender Ω Ev X V} {fn : SenderCallable Ω Ev X V tag}
    {ω : Ω} {before log : List Ev} {args : Args V tag} {x : X}
    (hsends : s.Sends ω before (completion tag args))
    (hthrows : fn.invoke args = (Logged.raise x).after log) :
    (letSender tag s fn).Sends ω (before ++ log) (.setError (currentException x)) := by
  intro receiver
  have hstart := hsends (letReceiver tag ω fn receiver)
  rw [signal_let_of_some _ _ _ (select_completion tag args), hthrows] at hstart
  simp only [Logged.after_bind, Logged.raise_bind, Logged.after_catching, Logged.raise_catching,
    Logged.after_after] at hstart
  exact hstart

/-- The selected child is started, and its signal is forwarded. -/
theorem letSender_starts {tag : Tag} {s child : Sender Ω Ev X V}
    {fn : SenderCallable Ω Ev X V tag} {ω : Ω} {before log rest : List Ev} {args : Args V tag}
    {c : Completion V} (hsends : s.Sends ω before (completion tag args))
    (hreturns : fn.invoke args = (Logged.pure child).after log) (hchild : child.Sends ω rest c) :
    (letSender tag s fn).Sends ω (before ++ (log ++ rest)) c := by
  intro receiver
  have hstart := hsends (letReceiver tag ω fn receiver)
  rw [signal_let_of_some _ _ _ (select_completion tag args), hreturns] at hstart
  simp only [Logged.after_bind, Logged.pure_bind, Logged.after_catching, hchild receiver,
    signal_catching, Logged.after_after] at hstart
  exact hstart

omit [Exceptions X V] in
theorem leaf_sends (outcome : Ω → Completion V) (ω : Ω) :
    (leaf outcome : Sender Ω Ev X V).Sends ω [] (outcome ω) := by
  intro receiver
  rw [Logged.after_nil]
  rfl

/-- The algebra of senders. On the error channel a nested adaptor takes the
exception of the callable below it. -/
theorem sender_algebra (s : Sender Ω Ev X V) :
    (∀ tag (args : Args V tag) (fn : SenderCallable Ω Ev X V tag),
      Equivalent (letSender tag (justOf tag args) fn) (ofCall fn args)) ∧
    (∀ tag, Equivalent (letSender tag s (justCallable tag)) s) ∧
    (∀ tag (fn : Callable Ev X V tag (Option V)),
      Equivalent (completionAdaptor tag s fn) (letSender tag s fn.thenJust)) ∧
    (∀ first second, Equivalent (letValue (letValue s first) second)
      (letValue s (first.thenLet second))) ∧
    (∀ first second, Equivalent (letStopped (letStopped s first) second)
      (letStopped s (first.thenLet second))) ∧
    (∀ first second, Equivalent (letError (letError s first) second)
        (letError s (first.thenLetOrElse second)) ∧
      ((∀ error, ∃ log child, first.invoke error = (Logged.pure child).after log) →
        Equivalent (letError (letError s first) second) (letError s (first.thenLet second)))) ∧
    (∀ first second, Equivalent (thenSender (thenSender s first) second)
      (thenSender s (second.comp first))) ∧
    (∀ first second, Equivalent (uponError (uponError s first) second)
      (uponError s (first.orElse second))) ∧
    (∀ first second, Equivalent (uponStopped (uponStopped s first) second)
      (uponStopped s first)) ∧
    (∀ tag (fn : Callable Ev X V tag (Option V)) (sfn : SenderCallable Ω Ev X V tag) ω before log
        (args : Args V tag) x, s.Sends ω before (completion tag args) →
      (fn.invoke args = (Logged.raise x).after log →
        (completionAdaptor tag s fn).Sends ω (before ++ log) (.setError (currentException x))) ∧
      (sfn.invoke args = (Logged.raise x).after log →
        (letSender tag s sfn).Sends ω (before ++ log) (.setError (currentException x)))) := by
  refine ⟨let_just, fun tag => let_justCallable tag s, fun tag => adaptor_eq_let tag s,
    let_let (by simp) s, let_let (by simp) s, ?_, then_then s, uponError_uponError s,
    uponStopped_uponStopped s, ?_⟩
  · intro first second
    exact ⟨letError_letError s first second, letError_letError_of_returns s first second⟩
  · intro tag fn sfn ω before log args x hsends
    exact ⟨completionAdaptor_reports hsends, letSender_reports hsends⟩

/-! ## An exception on the error channel -/

/-- What is observed: a callable is invoked on an error, or the receiver is
signalled. -/
inductive Event
  | invoked (fn : ℕ) (error : ℕ)
  | received (c : Completion ℕ)
  deriving DecidableEq

instance : Exceptions ℕ ℕ := ⟨id⟩

/-- A callable that throws `9`. -/
def throwing : SenderCallable Unit Event ℕ ℕ .setError :=
  .lambda (fun error => (Logged.raise 9).after [.invoked 0 error])
    fun _ => (Logged.Ends.raise 9).after _

/-- A callable that sends the error as a value. -/
def recovering : SenderCallable Unit Event ℕ ℕ .setError :=
  .lambda (fun error => (Logged.pure (just [error])).after [.invoked 1 error])
    fun _ => (Logged.Ends.pure _).after _

theorem throwing_sends : (letError (justError 5) throwing).Sends () [.invoked 0 5] (.setError 9) := by
  have hjust : (justError 5 : Sender Unit Event ℕ ℕ).Sends () [] (completion .setError 5) :=
    leaf_sends (fun _ => .setError 5) ()
  have hthrows : throwing.invoke 5 = (Logged.raise 9).after [.invoked 0 5] := rfl
  exact letSender_reports hjust hthrows

/-- `let_error` gives the exception of its inner callable to the outer one. -/
theorem letError_not_associative : ¬ ∀ (s : Sender Unit Event ℕ ℕ)
    (first second : SenderCallable Unit Event ℕ ℕ .setError),
    Equivalent (letError (letError s first) second) (letError s (first.thenLet second)) := by
  intro h
  have hthrown : (letError (justError 5) throwing).Sends () [.invoked 0 5]
      (completion .setError 9) := throwing_sends
  have hreturns : recovering.invoke 9 = (Logged.pure (just [9])).after [.invoked 1 9] := rfl
  have hsends := letSender_starts hthrown hreturns (leaf_sends (fun _ => .setValue [9]) ())
  have hreceived := (h _ _ _ _ _ _).mp hsends fun c => Logged.emit (.received c)
  revert hreceived
  decide

end Bexec.Adaptors
