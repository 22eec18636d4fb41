import Bexec.Signatures.Completion
import Bexec.Foundation.Throwing

/-! # What `let_*` declares and what `start_child` sends

The callable of a let adaptor replaces the selected completion by a child
sender. Invoking it and connecting the child may each throw.
-/

namespace Bexec.Let

open Foundation Signatures

variable {Ty E : Type*}

/-- A child sender: what it declares and whether connecting it is `noexcept`. -/
structure ChildSender (Ty : Type*) where
  signatures : List (Signature Ty)
  connectNothrow : Bool

/-- The callable of a let adaptor, on every list of argument types. -/
structure Callable (Ty : Type*) where
  nothrowInvocable : List Ty → Bool
  invokeResult : List Ty → ChildSender Ty

/-- `let_signature`: what one upstream signature becomes. -/
def letSignature (tag : Tag) (fn : Callable Ty) (signature : Signature Ty) :
    List (Signature Ty) :=
  if signature.tag = tag then (fn.invokeResult signature.args).signatures else [signature]

/-- `let_invoke_nothrow`. -/
def letInvokeNothrow (tag : Tag) (fn : Callable Ty) (signature : Signature Ty) : Bool :=
  if signature.tag = tag then fn.nothrowInvocable signature.args else true

/-- The transformed signatures, before the exception is added. -/
def transformed (tag : Tag) (fn : Callable Ty) (signatures : List (Signature Ty)) :
    List (Signature Ty) :=
  signatures.flatMap (letSignature tag fn)

section Declared

variable [DecidableEq Ty] [ArgumentTypes Ty]

/-- `let_completion_signatures`. -/
def letCompletionSignatures (tag : Tag) (fn : Callable Ty) (signatures : List (Signature Ty)) :
    List (Signature Ty) :=
  let fnNothrow := signatures.all (letInvokeNothrow tag fn)
  uniqueTypeList (transformed tag fn signatures ++
    maybeTypeList (!fnNothrow) [.setError exceptionPtr])

theorem mem_letCompletionSignatures {tag : Tag} {fn : Callable Ty}
    {signatures : List (Signature Ty)} {c : Signature Ty} :
    c ∈ letCompletionSignatures tag fn signatures ↔ c ∈ transformed tag fn signatures ∨
      c = .setError exceptionPtr ∧ ∃ s ∈ signatures, letInvokeNothrow tag fn s = false := by
  unfold letCompletionSignatures maybeTypeList
  cases hall : signatures.all (letInvokeNothrow tag fn) with
  | true =>
      have hnothrow := List.all_eq_true.mp hall
      simp only [mem_uniqueTypeList, List.mem_append, Bool.not_true, Bool.false_eq_true,
        if_false, List.not_mem_nil, or_false]
      constructor
      · exact .inl
      · rintro (hmem | ⟨-, s, hs, hthrows⟩)
        · exact hmem
        · rw [hnothrow s hs] at hthrows
          cases hthrows
  | false =>
      have hthrows : ∃ s ∈ signatures, letInvokeNothrow tag fn s = false := by
        simpa using hall
      simp [hthrows]

end Declared

/-- How `start_child` ends: the child is started, or the receiver is sent the
exception. -/
inductive Started (E : Type*)
  | child
  | setError (e : E)
  deriving DecidableEq, Repr

/-- The two things that `start_child` does before the child starts. -/
inductive Call
  | invoke | connect
  deriving DecidableEq, Repr

/-- Whether a call of `start_child` on these arguments is declared `noexcept`. -/
def Callable.nothrow (fn : Callable Ty) (args : List Ty) : Call → Bool
  | .invoke => fn.nothrowInvocable args
  | .connect => (fn.invokeResult args).connectNothrow

/-- `let_operation::start_child`: `raise` says what each of the two calls
throws in this run. -/
def startChild (fn : Callable Ty) (args : List Ty) (raise : Call → Option E) :
    Ending E (Started E) :=
  let emplace : Ending E (Started E) :=
    (constructAll (fn.nothrow args) raise [.invoke, .connect]).bind fun _ => .value .child
  if fn.nothrowInvocable args && (fn.invokeResult args).connectNothrow then
    emplace.noexcept
  else
    (emplace.catching fun e => .value (.setError e)).noexcept

/-- The receiver is sent an exception exactly when the invocation throws, or the
connection does after it. -/
theorem startChild_eq_setError {fn : Callable Ty} {args : List Ty} {raise : Call → Option E}
    {e : E} :
    startChild fn args raise = .value (.setError e) ↔
      constructAll (fn.nothrow args) raise [.invoke, .connect] = .raised e := by
  unfold startChild
  dsimp only
  cases hinvoke : fn.nothrowInvocable args with
  | true =>
      have hcall : fn.nothrow args .invoke = true := hinvoke
      cases hconnect : (fn.invokeResult args).connectNothrow with
      | true =>
          have hcall' : fn.nothrow args .connect = true := hconnect
          simp [construct_of_nothrow hcall, construct_of_nothrow hcall']
      | false =>
          cases hrun : constructAll (fn.nothrow args) raise [.invoke, .connect] <;> simp
  | false => cases hrun : constructAll (fn.nothrow args) raise [.invoke, .connect] <;> simp

/-- `start_child` lets no exception out. -/
theorem startChild_ends (fn : Callable Ty) (args : List Ty) (raise : Call → Option E) :
    ∃ started, startChild fn args raise = .value started := by
  unfold startChild
  dsimp only
  split
  · next hnothrow =>
      obtain ⟨hinvoke, hconnect⟩ := Bool.and_eq_true_iff.mp hnothrow
      refine ⟨.child, ?_⟩
      rw [constructAll_of_nothrow]
      · rfl
      · intro call _
        cases call
        · exact hinvoke
        · exact hconnect
  · cases hrun : constructAll (fn.nothrow args) raise [.invoke, .connect] with
    | value a => exact ⟨.child, rfl⟩
    | raised e => exact ⟨.setError e, rfl⟩
    | terminated => exact absurd hrun (constructAll_ne_terminated _)

/-- Some run of `start_child` on one of the upstream signatures sends an exception. -/
def SendsException (E : Type*) (tag : Tag) (fn : Callable Ty) (signatures : List (Signature Ty)) :
    Prop :=
  ∃ s ∈ signatures, s.tag = tag ∧
    ∃ (raise : Call → Option E) (e : E), startChild fn s.args raise = .value (.setError e)

theorem sendsException_iff [Inhabited E] {tag : Tag} {fn : Callable Ty}
    {signatures : List (Signature Ty)} :
    SendsException E tag fn signatures ↔ ∃ s ∈ signatures, s.tag = tag ∧
      (fn.nothrowInvocable s.args = false ∨ (fn.invokeResult s.args).connectNothrow = false) := by
  have hone : ∀ args, (∃ (raise : Call → Option E) (e : E),
      startChild fn args raise = .value (.setError e)) ↔
        fn.nothrowInvocable args = false ∨ (fn.invokeResult args).connectNothrow = false := by
    intro args
    constructor
    · rintro ⟨raise, e, hrun⟩
      rw [startChild_eq_setError] at hrun
      by_contra hnothrow
      simp only [not_or, Bool.not_eq_false] at hnothrow
      rw [constructAll_of_nothrow] at hrun
      · cases hrun
      · intro call _
        cases call
        · exact hnothrow.1
        · exact hnothrow.2
    · intro hthrows
      have hcall : ∃ call ∈ [Call.invoke, .connect], fn.nothrow args call = false := by
        simpa [Callable.nothrow] using hthrows
      obtain ⟨call, hmem, hcall⟩ := hcall
      simp only [startChild_eq_setError]
      exact ⟨_, default, constructAll_raised hmem hcall⟩
  unfold SendsException
  constructor
  · rintro ⟨s, hs, htag, hrun⟩
    exact ⟨s, hs, htag, (hone s.args).mp hrun⟩
  · rintro ⟨s, hs, htag, hthrows⟩
    exact ⟨s, hs, htag, (hone s.args).mpr hthrows⟩

variable [DecidableEq Ty] [ArgumentTypes Ty]

/-- A let adaptor declares every exception it can send exactly when a selected
invocation may throw, the exception is declared by the child or upstream, or
every selected child connects without throwing. -/
theorem declares_exception_iff [Inhabited E] (tag : Tag) (fn : Callable Ty)
    (signatures : List (Signature Ty)) :
    (SendsException E tag fn signatures →
      Completion.setError exceptionPtr ∈ letCompletionSignatures tag fn signatures) ↔
    (∃ s ∈ signatures, s.tag = tag ∧ fn.nothrowInvocable s.args = false) ∨
      Completion.setError exceptionPtr ∈ transformed tag fn signatures ∨
      ∀ s ∈ signatures, s.tag = tag → (fn.invokeResult s.args).connectNothrow = true := by
  have hselected : (∃ s ∈ signatures, letInvokeNothrow tag fn s = false) ↔
      ∃ s ∈ signatures, s.tag = tag ∧ fn.nothrowInvocable s.args = false := by
    simp [letInvokeNothrow]
  rw [mem_letCompletionSignatures, hselected, sendsException_iff]
  constructor
  · intro h
    by_contra hnone
    simp only [not_or, not_forall] at hnone
    obtain ⟨hinvoke, htransformed, s, hs, htag, hconnect⟩ := hnone
    rcases h ⟨s, hs, htag, .inr (Bool.eq_false_iff.mpr hconnect)⟩ with hmem | ⟨-, hmem⟩
    · exact htransformed hmem
    · exact hinvoke hmem
  · rintro (hinvoke | htransformed | hconnect) ⟨s, hs, htag, hthrows⟩
    · exact .inr ⟨rfl, hinvoke⟩
    · exact .inl htransformed
    · rcases hthrows with hinvoke | hthrows
      · exact .inr ⟨rfl, s, hs, htag, hinvoke⟩
      · rw [hconnect s hs htag] at hthrows
        cases hthrows

/-- A callable that throws nothing and returns a sender, such as `when_all`,
whose `connect` is not `noexcept`. -/
def returnsWhenAll : Callable ArgumentType where
  nothrowInvocable _ := true
  invokeResult args := ⟨[.setValue args], false⟩

theorem undeclared_connect_exception : ¬ (
    SendsException ℕ .setValue returnsWhenAll [.setValue [ArgumentType.object ⟨0, true, true⟩]] →
      Completion.setError exceptionPtr ∈
        letCompletionSignatures .setValue returnsWhenAll [.setValue [ArgumentType.object ⟨0, true, true⟩]]) := by
  intro h
  have hsends : SendsException ℕ .setValue returnsWhenAll
      [.setValue [ArgumentType.object ⟨0, true, true⟩]] := by
    rw [sendsException_iff]
    exact ⟨_, List.mem_singleton_self _, rfl, .inr rfl⟩
  revert h
  simp only [hsends, forall_const]
  decide

end Bexec.Let
