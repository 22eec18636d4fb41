import Bexec.Foundation.Throwing
import Bexec.Signatures.Completion

/-! # Storing a completion

A child's completion is kept in a variant until it is delivered. The path
without `try` is chosen by what the arguments promise, and it then moves what
they have built into the variant.
-/

namespace Bexec.Signatures

open Foundation

variable {Ty E R : Type*}

/-- Where a constructor runs: for the tuple or its conversion, for the by-value
parameter of the stored alternative, or for its member. -/
inductive Stage
  | build | parameter | member
  deriving DecidableEq, Repr

/-- A constructor call: at which stage, for which element, from which type. -/
structure Construction (Ty : Type*) where
  stage : Stage
  index : ℕ
  source : Ty
  deriving DecidableEq

variable [ArgumentTypes Ty]

/-- Whether the constructor that is called is declared `noexcept`. -/
def Construction.nothrow (c : Construction Ty) : Bool :=
  nothrowFrom c.source

/-- One constructor call for every element of a tuple. -/
def elementwise (stage : Stage) (sources : List Ty) : List (Construction Ty) :=
  sources.mapIdx fun index source => ⟨stage, index, source⟩

/-- Storing a value: `tuple_type{args...}`, moved into the parameter of
`value_completion` and from there into its member. -/
def storeValueCalls (args : List Ty) : List (Construction Ty) :=
  elementwise .build args ++ elementwise .parameter (args.map decay) ++
    elementwise .member (args.map decay)

/-- Storing an error: the parameter of `error_completion`, moved into its member. -/
def storeErrorCalls (error : Ty) : List (Construction Ty) :=
  [⟨.parameter, 0, error⟩, ⟨.member, 0, decay error⟩]

omit [ArgumentTypes Ty] in
theorem forall_mem_elementwise {stage : Stage} {sources : List Ty} {p : Ty → Prop} :
    (∀ c ∈ elementwise stage sources, p c.source) ↔ ∀ T ∈ sources, p T := by
  simp only [elementwise, List.mem_mapIdx]
  constructor
  · intro h T hmem
    obtain ⟨i, hi, rfl⟩ := List.mem_iff_getElem.mp hmem
    exact h _ ⟨i, hi, rfl⟩
  · rintro h c ⟨i, hi, rfl⟩
    exact h _ (List.getElem_mem hi)

/-- The constructor calls of storing a completion. -/
def storeCalls : Signature Ty → List (Construction Ty)
  | .setValue args => storeValueCalls args
  | .setError error => storeErrorCalls error
  | .setStopped => []

/-- The condition under which the path without `try` is compiled. -/
def storeNothrow (c : Signature Ty) : Bool :=
  c.args.all nothrowFrom

theorem storeCalls_nothrow_iff {c : Signature Ty} :
    (∀ call ∈ storeCalls c, call.nothrow = true) ↔
      ∀ T ∈ c.args, nothrowFrom T = true ∧ nothrowFrom (decay T) = true := by
  cases c with
  | setValue args =>
      have hstage : ∀ stage (sources : List Ty),
          (∀ call ∈ elementwise stage sources, call.nothrow = true) ↔
            ∀ T ∈ sources, nothrowFrom T = true := fun stage sources =>
        forall_mem_elementwise (p := fun T => nothrowFrom T = true)
      simp only [storeCalls, storeValueCalls, List.forall_mem_append, hstage,
        List.forall_mem_map, Completion.args]
      constructor
      · rintro ⟨⟨hbuild, hparameter⟩, -⟩ T hmem
        exact ⟨hbuild T hmem, hparameter T hmem⟩
      · intro h
        exact ⟨⟨fun T hmem => (h T hmem).1, fun T hmem => (h T hmem).2⟩,
          fun T hmem => (h T hmem).2⟩
  | setError error =>
      simp [storeCalls, storeErrorCalls, Construction.nothrow, Completion.args]
  | setStopped => simp [storeCalls, Completion.args]

section Storing

variable (raise : Construction Ty → Option E)

/-- Store a completion on the path that is chosen for it: `stored` is what
follows, and `handler` the `catch` block of the path with `try`. -/
def storing (c : Signature Ty) (stored : R) (handler : E → R) : Ending E R :=
  let path := (constructAll Construction.nothrow raise (storeCalls c)).bind fun _ => .value stored
  if storeNothrow c then path.noexcept
  else (path.catching fun e => .value (handler e)).noexcept

variable {raise}

theorem storing_of_value {c : Signature Ty} {stored : R} {handler : E → R}
    (hrun : constructAll Construction.nothrow raise (storeCalls c) = .value ()) :
    storing raise c stored handler = .value stored := by
  unfold storing
  split <;> simp [hrun]

theorem storing_of_raised {c : Signature Ty} {stored : R} {handler : E → R} {e : E}
    (hguarded : storeNothrow c = false)
    (hrun : constructAll Construction.nothrow raise (storeCalls c) = .raised e) :
    storing raise c stored handler = .value (handler e) := by
  simp [storing, hguarded, hrun]

theorem storing_terminated {c : Signature Ty} {stored : R} {handler : E → R} {e : E}
    (hfast : storeNothrow c = true)
    (hrun : constructAll Construction.nothrow raise (storeCalls c) = .raised e) :
    storing raise c stored handler = .terminated := by
  simp [storing, hfast, hrun]

/-- Storing either succeeds, runs the handler, or terminates on the path that
has none. -/
theorem storing_cases (raise : Construction Ty → Option E) (c : Signature Ty) (stored : R)
    (handler : E → R) :
    storing raise c stored handler = .value stored ∨
      (storeNothrow c = false ∧ ∃ e, storing raise c stored handler = .value (handler e)) ∨
      storeNothrow c = true ∧ storing raise c stored handler = .terminated := by
  cases hrun : constructAll Construction.nothrow raise (storeCalls c) with
  | value a => exact .inl (storing_of_value hrun)
  | raised e =>
      cases hfast : storeNothrow c with
      | true => exact .inr (.inr ⟨rfl, storing_terminated hfast hrun⟩)
      | false => exact .inr (.inl ⟨rfl, e, storing_of_raised hfast hrun⟩)
  | terminated => exact absurd hrun (constructAll_ne_terminated _)

/-- Without exceptions every completion is stored. -/
theorem storing_quiet {c : Signature Ty} {stored : R} {handler : E → R}
    (hquiet : ∀ call, raise call = none) : storing raise c stored handler = .value stored := by
  apply storing_of_value
  exact constructAll_of_quiet fun call _ => hquiet call

/-- A constructor that may throw does in some run. -/
theorem exists_storing_raised [DecidableEq Ty] {c : Signature Ty} {stored : R} {handler : E → R}
    (e : E) (hguarded : storeNothrow c = false) :
    ∃ raise : Construction Ty → Option E,
      storing raise c stored handler = .value (handler e) := by
  have hcall : ∃ call ∈ storeCalls c, call.nothrow = false := by
    by_contra hnone
    have hall : ∀ call ∈ storeCalls c, call.nothrow = true := by simpa using hnone
    have hfast : storeNothrow c = true :=
      List.all_eq_true.mpr fun T hmem => (storeCalls_nothrow_iff.mp hall T hmem).1
    rw [hguarded] at hfast
    cases hfast
  obtain ⟨call, hmem, hcall⟩ := hcall
  exact ⟨_, storing_of_raised hguarded (constructAll_raised hmem hcall)⟩

end Storing

/-- What is left in `stored_`: the completion, or `set_error(exception_ptr)`. -/
inductive Stored (E : Type*)
  | completion
  | exception (e : E)
  deriving DecidableEq, Repr

/-- What `on` does once it tried to store: schedule the delivery, or signal the
receiver. -/
inductive Hop (E : Type*)
  | startFinal
  | setError (e : E)
  deriving DecidableEq, Repr

end Bexec.Signatures

namespace Bexec.RepeatUntil

open Foundation Signatures

variable {Ty E : Type*} [ArgumentTypes Ty]

/-- `repeat_until_operation::child_value`, up to `finish_child`. -/
def childValue (raise : Construction Ty → Option E) (args : List Ty) :
    Foundation.Ending E (Stored E) :=
  storing raise (.setValue args) .completion .exception

/-- `repeat_until_operation::child_error`, up to `finish_child`. -/
def childError (raise : Construction Ty → Option E) (error : Ty) : Foundation.Ending E (Stored E) :=
  storing raise (.setError error) .completion .exception

end Bexec.RepeatUntil

namespace Bexec.On

open Foundation Signatures

variable {Ty E : Type*} [ArgumentTypes Ty]

/-- `on_sender::operation::store_value`, up to `start_final`. -/
def storeValue (raise : Construction Ty → Option E) (args : List Ty) : Ending E (Hop E) :=
  storing raise (.setValue args) .startFinal .setError

/-- `on_sender::operation::store_error`, up to `start_final`. -/
def storeError (raise : Construction Ty → Option E) (error : Ty) : Ending E (Hop E) :=
  storing raise (.setError error) .startFinal .setError

end Bexec.On

namespace Bexec.Signatures

open Foundation

variable {Ty E R : Type*} [ArgumentTypes Ty]

/-- The path without `try` runs only constructors that cannot throw, the path
with it turns any exception into the one that its handler passes on, and none
leaves the function. -/
structure StoresSafely (c : Signature Ty) (store : (Construction Ty → Option E) → Ending E R)
    (stored : R) (handler : E → R) : Prop where
  fast : storeNothrow c = true → ∀ call ∈ storeCalls c, call.nothrow = true
  guarded : storeNothrow c = false → ∀ raise e,
    constructAll Construction.nothrow raise (storeCalls c) = .raised e →
      store raise = .value (handler e)
  contained : ∀ raise, store raise = .value stored ∨ ∃ e, store raise = .value (handler e)

/-- The completions for which storing is safe: some argument's constructor may
throw, or every decayed type moves without throwing. -/
def MovesSafely (c : Signature Ty) : Prop :=
  (∃ T ∈ c.args, nothrowFrom T = false) ∨ ∀ T ∈ c.args, nothrowFrom (decay T) = true

theorem movesSafely_iff {c : Signature Ty} :
    MovesSafely c ↔ (storeNothrow c = true → ∀ call ∈ storeCalls c, call.nothrow = true) := by
  have hslow : (∃ T ∈ c.args, nothrowFrom T = false) ↔ ¬ storeNothrow c = true := by
    simp [storeNothrow]
  unfold MovesSafely
  rw [hslow, storeCalls_nothrow_iff]
  constructor
  · rintro (hslow | hmoves) hfast
    · exact absurd hfast hslow
    · intro T hmem
      exact ⟨List.all_eq_true.mp hfast T hmem, hmoves T hmem⟩
  · intro h
    by_cases hfast : storeNothrow c = true
    · exact .inr fun T hmem => (h hfast T hmem).2
    · exact .inl hfast

theorem storing_storesSafely_iff {c : Signature Ty} {stored : R} {handler : E → R} :
    StoresSafely c (fun raise => storing raise c stored handler) stored handler ↔
      MovesSafely c := by
  rw [movesSafely_iff]
  constructor
  · intro h
    exact h.fast
  · intro hsafe
    constructor
    · exact hsafe
    · intro hguarded raise e hrun
      exact storing_of_raised hguarded hrun
    · intro raise
      rcases storing_cases raise c stored handler with hstored | ⟨-, hraised⟩ | ⟨hfast, hend⟩
      · exact .inl hstored
      · exact .inr hraised
      · rw [storing_of_value (constructAll_of_nothrow (hsafe hfast))] at hend
        cases hend

/-- `repeat_until` and `on` store a value or an error safely exactly when the
constructor from some argument may throw or every decayed type moves without
throwing. -/
theorem storage_safe_iff (args : List Ty) (error : Ty) :
    ((StoresSafely (.setValue args) (fun raise => RepeatUntil.childValue raise args)
          .completion (Stored.exception : E → Stored E) ∧
        StoresSafely (.setValue args) (fun raise => On.storeValue raise args)
          .startFinal (Hop.setError : E → Hop E)) ↔ MovesSafely (.setValue args)) ∧
    ((StoresSafely (.setError error) (fun raise => RepeatUntil.childError raise error)
          .completion (Stored.exception : E → Stored E) ∧
        StoresSafely (.setError error) (fun raise => On.storeError raise error)
          .startFinal (Hop.setError : E → Hop E)) ↔ MovesSafely (.setError error)) := by
  constructor
  · unfold RepeatUntil.childValue On.storeValue
    rw [storing_storesSafely_iff, storing_storesSafely_iff, and_self]
  · unfold RepeatUntil.childError On.storeError
    rw [storing_storesSafely_iff, storing_storesSafely_iff, and_self]

/-- An lvalue of a type that is copied without throwing and moved by a
constructor that may throw: the move leaves `child_value`. -/
theorem lvalue_not_stored_safely :
    ¬ StoresSafely (.setValue [ArgumentType.lvalue ⟨0, true, false⟩])
      (fun raise => RepeatUntil.childValue raise [ArgumentType.lvalue ⟨0, true, false⟩])
      .completion (Stored.exception : ℕ → Stored ℕ) := by
  intro h
  have hends := h.contained fun c => if c.stage = .parameter then some 7 else none
  have hrun : RepeatUntil.childValue
      (fun c : Construction ArgumentType => if c.stage = .parameter then some 7 else none)
      [ArgumentType.lvalue ⟨0, true, false⟩] = (.terminated : Ending ℕ (Stored ℕ)) := by
    rfl
  rw [hrun] at hends
  rcases hends with hstored | ⟨e, hraised⟩
  · cases hstored
  · cases hraised

end Bexec.Signatures
