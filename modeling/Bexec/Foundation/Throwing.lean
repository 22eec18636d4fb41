import Mathlib

/-! # Evaluations that may throw

How an evaluation ends, `try` and `catch`, functions that let no exception out,
and runs of constructors some of which may raise.
-/

namespace Bexec.Foundation

/-- How an evaluation ends: with a result, with an exception, or with the
process terminated. -/
inductive Ending (E α : Type*)
  | value (a : α)
  | raised (e : E)
  | terminated
  deriving DecidableEq, Repr

namespace Ending

variable {E α β γ : Type*}

/-- Evaluate `f` on the result of `x`. -/
def bind (x : Ending E α) (f : α → Ending E β) : Ending E β :=
  match x with
  | .value a => f a
  | .raised e => .raised e
  | .terminated => .terminated

/-- `try { x } catch (...) { handler }`. -/
def catching (x : Ending E α) (handler : E → Ending E α) : Ending E α :=
  match x with
  | .value a => .value a
  | .raised e => handler e
  | .terminated => .terminated

/-- A `noexcept` function: an exception that would leave it terminates. -/
def noexcept (x : Ending E α) : Ending E α :=
  x.catching fun _ => .terminated

@[simp] theorem bind_value (a : α) (f : α → Ending E β) : (value a).bind f = f a := rfl

@[simp] theorem bind_raised (e : E) (f : α → Ending E β) :
    (raised e : Ending E α).bind f = .raised e := rfl

@[simp] theorem bind_terminated (f : α → Ending E β) :
    (terminated : Ending E α).bind f = .terminated := rfl

@[simp] theorem catching_value (a : α) (handler : E → Ending E α) :
    (value a).catching handler = .value a := rfl

@[simp] theorem catching_raised (e : E) (handler : E → Ending E α) :
    (raised e : Ending E α).catching handler = handler e := rfl

@[simp] theorem catching_terminated (handler : E → Ending E α) :
    (terminated : Ending E α).catching handler = .terminated := rfl

@[simp] theorem noexcept_value (a : α) : (value a : Ending E α).noexcept = .value a := rfl

@[simp] theorem noexcept_raised (e : E) : (raised e : Ending E α).noexcept = .terminated := rfl

@[simp] theorem noexcept_terminated : (terminated : Ending E α).noexcept = .terminated := rfl

end Ending

section Construct

variable {E Call : Type*} (nothrow : Call → Bool) (raise : Call → Option E)

/-- One constructor call. A constructor declared `noexcept` raises nothing. -/
def construct (call : Call) : Ending E Unit :=
  if nothrow call then .value () else
    match raise call with
    | none => .value ()
    | some e => .raised e

/-- Constructor calls one after another; the first that raises ends them. -/
def constructAll : List Call → Ending E Unit
  | [] => .value ()
  | call :: calls => (construct nothrow raise call).bind fun _ => constructAll calls

variable {nothrow raise}

theorem construct_of_nothrow {call : Call} (hcall : nothrow call = true) :
    construct nothrow raise call = .value () := by
  simp [construct, hcall]

theorem construct_of_quiet {call : Call} (hcall : raise call = none) :
    construct nothrow raise call = .value () := by
  simp [construct, hcall]

theorem construct_raised {call : Call} {e : E} (hcall : nothrow call = false)
    (hraise : raise call = some e) : construct nothrow raise call = .raised e := by
  simp [construct, hcall, hraise]

theorem construct_ne_terminated (call : Call) : construct nothrow raise call ≠ .terminated := by
  unfold construct
  split
  · simp
  · split <;> simp

@[simp] theorem constructAll_nil : constructAll nothrow raise [] = .value () := rfl

@[simp] theorem constructAll_cons (call : Call) (calls : List Call) :
    constructAll nothrow raise (call :: calls) =
      (construct nothrow raise call).bind fun _ => constructAll nothrow raise calls := rfl

theorem constructAll_of_nothrow {calls : List Call} (hcalls : ∀ c ∈ calls, nothrow c = true) :
    constructAll nothrow raise calls = .value () := by
  induction calls with
  | nil => rfl
  | cons call calls ih =>
      obtain ⟨hcall, hcalls⟩ := List.forall_mem_cons.mp hcalls
      simp [construct_of_nothrow hcall, ih hcalls]

theorem constructAll_of_quiet {calls : List Call} (hcalls : ∀ c ∈ calls, raise c = none) :
    constructAll nothrow raise calls = .value () := by
  induction calls with
  | nil => rfl
  | cons call calls ih =>
      obtain ⟨hcall, hcalls⟩ := List.forall_mem_cons.mp hcalls
      simp [construct_of_quiet hcall, ih hcalls]

theorem exists_of_constructAll_raised {calls : List Call} {e : E}
    (hrun : constructAll nothrow raise calls = .raised e) : ∃ c ∈ calls, raise c = some e := by
  induction calls with
  | nil => cases hrun
  | cons call calls ih =>
      rw [constructAll_cons] at hrun
      cases hcall : construct nothrow raise call with
      | value a =>
          rw [hcall, Ending.bind_value] at hrun
          obtain ⟨c, hmem, hraise⟩ := ih hrun
          exact ⟨c, List.mem_cons_of_mem _ hmem, hraise⟩
      | raised e' =>
          rw [hcall, Ending.bind_raised] at hrun
          cases hrun
          refine ⟨call, List.mem_cons_self, ?_⟩
          unfold construct at hcall
          split at hcall
          · cases hcall
          · split at hcall <;> simp_all
      | terminated => exact absurd hcall (construct_ne_terminated call)

/-- The calls go through exactly when none of them raises. -/
theorem constructAll_eq_value_iff {calls : List Call} :
    constructAll nothrow raise calls = .value () ↔
      ∀ c ∈ calls, nothrow c = true ∨ raise c = none := by
  induction calls with
  | nil => simp
  | cons call calls ih =>
      rw [constructAll_cons, List.forall_mem_cons, ← ih]
      cases hcall : nothrow call with
      | true => simp [construct_of_nothrow hcall]
      | false =>
          cases hraise : raise call with
          | none => simp [construct_of_quiet hraise]
          | some e => simp [construct_raised hcall hraise]

theorem constructAll_ne_terminated (calls : List Call) :
    constructAll nothrow raise calls ≠ .terminated := by
  induction calls with
  | nil => simp
  | cons call calls ih =>
      cases hcall : construct nothrow raise call with
      | value a => simpa [hcall] using ih
      | raised e => simp [hcall]
      | terminated => exact absurd hcall (construct_ne_terminated call)

/-- Where only `call` raises, and it may, the run ends with its exception. -/
theorem constructAll_raised [DecidableEq Call] {calls : List Call} {call : Call} {e : E}
    (hmem : call ∈ calls) (hcall : nothrow call = false) :
    constructAll nothrow (fun c => if c = call then some e else none) calls = .raised e := by
  induction calls with
  | nil => simp at hmem
  | cons head calls ih =>
      by_cases hhead : head = call
      · subst hhead
        simp [construct, hcall]
      · have hrest := ih ((List.mem_cons.mp hmem).resolve_left (Ne.symm hhead))
        simp [construct, hhead, hrest]

end Construct

end Bexec.Foundation
