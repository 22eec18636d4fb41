import Bexec.Foundation.Throwing

/-! # Evaluations with a log

An evaluation that may throw together with the events that happen in it, in
order.
-/

namespace Bexec.Foundation

/-- The events of an evaluation, and how it ends. -/
@[ext] structure Logged (Ev E α : Type*) where
  log : List Ev
  ending : Ending E α
  deriving DecidableEq

namespace Logged

variable {Ev E α β γ : Type*}

/-- An evaluation without events. -/
def pure (a : α) : Logged Ev E α :=
  ⟨[], .value a⟩

def raise (e : E) : Logged Ev E α :=
  ⟨[], .raised e⟩

/-- One event. -/
def emit (event : Ev) : Logged Ev E Unit :=
  ⟨[event], .value ()⟩

/-- An evaluation before which other events happen. -/
def after (events : List Ev) (x : Logged Ev E α) : Logged Ev E α :=
  ⟨events ++ x.log, x.ending⟩

/-- Evaluate `f` on the result of `x`. -/
def bind (x : Logged Ev E α) (f : α → Logged Ev E β) : Logged Ev E β :=
  match x.ending with
  | .value a => (f a).after x.log
  | .raised e => ⟨x.log, .raised e⟩
  | .terminated => ⟨x.log, .terminated⟩

/-- `try { x } catch (...) { handler }`. -/
def catching (x : Logged Ev E α) (handler : E → Logged Ev E α) : Logged Ev E α :=
  match x.ending with
  | .raised e => (handler e).after x.log
  | .value a => ⟨x.log, .value a⟩
  | .terminated => ⟨x.log, .terminated⟩

/-- A `noexcept` function: an exception that would leave it terminates. -/
def noexcept (x : Logged Ev E α) : Logged Ev E α :=
  ⟨x.log, x.ending.noexcept⟩

/-! ## Laws -/

@[simp] theorem log_after (events : List Ev) (x : Logged Ev E α) :
    (x.after events).log = events ++ x.log := rfl

@[simp] theorem ending_after (events : List Ev) (x : Logged Ev E α) :
    (x.after events).ending = x.ending := rfl

@[simp] theorem after_nil (x : Logged Ev E α) : x.after [] = x := by
  ext <;> simp

@[simp] theorem after_after (first second : List Ev) (x : Logged Ev E α) :
    (x.after second).after first = x.after (first ++ second) := by
  ext <;> simp

@[simp] theorem pure_bind (a : α) (f : α → Logged Ev E β) :
    (pure a : Logged Ev E α).bind f = f a := by
  ext <;> simp [pure, bind]

@[simp] theorem raise_bind (e : E) (f : α → Logged Ev E β) :
    (raise e : Logged Ev E α).bind f = raise e := rfl

@[simp] theorem after_bind (events : List Ev) (x : Logged Ev E α) (f : α → Logged Ev E β) :
    (x.after events).bind f = (x.bind f).after events := by
  cases x with
  | mk log ending => cases ending <;> ext <;> simp [bind, after]

@[simp] theorem bind_pure (x : Logged Ev E α) : x.bind pure = x := by
  cases x with
  | mk log ending => cases ending <;> simp [bind, pure, after]

theorem bind_assoc (x : Logged Ev E α) (f : α → Logged Ev E β) (g : β → Logged Ev E γ) :
    (x.bind f).bind g = x.bind fun a => (f a).bind g := by
  cases x with
  | mk log ending =>
      cases ending with
      | value a => exact after_bind log (f a) g
      | raised e => rfl
      | terminated => rfl

@[simp] theorem pure_catching (a : α) (handler : E → Logged Ev E α) :
    (pure a).catching handler = pure a := rfl

@[simp] theorem raise_catching (e : E) (handler : E → Logged Ev E α) :
    (raise e).catching handler = handler e := by
  ext <;> simp [raise, catching]

@[simp] theorem after_catching (events : List Ev) (x : Logged Ev E α)
    (handler : E → Logged Ev E α) :
    (x.after events).catching handler = (x.catching handler).after events := by
  cases x with
  | mk log ending => cases ending <;> ext <;> simp [catching, after]

@[simp] theorem after_noexcept (events : List Ev) (x : Logged Ev E α) :
    (x.after events).noexcept = x.noexcept.after events := rfl

@[simp] theorem pure_noexcept (a : α) : (pure a : Logged Ev E α).noexcept = pure a := rfl

theorem noexcept_noexcept (x : Logged Ev E α) : x.noexcept.noexcept = x.noexcept := by
  cases x with
  | mk log ending => cases ending <;> rfl

/-- Nothing is caught where nothing leaves. -/
theorem noexcept_catching (x : Logged Ev E α) (handler : E → Logged Ev E α) :
    x.noexcept.catching handler = x.noexcept := by
  cases x with
  | mk log ending => cases ending <;> rfl

/-- An evaluation that returns or throws. -/
def Ends (x : Logged Ev E α) : Prop :=
  (∃ log a, x = (pure a).after log) ∨ ∃ log e, x = (raise e).after log

namespace Ends

theorem pure (a : α) : (Logged.pure a : Logged Ev E α).Ends :=
  .inl ⟨[], a, by simp⟩

theorem raise (e : E) : (Logged.raise e : Logged Ev E α).Ends :=
  .inr ⟨[], e, by simp⟩

theorem after {x : Logged Ev E α} (h : x.Ends) (events : List Ev) : (x.after events).Ends := by
  rcases h with ⟨log, a, rfl⟩ | ⟨log, e, rfl⟩
  · exact .inl ⟨events ++ log, a, by simp⟩
  · exact .inr ⟨events ++ log, e, by simp⟩

theorem bind {x : Logged Ev E α} {f : α → Logged Ev E β} (h : x.Ends) (hf : ∀ a, (f a).Ends) :
    (x.bind f).Ends := by
  rcases h with ⟨log, a, rfl⟩ | ⟨log, e, rfl⟩
  · simpa using (hf a).after log
  · simpa using (raise e).after log

theorem catching {x : Logged Ev E α} {handler : E → Logged Ev E α} (h : x.Ends)
    (hhandler : ∀ e, (handler e).Ends) : (x.catching handler).Ends := by
  rcases h with ⟨log, a, rfl⟩ | ⟨log, e, rfl⟩
  · simpa using (pure a).after log
  · simpa using (hhandler e).after log

end Ends

end Logged

end Bexec.Foundation
