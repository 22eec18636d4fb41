import Bexec.Foundation.Logged

/-! # Lifetimes of objects

What an evaluation constructs and destroys. Locals are destroyed when their
scope is left, members of an object only when its construction throws.
-/

namespace Bexec.Foundation

/-- An object is constructed or a block is allocated, it is destroyed or
deallocated, or something else happens. -/
inductive LifetimeEvent (R A : Type*)
  | acquire (r : R)
  | release (r : R)
  | act (a : A)
  deriving DecidableEq, Repr

namespace Logged

variable {Ev R A E P α : Type*}

/-- Events that cannot throw. -/
def perform (events : List Ev) : Logged Ev E Unit :=
  ⟨events, .value ()⟩

/-- A point at which the evaluation may throw. -/
def attempt (raises : P → Option E) (point : P) : Logged Ev E Unit :=
  match raises point with
  | none => pure ()
  | some e => raise e

/-- Events on leaving a scope, which a terminated process never leaves. -/
def leaving (events : List Ev) (x : Logged Ev E α) : Logged Ev E α :=
  match x.ending with
  | .terminated => x
  | _ => ⟨x.log ++ events, x.ending⟩

/-- Events on leaving a scope by an exception. -/
def unwinding (events : List Ev) (x : Logged Ev E α) : Logged Ev E α :=
  match x.ending with
  | .raised _ => ⟨x.log ++ events, x.ending⟩
  | _ => x

/-- A local object and the rest of its scope. -/
def withLocal (r : R) (make : Logged (LifetimeEvent R A) E Unit)
    (body : Logged (LifetimeEvent R A) E α) : Logged (LifetimeEvent R A) E α :=
  make.bind fun _ => (body.leaving [.release r]).after [.acquire r]

/-- A member of an object and the rest of the construction. -/
def member (r : R) (make : Logged (LifetimeEvent R A) E Unit)
    (rest : Logged (LifetimeEvent R A) E α) : Logged (LifetimeEvent R A) E α :=
  make.bind fun _ => (rest.unwinding [.release r]).after [.acquire r]

theorem attempt_of_none {raises : P → Option E} {point : P} (hpoint : raises point = none) :
    (attempt raises point : Logged Ev E Unit) = pure () := by
  simp [attempt, hpoint]

theorem attempt_of_some {raises : P → Option E} {point : P} {e : E}
    (hpoint : raises point = some e) : (attempt raises point : Logged Ev E Unit) = raise e := by
  simp [attempt, hpoint]

theorem unwinding_noexcept (events : List Ev) (x : Logged Ev E α) :
    x.noexcept.unwinding events = x.noexcept := by
  cases x with
  | mk log ending => cases ending <;> rfl

/-- `try { x } catch (...) { events; throw; }`. -/
theorem catching_rethrow (events : List Ev) (x : Logged Ev E α) :
    x.catching (fun e => (raise e).after events) = x.unwinding events := by
  cases x with
  | mk log ending => cases ending <;> simp [catching, unwinding, raise, after]

end Logged

/-- Everything is constructed in this order, and then destroyed in the opposite
order. -/
def unwound {R A : Type*} (rs : List R) : List (LifetimeEvent R A) :=
  rs.map .acquire ++ rs.reverse.map .release

/-- How an evaluation ends that throws this, or nothing. -/
def thrown {E : Type*} : Option E → Ending E Unit
  | some e => .raised e
  | none => .value ()

variable {R A E P : Type*}

@[simp] theorem unwound_cons (r : R) (rs : List R) :
    (unwound (r :: rs) : List (LifetimeEvent R A)) = .acquire r :: unwound rs ++ [.release r] := by
  simp [unwound]

/-- An evaluation that may throw at these points, one after another. What it has
constructed when it throws is the beginning of `resources`; without a throw it
logs `done`. -/
structure Unwinds (raises : P → Option E) (points : List P) (resources : List R)
    (done : List (LifetimeEvent R A)) (x : Logged (LifetimeEvent R A) E Unit) : Prop where
  ending : x.ending = thrown (points.findSome? raises)
  undone : ∀ e, points.findSome? raises = some e →
    ∃ rs, rs <+: resources ∧ x.log = unwound rs
  done : points.findSome? raises = none → x.log = done

namespace Unwinds

open Logged

variable {raises : P → Option E} {points : List P} {resources : List R}
  {done : List (LifetimeEvent R A)} {x : Logged (LifetimeEvent R A) E Unit}

theorem perform (events : List (LifetimeEvent R A)) :
    Unwinds raises [] resources events (Logged.perform events) := by
  constructor <;> simp [thrown, Logged.perform]

/-- A point before an evaluation. -/
theorem attempt_bind (point : P) (h : Unwinds raises points resources done x) :
    Unwinds raises (point :: points) resources done ((attempt raises point).bind fun _ => x) := by
  cases hpoint : raises point with
  | none =>
      rw [attempt_of_none hpoint, pure_bind]
      constructor
      · simpa [hpoint] using h.ending
      · simpa [hpoint] using h.undone
      · simpa [hpoint] using h.done
  | some e =>
      rw [attempt_of_some hpoint, raise_bind]
      constructor
      · simp [hpoint, thrown, raise]
      · rintro e' -
        exact ⟨[], List.nil_prefix, rfl⟩
      · simp [hpoint]

theorem acquired (r : R) (h : Unwinds raises points resources done x)
    {y : Logged (LifetimeEvent R A) E Unit} {after : List (LifetimeEvent R A)}
    (hending : y.ending = x.ending)
    (hraised : ∀ e, x.ending = .raised e → y.log = .acquire r :: x.log ++ [.release r])
    (hvalue : x.ending = .value () → y.log = .acquire r :: x.log ++ after) :
    Unwinds raises points (r :: resources) (.acquire r :: done ++ after) y := by
  constructor
  · rw [hending, h.ending]
  · intro e hthrows
    obtain ⟨rs, hprefix, hlog⟩ := h.undone e hthrows
    refine ⟨r :: rs, List.cons_prefix_cons.mpr ⟨rfl, hprefix⟩, ?_⟩
    rw [unwound_cons, ← hlog]
    apply hraised e
    rw [h.ending, hthrows]
    rfl
  · intro hquiet
    rw [← h.done hquiet]
    apply hvalue
    rw [h.ending, hquiet]
    rfl

theorem local_quiet (r : R) (h : Unwinds raises points resources done x) :
    Unwinds raises points (r :: resources) (.acquire r :: done ++ [.release r])
      (withLocal r (.pure ()) x) := by
  unfold withLocal
  rw [pure_bind]
  apply h.acquired r
  · unfold leaving
    split <;> rfl
  · intro e hraised
    simp [leaving, hraised]
  · intro hvalue
    simp [leaving, hvalue]

/-- A local object whose construction may throw. -/
theorem withLocal (r : R) (point : P) (h : Unwinds raises points resources done x) :
    Unwinds raises (point :: points) (r :: resources) (.acquire r :: done ++ [.release r])
      (withLocal r (attempt raises point) x) := by
  have hbody := (h.local_quiet r).attempt_bind point
  rwa [Logged.withLocal, pure_bind] at hbody

theorem member_quiet (r : R) (h : Unwinds raises points resources done x) :
    Unwinds raises points (r :: resources) (.acquire r :: done) (member r (.pure ()) x) := by
  unfold member
  rw [pure_bind, ← List.append_nil (_ :: done)]
  apply h.acquired r
  · unfold unwinding
    split <;> rfl
  · intro e hraised
    simp [unwinding, hraised]
  · intro hvalue
    simp [unwinding, hvalue]

/-- A member, or a block, whose construction may throw. -/
theorem member (r : R) (point : P) (h : Unwinds raises points resources done x) :
    Unwinds raises (point :: points) (r :: resources) (.acquire r :: done)
      (member r (attempt raises point) x) := by
  have hbody := (h.member_quiet r).attempt_bind point
  rwa [Logged.member, pure_bind] at hbody

/-- What follows an evaluation and cannot throw. -/
theorem bind_perform (events : List (LifetimeEvent R A))
    (h : Unwinds raises points resources done x) :
    Unwinds raises points resources (done ++ events) (x.bind fun _ => Logged.perform events) := by
  cases hthrows : points.findSome? raises with
  | none =>
      have hvalue : x = ⟨done, .value ()⟩ := by
        ext1
        · exact h.done hthrows
        · rw [h.ending, hthrows]
          rfl
      subst hvalue
      constructor <;> simp [hthrows, thrown, Logged.bind, Logged.perform, Logged.after]
  | some e =>
      have hraised : x = ⟨x.log, .raised e⟩ := by
        ext1
        · rfl
        · rw [h.ending, hthrows]
          rfl
      have hbind : x.bind (fun _ => Logged.perform events) = x := by
        rw [hraised]
        rfl
      rw [hbind]
      constructor
      · exact h.ending
      · exact h.undone
      · simp [hthrows]

/-- What precedes an evaluation that cannot throw. -/
theorem after_quiet (events : List (LifetimeEvent R A))
    (h : Unwinds raises [] resources done x) :
    Unwinds raises [] resources (events ++ done) (x.after events) := by
  constructor
  · exact h.ending
  · simp
  · intro hquiet
    rw [log_after, h.done hquiet]

/-- A `noexcept` evaluation that throws nothing. -/
theorem noexcept (h : Unwinds raises points resources done x)
    (hquiet : points.findSome? raises = none) :
    Unwinds raises points resources done x.noexcept := by
  constructor
  · simp [Logged.noexcept, h.ending, hquiet, thrown]
  · exact h.undone
  · exact h.done

end Unwinds

section Undone

variable [DecidableEq R] [DecidableEq A]

/-- Everything constructed was destroyed once, after it was constructed, and
nothing else happened. -/
structure Undone (log : List (LifetimeEvent R A)) : Prop where
  once : ∀ r, log.count (.acquire r) ≤ 1
  released : ∀ r, log.count (.release r) = log.count (.acquire r)
  ordered : ∀ first, first <+: log → ∀ r, first.count (.release r) ≤ first.count (.acquire r)
  quiet : ∀ a, LifetimeEvent.act a ∉ log

theorem count_acquire_unwound (rs : List R) (r : R) :
    (unwound rs : List (LifetimeEvent R A)).count (.acquire r) = rs.count r := by
  induction rs with
  | nil => rfl
  | cons head rs ih => simp [ih, List.count_cons]

theorem count_release_unwound (rs : List R) (r : R) :
    (unwound rs : List (LifetimeEvent R A)).count (.release r) = rs.count r := by
  induction rs with
  | nil => rfl
  | cons head rs ih => simp [ih, List.count_cons]

theorem ordered_unwound (rs : List R) {first : List (LifetimeEvent R A)}
    (hfirst : first <+: unwound rs) (r : R) :
    first.count (.release r) ≤ first.count (.acquire r) := by
  induction rs generalizing first with
  | nil =>
      rw [List.prefix_nil.mp hfirst]
      simp
  | cons head rs ih =>
      cases first with
      | nil => simp
      | cons event first =>
          rw [unwound_cons, List.cons_append, List.cons_prefix_cons] at hfirst
          obtain ⟨rfl, hrest⟩ := hfirst
          rcases List.prefix_concat_iff.mp hrest with heq | hrest
          · subst heq
            simp [count_acquire_unwound, count_release_unwound, List.count_cons]
          · have hcount := ih hrest
            simp only [List.count_cons]
            simp
            omega

theorem undone_unwound {rs : List R} (hnodup : rs.Nodup) :
    Undone (unwound rs : List (LifetimeEvent R A)) := by
  constructor
  · intro r
    rw [count_acquire_unwound]
    exact List.nodup_iff_count_le_one.mp hnodup r
  · intro r
    rw [count_acquire_unwound, count_release_unwound]
  · intro first hfirst r
    exact ordered_unwound rs hfirst r
  · intro a
    simp [unwound]

/-- An evaluation that throws undoes everything. -/
theorem Unwinds.undone_of_throws {raises : P → Option E} {points : List P} {resources : List R}
    {done : List (LifetimeEvent R A)} {x : Logged (LifetimeEvent R A) E Unit}
    (h : Unwinds raises points resources done x) (hnodup : resources.Nodup) {e : E}
    (hthrows : points.findSome? raises = some e) : x.ending = .raised e ∧ Undone x.log := by
  obtain ⟨rs, hprefix, hlog⟩ := h.undone e hthrows
  constructor
  · rw [h.ending, hthrows]
    rfl
  · rw [hlog]
    exact undone_unwound (hnodup.sublist hprefix.sublist)

end Undone

end Bexec.Foundation
