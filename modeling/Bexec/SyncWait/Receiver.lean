import Bexec.Foundation.Throwing
import Bexec.Signatures.Completion

/-! # The result of `sync_wait`

The receiver of `sync_wait` stores the completion in one of three fields, and
`sync_wait` makes its result of them. An element is constructed from what is
sent, and moved on the way out.
-/

namespace Bexec.SyncWait

open Foundation Signatures

variable {Ty V E : Type*}

/-- An argument of a completion: its type, and the value it refers to or is. -/
structure Argument (Ty V : Type*) where
  type : Ty
  value : V
  deriving DecidableEq, Repr

/-- What an `exception_ptr` points to: what the one that was sent does, or an
exception that was caught. -/
inductive Pointer (V E : Type*)
  | sent (value : V)
  | caught (e : E)
  deriving DecidableEq, Repr

/-- An alternative of the error variant. -/
inductive StoredError (Ty V E : Type*)
  | object (error : Argument Ty V)
  | pointer (pointer : Pointer V E)
  deriving DecidableEq, Repr

/-- The fields of `sync_wait_state` that hold the result. -/
structure SyncWaitState (Ty V E : Type*) where
  value : Option (List (Argument Ty V))
  error : Option (StoredError Ty V E)
  stopped : Bool
  deriving DecidableEq, Repr

def SyncWaitState.initial : SyncWaitState Ty V E :=
  ⟨none, none, false⟩

/-- What leaves `sync_wait`: an error object, what the `exception_ptr` that was
sent points to, or what a constructor has thrown. -/
inductive Exception (Ty V E : Type*)
  | object (error : Argument Ty V)
  | pointee (value : V)
  | raised (e : E)
  deriving DecidableEq, Repr

/-- A construction: of an element of the tuple or of the error from what was
sent, of an element of the result, of the parameter of `throw_error`, and of the
object that it throws. -/
inductive Site (Ty : Type*)
  | storeValue (index : ℕ) (source : Ty)
  | storeError (source : Ty)
  | moveResult (index : ℕ) (source : Ty)
  | passError (source : Ty)
  | throwObject (source : Ty)
  deriving DecidableEq, Repr

def Site.source : Site Ty → Ty
  | storeValue _ source => source
  | storeError source => source
  | moveResult _ source => source
  | passError source => source
  | throwObject source => source

/-- What `sync_wait` ends with. -/
abbrev Result (Ty V E : Type*) := Ending (Exception Ty V E) (Option (List (Argument Ty V)))

variable [ArgumentTypes Ty]

def Site.nothrow (site : Site Ty) : Bool :=
  nothrowFrom site.source

/-- The object that is made of an argument. -/
def Argument.decayed (a : Argument Ty V) : Argument Ty V :=
  ⟨decay a.type, a.value⟩

section Sites

def storeValueSites (args : List (Argument Ty V)) : List (Site Ty) :=
  args.mapIdx fun index a => .storeValue index a.type

def storeSites : Completion (Argument Ty V) → List (Site Ty)
  | .setValue args => storeValueSites args
  | .setError error => [.storeError error.type]
  | .setStopped => []

/-- The moves of a tuple out of the state. -/
def resultSites (tuple : List (Argument Ty V)) : List (Site Ty) :=
  tuple.mapIdx fun index a => .moveResult index a.type

end Sites

variable [DecidableEq Ty]

/-- The alternative that `in_place_type<decay_t<Error>>` selects. -/
def Argument.stored (error : Argument Ty V) : StoredError Ty V E :=
  if decay error.type = exceptionPtr then .pointer (.sent error.value) else .object error.decayed

section Receiver

variable (raise : Site Ty → Option E)

abbrev constructing (sites : List (Site Ty)) : Ending E Unit :=
  constructAll Site.nothrow raise sites

/-- `sync_wait_receiver::set_value`, up to `finish`. -/
def SyncWaitState.setValue (args : List (Argument Ty V)) (s : SyncWaitState Ty V E) :
    Ending E (SyncWaitState Ty V E) :=
  let emplace := (constructing raise (storeValueSites args)).bind fun _ =>
    .value { s with value := some (args.map Argument.decayed) }
  if args.all fun a => nothrowFrom a.type then emplace.noexcept
  else (emplace.catching fun e =>
    .value { s with error := some (.pointer (.caught e)) }).noexcept

/-- `sync_wait_receiver::set_error`, up to `finish`. -/
def SyncWaitState.setError (error : Argument Ty V) (s : SyncWaitState Ty V E) :
    Ending E (SyncWaitState Ty V E) :=
  ((constructing raise [.storeError error.type]).bind fun _ =>
    .value { s with error := some error.stored }).noexcept

/-- `sync_wait_receiver::set_stopped`, up to `finish`. -/
def SyncWaitState.setStopped (s : SyncWaitState Ty V E) : Ending E (SyncWaitState Ty V E) :=
  .value { s with stopped := true }

def SyncWaitState.receive (signal : Completion (Argument Ty V)) (s : SyncWaitState Ty V E) :
    Ending E (SyncWaitState Ty V E) :=
  match signal with
  | .setValue args => s.setValue raise args
  | .setError error => s.setError raise error
  | .setStopped => s.setStopped

/-- Constructions in `sync_wait` itself: what they throw leaves it. -/
def moving (sites : List (Site Ty)) : Ending (Exception Ty V E) Unit :=
  constructAll Site.nothrow (fun site => (raise site).map .raised) sites

/-- What `rethrow_exception` throws. -/
def Pointer.rethrow : Pointer V E → Exception Ty V E
  | .sent value => .pointee value
  | .caught e => .raised e

/-- `throw_error`, once its parameter is to be built. -/
def throwErrorOf : StoredError Ty V E → Result Ty V E
  | .object error =>
      (moving raise [.passError error.type, .throwObject error.type]).bind fun _ =>
        .raised (.object error)
  | .pointer pointer =>
      (moving raise [.passError exceptionPtr]).bind fun _ => .raised pointer.rethrow

/-- `sync_wait`, after `run` has returned. -/
def SyncWaitState.result (s : SyncWaitState Ty V E) : Result Ty V E :=
  match s.error with
  | some error => throwErrorOf raise error
  | none =>
      if s.stopped then .value none
      else
        match s.value with
        | some tuple => (moving raise (resultSites tuple)).bind fun _ => .value (some tuple)
        | none => .value none

/-- What becomes of a completion on its way through `sync_wait`. -/
def syncWait (signal : Completion (Argument Ty V)) : Result Ty V E :=
  match SyncWaitState.initial.receive raise signal with
  | .value s => s.result raise
  | _ => .terminated

/-- What a completion stands for. -/
def meaning : Completion (Argument Ty V) → Result Ty V E
  | .setValue args => .value (some (args.map Argument.decayed))
  | .setError error =>
      if decay error.type = exceptionPtr then .raised (.pointee error.value)
      else .raised (.object error.decayed)
  | .setStopped => .value none

/-- The faithful result: what the completion stands for, or what storing it has
thrown. -/
def faithful (signal : Completion (Argument Ty V)) : Result Ty V E :=
  match constructing raise (storeSites signal) with
  | .raised e => .raised (.raised e)
  | _ => meaning signal

/-- None of the constructors throws. -/
def Quiet (sites : List (Site Ty)) : Prop :=
  ∀ site ∈ sites, site.nothrow = true ∨ raise site = none

/-- A value that is stored moves out without throwing, and an error is stored
and, unless it is an `exception_ptr`, moved out without throwing. -/
def PassesThrough : Completion (Argument Ty V) → Prop
  | .setValue args =>
      Quiet raise (storeValueSites args) → Quiet raise (resultSites (args.map Argument.decayed))
  | .setError error =>
      Quiet raise [.storeError error.type] ∧
        (decay error.type ≠ exceptionPtr →
          Quiet raise [.passError (decay error.type), .throwObject (decay error.type)])
  | .setStopped => True

end Receiver

section Outcome

variable {raise : Site Ty → Option E}

omit [DecidableEq Ty] in
theorem constructing_of_quiet {sites : List (Site Ty)} (hquiet : Quiet raise sites) :
    constructing raise sites = .value () :=
  constructAll_eq_value_iff.mpr hquiet

omit [DecidableEq Ty] in
theorem constructing_of_not_quiet {sites : List (Site Ty)} (hquiet : ¬ Quiet raise sites) :
    ∃ e, constructing raise sites = .raised e := by
  cases hrun : constructing raise sites with
  | value a => exact absurd (constructAll_eq_value_iff.mp hrun) hquiet
  | raised e => exact ⟨e, rfl⟩
  | terminated => exact absurd hrun (constructAll_ne_terminated _)

omit [DecidableEq Ty] in
theorem moving_of_quiet {sites : List (Site Ty)} (hquiet : Quiet raise sites) :
    (moving raise sites : Ending (Exception Ty V E) Unit) = .value () := by
  apply constructAll_eq_value_iff.mpr
  simpa [Quiet] using hquiet

omit [DecidableEq Ty] in
theorem moving_of_not_quiet {sites : List (Site Ty)} (hquiet : ¬ Quiet raise sites) :
    ∃ e : E, (moving raise sites : Ending (Exception Ty V E) Unit) = .raised (.raised e) := by
  cases hrun : (moving raise sites : Ending (Exception Ty V E) Unit) with
  | value a =>
      have hall := constructAll_eq_value_iff.mp hrun
      exact absurd (by simpa [Quiet] using hall) hquiet
  | raised x =>
      obtain ⟨site, -, hraise⟩ := exists_of_constructAll_raised hrun
      obtain ⟨e, -, rfl⟩ := Option.map_eq_some_iff.mp hraise
      exact ⟨e, rfl⟩
  | terminated => exact absurd hrun (constructAll_ne_terminated _)

omit [DecidableEq Ty] in
theorem quiet_exceptionPtr : Quiet raise [.passError (exceptionPtr : Ty)] := by
  simp [Quiet, Site.nothrow, Site.source]

omit [DecidableEq Ty] in
/-- The path without `try` is taken only where nothing can throw. -/
theorem quiet_of_nothrow {args : List (Argument Ty V)}
    (hfast : (args.all fun a => nothrowFrom a.type) = true) :
    Quiet raise (storeValueSites args) := by
  intro site hmem
  obtain ⟨i, hi, rfl⟩ := List.mem_mapIdx.mp hmem
  exact .inl (List.all_eq_true.mp hfast _ (List.getElem_mem hi))

/-! ## Values -/

theorem syncWait_value_thrown {args : List (Argument Ty V)} {e : E}
    (hstore : constructing raise (storeValueSites args) = .raised e) :
    syncWait raise (.setValue args) = .raised (.raised e) := by
  have hslow : ¬ (args.all fun a => nothrowFrom a.type) = true := by
    intro hfast
    rw [constructing_of_quiet (quiet_of_nothrow hfast)] at hstore
    cases hstore
  simp only [syncWait, SyncWaitState.receive, SyncWaitState.setValue, hstore, if_neg hslow,
    Ending.bind_raised, Ending.catching_raised, Ending.noexcept_value, SyncWaitState.result,
    throwErrorOf, moving_of_quiet quiet_exceptionPtr, Ending.bind_value]
  rfl

theorem syncWait_value_stored {args : List (Argument Ty V)}
    (hstore : Quiet raise (storeValueSites args)) :
    syncWait raise (.setValue args) =
      (moving raise (resultSites (args.map Argument.decayed))).bind fun _ =>
        .value (some (args.map Argument.decayed)) := by
  have hrun := constructing_of_quiet hstore
  simp only [syncWait, SyncWaitState.receive, SyncWaitState.setValue, hrun, Ending.bind_value,
    Ending.catching_value, Ending.noexcept_value, ite_self, SyncWaitState.result,
    SyncWaitState.initial, Bool.false_eq_true, if_false]

/-! ## Errors -/

theorem syncWait_error_terminated {error : Argument Ty V}
    (hstore : ¬ Quiet raise [.storeError error.type]) :
    syncWait raise (.setError error) = .terminated := by
  obtain ⟨e, hrun⟩ := constructing_of_not_quiet hstore
  simp only [syncWait, SyncWaitState.receive, SyncWaitState.setError, hrun, Ending.bind_raised,
    Ending.noexcept_raised]

theorem syncWait_error_stored {error : Argument Ty V}
    (hstore : Quiet raise [.storeError error.type]) :
    syncWait raise (.setError error) = throwErrorOf raise error.stored := by
  have hrun := constructing_of_quiet hstore
  simp only [syncWait, SyncWaitState.receive, SyncWaitState.setError, hrun, Ending.bind_value,
    Ending.noexcept_value, SyncWaitState.result]

theorem throwErrorOf_pointer {error : Argument Ty V} (hpointer : decay error.type = exceptionPtr) :
    throwErrorOf raise error.stored = .raised (.pointee error.value) := by
  simp only [Argument.stored, if_pos hpointer, throwErrorOf, moving_of_quiet quiet_exceptionPtr,
    Ending.bind_value, Pointer.rethrow]

theorem throwErrorOf_object {error : Argument Ty V} (hobject : decay error.type ≠ exceptionPtr) :
    throwErrorOf raise error.stored =
      (moving raise [.passError (decay error.type), .throwObject (decay error.type)]).bind fun _ =>
        .raised (.object error.decayed) := by
  simp only [Argument.stored, if_neg hobject, throwErrorOf]
  rfl

/-- `sync_wait` makes of a completion what it stands for exactly when the stored
value or error passes through. -/
theorem syncWait_eq_faithful_iff (signal : Completion (Argument Ty V)) :
    syncWait raise signal = faithful raise signal ↔ PassesThrough raise signal := by
  cases signal with
  | setValue args =>
      unfold faithful storeSites PassesThrough
      by_cases hstore : Quiet raise (storeValueSites args)
      · rw [syncWait_value_stored hstore, constructing_of_quiet hstore]
        by_cases hmove : Quiet raise (resultSites (args.map Argument.decayed))
        · simp [moving_of_quiet hmove, hmove, meaning]
        · obtain ⟨e, hrun⟩ := moving_of_not_quiet (V := V) hmove
          simp [hrun, hmove, hstore, meaning]
      · obtain ⟨e, hrun⟩ := constructing_of_not_quiet hstore
        simp [syncWait_value_thrown hrun, hrun, hstore]
  | setError error =>
      unfold faithful storeSites PassesThrough
      by_cases hstore : Quiet raise [.storeError error.type]
      · rw [syncWait_error_stored hstore, constructing_of_quiet hstore]
        by_cases hpointer : decay error.type = exceptionPtr
        · simp [throwErrorOf_pointer hpointer, meaning, hpointer, hstore]
        · rw [throwErrorOf_object hpointer]
          by_cases hmove : Quiet raise
              [.passError (decay error.type), .throwObject (decay error.type)]
          · simp [moving_of_quiet hmove, hmove, hstore, meaning, hpointer]
          · obtain ⟨e, hrun⟩ := moving_of_not_quiet (V := V) hmove
            simp [hrun, hmove, hpointer, meaning]
      · obtain ⟨e, hrun⟩ := constructing_of_not_quiet hstore
        simp [syncWait_error_terminated hstore, hrun, hstore]
  | setStopped =>
      simp [faithful, storeSites, meaning, PassesThrough, syncWait, SyncWaitState.receive,
        SyncWaitState.setStopped, SyncWaitState.result, SyncWaitState.initial]

end Outcome

end Bexec.SyncWait
