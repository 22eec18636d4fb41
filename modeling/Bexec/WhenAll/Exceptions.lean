import Bexec.Foundation.Throwing
import Bexec.Signatures.Completion

/-! # Exceptions inside `when_all`

The constructions of a `when_all` operation: what its children send is stored,
and moved out again for delivery once the last child has completed.
-/

namespace Bexec.WhenAll.Exceptions

open Foundation Signatures

variable {Ty E : Type*} {n : ℕ}

/-- What the children complete with. A child that sends a value declares one. -/
structure Children (Ty : Type*) (n : ℕ) where
  completion : Fin n → Signature Ty
  hasValue : Fin n → Bool
  honours : ∀ i, (completion i).tag = .setValue → hasValue i = true

/-- A construction: storing what a child sent, taking the stored error out,
passing it or the values to the function that delivers them, and passing and
joining the values there. -/
inductive Site (Ty : Type*) (n : ℕ)
  | storeValue (child : Fin n) (source : Ty)
  | storeError (child : Fin n) (source : Ty)
  | takeError (source : Ty)
  | passError (source : Ty)
  | passValues (child : Fin n) (source : Ty)
  | passJoined (child : Fin n) (source : Ty)
  | joinValues (child : Fin n) (source : Ty)
  deriving DecidableEq

def Site.source : Site Ty n → Ty
  | storeValue _ source => source
  | storeError _ source => source
  | takeError source => source
  | passError source => source
  | passValues _ source => source
  | passJoined _ source => source
  | joinValues _ source => source

inductive Terminal
  | none | error | stopped
  deriving DecidableEq, Repr

/-- `values` tells which slots are engaged. -/
structure State (Ty : Type*) (n : ℕ) where
  remaining : ℕ
  terminal : Terminal
  error : Option Ty
  values : Finset (Fin n)
  delivered : List (Signature Ty)

namespace State

def initial : State Ty n :=
  ⟨n, .none, none, ∅, []⟩

def deliver (signal : Signature Ty) (s : State Ty n) : State Ty n :=
  { s with delivered := signal :: s.delivered }

end State

variable [ArgumentTypes Ty]

def Site.nothrow (site : Site Ty n) : Bool :=
  nothrowFrom site.source

/-- The elements of the values tuple, with the sites at which they are moved. -/
def Children.moves (children : Children Ty n) (site : Fin n → Ty → Site Ty n) :
    List (Site Ty n) :=
  (List.finRange n).flatMap fun i => (children.completion i).args.map fun T => site i (decay T)

/-- `is_nothrow_move_constructible_v<ValuesTuple>`. -/
def Children.movesNothrow (children : Children Ty n) : Bool :=
  (List.finRange n).all fun i => (children.completion i).args.all fun T => nothrowFrom (decay T)

/-- The joined tuple. -/
def Children.joined (children : Children Ty n) : List Ty :=
  (List.finRange n).flatMap fun i => (children.completion i).args.map decay

section Operation

variable (children : Children Ty n) (raise : Site Ty n → Option E)

/-- Constructor calls in the body of a `noexcept` function, or of a `try` block. -/
abbrev constructing (sites : List (Site Ty n)) : Ending E Unit :=
  constructAll Site.nothrow raise sites

/-- `store_error`, and the exception that is stored in its place. -/
def State.storeError (i : Fin n) (error : Ty) (s : State Ty n) : Ending E (State Ty n) :=
  let store := (constructing raise [.storeError i error]).bind fun _ =>
    .value { s with error := some (decay error) }
  if nothrowFrom error then store.noexcept
  else (store.catching fun _ => .value { s with error := some exceptionPtr }).noexcept

/-- `child_error`, up to the decrement of `remaining`. -/
def State.childError (i : Fin n) (error : Ty) (s : State Ty n) : Ending E (State Ty n) :=
  if s.terminal = .none then { s with terminal := .error }.storeError raise i error
  else .value s

/-- `child_value`, up to the decrement of `remaining`. -/
def State.childValue (i : Fin n) (args : List Ty) (s : State Ty n) : Ending E (State Ty n) :=
  let emplace := (constructing raise (args.map (.storeValue i))).bind fun _ =>
    .value { s with values := insert i s.values }
  if args.all nothrowFrom then emplace.noexcept
  else (emplace.catching fun _ => s.childError raise i exceptionPtr).noexcept

/-- `child_stopped`, up to the decrement of `remaining`. -/
def State.childStopped (s : State Ty n) : Ending E (State Ty n) :=
  .value (if s.terminal = .none then { s with terminal := .stopped } else s)

/-- A child completes, up to the decrement of `remaining`. -/
def State.child (i : Fin n) (s : State Ty n) : Ending E (State Ty n) :=
  match children.completion i with
  | .setValue args => s.childValue raise i args
  | .setError error => s.childError raise i error
  | .setStopped => s.childStopped

/-- `deliver_success`, once its by-value parameter is built. -/
def State.deliverSuccess (s : State Ty n) : Ending E (State Ty n) :=
  let joining := (constructing raise
      (children.moves Site.passJoined ++ children.moves Site.joinValues)).bind fun _ =>
    .value (s.deliver (.setValue children.joined))
  if children.movesNothrow then joining.noexcept
  else (joining.catching fun _ => .value (s.deliver (.setError exceptionPtr))).noexcept

/-- `finish_one`. -/
def State.finishOne (s : State Ty n) : Ending E (State Ty n) :=
  match s.terminal with
  | .error =>
      match s.error with
      | some error =>
          ((constructing raise [.takeError error, .passError error]).bind fun _ =>
            .value (s.deliver (.setError error))).noexcept
      -- the winner of `terminal` always leaves an error
      | none => .terminated
  | .stopped => .value (s.deliver .setStopped)
  | .none =>
      if (List.finRange n).all children.hasValue then
        ((constructing raise (children.moves Site.passValues)).bind fun _ =>
          s.deliverSuccess children raise).noexcept
      else .value (s.deliver (.setValue []))

/-- A child completes and decrements `remaining`; the last one finishes. -/
def State.complete (i : Fin n) (s : State Ty n) : Ending E (State Ty n) :=
  (s.child children raise i).bind fun s =>
    let s := { s with remaining := s.remaining - 1 }
    if s.remaining = 0 then s.finishOne children raise else .value s

/-- The children complete in the given order. -/
def State.run : List (Fin n) → State Ty n → Ending E (State Ty n)
  | [], s => .value s
  | i :: order, s => (s.complete children raise i).bind fun s => s.run order

end Operation

/-- The first completion that is not a value. -/
def decisive (completions : List (Signature Ty)) : Option (Signature Ty) :=
  completions.find? fun c => decide (c.tag ≠ .setValue)

section Outcome

variable (children : Children Ty n) (raise : Site Ty n → Option E)

/-- What a child's completion counts as, once it was stored. -/
def Children.effective (i : Fin n) : Signature Ty :=
  match children.completion i with
  | .setValue args =>
      match constructing raise (args.map (.storeValue i)) with
      | .value _ => .setValue args
      | _ => .setError exceptionPtr
  | .setError error =>
      match constructing raise [.storeError i error] with
      | .value _ => .setError (decay error)
      | _ => .setError exceptionPtr
  | .setStopped => .setStopped

/-- The state once a completion was stored. -/
def State.record (i : Fin n) (s : State Ty n) : Signature Ty → State Ty n
  | .setValue _ => { s with values := insert i s.values }
  | .setError error =>
      if s.terminal = .none then { s with terminal := .error, error := some error } else s
  | .setStopped => if s.terminal = .none then { s with terminal := .stopped } else s

variable {children raise}

variable (raise) in
theorem constructing_cases (sites : List (Site Ty n)) :
    constructing raise sites = .value () ∨
      (¬ ∀ site ∈ sites, site.nothrow = true) ∧ ∃ e, constructing raise sites = .raised e := by
  cases hrun : constructing raise sites with
  | value a => exact .inl rfl
  | raised e =>
      refine .inr ⟨?_, e, rfl⟩
      intro hnothrow
      rw [constructing, constructAll_of_nothrow hnothrow] at hrun
      cases hrun
  | terminated => exact absurd hrun (constructAll_ne_terminated _)

theorem State.childError_eq (i : Fin n) (error : Ty) (s : State Ty n)
    (hcompletion : children.completion i = .setError error) :
    s.childError raise i error = .value (s.record i (children.effective raise i)) := by
  unfold State.childError Children.effective
  rw [hcompletion]
  dsimp only
  rcases constructing_cases raise [Site.storeError i error] with hrun | ⟨hthrows, e, hrun⟩
  · rw [hrun]
    by_cases hterminal : s.terminal = .none
    · simp only [hterminal, if_true, State.record, State.storeError, hrun]
      split <;> rfl
    · simp [hterminal, State.record]
  · rw [hrun]
    have hguarded : nothrowFrom error ≠ true := by simpa [Site.nothrow, Site.source] using hthrows
    by_cases hterminal : s.terminal = .none
    · simp [hterminal, State.record, State.storeError, hrun, hguarded]
    · simp [hterminal, State.record]

theorem State.childError_exception (i : Fin n) (s : State Ty n) :
    s.childError raise i exceptionPtr = .value (s.record i (.setError exceptionPtr)) := by
  have hnothrow : ∀ site ∈ [Site.storeError i (exceptionPtr : Ty)], site.nothrow = true := by
    simp [Site.nothrow, Site.source]
  unfold State.childError
  by_cases hterminal : s.terminal = .none
  · simp [hterminal, State.record, State.storeError, constructAll_of_nothrow hnothrow]
  · simp [hterminal, State.record]

theorem State.child_eq (i : Fin n) (s : State Ty n) :
    s.child children raise i = .value (s.record i (children.effective raise i)) := by
  unfold State.child
  cases hcompletion : children.completion i with
  | setValue args =>
      unfold State.childValue Children.effective
      rw [hcompletion]
      dsimp only
      rcases constructing_cases raise (args.map (Site.storeValue i)) with
        hrun | ⟨hthrows, e, hrun⟩
      · rw [hrun]
        split <;> rfl
      · rw [hrun]
        have hguarded : args.all nothrowFrom ≠ true := by
          simpa [Site.nothrow, Site.source] using hthrows
        simp [hguarded, State.childError_exception]
  | setError error => exact s.childError_eq i error hcompletion
  | setStopped =>
      simp [Children.effective, hcompletion, State.childStopped, State.record]

/-- The completions of the given children are stored. -/
def State.recordAll (completion : Fin n → Signature Ty) : List (Fin n) → State Ty n → State Ty n
  | [], s => s
  | i :: order, s => State.recordAll completion order (s.record i (completion i))

omit [ArgumentTypes Ty] in
theorem State.record_remaining (i : Fin n) (s : State Ty n) (c : Signature Ty) (k : ℕ) :
    { s with remaining := k }.record i c = { s.record i c with remaining := k } := by
  cases c with
  | setValue args => rfl
  | setError error => by_cases hterminal : s.terminal = .none <;> simp [State.record, hterminal]
  | setStopped => by_cases hterminal : s.terminal = .none <;> simp [State.record, hterminal]

omit [ArgumentTypes Ty] in
theorem State.recordAll_remaining (completion : Fin n → Signature Ty) (order : List (Fin n))
    (s : State Ty n) (k : ℕ) :
    State.recordAll completion order { s with remaining := k } =
      { State.recordAll completion order s with remaining := k } := by
  induction order generalizing s with
  | nil => rfl
  | cons i order ih => rw [State.recordAll, State.record_remaining, ih, State.recordAll]

omit [ArgumentTypes Ty] in
theorem State.record_keeps (i : Fin n) (s : State Ty n) (c : Signature Ty) :
    (s.record i c).remaining = s.remaining ∧ (s.record i c).delivered = s.delivered := by
  cases c with
  | setValue args => exact ⟨rfl, rfl⟩
  | setError error => by_cases hterminal : s.terminal = .none <;> simp [State.record, hterminal]
  | setStopped => by_cases hterminal : s.terminal = .none <;> simp [State.record, hterminal]

/-- The children that are left complete, and the last one finishes. -/
theorem State.run_eq (order : List (Fin n)) (s : State Ty n) (horder : order ≠ [])
    (hremaining : s.remaining = order.length) :
    s.run children raise order =
      ({ State.recordAll (children.effective raise) order s with remaining := 0 }).finishOne
        children raise := by
  induction order generalizing s with
  | nil => exact absurd rfl horder
  | cons i order ih =>
      have hkeeps := s.record_keeps i (children.effective raise i)
      unfold State.run State.complete
      rw [State.child_eq]
      simp only [Ending.bind_value, hkeeps.1, hremaining, List.length_cons, Nat.add_sub_cancel]
      cases order with
      | nil =>
          cases hend : State.finishOne children raise
              { s.record i (children.effective raise i) with remaining := 0 } <;>
            simp [State.recordAll, State.run, hend]
      | cons j order =>
          have hrest := ih { s.record i (children.effective raise i) with
            remaining := (j :: order).length } (List.cons_ne_nil _ _) rfl
          rw [State.recordAll_remaining] at hrest
          simp only [List.length_cons, Nat.add_eq_zero_iff, one_ne_zero, and_false, if_false,
            Ending.bind_value] at hrest ⊢
          exact hrest

/-- What `terminal` and `error` hold once a completion decided. -/
def State.Decided (s : State Ty n) : Option (Signature Ty) → Prop
  | none => s.terminal = .none
  | some (.setError error) => s.terminal = .error ∧ s.error = some error
  | some _ => s.terminal = .stopped

omit [ArgumentTypes Ty] in
/-- Only the first completion that is not a value decides. -/
theorem State.recordAll_decisive (completion : Fin n → Signature Ty) (order : List (Fin n))
    (s : State Ty n) :
    (State.recordAll completion order s).delivered = s.delivered ∧
      (s.terminal ≠ .none → (State.recordAll completion order s).terminal = s.terminal ∧
        (State.recordAll completion order s).error = s.error) ∧
      (s.terminal = .none →
        (State.recordAll completion order s).Decided (decisive (order.map completion))) := by
  induction order generalizing s with
  | nil => simp [State.recordAll, decisive, State.Decided]
  | cons i order ih =>
      obtain ⟨hdelivered, hdecided, hopen⟩ := ih (s.record i (completion i))
      have hkeeps := s.record_keeps i (completion i)
      rw [State.recordAll]
      refine ⟨hdelivered.trans hkeeps.2, ?_, ?_⟩
      · intro hterminal
        have hsame : (s.record i (completion i)).terminal = s.terminal ∧
            (s.record i (completion i)).error = s.error := by
          cases completion i <;> simp [State.record, hterminal]
        obtain ⟨hterminal', herror⟩ := hdecided (by rwa [hsame.1])
        exact ⟨hterminal'.trans hsame.1, herror.trans hsame.2⟩
      · intro hterminal
        cases hcompletion : completion i with
        | setValue args =>
            rw [hcompletion] at hopen
            have hfind : decisive ((i :: order).map completion) =
                decisive (order.map completion) := by
              simp [decisive, hcompletion, Completion.tag]
            rw [hfind]
            exact hopen hterminal
        | setError error =>
            rw [hcompletion] at hdecided
            have hfind : decisive ((i :: order).map completion) = some (.setError error) := by
              simp [decisive, hcompletion, Completion.tag]
            rw [hfind]
            simpa [State.record, hterminal, State.Decided] using hdecided
        | setStopped =>
            rw [hcompletion] at hdecided
            have hfind : decisive ((i :: order).map completion) = some .setStopped := by
              simp [decisive, hcompletion, Completion.tag]
            rw [hfind]
            have hstopped := hdecided (by simp [State.record, hterminal])
            simpa [State.record, hterminal, State.Decided] using hstopped.1

omit [ArgumentTypes Ty] in
theorem decisive_cons_value {c : Signature Ty} (completions : List (Signature Ty))
    (hvalue : c.tag = .setValue) : decisive (c :: completions) = decisive completions := by
  simp [decisive, hvalue]

omit [ArgumentTypes Ty] in
theorem decisive_cons_other {c : Signature Ty} (completions : List (Signature Ty))
    (hother : c.tag ≠ .setValue) : decisive (c :: completions) = some c := by
  simp [decisive, hother]

omit [ArgumentTypes Ty] in
theorem decisive_eq_none_iff {completions : List (Signature Ty)} :
    decisive completions = none ↔ ∀ c ∈ completions, c.tag = .setValue := by
  simp [decisive]

variable (raise) in
/-- A child that counts as a value sent one. -/
theorem Children.value_of_effective {i : Fin n}
    (hvalue : (children.effective raise i).tag = .setValue) :
    (children.completion i).tag = .setValue := by
  unfold Children.effective at hvalue
  cases hcompletion : children.completion i with
  | setValue args => rfl
  | setError error =>
      rw [hcompletion] at hvalue
      dsimp only at hvalue
      split at hvalue <;> cases hvalue
  | setStopped =>
      rw [hcompletion] at hvalue
      cases hvalue

/-- The error that counts is an exception that was caught, or what the child sent. -/
theorem Children.error_of_effective {i : Fin n} {error : Ty}
    (herror : children.effective raise i = .setError error) :
    error = exceptionPtr ∨ ∃ T, children.completion i = .setError T ∧ error = decay T := by
  unfold Children.effective at herror
  cases hcompletion : children.completion i with
  | setValue args =>
      rw [hcompletion] at herror
      dsimp only at herror
      split at herror
      · cases herror
      · cases herror
        exact .inl rfl
  | setError T =>
      rw [hcompletion] at herror
      dsimp only at herror
      split at herror
      · cases herror
        exact .inr ⟨T, rfl, rfl⟩
      · cases herror
        exact .inl rfl
  | setStopped =>
      rw [hcompletion] at herror
      cases herror

/-- Where the error of a child counts, no child before it sent anything but a
value. -/
theorem Children.decisive_error {order : List (Fin n)} {error : Ty}
    (hdecisive : decisive (order.map (children.effective raise)) = some (.setError error)) :
    error = exceptionPtr ∨ ∃ T, error = decay T ∧
      decisive (order.map children.completion) = some (.setError T) := by
  induction order with
  | nil => cases hdecisive
  | cons i order ih =>
      rw [List.map_cons] at hdecisive
      by_cases hvalue : (children.effective raise i).tag = .setValue
      · rw [decisive_cons_value _ hvalue] at hdecisive
        rw [List.map_cons, decisive_cons_value _ (children.value_of_effective raise hvalue)]
        exact ih hdecisive
      · rw [decisive_cons_other _ hvalue, Option.some.injEq] at hdecisive
        rcases children.error_of_effective hdecisive with hexception | ⟨T, hcompletion, herror⟩
        · exact .inl hexception
        · refine .inr ⟨T, herror, ?_⟩
          rw [List.map_cons, hcompletion, decisive_cons_other]
          simp [Completion.tag]

theorem Children.movesNothrow_iff {site : Fin n → Ty → Site Ty n}
    (hsource : ∀ i T, (site i T).source = T) :
    (∀ move ∈ children.moves site, move.nothrow = true) ↔ children.movesNothrow = true := by
  simp only [Children.moves, Children.movesNothrow, List.mem_flatMap, List.mem_finRange, true_and,
    List.mem_map, List.all_eq_true]
  constructor
  · intro h i _ T hmem
    have hmove := h (site i (decay T)) ⟨i, T, hmem, rfl⟩
    rwa [Site.nothrow, hsource] at hmove
  · rintro h move ⟨i, T, hmem, rfl⟩
    rw [Site.nothrow, hsource]
    exact h i trivial T hmem

theorem State.finishOne_values {s : State Ty n} (hterminal : s.terminal = .none)
    (hvalues : ∀ i, (children.completion i).tag = .setValue) :
    s.finishOne children raise =
      ((constructing raise (children.moves Site.passValues)).bind fun _ =>
        s.deliverSuccess children raise).noexcept := by
  have hall : (List.finRange n).all children.hasValue = true := by
    rw [List.all_eq_true]
    intro i _
    exact children.honours i (hvalues i)
  unfold State.finishOne
  rw [hterminal]
  simp [hall]

theorem State.deliverSuccess_nothrow {s : State Ty n} (hmoves : children.movesNothrow = true) :
    s.deliverSuccess children raise = .value (s.deliver (.setValue children.joined)) := by
  have hjoining : constructing raise
      (children.moves Site.passJoined ++ children.moves Site.joinValues) = .value () := by
    apply constructAll_of_nothrow
    rw [List.forall_mem_append]
    exact ⟨(children.movesNothrow_iff fun _ _ => rfl).mpr hmoves,
      (children.movesNothrow_iff fun _ _ => rfl).mpr hmoves⟩
  simp [State.deliverSuccess, hmoves, hjoining]

theorem State.finishOne_error {s : State Ty n} {error : Ty} (hterminal : s.terminal = .error)
    (herror : s.error = some error) :
    s.finishOne children raise =
      ((constructing raise [.takeError error, .passError error]).bind fun _ =>
        .value (s.deliver (.setError error))).noexcept := by
  simp [State.finishOne, hterminal, herror]

end Outcome

/-- The children complete in the order of a permutation. -/
def orderOf (σ : Equiv.Perm (Fin n)) : List (Fin n) :=
  (List.finRange n).map σ

omit [ArgumentTypes Ty] in
theorem mem_orderOf (σ : Equiv.Perm (Fin n)) (i : Fin n) : i ∈ orderOf σ := by
  rw [orderOf, List.mem_map]
  exact ⟨σ.symm i, List.mem_finRange _, σ.apply_symm_apply i⟩

/-- Whatever is thrown, the run ends with one signal, and with the exception
where joining the values failed. -/
def Contained (E : Type*) (children : Children Ty n) (order : List (Fin n)) : Prop :=
  ∀ raise : Site Ty n → Option E, ∃ s signal,
    State.initial.run children raise order = .value s ∧ s.delivered = [signal] ∧
      (decisive (order.map (children.effective raise)) = none →
        (∃ e, constructing raise
          (children.moves Site.passJoined ++ children.moves Site.joinValues) = .raised e) →
        signal = .setError exceptionPtr)

/-- What is moved out for delivery is moved without throwing: all values where
every child sends one, and otherwise the first error unless a child was stopped
before it. -/
def MovesContained (children : Children Ty n) (order : List (Fin n)) : Prop :=
  ((∀ i, (children.completion i).tag = .setValue) → children.movesNothrow = true) ∧
    ∀ T, decisive (order.map children.completion) = some (.setError T) →
      nothrowFrom (decay T) = true

variable {children : Children Ty (n + 1)} {raise : Site Ty (n + 1) → Option E}

variable (children raise) in
/-- The state in which the last child finishes. -/
theorem run_orderOf (σ : Equiv.Perm (Fin (n + 1))) :
    ∃ s : State Ty (n + 1), State.initial.run children raise (orderOf σ) =
        s.finishOne children raise ∧ s.delivered = [] ∧
      s.Decided (decisive ((orderOf σ).map (children.effective raise))) := by
  have hlength : (orderOf σ).length = n + 1 := by simp [orderOf]
  have hne : orderOf σ ≠ [] := by
    intro hnil
    rw [hnil] at hlength
    cases hlength
  obtain ⟨hdelivered, -, hdecided⟩ := State.recordAll_decisive (children.effective raise)
    (orderOf σ) (State.initial : State Ty (n + 1))
  refine ⟨_, State.run_eq (orderOf σ) State.initial hne hlength.symm, hdelivered, ?_⟩
  exact hdecided rfl

theorem Contained.of_moves {σ : Equiv.Perm (Fin (n + 1))}
    (h : MovesContained children (orderOf σ)) : Contained E children (orderOf σ) := by
  intro raise
  obtain ⟨s, hrun, hdelivered, hdecided⟩ := run_orderOf children raise σ
  rw [hrun]
  cases hdecisive : decisive ((orderOf σ).map (children.effective raise)) with
  | none =>
      rw [hdecisive] at hdecided
      have hvalues : ∀ i, (children.completion i).tag = .setValue := by
        intro i
        apply children.value_of_effective raise
        exact decisive_eq_none_iff.mp hdecisive _ (List.mem_map_of_mem (mem_orderOf σ i))
      have hmoves := h.1 hvalues
      have hpass : constructing raise (children.moves Site.passValues) = .value () :=
        constructAll_of_nothrow ((children.movesNothrow_iff fun _ _ => rfl).mpr hmoves)
      refine ⟨s.deliver (.setValue children.joined), .setValue children.joined, ?_, ?_, ?_⟩
      · rw [State.finishOne_values hdecided hvalues, hpass]
        simp [State.deliverSuccess_nothrow hmoves]
      · simp [State.deliver, hdelivered]
      · rintro - ⟨e, hraised⟩
        rw [constructing, constructAll_of_nothrow] at hraised
        · cases hraised
        · rw [List.forall_mem_append]
          exact ⟨(children.movesNothrow_iff fun _ _ => rfl).mpr hmoves,
            (children.movesNothrow_iff fun _ _ => rfl).mpr hmoves⟩
  | some c =>
      rw [hdecisive] at hdecided
      cases c with
      | setValue args =>
          have hother := List.find?_some hdecisive
          simp [Completion.tag] at hother
      | setError error =>
          obtain ⟨hterminal, herror⟩ := hdecided
          have hnothrow : nothrowFrom error = true := by
            rcases children.decisive_error hdecisive with rfl | ⟨T, rfl, hfirst⟩
            · exact ArgumentTypes.nothrow_exceptionPtr
            · exact h.2 T hfirst
          have hmoves : constructing raise [Site.takeError error, .passError error] =
              .value () := by
            apply constructAll_of_nothrow
            simp [Site.nothrow, Site.source, hnothrow]
          refine ⟨s.deliver (.setError error), .setError error, ?_, ?_, by simp⟩
          · rw [State.finishOne_error hterminal herror, hmoves]
            rfl
          · simp [State.deliver, hdelivered]
      | setStopped =>
          refine ⟨s.deliver .setStopped, .setStopped, ?_, ?_, by simp⟩
          · have hterminal : s.terminal = .stopped := hdecided
            simp [State.finishOne, hterminal]
          · simp [State.deliver, hdelivered]

/-- What a completion counts as when storing it throws nothing. -/
def storedForm : Signature Ty → Signature Ty
  | .setError error => .setError (decay error)
  | c => c

theorem Children.effective_of_quiet (hvalue : ∀ i T, raise (.storeValue i T) = none)
    (herror : ∀ i T, raise (.storeError i T) = none) (i : Fin (n + 1)) :
    children.effective raise i = storedForm (children.completion i) := by
  unfold Children.effective
  cases hcompletion : children.completion i with
  | setValue args =>
      have hstore : constructing raise (args.map (Site.storeValue i)) = .value () := by
        apply constructAll_of_quiet
        simp [hvalue]
      simp [hstore, storedForm]
  | setError error =>
      have hstore : constructing raise [Site.storeError i error] = .value () := by
        apply constructAll_of_quiet
        simp [herror]
      simp only [hstore, storedForm]
  | setStopped => rfl

theorem decisive_map_storedForm (completions : List (Signature Ty)) :
    decisive (completions.map storedForm) = (decisive completions).map storedForm := by
  have htag : ∀ c : Signature Ty, (storedForm c).tag = c.tag := by
    intro c
    cases c <;> rfl
  simp [decisive, List.find?_map, htag]

theorem decisive_of_quiet {order : List (Fin (n + 1))}
    (hvalue : ∀ i T, raise (.storeValue i T) = none)
    (herror : ∀ i T, raise (.storeError i T) = none) :
    decisive (order.map (children.effective raise)) =
      (decisive (order.map children.completion)).map storedForm := by
  rw [← decisive_map_storedForm, List.map_map]
  congr 2
  ext1 i
  exact children.effective_of_quiet hvalue herror i

variable [DecidableEq Ty]

/-- A value whose move may throw leaves `finish_one`. -/
theorem not_contained_of_values [Inhabited E] {σ : Equiv.Perm (Fin (n + 1))}
    (hvalues : ∀ i, (children.completion i).tag = .setValue)
    (hmoves : children.movesNothrow = false) : ¬ Contained E children (orderOf σ) := by
  have hmove : ∃ move ∈ children.moves Site.passValues, move.nothrow = false := by
    by_contra hnone
    have hall : ∀ move ∈ children.moves Site.passValues, move.nothrow = true := by
      simpa using hnone
    rw [(children.movesNothrow_iff fun _ _ => rfl).mp hall] at hmoves
    cases hmoves
  obtain ⟨move, hmem, hthrows⟩ := hmove
  have hother : ∀ site : Site Ty (n + 1), site ∉ children.moves Site.passValues →
      site ≠ move := by
    rintro site hnot rfl
    exact hnot hmem
  intro h
  obtain ⟨s', signal, hrun, -⟩ := h fun site => if site = move then some default else none
  obtain ⟨s, hrun', -, hdecided⟩ := run_orderOf children
    (fun site => if site = move then some (default : E) else none) σ
  rw [decisive_of_quiet] at hdecided
  · have hnone : decisive ((orderOf σ).map children.completion) = none := by
      rw [decisive_eq_none_iff]
      simp [hvalues]
    rw [hnone] at hdecided
    rw [hrun', State.finishOne_values hdecided hvalues,
      constructing, constructAll_raised hmem hthrows] at hrun
    cases hrun
  · intro i T
    rw [if_neg (hother _ (by simp [Children.moves]))]
  · intro i T
    rw [if_neg (hother _ (by simp [Children.moves]))]

/-- A stored error whose move may throw leaves `finish_one`. -/
theorem not_contained_of_error [Inhabited E] {σ : Equiv.Perm (Fin (n + 1))} {T : Ty}
    (hfirst : decisive ((orderOf σ).map children.completion) = some (.setError T))
    (hthrows : nothrowFrom (decay T) = false) : ¬ Contained E children (orderOf σ) := by
  intro h
  obtain ⟨s', signal, hrun, -⟩ :=
    h fun site => if site = .takeError (decay T) then some default else none
  obtain ⟨s, hrun', -, hdecided⟩ := run_orderOf children
    (fun site => if site = .takeError (decay T) then some (default : E) else none) σ
  rw [decisive_of_quiet (by simp) (by simp), hfirst] at hdecided
  obtain ⟨hterminal, herror⟩ := hdecided
  have htake : (Site.takeError (decay T) : Site Ty (n + 1)).nothrow = false := hthrows
  rw [hrun', State.finishOne_error hterminal herror, constructing,
    constructAll_raised List.mem_cons_self htake] at hrun
  cases hrun

/-- `when_all` contains every exception exactly when what it moves out for
delivery is moved without throwing. -/
theorem contained_iff [Inhabited E] (children : Children Ty (n + 1))
    (σ : Equiv.Perm (Fin (n + 1))) :
    Contained E children (orderOf σ) ↔ MovesContained children (orderOf σ) := by
  constructor
  · intro h
    constructor
    · intro hvalues
      by_contra hmoves
      exact not_contained_of_values hvalues (Bool.eq_false_iff.mpr hmoves) h
    · intro T hfirst
      by_contra hthrows
      exact not_contained_of_error hfirst (Bool.eq_false_iff.mpr hthrows) h
  · exact Contained.of_moves

/-- One child, with an error whose move constructor may throw. -/
def throwingError : Children ArgumentType 1 where
  completion _ := .setError (.object ⟨0, true, false⟩)
  hasValue _ := false
  honours _ hvalue := by cases hvalue

theorem error_move_terminates : ¬ Contained ℕ throwingError (orderOf (Equiv.refl (Fin 1))) := by
  apply not_contained_of_error (T := .object ⟨0, true, false⟩)
  · rfl
  · rfl

end Bexec.WhenAll.Exceptions
