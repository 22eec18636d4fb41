import Bexec.Expression.Contract

/-! # Stop requests in an expression

Every `when_all` has a stop source of its own. Once no stop callback is due, what
an operation sees is what was asked for above it: by the receiver of the
expression, or by a child of an enclosing `when_all` that failed.
-/

namespace Bexec.Expression

open Foundation Signatures Adaptors

variable {V : Type} {n : ℕ} {stop : Bool} {s : Sender V} {op : Operation V}
  {o : Option (Completion V)}

namespace Operation

/-- A child of the operation has failed, and the others are asked to stop. -/
def failed : Operation V → Bool
  | .whenAll _ _ _ _ join _ _ => join.terminal ≠ .none
  | _ => false

/-- Stop was requested from outside, or on account of an operation on the path. -/
def asked (stop : Bool) (op : Operation V) : List ℕ → Bool
  | [] => stop
  | i :: path => (op.part i).asked (stop || op.failed) path

end Operation

/-- The stop source of a `when_all` has been requested from outside or by its own
children, and by them at once. -/
structure Join.Linked (stop : Bool) (j : Join V n) : Prop where
  failed : j.terminal ≠ .none → j.stopRequested = true
  caused : j.stopRequested = true → stop = true ∨ j.terminal ≠ .none

/-- So is every stop source in the expression. -/
def Linked (stop : Bool) : Operation V → Prop
  | .empty => True
  | .leaf _ => True
  | .just _ => True
  | .adapt _ _ _ _ upstream => Linked stop upstream
  | .letAdapt _ _ _ _ _ upstream childOperation => Linked stop upstream ∧ Linked stop childOperation
  | .whenAll _ _ _ _ join _ children =>
      join.Linked stop ∧ ∀ i, Linked join.stopRequested (children i)
  | .startsOn _ _ schedule childOperation => Linked stop schedule ∧ Linked stop childOperation
  | .onSource _ _ _ _ source finalOperation => Linked stop source ∧ Linked stop finalOperation
  | .repeatUntil _ _ _ _ _ current => Linked stop current
  | .associate _ child => Linked stop child

/-- A stop request from outside is a cause. -/
theorem Linked.request (h : Linked stop op) : Linked true op := by
  induction op generalizing stop with
  | empty | leaf | just => trivial
  | adapt _ _ _ _ _ ih => exact ih h
  | letAdapt _ _ _ _ _ _ _ ih ihchild => exact ⟨ih h.1, ihchild h.2⟩
  | whenAll _ _ _ _ join _ _ _ => exact ⟨⟨h.1.failed, fun _ => .inl rfl⟩, h.2⟩
  | startsOn _ _ _ _ ih ihchild => exact ⟨ih h.1, ihchild h.2⟩
  | onSource _ _ _ _ _ _ ih ihfinal => exact ⟨ih h.1, ihfinal h.2⟩
  | repeatUntil _ _ _ _ _ _ ih => exact ih h
  | associate _ _ ih => exact ih h

theorem Linked.mono {later : Bool} (h : Linked stop op) (hle : stop = true → later = true) :
    Linked later op := by
  cases later with
  | true => exact h.request
  | false =>
      cases stop with
      | false => exact h
      | true => exact absurd (hle rfl) Bool.false_ne_true

namespace Join

theorem terminate_linked {j : Join V n} (h : j.Linked stop) (kind : WhenAll.TerminalKind)
    (hkind : kind ≠ .none) (error : Option V) : (j.terminate kind error).Linked stop := by
  unfold terminate
  split
  · exact ⟨fun _ => rfl, fun _ => .inr hkind⟩
  · exact h

theorem store_linked {j : Join V n} (h : j.Linked stop) (i : Fin n) (c : Completion V) :
    (j.store i c).Linked stop := by
  cases c with
  | setValue args => exact ⟨h.failed, h.caused⟩
  | setError error => exact terminate_linked h .error WhenAll.TerminalKind.noConfusion _
  | setStopped => exact terminate_linked h .stopped WhenAll.TerminalKind.noConfusion _

theorem arrive_linked {j : Join V n} (h : j.Linked stop) (copying : Copying V) (i : Fin n)
    (c : Completion V) : (j.arrive copying i c).Linked stop :=
  ⟨(store_linked h i _).failed, (store_linked h i _).caused⟩

/-- A stop source stays requested. -/
theorem arrive_stopRequested {j : Join V n} (copying : Copying V) (i : Fin n) (c : Completion V)
    (hstop : j.stopRequested = true) : (j.arrive copying i c).stopRequested = true := by
  simp only [arrive]
  cases copying.stored c <;> simp only [store, terminate] <;> first | exact hstop | skip
  all_goals
    split
    · rfl
    · exact hstop

end Join

/-! ## Starting and moving -/

section Receivers

variable {r : Effect V}

theorem emplace_linked {raises : Option V} (hr : Linked stop r.1) :
    Linked stop (emplace raises r).1 := by
  cases raises with
  | none => exact hr
  | some x => trivial

theorem letStep_linked {tag : Tag} {raises : Args V tag → Option V} {child : Args V tag → Sender V}
    {started : Args V tag → Effect V} {calls : ℕ} {sent : List (Completion V)}
    {childOp : Operation V} (hstarted : ∀ args, Linked stop (started args).1)
    (hchild : Linked stop childOp) (hr : Linked stop r.1) :
    Linked stop (Operation.letStep tag raises child started calls sent childOp r).1 := by
  obtain ⟨op, o⟩ := r
  cases o with
  | none => exact ⟨hr, hchild⟩
  | some c =>
      refine ⟨hr, ?_⟩
      simp only [letReceive]
      split
      · trivial
      · exact emplace_linked (hstarted _)

theorem startsOnStep_linked {child : Sender V} {started : Effect V} {sent : List (Completion V)}
    {childOp : Operation V} (hstarted : Linked stop started.1) (hchild : Linked stop childOp)
    (hr : Linked stop r.1) :
    Linked stop (Operation.startsOnStep child started sent childOp r).1 := by
  obtain ⟨op, o⟩ := r
  cases o with
  | none => exact ⟨hr, hchild⟩
  | some c =>
      refine ⟨hr, ?_⟩
      cases c with
      | setValue args => exact emplace_linked hstarted
      | setError | setStopped => trivial

theorem sourceStep_linked {copying : Copying V} {final : Sender V} {started : Effect V}
    {stored : Option (Completion V)} {sent : List (Completion V)} {finalOp : Operation V}
    (hstarted : Linked stop started.1) (hfinal : Linked stop finalOp) (hr : Linked stop r.1) :
    Linked stop (Operation.sourceStep copying final started stored sent finalOp r).1 := by
  obtain ⟨op, o⟩ := r
  cases o with
  | none => exact ⟨hr, hfinal⟩
  | some c =>
      refine ⟨hr, ?_⟩
      simp only [sourceReceive]
      split
      · exact emplace_linked hstarted
      · trivial

theorem repeatStep_linked {loop : Loop V} {child : ℕ → Sender V} {k : ℕ}
    {sent : List (Completion V)} (hr : Linked stop r.1) :
    Linked stop (Operation.repeatStep loop child k sent r).1 := by
  obtain ⟨op, o⟩ := r
  cases o with
  | none => exact hr
  | some c =>
      simp only [Operation.repeatStep]
      split
      · exact hr
      · exact hr

theorem whenAllStep_linked {copying : Copying V} {joinRaises : List V → Option V}
    {senders : Fin (n + 1) → Sender V} {join : Join V (n + 1)} {sent : List (Completion V)}
    {children : Fin (n + 1) → Operation V} {i : Fin (n + 1)} (hjoin : join.Linked stop)
    (hchildren : ∀ k, Linked join.stopRequested (children k))
    (hr : Linked join.stopRequested r.1) :
    Linked stop (Operation.whenAllStep copying joinRaises senders join sent children i r).1 := by
  obtain ⟨op, o⟩ := r
  have hupdate : ∀ k, Linked join.stopRequested (Function.update children i op k) := by
    intro k
    by_cases hk : k = i
    · subst hk
      rw [Function.update_self]
      exact hr
    · rw [Function.update_of_ne hk]
      exact hchildren k
  cases o with
  | none => exact ⟨hjoin, hupdate⟩
  | some c =>
      exact ⟨Join.arrive_linked hjoin copying i c, fun k =>
        (hupdate k).mono (Join.arrive_stopRequested copying i c)⟩

end Receivers

theorem start_linked (stop : Bool) (s : Sender V) : Linked stop (start stop s).1 := by
  induction s generalizing stop with
  | leaf | just => trivial
  | adapt tag fn upstream ih => exact ih stop
  | letAdapt tag raises child upstream ihchild ih =>
      exact letStep_linked (fun args => ihchild args stop) trivial (ih stop)
  | whenAll n copying joinRaises children ih =>
      exact ⟨⟨fun hfailed => absurd rfl hfailed, fun hstop => .inl hstop⟩, fun _ => trivial⟩
  | startsOn schedule child ih ihchild =>
      simp only [start]
      split
      · exact startsOnStep_linked (ihchild stop) trivial (ih stop)
      · exact ⟨trivial, trivial⟩
  | onSource copying final source ihfinal ih =>
      simp only [start]
      split
      · exact sourceStep_linked (ihfinal stop) trivial (ih stop)
      · exact ⟨trivial, trivial⟩
  | repeatUntil loop child ih => trivial
  | associate accepted child ih =>
      cases accepted with
      | true => exact ih stop
      | false => trivial

theorem Turn.linked {loop : Loop V} {child : ℕ → Sender V} {k : ℕ} {sent : List (Completion V)}
    {r : Effect V} (h : Turn stop loop child k sent r) : Linked stop r.1 := by
  cases h with
  | stopped => trivial
  | starts => exact repeatStep_linked (start_linked stop _)
  | throws => trivial

theorem Linked.move {path : List ℕ} {command : Command V} {r : Effect V} (h : Linked stop op)
    (hact : act stop op path command = some r) : Linked stop r.1 := by
  induction op generalizing stop path command r with
  | empty =>
      rw [act_empty] at hact
      cases hact
  | leaf sent =>
      cases sent with
      | nil =>
          obtain ⟨c, rfl⟩ := act_leaf hact
          trivial
      | cons c sent =>
          rw [act_leaf_cons] at hact
          cases hact
  | just =>
      rw [act_just] at hact
      cases hact
  | adapt _ _ _ _ _ ih =>
      obtain ⟨rest, r', hmove, rfl⟩ := act_adapt hact
      have hr : Linked stop r'.1 := ih h hmove
      exact hr
  | letAdapt _ _ _ _ _ _ _ ih ihchild =>
      rcases act_let hact with ⟨rest, r', hmove, rfl⟩ | ⟨rest, r', hmove, rfl⟩
      · exact letStep_linked (fun args => start_linked stop _) h.2 (ih h.1 hmove)
      · exact ⟨h.1, ihchild h.2 hmove⟩
  | whenAll n copying joinRaises senders join sent children ih =>
      rcases act_whenAll hact with ⟨hlt, rfl⟩ | ⟨i, hi, rfl⟩ | ⟨-, -, hstop, rfl⟩ |
        ⟨i, rest, r', hmove, rfl⟩
      · exact whenAllStep_linked ⟨h.1.failed, h.1.caused⟩ h.2
          (emplace_linked (start_linked _ _))
      · exact ⟨⟨h.1.failed, h.1.caused⟩, h.2⟩
      · exact ⟨⟨fun _ => rfl, fun _ => .inl hstop⟩, fun k => (h.2 k).request⟩
      · exact whenAllStep_linked h.1 h.2 (ih i (h.2 i) hmove)
  | startsOn _ _ _ _ ih ihchild =>
      rcases act_startsOn hact with ⟨rest, r', hmove, rfl⟩ | ⟨rest, r', hmove, rfl⟩
      · exact startsOnStep_linked (start_linked stop _) h.2 (ih h.1 hmove)
      · exact ⟨h.1, ihchild h.2 hmove⟩
  | onSource _ _ _ _ _ _ ih ihfinal =>
      rcases act_onSource hact with ⟨rest, r', hmove, rfl⟩ | ⟨rest, r', hmove, rfl⟩
      · exact sourceStep_linked (start_linked stop _) h.2 (ih h.1 hmove)
      · exact ⟨h.1, ihfinal h.2 hmove⟩
  | repeatUntil loop child k draining sent current ih =>
      cases draining with
      | false =>
          obtain ⟨rest, r', hmove, rfl⟩ := act_waiting hact
          exact repeatStep_linked (ih h hmove)
      | true => exact (act_draining hact).linked
  | associate _ _ ih =>
      obtain ⟨rest, r', hmove, rfl⟩ := act_associate hact
      have hr : Linked stop r'.1 := ih h hmove
      exact hr

/-! ## What an operation sees -/

theorem linked_of_reachable {sender : Sender V} {st : State V}
    (hst : (machine sender).Reachable st) : Linked st.stopRequested st.operation := by
  refine hst.invariant (P := fun st => Linked st.stopRequested st.operation)
    (fun st hinit => ?_) fun st action st' _ h hstep => ?_
  · obtain rfl : st = .initial := hinit
    trivial
  · cases action with
    | start =>
        simp only [machine, step] at hstep
        split at hstep
        next => cases hstep
        next =>
          cases hstep
          exact start_linked _ _
    | requestStop =>
        cases hstep
        exact h.request
    | move path command =>
        change step sender st (.move path command) = some st' at hstep
        rcases step_move hstep with ⟨r, hact, rfl⟩ | ⟨-, rfl⟩
        · exact h.move hact
        · trivial

/-- One level down the invariant holds for the flag that is seen there. -/
theorem Linked.part (h : Linked stop op) (i : ℕ) : Linked (op.token stop) (op.part i) := by
  cases op with
  | empty | leaf | just => rcases i with _ | _ | i <;> trivial
  | adapt =>
      rcases i with _ | i
      · exact h
      · trivial
  | letAdapt | startsOn | onSource =>
      rcases i with _ | _ | i
      · exact h.1
      · exact h.2
      · trivial
  | whenAll n copying joinRaises senders join sent children =>
      simp only [Operation.part, Operation.token]
      split
      · exact h.2 _
      · trivial
  | repeatUntil =>
      rcases i with _ | i
      · exact h
      · trivial
  | associate =>
      rcases i with _ | i
      · exact h
      · trivial

/-- Nothing sees a stop request that was not made. -/
theorem Linked.asked_of_observes (h : Linked stop op) {cause : Bool}
    (hcause : stop = true → cause = true) {path : List ℕ}
    (hobserves : op.observes stop path = true) : op.asked cause path = true := by
  induction path generalizing op stop cause with
  | nil => exact hcause hobserves
  | cons i rest ih =>
      refine ih (h.part i) (fun htoken => ?_) hobserves
      cases op with
      | whenAll n copying joinRaises senders join sent children =>
          rcases h.1.caused htoken with hstop | hfailed
          · simp [hcause hstop]
          · simp [Operation.failed, hfailed]
      | _ => simp [hcause htoken]

theorem map_eq_none_of {α β : Type} {f : α → β} {x : Option α} (h : x.map f = none) : x = none :=
  Option.map_eq_none_iff.mp h

/-- A move that is not possible is not possible one level down. -/
theorem Stands.no_move_below (h : Stands s op o) {command : Command V}
    (hnone : ∀ path, act stop op path command = none) (i : ℕ) (rest : List ℕ) :
    act (op.token stop) (op.part i) rest command = none := by
  cases op with
  | empty | leaf | just => rcases i with _ | _ | i <;> exact act_empty
  | adapt =>
      rcases i with _ | i
      · exact map_eq_none_of (hnone (0 :: rest))
      · exact act_empty
  | letAdapt | startsOn | onSource =>
      rcases i with _ | _ | i
      · exact map_eq_none_of (hnone (0 :: rest))
      · exact map_eq_none_of (hnone (1 :: rest))
      · exact act_empty
  | whenAll n copying joinRaises senders join sent children =>
      have hchild := hnone (i :: rest)
      simp only [act] at hchild
      simp only [Operation.part, Operation.token]
      split
      next hi =>
        rw [dif_pos hi] at hchild
        exact map_eq_none_of hchild
      next => exact act_empty
  | repeatUntil loop child k draining sent current =>
      rcases i with _ | i
      · cases draining with
        | false => exact map_eq_none_of (hnone (0 :: rest))
        | true =>
            -- the current child has completed
            cases h with
            | repeatFirst => exact act_empty
            | repeatAgain _ hcurrent =>
                cases hmove : act stop current rest command with
                | none => exact hmove
                | some r =>
                    obtain ⟨hfalse, -⟩ := hcurrent.move hmove
                    cases hfalse
      · exact act_empty
  | associate =>
      rcases i with _ | i
      · exact map_eq_none_of (hnone (0 :: rest))
      · exact act_empty

/-- An operation above one that has not completed has not completed. -/
theorem Stands.none_of_below (h : Stands s op o) {i : ℕ} {rest : List ℕ}
    (hsub : op.descend (i :: rest) ≠ .empty) (hsent : (op.descend (i :: rest)).sent = []) :
    o = none := by
  cases o with
  | none => rfl
  | some c =>
      exfalso
      rcases (h.part i).descend rest with hempty | ⟨s', o', h', ho', -⟩
      · exact hsub hempty
      · rcases h'.sent_eq with hempty | hsent'
        · exact hsub hempty
        · obtain ⟨d, hd⟩ := Option.isSome_iff_exists.mp (ho' rfl)
          rw [hd] at hsent'
          exact absurd (hsent'.symm.trans hsent) (by simp)

/-- Once no stop callback is due, an operation that has not completed sees what
was asked for. -/
theorem Stands.observes_eq_asked (h : Stands s op o) (hlinked : Linked stop op)
    (hdue : ∀ path, act stop op path .stopCallback = none) {path : List ℕ}
    (hsub : op.descend path ≠ .empty) (hsent : (op.descend path).sent = []) :
    op.observes stop path = op.asked stop path := by
  induction path generalizing s op o stop with
  | nil => rfl
  | cons i rest ih =>
      have ho := h.none_of_below hsub hsent
      have htoken : (stop || op.failed) = op.token stop := by
        cases op with
        | whenAll n copying joinRaises senders join sent children =>
            have hcallback := hdue []
            have hremaining : join.remaining ≠ 0 := by
              cases h with
              | whenAllRunning _ _ _ _ hremaining => exact hremaining
              | whenAllDone => cases ho
            simp only [act, ite_eq_right_iff, reduceCtorEq, imp_false, not_and] at hcallback
            simp only [Operation.failed, Operation.token]
            cases hrequested : join.stopRequested with
            | true =>
                rcases hlinked.1.caused hrequested with hstop | hfailed
                · simp [hstop]
                · simp [hfailed]
            | false =>
                have hterminal : join.terminal = .none := by
                  by_contra hfailed
                  rw [hlinked.1.failed hfailed] at hrequested
                  cases hrequested
                cases stop with
                | true => exact absurd hremaining (hcallback rfl hrequested)
                | false => simp [hterminal]
        | _ => simp [Operation.failed, Operation.token]
      simp only [Operation.observes, Operation.asked, htoken]
      rcases h.part i with hempty | ⟨s', o', h', -, -⟩
      · rw [Operation.descend, hempty, Operation.descend_empty] at hsub
        exact absurd rfl hsub
      · exact ih h' (hlinked.part i) (h.no_move_below hdue i) hsub hsent

/-- In every reachable state, an operation that has not completed sees a stop
request only if one was made: from outside, or by the failure of a child of a
`when_all` above it. Once no stop callback is due it sees every such request. -/
theorem stop_reaches {sender : Sender V} {st : State V} (hst : (machine sender).Reachable st)
    {path : List ℕ} (hsub : st.operation.descend path ≠ .empty)
    (hsent : (st.operation.descend path).sent = []) :
    (st.operation.observes st.stopRequested path = true →
        st.operation.asked st.stopRequested path = true) ∧
      ((∀ callback, step sender st (.move callback .stopCallback) = none) →
        st.operation.observes st.stopRequested path =
          st.operation.asked st.stopRequested path) := by
  have hlinked := linked_of_reachable hst
  refine ⟨hlinked.asked_of_observes id, fun hdue => ?_⟩
  cases reached_of_reachable hst with
  | idle => exact absurd (Operation.descend_empty path) hsub
  | begun hstands =>
      exact hstands.observes_eq_asked hlinked
        (fun callback => (step_move_eq_none.mp (hdue callback)).1) hsub hsent
  | terminated => exact absurd (Operation.descend_empty path) hsub

/-- The first of two leaves fails while the second is running. -/
def failingRun : List (Action ℕ) :=
  List.flatten [[.start, .move [] .startOne, .move [] .startOne],
    [.move [0] (.complete (.setError 1))]]

def twoLeaves : Sender ℕ :=
  .whenAll 1 nothrowCopying (fun _ => none) fun _ => laterLeaf

theorem twoLeaves_runs : ((machine twoLeaves).exec .initial failingRun).isSome = true := by decide

theorem stop_reaches_twoLeaves : ∃ st : State ℕ, st.stopRequested = false ∧
    st.operation.descend [1] = .leaf [] ∧
    st.operation.asked st.stopRequested [1] = true := by
  have hreach := Machine.reachable_replay (M := machine twoLeaves)
    (rfl : State.initial = State.initial) failingRun twoLeaves_runs
  have hleaf : (((machine twoLeaves).exec .initial failingRun).get twoLeaves_runs).operation.descend
      [1] = .leaf [] := rfl
  refine ⟨_, by decide, hleaf, (stop_reaches hreach ?_ ?_).1 (by decide)⟩
  · rw [hleaf]
    intro hempty
    cases hempty
  · rw [hleaf]
    rfl

end Bexec.Expression
