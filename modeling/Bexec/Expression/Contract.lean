import Bexec.Expression.Moves

/-! # Every expression completes once

Over every order of moves: the receiver of an expression is told once, when
nothing below it is left to do, and with a completion that the rules of the
adaptors allow. The same holds of every receiver inside.
-/

namespace Bexec.Expression

open Foundation Signatures Adaptors

variable {V : Type} {s : Sender V} {op : Operation V} {o : Option (Completion V)}

/-! ## A running operation goes on -/

theorem map_isSome {α β : Type} {f : α → β} {x : Option α} (h : x.isSome) :
    (x.map f).isSome := by
  cases x with
  | none => cases h
  | some a => rfl

/-- Something in the operation can move, or calls `std::terminate`. -/
def GoesOn (stop : Bool) (op : Operation V) : Prop :=
  ∃ path command, (act stop op path command).isSome ∨
    terminates (op.observes stop path) (op.descend path) command = true

/-- An operation goes on with the operation one level down. -/
theorem GoesOn.above {stop : Bool} {i : ℕ} (h : GoesOn (op.token stop) (op.part i))
    (hact : ∀ path command, (act (op.token stop) (op.part i) path command).isSome →
      (act stop op (i :: path) command).isSome) : GoesOn stop op := by
  obtain ⟨path, command, hmove | hterminates⟩ := h
  · exact ⟨i :: path, command, .inl (hact path command hmove)⟩
  · exact ⟨i :: path, command, .inr hterminates⟩

/-- The loop goes through its next turn, or terminates the process. -/
theorem goesOn_draining {loop : Loop V} {child : ℕ → Sender V} {k : ℕ} {stop : Bool}
    {sent : List (Completion V)} {current : Operation V} :
    GoesOn stop (.repeatUntil loop child k true sent current) := by
  refine ⟨[], .drain, ?_⟩
  change (drain stop loop child k sent).isSome ∨ (drain stop loop child k sent).isNone = true
  cases drain stop loop child k sent with
  | none => exact .inr rfl
  | some r => exact .inl rfl

/-- Something is left to do in an operation that has not completed. -/
theorem Stands.goesOn (h : Stands s op o) (ho : o = none) (stop : Bool) : GoesOn stop op := by
  induction h generalizing stop with
  | raised | leafDone | just | letForward | whenAllDone | scheduleRaises | scheduleRefuses
  | sourceRaises | storeRaises | repeatStopped | repeatRaises | repeatEnds | rejected => cases ho
  | leafRunning => exact ⟨[], .complete .setStopped, .inl rfl⟩
  | adapt _ ih =>
      exact (ih (Option.map_eq_none_iff.mp ho) stop).above (i := 0) fun _ _ => map_isSome
  | letUpstream _ ih => exact (ih rfl stop).above (i := 0) fun _ _ => map_isSome
  | letChild _ _ _ _ ihchild => exact (ihchild ho stop).above (i := 1) fun _ _ => map_isSome
  | @whenAllRunning n copying joinRaises senders join children outcome htallies hunstarted hchildren
      hremaining ih =>
      -- a child is to be started or counted, or goes on itself
      by_cases hstarted : join.started < n + 1
      · refine ⟨[], .startOne, .inl ?_⟩
        simp [act, startOne, hstarted]
      · rcases htallies.pending hremaining with hleaving | ⟨i, hi⟩
        · obtain ⟨i, hi⟩ := List.exists_mem_of_ne_nil _ hleaving
          refine ⟨[], .leave i.val, .inl ?_⟩
          simp only [act, i.isLt, dite_true, Fin.eta, hi, if_true]
          rfl
        · have hpart : Operation.part (.whenAll n copying joinRaises senders join [] children)
              i.val = children i := dif_pos i.isLt
          refine GoesOn.above (i := i.val) ?_ fun path command hmove => ?_
          · rw [hpart]
            exact ih i (by omega) hi join.stopRequested
          · rw [hpart] at hmove
            simp only [act, i.isLt, dite_true]
            exact map_isSome hmove
  | scheduling _ _ ih => exact (ih rfl stop).above (i := 0) fun _ _ => map_isSome
  | startsOn _ _ _ _ ihchild => exact (ihchild ho stop).above (i := 1) fun _ _ => map_isSome
  | sourceRunning _ _ ih => exact (ih rfl stop).above (i := 0) fun _ _ => map_isSome
  | @onSource copying final source op finalOp c o _ _ _ _ _ ihfinal =>
      have hnone : o = none := by
        cases o with
        | none => rfl
        | some d => cases d <;> cases ho
      exact (ihfinal hnone stop).above (i := 1) fun _ _ => map_isSome
  | repeatFirst | repeatAgain => exact goesOn_draining
  | repeatRunning _ _ _ ih => exact (ih rfl stop).above (i := 0) fun _ _ => map_isSome
  | associate _ ih => exact (ih ho stop).above (i := 0) fun _ _ => map_isSome

/-! ## The operations inside -/

/-- An operation state inside a started expression: an empty storage, or one that
stands itself, below one that has completed completed as well, and contained where
the expression is. -/
def Accounted (contained : Prop) (completed : Bool) (op : Operation V) : Prop :=
  op = .empty ∨ ∃ s o, Stands s op o ∧ (completed = true → o.isSome) ∧ (contained → s.Contained)

theorem accounted_empty {contained : Prop} {completed : Bool} :
    Accounted contained completed (.empty : Operation V) :=
  .inl rfl

theorem Stands.accounted (h : Stands s op o) {contained : Prop}
    (hcontained : contained → s.Contained) : Accounted contained o.isSome op :=
  .inr ⟨s, o, h, id, hcontained⟩

theorem Stands.accounted_of (h : Stands s op o) {contained : Prop} {completed : Bool}
    (hcontained : contained → s.Contained) (ho : completed = true → o.isSome) :
    Accounted contained completed op :=
  .inr ⟨s, o, h, ho, hcontained⟩

theorem Accounted.weaken {contained : Prop} {completed : Bool}
    (h : Accounted contained completed op) : Accounted contained false op := by
  rcases h with hempty | ⟨s, o, h, -, hcontained⟩
  · exact .inl hempty
  · refine .inr ⟨s, o, h, fun hfalse => ?_, hcontained⟩
    cases hfalse

theorem guarded_contained {raises : Option V} (h : s.Contained) : (s.guarded raises).Contained := by
  unfold Sender.guarded
  split
  · exact h
  · trivial

/-- One level down. -/
theorem Stands.part (h : Stands s op o) (i : ℕ) : Accounted s.Contained o.isSome (op.part i) := by
  cases h with
  | raised | leafRunning | leafDone | just | scheduleRaises | sourceRaises | repeatFirst
  | repeatStopped | repeatRaises | rejected => rcases i with _ | _ | i <;> exact accounted_empty
  | adapt hupstream =>
      rcases i with _ | i
      · exact hupstream.accounted_of id (by simp)
      · exact accounted_empty
  | letUpstream hupstream =>
      rcases i with _ | _ | i
      · exact hupstream.accounted And.right
      · exact accounted_empty
      · exact accounted_empty
  | letForward hupstream =>
      rcases i with _ | _ | i
      · exact hupstream.accounted And.right
      · exact accounted_empty
      · exact accounted_empty
  | letChild hupstream _ hchild =>
      rcases i with _ | _ | i
      · exact hupstream.accounted_of And.right fun _ => rfl
      · exact hchild.accounted fun hcontained => guarded_contained (hcontained.1 _)
      · exact accounted_empty
  | @whenAllRunning n copying joinRaises senders join children outcome htallies hunstarted
      hchildren =>
      simp only [Operation.part]
      split
      next hi =>
        by_cases hstarted : i < join.started
        · exact ((hchildren ⟨i, hi⟩ hstarted).accounted
            fun hcontained => guarded_contained (hcontained _)).weaken
        · rw [(hunstarted ⟨i, hi⟩ (Nat.le_of_not_lt hstarted)).2]
          exact accounted_empty
      next => exact accounted_empty
  | @whenAllDone n copying joinRaises senders join children c outcome htallies hstarted hchildren =>
      simp only [Operation.part]
      split
      next hi =>
        exact (hchildren ⟨i, hi⟩).accounted fun hcontained => guarded_contained (hcontained _)
      next => exact accounted_empty
  | scheduling _ hschedule =>
      rcases i with _ | _ | i
      · exact hschedule.accounted And.left
      · exact accounted_empty
      · exact accounted_empty
  | scheduleRefuses _ hschedule =>
      rcases i with _ | _ | i
      · exact hschedule.accounted And.left
      · exact accounted_empty
      · exact accounted_empty
  | startsOn _ hschedule hchild =>
      rcases i with _ | _ | i
      · exact hschedule.accounted_of And.left fun _ => rfl
      · exact hchild.accounted fun hcontained => guarded_contained hcontained.2
      · exact accounted_empty
  | sourceRunning _ hsource =>
      rcases i with _ | _ | i
      · exact hsource.accounted And.right
      · exact accounted_empty
      · exact accounted_empty
  | storeRaises _ hsource =>
      rcases i with _ | _ | i
      · exact hsource.accounted And.right
      · exact accounted_empty
      · exact accounted_empty
  | @onSource copying final source op finalOp c o _ hsource _ hfinal =>
      rcases i with _ | _ | i
      · exact hsource.accounted_of And.right fun _ => rfl
      · refine hfinal.accounted_of (fun hcontained => guarded_contained hcontained.1)
          fun hsome => ?_
        cases o with
        | none => cases hsome
        | some d => rfl
      · exact accounted_empty
  | repeatAgain _ hcurrent =>
      rcases i with _ | i
      · exact (hcurrent.accounted fun hcontained => hcontained.2 _).weaken
      · exact accounted_empty
  | repeatRunning _ _ hcurrent =>
      rcases i with _ | i
      · exact hcurrent.accounted fun hcontained => hcontained.2 _
      · exact accounted_empty
  | repeatEnds _ _ hcurrent =>
      rcases i with _ | i
      · exact hcurrent.accounted fun hcontained => hcontained.2 _
      · exact accounted_empty
  | associate hchild =>
      rcases i with _ | i
      · exact hchild.accounted id
      · exact accounted_empty

theorem Accounted.part {contained : Prop} {completed : Bool} (h : Accounted contained completed op)
    (i : ℕ) : Accounted contained completed (op.part i) := by
  rcases h with rfl | ⟨s, o, h, ho, hcontained⟩
  · exact accounted_empty
  · rcases h.part i with hempty | ⟨s', o', h', ho', hcontained'⟩
    · exact .inl hempty
    · exact h'.accounted_of (fun hholds => hcontained' (hcontained hholds))
        fun hcompleted => ho' (ho hcompleted)

/-- Any number of levels down. -/
theorem Accounted.descend {contained : Prop} {completed : Bool}
    (h : Accounted contained completed op) (path : List ℕ) :
    Accounted contained completed (op.descend path) := by
  induction path generalizing op with
  | nil => exact h
  | cons i rest ih => exact ih (h.part i)

/-- A loop that terminates the process has no `exception_ptr` and a child whose
connection throws. -/
theorem terminates_draining {loop : Loop V} {child : ℕ → Sender V} {k : ℕ} {stop : Bool}
    {sent : List (Completion V)} {current : Operation V} {command : Command V}
    (hterminates : terminates stop (.repeatUntil loop child k true sent current) command = true) :
    ¬ (Sender.repeatUntil loop child).Contained := by
  rintro ⟨hconnects, -⟩
  cases command with
  | drain =>
      obtain ⟨hneed, x, hraises⟩ := drain_eq_none (Option.isNone_iff_eq_none.mp hterminates)
      rw [(loop.nothrow hneed).2.1] at hraises
      exact hconnects hneed k x (connectThrows_iff.mpr hraises)
  | complete | startOne | leave | stopCallback => cases hterminates

/-- Only a loop in an operation that has not completed terminates the process, and
only where it has no `exception_ptr` to send. -/
theorem Accounted.terminates_inv {contained : Prop} {completed stop : Bool} {command : Command V}
    (h : Accounted contained completed op) (hterminates : terminates stop op command = true) :
    completed = false ∧ ¬ contained := by
  rcases h with rfl | ⟨s, o, h, ho, hcontained⟩
  · cases hterminates
  · have hcompleted : o = none → completed = false := by
      rintro rfl
      exact Bool.eq_false_iff.mpr fun hcompleted => absurd (ho hcompleted) (by simp)
    cases h with
    | repeatFirst =>
        exact ⟨hcompleted rfl, fun hholds => terminates_draining hterminates (hcontained hholds)⟩
    | repeatAgain =>
        exact ⟨hcompleted rfl, fun hholds => terminates_draining hterminates (hcontained hholds)⟩
    | _ => cases hterminates

/-- What a receiver has got is what its operation completed with. -/
theorem Stands.sent_eq (h : Stands s op o) : op = .empty ∨ op.sent = o.toList := by
  cases h with
  | raised => exact .inl rfl
  | _ => exact .inr rfl

theorem Stands.calls_le (h : Stands s op o) : op.calls ≤ 1 := by
  cases h with
  | @adapt tag fn upstream op o hupstream =>
      simp only [Operation.calls, invocations]
      cases o.bind (select tag) <;> simp
  | letChild => exact Nat.le_refl 1
  | _ => exact Nat.zero_le 1

theorem Accounted.sent_le {contained : Prop} {completed : Bool}
    (h : Accounted contained completed op) : op.sent.length ≤ 1 ∧ op.calls ≤ 1 := by
  rcases h with rfl | ⟨s, o, h, -⟩
  · exact ⟨Nat.zero_le 1, Nat.zero_le 1⟩
  · refine ⟨?_, h.calls_le⟩
    rcases h.sent_eq with rfl | hsent
    · exact Nat.zero_le 1
    · rw [hsent]
      cases o <;> simp

theorem Accounted.not_running {contained : Prop} (h : Accounted contained true op) :
    op ≠ .leaf [] := by
  rintro rfl
  rcases h with hempty | ⟨s, o, h, ho, -⟩
  · cases hempty
  · have hsome := ho rfl
    cases h
    cases hsome

/-- Below an operation whose receiver was told no leaf is running. -/
theorem Accounted.not_running_below {contained : Prop} {completed : Bool}
    (h : Accounted contained completed op) (hsent : op.sent ≠ []) (path : List ℕ) :
    op.descend path ≠ .leaf [] := by
  rcases h with rfl | ⟨s, o, h, -⟩
  · exact absurd rfl hsent
  · have hcompleted : o.isSome := by
      rcases h.sent_eq with rfl | hsent'
      · exact absurd rfl hsent
      · cases o with
        | none => exact absurd hsent' hsent
        | some c => rfl
    have haccounted : Accounted False true op := h.accounted_of False.elim fun _ => hcompleted
    exact (haccounted.descend path).not_running

/-! ## Runs -/

section Runs

variable {sender : Sender V} {st st' : State V} {path : List ℕ} {command : Command V}

/-- A move is made, or it calls `std::terminate`. -/
theorem step_move (hstep : step sender st (.move path command) = some st') :
    (∃ r, act st.stopRequested st.operation path command = some r ∧ st' = st.become r) ∨
      terminates (st.operation.observes st.stopRequested path) (st.operation.descend path)
        command = true ∧ st' = st.terminate := by
  simp only [step] at hstep
  split at hstep
  next r hact => exact .inl ⟨r, hact, (Option.some.inj hstep).symm⟩
  next =>
    split at hstep
    next hterminates => exact .inr ⟨hterminates, (Option.some.inj hstep).symm⟩
    next => cases hstep

theorem step_move_eq_none :
    step sender st (.move path command) = none ↔
      act st.stopRequested st.operation path command = none ∧
        terminates (st.operation.observes st.stopRequested path) (st.operation.descend path)
          command = false := by
  simp only [step]
  cases act st.stopRequested st.operation path command with
  | none => simp
  | some r => simp

theorem Operation.descend_empty (path : List ℕ) : (.empty : Operation V).descend path = .empty := by
  induction path with
  | nil => rfl
  | cons i rest ih =>
      have hpart : (.empty : Operation V).part i = .empty := by
        rcases i with _ | _ | i <;> rfl
      rw [descend, hpart]
      exact ih

/-- Where there is no operation there is no move. -/
theorem no_move_of_empty (hempty : st.operation = .empty) :
    step sender st (.move path command) = none := by
  rw [step_move_eq_none, hempty, Operation.descend_empty]
  exact ⟨act_empty, rfl⟩

/-- The states of an expression: it has not begun, its operation stands as the
receiver was told, or a loop without an `exception_ptr` has terminated the process. -/
inductive Reached (sender : Sender V) : State V → Prop
  | idle (stop : Bool) : Reached sender ⟨false, stop, .empty, [], false⟩
  | begun {stop : Bool} {op : Operation V} {o : Option (Completion V)}
      (hstands : Stands sender op o) : Reached sender ⟨true, stop, op, o.toList, false⟩
  | terminated {stop : Bool} (hcontained : ¬ sender.Contained) :
      Reached sender ⟨true, stop, .empty, [], true⟩

theorem Reached.preserved {action : Action V} (h : Reached sender st)
    (hstep : step sender st action = some st') : Reached sender st' := by
  cases action with
  | start =>
      simp only [step] at hstep
      split at hstep
      next => cases hstep
      next hbegun =>
        cases hstep
        cases h with
        | idle stop => exact .begun (start_stands stop sender)
        | begun => simp at hbegun
        | terminated => simp at hbegun
  | requestStop =>
      cases hstep
      cases h with
      | idle => exact .idle true
      | begun hstands => exact .begun hstands
      | terminated hcontained => exact .terminated hcontained
  | move path command =>
      cases h with
      | idle =>
          rw [no_move_of_empty rfl] at hstep
          cases hstep
      | terminated =>
          rw [no_move_of_empty rfl] at hstep
          cases hstep
      | @begun stop op o hstands =>
          rcases step_move hstep with ⟨r, hact, rfl⟩ | ⟨hterminates, rfl⟩
          · obtain ⟨rfl, hr⟩ := hstands.move hact
            exact .begun hr
          · -- the loop may be anywhere inside, and the receiver was not told
            obtain ⟨hnone, hcontained⟩ :=
              ((hstands.accounted id).descend path).terminates_inv hterminates
            cases o with
            | none => exact .terminated hcontained
            | some c => cases hnone

theorem reached_of_reachable (hst : (machine sender).Reachable st) : Reached sender st := by
  refine hst.invariant (fun st hinit => ?_) fun st action st' _ h hstep => h.preserved hstep
  obtain rfl : st = .initial := hinit
  exact .idle false

/-- While the receiver has not been told, a move is possible; after that none is. -/
theorem Reached.told_iff (h : Reached sender st) (hbegun : st.begun = true)
    (hterminated : st.terminated = false) :
    st.signals ≠ [] ↔ ∀ path command, step sender st (.move path command) = none := by
  cases h with
  | idle => cases hbegun
  | terminated => cases hterminated
  | @begun stop op o hstands =>
      refine ⟨fun htold path command => ?_, fun hstuck htold => ?_⟩
      · cases hmove : step sender ⟨true, stop, op, o.toList, false⟩ (.move path command) with
        | none => rfl
        | some st' =>
            rcases step_move hmove with ⟨r, hact, -⟩ | ⟨hterminates, -⟩
            · obtain ⟨rfl, -⟩ := hstands.move hact
              exact absurd rfl htold
            · obtain ⟨hnone, -⟩ :=
                ((hstands.accounted id).descend path).terminates_inv hterminates
              cases o with
              | none => exact absurd rfl htold
              | some c => cases hnone
      · have hnone : o = none := by
          cases o with
          | none => rfl
          | some c => cases htold
        obtain ⟨path, command, hmove⟩ := hstands.goesOn hnone stop
        obtain ⟨hact, hterminates⟩ := step_move_eq_none.mp (hstuck path command)
        rcases hmove with hmove | hmove
        · rw [hact] at hmove
          cases hmove
        · rw [hterminates] at hmove
          cases hmove

theorem Reached.signals_le (h : Reached sender st) : st.signals.length ≤ 1 := by
  cases h with
  | idle => exact Nat.zero_le 1
  | @begun stop op o hstands => cases o <;> simp
  | terminated => exact Nat.zero_le 1

theorem Reached.accounted (h : Reached sender st) :
    Accounted sender.Contained false st.operation := by
  cases h with
  | idle => exact accounted_empty
  | begun hstands => exact (hstands.accounted id).weaken
  | terminated => exact accounted_empty

theorem Reached.of_terminated (h : Reached sender st) (hterminated : st.terminated = true) :
    ¬ sender.Contained ∧ st.signals = [] ∧ st.operation = .empty := by
  cases h with
  | idle => cases hterminated
  | begun => cases hterminated
  | terminated hcontained => exact ⟨hcontained, rfl, rfl⟩

/-- In every reachable state the receiver of an expression has been told at most
once, and nothing before `start`. It has been told exactly when no move is left:
no leaf is running, no child of a `when_all` waits to be started or counted, no
loop goes on. Only a loop that has no `exception_ptr` and connects a child that
throws terminates the process instead, and then the receiver is never told. Every
receiver inside has been told at most once, every callable invoked at most once,
and below a receiver that was told no leaf is running. -/
theorem one_completion (hst : (machine sender).Reachable st) :
    st.signals.length ≤ 1 ∧ (st.begun = false → st.signals = []) ∧
      (st.begun = true → st.terminated = false → (st.signals ≠ [] ↔
        ∀ path command, step sender st (.move path command) = none)) ∧
      (st.terminated = true → ¬ sender.Contained ∧ st.signals = [] ∧
        ∀ path command, step sender st (.move path command) = none) ∧
      ∀ path, (st.operation.descend path).sent.length ≤ 1 ∧
        (st.operation.descend path).calls ≤ 1 ∧
        ((st.operation.descend path).sent ≠ [] →
          ∀ rest, (st.operation.descend path).descend rest ≠ .leaf []) := by
  have h := reached_of_reachable hst
  refine ⟨h.signals_le, fun hbegun => ?_, h.told_iff, fun hterminated => ?_, fun path => ?_⟩
  · cases h with
    | idle => rfl
    | begun => cases hbegun
    | terminated => cases hbegun
  · obtain ⟨hcontained, hsignals, hempty⟩ := h.of_terminated hterminated
    exact ⟨hcontained, hsignals, fun path command => no_move_of_empty hempty⟩
  · have haccounted := h.accounted.descend path
    exact ⟨haccounted.sent_le.1, haccounted.sent_le.2, haccounted.not_running_below⟩

/-- The receiver is told a completion that the rules give the expression. -/
theorem completion_by_rules (hst : (machine sender).Reachable st) {c : Completion V}
    (hc : c ∈ st.signals) : Completes sender c := by
  cases reached_of_reachable hst with
  | idle => cases hc
  | begun hstands => exact hstands.completes (Option.mem_toList.mp hc)
  | terminated => cases hc

end Runs

/-! ## Two runs -/

/-- A leaf that completes after its `start` has returned. -/
def laterLeaf : Sender ℕ := .leaf ⟨none, fun _ => none⟩

/-- Nothing that is stored throws. -/
def nothrowCopying : Copying ℕ := ⟨fun _ => none, fun _ => none⟩

/-- The callables of a loop of two turns, none of which throws. -/
def twoTurns : Loop ℕ where
  copying := nothrowCopying
  raises := fun _ => none
  predicate := fun k => .ok (k == 1)
  needExceptionPtr := false
  nothrow := by
    refine fun _ => ⟨fun c => ?_, fun _ => rfl, fun k x heq => ?_⟩
    · cases c <;> rfl
    · cases heq

/-- A loop of two turns. -/
def twice : Sender ℕ := .repeatUntil twoTurns fun _ => .just (.setValue [7])

/-- A leaf that another one follows, beside the loop. -/
def leavesAndLoop : Sender ℕ :=
  .whenAll 1 nothrowCopying (fun _ => none) fun i =>
    if i.val = 0 then .letAdapt .setValue (fun _ => none) (fun _ => laterLeaf) laterLeaf else twice

/-- The loop ends between the completions of the two leaves. -/
def leavesAndLoopRun : List (Action ℕ) :=
  List.flatten [[.start, .move [] .startOne, .move [0, 0] (.complete (.setValue [3]))],
    [.move [] .startOne, .move [1] .drain, .move [1] .drain],
    [.move [0, 1] (.complete (.setValue [4])), .move [] (.leave 1), .move [] (.leave 0)]]

theorem leavesAndLoop_runs :
    ((machine leavesAndLoop).exec .initial leavesAndLoopRun).isSome = true := by decide

/-- The same loop over a child whose connection throws. -/
def thrownAtConnect : Sender ℕ := .repeatUntil twoTurns fun _ => .leaf ⟨some 5, fun _ => none⟩

theorem thrownAtConnect_runs :
    ((machine thrownAtConnect).exec .initial [.start, .move [] .drain]).isSome = true := by decide

theorem one_completion_leavesAndLoop :
    (∃ st : State ℕ, st.signals = [.setValue [4, 7]] ∧
      ∀ path command, step leavesAndLoop st (.move path command) = none) ∧
    ∃ st : State ℕ, st.terminated = true ∧ st.signals = [] ∧
      ∀ path command, step thrownAtConnect st (.move path command) = none := by
  have hreach := Machine.reachable_replay (M := machine leavesAndLoop)
    (rfl : State.initial = State.initial) leavesAndLoopRun leavesAndLoop_runs
  have hreach' := Machine.reachable_replay (M := machine thrownAtConnect)
    (rfl : State.initial = State.initial) _ thrownAtConnect_runs
  obtain ⟨-, -, htold, -, -⟩ := one_completion hreach
  obtain ⟨-, -, -, hterminated, -⟩ := one_completion hreach'
  exact ⟨⟨_, by decide, (htold (by decide) (by decide)).mp (by decide)⟩,
    ⟨_, by decide, (hterminated (by decide)).2⟩⟩

theorem completion_by_rules_leavesAndLoop : Completes leavesAndLoop (.setValue [4, 7]) :=
  completion_by_rules (Machine.reachable_replay (M := machine leavesAndLoop)
    (rfl : State.initial = State.initial) leavesAndLoopRun leavesAndLoop_runs) (by decide)

end Bexec.Expression
