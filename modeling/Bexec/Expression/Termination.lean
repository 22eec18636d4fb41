import Bexec.Expression.Contract
import Bexec.Foundation.Descent

/-! # Every expression comes to an end

An expression whose loops are ended by their predicates makes finitely many
moves, in every order and under every stop request, so the moves cannot go on
before its receiver is told or the process is terminated.
-/

namespace Bexec.Expression

open Foundation Signatures Adaptors

variable {V : Type} {s : Sender V} {op : Operation V}

/-- Every predicate of a `repeat_until` at some point does not go on. -/
def Sender.Terminates : Sender V → Prop
  | .leaf _ => True
  | .just _ => True
  | .adapt _ _ upstream => upstream.Terminates
  | .letAdapt _ _ child upstream => (∀ args, (child args).Terminates) ∧ upstream.Terminates
  | .whenAll _ _ _ children => ∀ i, (children i).Terminates
  | .startsOn schedule child => schedule.Terminates ∧ child.Terminates
  | .onSource _ final source => final.Terminates ∧ source.Terminates
  | .repeatUntil loop child =>
      (∀ k, (child k).Terminates) ∧ ∃ k, loop.predicate k ≠ .ok false
  | .associate _ child => child.Terminates

/-- An operation after one more move. -/
def Next (later earlier : Operation V) : Prop :=
  ∃ stop path command told, act stop earlier path command = some (later, told)

/-- An operation with finitely many moves left. -/
abbrev Ends (op : Operation V) : Prop :=
  Acc Next op

theorem Next.of_act {stop : Bool} {path : List ℕ} {command : Command V} {r : Effect V}
    (hact : act stop op path command = some r) : Next r.1 op :=
  ⟨stop, path, command, r.2, hact⟩

theorem ends_empty : Ends (.empty : Operation V) := by
  refine Acc.intro _ fun later hlater => ?_
  obtain ⟨stop, path, command, told, hact⟩ := hlater
  rw [act_empty] at hact
  cases hact

theorem ends_just (sent : List (Completion V)) : Ends (.just sent) := by
  refine Acc.intro _ fun later hlater => ?_
  obtain ⟨stop, path, command, told, hact⟩ := hlater
  rw [act_just] at hact
  cases hact

theorem ends_leaf (sent : List (Completion V)) : Ends (.leaf sent) := by
  have hdone : ∀ c (rest : List (Completion V)), Ends (.leaf (c :: rest)) := by
    intro c rest
    refine Acc.intro _ fun later hlater => ?_
    obtain ⟨stop, path, command, told, hact⟩ := hlater
    rw [act_leaf_cons] at hact
    cases hact
  cases sent with
  | nil =>
      refine Acc.intro _ fun later hlater => ?_
      obtain ⟨stop, path, command, told, hact⟩ := hlater
      obtain ⟨c, heq⟩ := act_leaf hact
      cases heq
      exact hdone c []
  | cons c rest => exact hdone c rest

theorem ends_emplace {raises : Option V} {r : Effect V} (hr : Ends r.1) :
    Ends (emplace raises r).1 := by
  cases raises with
  | none => exact hr
  | some x => exact ends_empty

theorem ends_adapt {tag : Tag} {fn : Args V tag → Except V (List V)} (hop : Ends op) (calls : ℕ)
    (sent : List (Completion V)) : Ends (.adapt tag fn calls sent op) := by
  induction hop generalizing calls sent with
  | intro op _ ih =>
      refine Acc.intro _ fun later hlater => ?_
      obtain ⟨stop, path, command, told, hact⟩ := hlater
      obtain ⟨rest, r, hmove, heq⟩ := act_adapt hact
      cases heq
      exact ih r.1 (.of_act hmove) _ _

theorem ends_associate (hop : Ends op) (sent : List (Completion V)) :
    Ends (.associate sent op) := by
  induction hop generalizing sent with
  | intro op _ ih =>
      refine Acc.intro _ fun later hlater => ?_
      obtain ⟨stop, path, command, told, hact⟩ := hlater
      obtain ⟨rest, r, hmove, heq⟩ := act_associate hact
      cases heq
      exact ih r.1 (.of_act hmove) _

/-- The child may be any operation that ends: a move of `upstream` emplaces it. -/
theorem ends_let {tag : Tag} {raises : Args V tag → Option V} {child : Args V tag → Sender V}
    {childOp : Operation V} (hstart : ∀ args stop, Ends (start stop (child args)).1)
    (hop : Ends op) (hchild : Ends childOp) (calls : ℕ) (sent : List (Completion V)) :
    Ends (.letAdapt tag raises child calls sent op childOp) := by
  induction hop generalizing childOp calls sent with
  | intro op _ ih =>
      induction hchild generalizing calls sent with
      | intro childOp hbelow ihchild =>
          refine Acc.intro _ fun later hlater => ?_
          obtain ⟨stop, path, command, told, hact⟩ := hlater
          rcases act_let hact with ⟨rest, r, hmove, heq⟩ | ⟨rest, r, hmove, heq⟩
          · obtain ⟨op', o⟩ := r
            cases o with
            | none =>
                cases heq
                exact ih op' (.of_act hmove) (Acc.intro _ hbelow) _ _
            | some c =>
                cases heq
                refine ih op' (.of_act hmove) ?_ _ _
                simp only [letReceive]
                split
                · exact ends_empty
                · exact ends_emplace (hstart _ stop)
          · cases heq
            exact ihchild r.1 (.of_act hmove) _ _

theorem ends_startsOn {child : Sender V} {childOp : Operation V}
    (hstart : ∀ stop, Ends (start stop child).1) (hop : Ends op) (hchild : Ends childOp)
    (sent : List (Completion V)) : Ends (.startsOn child sent op childOp) := by
  induction hop generalizing childOp sent with
  | intro op _ ih =>
      induction hchild generalizing sent with
      | intro childOp hbelow ihchild =>
          refine Acc.intro _ fun later hlater => ?_
          obtain ⟨stop, path, command, told, hact⟩ := hlater
          rcases act_startsOn hact with ⟨rest, r, hmove, heq⟩ | ⟨rest, r, hmove, heq⟩
          · obtain ⟨op', o⟩ := r
            cases o with
            | none =>
                cases heq
                exact ih op' (.of_act hmove) (Acc.intro _ hbelow) _
            | some c =>
                cases heq
                refine ih op' (.of_act hmove) ?_ _
                cases c with
                | setValue args => exact ends_emplace (hstart stop)
                | setError | setStopped => exact ends_empty
          · cases heq
            exact ihchild r.1 (.of_act hmove) _

theorem ends_onSource {copying : Copying V} {final : Sender V} {finalOp : Operation V}
    (hstart : ∀ stop, Ends (start stop final).1) (hop : Ends op) (hfinal : Ends finalOp)
    (stored : Option (Completion V)) (sent : List (Completion V)) :
    Ends (.onSource copying final stored sent op finalOp) := by
  induction hop generalizing finalOp stored sent with
  | intro op _ ih =>
      induction hfinal generalizing stored sent with
      | intro finalOp hbelow ihfinal =>
          refine Acc.intro _ fun later hlater => ?_
          obtain ⟨stop, path, command, told, hact⟩ := hlater
          rcases act_onSource hact with ⟨rest, r, hmove, heq⟩ | ⟨rest, r, hmove, heq⟩
          · obtain ⟨op', o⟩ := r
            cases o with
            | none =>
                cases heq
                exact ih op' (.of_act hmove) (Acc.intro _ hbelow) _ _
            | some c =>
                cases heq
                refine ih op' (.of_act hmove) ?_ _ _
                simp only [sourceReceive]
                split
                · exact ends_emplace (hstart stop)
                · exact ends_empty
          · cases heq
            exact ihfinal r.1 (.of_act hmove) _ _

section Loop

variable {loop : Loop V} {child : ℕ → Sender V}

/-- The loop goes on as its predicate says. -/
theorem predicate_of_again {k : ℕ} {c : Completion V}
    (hagain : processStored loop.copying (loop.predicate k) c = none) :
    loop.predicate k = .ok false := by
  obtain ⟨args, -, -, hanswer⟩ := processStored_eq_none hagain
  exact hanswer

/-- A child of the loop runs, and the next turn ends. -/
theorem ends_waiting {k : ℕ}
    (hnext : loop.predicate k = .ok false → ∀ current sent,
      Ends (.repeatUntil loop child (k + 1) true sent current))
    (hop : Ends op) (sent : List (Completion V)) :
    Ends (.repeatUntil loop child k false sent op) := by
  induction hop generalizing sent with
  | intro op _ ih =>
      refine Acc.intro _ fun later hlater => ?_
      obtain ⟨stop, path, command, told, hact⟩ := hlater
      obtain ⟨rest, r, hmove, heq⟩ := act_waiting hact
      obtain ⟨op', o⟩ := r
      cases o with
      | none =>
          cases heq
          exact ih op' (.of_act hmove) _
      | some c =>
          simp only [Operation.repeatStep] at heq
          cases hprocess : processStored loop.copying (loop.predicate k) c with
          | none =>
              rw [hprocess] at heq
              cases heq
              exact hnext (predicate_of_again hprocess) _ _
          | some d =>
              rw [hprocess] at heq
              cases heq
              exact ih op' (.of_act hmove) _

/-- One turn of the loop, started or continued. -/
theorem ends_repeatStep {k : ℕ}
    (hnext : loop.predicate k = .ok false → ∀ current sent,
      Ends (.repeatUntil loop child (k + 1) true sent current))
    {r : Effect V} (hr : Ends r.1) (sent : List (Completion V)) :
    Ends (Operation.repeatStep loop child k sent r).1 := by
  obtain ⟨op, o⟩ := r
  cases o with
  | none => exact ends_waiting hnext hr sent
  | some c =>
      simp only [Operation.repeatStep]
      cases hprocess : processStored loop.copying (loop.predicate k) c with
      | none => exact hnext (predicate_of_again hprocess) _ _
      | some d => exact ends_waiting hnext hr _

theorem ends_draining {k : ℕ}
    (hnext : loop.predicate k = .ok false → ∀ current sent,
      Ends (.repeatUntil loop child (k + 1) true sent current))
    (hstart : ∀ stop, Ends (start stop (child k)).1) (current : Operation V)
    (sent : List (Completion V)) :
    Ends (.repeatUntil loop child k true sent current) := by
  refine Acc.intro _ fun later hlater => ?_
  obtain ⟨stop, path, command, told, hact⟩ := hlater
  have hends : ∀ r, Turn stop loop child k sent r → Ends r.1 := by
    intro r hturn
    cases hturn with
    | stopped => exact ends_waiting hnext ends_empty _
    | starts => exact ends_repeatStep hnext (hstart stop) _
    | throws => exact ends_waiting hnext ends_empty _
  exact hends _ (act_draining hact)

/-- The loop ends with the turn whose predicate does not go on. -/
theorem ends_repeat {last : ℕ} (hlast : loop.predicate last ≠ .ok false)
    (hstart : ∀ k stop, Ends (start stop (child k)).1) {left k : ℕ} (hk : k + left = last)
    (current : Operation V) (sent : List (Completion V)) :
    Ends (.repeatUntil loop child k true sent current) := by
  induction left generalizing k current sent with
  | zero =>
      obtain rfl : k = last := hk
      exact ends_draining (fun hagain => absurd hagain hlast) (hstart k) current sent
  | succ left ih => exact ends_draining (fun _ => ih (by omega)) (hstart k) current sent

end Loop

section WhenAll

variable {n : ℕ} {copying : Copying V} {joinRaises : List V → Option V}
  {senders : Fin (n + 1) → Sender V}

theorem Join.arrive_started {join : Join V n} (i : Fin n) (c : Completion V) :
    (join.arrive copying i c).started = join.started :=
  (store_counts i _).2

/-- What is left to do of a `when_all` with no child to move: counting those that
have arrived, and its stop callback. -/
def Join.chores (join : Join V n) : ℕ :=
  2 * join.leaving.length + (!join.stopRequested).toNat

theorem elim_started {join : Join V (n + 1)} {i : Fin (n + 1)} (o : Option (Completion V)) :
    (o.elim join fun c => join.arrive copying i c).started = join.started := by
  cases o with
  | none => rfl
  | some c => exact Join.arrive_started i c

theorem ends_update {children : Fin (n + 1) → Operation V} (hchildren : ∀ i, Ends (children i))
    {i : Fin (n + 1)} (hop : Ends op) (k : Fin (n + 1)) :
    Ends (Function.update children i op k) := by
  by_cases hk : k = i
  · rw [hk, Function.update_self]
    exact hop
  · rw [Function.update_of_ne hk]
    exact hchildren k

/-- The moves before the next child is started: those of the children first, then
the rest. -/
theorem ends_children {started : ℕ} (hstart : ∀ i stop, Ends (start stop (senders i)).1)
    (hnext : ∀ (children : Fin (n + 1) → Operation V) (join : Join V (n + 1)) sent,
      (∀ i, Ends (children i)) → started < n + 1 → join.started = started + 1 →
        Ends (.whenAll n copying joinRaises senders join sent children))
    {children : Fin (n + 1) → Operation V} (hchildren : ∀ i, Ends (children i))
    {join : Join V (n + 1)} (hstarted : join.started = started) (sent : List (Completion V)) :
    Ends (.whenAll n copying joinRaises senders join sent children) := by
  have hfamily : Acc (Replaces Next Finset.univ) children := Replaces.acc hchildren
  induction hfamily generalizing join sent with
  | intro children _ ihchildren =>
      induction hchores : join.chores using Nat.strong_induction_on generalizing join sent with
      | h chores ihchores =>
          refine Acc.intro _ fun later hlater => ?_
          obtain ⟨stop, path, command, told, hact⟩ := hlater
          rcases act_whenAll hact with ⟨hlt, heq⟩ | ⟨i, hi, heq⟩ | ⟨hfalse, -, -, heq⟩ |
            ⟨i, rest, r, hmove, heq⟩
          · cases heq
            refine hnext _ _ _ (ends_update hchildren (ends_emplace (hstart _ _)))
              (hstarted ▸ hlt) ?_
            rw [elim_started, hstarted]
          · cases heq
            have hstarted' : (join.leave joinRaises i).1.started = started := hstarted
            refine ihchores _ ?_ hstarted' _ rfl
            have hlength := List.length_erase_of_mem hi
            have hpos := List.length_pos_of_mem hi
            rw [← hchores]
            simp only [Join.chores, Join.leave]
            omega
          · cases heq
            have hstarted' : { join with stopRequested := true }.started = started := hstarted
            refine ihchores _ ?_ hstarted' _ rfl
            rw [← hchores]
            simp [Join.chores, hfalse]
          · cases heq
            refine ihchildren _ ⟨i, Finset.mem_univ i, r.1, .of_act hmove, rfl⟩
              (ends_update hchildren ((hchildren i).inv (.of_act hmove))) ?_ _
            rw [elim_started, hstarted]

theorem ends_whenAll (hstart : ∀ i stop, Ends (start stop (senders i)).1) {left : ℕ}
    {children : Fin (n + 1) → Operation V} (hchildren : ∀ i, Ends (children i))
    {join : Join V (n + 1)} (hleft : n + 1 ≤ join.started + left) (sent : List (Completion V)) :
    Ends (.whenAll n copying joinRaises senders join sent children) := by
  induction left generalizing children join sent with
  | zero =>
      refine ends_children hstart (fun _ _ _ _ hlt _ => ?_) hchildren rfl sent
      omega
  | succ left ih =>
      refine ends_children hstart (fun _ join' sent' hchildren' _ hstarted => ?_) hchildren rfl sent
      exact ih hchildren' (by omega) sent'

end WhenAll

/-- A terminating expression makes finitely many moves once it is started. -/
theorem start_ends (h : s.Terminates) (stop : Bool) : Ends (start stop s).1 := by
  induction s generalizing stop with
  | leaf l => exact ends_leaf _
  | just c => exact ends_just _
  | adapt tag fn upstream ih => exact ends_adapt (ih h stop) _ _
  | letAdapt tag raises child upstream ihchild ih =>
      have hupstream := ih h.2 stop
      simp only [start]
      cases hstart : start stop upstream with
      | mk op o =>
          rw [hstart] at hupstream
          have hchild := fun args stop => ihchild args (h.1 args) stop
          cases o with
          | none => exact ends_let hchild hupstream ends_empty _ _
          | some c =>
              refine ends_let hchild hupstream ?_ _ _
              simp only [letReceive]
              split
              · exact ends_empty
              · exact ends_emplace (hchild _ stop)
  | whenAll n copying joinRaises children ih =>
      exact ends_whenAll (fun i stop => ih i (h i) stop) (fun _ => ends_empty)
        (Nat.le_add_left (n + 1) 0) []
  | startsOn schedule child ih ihchild =>
      simp only [start]
      split
      · have hschedule := ih h.1 stop
        cases hstart : start stop schedule with
        | mk op o =>
            rw [hstart] at hschedule
            cases o with
            | none => exact ends_startsOn (ihchild h.2) hschedule ends_empty _
            | some c =>
                refine ends_startsOn (ihchild h.2) hschedule ?_ _
                cases c with
                | setValue args => exact ends_emplace (ihchild h.2 stop)
                | setError | setStopped => exact ends_empty
      · exact ends_startsOn (ihchild h.2) ends_empty ends_empty _
  | onSource copying final source ihfinal ih =>
      simp only [start]
      split
      · have hsource := ih h.2 stop
        cases hstart : start stop source with
        | mk op o =>
            rw [hstart] at hsource
            cases o with
            | none => exact ends_onSource (ihfinal h.1) hsource ends_empty _ _
            | some c =>
                refine ends_onSource (ihfinal h.1) hsource ?_ _ _
                simp only [sourceReceive]
                split
                · exact ends_emplace (ihfinal h.1 stop)
                · exact ends_empty
      · exact ends_onSource (ihfinal h.1) ends_empty ends_empty _ _
  | repeatUntil loop child ih =>
      obtain ⟨hchildren, last, hlast⟩ := h
      exact ends_repeat hlast (fun k stop => ih k (hchildren k) stop) (Nat.zero_add last) _ _
  | associate accepted child ih =>
      cases accepted with
      | true => exact ends_associate (ih h stop) _
      | false => exact ends_associate ends_empty _

/-! ## Infinite runs -/

section Runs

variable {sender : Sender V} {st st' : State V}

theorem ends_of_reachable (hsender : sender.Terminates) (hst : (machine sender).Reachable st) :
    Ends st.operation := by
  refine hst.invariant (P := fun st => Ends st.operation) (fun st hinit => ?_)
    fun st action st' _ h hstep => ?_
  · obtain rfl : st = .initial := hinit
    exact ends_empty
  · cases action with
    | start =>
        simp only [machine, step] at hstep
        split at hstep
        next => cases hstep
        next =>
          cases hstep
          exact start_ends hsender _
    | requestStop =>
        cases hstep
        exact h
    | move path command =>
        change step sender st (.move path command) = some st' at hstep
        rcases step_move hstep with ⟨r, hact, rfl⟩ | ⟨-, rfl⟩
        · exact h.inv (.of_act hact)
        · exact ends_empty

/-- A step that is no move leaves a begun expression as it is. -/
theorem step_of_no_move {action : Action V} (hstep : step sender st action = some st')
    (hbegun : st.begun = true) (hmove : ∀ path command, action ≠ .move path command) :
    st'.operation = st.operation ∧ st'.signals = st.signals ∧ st'.terminated = st.terminated := by
  cases action with
  | start => simp [step, hbegun] at hstep
  | requestStop =>
      cases hstep
      exact ⟨rfl, rfl, rfl⟩
  | move path command => exact absurd rfl (hmove path command)

theorem begun_of_step {action : Action V} (hstep : step sender st action = some st')
    (hbegun : st.begun = true) : st'.begun = true := by
  cases action with
  | start => simp [step, hbegun] at hstep
  | requestStop =>
      cases hstep
      exact hbegun
  | move path command =>
      rcases step_move hstep with ⟨r, -, rfl⟩ | ⟨-, rfl⟩
      · rfl
      · exact hbegun

variable {run : ℕ → State V} {actions : ℕ → Action V}

theorem run_reachable (hinit : run 0 = .initial)
    (hstep : ∀ i, step sender (run i) (actions i) = some (run (i + 1))) (i : ℕ) :
    (machine sender).Reachable (run i) := by
  induction i with
  | zero => exact .initial hinit
  | succ i ih => exact .step ih (hstep i)

theorem run_begun (hstep : ∀ i, step sender (run i) (actions i) = some (run (i + 1))) {i j : ℕ}
    (hij : i ≤ j) (hbegun : (run i).begun = true) : (run j).begun = true := by
  induction j, hij using Nat.le_induction with
  | base => exact hbegun
  | succ j _ ih => exact begun_of_step (hstep j) ih

theorem run_constant (hstep : ∀ i, step sender (run i) (actions i) = some (run (i + 1))) {i j : ℕ}
    (hij : i ≤ j) (hbegun : (run i).begun = true)
    (hmove : ∀ k, i ≤ k → k < j → ∀ path command, actions k ≠ .move path command) :
    (run j).operation = (run i).operation ∧ (run j).signals = (run i).signals ∧
      (run j).terminated = (run i).terminated := by
  induction j, hij using Nat.le_induction with
  | base => exact ⟨rfl, rfl, rfl⟩
  | succ j hij ih =>
      obtain ⟨hop, hsignals, hterminated⟩ := ih fun k hik hkj => hmove k hik (Nat.lt_succ_of_lt hkj)
      obtain ⟨hop', hsignals', hterminated'⟩ := step_of_no_move (hstep j)
        (run_begun hstep hij hbegun) (hmove j hij (Nat.lt_succ_self j))
      exact ⟨hop'.trans hop, hsignals'.trans hsignals, hterminated'.trans hterminated⟩

/-- Once the process is terminated nothing moves. -/
theorem run_halts (hstep : ∀ i, step sender (run i) (actions i) = some (run (i + 1))) {i j : ℕ}
    (hij : i ≤ j) (hbegun : (run i).begun = true) (hempty : (run i).operation = .empty) :
    (run j).operation = .empty ∧ ∀ path command, actions j ≠ .move path command := by
  have hstuck : ∀ k, (run k).operation = .empty →
      ∀ path command, actions k ≠ .move path command := by
    intro k hk path command haction
    have hmove := hstep k
    rw [haction, no_move_of_empty hk] at hmove
    cases hmove
  induction j, hij using Nat.le_induction with
  | base => exact ⟨hempty, hstuck i hempty⟩
  | succ j hij ih =>
      have hop : (run (j + 1)).operation = .empty :=
        (step_of_no_move (hstep j) (run_begun hstep hij hbegun) ih.2).1.trans ih.1
      exact ⟨hop, hstuck (j + 1) hop⟩

/-- After some step there are no more moves. -/
theorem run_settles (hstep : ∀ i, step sender (run i) (actions i) = some (run (i + 1))) {i : ℕ}
    (hbegun : (run i).begun = true) (hends : Ends (run i).operation) :
    ∃ N, i ≤ N ∧ ∀ k, N ≤ k → ∀ path command, actions k ≠ .move path command := by
  generalize hop : (run i).operation = op at hends
  induction hends generalizing i with
  | intro op _ ih =>
      by_cases hmoves : ∃ k, i ≤ k ∧ ∃ path command, actions k = .move path command
      · classical
        -- the first move from here on
        obtain ⟨hik, path, command, haction⟩ := Nat.find_spec hmoves
        have hquiet : ∀ k, i ≤ k → k < Nat.find hmoves →
            ∀ path command, actions k ≠ .move path command := by
          intro k hk hlt path command heq
          exact Nat.find_min hmoves hlt ⟨hk, path, command, heq⟩
        have hsame := (run_constant hstep hik hbegun hquiet).1
        have hmove := hstep (Nat.find hmoves)
        rw [haction] at hmove
        have hbegun' := run_begun hstep (Nat.le_succ_of_le hik) hbegun
        rcases step_move hmove with ⟨r, hact, hnext⟩ | ⟨-, hnext⟩
        · rw [hsame, hop] at hact
          obtain ⟨N, hN, hafter⟩ := ih r.1 (.of_act hact) hbegun' (congrArg State.operation hnext)
          exact ⟨N, by omega, hafter⟩
        · -- the process is terminated, and with it every move
          have hempty : (run (Nat.find hmoves + 1)).operation = .empty :=
            congrArg State.operation hnext
          exact ⟨Nat.find hmoves + 1, by omega, fun k hk => (run_halts hstep hk hbegun' hempty).2⟩
      · refine ⟨i, Nat.le_refl i, fun k hk path command heq => ?_⟩
        exact hmoves ⟨k, hk, path, command, heq⟩

/-- In every infinite run of a terminating expression that starts it, and does not
put its moves off for ever, the receiver is told one completion, and nothing
after it; or a loop that has no `exception_ptr` to send terminates the process, and
the receiver is told nothing. -/
theorem completes_in_every_run (hsender : sender.Terminates) (hinit : run 0 = .initial)
    (hstep : ∀ i, step sender (run i) (actions i) = some (run (i + 1)))
    (hstarted : ∃ i, actions i = .start)
    (hprogress : ∀ i, (∃ path command, (step sender (run i) (.move path command)).isSome) →
      ∃ j, i ≤ j ∧ ∃ path command, actions j = .move path command) :
    (∃ N c, ∀ i, N ≤ i → (run i).signals = [c] ∧ (run i).terminated = false) ∨
      ¬ sender.Contained ∧
        ∃ N, ∀ i, N ≤ i → (run i).signals = [] ∧ (run i).terminated = true := by
  obtain ⟨i, hi⟩ := hstarted
  have hbegun : (run (i + 1)).begun = true := by
    have hstart := hstep i
    rw [hi] at hstart
    simp only [step] at hstart
    split at hstart
    next => cases hstart
    next => rw [← Option.some.inj hstart]; rfl
  obtain ⟨N, hN, hafter⟩ := run_settles hstep hbegun
    (ends_of_reachable hsender (run_reachable hinit hstep (i + 1)))
  have hbegunN := run_begun hstep hN hbegun
  have hconstant := fun k (hk : N ≤ k) => run_constant hstep hk hbegunN fun m hm _ => hafter m hm
  have hreached := reached_of_reachable (run_reachable hinit hstep N)
  -- the receiver was told at the latest when the moves came to an end
  cases hterminated : (run N).terminated with
  | true =>
      obtain ⟨hcontained, hsignals, -⟩ := hreached.of_terminated hterminated
      refine .inr ⟨hcontained, N, fun k hk => ?_⟩
      obtain ⟨-, hsignals', hterminated'⟩ := hconstant k hk
      exact ⟨hsignals'.trans hsignals, hterminated'.trans hterminated⟩
  | false =>
      have htold : (run N).signals ≠ [] := by
        rw [hreached.told_iff hbegunN hterminated]
        intro path command
        by_contra hmove
        obtain ⟨j, hj, path', command', haction⟩ :=
          hprogress N ⟨path, command, Option.isSome_iff_ne_none.mpr hmove⟩
        exact hafter j hj path' command' haction
      obtain ⟨c, rest, hc⟩ := List.exists_cons_of_ne_nil htold
      have hrest : rest = [] := by
        have hle := hreached.signals_le
        rw [hc] at hle
        exact List.eq_nil_of_length_eq_zero (by simpa using hle)
      refine .inl ⟨N, c, fun k hk => ?_⟩
      obtain ⟨-, hsignals', hterminated'⟩ := hconstant k hk
      exact ⟨by rw [hsignals', hc, hrest], hterminated'.trans hterminated⟩

end Runs

/-! ## A run -/

/-- The run of the loop in which stop is requested again and again once it has
ended. -/
def twiceState : ℕ → State ℕ
  | 0 => .initial
  | 1 => ⟨true, false, (start false twice).1, [], false⟩
  | 2 => ⟨true, false, .repeatUntil twoTurns (fun _ => .just (.setValue [7])) 1 true []
      (.just [.setValue [7]]), [], false⟩
  | k + 3 => ⟨true, !(k == 0), .repeatUntil twoTurns (fun _ => .just (.setValue [7])) 1 false
      [.setValue [7]] (.just [.setValue [7]]), [.setValue [7]], false⟩

def twiceAction : ℕ → Action ℕ
  | 0 => .start
  | 1 => .move [] .drain
  | 2 => .move [] .drain
  | _ + 3 => .requestStop

theorem completes_in_every_run_twice :
    ∃ N c, ∀ i, N ≤ i → (twiceState i).signals = [c] ∧ (twiceState i).terminated = false := by
  have hsender : twice.Terminates := ⟨fun _ => trivial, 1, by decide⟩
  have hstep : ∀ i, step twice (twiceState i) (twiceAction i) = some (twiceState (i + 1)) := by
    intro i
    rcases i with _ | _ | _ | _ | i <;> rfl
  have hprogress : ∀ i, (∃ path command, (step twice (twiceState i) (.move path command)).isSome) →
      ∃ j, i ≤ j ∧ ∃ path command, twiceAction j = .move path command := by
    intro i hmove
    rcases i with _ | _ | _ | i
    · exact ⟨1, by decide, [], .drain, rfl⟩
    · exact ⟨1, by decide, [], .drain, rfl⟩
    · exact ⟨2, by decide, [], .drain, rfl⟩
    · -- the loop has ended
      obtain ⟨path, command, hmove⟩ := hmove
      have hreach := run_reachable (rfl : twiceState 0 = .initial) hstep (i + 3)
      have htold := (reached_of_reachable hreach).told_iff rfl rfl
      rw [htold.mp (List.cons_ne_nil _ _)] at hmove
      cases hmove
  rcases completes_in_every_run hsender rfl hstep ⟨0, rfl⟩ hprogress with
    hcompletes | ⟨hcontained, -⟩
  · exact hcompletes
  · exact absurd ⟨fun _ _ => not_connectThrows rfl, fun _ => trivial⟩ hcontained

end Bexec.Expression
