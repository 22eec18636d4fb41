import Bexec.RunLoop.Phases

/-!
# The queue of a run loop

Every operation that was pushed and not yet executed is on one of three lists:
the stack at `head_`, the part of a popped batch that `reverse` has still to
turn around, and the part in execution order. The links of other operations
may hold anything.
-/

namespace Bexec.RunLoop

open Foundation

variable {Thread Node : Type}

def Head.top : Head Node → Option Node
  | .list top => top
  | .closed => none

theorem State.hasWork_iff {s : State Thread Node} : s.hasWork = true ↔ s.head.top ≠ none := by
  unfold State.hasWork
  cases hhead : s.head with
  | closed => simp [Head.top]
  | list top => cases top <;> simp [Head.top]

namespace Consumer

/-- What `reverse` has still to turn around. -/
def unreversed : Consumer Node → Option Node
  | .reverse operations _ => operations
  | _ => none

/-- The operations of the batch that are in execution order. -/
def ordered : Consumer Node → Option Node
  | .reverse _ reversed => reversed
  | .executeAll operations => operations
  | .executing operations => operations
  | _ => none

end Consumer

@[simp] theorem popNext_unreversed {closing : Bool} {head : Head Node} :
    (State.popNext closing head).unreversed = none := by
  rcases popNext_cases closing head with ⟨op, hnext⟩ | hnext | hnext <;> rw [hnext] <;> rfl

@[simp] theorem popNext_ordered {closing : Bool} {head : Head Node} :
    (State.popNext closing head).ordered = none := by
  rcases popNext_cases closing head with ⟨op, hnext⟩ | hnext | hnext <;> rw [hnext] <;> rfl

/-- The three lists, each from its first link on. -/
structure Layout (s : State Thread Node) (stack popped ready : List Node) : Prop where
  onStack : Chain s.next s.head.top stack
  onPopped : Chain s.next s.consumer.unreversed popped
  onReady : Chain s.next s.consumer.ordered ready
  history : s.pushed = s.executed ++ (popped.reverse ++ ready ++ stack.reverse)
  nodup : (popped.reverse ++ ready ++ stack.reverse).Nodup

namespace Layout

variable {s s' : State Thread Node} {stack popped ready : List Node} {op : Node}

/-- A step that leaves the lists alone. -/
theorem frame (h : Layout s stack popped ready) (hnext : s'.next = s.next)
    (hhead : s'.head.top = s.head.top) (hunreversed : s'.consumer.unreversed = s.consumer.unreversed)
    (hordered : s'.consumer.ordered = s.consumer.ordered) (hpushed : s'.pushed = s.pushed)
    (hexecuted : s'.executed = s.executed) : Layout s' stack popped ready where
  onStack := by
    rw [hnext, hhead]
    exact h.onStack
  onPopped := by
    rw [hnext, hunreversed]
    exact h.onPopped
  onReady := by
    rw [hnext, hordered]
    exact h.onReady
  history := by
    rw [hpushed, hexecuted]
    exact h.history
  nodup := h.nodup

variable [DecidableEq Node]

/-- The queued operations are those on the lists. -/
theorem queued_iff (h : Layout s stack popped ready) :
    s.queued op = true ↔ op ∈ popped.reverse ++ ready ++ stack.reverse := by
  simp only [State.queued, decide_eq_true_eq]
  rw [h.history, List.count_append]
  rw [← List.count_pos_iff]
  omega

theorem not_mem (h : Layout s stack popped ready) (hop : s.queued op = false) :
    op ∉ stack ∧ op ∉ popped ∧ op ∉ ready := by
  have hnot : ¬ s.queued op = true := by simp [hop]
  rw [h.queued_iff] at hnot
  simp only [List.mem_append, List.mem_reverse, not_or] at hnot
  exact ⟨hnot.2, hnot.1.1, hnot.1.2⟩

/-- The link of an operation that is not queued may change. -/
theorem write (h : Layout s stack popped ready) (hop : s.queued op = false)
    (target : Option Node) :
    Layout { s with next := Function.update s.next op target } stack popped ready := by
  obtain ⟨hstack, hpopped, hready⟩ := h.not_mem hop
  exact ⟨h.onStack.update hstack target, h.onPopped.update hpopped target,
    h.onReady.update hready target, h.history, h.nodup⟩

/-- A successful push. -/
theorem push (h : Layout s stack popped ready) (hop : s.queued op = false) {top : Option Node}
    (hhead : s.head = .list top) :
    Layout { s with
      next := Function.update s.next op top
      head := .list (some op)
      pushed := s.pushed ++ [op] } (op :: stack) popped ready := by
  obtain ⟨hstack, hpopped, hready⟩ := h.not_mem hop
  have hchain := h.onStack
  rw [hhead] at hchain
  constructor
  · exact hchain.push hstack
  · exact h.onPopped.update hpopped top
  · exact h.onReady.update hready top
  · simp [h.history]
  · have hnodup := h.nodup
    rw [List.reverse_cons, ← List.append_assoc, List.nodup_append]
    refine ⟨hnodup, by simp, ?_⟩
    intro a ha b hb
    rw [List.mem_singleton.mp hb]
    intro heq
    subst heq
    exact absurd (h.queued_iff.mpr ha) (by simp [hop])

omit [DecidableEq Node] in
/-- The consumer takes the whole stack. -/
theorem pop (h : Layout s stack popped ready) {operations : Node}
    (hhead : s.head = .list (some operations)) (hunreversed : s.consumer.unreversed = none)
    (hordered : s.consumer.ordered = none) :
    Layout ({ s with head := .list none }.setConsumer (.reverse (some operations) none))
      [] stack [] := by
  have hstack := h.onStack
  have hpopped := h.onPopped
  have hready := h.onReady
  rw [hhead] at hstack
  rw [hunreversed] at hpopped
  rw [hordered] at hready
  obtain rfl := hpopped.nil_iff
  obtain rfl := hready.nil_iff
  constructor
  · rfl
  · exact hstack
  · rfl
  · simpa [State.setConsumer] using h.history
  · simpa using h.nodup

/-- One turn of `reverse` moves an operation over to the batch in execution
order. -/
theorem turn (h : Layout s stack popped ready) {op : Node} {reversed : Option Node}
    (hconsumer : s.consumer = .reverse (some op) reversed) :
    ∃ rest, popped = op :: rest ∧ Layout (s.reverse reversed (some op)) stack rest (op :: ready) := by
  have hpopped := h.onPopped
  have hready := h.onReady
  rw [hconsumer] at hpopped hready
  simp only [Consumer.unreversed, Consumer.ordered] at hpopped hready
  obtain ⟨rest, rfl, hrest⟩ := hpopped.cons_of_some
  have hnodup := h.nodup
  simp only [List.reverse_cons, List.append_assoc, List.cons_append, List.nil_append] at hnodup
  have hfresh := hnodup
  rw [List.nodup_middle] at hfresh
  have hop := (List.nodup_cons.mp hfresh).1
  simp only [List.mem_append, List.mem_reverse, not_or] at hop
  refine ⟨rest, rfl, h.onStack.update hop.2.2 reversed, hrest.update hop.1 reversed,
    hready.push hop.2.1, ?_, ?_⟩
  · simpa [State.reverse, State.setConsumer] using h.history
  · simpa using hnodup

/-- A step of `reverse`. -/
theorem reverse (h : Layout s stack popped ready) {operations reversed : Option Node}
    (hconsumer : s.consumer = .reverse operations reversed) :
    ∃ popped' ready', Layout (s.reverse reversed operations) stack popped' ready' := by
  cases operations with
  | none =>
      have hpopped := h.onPopped
      have hready := h.onReady
      rw [hconsumer] at hpopped hready
      simp only [Consumer.unreversed, Consumer.ordered] at hpopped hready
      obtain rfl := hpopped.nil_iff
      exact ⟨[], ready, h.onStack, rfl, hready, h.history, h.nodup⟩
  | some op =>
      obtain ⟨rest, -, hturn⟩ := h.turn hconsumer
      exact ⟨rest, op :: ready, hturn⟩

/-- One turn of `execute_all`. -/
theorem executeAll (h : Layout s stack popped ready) {operations : Option Node}
    (hconsumer : s.consumer = .executeAll operations) :
    ∃ popped' ready', Layout (s.executeAll operations) stack popped' ready' := by
  have hpopped := h.onPopped
  have hready := h.onReady
  rw [hconsumer] at hpopped hready
  simp only [Consumer.unreversed, Consumer.ordered] at hpopped hready
  obtain rfl := hpopped.nil_iff
  cases operations with
  | none =>
      obtain rfl := hready.nil_iff
      exact ⟨[], [], h.onStack, rfl, rfl, h.history, h.nodup⟩
  | some op =>
      obtain ⟨rest, rfl, hrest⟩ := hready.cons_of_some
      have hnodup := h.nodup
      simp only [List.reverse_nil, List.nil_append, List.cons_append] at hnodup
      obtain ⟨hop, hnodup⟩ := List.nodup_cons.mp hnodup
      simp only [List.mem_append, List.mem_reverse, not_or] at hop
      refine ⟨[], rest, h.onStack.update hop.2 none, rfl, hrest.update hop.1 none, ?_, ?_⟩
      · simpa [State.executeAll, State.setConsumer] using h.history
      · simpa using hnodup

end Layout

variable [DecidableEq Node] {owner : Thread} {s s' : State Thread Node}

/-- The lists exist, and an operation on its way to `head_` is on none of them
and in one call only. -/
structure QueueInv (s : State Thread Node) : Prop where
  layout : ∃ stack popped ready, Layout s stack popped ready
  prepared : ∀ t op, (s.call t).prepares op = true → s.queued op = false
  single : ∀ t t' op, (s.call t).prepares op = true → (s.call t').prepares op = true → t = t'

namespace QueueInv

theorem initial : QueueInv (State.initial : State Thread Node) where
  layout := ⟨[], [], [], rfl, rfl, rfl, rfl, List.nodup_nil⟩
  prepared := by simp [State.initial, Call.prepares]
  single := by simp [State.initial, Call.prepares]

/-- A step that leaves the lists alone and hands out no operation. -/
theorem frame (h : QueueInv s) (hnext : s'.next = s.next) (hhead : s'.head.top = s.head.top)
    (hunreversed : s'.consumer.unreversed = s.consumer.unreversed)
    (hordered : s'.consumer.ordered = s.consumer.ordered) (hpushed : s'.pushed = s.pushed)
    (hexecuted : s'.executed = s.executed)
    (hcall : ∀ t op, (s'.call t).prepares op = true → (s.call t).prepares op = true) :
    QueueInv s' where
  layout := by
    obtain ⟨stack, popped, ready, hlayout⟩ := h.layout
    exact ⟨stack, popped, ready,
      hlayout.frame hnext hhead hunreversed hordered hpushed hexecuted⟩
  prepared := by
    intro t op hop
    unfold State.queued
    rw [hpushed, hexecuted]
    exact h.prepared t op (hcall t op hop)
  single := fun t t' op hop hop' => h.single t t' op (hcall t op hop) (hcall t' op hop')

variable [DecidableEq Thread] {t : Thread}

omit [DecidableEq Thread] in
/-- A step of a call that neither publishes an operation nor takes a new one. -/
theorem moveCall (h : QueueInv s) (t : Thread)
    (hcall : ∀ op, (s'.call t).prepares op = true → (s.call t).prepares op = true)
    (hcalls : ∀ t', t' ≠ t → s'.call t' = s.call t') (hnext : s'.next = s.next)
    (hhead : s'.head = s.head) (hunreversed : s'.consumer.unreversed = s.consumer.unreversed)
    (hordered : s'.consumer.ordered = s.consumer.ordered) (hpushed : s'.pushed = s.pushed)
    (hexecuted : s'.executed = s.executed) : QueueInv s' := by
  apply h.frame hnext (congrArg Head.top hhead) hunreversed hordered hpushed hexecuted
  intro t' op hop
  by_cases heq : t' = t
  · subst heq
    exact hcall op hop
  · exact hcalls t' heq ▸ hop

omit [DecidableEq Thread] in
/-- The call stops preparing its operation, which is queued from now on. -/
theorem published (h : QueueInv s) {op : Node} (hcall : (s.call t).prepares op = true)
    (hnot : ∀ op, (s'.call t).prepares op = false)
    (hcalls : ∀ t', t' ≠ t → s'.call t' = s.call t')
    (hlayout : ∃ stack popped ready, Layout s' stack popped ready)
    (hpushed : s'.pushed = s.pushed ++ [op]) (hexecuted : s'.executed = s.executed) :
    QueueInv s' := by
  have hprepares : ∀ t' op', (s'.call t').prepares op' = true →
      t' ≠ t ∧ (s.call t').prepares op' = true := by
    intro t' op' hop'
    by_cases heq : t' = t
    · subst heq
      rw [hnot] at hop'
      cases hop'
    · exact ⟨heq, hcalls t' heq ▸ hop'⟩
  refine ⟨hlayout, ?_, ?_⟩
  · intro t' op' hop'
    obtain ⟨hne, hop'⟩ := hprepares t' op' hop'
    have hfree := h.prepared t' op' hop'
    have hother : op ≠ op' := by
      intro heq
      subst heq
      exact hne (h.single t' t op hop' hcall)
    unfold State.queued at hfree ⊢
    rw [hpushed, hexecuted, List.count_append, List.count_singleton, if_neg (by simpa using hother)]
    exact hfree
  · intro t' t'' op' hop' hop''
    exact h.single t' t'' op' (hprepares t' op' hop').2 (hprepares t'' op' hop'').2

theorem push (h : QueueInv s) {weak : Bool} {op : Node} {head : Head Node}
    (hcall : s.call t = .push op head) : QueueInv (s.push t weak op head) := by
  have hprepares : (s.call t).prepares op = true := by simp [hcall, Call.prepares]
  have hop := h.prepared t op hprepares
  obtain ⟨stack, popped, ready, hlayout⟩ := h.layout
  cases head with
  | closed =>
      apply h.moveCall t <;>
        simp +contextual [State.push, State.setCall, State.assertFailed, Call.prepares]
  | list top =>
      simp only [State.push]
      split
      · next hcas =>
          apply h.published hprepares
          · simp [State.setCall, Call.prepares]
          · simp +contextual [State.setCall]
          · exact ⟨op :: stack, popped, ready,
              (hlayout.push hop hcas.1).frame rfl rfl rfl rfl rfl rfl⟩
          · simp [State.setCall]
          · simp [State.setCall]
      · have hwritten : QueueInv { s with next := Function.update s.next op top } :=
          ⟨⟨stack, popped, ready, hlayout.write hop top⟩, h.prepared, h.single⟩
        apply hwritten.moveCall t <;> simp +contextual [State.setCall, hcall, Call.prepares]

theorem stepCall (h : QueueInv s) {weak : Bool}
    (hstep : s.stepCall t weak (s.call t) = some s') : QueueInv s' := by
  cases hcall : s.call t <;> simp only [hcall, State.stepCall, Option.some.injEq] at hstep
  case idle => cases hstep
  case push op head =>
    subst hstep
    exact h.push hcall
  case wake published step =>
    cases step <;>
      simp only [State.wake, State.notify, Option.some.injEq, Option.ite_none_right_eq_some]
        at hstep
    case load =>
      subst hstep
      apply h.moveCall t <;> simp +contextual [State.setCall]
      split <;> simp [Call.prepares]
    case lock =>
      obtain ⟨-, rfl⟩ := hstep
      apply h.moveCall t <;> simp +contextual [State.setCall, Call.prepares]
    case notify =>
      subst hstep
      split
      · next hasleep =>
          apply h.moveCall t <;> simp +contextual [State.setCall, State.setConsumer, Call.prepares,
            hasleep, Consumer.unreversed, Consumer.ordered]
      · apply h.moveCall t <;> simp +contextual [State.setCall, Call.prepares]
    case unlock =>
      subst hstep
      apply h.moveCall t <;> simp +contextual [State.setCall, Call.prepares]
  case finishStarting =>
    subst hstep
    unfold State.finishStarting
    split <;> apply h.moveCall t <;>
      simp +contextual [State.setCall, State.assertFailed, Call.prepares]
  case finishRunning =>
    subst hstep
    unfold State.finishRunning
    split <;> apply h.moveCall t <;>
      simp +contextual [State.setCall, State.assertFailed, Call.prepares]
  all_goals
    subst hstep
    apply h.moveCall t <;> simp +contextual [State.setCall, hcall, Call.prepares]

omit [DecidableEq Thread] in
/-- A step of the consumer that moves no operation. -/
theorem moveConsumer (h : QueueInv s) (hcall : s'.call = s.call) (hnext : s'.next = s.next)
    (hhead : s'.head.top = s.head.top) (hunreversed : s'.consumer.unreversed = s.consumer.unreversed)
    (hordered : s'.consumer.ordered = s.consumer.ordered) (hpushed : s'.pushed = s.pushed)
    (hexecuted : s'.executed = s.executed) : QueueInv s' := by
  apply h.frame hnext hhead hunreversed hordered hpushed hexecuted
  intro t op hop
  exact hcall ▸ hop

omit [DecidableEq Thread] in
/-- A step of the consumer that keeps or shrinks the set of queued operations. -/
theorem relayout (h : QueueInv s) (hlayout : ∃ stack popped ready, Layout s' stack popped ready)
    (hcall : s'.call = s.call) (hpushed : s'.pushed = s.pushed)
    (hexecuted : s.executed <+: s'.executed) : QueueInv s' := by
  refine ⟨hlayout, ?_, ?_⟩
  · intro t op hop
    rw [hcall] at hop
    have hfree := h.prepared t op hop
    have hcount := hexecuted.sublist.count_le op
    simp only [State.queued, decide_eq_false_iff_not] at hfree ⊢
    rw [hpushed]
    omega
  · rw [hcall]
    exact h.single

omit [DecidableEq Thread] in
theorem popNext (h : QueueInv s) (hunreversed : s.consumer.unreversed = none)
    (hordered : s.consumer.ordered = none) {closing : Bool} {head : Head Node} :
    QueueInv (s.setConsumer (State.popNext closing head)) := by
  apply h.moveConsumer <;> simp [State.setConsumer, hunreversed, hordered]

omit [DecidableEq Thread] in
theorem popSwap (h : QueueInv s) {weak closing : Bool} {operations : Node}
    (hconsumer : s.consumer = .popSwap closing operations) :
    QueueInv (s.popSwap weak closing operations) := by
  have hunreversed : s.consumer.unreversed = none := by simp [hconsumer, Consumer.unreversed]
  have hordered : s.consumer.ordered = none := by simp [hconsumer, Consumer.ordered]
  unfold State.popSwap
  split
  · next hcas =>
      obtain ⟨stack, popped, ready, hlayout⟩ := h.layout
      apply h.relayout ⟨[], stack, [], hlayout.pop hcas.1 hunreversed hordered⟩ <;>
        simp [State.setConsumer]
  · exact h.popNext hunreversed hordered

omit [DecidableEq Thread] in
theorem reverse (h : QueueInv s) {operations reversed : Option Node}
    (hconsumer : s.consumer = .reverse operations reversed) :
    QueueInv (s.reverse reversed operations) := by
  obtain ⟨stack, popped, ready, hlayout⟩ := h.layout
  obtain ⟨popped', ready', hturned⟩ := hlayout.reverse hconsumer
  apply h.relayout ⟨stack, popped', ready', hturned⟩ <;>
    cases operations <;> simp [State.reverse, State.setConsumer]

omit [DecidableEq Thread] in
theorem executeAll (h : QueueInv s) {operations : Option Node}
    (hconsumer : s.consumer = .executeAll operations) : QueueInv (s.executeAll operations) := by
  obtain ⟨stack, popped, ready, hlayout⟩ := h.layout
  obtain ⟨popped', ready', hturned⟩ := hlayout.executeAll hconsumer
  apply h.relayout ⟨stack, popped', ready', hturned⟩ <;>
    cases operations <;> simp [State.executeAll, State.setConsumer]

omit [DecidableEq Thread] in
theorem stepConsumer (h : QueueInv s) {weak : Bool}
    (hstep : s.stepConsumer owner weak s.consumer = some s') : QueueInv s' := by
  cases hconsumer : s.consumer <;>
    simp only [hconsumer, State.stepConsumer, Option.some.injEq,
      Option.ite_none_right_eq_some, reduceCtorEq] at hstep
  case popLoad closing =>
    subst hstep
    apply h.popNext <;> simp [hconsumer, Consumer.unreversed, Consumer.ordered]
  case popSwap closing operations =>
    subst hstep
    exact h.popSwap hconsumer
  case reverse operations reversed =>
    subst hstep
    exact h.reverse hconsumer
  case executeAll operations =>
    subst hstep
    exact h.executeAll hconsumer
  case beginRun =>
    subst hstep
    unfold State.beginRun
    split <;> apply h.moveConsumer <;>
      simp [State.setConsumer, State.assertFailed, hconsumer, Consumer.unreversed, Consumer.ordered]
  case close =>
    subst hstep
    unfold State.close
    split <;> apply h.moveConsumer <;>
      simp [State.setConsumer, Consumer.unreversed, Consumer.ordered, Head.top, *]
  case finished =>
    subst hstep
    unfold State.finished
    split <;> apply h.moveConsumer <;>
      simp [State.setConsumer, State.assertFailed, hconsumer, Consumer.unreversed, Consumer.ordered]
  case loadState | drain | predicateHead | predicateState =>
    subst hstep
    split <;> apply h.moveConsumer <;>
      simp [State.setConsumer, hconsumer, Consumer.unreversed, Consumer.ordered]
  case lock | relock =>
    obtain ⟨-, rfl⟩ := hstep
    apply h.moveConsumer <;>
      simp [State.setConsumer, hconsumer, Consumer.unreversed, Consumer.ordered]
  -- register, sleep, unregister and unlock
  all_goals
    subst hstep
    apply h.moveConsumer <;>
      simp [State.setConsumer, hconsumer, Consumer.unreversed, Consumer.ordered]

variable [Fintype Thread]

omit [DecidableEq Thread] in
theorem not_queued_of_free {op : Node} (hfree : s.free op = true) :
    s.queued op = false ∧ ∀ t, (s.call t).prepares op = false := by
  simpa [State.free] using hfree

/-- An operation that belongs to the user is handed to `enqueue`. -/
theorem enqueue (h : QueueInv s) {op : Node} (hidle : s.call t = .idle)
    (hfree : s.free op = true) : QueueInv (s.setCall t (.enqueue op)) := by
  obtain ⟨hqueued, hunused⟩ := not_queued_of_free hfree
  have hprepares : ∀ t' op', (Function.update s.call t (.enqueue op) t').prepares op' = true →
      t' = t ∧ op' = op ∨ (s.call t').prepares op' = true := by
    intro t' op' hop'
    by_cases heq : t' = t
    · subst heq
      exact Or.inl ⟨rfl, by simpa [Call.prepares, eq_comm] using hop'⟩
    · exact Or.inr (by simpa [Function.update_of_ne heq] using hop')
  refine ⟨h.layout.imp fun stack => Exists.imp fun popped => Exists.imp fun ready hlayout =>
    hlayout.frame rfl rfl rfl rfl rfl rfl, ?_, ?_⟩
  · intro t' op' hop'
    rcases hprepares t' op' hop' with ⟨-, rfl⟩ | hop'
    · exact hqueued
    · exact h.prepared t' op' hop'
  · intro t' t'' op' hop' hop''
    rcases hprepares t' op' hop' with ⟨hthread, hnode⟩ | hold <;>
      rcases hprepares t'' op' hop'' with ⟨hthread', hnode'⟩ | hold'
    · rw [hthread, hthread']
    · rw [hnode, hunused] at hold'
      cases hold'
    · rw [hnode', hunused] at hold
      cases hold
    · exact h.single t' t'' op' hold hold'

theorem step (h : QueueInv s) {a : Action Thread Node} (hstep : step owner s a = some s') :
    QueueInv s' := by
  cases a with
  | enqueue t op =>
      simp only [RunLoop.step, Option.ite_none_right_eq_some, Option.some.injEq] at hstep
      obtain ⟨⟨huser, hfree⟩, rfl⟩ := hstep
      apply h.enqueue _ hfree
      simp only [State.atUser, Bool.and_eq_true, decide_eq_true_eq] at huser
      exact huser.1
  | finish t =>
      simp only [RunLoop.step, Option.ite_none_right_eq_some, Option.some.injEq] at hstep
      obtain ⟨-, rfl⟩ := hstep
      apply h.moveCall t <;> simp +contextual [State.setCall, Call.prepares]
  | run =>
      simp only [RunLoop.step, Option.ite_none_right_eq_some, Option.some.injEq] at hstep
      obtain ⟨⟨-, hconsumer⟩, rfl⟩ := hstep
      apply h.moveConsumer <;>
        simp [State.setConsumer, hconsumer, Consumer.unreversed, Consumer.ordered]
  | proceed t weak => exact h.stepCall hstep
  | consume weak =>
      simp only [RunLoop.step, Option.ite_none_right_eq_some] at hstep
      exact h.stepConsumer hstep.2
  | wakeSpuriously =>
      simp only [RunLoop.step, Option.ite_none_right_eq_some, Option.some.injEq] at hstep
      obtain ⟨hconsumer, rfl⟩ := hstep
      apply h.moveConsumer <;>
        simp [State.setConsumer, hconsumer, Consumer.unreversed, Consumer.ordered]
  | ret =>
      simp only [RunLoop.step] at hstep
      split at hstep
      · next operations hconsumer =>
          simp only [Option.ite_none_right_eq_some, Option.some.injEq] at hstep
          obtain ⟨-, rfl⟩ := hstep
          apply h.moveConsumer <;>
            simp [State.setConsumer, hconsumer, Consumer.unreversed, Consumer.ordered]
      · cases hstep
  | reuse op next =>
      simp only [RunLoop.step, Option.ite_none_right_eq_some, Option.some.injEq] at hstep
      obtain ⟨hfree, rfl⟩ := hstep
      obtain ⟨stack, popped, ready, hlayout⟩ := h.layout
      exact ⟨⟨stack, popped, ready, hlayout.write (not_queued_of_free hfree).1 next⟩,
        h.prepared, h.single⟩

end QueueInv

variable [DecidableEq Thread] [Fintype Thread]

theorem queueInv_of_reachable (hs : (machine Thread Node owner).Reachable s) : QueueInv s := by
  apply hs.invariant
  · intro s hinit
    cases hinit
    exact QueueInv.initial
  · intro s a t _ h hstep
    exact h.step hstep

namespace QueueInv

omit [DecidableEq Thread] [Fintype Thread]

/-- Between two batches everything pushed is executed or on the stack. -/
theorem executed_eq_pushed (h : QueueInv s) (hunreversed : s.consumer.unreversed = none)
    (hordered : s.consumer.ordered = none) (htop : s.head.top = none) :
    s.executed = s.pushed := by
  obtain ⟨stack, popped, ready, hlayout⟩ := h.layout
  have hstack := hlayout.onStack
  have hpopped := hlayout.onPopped
  have hready := hlayout.onReady
  rw [htop] at hstack
  rw [hunreversed] at hpopped
  rw [hordered] at hready
  obtain rfl := hstack.nil_iff
  obtain rfl := hpopped.nil_iff
  obtain rfl := hready.nil_iff
  simpa using hlayout.history.symm

theorem length_lt (h : QueueInv s) (htop : s.head.top ≠ none) :
    s.executed.length < s.pushed.length := by
  obtain ⟨stack, popped, ready, hlayout⟩ := h.layout
  have hstack : stack ≠ [] := by
    intro heq
    have hchain := hlayout.onStack
    rw [heq] at hchain
    exact htop hchain
  have hpos := List.length_pos_of_ne_nil hstack
  rw [hlayout.history]
  simp only [List.length_append, List.length_reverse]
  omega

theorem drained (h : QueueInv s) (hphases : Phases owner s) (hconsumer : s.consumer = .returned) :
    s.executed = s.pushed := by
  have hhead := hphases.closed.mpr (by simp [hconsumer, Consumer.hasClosed])
  apply h.executed_eq_pushed <;>
    simp [hconsumer, Consumer.unreversed, Consumer.ordered, hhead, Head.top]

end QueueInv

/-- The executed operations are the pushed ones, in the order of the pushes, up
to those still queued. When `run` has returned none is left. -/
theorem executed_in_push_order (hs : (machine Thread Node owner).Reachable s) :
    s.executed <+: s.pushed ∧ (s.consumer = .returned → s.executed = s.pushed) := by
  have hqueue := queueInv_of_reachable hs
  constructor
  · obtain ⟨stack, popped, ready, hlayout⟩ := hqueue.layout
    exact ⟨_, hlayout.history.symm⟩
  · exact hqueue.drained (phases_of_reachable hs)

/-- One operation is pushed before `run`. While it executes, its own thread
pushes a second operation and another thread pushes the first one again. -/
def requeueRun : List (Action Pair Pair) :=
  List.flatten [[.enqueue .second .first], List.replicate 5 (.proceed .second false), [.run],
    List.replicate 6 (.consume false), [.enqueue .first .second],
    List.replicate 5 (.proceed .first false), [.enqueue .second .first],
    List.replicate 5 (.proceed .second false), [.ret], List.replicate 7 (.consume false),
    [.ret, .consume false, .ret, .finish .second], List.replicate 5 (.proceed .second false),
    List.replicate 7 (.consume false)]

theorem requeueRun_runs :
    ((machine Pair Pair .first).exec State.initial requeueRun).isSome := by
  decide

def requeued : State Pair Pair :=
  ((machine Pair Pair .first).exec State.initial requeueRun).get requeueRun_runs

theorem executed_in_push_order_requeued :
    requeued.executed = [.first, .second, .first] ∧ requeued.consumer = .returned ∧
      requeued.executed <+: requeued.pushed ∧
      (requeued.consumer = .returned → requeued.executed = requeued.pushed) := by
  refine ⟨by decide, by decide, ?_⟩
  exact executed_in_push_order (Machine.reachable_replay rfl requeueRun requeueRun_runs)

end Bexec.RunLoop
