import Bexec.WhenAll.Effect

/-!
# Accounting of the children

The count, the slots, the terminal state and the log are related to where each
child stands. A child that has not decremented the count is outstanding; the one
that brings it to zero finishes the operation.
-/

namespace Bexec.WhenAll

open Foundation

variable {Thread Record Value Error : Type} {n : Nat}

namespace ChildPc

/-- The child has not decremented the count. -/
def outstanding : ChildPc → Bool
  | .resetOnStop => false
  | .loadTerminal => false
  | .deliver _ => false
  | .done => false
  | _ => true

/-- The child is executing `finish_one`. -/
def finishing : ChildPc → Bool
  | .resetOnStop => true
  | .loadTerminal => true
  | .deliver _ => true
  | _ => false

/-- The child has won the exchange and has not finished with the winner's part. -/
def winning : ChildPc → Bool
  | .storeError => true
  | .requestStop => true
  | .stopping => true
  | _ => false

/-- The child has nothing left to write. -/
def arrived (pc : ChildPc) : Bool :=
  decide (pc = .decrement) || !pc.outstanding

end ChildPc

def Event.isFinishing : Event n Value Error → Bool
  | .finishing _ => true
  | _ => false

def Event.isDelivered : Event n Value Error → Bool
  | .delivered _ => true
  | _ => false

/-- Calls of `finish_one`. -/
def finishes (log : List (Event n Value Error)) : Nat := log.countP Event.isFinishing

/-- Completions of the receiver. -/
def deliveries (log : List (Event n Value Error)) : Nat := log.countP Event.isDelivered

def Signal.tuple : Signal Value Error → List Value
  | .value values => values
  | _ => []

/-- The tuples of all children, in index order. -/
def Children.concatenation (children : Children n Value Error) : List Value :=
  (List.finRange n).flatMap fun k => (children.outcome k).tuple

/-- The completion the receiver is to get: all values, or what the winner sent. -/
def Expected (children : Children n Value Error) (log : List (Event n Value Error))
    (signal : Signal Value Error) : Prop :=
  (signal = .value children.concatenation ∧ ∀ k, (children.outcome k).kind = .none) ∨
    ∃ k, .won k ∈ log ∧ signal = children.outcome k ∧ (children.outcome k).kind ≠ .none

/-- What holds of one child. -/
structure ChildInv (children : Children n Value Error) (op : Operation Thread n Value Error)
    (k : Fin n) : Prop where
  completed : .completed k ∈ op.log ↔ op.children k ≠ .unstarted ∧ op.children k ≠ .running
  decremented : .decremented k ∈ op.log ↔ (op.children k).outstanding = false
  emplace : op.children k = .emplace → (children.outcome k).kind = .none
  exchange : op.children k = .exchange → (children.outcome k).kind ≠ .none
  storeError : op.children k = .storeError → (children.outcome k).kind = .error
  slot : ∀ values, children.outcome k = .value values → (op.children k).arrived = true →
    op.values k = some values
  winning : (op.children k).winning = true → .won k ∈ op.log
  won : .won k ∈ op.log → op.terminal = (children.outcome k).kind ∧
    (children.outcome k).kind ≠ .none ∧
    ((op.children k).winning = true ∨ (op.children k).arrived = true)
  stored : ∀ error, .won k ∈ op.log → children.outcome k = .error error →
    op.children k ≠ .storeError → op.error = some error
  lost : (op.children k).arrived = true → (children.outcome k).kind ≠ .none → op.terminal ≠ .none
  final : ∀ kind, op.children k = .deliver kind → kind = op.terminal

structure OpInv (children : Children n Value Error) (op : Operation Thread n Value Error) :
    Prop where
  child : ∀ k, ChildInv children op k
  terminal : op.terminal ≠ .none → ∃ k, .won k ∈ op.log
  unique : ∀ j k, .won j ∈ op.log → .won k ∈ op.log → j = k
  unstarted : ∀ k, op.children k = .unstarted ↔ op.started ≤ k.val
  remaining : op.remaining = tally ChildPc.outstanding op.children
  finishes : finishes op.log = if op.remaining = 0 then 1 else 0
  deliveries : deliveries op.log + tally ChildPc.finishing op.children = WhenAll.finishes op.log
  delivered : ∀ signal, .delivered signal ∈ op.log → Expected children op.log signal

variable {children : Children n Value Error} {op op' : Operation Thread n Value Error} {k : Fin n}

theorem ChildInv.not_won (h : ChildInv children op k) (hwinning : (op.children k).winning = false)
    (harrived : (op.children k).arrived = false) : .won k ∉ op.log := by
  intro hwon
  rcases (h.won hwon).2.2 with htrue | htrue
  · rw [hwinning] at htrue
    cases htrue
  · rw [harrived] at htrue
    cases htrue

namespace OpInv

/-- No child is finishing while another is outstanding. -/
theorem not_finishing (h : OpInv children op) (hk : (op.children k).outstanding = true)
    (j : Fin n) : (op.children j).finishing = false := by
  by_contra hj
  have hpos : 0 < tally ChildPc.finishing op.children :=
    tally_pos (Bool.eq_true_of_not_eq_false hj)
  have hdeliveries := h.deliveries
  have hfinishes := h.finishes
  have houtstanding := tally_pos hk
  rw [← h.remaining] at houtstanding
  rw [if_neg (by omega)] at hfinishes
  omega

theorem initial (hn : 0 < n) :
    OpInv children (Operation.initial : Operation Thread n Value Error) where
  child k := by
    constructor <;> simp [Operation.initial, ChildPc.outstanding, ChildPc.arrived, ChildPc.winning]
  terminal hterminal := absurd rfl hterminal
  unique j k hj := by cases hj
  unstarted k := by simp [Operation.initial]
  remaining := by simp [Operation.initial, tally, ChildPc.outstanding]
  finishes := by
    rw [if_neg (by simp [Operation.initial]; omega)]
    rfl
  deliveries := by simp [Operation.initial, tally, ChildPc.finishing, WhenAll.deliveries, WhenAll.finishes]
  delivered signal hmem := by cases hmem

end OpInv

/-- A step of child `k` that leaves the terminal state alone. -/
structure Moved (op op' : Operation Thread n Value Error) (k : Fin n) (pc : ChildPc) : Prop where
  children : op'.children = Function.update op.children k pc
  values : ∀ j, j ≠ k → op'.values j = op.values j
  terminal : op'.terminal = op.terminal
  error : op'.error = op.error ∨ .won k ∈ op.log
  won : ∀ j, .won j ∈ op'.log ↔ .won j ∈ op.log
  completed : ∀ j, j ≠ k → (.completed j ∈ op'.log ↔ .completed j ∈ op.log)
  decremented : ∀ j, j ≠ k → (.decremented j ∈ op'.log ↔ .decremented j ∈ op.log)

theorem Moved.other {pc : ChildPc} (h : Moved op op' k pc) {j : Fin n} (hne : j ≠ k)
    (hunique : .won k ∈ op.log → .won j ∉ op.log) (hj : ChildInv children op j) :
    ChildInv children op' j := by
  have hpc : op'.children j = op.children j := by rw [h.children, Function.update_of_ne hne]
  constructor
  case completed => rw [h.completed j hne, hpc]; exact hj.completed
  case decremented => rw [h.decremented j hne, hpc]; exact hj.decremented
  case emplace => rw [hpc]; exact hj.emplace
  case exchange => rw [hpc]; exact hj.exchange
  case storeError => rw [hpc]; exact hj.storeError
  case slot => rw [hpc, h.values j hne]; exact hj.slot
  case winning => rw [hpc, h.won j]; exact hj.winning
  case won => rw [hpc, h.won j, h.terminal]; exact hj.won
  case stored =>
    intro error hwon
    rw [h.won j] at hwon
    rcases h.error with herror | hk
    · rw [hpc, herror]
      exact hj.stored error hwon
    · exact absurd hwon (hunique hk)
  case lost => rw [hpc, h.terminal]; exact hj.lost
  case final => rw [hpc, h.terminal]; exact hj.final

namespace OpInv

/-- The step of one child, from what it means for that child and for the counts. -/
theorem moved (h : OpInv children op) {pc : ChildPc} (hmoved : Moved op op' k pc)
    (hk : ChildInv children op' k) (hunstarted : ∀ j, op'.children j = .unstarted ↔ op'.started ≤ j.val)
    (hremaining : op'.remaining = tally ChildPc.outstanding op'.children)
    (hfinishes : WhenAll.finishes op'.log = if op'.remaining = 0 then 1 else 0)
    (hdeliveries : WhenAll.deliveries op'.log + tally ChildPc.finishing op'.children =
      WhenAll.finishes op'.log)
    (hdelivered : ∀ signal, .delivered signal ∈ op'.log → .delivered signal ∈ op.log ∨
      Expected children op.log signal) : OpInv children op' where
  child j := by
    by_cases heq : j = k
    · rw [heq]
      exact hk
    · exact hmoved.other heq (fun hwon hj => heq (h.unique j k hj hwon)) (h.child j)
  terminal hterminal := by
    rw [hmoved.terminal] at hterminal
    obtain ⟨j, hj⟩ := h.terminal hterminal
    exact ⟨j, (hmoved.won j).mpr hj⟩
  unique i j hi hj := h.unique i j ((hmoved.won i).mp hi) ((hmoved.won j).mp hj)
  unstarted := hunstarted
  remaining := hremaining
  finishes := hfinishes
  deliveries := hdeliveries
  delivered signal hmem := by
    have hexpected : Expected children op.log signal := by
      rcases hdelivered signal hmem with hmem | hexpected
      · exact h.delivered signal hmem
      · exact hexpected
    rcases hexpected with hall | ⟨j, hj, hrest⟩
    · exact Or.inl hall
    · exact Or.inr ⟨j, (hmoved.won j).mpr hj, hrest⟩

/-- A step of a started child to another place before its decrement. -/
theorem stay (h : OpInv children op) {pc : ChildPc} (hmoved : Moved op op' k pc)
    (hk : ChildInv children op' k) (hold : (op.children k).outstanding = true)
    (hnew : pc.outstanding = true) (hstarted : op.children k ≠ .unstarted) (hnext : pc ≠ .unstarted)
    (hsame : op'.started = op.started ∧ op'.remaining = op.remaining)
    (hfinishes : WhenAll.finishes op'.log = WhenAll.finishes op.log)
    (hdeliveries : WhenAll.deliveries op'.log = WhenAll.deliveries op.log)
    (hdelivered : ∀ signal, .delivered signal ∈ op'.log → .delivered signal ∈ op.log) :
    OpInv children op' := by
  refine h.moved hmoved hk ?_ ?_ ?_ ?_ fun signal hmem => Or.inl (hdelivered signal hmem)
  · intro j
    rw [hmoved.children, hsame.1]
    by_cases heq : j = k
    · subst heq
      rw [Function.update_self, ← h.unstarted j]
      simp [hstarted, hnext]
    · rw [Function.update_of_ne heq]
      exact h.unstarted j
  · rw [hsame.2, h.remaining, hmoved.children, tally_update_same (hnew.trans hold.symm)]
  · rw [hfinishes, hsame.2]
    exact h.finishes
  · have hpc : pc.finishing = (op.children k).finishing := by
      rw [h.not_finishing hold k]
      cases pc <;> first | rfl | cases hnew
    rw [hfinishes, hdeliveries, hmoved.children, tally_update_same hpc]
    exact h.deliveries

theorem startChild (h : OpInv children op) (hk : k.val = op.started) :
    OpInv children ({ op with started := op.started + 1 }.setPc k .running) := by
  have hpc : op.children k = .unstarted := (h.unstarted k).mpr (by omega)
  have hchild := h.child k
  have hnot := hchild.not_won (by rw [hpc]; rfl) (by rw [hpc]; rfl)
  have hmoved : Moved op ({ op with started := op.started + 1 }.setPc k .running) k .running := by
    constructor <;> simp [Operation.setPc]
  refine h.moved hmoved ?_ ?_ ?_ h.finishes ?_ fun signal hmem => Or.inl hmem
  · constructor <;>
      simp_all [Operation.setPc, ChildPc.arrived, ChildPc.outstanding, ChildPc.winning,
        hchild.completed, hchild.decremented]
  · intro j
    change Function.update op.children k .running j = _ ↔ op.started + 1 ≤ j.val
    by_cases heq : j = k
    · subst heq
      simp [hk]
    · rw [Function.update_of_ne heq, h.unstarted j]
      have hne : j.val ≠ k.val := fun hval => heq (Fin.ext hval)
      omega
  · change op.remaining = tally _ (Function.update op.children k .running)
    rw [h.remaining, tally_update_same (by rw [hpc]; rfl)]
  · change WhenAll.deliveries op.log + tally _ (Function.update op.children k .running) = _
    rw [tally_update_same (by rw [hpc]; rfl)]
    exact h.deliveries

theorem complete (h : OpInv children op) (hpc : op.children k = .running) :
    OpInv children ((op.record (.completed k)).setPc k (children.outcome k).firstPc) := by
  have hchild := h.child k
  have hnot := hchild.not_won (by rw [hpc]; rfl) (by rw [hpc]; rfl)
  have hmoved : Moved op ((op.record (.completed k)).setPc k (children.outcome k).firstPc) k
      (children.outcome k).firstPc := by
    constructor <;> simp +contextual [Operation.setPc, Operation.record]
  refine h.stay hmoved ?_ (by rw [hpc]; rfl) ?_ (by simp [hpc]) ?_ ⟨rfl, rfl⟩ rfl rfl ?_
  · cases houtcome : children.outcome k <;> constructor <;>
      simp_all [Operation.setPc, Operation.record, ChildPc.arrived, ChildPc.outstanding,
        ChildPc.winning, Signal.firstPc, Signal.kind, hchild.completed, hchild.decremented]
  · cases children.outcome k <;> rfl
  · cases children.outcome k <;> simp [Signal.firstPc]
  · simp [Operation.setPc, Operation.record]

/-- The winner goes on to request stop and to decrement the count. -/
theorem winner (h : OpInv children op) {pc : ChildPc} (hwinning : (op.children k).winning = true)
    (hstored : op.children k ≠ .storeError) (hpc : pc = .stopping ∨ pc = .decrement) :
    OpInv children (op.setPc k pc) := by
  have hchild := h.child k
  have hwon := hchild.winning hwinning
  obtain ⟨hterminal, hkind, -⟩ := hchild.won hwon
  have herror := fun error => (hchild.stored error hwon · hstored)
  have houtstanding : (op.children k).outstanding = true := by
    cases hold : op.children k <;> simp_all [ChildPc.winning, ChildPc.outstanding]
  have hstarted : op.children k ≠ .unstarted ∧ op.children k ≠ .running := by
    constructor <;> intro heq <;> simp [heq, ChildPc.winning] at hwinning
  have hmoved : Moved op (op.setPc k pc) k pc := by
    constructor <;> simp [Operation.setPc]
  refine h.stay hmoved ?_ houtstanding ?_ hstarted.1 ?_ ⟨rfl, rfl⟩ rfl rfl fun _ hmem => hmem
  · constructor
    case slot =>
      intro values houtcome
      rw [houtcome] at hkind
      exact absurd rfl hkind
    all_goals rcases hpc with rfl | rfl <;>
      simp_all [Operation.setPc, ChildPc.arrived, ChildPc.outstanding, ChildPc.winning,
        hchild.completed, hchild.decremented]
  · rcases hpc with rfl | rfl <;> rfl
  · rcases hpc with rfl | rfl <;> simp

theorem emplace (h : OpInv children op) (hpc : op.children k = .emplace) {values : List Value}
    (houtcome : children.outcome k = .value values) :
    OpInv children
      ({ op with values := Function.update op.values k (some values) }.setPc k .decrement) := by
  have hchild := h.child k
  have hnot := hchild.not_won (by rw [hpc]; rfl) (by rw [hpc]; rfl)
  have hmoved : Moved op ({ op with values := Function.update op.values k (some values) }.setPc k
      .decrement) k .decrement := by
    constructor <;> simp +contextual [Operation.setPc]
  refine h.stay hmoved ?_ (by rw [hpc]; rfl) rfl (by simp [hpc]) (by simp) ⟨rfl, rfl⟩ rfl rfl
    fun _ hmem => hmem
  constructor <;>
    simp_all [Operation.setPc, ChildPc.arrived, ChildPc.outstanding, ChildPc.winning, Signal.kind,
      hchild.completed, hchild.decremented]

theorem lose (h : OpInv children op) (hpc : op.children k = .exchange)
    (htaken : op.terminal ≠ .none) : OpInv children (op.setPc k .decrement) := by
  have hchild := h.child k
  have hnot := hchild.not_won (by rw [hpc]; rfl) (by rw [hpc]; rfl)
  have hkind := hchild.exchange hpc
  have hmoved : Moved op (op.setPc k .decrement) k .decrement := by
    constructor <;> simp [Operation.setPc]
  refine h.stay hmoved ?_ (by rw [hpc]; rfl) rfl (by simp [hpc]) (by simp) ⟨rfl, rfl⟩ rfl rfl
    fun _ hmem => hmem
  constructor
  case slot =>
    intro values houtcome
    rw [houtcome] at hkind
    exact absurd rfl hkind
  all_goals
    simp_all [Operation.setPc, ChildPc.arrived, ChildPc.outstanding, ChildPc.winning,
      hchild.completed, hchild.decremented]

theorem storeError (h : OpInv children op) (hpc : op.children k = .storeError) {error : Error}
    (houtcome : children.outcome k = .error error) :
    OpInv children ({ op with error := some error }.setPc k .requestStop) := by
  have hchild := h.child k
  have hwon := hchild.winning (by rw [hpc]; rfl)
  obtain ⟨hterminal, hkind, -⟩ := hchild.won hwon
  have hmoved : Moved op ({ op with error := some error }.setPc k .requestStop) k .requestStop := by
    constructor <;> simp [Operation.setPc, hwon]
  refine h.stay hmoved ?_ (by rw [hpc]; rfl) rfl (by simp [hpc]) (by simp) ⟨rfl, rfl⟩ rfl rfl
    fun _ hmem => hmem
  constructor <;>
    simp_all [Operation.setPc, ChildPc.arrived, ChildPc.outstanding, ChildPc.winning, Signal.kind,
      hchild.completed, hchild.decremented]

/-- The exchange succeeds: no other child has won, and none is finishing. -/
theorem win (h : OpInv children op) (hpc : op.children k = .exchange)
    (hfree : op.terminal = .none) :
    OpInv children (({ op with terminal := (children.outcome k).kind }.record (.won k)).setPc k
      (children.outcome k).wonPc) := by
  have hnone : ∀ j, .won j ∉ op.log := by
    intro j hj
    obtain ⟨hterminal, hkind, -⟩ := (h.child j).won hj
    exact hkind (hterminal.symm.trans hfree)
  have hkind := (h.child k).exchange hpc
  have hchild := h.child k
  have hwonPc : (children.outcome k).wonPc.outstanding = true ∧
      (children.outcome k).wonPc ≠ .unstarted ∧ (children.outcome k).wonPc.finishing = false := by
    cases children.outcome k <;> simp [Signal.wonPc, ChildPc.outstanding, ChildPc.finishing]
  constructor
  case child =>
    intro j
    by_cases heq : j = k
    · subst heq
      cases houtcome : children.outcome j <;> constructor <;>
        simp_all [Operation.setPc, Operation.record, ChildPc.arrived, ChildPc.outstanding,
          ChildPc.winning, Signal.kind, Signal.wonPc, hchild.completed, hchild.decremented]
    · have hj := h.child j
      have hwinning : (op.children j).winning = false :=
        Bool.eq_false_iff.mpr fun htrue => hnone j (hj.winning htrue)
      have hfinishing := h.not_finishing (k := k) (by rw [hpc]; rfl) j
      constructor
      case final =>
        intro kind hdeliver
        simp only [Operation.setPc, Operation.record, Function.update_of_ne heq] at hdeliver
        rw [hdeliver] at hfinishing
        cases hfinishing
      all_goals
        simp only [Operation.setPc, Operation.record, Function.update_of_ne heq, List.mem_cons,
          reduceCtorEq, Event.won.injEq, heq, hnone j, hwinning, false_or, or_false, false_imp_iff,
          Bool.false_eq_true, implies_true]
      · exact hj.completed
      · exact hj.decremented
      · exact hj.emplace
      · exact hj.exchange
      · exact hj.storeError
      · exact hj.slot
      · exact fun _ _ => hkind
  case terminal => exact fun _ => ⟨k, List.mem_cons_self⟩
  case unique =>
    intro i j hi hj
    simp only [Operation.setPc, Operation.record, List.mem_cons, Event.won.injEq, hnone, or_false]
      at hi hj
    exact hi.trans hj.symm
  case unstarted =>
    intro j
    change Function.update op.children k _ j = _ ↔ op.started ≤ j.val
    by_cases heq : j = k
    · subst heq
      rw [Function.update_self, ← h.unstarted j]
      simp [hpc, hwonPc]
    · rw [Function.update_of_ne heq]
      exact h.unstarted j
  case remaining =>
    change op.remaining = tally _ (Function.update op.children k _)
    rw [h.remaining, tally_update_same (by rw [hpc, hwonPc.1]; rfl)]
  case finishes => exact h.finishes
  case deliveries =>
    change WhenAll.deliveries op.log + tally _ (Function.update op.children k _) = _
    rw [tally_update_same (by rw [hpc, hwonPc.2.2]; rfl)]
    exact h.deliveries
  case delivered =>
    intro signal hmem
    have hold : .delivered signal ∈ op.log := by
      simpa [Operation.setPc, Operation.record] using hmem
    rcases h.delivered signal hold with hall | ⟨j, hj, -⟩
    · exact Or.inl hall
    · exact absurd hj (hnone j)

/-- The started children do not change. -/
theorem unstarted_update (h : OpInv children op) {pc : ChildPc} (hold : op.children k ≠ .unstarted)
    (hnew : pc ≠ .unstarted) (j : Fin n) :
    Function.update op.children k pc j = .unstarted ↔ op.started ≤ j.val := by
  by_cases heq : j = k
  · subst heq
    rw [Function.update_self, ← h.unstarted j]
    simp [hold, hnew]
  · rw [Function.update_of_ne heq]
    exact h.unstarted j

/-- The decrement that brings the count to zero. -/
theorem decrementLast (h : OpInv children op) (hpc : op.children k = .decrement)
    (hlast : op.remaining = 1) :
    OpInv children ((({ op with remaining := 0 }.record (.decremented k)).record
      (.finishing k)).setPc k .resetOnStop) := by
  have hchild := h.child k
  have hmoved : Moved op ((({ op with remaining := 0 }.record (.decremented k)).record
      (.finishing k)).setPc k .resetOnStop) k .resetOnStop := by
    constructor <;> simp +contextual [Operation.setPc, Operation.record]
  have hfinishes := h.finishes
  have hdeliveries := h.deliveries
  refine h.moved hmoved ?_ (h.unstarted_update (by simp [hpc]) (by simp)) ?_ ?_ ?_ fun signal hmem => ?_
  · have hstored := hchild.stored
    constructor <;>
      simp_all [Operation.setPc, Operation.record, ChildPc.arrived, ChildPc.outstanding,
        ChildPc.winning, hchild.completed, hchild.won, hchild.slot, hchild.lost]
  · have hupdate := tally_update ChildPc.outstanding op.children k .resetOnStop
    rw [← h.remaining, hlast, hpc] at hupdate
    change 0 = tally _ (Function.update op.children k _)
    simp only [ChildPc.outstanding, if_true, Bool.false_eq_true, if_false] at hupdate
    omega
  · change WhenAll.finishes (_ :: _ :: op.log) = 1
    simp only [WhenAll.finishes, List.countP_cons, Event.isFinishing] at hfinishes ⊢
    simp [hfinishes, hlast]
  · have hupdate := tally_update ChildPc.finishing op.children k .resetOnStop
    rw [hpc] at hupdate
    change WhenAll.deliveries (_ :: _ :: op.log) + tally _ (Function.update op.children k _) =
      WhenAll.finishes (_ :: _ :: op.log)
    simp only [WhenAll.finishes, WhenAll.deliveries, List.countP_cons, Event.isFinishing,
      Event.isDelivered, ChildPc.finishing, if_true, Bool.false_eq_true, if_false] at *
    omega
  · exact Or.inl (by simpa [Operation.setPc, Operation.record] using hmem)

theorem decrement (h : OpInv children op) (hpc : op.children k = .decrement)
    (hlast : op.remaining ≠ 1) :
    OpInv children (({ op with remaining := op.remaining - 1 }.record (.decremented k)).setPc k
      .done) := by
  have hchild := h.child k
  have hmoved : Moved op (({ op with remaining := op.remaining - 1 }.record (.decremented k)).setPc k
      .done) k .done := by
    constructor <;> simp +contextual [Operation.setPc, Operation.record]
  have hfinishes := h.finishes
  have hdeliveries := h.deliveries
  have hpos : 0 < op.remaining := by
    rw [h.remaining]
    exact tally_pos (i := k) (by rw [hpc]; rfl)
  refine h.moved hmoved ?_ (h.unstarted_update (by simp [hpc]) (by simp)) ?_ ?_ ?_ fun signal hmem => ?_
  · have hstored := hchild.stored
    constructor <;>
      simp_all [Operation.setPc, Operation.record, ChildPc.arrived, ChildPc.outstanding,
        ChildPc.winning, hchild.completed, hchild.won, hchild.slot, hchild.lost]
  · have hupdate := tally_update ChildPc.outstanding op.children k .done
    rw [← h.remaining, hpc] at hupdate
    change op.remaining - 1 = tally _ (Function.update op.children k _)
    simp only [ChildPc.outstanding, if_true, Bool.false_eq_true, if_false] at hupdate
    omega
  · change WhenAll.finishes (_ :: op.log) = if op.remaining - 1 = 0 then 1 else 0
    rw [if_neg (by omega)] at hfinishes ⊢
    simpa [WhenAll.finishes, List.countP_cons, Event.isFinishing] using hfinishes
  · have hupdate := tally_update ChildPc.finishing op.children k .done
    rw [hpc] at hupdate
    change WhenAll.deliveries (_ :: op.log) + tally _ (Function.update op.children k _) =
      WhenAll.finishes (_ :: op.log)
    simp only [WhenAll.finishes, WhenAll.deliveries, List.countP_cons, Event.isFinishing,
      Event.isDelivered, ChildPc.finishing, Bool.false_eq_true, if_false] at *
    omega
  · exact Or.inl (by simpa [Operation.setPc, Operation.record] using hmem)

/-- A step inside `finish_one`. -/
theorem finish (h : OpInv children op) (pc : ChildPc) (hold : (op.children k).finishing = true)
    (hnew : pc.finishing = true) (hfinal : ∀ kind, pc = .deliver kind → kind = op.terminal)
    (onStop : OnStop Thread) : OpInv children ({ op with onStop := onStop }.setPc k pc) := by
  have hchild := h.child k
  have hmoved : Moved op ({ op with onStop := onStop }.setPc k pc) k pc := by
    constructor <;> simp [Operation.setPc]
  have hplace : ∀ {place : ChildPc}, place.finishing = true → place.outstanding = false ∧
      place ≠ .unstarted ∧ place ≠ .running ∧ place ≠ .emplace ∧ place ≠ .exchange ∧
      place ≠ .storeError ∧ place.winning = false := by
    intro place hplace
    cases place <;> simp_all [ChildPc.finishing, ChildPc.outstanding, ChildPc.winning]
  have hk := hplace hold
  have hpc := hplace hnew
  refine h.moved hmoved ?_ (h.unstarted_update hk.2.1 hpc.2.1) ?_ h.finishes ?_
    fun signal hmem => Or.inl hmem
  · have hstored := hchild.stored
    constructor <;>
      simp_all [Operation.setPc, ChildPc.arrived, hchild.completed, hchild.decremented, hchild.won,
        hchild.slot, hchild.lost]
  · change op.remaining = tally _ (Function.update op.children k pc)
    rw [h.remaining, tally_update_same (hpc.1.trans hk.1.symm)]
  · change WhenAll.deliveries op.log + tally _ (Function.update op.children k pc) = _
    rw [tally_update_same (hnew.trans hold.symm)]
    exact h.deliveries

/-- The receiver is completed. -/
theorem deliver (h : OpInv children op) {final : TerminalKind} (hpc : op.children k = .deliver final)
    {signal : Signal Value Error} (hexpected : Expected children op.log signal) :
    OpInv children ((op.record (.delivered signal)).setPc k .done) := by
  have hchild := h.child k
  have hmoved : Moved op ((op.record (.delivered signal)).setPc k .done) k .done := by
    constructor <;> simp [Operation.setPc, Operation.record]
  have hfinishes := h.finishes
  have hdeliveries := h.deliveries
  refine h.moved hmoved ?_ (h.unstarted_update (by simp [hpc]) (by simp)) ?_ ?_ ?_ fun other hmem => ?_
  · have hstored := hchild.stored
    constructor <;>
      simp_all [Operation.setPc, Operation.record, ChildPc.arrived, ChildPc.outstanding,
        ChildPc.winning, hchild.completed, hchild.decremented, hchild.won, hchild.slot, hchild.lost]
  · change op.remaining = tally _ (Function.update op.children k _)
    rw [h.remaining, tally_update_same (by rw [hpc]; rfl)]
  · change WhenAll.finishes (_ :: op.log) = if op.remaining = 0 then 1 else 0
    simpa [WhenAll.finishes, List.countP_cons, Event.isFinishing] using hfinishes
  · have hupdate := tally_update ChildPc.finishing op.children k .done
    rw [hpc] at hupdate
    change WhenAll.deliveries (_ :: op.log) + tally _ (Function.update op.children k _) =
      WhenAll.finishes (_ :: op.log)
    simp only [WhenAll.finishes, WhenAll.deliveries, List.countP_cons, Event.isFinishing,
      Event.isDelivered, ChildPc.finishing, if_true, Bool.false_eq_true, if_false] at *
    omega
  · have hcases : other = signal ∨ .delivered other ∈ op.log := by
      simpa [Operation.setPc, Operation.record] using hmem
    rcases hcases with rfl | hmem
    · exact Or.inr hexpected
    · exact Or.inl hmem

end OpInv

end Bexec.WhenAll
