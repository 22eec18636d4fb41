import Bexec.SpawnFuture.Effect

/-!
# Where the parties stand and what the flags say

A step moves one party. The flags of the state, the handle and the stop callback
are related to where the parties are.
-/

namespace Bexec.SpawnFuture

open Foundation

variable {Thread Value Error : Type}

namespace Pc

@[grind =] def ofChild : Pc → Bool
  | .register | .request | .requesting | .finish => false
  | .reset stored | .signal stored | .handler stored => stored
  | _ => true

/-- The points of the owner, before or after it has called `start`. -/
@[grind =] def ofOwner (begun : Bool) : Pc → Bool
  | .running | .store | .finish => false
  | .idle | .request | .requesting => !begun
  | .register | .reset _ | .signal _ | .handler _ => begun
  | _ => true

@[grind =] def ofCancel : Pc → Bool
  | .running | .store | .register => false
  | _ => true

/-- The child has left the section of `complete`. -/
@[grind =] def completed : Pc → Bool
  | .idle | .running | .store | .lock => false
  | _ => true

/-- The child has stored what it sent. -/
@[grind =] def stored : Pc → Bool
  | .idle | .running | .store => false
  | _ => true

/-- `try_cancel` has set `cancelling_`, and `finish_cancellation` has not cleared it. -/
@[grind =] def cancels : Pc → Bool
  | .request | .requesting | .finish => true
  | _ => false

/-- The party completes the receiver with stopped and leaves the state alone. -/
@[grind =] def stops : Pc → Bool
  | .reset false | .signal false | .handler false => true
  | _ => false

/-- The owner has not entered the section of `abandon` or `consume`. -/
def before : Pc → Bool
  | .idle | .register | .lock => true
  | _ => false

@[grind =] def resets : Pc → Bool
  | .reset _ => true
  | _ => false

def signals : Pc → Bool
  | .signal _ => true
  | _ => false

/-- The stop callback has been destroyed for the receiver's completion. -/
@[grind =] def after : Pc → Bool
  | .signal _ | .handler _ => true
  | _ => false

/-- The party is to destroy the state. -/
def destroys : Pc → Bool
  | .reset true | .signal true | .handler true | .destroy => true
  | _ => false

/-- The party is between its section and its return. -/
def isTail : Pc → Bool
  | .reset _ | .signal _ | .handler _ | .destroy | .release _ => true
  | _ => false

end Pc

/-- What a step does to the fields, with what the stacks say about it. -/
inductive Move [DecidableEq Thread] (t : Thread) (op : Operation Thread Value Error) :
    Operation Thread Value Error → Prop
  | same : Move t op op
  | spawn (hfuture : op.future = .unspawned) :
      Move t op ({ op with
        state := { op.state with association := true }
        future := .constructing
        accepted := true }.setPc .child .running)
  | reject (hfuture : op.future = .unspawned) :
      Move t op ({ op with
        future := .constructing
        sent := some (.stopped, none) }.setPc .child .store)
  | hold (hfuture : op.future = .constructing) : Move t op { op with future := .held }
  | enter {p : Party} {op' : Operation Thread Value Error} (h : Enter t op p op') : Move t op op'
  | registerLate (hpc : op.pc .owner = .register) :
      Move t op (({ op with onStop := .running t }.setPc .owner .lock).setPc .cancel .lock)
  | progress {p : Party} {op' : Operation Thread Value Error} (h : Progress t op p op')
      (hclear : (op.pc p).resets = true → p ≠ .cancel → ∀ u, op.onStop ≠ .running u) :
      Move t op op'
  | request {p : Party} (hpc : op.pc p = .request) : Move t op (op.setPc p .requesting)
  | resume {p : Party} (hpc : op.pc p = .requesting) : Move t op (op.setPc p p.requested)
  | leave {p : Party} (hpc : op.pc p = .returning)
      (hcallback : p = .cancel → ∀ u, op.onStop = .running u → u = t) : Move t op (op.leave t p)

/-- What the place of each party says about the flags. -/
structure Places (op : Operation Thread Value Error) : Prop where
  child : (op.pc .child).ofChild = true
  owner : Pc.ofOwner op.begun (op.pc .owner) = true
  cancel : (op.pc .cancel).ofCancel = true
  unspawned : op.future = .unspawned ↔ op.pc .child = .idle
  taken : op.future = .taken ↔ op.pc .owner ≠ .idle
  completed : op.state.completed = (op.pc .child).completed
  result : op.state.result.isSome = (op.pc .child).stored
  cancelling : op.state.cancelling = (op.pc .cancel).cancels
  unstarted : op.begun = false ∨ op.pc .owner = .register →
    (op.pc .child).resets = false ∧ (op.pc .child).after = false
  abandons : op.pc .owner = .request ∨ op.pc .owner = .requesting → op.state.abandoned = true
  abandoned : op.state.abandoned = true → op.begun = false ∧
    (op.pc .owner = .request ∨ op.pc .owner = .requesting ∨ op.pc .owner = .returning ∨
      op.pc .owner = .done)
  unregistered : op.begun = false ∨ op.pc .owner = .register →
    op.onStop = .empty ∧ op.pc .cancel = .idle
  consumer : op.state.consumer = true → op.begun = true ∧
    (op.pc .owner = .returning ∨ op.pc .owner = .done)
  stops : ∀ p, (op.pc p).stops = true → op.state.stopped = true
  stopped : op.state.stopped = true → (op.pc .cancel).stops = true ∨ op.pc .cancel = .returning ∨
    op.pc .cancel = .done
  kept : op.onStop = .empty ∨ op.onStop = .armed → op.pc .cancel = .idle
  running : ∀ u, op.onStop = .running u → op.pc .cancel ≠ .idle ∧ op.pc .cancel ≠ .done
  finished : op.onStop = .finished → op.pc .cancel = .done

namespace Places

variable {t : Thread} {op op' : Operation Thread Value Error} {p : Party}

theorem initial : Places (.initial : Operation Thread Value Error) := by
  constructor <;> simp [Operation.initial, FutureState.initial, Pc.ofChild, Pc.ofOwner,
    Pc.ofCancel, Pc.completed, Pc.stored, Pc.cancels, Pc.stops, Pc.resets, Pc.after]

theorem enter (h : Places op) (hop : Enter t op p op') : Places op' := by
  obtain ⟨h1, h2, h3, h4, h5, h6, h7, h8, h9, h10, h11, h12, h13, h14, h15, h16, h17,
    h18⟩ := h
  cases hop <;> constructor <;> simp only [Operation.setPc, Function.update] <;>
    grind -ring -linarith


theorem complete (h : Places op) (hpc : op.pc .child = .lock) :
    Places (op.exit .child op.state.complete) := by
  obtain ⟨h1, h2, h3, h4, h5, h6, h7, h8, h9, h10, h11, h12, h13, h14, h15, h16, h17,
    h18⟩ := h
  unfold Operation.exit FutureState.complete
  split_ifs <;> constructor <;> simp only [Operation.setPc, Exit.pc, Function.update] <;>
    grind -ring -linarith

theorem consume (h : Places op) (hpc : op.pc .owner = .lock) (hbegun : op.begun = true) :
    Places (op.exit .owner op.state.consume) := by
  obtain ⟨h1, h2, h3, h4, h5, h6, h7, h8, h9, h10, h11, h12, h13, h14, h15, h16, h17,
    h18⟩ := h
  unfold Operation.exit FutureState.consume
  split_ifs <;> constructor <;> simp only [Operation.setPc, Exit.pc, Function.update] <;>
    grind -ring -linarith

theorem abandon (h : Places op) (hpc : op.pc .owner = .lock) (hbegun : op.begun = false) :
    Places (op.exit .owner op.state.abandon) := by
  obtain ⟨h1, h2, h3, h4, h5, h6, h7, h8, h9, h10, h11, h12, h13, h14, h15, h16, h17,
    h18⟩ := h
  unfold Operation.exit FutureState.abandon
  split_ifs <;> constructor <;> simp only [Operation.setPc, Exit.pc, Function.update] <;>
    grind -ring -linarith

theorem tryCancel (h : Places op) (hpc : op.pc .cancel = .lock) :
    Places (op.exit .cancel op.state.tryCancel) := by
  obtain ⟨h1, h2, h3, h4, h5, h6, h7, h8, h9, h10, h11, h12, h13, h14, h15, h16, h17,
    h18⟩ := h
  unfold Operation.exit FutureState.tryCancel
  split_ifs <;> constructor <;> simp only [Operation.setPc, Exit.pc, Function.update] <;>
    grind -ring -linarith

theorem finishCancellation (h : Places op) (hpc : op.pc .cancel = .finish) :
    Places (op.exit .cancel op.state.finishCancellation) := by
  obtain ⟨h1, h2, h3, h4, h5, h6, h7, h8, h9, h10, h11, h12, h13, h14, h15, h16, h17,
    h18⟩ := h
  unfold Operation.exit FutureState.finishCancellation
  split_ifs <;> constructor <;> simp only [Operation.setPc, Exit.pc, Function.update] <;>
    grind -ring -linarith

/-- The owner of the handle has not called anything. -/
theorem idle_of_held (h : Places op) (hheld : op.future = .held) :
    op.pc .owner = .idle ∧ op.begun = false := by
  have hidle : op.pc .owner = .idle := by
    by_contra hnot
    rw [h.taken.mpr hnot] at hheld
    cases hheld
  have howner := h.owner
  rw [hidle] at howner
  exact ⟨hidle, by simpa [Pc.ofOwner] using howner⟩

/-- Only the stop callback calls `finish_cancellation`. -/
theorem cancel_of_finish (h : Places op) (hpc : op.pc p = .finish) : p = .cancel := by
  have hchild := h.child
  have howner := h.owner
  cases p with
  | cancel => rfl
  | child =>
      rw [hpc] at hchild
      cases hchild
  | owner =>
      rw [hpc] at howner
      cases op.begun <;> cases howner

/-- The fields that say nothing about places. -/
theorem of_same (h : Places op) (hpc : op'.pc = op.pc) (hfuture : op'.future = op.future)
    (hbegun : op'.begun = op.begun) (honStop : op'.onStop = op.onStop)
    (hstate : op'.state = { op.state with association := op'.state.association }) :
    Places op' := by
  obtain ⟨h1, h2, h3, h4, h5, h6, h7, h8, h9, h10, h11, h12, h13, h14, h15, h16, h17,
    h18⟩ := h
  constructor <;> simp only [hpc, hfuture, hbegun, honStop] <;> (try rw [hstate]) <;> assumption

theorem tail_facts {x : Pc} (hx : x.isTail = true ∨ x = .returning) :
    x.completed = true ∧ x.stored = true ∧ x.ofCancel = true ∧ x.cancels = false ∧ x ≠ .idle ∧
      x ≠ .register ∧ x ≠ .request ∧ x ≠ .requesting ∧ x ≠ .done := by
  rcases hx with hx | rfl
  · cases x <;> simp_all [Pc.isTail, Pc.completed, Pc.stored, Pc.ofCancel, Pc.cancels]
  · simp [Pc.completed, Pc.stored, Pc.ofCancel, Pc.cancels]

/-- A party goes on from its section to its return. -/
theorem tail (h : Places op) {y : Pc} (hx : (op.pc p).isTail = true)
    (hy : y.isTail = true ∨ y = .returning)
    (hchild : (op.pc p).ofChild = true → y.ofChild = true)
    (howner : Pc.ofOwner op.begun (op.pc p) = true → Pc.ofOwner op.begun y = true)
    (hstops : y.stops = (op.pc p).stops ∨ (op.pc p).stops = true ∧ y = .returning)
    (hfollows : y.resets = false ∧
      (y.after = true → (op.pc p).resets = true ∨ (op.pc p).after = true)) :
    Places (op.setPc p y) := by
  obtain ⟨h1, h2, h3, h4, h5, h6, h7, h8, h9, h10, h11, h12, h13, h14, h15, h16, h17,
    h18⟩ := h
  have hold := tail_facts (.inl hx)
  have hnew := tail_facts hy
  have hreturning : op.pc p ≠ .returning := by
    intro hpc
    rw [hpc] at hx
    cases hx
  cases p <;> constructor <;> simp only [Operation.setPc, Function.update] <;>
    grind -ring -linarith

/-- A party that completes the receiver was let to by a future that is started. -/
theorem begun_of_resets (h : Places op) (hresets : (op.pc p).resets = true) :
    ¬ (op.begun = false ∨ op.pc .owner = .register) := by
  intro hnot
  cases p with
  | child =>
      rw [(h.unstarted hnot).1] at hresets
      cases hresets
  | cancel =>
      rw [(h.unregistered hnot).2] at hresets
      cases hresets
  | owner =>
      have howner := h.owner
      rcases hnot with hbegun | hpc
      · cases hpc : op.pc .owner <;> simp_all [Pc.resets, Pc.ofOwner]
      · rw [hpc] at hresets
        cases hresets

/-- The stop callback is destroyed. -/
theorem reset (h : Places op) (hregistered : ¬ (op.begun = false ∨ op.pc .owner = .register)) :
    Places ({ op with onStop := .reset } : Operation Thread Value Error) := by
  obtain ⟨h1, h2, h3, h4, h5, h6, h7, h8, h9, h10, h11, h12, h13, h14, h15, h16, h17,
    h18⟩ := h
  constructor <;> first | assumption | simp_all

theorem progress (h : Places op) (hop : Progress t op p op') : Places op' := by
  cases hop with
  | lock hpc =>
      cases p with
      | child => exact h.complete hpc
      | cancel => exact h.tryCancel hpc
      | owner =>
          simp only [Operation.locked]
          split
          next hbegun => exact h.consume hpc hbegun
          next hbegun => exact h.abandon hpc (by simpa using hbegun)
  | finish hpc =>
      obtain rfl := h.cancel_of_finish hpc
      exact h.finishCancellation hpc
  | register hp hpc =>
      obtain ⟨h1, h2, h3, h4, h5, h6, h7, h8, h9, h10, h11, h12, h13, h14, h15, h16, h17,
        h18⟩ := h
      subst hp
      constructor <;> simp only [Operation.setPc, Function.update] <;>
        grind -ring -linarith
  | store hpc hsent =>
      obtain ⟨h1, h2, h3, h4, h5, h6, h7, h8, h9, h10, h11, h12, h13, h14, h15, h16, h17,
        h18⟩ := h
      cases p <;> constructor <;> simp only [Operation.setPc, Function.update] <;>
        grind -ring -linarith
  | skip hpc hresult =>
      exact h.tail (by simp [hpc, Pc.isTail]) (.inl rfl) (fun _ => rfl)
        (by simp [Pc.ofOwner]) (.inl (by simp [hpc, Pc.stops])) (by simp [Pc.resets, Pc.after])
  | @reset stored hpc hresult hwait =>
      have hreset := h.reset (h.begun_of_resets (p := p) (by rw [hpc]; rfl))
      exact hreset.tail (by simp [hpc, Pc.isTail]) (.inl rfl) (by simp [hpc, Pc.ofChild])
        (by simp [hpc, Pc.ofOwner]) (.inl (by cases stored <;> simp [hpc, Pc.stops]))
        (by simp [hpc, Pc.resets, Pc.after])
  | @signal stored hpc completion hsignal =>
      have htail : Places (op.setPc p (.handler stored)) :=
        h.tail (by simp [hpc, Pc.isTail]) (.inl rfl) (by simp [hpc, Pc.ofChild])
          (by simp [hpc, Pc.ofOwner]) (.inl (by cases stored <;> simp [hpc, Pc.stops]))
          (by simp [hpc, Pc.resets, Pc.after])
      exact htail.of_same rfl rfl rfl rfl rfl
  | @handled stored hpc =>
      cases stored with
      | true =>
          exact h.tail (by simp [hpc, Pc.isTail]) (.inl rfl) (fun _ => rfl)
            (by simp [Pc.ofOwner]) (.inl (by simp [hpc, Pc.stops])) (by simp [Pc.resets, Pc.after])
      | false =>
          exact h.tail (by simp [hpc, Pc.isTail]) (.inr rfl) (fun _ => rfl)
            (by simp [Pc.ofOwner]) (.inr (by simp [hpc, Pc.stops])) (by simp [Pc.resets, Pc.after])
  | destroy hpc =>
      have htail : Places (op.setPc p (.release op.state.association)) :=
        h.tail (by simp [hpc, Pc.isTail]) (.inl rfl) (fun _ => rfl)
          (by simp [Pc.ofOwner]) (.inl (by simp [hpc, Pc.stops])) (by simp [Pc.resets, Pc.after])
      exact htail.of_same rfl rfl rfl rfl rfl
  | release hpc =>
      have htail : Places (op.setPc p .returning) :=
        h.tail (by simp [hpc, Pc.isTail]) (.inr rfl) (fun _ => rfl)
          (by simp [Pc.ofOwner]) (.inl (by simp [hpc, Pc.stops])) (by simp [Pc.resets, Pc.after])
      exact htail.of_same rfl rfl rfl rfl rfl

theorem move [DecidableEq Thread] (h : Places op) (hop : Move t op op') : Places op' := by
  cases hop with
  | same => exact h
  | enter hop => exact h.enter hop
  | progress hop hclear => exact h.progress hop
  | spawn hfuture | reject hfuture | hold hfuture | registerLate hpc =>
      obtain ⟨h1, h2, h3, h4, h5, h6, h7, h8, h9, h10, h11, h12, h13, h14, h15, h16, h17,
        h18⟩ := h
      constructor <;> simp only [Operation.setPc, Function.update] <;>
        grind -ring -linarith
  | @request p hpc | @resume p hpc =>
      obtain ⟨h1, h2, h3, h4, h5, h6, h7, h8, h9, h10, h11, h12, h13, h14, h15, h16, h17,
        h18⟩ := h
      cases p <;> constructor <;> simp only [Operation.setPc, Party.requested, Function.update] <;>
        grind -ring -linarith
  | @leave p hpc hcallback =>
      obtain ⟨h1, h2, h3, h4, h5, h6, h7, h8, h9, h10, h11, h12, h13, h14, h15, h16, h17,
        h18⟩ := h
      cases p <;> constructor <;> simp only [Operation.setPc, Operation.leave, Function.update] <;>
        grind -ring -linarith

end Places

end Bexec.SpawnFuture
