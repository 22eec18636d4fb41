import Bexec.WhenAll.Stacks

/-!
# The lifetime of `when_all`

The receiver may destroy the operation inside its terminal signal. No access to
the operation is pending by then unless the last decrement of the count is made
on a thread that is inside the stop callback: `on_stop.reset()` does not wait
there, and `request_stop` is left to go on with the destroyed stop source.
-/

namespace Bexec.WhenAll

open Foundation StopToken

variable {Thread Record Value Error : Type} {n : Nat} {children : Children n Value Error}
  {owner : Record → Fin n} {op op' : Operation Thread n Value Error}

/-- The call still reads or writes the operation state, its stop source or its
children. -/
def Call.Touches (op : Operation Thread n Value Error) : Call Record (Code n) → Prop
  | .constructing _ inCallback => inCallback = false
  | .destroying _ => True
  | .requesting => True
  | .client (.starter registered) => registered = false ∨ op.started < n
  | .client (.childStart _) => False
  | .client (.child _) => True
  | .client (.stopRequest _) => True

/-- An access of a completion function is the last decrement, `on_stop.reset()`
or leaves the count and the callback object alone. -/
theorem Progress.split {t : Thread} {k : Fin n} (h : Progress children t k op op') :
    op.children k = .decrement ∧ op.remaining = 1 ∧ op'.onStop = op.onStop ∧
        op'.children = Function.update op.children k .resetOnStop ∨
      op.children k = .resetOnStop ∧ (∀ u, op.onStop = .running u → u = t) ∧
        (op'.onStop = .empty ∨ op'.onStop = .reset) ∧
        op'.children = Function.update op.children k .loadTerminal ∨
      op.children k ≠ .resetOnStop ∧ op'.onStop = op.onStop ∧ op'.remaining = op.remaining ∧
        ∃ pc, op'.children = Function.update op.children k pc ∧ pc ≠ .resetOnStop := by
  cases h with
  | decrement hpc hlast => exact Or.inl ⟨hpc, hlast, rfl, rfl⟩
  | resetOnStop hpc hwait honStop =>
      exact Or.inr (Or.inl ⟨hpc, hwait, honStop.imp_left And.left, rfl⟩)
  | emplace hpc | lose hpc | storeError hpc | loadTerminal hpc =>
      exact Or.inr (Or.inr ⟨by simp [hpc], rfl, rfl, _, rfl, (by simp)⟩)
  | win hpc =>
      refine Or.inr (Or.inr ⟨by simp [hpc], rfl, rfl, _, rfl, ?_⟩)
      cases children.outcome k <;> simp [Signal.wonPc]

theorem Return.split {k : Fin n} (h : Return children k op op') :
    op.children k = .decrement ∧ op.remaining ≠ 1 ∧ op'.remaining = op.remaining - 1 ∨
      ∃ final, op.children k = .deliver final ∧ op'.remaining = op.remaining := by
  cases h with
  | decrement hpc hlast => exact Or.inl ⟨hpc, hlast, rfl⟩
  | deliver hpc => exact Or.inr ⟨_, hpc, rfl⟩

variable [DecidableEq Thread]

/-- No access to the operation is pending, and none can be started any more. -/
structure Quiet (s : State Thread Record n Value Error) : Prop where
  calls : ∀ t, ∀ call ∈ s.source.calls t, ¬ Call.Touches s.op call
  begun : s.op.begun = true
  children : ∀ k, s.op.children k = .done
  onStop : s.op.onStop = .empty ∨ s.op.onStop = .reset

/-- The decrement that brings the count to zero is not made inside the stop
callback. -/
def SafeDecrement (s : State Thread Record n Value Error) (t : Thread) : Prop :=
  ∀ k rest, s.source.calls t = .client (.child k) :: rest → s.op.children k = .decrement →
    s.op.remaining = 1 → ∀ called, .client (.stopRequest called) ∉ rest

/-- Where the stop callback runs, and that its object is destroyed in time. -/
structure CallbackInv (op : Operation Thread n Value Error)
    (calls : Thread → List (Call Record (Code n))) : Prop where
  running : ∀ t, (calls t).countP isStopRequest = if op.onStop = .running t then 1 else 0
  clear : ∀ k, op.children k = .resetOnStop → ∀ t, .client (.child k) ∈ calls t →
    op.onStop ≠ .running t
  reset : op.remaining = 0 → (∀ k, op.children k ≠ .resetOnStop) →
    op.onStop = .empty ∨ op.onStop = .reset

namespace CallbackInv

variable {calls : Thread → List (Call Record (Code n))} {t : Thread}

theorem initial : CallbackInv (Operation.initial : Operation Thread n Value Error)
    (fun _ => ([] : List (Call Record (Code n)))) where
  running t := by simp [Operation.initial]
  clear k hpc := by cases hpc
  reset _ _ := Or.inl rfl

theorem not_stopRequest (h : CallbackInv op calls) (hrunning : op.onStop ≠ .running t)
    {called : Bool} : .client (.stopRequest called) ∉ calls t := by
  intro hmem
  have hcount := h.running t
  rw [if_neg hrunning, List.countP_eq_zero] at hcount
  exact hcount _ hmem rfl

end CallbackInv

section Steps

variable [Fintype Thread] {s s' : State Thread Record n Value Error} {t : Thread}

omit [Fintype Thread] in
/-- The frames of the stop callback when one stack changes. -/
theorem CallbackInv.running_replace (h : CallbackInv s.op s.source.calls)
    (old new : List (Call Record (Code n))) {rest} (hstack : s.source.calls t = old ++ rest)
    (hcalls : s'.source.calls = Function.update s.source.calls t (new ++ rest))
    (honStop : s'.op.onStop = s.op.onStop) (hcount : new.countP isStopRequest = old.countP isStopRequest)
    (u : Thread) :
    (s'.source.calls u).countP isStopRequest = if s'.op.onStop = .running u then 1 else 0 := by
  rw [honStop, ← h.running u, hcalls]
  by_cases hu : u = t
  · subst hu
    rw [Function.update_self, hstack, List.countP_append, List.countP_append, hcount]
  · rw [Function.update_of_ne hu]

theorem Effect.callback_running (heffect : Effect children owner s s' t)
    (hstacks : StackInv owner s.op s.source.calls) (h : CallbackInv s.op s.source.calls) (u : Thread) :
    (s'.source.calls u).countP isStopRequest = if s'.op.onStop = .running u then 1 else 0 := by
  have hfirst : ∀ (old new : List (Call Record (Code n))) {rest}, s.source.calls t = old ++ rest →
      s'.source.calls = Function.update s.source.calls t (new ++ rest) →
      (∀ v, s.op.onStop ≠ .running v) →
      (s'.source.calls u).countP isStopRequest = if u = t then new.countP isStopRequest else 0 := by
    intro old new rest hstack hcalls hrunning
    have hnone : ∀ v, (s.source.calls v).countP isStopRequest = 0 := by
      intro v
      rw [h.running v, if_neg (hrunning v)]
    rw [hcalls]
    by_cases hu : u = t
    · subst hu
      have hrest := hnone u
      rw [hstack, List.countP_append] at hrest
      rw [Function.update_self, List.countP_append, if_pos rfl]
      omega
    · rw [Function.update_of_ne hu, if_neg hu]
      exact hnone u
  cases heffect with
  | call r call huser hcall hrunning hop hcalls =>
      refine h.running_replace [] [call] rfl hcalls (by rw [hop]) ?_ u
      rcases hcall with rfl | rfl <;> rfl
  | inside top new rest hstack hclient hnew hop hcalls =>
      refine h.running_replace [top] [new] hstack hcalls (by rw [hop]) ?_ u
      rw [List.countP_singleton, List.countP_singleton, isStopRequest_of_ne hclient,
        isStopRequest_of_ne (Continues.ne_client hnew hclient)]
  | returns top rest hstack hclient hcaller hop hcalls =>
      refine h.running_replace [top] [] hstack hcalls (by rw [hop]) ?_ u
      rw [List.countP_singleton, isStopRequest_of_ne hclient]
      rfl
  | resume k below hstack hpc hrequested hop hcalls =>
      exact h.running_replace [_] [] hstack hcalls (by rw [hop]; rfl) rfl u
  | start huser hbegun hop hcalls =>
      exact h.running_replace [] [_] rfl hcalls (by rw [hop]) rfl u
  | register rest onStop hstack honStop hop hcalls =>
      obtain ⟨-, hempty⟩ := hstacks.registering t (by simp [hstack])
      rw [hfirst [_] [_] hstack hcalls (by simp [hempty]), hop]
      rcases honStop with rfl | rfl <;> simp [hempty, isStopRequest]
  | registerLate rest hstack hop hcalls =>
      obtain ⟨-, hempty⟩ := hstacks.registering t (by simp [hstack])
      rw [hfirst [_] [_, _] hstack hcalls (by simp [hempty]), hop]
      change (if u = t then 1 else 0) = if OnStop.running t = .running u then 1 else 0
      simp [eq_comm]
  | startChild k rest hstack hk hop hcalls =>
      exact h.running_replace [_] [_, _] hstack hcalls (by rw [hop]; rfl) rfl u
  | leave code rest hstack hcode hop hcalls =>
      refine h.running_replace [_] [] hstack hcalls (by rw [hop]) ?_ u
      rcases hcode with rfl | ⟨k, rfl⟩ <;> rfl
  | stop huser harmed hop hcalls =>
      rw [hfirst [] [_] rfl hcalls (by simp [harmed]), hop]
      change (if u = t then 1 else 0) = if OnStop.running t = .running u then 1 else 0
      simp [eq_comm]
  | request rest hstack hop hcalls =>
      exact h.running_replace [_] [_, _] hstack hcalls (by rw [hop]) rfl u
  | stopped rest hstack hop hcalls =>
      have ht := h.running t
      rw [hstack, List.countP_cons] at ht
      simp only [isStopRequest, if_true] at ht
      have hrunning : s.op.onStop = .running t := by
        by_contra hnot
        rw [if_neg hnot] at ht
        omega
      rw [if_pos hrunning] at ht
      rw [hop, hcalls]
      by_cases hu : u = t
      · subst hu
        simp only [Function.update_self, hrunning, if_true, reduceCtorEq, if_false]
        omega
      · have hother := h.running u
        rw [hrunning] at hother
        simp only [Function.update_of_ne hu, hrunning, if_true, reduceCtorEq, if_false]
        rwa [if_neg (by simpa using Ne.symm hu)] at hother
  | complete k huser hrunning hown hop hcalls =>
      exact h.running_replace [] [_] rfl hcalls (by rw [hop]; rfl) rfl u
  | progress k rest hstack hop hcalls =>
      rw [hcalls, h.running u]
      rcases hop.split with ⟨-, -, heq, -⟩ | ⟨hpc, hwait, honStop, -⟩ | ⟨-, heq, -⟩
      · rw [heq]
      · have hclear : s.op.onStop ≠ .running u := by
          intro hrunning
          have hu := hwait u hrunning
          subst hu
          exact h.clear k hpc u (by simp [hstack]) hrunning
        rw [if_neg hclear]
        rcases honStop with heq | heq <;> rw [heq, if_neg (by simp)]
      · rw [heq]
  | childRequest k rest hstack hpc hop hcalls =>
      exact h.running_replace [_] [_, _] hstack hcalls (by rw [hop]; rfl) rfl u
  | childReturns k rest hstack hop hcalls =>
      exact h.running_replace [_] [] hstack hcalls hop.begun.2.2 rfl u

/-- A finishing child is on top of its stack, and the stop callback is not
beneath it. -/
theorem Effect.callback_clear (heffect : Effect children owner s s' t)
    (hsafe : SafeDecrement s t) (hop' : OpInv children s.op)
    (hstacks : StackInv owner s.op s.source.calls) (h : CallbackInv s.op s.source.calls) (k : Fin n)
    (hpc : s'.op.children k = .resetOnStop) (u : Thread)
    (hmem : .client (.child k) ∈ s'.source.calls u) : s'.op.onStop ≠ .running u := by
  have hold : ∀ (old new : List (Call Record (Code n))) {rest}, s.source.calls t = old ++ rest →
      s'.source.calls = Function.update s.source.calls t (new ++ rest) →
      .client (.child k) ∉ new → s.op.children k = .resetOnStop →
      s.op.onStop ≠ .running u ∧ .client (.child k) ∈ s.source.calls u := by
    intro old new rest hstack hcalls hnew hpc
    have hmem' : .client (.child k) ∈ s.source.calls u := by
      rw [hcalls] at hmem
      rcases CallStack.mem_replace _ hmem with hmem | hmem
      · exact absurd hmem hnew
      · exact CallStack.mem_beneath _ hstack hmem
    exact ⟨h.clear k hpc u hmem', hmem'⟩
  have hmoved : ∀ j pc, s'.op.children = Function.update s.op.children j pc →
      pc ≠ .resetOnStop → s.op.children k = .resetOnStop := by
    intro j pc hchildren hnew
    have hk : k ≠ j := by
      rintro rfl
      rw [hchildren, Function.update_self] at hpc
      exact hnew hpc
    rwa [hchildren, Function.update_of_ne hk] at hpc
  have hfresh : s.op.children k = .resetOnStop → ¬ Fresh s.op := by
    rintro hpc ⟨hstarted, -⟩
    rw [(hop'.unstarted k).mpr (by omega)] at hpc
    cases hpc
  cases heffect with
  | call r call huser hcall hrunning hop hcalls =>
      rw [hop] at hpc ⊢
      refine (hold [] [call] rfl hcalls ?_ hpc).1
      rcases hcall with rfl | rfl <;> simp
  | inside top new rest hstack hclient hnew hop hcalls =>
      rw [hop] at hpc ⊢
      refine (hold [top] [new] hstack hcalls ?_ hpc).1
      simpa using Ne.symm (Continues.ne_client hnew hclient (.child k))
  | returns top rest hstack hclient hcaller hop hcalls =>
      rw [hop] at hpc ⊢
      exact (hold [top] [] hstack hcalls (by simp) hpc).1
  | start huser hbegun hop hcalls =>
      rw [hop] at hpc ⊢
      exact (hold [] [_] rfl hcalls (by simp) hpc).1
  | leave code rest hstack hcode hop hcalls =>
      rw [hop] at hpc ⊢
      exact (hold [_] [] hstack hcalls (by simp) hpc).1
  | request rest hstack hop hcalls =>
      rw [hop] at hpc ⊢
      exact (hold [_] [_, _] hstack hcalls (by simp) hpc).1
  | register rest onStop hstack honStop hop hcalls =>
      rw [hop] at hpc
      exact absurd (hstacks.registering t (by simp [hstack])) (hfresh hpc)
  | registerLate rest hstack hop hcalls =>
      rw [hop] at hpc
      exact absurd (hstacks.registering t (by simp [hstack])) (hfresh hpc)
  | stop huser harmed hop hcalls =>
      rw [hop] at hpc ⊢
      change s.op.children k = .resetOnStop at hpc
      obtain ⟨-, hmem'⟩ := hold [] [_] rfl hcalls (by simp) hpc
      intro hrunning
      cases hrunning
      obtain ⟨rest, hstack⟩ := hstacks.top_of_child hmem' (by simp [hpc])
      have htop := huser (.client (.child k)) (by rw [hstack]; rfl)
      cases htop
  | stopped rest hstack hop hcalls =>
      rw [hop] at hpc ⊢
      obtain ⟨hclear, -⟩ := hold [_] [] hstack hcalls (by simp) hpc
      change (if s.op.onStop = .running t then _ else s.op.onStop) ≠ _
      split
      · simp
      · exact hclear
  | resume j below hstack hpc' hrequested hop hcalls =>
      have hbefore := hmoved j .decrement (by rw [hop]; rfl) (by simp)
      rw [hop]
      exact (hold [_] [] hstack hcalls (by simp) hbefore).1
  | childRequest j rest hstack hpc' hop hcalls =>
      have hbefore := hmoved j .stopping (by rw [hop]; rfl) (by simp)
      have hne : j ≠ k := by
        rintro rfl
        rw [hpc'] at hbefore
        cases hbefore
      rw [hop]
      exact (hold [_] [_, _] hstack hcalls (by simp [Ne.symm hne]) hbefore).1
  | startChild j rest hstack hj hop hcalls =>
      have hbefore := hmoved j .running (by rw [hop]; rfl) (by simp)
      rw [hop]
      exact (hold [_] [_, _] hstack hcalls (by simp) hbefore).1
  | complete j huser hrunning hown hop hcalls =>
      have hbefore := hmoved j (children.outcome j).firstPc (by rw [hop]; rfl)
        (by cases children.outcome j <;> simp [Signal.firstPc])
      have hne : j ≠ k := by
        rintro rfl
        rw [hrunning] at hbefore
        cases hbefore
      rw [hop]
      exact (hold [] [_] rfl hcalls (by simp [Ne.symm hne]) hbefore).1
  | childReturns j rest hstack hop hcalls =>
      obtain ⟨hchildren, -, -⟩ := hop.moves
      rw [hop.begun.2.2]
      exact (hold [_] [] hstack hcalls (by simp) (hmoved _ _ hchildren (by simp))).1
  | progress j rest hstack hop hcalls =>
      rw [hcalls] at hmem
      rcases hop.split with ⟨hpc', hlast, honStop, hchildren⟩ | ⟨-, -, honStop, -⟩ |
        ⟨-, honStop, -, pc, hchildren, hnew⟩
      · rw [honStop]
        by_cases hj : j = k
        · subst hj
          have hcensus : CallStack.census (isChild j) s.source.calls ≤ 1 := by
            rw [hstacks.child j]
            exact Bool.toNat_le _
          obtain ⟨-, hothers⟩ := CallStack.not_elsewhere [] hcensus hstack
            (by simp [isChild])
          have hu : u = t := by
            by_contra hu
            have hnot := hothers u hu _ hmem
            simp [isChild] at hnot
          subst hu
          intro hrunning
          have hcount := h.running u
          rw [if_pos hrunning, hstack, List.countP_cons] at hcount
          have hpos : 0 < rest.countP isStopRequest := by
            simp only [isStopRequest, Bool.false_eq_true, if_false] at hcount
            omega
          obtain ⟨call, hcall, hrequest⟩ := List.countP_pos_iff.mp hpos
          cases call with
          | client code =>
              cases code with
              | stopRequest called => exact hsafe j rest hstack hpc' hlast called hcall
              | _ => cases hrequest
          | _ => cases hrequest
        · rw [hchildren, Function.update_of_ne (Ne.symm hj)] at hpc
          exact h.clear k hpc u hmem
      · rcases honStop with heq | heq <;> rw [heq] <;> simp
      · rw [honStop]
        exact h.clear k (hmoved _ _ hchildren hnew) u hmem

theorem Effect.callback_reset (heffect : Effect children owner s s' t) (hn : 0 < n)
    (hop' : OpInv children s.op) (hstacks : StackInv owner s.op s.source.calls)
    (h : CallbackInv s.op s.source.calls) (hremaining : s'.op.remaining = 0)
    (hfinished : ∀ k, s'.op.children k ≠ .resetOnStop) :
    s'.op.onStop = .empty ∨ s'.op.onStop = .reset := by
  have hfresh : Fresh s.op → s.op.remaining ≠ 0 := by
    rintro ⟨hstarted, -⟩ hzero
    rw [hop'.remaining, tally_eq_zero] at hzero
    have hplace := hzero ⟨0, hn⟩
    rw [(hop'.unstarted ⟨0, hn⟩).mpr (by omega)] at hplace
    cases hplace
  have hmoved : ∀ k pc, s'.op.children = Function.update s.op.children k pc →
      s.op.children k ≠ .resetOnStop → s'.op.remaining = s.op.remaining →
      s'.op.onStop = s.op.onStop → s'.op.onStop = .empty ∨ s'.op.onStop = .reset := by
    intro k pc hchildren hk hcount honStop
    rw [honStop]
    refine h.reset (hcount.symm.trans hremaining) fun j => ?_
    by_cases hj : j = k
    · exact hj ▸ hk
    · have hother := hfinished j
      rwa [hchildren, Function.update_of_ne hj] at hother
  cases heffect with
  | call _ _ _ _ _ hop | inside _ _ _ _ _ _ hop | returns _ _ _ _ _ hop | start _ _ hop
  | leave _ _ _ _ hop | request _ _ hop =>
      rw [hop] at hremaining hfinished ⊢
      exact h.reset hremaining hfinished
  | register rest onStop hstack honStop hop hcalls =>
      rw [hop] at hremaining
      exact absurd hremaining (hfresh (hstacks.registering t (by simp [hstack])))
  | registerLate rest hstack hop hcalls =>
      rw [hop] at hremaining
      exact absurd hremaining (hfresh (hstacks.registering t (by simp [hstack])))
  | stop huser harmed hop hcalls =>
      rw [hop] at hremaining hfinished
      rcases h.reset hremaining hfinished with heq | heq <;> rw [harmed] at heq <;> cases heq
  | stopped rest hstack hop hcalls =>
      rw [hop] at hremaining hfinished ⊢
      have hreset := h.reset hremaining hfinished
      have hrunning : s.op.onStop ≠ .running t := by
        rcases hreset with heq | heq <;> rw [heq] <;> simp
      change (if s.op.onStop = .running t then _ else s.op.onStop) = .empty ∨
        (if s.op.onStop = .running t then _ else s.op.onStop) = .reset
      rwa [if_neg hrunning]
  | resume k below hstack hpc hrequested hop hcalls =>
      exact hmoved k .decrement (by rw [hop]; rfl) (by simp [hpc]) (by rw [hop]; rfl)
        (by rw [hop]; rfl)
  | childRequest k rest hstack hpc hop hcalls =>
      exact hmoved k .stopping (by rw [hop]; rfl) (by simp [hpc]) (by rw [hop]; rfl)
        (by rw [hop]; rfl)
  | startChild k rest hstack hk hop hcalls =>
      have hpc : s.op.children k = .unstarted := (hop'.unstarted k).mpr (by omega)
      exact hmoved k .running (by rw [hop]; rfl) (by simp [hpc]) (by rw [hop]; rfl)
        (by rw [hop]; rfl)
  | complete k huser hrunning hown hop hcalls =>
      exact hmoved k (children.outcome k).firstPc (by rw [hop]; rfl)
        (by simp [hrunning]) (by rw [hop]; rfl) (by rw [hop]; rfl)
  | progress k rest hstack hop hcalls =>
      rcases hop.split with ⟨-, -, -, hchildren⟩ | ⟨-, -, honStop, -⟩ |
        ⟨hpc, honStop, hcount, pc, hchildren, -⟩
      · exact absurd (by rw [hchildren, Function.update_self]) (hfinished k)
      · exact honStop
      · exact hmoved _ _ hchildren hpc hcount honStop
  | childReturns k rest hstack hop hcalls =>
      have hpos : (s.op.children k).outstanding = true → 0 < s.op.remaining := by
        intro houtstanding
        rw [hop'.remaining]
        exact tally_pos houtstanding
      obtain ⟨hchildren, -, -⟩ := hop.moves
      rcases hop.split with ⟨hpc, hlast, hcount⟩ | ⟨final, hpc, hcount⟩
      · have := hpos (by rw [hpc]; rfl)
        omega
      · exact hmoved _ _ hchildren (by simp [hpc]) hcount hop.begun.2.2

theorem Effect.callbackInv (heffect : Effect children owner s s' t) (hsafe : SafeDecrement s t)
    (hn : 0 < n) (hop' : OpInv children s.op) (hstacks : StackInv owner s.op s.source.calls)
    (h : CallbackInv s.op s.source.calls) : CallbackInv s'.op s'.source.calls where
  running := heffect.callback_running hstacks h
  clear := heffect.callback_clear hsafe hop' hstacks h
  reset := heffect.callback_reset hn hop' hstacks h

end Steps

section Delivered

variable [Fintype Thread] {s : State Thread Record n Value Error}

omit [DecidableEq Thread] [Fintype Thread] in
/-- After the terminal signal every child is done. -/
theorem OpInv.done_of_delivered (h : OpInv children op)
    (hdelivered : 0 < WhenAll.deliveries op.log) :
    op.remaining = 0 ∧ ∀ k, op.children k = .done := by
  have hfinishes := h.finishes
  have hdeliveries := h.deliveries
  have hremaining : op.remaining = 0 := by
    by_contra hne
    rw [if_neg hne] at hfinishes
    omega
  rw [if_pos hremaining] at hfinishes
  refine ⟨hremaining, fun k => ?_⟩
  have houtstanding : (op.children k).outstanding = false := by
    have hzero := h.remaining
    rw [hremaining] at hzero
    exact tally_eq_zero.mp hzero.symm k
  have hfinishing : (op.children k).finishing = false :=
    tally_eq_zero.mp (by omega : tally ChildPc.finishing op.children = 0) k
  cases hpc : op.children k <;> simp_all [ChildPc.outstanding, ChildPc.finishing]

omit [DecidableEq Thread] [Fintype Thread] in
theorem OpInv.not_fresh (h : OpInv children op) (hn : 0 < n) (hdone : ∀ k, op.children k = .done) :
    ¬ Fresh op := by
  rintro ⟨hstarted, -⟩
  have hplace := (h.unstarted ⟨0, hn⟩).mpr (by omega)
  rw [hdone] at hplace
  cases hplace

/-- When the terminal signal has been delivered, nothing is left to be done. -/
theorem quiet_of_delivered (hn : 0 < n) (hop : OpInv children s.op)
    (hstacks : StackInv owner s.op s.source.calls) (h : CallbackInv s.op s.source.calls)
    (hdelivered : 0 < deliveries s.op.log) : Quiet s := by
  obtain ⟨hremaining, hdone⟩ := hop.done_of_delivered hdelivered
  have hfresh := hop.not_fresh hn hdone
  have honStop := h.reset hremaining (by simp [hdone])
  have hrequest : ∀ t called, .client (.stopRequest called) ∉ s.source.calls t := by
    intro t called
    refine h.not_stopRequest ?_
    rcases honStop with heq | heq <;> rw [heq] <;> simp
  refine ⟨?_, ?_, hdone, honStop⟩
  · intro t call hcall htouches
    cases call with
    | constructing r inCallback =>
        have hrunning := hstacks.own t _ hcall (owner r) ⟨htouches, rfl⟩
        rw [hdone] at hrunning
        cases hrunning
    | destroying r =>
        have hrunning := hstacks.own t _ hcall (owner r) rfl
        rw [hdone] at hrunning
        cases hrunning
    | requesting =>
        obtain ⟨lower, hlower, hawaits⟩ :=
          (hstacks.nested t).below hcall not_mayStand_requesting
        cases lower with
        | client code =>
            cases code with
            | child k => exact absurd ((hdone k).symm.trans hawaits) (by simp)
            | stopRequest called => exact hrequest t called hlower
            | _ => exact hawaits
        | _ => exact hawaits
    | client code =>
        cases code with
        | starter registered =>
            rcases htouches with rfl | hstarted
            · exact hfresh (hstacks.registering t hcall)
            · have hplace := (hop.unstarted ⟨s.op.started, hstarted⟩).mpr le_rfl
              rw [hdone] at hplace
              cases hplace
        | childStart k => exact htouches
        | child k =>
            have hcensus := hstacks.child k
            rw [hdone] at hcensus
            have hnot := CallStack.census_eq_zero.mp hcensus t _ hcall
            simp [isChild] at hnot
        | stopRequest called => exact hrequest t called hcall
  · by_contra hbegun
    exact hfresh (hstacks.unbegun (Bool.eq_false_of_not_eq_true hbegun))

end Delivered

section Runs

variable [Fintype Thread] [DecidableEq Record] {s s' : State Thread Record n Value Error}

/-- The operation while every last decrement was safe. -/
structure LifetimeInv (children : Children n Value Error) (owner : Record → Fin n)
    (s : State Thread Record n Value Error) : Prop where
  whenAll : WhenAllInv children s
  frames : StackInv owner s.op s.source.calls
  callback : CallbackInv s.op s.source.calls

theorem LifetimeInv.step (h : LifetimeInv children owner s) (hn : 0 < n)
    {a : Action Thread Record n} (hsafe : SafeDecrement s a.thread)
    (hstep : WhenAll.step children owner s a = some s') : LifetimeInv children owner s' := by
  have heffect := step_effect (inv_of_reachable h.whenAll.source) hstep
  exact ⟨h.whenAll.step hstep, heffect.stackInv h.whenAll.op h.frames,
    heffect.callbackInv hsafe hn h.whenAll.op h.frames h.callback⟩

theorem LifetimeInv.initial (hn : 0 < n) :
    LifetimeInv children owner (State.initial : State Thread Record n Value Error) where
  whenAll := whenAllInv_of_reachable (s := .initial) hn
    (show (machine Thread children owner).Reachable _ from .initial rfl)
  frames := StackInv.initial
  callback := CallbackInv.initial

/-- No field of the operation or of its stop source has changed. -/
def Untouched (s s' : State Thread Record n Value Error) : Prop :=
  s'.op = s.op ∧ ∃ life log, s'.source.memory = { s.source.memory with life := life, log := log }

omit [Fintype Thread] in
theorem untouched_leave {t : Thread} (hvia : s.via [.leave t] = some s') : Untouched s s' := by
  obtain ⟨source, hleave, rfl⟩ := Hosted.via_one hvia
  refine ⟨rfl, s.source.memory.life, s.source.memory.log, ?_⟩
  simp only [StopToken.step] at hleave
  split at hleave <;> cases hleave
  rfl

/-- Every step that is left only returns. -/
theorem Quiet.untouched (h : Quiet s) {a : Action Thread Record n}
    (hstep : WhenAll.step children owner s a = some s') : Untouched s s' := by
  have htop : ∀ {t frame rest}, s.source.stack t = frame :: rest →
      ¬ Call.Touches s.op frame.call := by
    intro t frame rest hstack
    exact h.calls t _ (by rw [calls_cons hstack]; exact List.mem_cons_self)
  cases a with
  | start t =>
      simp only [step, h.begun, Bool.true_eq_false, and_false, if_false] at hstep
      cases hstep
  | register t how =>
      simp only [step] at hstep
      split at hstep
      next hstack => exact absurd (Or.inl rfl) (htop hstack)
      next hstack => exact absurd (Or.inl rfl) (htop hstack)
      next hstack => exact absurd (Or.inl rfl) (htop hstack)
      next => cases hstep
  | run t weak =>
      simp only [step] at hstep
      split at hstep
      · cases hstep
      next code rest hstack =>
        cases code with
        | starter registered =>
            cases registered with
            | false => cases hstep
            | true =>
                simp only [Code.step] at hstep
                split at hstep
                next hstarted => exact absurd (Or.inr hstarted) (htop hstack)
                next => exact untouched_leave hstep
        | childStart k => cases hstep
        | child k => exact absurd trivial (htop hstack)
        | stopRequest called => exact absurd trivial (htop hstack)
      next pc rest hstack => exact absurd trivial (htop hstack)
      next frame rest hclient hrequest hstack =>
        obtain ⟨source, hrun, rfl⟩ := Hosted.via_one hstep
        cases frame with
        | constructor r pc =>
            cases pc with
            | callback => simp [StopToken.step, hstack, Frame.step, constructorStep] at hrun
            | _ => exact absurd rfl (htop hstack)
        | destructor r pc => exact absurd trivial (htop hstack)
        | requestStop pc => exact absurd rfl (hrequest pc)
        | client code => exact absurd rfl (hclient code)
  | ret t =>
      obtain ⟨source, hret, rfl⟩ := Hosted.via_one hstep
      simp only [StopToken.step] at hret
      split at hret
      next r rest hstack =>
        cases hret
        exact ⟨rfl, _, _, rfl⟩
      next hstack => exact absurd trivial (htop hstack)
      next hstack => exact absurd trivial (htop hstack)
      next => cases hret
  | returnStart t =>
      simp only [step] at hstep
      split at hstep
      · exact untouched_leave hstep
      · cases hstep
  | complete t k =>
      simp only [step, h.children, reduceCtorEq, false_and, and_false, if_false] at hstep
  | construct t r | destroy t r =>
      simp only [step, h.children, reduceCtorEq, and_false, if_false] at hstep
  | stop t =>
      have harmed : s.op.onStop ≠ .armed := by
        rcases h.onStop with heq | heq <;> rw [heq] <;> simp
      simp only [step, harmed, and_false, if_false, reduceCtorEq] at hstep

omit [DecidableEq Thread] [DecidableEq Record] [Fintype Thread] in
/-- No child is left to decrement the count. -/
theorem Quiet.safeDecrement (h : Quiet s) (t : Thread) : SafeDecrement s t := by
  intro k rest hstack
  exact absurd trivial (h.calls t (.client (.child k)) (by simp [hstack]))

/-- While every decrement that brings the count to zero is made outside the stop
callback, the terminal signal is the last access to the operation. -/
theorem quiet_after_delivery (hn : 0 < n)
    {trace : List (State Thread Record n Value Error × Action Thread Record n)}
    (hrun : (machine Thread children owner).Run .initial trace s)
    (hsafe : ∀ p ∈ trace, SafeDecrement p.1 p.2.thread) (hdelivered : 0 < deliveries s.op.log) :
    Quiet s ∧ ∀ later s', (machine Thread children owner).Run s later s' →
      Quiet s' ∧ Untouched s s' := by
  have hinv : LifetimeInv children owner s :=
    (hrun.invariant_where (P := LifetimeInv children owner)
      (fun _ _ _ h hsafe hstep => h.step hn hsafe hstep) hsafe (.initial hn)).1
  have hquiet := quiet_of_delivered hn hinv.whenAll.op hinv.frames hinv.callback hdelivered
  refine ⟨hquiet, fun later s' hlater => ?_⟩
  have hafter : LifetimeInv children owner s' ∧ Quiet s' ∧ Untouched s s' := by
    induction hlater with
    | nil => exact ⟨hinv, hquiet, rfl, _, _, rfl⟩
    | snoc hlater hstep ih =>
        obtain ⟨hmiddle, hquiet', hop, life, log, hmemory⟩ := ih
        obtain ⟨hop', life', log', hmemory'⟩ := hquiet'.untouched hstep
        have hnext := hmiddle.step hn (hquiet'.safeDecrement _) hstep
        refine ⟨hnext, ?_, hop'.trans hop, life', log', ?_⟩
        · refine quiet_of_delivered hn hnext.whenAll.op hnext.frames hnext.callback ?_
          rwa [hop', hop]
        · rw [hmemory', hmemory]
  exact hafter.2

end Runs

omit [DecidableEq Thread] in
theorem safeDecrement_iff {s : State Thread Record n Value Error} {t : Thread} :
    SafeDecrement s t ↔
      (match s.source.calls t with
        | .client (.child k) :: rest =>
            !(s.op.children k = .decrement && s.op.remaining = 1 && rest.any isStopRequest)
        | _ => true) = true := by
  unfold SafeDecrement
  split
  next k rest hstack =>
    have hrequest : rest.any isStopRequest = true ↔ ∃ called, .client (.stopRequest called) ∈ rest := by
      rw [List.any_eq_true]
      constructor
      · rintro ⟨call, hcall, hrequest⟩
        cases call with
        | client code =>
            cases code with
            | stopRequest called => exact ⟨called, hcall⟩
            | _ => cases hrequest
        | _ => cases hrequest
      · rintro ⟨called, hcall⟩
        exact ⟨_, hcall, rfl⟩
    rw [Bool.not_eq_true', ← Bool.not_eq_true, Bool.and_eq_true, Bool.and_eq_true, hrequest,
      decide_eq_true_iff, decide_eq_true_iff]
    simp only [hstack, List.cons.injEq, Call.client.injEq, Code.child.injEq]
    constructor
    · rintro hsafe ⟨⟨hpc, hlast⟩, called, hcall⟩
      exact hsafe k rest ⟨rfl, rfl⟩ hpc hlast called hcall
    · rintro hnot j below ⟨rfl, rfl⟩ hpc hlast called hcall
      exact hnot ⟨⟨hpc, hlast⟩, called, hcall⟩
  next hother =>
    simp only [iff_true]
    intro k rest hstack
    exact absurd hstack (hother k rest)

instance (s : State Thread Record n Value Error) (t : Thread) : Decidable (SafeDecrement s t) :=
  decidable_of_iff _ safeDecrement_iff.symm

/-- A child that sends stopped. -/
def stoppedChild : Children 1 Nat Nat where
  outcome _ := .stopped
  sendsValue _ := true
  declared := nofun

/-- The child registers a stop callback and completes inside it, as the receiver's
stop source runs `when_all_stop_request`. -/
def completionInsideStop (k : Fin 1) : List (Action Unit Unit 1) :=
  List.flatten
    [[.start (), .register () .kept, .run () false, .construct () ()],
      List.replicate 9 (.run () false), [.returnStart (), .run () false, .stop (), .run () false],
      List.replicate 11 (.run () false), [.complete () k], List.replicate 8 (.run () false)]

theorem not_quiet_after_delivery :
    ¬ ∀ s : State Unit Unit 1 Nat Nat,
      (machine Unit stoppedChild (fun _ => 0)).Reachable s →
        0 < deliveries s.op.log → Quiet s := by
  intro hquiet
  have hreach := Machine.reachable_replay (M := machine Unit stoppedChild (fun _ : Unit => 0))
    (rfl : State.initial = State.initial) (completionInsideStop 0) (by decide)
  exact (hquiet _ hreach (by decide)).calls () .requesting (by decide) trivial

/-- The child completes outside the stop callback. -/
def completionOutsideStop (k : Fin 1) : List (Action Unit Unit 1) :=
  List.flatten
    [[.start (), .register () .kept, .run () false, .returnStart (), .run () false, .stop ()],
      List.replicate 7 (.run () false), [.complete () k], List.replicate 8 (.run () false)]

set_option maxRecDepth 4000 in
theorem quiet_after_delivery_outsideStop :
    ∃ s : State Unit Unit 1 Nat Nat, .delivered .stopped ∈ s.op.log ∧ Quiet s := by
  obtain ⟨trace, hrun, hsafe⟩ := Machine.exists_run_where
    (machine Unit stoppedChild (fun _ : Unit => 0)) (fun s a => SafeDecrement s a.thread)
    (s := .initial) (completionOutsideStop 0) (by decide)
  refine ⟨_, ?_, (quiet_after_delivery (by decide) hrun hsafe (by decide)).1⟩
  decide

end Bexec.WhenAll
