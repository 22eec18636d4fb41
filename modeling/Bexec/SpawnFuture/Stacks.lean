import Bexec.Foundation.Nesting
import Bexec.SpawnFuture.Delivery

/-!
# The stacks of `spawn_future`

Who can be beneath whom. A party that waits for something waits for its own
`request_stop` or for the receiver's completion function; the owner may also wait
for the callback that its registration runs. What the stacks say about a step is
all that the invariants of the fields need.
-/

namespace Bexec.SpawnFuture

open Foundation StopToken

variable {Thread Record Value Error : Type} {op op' : Operation Thread Value Error} {p : Party}
  {y : Pc}

/-- The party is in its functions. -/
def Pc.active : Pc → Bool
  | .idle | .running | .done => false
  | _ => true

/-- User code is in control. -/
def Opens (op : Operation Thread Value Error) : Option (Call Record Code) → Prop
  | none => True
  | some lower => userCall op lower = true

/-- What a call may stand on. -/
def MayStand (op : Operation Thread Value Error) (call : Call Record Code)
    (lower : Option (Call Record Code)) : Prop :=
  match call with
  | .requesting => ∃ p, lower = some (.client (.party p)) ∧ op.pc p = .requesting
  | .client (.party .cancel) => lower = some (.client (.party .owner)) ∨ Opens op lower
  | _ => Opens op lower

def isParty (p : Party) : Call Record Code → Bool
  | .client (.party q) => q = p
  | _ => false

def isSpawner : Call Record Code → Bool
  | .client .spawner => true
  | _ => false

/-- The frame of the owner does not stand on that of the callback. -/
def Precedes (upper lower : Call Record Code) : Prop :=
  upper = .client (.party .owner) → lower ≠ .client (.party .cancel)

section Rule

variable {call new : Call Record Code} {stack rest : List (Call Record Code)}

theorem opens_of_user (huser : UserTop op stack) : Opens op stack.head? := by
  cases stack with
  | nil => trivial
  | cons lower rest => exact huser lower rfl

theorem MayStand.of_opens (hcall : call ≠ .requesting) (h : Opens op stack.head?) :
    MayStand op call stack.head? := by
  unfold MayStand
  split
  · exact absurd rfl hcall
  · exact .inr h
  · exact h

theorem userCall_off {lower : Call Record Code} (hmoved : op'.pc = Function.update op.pc p y)
    (hlower : isParty p lower = false) : userCall op' lower = userCall op lower := by
  cases lower with
  | client code =>
      cases code with
      | spawner => rfl
      | party q =>
          have hne : q ≠ p := by simpa [isParty] using hlower
          simp [userCall, Code.isUser, hmoved, hne]
  | _ => rfl

/-- What does not stand on the party that moves may stay. -/
theorem MayStand.keep_off {lower : Call Record Code} (h : MayStand op call (some lower))
    (hmoved : op'.pc = Function.update op.pc p y) (hlower : isParty p lower = false) :
    MayStand op' call (some lower) := by
  have hopens : Opens op' (some lower) = Opens op (some lower) := by
    simp only [Opens, userCall_off hmoved hlower]
  unfold MayStand at h ⊢
  rw [hopens]
  split at h
  next =>
    obtain ⟨q, hq, hpc⟩ := h
    cases hq
    have hne : q ≠ p := by simpa [isParty] using hlower
    exact ⟨q, rfl, by rw [hmoved, Function.update_of_ne hne, hpc]⟩
  next => exact h
  next => exact h

theorem nested_keep (h : CallStack.Nested (MayStand op) stack)
    (hmoved : op'.pc = Function.update op.pc p y) (hnone : ∀ call ∈ stack.tail, isParty p call = false) :
    CallStack.Nested (MayStand op') stack := by
  refine h.mono (fun call hcall => ?_) fun upper lower hlower hrule => ?_
  · cases call with
    | requesting =>
        obtain ⟨q, hq, -⟩ := hcall
        cases hq
    | client code =>
        cases code with
        | spawner => trivial
        | party q => cases q <;> trivial
    | _ => trivial
  · exact hrule.keep_off hmoved (hnone lower hlower)

theorem mayStand_same (hsame : op'.pc = op.pc) (h : CallStack.Nested (MayStand op) stack) :
    CallStack.Nested (MayStand op') stack := by
  have huser : ∀ lower : Call Record Code, userCall op' lower = userCall op lower := by
    intro lower
    cases lower with
    | client code => cases code <;> simp [userCall, Code.isUser, hsame]
    | _ => rfl
  have hrule : ∀ (call : Call Record Code) lower, MayStand op call lower → MayStand op' call lower := by
    intro call lower hcall
    have hopens : Opens op' lower = Opens op lower := by
      cases lower with
      | none => rfl
      | some lower => simp only [Opens, huser]
    unfold MayStand at hcall ⊢
    rw [hopens, hsame]
    exact hcall
  exact h.mono (fun _ => hrule _ _) fun _ _ _ => hrule _ _

theorem MayStand.continue {lower : Option (Call Record Code)} (h : MayStand op call lower)
    (hclient : ∀ c, call ≠ .client c) (hnew : call.Continues new) : MayStand op new lower := by
  cases call with
  | constructing r inCallback =>
      cases inCallback with
      | false =>
          obtain ⟨inCallback, rfl⟩ := hnew
          exact h
      | true =>
          cases hnew
          exact h
  | client c => exact absurd rfl (hclient c)
  | _ =>
      cases hnew
      exact h

theorem continues_ne_client (hnew : call.Continues new) (hclient : ∀ c, call ≠ .client c)
    (c : Code) : new ≠ .client c := by
  rintro rfl
  cases call with
  | constructing r inCallback => cases inCallback <;> simp [Call.Continues] at hnew
  | client code => exact hclient code rfl
  | _ => cases hnew

theorem isParty_of_ne (hclient : ∀ c, call ≠ .client c) : isParty p call = false := by
  cases call with
  | client code => exact absurd rfl (hclient code)
  | _ => rfl

theorem isSpawner_of_ne (hclient : ∀ c, call ≠ .client c) : isSpawner call = false := by
  cases call with
  | client code => exact absurd rfl (hclient code)
  | _ => rfl

/-- What stands on the frame of a party. -/
theorem MayStand.on_party (h : MayStand op call (some (.client (.party p)))) :
    op.pc p = .requesting ∨ (∃ stored, op.pc p = .handler stored) ∨ p = .owner := by
  have hopens : Opens op (some (.client (.party p)) : Option (Call Record Code)) →
      ∃ stored, op.pc p = .handler stored := by
    intro huser
    simp only [Opens, userCall, Code.isUser] at huser
    split at huser
    next stored hpc => exact ⟨stored, hpc⟩
    next => cases huser
  unfold MayStand at h
  split at h
  next =>
    obtain ⟨q, hq, hpc⟩ := h
    cases hq
    exact .inl hpc
  next =>
    rcases h with howner | huser
    · cases howner
      exact .inr (.inr rfl)
    · exact .inr (.inl (hopens huser))
  next => exact .inr (.inl (hopens h))

end Rule

variable [DecidableEq Thread] [Fintype Thread]

structure StackInv (op : Operation Thread Value Error) (calls : Thread → List (Call Record Code)) :
    Prop where
  nested : ∀ t, CallStack.Nested (MayStand op) (calls t)
  party : ∀ p, CallStack.census (isParty p) calls = (op.pc p).active.toNat
  spawner : CallStack.census isSpawner calls ≤ (decide (op.future = .constructing)).toNat
  own : ∀ t, ∀ call ∈ calls t, OwnCall call → op.pc .child = .running
  ordered : ∀ t, (calls t).Pairwise Precedes
  callback : ∀ u, op.onStop = .running u → .client (.party .cancel) ∈ calls u

namespace StackInv

variable {calls calls' : Thread → List (Call Record Code)} {t : Thread}
  {rest : List (Call Record Code)}

omit [DecidableEq Thread] in
theorem initial : StackInv (.initial : Operation Thread Value Error)
    (fun _ : Thread => ([] : List (Call Record Code))) where
  nested _ := trivial
  party p := by simp [Operation.initial, Pc.active]
  spawner := by simp
  own t call hcall := by cases hcall
  ordered _ := .nil
  callback u hrunning := by cases hrunning

omit [DecidableEq Thread] in
/-- A party with something on its frame waits. -/
theorem above (h : StackInv op calls) (hmem : .client (.party p) ∈ (calls t).tail) :
    op.pc p = .requesting ∨ (∃ stored, op.pc p = .handler stored) ∨ p = .owner := by
  obtain ⟨upper, -, hrule⟩ := (h.nested t).above hmem
  exact hrule.on_party

/-- The frame of a party on top of a stack is its only one. -/
theorem only (h : StackInv op calls) (hstack : calls t = .client (.party p) :: rest) :
    (∀ other ∈ rest, isParty p other = false) ∧
      ∀ u, u ≠ t → ∀ other ∈ calls u, isParty p other = false := by
  have hcensus : CallStack.census (isParty p) calls ≤ 1 := by
    rw [h.party p]
    exact Bool.toNat_le _
  exact CallStack.not_elsewhere [] hcensus hstack (by simp [isParty])

omit [DecidableEq Thread] in
/-- A party that is not in its functions has no frame. -/
theorem absent (h : StackInv op calls) (hpc : (op.pc p).active = false) (u : Thread) :
    ∀ call ∈ calls u, isParty p call = false := by
  have hcensus := h.party p
  rw [hpc, Bool.toNat_false] at hcensus
  exact CallStack.census_eq_zero.mp hcensus u

omit [DecidableEq Thread] in
/-- The callback does not run on the thread of another party that destroys it. -/
theorem not_running (h : StackInv op calls) (hstack : calls t = .client (.party p) :: rest)
    (hp : p ≠ .cancel) (hchild : p = .child → (op.pc .cancel).cancels = false ∧
      (op.pc .cancel).isTail = false) : op.onStop ≠ .running t := by
  intro hrunning
  have hmem := h.callback t hrunning
  rw [hstack] at hmem
  have hbelow : .client (.party .cancel) ∈ rest := by
    rcases List.mem_cons.mp hmem with heq | hbelow
    · cases heq
      exact absurd rfl hp
    · exact hbelow
  cases p with
  | cancel => exact absurd rfl hp
  | owner =>
      have hordered := h.ordered t
      rw [hstack] at hordered
      exact (List.pairwise_cons.mp hordered).1 _ hbelow rfl rfl
  | child =>
      obtain ⟨hcancels, htail⟩ := hchild rfl
      have habove := h.above (p := .cancel) (t := t) (by rw [hstack]; exact hbelow)
      rcases habove with hpc | ⟨stored, hpc⟩ | hpc
      · simp [hpc, Pc.cancels] at hcancels
      · simp [hpc, Pc.isTail] at htail
      · cases hpc

end StackInv

section Moves

variable {t : Thread}

omit [DecidableEq Thread] [Fintype Thread] in
theorem Progress.moves (hop : Progress t op p op') :
    ∃ y, op'.pc = Function.update op.pc p y ∧ y.active = true ∧ (op.pc p).active = true ∧
      op'.future = op.future := by
  cases hop with
  | lock hpc | finish hpc =>
      refine ⟨_, rfl, ?_, by rw [hpc]; rfl, rfl⟩
      unfold Exit.pc
      split <;> rfl
  | @handled stored hpc => exact ⟨_, rfl, by cases stored <;> rfl, by rw [hpc]; rfl, rfl⟩
  | store hpc | register hp hpc | skip hpc | reset hpc | signal hpc | destroy hpc | release hpc =>
      exact ⟨_, rfl, rfl, by rw [hpc]; rfl, rfl⟩

omit [DecidableEq Thread] [Fintype Thread] in
theorem Enter.moves (hop : Enter t op p op') (hplaces : Places op) :
    ∃ y, op'.pc = Function.update op.pc p y ∧ y.active = true ∧ (op.pc p).active = false ∧
      (op'.future = .constructing ↔ op.future = .constructing) := by
  cases hop with
  | complete hpc => exact ⟨_, rfl, rfl, by rw [hpc]; rfl, .rfl⟩
  | drop hheld | start hheld =>
      exact ⟨_, rfl, rfl, by rw [(hplaces.idle_of_held hheld).1]; rfl, by simp [Operation.setPc, hheld]⟩
  | stop harmed => exact ⟨_, rfl, rfl, by rw [hplaces.kept (.inr harmed)]; rfl, .rfl⟩

omit [DecidableEq Thread] [Fintype Thread] in
theorem Enter.unbegun (hop : Enter t op .owner op') (hplaces : Places op) : op.begun = false := by
  cases hop with
  | drop hheld | start hheld => exact (hplaces.idle_of_held hheld).2

omit [DecidableEq Thread] [Fintype Thread] in
/-- Who sets the callback off does so on its own thread. -/
theorem Enter.running (hop : Enter t op p op') {u : Thread} (hrunning : op'.onStop = .running u) :
    p = .cancel ∧ u = t ∨ p ≠ .cancel ∧ op.onStop = .running u := by
  cases hop with
  | stop harmed =>
      cases hrunning
      exact .inl ⟨rfl, rfl⟩
  | _ => exact .inr ⟨by simp, hrunning⟩

omit [DecidableEq Thread] [Fintype Thread] in
theorem Progress.running (hop : Progress t op p op') {u : Thread}
    (hrunning : op'.onStop = .running u) : op.onStop = .running u := by
  cases hop with
  | reset hpc | register hp hpc => cases hrunning
  | _ => exact hrunning

omit [DecidableEq Thread] [Fintype Thread] in
/-- The destruction of the callback object waits for a callback on another thread. -/
theorem Progress.waits (hop : Progress t op p op') (hresets : (op.pc p).resets = true) :
    op.pc p = .reset true ∧ op.state.result = none ∨ ∀ u, op.onStop = .running u → u = t := by
  cases hop with
  | skip hpc hresult => exact .inl ⟨hpc, hresult⟩
  | reset hpc hresult hwait => exact .inr hwait
  | @handled stored hpc => simp [hpc, Pc.resets] at hresets
  | lock hpc | finish hpc | store hpc | register hp hpc | signal hpc | destroy hpc | release hpc =>
      simp [hpc, Pc.resets] at hresets

end Moves

section Steps

variable {s s' : State Thread Record Value Error} {t : Thread}

/-- The stacks stay nested. -/
theorem Effect.nested (heffect : Effect s s' t) (hplaces : Places s.op)
    (h : StackInv s.op s.source.calls) (u : Thread) :
    CallStack.Nested (MayStand s'.op) (s'.source.calls u) := by
  -- What a party leaves behind on the other stacks does not depend on where it is.
  have hmove : ∀ {p y}, s'.op.pc = Function.update s.op.pc p y →
      (∀ v, v ≠ t → ∀ call ∈ s.source.calls v, isParty p call = false) →
      ∀ {new}, (CallStack.Nested (MayStand s.op) (s.source.calls t) →
        CallStack.Nested (MayStand s'.op) new) →
      s'.source.calls = Function.update s.source.calls t new →
      CallStack.Nested (MayStand s'.op) (s'.source.calls u) := by
    intro p y hmoved hothers new hnew hcalls
    rw [hcalls]
    by_cases hu : u = t
    · subst hu
      rw [Function.update_self]
      exact hnew (h.nested u)
    · rw [Function.update_of_ne hu]
      exact nested_keep (h.nested u) hmoved fun call hcall =>
        hothers u hu call (List.mem_of_mem_tail hcall)
  have hstay : ∀ {new}, s'.op.pc = s.op.pc → (CallStack.Nested (MayStand s.op) (s.source.calls t) →
      CallStack.Nested (MayStand s.op) new) →
      s'.source.calls = Function.update s.source.calls t new →
      CallStack.Nested (MayStand s'.op) (s'.source.calls u) := by
    intro new hsame hnew hcalls
    rw [hcalls]
    refine mayStand_same hsame ?_
    exact CallStack.nested_replace h.nested (fun _ hold => hold) hnew u
  have hpush : ∀ {p y}, s'.op.pc = Function.update s.op.pc p y → (s.op.pc p).active = false →
      UserTop s.op (s.source.calls t) → CallStack.Nested (MayStand s'.op) (s.source.calls t) ∧
        Opens s'.op (s.source.calls t).head? := by
    intro p y hmoved hpc huser
    have hnone := h.absent hpc t
    refine ⟨nested_keep (h.nested t) hmoved fun call hcall =>
      hnone call (List.mem_of_mem_tail hcall), ?_⟩
    cases hstack : s.source.calls t with
    | nil => trivial
    | cons top rest =>
        have htop := huser top (by rw [hstack]; rfl)
        exact (userCall_off hmoved (hnone top (by rw [hstack]; exact List.mem_cons_self))).trans htop
  cases heffect with
  | call call huser hcall hrunning hop hcalls =>
      refine hstay (by rw [hop]) (fun hold => ?_) hcalls
      refine ⟨?_, hold⟩
      obtain ⟨r, rfl | rfl⟩ := hcall <;> exact opens_of_user huser
  | inside top new rest hstack hclient hnew hop hcalls =>
      refine hstay (by rw [hop]) (fun hold => ?_) hcalls
      rw [hstack] at hold
      exact ⟨hold.1.continue hclient hnew, hold.2⟩
  | returns top rest hstack hclient hcaller hop hcalls =>
      refine hstay (by rw [hop]) (fun hold => ?_) hcalls
      rw [hstack] at hold
      exact hold.2
  | hold rest hstack hop hcalls =>
      refine hstay (by rw [hop]) (fun hold => ?_) hcalls
      rw [hstack] at hold
      exact hold.2
  | spawn huser hfuture hop hcalls =>
      have hidle := hplaces.unspawned.mp hfuture
      have hmoved : s'.op.pc = Function.update s.op.pc .child .running := by rw [hop]; rfl
      have habsent : (s.op.pc .child).active = false := by rw [hidle]; rfl
      obtain ⟨hnew, hopens⟩ := hpush hmoved habsent huser
      refine hmove hmoved (fun v _ => h.absent habsent v) (fun _ => ?_) hcalls
      exact ⟨hopens, hnew⟩
  | reject huser hfuture hop hcalls =>
      have hidle := hplaces.unspawned.mp hfuture
      have hmoved : s'.op.pc = Function.update s.op.pc .child .store := by rw [hop]; rfl
      have habsent : (s.op.pc .child).active = false := by rw [hidle]; rfl
      obtain ⟨hnew, hopens⟩ := hpush hmoved habsent huser
      refine hmove hmoved (fun v _ => h.absent habsent v) (fun _ => ?_) hcalls
      exact ⟨rfl, hopens, hnew⟩
  | enter p huser hop hown hcalls =>
      obtain ⟨y, hmoved, -, habsent, -⟩ := hop.moves hplaces
      obtain ⟨hnew, hopens⟩ := hpush hmoved habsent huser
      refine hmove hmoved (fun v _ => h.absent habsent v) (fun _ => ?_) hcalls
      exact ⟨.of_opens (by simp) hopens, hnew⟩
  | progress p rest hstack hop hcalls =>
      obtain ⟨y, hmoved, -⟩ := hop.moves
      obtain ⟨hrest, hothers⟩ := h.only hstack
      refine hmove hmoved hothers (fun hold => ?_) (hcalls.trans (Function.update_eq_self t _).symm)
      refine nested_keep hold hmoved fun call hcall => hrest call ?_
      rwa [hstack] at hcall
  | resume p below hstack hpc hop hcalls =>
      have hmoved : s'.op.pc = Function.update s.op.pc p p.requested := by rw [hop]; rfl
      have hcensus : CallStack.census (isParty p) s.source.calls ≤ 1 := by
        rw [h.party p]
        exact Bool.toNat_le _
      obtain ⟨hbelow, hothers⟩ := CallStack.not_elsewhere [.requesting] hcensus hstack
        (by simp [isParty])
      refine hmove hmoved hothers (fun hold => ?_) hcalls
      rw [hstack] at hold
      exact nested_keep hold.2 hmoved hbelow
  | registerLate rest hstack hpc hop hcalls =>
      have hcancel : (s.op.pc .cancel).active = false := by
        rw [(hplaces.unregistered (.inr hpc)).2]
        rfl
      have howner : (s.op.setPc .owner .lock).pc = Function.update s.op.pc .owner .lock := rfl
      have hmoved : s'.op.pc =
          Function.update (s.op.setPc .owner .lock).pc .cancel .lock := by rw [hop]; rfl
      obtain ⟨hrest, hothers⟩ := h.only hstack
      have htail : ∀ v, ∀ call ∈ (s.source.calls v).tail, isParty .owner call = false := by
        intro v call hcall
        by_cases hv : v = t
        · subst hv
          rw [hstack] at hcall
          exact hrest call hcall
        · exact hothers v hv call (List.mem_of_mem_tail hcall)
      have hstays : ∀ v, CallStack.Nested (MayStand s'.op) (s.source.calls v) := fun v =>
        nested_keep (nested_keep (h.nested v) howner (htail v)) hmoved fun call hcall =>
          h.absent hcancel v call (List.mem_of_mem_tail hcall)
      rw [hcalls]
      refine CallStack.nested_replace hstays (fun _ hold => hold) (fun hold => ?_) u
      rw [hstack] at hold
      exact ⟨.inl rfl, hold⟩
  | request p rest hstack hpc hop hcalls =>
      have hmoved : s'.op.pc = Function.update s.op.pc p .requesting := by rw [hop]; rfl
      obtain ⟨hrest, hothers⟩ := h.only hstack
      refine hmove hmoved hothers (fun hold => ?_) hcalls
      rw [hstack] at hold
      refine ⟨⟨p, rfl, by rw [hmoved, Function.update_self]⟩, ?_⟩
      exact nested_keep hold hmoved hrest
  | leave p rest hstack hpc hop hcalls =>
      have hmoved : s'.op.pc = Function.update s.op.pc p .done := by rw [hop]; rfl
      obtain ⟨hrest, hothers⟩ := h.only hstack
      refine hmove hmoved hothers (fun hold => ?_) hcalls
      rw [hstack] at hold
      exact nested_keep hold.2 hmoved fun call hcall => hrest call (List.mem_of_mem_tail hcall)

/-- The frame of a party is there from its first access to its return. -/
theorem Effect.party (heffect : Effect s s' t) (hplaces : Places s.op)
    (h : StackInv s.op s.source.calls) (q : Party) :
    CallStack.census (isParty q) s'.source.calls = (s'.op.pc q).active.toNat := by
  have hold := h.party q
  have hframes : ∀ (old new : List (Call Record Code)) {rest}, s.source.calls t = old ++ rest →
      s'.source.calls = Function.update s.source.calls t (new ++ rest) →
      (s'.op.pc q).active.toNat + old.countP (isParty q) =
        (s.op.pc q).active.toNat + new.countP (isParty q) →
      CallStack.census (isParty q) s'.source.calls = (s'.op.pc q).active.toNat := by
    intro old new rest hstack hcalls hcount
    have hreplace := CallStack.census_replace (isParty q) _ new hstack
    rw [← hcalls] at hreplace
    omega
  have hactive : ∀ {p x y}, s'.op.pc = Function.update s.op.pc p y → s.op.pc p = x →
      (s'.op.pc q).active.toNat + (if q = p then x.active.toNat else 0) =
        (s.op.pc q).active.toNat + (if q = p then y.active.toNat else 0) := by
    intro p x y hmoved hpc
    rw [hmoved]
    by_cases hq : q = p
    · subst hq
      simp [hpc, Nat.add_comm]
    · simp [hq]
  have hparty : ∀ p, [(.client (.party p) : Call Record Code)].countP (isParty q) =
      if q = p then 1 else 0 := by
    intro p
    by_cases hq : q = p <;> simp [isParty, hq, eq_comm]
  cases heffect with
  | call call huser hcall hrunning hop hcalls =>
      refine hframes [] [call] rfl hcalls ?_
      rw [hop]
      obtain ⟨r, rfl | rfl⟩ := hcall <;> rfl
  | inside top new rest hstack hclient hnew hop hcalls =>
      refine hframes [top] [new] hstack hcalls ?_
      rw [hop, List.countP_singleton, List.countP_singleton, isParty_of_ne hclient,
        isParty_of_ne (continues_ne_client hnew hclient)]
  | returns top rest hstack hclient hcaller hop hcalls =>
      refine hframes [top] [] hstack hcalls ?_
      rw [hop, List.countP_singleton, isParty_of_ne hclient]
      rfl
  | hold rest hstack hop hcalls =>
      refine hframes [_] [] hstack hcalls ?_
      rw [hop]
      rfl
  | spawn huser hfuture hop hcalls =>
      have hcount := hactive (y := .running) (by rw [hop]; rfl) (hplaces.unspawned.mp hfuture)
      exact hframes [] [_] rfl hcalls (by simpa [Pc.active, isParty] using hcount)
  | reject huser hfuture hop hcalls =>
      have hcount := hactive (y := .store) (by rw [hop]; rfl) (hplaces.unspawned.mp hfuture)
      refine hframes [] [.client (.party .child), .client .spawner] rfl hcalls ?_
      have hnew : [(.client (.party .child) : Call Record Code), .client .spawner].countP
          (isParty q) = if q = .child then 1 else 0 := by
        by_cases hq : q = .child <;> simp [isParty, hq, eq_comm]
      rw [hnew]
      simpa [Pc.active] using hcount
  | enter p huser hop hown hcalls =>
      obtain ⟨y, hmoved, hy, hx, -⟩ := hop.moves hplaces
      have hcount := hactive hmoved rfl
      rw [hx, hy] at hcount
      refine hframes [] [_] rfl hcalls ?_
      rw [hparty p]
      simpa using hcount
  | registerLate rest hstack hpc hop hcalls =>
      have hcalls' : s'.source.calls = Function.update s.source.calls t
          ([.client (.party .cancel)] ++ s.source.calls t) := by rw [hcalls, hstack]; rfl
      have hcancel := (hplaces.unregistered (.inr hpc)).2
      refine hframes [] [_] rfl hcalls' ?_
      rw [hop]
      cases q <;> simp [Operation.setPc, hpc, hcancel, Pc.active, isParty]
  | progress p rest hstack hop hcalls =>
      obtain ⟨y, hmoved, hy, hx, -⟩ := hop.moves
      have hcount := hactive hmoved rfl
      rw [hx, hy] at hcount
      exact hframes [] [] rfl (hcalls.trans (Function.update_eq_self t _).symm)
        (Nat.add_right_cancel hcount)
  | resume p below hstack hpc hop hcalls =>
      have hcount := hactive (y := p.requested) (by rw [hop]; rfl) hpc
      have hrequested : p.requested.active = true := by cases p <;> rfl
      rw [hrequested] at hcount
      exact hframes [_] [] hstack hcalls (Nat.add_right_cancel hcount)
  | request p rest hstack hpc hop hcalls =>
      have hcount := hactive (y := .requesting) (by rw [hop]; rfl) hpc
      have hcalls' : s'.source.calls = Function.update s.source.calls t
          ([.requesting] ++ s.source.calls t) := by rw [hcalls, hstack]; rfl
      exact hframes [] [_] rfl hcalls' (Nat.add_right_cancel hcount)
  | leave p rest hstack hpc hop hcalls =>
      have hcount := hactive (y := .done) (by rw [hop]; rfl) hpc
      refine hframes [_] [] hstack hcalls ?_
      rw [hparty p]
      simpa [Pc.active] using hcount

theorem Effect.spawner (heffect : Effect s s' t) (hplaces : Places s.op)
    (h : StackInv s.op s.source.calls) :
    CallStack.census isSpawner s'.source.calls ≤ (decide (s'.op.future = .constructing)).toNat := by
  have hold := h.spawner
  have hframes : ∀ (old new : List (Call Record Code)) {rest}, s.source.calls t = old ++ rest →
      s'.source.calls = Function.update s.source.calls t (new ++ rest) →
      new.countP isSpawner + (decide (s.op.future = .constructing)).toNat ≤
        old.countP isSpawner + (decide (s'.op.future = .constructing)).toNat →
      CallStack.census isSpawner s'.source.calls ≤
        (decide (s'.op.future = .constructing)).toNat := by
    intro old new rest hstack hcalls hcount
    have hreplace := CallStack.census_replace isSpawner _ new hstack
    rw [← hcalls] at hreplace
    omega
  cases heffect with
  | call call huser hcall hrunning hop hcalls =>
      refine hframes [] [call] rfl hcalls ?_
      rw [hop]
      obtain ⟨r, rfl | rfl⟩ := hcall <;> exact le_rfl
  | inside top new rest hstack hclient hnew hop hcalls =>
      refine hframes [top] [new] hstack hcalls ?_
      rw [hop, List.countP_singleton, List.countP_singleton, isSpawner_of_ne hclient,
        isSpawner_of_ne (continues_ne_client hnew hclient)]
  | returns top rest hstack hclient hcaller hop hcalls =>
      refine hframes [top] [] hstack hcalls ?_
      rw [hop]
      simp
  | hold rest hstack hop hcalls =>
      refine hframes [_] [] hstack hcalls ?_
      have hle := Bool.toNat_le (decide (s.op.future = .constructing))
      simpa [isSpawner] using hle.trans (Nat.le_add_right _ _)
  | spawn huser hfuture hop hcalls =>
      refine hframes [] [_] rfl hcalls ?_
      rw [hop]
      simp [isSpawner, hfuture, Operation.setPc]
  | reject huser hfuture hop hcalls =>
      refine hframes [] [_, _] rfl hcalls ?_
      rw [hop]
      simp [isSpawner, hfuture, Operation.setPc]
  | enter p huser hop hown hcalls =>
      obtain ⟨y, -, -, -, hfuture⟩ := hop.moves hplaces
      refine hframes [] [_] rfl hcalls ?_
      simp [isSpawner, hfuture]
  | registerLate rest hstack hpc hop hcalls =>
      have hcalls' : s'.source.calls = Function.update s.source.calls t
          ([.client (.party .cancel)] ++ s.source.calls t) := by rw [hcalls, hstack]; rfl
      refine hframes [] [_] rfl hcalls' ?_
      rw [hop]
      exact le_rfl
  | progress p rest hstack hop hcalls =>
      obtain ⟨y, -, -, -, hfuture⟩ := hop.moves
      rwa [hcalls, hfuture]
  | resume p below hstack hpc hop hcalls =>
      refine hframes [_] [] hstack hcalls ?_
      rw [hop]
      exact le_rfl
  | request p rest hstack hpc hop hcalls =>
      have hcalls' : s'.source.calls = Function.update s.source.calls t
          ([.requesting] ++ s.source.calls t) := by rw [hcalls, hstack]; rfl
      refine hframes [] [_] rfl hcalls' ?_
      rw [hop]
      exact le_rfl
  | leave p rest hstack hpc hop hcalls =>
      refine hframes [_] [] hstack hcalls ?_
      rw [hop]
      exact le_rfl

/-- Only a running child uses the stop source. -/
theorem Effect.own (heffect : Effect s s' t) (hplaces : Places s.op)
    (h : StackInv s.op s.source.calls) (u : Thread) (call : Call Record Code)
    (hcall : call ∈ s'.source.calls u) (hown : OwnCall call) : s'.op.pc .child = .running := by
  have hold : ∀ (old new : List (Call Record Code)) {rest}, s.source.calls t = old ++ rest →
      s'.source.calls = Function.update s.source.calls t (new ++ rest) →
      (∀ call ∈ new, ¬ OwnCall call) → call ∈ s.source.calls u := by
    intro old new rest hstack hcalls hnew
    rw [hcalls] at hcall
    rcases CallStack.mem_replace _ hcall with hmem | hmem
    · exact absurd hown (hnew call hmem)
    · exact CallStack.mem_beneath _ hstack hmem
  have hkept : ∀ {p y}, s'.op.pc = Function.update s.op.pc p y → s.op.pc p ≠ .running →
      call ∈ s.source.calls u → s'.op.pc .child = .running := by
    intro p y hmoved hpc hmem
    have hrunning := h.own u call hmem hown
    have hp : Party.child ≠ p := by
      rintro rfl
      exact hpc hrunning
    rw [hmoved, Function.update_of_ne hp, hrunning]
  cases heffect with
  | call new huser hnew hrunning hop hcalls =>
      rw [hop]
      exact hrunning
  | inside top new rest hstack hclient hnew hop hcalls =>
      rw [hop]
      rw [hcalls] at hcall
      rcases CallStack.mem_replace [new] hcall with hmem | hmem
      · cases List.mem_singleton.mp hmem
        refine h.own t top (by simp [hstack]) ?_
        cases top with
        | constructing r inCallback =>
            cases inCallback with
            | false => rfl
            | true =>
                cases hnew
                cases hown
        | client c => exact absurd rfl (hclient c)
        | _ =>
            cases hnew
            exact hown
      · exact h.own u call (CallStack.mem_beneath [top] hstack hmem) hown
  | returns top rest hstack hclient hcaller hop hcalls =>
      rw [hop]
      exact h.own u call (hold [top] [] hstack hcalls (by simp)) hown
  | hold rest hstack hop hcalls =>
      rw [hop]
      exact h.own u call (hold [_] [] hstack hcalls (by simp)) hown
  | spawn huser hfuture hop hcalls =>
      rw [hop]
      simp [Operation.setPc]
  | reject huser hfuture hop hcalls =>
      have hidle := hplaces.unspawned.mp hfuture
      exact hkept (by rw [hop]; rfl) (by simp [hidle])
        (hold [] [_, _] rfl hcalls (by simp [OwnCall]))
  | enter p huser hop hnone hcalls =>
      obtain ⟨y, hmoved, -, -, -⟩ := hop.moves hplaces
      have hmem := hold [] [_] rfl hcalls (by simp [OwnCall])
      have hp : Party.child ≠ p := by
        rintro rfl
        exact hnone rfl u call hmem hown
      rw [hmoved, Function.update_of_ne hp]
      exact h.own u call hmem hown
  | registerLate rest hstack hpc hop hcalls =>
      have hcalls' : s'.source.calls = Function.update s.source.calls t
          ([.client (.party .cancel)] ++ s.source.calls t) := by rw [hcalls, hstack]; rfl
      rw [hop]
      exact h.own u call (hold [] [_] rfl hcalls' (by simp [OwnCall])) hown
  | progress p rest hstack hop hcalls =>
      obtain ⟨y, hmoved, -, hactive, -⟩ := hop.moves
      rw [hcalls] at hcall
      refine hkept hmoved ?_ hcall
      intro hpc
      rw [hpc] at hactive
      cases hactive
  | resume p below hstack hpc hop hcalls =>
      exact hkept (by rw [hop]; rfl) (by simp [hpc]) (hold [_] [] hstack hcalls (by simp))
  | request p rest hstack hpc hop hcalls =>
      have hcalls' : s'.source.calls = Function.update s.source.calls t
          ([.requesting] ++ s.source.calls t) := by rw [hcalls, hstack]; rfl
      exact hkept (by rw [hop]; rfl) (by simp [hpc]) (hold [] [_] rfl hcalls' (by simp [OwnCall]))
  | leave p rest hstack hpc hop hcalls =>
      exact hkept (by rw [hop]; rfl) (by simp [hpc]) (hold [_] [] hstack hcalls (by simp))

/-- The callback is registered by the owner, so its frame is never beneath the owner's. -/
theorem Effect.ordered (heffect : Effect s s' t) (hplaces : Places s.op)
    (h : StackInv s.op s.source.calls) (u : Thread) : (s'.source.calls u).Pairwise Precedes := by
  have hframes : ∀ {new}, s'.source.calls = Function.update s.source.calls t new →
      ((s.source.calls t).Pairwise Precedes → new.Pairwise Precedes) →
      (s'.source.calls u).Pairwise Precedes := by
    intro new hcalls hnew
    rw [hcalls]
    by_cases hu : u = t
    · subst hu
      rw [Function.update_self]
      exact hnew (h.ordered u)
    · rw [Function.update_of_ne hu]
      exact h.ordered u
  have hpush : ∀ {call : Call Record Code} {below}, call ≠ .client (.party .owner) →
      below.Pairwise Precedes → (call :: below).Pairwise Precedes := by
    intro call below hcall hbelow
    exact List.pairwise_cons.mpr ⟨fun _ _ hupper => absurd hupper hcall, hbelow⟩
  cases heffect with
  | call call huser hcall hrunning hop hcalls =>
      refine hframes hcalls (hpush ?_)
      obtain ⟨r, rfl | rfl⟩ := hcall <;> simp
  | inside top new rest hstack hclient hnew hop hcalls =>
      refine hframes hcalls fun hold => hpush (continues_ne_client hnew hclient _) ?_
      rw [hstack] at hold
      exact (List.pairwise_cons.mp hold).2
  | returns top rest hstack hclient hcaller hop hcalls =>
      refine hframes hcalls fun hold => ?_
      rw [hstack] at hold
      exact (List.pairwise_cons.mp hold).2
  | hold rest hstack hop hcalls | leave p rest hstack hpc hop hcalls =>
      refine hframes hcalls fun hold => ?_
      rw [hstack] at hold
      exact (List.pairwise_cons.mp hold).2
  | resume p below hstack hpc hop hcalls =>
      refine hframes hcalls fun hold => ?_
      rw [hstack] at hold
      exact (List.pairwise_cons.mp hold).2
  | spawn huser hfuture hop hcalls => exact hframes hcalls (hpush (by simp))
  | reject huser hfuture hop hcalls =>
      exact hframes hcalls fun hold => hpush (by simp) (hpush (by simp) hold)
  | enter p huser hop hown hcalls =>
      refine hframes hcalls fun hold => List.pairwise_cons.mpr ⟨?_, hold⟩
      intro lower hlower howner hcancel
      cases howner
      subst hcancel
      have hidle := (hplaces.unregistered (.inl (hop.unbegun hplaces))).2
      have hnone := h.absent (p := .cancel) (by rw [hidle]; rfl) t _ hlower
      simp [isParty] at hnone
  | registerLate rest hstack hpc hop hcalls =>
      refine hframes hcalls fun hold => hpush (by simp) ?_
      rwa [hstack] at hold
  | request p rest hstack hpc hop hcalls =>
      refine hframes hcalls fun hold => hpush (by simp) ?_
      rwa [hstack] at hold
  | progress p rest hstack hop hcalls =>
      rw [hcalls]
      exact h.ordered u

/-- The callback runs where its frame is. -/
theorem Effect.callback (heffect : Effect s s' t) (h : StackInv s.op s.source.calls) (u : Thread)
    (hrunning : s'.op.onStop = .running u) :
    .client (.party .cancel) ∈ s'.source.calls u := by
  have hkept : ∀ (old new : List (Call Record Code)) {rest}, s.source.calls t = old ++ rest →
      s'.source.calls = Function.update s.source.calls t (new ++ rest) →
      .client (.party .cancel) ∉ old → s.op.onStop = .running u →
      .client (.party .cancel) ∈ s'.source.calls u := by
    intro old new rest hstack hcalls hold hrunning
    have hmem := h.callback u hrunning
    rw [hcalls]
    by_cases hu : u = t
    · subst hu
      rw [Function.update_self]
      rw [hstack] at hmem
      exact List.mem_append_right _ ((List.mem_append.mp hmem).resolve_left hold)
    · rwa [Function.update_of_ne hu]
  cases heffect with
  | call call huser hcall hrunning' hop hcalls =>
      exact hkept [] [call] rfl hcalls (by simp) (by rwa [hop] at hrunning)
  | inside top new rest hstack hclient hnew hop hcalls =>
      exact hkept [top] [new] hstack hcalls
        (by simpa using Ne.symm (hclient _)) (by rwa [hop] at hrunning)
  | returns top rest hstack hclient hcaller hop hcalls =>
      exact hkept [top] [] hstack hcalls
        (by simpa using Ne.symm (hclient _)) (by rwa [hop] at hrunning)
  | hold rest hstack hop hcalls =>
      exact hkept [_] [] hstack hcalls (by simp) (by rwa [hop] at hrunning)
  | spawn huser hfuture hop hcalls =>
      exact hkept [] [_] rfl hcalls (by simp) (by rwa [hop] at hrunning)
  | reject huser hfuture hop hcalls =>
      exact hkept [] [_, _] rfl hcalls (by simp) (by rwa [hop] at hrunning)
  | resume p below hstack hpc hop hcalls =>
      exact hkept [_] [] hstack hcalls (by simp) (by rwa [hop] at hrunning)
  | request p rest hstack hpc hop hcalls =>
      have hcalls' : s'.source.calls = Function.update s.source.calls t
          ([.requesting] ++ s.source.calls t) := by rw [hcalls, hstack]; rfl
      exact hkept [] [_] rfl hcalls' (by simp) (by rwa [hop] at hrunning)
  | progress p rest hstack hop hcalls =>
      rw [hcalls]
      exact h.callback u (hop.running hrunning)
  | enter p huser hop hown hcalls =>
      rcases hop.running hrunning with ⟨rfl, rfl⟩ | ⟨hp, hold⟩
      · rw [hcalls, Function.update_self]
        exact List.mem_cons_self
      · exact hkept [] [_] rfl hcalls (by simp) hold
  | registerLate rest hstack hpc hop hcalls =>
      rw [hop] at hrunning
      cases hrunning
      rw [hcalls, Function.update_self]
      exact List.mem_cons_self
  | leave p rest hstack hpc hop hcalls =>
      rw [hop] at hrunning
      simp only [Operation.leave, Operation.setPc] at hrunning
      split at hrunning
      next => cases hrunning
      next hnot =>
        by_cases hu : u = t
        · subst hu
          have hp : p ≠ .cancel := fun hp => hnot ⟨hp, hrunning⟩
          exact hkept [_] [] hstack hcalls (by simp [hp.symm]) hrunning
        · rw [hcalls, Function.update_of_ne hu]
          exact h.callback u hrunning

theorem Effect.stackInv (heffect : Effect s s' t) (hplaces : Places s.op)
    (h : StackInv s.op s.source.calls) : StackInv s'.op s'.source.calls where
  nested := heffect.nested hplaces h
  party := heffect.party hplaces h
  spawner := heffect.spawner hplaces h
  own := heffect.own hplaces h
  ordered := heffect.ordered hplaces h
  callback := heffect.callback h

end Steps

/-- What a step does to the fields. -/
theorem Effect.move {s s' : State Thread Record Value Error} {t : Thread} (heffect : Effect s s' t)
    (hop : OpInv s.op) (h : StackInv s.op s.source.calls) : Move t s.op s'.op := by
  cases heffect with
  | call call huser hcall hrunning hsame hcalls => exact hsame ▸ .same
  | inside top new rest hstack hclient hnew hsame hcalls => exact hsame ▸ .same
  | returns top rest hstack hclient hcaller hsame hcalls => exact hsame ▸ .same
  | resume p below hstack hpc hnew hcalls => exact hnew ▸ .resume hpc
  | spawn huser hfuture hnew hcalls => exact hnew ▸ .spawn hfuture
  | reject huser hfuture hnew hcalls => exact hnew ▸ .reject hfuture
  | hold rest hstack hnew hcalls =>
      have hmem : .client .spawner ∈ s.source.calls t := by
        rw [hstack]
        exact List.mem_cons_self
      have hpos := CallStack.census_pos.mpr ⟨t, _, hmem, (rfl : isSpawner _ = true)⟩
      have hspawner := h.spawner
      have hfuture : s.op.future = .constructing := by
        by_contra hnot
        rw [decide_eq_false hnot, Bool.toNat_false] at hspawner
        omega
      exact hnew ▸ .hold hfuture
  | enter p huser hnew hown hcalls => exact .enter hnew
  | registerLate rest hstack hpc hnew hcalls => exact hnew ▸ .registerLate hpc
  | request p rest hstack hpc hnew hcalls => exact hnew ▸ .request hpc
  | progress p rest hstack hnew hcalls =>
      refine .progress hnew fun hresets hp u hrunning => ?_
      rcases hnew.waits hresets with ⟨hpc, hresult⟩ | hwait
      · exact hop.duties.result_of_destroys (p := p) hop.places (by rw [hpc]; rfl) hresult
      · obtain rfl := hwait u hrunning
        refine h.not_running hstack hp (fun hchild => ?_) hrunning
        subst hchild
        exact hop.callback.childResets hresets
  | leave p rest hstack hpc hnew hcalls =>
      refine hnew ▸ .leave hpc ?_
      intro hp u hrunning
      subst hp
      by_contra hu
      have hmem := h.callback u hrunning
      have hnone := (h.only hstack).2 u hu _ hmem
      simp [isParty] at hnone

end Bexec.SpawnFuture
