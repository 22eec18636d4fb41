import Bexec.Foundation.Nesting
import Bexec.WhenAll.Result

/-!
# The stacks of `when_all`

Who can be beneath whom. A completion function that waits for something waits
for its own `request_stop`, and so does the stop callback; a child that has not
completed or is done has no frame; only a running child uses the stop source.
-/

namespace Bexec.WhenAll

open Foundation StopToken

variable {Thread Record Value Error : Type} {n : Nat} {children : Children n Value Error}
  {owner : Record → Fin n} {op op' : Operation Thread n Value Error}

/-- User code is in control, or `start` calls on. -/
def Opens : Option (Call Record (Code n)) → Prop
  | none => True
  | some (.client (.starter _)) => True
  | some lower => userCall lower = true

/-- Who waits for `request_stop`. -/
def Awaits (op : Operation Thread n Value Error) : Option (Call Record (Code n)) → Prop
  | some (.client (.child k)) => op.children k = .stopping
  | some (.client (.stopRequest called)) => called = true
  | _ => False

/-- What a call may stand on. -/
def MayStand (op : Operation Thread n Value Error) (call : Call Record (Code n))
    (lower : Option (Call Record (Code n))) : Prop :=
  match call with
  | .requesting => Awaits op lower
  | _ => Opens lower

/-- The child is in its completion function. -/
def ChildPc.active : ChildPc → Bool
  | .unstarted => false
  | .running => false
  | .done => false
  | _ => true

def isChild (k : Fin n) : Call Record (Code n) → Bool
  | .client (.child j) => j = k
  | _ => false

def isStarter : Call Record (Code n) → Bool
  | .client (.starter _) => true
  | _ => false

def isStopRequest : Call Record (Code n) → Bool
  | .client (.stopRequest _) => true
  | _ => false

/-- No child is started, and the stop callback is not registered. -/
def Fresh (op : Operation Thread n Value Error) : Prop :=
  op.started = 0 ∧ op.onStop = .empty

/-- A child that is waiting for `request_stop` goes on waiting. -/
def Keeps (op op' : Operation Thread n Value Error) : Prop :=
  ∀ k, op.children k = .stopping → op'.children k = .stopping

section Rule

variable {call new : Call Record (Code n)} {stack : List (Call Record (Code n))} {k : Fin n}

theorem opens_of_user (huser : UserTop stack) : Opens stack.head? := by
  cases stack with
  | nil => trivial
  | cons lower rest =>
      have hlower : userCall lower = true := huser lower rfl
      cases lower with
      | client code => cases code <;> trivial
      | _ => exact hlower

theorem mayStand_of_user (huser : UserTop stack) (hcall : call ≠ .requesting) :
    MayStand op call stack.head? := by
  cases call with
  | requesting => exact absurd rfl hcall
  | _ => exact opens_of_user huser

theorem MayStand.keep (hkeeps : Keeps op op') {lower : Option (Call Record (Code n))}
    (h : MayStand op call lower) : MayStand op' call lower := by
  cases call with
  | requesting =>
      change Awaits op lower at h
      change Awaits op' lower
      unfold Awaits at h ⊢
      split at h
      · exact hkeeps _ h
      · exact h
      · exact h.elim
  | _ => exact h

/-- What does not stand on the child of a step may stay. -/
theorem MayStand.keep_off {pc : ChildPc} {lower : Call Record (Code n)}
    (h : MayStand op call (some lower)) (hlower : isChild k lower = false) :
    MayStand (op.setPc k pc) call (some lower) := by
  cases call with
  | requesting =>
      cases lower with
      | client code =>
          cases code with
          | child j =>
              have hne : j ≠ k := by simpa [isChild] using hlower
              exact (Function.update_of_ne hne _ _).trans h
          | _ => exact h
      | _ => exact h
  | _ => exact h

/-- Calls other than `request_stop` may stand on the same things. -/
theorem MayStand.change {lower : Option (Call Record (Code n))} (h : MayStand op call lower)
    (hcall : call ≠ .requesting) (hnew : new ≠ .requesting) : MayStand op new lower := by
  cases call with
  | requesting => exact absurd rfl hcall
  | _ =>
      cases new with
      | requesting => exact absurd rfl hnew
      | _ => exact h

theorem MayStand.continue {lower : Option (Call Record (Code n))} (h : MayStand op call lower)
    (hnew : call.Continues new) : MayStand op new lower := by
  by_cases hcall : call = .requesting
  · subst hcall
    cases hnew
    exact h
  · refine h.change hcall ?_
    rintro rfl
    cases call with
    | constructing r inCallback => cases inCallback <;> simp [Call.Continues] at hnew
    | requesting => exact hcall rfl
    | _ => cases hnew

theorem Continues.ne_client (hnew : call.Continues new) (hclient : ∀ code, call ≠ .client code)
    (code : Code n) : new ≠ .client code := by
  rintro rfl
  cases call with
  | constructing r inCallback => cases inCallback <;> simp [Call.Continues] at hnew
  | client code => exact hclient code rfl
  | _ => cases hnew

theorem Continues.ownCall (hnew : call.Continues new) (hown : OwnCall owner k new) :
    OwnCall owner k call := by
  cases call with
  | constructing r inCallback =>
      cases inCallback with
      | false =>
          obtain ⟨inCallback, rfl⟩ := hnew
          exact ⟨rfl, hown.2⟩
      | true =>
          cases hnew
          exact hown
  | _ =>
      cases hnew
      exact hown

theorem isChild_of_ne (hclient : ∀ code, call ≠ .client code) : isChild k call = false := by
  cases call with
  | client code => exact absurd rfl (hclient code)
  | _ => rfl

theorem isStarter_of_ne (hclient : ∀ code, call ≠ .client code) : isStarter call = false := by
  cases call with
  | client code => exact absurd rfl (hclient code)
  | _ => rfl

theorem isStopRequest_of_ne (hclient : ∀ code, call ≠ .client code) :
    isStopRequest call = false := by
  cases call with
  | client code => exact absurd rfl (hclient code)
  | _ => rfl

theorem not_mayStand_requesting : ¬ MayStand op (.requesting : Call Record (Code n)) none := id

/-- Only `request_stop` stands on a completion function. -/
theorem MayStand.on_child (h : MayStand op call (some (.client (.child k)))) :
    op.children k = .stopping := by
  cases call with
  | requesting => exact h
  | _ => cases h

theorem keeps_setPc {pc : ChildPc} (hpc : op.children k ≠ .stopping)
    (hchildren : op'.children = Function.update op.children k pc) : Keeps op op' := by
  intro j hj
  have hne : j ≠ k := fun heq => hpc (heq ▸ hj)
  rw [hchildren, Function.update_of_ne hne]
  exact hj

theorem keeps_same (hchildren : op'.children = op.children) : Keeps op op' := by
  intro j hj
  rw [hchildren]
  exact hj

end Rule

/-- The child of a step changes its place, the others stay. -/
theorem Progress.moves {t : Thread} {k : Fin n} (h : Progress children t k op op') :
    ∃ pc, op'.children = Function.update op.children k pc ∧ pc.active = true ∧
      (op.children k).active = true ∧ op.children k ≠ .stopping := by
  cases h with
  | emplace hpc | lose hpc | storeError hpc | decrement hpc | resetOnStop hpc | loadTerminal hpc =>
      exact ⟨_, rfl, rfl, by rw [hpc]; rfl, by simp [hpc]⟩
  | win hpc =>
      refine ⟨_, rfl, ?_, by rw [hpc]; rfl, by simp [hpc]⟩
      cases children.outcome k <;> rfl

theorem Return.moves {k : Fin n} (h : Return children k op op') :
    op'.children = Function.update op.children k .done ∧ (op.children k).active = true ∧
      op.children k ≠ .stopping := by
  cases h with
  | decrement hpc | deliver hpc => exact ⟨rfl, by rw [hpc]; rfl, by simp [hpc]⟩

theorem Progress.begun {t : Thread} {k : Fin n} (h : Progress children t k op op') :
    op'.begun = op.begun ∧ op'.started = op.started := by
  cases h <;> exact ⟨rfl, rfl⟩

theorem Return.begun {k : Fin n} (h : Return children k op op') :
    op'.begun = op.begun ∧ op'.started = op.started ∧ op'.onStop = op.onStop := by
  cases h <;> exact ⟨rfl, rfl, rfl⟩

variable [DecidableEq Thread] [Fintype Thread]

/-- What holds of the stacks in every run. -/
structure StackInv (owner : Record → Fin n) (op : Operation Thread n Value Error)
    (calls : Thread → List (Call Record (Code n))) : Prop where
  nested : ∀ t, CallStack.Nested (MayStand op) (calls t)
  child : ∀ k, CallStack.census (isChild k) calls = (op.children k).active.toNat
  own : ∀ t, ∀ call ∈ calls t, ∀ k, OwnCall owner k call → op.children k = .running
  starter : CallStack.census isStarter calls ≤ op.begun.toNat
  unbegun : op.begun = false → Fresh op
  registering : ∀ t, .client (.starter false) ∈ calls t → Fresh op

namespace StackInv

variable {calls calls' : Thread → List (Call Record (Code n))} {t : Thread}

omit [DecidableEq Thread] in
theorem initial : StackInv owner (Operation.initial : Operation Thread n Value Error)
    (fun _ => []) where
  nested _ := trivial
  child k := by simp [Operation.initial, ChildPc.active]
  own t call hcall := by cases hcall
  starter := by simp
  unbegun _ := ⟨rfl, rfl⟩
  registering t hstarter := by cases hstarter

omit [DecidableEq Thread] in
/-- A completion function with something above it is waiting. -/
theorem stopping_of_above (h : StackInv owner op calls) {k : Fin n}
    (habove : .client (.child k) ∈ (calls t).tail) : op.children k = .stopping := by
  obtain ⟨upper, -, hrule⟩ := (h.nested t).above habove
  exact hrule.on_child

omit [DecidableEq Thread] in
/-- A completion function that does not wait is on top of its stack. -/
theorem top_of_child (h : StackInv owner op calls) {k : Fin n}
    (hmem : .client (.child k) ∈ calls t) (hpc : op.children k ≠ .stopping) :
    ∃ rest, calls t = .client (.child k) :: rest := by
  cases hcalls : calls t with
  | nil => rw [hcalls] at hmem; cases hmem
  | cons top rest =>
      rw [hcalls] at hmem
      rcases List.mem_cons.mp hmem with rfl | hbelow
      · exact ⟨rest, rfl⟩
      · exact absurd (h.stopping_of_above (t := t) (by rw [hcalls]; exact hbelow)) hpc

omit [DecidableEq Thread] in
theorem not_starter (h : StackInv owner op calls) (hbegun : op.begun = false) (registered : Bool) :
    .client (.starter registered) ∉ calls t := by
  intro hmem
  have hpos := CallStack.census_pos.mpr ⟨t, _, hmem, (rfl : isStarter _ = true)⟩
  have hold := h.starter
  rw [hbegun, Bool.toNat_false] at hold
  omega

end StackInv

section Steps

variable {s s' : State Thread Record n Value Error} {t : Thread}

/-- The stacks stay nested. Only `resume` ends a wait, and no other stack has a
call that stands on the same completion function. -/
theorem Effect.nested (heffect : Effect children owner s s' t)
    (hop' : OpInv children s.op) (h : StackInv owner s.op s.source.calls) (u : Thread) :
    CallStack.Nested (MayStand s'.op) (s'.source.calls u) := by
  have hkeep : Keeps s.op s'.op → ∀ stack : List (Call Record (Code n)),
      CallStack.Nested (MayStand s.op) stack → CallStack.Nested (MayStand s'.op) stack :=
    fun hkeeps stack hstack => hstack.mono (fun _ => MayStand.keep hkeeps)
      fun _ _ _ => MayStand.keep hkeeps
  have hpush : ∀ {call}, Keeps s.op s'.op →
      s'.source.calls = Function.update s.source.calls t (call :: s.source.calls t) →
      UserTop (s.source.calls t) → call ≠ .requesting →
      CallStack.Nested (MayStand s'.op) (s'.source.calls u) := by
    intro call hkeeps hcalls huser hcall
    rw [hcalls]
    refine CallStack.nested_replace h.nested (fun _ => hkeep hkeeps _) (fun hold => ?_) u
    exact ⟨mayStand_of_user huser hcall, hkeep hkeeps _ hold⟩
  have hpop : Keeps s.op s'.op → ∀ top rest, s.source.calls t = top :: rest →
      s'.source.calls = Function.update s.source.calls t rest →
      CallStack.Nested (MayStand s'.op) (s'.source.calls u) := by
    intro hkeeps top rest hstack hcalls
    rw [hcalls]
    refine CallStack.nested_replace h.nested (fun _ => hkeep hkeeps _) (fun hold => ?_) u
    rw [hstack] at hold
    exact hkeep hkeeps _ hold.2
  have hchange : Keeps s.op s'.op → ∀ top rest new, s.source.calls t = top :: rest →
      s'.source.calls = Function.update s.source.calls t (new ++ rest) →
      (MayStand s'.op top rest.head? → CallStack.Nested (MayStand s'.op) rest →
        CallStack.Nested (MayStand s'.op) (new ++ rest)) →
      CallStack.Nested (MayStand s'.op) (s'.source.calls u) := by
    intro hkeeps top rest new hstack hcalls hnew
    rw [hcalls]
    refine CallStack.nested_replace h.nested (fun _ => hkeep hkeeps _) (fun hold => ?_) u
    rw [hstack] at hold
    exact hnew (hold.1.keep hkeeps) (hkeep hkeeps _ hold.2)
  cases heffect with
  | call r call huser hcall hrunning hop hcalls =>
      refine hpush (keeps_same (by rw [hop])) hcalls huser ?_
      rcases hcall with rfl | rfl <;> simp
  | inside top new rest hstack hclient hnew hop hcalls =>
      exact hchange (keeps_same (by rw [hop])) top rest [new] hstack hcalls
        fun htop hrest => ⟨htop.continue hnew, hrest⟩
  | returns top rest hstack hclient hcaller hop hcalls =>
      exact hpop (keeps_same (by rw [hop])) top rest hstack hcalls
  | resume k below hstack hpc hrequested hop hcalls =>
      have hcensus : CallStack.census (isChild k) s.source.calls ≤ 1 := by
        rw [h.child k]
        exact Bool.toNat_le _
      obtain ⟨hbelow, hothers⟩ := CallStack.not_elsewhere [.requesting] hcensus hstack
        (by simp [isChild])
      have hoff : ∀ stack : List (Call Record (Code n)), (∀ call ∈ stack.tail, isChild k call = false) →
          CallStack.Nested (MayStand s.op) stack → CallStack.Nested (MayStand s'.op) stack := by
        intro stack hnone hstack
        rw [hop]
        exact hstack.mono (fun call hcall => by cases call <;> exact hcall)
          fun _ lower hlower hrule => hrule.keep_off (hnone lower hlower)
      have hold := h.nested t
      rw [hstack] at hold
      rw [hcalls]
      by_cases hu : u = t
      · subst hu
        rw [Function.update_self]
        exact hoff _ hbelow hold.2
      · rw [Function.update_of_ne hu]
        exact hoff _ (fun call hcall => hothers u hu call (List.mem_of_mem_tail hcall)) (h.nested u)
  | start huser hbegun hop hcalls =>
      exact hpush (keeps_same (by rw [hop])) hcalls huser (by simp)
  | register rest onStop hstack honStop hop hcalls =>
      exact hchange (keeps_same (by rw [hop])) _ rest [.client (.starter true)] hstack hcalls
        fun htop hrest => ⟨htop.change (by simp) (by simp), hrest⟩
  | registerLate rest hstack hop hcalls =>
      exact hchange (keeps_same (by rw [hop])) _ rest
        [.client (.stopRequest false), .client (.starter true)] hstack hcalls
        fun htop hrest => ⟨trivial, htop.change (by simp) (by simp), hrest⟩
  | startChild k rest hstack hk hop hcalls =>
      have hpc : s.op.children k = .unstarted := (hop'.unstarted k).mpr (by omega)
      exact hchange (keeps_setPc (k := k) (by simp [hpc]) (by rw [hop]; rfl)) _ rest
        [.client (.childStart k), .client (.starter true)] hstack hcalls
        fun htop hrest => ⟨trivial, htop, hrest⟩
  | leave code rest hstack hcode hop hcalls =>
      exact hpop (keeps_same (by rw [hop])) _ rest hstack hcalls
  | stop huser harmed hop hcalls =>
      exact hpush (keeps_same (by rw [hop])) hcalls huser (by simp)
  | request rest hstack hop hcalls =>
      exact hchange (keeps_same (by rw [hop])) _ rest
        [.requesting, .client (.stopRequest true)] hstack hcalls
        fun htop hrest => ⟨rfl, htop.change (by simp) (by simp), hrest⟩
  | stopped rest hstack hop hcalls =>
      exact hpop (keeps_same (by rw [hop])) _ rest hstack hcalls
  | complete k huser hrunning hown hop hcalls =>
      exact hpush (keeps_setPc (k := k) (by simp [hrunning]) (by rw [hop]; rfl)) hcalls huser (by simp)
  | progress k rest hstack hop hcalls =>
      obtain ⟨pc, hchildren, -, -, hpc⟩ := hop.moves
      rw [hcalls]
      exact hkeep (keeps_setPc hpc hchildren) _ (h.nested u)
  | childRequest k rest hstack hpc hop hcalls =>
      refine hchange (keeps_setPc (k := k) (by simp [hpc]) (by rw [hop]; rfl)) _ rest
        [.requesting, .client (.child k)] hstack hcalls fun htop hrest => ⟨?_, htop, hrest⟩
      change s'.op.children k = .stopping
      rw [hop]
      exact Function.update_self ..
  | childReturns k rest hstack hop hcalls =>
      obtain ⟨hchildren, -, hpc⟩ := hop.moves
      exact hpop (keeps_setPc hpc hchildren) _ rest hstack hcalls

/-- A child's completion function is called when the child completes and left
when it is done. -/
theorem Effect.child (heffect : Effect children owner s s' t) (hop' : OpInv children s.op)
    (h : StackInv owner s.op s.source.calls) (k : Fin n) :
    CallStack.census (isChild k) s'.source.calls = (s'.op.children k).active.toNat := by
  have hold := h.child k
  have hsame : ∀ (old new : List (Call Record (Code n))) {rest}, s.source.calls t = old ++ rest →
      s'.source.calls = Function.update s.source.calls t (new ++ rest) →
      old.countP (isChild k) = new.countP (isChild k) →
      CallStack.census (isChild k) s'.source.calls = (s.op.children k).active.toNat := by
    intro old new rest hstack hcalls hcount
    have hreplace := CallStack.census_replace (isChild k) _ new hstack
    rw [← hcalls] at hreplace
    omega
  have hplace : ∀ j pc, s'.op.children = Function.update s.op.children j pc →
      pc.active = (s.op.children j).active → (s'.op.children k).active = (s.op.children k).active := by
    intro j pc hchildren hactive
    rw [hchildren]
    by_cases hk : k = j
    · subst hk
      rw [Function.update_self, hactive]
    · rw [Function.update_of_ne hk]
  cases heffect with
  | call r call huser hcall hrunning hop hcalls =>
      rw [hop]
      refine hsame [] [call] rfl hcalls ?_
      rcases hcall with rfl | rfl <;> rfl
  | inside top new rest hstack hclient hnew hop hcalls =>
      rw [hop]
      refine hsame [top] [new] hstack hcalls ?_
      rw [List.countP_singleton, List.countP_singleton, isChild_of_ne hclient,
        isChild_of_ne (Continues.ne_client hnew hclient)]
  | returns top rest hstack hclient hcaller hop hcalls =>
      rw [hop]
      refine hsame [top] [] hstack hcalls ?_
      rw [List.countP_singleton, isChild_of_ne hclient]
      rfl
  | resume j below hstack hpc hrequested hop hcalls =>
      rw [hplace j .decrement (by rw [hop]; rfl) (by rw [hpc]; rfl)]
      exact hsame [.requesting] [] hstack hcalls rfl
  | start huser hbegun hop hcalls =>
      rw [hop]
      exact hsame [] [_] rfl hcalls rfl
  | register rest onStop hstack honStop hop hcalls =>
      rw [hop]
      exact hsame [_] [_] hstack hcalls rfl
  | registerLate rest hstack hop hcalls =>
      rw [hop]
      exact hsame [_] [_, _] hstack hcalls rfl
  | startChild j rest hstack hj hop hcalls =>
      have hpc : s.op.children j = .unstarted := (hop'.unstarted j).mpr (by omega)
      rw [hplace j .running (by rw [hop]; rfl) (by rw [hpc]; rfl)]
      exact hsame [_] [_, _] hstack hcalls rfl
  | leave code rest hstack hcode hop hcalls =>
      rw [hop]
      refine hsame [_] [] hstack hcalls ?_
      rcases hcode with rfl | ⟨j, rfl⟩ <;> rfl
  | stop huser harmed hop hcalls =>
      rw [hop]
      exact hsame [] [_] rfl hcalls rfl
  | request rest hstack hop hcalls =>
      rw [hop]
      exact hsame [_] [_, _] hstack hcalls rfl
  | stopped rest hstack hop hcalls =>
      rw [hop]
      exact hsame [_] [] hstack hcalls rfl
  | complete j huser hrunning hown hop hcalls =>
      have hupdate := CallStack.census_update (isChild k) s.source.calls t
        (.client (.child j) :: s.source.calls t)
      rw [← hcalls, hold, List.countP_cons] at hupdate
      rw [hop]
      change _ = (Function.update s.op.children j _ k).active.toNat
      by_cases hk : k = j
      · subst hk
        have hactive : (children.outcome k).firstPc.active = true := by
          cases children.outcome k <;> rfl
        rw [Function.update_self, hactive]
        simp only [hrunning, ChildPc.active, isChild, decide_true, if_true, Bool.toNat_false,
          Bool.toNat_true] at hupdate ⊢
        omega
      · rw [Function.update_of_ne hk]
        simp only [isChild, Ne.symm hk, decide_false, Bool.false_eq_true, if_false] at hupdate
        omega
  | progress j rest hstack hop hcalls =>
      obtain ⟨pc, hchildren, hactive, hold', -⟩ := hop.moves
      rw [hplace _ _ hchildren (hactive.trans hold'.symm), hcalls]
      exact hold
  | childRequest j rest hstack hpc hop hcalls =>
      rw [hplace j .stopping (by rw [hop]; rfl) (by rw [hpc]; rfl)]
      exact hsame [_] [_, _] hstack hcalls rfl
  | childReturns j rest hstack hop hcalls =>
      obtain ⟨hchildren, hactive, -⟩ := hop.moves
      have hupdate := CallStack.census_update (isChild k) s.source.calls t rest
      rw [← hcalls, hold, hstack, List.countP_cons] at hupdate
      rw [hchildren]
      by_cases hk : k = j
      · subst hk
        rw [Function.update_self]
        rw [hactive, Bool.toNat_true] at hupdate
        simp only [isChild, decide_true, if_true] at hupdate
        change _ = 0
        omega
      · rw [Function.update_of_ne hk]
        simp only [isChild, Ne.symm hk, decide_false, Bool.false_eq_true, if_false] at hupdate
        omega

/-- Only running children use the stop source. -/
theorem Effect.own (heffect : Effect children owner s s' t) (hop' : OpInv children s.op)
    (h : StackInv owner s.op s.source.calls) (u : Thread) (call : Call Record (Code n))
    (hcall : call ∈ s'.source.calls u) (k : Fin n) (hown : OwnCall owner k call) :
    s'.op.children k = .running := by
  have hold : ∀ (old new : List (Call Record (Code n))) {rest}, s.source.calls t = old ++ rest →
      s'.source.calls = Function.update s.source.calls t (new ++ rest) →
      (∀ call ∈ new, OwnCall owner k call → s.op.children k = .running) →
      s.op.children k = .running := by
    intro old new rest hstack hcalls hnew
    rw [hcalls] at hcall
    rcases CallStack.mem_replace _ hcall with hmem | hmem
    · exact hnew call hmem hown
    · exact h.own u call (CallStack.mem_beneath _ hstack hmem) k hown
  have hclient : ∀ codes : List (Code n), ∀ call ∈ codes.map Call.client,
      OwnCall owner k call → s.op.children k = .running := by
    intro codes call hcall hown
    obtain ⟨code, -, rfl⟩ := List.mem_map.mp hcall
    exact hown.elim
  have hstay : ∀ j pc, s'.op.children = Function.update s.op.children j pc →
      s.op.children j ≠ .running → s.op.children k = .running → s'.op.children k = .running := by
    intro j pc hchildren hj hk
    have hne : k ≠ j := fun heq => hj (heq ▸ hk)
    rw [hchildren, Function.update_of_ne hne, hk]
  cases heffect with
  | call r call' huser hcall' hrunning hop hcalls =>
      rw [hop]
      refine hold [] [call'] rfl hcalls fun other hother hown => ?_
      rw [List.mem_singleton.mp hother] at hown
      rcases hcall' with rfl | rfl
      · exact hown.2 ▸ hrunning
      · exact hown ▸ hrunning
  | inside top new rest hstack hclient' hnew hop hcalls =>
      rw [hop]
      refine hold [top] [new] hstack hcalls fun other hother hown => ?_
      rw [List.mem_singleton.mp hother] at hown
      exact h.own t top (by simp [hstack]) k (Continues.ownCall hnew hown)
  | returns top rest hstack hclient' hcaller hop hcalls =>
      rw [hop]
      exact hold [top] [] hstack hcalls (by simp)
  | resume j below hstack hpc hrequested hop hcalls =>
      exact hstay _ _ (by rw [hop]; rfl) (by simp [hpc])
        (hold [.requesting] [] hstack hcalls (by simp))
  | start _ _ hop hcalls | stop _ _ hop hcalls =>
      rw [hop]
      exact hold [] _ rfl hcalls (hclient [_])
  | register rest onStop hstack honStop hop hcalls =>
      rw [hop]
      exact hold [_] _ hstack hcalls (hclient [_])
  | registerLate rest hstack hop hcalls =>
      rw [hop]
      exact hold [_] _ hstack hcalls (hclient [_, _])
  | startChild j rest hstack hj hop hcalls =>
      have hpc : s.op.children j = .unstarted := (hop'.unstarted j).mpr (by omega)
      exact hstay j _ (by rw [hop]; rfl) (by simp [hpc])
        (hold [_] _ hstack hcalls (hclient [_, _]))
  | leave code rest hstack hcode hop hcalls =>
      rw [hop]
      exact hold [_] [] hstack hcalls (by simp)
  | request rest hstack hop hcalls =>
      rw [hop]
      refine hold [_] [.requesting, .client (.stopRequest true)] hstack hcalls ?_
      simp [OwnCall]
  | stopped rest hstack hop hcalls =>
      rw [hop]
      exact hold [_] [] hstack hcalls (by simp)
  | complete j huser hrunning hown' hop hcalls =>
      have hk : s.op.children k = .running := hold [] _ rfl hcalls (hclient [_])
      have hne : k ≠ j := by
        rintro rfl
        rw [hcalls] at hcall
        change call ∈ Function.update s.source.calls t ([_] ++ s.source.calls t) u at hcall
        rcases CallStack.mem_replace _ hcall with hmem | hmem
        · rw [List.mem_singleton.mp hmem] at hown
          exact hown
        · rw [Function.update_eq_self] at hmem
          exact hown' u call hmem hown
      rw [hop]
      exact (Function.update_of_ne hne _ _).trans hk
  | progress j rest hstack hop hcalls =>
      rw [hcalls] at hcall
      obtain ⟨pc, hchildren, -, hactive, -⟩ := hop.moves
      refine hstay _ _ hchildren ?_ (h.own u call hcall k hown)
      intro hrunning
      rw [hrunning] at hactive
      cases hactive
  | childRequest j rest hstack hpc hop hcalls =>
      refine hstay _ _ (by rw [hop]; rfl) (by simp [hpc])
        (hold [_] [.requesting, .client (.child j)] hstack hcalls ?_)
      simp [OwnCall]
  | childReturns j rest hstack hop hcalls =>
      obtain ⟨hchildren, hactive, -⟩ := hop.moves
      refine hstay _ _ hchildren ?_ (hold [_] [] hstack hcalls (by simp))
      intro hrunning
      rw [hrunning] at hactive
      cases hactive

/-- The operation is started once. -/
theorem Effect.starter (heffect : Effect children owner s s' t)
    (h : StackInv owner s.op s.source.calls) :
    CallStack.census isStarter s'.source.calls ≤ s'.op.begun.toNat := by
  have hold := h.starter
  have hsame : ∀ (old new : List (Call Record (Code n))) {rest}, s.source.calls t = old ++ rest →
      s'.source.calls = Function.update s.source.calls t (new ++ rest) →
      new.countP isStarter ≤ old.countP isStarter → s'.op.begun = s.op.begun →
      CallStack.census isStarter s'.source.calls ≤ s'.op.begun.toNat := by
    intro old new rest hstack hcalls hcount hbegun
    have hreplace := CallStack.census_replace isStarter _ new hstack
    rw [← hcalls] at hreplace
    rw [hbegun]
    omega
  cases heffect with
  | call r call huser hcall hrunning hop hcalls =>
      refine hsame [] [call] rfl hcalls ?_ (by rw [hop])
      rcases hcall with rfl | rfl <;> exact le_rfl
  | inside top new rest hstack hclient hnew hop hcalls =>
      refine hsame [top] [new] hstack hcalls ?_ (by rw [hop])
      rw [List.countP_singleton, isStarter_of_ne (Continues.ne_client hnew hclient)]
      exact Nat.zero_le _
  | returns top rest hstack hclient hcaller hop hcalls =>
      exact hsame [top] [] hstack hcalls (Nat.zero_le _) (by rw [hop])
  | resume j below hstack hpc hrequested hop hcalls =>
      exact hsame [_] [] hstack hcalls (Nat.zero_le _) (by rw [hop]; rfl)
  | start huser hbegun hop hcalls =>
      have hupdate := CallStack.census_update isStarter s.source.calls t
        (.client (.starter false) :: s.source.calls t)
      rw [← hcalls, List.countP_cons] at hupdate
      rw [hbegun] at hold
      rw [hop]
      change _ ≤ 1
      simp only [isStarter, if_true, Bool.toNat_false] at hupdate hold
      omega
  | register rest onStop hstack honStop hop hcalls =>
      exact hsame [_] [_] hstack hcalls le_rfl (by rw [hop])
  | registerLate rest hstack hop hcalls =>
      exact hsame [_] [_, _] hstack hcalls le_rfl (by rw [hop])
  | startChild j rest hstack hj hop hcalls =>
      exact hsame [_] [_, _] hstack hcalls le_rfl (by rw [hop]; rfl)
  | leave code rest hstack hcode hop hcalls =>
      exact hsame [_] [] hstack hcalls (Nat.zero_le _) (by rw [hop])
  | stop huser harmed hop hcalls =>
      exact hsame [] [_] rfl hcalls le_rfl (by rw [hop])
  | request rest hstack hop hcalls =>
      exact hsame [_] [_, _] hstack hcalls le_rfl (by rw [hop])
  | stopped rest hstack hop hcalls =>
      exact hsame [_] [] hstack hcalls (Nat.zero_le _) (by rw [hop])
  | complete j huser hrunning hown' hop hcalls =>
      exact hsame [] [_] rfl hcalls le_rfl (by rw [hop]; rfl)
  | progress j rest hstack hop hcalls =>
      rw [hcalls, hop.begun.1]
      exact hold
  | childRequest j rest hstack hpc hop hcalls =>
      exact hsame [_] [_, _] hstack hcalls le_rfl (by rw [hop]; rfl)
  | childReturns j rest hstack hop hcalls =>
      exact hsame [_] [] hstack hcalls (Nat.zero_le _) hop.begun.1

omit [Fintype Thread] in
theorem Effect.begun (heffect : Effect children owner s s' t) (hbegun : s'.op.begun = false) :
    s.op.begun = false := by
  cases heffect with
  | start huser hbegun' hop hcalls => exact hbegun'
  | progress j rest hstack hop hcalls => rwa [← hop.begun.1]
  | childReturns j rest hstack hop hcalls => rwa [← hop.begun.1]
  | call _ _ _ _ _ hop | inside _ _ _ _ _ _ hop | returns _ _ _ _ _ hop | resume _ _ _ _ _ hop
  | register _ _ _ _ hop | registerLate _ _ hop | startChild _ _ _ _ hop | leave _ _ _ _ hop
  | stop _ _ hop | request _ _ hop | stopped _ _ hop | complete _ _ _ _ hop
  | childRequest _ _ _ _ hop =>
      rw [hop] at hbegun
      exact hbegun

omit [Fintype Thread] in
/-- Only `start` itself registers the callback and starts children. -/
theorem Effect.fresh (heffect : Effect children owner s s' t) (hop' : OpInv children s.op)
    (hfresh : Fresh s.op)
    (htop : ∀ registered rest, s.source.calls t ≠ .client (.starter registered) :: rest) :
    Fresh s'.op := by
  obtain ⟨hstarted, hempty⟩ := hfresh
  have hinactive : ∀ k, (s.op.children k).active = false := by
    intro k
    rw [(hop'.unstarted k).mpr (by omega)]
    rfl
  cases heffect with
  | register rest onStop hstack => exact absurd hstack (htop _ _)
  | registerLate rest hstack => exact absurd hstack (htop _ _)
  | startChild k rest hstack => exact absurd hstack (htop _ _)
  | stop huser harmed => exact absurd (hempty.symm.trans harmed) (by simp)
  | stopped rest hstack hop =>
      rw [hop]
      refine ⟨hstarted, ?_⟩
      change (if s.op.onStop = .running t then _ else s.op.onStop) = _
      rw [hempty, if_neg (by simp)]
  | progress k rest hstack hop =>
      obtain ⟨-, -, -, hactive, -⟩ := hop.moves
      rw [hinactive k] at hactive
      cases hactive
  | childReturns k rest hstack hop =>
      obtain ⟨-, hactive, -⟩ := hop.moves
      rw [hinactive k] at hactive
      cases hactive
  | call _ _ _ _ _ hop | inside _ _ _ _ _ _ hop | returns _ _ _ _ _ hop | resume _ _ _ _ _ hop
  | start _ _ hop | leave _ _ _ _ hop | request _ _ hop | complete _ _ _ _ hop
  | childRequest _ _ _ _ hop =>
      rw [hop]
      exact ⟨hstarted, hempty⟩

theorem Effect.unbegun (heffect : Effect children owner s s' t) (hop' : OpInv children s.op)
    (h : StackInv owner s.op s.source.calls) (hbegun : s'.op.begun = false) : Fresh s'.op := by
  have hbefore := heffect.begun hbegun
  refine heffect.fresh hop' (h.unbegun hbefore) fun registered rest hstack => ?_
  exact h.not_starter (t := t) hbefore registered (by simp [hstack])

/-- A call of `start` that is registering the callback is new or was there, not
on the stack of a step that `start` makes. -/
theorem Effect.registering_origin (heffect : Effect children owner s s' t)
    (h : StackInv owner s.op s.source.calls) {u : Thread}
    (hmem : .client (.starter false) ∈ s'.source.calls u) :
    s.op.begun = false ∨ .client (.starter false) ∈ s.source.calls u ∧
      ∀ registered rest, s.source.calls t ≠ .client (.starter registered) :: rest := by
  have huser : UserTop (s.source.calls t) →
      ∀ registered rest, s.source.calls t ≠ .client (.starter registered) :: rest := by
    intro huser registered rest hstack
    have htop := huser (.client (.starter registered)) (by rw [hstack]; rfl)
    cases htop
  have hold : ∀ (old new : List (Call Record (Code n))) {rest}, s.source.calls t = old ++ rest →
      s'.source.calls = Function.update s.source.calls t (new ++ rest) →
      .client (.starter false) ∉ new → .client (.starter false) ∈ s.source.calls u := by
    intro old new rest hstack hcalls hnew
    rw [hcalls] at hmem
    rcases CallStack.mem_replace _ hmem with hmem | hmem
    · exact absurd hmem hnew
    · exact CallStack.mem_beneath _ hstack hmem
  have hstarter : ∀ {registered} (new) {rest}, s.source.calls t = .client (.starter registered) :: rest →
      s'.source.calls = Function.update s.source.calls t (new ++ rest) →
      .client (.starter false) ∉ new → s.op.begun = false := by
    intro registered new rest hstack hcalls hnew
    obtain ⟨hbelow, hothers⟩ := CallStack.not_elsewhere (p := isStarter) []
      (h.starter.trans (Bool.toNat_le _)) hstack rfl
    have hnone : .client (.starter false) ∉ s'.source.calls u := by
      intro hmem
      rw [hcalls] at hmem
      rcases CallStack.mem_replace _ hmem with hmem | hmem
      · exact hnew hmem
      · by_cases hu : u = t
        · subst hu
          rw [Function.update_self] at hmem
          cases hbelow _ hmem
        · rw [Function.update_of_ne hu] at hmem
          cases hothers u hu _ hmem
    exact absurd hmem hnone
  have htop : ∀ {call rest}, s.source.calls t = call :: rest → isStarter call = false →
      ∀ registered below, s.source.calls t ≠ .client (.starter registered) :: below := by
    intro call rest hstack hcall registered below heq
    rw [hstack] at heq
    cases heq
    cases hcall
  cases heffect with
  | call r call huser' hcall hrunning hop hcalls =>
      refine Or.inr ⟨hold [] [call] rfl hcalls ?_, huser huser'⟩
      rcases hcall with rfl | rfl <;> simp
  | inside top new rest hstack hclient hnew hop hcalls =>
      refine Or.inr ⟨hold [top] [new] hstack hcalls ?_, htop hstack ?_⟩
      · simpa using Ne.symm (Continues.ne_client hnew hclient (.starter false))
      · exact isStarter_of_ne hclient
  | returns top rest hstack hclient hcaller hop hcalls =>
      exact Or.inr ⟨hold [top] [] hstack hcalls (by simp),
        htop hstack (isStarter_of_ne hclient)⟩
  | resume j below hstack hpc hrequested hop hcalls =>
      exact Or.inr ⟨hold [_] [] hstack hcalls (by simp), htop hstack rfl⟩
  | start huser' hbegun hop hcalls => exact Or.inl hbegun
  | register rest onStop hstack honStop hop hcalls =>
      exact Or.inl (hstarter [_] hstack hcalls (by simp))
  | registerLate rest hstack hop hcalls =>
      exact Or.inl (hstarter [_, _] hstack hcalls (by simp))
  | startChild j rest hstack hj hop hcalls =>
      exact Or.inl (hstarter [_, _] hstack hcalls (by simp))
  | leave code rest hstack hcode hop hcalls =>
      rcases hcode with rfl | ⟨j, rfl⟩
      · exact Or.inl (hstarter [] hstack hcalls (by simp))
      · exact Or.inr ⟨hold [_] [] hstack hcalls (by simp), htop hstack rfl⟩
  | stop huser' harmed hop hcalls =>
      exact Or.inr ⟨hold [] [_] rfl hcalls (by simp), huser huser'⟩
  | request rest hstack hop hcalls =>
      exact Or.inr ⟨hold [_] [_, _] hstack hcalls (by simp), htop hstack rfl⟩
  | stopped rest hstack hop hcalls =>
      exact Or.inr ⟨hold [_] [] hstack hcalls (by simp), htop hstack rfl⟩
  | complete j huser' hrunning hown' hop hcalls =>
      exact Or.inr ⟨hold [] [_] rfl hcalls (by simp), huser huser'⟩
  | progress j rest hstack hop hcalls =>
      rw [hcalls] at hmem
      exact Or.inr ⟨hmem, htop hstack rfl⟩
  | childRequest j rest hstack hpc hop hcalls =>
      exact Or.inr ⟨hold [_] [_, _] hstack hcalls (by simp), htop hstack rfl⟩
  | childReturns j rest hstack hop hcalls =>
      exact Or.inr ⟨hold [_] [] hstack hcalls (by simp), htop hstack rfl⟩

/-- The stop callback is registered before any child is started. -/
theorem Effect.registering (heffect : Effect children owner s s' t)
    (hop' : OpInv children s.op) (h : StackInv owner s.op s.source.calls) (u : Thread)
    (hmem : .client (.starter false) ∈ s'.source.calls u) : Fresh s'.op := by
  rcases heffect.registering_origin h hmem with hbegun | ⟨hold, htop⟩
  · refine heffect.fresh hop' (h.unbegun hbegun) fun registered rest hstack => ?_
    exact h.not_starter (t := t) hbegun registered (by simp [hstack])
  · exact heffect.fresh hop' (h.registering u hold) htop

theorem Effect.stackInv (heffect : Effect children owner s s' t) (hop' : OpInv children s.op)
    (h : StackInv owner s.op s.source.calls) : StackInv owner s'.op s'.source.calls where
  nested := heffect.nested hop' h
  child := heffect.child hop' h
  own := heffect.own hop' h
  starter := heffect.starter h
  unbegun := heffect.unbegun hop' h
  registering := heffect.registering hop' h

end Steps

end Bexec.WhenAll
