import Bexec.SpawnFuture.Step

/-!
# What a step of `spawn_future` can do

The effect of a step on the state of the future, on the places of its parties
and on the calls in progress. Every invariant is derived from this list.
-/

namespace Bexec.SpawnFuture

open Foundation StopToken

variable {Thread Record Value Error : Type}

/-- The thread that moves. -/
def Action.thread : Action Thread Record Value Error → Thread
  | .spawn t _ | .returnSpawn t | .complete t _ _ | .drop t | .start t | .register t _ => t
  | .stop t | .run t _ | .ret t | .returnHandler t | .construct t _ | .destroy t _ => t

/-- A call with user code in control when it is innermost. -/
def userCall (op : Operation Thread Value Error) : Call Record Code → Bool
  | .constructing _ inCallback => inCallback
  | .destroying _ => false
  | .requesting => true
  | .client code => code.isUser op

def UserTop (op : Operation Thread Value Error) (calls : List (Call Record Code)) : Prop :=
  ∀ call ∈ calls.head?, userCall op call = true

/-- A call of a stop callback object of the child that still uses the source. -/
def OwnCall : Call Record Code → Prop
  | .constructing _ inCallback => inCallback = false
  | .destroying _ => True
  | _ => False

/-- A party enters the code of the state from user code. -/
inductive Enter (t : Thread) (op : Operation Thread Value Error) :
    Party → Operation Thread Value Error → Prop
  | complete (hpc : op.pc .child = .running) (completion : Completion Value Error)
      (thrown : Option Error) :
      Enter t op .child ({ op with sent := some (completion, thrown) }.setPc .child .store)
  | drop (hheld : op.future = .held) :
      Enter t op .owner ({ op with future := .taken }.setPc .owner .lock)
  | start (hheld : op.future = .held) :
      Enter t op .owner ({ op with future := .taken, begun := true }.setPc .owner .register)
  | stop (harmed : op.onStop = .armed) :
      Enter t op .cancel ({ op with onStop := .running t }.setPc .cancel .lock)

/-- An access of a party that keeps its frame. -/
inductive Progress (t : Thread) (op : Operation Thread Value Error) (p : Party) :
    Operation Thread Value Error → Prop
  | store (hpc : op.pc p = .store) {completion : Completion Value Error} {thrown : Option Error}
      (hsent : op.sent = some (completion, thrown)) :
      Progress t op p
        ({ op with state := { op.state with result := some (completion.store thrown) } }.setPc p
          .lock)
  | lock (hpc : op.pc p = .lock) : Progress t op p (op.exit p (op.locked p))
  | finish (hpc : op.pc p = .finish) : Progress t op p (op.exit p op.state.finishCancellation)
  | register (hp : p = .owner) (hpc : op.pc p = .register) :
      Progress t op p ({ op with onStop := .armed }.setPc p .lock)
  | skip (hpc : op.pc p = .reset true) (hresult : op.state.result = none) :
      Progress t op p (op.setPc p .destroy)
  | reset {stored : Bool} (hpc : op.pc p = .reset stored)
      (hresult : stored = true → op.state.result ≠ none)
      (hwait : ∀ u, op.onStop = .running u → u = t) :
      Progress t op p ({ op with onStop := .reset }.setPc p (.signal stored))
  | signal {stored : Bool} (hpc : op.pc p = .signal stored) {completion : Completion Value Error}
      (hsignal : op.state.result = some completion ∧ stored = true ∨
        completion = .stopped ∧ stored = false) :
      Progress t op p
        ({ op with signals := completion :: op.signals }.setPc p (.handler stored))
  | handled {stored : Bool} (hpc : op.pc p = .handler stored) :
      Progress t op p (op.setPc p (if stored then .destroy else .returning))
  | destroy (hpc : op.pc p = .destroy) :
      Progress t op p
        ({ op with
          state := { op.state with association := false }
          destroyed := op.destroyed + 1 }.setPc p (.release op.state.association))
  | release {engaged : Bool} (hpc : op.pc p = .release engaged) :
      Progress t op p ({ op with released := op.released + engaged.toNat }.setPc p .returning)

/-- The fields when a party returns: with `try_cancel` the callback is over. -/
def Operation.leave [DecidableEq Thread] (op : Operation Thread Value Error) (t : Thread)
    (p : Party) : Operation Thread Value Error :=
  { op with
    onStop := if p = Party.cancel ∧ op.onStop = OnStop.running t then .finished
      else op.onStop }.setPc p .done

variable [DecidableEq Thread]

/-- A step of thread `t`. -/
inductive Effect (s s' : State Thread Record Value Error) (t : Thread) : Prop
  /-- The child calls its stop callback object. -/
  | call (call : Call Record Code) (huser : UserTop s.op (s.source.calls t))
      (hcall : ∃ r, call = .constructing r false ∨ call = .destroying r)
      (hrunning : s.op.pc .child = .running) (hop : s'.op = s.op)
      (hcalls : s'.source.calls = Function.update s.source.calls t (call :: s.source.calls t))
  /-- An access inside such a call or inside `request_stop`. -/
  | inside (top new : Call Record Code) (rest : List (Call Record Code))
      (hstack : s.source.calls t = top :: rest) (hclient : ∀ c, top ≠ .client c)
      (hnew : top.Continues new) (hop : s'.op = s.op)
      (hcalls : s'.source.calls = Function.update s.source.calls t (new :: rest))
  | returns (top : Call Record Code) (rest : List (Call Record Code))
      (hstack : s.source.calls t = top :: rest) (hclient : ∀ c, top ≠ .client c)
      (hcaller : top = .requesting → ∀ p below, rest = .client (.party p) :: below →
        s.op.pc p ≠ .requesting)
      (hop : s'.op = s.op) (hcalls : s'.source.calls = Function.update s.source.calls t rest)
  /-- `request_stop` returns to the party that called it. -/
  | resume (p : Party) (below : List (Call Record Code))
      (hstack : s.source.calls t = .requesting :: .client (.party p) :: below)
      (hpc : s.op.pc p = .requesting) (hop : s'.op = s.op.setPc p p.requested)
      (hcalls : s'.source.calls =
        Function.update s.source.calls t (.client (.party p) :: below))
  | spawn (huser : UserTop s.op (s.source.calls t)) (hfuture : s.op.future = .unspawned)
      (hop : s'.op = { s.op with
        state := { s.op.state with association := true }
        future := .constructing
        accepted := true }.setPc .child .running)
      (hcalls : s'.source.calls =
        Function.update s.source.calls t (.client .spawner :: s.source.calls t))
  | reject (huser : UserTop s.op (s.source.calls t)) (hfuture : s.op.future = .unspawned)
      (hop : s'.op = { s.op with
        future := .constructing
        sent := some (.stopped, none) }.setPc .child .store)
      (hcalls : s'.source.calls = Function.update s.source.calls t
        (.client (.party .child) :: .client .spawner :: s.source.calls t))
  | hold (rest : List (Call Record Code)) (hstack : s.source.calls t = .client .spawner :: rest)
      (hop : s'.op = { s.op with future := .held })
      (hcalls : s'.source.calls = Function.update s.source.calls t rest)
  | enter (p : Party) (huser : UserTop s.op (s.source.calls t)) (hop : Enter t s.op p s'.op)
      (hown : p = .child → ∀ u, ∀ call ∈ s.source.calls u, ¬ OwnCall call)
      (hcalls : s'.source.calls =
        Function.update s.source.calls t (.client (.party p) :: s.source.calls t))
  /-- The receiver's stop token runs the callback at once. -/
  | registerLate (rest : List (Call Record Code))
      (hstack : s.source.calls t = .client (.party .owner) :: rest)
      (hpc : s.op.pc .owner = .register)
      (hop : s'.op =
        ({ s.op with onStop := .running t }.setPc .owner .lock).setPc .cancel .lock)
      (hcalls : s'.source.calls = Function.update s.source.calls t
        (.client (.party .cancel) :: .client (.party .owner) :: rest))
  | progress (p : Party) (rest : List (Call Record Code))
      (hstack : s.source.calls t = .client (.party p) :: rest)
      (hop : Progress t s.op p s'.op) (hcalls : s'.source.calls = s.source.calls)
  | request (p : Party) (rest : List (Call Record Code))
      (hstack : s.source.calls t = .client (.party p) :: rest)
      (hpc : s.op.pc p = .request) (hop : s'.op = s.op.setPc p .requesting)
      (hcalls : s'.source.calls = Function.update s.source.calls t
        (.requesting :: .client (.party p) :: rest))
  | leave (p : Party) (rest : List (Call Record Code))
      (hstack : s.source.calls t = .client (.party p) :: rest)
      (hpc : s.op.pc p = .returning) (hop : s'.op = s.op.leave t p)
      (hcalls : s'.source.calls = Function.update s.source.calls t rest)

section Via

variable {s : State Thread Record Value Error} {t : Thread}

omit [DecidableEq Thread] in
theorem userTop_of_atUser [DecidableEq Record] (h : s.atUser t = true) :
    UserTop s.op (s.source.calls t) := by
  unfold State.atUser at h
  intro call hcall
  cases hstack : s.source.stack t with
  | nil => simp [StopToken.State.calls, hstack] at hcall
  | cons frame rest =>
      rw [calls_cons hstack] at hcall
      rw [hstack] at h
      cases hcall
      cases frame with
      | constructor r pc => cases pc <;> first | rfl | cases h
      | destructor r pc => cases h
      | requestStop pc => rfl
      | client code => exact h

omit [DecidableEq Thread] in
theorem not_ownCall [Fintype Thread] (h : CallStack.census ownCall s.source.stack = 0) (u : Thread)
    (call : Call Record Code) (hcall : call ∈ s.source.calls u) : ¬ OwnCall call := by
  obtain ⟨frame, hframe, rfl⟩ := List.mem_map.mp hcall
  have hnot := CallStack.census_eq_zero.mp h u frame hframe
  intro hown
  cases frame with
  | constructor r pc => cases pc <;> simp_all [ownCall, OwnCall, Frame.call]
  | destructor r pc => simp_all [ownCall]
  | requestStop pc => exact hown
  | client c => exact hown

end Via

section Steps

variable [DecidableEq Record] {s s' : State Thread Record Value Error} {t : Thread}

omit [DecidableEq Record] in
theorem resetOnStop_effect {p : Party} {stored : Bool} (hpc : s.op.pc p = .reset stored)
    (hresult : stored = true → s.op.state.result ≠ none)
    (hstep : s.resetOnStop t p stored = some s') :
    Progress t s.op p s'.op ∧ s'.source = s.source := by
  unfold State.resetOnStop at hstep
  split at hstep
  next u honStop =>
    simp only [Option.ite_none_right_eq_some, Option.some.injEq] at hstep
    obtain ⟨rfl, rfl⟩ := hstep
    refine ⟨.reset hpc hresult fun v hv => ?_, rfl⟩
    rw [honStop] at hv
    exact (OnStop.running.inj hv).symm
  next hother =>
    cases hstep
    exact ⟨.reset hpc hresult fun v hv => absurd hv (hother v), rfl⟩

/-- An access of a party. -/
theorem partyStep_effect {p : Party} {rest : List (StopToken.Frame Thread Record Code)}
    (hstack : s.source.stack t = .client (.party p) :: rest)
    (hstep : s.partyStep t p (s.op.pc p) = some s') : Effect s s' t := by
  have hcalls := calls_cons hstack
  cases hpc : s.op.pc p with
  | idle | running | register | requesting | handler stored | done =>
      rw [hpc] at hstep
      cases hstep
  | store =>
      rw [hpc] at hstep
      simp only [State.partyStep] at hstep
      split at hstep
      next completion thrown hsent =>
        cases hstep
        exact .progress p _ hcalls (.store hpc hsent) rfl
      next => cases hstep
  | lock =>
      rw [hpc] at hstep
      cases hstep
      exact .progress p _ hcalls (.lock hpc) rfl
  | request =>
      rw [hpc] at hstep
      obtain ⟨source, hrequest, rfl⟩ := Hosted.via_one hstep
      exact .request p _ hcalls hpc rfl (request_calls hcalls hrequest)
  | finish =>
      rw [hpc] at hstep
      cases hstep
      exact .progress p _ hcalls (.finish hpc) rfl
  | reset stored =>
      rw [hpc] at hstep
      cases stored with
      | false =>
          obtain ⟨hop, hsource⟩ := resetOnStop_effect hpc (by simp) hstep
          exact .progress p _ hcalls hop (by rw [hsource])
      | true =>
          simp only [State.partyStep] at hstep
          split at hstep
          next hresult =>
            cases hstep
            exact .progress p _ hcalls (.skip hpc hresult) rfl
          next completion hresult =>
            obtain ⟨hop, hsource⟩ := resetOnStop_effect hpc (by simp [hresult]) hstep
            exact .progress p _ hcalls hop (by rw [hsource])
  | signal stored =>
      rw [hpc] at hstep
      cases stored with
      | false =>
          cases hstep
          exact .progress p _ hcalls (.signal hpc (.inr ⟨rfl, rfl⟩)) rfl
      | true =>
          simp only [State.partyStep] at hstep
          split at hstep
          next => cases hstep
          next completion hresult =>
            cases hstep
            exact .progress p _ hcalls (.signal hpc (.inl ⟨hresult, rfl⟩)) rfl
  | destroy =>
      rw [hpc] at hstep
      cases hstep
      exact .progress p _ hcalls (.destroy hpc) rfl
  | release engaged =>
      rw [hpc] at hstep
      cases hstep
      exact .progress p _ hcalls (.release hpc) rfl
  | returning =>
      rw [hpc] at hstep
      obtain ⟨source, hleave, rfl⟩ := Hosted.via_one hstep
      exact .leave p _ hcalls hpc rfl (leave_calls hstack hleave)

/-- An access inside `request_stop`, which may return to its caller. -/
theorem request_effect {pc : RequestPc Record} {weak : Bool}
    {rest : List (StopToken.Frame Thread Record Code)}
    {source : StopToken.State Thread Record Code}
    (hstack : s.source.stack t = .requestStop pc :: rest)
    (hrun : StopToken.step s.source (.run t weak) = some source) :
    Effect s
      (if (source.stack t).length = rest.length then State.resume ⟨s.op, source⟩ t
        else ⟨s.op, source⟩) t := by
  have hlength : (source.stack t).length = (source.calls t).length := by
    simp [StopToken.State.calls]
  rcases run_calls hstack hrun with ⟨new, rfl, hcalls⟩ | hcalls
  · have hnot : (source.stack t).length ≠ rest.length := by
      rw [hlength, hcalls]
      simp
    rw [if_neg hnot]
    exact .inside _ _ _ (calls_cons hstack) (by rintro _ ⟨⟩) rfl rfl hcalls
  · have hreturned : (source.stack t).length = rest.length := by
      rw [hlength, hcalls]
      simp
    have hbelow : source.calls t = rest.map Frame.call := by
      rw [hcalls, Function.update_self]
    rw [if_pos hreturned]
    unfold State.resume
    split
    next p below hcaller =>
      have hcallerCalls := (calls_cons hcaller).symm.trans hbelow
      split
      next hpc =>
        refine .resume p (below.map Frame.call) ?_ hpc rfl (hcallerCalls ▸ hcalls)
        rw [calls_cons hstack, ← hcallerCalls]
        rfl
      next hpc =>
        refine .returns _ _ (calls_cons hstack) (by rintro _ ⟨⟩) ?_ rfl hcalls
        intro _ q below' hq
        rw [← hcallerCalls] at hq
        cases hq
        exact hpc
    next hnone =>
      refine .returns _ _ (calls_cons hstack) (by rintro _ ⟨⟩) ?_ rfl hcalls
      intro _ p below hp
      cases hsource : source.stack t with
      | nil =>
          rw [StopToken.State.calls, hsource, hp] at hbelow
          cases hbelow
      | cons frame frames =>
          rw [calls_cons hsource, hp] at hbelow
          cases frame with
          | client code =>
              cases hbelow
              exact absurd hsource (hnone p frames)
          | constructor r pc => cases pc <;> cases hbelow
          | _ => cases hbelow

variable [Fintype Thread]

theorem step_effect {a : Action Thread Record Value Error} (hstep : step s a = some s') :
    Effect s s' a.thread := by
  cases a with
  | spawn t accepted =>
      simp only [step, Option.ite_none_right_eq_some] at hstep
      obtain ⟨⟨huser, hfuture⟩, hvia⟩ := hstep
      split at hvia
      next =>
        obtain ⟨source, henter, rfl⟩ := Hosted.via_one hvia
        exact .spawn (userTop_of_atUser huser) hfuture rfl (enter_calls rfl henter)
      next =>
        obtain ⟨middle, henter, hrest⟩ := Hosted.via_cons hvia
        obtain ⟨source, hchild, rfl⟩ := Hosted.via_one hrest
        have hmiddle := enter_calls rfl henter
        have hpush := enter_calls (congrFun hmiddle t) hchild
        refine .reject (userTop_of_atUser huser) hfuture rfl ?_
        simpa [hmiddle, Hosted.setOp, Action.thread] using hpush
  | returnSpawn t =>
      simp only [step] at hstep
      split at hstep
      next rest hstack =>
        obtain ⟨source, hleave, rfl⟩ := Hosted.via_one hstep
        exact .hold _ (calls_cons hstack) rfl (leave_calls hstack hleave)
      next => cases hstep
  | complete t completion thrown =>
      simp only [step, Option.ite_none_right_eq_some] at hstep
      obtain ⟨⟨huser, hrunning, hown⟩, hvia⟩ := hstep
      obtain ⟨source, henter, rfl⟩ := Hosted.via_one hvia
      exact .enter .child (userTop_of_atUser huser) (.complete hrunning _ _)
        (fun _ => not_ownCall hown) (enter_calls rfl henter)
  | drop t =>
      simp only [step, Option.ite_none_right_eq_some] at hstep
      obtain ⟨⟨huser, hheld⟩, hvia⟩ := hstep
      obtain ⟨source, henter, rfl⟩ := Hosted.via_one hvia
      exact .enter .owner (userTop_of_atUser huser) (.drop hheld) (by simp) (enter_calls rfl henter)
  | start t =>
      simp only [step, Option.ite_none_right_eq_some] at hstep
      obtain ⟨⟨huser, hheld⟩, hvia⟩ := hstep
      obtain ⟨source, henter, rfl⟩ := Hosted.via_one hvia
      exact .enter .owner (userTop_of_atUser huser) (.start hheld) (by simp) (enter_calls rfl henter)
  | stop t =>
      simp only [step, Option.ite_none_right_eq_some] at hstep
      obtain ⟨⟨huser, harmed⟩, hvia⟩ := hstep
      obtain ⟨source, henter, rfl⟩ := Hosted.via_one hvia
      exact .enter .cancel (userTop_of_atUser huser) (.stop harmed) (by simp)
        (enter_calls rfl henter)
  | register t requested =>
      simp only [step] at hstep
      split at hstep
      next rest hstack =>
        simp only [Option.ite_none_right_eq_some] at hstep
        obtain ⟨hpc, hstep⟩ := hstep
        split at hstep
        next =>
          obtain ⟨source, henter, rfl⟩ := Hosted.via_one hstep
          exact .registerLate _ (calls_cons hstack) hpc rfl
            (enter_calls (calls_cons hstack) henter)
        next =>
          cases hstep
          exact .progress .owner _ (calls_cons hstack) (.register rfl hpc) rfl
      next => cases hstep
  | run t weak =>
      simp only [step] at hstep
      split at hstep
      · cases hstep
      · cases hstep
      next p rest hstack => exact partyStep_effect hstack hstep
      next pc rest hstack =>
        obtain ⟨middle, hvia, rfl⟩ := Option.map_eq_some_iff.mp hstep
        obtain ⟨source, hrun, rfl⟩ := Hosted.via_one hvia
        exact request_effect hstack hrun
      next frame rest hspawner hparty hrequest hstack =>
        obtain ⟨source, hrun, rfl⟩ := Hosted.via_one hstep
        have hnotClient : ∀ c, frame.call ≠ .client c := by
          intro c hc
          cases frame with
          | client code =>
              cases code with
              | spawner => exact hspawner rfl
              | party p => exact hparty p rfl
          | constructor r pc => cases pc <;> cases hc
          | _ => cases hc
        have hnotRequest : frame.call ≠ .requesting := by
          intro hc
          cases frame with
          | requestStop pc => exact hrequest pc rfl
          | constructor r pc => cases pc <;> cases hc
          | _ => cases hc
        rcases run_calls hstack hrun with ⟨new, hnew, hcalls⟩ | hcalls
        · exact .inside _ new _ (calls_cons hstack) hnotClient hnew rfl hcalls
        · exact .returns _ _ (calls_cons hstack) hnotClient (absurd · hnotRequest) rfl hcalls
  | ret t =>
      obtain ⟨source, hret, rfl⟩ := Hosted.via_one hstep
      rcases ret_calls hret with ⟨r, below, hstack, hcalls⟩ | ⟨below, hstack, hcalls⟩
      · exact .returns _ below hstack (by simp) (by simp) rfl hcalls
      · exact .inside _ _ below hstack (by simp) rfl rfl hcalls
  | returnHandler t =>
      simp only [step] at hstep
      split at hstep
      next p rest hstack =>
        split at hstep
        next stored hpc =>
          cases hstep
          exact .progress p _ (calls_cons hstack) (.handled hpc) rfl
        next => cases hstep
      next => cases hstep
  | construct t r =>
      simp only [step, Option.ite_none_right_eq_some] at hstep
      obtain ⟨⟨huser, hrunning⟩, hvia⟩ := hstep
      obtain ⟨source, hconstruct, rfl⟩ := Hosted.via_one hvia
      exact .call _ (userTop_of_atUser huser) ⟨r, Or.inl rfl⟩ hrunning rfl
        (construct_calls rfl hconstruct)
  | destroy t r =>
      simp only [step, Option.ite_none_right_eq_some] at hstep
      obtain ⟨⟨huser, hrunning⟩, hvia⟩ := hstep
      obtain ⟨source, hdestroy, rfl⟩ := Hosted.via_one hvia
      exact .call _ (userTop_of_atUser huser) ⟨r, Or.inr rfl⟩ hrunning rfl
        (destroy_calls rfl hdestroy)

end Steps

end Bexec.SpawnFuture
