import Bexec.WhenAll.Step

/-!
# What a step of `when_all` can do

The effect of a step on the operation's fields and on the calls in progress.
Every invariant is derived from this list.
-/

namespace Bexec.WhenAll

open Foundation StopToken

variable {Thread Record Value Error : Type} {n : Nat}

/-- The thread that moves. -/
def Action.thread : Action Thread Record n → Thread
  | .start t | .register t _ | .run t _ | .ret t | .returnStart t => t
  | .complete t _ | .construct t _ | .destroy t _ | .stop t => t

/-- A call with user code in control when it is innermost. -/
def userCall : Call Record (Code n) → Bool
  | .constructing _ inCallback => inCallback
  | .destroying _ => false
  | .requesting => true
  | .client (.childStart _) => true
  | .client _ => false

def UserTop (calls : List (Call Record (Code n))) : Prop :=
  ∀ call ∈ calls.head?, userCall call = true

/-- A call of a child's stop callback object that still uses the source. -/
def OwnCall (owner : Record → Fin n) (k : Fin n) : Call Record (Code n) → Prop
  | .constructing r inCallback => inCallback = false ∧ owner r = k
  | .destroying r => owner r = k
  | _ => False

/-- An access of a completion function that keeps its frame. -/
inductive Progress (children : Children n Value Error) (t : Thread) (k : Fin n)
    (op : Operation Thread n Value Error) : Operation Thread n Value Error → Prop
  | emplace (hpc : op.children k = .emplace) {values : List Value}
      (houtcome : children.outcome k = .value values) :
      Progress children t k op
        ({ op with values := Function.update op.values k (some values) }.setPc k .decrement)
  | win (hpc : op.children k = .exchange) (hfree : op.terminal = .none) :
      Progress children t k op
        (({ op with terminal := (children.outcome k).kind }.record (.won k)).setPc k
          (children.outcome k).wonPc)
  | lose (hpc : op.children k = .exchange) (htaken : op.terminal ≠ .none) :
      Progress children t k op (op.setPc k .decrement)
  | storeError (hpc : op.children k = .storeError) {error : Error}
      (houtcome : children.outcome k = .error error) :
      Progress children t k op ({ op with error := some error }.setPc k .requestStop)
  | decrement (hpc : op.children k = .decrement) (hlast : op.remaining = 1) :
      Progress children t k op
        ((({ op with remaining := 0 }.record (.decremented k)).record (.finishing k)).setPc k
          .resetOnStop)
  | resetOnStop (hpc : op.children k = .resetOnStop) (hwait : ∀ u, op.onStop = .running u → u = t)
      {onStop : OnStop Thread} (honStop : onStop = .empty ∧ op.onStop = .empty ∨ onStop = .reset) :
      Progress children t k op ({ op with onStop := onStop }.setPc k .loadTerminal)
  | loadTerminal (hpc : op.children k = .loadTerminal) :
      Progress children t k op (op.setPc k (.deliver op.terminal))

/-- An access of a completion function that returns from it. -/
inductive Return (children : Children n Value Error) (k : Fin n)
    (op : Operation Thread n Value Error) : Operation Thread n Value Error → Prop
  | decrement (hpc : op.children k = .decrement) (hlast : op.remaining ≠ 1) :
      Return children k op
        (({ op with remaining := op.remaining - 1 }.record (.decremented k)).setPc k .done)
  | deliver {final : TerminalKind} (hpc : op.children k = .deliver final)
      {signal : Signal Value Error} (hresult : op.result children final = some signal) :
      Return children k op ((op.record (.delivered signal)).setPc k .done)

variable [DecidableEq Thread]

/-- A step of thread `t`. -/
inductive Effect (children : Children n Value Error) (owner : Record → Fin n)
    (s s' : State Thread Record n Value Error) (t : Thread) : Prop
  /-- A child calls its stop callback object. -/
  | call (r : Record) (call : Call Record (Code n))
      (huser : UserTop (s.source.calls t))
      (hcall : call = .constructing r false ∨ call = .destroying r)
      (hrunning : s.op.children (owner r) = .running) (hop : s'.op = s.op)
      (hcalls : s'.source.calls = Function.update s.source.calls t (call :: s.source.calls t))
  /-- An access inside such a call or inside `request_stop`. -/
  | inside (top new : Call Record (Code n)) (rest : List (Call Record (Code n)))
      (hstack : s.source.calls t = top :: rest) (hclient : ∀ c, top ≠ .client c)
      (hnew : top.Continues new) (hop : s'.op = s.op)
      (hcalls : s'.source.calls = Function.update s.source.calls t (new :: rest))
  | returns (top : Call Record (Code n)) (rest : List (Call Record (Code n)))
      (hstack : s.source.calls t = top :: rest) (hclient : ∀ c, top ≠ .client c)
      (hcaller : top = .requesting → ∀ k below, rest = .client (.child k) :: below →
        s.op.children k ≠ .stopping)
      (hop : s'.op = s.op) (hcalls : s'.source.calls = Function.update s.source.calls t rest)
  /-- `request_stop` returns to the child that won. -/
  | resume (k : Fin n) (below : List (Call Record (Code n)))
      (hstack : s.source.calls t = .requesting :: .client (.child k) :: below)
      (hpc : s.op.children k = .stopping) (hrequested : s'.source.memory.stopRequested = true)
      (hop : s'.op = s.op.setPc k .decrement)
      (hcalls : s'.source.calls =
        Function.update s.source.calls t (.client (.child k) :: below))
  | start (huser : UserTop (s.source.calls t)) (hbegun : s.op.begun = false)
      (hop : s'.op = { s.op with begun := true })
      (hcalls : s'.source.calls =
        Function.update s.source.calls t (.client (.starter false) :: s.source.calls t))
  | register (rest : List (Call Record (Code n))) (onStop : OnStop Thread)
      (hstack : s.source.calls t = .client (.starter false) :: rest)
      (honStop : onStop = s.op.onStop ∨ onStop = .armed) (hop : s'.op = { s.op with onStop := onStop })
      (hcalls : s'.source.calls =
        Function.update s.source.calls t (.client (.starter true) :: rest))
  | registerLate (rest : List (Call Record (Code n)))
      (hstack : s.source.calls t = .client (.starter false) :: rest)
      (hop : s'.op = { s.op with onStop := .running t })
      (hcalls : s'.source.calls = Function.update s.source.calls t
        (.client (.stopRequest false) :: .client (.starter true) :: rest))
  | startChild (k : Fin n) (rest : List (Call Record (Code n)))
      (hstack : s.source.calls t = .client (.starter true) :: rest) (hk : k.val = s.op.started)
      (hop : s'.op = { s.op with started := s.op.started + 1 }.setPc k .running)
      (hcalls : s'.source.calls = Function.update s.source.calls t
        (.client (.childStart k) :: .client (.starter true) :: rest))
  | leave (code : Code n) (rest : List (Call Record (Code n)))
      (hstack : s.source.calls t = .client code :: rest)
      (hcode : code = .starter true ∨ ∃ k, code = .childStart k) (hop : s'.op = s.op)
      (hcalls : s'.source.calls = Function.update s.source.calls t rest)
  /-- The receiver's stop source runs the callback. -/
  | stop (huser : UserTop (s.source.calls t)) (harmed : s.op.onStop = .armed)
      (hop : s'.op = { s.op with onStop := .running t })
      (hcalls : s'.source.calls =
        Function.update s.source.calls t (.client (.stopRequest false) :: s.source.calls t))
  | request (rest : List (Call Record (Code n)))
      (hstack : s.source.calls t = .client (.stopRequest false) :: rest) (hop : s'.op = s.op)
      (hcalls : s'.source.calls = Function.update s.source.calls t
        (.requesting :: .client (.stopRequest true) :: rest))
  | stopped (rest : List (Call Record (Code n)))
      (hstack : s.source.calls t = .client (.stopRequest true) :: rest)
      (hop : s'.op = { s.op with
        onStop := if s.op.onStop = .running t then .finished else s.op.onStop })
      (hcalls : s'.source.calls = Function.update s.source.calls t rest)
  | complete (k : Fin n) (huser : UserTop (s.source.calls t))
      (hrunning : s.op.children k = .running)
      (hown : ∀ u, ∀ call ∈ s.source.calls u, ¬ OwnCall owner k call)
      (hop : s'.op = (s.op.record (.completed k)).setPc k (children.outcome k).firstPc)
      (hcalls : s'.source.calls =
        Function.update s.source.calls t (.client (.child k) :: s.source.calls t))
  | progress (k : Fin n) (rest : List (Call Record (Code n)))
      (hstack : s.source.calls t = .client (.child k) :: rest)
      (hop : Progress children t k s.op s'.op) (hcalls : s'.source.calls = s.source.calls)
  | childRequest (k : Fin n) (rest : List (Call Record (Code n)))
      (hstack : s.source.calls t = .client (.child k) :: rest)
      (hpc : s.op.children k = .requestStop) (hop : s'.op = s.op.setPc k .stopping)
      (hcalls : s'.source.calls = Function.update s.source.calls t
        (.requesting :: .client (.child k) :: rest))
  | childReturns (k : Fin n) (rest : List (Call Record (Code n)))
      (hstack : s.source.calls t = .client (.child k) :: rest)
      (hop : Return children k s.op s'.op)
      (hcalls : s'.source.calls = Function.update s.source.calls t rest)

section Via

variable [DecidableEq Record] {s s' : State Thread Record n Value Error} {t : Thread}

omit [DecidableEq Thread] [DecidableEq Record] in
theorem userTop_of_atUser (h : s.atUser t = true) : UserTop (s.source.calls t) := by
  unfold State.atUser at h
  intro call hcall
  cases hstack : s.source.stack t with
  | nil => simp [StopToken.State.calls, hstack] at hcall
  | cons frame rest =>
      rw [calls_cons hstack] at hcall
      rw [hstack] at h
      cases hcall
      cases frame with
      | constructor r pc => cases pc <;> first | rfl | cases h
      | destructor r pc => cases h
      | requestStop pc => rfl
      | client code => cases code <;> first | rfl | cases h

omit [DecidableEq Thread] [DecidableEq Record] in
theorem not_ownCall [Fintype Thread] {owner : Record → Fin n} {k : Fin n}
    (h : CallStack.census (ownCall owner k) s.source.stack = 0) (u : Thread)
    (call : Call Record (Code n)) (hcall : call ∈ s.source.calls u) : ¬ OwnCall owner k call := by
  obtain ⟨frame, hframe, rfl⟩ := List.mem_map.mp hcall
  have hnot := CallStack.census_eq_zero.mp h u frame hframe
  intro hown
  cases frame with
  | constructor r pc => cases pc <;> simp_all [ownCall, OwnCall, Frame.call]
  | destructor r pc => simp_all [ownCall, OwnCall, Frame.call]
  | requestStop pc => exact hown
  | client c => exact hown

end Via

section Steps

variable [DecidableEq Record] {children : Children n Value Error} {owner : Record → Fin n}
  {s s' : State Thread Record n Value Error} {t : Thread}

/-- An access of a child's completion function. -/
theorem childStep_effect {k : Fin n} {rest : List (StopToken.Frame Thread Record (Code n))}
    (hstack : s.source.stack t = .client (.child k) :: rest)
    (hstep : s.childStep children t k (s.op.children k) = some s') :
    Effect children owner s s' t := by
  have hcalls := calls_cons hstack
  cases hpc : s.op.children k with
  | unstarted | running | stopping | done =>
      rw [hpc] at hstep
      cases hstep
  | emplace =>
      rw [hpc] at hstep
      cases houtcome : children.outcome k with
      | value values =>
          simp only [State.childStep, houtcome, Option.some.injEq] at hstep
          subst hstep
          exact .progress k _ hcalls (.emplace hpc houtcome) rfl
      | error | stopped => simp [State.childStep, houtcome] at hstep
  | exchange =>
      rw [hpc] at hstep
      simp only [State.childStep] at hstep
      split at hstep
      next hfree =>
        cases hstep
        exact .progress k _ hcalls (.win hpc hfree) rfl
      next htaken =>
        cases hstep
        exact .progress k _ hcalls (.lose hpc htaken) rfl
  | storeError =>
      rw [hpc] at hstep
      cases houtcome : children.outcome k with
      | error error =>
          simp only [State.childStep, houtcome, Option.some.injEq] at hstep
          subst hstep
          exact .progress k _ hcalls (.storeError hpc houtcome) rfl
      | value | stopped => simp [State.childStep, houtcome] at hstep
  | requestStop =>
      rw [hpc] at hstep
      obtain ⟨source, hrequest, rfl⟩ := Hosted.via_one hstep
      exact .childRequest k _ hcalls hpc rfl (request_calls hcalls hrequest)
  | decrement =>
      rw [hpc] at hstep
      simp only [State.childStep] at hstep
      split at hstep
      next hlast =>
        cases hstep
        exact .progress k _ hcalls (.decrement hpc hlast) rfl
      next hlast =>
        obtain ⟨source, hleave, rfl⟩ := Hosted.via_one hstep
        exact .childReturns k _ hcalls (.decrement hpc hlast) (leave_calls hstack hleave)
  | resetOnStop =>
      rw [hpc] at hstep
      simp only [State.childStep, State.resetOnStop] at hstep
      cases honStop : s.op.onStop with
      | running u =>
          simp only [honStop, Option.ite_none_right_eq_some, Option.some.injEq] at hstep
          obtain ⟨rfl, rfl⟩ := hstep
          refine .progress k _ hcalls (.resetOnStop hpc ?_ (Or.inr rfl)) rfl
          intro v hv
          rw [honStop] at hv
          exact (OnStop.running.inj hv).symm
      | empty =>
          simp only [honStop, Option.some.injEq] at hstep
          subst hstep
          have hmove : Progress children t k s.op _ :=
            .resetOnStop hpc (by simp [honStop]) (Or.inl ⟨rfl, honStop⟩)
          refine .progress k _ hcalls ?_ rfl
          rw [← honStop] at hmove
          exact hmove
      | armed | finished | reset =>
          simp only [honStop, Option.some.injEq] at hstep
          subst hstep
          exact .progress k _ hcalls (.resetOnStop hpc (by simp [honStop]) (Or.inr rfl)) rfl
  | loadTerminal =>
      rw [hpc] at hstep
      cases hstep
      exact .progress k _ hcalls (.loadTerminal hpc) rfl
  | deliver final =>
      rw [hpc] at hstep
      cases hresult : s.op.result children final with
      | none => simp [State.childStep, hresult] at hstep
      | some signal =>
          simp only [State.childStep, hresult] at hstep
          obtain ⟨source, hleave, rfl⟩ := Hosted.via_one hstep
          exact .childReturns k _ hcalls (.deliver hpc hresult) (leave_calls hstack hleave)

/-- An access of the operation's own code. -/
theorem code_effect {code : Code n} {rest : List (StopToken.Frame Thread Record (Code n))}
    (hstack : s.source.stack t = .client code :: rest) (hstep : code.step children s t = some s') :
    Effect children owner s s' t := by
  have hcalls := calls_cons hstack
  cases code with
  | child k => exact childStep_effect hstack hstep
  | childStart k => cases hstep
  | starter registered =>
      cases registered with
      | false => cases hstep
      | true =>
          simp only [Code.step] at hstep
          split at hstep
          next hstarted =>
            obtain ⟨source, henter, rfl⟩ := Hosted.via_one hstep
            exact .startChild ⟨s.op.started, hstarted⟩ _ hcalls rfl rfl
              (enter_calls hcalls henter)
          next =>
            obtain ⟨source, hleave, rfl⟩ := Hosted.via_one hstep
            exact .leave _ _ hcalls (Or.inl rfl) rfl (leave_calls hstack hleave)
  | stopRequest called =>
      cases called with
      | false =>
          obtain ⟨middle, hbecome, hrest⟩ := Hosted.via_cons hstep
          obtain ⟨source, hrequest, rfl⟩ := Hosted.via_one hrest
          have hmiddle := become_calls hstack hbecome
          have hpush := request_calls (congrFun hmiddle t) hrequest
          refine .request _ hcalls rfl ?_
          simpa [hmiddle] using hpush
      | true =>
          obtain ⟨source, hleave, rfl⟩ := Hosted.via_one hstep
          exact .stopped _ hcalls rfl (leave_calls hstack hleave)

/-- An access inside `request_stop`, which may return to its caller. -/
theorem request_effect {pc : RequestPc Record} {weak : Bool}
    {rest : List (StopToken.Frame Thread Record (Code n))}
    {source : StopToken.State Thread Record (Code n)} (hs : Inv s.source)
    (hstack : s.source.stack t = .requestStop pc :: rest)
    (hrun : StopToken.step s.source (.run t weak) = some source) :
    Effect children owner s
      (if (source.stack t).length = rest.length then State.resume ⟨s.op, source⟩ t
        else ⟨s.op, source⟩) t := by
  have hlength : (source.stack t).length = (source.calls t).length := by
    simp [StopToken.State.calls]
  rcases run_calls hstack hrun with ⟨new, rfl, hcalls⟩ | hcalls
  · have hnot : (source.stack t).length ≠ rest.length := by
      rw [hlength, hcalls]
      simp
    rw [if_neg hnot]
    exact .inside _ _ _ (calls_cons hstack) (by rintro _ ⟨⟩) rfl rfl hcalls
  · have hreturned : (source.stack t).length = rest.length := by
      rw [hlength, hcalls]
      simp
    have hrequested := stopRequested_of_return hs hstack hrun hreturned
    have hbelow : source.calls t = rest.map Frame.call := by
      rw [hcalls, Function.update_self]
    rw [if_pos hreturned]
    unfold State.resume
    split
    next k below hcaller =>
      have hcallerCalls := (calls_cons hcaller).symm.trans hbelow
      split
      next hpc =>
        refine .resume k (below.map Frame.call) ?_ hpc hrequested rfl (hcallerCalls ▸ hcalls)
        rw [calls_cons hstack, ← hcallerCalls]
        rfl
      next hpc =>
        refine .returns _ _ (calls_cons hstack) (by rintro _ ⟨⟩) ?_ rfl hcalls
        intro _ k' below' hk'
        rw [← hcallerCalls] at hk'
        cases hk'
        exact hpc
    next hnone =>
      refine .returns _ _ (calls_cons hstack) (by rintro _ ⟨⟩) ?_ rfl hcalls
      intro _ k below hk
      cases hsource : source.stack t with
      | nil =>
          rw [StopToken.State.calls, hsource, hk] at hbelow
          cases hbelow
      | cons frame frames =>
          rw [calls_cons hsource, hk] at hbelow
          cases frame with
          | client code =>
              cases hbelow
              exact absurd hsource (hnone k frames)
          | constructor r pc => cases pc <;> cases hbelow
          | _ => cases hbelow

variable [Fintype Thread]

theorem step_effect {a : Action Thread Record n} (hs : Inv s.source)
    (hstep : step children owner s a = some s') : Effect children owner s s' a.thread := by
  cases a with
  | start t =>
      simp only [step, Option.ite_none_right_eq_some] at hstep
      obtain ⟨⟨huser, hbegun⟩, hvia⟩ := hstep
      obtain ⟨source, henter, rfl⟩ := Hosted.via_one hvia
      exact .start (userTop_of_atUser huser) hbegun rfl (enter_calls rfl henter)
  | register t how =>
      simp only [step] at hstep
      split at hstep
      next rest hstack =>
        obtain ⟨source, hbecome, rfl⟩ := Hosted.via_one hstep
        exact .register _ _ (calls_cons hstack) (Or.inl rfl) rfl (become_calls hstack hbecome)
      next rest hstack =>
        obtain ⟨source, hbecome, rfl⟩ := Hosted.via_one hstep
        exact .register _ _ (calls_cons hstack) (Or.inr rfl) rfl (become_calls hstack hbecome)
      next rest hstack =>
        obtain ⟨middle, hbecome, hrest⟩ := Hosted.via_cons hstep
        obtain ⟨source, henter, rfl⟩ := Hosted.via_one hrest
        have hmiddle := become_calls hstack hbecome
        have hpush := enter_calls (congrFun hmiddle t) henter
        refine .registerLate _ (calls_cons hstack) rfl ?_
        simpa [hmiddle, Action.thread] using hpush
      next => cases hstep
  | run t weak =>
      simp only [step] at hstep
      split at hstep
      · cases hstep
      next code rest hstack => exact code_effect hstack hstep
      next pc rest hstack =>
        obtain ⟨middle, hvia, rfl⟩ := Option.map_eq_some_iff.mp hstep
        obtain ⟨source, hrun, rfl⟩ := Hosted.via_one hvia
        exact request_effect hs hstack hrun
      next frame rest hclient hrequest hstack =>
        obtain ⟨source, hrun, rfl⟩ := Hosted.via_one hstep
        have hnotClient : ∀ c, frame.call ≠ .client c := by
          intro c hc
          cases frame with
          | client code => exact hclient code rfl
          | constructor r pc => cases pc <;> cases hc
          | _ => cases hc
        have hnotRequest : frame.call ≠ .requesting := by
          intro hc
          cases frame with
          | requestStop pc => exact hrequest pc rfl
          | constructor r pc => cases pc <;> cases hc
          | _ => cases hc
        rcases run_calls hstack hrun with ⟨new, hnew, hcalls⟩ | hcalls
        · exact .inside _ new _ (calls_cons hstack) hnotClient hnew rfl hcalls
        · exact .returns _ _ (calls_cons hstack) hnotClient (absurd · hnotRequest) rfl hcalls
  | ret t =>
      obtain ⟨source, hret, rfl⟩ := Hosted.via_one hstep
      rcases ret_calls hret with ⟨r, below, hstack, hcalls⟩ | ⟨below, hstack, hcalls⟩
      · exact .returns _ below hstack (by simp) (by simp) rfl hcalls
      · exact .inside _ _ below hstack (by simp) rfl rfl hcalls
  | returnStart t =>
      simp only [step] at hstep
      split at hstep
      next k rest hstack =>
        obtain ⟨source, hleave, rfl⟩ := Hosted.via_one hstep
        exact .leave _ _ (calls_cons hstack) (Or.inr ⟨k, rfl⟩) rfl (leave_calls hstack hleave)
      next => cases hstep
  | complete t k =>
      simp only [step, Option.ite_none_right_eq_some] at hstep
      obtain ⟨⟨huser, hrunning, hown⟩, hvia⟩ := hstep
      obtain ⟨source, henter, rfl⟩ := Hosted.via_one hvia
      exact .complete k (userTop_of_atUser huser) hrunning (not_ownCall hown) rfl
        (enter_calls rfl henter)
  | construct t r =>
      simp only [step, Option.ite_none_right_eq_some] at hstep
      obtain ⟨⟨huser, hrunning⟩, hvia⟩ := hstep
      obtain ⟨source, hconstruct, rfl⟩ := Hosted.via_one hvia
      exact .call r _ (userTop_of_atUser huser) (Or.inl rfl) hrunning rfl
        (construct_calls rfl hconstruct)
  | destroy t r =>
      simp only [step, Option.ite_none_right_eq_some] at hstep
      obtain ⟨⟨huser, hrunning⟩, hvia⟩ := hstep
      obtain ⟨source, hdestroy, rfl⟩ := Hosted.via_one hvia
      exact .call r _ (userTop_of_atUser huser) (Or.inr rfl) hrunning rfl
        (destroy_calls rfl hdestroy)
  | stop t =>
      simp only [step, Option.ite_none_right_eq_some] at hstep
      obtain ⟨⟨huser, harmed⟩, hvia⟩ := hstep
      obtain ⟨source, henter, rfl⟩ := Hosted.via_one hvia
      exact .stop (userTop_of_atUser huser) harmed rfl (enter_calls rfl henter)

omit [Fintype Thread] in
theorem childStep_source {k : Fin n} {pc : ChildPc}
    (hstep : s.childStep children t k pc = some s') : Hosted.SourceRuns s s' := by
  cases pc with
  | unstarted | running | stopping | done => cases hstep
  | emplace | storeError =>
      simp only [State.childStep] at hstep
      split at hstep <;> cases hstep
      exact .refl _ _ rfl
  | exchange =>
      simp only [State.childStep] at hstep
      split at hstep <;> cases hstep <;> exact .refl _ _ rfl
  | requestStop => exact Hosted.via_sourceRuns _ hstep
  | decrement =>
      simp only [State.childStep] at hstep
      split at hstep
      · cases hstep
        exact .refl _ _ rfl
      · exact Hosted.via_sourceRuns _ hstep
  | resetOnStop =>
      simp only [State.childStep, State.resetOnStop] at hstep
      split at hstep
      · split at hstep <;> cases hstep
        exact .refl _ _ rfl
      · cases hstep
        exact .refl _ _ rfl
      · cases hstep
        exact .refl _ _ rfl
  | loadTerminal =>
      cases hstep
      exact .refl _ _ rfl
  | deliver final =>
      simp only [State.childStep] at hstep
      split at hstep
      · exact Hosted.via_sourceRuns _ hstep
      · cases hstep

omit [Fintype Thread] in
theorem code_source {code : Code n} (hstep : code.step children s t = some s') :
    Hosted.SourceRuns s s' := by
  cases code with
  | child k => exact childStep_source hstep
  | childStart k => cases hstep
  | starter registered =>
      cases registered with
      | false => cases hstep
      | true =>
          simp only [Code.step] at hstep
          split at hstep
          · exact Hosted.via_sourceRuns _ hstep
          · exact Hosted.via_sourceRuns s.op hstep
  | stopRequest called =>
      cases called with
      | false => exact Hosted.via_sourceRuns s.op hstep
      | true => exact Hosted.via_sourceRuns _ hstep

/-- The stop source makes steps of its own. -/
theorem step_source {a : Action Thread Record n} (hstep : step children owner s a = some s') :
    Hosted.SourceRuns s s' := by
  cases a with
  | start t | complete t k | stop t =>
      simp only [step, Option.ite_none_right_eq_some] at hstep
      exact Hosted.via_sourceRuns _ hstep.2
  | construct t r | destroy t r =>
      simp only [step, Option.ite_none_right_eq_some] at hstep
      exact Hosted.via_sourceRuns s.op hstep.2
  | register t how =>
      simp only [step] at hstep
      split at hstep
      · exact Hosted.via_sourceRuns s.op hstep
      · exact Hosted.via_sourceRuns _ hstep
      · exact Hosted.via_sourceRuns _ hstep
      · cases hstep
  | run t weak =>
      simp only [step] at hstep
      split at hstep
      · cases hstep
      · exact code_source hstep
      · obtain ⟨middle, hvia, rfl⟩ := Option.map_eq_some_iff.mp hstep
        obtain ⟨actions, hexec⟩ := Hosted.via_sourceRuns s.op hvia
        refine ⟨actions, hexec.trans (congrArg some ?_)⟩
        split
        · unfold State.resume
          split
          · split <;> rfl
          · rfl
        · rfl
      · exact Hosted.via_sourceRuns s.op hstep
  | ret t => exact Hosted.via_sourceRuns s.op hstep
  | returnStart t =>
      simp only [step] at hstep
      split at hstep
      · exact Hosted.via_sourceRuns s.op hstep
      · cases hstep

end Steps

end Bexec.WhenAll
