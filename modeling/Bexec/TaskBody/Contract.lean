import Bexec.TaskBody.Meaning

/-!
# Runs of a task

A task comes to an end or to a sender that it awaits, whatever its body does,
and then has completed exactly as its body reads. A sender that completes with
stopped ends all of the tasks at once.
-/

namespace Bexec.TaskBody

open Foundation

variable {Value Error : Type} {connected : Bool} {body : Body Value Error}
  {s s' : State Value Error}

/-! ## The end of a run -/

/-- The functions on the stack run until they return or a sender is awaited. -/
inductive Settles : State Value Error → Prop
  | now {s : State Value Error} (hcall : s.call = .waiting ∨ s.call = .returned) : Settles s
  | later {s s' : State Value Error} (hrun : s.run = some s') (h : Settles s') : Settles s

/-- The promise of a frame over the frames below it. -/
def Promise.Over (promise : Promise Value Error) (connected : Bool)
    (below : List (Coroutine Value Error)) : Prop :=
  promise.Ready ∧ promise.connected = linked connected below

/-- A completion on its way to the frames below settles. -/
def Dispatches (connected : Bool) (below : List (Coroutine Value Error)) : Prop :=
  ∀ (c : Coroutine Value Error) finished received, c.promise.deliverTo ≠ none →
    c.promise.connected = linked connected below →
    Settles ⟨c :: below, finished, .dispatchConnectedCompletion, [], received⟩

/-- A coroutine settles in the given blocks, however the statement at hand ends. -/
structure Leaves (connected : Bool) (below : List (Coroutine Value Error))
    (blocks : List (Block Value Error)) : Prop where
  dispatches : Dispatches connected below
  fallThrough : ∀ (promise : Promise Value Error) finished received v,
    promise.Over connected below →
    Settles ⟨⟨promise, blocks, .running (.fallThrough v)⟩ :: below, finished, .body, [], received⟩
  raise : ∀ (promise : Promise Value Error) finished received e,
    promise.Over connected below →
    Settles ⟨⟨promise, blocks, .running (.raise e)⟩ :: below, finished, .body, [], received⟩

section Settle

variable {below : List (Coroutine Value Error)} {blocks : List (Block Value Error)}
  {promise : Promise Value Error} {finished : List (Coroutine Value Error)}
  {received : List (Sent Value Error)}

/-- At its final suspend point a coroutine has something to deliver. -/
theorem Dispatches.finish (h : Dispatches connected below) (hstopped : promise.stopped = false)
    (hlinked : promise.connected = linked connected below)
    (hstored : promise.value ≠ none ∨ promise.error ≠ none) :
    Settles ⟨⟨promise, [], .finalSuspend⟩ :: below, finished, .dispatchConnectedCompletion, [],
      received⟩ := by
  refine h _ _ _ ?_ hlinked
  unfold Promise.deliverTo
  cases herror : promise.error with
  | some e => simp
  | none =>
      have hvalue := hstored.resolve_right (not_not.mpr herror)
      simpa [hstopped] using hvalue

/-- The end of a body. -/
theorem Dispatches.leaves (h : Dispatches connected below) : Leaves connected below [] where
  dispatches := h
  fallThrough _ _ _ _ hover :=
    .later rfl (h.finish hover.1.stopped hover.2 (.inl (Option.some_ne_none _)))
  raise _ _ _ _ hover :=
    .later rfl (h.finish hover.1.stopped hover.2 (.inr (Option.some_ne_none _)))

/-- A frame goes on with a completion, or it is stopped where it awaits. -/
theorem Leaves.awaits {next : Value → Body Value Error} (h : Leaves connected below blocks)
    (hover : promise.Over connected below)
    (hnext : ∀ v finished received,
      Settles ⟨⟨promise, blocks, .running (next v)⟩ :: below, finished, .body, [], received⟩) :
    Dispatches connected (⟨promise, blocks, .awaiting .initial next⟩ :: below) := by
  intro c finished received hdeliver hconnected
  obtain ⟨completion, hcompletion⟩ := Option.ne_none_iff_exists'.mp hdeliver
  refine .later (run_dispatch hconnected hcompletion) ?_
  cases completion with
  | value v => exact .later rfl (.later rfl (hnext v _ _))
  | error e => exact .later rfl (.later rfl (h.raise _ _ _ _ hover))
  | stopped =>
      refine .later rfl (h.dispatches _ _ _ ?_ hover.2)
      simp [Promise.deliverTo, hover.1.error]

theorem Leaves.handler {next : Value → Body Value Error} (h : Leaves connected below blocks)
    (hnext : ∀ (promise : Promise Value Error) finished received v, promise.Over connected below →
      Settles ⟨⟨promise, blocks, .running (next v)⟩ :: below, finished, .body, [], received⟩) :
    Leaves connected below (.handler next :: blocks) where
  dispatches := h.dispatches
  fallThrough _ _ _ _ hover := .later rfl (hnext _ _ _ _ hover)
  raise _ _ _ _ hover := .later rfl (h.raise _ _ _ _ hover)

/-- A body settles: by induction on the body, in whatever blocks and over whatever
frames it runs. -/
theorem settles_body (body : Body Value Error) (below : List (Coroutine Value Error))
    (blocks : List (Block Value Error)) (h : Leaves connected below blocks)
    (promise : Promise Value Error) (finished : List (Coroutine Value Error))
    (received : List (Sent Value Error)) (hover : promise.Over connected below) :
    Settles ⟨⟨promise, blocks, .running body⟩ :: below, finished, .body, [], received⟩ := by
  induction body generalizing below blocks promise finished received with
  | fallThrough v => exact h.fallThrough _ _ _ v hover
  | coReturn v thrown =>
      cases thrown with
      | none =>
          exact .later rfl (h.dispatches.finish hover.1.stopped hover.2
            (.inl (Option.some_ne_none _)))
      | some failure =>
          exact .later rfl (h.raise _ _ _ _ ⟨⟨hover.1.error, hover.1.stopped⟩, hover.2⟩)
  | raise e => exact h.raise _ _ _ e hover
  | awaitSender thrown next ih =>
      cases thrown with
      | none => exact .later rfl (.now (.inl rfl))
      | some failure => exact .later rfl (h.raise _ _ _ _ hover)
  | awaitTask child next ihchild ihnext =>
      have hdispatches : Dispatches connected
          (⟨promise, blocks, .awaiting .initial next⟩ :: below) :=
        h.awaits hover fun v _ _ => ihnext v _ _ h _ _ _ hover
      exact .later rfl (ihchild _ _ hdispatches.leaves _ _ _ ⟨⟨rfl, rfl⟩, rfl⟩)
  | tryCatch block handler next ihblock ihhandler ihnext =>
      have hhandler : Leaves connected below (.handler next :: blocks) :=
        h.handler fun _ _ _ v hover => ihnext v _ _ h _ _ _ hover
      refine .later rfl (ihblock _ _ ?_ _ _ _ hover)
      exact {
        dispatches := h.dispatches
        fallThrough := fun _ _ _ v hover => .later rfl (ihnext v _ _ h _ _ _ hover)
        raise := fun _ _ _ e hover => .later rfl (ihhandler e _ _ hhandler _ _ _ hover) }

theorem Dispatches.leaves_blocks (h : Dispatches connected below)
    (blocks : List (Block Value Error)) : Leaves connected below blocks := by
  induction blocks with
  | nil => exact h.leaves
  | cons block blocks ih =>
      have hnext : ∀ next : Value → Body Value Error,
          ∀ (promise : Promise Value Error) finished received v, promise.Over connected below →
          Settles ⟨⟨promise, blocks, .running (next v)⟩ :: below, finished, .body, [], received⟩ :=
        fun next _ _ _ v hover => settles_body (next v) _ _ ih _ _ _ hover
      cases block with
      | handler next => exact ih.handler (hnext next)
      | tryBlock handler next =>
          exact {
            dispatches := h
            fallThrough := fun _ _ _ v hover => .later rfl (hnext next _ _ _ v hover)
            raise := fun _ _ _ e hover =>
              .later rfl (settles_body (handler e) _ _ (ih.handler (hnext next)) _ _ _ hover) }

/-- Every completion arrives, by induction on the frames that await it. -/
theorem dispatches_of_suspended (h : Suspended connected below) : Dispatches connected below := by
  induction below with
  | nil =>
      intro c finished received hdeliver hconnected
      obtain ⟨completion, hcompletion⟩ := Option.ne_none_iff_exists'.mp hdeliver
      exact .later (run_dispatch_root hcompletion) (.now (.inr rfl))
  | cons p below ih =>
      obtain ⟨⟨next, hplace⟩, hready, hlinked, hbelow⟩ := h
      obtain ⟨promise, blocks, place⟩ := p
      dsimp only at hplace hready hlinked
      subst hplace
      have hleaves := (ih hbelow).leaves_blocks blocks
      exact hleaves.awaits ⟨hready, hlinked⟩
        fun v _ _ => settles_body (next v) _ _ hleaves _ _ _ ⟨hready, hlinked⟩

theorem Shape.settles (h : Shape connected s) (hstarted : s.call ≠ .notStarted) : Settles s := by
  have hrunning : ∀ (c : Coroutine Value Error) below received body,
      c.place = .running body → c.promise.Over connected below → Suspended connected below →
      Settles ⟨c :: below, [], .body, [], received⟩ := by
    intro c below received body hplace hover hbelow
    obtain ⟨promise, blocks, place⟩ := c
    dsimp only at hplace hover
    subst hplace
    exact settles_body body _ _ ((dispatches_of_suspended hbelow).leaves_blocks blocks) _ _ _ hover
  have hresuming : ∀ (c : Coroutine Value Error) below finished received awaiter next,
      c.place = .awaiting awaiter next → awaiter.awaitResume ≠ none →
      c.promise.Over connected below → Suspended connected below →
      Settles ⟨c :: below, finished, .awaitResume, [], received⟩ := by
    intro c below finished received awaiter next hplace hresume hover hbelow
    obtain ⟨result, hresult⟩ := Option.ne_none_iff_exists'.mp hresume
    cases result with
    | error e => exact .later (run_awaitResume hplace hresult) (hrunning _ _ _ _ rfl hover hbelow)
    | ok v => exact .later (run_awaitResume_ok hplace hresult) (hrunning _ _ _ _ rfl hover hbelow)
  cases h with
  | running hcall hplace hready hlinked hbelow =>
      obtain rfl := hcall.resolve_left hstarted
      exact hrunning _ _ _ _ hplace ⟨hready, hlinked⟩ hbelow
  | resuming hplace hresume hready hlinked hbelow =>
      exact hresuming _ _ _ _ _ _ hplace hresume ⟨hready, hlinked⟩ hbelow
  | dispatching hcompletion hdone hlinked hbelow =>
      exact dispatches_of_suspended hbelow _ _ _ (by simp [hcompletion]) hlinked
  | returned hcompletion hdone => exact .now (.inr rfl)
  | @awaiting frames finished call received hframes hcall hsuspended =>
      rcases hcall with ⟨rfl, -⟩ | ⟨sent, rfl⟩
      · exact .now (.inl rfl)
      · cases frames with
        | nil => exact absurd rfl hframes
        | cons c below =>
            obtain ⟨⟨next, hplace⟩, hready, hlinked, hbelow⟩ := hsuspended
            obtain ⟨promise, blocks, place⟩ := c
            dsimp only at hplace hready hlinked
            subst hplace
            cases sent with
            | value v thrown | error e thrown =>
                refine .later rfl (hresuming _ _ _ _ _ next rfl ?_ ⟨hready, hlinked⟩ hbelow)
                cases thrown <;> simp [Awaiter.awaitResume, Awaiter.completeValue,
                  Awaiter.completeError, Awaiter.initial]
            | stopped =>
                refine .later rfl (dispatches_of_suspended hbelow _ _ _ ?_ hlinked)
                simp [Promise.deliverTo, hready.error]

end Settle

/-! ## What a task completes with -/

/-- What `result()` makes of a completion. -/
def Completion.result : Completion Value Error → Except (Thrown Error) Value
  | .value v => .ok v
  | .error e => .error (.error e)
  | .stopped => .error .taskStopped

theorem consumeResult_eq (promise : Promise Value Error) :
    promise.consumeResult = promise.deliverTo.map Completion.result := by
  unfold Promise.consumeResult Promise.deliverTo
  cases promise.error with
  | some e => rfl
  | none =>
      cases promise.stopped with
      | true => rfl
      | false => cases promise.value <;> rfl

theorem completion_close (reading : Reading Value Error) :
    reading.close.1.completion = reading.1.completion ∧ reading.close.2 = reading.2 := by
  obtain ⟨flow, rest⟩ := reading
  cases flow <;> exact ⟨rfl, rfl⟩

theorem completion_flow (completion : Completion Value Error) :
    completion.flow.completion = some completion := by
  cases completion <;> rfl

/-- In every state of a run the body reads, with what has been received and whatever
will be, as what is left. -/
theorem reading_of_reachable (hs : (machine body connected).Reachable s) :
    Shape connected s ∧ ∀ sent, s.meaning sent = (body.read (s.received ++ sent)).close := by
  refine hs.invariant (P := fun s => Shape connected s ∧
    ∀ sent, s.meaning sent = (body.read (s.received ++ sent)).close) (fun s hinit => ?_) ?_
  · cases hinit
    exact ⟨Shape.initial body, fun _ => rfl⟩
  · rintro s a s' - ⟨hshape, hmeaning⟩ hstep
    obtain ⟨hshape', new, hreceived, hnew⟩ := hshape.step hstep
    refine ⟨hshape', fun sent => ?_⟩
    rw [hnew, hmeaning, hreceived, List.append_assoc]

/-- Frames that await a sender have nothing to go on with. -/
theorem through_waiting {below : List (Coroutine Value Error)}
    (h : Suspended connected below) (rest : List (Sent Value Error)) :
    through below (.waiting, rest) = (.waiting, rest) := by
  induction below with
  | nil => rfl
  | cons c below ih =>
      obtain ⟨⟨next, hplace⟩, -, -, hbelow⟩ := h
      simp only [through, hplace]
      exact (congrArg (through below) unwind_waiting).trans (ih hbelow)

theorem Settles.exec (h : Settles s) : ∃ n s',
    (machine body connected).exec s (List.replicate n .run) = some s' ∧
      (s'.call = .waiting ∨ s'.call = .returned) := by
  induction h with
  | now hcall => exact ⟨0, _, rfl, hcall⟩
  | @later s next hrun _ ih =>
      obtain ⟨n, s', hexec, hcall⟩ := ih
      refine ⟨n + 1, s', ?_, hcall⟩
      simp only [Machine.exec, List.replicate_succ, List.foldlM_cons] at hexec ⊢
      exact (congrArg (Option.bind · _) hrun).trans hexec

/-- A task that has returned to its caller has completed as its body reads, told the
receiver so once, and `result()` agrees; a task that awaits a sender has not. Once it is
started it always gets to one or the other. -/
theorem task_completion (hs : (machine body connected).Reachable s) :
    (s.call = .returned → ∃ completion, body.completion s.received = some completion ∧
        (body.read s.received).2 = [] ∧ s.signals = (if connected then [completion] else []) ∧
        s.done = true ∧ s.result = some completion.result) ∧
      (s.call ≠ .returned → s.signals = []) ∧
      (s.call = .waiting → body.completion s.received = none) ∧
      (s.call ≠ .notStarted → ∃ n s',
        (machine body connected).exec s (List.replicate n .run) = some s' ∧
          (s'.call = .waiting ∨ s'.call = .returned)) := by
  obtain ⟨hshape, hmeaning⟩ := reading_of_reachable hs
  have hread := hmeaning []
  rw [List.append_nil] at hread
  refine ⟨fun hcall => ?_, fun hcall => ?_, fun hcall => ?_, fun hcall => (hshape.settles hcall).exec⟩
  · cases hshape with
    | @returned c finished received completion hcompletion hdone =>
        simp only [State.meaning, hcompletion, through] at hread
        obtain ⟨hsame, hrest⟩ := completion_close (body.read received)
        rw [← hread] at hsame hrest
        refine ⟨completion, ?_, hrest.symm, rfl, ?_, ?_⟩
        · exact hsame.symm.trans (completion_flow completion)
        · rcases hdone with hplace | hstopped
          · simp [State.done, hplace]
          · simp only [State.done, List.getLast?_singleton, hstopped]
            split <;> rfl
        · simp [State.result, consumeResult_eq, hcompletion]
    | running hcall' => rcases hcall' with rfl | rfl <;> cases hcall
    | awaiting hframes hcall' => rcases hcall' with ⟨rfl, -⟩ | ⟨sent, rfl⟩ <;> cases hcall
    | resuming | dispatching => cases hcall
  · cases hshape with
    | returned => exact absurd rfl hcall
    | _ => rfl
  · cases hshape with
    | @awaiting frames finished call received hframes hcall' hsuspended =>
        dsimp only at hcall
        subst hcall
        cases frames with
        | nil => exact absurd rfl hframes
        | cons c below =>
            obtain ⟨⟨next, hplace⟩, -, -, hbelow⟩ := hsuspended
            simp only [State.meaning, hplace, Body.read, unwind_waiting,
              through_waiting hbelow] at hread
            obtain ⟨hsame, -⟩ := completion_close (body.read received)
            rw [← hread] at hsame
            exact hsame.symm
    | running hcall' => rcases hcall' with rfl | rfl <;> cases hcall
    | resuming | dispatching | returned => cases hcall

/-- A task that awaits another one in a `try` block and returns what is caught. -/
def parentBody : Body Nat Nat :=
  .tryCatch (.awaitTask (.awaitSender none fun v => .coReturn (v + 1) none) fun v => .fallThrough v)
    (fun e => .fallThrough e) fun v => .coReturn v none

/-- The sender that the inner task awaits fails. -/
def failingRun : List (Action Nat Nat) :=
  List.flatten
    [[.start], List.replicate 3 .run, [.complete (.error 5 none)], List.replicate 10 .run]

theorem task_completion_caught : ∃ s : State Nat Nat, s.signals = [.value 5] ∧
    parentBody.completion s.received = some (.value 5) ∧ s.result = some (.ok 5) := by
  have hreach := Machine.reachable_replay (M := machine parentBody true)
    (rfl : State.initial parentBody true = State.initial parentBody true) failingRun (by decide)
  obtain ⟨completion, hcompletion, -, hsignals, -, hresult⟩ :=
    (task_completion hreach).1 (by decide)
  have hvalue : completion = .value 5 := by
    have hone := hsignals.symm.trans (by decide : _ = [.value 5])
    exact (List.cons.inj hone).1
  subst hvalue
  exact ⟨_, hsignals, hcompletion, hresult⟩

/-! ## Stopped -/

/-- The states from a stopped completion on, with the number of steps left: each frame
is marked as stopped where it awaits and passes the completion on. -/
inductive Unwinding (connected : Bool) : Nat → State Value Error → Prop
  | completing {frames finished : List (Coroutine Value Error)} {received : List (Sent Value Error)}
      (hframes : frames ≠ []) (hsuspended : Suspended connected frames)
      (hfinished : ∀ c ∈ finished, c.promise.stopped = true) :
      Unwinding connected (2 * frames.length) ⟨frames, finished, .complete .stopped, [], received⟩
  | dispatching {c : Coroutine Value Error} {below finished : List (Coroutine Value Error)}
      {received : List (Sent Value Error)} (hcompletion : c.promise.deliverTo = some .stopped)
      (hlinked : c.promise.connected = linked connected below)
      (hbelow : Suspended connected below)
      (hfinished : ∀ other ∈ c :: finished, other.promise.stopped = true) :
      Unwinding connected (2 * below.length + 1)
        ⟨c :: below, finished, .dispatchConnectedCompletion, [], received⟩
  | returned {c : Coroutine Value Error} {finished : List (Coroutine Value Error)}
      {received : List (Sent Value Error)}
      (hfinished : ∀ other ∈ c :: finished, other.promise.stopped = true) :
      Unwinding connected 0
        ⟨[c], finished, .returned, if connected then [.stopped] else [], received⟩

namespace Unwinding

variable {k : Nat} {a : Action Value Error}

theorem call (h : Unwinding connected k s) :
    s.call ≠ .body ∧ s.call ≠ .awaitResume ∧ s.call ≠ .waiting ∧ (s.call = .returned ↔ k = 0) := by
  cases h with
  | @completing frames finished received hframes =>
      have hlength := List.length_pos_iff.mpr hframes
      refine ⟨by simp, by simp, by simp, by simp, fun hzero => ?_⟩
      omega
  | dispatching => exact ⟨by simp, by simp, by simp, by simp⟩
  | returned => exact ⟨by simp, by simp, by simp, by simp⟩

theorem step (h : Unwinding connected k s) (hstep : TaskBody.step s a = some s') :
    ∃ left, k = left + 1 ∧ Unwinding connected left s' ∧
      s'.frames.length + s'.finished.length = s.frames.length + s.finished.length := by
  have hrun : a = .run := by
    obtain ⟨-, -, hwaiting, -⟩ := h.call
    cases a with
    | run => rfl
    | start =>
        simp only [TaskBody.step] at hstep
        split at hstep
        next hcall => cases h <;> cases hcall
        next => cases hstep
    | complete sent =>
        simp only [TaskBody.step] at hstep
        cases hstep
  subst hrun
  cases h with
  | @completing frames finished received hframes hsuspended hfinished =>
      cases frames with
      | nil => exact absurd rfl hframes
      | cons c below =>
          obtain ⟨⟨next, hplace⟩, hready, hlinked, hbelow⟩ := hsuspended
          simp only [TaskBody.step, State.run, hplace] at hstep
          cases hstep
          refine ⟨2 * below.length + 1, by simp [Nat.mul_add], .dispatching ?_ hlinked hbelow ?_, rfl⟩
          · simp [Promise.deliverTo, hready.error]
          · simpa using hfinished
  | @dispatching c below finished received hcompletion hlinked hbelow hfinished =>
      cases below with
      | nil =>
          cases (run_dispatch_root hcompletion).symm.trans hstep
          refine ⟨0, rfl, ?_, rfl⟩
          rw [hlinked]
          exact .returned hfinished
      | cons p below =>
          cases (run_dispatch hlinked hcompletion).symm.trans hstep
          refine ⟨2 * (p :: below).length, rfl, .completing (by simp) hbelow hfinished, ?_⟩
          simp only [List.length_cons]
          omega
  | returned hfinished => simp [TaskBody.step, State.run] at hstep

/-- Every step of a run is one of those that are left. -/
theorem run (h : Unwinding connected k s)
    {trace : List (State Value Error × Action Value Error)}
    (hrun : (machine body connected).Run s trace s') :
    (∃ left, k = trace.length + left ∧ Unwinding connected left s') ∧
      (∀ entry ∈ trace, ∃ left, Unwinding connected left entry.1) ∧
      s'.frames.length + s'.finished.length = s.frames.length + s.finished.length := by
  induction hrun with
  | nil => exact ⟨⟨k, by simp, h⟩, by simp, rfl⟩
  | @snoc middle last trace a hrun hstep ih =>
      obtain ⟨⟨left, hleft, hmiddle⟩, hvisited, hlength⟩ := ih
      obtain ⟨next, rfl, hnext, hsame⟩ := hmiddle.step hstep
      refine ⟨⟨next, by simp [hleft]; omega, hnext⟩, fun entry hentry => ?_, hsame.trans hlength⟩
      rcases List.mem_append.mp hentry with hold | hlast
      · exact hvisited entry hold
      · rw [List.mem_singleton.mp hlast]
        exact ⟨_, hmiddle⟩

end Unwinding

/-- When a sender completes with stopped no statement of any of the bodies runs any more
and no handler is entered: every task on the way to the root ends as stopped, within two
steps for each. -/
theorem stopped_ends_all (hs : (machine body connected).Reachable s)
    (hstep : step s (.complete .stopped) = some s')
    {trace : List (State Value Error × Action Value Error)} {later : State Value Error}
    (hrun : (machine body connected).Run s' trace later) :
    (∀ entry ∈ trace, entry.1.call ≠ .body ∧ entry.1.call ≠ .awaitResume ∧
        entry.1.call ≠ .waiting) ∧
      trace.length ≤ 2 * s.frames.length ∧
      (later.call = .returned ↔ trace.length = 2 * s.frames.length) ∧
      (later.call = .returned → later.signals = (if connected then [.stopped] else []) ∧
        (later.frames ++ later.finished).length = s.frames.length ∧
        ∀ c ∈ later.frames ++ later.finished, c.promise.stopped = true) := by
  obtain ⟨hshape, -⟩ := reading_of_reachable hs
  have hbegin : Unwinding connected (2 * s.frames.length) s' ∧ s'.finished = [] ∧
      s'.frames = s.frames := by
    simp only [step] at hstep
    split at hstep
    next hcall =>
      cases hstep
      cases hshape with
      | awaiting hframes hcall' hsuspended =>
          rcases hcall' with ⟨-, rfl⟩ | ⟨sent, rfl⟩
          · exact ⟨.completing hframes hsuspended (by simp), rfl, rfl⟩
          · cases hcall
      | running hcall' => rcases hcall' with rfl | rfl <;> cases hcall
      | resuming | dispatching | returned => cases hcall
    next => cases hstep
  obtain ⟨hunwinding, hfinished, hframes⟩ := hbegin
  obtain ⟨⟨left, hleft, hlast⟩, hvisited, hlength⟩ := hunwinding.run hrun
  rw [hfinished, hframes, List.length_nil, Nat.add_zero] at hlength
  refine ⟨fun entry hentry => ?_, by omega, ?_, fun hreturned => ⟨?_, ?_, ?_⟩⟩
  · obtain ⟨k, hvisit⟩ := hvisited entry hentry
    obtain ⟨hbody, hresume, hwaiting, -⟩ := hvisit.call
    exact ⟨hbody, hresume, hwaiting⟩
  · rw [hlast.call.2.2.2]
    omega
  · cases hlast with
    | returned => rfl
    | completing | dispatching => cases hreturned
  · rw [List.length_append, hlength]
  · cases hlast with
    | returned hfinished => exact hfinished
    | completing | dispatching => cases hreturned

/-- The task has come to the sender that the inner task awaits. -/
def awaitingRun : List (Action Nat Nat) :=
  List.flatten [[.start], List.replicate 3 .run]

theorem awaitingRun_runs :
    ((machine parentBody true).exec (.initial parentBody true) awaitingRun).isSome = true := by
  decide

def awaitingState : State Nat Nat :=
  ((machine parentBody true).exec (.initial parentBody true) awaitingRun).get awaitingRun_runs

theorem awaitingState_stops : (step awaitingState (.complete .stopped)).isSome = true := by
  decide

theorem stopped_ends_all_nested : ∃ s : State Nat Nat, s.signals = [.stopped] ∧
    (s.frames ++ s.finished).length = 2 ∧ ∀ c ∈ s.frames ++ s.finished, c.promise.stopped = true := by
  have hreach : (machine parentBody true).Reachable awaitingState :=
    Machine.reachable_replay rfl awaitingRun awaitingRun_runs
  have hexec : ((machine parentBody true).exec
      ((step awaitingState (.complete .stopped)).get awaitingState_stops)
        (List.replicate 4 .run)).isSome = true := by decide
  obtain ⟨trace, hrun, hactions⟩ := Machine.exists_run_of_exec _ (Option.some_get hexec).symm
  have hlength : trace.length = 4 := by
    rw [← List.length_map, hactions, List.length_replicate]
  obtain ⟨-, -, hends, hreturned⟩ :=
    stopped_ends_all hreach (Option.some_get awaitingState_stops).symm hrun
  exact ⟨_, hreturned (hends.mpr hlength)⟩

end Bexec.TaskBody
