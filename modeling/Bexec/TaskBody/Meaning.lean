import Bexec.TaskBody.Step

/-!
# The meaning of a state

What is left to be read of a body is spread over the frames: the statement of
the one on top, the blocks that it is in, and what the frames below do with the
completion. Read together they mean what the body meant, and no step changes it.
-/

namespace Bexec.TaskBody

open Foundation

variable {Value Error : Type} {connected : Bool} {s s' : State Value Error}

/-- A body that falls off its end returns. -/
def Reading.close (reading : Reading Value Error) : Reading Value Error :=
  match reading with
  | (.fellThrough v, rest) => (.returned v, rest)
  | other => other

/-- Leave the blocks that a coroutine is in. -/
def unwind : List (Block Value Error) → Reading Value Error → Reading Value Error
  | [], reading => reading.close
  | .tryBlock handler next :: blocks, reading =>
      unwind blocks ((reading.catching fun e rest => (handler e).read rest).andThen
        fun v rest => (next v).read rest)
  | .handler next :: blocks, reading =>
      unwind blocks (reading.andThen fun v rest => (next v).read rest)

/-- Go on in the frames below. -/
def through : List (Coroutine Value Error) → Reading Value Error → Reading Value Error
  | [], reading => reading
  | c :: below, reading =>
      match c.place with
      | .awaiting _ next =>
          through below (unwind c.blocks (reading.await fun v rest => (next v).read rest))
      | _ => reading

def Completion.flow : Completion Value Error → Flow Value Error
  | .value v => .returned v
  | .error e => .threw e
  | .stopped => .stopped

/-- Go on with the completion of what is awaited. -/
def resumeWith (next : Value → Body Value Error) (completion : Completion Value Error)
    (sent : List (Sent Value Error)) : Reading Value Error :=
  Reading.await (completion.flow, sent) fun v rest => (next v).read rest

/-- What is left to be read, given what the senders will complete with. -/
def State.meaning (s : State Value Error) (sent : List (Sent Value Error)) :
    Reading Value Error :=
  match s.frames with
  | [] => (.waiting, sent)
  | c :: below =>
      match s.call, c.place with
      | .notStarted, .running body | .body, .running body =>
          through below (unwind c.blocks (body.read sent))
      | .waiting, .awaiting _ next =>
          through below (unwind c.blocks ((Body.awaitSender none next).read sent))
      | .complete first, .awaiting _ next =>
          through below (unwind c.blocks (resumeWith next first.completion sent))
      | .awaitResume, .awaiting awaiter next =>
          match awaiter.awaitResume with
          | none => (.waiting, sent)
          | some (.error e) => through below (unwind c.blocks (.threw e, sent))
          | some (.ok v) => through below (unwind c.blocks ((next v).read sent))
      | .dispatchConnectedCompletion, _ | .returned, _ =>
          match c.promise.deliverTo with
          | none => (.waiting, sent)
          | some completion => through below (completion.flow, sent)
      | _, _ => (.waiting, sent)

section Unwind

variable {blocks : List (Block Value Error)} {rest : List (Sent Value Error)}

@[simp] theorem unwind_returned (v : Value) :
    unwind blocks (.returned v, rest) = (.returned v, rest) := by
  induction blocks with
  | nil => rfl
  | cons block blocks ih => cases block <;> simpa [unwind, Reading.catching, Reading.andThen]

@[simp] theorem unwind_stopped :
    unwind blocks ((.stopped, rest) : Reading Value Error) = (.stopped, rest) := by
  induction blocks with
  | nil => rfl
  | cons block blocks ih => cases block <;> simpa [unwind, Reading.catching, Reading.andThen]

@[simp] theorem unwind_waiting :
    unwind blocks ((.waiting, rest) : Reading Value Error) = (.waiting, rest) := by
  induction blocks with
  | nil => rfl
  | cons block blocks ih => cases block <;> simpa [unwind, Reading.catching, Reading.andThen]

theorem unwind_next (block : Block Value Error) (v : Value) :
    unwind (block :: blocks) (.fellThrough v, rest) =
      unwind blocks ((block.next v).read rest) := by
  cases block <;> rfl

/-- What awaits a task does not see whether it has fallen off its end. -/
theorem await_close (reading : Reading Value Error)
    (next : Value → List (Sent Value Error) → Reading Value Error) :
    reading.close.await next = reading.await next := by
  obtain ⟨flow, rest⟩ := reading
  cases flow <;> rfl

@[simp] theorem completion_forward (completion : Completion Value Error) :
    (State.forward completion).completion = completion := by
  cases completion <;> rfl

end Unwind

/-! ## The states of a run -/

/-- Nothing has been stored yet that a completion would be read from; a value may
be left from a `co_return` whose scope was left by an exception. -/
structure Promise.Ready (promise : Promise Value Error) : Prop where
  error : promise.error = none
  stopped : promise.stopped = false

/-- The promise of an awaited task is always connected. -/
def linked (connected : Bool) (below : List (Coroutine Value Error)) : Bool :=
  !below.isEmpty || connected

/-- Frames that await the one above. -/
def Suspended (connected : Bool) : List (Coroutine Value Error) → Prop
  | [] => True
  | c :: below =>
      (∃ next, c.place = .awaiting .initial next) ∧ c.promise.Ready ∧
        c.promise.connected = linked connected below ∧ Suspended connected below

inductive Shape (connected : Bool) : State Value Error → Prop
  | running {c : Coroutine Value Error} {below : List (Coroutine Value Error)}
      {call : Call Value Error} {received : List (Sent Value Error)} {body : Body Value Error}
      (hcall : call = .notStarted ∨ call = .body) (hplace : c.place = .running body)
      (hready : c.promise.Ready) (hlinked : c.promise.connected = linked connected below)
      (hbelow : Suspended connected below) :
      Shape connected ⟨c :: below, [], call, [], received⟩
  | awaiting {frames finished : List (Coroutine Value Error)} {call : Call Value Error}
      {received : List (Sent Value Error)} (hframes : frames ≠ [])
      (hcall : call = .waiting ∧ finished = [] ∨ ∃ sent, call = .complete sent)
      (hsuspended : Suspended connected frames) :
      Shape connected ⟨frames, finished, call, [], received⟩
  | resuming {c : Coroutine Value Error} {below finished : List (Coroutine Value Error)}
      {received : List (Sent Value Error)} {awaiter : Awaiter Value Error}
      {next : Value → Body Value Error} (hplace : c.place = .awaiting awaiter next)
      (hresume : awaiter.awaitResume ≠ none) (hready : c.promise.Ready)
      (hlinked : c.promise.connected = linked connected below)
      (hbelow : Suspended connected below) :
      Shape connected ⟨c :: below, finished, .awaitResume, [], received⟩
  | dispatching {c : Coroutine Value Error} {below finished : List (Coroutine Value Error)}
      {received : List (Sent Value Error)} {completion : Completion Value Error}
      (hcompletion : c.promise.deliverTo = some completion)
      (hdone : c.place = .finalSuspend ∨ c.promise.stopped = true)
      (hlinked : c.promise.connected = linked connected below)
      (hbelow : Suspended connected below) :
      Shape connected ⟨c :: below, finished, .dispatchConnectedCompletion, [], received⟩
  | returned {c : Coroutine Value Error} {finished : List (Coroutine Value Error)}
      {received : List (Sent Value Error)} {completion : Completion Value Error}
      (hcompletion : c.promise.deliverTo = some completion)
      (hdone : c.place = .finalSuspend ∨ c.promise.stopped = true) :
      Shape connected
        ⟨[c], finished, .returned, if connected then [completion] else [], received⟩

theorem Shape.initial (body : Body Value Error) :
    Shape connected (State.initial body connected) :=
  .running (.inl rfl) rfl ⟨rfl, rfl⟩ rfl trivial

section Steps

variable {c : Coroutine Value Error} {below finished : List (Coroutine Value Error)}
  {received : List (Sent Value Error)} {body : Body Value Error}

/-- The next statement means what the body meant. -/
theorem bodyStep_meaning (hplace : c.place = .running body) (hready : c.promise.Ready)
    (hlinked : c.promise.connected = linked connected below) (hbelow : Suspended connected below) :
    Shape connected (State.bodyStep ⟨c :: below, [], .body, [], received⟩ c below body) ∧
      ∀ sent, (State.bodyStep ⟨c :: below, [], .body, [], received⟩ c below body).meaning sent =
        through below (unwind c.blocks (body.read sent)) := by
  obtain ⟨⟨value, error, stopped, linked'⟩, blocks, place⟩ := c
  obtain ⟨herror, hstopped⟩ := hready
  dsimp only at herror hstopped hlinked hplace
  subst herror hstopped hlinked hplace
  cases body with
  | fallThrough v =>
      cases blocks with
      | nil => exact ⟨.dispatching rfl (.inl rfl) rfl hbelow, fun _ => rfl⟩
      | cons block blocks =>
          refine ⟨.running (.inr rfl) rfl ⟨rfl, rfl⟩ rfl hbelow, fun sent => ?_⟩
          exact congrArg (through below) (unwind_next block v).symm
  | coReturn v thrown =>
      cases thrown with
      | none =>
          refine ⟨.dispatching rfl (.inl rfl) rfl hbelow, fun sent => ?_⟩
          exact congrArg (through below) (unwind_returned v).symm
      | some failure => exact ⟨.running (.inr rfl) rfl ⟨rfl, rfl⟩ rfl hbelow, fun _ => rfl⟩
  | raise e =>
      cases blocks with
      | nil => exact ⟨.dispatching rfl (.inl rfl) rfl hbelow, fun _ => rfl⟩
      | cons block blocks =>
          cases block with
          | tryBlock handler next | handler next =>
              exact ⟨.running (.inr rfl) rfl ⟨rfl, rfl⟩ rfl hbelow, fun _ => rfl⟩
  | awaitSender thrown next =>
      cases thrown with
      | none => exact ⟨.awaiting (by simp) (.inl ⟨rfl, rfl⟩) ⟨⟨next, rfl⟩, ⟨rfl, rfl⟩, rfl, hbelow⟩,
        fun _ => rfl⟩
      | some failure => exact ⟨.running (.inr rfl) rfl ⟨rfl, rfl⟩ rfl hbelow, fun _ => rfl⟩
  | awaitTask child next =>
      refine ⟨.running (.inr rfl) rfl ⟨rfl, rfl⟩ rfl ⟨⟨next, rfl⟩, ⟨rfl, rfl⟩, rfl, hbelow⟩,
        fun sent => ?_⟩
      exact congrArg (fun reading => through below (unwind blocks reading)) (await_close _ _)
  | tryCatch block handler next => exact ⟨.running (.inr rfl) rfl ⟨rfl, rfl⟩ rfl hbelow, fun _ => rfl⟩

theorem bodyStep_received (s : State Value Error) (body : Body Value Error) :
    (s.bodyStep c below body).received = s.received := by
  cases body with
  | fallThrough v =>
      simp only [State.bodyStep]
      split <;> rfl
  | coReturn v thrown | awaitSender thrown next => cases thrown <;> rfl
  | raise e =>
      simp only [State.bodyStep]
      split <;> rfl
  | awaitTask child next | tryCatch block handler next => rfl

/-! One equation for each function that runs under the body. -/

variable {awaiter : Awaiter Value Error} {next : Value → Body Value Error}
  {completion : Completion Value Error} {signals : List (Completion Value Error)}

theorem run_awaitResume {e : Error} (hplace : c.place = .awaiting awaiter next)
    (hawaiter : awaiter.awaitResume = some (.error e)) :
    State.run ⟨c :: below, finished, .awaitResume, signals, received⟩ =
      some ⟨{ c with place := .running (.raise e) } :: below, [], .body, signals, received⟩ := by
  simp only [State.run, hplace, hawaiter]

theorem run_awaitResume_ok {v : Value} (hplace : c.place = .awaiting awaiter next)
    (hawaiter : awaiter.awaitResume = some (.ok v)) :
    State.run ⟨c :: below, finished, .awaitResume, signals, received⟩ =
      some ⟨{ c with place := .running (next v) } :: below, [], .body, signals, received⟩ := by
  simp only [State.run, hplace, hawaiter]

theorem run_dispatch_root (hcompletion : c.promise.deliverTo = some completion) :
    State.run ⟨[c], finished, .dispatchConnectedCompletion, [], received⟩ =
      some ⟨[c], finished, .returned, if c.promise.connected then [completion] else [],
        received⟩ := by
  simp only [State.run, hcompletion]
  split <;> rfl

theorem run_dispatch {p : Coroutine Value Error} (hconnected : c.promise.connected = true)
    (hcompletion : c.promise.deliverTo = some completion) :
    State.run ⟨c :: p :: below, finished, .dispatchConnectedCompletion, signals, received⟩ =
      some ⟨p :: below, c :: finished, .complete (State.forward completion), signals,
        received⟩ := by
  simp only [State.run, hconnected, if_true, hcompletion]

/-- No step under the body goes wrong or changes the meaning. -/
theorem Shape.run (h : Shape connected s) :
    s.call = .notStarted ∨ s.call = .waiting ∨ s.call = .returned ∨
      ∃ s', s.run = some s' ∧ Shape connected s' ∧ s'.received = s.received ∧
        ∀ sent, s'.meaning sent = s.meaning sent := by
  cases h with
  | @running c below call received body hcall hplace hready hlinked hbelow =>
      rcases hcall with rfl | rfl
      · exact .inl rfl
      · obtain ⟨hshape, hmeaning⟩ : Shape connected
            (State.bodyStep ⟨c :: below, [], .body, [], received⟩ c below body) ∧ _ :=
          bodyStep_meaning hplace hready hlinked hbelow
        refine .inr (.inr (.inr ⟨_, by simp only [State.run, hplace], hshape,
          bodyStep_received _ body, fun sent => ?_⟩))
        rw [hmeaning]
        simp only [State.meaning, hplace]
  | @awaiting frames finished call received hframes hcall hsuspended =>
      rcases hcall with ⟨rfl, -⟩ | ⟨sent, rfl⟩
      · exact .inr (.inl rfl)
      · cases frames with
        | nil => exact absurd rfl hframes
        | cons c below =>
            obtain ⟨⟨next, hplace⟩, hready, hlinked, hbelow⟩ := hsuspended
            obtain ⟨⟨value, error, stopped, linked'⟩, blocks, place⟩ := c
            obtain ⟨herror, hstopped⟩ := hready
            dsimp only at herror hstopped hlinked hplace
            subst herror hstopped hlinked hplace
            refine .inr (.inr (.inr ?_))
            cases sent with
            | value v thrown | error e thrown =>
                cases thrown <;>
                  exact ⟨_, rfl, .resuming rfl (by simp [Awaiter.awaitResume, Awaiter.completeValue,
                    Awaiter.completeError, Awaiter.initial]) ⟨rfl, rfl⟩ rfl hbelow, rfl, fun _ => rfl⟩
            | stopped =>
                refine ⟨_, rfl, .dispatching rfl (.inr rfl) rfl hbelow, rfl, fun sent => ?_⟩
                exact congrArg (through below) unwind_stopped.symm
  | @resuming c below finished received awaiter next hplace hresume hready hlinked hbelow =>
      refine .inr (.inr (.inr ?_))
      cases hawaiter : awaiter.awaitResume with
      | none => exact absurd hawaiter hresume
      | some result =>
          cases result with
          | error e =>
              refine ⟨_, run_awaitResume hplace hawaiter,
                .running (.inr rfl) rfl hready hlinked hbelow, rfl, fun sent => ?_⟩
              simp only [State.meaning, hplace, hawaiter, Body.read]
          | ok v =>
              refine ⟨_, run_awaitResume_ok hplace hawaiter,
                .running (.inr rfl) rfl hready hlinked hbelow, rfl, fun sent => ?_⟩
              simp only [State.meaning, hplace, hawaiter]
  | @dispatching c below finished received completion hcompletion hdone hlinked hbelow =>
      refine .inr (.inr (.inr ?_))
      cases below with
      | nil =>
          refine ⟨_, run_dispatch_root hcompletion, ?_, rfl, fun _ => rfl⟩
          rw [hlinked]
          exact .returned hcompletion hdone
      | cons p below =>
          obtain ⟨⟨next, hplace⟩, -⟩ := id hbelow
          refine ⟨_, run_dispatch hlinked hcompletion, .awaiting (by simp) (.inr ⟨_, rfl⟩) hbelow,
            rfl, fun sent => ?_⟩
          simp only [State.meaning, hplace, hcompletion, completion_forward, through, resumeWith]
  | returned hcompletion => exact .inr (.inr (.inl rfl))

/-- What a step does to the meaning: a completion is read where it is awaited. -/
theorem Shape.step {a : Action Value Error} (h : Shape connected s)
    (hstep : TaskBody.step s a = some s') :
    Shape connected s' ∧ ∃ new, s'.received = s.received ++ new ∧
      ∀ sent, s'.meaning sent = s.meaning (new ++ sent) := by
  cases a with
  | run =>
      have hstuck : s.call = .notStarted ∨ s.call = .waiting ∨ s.call = .returned → False := by
        intro hcall
        change s.run = some s' at hstep
        rcases hcall with hcall | hcall | hcall <;> simp [State.run, hcall] at hstep
      rcases h.run with hcall | hcall | hcall | ⟨next, hnext, hshape, hreceived, hmeaning⟩
      · exact (hstuck (.inl hcall)).elim
      · exact (hstuck (.inr (.inl hcall))).elim
      · exact (hstuck (.inr (.inr hcall))).elim
      · cases hnext.symm.trans hstep
        exact ⟨hshape, [], by simpa using hreceived, hmeaning⟩
  | start =>
      simp only [TaskBody.step] at hstep
      split at hstep
      next hcall =>
        cases hstep
        cases h with
        | running hcall' hplace hready hlinked hbelow =>
            refine ⟨.running (.inr rfl) hplace hready hlinked hbelow, [], by simp, fun sent => ?_⟩
            dsimp only at hcall
            subst hcall
            simp only [State.meaning, hplace, List.nil_append]
        | awaiting hframes hcall' hsuspended =>
            rcases hcall' with ⟨rfl, -⟩ | ⟨sent, rfl⟩ <;> cases hcall
        | resuming | dispatching | returned => cases hcall
      next => cases hstep
  | complete sent =>
      simp only [TaskBody.step] at hstep
      split at hstep
      next hcall =>
        cases hstep
        cases h with
        | @awaiting frames finished call received hframes hcall' hsuspended =>
            refine ⟨.awaiting hframes (.inr ⟨sent, rfl⟩) hsuspended, [sent], rfl, fun later => ?_⟩
            dsimp only at hcall
            subst hcall
            cases frames with
            | nil => exact absurd rfl hframes
            | cons c below =>
                obtain ⟨⟨next, hplace⟩, -⟩ := hsuspended
                simp only [State.meaning, hplace, List.singleton_append]
                congr 2
                simp only [resumeWith, Body.read]
                cases sent.completion <;> rfl
        | running hcall' => rcases hcall' with rfl | rfl <;> cases hcall
        | resuming | dispatching | returned => cases hcall
      next => cases hstep

end Steps

end Bexec.TaskBody
