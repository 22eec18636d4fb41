import Bexec.Task.Awaiting

/-!
# The calls on the stack

What each call relies on, and why the calls above it leave that alone.
-/

namespace Bexec.Task

open Foundation

variable {Id : Type}

/-- The frame is live and has the status. -/
def Heap.At (h : Heap Id) (f : Id) (status : Status Id) : Prop :=
  ∃ frame, h.frames f = some frame ∧ frame.status = status

/-- The operation of a suspended coroutine. -/
def Heap.Startable (h : Heap Id) (o : Id) : Prop :=
  ∃ f, h.handle (.operation o) = some f ∧ h.At f .suspended

/-- The coroutine of an awaiter is suspended on it, and `completed` holds of
the operation if the awaiter has one. -/
def Heap.Suspended (h : Heap Id) (a : Id) (completed : Id → Prop) : Prop :=
  ∃ w, h.awaiters a = some w ∧ h.At w.promise (.awaiting a) ∧
    ∀ o, w.operation = some o → completed o

/-- What a function of the chain relies on when it is called. -/
def Fn.Inv (h : Heap Id) : Fn Id → Prop
  | .taskStart t => h.life (.task t) = .alive ∧
      ∀ f, h.handle (.task t) = some f → h.At f .suspended ∨ h.At f .completed
  | .operationStart o => h.Startable o
  | .awaitSuspend a => h.Suspended a h.Startable
  | .finalAwaitSuspend f | .dispatchConnectedCompletion f =>
      h.At f .completed ∧ ∀ o, h.handle (.operation o) = some f → h.signalled o = none
  | .deliver o => h.signalled o = none ∧
      ∃ f, h.handle (.operation o) = some f ∧ h.At f .completed
  | .deliverTo f o => h.signalled o = none ∧ h.handle (.operation o) = some f ∧ h.At f .completed
  | .complete a | .completeStopped a => h.Suspended a fun o => h.signalled o ≠ none
  | .unhandledStopped f => ∃ a w, h.awaiters a = some w ∧ w.promise = f ∧
      h.At f (.awaiting a) ∧ ∀ o, w.operation = some o → h.signalled o ≠ none

namespace Activation

/-- What a call on the stack relies on. -/
def Inv (h : Heap Id) : Activation Id → Prop
  | .body f => h.At f .running
  | .connecting t o f frame => h.handle (.task t) = some f ∧ h.frames f = some frame ∧
      frame.status = .suspended ∧ h.life (.operation o) = .unborn
  | .destroying x f after => h.handle x = some f ∧ h.At f .destroying ∧
      ∀ other, after = .take other → h.life (.task other) = .alive ∧ ∃ t, x = .task t ∧ t ≠ other
  | .pending fn => fn.Inv h
  | _ => True

/-- What a call must find unbound. -/
def uses : Activation Id → List (Object Id)
  | .pending (.taskStart t) => [.holder (.task t)]
  | activation => activation.binds ++ activation.refs

/-- The object whose life ends with the call. -/
def kills : Activation Id → List (Object Id)
  | .destroying x _ .die => [.holder x]
  | _ => []

/-- A call does not use what a call under it binds, and does not end what that
one will read. -/
def Apart (upper lower : Activation Id) : Prop :=
  (∀ x ∈ upper.uses, x ∉ lower.binds) ∧ ∀ x ∈ upper.kills, x ∉ lower.refs

end Activation

/-- An object is as it was. -/
def Heap.Same (h h' : Heap Id) : Object Id → Prop
  | .holder x => h'.handle x = h.handle x ∧ h'.life x = h.life x
  | .promise f => h'.frames f = h.frames f
  | .awaiter _ => True

namespace Heap

theorem same_refl (h : Heap Id) (object : Object Id) : h.Same h object := by
  cases object <;> simp [Same]

theorem same_signal [DecidableEq Id] (h : Heap Id) (o : Id) (signal : Signal)
    (object : Object Id) : h.Same (h.signal o signal) object := by
  cases object <;> simp [Same, Heap.signal]

variable [DecidableEq Id] {h : Heap Id} {object : Object Id} {t o f g a : Id} {x y : Holder Id}
  {frame child : Frame Id}

theorem same_setFrame (hpromise : object ≠ .promise f) :
    h.Same (h.setFrame f frame) object := by
  cases object <;> simp_all [Same, setFrame]

theorem same_create (htask : object ≠ .holder (.task t)) (hpromise : object ≠ .promise f) :
    h.Same (h.create t f) object := by
  cases object <;> simp_all [Same, create]

theorem same_exchange (htarget : object ≠ .holder x) (hsource : object ≠ .holder y) :
    h.Same (h.exchange x y) object := by
  cases object <;> simp_all [Same, exchange]

theorem same_setLife {life : Life} (hholder : object ≠ .holder x) :
    h.Same (h.setLife x life) object := by
  cases object <;> simp_all [Same, setLife]

theorem same_connect {receiver : Receiver Id} (htask : object ≠ .holder (.task t))
    (hoperation : object ≠ .holder (.operation o)) (hpromise : object ≠ .promise f) :
    h.Same (h.connect t o f frame receiver) object := by
  cases object <;> simp_all [Same, connect, exchange, setLife, setFrame]

theorem same_suspendOn {operation : Option Id} (hpromise : object ≠ .promise f) :
    h.Same (h.suspendOn a f frame operation) object := by
  cases object <;> simp_all [Same, suspendOn, setFrame]

theorem same_removeAwaiter (hpromise : object ≠ .promise f) :
    h.Same (h.removeAwaiter a f frame) object := by
  cases object <;> simp_all [Same, removeAwaiter, setFrame]

theorem same_free (hholder : object ≠ .holder x) (hpromise : object ≠ .promise f) :
    h.Same (h.free x f) object := by
  cases object <;> simp_all [Same, free]

omit [DecidableEq Id] in
theorem Same.trans {h₁ h₂ h₃ : Heap Id} (hfirst : h₁.Same h₂ object)
    (hsecond : h₂.Same h₃ object) : h₁.Same h₃ object := by
  cases object with
  | holder x => exact ⟨hsecond.1.trans hfirst.1, hsecond.2.trans hfirst.2⟩
  | promise f => exact Eq.trans hsecond hfirst
  | awaiter a => trivial

end Heap

theorem Activation.Inv.congr {h h' : Heap Id} {activation : Activation Id}
    (hinv : activation.Inv h) (hpending : activation.isPending = false)
    (hsame : ∀ x ∈ activation.binds, h.Same h' x)
    (hrefs : ∀ x, .holder x ∈ activation.refs → h.life x = .alive → h'.life x = .alive) :
    activation.Inv h' := by
  cases activation with
  | user | called fn => trivial
  | pending fn => cases hpending
  | body f =>
      obtain ⟨frame, hframe, hstatus⟩ := hinv
      have hf : h'.frames f = h.frames f := hsame (.promise f) (by simp [Activation.binds])
      exact ⟨frame, hf.trans hframe, hstatus⟩
  | connecting t o f frame =>
      obtain ⟨hhandle, hframe, hstatus, hlife⟩ := hinv
      have ht : _ ∧ _ := hsame (.holder (.task t)) (by simp [Activation.binds])
      have ho : _ ∧ _ := hsame (.holder (.operation o)) (by simp [Activation.binds])
      have hf : _ = _ := hsame (.promise f) (by simp [Activation.binds])
      exact ⟨ht.1.trans hhandle, hf.trans hframe, hstatus, ho.2.trans hlife⟩
  | destroying x f after =>
      obtain ⟨hhandle, ⟨frame, hframe, hstatus⟩, hafter⟩ := hinv
      have hx : _ ∧ _ := hsame (.holder x) (by simp [Activation.binds])
      have hf : _ = _ := hsame (.promise f) (by simp [Activation.binds])
      refine ⟨hx.1.trans hhandle, ⟨frame, hf.trans hframe, hstatus⟩, ?_⟩
      intro other hother
      subst hother
      obtain ⟨hlife, hne⟩ := hafter other rfl
      exact ⟨hrefs (.task other) (by simp [Activation.refs]) hlife, hne⟩

structure Inv (s : State Id) : Prop where
  owned : Owned s.heap
  awaited : Awaited s.heap
  each : ∀ activation ∈ s.stack, activation.Inv s.heap
  apart : s.stack.Pairwise Activation.Apart
  calm : ∀ activation ∈ s.stack.tail, activation.isPending = false

namespace Inv

variable {s : State Id} {h' : Heap Id} {rest : List (Activation Id)} {x : Holder Id}
  {f a o t : Id} {frame : Frame Id}

theorem initial : Inv (State.initial : State Id) where
  owned := .initial
  awaited := .initial
  each := by simp [State.initial]
  apart := by simp [State.initial]
  calm := by simp [State.initial]

/-- The calls `old` on top of the stack become `new`, and no call under them
notices. -/
theorem replace (old new : List (Activation Id)) (hs : Inv s) (hstack : s.stack = old ++ rest)
    (howned : Owned h')
    (hawaited : Awaited h') (hcalm : ∀ activation ∈ rest, activation.isPending = false)
    (hsame : ∀ x ∈ rest.flatMap Activation.binds, s.heap.Same h' x)
    (hrefs : ∀ x, .holder x ∈ rest.flatMap Activation.refs → s.heap.life x = .alive →
      h'.life x = .alive)
    (heach : ∀ activation ∈ new, activation.Inv h') (hnew : new.Pairwise Activation.Apart)
    (htail : ∀ activation ∈ new.tail, activation.isPending = false)
    (happart : ∀ upper ∈ new, (∀ x ∈ upper.uses, x ∉ rest.flatMap Activation.binds) ∧
      ∀ x ∈ upper.kills, x ∉ rest.flatMap Activation.refs) :
    Inv ⟨h', new ++ rest⟩ where
  owned := howned
  awaited := hawaited
  each := by
    intro activation hmem
    rcases List.mem_append.mp hmem with hmem | hmem
    · exact heach activation hmem
    · apply (hs.each activation (by simp [hstack, hmem])).congr (hcalm activation hmem)
      · exact fun x hx => hsame x (List.mem_flatMap.mpr ⟨activation, hmem, hx⟩)
      · exact fun x hx => hrefs x (List.mem_flatMap.mpr ⟨activation, hmem, hx⟩)
  apart := by
    have hrest : rest.Pairwise Activation.Apart :=
      (List.pairwise_append.mp (hstack ▸ hs.apart)).2.1
    refine List.pairwise_append.mpr ⟨hnew, hrest, ?_⟩
    intro upper hupper lower hlower
    obtain ⟨huses, hkills⟩ := happart upper hupper
    exact ⟨fun x hx hbinds => huses x hx (List.mem_flatMap.mpr ⟨lower, hlower, hbinds⟩),
      fun x hx hreads => hkills x hx (List.mem_flatMap.mpr ⟨lower, hlower, hreads⟩)⟩
  calm := by
    intro activation hmem
    cases new with
    | nil => exact hcalm activation (List.mem_of_mem_tail hmem)
    | cons head tail =>
        rcases List.mem_append.mp hmem with hmem | hmem
        · exact htail activation hmem
        · exact hcalm activation hmem

/-! ## What is bound -/

theorem of_bound_promise (heach : ∀ activation ∈ rest, activation.Inv s.heap)
    (hbound : .promise f ∈ rest.flatMap Activation.binds) :
    s.heap.At f .running ∨ s.heap.At f .destroying ∨ s.heap.At f .suspended ∧
      ∃ t, s.heap.handle (.task t) = some f ∧
        .holder (.task t) ∈ rest.flatMap Activation.binds := by
  obtain ⟨activation, hmem, hbinds⟩ := List.mem_flatMap.mp hbound
  have hinv := heach activation hmem
  cases activation with
  | user | pending fn | called fn => simp [Activation.binds] at hbinds
  | body g =>
      obtain rfl : f = g := by simpa [Activation.binds] using hbinds
      exact .inl hinv
  | connecting t o g frame =>
      obtain rfl : f = g := by simpa [Activation.binds] using hbinds
      exact .inr (.inr ⟨⟨frame, hinv.2.1, hinv.2.2.1⟩, t, hinv.1,
        List.mem_flatMap.mpr ⟨_, hmem, by simp [Activation.binds]⟩⟩)
  | destroying x g after =>
      obtain rfl : f = g := by simpa [Activation.binds] using hbinds
      exact .inr (.inl hinv.2.1)

theorem of_bound_operation (heach : ∀ activation ∈ rest, activation.Inv s.heap)
    (hbound : .holder (.operation o) ∈ rest.flatMap Activation.binds) :
    s.heap.life (.operation o) = .unborn ∨
      ∃ f, s.heap.handle (.operation o) = some f ∧ s.heap.At f .destroying := by
  obtain ⟨activation, hmem, hbinds⟩ := List.mem_flatMap.mp hbound
  have hinv := heach activation hmem
  cases activation with
  | user | pending fn | called fn | body g => simp [Activation.binds] at hbinds
  | connecting t o' g frame =>
      obtain rfl : o = o' := by simpa [Activation.binds] using hbinds
      exact .inl hinv.2.2.2
  | destroying x g after =>
      obtain rfl : .operation o = x := by simpa [Activation.binds] using hbinds
      exact .inr ⟨g, hinv.1, hinv.2.1⟩

theorem status_eq {status : Status Id} (hat : s.heap.At f status)
    (hframe : s.heap.frames f = some frame) : frame.status = status := by
  obtain ⟨frame', hframe', hstatus⟩ := hat
  rw [hframe, Option.some.injEq] at hframe'
  rw [hframe', hstatus]

/-- A frame that awaits or has completed is not bound. -/
theorem promise_unbound (heach : ∀ activation ∈ rest, activation.Inv s.heap)
    (hframe : s.heap.frames f = some frame) (hrunning : frame.status ≠ .running)
    (hdestroying : frame.status ≠ .destroying) (hsuspended : frame.status ≠ .suspended) :
    .promise f ∉ rest.flatMap Activation.binds := by
  intro hbound
  rcases of_bound_promise heach hbound with hat | hat | ⟨hat, -⟩
  · exact hrunning (status_eq hat hframe)
  · exact hdestroying (status_eq hat hframe)
  · exact hsuspended (status_eq hat hframe)

/-- A suspended or completed frame is bound only together with its owner. -/
theorem promise_unbound_of_owner (hs : Inv s) (heach : ∀ activation ∈ rest, activation.Inv s.heap)
    (hhandle : s.heap.handle x = some f) (hframe : s.heap.frames f = some frame)
    (hidle : frame.status = .suspended ∨ frame.status = .completed)
    (hx : .holder x ∉ rest.flatMap Activation.binds) :
    .promise f ∉ rest.flatMap Activation.binds := by
  intro hbound
  rcases of_bound_promise heach hbound with hat | hat | ⟨hat, t, ht, hbound'⟩
  · rw [status_eq hat hframe] at hidle
    simp at hidle
  · rw [status_eq hat hframe] at hidle
    simp at hidle
  · rw [hs.owned.owners.unique _ _ _ hhandle ht] at hx
    exact hx hbound'

/-- The operation of a suspended or completed frame is not bound. -/
theorem operation_unbound (hs : Inv s) (heach : ∀ activation ∈ rest, activation.Inv s.heap)
    (hhandle : s.heap.handle (.operation o) = some f) (hframe : s.heap.frames f = some frame)
    (hstatus : frame.status ≠ .destroying) :
    .holder (.operation o) ∉ rest.flatMap Activation.binds := by
  intro hbound
  rcases of_bound_operation heach hbound with hunborn | ⟨g, hhandle', hat⟩
  · rw [hs.owned.alive _ _ hhandle] at hunborn
    cases hunborn
  · rw [hhandle, Option.some.injEq] at hhandle'
    exact hstatus (status_eq (hhandle' ▸ hat) hframe)

section Top

variable {top : Activation Id}

theorem each_top (hs : Inv s) (hstack : s.stack = top :: rest) : top.Inv s.heap :=
  hs.each top (by simp [hstack])

theorem each_rest (hs : Inv s) (hstack : s.stack = top :: rest) :
    ∀ activation ∈ rest, activation.Inv s.heap :=
  fun activation hmem => hs.each activation (by simp [hstack, hmem])

theorem calm_rest (hs : Inv s) (hstack : s.stack = top :: rest) :
    ∀ activation ∈ rest, activation.isPending = false :=
  fun activation hmem => hs.calm activation (by simp [hstack, hmem])

theorem top_unbound (hs : Inv s) (hstack : s.stack = top :: rest) {object : Object Id}
    (huses : object ∈ top.uses) : object ∉ rest.flatMap Activation.binds := by
  intro hbound
  obtain ⟨lower, hlower, hbinds⟩ := List.mem_flatMap.mp hbound
  exact ((List.pairwise_cons.mp (hstack ▸ hs.apart)).1 lower hlower).1 object huses hbinds

theorem top_unread (hs : Inv s) (hstack : s.stack = top :: rest) {object : Object Id}
    (hkills : object ∈ top.kills) : object ∉ rest.flatMap Activation.refs := by
  intro hreads
  obtain ⟨lower, hlower, hrefs⟩ := List.mem_flatMap.mp hreads
  exact ((List.pairwise_cons.mp (hstack ▸ hs.apart)).1 lower hlower).2 object hkills hrefs

/-- A call returns and the heap stays as it is. -/
theorem pop (hs : Inv s) (hstack : s.stack = top :: rest) : Inv ⟨s.heap, rest⟩ := by
  apply hs.replace [top] [] hstack hs.owned hs.awaited (hs.calm_rest hstack)
  · exact fun object _ => s.heap.same_refl object
  · exact fun x _ hlife => hlife
  · simp
  · simp
  · simp
  · simp

end Top

theorem calm_of_userRuns (hs : Inv s) (huser : s.userRuns = true) :
    ∀ activation ∈ s.stack, activation.isPending = false := by
  intro activation hmem
  cases hstack : s.stack with
  | nil => simp [hstack] at hmem
  | cons top rest =>
      rw [hstack] at hmem
      rcases List.mem_cons.mp hmem with rfl | hmem
      · simp only [State.userRuns, hstack, List.head?_cons, Option.map_some,
          Option.getD_some] at huser
        cases activation with
        | pending fn => cases huser
        | _ => rfl
      · exact hs.calm_rest hstack activation hmem

/-- User code changes objects that no call binds. -/
theorem modify (hs : Inv s) (huser : s.userRuns = true) (howned : Owned h')
    (hawaited : Awaited h') (hsame : ∀ object ∈ s.bound, s.heap.Same h' object)
    (hrefs : ∀ x, .holder x ∈ s.refs → s.heap.life x = .alive → h'.life x = .alive) :
    Inv { s with heap := h' } := by
  apply hs.replace [] [] rfl howned hawaited (hs.calm_of_userRuns huser) hsame hrefs
  · simp
  · simp
  · simp
  · simp

/-- User code makes a call. -/
theorem push (hs : Inv s) (huser : s.userRuns = true) (howned : Owned h')
    (hawaited : Awaited h') (hsame : ∀ object ∈ s.bound, s.heap.Same h' object)
    (hlife : ∀ x, s.heap.life x = .alive → h'.life x = .alive) {activation : Activation Id}
    (hinv : activation.Inv h') (huses : ∀ object ∈ activation.uses, object ∉ s.bound)
    (hkills : ∀ object ∈ activation.kills, object ∉ s.refs) :
    Inv ⟨h', activation :: s.stack⟩ := by
  apply hs.replace [] [activation] rfl howned hawaited (hs.calm_of_userRuns huser) hsame
  · exact fun x _ => hlife x
  · simpa using hinv
  · simp
  · simp
  · intro upper hmem
    obtain rfl := List.mem_singleton.mp hmem
    exact ⟨huses, hkills⟩

/-- A function of the chain makes its call. -/
theorem call (hs : Inv s) {fn : Fn Id} (hstack : s.stack = .pending fn :: rest)
    (howned : Owned h') (hawaited : Awaited h')
    (hsame : ∀ object ∈ rest.flatMap Activation.binds, s.heap.Same h' object)
    (hlife : h'.life = s.heap.life) {activation : Activation Id} (hinv : activation.Inv h')
    (huses : ∀ object ∈ activation.uses, object ∉ rest.flatMap Activation.binds)
    (hkills : activation.kills = []) : Inv ⟨h', activation :: .called fn :: rest⟩ := by
  apply hs.replace [.pending fn] [activation, .called fn] hstack howned hawaited
    (hs.calm_rest hstack) hsame
  · exact fun x _ halive => by rw [hlife, halive]
  · simpa [Activation.Inv] using hinv
  · simp [Activation.Apart, Activation.binds, Activation.refs]
  · simp [Activation.isPending]
  · intro upper hmem
    rcases List.mem_cons.mp hmem with rfl | hmem
    · exact ⟨huses, by simp [hkills]⟩
    · obtain rfl := List.mem_singleton.mp hmem
      simp [Activation.uses, Activation.kills, Activation.binds, Activation.refs]

end Inv

end Bexec.Task
