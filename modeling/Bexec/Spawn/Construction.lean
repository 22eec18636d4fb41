import Bexec.Foundation.Lifetime

/-! # Calls of `spawn` and `spawn_future`

What a call constructs and where it may throw. The association is the last
member to be made, and the child starts after it.
-/

namespace Bexec.Spawn.Construction

open Foundation

/-- The by-value parameters of the constructor of the state. -/
inductive Parameter
  | sender | token | env | allocator
  deriving DecidableEq, Repr

/-- The objects of a call, and the block of the state. -/
inductive Object
  | envObject | wrappedSender | byteAlloc | allocator
  | block
  | parameter (p : Parameter)
  | byteAllocatorMember | allocatorMember | envMember | stopSource | operation | association
  | result
  | finishAssociation | finishAllocator
  deriving DecidableEq, Repr

/-- Where a call may throw. -/
inductive Point
  | copyEnv | wrapSender | getAllocator | allocate
  | parameter (p : Parameter)
  | moveEnv | connect
  deriving DecidableEq, Repr

/-- What happens besides. -/
inductive Act
  | associate | startChild | setStopped
  deriving DecidableEq, Repr

abbrev Event := LifetimeEvent Object Act

/-- A call: what throws, the order in which the parameters are initialized,
whether the allocator's `construct` is `noexcept`, and whether the scope
accepts. -/
structure Call (E : Type*) where
  raises : Point → Option E
  parameters : List Parameter
  constructNoexcept : Bool
  accepts : Bool
  each : parameters.Perm [.sender, .token, .env, .allocator]
  quiet : constructNoexcept = true →
    raises .moveEnv = none ∧ raises .connect = none ∧ ∀ p, raises (.parameter p) = none

namespace Call

variable {E : Type*} (call : Call E)

abbrev attempt (point : Point) : Logged Event E Unit :=
  Logged.attempt call.raises point

/-- Members and locals whose constructors throw nothing. -/
abbrev noThrow : Logged Event E Unit :=
  .pure ()

/-- The parameters of a constructor, around its body. -/
def withParameters (parameters : List Parameter) (body : Logged Event E Unit) :
    Logged Event E Unit :=
  parameters.foldr
    (fun p rest => Logged.withLocal (.parameter p) (call.attempt (.parameter p)) rest) body

/-- Allocate the block and construct in it; `catch (...)` deallocates and
rethrows. -/
def allocateAndConstruct (constructor : Logged Event E Unit) : Logged Event E Unit :=
  (call.attempt .allocate).bind fun _ =>
    Logged.after [.acquire .block]
      (if call.constructNoexcept then constructor.noexcept
      else constructor.catching fun e => (Logged.raise e).after [.release .block])

/-- `association_(token.try_associate())`. -/
def tryAssociate : List Event :=
  if call.accepts then [.act .associate] else []

/-- The members of `spawn_operation`. -/
def spawnOperation : Logged Event E Unit :=
  Logged.member .envMember (call.attempt .moveEnv) <|
    Logged.member .allocatorMember noThrow <|
      Logged.member .operation (call.attempt .connect) <|
        Logged.after call.tryAssociate <|
          Logged.member .association noThrow <|
            Logged.perform []

/-- `spawn_operation::finish`, before the child was started. -/
def finish : List Event :=
  [.acquire .finishAssociation, .acquire .finishAllocator, .release .association,
    .release .operation, .release .allocatorMember, .release .envMember, .release .block,
    .release .finishAllocator, .release .finishAssociation]

/-- `spawn_operation::start`, up to the start of the child. -/
def startOperation : List Event :=
  if call.accepts then [.act .startChild] else finish

/-- `spawn`. -/
def spawn : Logged Event E Unit :=
  Logged.withLocal .envObject (call.attempt .copyEnv) <|
    Logged.withLocal .wrappedSender (call.attempt .wrapSender) <|
      Logged.withLocal .byteAlloc (call.attempt .getAllocator) <|
        Logged.withLocal .allocator noThrow <|
          (call.allocateAndConstruct (call.withParameters call.parameters call.spawnOperation)).bind
            fun _ => Logged.perform call.startOperation

/-- The body of the constructor of `spawn_future_state`. -/
def startFuture : List Event :=
  if call.accepts then [.act .startChild] else [.act .setStopped]

/-- The members and the body of `spawn_future_state`. -/
def spawnFutureState : Logged Event E Unit :=
  Logged.member .byteAllocatorMember noThrow <|
    Logged.member .envMember (call.attempt .moveEnv) <|
      Logged.member .stopSource noThrow <|
        Logged.member .operation (call.attempt .connect) <|
          Logged.after call.tryAssociate <|
            Logged.member .association noThrow <|
              Logged.member .result noThrow <|
                Logged.perform call.startFuture

/-- `spawn_future`, up to the sender it returns. -/
def spawnFuture : Logged Event E Unit :=
  Logged.withLocal .envObject (call.attempt .copyEnv) <|
    Logged.withLocal .wrappedSender (call.attempt .wrapSender) <|
      Logged.withLocal .byteAlloc (call.attempt .getAllocator) <|
        Logged.withLocal .allocator noThrow <|
          call.allocateAndConstruct (call.withParameters call.parameters call.spawnFutureState)

/-! ## How a call ends -/

/-- The points of a call in order. -/
def points : List Point :=
  [.copyEnv, .wrapSender, .getAllocator, .allocate] ++
    (call.parameters.map .parameter ++ [.moveEnv, .connect])

/-- What the call throws: the exception of the first point that throws. -/
def exception : Option E :=
  call.points.findSome? call.raises

def spawnObjects : List Object :=
  [.envObject, .wrappedSender, .byteAlloc, .allocator, .block] ++
    (call.parameters.map .parameter ++ [.envMember, .allocatorMember, .operation, .association])

def spawnFutureObjects : List Object :=
  [.envObject, .wrappedSender, .byteAlloc, .allocator, .block] ++
    (call.parameters.map .parameter ++
      [.byteAllocatorMember, .envMember, .stopSource, .operation, .association, .result])

/-- The parameters around what happens in the body. -/
def aroundParameters (parameters : List Parameter) (body : List Event) : List Event :=
  parameters.map (fun p => .acquire (.parameter p)) ++ body ++
    parameters.reverse.map fun p => .release (.parameter p)

variable {call}

theorem withParameters_unwinds {points : List Point} {resources : List Object} {done : List Event}
    {body : Logged Event E Unit} (parameters : List Parameter)
    (h : Unwinds call.raises points resources done body) :
    Unwinds call.raises (parameters.map .parameter ++ points)
      (parameters.map .parameter ++ resources) (aroundParameters parameters done)
      (call.withParameters parameters body) := by
  induction parameters with
  | nil => simpa [aroundParameters, withParameters] using h
  | cons p parameters ih => simpa [aroundParameters, withParameters] using ih.withLocal _ _

theorem allocateAndConstruct_eq (constructor : Logged Event E Unit) :
    call.allocateAndConstruct constructor = Logged.member .block (call.attempt .allocate)
      (if call.constructNoexcept then constructor.noexcept else constructor) := by
  unfold allocateAndConstruct Logged.member
  split
  · rw [Logged.unwinding_noexcept]
  · rw [Logged.catching_rethrow]

theorem allocateAndConstruct_unwinds {resources : List Object} {done : List Event}
    {constructor : Logged Event E Unit}
    (h : Unwinds call.raises (call.parameters.map .parameter ++ [.moveEnv, .connect]) resources done
      constructor) :
    Unwinds call.raises (.allocate :: (call.parameters.map .parameter ++ [.moveEnv, .connect]))
      (.block :: resources) (.acquire .block :: done) (call.allocateAndConstruct constructor) := by
  rw [allocateAndConstruct_eq]
  apply Unwinds.member
  split
  · next hnoexcept =>
      -- an allocator that declares this throws nothing
      obtain ⟨hmove, hconnect, hparameters⟩ := call.quiet hnoexcept
      apply h.noexcept
      simp [hmove, hconnect, hparameters]
  · exact h

variable (call)

theorem spawnOperation_unwinds :
    Unwinds call.raises [.moveEnv, .connect]
      [.envMember, .allocatorMember, .operation, .association]
      (([.acquire .envMember, .acquire .allocatorMember, .acquire .operation] : List Event) ++
        (call.tryAssociate ++ [.acquire .association])) call.spawnOperation :=
  (((((Unwinds.perform []).member_quiet _).after_quiet _).member _ _).member_quiet _).member _ _

theorem spawnFutureState_unwinds :
    Unwinds call.raises [.moveEnv, .connect]
      [.byteAllocatorMember, .envMember, .stopSource, .operation, .association, .result]
      (([.acquire .byteAllocatorMember, .acquire .envMember, .acquire .stopSource,
        .acquire .operation] : List Event) ++ (call.tryAssociate ++
          (.acquire .association :: .acquire .result :: call.startFuture)))
      call.spawnFutureState :=
  ((((((((Unwinds.perform _).member_quiet _).member_quiet _).after_quiet _).member _ _).member_quiet
    _).member _ _).member_quiet _)

/-- The locals around what happens in the body of a call. -/
def aroundLocals (body : List Event) : List Event :=
  [.acquire .envObject, .acquire .wrappedSender, .acquire .byteAlloc, .acquire .allocator] ++
    body ++ [.release .allocator, .release .byteAlloc, .release .wrappedSender, .release .envObject]

theorem spawn_unwinds :
    Unwinds call.raises call.points call.spawnObjects
      (aroundLocals (.acquire .block :: (aroundParameters call.parameters
        (([.acquire .envMember, .acquire .allocatorMember, .acquire .operation] : List Event) ++
          (call.tryAssociate ++ [.acquire .association])) ++ call.startOperation))) call.spawn := by
  have hconstructor := withParameters_unwinds call.parameters call.spawnOperation_unwinds
  have hbody := (allocateAndConstruct_unwinds hconstructor).bind_perform call.startOperation
  have hcall := (((hbody.local_quiet .allocator).withLocal .byteAlloc .getAllocator).withLocal
    .wrappedSender .wrapSender).withLocal .envObject .copyEnv
  simpa [points, spawnObjects, aroundLocals, spawn] using hcall

theorem spawnFuture_unwinds :
    Unwinds call.raises call.points call.spawnFutureObjects
      (aroundLocals (.acquire .block :: aroundParameters call.parameters
        (([.acquire .byteAllocatorMember, .acquire .envMember, .acquire .stopSource,
          .acquire .operation] : List Event) ++ (call.tryAssociate ++
            (.acquire .association :: .acquire .result :: call.startFuture)))))
      call.spawnFuture := by
  have hconstructor := withParameters_unwinds call.parameters call.spawnFutureState_unwinds
  have hbody := allocateAndConstruct_unwinds hconstructor
  have hcall := (((hbody.local_quiet .allocator).withLocal .byteAlloc .getAllocator).withLocal
    .wrappedSender .wrapSender).withLocal .envObject .copyEnv
  simpa [points, spawnFutureObjects, aroundLocals, spawnFuture] using hcall

theorem parameters_nodup : call.parameters.Nodup := by
  rw [call.each.nodup_iff]
  decide

theorem spawnObjects_nodup : call.spawnObjects.Nodup := by
  have hparameters : (call.parameters.map Object.parameter).Nodup := by
    apply call.parameters_nodup.map
    intro p q heq
    cases heq
    rfl
  simp [spawnObjects, List.nodup_append, hparameters]

theorem spawnFutureObjects_nodup : call.spawnFutureObjects.Nodup := by
  have hparameters : (call.parameters.map Object.parameter).Nodup := by
    apply call.parameters_nodup.map
    intro p q heq
    cases heq
    rfl
  simp [spawnFutureObjects, List.nodup_append, hparameters]

/-- Every point belongs to the call. -/
theorem mem_points (point : Point) : point ∈ call.points := by
  cases point with
  | parameter p =>
      have hmem : p ∈ call.parameters := by
        rw [call.each.mem_iff]
        cases p <;> decide
      simp [points, hmem]
  | copyEnv | wrapSender | getAllocator | allocate | moveEnv | connect => simp [points]

theorem exception_eq_none_iff : call.exception = none ↔ ∀ point, call.raises point = none := by
  unfold exception
  rw [List.findSome?_eq_none_iff]
  constructor
  · intro h point
    exact h point (call.mem_points point)
  · intro h point _
    exact h point

/-! ## A call that throws, and one that does not -/

/-- The call throws `e`, and everything it constructed is destroyed. Neither an
association is made nor the child started. -/
structure ChangesNothing (e : E) (outcome : Logged Event E Unit) : Prop where
  ending : outcome.ending = .raised e
  undone : Undone outcome.log

/-- The call returns. The child starts once, after one association was made. -/
structure StartsAssociated (outcome : Logged Event E Unit) : Prop where
  ending : outcome.ending = .value ()
  starts : ∃ before after, outcome.log = before ++ .act .startChild :: after ∧
    before.count (.act .associate) = 1 ∧ .act .startChild ∉ before ∧ ∀ act, .act act ∉ after

@[simp] theorem count_act_acquires (parameters : List Parameter) (act : Act) :
    (parameters.map fun p => (.acquire (.parameter p) : Event)).count (.act act) = 0 := by
  simp [List.count_eq_zero]

@[simp] theorem count_act_releases (parameters : List Parameter) (act : Act) :
    (parameters.map fun p => (.release (.parameter p) : Event)).count (.act act) = 0 := by
  simp [List.count_eq_zero]

theorem startsAssociated_of_unwinds {objects : List Object} {done : List Event}
    {outcome : Logged Event E Unit} (before after : List Event)
    (h : Unwinds call.raises call.points objects done outcome) (hquiet : call.exception = none)
    (hdone : done = before ++ .act .startChild :: after)
    (hassociate : before.count (.act .associate) = 1) (hbefore : .act .startChild ∉ before)
    (hafter : ∀ act, .act act ∉ after) : StartsAssociated outcome := by
  constructor
  · rw [h.ending]
    exact congrArg thrown hquiet
  · exact ⟨before, after, (h.done hquiet).trans hdone, hassociate, hbefore, hafter⟩

theorem spawn_startsAssociated (hquiet : call.exception = none) (haccepts : call.accepts = true) :
    StartsAssociated call.spawn := by
  apply call.startsAssociated_of_unwinds
    (([.acquire .envObject, .acquire .wrappedSender, .acquire .byteAlloc, .acquire .allocator,
      .acquire .block] : List Event) ++ aroundParameters call.parameters
        (([.acquire .envMember, .acquire .allocatorMember, .acquire .operation] : List Event) ++
          (call.tryAssociate ++ [.acquire .association])))
    [.release .allocator, .release .byteAlloc, .release .wrappedSender, .release .envObject]
    call.spawn_unwinds hquiet
  · simp [aroundLocals, startOperation, haccepts]
  · simp [aroundParameters, tryAssociate, haccepts]
  · simp [aroundParameters, tryAssociate, haccepts]
  · simp

theorem spawnFuture_startsAssociated (hquiet : call.exception = none)
    (haccepts : call.accepts = true) : StartsAssociated call.spawnFuture := by
  apply call.startsAssociated_of_unwinds
    (([.acquire .envObject, .acquire .wrappedSender, .acquire .byteAlloc, .acquire .allocator,
      .acquire .block] : List Event) ++
        call.parameters.map (fun p => (.acquire (.parameter p) : Event)) ++
        (([.acquire .byteAllocatorMember, .acquire .envMember, .acquire .stopSource,
          .acquire .operation] : List Event) ++ (call.tryAssociate ++
            [.acquire .association, .acquire .result])))
    (call.parameters.reverse.map (fun p => (.release (.parameter p) : Event)) ++
      [.release .allocator, .release .byteAlloc, .release .wrappedSender, .release .envObject])
    call.spawnFuture_unwinds hquiet
  · simp [aroundLocals, aroundParameters, startFuture, haccepts]
  · simp [tryAssociate, haccepts]
  · simp [tryAssociate, haccepts]
  · simp

/-- A `spawn` or `spawn_future` that throws changes nothing; one that does not,
in a scope that accepts, makes one association before the child starts. -/
theorem failed_call_changes_nothing (call : Call E) :
    (∀ e, call.exception = some e →
      ChangesNothing e call.spawn ∧ ChangesNothing e call.spawnFuture) ∧
    (call.exception = none → (∀ point, call.raises point = none) ∧
      (call.accepts = true → StartsAssociated call.spawn ∧ StartsAssociated call.spawnFuture)) := by
  constructor
  · intro e hthrows
    obtain ⟨hspawn, hspawnUndone⟩ :=
      call.spawn_unwinds.undone_of_throws call.spawnObjects_nodup hthrows
    obtain ⟨hfuture, hfutureUndone⟩ :=
      call.spawnFuture_unwinds.undone_of_throws call.spawnFutureObjects_nodup hthrows
    exact ⟨⟨hspawn, hspawnUndone⟩, hfuture, hfutureUndone⟩
  · intro hquiet
    refine ⟨call.exception_eq_none_iff.mp hquiet, ?_⟩
    intro haccepts
    exact ⟨call.spawn_startsAssociated hquiet haccepts,
      call.spawnFuture_startsAssociated hquiet haccepts⟩

/-- The connection throws, after the parameters were initialized from the right. -/
def connectThrows : Call ℕ where
  raises point := if point = .connect then some 7 else none
  parameters := [.allocator, .env, .token, .sender]
  constructNoexcept := false
  accepts := true
  each := by decide
  quiet h := by cases h

/-- Nothing throws, and `construct` is `noexcept`. -/
def nothingThrows : Call ℕ where
  raises _ := none
  parameters := [.sender, .token, .env, .allocator]
  constructNoexcept := true
  accepts := true
  each := .refl _
  quiet _ := ⟨rfl, rfl, fun _ => rfl⟩

theorem failed_call_changes_nothing_connectThrows :
    (ChangesNothing 7 connectThrows.spawn ∧ ChangesNothing 7 connectThrows.spawnFuture) ∧
      StartsAssociated nothingThrows.spawn ∧ StartsAssociated nothingThrows.spawnFuture := by
  obtain ⟨hthrows, -⟩ := failed_call_changes_nothing connectThrows
  obtain ⟨-, hquiet⟩ := failed_call_changes_nothing nothingThrows
  exact ⟨hthrows 7 (by decide), (hquiet (by decide)).2 rfl⟩

end Call

end Bexec.Spawn.Construction
