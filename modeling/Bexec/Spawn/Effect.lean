import Bexec.Spawn.Step

/-!
# Effects of a step

A step is a step of other code on the scope, or it turns one call on one
operation: it moves the call from place to place, records what it did and may
let the scope make one step.
-/

namespace Bexec.Spawn

open Foundation

variable {Thread Op Handle Join : Type} [Fintype Thread] [DecidableEq Thread] [DecidableEq Op]
  {s s' : State Thread Op Handle Join} {t : Thread} {k k' : Op} {old new : List Place}
  {events : List Event}

namespace State

/-- How many calls on the operation are at the place. -/
def callsAt (s : State Thread Op Handle Join) (place : Place) (k : Op) : Nat :=
  CallStack.census (fun frame => frame.place = place ∧ frame.op = k) s.stack

/-- How often something has happened to the operation. -/
def times (s : State Thread Op Handle Join) (event : Event) (k : Op) : Nat :=
  s.log.count (event, k)

end State

/-- A call on one operation goes from the old places to the new ones. -/
structure Turns (s s' : State Thread Op Handle Join) (t : Thread) (k : Op) (old new : List Place)
    (events : List Event) : Prop where
  stack : ∃ rest, s.stack t = old.map (fun place => ⟨place, k, s.height t⟩) ++ rest ∧
    s'.stack = Function.update s.stack t (new.map (fun place => ⟨place, k, s.height t⟩) ++ rest)
  log : s'.log = events.map (fun event => (event, k)) ++ s.log

namespace Turns

theorem countP_map (places : List Place) (place : Place) (depth : Nat) :
    (places.map (fun place => (⟨place, k, depth⟩ : Frame Op))).countP
      (fun frame => frame.place = place ∧ frame.op = k') =
      if k = k' then places.count place else 0 := by
  rw [List.countP_map]
  by_cases heq : k = k'
  · rw [if_pos heq, List.count]
    congr 1
    ext p
    simp [heq, beq_eq_decide]
  · rw [if_neg heq, List.countP_eq_zero]
    simp [heq]

theorem count_map (event : Event) :
    (events.map (fun event => (event, k))).count (event, k') =
      if k = k' then events.count event else 0 := by
  rw [List.count, List.countP_map]
  by_cases heq : k = k'
  · rw [if_pos heq, List.count]
    congr 1
    ext e
    simp [heq]
  · rw [if_neg heq, List.countP_eq_zero]
    simp [heq]

theorem callsAt_eq (h : Turns s s' t k old new events) (place : Place) :
    s'.callsAt place k + old.count place = s.callsAt place k + new.count place := by
  obtain ⟨rest, hstack, hstack'⟩ := h.stack
  have hcensus := CallStack.census_replace (fun frame => frame.place = place ∧ frame.op = k) _
    (new.map (fun place => (⟨place, k, s.height t⟩ : Frame Op))) hstack
  rw [countP_map, countP_map, if_pos rfl, if_pos rfl, ← hstack'] at hcensus
  exact hcensus

theorem callsAt_other (h : Turns s s' t k old new events) (hne : k ≠ k') (place : Place) :
    s'.callsAt place k' = s.callsAt place k' := by
  obtain ⟨rest, hstack, hstack'⟩ := h.stack
  have hcensus := CallStack.census_replace (fun frame => frame.place = place ∧ frame.op = k') _
    (new.map (fun place => (⟨place, k, s.height t⟩ : Frame Op))) hstack
  rw [countP_map, countP_map, if_neg hne, if_neg hne, ← hstack'] at hcensus
  exact hcensus

theorem callsAt_pos (h : Turns s s' t k old new events) (place : Place) (hplace : place ∈ old) :
    0 < s.callsAt place k := by
  obtain ⟨rest, hstack, -⟩ := h.stack
  refine CallStack.census_pos.mpr ⟨t, ⟨place, k, s.height t⟩, ?_, by simp⟩
  rw [hstack]
  exact List.mem_append_left _ (List.mem_map.mpr ⟨place, hplace, rfl⟩)

omit [Fintype Thread] in
theorem times_eq (h : Turns s s' t k old new events) (event : Event) :
    s'.times event k = events.count event + s.times event k := by
  unfold State.times
  rw [h.log, List.count_append, count_map, if_pos rfl]

omit [Fintype Thread] in
theorem times_other (h : Turns s s' t k old new events) (hne : k ≠ k') (event : Event) :
    s'.times event k' = s.times event k' := by
  unfold State.times
  rw [h.log, List.count_append, count_map, if_neg hne, Nat.zero_add]

end Turns

/-- The ways in which a call on an operation moves. `arriveFirst` and
`arriveSecond` are the two outcomes of the `test_and_set`. -/
inductive Turn
  | spawn
  | associate
  | accept
  | reject
  | startReturn
  | complete
  | arriveFirst
  | arriveSecond
  | move
  | destroy
  | destroyed
  | deallocate
  | release
  deriving DecidableEq

namespace Turn

def leaves : Turn → List Place
  | .spawn => []
  | .associate => [.construct]
  | .accept => [.start]
  | .reject => [.start]
  | .startReturn => [.starting]
  | .complete => []
  | .arriveFirst => [.arrive]
  | .arriveSecond => [.arrive]
  | .move => [.finish]
  | .destroy => [.destroy]
  | .destroyed => [.destroying]
  | .deallocate => [.deallocate]
  | .release => [.release]

def enters : Turn → List Place
  | .spawn => [.construct]
  | .associate => [.start]
  | .accept => [.starting]
  | .reject => [.finish]
  | .startReturn => [.arrive]
  | .complete => [.arrive]
  | .arriveFirst => []
  | .arriveSecond => [.finish]
  | .move => [.destroy]
  | .destroy => [.destroying]
  | .destroyed => [.deallocate]
  | .deallocate => [.release]
  | .release => []

def records : Turn → List Event
  | .spawn => [.spawned]
  | .associate => []
  | .accept => [.started]
  | .reject => [.finishing, .rejected]
  | .startReturn => [.startReturned]
  | .complete => [.completed]
  | .arriveFirst => [.arrived]
  | .arriveSecond => [.finishing, .arrived]
  | .move => [.moved]
  | .destroy => []
  | .destroyed => [.destroyed]
  | .deallocate => [.deallocated]
  | .release => [.released]

/-- The step the scope makes. -/
def scopeAction (t : Thread) (k : Op) :
    Turn → Option (CountingScope.Action Thread (Holder Op Handle) Join)
  | .associate => some (.associate t (.association k))
  | .move => some (.moveConstruct t (.moved k) (.association k))
  | .destroy => some (.destroy t (.association k))
  | .release => some (.destroy t (.moved k))
  | _ => none

/-- When the call takes the turn. -/
def Guard (s : State Thread Op Handle Join) (t : Thread) (k : Op) : Turn → Prop
  | .spawn => s.scope.atUser t = true ∧ s.times .spawned k = 0
  | .accept => .association k ∈ s.scope.engaged
  | .reject => .association k ∉ s.scope.engaged
  | .complete => s.scope.atUser t = true ∧ 0 < s.times .started k ∧ s.times .completed k = 0
  | .arriveFirst => k ∉ s.arrived
  | .arriveSecond => k ∈ s.arrived
  | _ => True

def allocated (k : Op) (before : Finset Op) : Turn → Finset Op
  | .spawn => insert k before
  | .deallocate => before.erase k
  | _ => before

def alive (k : Op) (before : Finset Op) : Turn → Finset Op
  | .spawn => insert k before
  | .destroyed => before.erase k
  | _ => before

def arrived (k : Op) (before : Finset Op) : Turn → Finset Op
  | .arriveFirst => insert k before
  | _ => before

end Turn

variable [DecidableEq Handle] [DecidableEq Join]

/-- One turn of a call: the frames and records that it changes, the step the
scope makes in it, and the storage that it allocates or frees. -/
structure TurnEffect (s s' : State Thread Op Handle Join) (t : Thread) (k : Op) (turn : Turn) :
    Prop where
  turns : Turns s s' t k turn.leaves turn.enters turn.records
  guard : turn.Guard s t k
  still : (turn.scopeAction t k :
      Option (CountingScope.Action Thread (Holder Op Handle) Join)) = none → s'.scope = s.scope
  step : ∀ a, turn.scopeAction t k = some a → CountingScope.step s.scope a = some s'.scope
  allocated : s'.allocated = turn.allocated k s.allocated
  alive : s'.alive = turn.alive k s.alive
  arrived : s'.arrived = turn.arrived k s.arrived

/-- What one step does: a step of the scope that no call of this component
makes, or a turn of a call. -/
inductive Effect (s s' : State Thread Op Handle Join) : Prop
  | scope (a : CountingScope.Action Thread (Holder Op Handle) Join) (hforeign : s.foreign a = true)
      (hstep : CountingScope.step s.scope a = some s'.scope) (hstack : s'.stack = s.stack)
      (hlog : s'.log = s.log) (hallocated : s'.allocated = s.allocated)
      (halive : s'.alive = s.alive) (harrived : s'.arrived = s.arrived)
  | turn (t : Thread) (k : Op) (turn : Turn) (heffect : TurnEffect s s' t k turn)

/-- A turn in which the scope is not touched. -/
theorem TurnEffect.quiet {turn : Turn}
    (hturns : Turns s s' t k turn.leaves turn.enters turn.records) (hguard : turn.Guard s t k)
    (hnone : (turn.scopeAction t k :
      Option (CountingScope.Action Thread (Holder Op Handle) Join)) = none)
    (hscope : s'.scope = s.scope) (hallocated : s'.allocated = turn.allocated k s.allocated)
    (halive : s'.alive = turn.alive k s.alive) (harrived : s'.arrived = turn.arrived k s.arrived) :
    TurnEffect s s' t k turn := by
  constructor
  · exact hturns
  · exact hguard
  · intro _
    exact hscope
  · intro a ha
    rw [hnone] at ha
    cases ha
  · exact hallocated
  · exact halive
  · exact harrived

/-- A turn in which the scope makes a step. -/
theorem TurnEffect.scoped {turn : Turn}
    {a : CountingScope.Action Thread (Holder Op Handle) Join}
    (hturns : Turns s s' t k turn.leaves turn.enters turn.records) (hguard : turn.Guard s t k)
    (hsome : turn.scopeAction t k = some a)
    (hscope : CountingScope.step s.scope a = some s'.scope)
    (hallocated : s'.allocated = turn.allocated k s.allocated)
    (halive : s'.alive = turn.alive k s.alive) (harrived : s'.arrived = turn.arrived k s.arrived) :
    TurnEffect s s' t k turn := by
  constructor
  · exact hturns
  · exact hguard
  · intro hnone
    rw [hsome] at hnone
    cases hnone
  · intro b hb
    rw [hsome] at hb
    cases hb
    exact hscope
  · exact hallocated
  · exact halive
  · exact harrived

variable {rest : List (Frame Op)} {op : Op}

theorem via_eq {before : State Thread Op Handle Join}
    {a : CountingScope.Action Thread (Holder Op Handle) Join} (hvia : before.via a = some s') :
    ∃ scope, CountingScope.step before.scope a = some scope ∧
      s' = { before with scope := scope } := by
  obtain ⟨scope, hstep, heq⟩ := Option.map_eq_some_iff.mp hvia
  exact ⟨scope, hstep, heq.symm⟩

theorem Effect.advance {place : Place} (hstack : s.stack t = ⟨place, op, s.height t⟩ :: rest)
    (hstep : s.advance t rest op (s.height t) place = some s') : Effect s s' := by
  cases place with
  | construct =>
      obtain ⟨scope, hscope, rfl⟩ := via_eq hstep
      apply Effect.turn t op .associate
      exact .scoped ⟨⟨rest, hstack, rfl⟩, rfl⟩ trivial rfl hscope rfl rfl rfl
  | start =>
      simp only [State.advance, State.start, Option.some.injEq] at hstep
      split at hstep
      · next hengaged =>
          subst hstep
          exact .turn t op .accept (.quiet ⟨⟨rest, hstack, rfl⟩, rfl⟩ hengaged rfl rfl rfl rfl rfl)
      · next hengaged =>
          subst hstep
          exact .turn t op .reject (.quiet ⟨⟨rest, hstack, rfl⟩, rfl⟩ hengaged rfl rfl rfl rfl rfl)
  | arrive =>
      simp only [State.advance, State.arrive, Option.some.injEq] at hstep
      split at hstep
      · next harrived =>
          subst hstep
          exact .turn t op .arriveSecond (.quiet ⟨⟨rest, hstack, rfl⟩, rfl⟩ harrived rfl rfl rfl rfl rfl)
      · next harrived =>
          subst hstep
          exact .turn t op .arriveFirst (.quiet ⟨⟨rest, hstack, rfl⟩, rfl⟩ harrived rfl rfl rfl rfl rfl)
  | finish =>
      obtain ⟨scope, hscope, rfl⟩ := via_eq hstep
      apply Effect.turn t op .move
      exact .scoped ⟨⟨rest, hstack, rfl⟩, rfl⟩ trivial rfl hscope rfl rfl rfl
  | destroy =>
      obtain ⟨scope, hscope, rfl⟩ := via_eq hstep
      apply Effect.turn t op .destroy
      exact .scoped ⟨⟨rest, hstack, rfl⟩, rfl⟩ trivial rfl hscope rfl rfl rfl
  | release =>
      obtain ⟨scope, hscope, rfl⟩ := via_eq hstep
      apply Effect.turn t op .release
      exact .scoped ⟨⟨rest, hstack, rfl⟩, rfl⟩ trivial rfl hscope rfl rfl rfl
  | deallocate =>
      cases hstep
      exact .turn t op .deallocate (.quiet ⟨⟨rest, hstack, rfl⟩, rfl⟩ trivial rfl rfl rfl rfl rfl)
  | starting => cases hstep
  | destroying => cases hstep

theorem Effect.ret {place : Place} (hstack : s.stack t = ⟨place, op, s.height t⟩ :: rest)
    (hstep : s.ret t rest op (s.height t) place = some s') : Effect s s' := by
  cases place with
  | starting =>
      cases hstep
      exact .turn t op .startReturn (.quiet ⟨⟨rest, hstack, rfl⟩, rfl⟩ trivial rfl rfl rfl rfl rfl)
  | destroying =>
      cases hstep
      exact .turn t op .destroyed (.quiet ⟨⟨rest, hstack, rfl⟩, rfl⟩ trivial rfl rfl rfl rfl rfl)
  | _ => cases hstep

omit [Fintype Thread] [DecidableEq Thread] [DecidableEq Op] [DecidableEq Handle]
  [DecidableEq Join] in
theorem scope_atUser (huser : s.atUser t = true) : s.scope.atUser t = true := by
  simp only [State.atUser, Bool.and_eq_true] at huser
  exact huser.1

theorem effect_of_step {a : Action Thread Op Handle Join} (hstep : step s a = some s') :
    Effect s s' := by
  cases a with
  | scope a =>
      simp only [step, Option.ite_none_right_eq_some] at hstep
      obtain ⟨hforeign, hvia⟩ := hstep
      obtain ⟨scope, hscope, rfl⟩ := via_eq hvia
      exact .scope a hforeign hscope rfl rfl rfl rfl rfl
  | spawn t op =>
      simp only [step, Option.ite_none_right_eq_some, Option.some.injEq] at hstep
      obtain ⟨⟨huser, hfresh⟩, rfl⟩ := hstep
      apply Effect.turn t op .spawn
      exact .quiet ⟨⟨s.stack t, rfl, rfl⟩, rfl⟩
        ⟨scope_atUser huser, List.count_eq_zero_of_not_mem hfresh⟩ rfl rfl rfl rfl rfl
  | complete t op =>
      simp only [step, Option.ite_none_right_eq_some, Option.some.injEq] at hstep
      obtain ⟨⟨huser, hstarted, hfirst⟩, rfl⟩ := hstep
      apply Effect.turn t op .complete
      exact .quiet ⟨⟨s.stack t, rfl, rfl⟩, rfl⟩
        ⟨scope_atUser huser, List.count_pos_iff.mpr hstarted,
          List.count_eq_zero_of_not_mem hfirst⟩ rfl rfl rfl rfl rfl
  | run t =>
      simp only [step] at hstep
      split at hstep
      · cases hstep
      · next frame rest hstack =>
          obtain ⟨place, op, depth⟩ := frame
          simp only [Option.ite_none_right_eq_some] at hstep
          obtain ⟨rfl, hstep⟩ := hstep
          exact Effect.advance hstack hstep
  | ret t =>
      simp only [step] at hstep
      split at hstep
      · cases hstep
      · next frame rest hstack =>
          obtain ⟨place, op, depth⟩ := frame
          simp only [Option.ite_none_right_eq_some] at hstep
          obtain ⟨rfl, hstep⟩ := hstep
          exact Effect.ret hstack hstep

end Bexec.Spawn
