import Bexec.StopToken.Calls

/-!
# Code that owns a stop source

An operation state with a stop source inside it. Its own code runs in `Client`
frames, so a step of the operation is a change of its fields together with some
steps of the stop source, and the source only ever goes through states that are
reachable on its own.
-/

namespace Bexec.StopToken

open Foundation

/-- The fields of an operation and the stop source among them. -/
structure Hosted (Op Thread Record Client : Type) where
  op : Op
  source : State Thread Record Client

variable {Op Thread Record Client : Type}

namespace Hosted

def setOp (s : Hosted Op Thread Record Client) (op : Op) : Hosted Op Thread Record Client :=
  { s with op := op }

variable [DecidableEq Thread] [DecidableEq Record]

/-- Let the stop source and the stacks make the given steps. -/
def via (s : Hosted Op Thread Record Client) (actions : List (Action Thread Record Client)) :
    Option (Hosted Op Thread Record Client) :=
  ((machine Thread Record Client).exec s.source actions).map fun source =>
    { s with source := source }

variable {s s' : Hosted Op Thread Record Client} {t : Thread}

theorem via_cons {a : Action Thread Record Client} {rest : List (Action Thread Record Client)}
    (h : s.via (a :: rest) = some s') :
    ∃ source, step s.source a = some source ∧ (Hosted.mk s.op source).via rest = some s' := by
  simp only [via, Machine.exec, List.foldlM_cons, Option.bind_eq_bind] at h ⊢
  obtain ⟨final, hexec, rfl⟩ := Option.map_eq_some_iff.mp h
  obtain ⟨source, hstep, hrest⟩ := Option.bind_eq_some_iff.mp hexec
  exact ⟨source, hstep, by rw [hrest]; rfl⟩

@[simp] theorem via_nil (s : Hosted Op Thread Record Client) : s.via [] = some s := rfl

theorem via_one {a : Action Thread Record Client} (h : s.via [a] = some s') :
    ∃ source, step s.source a = some source ∧ s' = ⟨s.op, source⟩ := by
  obtain ⟨source, hstep, hrest⟩ := via_cons h
  cases hrest
  exact ⟨source, hstep, rfl⟩

/-- The source has made some steps of its own. -/
def SourceRuns (s s' : Hosted Op Thread Record Client) : Prop :=
  ∃ actions, (machine Thread Record Client).exec s.source actions = some s'.source

theorem SourceRuns.refl (s s' : Hosted Op Thread Record Client) (hsource : s'.source = s.source) :
    SourceRuns s s' :=
  ⟨[], by rw [hsource]; rfl⟩

theorem via_sourceRuns (op : Op) {actions : List (Action Thread Record Client)}
    (h : (s.setOp op).via actions = some s') : SourceRuns s s' := by
  obtain ⟨source, hexec, rfl⟩ := Option.map_eq_some_iff.mp h
  exact ⟨actions, hexec⟩

theorem SourceRuns.reachable (h : SourceRuns s s')
    (hs : (machine Thread Record Client).Reachable s.source) :
    (machine Thread Record Client).Reachable s'.source := by
  obtain ⟨actions, hexec⟩ := h
  exact hs.exec hexec

theorem SourceRuns.stopRequested (h : SourceRuns s s')
    (hs : (machine Thread Record Client).Reachable s.source)
    (hrequested : s.source.memory.stopRequested = true) :
    s'.source.memory.stopRequested = true := by
  obtain ⟨actions, hexec⟩ := h
  obtain ⟨trace, hrun, -⟩ := Machine.exists_run_of_exec _ hexec
  exact stopRequested_run hs hrun hrequested

end Hosted

section Calls

variable {source source' : State Thread Record Client} {t : Thread}

theorem calls_cons {frame : Frame Thread Record Client} {rest : List (Frame Thread Record Client)}
    (hstack : source.stack t = frame :: rest) :
    source.calls t = frame.call :: rest.map Frame.call := by
  simp [State.calls, hstack]

variable [DecidableEq Thread] [DecidableEq Record] {c code : Client}
  {rest : List (Frame Thread Record Client)} {below : List (Call Record Client)}

theorem enter_calls (hbelow : source.calls t = below)
    (h : step source (.enter t c) = some source') :
    source'.calls = Function.update source.calls t (.client c :: below) := by
  simp only [step, Option.ite_none_right_eq_some, Option.some.injEq] at h
  obtain ⟨-, rfl⟩ := h
  exact hbelow ▸ push_calls _ _ _

theorem request_calls (hbelow : source.calls t = below)
    (h : step source (.requestStop t) = some source') :
    source'.calls = Function.update source.calls t (.requesting :: below) := by
  simp only [step, Option.ite_none_right_eq_some, Option.some.injEq] at h
  obtain ⟨-, rfl⟩ := h
  exact hbelow ▸ push_calls _ _ _

theorem construct_calls {r : Record} (hbelow : source.calls t = below)
    (h : step source (.construct t r) = some source') :
    source'.calls = Function.update source.calls t (.constructing r false :: below) := by
  simp only [step, Option.ite_none_right_eq_some, Option.some.injEq] at h
  obtain ⟨-, rfl⟩ := h
  exact hbelow ▸ push_calls _ _ _

theorem destroy_calls {r : Record} (hbelow : source.calls t = below)
    (h : step source (.destroy t r) = some source') :
    source'.calls = Function.update source.calls t (.destroying r :: below) := by
  simp only [step, Option.ite_none_right_eq_some, Option.some.injEq] at h
  obtain ⟨-, rfl⟩ := h
  exact hbelow ▸ push_calls _ _ _

theorem leave_calls (hstack : source.stack t = .client code :: rest)
    (h : step source (.leave t) = some source') :
    source'.calls = Function.update source.calls t (rest.map Frame.call) := by
  simp only [step, hstack, Option.some.injEq] at h
  subst h
  exact setStack_calls _ _ _

theorem become_calls (hstack : source.stack t = .client code :: rest)
    (h : step source (.become t c) = some source') :
    source'.calls = Function.update source.calls t (.client c :: rest.map Frame.call) := by
  simp only [step, hstack, Option.some.injEq] at h
  subst h
  exact setStack_calls _ _ _

end Calls

end Bexec.StopToken
