import Bexec.StopToken.Outcome

/-!
# Every step preserves the invariant

A step changes one stack. The frames beneath the acting one, and all frames of
other threads, keep their assertions by the guarantee of the step.
-/

namespace Bexec.StopToken

open Foundation

variable {Thread Record Client : Type} [DecidableEq Record] {m' : Memory Thread Record}
  {r : Record} {weak : Bool} {rest : List (Frame Thread Record Client)}
  {next : Next Thread Record Client} {s s' : State Thread Record Client}

theorem Inv.claimFrame_tail (hs : Inv s) {t : Thread} {top : Frame Thread Record Client}
    (hstack : s.stack t = top :: rest) {c : FrameId Thread} (hc : active s.memory.log = some c)
    (hthread : c.1 = t) (hne : c ≠ (t, rest.length)) :
    ∃ frame, CallStack.frameAt rest c.2 = some frame ∧ frame.claimed = true := by
  obtain ⟨frame, hframe, hclaimed⟩ := hs.claimFrame c hc
  rw [hthread, hstack, CallStack.frameAt_cons] at hframe
  rcases hframe with ⟨hdepth, _⟩ | hframe
  · exact absurd (Prod.ext hthread hdepth) hne
  · exact ⟨frame, hframe, hclaimed⟩

/-- Frames beneath the top keep their depth and are suspended in user code. -/
theorem Inv.tail_frame (hs : Inv s) {t : Thread} {top : Frame Thread Record Client}
    (hstack : s.stack t = top :: rest) {depth : Nat} {frame : Frame Thread Record Client}
    (hframe : CallStack.frameAt rest depth = some frame) :
    CallStack.frameAt (s.stack t) depth = some frame ∧ depth ≠ rest.length ∧
      frame.isUser = true := by
  refine ⟨?_, Nat.ne_of_lt (CallStack.frameAt_lt hframe), ?_⟩
  · rw [hstack]
    exact CallStack.frameAt_cons.mpr (Or.inr hframe)
  · refine hs.suspended t frame ?_
    rw [hstack]
    exact CallStack.frameAt_mem hframe

theorem Inv.suspended_tail (hs : Inv s) {t : Thread} {top : Frame Thread Record Client}
    (hstack : s.stack t = top :: rest) : ∀ frame ∈ rest, frame.isUser = true := by
  intro frame hmem
  refine hs.suspended t frame ?_
  rw [hstack]
  exact hmem

theorem Inv.top_claimed (hs : Inv s) {t : Thread} {top : Frame Thread Record Client}
    (hstack : s.stack t = top :: rest) (hactive : active s.memory.log = some (t, rest.length)) :
    top.claimed = true := by
  obtain ⟨frame, hframe, hclaimed⟩ := hs.claimFrame _ hactive
  rw [hstack, CallStack.frameAt_top] at hframe
  cases hframe
  exact hclaimed

/-- The claiming frame beneath another frame of its stack is inside a callback. -/
theorem Inv.beneath (hs : Inv s) {t : Thread} {top : Frame Thread Record Client}
    (hstack : s.stack t = top :: rest) (hidle : active s.memory.log ≠ some (t, rest.length)) :
    Beneath s.memory (t, rest.length) rest := by
  intro c hc hthread
  have hne : c ≠ (t, rest.length) := fun heq => hidle (heq ▸ hc)
  obtain ⟨frame, hframe, hclaimed⟩ := hs.claimFrame_tail hstack hc hthread hne
  obtain ⟨hold, _, huser⟩ := hs.tail_frame hstack hframe
  have hinv := hs.frames t c.2 frame hold
  cases frame with
  | requestStop pc =>
      cases pc with
      | callback r removed =>
          obtain rfl : c.1 = t := hthread
          exact ⟨r, removed, hframe, hinv⟩
      | _ => cases huser
  | _ => cases hclaimed

theorem Inv.initial : Inv (State.initial : State Thread Record Client) := by
  refine ⟨⟨encode_idle, ?_, ?_, ?_, ?_, ?_, rfl, ?_⟩, ?_, ?_, ?_⟩
  · exact fun _ => ⟨Links.represents_empty, fun _ _ _ => rfl⟩
  · intro r hr
    cases hr
  · intro r hr
    cases hr
  · intro c hc
    cases hc
  · intro hc
    cases hc
  · intro r
    constructor <;> simp [State.initial, Memory.empty, phase, trail, linked]
  · intro t depth frame hframe
    cases hframe
  · intro t frame hmem
    cases hmem
  · intro c hc
    cases hc

variable [DecidableEq Thread]

/-- The stacks after a step: only that of the acting thread changed, and each
of its frames either was there, beneath the actors, or has its assertion. -/
theorem Inv.update (hs : Inv s) {actors : FrameId Thread → Prop}
    (hallowed : Allowed actors s.memory m') {t : Thread} {stack : List (Frame Thread Record Client)}
    (hactors : ∀ id, actors id → id.1 = t)
    (hframes : ∀ depth frame, CallStack.frameAt stack depth = some frame →
      (CallStack.frameAt (s.stack t) depth = some frame ∧ ¬ actors (t, depth) ∧
        frame.isUser = true) ∨ FrameInv m' (t, depth) frame)
    (hsuspended : ∀ frame ∈ stack.tail, frame.isUser = true)
    (hclaim : ∀ c, active m'.log = some c → active s.memory.log = some c ∧ c.1 ≠ t ∨
      c.1 = t ∧ ∃ frame, CallStack.frameAt stack c.2 = some frame ∧ frame.claimed = true) :
    Inv ((s.setMemory m').setStack t stack) := by
  refine ⟨hallowed.inv, ?_, ?_, ?_⟩
  · intro t' depth frame hframe
    by_cases heq : t' = t
    · subst heq
      simp only [State.setStack, Function.update_self] at hframe
      rcases hframes depth frame hframe with ⟨hold, hne, huser⟩ | hinv
      · refine hallowed.guarantee.frameInv hne ?_ (hs.frames _ depth frame hold)
        exact fun hfalse => absurd (huser.symm.trans hfalse) (by simp)
      · exact hinv
    · simp only [State.setStack, ne_eq, heq, not_false_eq_true, Function.update_of_ne] at hframe
      refine hallowed.guarantee.frameInv ?_ ?_ (hs.frames t' depth frame hframe)
      · exact fun hactor => heq (hactors _ hactor)
      · exact fun _ flag hthread hactor => heq (hthread.symm.trans (hactors flag hactor))
  · intro t' frame hmem
    by_cases heq : t' = t
    · subst heq
      simp only [State.setStack, Function.update_self] at hmem
      exact hsuspended frame hmem
    · simp only [State.setStack, ne_eq, heq, not_false_eq_true, Function.update_of_ne] at hmem
      exact hs.suspended t' frame hmem
  · intro c hc
    rcases hclaim c hc with ⟨hold, hne⟩ | ⟨heq, hframe⟩
    · simpa [State.setStack, State.setMemory, hne] using hs.claimFrame c hold
    · simpa [State.setStack, heq] using hframe

variable (m') in
theorem Inv.goto (hs : Inv s) {t : Thread} {top frame : Frame Thread Record Client}
    (hstack : s.stack t = top :: rest) (hallowed : Allowed (· = (t, rest.length)) s.memory m')
    (hframe : FrameInv m' (t, rest.length) frame)
    (hactive : KeepsActive s.memory m' (t, rest.length))
    (hclaimed : active m'.log = some (t, rest.length) → frame.claimed = true) :
    Inv ((s.setMemory m').setStack t (frame :: rest)) := by
  refine hs.update hallowed (fun id hid => hid ▸ rfl) ?_ (hs.suspended_tail hstack) ?_
  · intro depth frame' hframe'
    rcases CallStack.frameAt_cons.mp hframe' with ⟨rfl, rfl⟩ | hframe'
    · exact Or.inr hframe
    · obtain ⟨hold, hne, huser⟩ := hs.tail_frame hstack hframe'
      exact Or.inl ⟨hold, fun heq => hne (Prod.ext_iff.mp heq).2, huser⟩
  · intro c hc
    by_cases heq : c = (t, rest.length)
    · subst heq
      exact Or.inr ⟨rfl, frame, CallStack.frameAt_top _ _, hclaimed hc⟩
    · have hold := hactive c heq hc
      by_cases hthread : c.1 = t
      · obtain ⟨below, hbelow, hclaimed'⟩ := hs.claimFrame_tail hstack hold hthread heq
        exact Or.inr ⟨hthread, below, CallStack.frameAt_cons.mpr (Or.inr hbelow), hclaimed'⟩
      · exact Or.inl ⟨hold, hthread⟩

variable (m') in
theorem Inv.ret (hs : Inv s) {t : Thread} {top : Frame Thread Record Client}
    (hstack : s.stack t = top :: rest) (hallowed : Allowed (· = (t, rest.length)) s.memory m')
    (hactive : KeepsActive s.memory m' (t, rest.length))
    (hclaimed : active m'.log ≠ some (t, rest.length)) :
    Inv ((s.setMemory m').setStack t rest) := by
  refine hs.update hallowed (fun id hid => hid ▸ rfl) ?_ ?_ ?_
  · intro depth frame hframe
    obtain ⟨hold, hne, huser⟩ := hs.tail_frame hstack hframe
    exact Or.inl ⟨hold, fun heq => hne (Prod.ext_iff.mp heq).2, huser⟩
  · exact fun frame hmem => hs.suspended_tail hstack frame (List.mem_of_mem_tail hmem)
  · intro c hc
    have hne : c ≠ (t, rest.length) := fun heq => hclaimed (heq ▸ hc)
    have hold := hactive c hne hc
    by_cases hthread : c.1 = t
    · exact Or.inr ⟨hthread, hs.claimFrame_tail hstack hold hthread hne⟩
    · exact Or.inl ⟨hold, hthread⟩

variable (m') in
/-- User code pushes a frame. -/
theorem Inv.call (hs : Inv s) {t : Thread} {frame : Frame Thread Record Client}
    (huser : s.atUser t = true) (hallowed : Allowed (· = (t, (s.stack t).length)) s.memory m')
    (hframe : FrameInv m' (t, (s.stack t).length) frame)
    (hactive : active m'.log = active s.memory.log) :
    Inv ((s.setMemory m').push t frame) := by
  have husers : ∀ frame ∈ s.stack t, frame.isUser = true := by
    intro frame hmem
    cases hstack : s.stack t with
    | nil =>
        rw [hstack] at hmem
        cases hmem
    | cons top rest =>
        simp only [State.atUser, hstack] at huser
        rw [hstack] at hmem
        rcases List.mem_cons.mp hmem with rfl | hmem
        · exact huser
        · exact hs.suspended_tail hstack frame hmem
  refine hs.update hallowed (fun id hid => hid ▸ rfl) ?_ husers ?_
  · intro depth frame' hframe'
    rcases CallStack.frameAt_cons.mp hframe' with ⟨rfl, rfl⟩ | hframe'
    · exact Or.inr hframe
    · have hlt := CallStack.frameAt_lt hframe'
      refine Or.inl ⟨hframe', ?_, husers frame' (CallStack.frameAt_mem hframe')⟩
      exact fun heq => Nat.ne_of_lt hlt (Prod.ext_iff.mp heq).2
  · intro c hc
    rw [hactive] at hc
    by_cases hthread : c.1 = t
    · obtain ⟨below, hbelow, hclaimed⟩ := hs.claimFrame c hc
      refine Or.inr ⟨hthread, below, CallStack.frameAt_cons.mpr (Or.inr ?_), hclaimed⟩
      exact hthread ▸ hbelow
    · exact Or.inl ⟨hc, hthread⟩

/-- A destructor that returns through the flag of the claiming frame beneath it. -/
theorem Inv.flagAndRet (hs : Inv s) {t : Thread} {top : Frame Thread Record Client}
    (hstack : s.stack t = top :: rest) {c : FrameId Thread} (hthread : c.1 = t)
    (hallowed : Allowed (fun other => other = (t, rest.length) ∨ other = c) s.memory m')
    (hactive : active m'.log = active s.memory.log)
    (hclaimed : active s.memory.log ≠ some (t, rest.length))
    (hbeneath : CallStack.frameAt rest c.2 = some (.requestStop (.callback r false)))
    (hframe : RequestInv m' c (.callback r true)) :
    Inv ((s.setMemory m').setStack t (CallStack.modifyAt Frame.markRemoved rest c.2)) := by
  refine hs.update hallowed ?_ ?_ ?_ ?_
  · rintro id (rfl | rfl)
    · rfl
    · exact hthread
  · intro depth frame hframe'
    rw [CallStack.frameAt_modifyAt] at hframe'
    split at hframe'
    next heq =>
      subst heq
      rw [hbeneath] at hframe'
      cases hframe'
      exact Or.inr (hthread ▸ hframe)
    next hne =>
      obtain ⟨hold, hdepth, huser⟩ := hs.tail_frame hstack hframe'
      refine Or.inl ⟨hold, ?_, huser⟩
      rintro (heq | heq)
      · exact hdepth (Prod.ext_iff.mp heq).2
      · exact hne (Prod.ext_iff.mp heq).2
  · intro frame hmem
    rcases CallStack.mem_modifyAt (List.mem_of_mem_tail hmem) with hold | ⟨old, hold, rfl⟩
    · exact hs.suspended_tail hstack frame hold
    · have huser := hs.suspended_tail hstack old hold
      unfold Frame.markRemoved
      split
      · rfl
      · exact huser
  · intro c' hc'
    rw [hactive] at hc'
    by_cases hthread' : c'.1 = t
    · have hne : c' ≠ (t, rest.length) := fun heq => hclaimed (heq ▸ hc')
      obtain ⟨below, hbelow, hclaimed'⟩ := hs.claimFrame_tail hstack hc' hthread' hne
      refine Or.inr ⟨hthread', ?_⟩
      rw [CallStack.frameAt_modifyAt]
      split
      next heq =>
        rw [heq, hbeneath]
        exact ⟨_, rfl, rfl⟩
      next => exact ⟨below, hbelow, hclaimed'⟩
    · exact Or.inl ⟨hc', hthread'⟩

theorem Inv.outcome (hs : Inv s) {t : Thread} {top : Frame Thread Record Client}
    (hstack : s.stack t = top :: rest) (hout : Outcome s.memory m' (t, rest.length) rest next) :
    Inv ((s.setMemory m').apply t rest next) := by
  cases hout with
  | goto hallowed hframe hactive hclaimed =>
      exact hs.goto _ hstack hallowed hframe hactive hclaimed
  | ret hallowed hactive hclaimed => exact hs.ret _ hstack hallowed hactive hclaimed
  | flag hallowed hactive hclaimed hthread hbeneath hframe =>
      have hinv := hs.flagAndRet hstack hthread hallowed hactive hclaimed hbeneath hframe
      simpa [State.apply, State.setStack, hthread] using hinv

theorem Inv.frame_outcome (hs : Inv s) {t : Thread} {top : Frame Thread Record Client}
    (hstack : s.stack t = top :: rest) (hstep : top.step t rest weak s.memory = some (m', next)) :
    Outcome s.memory m' (t, rest.length) rest next := by
  have hframe : FrameInv s.memory (t, rest.length) top :=
    hs.frames t rest.length top (by rw [hstack]; exact CallStack.frameAt_top _ _)
  have hclaimed := hs.top_claimed hstack
  cases top with
  | constructor r pc =>
      obtain ⟨hlife, hregistered, hpc⟩ := hframe
      exact constructorStep_outcome hs.memory (fun h => by cases hclaimed h) hlife hregistered hpc
        hstep
  | destructor r pc =>
      obtain ⟨hlife, hpc⟩ := hframe
      have hidle : active s.memory.log ≠ some (t, rest.length) := fun h => by cases hclaimed h
      exact destructorStep_outcome hs.memory hidle (hs.beneath hstack hidle) hlife hpc hstep
  | requestStop pc => exact requestStopStep_outcome hs.memory hclaimed hframe hstep
  | client c => cases hstep

theorem Inv.frame_claimer (hs : Inv s) {t : Thread} {top : Frame Thread Record Client}
    (hstack : s.stack t = top :: rest) (hstep : top.step t rest weak s.memory = some (m', next))
    {c : FrameId Thread} (hclaimed : claimer s.memory.log = some c) :
    claimer m'.log = some c := by
  cases hs.frame_outcome hstack hstep with
  | goto hallowed => exact hallowed.guarantee.claimer c hclaimed
  | ret hallowed => exact hallowed.guarantee.claimer c hclaimed
  | flag hallowed => exact hallowed.guarantee.claimer c hclaimed

theorem Inv.run (hs : Inv s) {t : Thread} {top : Frame Thread Record Client}
    (hstack : s.stack t = top :: rest) (hstep : top.step t rest weak s.memory = some (m', next)) :
    Inv ((s.setMemory m').apply t rest next) :=
  hs.outcome hstack (hs.frame_outcome hstack hstep)

/-- The end of a callback body. -/
theorem Inv.endCallback (hs : Inv s) {t : Thread} (hstep : step s (.ret t) = some s') : Inv s' := by
  simp only [step] at hstep
  split at hstep
  next r rest hstack =>
    cases hstep
    obtain ⟨hlife, hregistered, hphase, htrail⟩ :=
      hs.frames t rest.length _ (by rw [hstack]; exact CallStack.frameAt_top _ _)
    have hidle : active s.memory.log ≠ some (t, rest.length) :=
      fun h => by cases hs.top_claimed hstack h
    exact hs.ret _ hstack (Allowed.returnInline hs.memory hlife hregistered hphase htrail)
      (fun _ _ hc => hc) hidle
  next r rest hstack =>
    cases hstep
    obtain ⟨hexec, htrail, hlife, _⟩ :=
      hs.frames t rest.length _ (by rw [hstack]; exact CallStack.frameAt_top _ _)
    refine hs.goto _ hstack (Allowed.abandon hs.memory hexec (hlife.mp rfl) htrail) ?_
      (fun _ _ hc => hc) (fun _ => rfl)
    refine ⟨hexec.1, ?_⟩
    intro r'
    by_cases heq : r = r'
    · simp [Memory.record, heq]
    · simpa [Memory.record, heq] using fun hphase => heq ((hexec.2 r').mp hphase).symm
  next r rest hstack =>
    cases hstep
    obtain ⟨hexec, htrail, hlife, _⟩ :=
      hs.frames t rest.length _ (by rw [hstack]; exact CallStack.frameAt_top _ _)
    have hleft : trail (.returned r t :: s.memory.log) r = ⟨[], [t], [t]⟩ := by simp [htrail]
    refine hs.goto _ hstack (Allowed.callback hs.memory hexec (Or.inr rfl) hleft) ?_
      (fun _ _ hc => hc) (fun _ => rfl)
    refine ⟨hexec, ?_, by simp [Memory.record, htrail]⟩
    exact fun hdestroyed => by cases hlife.mpr hdestroyed
  next => cases hstep

theorem Inv.step (hs : Inv s) {a : Action Thread Record Client}
    (hstep : StopToken.step s a = some s') : Inv s' := by
  cases a with
  | run t weak =>
      simp only [StopToken.step] at hstep
      split at hstep
      · cases hstep
      next frame rest hstack =>
        split at hstep
        · cases hstep
        next hframe =>
          cases hstep
          exact hs.run hstack hframe
  | ret t => exact hs.endCallback hstep
  | requestStop t =>
      simp only [StopToken.step, Option.ite_none_right_eq_some, Option.some.injEq] at hstep
      obtain ⟨huser, rfl⟩ := hstep
      exact hs.call s.memory huser (Allowed.refl hs.memory) trivial rfl
  | construct t r =>
      simp only [StopToken.step, Option.ite_none_right_eq_some, Option.some.injEq] at hstep
      obtain ⟨⟨huser, hlife⟩, rfl⟩ := hstep
      obtain ⟨hphase, hregistered⟩ := (hs.memory.records r).unborn hlife
      refine hs.call _ huser (Allowed.beginConstruct hs.memory hlife) ?_ rfl
      exact ⟨by simp [Memory.setLife], hregistered, hphase, trivial⟩
  | destroy t r =>
      simp only [StopToken.step, Option.ite_none_right_eq_some, Option.some.injEq] at hstep
      obtain ⟨⟨huser, hlife⟩, rfl⟩ := hstep
      refine hs.call _ huser (Allowed.beginDestroy hs.memory hlife) ?_ rfl
      exact ⟨by simp [Memory.setLife], (hs.memory.records r).alive hlife⟩
  | enter t c =>
      simp only [StopToken.step, Option.ite_none_right_eq_some, Option.some.injEq] at hstep
      obtain ⟨huser, rfl⟩ := hstep
      exact hs.call s.memory huser (Allowed.refl hs.memory) trivial rfl
  | become t c =>
      simp only [StopToken.step] at hstep
      split at hstep
      next old rest hstack =>
        cases hstep
        exact hs.goto s.memory hstack (Allowed.refl hs.memory) trivial (fun _ _ hc => hc)
          (fun h => by cases hs.top_claimed hstack h)
      next => cases hstep
  | leave t =>
      simp only [StopToken.step] at hstep
      split at hstep
      next old rest hstack =>
        cases hstep
        exact hs.ret s.memory hstack (Allowed.refl hs.memory) (fun _ _ hc => hc)
          (fun h => by cases hs.top_claimed hstack h)
      next => cases hstep

theorem inv_of_reachable (hs : (machine Thread Record Client).Reachable s) : Inv s := by
  refine hs.invariant ?_ ?_
  · intro s hs
    rw [hs]
    exact Inv.initial
  · exact fun s a s' _ hinv hstep => hinv.step hstep

end Bexec.StopToken
