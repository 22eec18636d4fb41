import Bexec.Foundation.Ownership
import Bexec.Generator.Step

/-! # A generator is single-pass

Every frame has one owner and is destroyed once, and callers see what the body
yields, in order, whatever is moved. The flag of the owner tells whether the
coroutine was started as long as coroutines are only moved between objects whose
flags agree.
-/

namespace Bexec.Generator

open Foundation

section Body

variable {V E : Type*} {body : Body V E} {seen : List (Look V E)} {f : Frame V E}

/-- What callers see at the end of the body. -/
def Body.last (body : Body V E) : Look V E :=
  match body.ending with
  | none => .sentinel
  | some e => .threw e

/-- What callers are to see of a body: its values, and then how it ends. -/
def Body.expected (body : Body V E) : List (Look V E) :=
  body.yields.map .value ++ [body.last]

/-- What the next resumption of a frame brings. -/
def Frame.sight (f : Frame V E) : Look V E :=
  match f.remaining with
  | v :: _ => .value v
  | [] => Body.last ⟨[], f.ending⟩

/-- A frame has gone through the part of its body that was seen. -/
structure Pace (body : Body V E) (seen : List (Look V E)) (f : Frame V E) : Prop where
  ending : f.ending = body.ending
  running : f.done = false → f.error = none ∧ ∃ passed, passed ++ f.remaining = body.yields ∧
    seen = passed.map .value ∧ f.value = passed.getLast?
  finished : f.done = true → seen = body.expected

namespace Pace

theorem create (body : Body V E) : Pace body [] (.create body) :=
  ⟨rfl, fun _ => ⟨rfl, [], rfl, rfl, rfl⟩, by rintro ⟨⟩⟩

theorem resume (h : Pace body seen f) (hdone : f.done = false) :
    Pace body (seen ++ [f.sight]) f.resume := by
  obtain ⟨herror, passed, hyields, hseen, hvalue⟩ := h.running hdone
  unfold Frame.resume Frame.sight
  cases hremaining : f.remaining with
  | nil =>
      rw [hremaining, List.append_nil] at hyields
      refine ⟨h.ending, by rintro ⟨⟩, fun _ => ?_⟩
      rw [hseen, hyields, Body.expected, Body.last, Body.last, h.ending]
  | cons v rest =>
      rw [hremaining] at hyields
      refine ⟨h.ending, fun _ => ⟨herror, passed ++ [v], ?_, ?_, ?_⟩, fun hfinished => ?_⟩
      · simpa using hyields
      · simp [hseen]
      · simp
      · exact absurd (hdone.symm.trans hfinished) (by simp)

/-- What was seen of a coroutine is the beginning of what it is to show. -/
theorem isPrefix (h : Pace body seen f) : seen <+: body.expected := by
  cases hdone : f.done with
  | true => rw [h.finished hdone]
  | false =>
      obtain ⟨-, passed, hyields, rfl, -⟩ := h.running hdone
      rw [Body.expected, ← hyields, List.map_append, List.append_assoc]
      exact List.prefix_append _ _

/-- All of it was seen exactly when the frame is done. -/
theorem done_iff (h : Pace body seen f) : f.done = true ↔ seen = body.expected := by
  refine ⟨h.finished, fun hseen => ?_⟩
  by_contra hdone
  obtain ⟨-, passed, hyields, hpassed, -⟩ := h.running (Bool.eq_false_iff.mpr hdone)
  have hlength : passed.length ≤ body.yields.length := by
    rw [← hyields, List.length_append]
    exact Nat.le_add_right _ _
  have hexpected := congrArg List.length hseen
  rw [hpassed, Body.expected, List.length_map, List.length_append, List.length_map] at hexpected
  simp only [List.length_singleton] at hexpected
  omega

end Pace

end Body

variable {Obj It Co V E : Type*} [DecidableEq Obj] [DecidableEq It] [DecidableEq Co]
  {s s' : State Obj It Co V E}

/-- The coroutine that an object owns. -/
def State.handleOf (s : State Obj It Co V E) (g : Obj) : Option Co :=
  (s.objects g).bind Object.handle

omit [DecidableEq It] [DecidableEq Co] in
@[simp] theorem handleOf_setObject (g : Obj) (object : Option (Object Co)) :
    (s.setObject g object).handleOf =
      Function.update s.handleOf g (object.bind Object.handle) := by
  funext k
  by_cases heq : k = g
  · subst heq
    simp [State.handleOf, State.setObject]
  · simp [State.handleOf, State.setObject, heq]

omit [DecidableEq Obj] [DecidableEq It] [DecidableEq Co] in
theorem handleOf_of_none {g : Obj} (hdead : s.objects g = none) : s.handleOf g = none := by
  simp [State.handleOf, hdead]

omit [DecidableEq Obj] [DecidableEq It] [DecidableEq Co] in
theorem handleOf_of_some {g : Obj} {object : Object Co} (hobject : s.objects g = some object) :
    s.handleOf g = object.handle := by
  simp [State.handleOf, hobject]

/-- The caller of `begin()` or `++` resumes the coroutine and looks. -/
def State.resume (s : State Obj It Co V E) (co : Co) (f : Frame V E) (it : It) :
    State Obj It Co V E :=
  (s.advance co f it).observe (some co) it

/-- What a step does. -/
inductive Effect (s : State Obj It Co V E) : Action Obj It Co V E → State Obj It Co V E → Prop
  | create (g : Obj) (co : Co) (body : Body V E) (hdead : s.objects g = none)
      (hfresh : s.created co = false) : Effect s (.create g co body) (s.create g co body)
  | construct (g : Obj) (hdead : s.objects g = none) :
      Effect s (.construct g) (s.setObject g (some ⟨none, false⟩))
  | moveConstruct (g other : Obj) (source : Object Co) (hdead : s.objects g = none)
      (hsource : s.objects other = some source) :
      Effect s (.moveConstruct g other) (s.moveConstruct g other source)
  | moveAssign (g other : Obj) (target source : Object Co) (htarget : s.objects g = some target)
      (hsource : s.objects other = some source) :
      Effect s (.moveAssign g other) (s.moveAssign g other target source)
  | destroy (g : Obj) (object : Object Co) (hobject : s.objects g = some object) :
      Effect s (.destroy g) ((s.release object).setObject g none)
  | beginEmpty (g : Obj) (it : It) :
      Effect s (.begin g it)
        { s with iterators := Function.update s.iterators it (some none), thrown := none }
  | beginRejected (g : Obj) (it : It) : Effect s (.begin g it) { s with aborted := true }
  | beginStarted (g : Obj) (it : It) (co : Co) (f : Frame V E)
      (hobject : s.objects g = some ⟨some co, false⟩) (hlive : s.frames co = some f)
      (hdone : f.done = false) (haborted : s.aborted = false) :
      Effect s (.begin g it) ((s.setObject g (some ⟨some co, true⟩)).resume co f it)
  | increment (it : It) (co : Co) (f : Frame V E) (hiterator : s.iterators it = some (some co))
      (hlive : s.frames co = some f) (hdone : f.done = false) (haborted : s.aborted = false) :
      Effect s (.increment it) (s.resume co f it)

theorem begin_effect {g : Obj} {it : It} {object : Object Co} (hobject : s.objects g = some object)
    (haborted : s.aborted = false) {middle : State Obj It Co V E}
    (hbegin : s.begin g object it = some middle) :
    Effect s (.begin g it) (middle.observe object.handle it) := by
  obtain ⟨handle, started⟩ := object
  unfold State.begin at hbegin
  cases handle with
  | none =>
      cases hbegin
      exact .beginEmpty g it
  | some co =>
      cases started with
      | true =>
          cases hbegin
          exact .beginRejected g it
      | false =>
          simp only [Bool.false_eq_true, if_false] at hbegin
          split at hbegin
          · next f hlive =>
              split at hbegin
              · cases hbegin
              · next hdone =>
                  cases hbegin
                  exact .beginStarted g it co f hobject hlive (Bool.eq_false_iff.mpr hdone) haborted
          · cases hbegin

theorem increment_effect {it : It} {handle : Option Co} (hiterator : s.iterators it = some handle)
    (haborted : s.aborted = false) {middle : State Obj It Co V E}
    (hincrement : s.increment it = some middle) :
    Effect s (.increment it) (middle.observe handle it) := by
  unfold State.increment at hincrement
  split at hincrement
  · next co hco =>
      rw [hiterator] at hco
      cases hco
      split at hincrement
      · next f hlive =>
          split at hincrement
          · cases hincrement
          · next hdone =>
              cases hincrement
              exact .increment it co f hiterator hlive (Bool.eq_false_iff.mpr hdone) haborted
      · cases hincrement
  · cases hincrement

theorem effect_of_step {a : Action Obj It Co V E} (hstep : step s a = some s') :
    Effect s a s' := by
  unfold step at hstep
  split at hstep
  · cases hstep
  · next haborted =>
    have haborted : s.aborted = false := Bool.eq_false_iff.mpr haborted
    cases a with
    | create g co body =>
        simp only [Option.ite_none_right_eq_some, Option.some.injEq] at hstep
        obtain ⟨⟨hdead, hfresh⟩, rfl⟩ := hstep
        exact .create g co body hdead hfresh
    | construct g =>
        dsimp only at hstep
        split at hstep
        · next hdead =>
            cases hstep
            exact .construct g hdead
        · cases hstep
    | moveConstruct g other =>
        dsimp only at hstep
        split at hstep
        · next source hdead hsource =>
            cases hstep
            exact .moveConstruct g other source hdead hsource
        · cases hstep
    | moveAssign g other =>
        dsimp only at hstep
        split at hstep
        · next target source htarget hsource =>
            cases hstep
            exact .moveAssign g other target source htarget hsource
        · cases hstep
    | destroy g =>
        dsimp only at hstep
        split at hstep
        · next object hobject =>
            cases hstep
            exact .destroy g object hobject
        · cases hstep
    | begin g it =>
        dsimp only at hstep
        split at hstep
        · next object hobject _ =>
            obtain ⟨middle, hbegin, rfl⟩ := Option.map_eq_some_iff.mp hstep
            exact begin_effect hobject haborted hbegin
        · cases hstep
    | increment it =>
        dsimp only at hstep
        split at hstep
        · next handle hiterator =>
            obtain ⟨middle, hincrement, rfl⟩ := Option.map_eq_some_iff.mp hstep
            exact increment_effect hiterator haborted hincrement
        · cases hstep

section Resume

variable {co : Co} {f : Frame V E} {it : It}

omit [DecidableEq Obj] in
/-- The caller sees what the resumption brings. -/
theorem look_advance (hdone : f.done = false) (herror : f.error = none) :
    (s.advance co f it).look it = f.sight := by
  unfold State.look State.advance State.atEnd State.deref Frame.resume Frame.sight Body.last
  cases hremaining : f.remaining with
  | nil => cases hending : f.ending <;> simp [State.setFrame]
  | cons v rest => simp [State.setFrame, herror, hdone]

/-- A resumption writes the frame, the iterator and what was seen. -/
structure Resumed (s s' : State Obj It Co V E) (co : Co) (f : Frame V E) : Prop where
  bodies : s'.bodies = s.bodies
  frames : s'.frames = Function.update s.frames co (some f.resume)
  destroyed : s'.destroyed = s.destroyed
  objects : s'.objects = s.objects
  iterators : ∀ it co', s'.iterators it = some (some co') →
    co' = co ∨ s.iterators it = some (some co')
  seen : s'.seen = Function.update s.seen co (s.seen co ++ [f.sight])
  aborted : s'.aborted = false

omit [DecidableEq Obj] in
theorem resumed (haborted : s.aborted = false) (hdone : f.done = false) (herror : f.error = none) :
    Resumed s (s.resume co f it) co f := by
  have hlook : (s.advance co f it).look it = f.sight := look_advance hdone herror
  have hadvance : (s.advance co f it).aborted = false ∧
      (s.advance co f it).bodies = s.bodies ∧
      (s.advance co f it).frames = Function.update s.frames co (some f.resume) ∧
      (s.advance co f it).destroyed = s.destroyed ∧ (s.advance co f it).objects = s.objects ∧
      (s.advance co f it).seen = s.seen ∧
      ∀ it' co', (s.advance co f it).iterators it' = some (some co') →
        co' = co ∨ s.iterators it' = some (some co') := by
    unfold State.advance
    dsimp only
    split
    · refine ⟨haborted, rfl, rfl, rfl, rfl, rfl, fun it' co' hiterator => ?_⟩
      by_cases heq : it' = it
      · subst heq
        simp only [Function.update_self, Option.some.injEq] at hiterator
        exact Or.inl hiterator.symm
      · exact Or.inr (by simpa [State.setFrame, heq] using hiterator)
    · exact ⟨haborted, rfl, rfl, rfl, rfl, rfl, fun it' co' hiterator => Or.inr hiterator⟩
  obtain ⟨haborted', hbodies, hframes, hdestroyed, hobjects, hseen, hiterators⟩ := hadvance
  have hresume : s.resume co f it = { s.advance co f it with
      seen := Function.update s.seen co (s.seen co ++ [f.sight]) } := by
    unfold State.resume State.observe
    simp only [haborted', Bool.false_eq_true, if_false, hseen, hlook]
  rw [hresume]
  exact ⟨hbodies, hframes, hdestroyed, hobjects, hiterators, rfl, haborted'⟩

end Resume

/-- Every frame has one owner and is destroyed once, what was seen of a coroutine
is what its frame has gone through, and iterators only show coroutines that were
resumed. -/
structure GeneratorInv (s : State Obj It Co V E) : Prop where
  ownership : Ownership s.created s.frames s.destroyed s.handleOf
  pace : ∀ co body f, s.bodies co = some body → s.frames co = some f → Pace body (s.seen co) f
  seen : ∀ co body, s.bodies co = some body → s.seen co <+: body.expected
  fresh : ∀ co, s.bodies co = none → s.seen co = []
  shown : ∀ it co, s.iterators it = some (some co) → s.seen co ≠ []

namespace GeneratorInv

omit [DecidableEq Obj] [DecidableEq It] [DecidableEq Co] in
theorem initial : GeneratorInv (State.initial : State Obj It Co V E) := by
  refine ⟨.initial, ?_, ?_, fun _ _ => rfl, ?_⟩ <;> simp [State.initial]

omit [DecidableEq Obj] [DecidableEq It] [DecidableEq Co] in
/-- A live frame has a body. -/
theorem body (h : GeneratorInv s) {co : Co} {f : Frame V E} (hlive : s.frames co = some f) :
    ∃ body, s.bodies co = some body :=
  Option.isSome_iff_exists.mp (h.ownership.owned co f hlive).1

omit [DecidableEq Obj] [DecidableEq It] [DecidableEq Co] in
/-- No coroutine is resumed and no iterator is added. -/
theorem mono (h : GeneratorInv s)
    (hownership : Ownership s'.created s'.frames s'.destroyed s'.handleOf)
    (hbodies : s'.bodies = s.bodies) (hseen : s'.seen = s.seen)
    (hframes : ∀ co f, s'.frames co = some f → s.frames co = some f)
    (hiterators : ∀ it co, s'.iterators it = some (some co) → s.iterators it = some (some co)) :
    GeneratorInv s' := by
  refine ⟨hownership, ?_, ?_, ?_, ?_⟩
  · intro co body f hbody hlive
    rw [hseen]
    exact h.pace co body f (hbodies ▸ hbody) (hframes co f hlive)
  · rw [hbodies, hseen]
    exact h.seen
  · rw [hbodies, hseen]
    exact h.fresh
  · intro it co hiterator
    rw [hseen]
    exact h.shown it co (hiterators it co hiterator)

omit [DecidableEq It] in
theorem create (h : GeneratorInv s) {g : Obj} {co : Co} (body : Body V E)
    (hfresh : s.created co = false) (hdead : s.objects g = none) :
    GeneratorInv (s.create g co body) := by
  have hbody : s.bodies co = none := by
    simpa [State.created] using hfresh
  have hcreated : (s.create g co body).created = Function.update s.created co true := by
    funext co'
    by_cases heq : co' = co
    · subst heq
      simp [State.created, State.create, State.setFrame, State.setObject]
    · simp [State.created, State.create, State.setFrame, State.setObject, heq]
  refine ⟨?_, ?_, ?_, ?_, h.shown⟩
  · rw [hcreated]
    unfold State.create
    rw [handleOf_setObject]
    exact h.ownership.create _ hfresh (handleOf_of_none hdead)
  · intro co' body' f hbody' hlive
    change Function.update s.bodies co (some body) co' = some body' at hbody'
    change Function.update s.frames co (some (.create body)) co' = some f at hlive
    change Pace body' (s.seen co') f
    by_cases heq : co' = co
    · subst heq
      rw [Function.update_self, Option.some.injEq] at hbody' hlive
      rw [h.fresh co' hbody, ← hbody', ← hlive]
      exact .create body
    · rw [Function.update_of_ne heq] at hbody' hlive
      exact h.pace co' body' f hbody' hlive
  · intro co' body' hbody'
    change Function.update s.bodies co (some body) co' = some body' at hbody'
    change s.seen co' <+: body'.expected
    by_cases heq : co' = co
    · subst heq
      rw [h.fresh co' hbody]
      exact List.nil_prefix
    · rw [Function.update_of_ne heq] at hbody'
      exact h.seen co' body' hbody'
  · intro co' hnone
    change Function.update s.bodies co (some body) co' = none at hnone
    by_cases heq : co' = co
    · subst heq
      rw [Function.update_self] at hnone
      cases hnone
    · rw [Function.update_of_ne heq] at hnone
      exact h.fresh co' hnone

end GeneratorInv

/-! ## Owners -/

section Owners

omit [DecidableEq Obj] [DecidableEq It] in
theorem frames_of_release {object : Object Co} {co : Co} {f : Frame V E}
    (hlive : (s.release object).frames co = some f) : s.frames co = some f := by
  unfold State.release at hlive
  split at hlive
  · next co' _ =>
      by_cases heq : co = co'
      · subst heq
        simp [State.destroyFrame] at hlive
      · simpa [State.destroyFrame, heq] using hlive
  · exact hlive

omit [DecidableEq Obj] [DecidableEq It] in
/-- Only frames are destroyed. -/
theorem release_same (object : Object Co) :
    (s.release object).bodies = s.bodies ∧ (s.release object).seen = s.seen ∧
      (s.release object).iterators = s.iterators ∧ (s.release object).objects = s.objects := by
  unfold State.release
  split <;> exact ⟨rfl, rfl, rfl, rfl⟩

omit [DecidableEq It] [DecidableEq Co] in
/-- An object that owns nothing is put in a place that owns nothing. -/
theorem setEmpty (h : Ownership s.created s.frames s.destroyed s.handleOf) {g : Obj}
    {object : Option (Object Co)} (hempty : s.handleOf g = none)
    (hobject : object.bind Object.handle = none) :
    Ownership s.created s.frames s.destroyed (s.setObject g object).handleOf := by
  have hsame : Function.update s.handleOf g none = s.handleOf := by
    rw [← hempty, Function.update_eq_self]
  rw [handleOf_setObject, hobject, hsame]
  exact h

omit [DecidableEq It] in
/-- The frame of an object is destroyed. -/
theorem release_owned (h : Ownership s.created s.frames s.destroyed s.handleOf) {g : Obj}
    {object : Object Co} (empty : Option (Object Co)) (hobject : s.objects g = some object)
    (hempty : empty.bind Object.handle = none) :
    Ownership (s.release object).created (s.release object).frames (s.release object).destroyed
      ((s.release object).setObject g empty).handleOf := by
  have hholds := handleOf_of_some hobject
  unfold State.release
  cases hhandle : object.handle with
  | none => exact setEmpty h (hholds.trans hhandle) hempty
  | some co =>
      rw [handleOf_setObject, hempty]
      exact h.drop (hholds.trans hhandle)

omit [DecidableEq It] [DecidableEq Co] in
/-- An object that owns nothing takes over what another one owns. -/
theorem transfer_owned (h : Ownership s.created s.frames s.destroyed s.handleOf) {g other : Obj}
    {source : Object Co} (started : Bool) (hne : g ≠ other) (hempty : s.handleOf g = none)
    (hsource : s.objects other = some source) :
    Ownership s.created s.frames s.destroyed
      ((s.setObject g (some ⟨source.handle, started⟩)).setObject other
        (some ⟨none, source.started⟩)).handleOf := by
  rw [handleOf_setObject, handleOf_setObject]
  simp only [Option.bind_some, ← handleOf_of_some hsource]
  exact h.transfer hne hempty

omit [DecidableEq It] in
theorem moveAssign_owned (h : Ownership s.created s.frames s.destroyed s.handleOf) {g other : Obj}
    {target source : Object Co} (hne : g ≠ other) (htarget : s.objects g = some target)
    (hsource : s.objects other = some source) :
    Ownership (s.release target).created (s.release target).frames (s.release target).destroyed
      (((s.release target).setObject g (some ⟨source.handle, target.started⟩)).setObject other
        (some ⟨none, source.started⟩)).handleOf := by
  have hreleased := release_owned h (some ⟨none, target.started⟩) htarget rfl
  have hempty : ((s.release target).setObject g (some ⟨none, target.started⟩)).handleOf g =
      none := by
    rw [handleOf_setObject, Function.update_self]
    rfl
  have hkept : ((s.release target).setObject g (some ⟨none, target.started⟩)).objects other =
      some source := by
    have hobjects := (release_same (s := s) target).2.2.2
    simpa [State.setObject, hobjects, Ne.symm hne] using hsource
  have hmoved := transfer_owned
    (s := (s.release target).setObject g (some ⟨none, target.started⟩)) hreleased target.started hne
    hempty hkept
  have hobject : ∀ object, ((s.release target).setObject g (some ⟨none, target.started⟩)).setObject
      g object = (s.release target).setObject g object := by
    simp [State.setObject]
  rw [hobject] at hmoved
  exact hmoved

end Owners

namespace GeneratorInv

omit [DecidableEq Obj] in
theorem resume (h : GeneratorInv s) {co : Co} {f : Frame V E} {it : It}
    (hlive : s.frames co = some f) (hdone : f.done = false) (haborted : s.aborted = false) :
    GeneratorInv (s.resume co f it) := by
  obtain ⟨body, hbody⟩ := h.body hlive
  have hpace := h.pace co body f hbody hlive
  obtain ⟨hbodies, hframes, hdestroyed, hobjects, hiterators, hseen, -⟩ :
      Resumed s (s.resume co f it) co f := resumed haborted hdone (hpace.running hdone).1
  have hnext := hpace.resume hdone
  have hcreated : (s.resume co f it).created = s.created := by
    funext co'
    simp only [State.created, hbodies]
  have hhandleOf : (s.resume co f it).handleOf = s.handleOf := by
    funext g
    simp only [State.handleOf, hobjects]
  refine ⟨?_, ?_, ?_, ?_, ?_⟩
  · rw [hcreated, hframes, hdestroyed, hhandleOf]
    exact h.ownership.modify _ hlive
  · intro co' body' f' hbody' hlive'
    rw [hbodies] at hbody'
    rw [hframes] at hlive'
    rw [hseen]
    by_cases heq : co' = co
    · subst heq
      rw [Function.update_self, Option.some.injEq] at hlive'
      rw [hbody, Option.some.injEq] at hbody'
      rw [Function.update_self, ← hlive', ← hbody']
      exact hnext
    · rw [Function.update_of_ne heq] at hlive' ⊢
      exact h.pace co' body' f' hbody' hlive'
  · intro co' body' hbody'
    rw [hbodies] at hbody'
    rw [hseen]
    by_cases heq : co' = co
    · subst heq
      rw [hbody, Option.some.injEq] at hbody'
      rw [Function.update_self, ← hbody']
      exact hnext.isPrefix
    · rw [Function.update_of_ne heq]
      exact h.seen co' body' hbody'
  · intro co' hnone
    rw [hbodies] at hnone
    have heq : co' ≠ co := by
      rintro rfl
      rw [hbody] at hnone
      cases hnone
    rw [hseen, Function.update_of_ne heq]
    exact h.fresh co' hnone
  · intro it' co' hiterator
    rw [hseen]
    by_cases heq : co' = co
    · subst heq
      simp
    · rw [Function.update_of_ne heq]
      exact h.shown it' co' ((hiterators it' co' hiterator).resolve_left heq)

omit [DecidableEq It] [DecidableEq Co] in
/-- The flag of an owner is set. -/
theorem start (h : GeneratorInv s) {g : Obj} {co : Co}
    (hobject : s.objects g = some ⟨some co, false⟩) :
    GeneratorInv (s.setObject g (some ⟨some co, true⟩)) := by
  refine h.mono ?_ rfl rfl (fun _ _ hlive => hlive) fun _ _ hiterator => hiterator
  have hholds : s.handleOf g = some co := handleOf_of_some hobject
  have hsame : Function.update s.handleOf g (some co) = s.handleOf := by
    rw [← hholds, Function.update_eq_self]
  rw [handleOf_setObject, Option.bind_some, hsame]
  exact h.ownership

theorem effect (h : GeneratorInv s) {a : Action Obj It Co V E} (heffect : Effect s a s') :
    GeneratorInv s' := by
  cases heffect with
  | create g co body hdead hfresh => exact h.create body hfresh hdead
  | construct g hdead =>
      exact h.mono (setEmpty h.ownership (handleOf_of_none hdead) rfl) rfl rfl
        (fun _ _ hlive => hlive) fun _ _ hiterator => hiterator
  | moveConstruct g other source hdead hsource =>
      have hne : g ≠ other := by
        rintro rfl
        rw [hdead] at hsource
        cases hsource
      exact h.mono (transfer_owned h.ownership false hne (handleOf_of_none hdead) hsource) rfl rfl
        (fun _ _ hlive => hlive) fun _ _ hiterator => hiterator
  | moveAssign g other target source htarget hsource =>
      obtain ⟨hbodies, hseen, hiterators, -⟩ := release_same (s := s) target
      unfold State.moveAssign
      split
      · exact h
      · next hne =>
          refine h.mono (moveAssign_owned h.ownership hne htarget hsource) hbodies hseen
            (fun _ _ hlive => frames_of_release hlive) fun it co hiterator => ?_
          rw [← hiterators]
          exact hiterator
  | destroy g object hobject =>
      obtain ⟨hbodies, hseen, hiterators, -⟩ := release_same (s := s) object
      refine h.mono (release_owned h.ownership none hobject rfl) hbodies hseen
        (fun _ _ hlive => frames_of_release hlive) fun it co hiterator => ?_
      rw [← hiterators]
      exact hiterator
  | beginEmpty g it =>
      refine h.mono h.ownership rfl rfl (fun _ _ hlive => hlive) fun it' co hiterator => ?_
      by_cases heq : it' = it
      · subst heq
        simp at hiterator
      · simpa [heq] using hiterator
  | beginRejected g it =>
      exact h.mono h.ownership rfl rfl (fun _ _ hlive => hlive) fun _ _ hiterator => hiterator
  | beginStarted g it co f hobject hlive hdone haborted =>
      exact (h.start hobject).resume hlive hdone haborted
  | increment it co f hiterator hlive hdone haborted => exact h.resume hlive hdone haborted

end GeneratorInv

/-! ## Flags -/

/-- The flag of an object tells whether its coroutine was resumed. -/
def FlagsAgree (s : State Obj It Co V E) : Prop :=
  ∀ g object co, s.objects g = some object → object.handle = some co →
    (object.started = true ↔ s.seen co ≠ [])

/-- A step that moves a frame moves it between objects whose flags agree; the
flag of a new object is false. -/
def keepsFlag (s : State Obj It Co V E) : Action Obj It Co V E → Bool
  | .moveConstruct _ other =>
      match s.objects other with
      | some source => source.handle.isNone || !source.started
      | none => true
  | .moveAssign g other =>
      match s.objects g, s.objects other with
      | some target, some source =>
          decide (g = other) || source.handle.isNone || target.started == source.started
      | _, _ => true
  | _ => true

namespace FlagsAgree

omit [DecidableEq Obj] [DecidableEq It] [DecidableEq Co] in
theorem initial : FlagsAgree (State.initial : State Obj It Co V E) := by
  rintro g object co ⟨⟩

omit [DecidableEq It] [DecidableEq Co] in
/-- An object is replaced by one whose flag agrees. -/
theorem setObject (h : FlagsAgree s) {g : Obj} {object : Option (Object Co)}
    (hobject : ∀ o co, object = some o → o.handle = some co →
      (o.started = true ↔ s.seen co ≠ [])) : FlagsAgree (s.setObject g object) := by
  intro g' o co ho hhandle
  by_cases heq : g' = g
  · subst heq
    exact hobject o co (by simpa [State.setObject] using ho) hhandle
  · exact h g' o co (by simpa [State.setObject, heq] using ho) hhandle

omit [DecidableEq Obj] [DecidableEq It] in
theorem release (h : FlagsAgree s) (object : Object Co) : FlagsAgree (s.release object) := by
  obtain ⟨-, hseen, -, hobjects⟩ := release_same (s := s) object
  intro g o co ho hhandle
  rw [hobjects] at ho
  rw [hseen]
  exact h g o co ho hhandle

omit [DecidableEq It] [DecidableEq Co] in
/-- A frame is taken over by an object whose flag agrees with the old owner's. -/
theorem transfer (h : FlagsAgree s) {g other : Obj} {source : Object Co} {started : Bool}
    (hsource : s.objects other = some source)
    (hkeeps : source.handle = none ∨ started = source.started) :
    FlagsAgree ((s.setObject g (some ⟨source.handle, started⟩)).setObject other
      (some ⟨none, source.started⟩)) := by
  apply FlagsAgree.setObject
  · apply h.setObject
    rintro o co ⟨⟩ hhandle
    rcases hkeeps with hnone | hstarted
    · have hhandle' : source.handle = some co := hhandle
      rw [hnone] at hhandle'
      cases hhandle'
    · subst hstarted
      exact h other source co hsource hhandle
  · rintro o co ⟨⟩ hhandle
    cases hhandle

omit [DecidableEq Obj] in
/-- A coroutine is resumed whose owner has its flag set. -/
theorem resume (hinv : GeneratorInv s) {g : Obj} {co : Co} {f : Frame V E} {it : It}
    (hother : ∀ g' o co', co' ≠ co → s.objects g' = some o → o.handle = some co' →
      (o.started = true ↔ s.seen co' ≠ []))
    (howner : s.objects g = some ⟨some co, true⟩) (hlive : s.frames co = some f)
    (hdone : f.done = false) (haborted : s.aborted = false) : FlagsAgree (s.resume co f it) := by
  obtain ⟨body, hbody⟩ := hinv.body hlive
  have herror := ((hinv.pace co body f hbody hlive).running hdone).1
  obtain ⟨-, -, -, hobjects, -, hseen, -⟩ : Resumed s (s.resume co f it) co f :=
    resumed haborted hdone herror
  intro g' o co' ho hhandle
  rw [hobjects] at ho
  rw [hseen]
  by_cases heq : co' = co
  · subst heq
    have hsame : g' = g := hinv.ownership.unique g' g co'
      ((handleOf_of_some ho).trans hhandle) (handleOf_of_some howner)
    subst hsame
    rw [howner, Option.some.injEq] at ho
    simp [← ho]
  · rw [Function.update_of_ne heq]
    exact hother g' o co' heq ho hhandle

theorem effect (h : FlagsAgree s) (hinv : GeneratorInv s) {a : Action Obj It Co V E}
    (hkeeps : keepsFlag s a = true) (heffect : Effect s a s') : FlagsAgree s' := by
  cases heffect with
  | create g co body hdead hfresh =>
      refine FlagsAgree.setObject (s := { s with
        bodies := Function.update s.bodies co (some body) }.setFrame co (.create body)) h ?_
      rintro o co' ⟨⟩ hhandle
      cases hhandle
      have hempty := hinv.fresh co (by simpa [State.created] using hfresh)
      simp [State.setFrame, hempty]
  | construct g hdead =>
      apply h.setObject
      rintro o co ⟨⟩ hhandle
      cases hhandle
  | moveConstruct g other source hdead hsource =>
      apply h.transfer hsource
      simp only [keepsFlag, hsource, Bool.or_eq_true, Option.isNone_iff_eq_none,
        Bool.not_eq_true'] at hkeeps
      exact hkeeps.imp_right Eq.symm
  | moveAssign g other target source htarget hsource =>
      simp only [keepsFlag, htarget, hsource, Bool.or_eq_true, decide_eq_true_eq,
        Option.isNone_iff_eq_none, beq_iff_eq] at hkeeps
      unfold State.moveAssign
      split
      · exact h
      · next hne =>
          have hkept : (s.release target).objects other = some source :=
            (congrFun (release_same target).2.2.2 other).trans hsource
          apply (h.release target).transfer hkept
          rcases hkeeps with (heq | hnone) | hstarted
          · exact absurd heq hne
          · exact .inl hnone
          · exact .inr hstarted
  | destroy g object hobject =>
      apply (h.release object).setObject
      rintro o co ⟨⟩
  | beginEmpty g it | beginRejected g it => exact h
  | beginStarted g it co f hobject hlive hdone haborted =>
      refine FlagsAgree.resume (hinv.start hobject) (g := g) ?_ (by simp [State.setObject]) hlive
        hdone haborted
      intro g' o co' hne ho hhandle
      by_cases heq : g' = g
      · subst heq
        simp only [State.setObject, Function.update_self, Option.some.injEq] at ho
        rw [← ho] at hhandle
        exact absurd (Option.some.inj hhandle).symm hne
      · exact h g' o co' (by simpa [State.setObject, heq] using ho) hhandle
  | increment it co f hiterator hlive hdone haborted =>
      obtain ⟨-, -, g, hholds⟩ := hinv.ownership.owned co f hlive
      obtain ⟨o, ho, hhandle⟩ := Option.bind_eq_some_iff.mp hholds
      have hstarted : o.started = true := (h g o co ho hhandle).mpr (hinv.shown it co hiterator)
      refine FlagsAgree.resume hinv (g := g) (fun g' o' co' _ => h g' o' co') ?_ hlive hdone
        haborted
      rw [ho, ← hhandle, ← hstarted]

end FlagsAgree

/-! ## The property -/

/-- What iterating over a generator relies on. -/
structure SinglePass (s : State Obj It Co V E) : Prop where
  /-- The flag of an owner tells whether its coroutine was started. -/
  started : ∀ g object co, s.objects g = some object → object.handle = some co →
    (∃ f, s.frames co = some f) ∧ (object.started = true ↔ s.seen co ≠ [])
  /-- `begin()` is accepted on a coroutine that was never started, and shows the
  first thing it has to show. -/
  accepted : ∀ g object co body it, s.objects g = some object → object.handle = some co →
    s.bodies co = some body → s.iterators it = none → s.aborted = false → s.seen co = [] →
      ∃ s', step s (.begin g it) = some s' ∧ s'.aborted = false ∧
        s'.seen co = body.expected.take 1
  rejected : ∀ g object co it, s.objects g = some object → object.handle = some co →
    s.iterators it = none → s.aborted = false → s.seen co ≠ [] →
      ∃ s', step s (.begin g it) = some s' ∧ s'.aborted = true
  /-- The iterator of an empty generator equals the sentinel. -/
  empty : ∀ g object it, s.objects g = some object → object.handle = none →
    s.iterators it = none → s.aborted = false →
      ∃ s', step s (.begin g it) = some s' ∧ s'.atEnd it = true ∧ s'.thrown = none
  /-- Callers see the values in order, none skipped, and then the sentinel or the
  exception. -/
  seen : ∀ co body, s.bodies co = some body → s.seen co <+: body.expected
  /-- As long as there is more to see, `++` shows the next thing. -/
  increments : ∀ it co body f, s.iterators it = some (some co) → s.bodies co = some body →
    s.frames co = some f → s.aborted = false → s.seen co ≠ body.expected →
      ∃ s', step s (.increment it) = some s' ∧
        s'.seen co = body.expected.take ((s.seen co).length + 1)
  /-- Between two resumptions the iterator goes on to show what was seen last. -/
  dereferences : ∀ it co body f, s.iterators it = some (some co) → s.bodies co = some body →
    s.frames co = some f → (s.atEnd it = true ↔ s.seen co = body.expected) ∧
      (s.atEnd it = false → ∃ v, s.deref it = some v ∧ (s.seen co).getLast? = some (.value v))
  destroyed : ∀ co, s.created co = true →
    (∃ f, s.frames co = some f) ∧ s.destroyed co = 0 ∧ (∃! g, s.handleOf g = some co) ∨
      s.frames co = none ∧ s.destroyed co = 1 ∧ ∀ g, s.handleOf g ≠ some co

namespace GeneratorInv

omit [DecidableEq Obj] in
/-- A resumption shows the next thing. -/
theorem resume_seen (h : GeneratorInv s) {co : Co} {body : Body V E} {f : Frame V E} (it : It)
    (hbody : s.bodies co = some body) (hlive : s.frames co = some f) (hdone : f.done = false)
    (haborted : s.aborted = false) :
    (s.resume co f it).aborted = false ∧
      (s.resume co f it).seen co = body.expected.take ((s.seen co).length + 1) := by
  have hpace := h.pace co body f hbody hlive
  obtain ⟨-, -, -, -, -, hseen, haborted'⟩ : Resumed s (s.resume co f it) co f :=
    resumed haborted hdone (hpace.running hdone).1
  refine ⟨haborted', ?_⟩
  have hnext := List.prefix_iff_eq_take.mp (hpace.resume hdone).isPrefix
  rw [hseen, Function.update_self]
  rw [List.length_append, List.length_singleton] at hnext
  exact hnext

omit [DecidableEq Obj] [DecidableEq It] [DecidableEq Co] in
theorem dereferences (h : GeneratorInv s) {it : It} {co : Co} {body : Body V E} {f : Frame V E}
    (hiterator : s.iterators it = some (some co)) (hbody : s.bodies co = some body)
    (hlive : s.frames co = some f) :
    (s.atEnd it = true ↔ s.seen co = body.expected) ∧
      (s.atEnd it = false → ∃ v, s.deref it = some v ∧ (s.seen co).getLast? = some (.value v)) := by
  have hpace := h.pace co body f hbody hlive
  have hend : s.atEnd it = f.done := by simp [State.atEnd, hiterator, hlive]
  have hderef : s.deref it = f.value := by simp [State.deref, hiterator, hlive]
  rw [hend, hderef]
  refine ⟨hpace.done_iff, fun hdone => ?_⟩
  obtain ⟨-, passed, -, hseen, hvalue⟩ := hpace.running hdone
  have hne : passed ≠ [] := by
    rintro rfl
    exact h.shown it co hiterator hseen
  refine ⟨passed.getLast hne, ?_, ?_⟩
  · rw [hvalue, List.getLast?_eq_some_getLast hne]
  · rw [hseen, List.getLast?_map, List.getLast?_eq_some_getLast hne]
    rfl

omit [DecidableEq Obj] [DecidableEq It] [DecidableEq Co] in
theorem destroyed_once (h : GeneratorInv s) {co : Co} (hcreated : s.created co = true) :
    (∃ f, s.frames co = some f) ∧ s.destroyed co = 0 ∧ (∃! g, s.handleOf g = some co) ∨
      s.frames co = none ∧ s.destroyed co = 1 ∧ ∀ g, s.handleOf g ≠ some co := by
  cases hframe : s.frames co with
  | some f =>
      obtain ⟨-, hzero, g, hholds⟩ := h.ownership.owned co f hframe
      refine .inl ⟨⟨f, rfl⟩, hzero, g, hholds, ?_⟩
      intro g' hholds'
      exact h.ownership.unique g' g co hholds' hholds
  | none =>
      refine .inr ⟨rfl, h.ownership.gone co hcreated hframe, ?_⟩
      intro g hholds
      obtain ⟨f, hlive⟩ := h.ownership.held g co hholds
      rw [hframe] at hlive
      cases hlive

theorem singlePass (h : GeneratorInv s) (hflags : FlagsAgree s) : SinglePass s := by
  constructor
  case started =>
    intro g object co hobject hhandle
    exact ⟨h.ownership.held g co ((handleOf_of_some hobject).trans hhandle),
      hflags g object co hobject hhandle⟩
  case accepted =>
    rintro g ⟨handle, started⟩ co body it hobject rfl hbody hiterator haborted hseen
    obtain ⟨f, hlive⟩ := h.ownership.held g co (handleOf_of_some hobject)
    have hstarted : started = false :=
      Bool.eq_false_iff.mpr fun hstarted => (hflags g _ co hobject rfl).mp hstarted hseen
    subst hstarted
    have hpace := h.pace co body f hbody hlive
    have hdone : f.done = false := by
      refine Bool.eq_false_iff.mpr fun hdone => ?_
      have hfinished := hpace.finished hdone
      rw [hseen, Body.expected] at hfinished
      simp at hfinished
    have hresumed := (h.start hobject).resume_seen it hbody hlive hdone haborted
    refine ⟨(s.setObject g (some ⟨some co, true⟩)).resume co f it, ?_, hresumed.1, ?_⟩
    · simp only [step, haborted, hobject, hiterator, State.begin, hlive, hdone, Bool.false_eq_true,
        if_false, Option.map_some]
      rfl
    · have hshown := hresumed.2
      change _ = body.expected.take ((s.seen co).length + 1) at hshown
      rw [hseen] at hshown
      exact hshown
  case rejected =>
    rintro g ⟨handle, started⟩ co it hobject rfl hiterator haborted hseen
    have hstarted : started = true := (hflags g _ co hobject rfl).mpr hseen
    subst hstarted
    refine ⟨{ s with aborted := true }, ?_, rfl⟩
    simp [step, haborted, hobject, hiterator, State.begin, State.observe]
  case empty =>
    rintro g ⟨handle, started⟩ it hobject rfl hiterator haborted
    refine ⟨{ s with iterators := Function.update s.iterators it (some none), thrown := none }, ?_,
      ?_, rfl⟩
    · simp [step, haborted, hobject, hiterator, State.begin, State.observe]
    · simp [State.atEnd]
  case seen => exact h.seen
  case increments =>
    intro it co body f hiterator hbody hlive haborted hmore
    have hdone : f.done = false :=
      Bool.eq_false_iff.mpr fun hdone => hmore ((h.pace co body f hbody hlive).finished hdone)
    refine ⟨s.resume co f it, ?_, (h.resume_seen it hbody hlive hdone haborted).2⟩
    simp only [step, haborted, hiterator, State.increment, hlive, hdone, Bool.false_eq_true,
      if_false, Option.map_some]
    rfl
  case dereferences =>
    intro it co body f hiterator hbody hlive
    exact h.dereferences hiterator hbody hlive
  case destroyed =>
    intro co hcreated
    exact h.destroyed_once hcreated

end GeneratorInv

/-- In a run that moves frames only between objects whose flags agree, every
generator is single-pass. -/
theorem single_pass {trace : List (State Obj It Co V E × Action Obj It Co V E)}
    (hrun : (machine Obj It Co V E).Run .initial trace s)
    (hkeeps : ∀ p ∈ trace, keepsFlag p.1 p.2 = true) :
    SinglePass s ∧ ∀ p ∈ trace, SinglePass p.1 := by
  have hpres : ∀ (s : State Obj It Co V E) a s', GeneratorInv s ∧ FlagsAgree s →
      keepsFlag s a = true → (machine Obj It Co V E).step s a = some s' →
        GeneratorInv s' ∧ FlagsAgree s' := by
    rintro s a s' ⟨hinv, hflags⟩ hkeeps hstep
    have heffect := effect_of_step hstep
    exact ⟨hinv.effect heffect, hflags.effect hinv hkeeps heffect⟩
  obtain ⟨⟨hinv, hflags⟩, hvisited⟩ := hrun.invariant_where hpres hkeeps
    ⟨GeneratorInv.initial, FlagsAgree.initial⟩
  refine ⟨hinv.singlePass hflags, ?_⟩
  intro p hp
  obtain ⟨hinv, hflags⟩ := hvisited p hp
  exact hinv.singlePass hflags

/-- A fresh generator is moved and then iterated over to its end. -/
def movedBeforeBegin (body : Body ℕ ℕ) : List (Action Bool Unit Unit ℕ ℕ) :=
  [.create false () body, .moveConstruct true false, .begin true (), .increment (),
    .increment ()]

theorem single_pass_movedBeforeBegin :
    (∃ s : State Bool Unit Unit ℕ ℕ, SinglePass s ∧ s.iterators () = some (some ()) ∧
      s.seen () = [.value 1, .value 2, .sentinel]) ∧
    ∃ s : State Bool Unit Unit ℕ ℕ, SinglePass s ∧ s.iterators () = some (some ()) ∧
      s.seen () = [.value 1, .value 2, .threw 7] := by
  constructor
  · obtain ⟨trace, hrun, hkeeps⟩ := Machine.exists_run_where (machine Bool Unit Unit ℕ ℕ)
      (fun s a => keepsFlag s a = true) (s := .initial) (movedBeforeBegin ⟨[1, 2], none⟩)
      (by decide)
    refine ⟨_, (single_pass hrun hkeeps).1, ?_⟩
    decide
  · obtain ⟨trace, hrun, hkeeps⟩ := Machine.exists_run_where (machine Bool Unit Unit ℕ ℕ)
      (fun s a => keepsFlag s a = true) (s := .initial) (movedBeforeBegin ⟨[1, 2], some 7⟩)
      (by decide)
    refine ⟨_, (single_pass hrun hkeeps).1, ?_⟩
    decide

/-- A generator is moved after its first value was seen. -/
def movedAfterBegin : List (Action Bool Unit Unit ℕ Unit) :=
  [.create false () ⟨[1, 2], none⟩, .begin false (), .moveConstruct true false]

theorem not_singlePass_after_move :
    ¬ ∀ s : State Bool Unit Unit ℕ Unit, (machine Bool Unit Unit ℕ Unit).Reachable s →
      SinglePass s := by
  intro hsinglePass
  have hreach := Machine.reachable_replay (M := machine Bool Unit Unit ℕ Unit)
    (rfl : State.initial = State.initial) movedAfterBegin (by decide)
  have hstarted := ((hsinglePass _ hreach).started true ⟨some (), false⟩ () (by decide)
    (by decide)).2
  exact Bool.false_ne_true (hstarted.mpr (by decide))

end Bexec.Generator
