import Bexec.ScopeStop.Effects

/-!
# The invariant of the stop callback

The fields of the object, the frames of its own code and the lifetimes of the
two registrations. The stacks relate a frame of `call_once` to the callback that
called it.
-/

namespace Bexec.ScopeStop

open Foundation StopToken

variable {Thread Record : Type}

/-- The code in each frame. -/
def codes (sources : Sources Side Thread Record Code) (id : FrameId Thread) : Option Code :=
  codeAt (sources.stack id.1) id.2

section Codes

variable [DecidableEq Thread] {sources : Sources Side Thread Record Code} {t : Thread}
  {rest stack : Stack Thread Record} {c c' : Code}

theorem codes_same (hsame : ∀ depth, codeAt stack depth = codeAt (sources.stack t) depth) :
    codes (sources.setStack t stack) = codes sources := by
  funext id
  by_cases ht : id.1 = t
  · simp [codes, Sources.setStack, ht, hsame]
  · simp [codes, Sources.setStack, ht]

theorem codes_update {new : Option Code}
    (hother : ∀ depth, depth ≠ rest.length →
      codeAt stack depth = codeAt (sources.stack t) depth)
    (hnew : codeAt stack rest.length = new) :
    codes (sources.setStack t stack) =
      Function.update (codes sources) (t, rest.length) new := by
  ext1 id
  by_cases heq : id = (t, rest.length)
  · subst heq
    simp [codes, Sources.setStack, hnew]
  · rw [Function.update_of_ne heq]
    by_cases ht : id.1 = t
    · have hdepth : id.2 ≠ rest.length := fun hdepth => heq (Prod.ext ht hdepth)
      simp [codes, Sources.setStack, ht, hother id.2 hdepth]
    · simp [codes, Sources.setStack, ht]

theorem codes_push :
    codes (sources.setStack t (.code c :: sources.stack t)) =
      Function.update (codes sources) (t, (sources.stack t).length) (some c) := by
  refine codes_update (fun depth hdepth => ?_) ?_
  · simp [hdepth]
  · simp

theorem codes_become (hstack : sources.stack t = .code c :: rest) :
    codes (sources.setStack t (.code c' :: rest)) =
      Function.update (codes sources) (t, rest.length) (some c') := by
  refine codes_update (fun depth hdepth => ?_) ?_
  · simp [hstack, hdepth]
  · simp

/-- The object's code calls the code of one of its members. -/
theorem codes_call {i : Side} {f : Frame Thread Record Unit} (m' : Memory Thread Record)
    (hstack : sources.stack t = .code c :: rest) :
    codes ((sources.setMemory i m').setStack t (.source i f :: .code c' :: rest)) =
      Function.update (codes sources) (t, rest.length) (some c') := by
  refine codes_update (fun depth hdepth => ?_) ?_
  · simp [Sources.setMemory, hstack, hdepth]
  · simp

theorem codes_leave (hstack : sources.stack t = .code c :: rest)
    (hsame : ∀ depth, codeAt stack depth = codeAt rest depth) :
    codes (sources.setStack t stack) =
      Function.update (codes sources) (t, rest.length) none := by
  refine codes_update (fun depth hdepth => ?_) ?_
  · simp [hstack, hsame, hdepth]
  · rw [hsame, codeAt_of_le le_rfl]

omit [DecidableEq Thread] in
theorem codes_top (hstack : sources.stack t = .code c :: rest) :
    codes sources (t, rest.length) = some c := by
  simp [codes, hstack]

omit [DecidableEq Thread] in
theorem codes_free : codes sources (t, (sources.stack t).length) = none :=
  codeAt_of_le le_rfl

end Codes

theorem Moved.codeAt [DecidableEq Record] {own : Record} {t : Thread} {i : Side}
    {f : Frame Thread Record Unit} {rest stack : Stack Thread Record}
    {m m' : Memory Thread Record} (h : Moved own t i f rest m m' stack) (depth : Nat) :
    ScopeStop.codeAt stack depth = ScopeStop.codeAt rest depth := by
  rcases h.stack with ⟨f', rfl, -⟩ | rfl | ⟨-, mark, rfl⟩
  · simp
  · rfl
  · simp

/-! ## The stacks -/

namespace Stacked

variable [DecidableEq Record] {own : Record} {rest : Stack Thread Record}
  {top : SharedFrame Side Thread Record Code}

/-- A callback frame of the object has `call_once` on it. -/
theorem clear (h : Chained own (top :: rest)) (htop : isCallOnce top = false)
    (hidle : ∀ depth, codeAt rest depth ≠ some (.callOnce .callback)) :
    rest.any (runsOwn own) = false := by
  induction rest generalizing top with
  | nil => rfl
  | cons lower below ih =>
      have hruns : runsOwn own lower = false := by
        rw [← htop]
        exact h.1.callOnce.symm
      have hlower : isCallOnce lower = false := by
        cases lower with
        | source i f => rfl
        | code c =>
            cases c with
            | callOnce pc =>
                cases pc with
                | exchange => exact absurd rfl h.1.exchange
                | callback => exact absurd (by simp) (hidle below.length)
            | _ => rfl
      rw [List.any_cons, hruns, Bool.false_or]
      refine ih h.2 hlower fun depth hcode => hidle depth ?_
      have hlt := codeAt_lt hcode
      cases lower with
      | source i f => simpa using hcode
      | code c => simpa [Nat.ne_of_lt hlt] using hcode

/-- What stands on a frame of the destructor is the destructor of a member. -/
theorem destructor_top (h : Chained own (top :: rest)) (huser : ∀ frame ∈ rest, frame.isUser = true)
    {depth : Nat} {pc : ResetPc} (hcode : codeAt rest depth = some (.destructor pc)) :
    ∃ i pc', top = .source i (.destructor own pc') := by
  induction rest generalizing top with
  | nil => cases hcode
  | cons lower below ih =>
      have hlower : ∀ i pc', lower ≠ .source i (.destructor own pc') := by
        rintro i pc' rfl
        cases huser _ List.mem_cons_self
      have hbelow : codeAt below depth ≠ some (.destructor pc) := by
        intro hcode
        obtain ⟨i, pc', heq⟩ := ih h.2 (fun frame hmem => huser frame (List.mem_cons_of_mem _ hmem))
          hcode
        exact hlower i pc' heq
      cases lower with
      | source i f => exact absurd (by simpa using hcode) hbelow
      | code c =>
          rw [codeAt_code] at hcode
          split at hcode
          next =>
            cases hcode
            exact h.1.destructor pc rfl
          next => exact absurd hcode hbelow

end Stacked

/-! ## The object -/

/-- The registration of a member has been started from the frame `id`. -/
def Started (own : Record) (id : FrameId Thread) (m : Memory Thread Record) : Prop :=
  m.life own = .constructing (id.1, id.2 + 1) ∨ m.life own = .alive

/-- The registration has been destroyed from thread `t`, outside unless the
callback body runs on that thread. -/
def Gone (own : Record) (t : Thread) (body : Body Thread) (m : Memory Thread Record) : Prop :=
  m.life own = .destroyed ∧
    ((∀ depth, body ≠ .running (t, depth)) → .destroyed own t false ∈ m.log)

def Torn (own : Record) (id : FrameId Thread) (body : Body Thread) (m : Memory Thread Record) :
    Prop :=
  m.life own = .destroying (id.1, id.2 + 1) ∨ Gone own id.1 body m

def ConstructorHolds (own : Record) (id : FrameId Thread) (memory : Side → Memory Thread Record) :
    EmplacePc → Prop
  | .scope => (memory .scope).life own = .unborn ∧ (memory .base).life own = .unborn
  | .base => Started own id (memory .scope) ∧ (memory .base).life own = .unborn
  | .finish => (memory .scope).life own = .alive ∧ Started own id (memory .base)

def DestructorHolds (own : Record) (id : FrameId Thread) (body : Body Thread)
    (memory : Side → Memory Thread Record) : ResetPc → Prop
  | .base => (memory .scope).life own = .alive ∧ (memory .base).life own = .alive
  | .scope => (memory .scope).life own = .alive ∧ Torn own id body (memory .base)
  | .finish => Torn own id body (memory .scope) ∧ Gone own id.1 body (memory .base)

def LifeInv (own : Record) (object : Object Thread) (codes : FrameId Thread → Option Code)
    (memory : Side → Memory Thread Record) : Prop :=
  match object.life with
  | .unborn => ∀ i, (memory i).life own = .unborn
  | .constructing id =>
      ∃ pc, codes id = some (.constructor pc) ∧ ConstructorHolds own id memory pc
  | .alive => ∀ i, (memory i).life own = .alive
  | .destroying id =>
      ∃ pc, codes id = some (.destructor pc) ∧ DestructorHolds own id object.body memory pc
  | .destroyed => ∀ i, (memory i).life own = .destroyed

section LifeSteps

variable {own : Record} {id frame : FrameId Thread} {outside : Prop} {m m' : Memory Thread Record}
  {body : Body Thread} {memory : Side → Memory Thread Record} {i j : Side}

/-- What a step of source `i` keeps of its own memory it keeps of all. -/
theorem update_of {p : Memory Thread Record → Prop} (h : p (memory j))
    (hstep : p (memory i) → p m') : p (Function.update memory i m' j) := by
  by_cases heq : j = i
  · subst heq
    rw [Function.update_self]
    exact hstep h
  · rwa [Function.update_of_ne heq]

namespace LifeStep

theorem unborn (h : LifeStep own frame outside m m') (hlife : m.life own = .unborn) :
    m'.life own = .unborn := by
  cases h with
  | same hsame => exact hsame.trans hlife
  | constructed hold => simp [hold] at hlife
  | destroyed hold => simp [hold] at hlife

theorem alive (h : LifeStep own frame outside m m') (hlife : m.life own = .alive) :
    m'.life own = .alive := by
  cases h with
  | same hsame => exact hsame.trans hlife
  | constructed hold => simp [hold] at hlife
  | destroyed hold => simp [hold] at hlife

theorem gone (h : LifeStep own frame outside m m') (hlife : m.life own = .destroyed) :
    m'.life own = .destroyed := by
  cases h with
  | same hsame => exact hsame.trans hlife
  | constructed hold => simp [hold] at hlife
  | destroyed hold => simp [hold] at hlife

theorem started (h : LifeStep own frame outside m m') (hstarted : Started own id m) :
    Started own id m' := by
  cases h with
  | same hsame => simpa [Started, hsame] using hstarted
  | constructed hold hnew => exact .inr hnew
  | destroyed hold => simp [Started, hold] at hstarted

theorem torn (h : LifeStep own frame outside m m') (hlog : m.log <:+ m'.log)
    (houtside : (∀ depth, body ≠ .running (frame.1, depth)) → outside)
    (htorn : Torn own id body m) : Torn own id body m' := by
  cases h with
  | same hsame =>
      rcases htorn with hdestroying | ⟨hgone, hevent⟩
      · exact .inl (hsame.trans hdestroying)
      · exact .inr ⟨hsame.trans hgone, fun hbody => hlog.subset (hevent hbody)⟩
  | constructed hold => simp [Torn, Gone, hold] at htorn
  | destroyed hold hnew hevent =>
      rcases htorn with hdestroying | ⟨hgone, -⟩
      · rw [hold] at hdestroying
        cases hdestroying
        exact .inr ⟨hnew, fun hbody => hevent (houtside hbody)⟩
      · simp [hold] at hgone

end LifeStep

theorem Gone.moved {t : Thread} (h : LifeStep own frame outside m m') (hlog : m.log <:+ m'.log)
    (hgone : Gone own t body m) : Gone own t body m' :=
  ⟨h.gone hgone.1, fun hbody => hlog.subset (hgone.2 hbody)⟩

theorem LifeInv.moved {object : Object Thread} {table : FrameId Thread → Option Code}
    (hold : LifeInv own object table memory) (h : LifeStep own frame outside (memory i) m')
    (hlog : (memory i).log <:+ m'.log)
    (houtside : (∀ depth, object.body ≠ .running (frame.1, depth)) → outside) :
    LifeInv own object table (Function.update memory i m') := by
  unfold LifeInv at hold ⊢
  cases hlife : object.life with
  | unborn =>
      rw [hlife] at hold
      exact fun j => update_of (p := fun m => m.life own = .unborn) (hold j) h.unborn
  | constructing id =>
      rw [hlife] at hold
      obtain ⟨pc, hcode, hholds⟩ := hold
      refine ⟨pc, hcode, ?_⟩
      cases pc with
      | scope =>
          exact ⟨update_of (p := fun m => m.life own = .unborn) hholds.1 h.unborn,
            update_of (p := fun m => m.life own = .unborn) hholds.2 h.unborn⟩
      | base =>
          exact ⟨update_of (p := Started own id) hholds.1 h.started,
            update_of (p := fun m => m.life own = .unborn) hholds.2 h.unborn⟩
      | finish =>
          exact ⟨update_of (p := fun m => m.life own = .alive) hholds.1 h.alive,
            update_of (p := Started own id) hholds.2 h.started⟩
  | alive =>
      rw [hlife] at hold
      exact fun j => update_of (p := fun m => m.life own = .alive) (hold j) h.alive
  | destroying id =>
      rw [hlife] at hold
      obtain ⟨pc, hcode, hholds⟩ := hold
      refine ⟨pc, hcode, ?_⟩
      cases pc with
      | base =>
          exact ⟨update_of (p := fun m => m.life own = .alive) hholds.1 h.alive,
            update_of (p := fun m => m.life own = .alive) hholds.2 h.alive⟩
      | scope =>
          exact ⟨update_of (p := fun m => m.life own = .alive) hholds.1 h.alive,
            update_of (p := Torn own id object.body) hholds.2 (h.torn hlog houtside)⟩
      | finish =>
          exact ⟨update_of (p := Torn own id object.body) hholds.1 (h.torn hlog houtside),
            update_of (p := Gone own id.1 object.body) hholds.2 (Gone.moved h hlog)⟩
  | destroyed =>
      rw [hlife] at hold
      exact fun j => update_of (p := fun m => m.life own = .destroyed) (hold j) h.gone

end LifeSteps

variable [DecidableEq Record]

structure ObjectInv (own : Record) (object : Object Thread)
    (codes : FrameId Thread → Option Code) (memory : Side → Memory Thread Record) : Prop where
  body : ∀ id, codes id = some (.callOnce .callback) ↔ object.body = .running id
  emplacing : ∀ id pc, codes id = some (.constructor pc) → object.life = .constructing id
  resetting : ∀ id pc, codes id = some (.destructor pc) → object.life = .destroying id
  life : LifeInv own object codes memory
  called : object.called = false ↔ object.body = .idle
  invoked : object.invoked.length = if object.called then 1 else 0
  returned : object.body = .returned ↔ object.returned ≠ []
  ran : ∀ i, (trail (memory i).log own).returned ≠ [] → object.called = true
  cause : object.called = true → ∃ i, (claimer (memory i).log).isSome = true
  torn : ∀ inside, object.tornDown = some inside → object.life = .destroyed ∧
    (inside = false → ∀ i, ∃ t, .destroyed own t false ∈ (memory i).log)

namespace ObjectInv

variable {own : Record} {object : Object Thread} {table : FrameId Thread → Option Code}
  {memory : Side → Memory Thread Record} {id : FrameId Thread} {i : Side}
  {m' : Memory Thread Record}

theorem initial (own : Record) :
    ObjectInv own ⟨false, .unborn, .idle, [], [], none⟩ (fun _ : FrameId Thread => none)
      (fun _ => .empty) where
  body := by simp
  emplacing := by simp
  resetting := by simp
  life := by simp [LifeInv, Memory.empty]
  called := by simp
  invoked := rfl
  returned := by simp
  ran := by simp [Memory.empty, trail]
  cause := by simp
  torn := by simp

/-- A source makes a step, by which the registration may come to live or to be
destroyed. -/
theorem moved {outside : Prop} (h : ObjectInv own object table memory)
    (hlife : LifeStep own id outside (memory i) m') (hlog : (memory i).log <:+ m'.log)
    (hreturned : (trail m'.log own).returned ≠ [] →
      (trail (memory i).log own).returned ≠ [] ∨ object.called = true)
    (houtside : (∀ depth, object.body ≠ .running (id.1, depth)) → outside) :
    ObjectInv own object table (Function.update memory i m') where
  body := h.body
  emplacing := h.emplacing
  resetting := h.resetting
  life := h.life.moved hlife hlog houtside
  called := h.called
  invoked := h.invoked
  returned := h.returned
  ran := by
    intro j hran
    by_cases heq : j = i
    · subst heq
      rw [Function.update_self] at hran
      rcases hreturned hran with hbefore | hcalled
      · exact h.ran j hbefore
      · exact hcalled
    · rw [Function.update_of_ne heq] at hran
      exact h.ran j hran
  cause := by
    intro hcalled
    obtain ⟨j, hj⟩ := h.cause hcalled
    refine ⟨j, ?_⟩
    by_cases heq : j = i
    · subst heq
      obtain ⟨events, hevents⟩ := hlog
      rw [Function.update_self, ← hevents]
      exact claimer_append hj
    · rwa [Function.update_of_ne heq]
  torn := by
    intro inside htorn
    obtain ⟨hdestroyed, hevents⟩ := h.torn inside htorn
    refine ⟨hdestroyed, fun hinside j => ?_⟩
    obtain ⟨t, ht⟩ := hevents hinside j
    refine ⟨t, ?_⟩
    by_cases heq : j = i
    · subst heq
      rw [Function.update_self]
      exact hlog.subset ht
    · rwa [Function.update_of_ne heq]

variable [DecidableEq Thread] {c c' : Option Code}

/-- No code in the frame, or `call_once`. -/
def Notifies (c : Option Code) : Prop :=
  ∀ code, c = some code → ∃ pc, code = .callOnce pc

theorem notifies_none : Notifies none := by
  simp [Notifies]

theorem notifies_some (pc : CallOncePc) : Notifies (some (.callOnce pc)) := by
  simp [Notifies]

/-- A frame of the constructor or destructor is not one of `call_once`. -/
theorem recode_iff {other : FrameId Thread} {code : Code} (hold : Notifies (table id))
    (hnew : Notifies c) (hcode : ∀ pc, code ≠ .callOnce pc) :
    Function.update table id c other = some code ↔ table other = some code := by
  by_cases heq : other = id
  · subst heq
    rw [Function.update_self]
    constructor
    · intro hsome
      obtain ⟨pc, hpc⟩ := hnew code hsome
      exact absurd hpc (hcode pc)
    · intro hsome
      obtain ⟨pc, hpc⟩ := hold code hsome
      exact absurd hpc (hcode pc)
  · rw [Function.update_of_ne heq]

omit [DecidableEq Record] in
theorem lifeInv_recode (h : LifeInv own object table memory) (hold : Notifies (table id))
    (hnew : Notifies c) : LifeInv own object (Function.update table id c) memory := by
  unfold LifeInv at h ⊢
  cases hlife : object.life with
  | constructing other =>
      rw [hlife] at h
      obtain ⟨pc, hcode, hholds⟩ := h
      exact ⟨pc, (recode_iff hold hnew (by simp)).mpr hcode, hholds⟩
  | destroying other =>
      rw [hlife] at h
      obtain ⟨pc, hcode, hholds⟩ := h
      exact ⟨pc, (recode_iff hold hnew (by simp)).mpr hcode, hholds⟩
  | _ => simpa [hlife] using h

/-- `call_once` is called, or returns without having called the callback. -/
theorem recode (h : ObjectInv own object table memory) (hold : Notifies (table id))
    (hnew : Notifies c) (hidle : table id ≠ some (.callOnce .callback))
    (hidle' : c ≠ some (.callOnce .callback)) :
    ObjectInv own object (Function.update table id c) memory where
  body := by
    intro other
    rw [← h.body]
    by_cases heq : other = id
    · subst heq
      simp [hidle, hidle']
    · rw [Function.update_of_ne heq]
  emplacing other pc hcode :=
    h.emplacing other pc ((recode_iff hold hnew (by simp)).mp hcode)
  resetting other pc hcode :=
    h.resetting other pc ((recode_iff hold hnew (by simp)).mp hcode)
  life := lifeInv_recode h.life hold hnew
  called := h.called
  invoked := h.invoked
  returned := h.returned
  ran := h.ran
  cause := h.cause
  torn := h.torn

omit [DecidableEq Record] [DecidableEq Thread] in
/-- The destructor minds only whether the body runs on its thread. -/
theorem lifeInv_body {body : Body Thread} (h : LifeInv own object table memory)
    (hbody : ∀ other, object.life = .destroying other →
      (∀ depth, body ≠ .running (other.1, depth)) →
        ∀ depth, object.body ≠ .running (other.1, depth))
    (object' : Object Thread) (hlife' : object'.life = object.life) (hbody' : object'.body = body) :
    LifeInv own object' table memory := by
  unfold LifeInv at h ⊢
  rw [hlife', hbody']
  cases hlife : object.life with
  | destroying other =>
      rw [hlife] at h
      obtain ⟨pc, hcode, hholds⟩ := h
      refine ⟨pc, hcode, ?_⟩
      have hgone : ∀ m : Memory Thread Record, Gone own other.1 object.body m →
          Gone own other.1 body m :=
        fun m hgone => ⟨hgone.1, fun hnot => hgone.2 (hbody other hlife hnot)⟩
      have htorn : ∀ m : Memory Thread Record, Torn own other object.body m →
          Torn own other body m := fun m htorn => htorn.imp_right (hgone m)
      cases pc with
      | base => exact hholds
      | scope => exact ⟨hholds.1, htorn _ hholds.2⟩
      | finish => exact ⟨htorn _ hholds.1, hgone _ hholds.2⟩
  | _ => simpa [hlife] using h

/-- `call_once` wins the exchange. -/
theorem won (h : ObjectInv own object table memory) (hcode : table id = some (.callOnce .exchange))
    (hcalled : object.called = false) (hcause : ∃ i, (claimer (memory i).log).isSome = true) :
    ObjectInv own
      { object with
        called := true
        body := .running id
        invoked := id.1 :: object.invoked }
      (Function.update table id (some (.callOnce .callback))) memory := by
  have hidle := h.called.mp hcalled
  have hold : Notifies (table id) := hcode ▸ notifies_some _
  have hnew := notifies_some .callback
  refine ⟨?_, ?_, ?_, ?_, by simp, ?_, ?_, by simp, fun _ => hcause, h.torn⟩
  · intro other
    have hnone := h.body other
    rw [hidle] at hnone
    by_cases heq : other = id
    · simp [heq]
    · simpa [heq, Ne.symm heq] using hnone
  · exact fun other pc hother => h.emplacing other pc ((recode_iff hold hnew (by simp)).mp hother)
  · exact fun other pc hother => h.resetting other pc ((recode_iff hold hnew (by simp)).mp hother)
  · refine lifeInv_body (lifeInv_recode h.life hold hnew) ?_ _ rfl rfl
    simp [hidle]
  · simp [h.invoked, hcalled]
  · have hnone := h.returned
    rw [hidle] at hnone
    simpa using hnone

/-- The callback body returns. -/
theorem ended (h : ObjectInv own object table memory) (hcode : table id = some (.callOnce .callback))
    (hfree : ∀ other, object.life = .destroying other → other.1 ≠ id.1) :
    ObjectInv own { object with body := .returned, returned := id.1 :: object.returned }
      (Function.update table id none) memory := by
  have hrunning := (h.body id).mp hcode
  have hcalled : object.called = true := by
    rw [← Bool.not_eq_false, h.called, hrunning]
    simp
  have hold : Notifies (table id) := hcode ▸ notifies_some _
  have hnew := notifies_none
  refine ⟨?_, ?_, ?_, ?_, by simp [hcalled], h.invoked, by simp, h.ran, h.cause, h.torn⟩
  · intro other
    by_cases heq : other = id
    · simp [heq]
    · rw [Function.update_of_ne heq, h.body, hrunning]
      simp [Ne.symm heq]
  · exact fun other pc hother => h.emplacing other pc ((recode_iff hold hnew (by simp)).mp hother)
  · exact fun other pc hother => h.resetting other pc ((recode_iff hold hnew (by simp)).mp hother)
  · refine lifeInv_body (lifeInv_recode h.life hold hnew) ?_ _ rfl rfl
    intro other hother _ depth heq
    rw [hrunning] at heq
    cases heq
    exact hfree other hother rfl

/-- The constructor or the destructor of the object is called, continues or
returns: its frame `id` is the only one. -/
theorem relive (life : Life Thread) (tornDown : Option Bool)
    {memory' : Side → Memory Thread Record} (h : ObjectInv own object table memory)
    (halone : ∀ other, object.life.frame? = some other → other = id)
    (hold : table id ≠ some (.callOnce .callback)) (hnew : c ≠ some (.callOnce .callback))
    (hemplacing : ∀ pc, c = some (.constructor pc) → life = .constructing id)
    (hresetting : ∀ pc, c = some (.destructor pc) → life = .destroying id)
    (hlife : LifeInv own { object with life, tornDown } (Function.update table id c) memory')
    (hlog : ∀ i, (memory' i).log = (memory i).log)
    (htorn : ∀ inside, tornDown = some inside → life = .destroyed ∧
      (inside = false → ∀ i, ∃ t, .destroyed own t false ∈ (memory i).log)) :
    ObjectInv own { object with life, tornDown } (Function.update table id c) memory' where
  body := by
    intro other
    by_cases heq : other = id
    · subst heq
      have hnone := h.body other
      rw [Function.update_self]
      exact ⟨fun hsome => absurd hsome hnew, fun hrunning => absurd (hnone.mpr hrunning) hold⟩
    · rw [Function.update_of_ne heq]
      exact h.body other
  emplacing := by
    intro other pc hcode
    by_cases heq : other = id
    · subst heq
      exact hemplacing pc (by simpa using hcode)
    · rw [Function.update_of_ne heq] at hcode
      exact absurd (halone other (by rw [h.emplacing other pc hcode]; rfl)) heq
  resetting := by
    intro other pc hcode
    by_cases heq : other = id
    · subst heq
      exact hresetting pc (by simpa using hcode)
    · rw [Function.update_of_ne heq] at hcode
      exact absurd (halone other (by rw [h.resetting other pc hcode]; rfl)) heq
  life := hlife
  called := h.called
  invoked := h.invoked
  returned := h.returned
  ran := by
    intro i hran
    rw [hlog] at hran
    exact h.ran i hran
  cause := by
    intro hcalled
    obtain ⟨i, hi⟩ := h.cause hcalled
    exact ⟨i, by rwa [hlog]⟩
  torn := by
    intro inside heq
    simpa only [hlog] using htorn inside heq

omit [DecidableEq Thread] in
theorem not_torn (h : ObjectInv own object table memory) (hlife : object.life ≠ .destroyed) :
    object.tornDown = none := by
  cases htorn : object.tornDown with
  | none => rfl
  | some inside => exact absurd (h.torn inside htorn).1 hlife

theorem construct (h : ObjectInv own object table memory) (hfree : table id = none)
    (hlife : object.life = .unborn) :
    ObjectInv own { object with life := .constructing id }
      (Function.update table id (some (.constructor .scope))) memory := by
  have hunborn := h.life
  unfold LifeInv at hunborn
  rw [hlife] at hunborn
  refine h.relive _ object.tornDown (by simp [hlife, Life.frame?]) (by simp [hfree]) (by simp)
    (by simp) (by simp) ?_ (fun _ => rfl) ?_
  · exact ⟨.scope, by simp, hunborn .scope, hunborn .base⟩
  · simp [h.not_torn (by simp [hlife])]

theorem destroy (h : ObjectInv own object table memory) (hfree : table id = none)
    (hlife : object.life = .alive) :
    ObjectInv own { object with life := .destroying id }
      (Function.update table id (some (.destructor .base))) memory := by
  have halive := h.life
  unfold LifeInv at halive
  rw [hlife] at halive
  refine h.relive _ object.tornDown (by simp [hlife, Life.frame?]) (by simp [hfree]) (by simp)
    (by simp) (by simp) ?_ (fun _ => rfl) ?_
  · exact ⟨.base, by simp, halive .scope, halive .base⟩
  · simp [h.not_torn (by simp [hlife])]

omit [DecidableEq Thread] in
/-- The constructor at `id`, between two of its calls. -/
theorem emplacing_holds {pc : EmplacePc} (h : ObjectInv own object table memory)
    (hcode : table id = some (.constructor pc)) :
    object.life = .constructing id ∧ ConstructorHolds own id memory pc := by
  have hlife := h.emplacing id pc hcode
  have hholds := h.life
  unfold LifeInv at hholds
  rw [hlife] at hholds
  obtain ⟨pc', hcode', hholds⟩ := hholds
  rw [hcode] at hcode'
  cases hcode'
  exact ⟨hlife, hholds⟩

omit [DecidableEq Thread] in
theorem resetting_holds {pc : ResetPc} (h : ObjectInv own object table memory)
    (hcode : table id = some (.destructor pc)) :
    object.life = .destroying id ∧ DestructorHolds own id object.body memory pc := by
  have hlife := h.resetting id pc hcode
  have hholds := h.life
  unfold LifeInv at hholds
  rw [hlife] at hholds
  obtain ⟨pc', hcode', hholds⟩ := hholds
  rw [hcode] at hcode'
  cases hcode'
  exact ⟨hlife, hholds⟩

theorem emplace {pc pc' : EmplacePc} (h : ObjectInv own object table memory)
    (hcode : table id = some (.constructor pc)) (hmember : pc.member = some (i, pc'))
    (hreturned : ∀ j, (memory j).life own ≠ .constructing (id.1, id.2 + 1)) :
    ObjectInv own object (Function.update table id (some (.constructor pc')))
      (Function.update memory i ((memory i).setLife own (.constructing (id.1, id.2 + 1)))) := by
  obtain ⟨hlife, hholds⟩ := h.emplacing_holds hcode
  refine h.relive object.life object.tornDown (by simp [hlife, Life.frame?]) (by simp [hcode])
    (by simp) (fun _ _ => hlife) (by simp) ?_ ?_ ?_
  · unfold LifeInv
    rw [hlife]
    refine ⟨pc', by simp, ?_⟩
    cases pc with
    | scope =>
        cases hmember
        exact ⟨.inl (by simp [Memory.setLife]), by simpa using hholds.2⟩
    | base =>
        cases hmember
        refine ⟨?_, .inl (by simp [Memory.setLife])⟩
        rcases hholds.1 with hconstructing | halive
        · exact absurd hconstructing (hreturned .scope)
        · simpa using halive
    | finish => cases hmember
  · intro j
    by_cases heq : j = i
    · subst heq
      simp [Memory.setLife]
    · rw [Function.update_of_ne heq]
  · simp [h.not_torn (by simp [hlife])]

theorem reset {pc pc' : ResetPc} (h : ObjectInv own object table memory)
    (hcode : table id = some (.destructor pc)) (hmember : pc.member = some (i, pc'))
    (hreturned : ∀ j, (memory j).life own ≠ .destroying (id.1, id.2 + 1)) :
    ObjectInv own object (Function.update table id (some (.destructor pc')))
      (Function.update memory i ((memory i).setLife own (.destroying (id.1, id.2 + 1)))) := by
  obtain ⟨hlife, hholds⟩ := h.resetting_holds hcode
  refine h.relive object.life object.tornDown (by simp [hlife, Life.frame?]) (by simp [hcode])
    (by simp) (by simp) (fun _ _ => hlife) ?_ ?_ ?_
  · unfold LifeInv
    rw [hlife]
    refine ⟨pc', by simp, ?_⟩
    cases pc with
    | base =>
        cases hmember
        exact ⟨by simpa using hholds.1, .inl (by simp [Memory.setLife])⟩
    | scope =>
        cases hmember
        refine ⟨.inl (by simp [Memory.setLife]), ?_⟩
        rcases hholds.2 with hdestroying | hgone
        · exact absurd hdestroying (hreturned .base)
        · simpa [Gone] using hgone
    | finish => cases hmember
  · intro j
    by_cases heq : j = i
    · subst heq
      simp [Memory.setLife]
    · rw [Function.update_of_ne heq]
  · simp [h.not_torn (by simp [hlife])]

theorem constructed (h : ObjectInv own object table memory)
    (hcode : table id = some (.constructor .finish))
    (hreturned : ∀ j, (memory j).life own ≠ .constructing (id.1, id.2 + 1)) :
    ObjectInv own { object with life := .alive } (Function.update table id none) memory := by
  obtain ⟨hlife, hscope, hbase⟩ := h.emplacing_holds hcode
  refine h.relive _ object.tornDown (by simp [hlife, Life.frame?]) (by simp [hcode]) (by simp)
    (by simp) (by simp) ?_ (fun _ => rfl) ?_
  · intro j
    cases j with
    | scope => exact hscope
    | base => exact hbase.resolve_left (hreturned .base)
  · simp [h.not_torn (by simp [hlife])]

theorem destroyed {inside : Bool} (h : ObjectInv own object table memory)
    (hcode : table id = some (.destructor .finish))
    (hreturned : ∀ j, (memory j).life own ≠ .destroying (id.1, id.2 + 1))
    (hinside : inside = false → ∀ depth, object.body ≠ .running (id.1, depth)) :
    ObjectInv own { object with life := .destroyed, tornDown := some inside }
      (Function.update table id none) memory := by
  obtain ⟨hlife, hscope, hbase⟩ := h.resetting_holds hcode
  have hgone := hscope.resolve_left (hreturned .scope)
  refine h.relive _ _ (by simp [hlife, Life.frame?]) (by simp [hcode]) (by simp)
    (by simp) (by simp) ?_ (fun _ => rfl) ?_
  · intro j
    cases j with
    | scope => exact hgone.1
    | base => exact hbase.1
  · intro inside' heq
    cases heq
    refine ⟨rfl, fun hfalse j => ⟨id.1, ?_⟩⟩
    cases j with
    | scope => exact hgone.2 (hinside hfalse)
    | base => exact hbase.2 (hinside hfalse)

end ObjectInv

end Bexec.ScopeStop
