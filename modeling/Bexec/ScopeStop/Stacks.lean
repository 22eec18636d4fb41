import Bexec.ScopeStop.Callback

/-!
# How the frames of the object stand on the stacks

A frame of `call_once` stands on the callback frame that called it, and only
there; the destructor calls nothing but the destructors of the registrations.
-/

namespace Bexec.ScopeStop

open Foundation StopToken

variable {Thread Record : Type}

def isCallOnce : SharedFrame Side Thread Record Code → Bool
  | .code (.callOnce _) => true
  | _ => false

/-- The notifying frame has been told that the object's registration is gone. -/
def removedOwn [DecidableEq Record] (own : Record) : SharedFrame Side Thread Record Code → Bool
  | .source _ (.requestStop (.callback r true)) => r = own
  | _ => false

/-- The code in a frame at a depth, if it is a frame of the object. -/
def codeAt (stack : Stack Thread Record) (depth : Nat) : Option Code :=
  (CallStack.frameAt stack depth).bind fun
    | .code c => some c
    | .source _ _ => none

section CodeAt

variable {i : Side} {frame : Frame Thread Record Unit} {code : Code}
  {rest : Stack Thread Record} {depth : Nat}

@[simp] theorem codeAt_nil (depth : Nat) : codeAt ([] : Stack Thread Record) depth = none := rfl

theorem codeAt_of_le (hdepth : rest.length ≤ depth) : codeAt rest depth = none := by
  cases hframe : CallStack.frameAt rest depth with
  | none => simp [codeAt, hframe]
  | some frame => exact absurd (CallStack.frameAt_lt hframe) (not_lt.mpr hdepth)

theorem codeAt_lt (hcode : codeAt rest depth = some code) : depth < rest.length := by
  by_contra hdepth
  rw [codeAt_of_le (not_lt.mp hdepth)] at hcode
  cases hcode

@[simp] theorem codeAt_source (depth : Nat) :
    codeAt (.source i frame :: rest) depth = codeAt rest depth := by
  by_cases heq : depth = rest.length
  · rw [codeAt_of_le heq.symm.le]
    simp [codeAt, heq]
  · simp [codeAt, CallStack.frameAt, heq]

@[simp] theorem codeAt_code (depth : Nat) :
    codeAt (.code code :: rest) depth = if depth = rest.length then some code
      else codeAt rest depth := by
  by_cases heq : depth = rest.length <;> simp [codeAt, CallStack.frameAt, heq]

@[simp] theorem codeAt_mark (stack : Stack Thread Record) (mark depth : Nat) :
    codeAt (CallStack.modifyAt (SharedFrame.markRemoved i) stack mark) depth =
      codeAt stack depth := by
  unfold codeAt
  rw [CallStack.frameAt_modifyAt]
  by_cases heq : depth = mark
  · subst heq
    cases hframe : CallStack.frameAt stack depth with
    | none => simp
    | some frame => cases frame <;> simp [SharedFrame.markRemoved]
  · simp [heq]

end CodeAt

variable [DecidableEq Record] {own : Record}

/-- What stands directly under a frame. -/
structure Sits (own : Record) (frame : SharedFrame Side Thread Record Code)
    (below : Option (SharedFrame Side Thread Record Code)) : Prop where
  callOnce : isCallOnce frame = below.any (runsOwn own)
  exchange : below ≠ some (.code (.callOnce .exchange))
  removed : below.any (removedOwn own) = true → frame = .code (.callOnce .callback)
  destructor : ∀ pc, below = some (.code (.destructor pc)) →
    ∃ i pc', frame = .source i (.destructor own pc')

def Chained (own : Record) : Stack Thread Record → Prop
  | [] => True
  | frame :: rest => Sits own frame rest.head? ∧ Chained own rest

/-- The stack of one thread between two steps. -/
structure Stacked (own : Record) (stack : Stack Thread Record) : Prop where
  chained : Chained own stack
  top : stack.head?.any (removedOwn own) = false

/-- One frame of a source takes the place of another in the same call. -/
def Follows : Frame Thread Record Unit → Frame Thread Record Unit → Prop
  | .constructor r _, .constructor r' _ => r' = r
  | .destructor r _, .destructor r' _ => r' = r
  | .requestStop _, .requestStop pc => ∀ r, pc ≠ .callback r true
  | _, _ => False

namespace Stacked

variable {stack rest : Stack Thread Record} {frame : SharedFrame Side Thread Record Code}
  {i : Side} {f f' : Frame Thread Record Unit} {r : Record}

omit [DecidableEq Record] in
theorem nil [DecidableEq Record] : Stacked own ([] : Stack Thread Record) :=
  ⟨trivial, rfl⟩

theorem sits (h : Stacked own (frame :: rest)) : Sits own frame rest.head? := h.chained.1

theorem runsOwn_of_removed (hremoved : removedOwn own frame = true) :
    runsOwn own frame = true := by
  cases frame with
  | code c => cases hremoved
  | source i f =>
      cases f with
      | requestStop pc =>
          cases pc with
          | callback r removed =>
              cases removed with
              | false => cases hremoved
              | true => exact hremoved
          | _ => cases hremoved
      | _ => cases hremoved

/-- User code, or the object's code on a stack of user code, makes a call. -/
theorem push (h : Stacked own stack) (huser : userRuns own stack = true)
    (hnot : isCallOnce frame = false) (hkept : removedOwn own frame = false) :
    Stacked own (frame :: stack) := by
  refine ⟨⟨?_, h.chained⟩, by simpa using hkept⟩
  cases stack with
  | nil => exact ⟨by simpa using hnot, by simp, by simp, by simp⟩
  | cons top rest =>
      have htop := h.top
      simp only [List.head?_cons, Option.any_some] at htop
      cases top with
      | source j f =>
          simp only [userRuns, Bool.and_eq_true, Bool.not_eq_true'] at huser
          exact ⟨by simp [hnot, runsOwn, huser.2], by simp, by simp [htop], by simp⟩
      | code c =>
          cases c with
          | callOnce pc =>
              cases pc with
              | exchange => cases huser
              | callback => exact ⟨by simp [hnot, runsOwn], by simp, by simp [htop], by simp⟩
          | _ => cases huser

/-- The object's callback frame calls `call_once`. -/
theorem enter (h : Stacked own (.source i f :: rest)) (hown : f.running own = true) :
    Stacked own (.code (.callOnce .exchange) :: .source i f :: rest) := by
  refine ⟨⟨⟨?_, by simp, ?_, by simp⟩, h.chained⟩, rfl⟩
  · simp [isCallOnce, runsOwn, hown]
  · intro hremoved
    simp only [List.head?_cons] at hremoved
    rw [show (some (.source i f) : Option (SharedFrame Side Thread Record Code)).any
      (removedOwn own) = false from h.top] at hremoved
    cases hremoved

/-- A call of the destructor on a member. -/
theorem pushDestructor {pc : ResetPc} {pc' : DestructorPc Thread Record}
    (h : Stacked own (.code (.destructor pc) :: rest)) :
    Stacked own (.source i (.destructor own pc') :: .code (.destructor pc) :: rest) := by
  refine ⟨⟨⟨by simp [isCallOnce, runsOwn], by simp, by simp [removedOwn], ?_⟩, h.chained⟩, rfl⟩
  exact fun _ _ => ⟨i, pc', rfl⟩

theorem pushConstructor {pc : EmplacePc} {pc' : ConstructorPc Record}
    (h : Stacked own (.code (.constructor pc) :: rest)) :
    Stacked own (.source i (.constructor own pc') :: .code (.constructor pc) :: rest) :=
  ⟨⟨⟨by simp [isCallOnce, runsOwn], by simp, by simp [removedOwn], by simp⟩, h.chained⟩, rfl⟩

/-- A frame of a source is replaced in place. -/
theorem goto (h : Chained own (.source i f :: rest)) (hfollows : Follows f f') :
    Stacked own (.source i f' :: rest) := by
  obtain ⟨hsits, hrest⟩ := h
  refine ⟨⟨⟨hsits.callOnce, hsits.exchange, ?_, ?_⟩, hrest⟩, ?_⟩
  · intro hremoved
    cases hsits.removed hremoved
  · intro pc hbelow
    obtain ⟨j, pc', heq⟩ := hsits.destructor pc hbelow
    cases heq
    cases f' with
    | destructor r' pc'' =>
        obtain rfl : r' = own := hfollows
        exact ⟨_, _, rfl⟩
    | _ => cases hfollows
  · cases f' with
    | requestStop pc =>
        cases pc with
        | callback r removed =>
            cases removed with
            | false => rfl
            | true =>
                cases f with
                | requestStop pc' => exact absurd rfl (hfollows r)
                | _ => cases hfollows
        | _ => rfl
    | _ => rfl

/-- A frame that is not the callback body returns. -/
theorem pop (h : Stacked own (frame :: rest)) (hne : frame ≠ .code (.callOnce .callback)) :
    Stacked own rest := by
  refine ⟨h.chained.2, ?_⟩
  rw [Bool.eq_false_iff]
  exact fun hremoved => hne (h.sits.removed hremoved)

/-- One frame of the object's code takes the place of another. -/
theorem become {c c' : Code} (h : Stacked own (.code c :: rest))
    (hkind : isCallOnce (.code c : SharedFrame Side Thread Record Code) =
      isCallOnce (.code c' : SharedFrame Side Thread Record Code))
    (hne : c ≠ .callOnce .callback) : Stacked own (.code c' :: rest) := by
  obtain ⟨⟨hsits, hrest⟩, -⟩ := h
  refine ⟨⟨⟨hkind.symm.trans hsits.callOnce, hsits.exchange, ?_, ?_⟩, hrest⟩, rfl⟩
  · intro hremoved
    have heq := hsits.removed hremoved
    cases heq
    exact absurd rfl hne
  · intro pc hbelow
    obtain ⟨j, pc', heq⟩ := hsits.destructor pc hbelow
    cases heq

/-- The frame under `call_once` is the object's callback frame. -/
theorem under_callOnce {pc : CallOncePc} (h : Stacked own (.code (.callOnce pc) :: rest)) :
    ∃ i f below, rest = .source i f :: below ∧ f.running own = true := by
  have hcall := h.sits.callOnce
  cases rest with
  | nil => cases hcall
  | cons lower below =>
      cases lower with
      | code c => cases hcall
      | source i f => exact ⟨i, f, below, rfl, hcall.symm⟩

/-- `call_once` returns, and then its caller. -/
theorem returned {pc : CallOncePc}
    (h : Stacked own (.code (.callOnce pc) :: .source i f :: rest)) : Stacked own rest := by
  refine ⟨h.chained.2.2, ?_⟩
  rw [Bool.eq_false_iff]
  intro hremoved
  cases h.chained.2.1.removed hremoved

theorem resumed {pc : CallOncePc} (h : Stacked own (.code (.callOnce pc) :: .source i f :: rest))
    (hfollows : Follows f f') : Stacked own (.source i f' :: rest) :=
  goto h.chained.2 hfollows

/-! ## A flag is set further down -/

theorem runsOwn_mark (frame : SharedFrame Side Thread Record Code) :
    runsOwn own (frame.markRemoved i) = runsOwn own frame := by
  cases frame with
  | code c => rfl
  | source j f =>
      by_cases heq : j = i
      · cases f with
        | requestStop pc => cases pc <;> simp [SharedFrame.markRemoved, heq] <;> rfl
        | _ => simp [SharedFrame.markRemoved, heq, Frame.markRemoved]
      · simp [SharedFrame.markRemoved, heq]

omit [DecidableEq Record] in
theorem mark_eq_code {frame : SharedFrame Side Thread Record Code} {c : Code} :
    frame.markRemoved i = .code c ↔ frame = .code c := by
  cases frame <;> simp [SharedFrame.markRemoved]

theorem sits_mark {below : Option (SharedFrame Side Thread Record Code)}
    (h : Sits own frame below) (hexchange : frame ≠ .code (.callOnce .exchange)) :
    Sits own frame (below.map (SharedFrame.markRemoved i)) := by
  cases below with
  | none => exact h
  | some lower =>
      refine ⟨?_, ?_, ?_, ?_⟩
      · simpa [runsOwn_mark] using h.callOnce
      · simpa [mark_eq_code] using h.exchange
      · intro hremoved
        have hruns : runsOwn own lower = true := by
          rw [← runsOwn_mark (i := i)]
          exact runsOwn_of_removed (by simpa using hremoved)
        have hcall : isCallOnce frame = true := by simpa [hruns] using h.callOnce
        cases frame with
        | source j f => cases hcall
        | code c =>
            cases c with
            | callOnce pc =>
                cases pc with
                | exchange => exact absurd rfl hexchange
                | callback => rfl
            | _ => cases hcall
      · intro pc hbelow
        apply h.destructor pc
        simpa [mark_eq_code] using hbelow

omit [DecidableEq Record] in
theorem head?_modifyAt (stack : Stack Thread Record) (depth : Nat) :
    (CallStack.modifyAt (SharedFrame.markRemoved i) stack depth).head? = stack.head? ∨
      (CallStack.modifyAt (SharedFrame.markRemoved i) stack depth).head? =
        stack.head?.map (SharedFrame.markRemoved i) := by
  cases stack with
  | nil => exact .inl rfl
  | cons top rest =>
      unfold CallStack.modifyAt
      split <;> simp

/-- The flag is that of a frame under user code. -/
theorem chained_mark {depth : Nat} (h : Chained own stack)
    (hexchange : stack.head? ≠ some (.code (.callOnce .exchange))) :
    Chained own (CallStack.modifyAt (SharedFrame.markRemoved i) stack depth) := by
  induction stack with
  | nil => trivial
  | cons top rest ih =>
      obtain ⟨hsits, hrest⟩ := h
      have htop : top ≠ .code (.callOnce .exchange) := by simpa using hexchange
      unfold CallStack.modifyAt
      split
      · refine ⟨⟨?_, hsits.exchange, ?_, ?_⟩, hrest⟩
        · rw [← hsits.callOnce]
          cases top <;> rfl
        · intro hremoved
          rw [hsits.removed hremoved]
          rfl
        · intro pc hbelow
          obtain ⟨j, pc', rfl⟩ := hsits.destructor pc hbelow
          refine ⟨j, pc', ?_⟩
          by_cases heq : j = i <;> simp [SharedFrame.markRemoved, heq, Frame.markRemoved]
      · refine ⟨?_, ih hrest hsits.exchange⟩
        rcases head?_modifyAt (i := i) rest depth with heq | heq
        · rw [heq]
          exact hsits
        · rw [heq]
          exact sits_mark hsits htop

/-- A destructor that was called from user code returns, and has set the flag of
the frame that runs its callback. -/
theorem mark {depth : Nat} {pc : DestructorPc Thread Record}
    (h : Stacked own (.source i (.destructor r pc) :: rest)) :
    Stacked own (CallStack.modifyAt (SharedFrame.markRemoved i) rest depth) := by
  have hsits := h.sits
  have htop := (h.pop (by simp)).top
  refine ⟨chained_mark h.chained.2 hsits.exchange, ?_⟩
  rcases head?_modifyAt (i := i) rest depth with heq | heq
  · rw [heq]
    exact htop
  · rw [heq, Bool.eq_false_iff]
    intro hremoved
    cases rest with
    | nil => cases hremoved
    | cons lower below =>
        have hruns : runsOwn own lower = true := by
          rw [← runsOwn_mark (i := i)]
          exact runsOwn_of_removed (by simpa using hremoved)
        have hcall := hsits.callOnce
        simp [isCallOnce, hruns] at hcall

end Stacked

end Bexec.ScopeStop
