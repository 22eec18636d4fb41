import Bexec.Foundation.TypeList

/-! # Completions and completion signatures

The three completion channels and what a type list of signatures declares.
-/

namespace Bexec.Signatures

open Foundation

/-- The three completion tags. -/
inductive Tag
  | setValue | setError | setStopped
  deriving DecidableEq, Repr

/-- A completion and its arguments. With types as arguments it is a completion
signature, with typed values it is a signal. -/
inductive Completion (A : Type*)
  | setValue (args : List A)
  | setError (error : A)
  | setStopped
  deriving DecidableEq, Repr

instance {A : Type*} [DecidableEq A] (c : Completion A) (signatures : List (Completion A)) :
    Decidable (c ∈ signatures) :=
  List.instDecidableMemOfLawfulBEq c signatures

namespace Completion

variable {A B C : Type*}

def tag : Completion A → Tag
  | setValue _ => .setValue
  | setError _ => .setError
  | setStopped => .setStopped

def args : Completion A → List A
  | setValue args => args
  | setError error => [error]
  | setStopped => []

def map (f : A → B) : Completion A → Completion B
  | setValue args => setValue (args.map f)
  | setError error => setError (f error)
  | setStopped => setStopped

@[simp] theorem tag_map (f : A → B) (c : Completion A) : (c.map f).tag = c.tag := by
  cases c <;> rfl

@[simp] theorem args_map (f : A → B) (c : Completion A) : (c.map f).args = c.args.map f := by
  cases c <;> rfl

@[simp] theorem map_map (f : A → B) (g : B → C) (c : Completion A) :
    (c.map f).map g = c.map (g ∘ f) := by
  cases c <;> simp [map]

end Completion

/-- The types of completion arguments: references to objects and objects, with
what `std::decay_t` makes of them and whether the decayed object is constructed
from such an argument by a constructor declared `noexcept`. -/
class ArgumentTypes (Ty : Type*) where
  exceptionPtr : Ty
  decay : Ty → Ty
  nothrowFrom : Ty → Bool
  decay_decay : ∀ T, decay (decay T) = decay T
  decay_exceptionPtr : decay exceptionPtr = exceptionPtr
  nothrow_exceptionPtr : nothrowFrom exceptionPtr = true

export ArgumentTypes (exceptionPtr decay nothrowFrom)

attribute [simp] ArgumentTypes.decay_decay ArgumentTypes.decay_exceptionPtr
  ArgumentTypes.nothrow_exceptionPtr

/-- A completion signature. -/
abbrev Signature (Ty : Type*) := Completion Ty

/-- A list of types that is present only under a condition. -/
def maybeTypeList {T : Type*} (wanted : Bool) (list : List T) : List T :=
  if wanted then list else []

section Declared

variable {Ty : Type*} [ArgumentTypes Ty]

/-- A completion whose argument types are decayed, as `decayed_completion_signature`. -/
abbrev Completion.decayed (c : Signature Ty) : Signature Ty :=
  c.map decay

/-- The signature of a signal appears among those declared, up to decay. -/
def Declares (signatures : List (Signature Ty)) (signal : Signature Ty) : Prop :=
  ∃ signature ∈ signatures, signature.decayed = signal.decayed

theorem Declares.of_mem {signatures : List (Signature Ty)} {signal : Signature Ty}
    (hmem : signal ∈ signatures) : Declares signatures signal :=
  ⟨signal, hmem, rfl⟩

theorem Declares.mono {first second : List (Signature Ty)} {signal : Signature Ty}
    (h : Declares first signal) (hsub : ∀ c ∈ first, c ∈ second) : Declares second signal := by
  obtain ⟨signature, hmem, heq⟩ := h
  exact ⟨signature, hsub _ hmem, heq⟩

theorem Declares.congr {signatures : List (Signature Ty)} {signal other : Signature Ty}
    (h : Declares signatures signal) (heq : signal.decayed = other.decayed) :
    Declares signatures other := by
  obtain ⟨signature, hmem, hsame⟩ := h
  exact ⟨signature, hmem, hsame.trans heq⟩

end Declared

/-- An object type, by what its copy and its move constructor promise. -/
structure ObjectType where
  name : ℕ
  copyNothrow : Bool
  moveNothrow : Bool
  deriving DecidableEq, Repr

/-- The types of completion arguments: objects passed as rvalues and lvalue
references. -/
inductive ArgumentType
  | exceptionPtr
  | object (type : ObjectType)
  | lvalue (type : ObjectType)
  deriving DecidableEq, Repr

namespace ArgumentType

def decay : ArgumentType → ArgumentType
  | lvalue type => object type
  | T => T

/-- An object is copied from an lvalue and moved from an rvalue. -/
def nothrowFrom : ArgumentType → Bool
  | exceptionPtr => true
  | object type => type.moveNothrow
  | lvalue type => type.copyNothrow

end ArgumentType

instance : ArgumentTypes ArgumentType where
  exceptionPtr := ArgumentType.exceptionPtr
  decay := ArgumentType.decay
  nothrowFrom := ArgumentType.nothrowFrom
  decay_decay T := by cases T <;> rfl
  decay_exceptionPtr := rfl
  nothrow_exceptionPtr := rfl

end Bexec.Signatures
