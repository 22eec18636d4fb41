import Bexec.Foundation.Machine
import Bexec.Foundation.Place

/-!
# In-place storage

`manual_lifetime`, `manual_variant` and `operation_storage`, each over the same
raw storage. A function pointer made from a template stands for the type that
the template was instantiated with.
-/

namespace Bexec.InPlace

open Foundation

/-- The calls of the three classes. A constructor or a factory may throw. -/
inductive Call (T : Type)
  | emplace (type : T) (constructorThrows : Bool)
  | emplaceFrom (type : T) (factoryThrows constructorThrows : Bool)
  | reset
  | start
  deriving DecidableEq

/-- The type that a call constructs. -/
def Call.constructed {T : Type} : Call T → Option T
  | .emplace type _ => some type
  | .emplaceFrom type _ _ => some type
  | .reset => none
  | .start => none

def Call.isEmplace {T : Type} : Call T → Prop
  | .emplace _ _ => True
  | _ => False

/-- `manual_lifetime<T>`, with the type as the only one. -/
structure ManualLifetime where
  storage : Place Unit
  engaged : Bool
  deriving DecidableEq

namespace ManualLifetime

def initial : ManualLifetime := ⟨.empty, false⟩

def reset (s : ManualLifetime) : ManualLifetime :=
  if s.engaged then ⟨s.storage.destroyAs (), false⟩ else s

def emplace (s : ManualLifetime) (constructorThrows : Bool) : ManualLifetime :=
  let s := s.reset
  if constructorThrows then s else ⟨s.storage.construct (), true⟩

def emplaceFrom (s : ManualLifetime) (factoryThrows constructorThrows : Bool) : ManualLifetime :=
  let s := s.reset
  if factoryThrows then s
  else if constructorThrows then s
  else ⟨s.storage.construct (), true⟩

def call (s : ManualLifetime) : Call Unit → Option ManualLifetime
  | .emplace () constructorThrows => some (s.emplace constructorThrows)
  | .emplaceFrom () factoryThrows constructorThrows =>
      some (s.emplaceFrom factoryThrows constructorThrows)
  | .reset => some s.reset
  | .start => none

/-- `~manual_lifetime`. -/
def destroy (s : ManualLifetime) : ManualLifetime := s.reset

end ManualLifetime

/-- `manual_variant<type_list<Alternatives...>>`. -/
structure ManualVariant (T : Type) where
  storage : Place T
  /-- `destroy_`: null, or `destroy_model` of a type. -/
  destroyModel : Option T
  deriving DecidableEq

namespace ManualVariant

variable {T : Type} [DecidableEq T]

omit [DecidableEq T] in
def initial : ManualVariant T := ⟨.empty, none⟩

def reset (s : ManualVariant T) : ManualVariant T :=
  match s.destroyModel with
  | none => s
  | some type => ⟨s.storage.destroyAs type, none⟩

def emplace (s : ManualVariant T) (type : T) (constructorThrows : Bool) : ManualVariant T :=
  let s := s.reset
  if constructorThrows then s else ⟨s.storage.construct type, some type⟩

def emplaceFrom (s : ManualVariant T) (type : T) (factoryThrows constructorThrows : Bool) :
    ManualVariant T :=
  let s := s.reset
  if factoryThrows then s
  else if constructorThrows then s
  else ⟨s.storage.construct type, some type⟩

/-- Only an alternative may be emplaced: `static_assert`. -/
def call (alternatives : List T) (s : ManualVariant T) : Call T → Option (ManualVariant T)
  | .emplace type constructorThrows =>
      if type ∈ alternatives then some (s.emplace type constructorThrows) else none
  | .emplaceFrom type factoryThrows constructorThrows =>
      if type ∈ alternatives then some (s.emplaceFrom type factoryThrows constructorThrows)
      else none
  | .reset => some s.reset
  | .start => none

/-- `~manual_variant`. -/
def destroy (s : ManualVariant T) : ManualVariant T := s.reset

end ManualVariant

/-- `operation_storage<type_list<Operations...>>`. -/
structure OperationStorage (T : Type) where
  storage : ManualVariant T
  /-- `start_`: null, or `start_model` of a type. -/
  startModel : Option T
  deriving DecidableEq

namespace OperationStorage

variable {T : Type} [DecidableEq T]

omit [DecidableEq T] in
def initial : OperationStorage T := ⟨.initial, none⟩

def reset (s : OperationStorage T) : OperationStorage T := ⟨s.storage.reset, none⟩

/-- An exception leaves `emplace_from` before `start_` is set. -/
def emplaceFrom (s : OperationStorage T) (type : T) (factoryThrows constructorThrows : Bool) :
    OperationStorage T :=
  let s := s.reset
  let storage := s.storage.emplaceFrom type factoryThrows constructorThrows
  if factoryThrows || constructorThrows then { s with storage := storage }
  else ⟨storage, some type⟩

/-- `start` calls through the pointer, which the caller knows not to be null. -/
def start (s : OperationStorage T) : Option (OperationStorage T) :=
  match s.startModel with
  | none => none
  | some type =>
      some { s with storage := { s.storage with storage := s.storage.storage.useAs type } }

def call (operations : List T) (s : OperationStorage T) : Call T → Option (OperationStorage T)
  | .emplace _ _ => none
  | .emplaceFrom type factoryThrows constructorThrows =>
      if type ∈ operations then some (s.emplaceFrom type factoryThrows constructorThrows) else none
  | .reset => some s.reset
  | .start => s.start

/-- `~operation_storage`, and then the destructor of its member. -/
def destroy (s : OperationStorage T) : OperationStorage T :=
  let s := s.reset
  { s with storage := s.storage.destroy }

end OperationStorage

/-! ## What the three have in common -/

/-- A class of storage: its calls, of the functions that it has, its raw storage and
the markers by which it knows what it holds. -/
structure Interface (S T : Type) where
  initial : S
  has : Call T → Prop
  call : S → Call T → Option S
  destroy : S → S
  place : S → Place T
  markers : List (S → Option T)

def manualLifetime : Interface ManualLifetime Unit where
  initial := .initial
  has call := call ≠ .start
  call := ManualLifetime.call
  destroy := .destroy
  place := ManualLifetime.storage
  markers := [fun s => if s.engaged then some () else none]

section

variable {T : Type} [DecidableEq T]

def manualVariant (alternatives : List T) : Interface (ManualVariant T) T where
  initial := .initial
  has call := call ≠ .start ∧ ∀ type ∈ call.constructed, type ∈ alternatives
  call := ManualVariant.call alternatives
  destroy := .destroy
  place := ManualVariant.storage
  markers := [ManualVariant.destroyModel]

def operationStorage (operations : List T) : Interface (OperationStorage T) T where
  initial := .initial
  has call := ¬ call.isEmplace ∧ ∀ type ∈ call.constructed, type ∈ operations
  call := OperationStorage.call operations
  destroy := .destroy
  place s := s.storage.storage
  markers := [OperationStorage.startModel, fun s => s.storage.destroyModel]

end

structure State (S : Type) where
  object : S
  destroyed : Bool

inductive Action (T : Type)
  | call (call : Call T)
  | destroy
  deriving DecidableEq

namespace Interface

variable {S T : Type} (I : Interface S T)

/-- The storage is used until it is destroyed. -/
def step (s : State S) : Action T → Option (State S)
  | .call call =>
      if s.destroyed then none else (I.call s.object call).map fun object => ⟨object, false⟩
  | .destroy => if s.destroyed then none else some ⟨I.destroy s.object, true⟩

def machine : Machine (State S) (Action T) where
  initial s := s = ⟨I.initial, false⟩
  step := I.step

end Interface

/-- What is alive after a call, of the object that would be constructed next and of
what was alive before. -/
def Call.leaves {T : Type} (next : Nat) (before : List (Nat × T)) : Call T → List (Nat × T)
  | .emplace type constructorThrows => if constructorThrows then [] else [(next, type)]
  | .emplaceFrom type factoryThrows constructorThrows =>
      if factoryThrows || constructorThrows then [] else [(next, type)]
  | .reset => []
  | .start => before

end Bexec.InPlace
