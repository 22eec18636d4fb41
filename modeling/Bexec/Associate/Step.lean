import Bexec.CountingScope.Step

/-! # Associated senders and their operations

Objects that hold an association and, beside it, a wrapped sender or a child
operation. Constructors and destructors run member by member; other users of the
scope may act between two of these steps, and any step that may throw may.
-/

namespace Bexec.Associate

open Foundation CountingScope

/-- An associated sender, the by-value `associate_data` of a constructor or of
`connect`, and an operation. -/
inductive Object (Sender Operation : Type)
  | sender (i : Sender)
  | parameter
  | operation (o : Operation)
  deriving DecidableEq

/-- What a constructor or destructor does to the members of an object. A payload
is the wrapped sender of a sender and the child of an operation. -/
inductive Instruction (Sender Operation : Type)
  | begin (p : Object Sender Operation)
  | finish (p : Object Sender Operation)
  | wrap (p : Object Sender Operation)
  | tryAssociate (p : Object Sender Operation)
  | tryAssociateFrom (p source : Object Sender Operation)
  | resetUnlessAssociated (p : Object Sender Operation)
  | copyPayload (p source : Object Sender Operation)
  | movePayload (p source : Object Sender Operation)
  | moveAssociation (p source : Object Sender Operation)
  | moveReceiver
  | resetPayload (p : Object Sender Operation)
  | resetAssociation (p : Object Sender Operation)
  deriving DecidableEq

/-- What is left of a call. `attempt` may throw, and then `unwind` is left. -/
inductive Program (Sender Operation : Type)
  | done
  | act (i : Instruction Sender Operation) (next : Program Sender Operation)
  | attempt (i : Instruction Sender Operation) (next unwind : Program Sender Operation)
  | terminate
  deriving DecidableEq

namespace Program

variable {Sender Operation : Type}

/-- A destructor: the payload is the last member and dies first. -/
def destroy (p : Object Sender Operation) (next : Program Sender Operation) :
    Program Sender Operation :=
  .act (.resetPayload p) <| .act (.resetAssociation p) <| .act (.finish p) next

/-- `associate_data(Token, Sender&&)`. -/
def createData (p : Object Sender Operation) (next unwind : Program Sender Operation) :
    Program Sender Operation :=
  .act (.begin p) <|
    .attempt (.wrap p)
      (.act (.tryAssociate p) <| .act (.resetUnlessAssociated p) next)
      (.act (.finish p) unwind)

/-- `associate_data(const associate_data&)`. -/
def copyData (p source : Object Sender Operation) (next unwind : Program Sender Operation) :
    Program Sender Operation :=
  .act (.begin p) <| .act (.tryAssociateFrom p source) <|
    .attempt (.copyPayload p source) next
      (.act (.resetAssociation p) <| .act (.finish p) unwind)

/-- `associate_data(associate_data&&)`. -/
def moveData (p source : Object Sender Operation) (next unwind : Program Sender Operation) :
    Program Sender Operation :=
  .act (.begin p) <|
    .attempt (.movePayload p source)
      (.act (.moveAssociation p source) <| .act (.resetPayload source) next)
      (.act (.finish p) unwind)

/-- `make_associated_sender`. -/
def create (i : Sender) : Program Sender Operation :=
  createData .parameter
    (moveData (.sender i) .parameter (destroy .parameter .done) (destroy .parameter .done)) .done

/-- The copy constructor of `associated_sender`. -/
def copy (i source : Sender) : Program Sender Operation :=
  copyData (.sender i) (.sender source) .done .done

/-- The move constructor of `associated_sender`, which is `noexcept`. -/
def move (i source : Sender) : Program Sender Operation :=
  moveData (.sender i) (.sender source) .done .terminate

/-- `associated_sender::operation`, from its by-value `data`. -/
def createOperation (o : Operation) : Program Sender Operation :=
  .act (.begin (.operation o)) <| .act (.moveAssociation (.operation o) .parameter) <|
    .attempt .moveReceiver
      (.attempt (.movePayload (.operation o) .parameter)
        (.act (.resetPayload .parameter) <| destroy .parameter .done)
        (destroyMembers o))
      (destroyMembers o)
where
  /-- The child is not engaged yet. -/
  destroyMembers (o : Operation) : Program Sender Operation :=
    .act (.resetAssociation (.operation o)) <| .act (.finish (.operation o)) <|
      destroy .parameter .done

/-- The by-value receiver is built after `data`. -/
def passReceiver (next : Program Sender Operation) : Program Sender Operation :=
  .attempt .moveReceiver next (destroy .parameter .done)

/-- `connect(Receiver) &&`. -/
def connect (i : Sender) (o : Operation) : Program Sender Operation :=
  moveData .parameter (.sender i) (passReceiver (createOperation o)) .done

/-- `connect(Receiver) const&`. -/
def connectCopy (i : Sender) (o : Operation) : Program Sender Operation :=
  copyData .parameter (.sender i) (passReceiver (createOperation o)) .done

end Program

variable {Sender Operation : Type} [DecidableEq Sender] [DecidableEq Operation]

/-- The live objects, those with an association and those with a payload.
`rejected` holds the objects that were created or copied after `close()`, and
those made of one of them. -/
@[ext]
structure Holders (Sender Operation : Type) where
  live : Finset (Object Sender Operation)
  associated : Finset (Object Sender Operation)
  loaded : Finset (Object Sender Operation)
  rejected : Finset (Object Sender Operation)

namespace Holders

def empty : Holders Sender Operation :=
  ⟨∅, ∅, ∅, ∅⟩

def setLoaded (p : Object Sender Operation) (wanted : Bool) (h : Holders Sender Operation) :
    Holders Sender Operation :=
  { h with loaded := if wanted then insert p h.loaded else h.loaded.erase p }

def setAssociated (p : Object Sender Operation) (wanted : Bool) (h : Holders Sender Operation) :
    Holders Sender Operation :=
  { h with associated := if wanted then insert p h.associated else h.associated.erase p }

/-- Whether an instruction asks the scope, and whether it gives an association
back. -/
def asks (h : Holders Sender Operation) : Instruction Sender Operation → Bool
  | .tryAssociate _ => true
  | .tryAssociateFrom _ source => source ∈ h.associated
  | _ => false

def returns (h : Holders Sender Operation) : Instruction Sender Operation → Bool
  | .resetAssociation p => p ∈ h.associated
  | .moveAssociation p _ => p ∈ h.associated
  | _ => false

/-- Whether there is something that may throw. -/
def throws (h : Holders Sender Operation) : Instruction Sender Operation → Bool
  | .wrap _ => true
  | .copyPayload p _ => p ∈ h.associated
  | .movePayload _ source => source ∈ h.loaded
  | .moveReceiver => true
  | _ => false

/-- One instruction; `accepted` is the answer of the scope. -/
def apply (h : Holders Sender Operation) (accepted : Bool) :
    Instruction Sender Operation → Holders Sender Operation
  | .begin p => { h with live := insert p h.live }
  | .finish p => { h with live := h.live.erase p }
  | .wrap p => h.setLoaded p true
  | .tryAssociate p => h.setAssociated p accepted
  | .tryAssociateFrom p source => h.setAssociated p (source ∈ h.associated && accepted)
  | .resetUnlessAssociated p => if p ∈ h.associated then h else h.setLoaded p false
  | .copyPayload p _ => if p ∈ h.associated then h.setLoaded p true else h
  | .movePayload p source => if source ∈ h.loaded then h.setLoaded p true else h
  | .moveAssociation p source =>
      (h.setAssociated p (source ∈ h.associated)).setAssociated source false
  | .moveReceiver => h
  | .resetPayload p => h.setLoaded p false
  | .resetAssociation p => h.setAssociated p false

end Holders

/-- `held` tells whether the operation has its association at that time. -/
inductive Event (Operation : Type)
  | connected (o : Operation) (held : Bool)
  | started (o : Operation) (held : Bool)
  | stopped (o : Operation)
  | destroyedChild (o : Operation) (held : Bool)
  deriving DecidableEq

/-- `others` counts the associations that other users of the scope hold. -/
structure State (Sender Operation : Type) where
  word : Word
  others : ℕ
  holders : Holders Sender Operation
  running : Program Sender Operation
  startedOps : Finset Operation
  log : List (Event Operation)

/-- `simple_counting_scope::try_associate`, as one access. -/
def tryAssociate (word : Word) : Option Word :=
  if isClosed word || countOf word = maxAssociations then none
  else some (makeWord (countOf word + 1) (stateOf word ||| joinNeededBit))

/-- `simple_counting_scope::start_join`, as one access. -/
def startJoin (word : Word) : Word :=
  if countOf word = 0 then closedBit else word ||| joinRunningBit

namespace State

def initial : State Sender Operation :=
  ⟨0, 0, .empty, .done, ∅, []⟩

/-- The children that an instruction connects or destroys. -/
def events (s : State Sender Operation) : Instruction Sender Operation → List (Event Operation)
  | .movePayload (.operation o) source =>
      if source ∈ s.holders.loaded then [.connected o (.operation o ∈ s.holders.associated)] else []
  | .resetPayload (.operation o) =>
      if .operation o ∈ s.holders.loaded then
        [.destroyedChild o (.operation o ∈ s.holders.associated)]
      else []
  | _ => []

/-- The word after an instruction. -/
def wordAfter (s : State Sender Operation) (i : Instruction Sender Operation) : Word :=
  if s.holders.asks i then (tryAssociate s.word).getD s.word
  else if s.holders.returns i then disassociated s.word
  else s.word

def perform (s : State Sender Operation) (i : Instruction Sender Operation)
    (next : Program Sender Operation) : State Sender Operation :=
  { s with
    word := s.wordAfter i
    holders := s.holders.apply (tryAssociate s.word).isSome i
    running := next
    log := s.events i ++ s.log }

/-- A call begins. An object made from one without an association is rejected. -/
def call (s : State Sender Operation) (p : Object Sender Operation) (rejected : Bool)
    (program : Program Sender Operation) : State Sender Operation :=
  { s with
    holders := { s.holders with
      rejected := if rejected then insert p s.holders.rejected else s.holders.rejected.erase p }
    running := program }

/-- `operation::start`. -/
def start (s : State Sender Operation) (o : Operation) : State Sender Operation :=
  { s with
    startedOps := insert o s.startedOps
    log := (if .operation o ∈ s.holders.loaded then
        .started o (.operation o ∈ s.holders.associated) else .stopped o) :: s.log }

end State

inductive Action (Sender Operation : Type)
  | create (i : Sender)
  | copy (i source : Sender)
  | move (i source : Sender)
  | connect (i : Sender) (o : Operation)
  | connectCopy (i : Sender) (o : Operation)
  | start (o : Operation)
  | destroySender (i : Sender)
  | destroyOperation (o : Operation)
  | run (throws : Bool)
  | close
  | join
  | associateOther
  | disassociateOther

/-- Calls are made one at a time, on live objects. -/
def step (s : State Sender Operation) : Action Sender Operation → Option (State Sender Operation)
  | .create i =>
      if s.running = .done ∧ .sender i ∉ s.holders.live then
        some (s.call (.sender i) (isClosed s.word) (.create i))
      else none
  | .copy i source =>
      if s.running = .done ∧ .sender i ∉ s.holders.live ∧ .sender source ∈ s.holders.live then
        some (s.call (.sender i) (isClosed s.word || .sender source ∈ s.holders.rejected)
          (.copy i source))
      else none
  | .move i source =>
      if s.running = .done ∧ .sender i ∉ s.holders.live ∧ .sender source ∈ s.holders.live then
        some (s.call (.sender i) (.sender source ∈ s.holders.rejected) (.move i source))
      else none
  | .connect i o =>
      if s.running = .done ∧ .operation o ∉ s.holders.live ∧ o ∉ s.startedOps ∧
          .sender i ∈ s.holders.live then
        some (s.call (.operation o) (.sender i ∈ s.holders.rejected) (.connect i o))
      else none
  | .connectCopy i o =>
      if s.running = .done ∧ .operation o ∉ s.holders.live ∧ o ∉ s.startedOps ∧
          .sender i ∈ s.holders.live then
        some (s.call (.operation o) (isClosed s.word || .sender i ∈ s.holders.rejected)
          (.connectCopy i o))
      else none
  | .start o =>
      if s.running = .done ∧ .operation o ∈ s.holders.live ∧ o ∉ s.startedOps then
        some (s.start o)
      else none
  | .destroySender i =>
      if s.running = .done ∧ .sender i ∈ s.holders.live then
        some { s with running := .destroy (.sender i) .done }
      else none
  | .destroyOperation o =>
      if s.running = .done ∧ .operation o ∈ s.holders.live then
        some { s with running := .destroy (.operation o) .done }
      else none
  | .run throws =>
      match s.running with
      | .done => none
      | .terminate => none
      | .act i next => if throws then none else some (s.perform i next)
      | .attempt i next unwind =>
          if throws then
            if s.holders.throws i then some { s with running := unwind } else none
          else some (s.perform i next)
  | .close => some { s with word := s.word ||| closedBit }
  | .join => some { s with word := startJoin s.word }
  | .associateOther =>
      match tryAssociate s.word with
      | some word => some { s with word := word, others := s.others + 1 }
      | none => none
  | .disassociateOther =>
      match s.others with
      | 0 => none
      | others + 1 => some { s with word := disassociated s.word, others := others }

def machine (Sender Operation : Type) [DecidableEq Sender] [DecidableEq Operation] :
    Machine (State Sender Operation) (Action Sender Operation) where
  initial s := s = .initial
  step := step

end Bexec.Associate
