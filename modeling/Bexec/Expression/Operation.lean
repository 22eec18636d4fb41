import Bexec.Expression.Sender
import Bexec.Foundation.Machine
import Bexec.WhenAll.Step

/-! # Operation states of sender expressions

The tree of operation states that an expression makes as it runs, and what one
thread does to it at a time: a leaf completes, `when_all` starts its next child
or counts a child that has arrived, `repeat_until` goes through its loop once, a
stop callback is run. Every other call happens inside one of these. An operation
state that has not been started is still its sender.
-/

namespace Bexec.Expression

open Foundation Signatures Adaptors
open WhenAll (TerminalKind)

variable {V : Type} {n : ℕ}

/-! ## The state of `when_all` -/

/-- `when_all_state`. A child that is in `leaving` has not decremented
`remaining` yet; `arrivals` keeps what the children stored, for the statements. -/
structure Join (V : Type) (n : ℕ) where
  started : ℕ
  remaining : ℕ
  stopRequested : Bool
  terminal : TerminalKind
  error : Option V
  values : Fin n → Option (List V)
  leaving : List (Fin n)
  arrivals : List (Fin n × Completion V)

namespace Join

/-- The state that `start` finds, once the stop callback is registered. -/
def initial (stop : Bool) : Join V n where
  started := 0
  remaining := n
  stopRequested := stop
  terminal := .none
  error := none
  values := fun _ => none
  leaving := []
  arrivals := []

/-- The exchange of `terminal`, and what its winner does. -/
def terminate (kind : TerminalKind) (error : Option V) (j : Join V n) : Join V n :=
  if j.terminal = .none then { j with terminal := kind, error := error, stopRequested := true }
  else j

/-- The completion of a child as it is stored. -/
def store (i : Fin n) (c : Completion V) (j : Join V n) : Join V n :=
  match c with
  | .setValue args => { j with values := Function.update j.values i (some args) }
  | .setError error => j.terminate .error (some error)
  | .setStopped => j.terminate .stopped none

/-- `child_value`, `child_error` and `child_stopped`, up to the decrement of
`remaining`. A value that cannot be stored is an error. -/
def arrive (copying : Copying V) (i : Fin n) (c : Completion V) (j : Join V n) : Join V n :=
  { j.store i (copying.stored c) with
    leaving := i :: j.leaving
    arrivals := j.arrivals ++ [(i, copying.stored c)] }

/-- `deliver_success`. -/
def deliverSuccess (joinRaises : List V → Option V) (args : List V) : Completion V :=
  match joinRaises args with
  | none => .setValue args
  | some x => .setError x

/-- `tuple_cat_values`: none where an empty optional would be dereferenced. -/
def tupleCatValues (j : Join V n) : Option (List V) :=
  ((List.finRange n).mapM j.values).map List.flatten

/-- What `finish_one` completes the receiver with. -/
def finishOne (joinRaises : List V → Option V) (j : Join V n) : Option (Completion V) :=
  match j.terminal with
  | .error => j.error.map .setError
  | .stopped => some .setStopped
  | .none => j.tupleCatValues.map (deliverSuccess joinRaises)

/-- The decrement of `remaining`, and `finish_one` after the last. -/
def leave (joinRaises : List V → Option V) (i : Fin n) (j : Join V n) :
    Join V n × Option (Completion V) :=
  ({ j with remaining := j.remaining - 1, leaving := j.leaving.erase i },
    if j.remaining = 1 then j.finishOne joinRaises else none)

end Join

/-! ## Operation states -/

/-- The operation states of an expression. The completions that the receiver of
an operation has got are kept in `sent`, the invocations of a callable in
`calls`. `empty` is a storage that holds no operation. -/
inductive Operation (V : Type)
  | empty
  | leaf (sent : List (Completion V))
  | just (sent : List (Completion V))
  | adapt (tag : Tag) (fn : Args V tag → Except V (List V)) (calls : ℕ)
      (sent : List (Completion V)) (upstream : Operation V)
  | letAdapt (tag : Tag) (raises : Args V tag → Option V) (child : Args V tag → Sender V)
      (calls : ℕ) (sent : List (Completion V)) (upstream childOperation : Operation V)
  | whenAll (n : ℕ) (copying : Copying V) (joinRaises : List V → Option V)
      (senders : Fin (n + 1) → Sender V) (join : Join V (n + 1)) (sent : List (Completion V))
      (children : Fin (n + 1) → Operation V)
  | startsOn (child : Sender V) (sent : List (Completion V))
      (schedule childOperation : Operation V)
  | onSource (copying : Copying V) (final : Sender V) (stored : Option (Completion V))
      (sent : List (Completion V)) (source finalOperation : Operation V)
  | repeatUntil (loop : Loop V) (child : ℕ → Sender V) (iteration : ℕ) (draining : Bool)
      (sent : List (Completion V)) (current : Operation V)
  | associate (sent : List (Completion V)) (child : Operation V)

/-- An operation after a call, and what its receiver was completed with in it. -/
abbrev Effect (V : Type) := Operation V × Option (Completion V)

namespace Operation

/-- What the receiver of the operation has got. -/
def sent : Operation V → List (Completion V)
  | .empty => []
  | .leaf sent => sent
  | .just sent => sent
  | .adapt _ _ _ sent _ => sent
  | .letAdapt _ _ _ _ sent _ _ => sent
  | .whenAll _ _ _ _ _ sent _ => sent
  | .startsOn _ sent _ _ => sent
  | .onSource _ _ _ sent _ _ => sent
  | .repeatUntil _ _ _ _ sent _ => sent
  | .associate sent _ => sent

/-- How often the callable of the operation has been invoked, where it is one
that is invoked on a completion. -/
def calls : Operation V → ℕ
  | .adapt _ _ calls _ _ => calls
  | .letAdapt _ _ _ calls _ _ _ => calls
  | _ => 0

/-- The operation states one level down. -/
def part : Operation V → ℕ → Operation V
  | .adapt _ _ _ _ upstream, 0 => upstream
  | .letAdapt _ _ _ _ _ upstream _, 0 => upstream
  | .letAdapt _ _ _ _ _ _ childOperation, 1 => childOperation
  | .whenAll n _ _ _ _ _ children, i => if h : i < n + 1 then children ⟨i, h⟩ else .empty
  | .startsOn _ _ schedule _, 0 => schedule
  | .startsOn _ _ _ childOperation, 1 => childOperation
  | .onSource _ _ _ _ source _, 0 => source
  | .onSource _ _ _ _ _ finalOperation, 1 => finalOperation
  | .repeatUntil _ _ _ _ _ current, 0 => current
  | .associate _ child, 0 => child
  | _, _ => .empty

/-- The operation state at the end of a path. -/
def descend (op : Operation V) : List ℕ → Operation V
  | [] => op
  | i :: path => (op.part i).descend path

/-- The stop flag that the children of an operation see. -/
def token (stop : Bool) : Operation V → Bool
  | .whenAll _ _ _ _ join _ _ => join.stopRequested
  | _ => stop

/-- The stop flag that the operation at the end of a path sees. -/
def observes (stop : Bool) (op : Operation V) : List ℕ → Bool
  | [] => stop
  | i :: path => (op.part i).observes (op.token stop) path

end Operation

/-! ## Receivers -/

/-- `emplace_from` and the start of the new operation, in a `try` block. -/
def emplace (raises : Option V) (started : Effect V) : Effect V :=
  match raises with
  | none => started
  | some x => (.empty, some (.setError x))

/-- `let_receiver`: whether the callable was invoked, and the child. -/
def letReceive (tag : Tag) (raises : Args V tag → Option V) (child : Args V tag → Sender V)
    (started : Args V tag → Effect V) (c : Completion V) : ℕ × Effect V :=
  match select tag c with
  | none => (0, .empty, some c)
  | some args => (1, emplace ((raises args).or (child args).connectRaises) (started args))

/-- `starts_on_schedule_receiver`. -/
def scheduleReceive (child : Sender V) (started : Effect V) (c : Completion V) : Effect V :=
  match c with
  | .setValue _ => emplace child.connectRaises started
  | c => (.empty, some c)

/-- `on_final_receiver`, with `deliver_stored`: none where an empty optional
would be dereferenced. -/
def finalReceive (stored : Option (Completion V)) (c : Completion V) : Option (Completion V) :=
  match c with
  | .setValue _ => stored
  | c => some c

/-- `on_child_receiver`: what is stored, and the final schedule operation that
`start_final` starts. -/
def sourceReceive (copying : Copying V) (final : Sender V) (started : Effect V)
    (c : Completion V) : Option (Completion V) × Effect V :=
  match copying.raises c with
  | none =>
      let r := emplace final.connectRaises started
      (some c, r.1, r.2.bind (finalReceive (some c)))
  | some x => (none, .empty, some (.setError x))

/-- `process_stored_completion`: what the receiver gets, or none to go on. -/
def processStored (copying : Copying V) (answer : Except V Bool) (c : Completion V) :
    Option (Completion V) :=
  match copying.stored c with
  | .setValue args =>
      match answer with
      | .ok true => some (.setValue args)
      | .ok false => none
      | .error x => some (.setError x)
  | c => some c

namespace Operation

/-! ## What an operation does when one of its children has made a move -/

def adaptStep (tag : Tag) (fn : Args V tag → Except V (List V)) (calls : ℕ)
    (sent : List (Completion V)) (r : Effect V) : Effect V :=
  let told := r.2.map (adapted tag fn)
  (.adapt tag fn (calls + ((r.2.bind (select tag)).map fun _ => 1).getD 0)
    (sent ++ told.toList) r.1, told)

def letStep (tag : Tag) (raises : Args V tag → Option V) (child : Args V tag → Sender V)
    (started : Args V tag → Effect V) (calls : ℕ) (sent : List (Completion V))
    (childOperation : Operation V) (r : Effect V) : Effect V :=
  match r.2 with
  | none => (.letAdapt tag raises child calls sent r.1 childOperation, none)
  | some c =>
      let next := letReceive tag raises child started c
      (.letAdapt tag raises child (calls + next.1) (sent ++ next.2.2.toList) r.1 next.2.1, next.2.2)

def startsOnStep (child : Sender V) (started : Effect V) (sent : List (Completion V))
    (childOperation : Operation V) (r : Effect V) : Effect V :=
  match r.2 with
  | none => (.startsOn child sent r.1 childOperation, none)
  | some c =>
      let next := scheduleReceive child started c
      (.startsOn child (sent ++ next.2.toList) r.1 next.1, next.2)

def sourceStep (copying : Copying V) (final : Sender V) (started : Effect V)
    (stored : Option (Completion V)) (sent : List (Completion V)) (finalOperation : Operation V)
    (r : Effect V) : Effect V :=
  match r.2 with
  | none => (.onSource copying final stored sent r.1 finalOperation, none)
  | some c =>
      let next := sourceReceive copying final started c
      (.onSource copying final next.1 (sent ++ next.2.2.toList) r.1 next.2.1, next.2.2)

def finalStep (copying : Copying V) (final : Sender V) (stored : Option (Completion V))
    (sent : List (Completion V)) (source : Operation V) (r : Effect V) : Effect V :=
  let told := r.2.bind (finalReceive stored)
  (.onSource copying final stored (sent ++ told.toList) source r.1, told)

/-- A child of `when_all` has made a move. -/
def whenAllStep (copying : Copying V) (joinRaises : List V → Option V)
    (senders : Fin (n + 1) → Sender V) (join : Join V (n + 1)) (sent : List (Completion V))
    (children : Fin (n + 1) → Operation V) (i : Fin (n + 1)) (r : Effect V) : Effect V :=
  (.whenAll n copying joinRaises senders (r.2.elim join fun c => join.arrive copying i c) sent
    (Function.update children i r.1), none)

/-- A child of `repeat_until` has made a move: the loop goes on, ends, or waits. -/
def repeatStep (loop : Loop V) (child : ℕ → Sender V) (iteration : ℕ)
    (sent : List (Completion V)) (r : Effect V) : Effect V :=
  match r.2 with
  | none => (.repeatUntil loop child iteration false sent r.1, none)
  | some c =>
      match processStored loop.copying (loop.predicate iteration) c with
      | none => (.repeatUntil loop child (iteration + 1) true sent r.1, none)
      | some told => (.repeatUntil loop child iteration false (sent ++ [told]) r.1, some told)

end Operation

/-! ## Starting -/

/-- `start` of the connected operation. The stop token of the environment is read
where the operation reads it. -/
def start (stop : Bool) : Sender V → Effect V
  | .leaf l => (.leaf (l.inlineCompletion stop).toList, l.inlineCompletion stop)
  | .just c => (.just [c], some c)
  | .adapt tag fn upstream => Operation.adaptStep tag fn 0 [] (start stop upstream)
  | .letAdapt tag raises child upstream =>
      Operation.letStep tag raises child (fun args => start stop (child args)) 0 [] .empty
        (start stop upstream)
  | .whenAll n copying joinRaises children =>
      (.whenAll n copying joinRaises children (.initial stop) [] fun _ => .empty, none)
  | .startsOn schedule child =>
      match schedule.connectRaises with
      | none => Operation.startsOnStep child (start stop child) [] .empty (start stop schedule)
      | some x => (.startsOn child [.setError x] .empty .empty, some (.setError x))
  | .onSource copying final source =>
      match source.connectRaises with
      | none =>
          Operation.sourceStep copying final (start stop final) none [] .empty (start stop source)
      | some x => (.onSource copying final none [.setError x] .empty .empty, some (.setError x))
  | .repeatUntil loop child => (.repeatUntil loop child 0 true [] .empty, none)
  | .associate true child =>
      let r := start stop child
      (.associate r.2.toList r.1, r.2)
  | .associate false _ => (.associate [.setStopped] .empty, some .setStopped)

/-! ## One move -/

/-- What happens at an operation state: a leaf completes, `start_one` of the next
child, the decrement by a child that has arrived, one turn of `drain`, the stop
callback of `when_all`. -/
inductive Command (V : Type)
  | complete (completion : Completion V)
  | startOne
  | leave (child : ℕ)
  | drain
  | stopCallback

/-- One turn of the loop of `drain`; none where it calls `std::terminate`, because
there is no `exception_ptr` to send. -/
def drain (stop : Bool) (loop : Loop V) (child : ℕ → Sender V) (iteration : ℕ)
    (sent : List (Completion V)) : Option (Effect V) :=
  if stop then
    some (.repeatUntil loop child iteration false (sent ++ [.setStopped]) .empty, some .setStopped)
  else
    match (loop.raises iteration).or (child iteration).connectRaises with
    | none => some (Operation.repeatStep loop child iteration sent (start stop (child iteration)))
    | some x =>
        -- `catch (...)`
        if loop.needExceptionPtr then
          some (.repeatUntil loop child iteration false (sent ++ [.setError x]) .empty,
            some (.setError x))
        else none

/-- `start_one`. -/
def startOne (copying : Copying V) (joinRaises : List V → Option V)
    (senders : Fin (n + 1) → Sender V) (join : Join V (n + 1)) (sent : List (Completion V))
    (children : Fin (n + 1) → Operation V) : Option (Effect V) :=
  if h : join.started < n + 1 then
    some (Operation.whenAllStep copying joinRaises senders { join with started := join.started + 1 }
      sent children ⟨join.started, h⟩
      (emplace (senders ⟨join.started, h⟩).connectRaises
        (start join.stopRequested (senders ⟨join.started, h⟩))))
  else none

/-- A move at the end of a path, where the operation can make it. -/
def act (stop : Bool) : Operation V → List ℕ → Command V → Option (Effect V)
  | .leaf [], [], .complete c => some (.leaf [c], some c)
  | .adapt tag fn calls sent upstream, 0 :: path, command =>
      (act stop upstream path command).map (Operation.adaptStep tag fn calls sent)
  | .letAdapt tag raises child calls sent upstream childOperation, 0 :: path, command =>
      (act stop upstream path command).map
        (Operation.letStep tag raises child (fun args => start stop (child args)) calls sent
          childOperation)
  | .letAdapt tag raises child calls sent upstream childOperation, 1 :: path, command =>
      (act stop childOperation path command).map fun r =>
        (.letAdapt tag raises child calls (sent ++ r.2.toList) upstream r.1, r.2)
  | .whenAll _ copying joinRaises senders join sent children, [], .startOne =>
      startOne copying joinRaises senders join sent children
  | .whenAll n copying joinRaises senders join sent children, [], .leave i =>
      if h : i < n + 1 then
        if ⟨i, h⟩ ∈ join.leaving then
          let r := join.leave joinRaises ⟨i, h⟩
          some (.whenAll n copying joinRaises senders r.1 (sent ++ r.2.toList) children, r.2)
        else none
      else none
  | .whenAll n copying joinRaises senders join sent children, [], .stopCallback =>
      if stop ∧ join.stopRequested = false ∧ join.remaining ≠ 0 then
        some (.whenAll n copying joinRaises senders { join with stopRequested := true } sent
          children, none)
      else none
  | .whenAll n copying joinRaises senders join sent children, i :: path, command =>
      if h : i < n + 1 then
        (act join.stopRequested (children ⟨i, h⟩) path command).map
          (Operation.whenAllStep copying joinRaises senders join sent children ⟨i, h⟩)
      else none
  | .startsOn child sent schedule childOperation, 0 :: path, command =>
      (act stop schedule path command).map
        (Operation.startsOnStep child (start stop child) sent childOperation)
  | .startsOn child sent schedule childOperation, 1 :: path, command =>
      (act stop childOperation path command).map fun r =>
        (.startsOn child (sent ++ r.2.toList) schedule r.1, r.2)
  | .onSource copying final stored sent source finalOperation, 0 :: path, command =>
      (act stop source path command).map
        (Operation.sourceStep copying final (start stop final) stored sent finalOperation)
  | .onSource copying final stored sent source finalOperation, 1 :: path, command =>
      (act stop finalOperation path command).map
        (Operation.finalStep copying final stored sent source)
  | .repeatUntil loop child iteration true sent _, [], .drain =>
      drain stop loop child iteration sent
  | .repeatUntil loop child iteration false sent current, 0 :: path, command =>
      (act stop current path command).map (Operation.repeatStep loop child iteration sent)
  | .associate sent child, 0 :: path, command =>
      (act stop child path command).map fun r => (.associate (sent ++ r.2.toList) r.1, r.2)
  | _, _, _ => none

/-- The command makes a turn of the loop of `drain` that calls `std::terminate`. -/
def terminates (stop : Bool) : Operation V → Command V → Bool
  | .repeatUntil loop child iteration true sent _, .drain =>
      (drain stop loop child iteration sent).isNone
  | _, _ => false

/-! ## The machine -/

/-- A connected expression: its operation, the stop token of the receiver, what
the receiver has got, and whether `std::terminate` was called. -/
structure State (V : Type) where
  begun : Bool
  stopRequested : Bool
  operation : Operation V
  signals : List (Completion V)
  terminated : Bool

inductive Action (V : Type)
  | start
  | requestStop
  | move (path : List ℕ) (command : Command V)

namespace State

def initial : State V := ⟨false, false, .empty, [], false⟩

def become (s : State V) (r : Effect V) : State V :=
  { s with begun := true, operation := r.1, signals := s.signals ++ r.2.toList }

/-- `std::terminate` leaves no operation behind. -/
def terminate (s : State V) : State V := { s with operation := .empty, terminated := true }

end State

def step (sender : Sender V) (s : State V) : Action V → Option (State V)
  | .start =>
      if s.begun || sender.connectRaises.isSome then none
      else some (s.become (start s.stopRequested sender))
  | .requestStop => some { s with stopRequested := true }
  | .move path command =>
      match act s.stopRequested s.operation path command with
      | some r => some (s.become r)
      | none =>
          if terminates (s.operation.observes s.stopRequested path) (s.operation.descend path)
            command
          then some s.terminate else none

/-- The runs of an expression that was connected to a receiver. -/
def machine (sender : Sender V) : Machine (State V) (Action V) where
  initial s := s = .initial
  step := step sender

end Bexec.Expression
