import Bexec.Expression.Join

/-! # What an expression may complete with

The rules by which an expression completes as its parts do, with no operation
states and no interleaving in them.
-/

namespace Bexec.Expression

open Foundation Signatures Adaptors

variable {V : Type}

/-- Connecting a sender throws: a leaf does, or an adaptor that connects it at once. -/
inductive ConnectThrows : Sender V → V → Prop
  | leaf {l : Leaf V} {x : V} (hleaf : l.connectRaises = some x) : ConnectThrows (.leaf l) x
  | adapt {tag : Tag} {fn : Args V tag → Except V (List V)} {upstream : Sender V} {x : V}
      (hupstream : ConnectThrows upstream x) : ConnectThrows (.adapt tag fn upstream) x
  | letAdapt {tag : Tag} {raises : Args V tag → Option V} {child : Args V tag → Sender V}
      {upstream : Sender V} {x : V} (hupstream : ConnectThrows upstream x) :
      ConnectThrows (.letAdapt tag raises child upstream) x
  | associate {child : Sender V} {x : V} (hchild : ConnectThrows child x) :
      ConnectThrows (.associate true child) x

/-- Making a sender throws what is given, or connecting it throws. -/
inductive MakeThrows (s : Sender V) : Option V → V → Prop
  | makes {x : V} : MakeThrows s (some x) x
  | connects {x : V} (hconnect : ConnectThrows s x) : MakeThrows s none x

/-- Where a `repeat_until` has no `exception_ptr` to send, connecting its children
throws nothing. -/
def Sender.Contained : Sender V → Prop
  | .leaf _ => True
  | .just _ => True
  | .adapt _ _ upstream => upstream.Contained
  | .letAdapt _ _ child upstream => (∀ args, (child args).Contained) ∧ upstream.Contained
  | .whenAll _ _ _ children => ∀ i, (children i).Contained
  | .startsOn schedule child => schedule.Contained ∧ child.Contained
  | .onSource _ final source => final.Contained ∧ source.Contained
  | .repeatUntil loop child =>
      (loop.needExceptionPtr = false → ∀ k x, ¬ ConnectThrows (child k) x) ∧
        ∀ k, (child k).Contained
  | .associate _ child => child.Contained

/-- The copies of the arguments of a completion are stored. -/
inductive Keeps (copying : Copying V) : Completion V → Prop
  | values {args : List V} (hcopy : copying.values args = none) : Keeps copying (.setValue args)
  | error {error : V} (hcopy : copying.error error = none) : Keeps copying (.setError error)
  | stopped : Keeps copying .setStopped

/-- Copying an argument of a completion throws. -/
inductive Loses (copying : Copying V) : Completion V → V → Prop
  | values {args : List V} {x : V} (hcopy : copying.values args = some x) :
      Loses copying (.setValue args) x
  | error {error x : V} (hcopy : copying.error error = some x) : Loses copying (.setError error) x

/-- What is in the storage of a completion: the completion, or the exception. -/
inductive Stored (copying : Copying V) : Completion V → Completion V → Prop
  | kept {c : Completion V} (hkeeps : Keeps copying c) : Stored copying c c
  | lost {c : Completion V} {x : V} (hloses : Loses copying c x) : Stored copying c (.setError x)

mutual

/-- The completions an expression may complete with. -/
inductive Completes : Sender V → Completion V → Prop
  | leaf {l : Leaf V} {c : Completion V}
      (hleaf : ∃ stop, l.inlineCompletion stop = none ∨ l.inlineCompletion stop = some c) :
      Completes (.leaf l) c
  | just (c : Completion V) : Completes (.just c) c
  | adaptForward {tag : Tag} {fn : Args V tag → Except V (List V)} {upstream : Sender V}
      {c : Completion V} (hupstream : Completes upstream c) (htag : c.tag ≠ tag) :
      Completes (.adapt tag fn upstream) c
  | adaptReturns {tag : Tag} {fn : Args V tag → Except V (List V)} {upstream : Sender V}
      {args : Args V tag} {result : List V} (hupstream : Completes upstream (completion tag args))
      (hfn : fn args = .ok result) : Completes (.adapt tag fn upstream) (.setValue result)
  | adaptThrows {tag : Tag} {fn : Args V tag → Except V (List V)} {upstream : Sender V}
      {args : Args V tag} {x : V} (hupstream : Completes upstream (completion tag args))
      (hfn : fn args = .error x) : Completes (.adapt tag fn upstream) (.setError x)
  | letForward {tag : Tag} {raises : Args V tag → Option V} {child : Args V tag → Sender V}
      {upstream : Sender V} {c : Completion V} (hupstream : Completes upstream c)
      (htag : c.tag ≠ tag) : Completes (.letAdapt tag raises child upstream) c
  | letChild {tag : Tag} {raises : Args V tag → Option V} {child : Args V tag → Sender V}
      {upstream : Sender V} {d : Completion V} {args : Args V tag}
      (hupstream : Completes upstream (completion tag args))
      (hchild : Attempted (child args) (raises args) d) :
      Completes (.letAdapt tag raises child upstream) d
  | whenAllFails {n : ℕ} {copying : Copying V} {joinRaises : List V → Option V}
      {children : Fin (n + 1) → Sender V} (outcome stored : Fin (n + 1) → Completion V)
      (hchildren : ∀ i, Attempted (children i) none (outcome i))
      (hstored : ∀ i, Stored copying (outcome i) (stored i)) (i : Fin (n + 1))
      (htag : (stored i).tag ≠ .setValue) :
      Completes (.whenAll n copying joinRaises children) (stored i)
  | whenAllValues {n : ℕ} {copying : Copying V} {joinRaises : List V → Option V}
      {children : Fin (n + 1) → Sender V} (values : Fin (n + 1) → List V)
      (hchildren : ∀ i, Attempted (children i) none (.setValue (values i)))
      (hcopy : ∀ i, copying.values (values i) = none)
      (hjoin : joinRaises ((List.finRange (n + 1)).flatMap values) = none) :
      Completes (.whenAll n copying joinRaises children)
        (.setValue ((List.finRange (n + 1)).flatMap values))
  | whenAllThrows {n : ℕ} {copying : Copying V} {joinRaises : List V → Option V}
      {children : Fin (n + 1) → Sender V} (values : Fin (n + 1) → List V) {x : V}
      (hchildren : ∀ i, Attempted (children i) none (.setValue (values i)))
      (hcopy : ∀ i, copying.values (values i) = none)
      (hjoin : joinRaises ((List.finRange (n + 1)).flatMap values) = some x) :
      Completes (.whenAll n copying joinRaises children) (.setError x)
  | scheduleRefuses {schedule child : Sender V} {c : Completion V}
      (hschedule : Attempted schedule none c) (htag : c.tag ≠ .setValue) :
      Completes (.startsOn schedule child) c
  | startsOn {schedule child : Sender V} {args : List V} {c : Completion V}
      (hschedule : Attempted schedule none (.setValue args))
      (hchild : Attempted child none c) : Completes (.startsOn schedule child) c
  | sourceRaises {copying : Copying V} {final source : Sender V} {x : V}
      (hconnect : ConnectThrows source x) :
      Completes (.onSource copying final source) (.setError x)
  | storeRaises {copying : Copying V} {final source : Sender V} {c : Completion V} {x : V}
      (hconnect : ∀ y, ¬ ConnectThrows source y) (hsource : Completes source c)
      (hloses : Loses copying c x) :
      Completes (.onSource copying final source) (.setError x)
  | finalRefuses {copying : Copying V} {final source : Sender V} {c d : Completion V}
      (hconnect : ∀ y, ¬ ConnectThrows source y) (hsource : Completes source c)
      (hkeeps : Keeps copying c) (hfinal : Attempted final none d) (htag : d.tag ≠ .setValue) :
      Completes (.onSource copying final source) d
  | onSource {copying : Copying V} {final source : Sender V} {c : Completion V} {args : List V}
      (hconnect : ∀ y, ¬ ConnectThrows source y) (hsource : Completes source c)
      (hkeeps : Keeps copying c) (hfinal : Attempted final none (.setValue args)) :
      Completes (.onSource copying final source) c
  | repeatStopped {loop : Loop V} {child : ℕ → Sender V} {k : ℕ} (values : ℕ → List V)
      (hvalues : ∀ m, m < k → Attempted (child m) (loop.raises m) (.setValue (values m)))
      (hcopy : ∀ m, m < k → loop.copying.values (values m) = none)
      (hagain : ∀ m, m < k → loop.predicate m = .ok false) :
      Completes (.repeatUntil loop child) .setStopped
  | repeatRaises {loop : Loop V} {child : ℕ → Sender V} {k : ℕ} {x : V} (values : ℕ → List V)
      (hvalues : ∀ m, m < k → Attempted (child m) (loop.raises m) (.setValue (values m)))
      (hcopy : ∀ m, m < k → loop.copying.values (values m) = none)
      (hagain : ∀ m, m < k → loop.predicate m = .ok false)
      (hneed : loop.needExceptionPtr = true)
      (hthrows : MakeThrows (child k) (loop.raises k) x) :
      Completes (.repeatUntil loop child) (.setError x)
  | repeatFails {loop : Loop V} {child : ℕ → Sender V} {k : ℕ} {c d : Completion V}
      (values : ℕ → List V)
      (hvalues : ∀ m, m < k → Attempted (child m) (loop.raises m) (.setValue (values m)))
      (hcopy : ∀ m, m < k → loop.copying.values (values m) = none)
      (hagain : ∀ m, m < k → loop.predicate m = .ok false)
      (hmade : ∀ x, ¬ MakeThrows (child k) (loop.raises k) x) (hchild : Completes (child k) c)
      (hstored : Stored loop.copying c d) (htag : d.tag ≠ .setValue) :
      Completes (.repeatUntil loop child) d
  | repeatEnds {loop : Loop V} {child : ℕ → Sender V} {k : ℕ} (values : ℕ → List V)
      (hvalues : ∀ m, m < k + 1 → Attempted (child m) (loop.raises m) (.setValue (values m)))
      (hcopy : ∀ m, m < k + 1 → loop.copying.values (values m) = none)
      (hagain : ∀ m, m < k → loop.predicate m = .ok false) (hends : loop.predicate k = .ok true) :
      Completes (.repeatUntil loop child) (.setValue (values k))
  | repeatThrows {loop : Loop V} {child : ℕ → Sender V} {k : ℕ} {x : V} (values : ℕ → List V)
      (hvalues : ∀ m, m < k + 1 → Attempted (child m) (loop.raises m) (.setValue (values m)))
      (hcopy : ∀ m, m < k + 1 → loop.copying.values (values m) = none)
      (hagain : ∀ m, m < k → loop.predicate m = .ok false)
      (hthrows : loop.predicate k = .error x) :
      Completes (.repeatUntil loop child) (.setError x)
  | associate {child : Sender V} {c : Completion V} (hchild : Completes child c) :
      Completes (.associate true child) c
  | rejected {child : Sender V} : Completes (.associate false child) .setStopped

/-- What comes of a sender that is made and connected in a `try` block: an exception
is sent as an error. -/
inductive Attempted : Sender V → Option V → Completion V → Prop
  | throws {s : Sender V} {raises : Option V} {x : V} (hthrows : MakeThrows s raises x) :
      Attempted s raises (.setError x)
  | completes {s : Sender V} {raises : Option V} {c : Completion V}
      (hmade : ∀ x, ¬ MakeThrows s raises x) (hcompletes : Completes s c) : Attempted s raises c

end

end Bexec.Expression
