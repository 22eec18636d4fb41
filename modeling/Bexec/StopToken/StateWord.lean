import Bexec.Foundation.Machine
import Bexec.StopToken.History

/-!
# The state word

The accesses of any number of calls to `stop_state::state` and nothing else:
lock and unlock pairs, registrations and stop requests. A caller is one call in
progress; the calls that stand on the stack of one thread are callers of their
own, so every order of their accesses is among the interleavings.
-/

namespace Bexec.StopToken

open Foundation

def SpinResult.isAcquired : SpinResult → Bool
  | .acquired _ _ => true
  | _ => false

namespace StateWord

variable {Caller : Type}

/-- The calls that use the word. The pair is the one of `remove_callback` and of
`~inplace_stop_source`. -/
inductive Call
  | pair
  | tryAddCallback
  | requestStop
  deriving DecidableEq

/-- Where a call stands among its accesses. -/
inductive Pc
  | locking (pc : Spin)
  | locked (prev : Word)
  | adding (pc : Spin)
  | added
  | claiming (pc : Spin)
  | draining
  | window
  | relocking (pc : Spin)
  deriving DecidableEq

/-- A spin loop makes one access; the lock is released at the end of a call, or
for a callback, after which it is taken again. -/
inductive Move
  | spin (weak : Bool)
  | unlock
  | openWindow
  | callbackReturned
  deriving DecidableEq

def Call.entry : Call → Pc
  | .pair => .locking .load
  | .tryAddCallback => .adding .load
  | .requestStop => .claiming .load

/-- What becomes of the call, and the value it stores in the word. -/
structure Access where
  next : Option Pc
  store : Option Word
  deriving DecidableEq

/-- The access of a spin loop that goes on to `taken` once it has the lock. -/
def Access.ofSpin (again : Spin → Pc) (taken : Word → Pc) : SpinResult → Access
  | .again pc => ⟨some (again pc), none⟩
  | .acquired prev next => ⟨some (taken prev), some next⟩
  | .refused => ⟨none, none⟩

def Pc.access (word : Word) : Pc → Move → Option Access
  | .locking pc, .spin weak => some (.ofSpin .locking .locked (lock weak word pc))
  | .locked prev, .unlock => some ⟨none, some prev⟩
  | .adding pc, .spin weak =>
      some (.ofSpin .adding (fun _ => .added) (tryLockUnlessStopRequested false weak word pc))
  | .added, .unlock => some ⟨none, some 0⟩
  | .claiming pc, .spin weak =>
      some (.ofSpin .claiming (fun _ => .draining) (tryLockUnlessStopRequested true weak word pc))
  | .draining, .openWindow => some ⟨some .window, some stopRequestedBit⟩
  | .draining, .unlock => some ⟨none, some stopRequestedBit⟩
  | .window, .callbackReturned => some ⟨some (.relocking .load), none⟩
  | .relocking pc, .spin weak =>
      some (.ofSpin .relocking (fun _ => .draining) (lock weak word pc))
  | _, _ => none

def Pc.claims (word : Word) : Pc → Move → Bool
  | .claiming pc, .spin weak => (tryLockUnlessStopRequested true weak word pc).isAcquired
  | _, _ => false

def Pc.succeeds (word : Word) : Pc → Move → Bool
  | .adding pc, .spin weak => (tryLockUnlessStopRequested false weak word pc).isAcquired
  | pc, move => pc.claims word move

/-- Between acquiring the lock bit and releasing it. -/
def Pc.holds : Pc → Bool
  | .locked _ | .added | .draining => true
  | _ => false

structure State (Caller : Type) where
  word : Word
  calls : Caller → Option Pc

inductive Action (Caller : Type)
  | enter (caller : Caller) (call : Call)
  | move (caller : Caller) (move : Move)
  deriving DecidableEq

namespace State

def initial : State Caller := ⟨0, fun _ => none⟩

def access (s : State Caller) (c : Caller) (move : Move) : Option Access :=
  (s.calls c).bind fun pc => pc.access s.word move

/-- The value that the action stores in the word. -/
def stores (s : State Caller) : Action Caller → Option Word
  | .enter _ _ => none
  | .move c move => (s.access c move).bind Access.store

def requested (s : State Caller) : Bool := decide (s.word &&& stopRequestedBit ≠ 0)

def Holds (s : State Caller) (c : Caller) : Prop := ∃ pc, s.calls c = some pc ∧ pc.holds = true

/-- By this access a call of `request_stop` makes the request. -/
def claims (s : State Caller) : Action Caller → Bool
  | .enter _ _ => false
  | .move c move => (s.calls c).any (·.claims s.word move)

/-- By this access a `try_lock_unless_stop_requested` succeeds. -/
def succeeds (s : State Caller) : Action Caller → Bool
  | .enter _ _ => false
  | .move c move => (s.calls c).any (·.succeeds s.word move)

end State

variable [DecidableEq Caller]

def step (s : State Caller) : Action Caller → Option (State Caller)
  | .enter c call =>
      if s.calls c = none then
        some { s with calls := Function.update s.calls c (some call.entry) }
      else none
  | .move c move =>
      (s.access c move).map fun access =>
        ⟨access.store.getD s.word, Function.update s.calls c access.next⟩

def machine (Caller : Type) [DecidableEq Caller] : Machine (State Caller) (Action Caller) where
  initial s := s = .initial
  step := step

/-! ## One access -/

/-- What a call remembers of the word is what the holder of the lock will restore. -/
def Pc.Saved (requested : Bool) : Pc → Prop
  | .locked prev => prev = encode requested false
  | .added => requested = false
  | .draining | .window | .relocking _ => requested = true
  | _ => True

theorem Pc.Saved.mono {requested requested' : Bool} {pc : Pc} (hsaved : pc.Saved requested)
    (hmono : requested = true → requested' = true) (hfree : pc.holds = false) :
    pc.Saved requested' := by
  cases pc with
  | locked prev | added | draining => cases hfree
  | window | relocking pc => exact hmono hsaved
  | _ => trivial

/-- An access of a call that holds the lock releases it, and leaves the stop flag
as it was. -/
theorem Pc.access_held {requested : Bool} {word : Word} {pc : Pc} {move : Move} {access : Access}
    (haccess : pc.access word move = some access) (hholds : pc.holds = true)
    (hsaved : pc.Saved requested) :
    access.store = some (encode requested false) ∧
      ∀ pc', access.next = some pc' → pc'.holds = false ∧ pc'.Saved requested := by
  cases pc with
  | locked prev =>
      cases move <;> cases haccess
      subst hsaved
      exact ⟨rfl, by simp⟩
  | added =>
      cases move <;> cases haccess
      subst hsaved
      exact ⟨rfl, by simp⟩
  | draining =>
      cases move <;> cases haccess <;> cases hsaved
      · exact ⟨rfl, by simp⟩
      · refine ⟨rfl, ?_⟩
        rintro pc' hpc
        cases hpc
        exact ⟨rfl, rfl⟩
  | _ => cases hholds

/-- A call that does not hold the lock stores a value only when it acquires the
lock. -/
inductive Pc.Waits (requested locked : Bool) (pc : Pc) (access : Access) : Prop
  | spins (hstore : access.store = none)
      (hnext : ∀ pc', access.next = some pc' → pc'.holds = false ∧ pc'.Saved requested)
  | takes {pc' : Pc} {requested' : Bool} (hlocked : locked = false)
      (hstore : access.store = some (encode requested' true)) (hnext : access.next = some pc')
      (hholds : pc'.holds = true) (hsaved : pc'.Saved requested')
      (hmono : requested = true → requested' = true)

theorem Pc.access_free {requested locked : Bool} {word : Word} {pc : Pc} {move : Move}
    {access : Access} (hword : word = encode requested locked)
    (haccess : pc.access word move = some access) (hfree : pc.holds = false)
    (hsaved : pc.Saved requested) : pc.Waits requested locked access := by
  have hunlocked : ∀ {prev next : Word} {weak : Bool} {spin : Spin},
      lock weak word spin = .acquired prev next →
        locked = false ∧ prev = encode requested false ∧ next = encode requested true := by
    intro prev next weak spin hlock
    obtain ⟨hprev, hbit, hnext⟩ := lock_acquired hlock
    obtain rfl : locked = false := by
      rw [← hprev, hword] at hbit
      by_contra hne
      exact (encode_locked requested locked).mpr (by simpa using hne) hbit
    refine ⟨rfl, hprev.symm.trans hword, ?_⟩
    rw [hnext, ← hprev, hword, encode_or_locked]
  have hidle : ∀ {setRequested : Bool} {prev next : Word} {weak : Bool} {spin : Spin},
      tryLockUnlessStopRequested setRequested weak word spin = .acquired prev next →
        requested = false ∧ locked = false ∧ next = encode setRequested true := by
    intro setRequested prev next weak spin hlock
    obtain ⟨hzero, hnext⟩ := tryLock_acquired hlock
    rw [hword] at hzero
    obtain ⟨hrequested, hlocked⟩ := (encode_eq_zero requested locked).mp hzero
    refine ⟨hrequested, hlocked, ?_⟩
    cases setRequested with
    | false => exact hnext.trans encode_push
    | true => exact hnext.trans encode_claim
  cases pc with
  | locked prev | added | draining => cases hfree
  | window =>
      cases move <;> cases haccess
      refine .spins rfl ?_
      rintro pc' hpc
      cases hpc
      exact ⟨rfl, hsaved⟩
  | locking spin | relocking spin =>
      cases move <;> cases haccess
      next weak =>
        cases hlock : lock weak word spin with
        | again spin' =>
            refine .spins rfl ?_
            rintro pc' hpc
            cases hpc
            exact ⟨rfl, hsaved⟩
        | acquired prev next =>
            obtain ⟨hlocked, hprev, rfl⟩ := hunlocked hlock
            first
              | exact .takes hlocked rfl rfl rfl hprev id
              | exact .takes hlocked rfl rfl rfl hsaved id
        | refused => exact absurd hlock lock_ne_refused
  | adding spin | claiming spin =>
      cases move <;> cases haccess
      next weak =>
        cases hlock : tryLockUnlessStopRequested _ weak word spin with
        | again spin' =>
            refine .spins rfl ?_
            rintro pc' hpc
            cases hpc
            exact ⟨rfl, trivial⟩
        | acquired prev next =>
            obtain ⟨hrequested, hlocked, rfl⟩ := hidle hlock
            refine .takes hlocked rfl rfl rfl rfl ?_
            simp [hrequested]
        | refused => exact .spins rfl (by simp [Access.ofSpin])

/-! ## All calls -/

/-- The word is made of a stop flag and a lock bit, and every call remembers what
agrees with them. -/
structure Inv (s : State Caller) (requested : Bool) (owner : Option Caller) : Prop where
  word : s.word = encode requested owner.isSome
  holder : ∀ c pc, s.calls c = some pc → (pc.holds = true ↔ owner = some c)
  busy : ∀ c, owner = some c → s.calls c ≠ none
  saved : ∀ c pc, s.calls c = some pc → pc.Saved requested

variable {s s' : State Caller} {requested : Bool} {owner : Option Caller}

omit [DecidableEq Caller] in
theorem Inv.initial : Inv (State.initial : State Caller) false none where
  word := encode_idle
  holder := by simp [State.initial]
  busy := by simp
  saved := by simp [State.initial]

omit [DecidableEq Caller] in
theorem Inv.requested_eq (h : Inv s requested owner) : s.requested = requested := by
  rw [State.requested, h.word, Bool.eq_iff_iff, decide_eq_true_iff]
  exact encode_requested _ _

omit [DecidableEq Caller] in
theorem Inv.owner_eq (h : Inv s requested owner) {c : Caller} (hholds : s.Holds c) :
    owner = some c := by
  obtain ⟨pc, hpc, hheld⟩ := hholds
  exact (h.holder c pc hpc).mp hheld

omit [DecidableEq Caller] in
theorem access_spec {c : Caller} {move : Move} {access : Access}
    (haccess : s.access c move = some access) :
    ∃ pc, s.calls c = some pc ∧ pc.access s.word move = some access := by
  simpa [State.access, Option.bind_eq_some_iff] using haccess

/-- An access by one call keeps what the others remember. -/
theorem Inv.update (h : Inv s requested owner) {c : Caller} {next : Option Pc} {word : Word}
    {requested' : Bool} {owner' : Option Caller} (hword : word = encode requested' owner'.isSome)
    (howner : ∀ other, other ≠ c → (owner' = some other ↔ owner = some other))
    (hnext : ∀ pc, next = some pc → (pc.holds = true ↔ owner' = some c) ∧ pc.Saved requested')
    (hbusy : owner' = some c → next ≠ none)
    (hmono : ∀ other pc, other ≠ c → s.calls other = some pc → pc.Saved requested') :
    Inv ⟨word, Function.update s.calls c next⟩ requested' owner' where
  word := hword
  holder := by
    intro other pc hpc
    by_cases heq : other = c
    · subst heq
      simp only [Function.update_self] at hpc
      exact (hnext pc hpc).1
    · simp only [ne_eq, heq, not_false_eq_true, Function.update_of_ne] at hpc
      exact (h.holder other pc hpc).trans (howner other heq).symm
  busy := by
    intro other hother
    by_cases heq : other = c
    · subst heq
      simp only [Function.update_self]
      exact hbusy hother
    · simp only [ne_eq, heq, not_false_eq_true, Function.update_of_ne]
      exact h.busy other ((howner other heq).mp hother)
  saved := by
    intro other pc hpc
    by_cases heq : other = c
    · subst heq
      simp only [Function.update_self] at hpc
      exact (hnext pc hpc).2
    · simp only [ne_eq, heq, not_false_eq_true, Function.update_of_ne] at hpc
      exact hmono other pc heq hpc

/-- The flag is only ever set. -/
theorem Inv.step (h : Inv s requested owner) {a : Action Caller}
    (hstep : StateWord.step s a = some s') :
    ∃ requested' owner', Inv s' requested' owner' ∧ (requested = true → requested' = true) := by
  cases a with
  | enter c call =>
      simp only [StateWord.step, Option.ite_none_right_eq_some, Option.some.injEq] at hstep
      obtain ⟨hidle, rfl⟩ := hstep
      have hother : owner ≠ some c := fun howner => h.busy c howner hidle
      refine ⟨requested, owner, h.update h.word (fun _ _ => Iff.rfl) ?_ (absurd · hother) ?_, id⟩
      · rintro pc hpc
        cases hpc
        cases call <;> exact ⟨by simp [Call.entry, Pc.holds, hother], trivial⟩
      · exact fun other pc _ hpc => h.saved other pc hpc
  | move c move =>
      obtain ⟨access, haccess, rfl⟩ := Option.map_eq_some_iff.mp hstep
      obtain ⟨pc, hpc, haccess⟩ := access_spec haccess
      have hsaved := h.saved c pc hpc
      by_cases hholds : pc.holds = true
      · obtain ⟨hstore, hnext⟩ := Pc.access_held haccess hholds hsaved
        obtain rfl : owner = some c := (h.holder c pc hpc).mp hholds
        refine ⟨requested, none, ?_, id⟩
        rw [hstore]
        refine h.update rfl ?_ ?_ (by simp) (fun other pc _ hpc => h.saved other pc hpc)
        · exact fun other hne => by simp [Ne.symm hne]
        · intro pc' hpc'
          obtain ⟨hfree, hkept⟩ := hnext pc' hpc'
          exact ⟨by simp [hfree], hkept⟩
      · have hfree : pc.holds = false := by simpa using hholds
        have hother : owner ≠ some c := fun howner => hholds ((h.holder c pc hpc).mpr howner)
        cases Pc.access_free h.word haccess hfree hsaved with
        | spins hstore hnext =>
            refine ⟨requested, owner, ?_, id⟩
            rw [hstore]
            refine h.update h.word (fun _ _ => Iff.rfl) ?_ (absurd · hother)
              (fun other pc _ hpc => h.saved other pc hpc)
            intro pc' hpc'
            obtain ⟨hspin, hkept⟩ := hnext pc' hpc'
            exact ⟨by simp [hspin, hother], hkept⟩
        | @takes pc' requested' hlocked hstore hnext htaken hkept hmono =>
            obtain rfl : owner = none := by simpa using hlocked
            refine ⟨requested', some c, ?_, hmono⟩
            rw [hstore, hnext]
            refine h.update rfl ?_ ?_ (by simp) ?_
            · exact fun other hne => by simp [Ne.symm hne]
            · rintro pc'' hpc''
              cases hpc''
              exact ⟨by simp [htaken], hkept⟩
            · intro other pc'' hne hpc''
              refine (h.saved other pc'' hpc'').mono hmono ?_
              have hnot := (h.holder other pc'' hpc'').not.mpr (by simp)
              simpa using hnot

/-- The word of every reachable state is accounted for. -/
theorem inv_of_reachable (hs : (machine Caller).Reachable s) :
    ∃ requested owner, Inv s requested owner := by
  induction hs with
  | initial hinit =>
      subst hinit
      exact ⟨_, _, Inv.initial⟩
  | step hs hstep ih =>
      obtain ⟨requested, owner, hinv⟩ := ih
      obtain ⟨requested', owner', hinv', -⟩ := hinv.step hstep
      exact ⟨requested', owner', hinv'⟩

theorem requested_step (hs : (machine Caller).Reachable s) {a : Action Caller}
    (hstep : step s a = some s') (hrequested : s.requested = true) : s'.requested = true := by
  obtain ⟨requested, owner, hinv⟩ := inv_of_reachable hs
  obtain ⟨requested', owner', hinv', hmono⟩ := hinv.step hstep
  rw [hinv.requested_eq] at hrequested
  rw [hinv'.requested_eq]
  exact hmono hrequested

/-- An acquisition unless stop was requested finds the word zero. -/
theorem of_isAcquired {setRequested weak : Bool} {word : Word} {pc : Spin}
    (hacquired : (tryLockUnlessStopRequested setRequested weak word pc).isAcquired = true) :
    word = 0 ∧ ∃ prev, tryLockUnlessStopRequested setRequested weak word pc =
      .acquired prev (if setRequested then lockedBit ||| stopRequestedBit else lockedBit) := by
  cases hlock : tryLockUnlessStopRequested setRequested weak word pc with
  | acquired prev next =>
      obtain ⟨hzero, rfl⟩ := tryLock_acquired hlock
      exact ⟨hzero, prev, rfl⟩
  | again pc' | refused =>
      rw [hlock] at hacquired
      cases hacquired

theorem Pc.of_claims {word : Word} {pc : Pc} {move : Move} {access : Access}
    (hclaims : pc.claims word move = true) (haccess : pc.access word move = some access) :
    access.store = some (lockedBit ||| stopRequestedBit) := by
  cases pc with
  | claiming spin =>
      cases move with
      | spin weak =>
          obtain ⟨-, prev, hlock⟩ := of_isAcquired hclaims
          cases haccess
          rw [hlock]
          rfl
      | _ => cases hclaims
  | _ => cases hclaims

theorem Pc.of_succeeds {word : Word} {pc : Pc} {move : Move}
    (hsucceeds : pc.succeeds word move = true) : word = 0 := by
  cases pc with
  | adding spin | claiming spin =>
      cases move with
      | spin weak => exact (of_isAcquired hsucceeds).1
      | _ => cases hsucceeds
  | _ => cases hsucceeds

/-- A claim sets the flag. -/
theorem requested_claim {a : Action Caller} (hclaims : s.claims a = true)
    (hstep : step s a = some s') : s'.requested = true := by
  cases a with
  | enter c call => cases hclaims
  | move c move =>
      obtain ⟨access, haccess, rfl⟩ := Option.map_eq_some_iff.mp hstep
      obtain ⟨pc, hpc, haccess⟩ := access_spec haccess
      simp only [State.claims, hpc, Option.any_some] at hclaims
      simp only [State.requested, Pc.of_claims hclaims haccess, Option.getD_some]
      decide

omit [DecidableEq Caller] in
/-- With the flag set, no attempt to lock unless stop was requested succeeds. -/
theorem not_succeeds_of_requested {a : Action Caller} (hrequested : s.requested = true) :
    s.succeeds a = false := by
  cases a with
  | enter c call => rfl
  | move c move =>
      rw [← Bool.not_eq_true]
      intro hsucceeds
      obtain ⟨pc, -, hpc⟩ := (Option.any_eq_true _ _).mp hsucceeds
      rw [State.requested, Pc.of_succeeds hpc] at hrequested
      exact absurd hrequested (by decide)

theorem requested_run {trace : List (State Caller × Action Caller)}
    (hs : (machine Caller).Reachable s) (hrequested : s.requested = true)
    (hrun : (machine Caller).Run s trace s') :
    s'.requested = true ∧ ∀ p ∈ trace, p.1.succeeds p.2 = false := by
  induction hrun with
  | nil => exact ⟨hrequested, by simp⟩
  | @snoc middle last trace a hprefix hstep ih =>
      obtain ⟨hmiddle, hnone⟩ := ih
      refine ⟨requested_step (hs.run hprefix) hstep hmiddle, ?_⟩
      intro p hp
      rcases List.mem_append.mp hp with hp | hp
      · exact hnone p hp
      · rw [List.mem_singleton.mp hp]
        exact not_succeeds_of_requested hmiddle

/-- The guarantees of the word to the calls that use it. -/
structure Contract (s : State Caller) : Prop where
  range : s.word = 0 ∨ s.word = 1 ∨ s.word = 2 ∨ s.word = 3
  /-- At most one call is between acquiring the lock bit and releasing it. -/
  exclusive : ∀ c c', s.Holds c → s.Holds c' → c = c'
  /-- Meanwhile no other call stores a value. -/
  guarded : ∀ c c' move, s.Holds c → c' ≠ c → s.stores (.move c' move) = none
  /-- The stop flag is never cleared. -/
  sticky : s.requested = true → ∀ trace s', (machine Caller).Run s trace s' → s'.requested = true
  /-- After a claim the flag is set and no `try_lock_unless_stop_requested` succeeds. -/
  claimed : ∀ a s₁, s.claims a = true → step s a = some s₁ →
    ∀ trace s', (machine Caller).Run s₁ trace s' →
      s'.requested = true ∧ ∀ p ∈ trace, p.1.succeeds p.2 = false

/-- The contract holds in every interleaving of any number of calls. -/
theorem state_word_contract (hs : (machine Caller).Reachable s) : Contract s := by
  obtain ⟨requested, owner, hinv⟩ := inv_of_reachable hs
  refine ⟨?_, ?_, ?_, ?_, ?_⟩
  · rw [hinv.word]
    cases requested <;> cases owner.isSome <;> decide
  · intro c c' hc hc'
    have heq := (hinv.owner_eq hc).symm.trans (hinv.owner_eq hc')
    exact Option.some.inj heq
  · intro c c' move hc hne
    have howner := hinv.owner_eq hc
    cases haccess : s.access c' move with
    | none => simp [State.stores, haccess]
    | some access =>
        obtain ⟨pc, hpc, hmove⟩ := access_spec haccess
        have hfree : pc.holds = false := by
          have hnot := (hinv.holder c' pc hpc).not.mpr (by simp [howner, Ne.symm hne])
          simpa using hnot
        cases Pc.access_free hinv.word hmove hfree (hinv.saved c' pc hpc) with
        | spins hstore hnext => simp [State.stores, haccess, hstore]
        | takes hlocked => simp [howner] at hlocked
  · exact fun hrequested trace s' hrun => (requested_run hs hrequested hrun).1
  · intro a s₁ hclaims hstep trace s' hrun
    exact requested_run (.step (a := a) hs hstep) (requested_claim hclaims hstep) hrun

/-- One call is registering and holds the lock while another spins for a stop request. -/
def contendedRun : List (Action Pair) :=
  List.flatten
    [[.enter .first .tryAddCallback], List.replicate 2 (.move .first (.spin false)),
      [.enter .second .requestStop], List.replicate 2 (.move .second (.spin false))]

theorem state_word_contract_contendedRun :
    ∃ s : State Pair, Contract s ∧ s.word = lockedBit ∧
      s.calls .first = some .added ∧ s.calls .second = some (.claiming .load) := by
  refine ⟨_, state_word_contract (Machine.reachable_replay rfl contendedRun (by decide)), ?_⟩
  decide

end StateWord

end Bexec.StopToken
