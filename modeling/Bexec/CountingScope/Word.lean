import Bexec.Foundation.PackedWord

/-!
# The packed word of a counting scope

`word = (count << 3) | state_bits`. Each operation replaces the whole word, so
its effect on the pair of count and bits is a fact about two words.
-/

namespace Bexec.CountingScope

open Foundation

/-- `std::size_t` on the 64-bit target. -/
abbrev Word := BitVec 64

def closedBit : Word := 1
def joinNeededBit : Word := 2
def joinRunningBit : Word := 4

/-- `std::numeric_limits<std::size_t>::max() >> 3`. -/
def maxAssociations : Word := BitVec.allOnes 64 >>> 3

def countOf (word : Word) : Word := word >>> 3

def stateOf (word : Word) : Word := word &&& 7

def makeWord (count state : Word) : Word := (count <<< 3) ||| state

def isClosed (word : Word) : Bool := word &&& closedBit ≠ 0

def isJoining (word : Word) : Bool := word &&& joinRunningBit ≠ 0

def isJoined (word : Word) : Bool := word = closedBit

/-- The number of associations a word stands for. -/
def associations (word : Word) : Nat := (countOf word).toNat

/-- The pairs of state bits and count that occur: `join_needed_bit` once
anything was associated, `join_running_bit` only while something still is. -/
def Legal (word : Word) : Prop :=
  (stateOf word ∈ [(0 : Word), 1] ∧ associations word = 0) ∨ stateOf word ∈ [(2 : Word), 3] ∨
    (stateOf word ∈ [(6 : Word), 7] ∧ 0 < associations word)

/-- A fact about finitely many state bits, checked one by one. -/
theorem forall_of_all {P : Word → Prop} [DecidablePred P] {states : List Word}
    (hall : states.all (fun st => P st) = true) : ∀ st ∈ states, P st := by
  simpa using hall

theorem toNat_maxAssociations : maxAssociations.toNat = 2 ^ 61 - 1 := by decide

theorem makeWord_of (word : Word) : makeWord (countOf word) (stateOf word) = word :=
  PackedWord.pack_count_flags (k := 3) (by decide) word

theorem associations_le (word : Word) : associations word ≤ maxAssociations.toNat := by
  have hlt := word.isLt
  rw [associations, countOf, PackedWord.toNat_count, toNat_maxAssociations]
  omega

theorem stateOf_lt (word : Word) : (stateOf word).toNat < 2 ^ 3 := by
  have hflags := PackedWord.toNat_flags (k := 3) (by decide) word
  exact Nat.lt_of_le_of_lt (Nat.le_of_eq hflags) (Nat.mod_lt _ (by decide))

/-- The three bits, one by one. -/
theorem stateOf_cases (word : Word) :
    stateOf word ∈ [(0 : Word), 1, 2, 3, 4, 5, 6, 7] := by
  have hlt := stateOf_lt word
  have hcases : ∀ n : Nat, n < 8 → (stateOf word).toNat = n → stateOf word = BitVec.ofNat 64 n := by
    intro n hn heq
    apply BitVec.eq_of_toNat_eq
    rw [heq, BitVec.toNat_ofNat, Nat.mod_eq_of_lt (Nat.lt_trans hn (by decide))]
  have hlist : ∀ n : Nat, n < 8 → BitVec.ofNat 64 n ∈ [(0 : Word), 1, 2, 3, 4, 5, 6, 7] := by
    decide
  rw [hcases _ hlt rfl]
  exact hlist _ hlt

section Pack

variable {count state : Word}

theorem toNat_mul_lt (hcount : count.toNat ≤ maxAssociations.toNat) :
    count.toNat * 2 ^ 3 < 2 ^ 64 := by
  rw [toNat_maxAssociations] at hcount
  omega

theorem countOf_makeWord (hcount : count.toNat ≤ maxAssociations.toNat)
    (hstate : state.toNat < 2 ^ 3) : countOf (makeWord count state) = count :=
  PackedWord.count_pack (toNat_mul_lt hcount) hstate

theorem stateOf_makeWord (hcount : count.toNat ≤ maxAssociations.toNat)
    (hstate : state.toNat < 2 ^ 3) : stateOf (makeWord count state) = state :=
  PackedWord.flags_pack (by decide) (toNat_mul_lt hcount) hstate

end Pack

/-- The predicates on the word look at its state bits only. -/
theorem isClosed_eq (word : Word) : isClosed word = (stateOf word &&& closedBit ≠ 0 : Bool) := by
  have hmask : (7 : Word) &&& closedBit = closedBit := by decide
  rw [isClosed, stateOf, BitVec.and_assoc, hmask]

theorem isJoining_eq (word : Word) :
    isJoining word = (stateOf word &&& joinRunningBit ≠ 0 : Bool) := by
  have hmask : (7 : Word) &&& joinRunningBit = joinRunningBit := by decide
  rw [isJoining, stateOf, BitVec.and_assoc, hmask]

theorem joined_iff (word : Word) :
    word = closedBit ↔ stateOf word = closedBit ∧ associations word = 0 := by
  constructor
  · rintro rfl
    decide
  · rintro ⟨hstate, hcount⟩
    have hzero : countOf word = 0 := BitVec.eq_of_toNat_eq hcount
    rw [← makeWord_of word, hstate, hzero]
    decide

theorem associations_or (bit : Word) (hbit : bit.toNat < 2 ^ 3) (word : Word) :
    associations (word ||| bit) = associations word := by
  rw [associations, countOf, PackedWord.count_or hbit]
  rfl

theorem stateOf_or (bit : Word) (hbit : bit &&& 7 = bit) (word : Word) :
    stateOf (word ||| bit) = stateOf word ||| bit :=
  PackedWord.flags_or (k := 3) hbit word

theorem associations_makeWord {count state : Word} (hcount : count.toNat ≤ maxAssociations.toNat)
    (hstate : state.toNat < 2 ^ 3) : associations (makeWord count state) = count.toNat := by
  rw [associations, countOf_makeWord hcount hstate]

theorem associations_closedBit : associations closedBit = 0 := by decide

theorem isJoining_closedBit : isJoining closedBit = false := by decide

theorem legal_zero : Legal 0 := Or.inl (by decide)

theorem legal_closedBit : Legal closedBit := Or.inl (by decide)

namespace Legal

variable {word : Word}

theorem state (h : Legal word) : stateOf word ∈ [(0 : Word), 1, 2, 3, 6, 7] := by
  have hlow : ∀ st ∈ [(0 : Word), 1], st ∈ [(0 : Word), 1, 2, 3, 6, 7] := forall_of_all (by decide)
  have hmid : ∀ st ∈ [(2 : Word), 3], st ∈ [(0 : Word), 1, 2, 3, 6, 7] := forall_of_all (by decide)
  have hhigh : ∀ st ∈ [(6 : Word), 7], st ∈ [(0 : Word), 1, 2, 3, 6, 7] := forall_of_all (by decide)
  rcases h with ⟨h, _⟩ | h | ⟨h, _⟩
  · exact hlow _ h
  · exact hmid _ h
  · exact hhigh _ h

/-- With associations outstanding the scope is open, closed or joining. -/
theorem state_of_pos (h : Legal word) (hpos : 0 < associations word) :
    stateOf word ∈ [(2 : Word), 3, 6, 7] := by
  have hmid : ∀ st ∈ [(2 : Word), 3], st ∈ [(2 : Word), 3, 6, 7] := forall_of_all (by decide)
  have hhigh : ∀ st ∈ [(6 : Word), 7], st ∈ [(2 : Word), 3, 6, 7] := forall_of_all (by decide)
  rcases h with ⟨_, hzero⟩ | h | ⟨h, _⟩
  · omega
  · exact hmid _ h
  · exact hhigh _ h

theorem pos_of_joining (h : Legal word) (hjoining : isJoining word = true) :
    0 < associations word := by
  have hlow : ∀ st ∈ [(0 : Word), 1], (st &&& joinRunningBit ≠ 0 : Bool) = false :=
    forall_of_all (by decide)
  have hmid : ∀ st ∈ [(2 : Word), 3], (st &&& joinRunningBit ≠ 0 : Bool) = false :=
    forall_of_all (by decide)
  rw [isJoining_eq] at hjoining
  rcases h with ⟨h, _⟩ | h | ⟨_, hpos⟩
  · rw [hlow _ h] at hjoining
    cases hjoining
  · rw [hmid _ h] at hjoining
    cases hjoining
  · exact hpos

/-- `try_associate` on an open scope below the limit. -/
theorem associate (h : Legal word) (hopen : isClosed word = false)
    (hmax : countOf word ≠ maxAssociations) {next : Word}
    (hnext : next = makeWord (countOf word + 1) (stateOf word ||| joinNeededBit)) :
    Legal next ∧ associations next = associations word + 1 ∧ isJoining next = isJoining word := by
  have hle := associations_le word
  have hlt : associations word < maxAssociations.toNat :=
    Nat.lt_of_le_of_ne hle (fun heq => hmax (BitVec.eq_of_toNat_eq heq))
  have hcount : (countOf word + 1).toNat = associations word + 1 := by
    rw [toNat_maxAssociations] at hlt
    rw [BitVec.toNat_add, Nat.mod_eq_of_lt]
    · rfl
    · have hone : (1 : Word).toNat = 1 := rfl
      simp only [associations] at hlt
      omega
  have hbits : ∀ st ∈ [(0 : Word), 1, 2, 3, 6, 7], (st &&& closedBit ≠ 0 : Bool) = false →
      (st ||| joinNeededBit).toNat < 2 ^ 3 ∧
      ((st ||| joinNeededBit) &&& joinRunningBit ≠ 0 : Bool) = (st &&& joinRunningBit ≠ 0 : Bool) ∧
      (st ||| joinNeededBit ∈ [(2 : Word), 3] ∨ st ||| joinNeededBit ∈ [(6 : Word), 7]) :=
    forall_of_all (by decide)
  rw [isClosed_eq] at hopen
  obtain ⟨hsmall, hjoining, hstate⟩ := hbits _ h.state hopen
  have hfits : (countOf word + 1).toNat ≤ maxAssociations.toNat := by omega
  have hassociations := associations_makeWord hfits hsmall
  have hstateOf := stateOf_makeWord hfits hsmall
  subst hnext
  refine ⟨?_, by omega, ?_⟩
  · rcases hstate with hstate | hstate
    · exact Or.inr (Or.inl (hstateOf.symm ▸ hstate))
    · exact Or.inr (Or.inr ⟨hstateOf.symm ▸ hstate, by omega⟩)
  · rw [isJoining_eq, isJoining_eq, hstateOf]
    exact hjoining

/-- `disassociate` when this is not the last association of a joining scope. -/
theorem disassociate (h : Legal word) (hpos : 0 < associations word)
    (hlast : ¬ (countOf word - 1 = 0 ∧ isJoining word = true)) {next : Word}
    (hnext : next = makeWord (countOf word - 1) (stateOf word)) :
    Legal next ∧ associations next + 1 = associations word ∧
      isJoining next = isJoining word ∧ next ≠ closedBit := by
  have hle := associations_le word
  have hcount : (countOf word - 1).toNat + 1 = associations word := by
    have hone : (1 : Word) ≤ countOf word := by
      rw [BitVec.le_def]
      exact hpos
    rw [BitVec.toNat_sub_of_le hone]
    simp only [associations] at hpos ⊢
    have : (1 : Word).toNat = 1 := rfl
    omega
  have hfits : (countOf word - 1).toNat ≤ maxAssociations.toNat := by omega
  have hassociations := associations_makeWord hfits (stateOf_lt word)
  have hstateOf := stateOf_makeWord hfits (stateOf_lt word)
  subst hnext
  have hjoining : isJoining (makeWord (countOf word - 1) (stateOf word)) = isJoining word := by
    rw [isJoining_eq, isJoining_eq, hstateOf]
  refine ⟨?_, by omega, hjoining, ?_⟩
  · rcases h with ⟨_, hzero⟩ | hstate | ⟨hstate, _⟩
    · omega
    · exact Or.inr (Or.inl (hstateOf.symm ▸ hstate))
    · have hbits : ∀ st ∈ [(6 : Word), 7], (st &&& joinRunningBit ≠ 0 : Bool) = true :=
        forall_of_all (by decide)
      refine Or.inr (Or.inr ⟨hstateOf.symm ▸ hstate, ?_⟩)
      rw [Nat.pos_iff_ne_zero]
      intro hzero
      refine hlast ⟨BitVec.eq_of_toNat_eq ?_, ?_⟩
      · exact hassociations.symm.trans hzero
      · rw [isJoining_eq]
        exact hbits _ hstate
  · intro hclosed
    have hbits : ∀ st ∈ [(2 : Word), 3, 6, 7], st ≠ closedBit := forall_of_all (by decide)
    exact hbits _ (h.state_of_pos hpos) (hstateOf ▸ ((joined_iff _).mp hclosed).1)

/-- `start_join` with associations outstanding. -/
theorem startJoin (h : Legal word) (hpos : 0 < associations word) :
    Legal (word ||| joinRunningBit) ∧
      associations (word ||| joinRunningBit) = associations word ∧
      isJoining (word ||| joinRunningBit) = true := by
  have hbits : ∀ st ∈ [(2 : Word), 3, 6, 7], st ||| joinRunningBit ∈ [(6 : Word), 7] ∧
      ((st ||| joinRunningBit) &&& joinRunningBit ≠ 0 : Bool) = true := forall_of_all (by decide)
  have hcount := associations_or joinRunningBit (by decide) word
  have hstateOf := stateOf_or joinRunningBit (by decide) word
  obtain ⟨hstate, hjoining⟩ := hbits _ (h.state_of_pos hpos)
  refine ⟨Or.inr (Or.inr ⟨hstateOf.symm ▸ hstate, by omega⟩), hcount, ?_⟩
  rw [isJoining_eq, hstateOf]
  exact hjoining

theorem close (h : Legal word) :
    Legal (word ||| closedBit) ∧ associations (word ||| closedBit) = associations word ∧
      isJoining (word ||| closedBit) = isJoining word := by
  have hlow : ∀ st ∈ [(0 : Word), 1], st ||| closedBit ∈ [(0 : Word), 1] :=
    forall_of_all (by decide)
  have hmid : ∀ st ∈ [(2 : Word), 3], st ||| closedBit ∈ [(2 : Word), 3] :=
    forall_of_all (by decide)
  have hhigh : ∀ st ∈ [(6 : Word), 7], st ||| closedBit ∈ [(6 : Word), 7] :=
    forall_of_all (by decide)
  have hrunning : ∀ st ∈ [(0 : Word), 1, 2, 3, 6, 7],
      ((st ||| closedBit) &&& joinRunningBit ≠ 0 : Bool) = (st &&& joinRunningBit ≠ 0 : Bool) :=
    forall_of_all (by decide)
  have hcount := associations_or closedBit (by decide) word
  have hstateOf := stateOf_or closedBit (by decide) word
  refine ⟨?_, hcount, ?_⟩
  · rcases h with ⟨hstate, hzero⟩ | hstate | ⟨hstate, hpos⟩
    · exact Or.inl ⟨hstateOf ▸ hlow _ hstate, by omega⟩
    · exact Or.inr (Or.inl (hstateOf ▸ hmid _ hstate))
    · exact Or.inr (Or.inr ⟨hstateOf ▸ hhigh _ hstate, by omega⟩)
  · rw [isJoining_eq, isJoining_eq, hstateOf]
    exact hrunning _ h.state

end Legal

end Bexec.CountingScope
