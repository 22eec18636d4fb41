import Mathlib

/-!
# A counter and flags packed in one machine word

The low `k` bits of a word of width `w` hold flags and the others a counter.
-/

namespace Bexec.Foundation.PackedWord

variable {w : Nat}

/-- The word with the given counter and flags. -/
def pack (k : Nat) (count flags : BitVec w) : BitVec w := (count <<< k) ||| flags

/-- The mask of the flag bits. -/
def mask (w k : Nat) : BitVec w := BitVec.ofNat w (2 ^ k - 1)

theorem toNat_count (k : Nat) (word : BitVec w) : (word >>> k).toNat = word.toNat / 2 ^ k := by
  rw [BitVec.toNat_ushiftRight, Nat.shiftRight_eq_div_pow]

theorem toNat_flags {k : Nat} (hk : k ≤ w) (word : BitVec w) :
    (word &&& mask w k).toNat = word.toNat % 2 ^ k := by
  have hlt : 2 ^ k - 1 < 2 ^ w :=
    Nat.lt_of_lt_of_le (Nat.sub_one_lt (Nat.two_pow_pos k).ne') (Nat.pow_le_pow_right (by omega) hk)
  rw [BitVec.toNat_and, mask, BitVec.toNat_ofNat, Nat.mod_eq_of_lt hlt,
    Nat.and_two_pow_sub_one_eq_mod]

theorem toNat_pack {k : Nat} {count flags : BitVec w} (hcount : count.toNat * 2 ^ k < 2 ^ w)
    (hflags : flags.toNat < 2 ^ k) : (pack k count flags).toNat = count.toNat * 2 ^ k + flags.toNat := by
  have hshift : count.toNat <<< k = count.toNat * 2 ^ k := Nat.shiftLeft_eq _ _
  rw [pack, BitVec.toNat_or, BitVec.toNat_shiftLeft, hshift, Nat.mod_eq_of_lt hcount, ← hshift,
    ← Nat.shiftLeft_add_eq_or_of_lt hflags]

/-- A word is determined by its counter and its flags. -/
theorem pack_count_flags {k : Nat} (hk : k ≤ w) (word : BitVec w) :
    pack k (word >>> k) (word &&& mask w k) = word := by
  have hdiv := Nat.div_add_mod word.toNat (2 ^ k)
  have hlt := word.isLt
  have hcount : (word >>> k).toNat * 2 ^ k < 2 ^ w := by
    rw [toNat_count, Nat.mul_comm]
    omega
  have hflags : (word &&& mask w k).toNat < 2 ^ k := by
    rw [toNat_flags hk]
    exact Nat.mod_lt _ (Nat.two_pow_pos k)
  apply BitVec.eq_of_toNat_eq
  rw [toNat_pack hcount hflags, toNat_count, toNat_flags hk, Nat.mul_comm]
  exact hdiv

theorem count_pack {k : Nat} {count flags : BitVec w} (hcount : count.toNat * 2 ^ k < 2 ^ w)
    (hflags : flags.toNat < 2 ^ k) : pack k count flags >>> k = count := by
  apply BitVec.eq_of_toNat_eq
  rw [toNat_count, toNat_pack hcount hflags, Nat.mul_comm,
    Nat.mul_add_div (Nat.two_pow_pos k), Nat.div_eq_of_lt hflags, Nat.add_zero]

theorem flags_pack {k : Nat} (hk : k ≤ w) {count flags : BitVec w}
    (hcount : count.toNat * 2 ^ k < 2 ^ w) (hflags : flags.toNat < 2 ^ k) :
    pack k count flags &&& mask w k = flags := by
  apply BitVec.eq_of_toNat_eq
  rw [toNat_flags hk, toNat_pack hcount hflags, Nat.mul_comm, Nat.mul_add_mod,
    Nat.mod_eq_of_lt hflags]

/-- Setting flags leaves the counter alone. -/
theorem count_or {k : Nat} {flags : BitVec w} (hflags : flags.toNat < 2 ^ k) (word : BitVec w) :
    (word ||| flags) >>> k = word >>> k := by
  apply BitVec.eq_of_toNat_eq
  rw [toNat_count, toNat_count, BitVec.toNat_or, ← Nat.shiftRight_eq_div_pow,
    ← Nat.shiftRight_eq_div_pow, Nat.shiftRight_or_distrib, Nat.shiftRight_eq_zero _ _ hflags,
    Nat.or_zero]

theorem flags_or {k : Nat} {flags : BitVec w} (hflags : flags &&& mask w k = flags)
    (word : BitVec w) : (word ||| flags) &&& mask w k = (word &&& mask w k) ||| flags := by
  have hdistrib : (word ||| flags) &&& mask w k =
      (word &&& mask w k) ||| (flags &&& mask w k) := by
    ext i
    simp only [BitVec.getElem_and, BitVec.getElem_or]
    cases word[i] <;> cases flags[i] <;> simp
  rw [hdistrib, hflags]

end Bexec.Foundation.PackedWord
