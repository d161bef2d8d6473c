import Mathlib.Data.BitVec
import Mathlib.Tactic.Ring
import Mathlib.Tactic.Linarith

/-!
# 64-bit words and contiguous bit masks

`mask lo hi` is the word whose bits `lo .. hi-1` are set. The two facts every user of
a mask needs are arithmetic: `toNat_and_mask` reads a masked word as a quotient scaled
back, and `and_mask_eq_self` says which words a mask leaves alone.
-/

namespace Bikeshed.Lib

/-- A machine word -/
abbrev Word := BitVec 64
abbrev Byte := BitVec 8

/-- The word with bits `lo .. hi-1` set. -/
def mask (lo hi : ℕ) : Word := BitVec.ofNat 64 (2 ^ hi - 2 ^ lo)

/-- The bits of a mask -/
lemma testBit_mask_nat {lo hi : ℕ} (h : lo ≤ hi) (i : ℕ) :
    (2 ^ hi - 2 ^ lo).testBit i = (decide (lo ≤ i) && decide (i < hi)) := by
  have hfac : 2 ^ hi - 2 ^ lo = (2 ^ (hi - lo) - 1) * 2 ^ lo := by
    rw [Nat.sub_mul, ← Nat.pow_add, Nat.sub_add_cancel h, one_mul]
  rw [hfac, Nat.testBit_mul_two_pow, Nat.testBit_two_pow_sub_one]
  by_cases hi' : lo ≤ i
  · have hiff : i - lo < hi - lo ↔ i < hi := by omega
    simp [hi', hiff]
  · simp [hi']

/-- A mask as a number -/
lemma toNat_mask {lo hi : ℕ} (hhi : hi ≤ 64) : (mask lo hi).toNat = 2 ^ hi - 2 ^ lo := by
  have h1 : 2 ^ hi ≤ 2 ^ 64 := Nat.pow_le_pow_right (by norm_num) hhi
  have h2 : 0 < 2 ^ lo := Nat.two_pow_pos lo
  rw [mask, BitVec.toNat_ofNat]
  exact Nat.mod_eq_of_lt (by omega)

/-- Masking keeps the value below bit `hi`, rounded down to a multiple of `2 ^ lo`. -/
lemma toNat_and_mask (lo hi : ℕ) (h : lo ≤ hi) (hhi : hi ≤ 64) (x : Word) :
    (x &&& mask lo hi).toNat = x.toNat % 2 ^ hi / 2 ^ lo * 2 ^ lo := by
  rw [BitVec.toNat_and, toNat_mask hhi]
  apply Nat.eq_of_testBit_eq
  intro i
  rw [Nat.testBit_and, testBit_mask_nat h, Nat.testBit_mul_two_pow, Nat.testBit_div_two_pow,
    Nat.testBit_mod_two_pow]
  by_cases hi' : lo ≤ i
  · rw [Nat.sub_add_cancel hi']
    simp [hi', Bool.and_comm]
  · simp [hi']

/-- A word without bits outside the mask -/
lemma and_mask_eq_self (lo hi : ℕ) (h : lo ≤ hi) (hhi : hi ≤ 64) (x : Word) :
    x &&& mask lo hi = x ↔ 2 ^ lo ∣ x.toNat ∧ x.toNat < 2 ^ hi := by
  rw [← BitVec.toNat_inj, toNat_and_mask lo hi h hhi]
  constructor
  · intro he
    refine ⟨⟨_, (he.symm.trans (Nat.mul_comm _ _))⟩, ?_⟩
    have h1 : x.toNat % 2 ^ hi / 2 ^ lo * 2 ^ lo ≤ x.toNat % 2 ^ hi := Nat.div_mul_le_self _ _
    have h2 : x.toNat % 2 ^ hi < 2 ^ hi := Nat.mod_lt _ (Nat.two_pow_pos hi)
    omega
  · rintro ⟨hd, hlt⟩
    rw [Nat.mod_eq_of_lt hlt, Nat.div_mul_cancel hd]

/-- A word whose set bits all lie in `b` is cut by a further mask `c` as `b` is. -/
lemma and_of_and_eq {x b c d : Word} (hx : x &&& b = x) (hbc : b &&& c = b &&& d) :
    x &&& c = x &&& d := by
  rw [← hx, BitVec.and_assoc, hbc, ← BitVec.and_assoc]

/-- Bits of `b` only, and none of `c` among them -/
lemma and_eq_zero_of_and_eq {x b c : Word} (hx : x &&& b = x) (hbc : b &&& c = 0) :
    x &&& c = 0 := by
  rw [← hx, BitVec.and_assoc, hbc]
  simp

/-- Bits outside two masks stay outside the union of the words cut by them. -/
lemma or_and_eq {x y b : Word} (hx : x &&& b = x) (hy : y &&& b = y) :
    (x ||| y) &&& b = x ||| y := by
  rw [BitVec.and_or_distrib_right, hx, hy]

lemma and_eq_self_of_and_eq_self {x b c : Word} (hx : x &&& b = x) (hbc : b &&& c = b) :
    x &&& c = x := by
  rw [← hx, BitVec.and_assoc, hbc]

lemma word_ext {x y : Word} (h : x.toNat = y.toNat) : x = y := BitVec.eq_of_toNat_eq h

lemma toNat_ofNat_lt {n : ℕ} (h : n < 2 ^ 64) : (BitVec.ofNat 64 n).toNat = n := by
  rw [BitVec.toNat_ofNat, Nat.mod_eq_of_lt h]

/-- A sum that does not wrap -/
lemma toNat_add_ofNat {a : Word} {k : ℕ} (h : a.toNat + k < 2 ^ 64) :
    (a + BitVec.ofNat 64 k).toNat = a.toNat + k := by
  rw [BitVec.toNat_add, toNat_ofNat_lt (by omega), Nat.mod_eq_of_lt h]

end Bikeshed.Lib
