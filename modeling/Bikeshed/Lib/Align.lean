import Bikeshed.Lib.Word

/-!
# Powers of two

The usual test for a power of two, and rounding up to a multiple of one: `alignUp` may pass the
end of the address space and is then 0, which is as far away as the next multiple would be.
-/

namespace Bikeshed.Lib

variable {x p : Word} {k : ℕ}

/-- `(x + p - 1) & ~(p - 1)` -/
def alignUp (x p : Word) : Word := (x + p - 1) &&& ~~~(p - 1)

/-- `p != 0 && (p & (p - 1)) == 0` -/
def isPowerOfTwo (p : Word) : Bool := decide (p ≠ 0) && decide (p &&& (p - 1) = 0)

lemma toNat_sub_one (h : p ≠ 0) : (p - 1).toNat = p.toNat - 1 := by
  have hpos : 1 ≤ p.toNat := Nat.pos_of_ne_zero fun h0 => h (word_ext h0)
  rw [BitVec.toNat_sub_of_le (by rw [BitVec.le_def]; exact hpos)]
  rfl

/-- The usual test, which 0 does not pass -/
lemma isPowerOfTwo_iff : isPowerOfTwo p = true ↔ ∃ k < 64, p.toNat = 2 ^ k := by
  rw [isPowerOfTwo, Bool.and_eq_true, decide_eq_true_eq, decide_eq_true_eq]
  constructor
  · rintro ⟨hne, hand⟩
    have hnat : p.toNat &&& (p.toNat - 1) = 0 := by
      rw [← toNat_sub_one hne, ← BitVec.toNat_and, hand]
      rfl
    obtain ⟨k, hk⟩ := (Nat.and_sub_one_eq_zero_iff_isPowerOfTwo
      (fun h0 => hne (word_ext h0))).mp hnat
    refine ⟨k, ?_, hk⟩
    have hlt := p.isLt
    rw [hk] at hlt
    exact (Nat.pow_lt_pow_iff_right (by norm_num)).mp hlt
  · rintro ⟨k, -, hk⟩
    have hne : p ≠ 0 := by
      rintro rfl
      exact (Nat.two_pow_pos k).ne hk
    refine ⟨hne, word_ext ?_⟩
    rw [BitVec.toNat_and, toNat_sub_one hne, hk]
    simp

lemma not_sub_one (hk : k < 64) (hp : p.toNat = 2 ^ k) : ~~~(p - 1) = mask k 64 := by
  have hne : p ≠ 0 := by
    rintro rfl
    exact (Nat.two_pow_pos k).ne hp
  have hle : 2 ^ k ≤ 2 ^ 64 := Nat.pow_le_pow_right (by norm_num) hk.le
  apply word_ext
  rw [BitVec.toNat_not, toNat_sub_one hne, toNat_mask le_rfl, hp]
  have := Nat.two_pow_pos k
  omega

lemma alignUp_one (x : Word) : alignUp x 1 = x := by
  have hmask : ~~~((1 : Word) - 1) = BitVec.allOnes 64 := by decide
  rw [alignUp, hmask, BitVec.and_allOnes, BitVec.add_sub_cancel]

/-- Rounding up may wrap. -/
lemma toNat_alignUp (hk : k < 64) (hp : p.toNat = 2 ^ k) :
    (alignUp x p).toNat = (x.toNat + (2 ^ k - 1)) % 2 ^ 64 / 2 ^ k * 2 ^ k := by
  have hne : p ≠ 0 := by
    rintro rfl
    exact (Nat.two_pow_pos k).ne hp
  have hadd : (x + p - 1).toNat = (x.toNat + (2 ^ k - 1)) % 2 ^ 64 := by
    rw [add_sub_assoc, BitVec.toNat_add, toNat_sub_one hne, hp]
  rw [alignUp, not_sub_one hk hp, toNat_and_mask k 64 hk.le le_rfl, hadd, Nat.mod_mod]

/-- The result is aligned even then. -/
lemma dvd_alignUp (hk : k < 64) (hp : p.toNat = 2 ^ k) : p.toNat ∣ (alignUp x p).toNat := by
  rw [toNat_alignUp hk hp, hp]
  exact Nat.dvd_mul_left _ _

/-- The way up to the next multiple is shorter than the distance of two. -/
lemma alignUp_sub_lt (hk : k < 64) (hp : p.toNat = 2 ^ k) :
    (alignUp x p - x).toNat < 2 ^ k := by
  have hx := x.isLt
  have hpos := Nat.two_pow_pos k
  have hle : 2 ^ k ≤ 2 ^ 64 := Nat.pow_le_pow_right (by norm_num) hk.le
  rw [BitVec.toNat_sub, toNat_alignUp hk hp]
  rcases Nat.lt_or_ge (x.toNat + (2 ^ k - 1)) (2 ^ 64) with h | h
  · rw [Nat.mod_eq_of_lt h]
    have hdiv := Nat.div_add_mod (x.toNat + (2 ^ k - 1)) (2 ^ k)
    have hmod := Nat.mod_lt (x.toNat + (2 ^ k - 1)) hpos
    rw [Nat.mul_comm] at hdiv
    omega
  · have hwrap : (x.toNat + (2 ^ k - 1)) % 2 ^ 64 < 2 ^ k := by
      rw [Nat.mod_eq_sub_mod h, Nat.mod_eq_of_lt (by omega)]
      omega
    rw [Nat.div_eq_of_lt hwrap]
    omega

end Bikeshed.Lib
