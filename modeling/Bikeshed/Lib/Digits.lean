import Mathlib.Data.Nat.Digits.Lemmas

/-!
# Numerals

The digits that a loop of divisions yields: those of `Nat.digits`, but one for zero as well.
-/

namespace Bikeshed.Lib

variable {b m : ℕ}

/-- The digits of the numeral of `m`, the least significant one first. -/
def digitsOf (b m : ℕ) : List ℕ := if m = 0 then [0] else Nat.digits b m

/-- One round of the loop. -/
lemma digitsOf_eq (hb : 1 < b) (m : ℕ) :
    digitsOf b m = m % b :: if m / b = 0 then [] else digitsOf b (m / b) := by
  rcases Nat.eq_zero_or_pos m with rfl | hm
  · simp [digitsOf]
  have hdigits : digitsOf b m = m % b :: Nat.digits b (m / b) := by
    rw [digitsOf, if_neg hm.ne', Nat.digits_def' hb hm]
  rw [hdigits]
  by_cases h0 : m / b = 0
  · rw [if_pos h0, h0, Nat.digits_zero]
  · rw [if_neg h0, digitsOf, if_neg h0]

lemma digitsOf_length_pos (hb : 1 < b) (m : ℕ) : 0 < (digitsOf b m).length := by
  rw [digitsOf_eq hb]
  exact Nat.succ_pos _

/-- As many digits are enough as the base takes powers to exceed the number. -/
lemma digitsOf_length_le_iff (hb : 1 < b) {k : ℕ} (hk : 0 < k) :
    (digitsOf b m).length ≤ k ↔ m < b ^ k := by
  by_cases h0 : m = 0
  · subst h0
    have hpow : 0 < b ^ k := Nat.pow_pos (by omega)
    rw [digitsOf, if_pos rfl, List.length_singleton]
    exact ⟨fun _ => hpow, fun _ => hk⟩
  · rw [digitsOf, if_neg h0]
    exact Nat.digits_length_le_iff hb m

/-- A list with fewer elements is not the numeral. -/
lemma take_digitsOf_eq_iff (hb : 1 < b) {k : ℕ} (hk : 0 < k) :
    (digitsOf b m).take k = digitsOf b m ↔ m < b ^ k := by
  rw [List.take_eq_self_iff, digitsOf_length_le_iff hb hk]

end Bikeshed.Lib
