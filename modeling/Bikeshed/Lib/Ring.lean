import Mathlib.Data.List.Range
import Mathlib.Data.Nat.ModEq
import Mathlib.Logic.Function.Basic
import Mathlib.Tactic.Common

/-!
# Ring buffers

`ring n buf first len` is what a ring of `n` cells holds: `len` values, the first of them in the
cell `first`, and after the last cell the first one follows. `ring_push` writes behind the
values, `ring_cons` reads the first.
-/

namespace Bikeshed.Lib

variable {α : Type} {n first len : ℕ} {buf : ℕ → α}

def ring (n : ℕ) (buf : ℕ → α) (first len : ℕ) : List α :=
  (List.range len).map fun i => buf ((first + i) % n)

@[simp] lemma ring_zero (n : ℕ) (buf : ℕ → α) (first : ℕ) : ring n buf first 0 = [] := rfl

@[simp] lemma length_ring (n : ℕ) (buf : ℕ → α) (first len : ℕ) :
    (ring n buf first len).length = len := by
  rw [ring, List.length_map, List.length_range]

lemma ring_succ (n : ℕ) (buf : ℕ → α) (first len : ℕ) :
    ring n buf first (len + 1) = ring n buf first len ++ [buf ((first + len) % n)] := by
  unfold ring
  rw [List.range_succ, List.map_append, List.map_singleton]

/-- The cell behind the values is not one of theirs. -/
lemma ring_update (hlen : len < n) (v : α) :
    ring n (Function.update buf ((first + len) % n) v) first len = ring n buf first len := by
  refine List.map_congr_left fun i hi => Function.update_of_ne (fun he => ?_) _ _
  have hi' := List.mem_range.mp hi
  -- two cells less than `n` apart
  have hmod : i ≡ len [MOD n] := Nat.ModEq.add_left_cancel' first he
  exact absurd (hmod.eq_of_lt_of_lt (hi'.trans hlen) hlen) hi'.ne

/-- A value goes into the cell behind the others, which is free. -/
lemma ring_push (hlen : len < n) (v : α) :
    ring n (Function.update buf ((first + len) % n) v) first (len + 1)
      = ring n buf first len ++ [v] := by
  rw [ring_succ, ring_update hlen, Function.update_self]

/-- The first value, and the ring without it. -/
lemma ring_cons (hfirst : first < n) :
    ring n buf first (len + 1) = buf first :: ring n buf ((first + 1) % n) len := by
  unfold ring
  rw [List.range_succ_eq_map, List.map_cons, List.map_map, Nat.add_zero, Nat.mod_eq_of_lt hfirst]
  congr 1
  refine List.map_congr_left fun i _ => ?_
  show buf ((first + (i + 1)) % n) = buf (((first + 1) % n + i) % n)
  rw [Nat.mod_add_mod]
  congr 2
  omega

/-- How far `w` is ahead of `r` in a ring of `n` cells. -/
lemma ahead_eq {n r w : ℕ} (hr : r < n) (hw : w < n) :
    (w + n - r) % n = if r ≤ w then w - r else w + n - r := by
  split
  · have hsplit : w + n - r = w - r + n := by omega
    rw [hsplit, Nat.add_mod_right, Nat.mod_eq_of_lt (by omega)]
  · exact Nat.mod_eq_of_lt (by omega)

lemma succ_mod_eq {n i : ℕ} (hi : i < n) : (i + 1) % n = if i + 1 = n then 0 else i + 1 := by
  split
  · next h => rw [h, Nat.mod_self]
  · exact Nat.mod_eq_of_lt (by omega)

/-- `w` moves on by a cell, and does not come to `r`. -/
lemma ahead_push {n r w : ℕ} (hr : r < n) (hw : w < n) (hroom : (w + n - r) % n + 1 < n) :
    ((w + 1) % n + n - r) % n = (w + n - r) % n + 1 := by
  have hlt : (w + 1) % n < n := Nat.mod_lt _ (by omega)
  rw [ahead_eq hr hw] at hroom ⊢
  rw [ahead_eq hr hlt, succ_mod_eq hw]
  split at hroom <;> split <;> split <;> omega

/-- `r` moves on by a cell towards `w`. -/
lemma ahead_pop {n r w : ℕ} (hr : r < n) (hw : w < n) (hne : r ≠ w) :
    (w + n - r) % n = (w + n - (r + 1) % n) % n + 1 := by
  have hlt : (r + 1) % n < n := Nat.mod_lt _ (by omega)
  rw [ahead_eq hr hw, ahead_eq hlt hw, succ_mod_eq hr]
  split <;> split <;> split <;> omega

lemma ahead_pos_iff {n r w : ℕ} (hr : r < n) (hw : w < n) : 0 < (w + n - r) % n ↔ r ≠ w := by
  rw [ahead_eq hr hw]
  split <;> omega

end Bikeshed.Lib
