import Mathlib.Algebra.BigOperators.Intervals
import Mathlib.Algebra.Order.BigOperators.Group.Finset

/-!
# Removing rows in place

Two counters run down over an array of rows: rows to drop are skipped, the others are copied
to the lowest place that is free, and what is left over in the end is made blank. The
counters stand for the number of rows still below them, so that 0 is the end.
-/

namespace Bikeshed.Lib

open Finset

variable {ρ : Type}

/-- `while (c >= 0 && drop[c]) --c;` -/
def skipDown (drop : ℕ → Bool) : ℕ → ℕ
  | 0 => 0
  | c + 1 => if drop c then skipDown drop c else c + 1

/-- `for (; y >= 0 && c >= 0; --y, --c) { skip; if (c < 0) break; rows[y] = rows[c]; }` -/
def compactDown (drop : ℕ → Bool) : ℕ → ℕ → (ℕ → ρ) → ℕ × (ℕ → ρ)
  | 0, _, rows => (0, rows)
  | y + 1, c, rows =>
    match skipDown drop c with
    | 0 => (y + 1, rows)
    | c + 1 => compactDown drop y c (Function.update rows y (rows c))

/-- `while (y >= 0) { rows[y] = blank; --y; }` -/
def blankDown (blank : ρ) : ℕ → (ℕ → ρ) → ℕ → ρ
  | 0, rows => rows
  | y + 1, rows => blankDown blank y (Function.update rows y blank)

/-- The rows below `n` that stay. -/
def kept (drop : ℕ → Bool) (n : ℕ) : Finset ℕ := (range n).filter fun i => drop i = false

section

variable {drop : ℕ → Bool} {blank : ρ} {rows : ℕ → ρ} {c i n y : ℕ}

lemma mem_kept : i ∈ kept drop n ↔ i < n ∧ drop i = false := by
  rw [kept, mem_filter, mem_range]

lemma kept_succ_drop (h : drop n = true) : kept drop (n + 1) = kept drop n := by
  rw [kept, kept, range_add_one, filter_insert, if_neg (by simp [h])]

lemma sum_kept_succ (h : drop n = false) (f : ℕ → ℕ) :
    ∑ i ∈ kept drop (n + 1), f i = ∑ i ∈ kept drop n, f i + f n := by
  rw [kept, kept, range_add_one, filter_insert, if_pos h, sum_insert (by simp), add_comm]

/-- Where the skip stops. -/
lemma skipDown_spec (drop : ℕ → Bool) (c : ℕ) : skipDown drop c ≤ c ∧
    kept drop (skipDown drop c) = kept drop c ∧
    ∀ i, skipDown drop c = i + 1 → drop i = false := by
  induction c with
  | zero => exact ⟨le_rfl, rfl, fun i hi => by cases hi⟩
  | succ c ih =>
    rw [skipDown]
    split
    case isTrue h =>
      obtain ⟨h1, h2, h3⟩ := ih
      exact ⟨by omega, by rw [h2, kept_succ_drop h], h3⟩
    case isFalse h =>
      refine ⟨le_rfl, rfl, fun i hi => ?_⟩
      cases hi
      simpa using h

/-- The places from `z` up to `y` hold the rows below `c` that stay; those above are as before. -/
structure Compacted (drop : ℕ → Bool) (y c : ℕ) (rows : ℕ → ρ) (z : ℕ) (rows' : ℕ → ρ) :
    Prop where
  le : z ≤ y
  above : ∀ i, y ≤ i → rows' i = rows i
  mem : ∀ i, z ≤ i → i < y → ∃ j ∈ kept drop c, rows' i = rows j
  sum : ∀ f : ρ → ℕ, ∑ i ∈ Ico z y, f (rows' i) = ∑ j ∈ kept drop c, f (rows j)

/-- A copy to place `y`, and the rest further down. -/
lemma Compacted.copy {z : ℕ} {rows' : ℕ → ρ} (hc : c ≤ y) (hkeep : drop c = false)
    (h : Compacted drop y c (Function.update rows y (rows c)) z rows') :
    Compacted drop (y + 1) (c + 1) rows z rows' := by
  -- the sources are below the places written
  have hsource : ∀ j ∈ kept drop c, Function.update rows y (rows c) j = rows j := fun j hj => by
    have hlt := (mem_kept.mp hj).1
    rw [Function.update_of_ne (by omega)]
  have htop : rows' y = rows c := by rw [h.above y le_rfl, Function.update_self]
  have hle := h.le
  refine ⟨by omega, fun i hi => ?_, fun i h1 h2 => ?_, fun f => ?_⟩
  · rw [h.above i (by omega), Function.update_of_ne (by omega)]
  · rcases Nat.lt_succ_iff_lt_or_eq.mp h2 with h2 | rfl
    · obtain ⟨j, hj, hrow⟩ := h.mem i h1 h2
      rw [hsource j hj] at hrow
      obtain ⟨hlt, hstay⟩ := mem_kept.mp hj
      exact ⟨j, mem_kept.mpr ⟨by omega, hstay⟩, hrow⟩
    · exact ⟨c, mem_kept.mpr ⟨by omega, hkeep⟩, htop⟩
  · calc ∑ i ∈ Ico z (y + 1), f (rows' i)
        = ∑ i ∈ Ico z y, f (rows' i) + f (rows' y) := sum_Ico_succ_top h.le _
      _ = ∑ j ∈ kept drop c, f (Function.update rows y (rows c) j) + f (rows c) := by
          rw [h.sum, htop]
      _ = ∑ j ∈ kept drop c, f (rows j) + f (rows c) := by
          rw [sum_congr rfl fun j hj => by rw [hsource j hj]]
      _ = ∑ j ∈ kept drop (c + 1), f (rows j) := (sum_kept_succ hkeep _).symm

lemma compacted (drop : ℕ → Bool) (y c : ℕ) (rows : ℕ → ρ) (hc : c ≤ y) :
    Compacted drop y c rows (compactDown drop y c rows).1 (compactDown drop y c rows).2 := by
  induction y generalizing c rows with
  | zero =>
    obtain rfl : c = 0 := by omega
    exact ⟨le_rfl, fun _ _ => rfl, fun i _ hi => absurd hi (Nat.not_lt_zero i), fun f => by
      simp [compactDown, kept]⟩
  | succ y ih =>
    obtain ⟨hle, hkept, hstay⟩ := skipDown_spec drop c
    rw [compactDown]
    cases hskip : skipDown drop c with
    | zero =>
      rw [hskip] at hkept
      refine ⟨le_rfl, fun _ _ => rfl, fun i h1 h2 => absurd h2 (by dsimp only at h1; omega),
        fun f => ?_⟩
      rw [Ico_self, ← hkept, kept, range_zero, filter_empty, sum_empty]
    | succ c' =>
      have h := (ih c' (Function.update rows y (rows c')) (by omega)).copy (by omega)
        (hstay c' hskip)
      rw [hskip] at hkept
      exact ⟨h.le, h.above, hkept ▸ h.mem, hkept ▸ h.sum⟩

lemma blankDown_eq (blank : ρ) (y : ℕ) (rows : ℕ → ρ) (i : ℕ) :
    blankDown blank y rows i = if i < y then blank else rows i := by
  induction y generalizing rows with
  | zero => rfl
  | succ y ih =>
    rw [blankDown, ih]
    by_cases hi : i = y
    · subst hi
      rw [if_neg (lt_irrefl i), if_pos (Nat.lt_succ_self i), Function.update_self]
    · rw [Function.update_of_ne hi]
      simp only [show i < y + 1 ↔ i < y by omega]

/-- Compaction of `n` rows and blanks for the rest. -/
def removeRows (drop : ℕ → Bool) (blank : ρ) (n : ℕ) (rows : ℕ → ρ) : ℕ → ρ :=
  blankDown blank (compactDown drop n n rows).1 (compactDown drop n n rows).2

/-- A row is blank afterwards or is one that stayed. -/
lemma removeRows_mem (hi : i < n) : removeRows drop blank n rows i = blank ∨
    ∃ j ∈ kept drop n, removeRows drop blank n rows i = rows j := by
  have h := compacted drop n n rows le_rfl
  rw [removeRows, blankDown_eq]
  split
  case isTrue => exact .inl rfl
  case isFalse hz => exact .inr (h.mem i (by omega) hi)

/-- What the rows amount to afterwards, where a blank one counts nothing. -/
theorem sum_removeRows (f : ρ → ℕ) (hblank : f blank = 0) :
    ∑ i ∈ range n, f (removeRows drop blank n rows i) = ∑ j ∈ kept drop n, f (rows j) := by
  have h := compacted drop n n rows le_rfl
  rw [← h.sum f, range_eq_Ico, ← sum_Ico_consecutive _ (Nat.zero_le _) h.le,
    sum_eq_zero (fun i hi => ?_), zero_add]
  · refine sum_congr rfl fun i hi => ?_
    rw [removeRows, blankDown_eq, if_neg (by have := (mem_Ico.mp hi).1; omega)]
  · rw [removeRows, blankDown_eq, if_pos (mem_Ico.mp hi).2, hblank]

/-- The rows that stay and those that are dropped. -/
lemma sum_kept_add (drop : ℕ → Bool) (n : ℕ) (f : ℕ → ℕ) :
    ∑ j ∈ kept drop n, f j + ∑ j ∈ (range n).filter (drop · = true), f j
      = ∑ j ∈ range n, f j := by
  have hcompl : (range n).filter (drop · = true) = (range n).filter (¬ drop · = false) :=
    filter_congr fun i _ => by simp
  rw [hcompl]
  exact sum_filter_add_sum_filter_not (range n) _ f

/-! ## As lists -/

lemma filter_skipDown (drop : ℕ → Bool) (c : ℕ) :
    (List.range (skipDown drop c)).filter (!drop ·) = (List.range c).filter (!drop ·) := by
  induction c with
  | zero => rfl
  | succ c ih =>
    rw [skipDown]
    split
    case isTrue h =>
      have hnone : [c].filter (!drop ·) = [] := by simp [h]
      rw [ih, List.range_succ, List.filter_append, hnone, List.append_nil]
    case isFalse => rfl

/-- The places from `z` up hold the rows that stay, in order. -/
lemma compactDown_list (drop : ℕ → Bool) (y c : ℕ) (rows : ℕ → ρ) (hc : c ≤ y) :
    (List.range' (compactDown drop y c rows).1 (y - (compactDown drop y c rows).1)).map
        (compactDown drop y c rows).2
      = ((List.range c).filter (!drop ·)).map rows := by
  induction y generalizing c rows with
  | zero =>
    obtain rfl : c = 0 := by omega
    rfl
  | succ y ih =>
    obtain ⟨hle, -, hstay⟩ := skipDown_spec drop c
    rw [← filter_skipDown drop c, compactDown]
    cases hskip : skipDown drop c with
    | zero => simp
    | succ c' =>
      have hkeep : drop c' = false := hstay c' hskip
      have hcomp := compacted drop y c' (Function.update rows y (rows c')) (by omega)
      have hrest := ih c' (Function.update rows y (rows c')) (by omega)
      dsimp only
      generalize compactDown drop y c' (Function.update rows y (rows c')) = r at hcomp hrest
      have hsucc : y + 1 - r.1 = y - r.1 + 1 := by have := hcomp.le; omega
      have hlast : r.1 + (y - r.1) = y := by have := hcomp.le; omega
      have hone : [c'].filter (!drop ·) = [c'] := by simp [hkeep]
      rw [hsucc, List.range'_1_concat, List.map_append, hrest, hlast, List.range_succ,
        List.filter_append, List.map_append, hone, List.map_singleton, List.map_singleton,
        hcomp.above y le_rfl, Function.update_self]
      refine congrArg (· ++ [rows c']) (List.map_congr_left fun j hj => ?_)
      -- the sources are below the places written
      have hlt := List.mem_range.mp (List.mem_of_mem_filter hj)
      rw [Function.update_of_ne (by omega)]

/-- Blank rows, as many as were dropped, and then the rows that stayed in their order. -/
theorem map_removeRows (drop : ℕ → Bool) (blank : ρ) (n : ℕ) (rows : ℕ → ρ) :
    (List.range n).map (removeRows drop blank n rows)
      = List.replicate ((List.range n).filter drop).length blank
        ++ ((List.range n).filter (!drop ·)).map rows := by
  have hlist := compactDown_list drop n n rows le_rfl
  have hle := (compacted drop n n rows le_rfl).le
  have hrows : ∀ i, removeRows drop blank n rows i
      = if i < (compactDown drop n n rows).1 then blank else (compactDown drop n n rows).2 i :=
    fun i => blankDown_eq blank _ _ i
  generalize compactDown drop n n rows = r at hlist hle hrows
  -- how many are blank follows from how many stayed
  have hcount : r.1 = ((List.range n).filter drop).length := by
    have hstay := congrArg List.length hlist
    have htotal := List.length_eq_length_filter_add (l := List.range n) drop
    rw [List.length_map, List.length_map, List.length_range'] at hstay
    rw [List.length_range] at htotal
    omega
  have hsplit : List.range n = List.range r.1 ++ List.range' r.1 (n - r.1) := by
    have happend : List.range' 0 r.1 ++ List.range' (0 + r.1) (n - r.1)
        = List.range' 0 (r.1 + (n - r.1)) := List.range'_append_1
    rw [List.range_eq_range', List.range_eq_range']
    rw [Nat.zero_add, Nat.add_sub_cancel' hle] at happend
    exact happend.symm
  have hblank : (List.range r.1).map (removeRows drop blank n rows)
      = List.replicate r.1 blank := by
    rw [List.eq_replicate_iff, List.length_map, List.length_range]
    refine ⟨rfl, fun x hx => ?_⟩
    obtain ⟨i, hi, rfl⟩ := List.mem_map.mp hx
    rw [hrows, if_pos (List.mem_range.mp hi)]
  have hkept : (List.range' r.1 (n - r.1)).map (removeRows drop blank n rows)
      = (List.range' r.1 (n - r.1)).map r.2 := List.map_congr_left fun i hi => by
    have := (List.mem_range'_1.mp hi).1
    rw [hrows, if_neg (by omega)]
  rw [← hlist, ← hcount]
  conv_lhs => rw [hsplit]
  rw [List.map_append, hblank, hkept]

end

end Bikeshed.Lib
