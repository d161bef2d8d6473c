import Mathlib.Algebra.GroupWithZero.Nat
import Mathlib.Algebra.Order.BigOperators.Group.List

/-!
# Queues of differences

A queue keeps for each member the time that passes between the member before it and itself.
`due δ p q` is the time at which `p` is due, the sum of the differences up to its own.
-/

namespace Bikeshed.Lib

variable {α : Type} [DecidableEq α]

def due (δ : α → ℕ) (p : α) : List α → ℕ
  | [] => 0
  | x :: rest => if x = p then δ x else δ x + due δ p rest

variable {δ γ : α → ℕ} {p x : α} {q r : List α}

@[simp] lemma due_cons_self : due δ p (p :: q) = δ p := by
  rw [due, if_pos rfl]

lemma due_cons_of_ne (h : x ≠ p) : due δ p (x :: q) = δ x + due δ p q := by
  rw [due, if_neg h]

lemma due_congr (h : ∀ x ∈ q, γ x = δ x) : due γ p q = due δ p q := by
  induction q with
  | nil => rfl
  | cons x rest ih =>
    rw [due, due, h x List.mem_cons_self, ih fun y hy => h y (List.mem_cons_of_mem x hy)]

/-- Who comes later does not matter. -/
lemma due_append_left (h : p ∈ q) : due δ p (q ++ r) = due δ p q := by
  induction q with
  | nil => exact absurd h List.not_mem_nil
  | cons x rest ih =>
    rw [List.cons_append]
    by_cases hx : x = p
    · rw [due, due, if_pos hx, if_pos hx]
    · rw [due_cons_of_ne hx, due_cons_of_ne hx,
        ih ((List.mem_cons.mp h).resolve_left (Ne.symm hx))]

/-- Everybody before has to be waited for. -/
lemma due_append_right (h : p ∉ q) : due δ p (q ++ r) = (q.map δ).sum + due δ p r := by
  induction q with
  | nil => rw [List.map_nil, List.sum_nil, Nat.zero_add, List.nil_append]
  | cons x rest ih =>
    rw [List.mem_cons, not_or] at h
    rw [List.cons_append, due_cons_of_ne (Ne.symm h.1), ih h.2, List.map_cons, List.sum_cons,
      Nat.add_assoc]

/-! ## Inserting one -/

/-- What `x` waits for, `t` in all, is taken from the one after it. -/
lemma due_insert {t : ℕ} {h : α} (hx : x ∉ q) (hxr : x ∉ h :: r)
    (hq : ∀ y ∈ q, γ y = δ y) (hr : ∀ y ∈ r, γ y = δ y) (hle : (q.map δ).sum ≤ t)
    (ht : t ≤ (q.map δ).sum + δ h) (hδx : γ x = t - (q.map δ).sum)
    (hδh : γ h = δ h - (t - (q.map δ).sum)) :
    due γ x (q ++ x :: h :: r) = t ∧
      ∀ p ∈ q ++ h :: r, due γ p (q ++ x :: h :: r) = due δ p (q ++ h :: r) := by
  have hsum : (q.map γ).sum = (q.map δ).sum := by
    rw [List.map_congr_left hq]
  constructor
  · rw [due_append_right hx, due_cons_self, hsum, hδx]
    omega
  · intro p hp
    by_cases hpq : p ∈ q
    · rw [due_append_left hpq, due_append_left hpq]
      exact due_congr hq
    have hpr := (List.mem_append.mp hp).resolve_left hpq
    have hne : x ≠ p := fun heq => hxr (heq ▸ hpr)
    rw [due_append_right hpq, due_append_right hpq, hsum, due_cons_of_ne hne]
    by_cases hph : h = p
    · subst hph
      rw [due_cons_self, due_cons_self, hδx, hδh]
      omega
    · rw [due_cons_of_ne hph, due_cons_of_ne hph, due_congr hr, hδx, hδh]
      omega

/-- At the end nothing is taken from anybody. -/
lemma due_append_singleton {t : ℕ} (hx : x ∉ q) (hq : ∀ y ∈ q, γ y = δ y)
    (hle : (q.map δ).sum ≤ t) (hδx : γ x = t - (q.map δ).sum) :
    due γ x (q ++ [x]) = t ∧ ∀ p ∈ q, due γ p (q ++ [x]) = due δ p q := by
  constructor
  · rw [due_append_right hx, due_cons_self, List.map_congr_left hq, hδx]
    omega
  · intro p hp
    rw [due_append_left hp]
    exact due_congr hq

/-! ## Time passing -/

/-- Time is taken from the head only. -/
lemma due_tick {d : ℕ} (hd : d ≤ δ x) (hδx : γ x = δ x - d)
    (hq : ∀ y ∈ q, γ y = δ y) : due γ p (x :: q) + d = due δ p (x :: q) := by
  by_cases hxp : x = p
  · subst hxp
    rw [due_cons_self, due_cons_self, hδx]
    omega
  · rw [due_cons_of_ne hxp, due_cons_of_ne hxp, due_congr hq, hδx]
    omega

end Bikeshed.Lib
