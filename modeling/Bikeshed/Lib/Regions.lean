import Mathlib.Data.Set.Card
import Mathlib.Order.Interval.Set.Disjoint
import Mathlib.Order.Interval.Finset.Nat
import Mathlib.Tactic.Common

/-!
# Regions of addresses

A list of regions, each given by its first address and its size, covers a set of addresses.
Disjoint regions cover as many as their sizes say.
-/

namespace Bikeshed.Lib

variable {r : ℕ × ℕ} {rs : List (ℕ × ℕ)} {a n : ℕ}

/-- A region is given by its start and its size. -/
def region (r : ℕ × ℕ) : Set ℕ := Set.Ico r.1 (r.1 + r.2)

/-- The two regions have no address in common. -/
def Parted (r r' : ℕ × ℕ) : Prop := ∀ a ∈ region r, a ∉ region r'

/-- The addresses of all the regions -/
def covered (rs : List (ℕ × ℕ)) : Set ℕ := {a | ∃ r ∈ rs, a ∈ region r}

lemma covered_nil : covered [] = ∅ := by
  ext a
  exact iff_of_false (fun ⟨_, hr, _⟩ => List.not_mem_nil hr) id

lemma covered_cons (r : ℕ × ℕ) (rs : List (ℕ × ℕ)) :
    covered (r :: rs) = region r ∪ covered rs := by
  ext a
  constructor
  · rintro ⟨r', hr', ha⟩
    obtain rfl | hr' := List.mem_cons.mp hr'
    · exact .inl ha
    · exact .inr ⟨r', hr', ha⟩
  · rintro (ha | ⟨r', hr', ha⟩)
    · exact ⟨r, List.mem_cons_self, ha⟩
    · exact ⟨r', List.mem_cons_of_mem r hr', ha⟩

lemma ncard_region (r : ℕ × ℕ) : (region r).ncard = r.2 := by
  rw [region, ← Finset.coe_Ico, Set.ncard_coe_finset, Nat.card_Ico, Nat.add_sub_cancel_left]

lemma finite_covered (rs : List (ℕ × ℕ)) : (covered rs).Finite := by
  induction rs with
  | nil => rw [covered_nil]; exact Set.finite_empty
  | cons r rs ih => rw [covered_cons]; exact (Set.finite_Ico _ _).union ih

/-- The sizes of regions without overlaps add up. -/
lemma ncard_covered (h : rs.Pairwise Parted) :
    (covered rs).ncard = (rs.map Prod.snd).sum := by
  induction rs with
  | nil => rw [covered_nil, Set.ncard_empty]; rfl
  | cons r rs ih =>
    obtain ⟨hr, hrs⟩ := List.pairwise_cons.mp h
    have hdisj : Disjoint (region r) (covered rs) :=
      Set.disjoint_left.mpr fun a ha ⟨r', hr', ha'⟩ => hr r' hr' a ha ha'
    rw [covered_cons, Set.ncard_union_eq hdisj (Set.finite_Ico _ _) (finite_covered rs),
      ncard_region, ih hrs, List.map_cons, List.sum_cons]

/-- Disjoint regions below `n` have no more than `n` addresses together. -/
lemma sum_le_of_covered (h : rs.Pairwise Parted)
    (hn : ∀ a ∈ covered rs, a < n) : (rs.map Prod.snd).sum ≤ n := by
  rw [← ncard_covered h]
  have hle := Set.ncard_le_ncard (show covered rs ⊆ Set.Ico 0 n from
    fun a ha => ⟨Nat.zero_le a, hn a ha⟩) (Set.finite_Ico _ _)
  have hcard := ncard_region (0, n)
  rw [region, Nat.zero_add] at hcard
  exact hle.trans hcard.le

end Bikeshed.Lib
