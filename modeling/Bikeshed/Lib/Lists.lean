import Mathlib.Data.List.Pairwise
import Mathlib.Data.List.Perm.Lattice

/-!
# Lists cut into parts, and folded
-/

namespace Bikeshed.Lib

/-- Two functions that agree off `j` differ, over a list without repetition, by `j`'s part. -/
lemma flatMap_exchange {β : Type} {is : List ℕ} (hnd : is.Nodup) {j : ℕ} (hj : j ∈ is)
    {f g : ℕ → List β} (h : ∀ i ∈ is, i ≠ j → g i = f i) :
    ∃ rest, (is.flatMap f).Perm (f j ++ rest) ∧ (is.flatMap g).Perm (g j ++ rest) := by
  have hperm : is.Perm (j :: is.erase j) := List.perm_cons_erase hj
  have hrest : (is.erase j).flatMap g = (is.erase j).flatMap f := by
    refine List.flatMap_congr fun i hi => ?_
    rw [hnd.mem_erase_iff] at hi
    exact h i hi.2 hi.1
  refine ⟨(is.erase j).flatMap f, ?_, ?_⟩
  · exact hperm.flatMap_right f
  · rw [← hrest]
    exact hperm.flatMap_right g

/-- What each step preserves holds after a list of steps. -/
lemma foldlM_preserves {σ ε : Type} {f : σ → ε → Option σ} {R : σ → Prop}
    (hstep : ∀ s e s', R s → f s e = some s' → R s') {es : List ε} {s s' : σ} (hs : R s)
    (h : es.foldlM f s = some s') : R s' := by
  induction es generalizing s with
  | nil => exact Option.some.inj h ▸ hs
  | cons e es ih =>
    rw [List.foldlM_cons] at h
    obtain ⟨s1, h1, hrest⟩ := Option.bind_eq_some_iff.mp h
    exact ih (hstep s e s1 hs h1) hrest

end Bikeshed.Lib
