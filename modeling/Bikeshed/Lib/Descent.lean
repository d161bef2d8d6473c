import Mathlib.Data.Fintype.Card
import Mathlib.Data.Set.Finite.List
import Mathlib.Logic.Relation

/-!
# Searches that end

A search goes on from `u` to all `v` with `r u v`. It ends everywhere when `a` is accessible for the
reverse of `r`, which among finitely many points means that it never comes back to a point.
-/

namespace Bikeshed.Lib

open Relation

variable {α : Type} {r : α → α → Prop} {a w : α}

/-- Every search from `a` along `r` ends. -/
def Ends (r : α → α → Prop) (a : α) : Prop := Acc (fun v u => r u v) a

lemma Ends.of_reach (h : Ends r a) (hw : ReflTransGen r a w) : Ends r w := by
  induction hw with
  | refl => exact h
  | tail _ hstep ih => exact ih.inv hstep

lemma Ends.not_transGen (h : Ends r a) : ¬TransGen r a a := by
  induction h with
  | intro a _ ih =>
    intro hcycle
    obtain ⟨b, hab, hba⟩ := TransGen.head'_iff.mp hcycle
    -- the cycle can be entered at `b` as well
    exact ih b hab (TransGen.tail' hba hab)

/-- Among the points of a list a search ends unless it can come to a point on a cycle. -/
theorem ends_iff {l : List α} (hl : ∀ u v, r u v → v ∈ l) :
    Ends r a ↔ ∀ w, ReflTransGen r a w → ¬TransGen r w w := by
  refine ⟨fun h w hw => (h.of_reach hw).not_transGen, fun hacyclic => ?_⟩
  have hreach : ∀ w, ReflTransGen r a w → w ∈ a :: l := by
    intro w hw
    obtain rfl | ⟨u, -, huw⟩ := ReflTransGen.cases_tail hw
    · exact List.mem_cons_self
    · exact List.mem_cons_of_mem _ (hl u w huw)
  have hfinite : Finite {w // ReflTransGen r a w} :=
    Set.Finite.subset (List.finite_toSet (a :: l)) hreach
  let further : {w // ReflTransGen r a w} → {w // ReflTransGen r a w} → Prop :=
    fun v u => TransGen r u.1 v.1
  have htrans : IsTrans _ further := ⟨fun _ _ _ h1 h2 => h2.trans h1⟩
  have hirrefl : Std.Irrefl further := ⟨fun u => hacyclic u.1 u.2⟩
  have hwf : WellFounded further := Finite.wellFounded_of_trans_of_irrefl further
  suffices hends : ∀ u : {w // ReflTransGen r a w}, Ends r u.1 from hends ⟨a, .refl⟩
  intro u
  induction u using hwf.induction with
  | _ u ih => exact .intro _ fun v huv => ih ⟨v, u.2.tail huv⟩ (.single huv)

end Bikeshed.Lib
