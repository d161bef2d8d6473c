import Bikeshed.PhysMemory.AllocRun

/-!
# Which pages the allocator writes to

`Touches` counts whole chunks, which is enough for the allocator's own bookkeeping. The pages in
use lie in the same chunks, so that what is promised of them needs single pages: a pool's record,
and the page that is given back.
-/

namespace Bikeshed.PhysAlloc

open Lib

variable {σ : Type} {source : ChunkSupply σ} {P P' P'' : Mem} {a c d : Word} {bs cs : List Word}
  {p q : PoolView} {l r listed full : List PoolView} {s s' : Phys σ}

/-- Only the pages at `bs` have been written to. -/
def WritesPages (bs : List Word) (P P' : Mem) : Prop :=
  ∀ x, (∀ c ∈ bs, ¬ (page4KIB c).Has x) → P' x = P x

lemma WritesPages.refl (bs : List Word) (P : Mem) : WritesPages bs P P := fun _ _ => rfl

lemma WritesPages.trans (h : WritesPages bs P P') (h' : WritesPages bs P' P'') :
    WritesPages bs P P'' :=
  fun x hx => (h' x hx).trans (h x hx)

lemma Within.writesPages (h : Within (page4KIB c) P P') (hc : c ∈ bs) : WritesPages bs P P' :=
  fun x hx => h x (hx c hc)

lemma WritesPage.writesPages (h : WritesPage c a P P') (hc : c ∈ bs) (ha : a ∈ bs) :
    WritesPages bs P P' :=
  fun x hx => h x (hx c hc) (hx a ha)

/-- Blocks apart from those pages are as they were. -/
lemma WritesPages.agreeOn (h : WritesPages bs P P') {own : List Block}
    (hown : ∀ b ∈ own, ∀ c ∈ bs, (page4KIB c).Disjoint b) : AgreeOn own P P' := by
  intro b hb x hx
  apply h x
  intro c hc
  exact (hown b hb c hc).not_has hx

/-! ## The frees -/

attribute [local irreducible] poolFree

/-- The record of the pool and the page given back. -/
lemma writes_free_listed (h : Pools (phys s.mem) s.pool4KIB (l ++ p :: r) full) (ha : a ∈ p.used)
    (hsize : p.free.length ≠ 510) :
    wp (physFree4KIB source a)
      (fun _ s' => WritesPages [p.base, a] (phys s.mem) (phys s'.mem)) (fun _ => False) s := by
  have hmem : p ∈ l ++ p :: r := List.mem_append_right _ List.mem_cons_self
  have hs := h.sound p (List.mem_append_left _ hmem)
  have hne : s.pool4KIB ≠ 0 := by
    apply h.null_iff.not.mpr
    simp
  refine wp_physFree4KIB_start (h.available p hmem).1 hs ha fun s1 _ hpool hw _ hp => ?_
  have hfull := poolFull_ok hp (hs.give ha)
  have hlen : (p.give a).free.length ≠ 511 := by
    rw [PoolView.give, List.length_cons]
    omega
  rw [decide_eq_false hlen] at hfull
  rw [hpool, if_neg hne, if_pos (by decide), wp_bind]
  apply wp_of_ok hfull
  rw [if_neg (by simp), wp_pure]
  exact hw.writesPages (by simp) (by simp)

/-- The record of the list's head as well, which gets its `prev` pointer set. -/
lemma writes_free_join (h : Pools (phys s.mem) s.pool4KIB (q :: listed) (l ++ p :: r))
    (ha : a ∈ p.used) :
    wp (physFree4KIB source a)
      (fun _ s' => WritesPages [p.base, q.base, a] (phys s.mem) (phys s'.mem))
      (fun _ => False) s := by
  have hmem : p ∈ l ++ p :: r := List.mem_append_right _ List.mem_cons_self
  have hs := h.sound p (List.mem_append_right _ hmem)
  have hq := h.sound q List.mem_cons_self
  have hne : s.pool4KIB ≠ 0 := by
    apply h.null_iff.not.mpr
    simp
  refine wp_physFree4KIB_start (h.exhausted p hmem).1 hs ha fun s1 _ hpool hw _ hp => ?_
  have hhead : s1.pool4KIB = physToVirt q.base := hpool.trans h.chained.head_eq
  rw [hpool, if_neg hne, if_neg (by decide), wp_modify]
  -- `prev` of the old head, then the record of the new one
  obtain ⟨s2, hlink, hset⟩ := linkPool_eq hs.page_aligned hhead
  have hprev := ((Sets.refl q.base s1).setField hq.page_aligned .prev (physToVirt p.base)).within
  rw [hlink]
  have h1 : WritesPages [p.base, q.base, a] (phys s.mem) (phys s1.mem) :=
    hw.writesPages (by simp) (by simp)
  have h2 : WritesPages [p.base, q.base, a] (phys s1.mem) _ := hprev.writesPages (by simp)
  have h3 : WritesPages [p.base, q.base, a] _ (phys s2.mem) := hset.within.writesPages (by simp)
  exact (h1.trans h2).trans h3

namespace AllocInv

variable {supply chunks large small : List Word} {s s' : Phys Stack}

/-- A free that does not complete a pool writes to records of pools, and to the page itself. -/
lemma writes_free4 (h : AllocInv supply s large small chunks listed full) (ha : a ∈ small)
    (hok : ¬ Completes s a) :
    wp (physFree4KIB stackSupply a)
      (fun _ s' => ∃ bs, (∀ c ∈ bs, c ∈ (listed ++ full).map PoolView.base) ∧
        WritesPages (a :: bs) (phys s.mem) (phys s'.mem)) (fun _ => True) s := by
  have hmono : ∀ {bs cs : List Word} {P P' : Mem}, WritesPages bs P P' → (∀ c ∈ bs, c ∈ cs) →
      WritesPages cs P P' := fun h hsub x hx => h x fun c hc => hx c (hsub c hc)
  rcases exists_pool_of_perm h.small ha with ⟨l, p, r, rfl, hap⟩ | ⟨l, p, r, rfl, hap⟩
  · rw [completes_iff h.pools hap] at hok
    have hwp : wp (physFree4KIB stackSupply a) _ _ s := writes_free_listed h.pools hap hok
    obtain ⟨_, s', hrun, hw⟩ := hwp.returns
    refine wp_of_ok hrun ⟨[p.base], ?_, hmono hw (by simp)⟩
    simp
  · cases listed with
    | nil =>
      have hbad : wp (physFree4KIB stackSupply a) _ _ s := wp_physFree4KIB_bad h.pools hap
      rw [wp_iff] at hbad ⊢
      exact ⟨fun _ _ hrun => (hbad.1 _ _ hrun).elim, fun _ _ => trivial⟩
    | cons q listed =>
      have hwp : wp (physFree4KIB stackSupply a) _ _ s := writes_free_join h.pools hap
      obtain ⟨_, s', hrun, hw⟩ := hwp.returns
      refine wp_of_ok hrun ⟨[p.base, q.base], ?_, hmono hw ?_⟩ <;> simp

end AllocInv

end Bikeshed.PhysAlloc
