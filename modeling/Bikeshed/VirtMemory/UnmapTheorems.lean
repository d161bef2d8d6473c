import Bikeshed.VirtMemory.Events
import Bikeshed.VirtMemory.MapTheorems

/-!
# What unmapping a page does to the tree

`virt_unmap_page` gives the frame to the allocator and then clears the entry. What the free
itself does is a hypothesis (`FreeKeepsTables`), since it depends on where the frame came from.
-/

namespace Bikeshed

open Lib

variable {α : Type} {A : PhysAllocator α} {H : PhysHeap A} {top : ℕ → Bool} {r u v w : Word}
  {k : ℕ}

/-- The free function for a frame of `n` bytes. -/
def freeFrame (A : PhysAllocator α) (n : ℕ) (p : Word) (a : α) (m : Mem) :
    Except String (α × Mem) :=
  if n = 2 ^ 21 then A.free2MIB p a m else A.free4KIB p a m

/-- Freeing the frame that `v` is mapped to leaves the tables alone, and does `X`. -/
def FreeKeepsTables (H : PhysHeap A) (top : ℕ → Bool) (r v : Word) (X : α → Mem → Prop) (a : α)
    (m : Mem) : Prop :=
  ∀ base n, walk (phys m) 3 r v = some (base, n) → ∀ a' m',
    freeFrame A n base a m = .ok (a', m') → H.Valid a' m' ∧ X a' m' ∧
      SameEntries (tables (tree (phys m) top 3 r)) (phys m) (phys m') ∧
      ∀ t ∈ tables (tree (phys m) top 3 r), page4KIB t ∈ H.own a'

/-- The frame `base` of `v` has been freed, which led to `m1`; then its entry is cleared. -/
structure Cleared (H : PhysHeap A) (top : ℕ → Bool) (r v : Word) (k : ℕ) (base : Word)
    (m : Mem) (a' : α) (m' m1 : Mem) (u : Word) : Prop where
  mapped : walk (phys m) 3 r v = some (base, 2 ^ (12 + 9 * k))
  same : SameEntries (tables (tree (phys m) top 3 r)) (phys m) (phys m1)
  before : Rooted H top r a' m1
  reaches : Reaches (phys m1) v 3 r k u
  leaf : decode k (entry (phys m1) u (index k v)) = .leaf base (2 ^ (12 + 9 * k))
  stored : m' = store64 m1 (physToVirt u + BitVec.ofNat 64 (8 * index k v)) 0
  after : Rooted H top r a' m'

def Unmaps (H : PhysHeap A) (top : ℕ → Bool) (r v : Word) (X : α → Mem → Prop) (m : Mem)
    (a' : α) (m' : Mem) : Prop :=
  ∃ k base m1 u, k ≤ 1 ∧ Cleared H top r v k base m a' m' m1 u ∧ X a' m1

/-- Clearing an entry keeps the tree rooted. -/
lemma Rooted.store_zero {a : α} {m m' : Mem} (h : Rooted H top r a m)
    (hv : top (index 3 v) = true) (hr : Reaches (phys m) v 3 r k u)
    (hm' : m' = store64 m (physToVirt u + BitVec.ofNat 64 (8 * index k v)) 0) :
    Rooted H top r a m' := by
  have hslot : slotTree (phys m') top k 0 = [] := slotTree_absent (decode_zero k)
  refine h.store hv hr hm' (slotAll_of_not_table (entryForm_of_absent (by simp))
    fun t ht => ?_) ?_ ?_
  · rw [decode_zero] at ht
    cases ht
  · rw [hslot]
    exact List.nodup_nil
  · rw [hslot]
    exact fun t ht => absurd ht List.not_mem_nil

/-- The frame of the leaf at level `k` is given to the allocator, which leads to `m1`, and the
entry is cleared. -/
structure FreesLeaf (A : PhysAllocator α) (r v : Word) (k : ℕ) (base u : Word) (m1 : Mem)
    (s s' : Machine α) : Prop where
  level : k ≤ 1
  reaches : Reaches (phys s.mem) v 3 r k u
  leaf : decode k (entry (phys s.mem) u (index k v)) = .leaf base (2 ^ (12 + 9 * k))
  free : freeFrame A (2 ^ (12 + 9 * k)) base s.heap s.mem = .ok (s'.heap, m1)
  stored : s'.mem = store64 m1 (physToVirt u + BitVec.ofNat 64 (8 * index k v)) 0
  log : ∃ L, s'.log = s.log ++ L ∧ freed L = [⟨base, 2 ^ (12 + 9 * k)⟩] ∧ allocated L = []

lemma FreesLeaf.walk {base : Word} {m1 : Mem} {s s' : Machine α}
    (h : FreesLeaf A r v k base u m1 s s') :
    walk (phys s.mem) 3 r v = some (base, 2 ^ (12 + 9 * k)) := by
  rw [h.reaches.walk_same fun i _ _ => rfl, slotWalk_leaf h.leaf]

/-- Three tables were read before the rest `L`. -/
lemma freesLeaf_of {base t1 t2 t3 : Word} {m1 : Mem} {s s' : Machine α} {L : List Event}
    (hk : k ≤ 1) (hr : Reaches (phys s.mem) v 3 r k u)
    (hleaf : decode k (entry (phys s.mem) u (index k v)) = .leaf base (2 ^ (12 + 9 * k)))
    (hfree : freeFrame A (2 ^ (12 + 9 * k)) base s.heap s.mem = .ok (s'.heap, m1))
    (hst : s'.mem = store64 m1 (physToVirt u + BitVec.ofNat 64 (8 * index k v)) 0)
    (hlog : s'.log = s.log ++ [.read t1] ++ [.read t2] ++ [.read t3] ++ L)
    (hf : freed L = [⟨base, 2 ^ (12 + 9 * k)⟩]) (ha : allocated L = []) :
    FreesLeaf A r v k base u m1 s s' := by
  refine ⟨hk, hr, hleaf, hfree, hst, .read t1 :: .read t2 :: .read t3 :: L, ?_, hf, ha⟩
  rw [hlog]
  simp

lemma wp_physFree {m : Mem} {a : α} {L : List Event} {p : Word} {Q : Unit → Machine α → Prop}
    {E : String → Prop} {free : Word → Kern α Unit} {n : ℕ} {ev : Event}
    (hfree : free p ⟨m, a, L⟩ = (freeFrame A n p a m).map fun r => ((), ⟨r.2, r.1, L ++ [ev]⟩))
    (hQ : ∀ a' m', freeFrame A n p a m = .ok (a', m') → Q () ⟨m', a', L ++ [ev]⟩)
    (hE : ∀ e, freeFrame A n p a m = .error e → E e) : wp (free p) Q E ⟨m, a, L⟩ := by
  rw [wp, hfree]
  cases h : freeFrame A n p a m with
  | ok r => exact hQ r.1 r.2 h
  | error e => exact hE e h

lemma physFree2MIB_eq {m : Mem} {a : α} {L : List Event} {p : Word} :
    physFree2MIB A p ⟨m, a, L⟩ = (freeFrame A (2 ^ (12 + 9 * 1)) p a m).map
      fun r => ((), ⟨r.2, r.1, L ++ [.free2MIB p]⟩) := by
  rw [physFree2MIB, freeFrame, if_pos rfl]
  cases A.free2MIB p a m <;> rfl

lemma physFree4KIB_eq {m : Mem} {a : α} {L : List Event} {p : Word} :
    physFree4KIB A p ⟨m, a, L⟩ = (freeFrame A (2 ^ (12 + 9 * 0)) p a m).map
      fun r => ((), ⟨r.2, r.1, L ++ [.free4KIB p]⟩) := by
  rw [physFree4KIB, freeFrame, if_neg (by norm_num)]
  cases A.free4KIB p a m <;> rfl

/-- The frame that `v` is mapped to cannot be given back. -/
def UnmapFails (A : PhysAllocator α) (r v : Word) (s : Machine α) (e : String) : Prop :=
  ∃ base n, walk (phys s.mem) 3 r v = some (base, n) ∧ freeFrame A n base s.heap s.mem = .error e

/-- `virt_unmap_page` panics if `v` is not mapped or its frame cannot be given back. -/
theorem wp_virtUnmapPage_exact {s : Machine α} (h : Rooted H top r s.heap s.mem)
    (hv : top (index 3 v) = true) :
    wp (virtUnmapPage A r v) (fun _ s' => ∃ k base u m1, FreesLeaf A r v k base u m1 s s')
      (fun e => walk (phys s.mem) 3 r v = none ∨ UnmapFails A r v s e) s := by
  have h3 : Reaches (phys s.mem) v 3 r 3 r := .refl 3 r
  have hnone : ∀ {k : ℕ} {u : Word}, Reaches (phys s.mem) v 3 r k u →
      entry (phys s.mem) u (index k v) &&& presentBit = 0 → walk (phys s.mem) 3 r v = none :=
    fun hr hp => by rw [hr.walk_same fun i _ _ => rfl, slotWalk_absent (decode_absent_iff.mpr hp)]
  rw [virtUnmapPage]
  simp only [pml4Index_eq, pdptIndex_eq]
  rw [wp_bind, wp_loadEntry, wp_ite]
  refine ⟨fun hp3 => .inl (hnone h3 hp3), fun hp3 => ?_⟩
  have h2 := h3.snoc (decode_table (l := 2) (h.reached_form hv h3) hp3 fun h0 => by cases h0)
  rw [wp_bind, wp_loadEntry, wp_ite]
  refine ⟨fun hp2 => .inl (hnone h2 hp2), fun hp2 => ?_⟩
  have h1 := h2.snoc (decode_table (l := 1) (h.reached_form hv h2) hp2 fun h0 => by cases h0)
  rw [unmapFrom]
  simp only [pdtIndex_eq, ptIndex_eq]
  show wp (loadEntry (physToVirt (pml4eToPdpt _)) _ >>= _) _ _ _
  rw [wp_bind, wp_loadEntry, wp_ite]
  refine ⟨fun hp1 => .inl (hnone h1 hp1), fun hp1 => ?_⟩
  have hform := h.reached_form hv h1
  rw [wp_ite]
  constructor
  · intro hs
    have hleaf := decode_large hform hp1 hs
    rw [wp_bind]
    refine wp_physFree physFree2MIB_eq (fun a' m' hrun => ?_) fun e he => .inr ⟨_, _, ?_, he⟩
    · rw [wp_storeEntry]
      exact ⟨1, _, _, m', freesLeaf_of le_rfl h1 hleaf hrun rfl rfl rfl rfl⟩
    · rw [h1.walk_same fun i _ _ => rfl, slotWalk_leaf hleaf]
  · intro hs
    rw [not_not] at hs
    have h0 := h1.snoc (decode_table (l := 0) hform hp1 fun _ => hs)
    show wp (loadEntry (physToVirt (pml4eToPdpt _)) _ >>= _) _ _ _
    rw [wp_bind, wp_loadEntry, wp_ite]
    refine ⟨fun hp0 => .inl (hnone h0 hp0), fun hp0 => ?_⟩
    have hleaf := decode_small (h.reached_form hv h0) hp0
    rw [wp_bind]
    refine wp_physFree physFree4KIB_eq (fun a' m' hrun => ?_) fun e he => .inr ⟨_, _, ?_, he⟩
    · rw [wp_storeEntry]
      exact ⟨0, _, _, m', freesLeaf_of zero_le_one h0 hleaf hrun rfl (List.append_assoc _ _ _)
        rfl rfl⟩
    · rw [h0.walk_same fun i _ _ => rfl, slotWalk_leaf hleaf]

/-- A frame whose free leaves the tables alone goes out of the tree. -/
lemma FreesLeaf.cleared {X : α → Mem → Prop} {base : Word} {m1 : Mem} {s s' : Machine α}
    (hl : FreesLeaf A r v k base u m1 s s') (h : Rooted H top r s.heap s.mem)
    (hv : top (index 3 v) = true) (hfree : FreeKeepsTables H top r v X s.heap s.mem) :
    Cleared H top r v k base s.mem s'.heap s'.mem m1 u ∧ X s'.heap m1 := by
  obtain ⟨hvalid, hx, hsame, hown⟩ := hfree base _ hl.walk s'.heap m1 hl.free
  have h1 := h.of_same hvalid hsame hown
  have hr1 := hl.reaches.congr hv hsame
  refine ⟨⟨hl.walk, hsame, h1, hr1, ?_, hl.stored, h1.store_zero hv hr1 hl.stored⟩, hx⟩
  rw [hsame u (hl.reaches.mem_tables hv) _ (index_lt _ _)]
  exact hl.leaf

theorem wp_virtUnmapPage {X : α → Mem → Prop} {s : Machine α}
    (h : Rooted H top r s.heap s.mem) (hv : top (index 3 v) = true)
    (hfree : FreeKeepsTables H top r v X s.heap s.mem) :
    wp (virtUnmapPage A r v) (fun _ s' => Unmaps H top r v X s.mem s'.heap s'.mem)
      (fun _ => True) s := by
  have hwp : wp (virtUnmapPage A r v) _ _ s := wp_virtUnmapPage_exact h hv
  rw [wp_iff] at hwp ⊢
  refine ⟨fun _ s' hrun => ?_, fun _ _ => trivial⟩
  obtain ⟨k, base, u, m1, hl⟩ := hwp.1 _ _ hrun
  obtain ⟨hc, hx⟩ := hl.cleared h hv hfree
  exact ⟨k, base, m1, u, hl.level, hc, hx⟩

/-! ## What has changed -/

namespace Cleared

variable {a a' : α} {m m' m1 : Mem} {base : Word}

lemma entryWrite (h : Cleared H top r v k base m a' m' m1 u) (hv : top (index 3 v) = true) :
    EntryWrite (phys m1) (phys m') (tables (tree (phys m1) top 3 r)) u (index k v) 0 := by
  rw [h.stored]
  exact h.before.entryWrite hv h.reaches 0

lemma walk_same (h : Cleared H top r v k base m a' m' m1 u) (hv : top (index 3 v) = true)
    (hw : SameDown k 3 v w) : walk (phys m') 3 r w = none := by
  rw [walk_write_same h.reaches hv h.before.nodup (h.entryWrite hv) hw,
    slotWalk_absent (decode_zero k)]

lemma walk_other (h : Cleared H top r v k base m a' m' m1 u) (hv : top (index 3 v) = true)
    (hw3 : top (index 3 w) = true) (hw : ¬ SameDown k 3 v w) :
    walk (phys m') 3 r w = walk (phys m) 3 r w := by
  rw [walk_write_other h.reaches (by norm_num) hv hw3 h.before.nodup (h.entryWrite hv) hw,
    walk_congr (by norm_num) hw3 h.same]

/-- The PML4 is not the table that is written. -/
lemma pml4 (h : Cleared H top r v k base m a' m' m1 u) (hv : top (index 3 v) = true) (hk : k ≤ 1)
    {i : ℕ} (hi : i < 512) : entry (phys m') r i = entry (phys m) r i := by
  rw [h.stored, phys_storeEntry, entry_store64_other _ _ h.before.aligned
    (h.before.reached_aligned hv h.reaches) hi (index_lt k v)
    (.inl (h.reaches.ne_root hv h.before.nodup (by omega)).symm)]
  exact h.same r self_mem_tables_tree i hi

/-- The frame is the one page that leaves the tree. -/
lemma pages (h : Cleared H top r v k base m a' m' m1 u) (hv : top (index 3 v) = true) :
    (tree (phys m) top 3 r).Perm
      (framePage base (2 ^ (12 + 9 * k)) :: tree (phys m') top 3 r) := by
  obtain ⟨kept, h1, h2⟩ := reaches_exchange h.reaches hv h.before.nodup (h.entryWrite hv)
  rw [slotTree_leaf h.leaf, tree_congr h.same] at h1
  rw [slotTree_absent (decode_zero k)] at h2
  exact h1.trans (h2.symm.cons _)

end Cleared

end Bikeshed
