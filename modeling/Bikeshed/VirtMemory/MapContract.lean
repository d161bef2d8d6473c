import Bikeshed.VirtMemory.UnmapTheorems
import Bikeshed.VirtMemory.Bump

/-!
# The contract of `virt_map_phys`

`Built` are the tables that `virt_map_phys` and `virt_unmap_page` make out of an empty one.
On all of them a call that returns 1 translates the page as it should and leaves all other
addresses alone. What can go wrong is that addresses of the page were translated before:
`PAGE_LARGE` is not checked against 4KiB pages in the same page-directory slot.

The walk looks at bits 12..47 of an address, so a page is a set of addresses that agree in
those of these bits that select it.
-/

namespace Bikeshed

open Lib

/-- All 512 slots of the PML4. -/
def wholeTable : ℕ → Bool := fun _ => true

inductive Built {α : Type} (A : PhysAllocator α) (H : PhysHeap A) (r : Word) : Machine α → Prop
  | empty {s : Machine α} : H.Valid s.heap s.mem → 4096 ∣ r.toNat → page4KIB r ∈ H.own s.heap →
      (∀ i < 512, entry (phys s.mem) r i = 0) → Built A H r s
  | map {s s' : Machine α} {v pa flags pageSize : Word} {ret : Byte} : Built A H r s →
      pa.toNat < 2 ^ 47 → virtMapPhys A r v pa flags pageSize s = .ok (ret, s') → Built A H r s'
  | unmap {s s' : Machine α} {v : Word} : Built A H r s →
      virtUnmapPage A r v s = .ok ((), s') → Built A H r s'

/-- The size of the page that `virt_map_phys` enters. -/
def pageBytes (pageSize : Word) : ℕ := if pageSize = pageLarge then 2 ^ 21 else 2 ^ 12

/-- `w` is an address of the page of this size that contains `v`. -/
def SamePage (pageSize v w : Word) : Prop :=
  w.toNat % 2 ^ 48 / pageBytes pageSize = v.toNat % 2 ^ 48 / pageBytes pageSize

instance (pageSize v w : Word) : Decidable (SamePage pageSize v w) :=
  inferInstanceAs (Decidable (_ = _))

/-- What a call that returned 1 should have done to the translations. -/
structure MapContract (P P' : Mem) (r v physAddr pageSize : Word) : Prop where
  unmapped : ∀ w, SamePage pageSize v w → translation P r w = none
  mapped : ∀ w, SamePage pageSize v w → translation P' r w
    = some (frameBase pageSize physAddr + BitVec.ofNat 64 (w.toNat % pageBytes pageSize))
  others : ∀ w, ¬ SamePage pageSize v w → translation P' r w = translation P r w

/-- The page-directory slot of `v` holds a page table with a present entry. -/
def ShadowsPageTable (P : Mem) (r v : Word) : Prop :=
  ∃ u t i, Reaches P v 3 r 1 u ∧ decode 1 (entry P u (index 1 v)) = .table t ∧ i < 512 ∧
    entry P t i &&& presentBit ≠ 0

/-! ## Pages and indices -/

lemma pageBytes_eq (pageSize : Word) : pageBytes pageSize = 2 ^ (12 + 9 * pageLevel pageSize) := by
  rw [pageBytes, pageLevel]
  split <;> rfl

lemma samePage_iff (pageSize v w : Word) :
    SamePage pageSize v w ↔ SameDown (pageLevel pageSize) 3 v w := by
  rw [SamePage, pageBytes_eq, pageLevel]
  simp only [SameDown, index]
  split
  · constructor
    · intro h i h1 h2
      have hi : i = 1 ∨ i = 2 ∨ i = 3 := by omega
      rcases hi with rfl | rfl | rfl <;> norm_num at h ⊢ <;> omega
    · intro h
      have h1 := h 1 le_rfl (by norm_num)
      have h2 := h 2 (by norm_num) (by norm_num)
      have h3 := h 3 (by norm_num) le_rfl
      norm_num at h1 h2 h3 ⊢
      omega
  · constructor
    · intro h i h1 h2
      have hi : i = 0 ∨ i = 1 ∨ i = 2 ∨ i = 3 := by omega
      rcases hi with rfl | rfl | rfl | rfl <;> norm_num at h ⊢ <;> omega
    · intro h
      have h0 := h 0 le_rfl (by norm_num)
      have h1 := h 1 (by norm_num) (by norm_num)
      have h2 := h 2 (by norm_num) (by norm_num)
      have h3 := h 3 (by norm_num) le_rfl
      norm_num at h0 h1 h2 h3 ⊢
      omega

/-- The address of the 2MiB region of `v` that selects entry `i` of its page table. -/
def withPtIndex (v : Word) (i : ℕ) : Word :=
  BitVec.ofNat 64 (v.toNat / 2 ^ 21 * 2 ^ 21 + i * 2 ^ 12)

lemma index_withPtIndex (v : Word) {i : ℕ} (hi : i < 512) :
    index 0 (withPtIndex v i) = i ∧ ∀ j, 1 ≤ j → j ≤ 3 → index j (withPtIndex v i) = index j v := by
  have hv := v.isLt
  have hw : (withPtIndex v i).toNat = v.toNat / 2 ^ 21 * 2 ^ 21 + i * 2 ^ 12 :=
    toNat_ofNat_lt (by omega)
  refine ⟨?_, fun j h1 h2 => ?_⟩
  · rw [index, hw]
    norm_num
    omega
  · have hj : j = 1 ∨ j = 2 ∨ j = 3 := by omega
    rw [index, index, hw]
    rcases hj with rfl | rfl | rfl <;> norm_num <;> omega

lemma translation_eq_none {P : Mem} {r w : Word} : translation P r w = none ↔ walk P 3 r w = none :=
  Option.map_eq_none_iff

variable {α : Type} {A : PhysAllocator α} {H : PhysHeap A} {r v : Word} {s s' : Machine α}

/-- Frees that keep what is outstanding keep the tables. -/
lemma PhysHeap.FreesKeep.keepsTables (hf : H.FreesKeep) {a : α} {m : Mem}
    (h : Rooted H wholeTable r a m) :
    FreeKeepsTables H wholeTable r v (fun _ _ => True) a m := by
  have hfree : ∀ n base a' m', freeFrame A n base a m = .ok (a', m') →
      H.Valid a' m' ∧ (H.own a').Perm (H.own a) ∧ AgreeOn (H.own a) (phys m) (phys m') := by
    intro n base a' m' hrun
    rw [freeFrame] at hrun
    split at hrun
    · exact hf.free2MIB h.valid hrun
    · exact hf.free4KIB h.valid hrun
  intro base n _ a' m' hrun
  obtain ⟨h1, h2, h3⟩ := hfree n base a' m' hrun
  exact ⟨h1, trivial, h.same h3, fun t ht => h2.mem_iff.mpr (h.owned t ht)⟩

/-- A PML4 without entries. -/
lemma rooted_empty {a : α} {m : Mem} (hv : H.Valid a m) (hr : 4096 ∣ r.toNat)
    (hown : page4KIB r ∈ H.own a) (hzero : ∀ i < 512, entry (phys m) r i = 0) :
    Rooted H wholeTable r a m := by
  have habs : ∀ i ∈ slots wholeTable 3, decode 3 (entry (phys m) r i) = .absent :=
    fun i hi => by rw [hzero i (mem_slots.mp hi).1, decode_zero]
  have htree : tables (tree (phys m) wholeTable 3 r) = [r] := by
    rw [tree_of_absent habs, tables_cons_table, tables_nil]
  refine ⟨hv, hr, ?_, ?_, tableAll_of_absent
    (fun e he => entryForm_of_absent (decode_absent_iff.mp he)) habs⟩
  · rw [htree]
    exact List.nodup_singleton r
  · rw [htree]
    intro t ht
    exact List.mem_singleton.mp ht ▸ hown

/-- The invariant of all tables built. -/
theorem Built.rooted (hf : H.FreesKeep) (hb : Built A H r s) :
    Rooted H wholeTable r s.heap s.mem := by
  induction hb with
  | empty hv hr hown hzero => exact rooted_empty hv hr hown hzero
  | map _ hpa hrun ih =>
    obtain ⟨-, -, m1, new, u, e', he⟩ := (wp_virtMapPhys (E := fun _ => True) ih rfl hpa _ _
      (.inl fun _ => trivial)).ok hrun
    exact he.after
  | unmap _ hrun ih =>
    obtain ⟨k, base, m1, u, -, hc, -⟩ := (wp_virtUnmapPage ih rfl (hf.keepsTables ih)).ok hrun
    exact hc.after

/-- Under a large page, the slot shadows a page table iff something there was translated. -/
lemma shadows_iff {a a' : α} {m m' m1 : Mem} {base u e' : Word} {new : List Word}
    (h : Rooted H wholeTable r a m)
    (he : Entered H wholeTable r v 1 base a m a' m' m1 new u e') :
    ShadowsPageTable (phys m) r v ↔ ∃ w, SameDown 1 3 v w ∧ walk (phys m) 3 r w ≠ none := by
  constructor
  · -- a present entry of the page table translates an address that differs from `v` below
    rintro ⟨u', t, i, hr, hd, hi, hp⟩
    obtain ⟨h0, hsame⟩ := index_withPtIndex v hi
    refine ⟨withPtIndex v i, hsame, ?_⟩
    have hform : EntryForm 0 (entry (phys m) t i) := by
      have hr0 := (hr.snoc hd).of_same (w := withPtIndex v i) fun j h1 h2 => hsame j h1 h2
      have hf := h.reached_form (v := withPtIndex v i) rfl hr0
      rw [h0] at hf
      exact hf
    rw [hr.walk_same hsame, slotWalk_table hd, walk, h0, slotWalk_leaf (decode_small hform hp)]
    exact Option.some_ne_none _
  · rintro ⟨w, hsame, hw⟩
    obtain ⟨⟨b, n⟩, hwalk⟩ := Option.ne_none_iff_exists'.mp hw
    obtain ⟨u', hr, hcase⟩ := h.walk_cases rfl hwalk
    have hrv : Reaches (phys m) v 3 r 1 u' :=
      hr.of_same fun j h1 h2 => (hsame j (by omega) h2).symm
    rw [hsame 1 le_rfl (by norm_num)] at hcase
    rcases hcase with ⟨-, rfl⟩ | ⟨t, hd, hleaf, rfl⟩
    · -- a large page here would still be found in `m1`
      rw [← he.grown.walk w rfl, he.reaches.walk_same hsame] at hwalk
      cases hdec : decode 1 (entry (phys m1) u (index 1 v)) with
      | absent =>
        rw [slotWalk_absent hdec] at hwalk
        cases hwalk
      | leaf b' n' => exact absurd hdec (he.no_leaf b' n')
      | table t =>
        have hr0 := (he.reaches.snoc hdec).of_same (w := w) fun j h1 h2 => hsame j h1 h2
        rw [slotWalk_table hdec, walk] at hwalk
        have hp : entry (phys m1) t (index 0 w) &&& presentBit ≠ 0 := by
          intro hp
          rw [slotWalk_absent (decode_absent_iff.mpr hp)] at hwalk
          cases hwalk
        rw [slotWalk_leaf (decode_small (he.before.reached_form rfl hr0) hp)] at hwalk
        simp at hwalk
    · refine ⟨u', t, index 0 w, hrv, hd, index_lt 0 w, fun hp => ?_⟩
      rw [decode_absent_iff.mpr hp] at hleaf
      cases hleaf

/-! ## The contract -/

/-- A call that returned 1 on a table built by mapping and unmapping keeps its contract
exactly when it did not put a large page over a page table in use. -/
theorem virtMapPhys_contract_iff (hf : H.FreesKeep) (hb : Built A H r s) {pa flags pageSize : Word}
    (hpa : pa.toNat < 2 ^ 47)
    (hrun : virtMapPhys A r v pa flags pageSize s = .ok (1, s')) :
    MapContract (phys s.mem) (phys s'.mem) r v pa pageSize ↔
      ¬ (pageSize = pageLarge ∧ ShadowsPageTable (phys s.mem) r v) := by
  have h := hb.rooted hf
  obtain ⟨-, -, m1, new, u, e', he⟩ := (wp_virtMapPhys (E := fun _ => True) h rfl hpa flags
    pageSize (.inl fun _ => trivial)).ok hrun
  constructor
  · rintro ⟨hunmapped, -, -⟩ ⟨rfl, hshadow⟩
    obtain ⟨w, hsame, hw⟩ := (shadows_iff h he).mp hshadow
    exact hw (translation_eq_none.mp (hunmapped w ((samePage_iff _ _ _).mpr hsame)))
  · intro hno
    refine ⟨fun w hw => ?_, fun w hw => ?_, fun w hw => ?_⟩
    · rw [translation_eq_none]
      by_contra hne
      rw [samePage_iff] at hw
      by_cases hlarge : pageSize = pageLarge
      · subst hlarge
        exact hno ⟨rfl, (shadows_iff h he).mpr ⟨w, hw, hne⟩⟩
      · have hk : pageLevel pageSize = 0 := if_neg hlarge
        rw [hk] at he hw
        rw [← he.grown.walk w rfl, he.reaches.walk_same hw,
          slotWalk_absent (he.absent rfl)] at hne
        exact hne rfl
    · rw [samePage_iff] at hw
      rw [translation, he.walk_same rfl hw, pageBytes_eq]
      rfl
    · rw [samePage_iff] at hw
      rw [translation, translation, he.walk_other rfl rfl hw]

/-! ## Two calls in one 2MiB region -/

namespace Bump

lemma built_start : Built (allocator keep) (heap keep) 0x1000 start :=
  .empty valid_start (by decide) List.mem_cons_self fun i _ => load64_zero _

/-- From the empty table a 4KiB page can be mapped at 0, and nothing else is mapped then. -/
lemma map_first : ∃ s1,
    virtMapPhys (allocator keep) 0x1000 0 0x600000 pgFlagRw pageSmall start = .ok (1, s1) ∧
    Built (allocator keep) (heap keep) 0x1000 s1 ∧ 3 ≤ (heap keep).room s1.heap ∧
    translation (phys s1.mem) 0x1000 0x123 = some 0x600123 ∧
    translation (phys s1.mem) 0x1000 0x1000 = none := by
  have h := built_start.rooted freesKeep
  have hzero : ∀ w, walk (phys start.mem) 3 0x1000 w = none := fun w =>
    walk_of_absent (by rw [entry]; exact (load64_zero _).symm ▸ decode_zero 3)
  obtain ⟨ret, s1, hrun, rfl, -, m1, new, u, e', he⟩ := (wp_virtMapPhys (E := fun _ => False)
    (v := 0) (s := start) h rfl (show (0x600000 : Word).toNat < 2 ^ 47 by decide) pgFlagRw pageSmall
    (.inr ⟨by decide, hzero _, .inr rfl⟩)).returns
  refine ⟨s1, hrun, built_start.map (by decide) hrun, ?_, ?_, ?_⟩
  · have h1 := he.grown.room
    have h2 := he.length
    have h3 : (heap keep).room start.heap = 2 ^ 18 - 1 := rfl
    omega
  · rw [translation, he.walk_same rfl ((samePage_iff pageSmall 0 0x123).mp (by decide))]
    rfl
  · rw [translation_eq_none, he.walk_other rfl rfl ?_, hzero]
    intro hsame
    exact absurd (hsame 0 le_rfl (by norm_num)) (by decide)

/-- Then a page of either size can be mapped at `0x1000`. -/
lemma map_second {s1 : Machine Bump} {pageSize : Word}
    (hb : Built (allocator keep) (heap keep) 0x1000 s1) (hroom : 3 ≤ (heap keep).room s1.heap)
    (hnone : translation (phys s1.mem) 0x1000 0x1000 = none)
    (hsize : pageSize = pageLarge ∨ pageSize = pageSmall) : ∃ s2,
    virtMapPhys (allocator keep) 0x1000 0x1000 0x800000 pgFlagRw pageSize s1 = .ok (1, s2) ∧
    Maps (heap keep) wholeTable 0x1000 0x1000 (pageLevel pageSize) (frameBase pageSize 0x800000)
      s1.heap s1.mem s2.heap s2.mem := by
  obtain ⟨ret, s2, hrun, rfl, -, hm⟩ := (wp_virtMapPhys (E := fun _ => False) (v := 0x1000)
    (hb.rooted freesKeep) rfl (show (0x800000 : Word).toNat < 2 ^ 47 by decide) pgFlagRw pageSize
    (.inr ⟨hroom, translation_eq_none.mp hnone, hsize⟩)).returns
  exact ⟨s2, hrun, hm⟩

/-- The page at 0 is in the page table that a large page at `0x1000` takes the place of. -/
lemma shadows_first {s1 : Machine Bump} (hb : Built (allocator keep) (heap keep) 0x1000 s1)
    (hroom : 3 ≤ (heap keep).room s1.heap)
    (hpage : translation (phys s1.mem) 0x1000 0x123 = some 0x600123)
    (hnone : translation (phys s1.mem) 0x1000 0x1000 = none) :
    ShadowsPageTable (phys s1.mem) 0x1000 0x1000 := by
  obtain ⟨s2, -, m2, new, u, e', he⟩ := map_second hb hroom hnone (.inl rfl)
  refine (shadows_iff (hb.rooted freesKeep) he).mpr ⟨0x123, ?_, fun hw => ?_⟩
  · exact (samePage_iff pageLarge 0x1000 0x123).mp (by decide)
  · rw [translation_eq_none.mpr hw] at hpage
    cases hpage

/-- The second call returns 1, though an address of its page was translated. -/
theorem map_over_page_table : ∃ s1 s2, Built (allocator keep) (heap keep) 0x1000 s1 ∧
    virtMapPhys (allocator keep) 0x1000 0x1000 0x800000 pgFlagRw pageLarge s1 = .ok (1, s2) ∧
    ¬ MapContract (phys s1.mem) (phys s2.mem) 0x1000 0x1000 0x800000 pageLarge := by
  obtain ⟨s1, -, hb, hroom, hpage, hnone⟩ := map_first
  obtain ⟨s2, hrun, -⟩ := map_second hb hroom hnone (.inl rfl)
  refine ⟨s1, s2, hb, hrun, fun h => ?_⟩
  rw [h.unmapped 0x123 (by decide)] at hpage
  cases hpage

/-- The second call maps a 4KiB page next to the first one. -/
theorem map_contract_second : ∃ s1 s2,
    translation (phys s1.mem) 0x1000 0x123 = some 0x600123 ∧
    ShadowsPageTable (phys s1.mem) 0x1000 0x1000 ∧
    virtMapPhys (allocator keep) 0x1000 0x1000 0x800000 pgFlagRw pageSmall s1 = .ok (1, s2) ∧
    (MapContract (phys s1.mem) (phys s2.mem) 0x1000 0x1000 0x800000 pageSmall ↔
      ¬ (pageSmall = pageLarge ∧ ShadowsPageTable (phys s1.mem) 0x1000 0x1000)) := by
  obtain ⟨s1, -, hb, hroom, hpage, hnone⟩ := map_first
  obtain ⟨s2, hrun, -⟩ := map_second hb hroom hnone (.inr rfl)
  exact ⟨s1, s2, hpage, shadows_first hb hroom hpage hnone, hrun,
    virtMapPhys_contract_iff freesKeep hb (by decide) hrun⟩

end Bump

end Bikeshed
