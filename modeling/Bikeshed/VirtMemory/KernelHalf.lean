import Bikeshed.VirtMemory.Isolation

/-!
# The kernel half of a page table

The upper 256 slots of every PML4 lead to tables that the page tables share. What is said of a
page table as a whole splits into its user half and this part, and an operation at `v` writes to
the PML4 in the slot of `v` only, and not even there if something is present.
-/

namespace Bikeshed

open Lib

variable {α : Type} {A : PhysAllocator α} {H : PhysHeap A} {top : ℕ → Bool} {r t u v : Word}
  {l k : ℕ} {P P' P'' : Mem} {e : Word}

/-- The second half of the PML4 -/
def kernelHalf : ℕ → Bool := fun i => decide (256 ≤ i)

/-- The pages below the kernel half of the PML4 at `t`. -/
def kernelTree (P : Mem) (t : Word) : List Page :=
  (slots kernelHalf 3).flatMap fun i => slotTree P kernelHalf 3 (entry P t i)

/-- The kernel half of the page table, down to the last table, is as it was. -/
structure KernelHalfKept (P P' : Mem) (t : Word) : Prop where
  entries : ∀ i, 256 ≤ i → i < 512 → entry P' t i = entry P t i
  below : ∀ u ∈ tables (kernelTree P t), ∀ x, (page4KIB u).Has x → P' x = P x

/-! ## The two halves -/

/-- The choice of slots does not matter below the PML4. -/
lemma slotTree_top (top top' : ℕ → Bool) : ∀ (l : ℕ) {e : Word}, l ≤ 3 →
    slotTree P top l e = slotTree P top' l e
  | 0, e, _ => rfl
  | l + 1, e, hl => by
    cases hd : decode (l + 1) e with
    | absent => rw [slotTree_absent hd, slotTree_absent hd]
    | leaf a n => rw [slotTree_leaf hd, slotTree_leaf hd]
    | table u =>
      rw [slotTree_table hd, slotTree_table hd, tree, tree, slots_of_ne (by omega),
        slots_of_ne (by omega)]
      exact congrArg _ (List.flatMap_congr fun i _ => slotTree_top top top' l (by omega))

/-- Below the root all slots count anyway. -/
lemma slotAll_top {φ : ℕ → Word → Prop} (top' : ℕ → Bool) : ∀ (l : ℕ) {e : Word}, l ≤ 3 →
    SlotAll φ P top l e → SlotAll φ P top' l e
  | 0, _, _, h => h
  | l + 1, e, hl, h => by
    refine ⟨h.1, fun u hu i hi => slotAll_top top' l (by omega) (h.2 u hu i ?_)⟩
    rw [slots_of_ne (by omega)] at hi ⊢
    exact hi

lemma mem_slots_kernel {i : ℕ} : i ∈ slots kernelHalf 3 ↔ 256 ≤ i ∧ i < 512 := by
  rw [mem_slots, kernelHalf, decide_eq_true_iff]
  omega

lemma slots_wholeTable : slots wholeTable 3 = slots userHalf 3 ++ slots kernelHalf 3 := by
  decide +kernel

/-- A page table is its two halves. -/
lemma tree_wholeTable (P : Mem) (t : Word) :
    tree P wholeTable 3 t = tree P userHalf 3 t ++ kernelTree P t := by
  have hsame : ∀ top : ℕ → Bool,
      (slots top 3).flatMap (fun i => slotTree P wholeTable 3 (entry P t i))
        = (slots top 3).flatMap fun i => slotTree P top 3 (entry P t i) := fun top =>
    List.flatMap_congr fun i _ => slotTree_top wholeTable top 3 le_rfl
  rw [tree, slots_wholeTable, List.flatMap_append, hsame, hsame, tree, kernelTree,
    List.cons_append]

lemma kernelTree_aligned (hu : u ∈ tables (kernelTree P t)) : 4096 ∣ u.toNat := by
  rw [kernelTree, tables_flatMap, List.mem_flatMap] at hu
  obtain ⟨i, -, hu⟩ := hu
  exact slot_tables_aligned hu

namespace KernelHalfKept

/-- Nothing has happened. -/
lemma refl (P : Mem) (t : Word) : KernelHalfKept P P t := ⟨fun _ _ _ => rfl, fun _ _ _ _ => rfl⟩

/-- The tables of the kernel half are as they were. -/
lemma same (h : KernelHalfKept P P' t) : SameEntries (tables (kernelTree P t)) P P' :=
  fun u hu _ hi => entry_congr (kernelTree_aligned hu) hi (h.below u hu)

lemma same_slot (h : KernelHalfKept P P' t) {i : ℕ} (h1 : 256 ≤ i) (h2 : i < 512) :
    SameEntries (tables (slotTree P kernelHalf 3 (entry P t i))) P P' := by
  refine h.same.mono fun u hu => ?_
  rw [kernelTree, tables_flatMap, List.mem_flatMap]
  exact ⟨i, mem_slots_kernel.mpr ⟨h1, h2⟩, hu⟩

/-- So the kernel half has the same tables. -/
lemma tree_eq (h : KernelHalfKept P P' t) : kernelTree P' t = kernelTree P t := by
  refine List.flatMap_congr fun i hi => ?_
  obtain ⟨h1, h2⟩ := mem_slots_kernel.mp hi
  rw [h.entries i h1 h2, slotTree_congr 3 (h.same_slot h1 h2)]

lemma trans (h : KernelHalfKept P P' t) (h' : KernelHalfKept P' P'' t) :
    KernelHalfKept P P'' t := by
  have hbelow := h'.below
  rw [h.tree_eq] at hbelow
  exact ⟨fun i h1 h2 => (h'.entries i h1 h2).trans (h.entries i h1 h2),
    fun u hu x hx => (hbelow u hu x hx).trans (h.below u hu x hx)⟩

/-- Kernel addresses are translated as before. -/
lemma walk (h : KernelHalfKept P P' t) (hv : 256 ≤ index 3 v) :
    Lib.walk P' 3 t v = Lib.walk P 3 t v := by
  rw [Lib.walk, Lib.walk, h.entries _ hv (index_lt 3 v)]
  exact slotWalk_congr 3 (by omega) (h.same_slot hv (index_lt 3 v))

end KernelHalfKept

/-- The user half of a page table whose tables are all outstanding. -/
lemma Rooted.user {a : α} {m : Mem} (h : Rooted H wholeTable t a m) : Rooted H userHalf t a m := by
  have hnodup := h.nodup
  have howned := h.owned
  rw [tree_wholeTable, tables_append] at hnodup howned
  refine ⟨h.valid, h.aligned, hnodup.of_append_left, fun u hu =>
    howned u (List.mem_append_left _ hu), fun i hi => slotAll_top userHalf 3 le_rfl (h.form i ?_)⟩
  rw [slots_wholeTable]
  exact List.mem_append_left _ hi

/-- A page table of which the user half is accounted for, as in `Focused`, and the tables below the
kernel half are among the rest. -/
structure ProcessTable (H : PhysHeap A) (t : Word) (rest : List Block) (a : α) (m : Mem) :
    Prop where
  user : Focused H t rest a m
  form : TableAll EntryForm (phys m) kernelHalf 3 t
  nodup : (tables (kernelTree (phys m) t)).Nodup
  kernel : ∀ u ∈ tables (kernelTree (phys m) t), page4KIB u ∈ rest

namespace ProcessTable

variable {rest : List Block} {a : α} {m : Mem}

/-- All tables are in use, those of both halves. -/
lemma rooted (h : ProcessTable H t rest a m) : Rooted H wholeTable t a m := by
  refine ⟨h.user.valid, h.user.aligned, ?_, ?_, fun i hi => ?_⟩
  · rw [tree_wholeTable, tables_append, List.nodup_append]
    refine ⟨h.user.rooted.nodup, h.nodup, ?_⟩
    rintro u hu _ hu' rfl
    exact (h.user.apart (table_mem_blocks hu) (h.kernel u hu')).ne (by norm_num) rfl
  · rw [tree_wholeTable, tables_append]
    intro u hu
    rcases List.mem_append.mp hu with hu | hu
    · exact h.user.rooted.owned u hu
    · exact h.user.rest_own (h.kernel u hu)
  · rw [slots_wholeTable] at hi
    rcases List.mem_append.mp hi with hi | hi
    · exact slotAll_top wholeTable 3 le_rfl (h.user.form i hi)
    · exact slotAll_top wholeTable 3 le_rfl (h.form i hi)

/-- What keeps the rest and the upper slots of the PML4 keeps the kernel half. -/
lemma of_kept {a' : α} {m' : Mem} (h : ProcessTable H t rest a m) (hk : Kept H t rest m a' m')
    (he : ∀ i, 256 ≤ i → i < 512 → entry (phys m') t i = entry (phys m) t i) :
    (∃ more, ProcessTable H t (more ++ rest) a' m') ∧ KernelHalfKept (phys m) (phys m') t := by
  obtain ⟨more, hfoc, hagree⟩ := hk
  have hkept : KernelHalfKept (phys m) (phys m') t := ⟨he, fun u hu => hagree _ (h.kernel u hu)⟩
  refine ⟨⟨more, hfoc, fun i hi => ?_, ?_, ?_⟩, hkept⟩
  · obtain ⟨h1, h2⟩ := mem_slots_kernel.mp hi
    rw [he i h1 h2]
    exact slotAll_congr 3 (hkept.same_slot h1 h2) (h.form i hi)
  · rw [hkept.tree_eq]
    exact h.nodup
  · rw [hkept.tree_eq]
    exact fun u hu => List.mem_append_right _ (h.kernel u hu)

end ProcessTable

/-- `virt_reset_table` leaves the kernel half alone. -/
theorem wp_virtResetTable_kernelHalf (hf : H.FreesReturn) {kernelTable : Word} {rest : List Block}
    {s : Machine α} (h : ProcessTable H t rest s.heap s.mem) :
    wp (virtResetTable A kernelTable t)
      (fun _ s' => (∃ more, ProcessTable H t (more ++ rest) s'.heap s'.mem) ∧
        KernelHalfKept (phys s.mem) (phys s'.mem) t ∧ AgreeOn rest (phys s.mem) (phys s'.mem))
      (fun _ => True) s := by
  refine wp_weaken (wp_mono (wp_and (wp_virtResetTable_kept hf h.user) (wp_virtResetTable hf
    h.user.aligned h.user.form h.user.valid h.user.own)) ?_) fun _ _ => trivial
  rintro - s' ⟨hk, -, hr⟩
  obtain ⟨more, -, hagree⟩ := id hk
  obtain ⟨htable, hkept⟩ := h.of_kept hk hr.same
  exact ⟨htable, hkept, hagree⟩

/-! ## What mapping does to the PML4 -/

/-- Only the slot of `v` may change, and only if nothing is present in it. -/
def Pml4Kept (P P' : Mem) (r v : Word) : Prop :=
  ∀ i < 512, (i ≠ index 3 v ∨ entry P r i &&& presentBit ≠ 0) → entry P' r i = entry P r i

/-- Two steps on the same path -/
lemma Pml4Kept.trans (h : Pml4Kept P P' r v) (h' : Pml4Kept P' P'' r v) :
    Pml4Kept P P'' r v := by
  intro i hi hkept
  have he := h i hi hkept
  rw [← he] at hkept ⊢
  exact h' i hi hkept

/-- The page of the PML4 is left alone. -/
lemma Pml4Kept.of_agree (hr : 4096 ∣ r.toNat) (h : ∀ x, (page4KIB r).Has x → P' x = P x) :
    Pml4Kept P P' r v := fun _ hi _ => entry_congr hr hi h

section Mapping

variable {a : α} {m : Mem} {L : List Event} {s : Machine α}

lemma Rooted.root_owned (h : Rooted H top r a m) : page4KIB r ∈ H.own a :=
  h.owned r self_mem_tables_tree

/-- An entry of a lower table is written. -/
lemma Rooted.pml4_store (h : Rooted H top r a m) (hv : top (index 3 v) = true)
    (hr : Reaches (phys m) v 3 r k u) (hk : k < 3) (e' : Word) :
    Pml4Kept (phys m) (phys (store64 m (physToVirt u + BitVec.ofNat 64 (8 * index k v)) e'))
      r v := by
  intro i hi _
  rw [phys_storeEntry, entry_store64_other _ _ h.aligned (h.reached_aligned hv hr) hi
    (index_lt k v) (.inl (hr.ne_root hv h.nodup hk).symm)]

/-- A table is made where none was. -/
lemma wp_ensureTable_pml4 (h : Rooted H top r a m) (hv : top (index 3 v) = true)
    (hr : Reaches (phys m) v 3 r (k + 1) u) (safeFlags : Word) :
    wp (ensureTable A (physToVirt u) (index (k + 1) v) safeFlags)
      (fun _ s' => Pml4Kept (phys m) (phys s'.mem) r v) (fun _ => True) ⟨m, a, L⟩ := by
  rw [ensureTable, wp_bind, wp_loadEntry, wp_ite]
  refine ⟨fun habs => ?_, fun _ => fun _ _ _ => rfl⟩
  rw [wp_bind]
  refine wp_physAlloc4KIB H h.valid (.inl fun _ => trivial) fun p s1 hvalid _ hh _ => ?_
  have hbelow : p.toNat + 4096 ≤ 2 ^ 39 := hh.below
  rw [if_neg (physToVirt_ne_zero (by omega)), wp_bind, wp_modifyMem, wp_bind, wp_storeEntry,
    wp_pure]
  intro i hi hkept
  -- in the PML4 itself the slot written is that of `v`, and nothing is present in it
  have hother : r ≠ u ∨ i ≠ index (k + 1) v := by
    rcases hr.le.lt_or_eq with hk | hk
    · exact .inl (hr.ne_root hv h.nodup hk).symm
    · obtain rfl : k = 2 := by omega
      obtain rfl := (Reaches.refl 3 r).unique hr
      refine .inr (hkept.elim id fun hp hi => hp ?_)
      rw [hi]
      exact habs
  rw [phys_storeEntry, entry_store64_other _ _ h.aligned (h.reached_aligned hv hr) hi
    (index_lt _ _) hother]
  refine entry_congr h.aligned hi fun x hx => ?_
  rw [phys_memclr_page, fill_outside _ (by omega) ((hh.fresh _ h.root_owned).not_has hx)]
  exact hh.agree _ h.root_owned x hx

/-- Mapping adds one entry to the PML4 at most. -/
lemma wp_virtMapPhys_pml4 (h : Rooted H top r s.heap s.mem) (hv : top (index 3 v) = true)
    (pa flags pageSize : Word) :
    wp (virtMapPhys A r v pa flags pageSize)
      (fun _ s' => Pml4Kept (phys s.mem) (phys s'.mem) r v) (fun _ => True) s := by
  have htrue : ∀ (a : α) (n : ℕ), Supplied H (fun _ => True) n a := fun _ _ =>
    .inl fun _ => trivial
  rw [virtMapPhys]
  simp only [pml4Index_eq, pdptIndex_eq, pdtIndex_eq]
  rw [wp_bind]
  refine wp_weaken (wp_mono (wp_and (wp_ensureTable (k := 2) h hv (.refl 3 r)
    (fun _ h0 => absurd h0 (by decide)) (htrue _ _) flags)
    (wp_ensureTable_pml4 (k := 2) h hv (.refl 3 r) _)) ?_) fun _ _ => trivial
  rintro ok s1 ⟨⟨rfl, -, -, -, h1, -, hr1, -⟩, hk1⟩
  rw [if_pos rfl, wp_bind, wp_loadEntry, wp_bind]
  refine wp_weaken (wp_mono (wp_and (wp_ensureTable (k := 1) h1 hv hr1
    (fun _ h0 => absurd h0 (by decide)) (htrue _ _) flags)
    (wp_ensureTable_pml4 (k := 1) h1 hv hr1 _)) ?_) fun _ _ => trivial
  rintro ok s2 ⟨⟨rfl, -, -, -, h2, -, hr2, -⟩, hk2⟩
  have hk12 := hk1.trans hk2
  rw [if_pos rfl, wp_bind, wp_loadEntry, wp_bind]
  show wp (loadEntry (physToVirt (pml4eToPdpt _)) _) _ _ _
  rw [wp_loadEntry, wp_ite]
  refine ⟨fun _ => trivial, fun hfree => ?_⟩
  rw [wp_ite]
  constructor
  · intro _
    rw [mapLarge, wp_bind, wp_storeEntry, wp_bind, wp_loadEntry, wp_bind, wp_storeEntry, wp_pure,
      store64_store64_self]
    exact hk12.trans (h2.pml4_store hv hr2 (by norm_num) _)
  · intro _
    rw [wp_ite]
    refine ⟨fun _ => ?_, fun _ => trivial⟩
    rw [mapSmall, wp_bind, pdtIndex_eq]
    refine wp_weaken (wp_mono (wp_and (wp_ensureTable (k := 0) h2 hv hr2 (fun hp _ => ?_)
      (htrue _ _) flags) (wp_ensureTable_pml4 (k := 0) h2 hv hr2 _)) ?_) fun _ _ => trivial
    · by_contra hs
      exact hfree ⟨hs, hp⟩
    rintro ok s3 ⟨⟨rfl, -, -, -, h3, -, hr3, -⟩, hk3⟩
    rw [if_pos rfl, wp_bind, wp_loadEntry, wp_bind, ptIndex_eq]
    show wp (loadEntry (physToVirt (pml4eToPdpt _)) _) _ _ _
    rw [wp_loadEntry, wp_ite]
    refine ⟨fun _ => trivial, fun _ => ?_⟩
    rw [wp_bind, wp_storeEntry, wp_pure]
    exact (hk12.trans hk3).trans (h3.pml4_store hv hr3 (by norm_num) _)

/-- A frame has been handed out, and is mapped. -/
lemma wp_mapHanded_pml4 {a1 : α} {m1 : Mem} {b : Block} (h : Rooted H top r a m)
    (hv : top (index 3 v) = true) (hv1 : H.Valid a1 m1)
    (hh : Handed (H.own a) (H.own a1) (phys m) (phys m1) b) (p flags pageSize : Word) :
    wp (do
        let ret ← virtMapPhys A r v p flags pageSize
        pure (ret, p))
      (fun _ s' => Pml4Kept (phys m) (phys s'.mem) r v) (fun _ => True) ⟨m1, a1, L⟩ := by
  rw [wp_bind]
  refine wp_mono (wp_virtMapPhys_pml4 (s := ⟨m1, a1, L⟩) (h.handed hv1 hh) hv p flags pageSize)
    fun _ s' hk => ?_
  exact (Pml4Kept.of_agree h.aligned (hh.agree _ h.root_owned)).trans hk

/-- The frame has been allocated before. -/
theorem wp_virtMapPage_pml4 (h : Rooted H top r s.heap s.mem) (hv : top (index 3 v) = true)
    (flags pageSize : Word) :
    wp (virtMapPage A r v flags pageSize)
      (fun _ s' => Pml4Kept (phys s.mem) (phys s'.mem) r v) (fun _ => True) s := by
  rw [virtMapPage, wp_bind, allocFrame, wp_ite]
  refine ⟨fun _ => ?_, fun _ => ?_⟩
  · refine wp_physAlloc2MIB H h.valid (.inl fun _ => trivial) (fun _ s1 _ _ hagree => ?_)
      fun p s1 hp hv1 _ hh _ => ?_
    · rw [if_pos rfl, wp_pure]
      exact .of_agree h.aligned (hagree _ h.root_owned)
    · rw [if_neg hp]
      exact wp_mapHanded_pml4 h hv hv1 hh p flags pageSize
  · rw [wp_ite]
    refine ⟨fun _ => ?_, fun _ => trivial⟩
    refine wp_physAlloc4KIB H h.valid (.inl fun _ => trivial) fun p s1 hv1 _ hh _ => ?_
    have hpos : 0 < p.toNat := hh.pos
    rw [if_neg (by rintro rfl; exact absurd hpos (by simp))]
    exact wp_mapHanded_pml4 h hv hv1 hh p flags pageSize

end Mapping

end Bikeshed
