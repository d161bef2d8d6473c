import Bikeshed.Lib.PageTreeEntries
import Bikeshed.VirtMemory.MapContract

/-!
# The permissions of a page

The processor lets user code at a page, or lets it be written, if every entry on the way says
so, and keeps it from being executed if one of them does. `virt_map_phys` puts the flags of its
page on the tables that it has to create, and later pages below the same tables live with them.

Nothing is asked here of the physical address, so `TableForm` looks at the entries of tables
only; it is what `Rooted` says of these, and that they are writable.
-/

namespace Bikeshed

open Lib

/-- The page of `w` may be used as `flags` ask for. -/
structure Effective (P : Mem) (r w flags : Word) : Prop where
  user : (∀ e ∈ walkEntries P 3 r w, e &&& pgFlagUser ≠ 0) ↔ flags &&& pgFlagUser ≠ 0
  writable : (∀ e ∈ walkEntries P 3 r w, e &&& pgFlagRw ≠ 0) ↔ flags &&& pgFlagRw ≠ 0
  executeDisable : (∃ e ∈ walkEntries P 3 r w, e &&& pgFlagXd ≠ 0) ↔ flags &&& pgFlagXd ≠ 0

def TableForm (l : ℕ) (e : Word) : Prop :=
  l ≠ 0 → e &&& presentBit ≠ 0 → (l = 1 → e &&& sizeBit = 0) →
    e &&& tableBits = e ∧ e &&& writable ≠ 0

/-- How the entries for `v` come from those in `P`: what was present stays where it is, what is
new are tables with the flags `f`, and the entries of mapped pages are the same. -/
structure Opened (P P' : Mem) (r v f : Word) : Prop where
  kept : ∀ (i : ℕ) (e : Word), (walkEntries P 3 r v)[i]? = some e → e &&& presentBit ≠ 0 →
    (walkEntries P' 3 r v)[i]? = some e
  come : ∀ (i : ℕ) (e : Word), (walkEntries P' 3 r v)[i]? = some e → e &&& presentBit ≠ 0 →
    (walkEntries P 3 r v)[i]? = some e ∨
      ∃ p, p &&& mask 12 39 = p ∧ e = p ||| (writable ||| present ||| f)
  others : ∀ w, walk P 3 r w ≠ none →
    walkEntries P' 3 r w = walkEntries P 3 r w ∧ walk P' 3 r w = walk P 3 r w

variable {α : Type} {A : PhysAllocator α} {H : PhysHeap A} {r u v w e f : Word} {k l : ℕ}
  {E : String → Prop} {P P' P'' : Mem} {s : Machine α}

/-! ## Entries -/

lemma TableForm.decode (h : TableForm (l + 1) e) (hp : e &&& presentBit ≠ 0)
    (hs : l = 0 → e &&& sizeBit = 0) : decode (l + 1) e = .table (pml4eToPdpt e) := by
  have hbits := (h (Nat.succ_ne_zero l) hp fun hl => hs (Nat.succ_injective hl)).1
  have hsize : e &&& sizeBit = 0 := and_eq_zero_of_and_eq hbits (by decide)
  refine decode_table (fun _ => ?_) hp hs
  rcases l with _ | l
  · simp only [Nat.zero_add, hsize, ↓reduceIte]
    exact hbits
  · exact hbits

lemma decode_table_present (h : decode l e = .table u) :
    l ≠ 0 ∧ e &&& presentBit ≠ 0 ∧ (l = 1 → e &&& sizeBit = 0) := by
  refine ⟨?_, fun hp => ?_, ?_⟩
  · rintro rfl
    exact decode_zero_ne_table h
  · rw [decode_absent_iff.mpr hp] at h
    cases h
  · rintro rfl
    by_contra hs
    unfold Lib.decode at h
    simp only [hs, ↓reduceIte] at h
    split at h <;> cases h

lemma tableForm_of_absent (h : e &&& presentBit = 0) : TableForm l e := fun _ hp => absurd h hp

/-! ## Opening the way to a page -/

lemma Opened.refl (P : Mem) (r v f : Word) : Opened P P r v f :=
  ⟨fun _ _ h _ => h, fun _ _ h _ => .inl h, fun _ _ => ⟨rfl, rfl⟩⟩

lemma Opened.trans (h : Opened P P' r v f) (h' : Opened P' P'' r v f) : Opened P P'' r v f := by
  refine ⟨fun i e he hp => h'.kept i e (h.kept i e he hp) hp, fun i e he hp => ?_,
    fun w hw => ?_⟩
  · rcases h'.come i e he hp with he | hnew
    · exact h.come i e he hp
    · exact .inr hnew
  · obtain ⟨h1, h2⟩ := h.others w hw
    obtain ⟨h3, h4⟩ := h'.others w (by rw [h2]; exact hw)
    exact ⟨h3.trans h1, h4.trans h2⟩

/-- A new table in the absent slot that `v` selects. -/
lemma opened_newTable {a a' : α} {m m1 m2 m3 : Mem} {p : Word}
    (h : RootedBy TableForm H wholeTable r a m) (hr : Reaches (phys m) v 3 r (k + 1) u)
    (habs : entry (phys m) u (index (k + 1) v) &&& presentBit = 0) (hvalid : H.Valid a' m1)
    (hh : Handed (H.own a) (H.own a') (phys m) (phys m1) (page4KIB p))
    (hm2 : m2 = memclr m1 (physToVirt p) 4096) {flags : Word}
    (hm3 : m3 = store64 m2 (physToVirt u + BitVec.ofNat 64 (8 * index (k + 1) v))
      (p ||| (writable ||| present ||| (flags &&& pgSafeFlags)))) :
    RootedBy TableForm H wholeTable r a' m3 ∧
      Opened (phys m) (phys m3) r v (flags &&& pgSafeFlags) ∧
      Reaches (phys m3) v 3 r (k + 1) u ∧ Reaches (phys m3) v 3 r k p ∧
      entry (phys m3) u (index (k + 1) v)
        = p ||| (writable ||| present ||| (flags &&& pgSafeFlags)) := by
  have hbelow : p.toNat + 4096 ≤ 2 ^ 39 := hh.below
  have hmask : p &&& mask 12 39 = p := page_and_mask hh.aligned (by omega)
  obtain ⟨hf, hpres⟩ := newTable_flags flags
  obtain ⟨hdec, hform, -⟩ := decode_mk_table (l := k) hmask hf hpres
  have htable : TableForm (k + 1)
      (p ||| (writable ||| present ||| (flags &&& pgSafeFlags))) := fun _ _ _ => by
    refine ⟨joined_form hmask hf (by decide) (by decide), ?_⟩
    rw [joined_and_flags hmask (by decide), BitVec.or_assoc, BitVec.and_or_distrib_right]
    intro h0
    exact absurd (BitVec.or_eq_zero_iff.mp h0).1 (by decide)
  obtain ⟨hagree, h2, hempty, h3⟩ := h.newTable rfl hr hvalid hh hm2 hm3 hdec htable
    fun e he => tableForm_of_absent he
  have hs2 := h.same hagree
  have hr2 : Reaches (phys m2) v 3 r (k + 1) u := hr.congr rfl hs2
  have hw3 := h2.entryWrite rfl hr2 (p ||| (writable ||| present ||| (flags &&& pgSafeFlags)))
  rw [← hm3] at hw3
  have hr3 := reaches_write hr2 rfl h2.nodup hw3
  have hrp : Reaches (phys m3) v 3 r k p := hr3.snoc (by rw [hw3.written]; exact hdec)
  refine ⟨h3, ?_, hr3, hrp, hw3.written⟩
  -- the slot was absent, and so is the entry in the new table
  have hold : entry (phys m2) u (index (k + 1) v) &&& presentBit = 0 := by
    rw [hs2 u (hr.mem_tables rfl) _ (index_lt _ _)]
    exact habs
  have hlast : ∀ {j : ℕ} {x : Word}, x &&& presentBit = 0 → ∀ t, decode j x ≠ .table t :=
    fun hx t ht => (decode_table_present ht).2.1 hx
  obtain ⟨above, -, hbefore, hafter⟩ := entries_write hr2 rfl h2.nodup hw3
  have h0 := hbefore v fun _ _ _ => rfl
  have h1 := hafter v fun _ _ _ => rfl
  have hnone : walkEntries (phys m3) k p v = [0] := by
    rw [walkEntries, hempty _ (index_lt k v)]
    exact slotEntries_last (hlast (BitVec.zero_and ..))
  rw [walkEntries_congr (by norm_num) (rfl : wholeTable (index 3 v) = true) hs2,
    slotEntries_last (hlast hold)] at h0
  rw [slotEntries_table hdec, hnone] at h1
  refine ⟨fun i e he hp => ?_, fun i e he hp => ?_, fun w hw => ?_⟩
  · rw [h0, List.getElem?_append] at he
    rw [h1, List.getElem?_append]
    split at he
    · rw [if_pos ‹_›]
      exact he
    · obtain rfl := List.mem_singleton.mp (List.mem_of_getElem? he)
      exact absurd hold hp
  · rw [h1, List.getElem?_append] at he
    rw [h0, List.getElem?_append]
    split at he
    · rw [if_pos ‹_›]
      exact .inl he
    · obtain rfl | he := List.mem_cons.mp (List.mem_of_getElem? he)
      · exact .inr ⟨p, hmask, rfl⟩
      · obtain rfl := List.mem_singleton.mp he
        exact absurd (BitVec.zero_and ..) hp
  · have hwalk2 : walk (phys m2) 3 r w = walk (phys m) 3 r w :=
      walk_congr (by norm_num) (rfl : wholeTable (index 3 w) = true) hs2
    have hother : ¬ SameDown (k + 1) 3 v w := fun hsame => hw (by
      rw [← hwalk2, hr2.walk_same hsame, slotWalk_absent (decode_absent_iff.mpr hold)])
    rw [walkEntries_write_other hr2 (by norm_num) rfl rfl h2.nodup hw3 hother,
      walk_write_other hr2 (by norm_num) rfl rfl h2.nodup hw3 hother, hwalk2]
    exact ⟨walkEntries_congr (by norm_num) (rfl : wholeTable (index 3 w) = true) hs2, rfl⟩

lemma wp_ensureTable_opened {a : α} {m : Mem} {L : List Event}
    (h : RootedBy TableForm H wholeTable r a m) (hr : Reaches (phys m) v 3 r (k + 1) u)
    (hsize : entry (phys m) u (index (k + 1) v) &&& presentBit ≠ 0 → k = 0 →
      entry (phys m) u (index (k + 1) v) &&& sizeBit = 0)
    (hE : ∀ e, E e) (flags : Word) :
    wp (ensureTable A (physToVirt u) (index (k + 1) v) (flags &&& pgSafeFlags))
      (fun ok s' => ok = true ∧ RootedBy TableForm H wholeTable r s'.heap s'.mem ∧
        Opened (phys m) (phys s'.mem) r v (flags &&& pgSafeFlags) ∧
        Reaches (phys s'.mem) v 3 r k
          (pml4eToPdpt (entry (phys s'.mem) u (index (k + 1) v)))) E ⟨m, a, L⟩ := by
  rw [ensureTable, wp_bind, wp_loadEntry, wp_ite]
  constructor
  · intro habs
    rw [wp_bind]
    refine wp_physAlloc4KIB H h.valid (.inl hE) fun p s1 hvalid hroom hh _ => ?_
    have hbelow : p.toNat + 4096 ≤ 2 ^ 39 := hh.below
    rw [if_neg (physToVirt_ne_zero (by omega)), wp_bind, wp_modifyMem, wp_bind, wp_storeEntry,
      wp_pure, virtToPhys_physToVirt, BitVec.or_assoc, BitVec.or_assoc, ← BitVec.or_assoc writable]
    obtain ⟨hrooted, hopened, -, hrp, hentry⟩ := opened_newTable h hr habs hvalid hh rfl rfl
    refine ⟨rfl, hrooted, hopened, ?_⟩
    rw [hentry]
    obtain ⟨hf, hpres⟩ := newTable_flags flags
    rw [(decode_mk_table (l := k) (page_and_mask (p := p) hh.aligned (by omega))
      hf hpres).2.2]
    exact hrp
  · intro hpres
    rw [wp_pure]
    have hform := h.reached_form rfl hr
    exact ⟨rfl, h, .refl _ _ _ _, hr.snoc (hform.decode hpres (hsize hpres))⟩

/-! ## The page -/

/-- The page of `v` at level `k` gets the entry `leaf`, below the entries `above`. -/
structure PageAdded (P P' : Mem) (r v f : Word) (k : ℕ) (leaf : Word) (above : List Word) :
    Prop where
  length : above.length = 3 - k
  page : ∀ w, SameDown k 3 v w →
    walkEntries P' 3 r w = above ++ [leaf] ∧ walk P' 3 r w ≠ none
  tables : ∀ e ∈ above, e &&& presentBit ≠ 0 ∧ e &&& writable ≠ 0 ∧
    (e ∈ (walkEntries P 3 r v).take (3 - k) ∨
      ∃ p, p &&& mask 12 39 = p ∧ e = p ||| (writable ||| present ||| f))
  kept : ∀ e ∈ (walkEntries P 3 r v).take (3 - k), e &&& presentBit ≠ 0 → e ∈ above
  others : ∀ w, ¬ SameDown k 3 v w → walk P 3 r w ≠ none →
    walkEntries P' 3 r w = walkEntries P 3 r w ∧ walk P' 3 r w = walk P 3 r w

/-- The entry for the page is written into the table reached. -/
lemma pageAdded_store {a : α} {m m' : Mem} {leaf base : Word} {n : ℕ}
    (hopened : Opened P (phys m) r v f) (h : RootedBy TableForm H wholeTable r a m)
    (hr : Reaches (phys m) v 3 r k u) (hk : k ≤ 1)
    (hm' : m' = store64 m (physToVirt u + BitVec.ofNat 64 (8 * index k v)) leaf)
    (hleaf : Lib.decode k leaf = .leaf base n) :
    RootedBy TableForm H wholeTable r a m' ∧
      ∃ above, PageAdded P (phys m') r v f k leaf above := by
  have hnot : ∀ t, Lib.decode k leaf ≠ .table t := fun t ht => by
    rw [hleaf] at ht
    cases ht
  have hform : TableForm k leaf := fun h0 hp hs => by
    obtain rfl : k = 1 := by omega
    unfold Lib.decode at hleaf
    simp only [hp, hs rfl, ↓reduceIte] at hleaf
    cases hleaf
  have hslot : tables (slotTree (phys m') wholeTable k leaf) = [] := by
    rw [slotTree_leaf hleaf, tables_cons_frame, tables_nil]
  have hrooted : RootedBy TableForm H wholeTable r a m' := by
    refine h.store rfl hr hm' (slotAll_of_not_table hform hnot) ?_ ?_
    · rw [hslot]
      exact List.nodup_nil
    · rw [hslot]
      exact fun t ht => absurd ht List.not_mem_nil
  have hw := h.entryWrite rfl hr leaf
  rw [← hm'] at hw
  obtain ⟨above, ⟨hlen, hpassed⟩, hbefore, hafter⟩ := entries_write hr rfl h.nodup hw
  have hv := hbefore v fun _ _ _ => rfl
  refine ⟨hrooted, above, hlen, fun w hsame => ⟨?_, ?_⟩, fun e he => ?_, fun e he hp => ?_,
    fun w hsame hmapped => ?_⟩
  · rw [hafter w hsame, slotEntries_last hnot]
  · rw [walk_write_same hr rfl h.nodup hw hsame, slotWalk_leaf hleaf]
    exact Option.some_ne_none _
  · obtain ⟨j, t, s, hrt, rfl, hd⟩ := hpassed e he
    obtain ⟨hj, hp, hs⟩ := decode_table_present hd
    refine ⟨hp, (h.reached_form rfl hrt hj hp hs).2, ?_⟩
    obtain ⟨i, hi, hie⟩ := List.mem_iff_getElem.mp he
    have hsome : (walkEntries (phys m) 3 r v)[i]? = some (entry (phys m) t (index j v)) := by
      rw [hv, List.getElem?_append_left hi, List.getElem?_eq_getElem hi, hie]
    rcases hopened.come i _ hsome hp with hold | hnew
    · refine .inl (List.mem_of_getElem? (i := i) ?_)
      rw [List.getElem?_take_of_lt (by omega), hold]
    · exact .inr hnew
  · obtain ⟨i, hi⟩ := List.mem_iff_getElem?.mp he
    have hlt : i < 3 - k := by
      by_contra hge
      rw [List.getElem?_take_eq_none (by omega)] at hi
      cases hi
    rw [List.getElem?_take_of_lt hlt] at hi
    have hnow := hopened.kept i e hi hp
    rw [hv, List.getElem?_append_left (by omega)] at hnow
    exact List.mem_of_getElem? hnow
  · obtain ⟨h1, h2⟩ := hopened.others w hmapped
    rw [walkEntries_write_other hr (by norm_num) rfl rfl h.nodup hw hsame,
      walk_write_other hr (by norm_num) rfl rfl h.nodup hw hsame]
    exact ⟨h1, h2⟩

/-- The bits beside the address and the flags. -/
def sizeBits (pageSize : Word) : Word :=
  if pageSize = pageLarge then pdtPageSize ||| present else present

/-- The entry that `virt_map_phys` makes for the page. -/
def pageEntry (physAddr f pageSize : Word) : Word :=
  frameBase pageSize physAddr ||| sizeBits pageSize ||| f

lemma sizeBits_present (pageSize : Word) : sizeBits pageSize &&& presentBit ≠ 0 := by
  unfold sizeBits
  split <;> decide

lemma pageEntry_present (pa f pageSize : Word) : pageEntry pa f pageSize &&& presentBit ≠ 0 := by
  unfold pageEntry
  rw [BitVec.and_or_distrib_right, BitVec.and_or_distrib_right]
  intro h0
  exact sizeBits_present pageSize
    (BitVec.or_eq_zero_iff.mp (BitVec.or_eq_zero_iff.mp h0).1).2

lemma decode_pageEntry (pa f pageSize : Word) : ∃ base n,
    Lib.decode (pageLevel pageSize) (pageEntry pa f pageSize) = .leaf base n := by
  have hp := pageEntry_present pa f pageSize
  by_cases hl : pageSize = pageLarge
  · have hs : pageEntry pa f pageSize &&& sizeBit ≠ 0 := by
      unfold pageEntry sizeBits
      rw [if_pos hl, BitVec.and_or_distrib_right, BitVec.and_or_distrib_right]
      intro h0
      exact absurd (BitVec.or_eq_zero_iff.mp (BitVec.or_eq_zero_iff.mp h0).1).2 (by decide)
    refine ⟨pageEntry pa f pageSize &&& mask 21 52, 2 ^ 21, ?_⟩
    rw [pageLevel, if_pos hl]
    simp only [Lib.decode, hp, hs, ↓reduceIte]
  · refine ⟨pageEntry pa f pageSize &&& mask 12 52, 2 ^ 12, ?_⟩
    rw [pageLevel, if_neg hl]
    simp only [Lib.decode, hp, ↓reduceIte]

theorem wp_virtMapPhys_added (h : RootedBy TableForm H wholeTable r s.heap s.mem)
    (hE : ∀ e, E e) (v pa flags pageSize : Word) :
    wp (virtMapPhys A r v pa flags pageSize)
      (fun ret s' => ret = 1 ∧ RootedBy TableForm H wholeTable r s'.heap s'.mem ∧
        ∃ above, PageAdded (phys s.mem) (phys s'.mem) r v (flags &&& pgSafeFlags)
          (pageLevel pageSize) (pageEntry pa (flags &&& pgSafeFlags) pageSize) above) E s := by
  rw [virtMapPhys]
  simp only [pml4Index_eq, pdptIndex_eq, pdtIndex_eq]
  rw [wp_bind]
  refine wp_mono (wp_ensureTable_opened (k := 2) h (.refl 3 r)
    (fun _ h0 => absurd h0 (by decide)) hE flags) ?_
  rintro ok s1 ⟨rfl, h1, ho1, hr1⟩
  rw [if_pos rfl, wp_bind, wp_loadEntry, wp_bind]
  refine wp_mono (wp_ensureTable_opened (k := 1) h1 hr1
    (fun _ h0 => absurd h0 (by decide)) hE flags) ?_
  rintro ok s2 ⟨rfl, h2, ho2, hr2⟩
  have ho := ho1.trans ho2
  rw [if_pos rfl, wp_bind, wp_loadEntry, wp_bind]
  show wp (loadEntry (physToVirt (pml4eToPdpt _)) _) _ _ _
  rw [wp_loadEntry, wp_ite]
  refine ⟨fun _ => by rw [wp_panicWith]; exact hE _, fun hfree => ?_⟩
  rw [wp_ite]
  constructor
  · rintro rfl
    -- a large page
    rw [mapLarge, wp_bind, wp_storeEntry, wp_bind, wp_loadEntry, wp_bind, wp_storeEntry, wp_pure,
      phys_storeEntry, entry_store64_self, store64_store64_self]
    have hentry : mask2MIB pa ||| pdtPageSize ||| present ||| (flags &&& pgSafeFlags)
        ||| (flags &&& pgSafeFlags) = pageEntry pa (flags &&& pgSafeFlags) pageLarge := by
      unfold pageEntry frameBase sizeBits
      rw [if_pos rfl, if_pos rfl, BitVec.or_assoc, BitVec.or_self, BitVec.or_assoc (mask2MIB pa)]
    obtain ⟨base, n, hleaf⟩ := decode_pageEntry pa (flags &&& pgSafeFlags) pageLarge
    rw [hentry]
    exact ⟨rfl, pageAdded_store ho h2 hr2 le_rfl rfl hleaf⟩
  · intro hlarge
    rw [wp_ite]
    refine ⟨?_, fun _ => by rw [wp_panicWith]; exact hE _⟩
    rintro rfl
    -- a small page, in a page table
    rw [mapSmall, wp_bind, pdtIndex_eq]
    refine wp_mono (wp_ensureTable_opened (k := 0) h2 hr2 (fun hp _ => ?_) hE flags) ?_
    · by_contra hs
      exact hfree ⟨hs, hp⟩
    rintro ok s3 ⟨rfl, h3, ho3, hr3⟩
    rw [if_pos rfl, wp_bind, wp_loadEntry, wp_bind, ptIndex_eq]
    show wp (loadEntry (physToVirt (pml4eToPdpt _)) _) _ _ _
    rw [wp_loadEntry, wp_ite]
    refine ⟨fun _ => by rw [wp_panicWith]; exact hE _, fun _ => ?_⟩
    rw [wp_bind, wp_storeEntry, wp_pure]
    obtain ⟨base, n, hleaf⟩ := decode_pageEntry pa (flags &&& pgSafeFlags) pageSmall
    exact ⟨rfl, pageAdded_store (ho.trans ho3) h3 hr3 (Nat.zero_le 1) rfl hleaf⟩

/-! ## What the flags come to -/

/-- The arguments of `virt_map_phys` after the table. -/
structure MapCall where
  virtAddr : Word
  physAddr : Word
  flags : Word
  pageSize : Word

/-- The tables that are already there on the way to the page let user code through if it is
asked for, and neither they nor the physical address keep the page from being executed if that is
not asked for. -/
structure Suits (P : Mem) (r : Word) (c : MapCall) : Prop where
  user : c.flags &&& pgFlagUser ≠ 0 →
    ∀ e ∈ (walkEntries P 3 r c.virtAddr).take (3 - pageLevel c.pageSize), e &&& present ≠ 0 →
      e &&& pgFlagUser ≠ 0
  executable : c.flags &&& pgFlagXd = 0 →
    ∀ e ∈ (walkEntries P 3 r c.virtAddr).take (3 - pageLevel c.pageSize), e &&& present ≠ 0 →
      e &&& pgFlagXd = 0
  address : c.flags &&& pgFlagXd = 0 → c.physAddr &&& pgFlagXd = 0

variable {c : MapCall} {above : List Word} {flags b : Word}

/-- Neither the address nor the bits beside it are among the low flags. -/
lemma pageEntry_and (pa f pageSize : Word) (hb : (0xFFFFFFFFFFFFF081 : Word) &&& b = 0) :
    pageEntry pa f pageSize &&& b = f &&& b := by
  have hframe : frameBase pageSize pa &&& 0xFFFFFFFFFFFFF081 = frameBase pageSize pa := by
    unfold frameBase
    split
    · exact BitVec.and_assoc pa _ _
    · exact BitVec.and_assoc pa _ _
  have hsize : sizeBits pageSize &&& 0xFFFFFFFFFFFFF081 = sizeBits pageSize := by
    unfold sizeBits
    split <;> decide
  exact joined_and_flags (or_and_eq hframe hsize) hb

lemma pageEntry_xd (pa f pageSize : Word) :
    pageEntry pa f pageSize &&& pgFlagXd = pa &&& pgFlagXd ||| f &&& pgFlagXd := by
  have hframe : frameBase pageSize pa &&& pgFlagXd = pa &&& pgFlagXd := by
    unfold frameBase
    split
    · exact BitVec.and_assoc pa _ _
    · exact BitVec.and_assoc pa _ _
  have hsize : sizeBits pageSize &&& pgFlagXd = 0 := by
    unfold sizeBits
    split <;> decide
  unfold pageEntry
  rw [BitVec.and_or_distrib_right, BitVec.and_or_distrib_right, hframe, hsize]
  simp

/-- The flags of a new table. -/
lemma newTable_and {p : Word} (hp : p &&& mask 12 39 = p) (hb : mask 12 39 &&& b = 0)
    (hw : (writable ||| present) &&& b = 0) :
    (p ||| (writable ||| present ||| f)) &&& b = f &&& b := by
  rw [joined_and_flags hp hb, BitVec.and_or_distrib_right, hw]
  simp

lemma Effective.congr (h : Effective P r w flags)
    (hentries : walkEntries P' 3 r w = walkEntries P 3 r w) : Effective P' r w flags := by
  obtain ⟨h1, h2, h3⟩ := h
  rw [← hentries] at h1 h2 h3
  exact ⟨h1, h2, h3⟩

/-- The page gets what is asked for if the tables on the way suit it, and only then. -/
lemma PageAdded.effective_iff
    (h : PageAdded P P' r c.virtAddr c.flags (pageLevel c.pageSize)
      (pageEntry c.physAddr c.flags c.pageSize) above) :
    (∀ w, SameDown (pageLevel c.pageSize) 3 c.virtAddr w → Effective P' r w c.flags)
      ↔ Suits P r c := by
  have huser : pageEntry c.physAddr c.flags c.pageSize &&& pgFlagUser = c.flags &&& pgFlagUser :=
    pageEntry_and _ _ _ (by decide)
  have hrw : pageEntry c.physAddr c.flags c.pageSize &&& pgFlagRw = c.flags &&& pgFlagRw :=
    pageEntry_and _ _ _ (by decide)
  have hxd := pageEntry_xd c.physAddr c.flags c.pageSize
  constructor
  · intro hall
    have hv := hall c.virtAddr fun _ _ _ => rfl
    have hentries := (h.page c.virtAddr fun _ _ _ => rfl).1
    refine ⟨fun hf e he hp => ?_, fun hf e he hp => ?_, fun hf => ?_⟩
    · refine hv.user.mpr hf e ?_
      rw [hentries]
      exact List.mem_append_left _ (h.kept e he hp)
    · by_contra hne
      refine hv.executeDisable.mp ⟨e, ?_, hne⟩ hf
      rw [hentries]
      exact List.mem_append_left _ (h.kept e he hp)
    · by_contra hne
      refine hv.executeDisable.mp ⟨pageEntry c.physAddr c.flags c.pageSize, ?_, ?_⟩ hf
      · rw [hentries]
        exact List.mem_append_right _ (List.mem_singleton_self _)
      · rw [hxd]
        exact fun h0 => hne (BitVec.or_eq_zero_iff.mp h0).1
  · intro hs w hsame
    have hentries := (h.page w hsame).1
    have hleaf : pageEntry c.physAddr c.flags c.pageSize ∈ walkEntries P' 3 r w := by
      rw [hentries]
      exact List.mem_append_right _ (List.mem_singleton_self _)
    refine ⟨⟨fun hall => ?_, fun hf e he => ?_⟩, ⟨fun hall => ?_, fun hf e he => ?_⟩,
      ⟨fun ⟨e, he, hne⟩ hf => hne ?_, fun hf => ⟨_, hleaf, ?_⟩⟩⟩
    · rw [← huser]
      exact hall _ hleaf
    · rw [hentries] at he
      rcases List.mem_append.mp he with he | he
      · obtain ⟨hp, -, hold | ⟨p, hp', rfl⟩⟩ := h.tables e he
        · exact hs.user hf e hold hp
        · rw [newTable_and hp' (by decide) (by decide)]
          exact hf
      · rw [List.mem_singleton.mp he, huser]
        exact hf
    · rw [← hrw]
      exact hall _ hleaf
    · rw [hentries] at he
      rcases List.mem_append.mp he with he | he
      · exact (h.tables e he).2.1
      · rw [List.mem_singleton.mp he, hrw]
        exact hf
    · rw [hentries] at he
      rcases List.mem_append.mp he with he | he
      · obtain ⟨hp, -, hold | ⟨p, hp', rfl⟩⟩ := h.tables e he
        · exact hs.executable hf e hold hp
        · rw [newTable_and hp' (by decide) (by decide)]
          exact hf
      · rw [List.mem_singleton.mp he, hxd, hs.address hf, hf]
        rfl
    · rw [hxd]
      exact fun h0 => hf (BitVec.or_eq_zero_iff.mp h0).2

/-! ## Runs -/

/-- The calls of `virt_map_phys` that meet `ok`, from an empty table. `asked` has the flags of the
last call that mapped the page of an address. -/
inductive Mapping {α : Type} (A : PhysAllocator α) (H : PhysHeap A) (ok : Mem → MapCall → Prop)
    (r : Word) : Machine α → (Word → Option Word) → Prop
  | empty {s : Machine α} : H.Valid s.heap s.mem → 4096 ∣ r.toNat → page4KIB r ∈ H.own s.heap →
      (∀ i < 512, entry (phys s.mem) r i = 0) → Mapping A H ok r s fun _ => none
  | map {s s' : Machine α} {asked : Word → Option Word} {c : MapCall} {ret : Byte} :
      Mapping A H ok r s asked → c.flags &&& pgSafeFlags = c.flags → ok (phys s.mem) c →
      virtMapPhys A r c.virtAddr c.physAddr c.flags c.pageSize s = .ok (ret, s') →
      Mapping A H ok r s' fun w =>
        if ret = 1 ∧ SamePage c.pageSize c.virtAddr w then some c.flags else asked w

lemma virtMapPhys_added (h : RootedBy TableForm H wholeTable r s.heap s.mem)
    (hc : c.flags &&& pgSafeFlags = c.flags) {ret : Byte} {s' : Machine α}
    (hrun : virtMapPhys A r c.virtAddr c.physAddr c.flags c.pageSize s = .ok (ret, s')) :
    ret = 1 ∧ RootedBy TableForm H wholeTable r s'.heap s'.mem ∧
      ∃ above, PageAdded (phys s.mem) (phys s'.mem) r c.virtAddr c.flags (pageLevel c.pageSize)
        (pageEntry c.physAddr c.flags c.pageSize) above := by
  have hwp := wp_virtMapPhys_added (E := fun _ => True) h (fun _ => trivial) c.virtAddr c.physAddr
    c.flags c.pageSize
  rw [hc] at hwp
  exact hwp.ok hrun

/-- Every page asked for is mapped, with the permissions asked for. -/
lemma Mapping.inv {asked : Word → Option Word} (h : Mapping A H (Suits · r ·) r s asked) :
    RootedBy TableForm H wholeTable r s.heap s.mem ∧
      ∀ w flags, asked w = some flags →
        walk (phys s.mem) 3 r w ≠ none ∧ Effective (phys s.mem) r w flags := by
  induction h with
  | empty hv hr hown hzero =>
    have hrooted := rooted_empty hv hr hown hzero
    have habs : ∀ i ∈ slots wholeTable 3, decode 3 (entry (phys _) r i) = .absent :=
      fun i hi => by rw [hzero i (mem_slots.mp hi).1, decode_zero]
    exact ⟨⟨hv, hr, hrooted.nodup, hrooted.owned, tableAll_of_absent
      (fun e he => tableForm_of_absent (decode_absent_iff.mp he)) habs⟩, fun _ _ h => by cases h⟩
  | @map s s' asked c ret _ hc hs hrun ih =>
    obtain ⟨hrooted, hall⟩ := ih
    obtain ⟨hret, hrooted', above, hadd⟩ := virtMapPhys_added hrooted hc hrun
    refine ⟨hrooted', fun w flags hw => ?_⟩
    dsimp only at hw
    split at hw
    · rename_i hsame
      have hdown := (samePage_iff _ _ _).mp hsame.2
      obtain rfl := Option.some.inj hw
      exact ⟨(hadd.page w hdown).2, hadd.effective_iff.mpr hs w hdown⟩
    · rename_i hsame
      have hdown : ¬ SameDown (pageLevel c.pageSize) 3 c.virtAddr w := fun hdown =>
        hsame ⟨hret, (samePage_iff _ _ _).mpr hdown⟩
      obtain ⟨hmapped, heff⟩ := hall w flags hw
      obtain ⟨hentries, hwalk⟩ := hadd.others w hdown hmapped
      exact ⟨hwalk ▸ hmapped, heff.congr hentries⟩

/-- If every call suits the tables that are there then every page has the permissions asked for.
A call that does not suit them maps a page that has others. -/
theorem requested_permissions {asked : Word → Option Word}
    (h : Mapping A H (Suits · r ·) r s asked) :
    (∀ w flags, asked w = some flags → Effective (phys s.mem) r w flags) ∧
      ∀ (c : MapCall) (ret : Byte) (s' : Machine α), c.flags &&& pgSafeFlags = c.flags →
        virtMapPhys A r c.virtAddr c.physAddr c.flags c.pageSize s = .ok (ret, s') →
        ((∀ w, SamePage c.pageSize c.virtAddr w → Effective (phys s'.mem) r w c.flags)
          ↔ Suits (phys s.mem) r c) := by
  obtain ⟨hrooted, hall⟩ := h.inv
  refine ⟨fun w flags hw => (hall w flags hw).2, fun c ret s' hc hrun => ?_⟩
  obtain ⟨-, -, above, hadd⟩ := virtMapPhys_added hrooted hc hrun
  rw [← hadd.effective_iff]
  exact forall_congr' fun w => by rw [samePage_iff]

/-! ## Two pages below the same tables -/

namespace Bump

lemma walkEntries_start (w : Word) : walkEntries (phys start.mem) 3 0x1000 w = [0] := by
  have hzero : entry (phys start.mem) 0x1000 (index 3 w) = 0 := load64_zero _
  rw [walkEntries, hzero, slotEntries_last]
  intro u hu
  rw [decode_zero] at hu
  cases hu

lemma mapping_start (ok : Mem → MapCall → Prop) :
    Mapping (allocator keep) (heap keep) ok 0x1000 start fun _ => none :=
  .empty valid_start (by decide) List.mem_cons_self fun i _ => load64_zero _

/-- The first call on the empty table returns, and the next one too if its page is elsewhere. -/
lemma map_pages (flags1 flags2 : Word) : ∃ s1 s2,
    virtMapPhys (allocator keep) 0x1000 0 0x600000 flags1 pageSmall start = .ok (1, s1) ∧
    virtMapPhys (allocator keep) 0x1000 0x1000 0x601000 flags2 pageSmall s1 = .ok (1, s2) := by
  have h := built_start.rooted freesKeep
  have hzero : ∀ w, walk (phys start.mem) 3 0x1000 w = none := fun w =>
    walk_of_absent (by rw [entry]; exact (load64_zero _).symm ▸ decode_zero 3)
  obtain ⟨ret1, s1, hrun1, rfl, -, m1, new, u, e', he⟩ := (wp_virtMapPhys (E := fun _ => False)
    (v := 0) (s := start) h rfl (show (0x600000 : Word).toNat < 2 ^ 47 by decide) flags1 pageSmall
    (.inr ⟨by decide, hzero _, .inr rfl⟩)).returns
  have hroom : 3 ≤ (heap keep).room s1.heap := by
    have h1 := he.grown.room
    have h2 := he.length
    have h3 : (heap keep).room start.heap = 2 ^ 18 - 1 := rfl
    omega
  have hother : walk (phys s1.mem) 3 0x1000 0x1000 = none := by
    rw [he.walk_other rfl rfl ?_, hzero]
    intro hsame
    exact absurd (hsame 0 le_rfl (by norm_num)) (by decide)
  obtain ⟨ret2, s2, hrun2, rfl, -⟩ := (wp_virtMapPhys (E := fun _ => False)
    (v := 0x1000) (s := s1) he.after rfl (show (0x601000 : Word).toNat < 2 ^ 47 by decide) flags2
    pageSmall (.inr ⟨hroom, hother, .inr rfl⟩)).returns
  exact ⟨s1, s2, hrun1, hrun2⟩

/-- A page for user code in an empty table. -/
theorem permissions_start : ∃ s1,
    virtMapPhys (allocator keep) 0x1000 0 0x600000 (pgFlagRw ||| pgFlagUser) pageSmall start
      = .ok (1, s1) ∧ Effective (phys s1.mem) 0x1000 0 (pgFlagRw ||| pgFlagUser) := by
  obtain ⟨s1, -, hrun, -⟩ := map_pages (pgFlagRw ||| pgFlagUser) 0
  have hsuits :
      Suits (phys start.mem) 0x1000 ⟨0, 0x600000, pgFlagRw ||| pgFlagUser, pageSmall⟩ := by
    have habsent : ∀ e ∈ (walkEntries (phys start.mem) 3 0x1000 0).take (3 - pageLevel pageSmall),
        e &&& present = 0 := fun e he => by
      rw [walkEntries_start] at he
      rw [List.mem_singleton.mp (List.mem_of_mem_take he)]
      rfl
    exact ⟨fun _ e he hp => absurd (habsent e he) hp, fun _ e he hp => absurd (habsent e he) hp,
      fun _ => by decide⟩
  have hmapping := (mapping_start (Suits · 0x1000 ·)).map
    (c := ⟨0, 0x600000, pgFlagRw ||| pgFlagUser, pageSmall⟩) (by decide) hsuits hrun
  exact ⟨s1, hrun, (requested_permissions hmapping).1 0 _ (if_pos ⟨rfl, rfl⟩)⟩

/-- A page for the kernel first, and the one for user code next to it cannot be used. -/
theorem not_requested_permissions :
    ¬ ∀ (s : Machine Bump) (asked : Word → Option Word),
      Mapping (allocator keep) (heap keep) (fun _ _ => True) 0x1000 s asked →
      ∀ w flags, asked w = some flags → Effective (phys s.mem) 0x1000 w flags := by
  intro hall
  obtain ⟨s1, s2, hrun1, hrun2⟩ := map_pages pgFlagRw (pgFlagRw ||| pgFlagUser)
  have hmapping := ((mapping_start fun _ _ => True).map (c := ⟨0, 0x600000, pgFlagRw, pageSmall⟩)
    (by decide) trivial hrun1).map
      (c := ⟨0x1000, 0x601000, pgFlagRw ||| pgFlagUser, pageSmall⟩) (by decide) trivial hrun2
  obtain ⟨-, hrooted1, above, hadd1⟩ := virtMapPhys_added
    (c := ⟨0, 0x600000, pgFlagRw, pageSmall⟩) (mapping_start (Suits · 0x1000 ·)).inv.1
    (by decide) hrun1
  obtain ⟨-, -, above2, hadd2⟩ := virtMapPhys_added
    (c := ⟨0x1000, 0x601000, pgFlagRw ||| pgFlagUser, pageSmall⟩) hrooted1 (by decide) hrun2
  have hsuits := hadd2.effective_iff.mp fun w hw =>
    hall s2 _ hmapping w _ (if_pos ⟨rfl, (samePage_iff _ _ _).mpr hw⟩)
  -- the two walks begin with the same entry, which the first call made
  obtain ⟨rest, hhead⟩ := walkEntries_head (phys s1.mem) 3 0x1000 0
  obtain ⟨rest2, hhead2⟩ := walkEntries_head (phys s1.mem) 3 0x1000 0x1000
  obtain ⟨e, above, rfl⟩ := List.exists_cons_of_length_eq_add_one hadd1.length
  have hentries := (hadd1.page 0 fun _ _ _ => rfl).1
  rw [hhead, List.cons_append, List.cons.injEq] at hentries
  obtain ⟨hpres, -, hold | ⟨p, hp, he⟩⟩ := hadd1.tables e List.mem_cons_self
  · rw [walkEntries_start] at hold
    rw [List.mem_singleton.mp (List.mem_of_mem_take hold)] at hpres
    exact hpres (BitVec.zero_and ..)
  · refine hsuits.user (by decide) e ?_ hpres ?_
    · show e ∈ (walkEntries (phys s1.mem) 3 0x1000 0x1000).take 3
      rw [hhead2, List.take_succ_cons, ← hentries.1]
      exact List.mem_cons_self
    · rw [he, newTable_and hp (by decide) (by decide)]
      decide

end Bump

end Bikeshed
