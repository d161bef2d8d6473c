import Bikeshed.VirtMemory.Rooted

/-!
# What mapping a page does to the tree

`wp_ensureTable` handles each missing level, `wp_virtMapPhys` the whole function: it only
adds empty tables on the way and then writes the one entry for the page.
-/

namespace Bikeshed

open Lib

variable {α : Type} {A : PhysAllocator α} {H : PhysHeap A} {top : ℕ → Bool} {r u v w : Word}
  {k : ℕ} {E : String → Prop} {s : Machine α}

/-- No page the allocator hands out sits where the source's check against NULL would fire. -/
lemma physToVirt_ne_zero {p : Word} (h : p.toNat < 2 ^ 39) : physToVirt p ≠ 0 := by
  intro h0
  have hp : p = 0x0000800000000000 := by
    calc p = virtToPhys (physToVirt p) := (virtToPhys_physToVirt p).symm
      _ = virtToPhys 0 := by rw [h0]
      _ = 0x0000800000000000 := by decide
  rw [hp] at h
  exact absurd h (by decide)

/-- The flags `virt_map_phys` puts on a table it creates. -/
lemma newTable_flags (flags : Word) :
    let f := writable ||| present ||| (flags &&& pgSafeFlags)
    f &&& pageCopyFlags = f ∧ f &&& presentBit ≠ 0 := by
  have hsafe : flags &&& pgSafeFlags &&& pageCopyFlags = flags &&& pgSafeFlags := by
    rw [BitVec.and_assoc]
    congr 1
  have hpres : flags &&& pgSafeFlags &&& presentBit = 0 := by
    rw [BitVec.and_assoc, show pgSafeFlags &&& presentBit = 0 by decide]
    simp
  constructor
  · exact or_and_eq (by decide) hsafe
  · rw [BitVec.and_or_distrib_right, hpres]
    decide

lemma page_and_mask {p : Word} (hd : 4096 ∣ p.toNat) (hlt : p.toNat < 2 ^ 39) :
    p &&& mask 12 39 = p := and_mask_of_dvd (by norm_num) (by norm_num) hd hlt

/-- Memory in which the page handed out has been cleared. -/
lemma phys_memclr_page (m : Mem) (p : Word) :
    phys (memclr m (physToVirt p) 4096) = fill (phys m) p 4096 0 := by
  have hhead : headLength (physToVirt p) < 8 := Nat.mod_lt _ (by norm_num)
  rw [memclr_eq m (by
    show _ ≤ 4096
    omega), phys_fill]
  rfl

/-- If the walk of `v` comes to a page directory, the entry there is absent. -/
def PdeAbsent (P : Mem) (r v : Word) : Prop :=
  ∀ u, Reaches P v 3 r 1 u → decode 1 (entry P u (index 1 v)) = .absent

/-- Below a table without an entry for `v` there is nothing. -/
lemma pdeAbsent_of_absent {P : Mem} {t : Word} (hr : Reaches P v 3 r k t) (hk : k ≠ 0)
    (habs : decode k (entry P t (index k v)) = .absent) : PdeAbsent P r v := by
  intro u hu
  by_cases hk1 : k = 1
  · subst hk1
    rw [← hr.unique hu]
    exact habs
  · obtain ⟨s, hs⟩ := hr.next hu (by omega)
    rw [habs] at hs
    cases hs

/-- A page is handed out, cleared, and entered into an absent slot of the table reached. `m2` is
the memory before the entry is written. -/
lemma RootedBy.newTable {φ : ℕ → Word → Prop} {a a' : α} {m m1 m2 m3 : Mem} {p e' : Word}
    (h : RootedBy φ H top r a m) (hv : top (index 3 v) = true)
    (hr : Reaches (phys m) v 3 r (k + 1) u) (hvalid : H.Valid a' m1)
    (hh : Handed (H.own a) (H.own a') (phys m) (phys m1) (page4KIB p))
    (hm2 : m2 = memclr m1 (physToVirt p) 4096)
    (hm3 : m3 = store64 m2 (physToVirt u + BitVec.ofNat 64 (8 * index (k + 1) v)) e')
    (hdec : decode (k + 1) e' = .table p) (hform : φ (k + 1) e')
    (habsent : ∀ e, e &&& presentBit = 0 → φ k e) :
    AgreeOn (H.own a) (phys m) (phys m2) ∧ RootedBy φ H top r a' m2 ∧
      (∀ i < 512, entry (phys m3) p i = 0) ∧ RootedBy φ H top r a' m3 := by
  have hp : 4096 ∣ p.toNat := hh.aligned
  have hbelow : p.toNat + 4096 ≤ 2 ^ 39 := hh.below
  have hu := h.reached_aligned hv hr
  have hown' : ∀ b ∈ H.own a, b ∈ H.own a' := fun b hb =>
    hh.outstanding.mem_iff.mpr (List.mem_cons_of_mem _ hb)
  have hpown : page4KIB p ∈ H.own a' := hh.outstanding.mem_iff.mpr List.mem_cons_self
  have hnew : p ∉ tables (tree (phys m) top 3 r) := fun hp =>
    (hh.fresh _ (h.owned p hp)).ne (by norm_num) rfl
  have hpu : p ≠ u := fun he => hnew (he ▸ hr.mem_tables hv)
  have hphys2 : phys m2 = fill (phys m1) p 4096 0 := by rw [hm2, phys_memclr_page]
  -- the tree is the same up to the store
  have hagree2 : AgreeOn (H.own a) (phys m) (phys m2) := by
    refine hh.agree.trans (agreeOn_of_outside (page4KIB p) (fun x hx => ?_) hh.fresh)
    rw [hphys2]
    exact fill_outside _ (by omega) hx
  have hs2 := h.same hagree2
  have hvalid2 : H.Valid a' m2 := by
    refine H.stable hvalid fun x hx => ?_
    rw [hphys2]
    exact fill_outside _ (by omega) (hx _ hpown)
  have h2 : RootedBy φ H top r a' m2 := h.of_same hvalid2 hs2 fun t ht => hown' _ (h.owned t ht)
  have hr2 : Reaches (phys m2) v 3 r (k + 1) u := hr.congr hv hs2
  -- the new table has no entries
  have hempty : ∀ i < 512, entry (phys m3) p i = 0 := by
    intro i hi
    rw [hm3, phys_storeEntry, entry_store64_other _ _ hp hu hi (index_lt _ _) (.inl hpu), hphys2,
      entry_fill_zero _ hp hi]
  have habs : ∀ i ∈ slots top k, decode k (entry (phys m3) p i) = .absent := fun i hi => by
    rw [hempty i (mem_slots.mp hi).1, decode_zero]
  have hslots : tables (slotTree (phys m3) top (k + 1) e') = [p] := by
    rw [slotTree_table hdec, tree_of_absent habs, tables_cons_table, tables_nil]
  refine ⟨hagree2, h2, hempty, ?_⟩
  refine h2.store hv hr2 hm3 (slotAll_of_table hform hdec (tableAll_of_absent
    (fun e he => habsent e (decode_absent_iff.mp he)) habs)) ?_ ?_
  · rw [hslots]
    exact List.nodup_singleton p
  · rw [hslots, tree_congr hs2]
    intro t ht
    rw [List.mem_singleton] at ht
    exact ht ▸ ⟨hpown, hnew⟩

/-- Such a page adds an empty table to the tree. -/
lemma grown_newTable {a a' : α} {m m1 m2 m3 : Mem} {p f : Word} (h : Rooted H top r a m)
    (hv : top (index 3 v) = true) (hr : Reaches (phys m) v 3 r (k + 1) u)
    (habs : entry (phys m) u (index (k + 1) v) &&& presentBit = 0)
    (hvalid : H.Valid a' m1) (hroom : H.room a ≤ H.room a' + 1)
    (hh : Handed (H.own a) (H.own a') (phys m) (phys m1) (page4KIB p))
    (hm2 : m2 = memclr m1 (physToVirt p) 4096)
    (hm3 : m3 = store64 m2 (physToVirt u + BitVec.ofNat 64 (8 * index (k + 1) v)) (p ||| f))
    (hf : f &&& pageCopyFlags = f) (hpres : f &&& presentBit ≠ 0) :
    Grown H top r a m a' m3 [p] ∧ Rooted H top r a' m3 ∧
      Reaches (phys m3) v 3 r (k + 1) u ∧
      entry (phys m3) u (index (k + 1) v) = p ||| f ∧
      (k ≠ 0 → PdeAbsent (phys m3) r v) := by
  have hbelow : p.toNat + 4096 ≤ 2 ^ 39 := hh.below
  have hu := h.reached_aligned hv hr
  have hmask : p &&& mask 12 39 = p := page_and_mask hh.aligned (by omega)
  obtain ⟨hdec, hform, -⟩ := decode_mk_table (l := k) hmask hf hpres
  obtain ⟨hagree2, h2, hempty, h3⟩ := h.rootedBy.newTable hv hr hvalid hh hm2 hm3 hdec hform
    fun e he => entryForm_of_absent he
  have hs2 := h.same hagree2
  have hr2 : Reaches (phys m2) v 3 r (k + 1) u := hr.congr hv hs2
  have htree2 : tree (phys m2) top 3 r = tree (phys m) top 3 r := tree_congr hs2
  have hw3 := h2.entryWrite hv hr2 (p ||| f)
  rw [← hm3] at hw3
  have habsent : ∀ i ∈ slots top k, decode k (entry (phys m3) p i) = .absent := fun i hi => by
    rw [hempty i (mem_slots.mp hi).1, decode_zero]
  have hslot : slotTree (phys m3) top (k + 1) (p ||| f) = [tablePage p] := by
    rw [slotTree_table hdec, tree_of_absent habsent]
  have hold : decode (k + 1) (entry (phys m2) u (index (k + 1) v)) = .absent := by
    rw [hs2 u (hr.mem_tables hv) _ (index_lt _ _)]
    exact decode_absent_iff.mpr habs
  have hr3 := reaches_write hr2 hv h2.nodup hw3
  have hrp : Reaches (phys m3) v 3 r k p := hr3.snoc (by rw [hw3.written]; exact hdec)
  refine ⟨⟨?_, hh.outstanding, ?_, ?_, hroom⟩, rooted_iff.mpr h3, hr3, hw3.written,
    fun hk => pdeAbsent_of_absent hrp hk (habsent _ (index_mem_slots hv k))⟩
  · obtain ⟨kept, k1, k2⟩ := reaches_exchange hr2 hv h2.nodup hw3
    rw [slotTree_absent hold, htree2] at k1
    rw [hslot] at k2
    exact k2.trans (k1.symm.cons _)
  · intro w hw
    rw [← walk_congr (by norm_num) hw hs2]
    by_cases hsame : SameDown (k + 1) 3 v w
    · rw [walk_write_same hr2 hv h2.nodup hw3 hsame, slotWalk_table hdec, hr2.walk_same hsame,
        slotWalk_absent hold]
      refine walk_of_absent ?_
      rw [hempty _ (index_lt _ _), decode_zero]
    · exact walk_write_other hr2 (by norm_num) hv hw h2.nodup hw3 hsame
  · intro b hb hdisj x hx
    rw [hm3, phys_storeEntry, entry_store64_outside _ _ hu (index_lt _ _)
      ((hdisj u (hr.mem_tables hv)).not_has hx)]
    exact hagree2 b hb x hx

/-- The level below is there afterwards. -/
theorem wp_ensureTable {a : α} {m : Mem} {L : List Event} (h : Rooted H top r a m)
    (hv : top (index 3 v) = true) (hr : Reaches (phys m) v 3 r (k + 1) u)
    (hsize : entry (phys m) u (index (k + 1) v) &&& presentBit ≠ 0 → k = 0 →
      entry (phys m) u (index (k + 1) v) &&& sizeBit = 0)
    (hE : Supplied H E 1 a) (flags : Word) :
    wp (ensureTable A (physToVirt u) (index (k + 1) v) (flags &&& pgSafeFlags))
      (fun ok s' => ok = true ∧ ∃ new, new.length ≤ 1 ∧
        Grown H top r a m s'.heap s'.mem new ∧ Rooted H top r s'.heap s'.mem ∧
        Reaches (phys s'.mem) v 3 r (k + 1) u ∧
        Reaches (phys s'.mem) v 3 r k
          (pml4eToPdpt (entry (phys s'.mem) u (index (k + 1) v))) ∧
        (k ≠ 0 → PdeAbsent (phys m) r v → PdeAbsent (phys s'.mem) r v)) E ⟨m, a, L⟩ := by
  rw [ensureTable, wp_bind, wp_loadEntry, wp_ite]
  constructor
  · intro habs
    rw [wp_bind]
    refine wp_physAlloc4KIB H h.valid hE fun p s1 hvalid hroom hh _ => ?_
    have hp : 4096 ∣ p.toNat := hh.aligned
    have hbelow : p.toNat + 4096 ≤ 2 ^ 39 := hh.below
    rw [if_neg (physToVirt_ne_zero (by omega)), wp_bind, wp_modifyMem, wp_bind, wp_storeEntry,
      wp_pure]
    refine ⟨rfl, [p], le_rfl, ?_⟩
    obtain ⟨hf, hpres⟩ := newTable_flags flags
    have hentry : virtToPhys (physToVirt p) ||| writable ||| present ||| (flags &&& pgSafeFlags)
        = p ||| (writable ||| present ||| (flags &&& pgSafeFlags)) := by
      rw [virtToPhys_physToVirt, BitVec.or_assoc, BitVec.or_assoc, BitVec.or_assoc]
    rw [hentry]
    obtain ⟨h1, h2, h3, h4, h5⟩ := grown_newTable h hv hr habs hvalid hroom hh rfl rfl hf hpres
    refine ⟨h1, h2, h3, h3.snoc ?_, fun hk _ => h5 hk⟩
    rw [h4]
    obtain ⟨hdec, -, haddr⟩ := decode_mk_table (l := k) (page_and_mask hp (by omega)) hf hpres
    rw [haddr]
    exact hdec
  · intro hpres
    rw [wp_pure]
    refine ⟨rfl, [], Nat.zero_le _, Grown.refl H top r _ _, h, hr, hr.snoc ?_, fun _ h0 => h0⟩
    exact decode_table (h.reached_form hv hr) hpres (hsize hpres)

/-! ## The whole function -/

/-- The level whose table holds the entry for a page of this size. -/
def pageLevel (pageSize : Word) : ℕ := if pageSize = pageLarge then 1 else 0

/-- The aligned base that `virt_map_phys` enters. -/
def frameBase (pageSize physAddr : Word) : Word :=
  if pageSize = pageLarge then mask2MIB physAddr else mask4KIB physAddr

/-- Empty tables `new` are added up to `m1`; then the entry for `v` in the table `u`, which
held no frame, and at level 0 nothing at all, becomes the leaf `base`. -/
structure Entered (H : PhysHeap A) (top : ℕ → Bool) (r v : Word) (k : ℕ) (base : Word) (a : α)
    (m : Mem) (a' : α) (m' m1 : Mem) (new : List Word) (u e' : Word) : Prop where
  grown : Grown H top r a m a' m1 new
  length : new.length ≤ 3
  before : Rooted H top r a' m1
  reaches : Reaches (phys m1) v 3 r k u
  no_leaf : ∀ b n, decode k (entry (phys m1) u (index k v)) ≠ .leaf b n
  absent : k = 0 → decode k (entry (phys m1) u (index k v)) = .absent
  stored : m' = store64 m1 (physToVirt u + BitVec.ofNat 64 (8 * index k v)) e'
  leaf : decode k e' = .leaf base (2 ^ (12 + 9 * k))
  after : Rooted H top r a' m'

/-- A mapping went in. -/
def Maps (H : PhysHeap A) (top : ℕ → Bool) (r v : Word) (k : ℕ) (base : Word) (a : α) (m : Mem)
    (a' : α) (m' : Mem) : Prop := ∃ m1 new u e', Entered H top r v k base a m a' m' m1 new u e'

/-- A mapping went in, and nothing hung below its entry if the page-directory entry was absent. -/
def MapsInto (H : PhysHeap A) (top : ℕ → Bool) (r v : Word) (k : ℕ) (base : Word) (a : α) (m : Mem)
    (a' : α) (m' : Mem) : Prop :=
  ∃ m1 new u e', Entered H top r v k base a m a' m' m1 new u e' ∧
    (PdeAbsent (phys m) r v → decode k (entry (phys m1) u (index k v)) = .absent)

lemma MapsInto.maps {a a' : α} {m m' : Mem} {base : Word}
    (h : MapsInto H top r v k base a m a' m') : Maps H top r v k base a m a' m' := by
  obtain ⟨m1, new, u, e', he, -⟩ := h
  exact ⟨m1, new, u, e', he⟩

/-- Entering a leaf keeps the tree rooted. -/
lemma Rooted.store_leaf {a : α} {m m' : Mem} {e' base : Word} {n : ℕ} (h : Rooted H top r a m)
    (hv : top (index 3 v) = true) (hr : Reaches (phys m) v 3 r k u)
    (hm' : m' = store64 m (physToVirt u + BitVec.ofNat 64 (8 * index k v)) e')
    (hleaf : decode k e' = .leaf base n) (hform : EntryForm k e') : Rooted H top r a m' := by
  have hslot : tables (slotTree (phys m') top k e') = [] := by
    rw [slotTree_leaf hleaf, tables_cons_frame, tables_nil]
  refine h.store hv hr hm' (slotAll_of_not_table hform fun t ht => ?_) ?_ ?_
  · rw [hleaf] at ht
    cases ht
  · rw [hslot]
    exact List.nodup_nil
  · rw [hslot]
    exact fun t ht => absurd ht List.not_mem_nil

lemma leaf_flags {f : Word} (flags : Word) (hf : f &&& flagBits = f) :
    (f ||| (flags &&& pgSafeFlags)) &&& flagBits = f ||| (flags &&& pgSafeFlags) := by
  have hsafe : flags &&& pgSafeFlags &&& flagBits = flags &&& pgSafeFlags := by
    rw [BitVec.and_assoc]
    congr 1
  exact or_and_eq hf hsafe

/-- `safe_flags` adds neither of the bits the kernel sets itself. -/
lemma safeFlags_no_bit (flags f c : Word) (hc : pgSafeFlags &&& c = 0) :
    (f ||| (flags &&& pgSafeFlags)) &&& c = f &&& c := by
  rw [BitVec.and_or_distrib_right, BitVec.and_assoc, hc]
  simp

lemma mask4KIB_and {x : Word} (h : x.toNat < 2 ^ 47) :
    mask4KIB x &&& mask 12 47 = mask4KIB x := by
  have hx := toNat_mask4KIB x
  have hle := Nat.div_mul_le_self x.toNat (2 ^ 12)
  exact and_mask_of_dvd (by norm_num) (by norm_num) ⟨_, hx.trans (Nat.mul_comm _ _)⟩ (by omega)

lemma mask2MIB_and {x : Word} (h : x.toNat < 2 ^ 47) :
    mask2MIB x &&& mask 21 47 = mask2MIB x := by
  have hx := toNat_mask2MIB x
  have hle := Nat.div_mul_le_self x.toNat (2 ^ 21)
  exact and_mask_of_dvd (by norm_num) (by norm_num) ⟨_, hx.trans (Nat.mul_comm _ _)⟩ (by omega)

/-- The entry for a 4KiB page. -/
lemma decode_smallEntry {pa : Word} (h : pa.toNat < 2 ^ 47) (flags : Word) :
    let e := mask4KIB pa ||| present ||| (flags &&& pgSafeFlags)
    decode 0 e = .leaf (mask4KIB pa) (2 ^ 12) ∧ EntryForm 0 e := by
  have hsafe : flags &&& pgSafeFlags &&& pageCopyFlags = flags &&& pgSafeFlags := by
    rw [BitVec.and_assoc]
    congr 1
  have hf : (present ||| (flags &&& pgSafeFlags)) &&& pageCopyFlags
      = present ||| (flags &&& pgSafeFlags) := or_and_eq (by decide) hsafe
  have hp : (present ||| (flags &&& pgSafeFlags)) &&& presentBit ≠ 0 := by
    rw [safeFlags_no_bit _ _ _ (by decide)]
    decide
  simp only [BitVec.or_assoc]
  exact decode_mk_small (mask4KIB_and h) hf hp

/-- The entry for a 2MiB page. -/
lemma decode_largeEntry {pa : Word} (h : pa.toNat < 2 ^ 47) (flags : Word) :
    let e := mask2MIB pa ||| pdtPageSize ||| present ||| (flags &&& pgSafeFlags)
    decode 1 (e ||| (flags &&& pgSafeFlags)) = .leaf (mask2MIB pa) (2 ^ 21) ∧
      EntryForm 1 (e ||| (flags &&& pgSafeFlags)) := by
  have hf := leaf_flags (f := pdtPageSize ||| present) flags (by decide)
  have hbit : ∀ c : Word, pgSafeFlags &&& c = 0 → (pdtPageSize ||| present) &&& c ≠ 0 →
      (pdtPageSize ||| present ||| (flags &&& pgSafeFlags)) &&& c ≠ 0 := fun c hc hne => by
    rw [safeFlags_no_bit _ _ _ hc]
    exact hne
  have he : mask2MIB pa ||| pdtPageSize ||| present ||| (flags &&& pgSafeFlags)
      ||| (flags &&& pgSafeFlags)
      = mask2MIB pa ||| (pdtPageSize ||| present ||| (flags &&& pgSafeFlags)) := by
    simp only [BitVec.or_assoc, BitVec.or_self]
  simp only [he]
  exact decode_mk_large (mask2MIB_and h) hf (hbit _ (by decide) (by decide))
    (hbit _ (by decide) (by decide))

/-- Nothing goes wrong on the way: either panics are allowed, or there is memory for the
tables, `v` is not translated yet and the page size is one of the two. -/
def MapSafe (H : PhysHeap A) (E : String → Prop) (r v pageSize : Word) (a : α) (m : Mem) : Prop :=
  (∀ e, E e) ∨ (3 ≤ H.room a ∧ walk (phys m) 3 r v = none ∧
    (pageSize = pageLarge ∨ pageSize = pageSmall))

lemma wp_mapLarge {a b : α} {m n : Mem} {L : List Event} {new : List Word} {pa : Word}
    (hg : Grown H top r a m b n new) (hlen : new.length ≤ 3)
    (h : Rooted H top r b n) (hv : top (index 3 v) = true)
    (hr : Reaches (phys n) v 3 r 1 u) (hpa : pa.toNat < 2 ^ 47) (flags : Word)
    (hleaf : ∀ x y, decode 1 (entry (phys n) u (index 1 v)) ≠ .leaf x y)
    (habs : PdeAbsent (phys m) r v → PdeAbsent (phys n) r v) :
    wp (mapLarge (physToVirt u) (index 1 v) pa (flags &&& pgSafeFlags))
      (fun ret s' => ret = 1 ∧ MapsInto H top r v 1 (mask2MIB pa) a m s'.heap s'.mem) E
        ⟨n, b, L⟩ := by
  obtain ⟨hdec, hform⟩ := decode_largeEntry hpa flags
  rw [mapLarge, wp_bind, wp_storeEntry, wp_bind, wp_loadEntry, wp_bind, wp_storeEntry, wp_pure,
    phys_storeEntry, entry_store64_self, store64_store64_self]
  exact ⟨rfl, n, new, u, _, ⟨hg, hlen, h, hr, hleaf, fun h0 => absurd h0 one_ne_zero, rfl, hdec,
    h.store_leaf hv hr rfl hdec hform⟩, fun hm => habs hm u hr⟩

lemma wp_mapSmall {a b : α} {m n : Mem} {L : List Event} {new : List Word} {pa : Word}
    (hg : Grown H top r a m b n new) (hlen : new.length ≤ 2)
    (h : Rooted H top r b n) (hv : top (index 3 v) = true)
    (hr : Reaches (phys n) v 3 r 1 u) (hpa : pa.toNat < 2 ^ 47) (flags : Word)
    (hsize : entry (phys n) u (index 1 v) &&& presentBit ≠ 0 →
      entry (phys n) u (index 1 v) &&& sizeBit = 0)
    (hE : (∀ e, E e) ∨ (1 ≤ H.room b ∧ walk (phys m) 3 r v = none)) :
    wp (mapSmall A (physToVirt u) v pa (flags &&& pgSafeFlags))
      (fun ret s' => ret = 1 ∧ MapsInto H top r v 0 (mask4KIB pa) a m s'.heap s'.mem) E
        ⟨n, b, L⟩ := by
  rw [mapSmall, wp_bind, pdtIndex_eq]
  refine wp_mono (wp_ensureTable h hv hr (fun hp _ => hsize hp) (hE.imp_right And.left) flags) ?_
  rintro ok s1 ⟨rfl, new1, hlen1, hg1, h1, hr1, hr0, -⟩
  rw [if_pos rfl, wp_bind, wp_loadEntry, wp_bind, ptIndex_eq]
  show wp (loadEntry (physToVirt (pml4eToPdpt _)) _) _ _ _
  rw [wp_loadEntry, wp_ite]
  have hg2 := hg.trans h.valid hg1
  constructor
  · intro hpres
    rw [wp_panicWith]
    rcases hE with hE | ⟨-, hnone⟩
    · exact hE _
    · -- the page would be translated already
      have hwalk := hr0.walk_same (w := v) fun i _ _ => rfl
      rw [hg2.walk v hv, hnone, slotWalk_leaf (decode_small (h1.reached_form hv hr0) hpres)]
        at hwalk
      cases hwalk
  · intro hpres
    rw [not_not] at hpres
    have habs := decode_absent_iff (l := 0).mpr hpres
    obtain ⟨hdec, hform⟩ := decode_smallEntry hpa flags
    rw [wp_bind, wp_storeEntry, wp_pure]
    refine ⟨rfl, s1.mem, _, _, _, ⟨hg2, ?_, h1, hr0, fun b n hb => ?_, fun _ => habs, rfl, hdec,
      h1.store_leaf hv hr0 rfl hdec hform⟩, fun _ => habs⟩
    · rw [List.length_append]
      omega
    · rw [habs] at hb
      cases hb

theorem wp_virtMapPhys_into {pa : Word} (h : Rooted H top r s.heap s.mem)
    (hv : top (index 3 v) = true) (hpa : pa.toNat < 2 ^ 47) (flags pageSize : Word)
    (hE : MapSafe H E r v pageSize s.heap s.mem) :
    wp (virtMapPhys A r v pa flags pageSize)
      (fun ret s' => ret = 1 ∧ (pageSize = pageLarge ∨ pageSize = pageSmall) ∧
        MapsInto H top r v (pageLevel pageSize) (frameBase pageSize pa) s.heap s.mem s'.heap s'.mem)
      E s := by
  have hroom : Supplied H E 3 s.heap := hE.imp_right And.left
  rw [virtMapPhys]
  simp only [pml4Index_eq, pdptIndex_eq, pdtIndex_eq]
  rw [wp_bind]
  refine wp_mono (wp_ensureTable (k := 2) h hv (.refl 3 r) (fun _ h0 => absurd h0 (by decide))
    (hroom.mono (by norm_num)) flags) ?_
  rintro ok s1 ⟨rfl, new1, hlen1, hg1, h1, -, hr1, habs1⟩
  have hroom1 : Supplied H E 2 s1.heap := hroom.next (k := 1) (by have := hg1.room; omega)
  rw [if_pos rfl, wp_bind, wp_loadEntry, wp_bind]
  refine wp_mono (wp_ensureTable (k := 1) h1 hv hr1
    (fun _ h0 => absurd h0 (by decide)) (hroom1.mono (by norm_num)) flags) ?_
  rintro ok s2 ⟨rfl, new2, hlen2, hg2, h2, -, hr2, habs2⟩
  have hg12 := hg1.trans h1.valid hg2
  have hroom2 : Supplied H E 1 s2.heap := hroom1.next (k := 1) (by have := hg2.room; omega)
  have hlen12 : (new2 ++ new1).length ≤ 2 := by
    rw [List.length_append]
    omega
  rw [if_pos rfl, wp_bind, wp_loadEntry, wp_bind]
  show wp (loadEntry (physToVirt (pml4eToPdpt _)) _) _ _ _
  rw [wp_loadEntry, wp_ite]
  have hform := h2.reached_form hv hr2
  constructor
  · rintro ⟨hs, hp⟩
    rw [wp_panicWith]
    rcases hE with hE | ⟨-, hnone, -⟩
    · exact hE _
    · have hwalk := hr2.walk_same (w := v) fun i _ _ => rfl
      rw [hg12.walk v hv, hnone, slotWalk_leaf (decode_large hform hp hs)] at hwalk
      cases hwalk
  · intro hfree
    rw [wp_ite]
    constructor
    · rintro rfl
      refine wp_mono (wp_mapLarge hg12 (by omega) h2 hv hr2 hpa flags (fun b n hb => ?_)
        fun h0 => habs2 one_ne_zero (habs1 two_ne_zero h0)) ?_
      · by_cases hp : entry (phys s2.mem) (pml4eToPdpt (entry (phys s2.mem)
            (pml4eToPdpt (entry (phys s1.mem) r (index 3 v))) (index 2 v))) (index 1 v)
            &&& presentBit = 0
        · rw [decode_absent_iff.mpr hp] at hb
          cases hb
        · rw [decode_table hform hp fun _ => by
            by_contra hs
            exact hfree ⟨hs, hp⟩] at hb
          cases hb
      · rintro ret s' ⟨rfl, hm⟩
        exact ⟨rfl, .inl rfl, hm⟩
    · intro hlarge
      rw [wp_ite]
      constructor
      · rintro rfl
        refine wp_mono (wp_mapSmall hg12 hlen12 h2 hv hr2 hpa flags (fun hp => ?_) ?_) ?_
        · by_contra hs
          exact hfree ⟨hs, hp⟩
        · rcases hE with hE | ⟨-, hnone, -⟩
          · exact .inl hE
          · rcases hroom2 with hE | hroom2
            · exact .inl hE
            · exact .inr ⟨hroom2, hnone⟩
        · rintro ret s' ⟨rfl, hm⟩
          exact ⟨rfl, .inr rfl, hm⟩
      · intro hsmall
        rw [wp_panicWith]
        rcases hE with hE | ⟨-, -, hsz⟩
        · exact hE _
        · exact absurd hsz (by simp [hlarge, hsmall])

theorem wp_virtMapPhys {pa : Word} (h : Rooted H top r s.heap s.mem)
    (hv : top (index 3 v) = true) (hpa : pa.toNat < 2 ^ 47) (flags pageSize : Word)
    (hE : MapSafe H E r v pageSize s.heap s.mem) :
    wp (virtMapPhys A r v pa flags pageSize)
      (fun ret s' => ret = 1 ∧ (pageSize = pageLarge ∨ pageSize = pageSmall) ∧
        Maps H top r v (pageLevel pageSize) (frameBase pageSize pa) s.heap s.mem s'.heap s'.mem)
      E s :=
  wp_mono (wp_virtMapPhys_into h hv hpa flags pageSize hE) fun _ _ ⟨hret, hsize, hm⟩ =>
    ⟨hret, hsize, hm.maps⟩

/-! ## Mapping a new frame -/

lemma frameBase_eq {pageSize p : Word}
    (h : p.toNat % 2 ^ (12 + 9 * pageLevel pageSize) = 0) : frameBase pageSize p = p := by
  rw [frameBase]
  rw [pageLevel] at h
  have hlt := p.isLt
  split
  · rename_i hsize
    rw [if_pos hsize] at h
    exact (and_mask_eq_self 21 64 (by norm_num) (by norm_num) p).mpr
      ⟨Nat.dvd_of_mod_eq_zero h, hlt⟩
  · rename_i hsize
    rw [if_neg hsize] at h
    exact (and_mask_eq_self 12 64 (by norm_num) (by norm_num) p).mpr
      ⟨Nat.dvd_of_mod_eq_zero h, hlt⟩

/-- A frame is handed out and mapped, or there was none and 0 is returned. -/
def PageMapped (H : PhysHeap A) (top : ℕ → Bool) (r v pageSize : Word) (a : α) (m : Mem)
    (res : Byte × Word) (a' : α) (m' : Mem) : Prop :=
  res.1 = 1 ∧ (pageSize = pageLarge ∨ pageSize = pageSmall) ∧
    ∃ a1 m1, H.Valid a1 m1 ∧ H.room a ≤ H.room a1 + 1 ∧
      Handed (H.own a) (H.own a1) (phys m) (phys m1) ⟨res.2, 2 ^ (12 + 9 * pageLevel pageSize)⟩ ∧
      Maps H top r v (pageLevel pageSize) res.2 a1 m1 a' m'

/-- There is memory for the frame and the tables, `v` is not translated yet and the page size
is one of the two, or panics are allowed. -/
def MapPageSafe (H : PhysHeap A) (E : String → Prop) (r v pageSize : Word) (a : α) (m : Mem) :
    Prop :=
  (∀ e, E e) ∨ (4 ≤ H.room a ∧ walk (phys m) 3 r v = none ∧
    (pageSize = pageLarge ∨ pageSize = pageSmall))

/-- Mapping the frame that has just been handed out. -/
lemma wp_mapHanded {flags pageSize p : Word} {a a1 : α} {m m1 : Mem} {L : List Event}
    (h : Rooted H top r a m) (hv : top (index 3 v) = true) (hv1 : H.Valid a1 m1)
    (hroom : H.room a ≤ H.room a1 + 1)
    (hh : Handed (H.own a) (H.own a1) (phys m) (phys m1) ⟨p, 2 ^ (12 + 9 * pageLevel pageSize)⟩)
    (hE : MapPageSafe H E r v pageSize a m) :
    wp (do
        let ret ← virtMapPhys A r v p flags pageSize
        pure (ret, p))
      (fun res s' => PageMapped H top r v pageSize a m res s'.heap s'.mem) E ⟨m1, a1, L⟩ := by
  have hbelow : p.toNat + 2 ^ (12 + 9 * pageLevel pageSize) ≤ 2 ^ 39 := hh.below
  have haligned : 2 ^ (12 + 9 * pageLevel pageSize) ∣ p.toNat := hh.aligned
  have hsafe : MapSafe H E r v pageSize a1 m1 := by
    refine hE.imp_right fun ⟨h1, h2, h3⟩ => ⟨by omega, ?_, h3⟩
    rw [walk_congr (by norm_num) hv (h.same hh.agree), h2]
  rw [wp_bind]
  refine wp_mono (wp_virtMapPhys (s := ⟨m1, a1, L⟩) (h.handed hv1 hh) hv (by omega) flags
    pageSize hsafe) ?_
  rintro ret s' ⟨rfl, hsize, hm⟩
  rw [frameBase_eq (Nat.mod_eq_zero_of_dvd haligned)] at hm
  exact ⟨rfl, hsize, a1, m1, hv1, hroom, hh, hm⟩

theorem wp_virtMapPage (h : Rooted H top r s.heap s.mem) (hv : top (index 3 v) = true)
    (flags pageSize : Word) (hE : MapPageSafe H E r v pageSize s.heap s.mem) :
    wp (virtMapPage A r v flags pageSize)
      (fun res s' => (res = (0, 0) ∧ (∀ e, E e) ∧ H.Valid s'.heap s'.mem ∧
          (H.own s'.heap).Perm (H.own s.heap) ∧ AgreeOn (H.own s.heap) (phys s.mem) (phys s'.mem)) ∨
        PageMapped H top r v pageSize s.heap s.mem res s'.heap s'.mem) E s := by
  have hroom : Supplied H E 1 s.heap := hE.imp_right fun hs => by omega
  rw [virtMapPage, wp_bind, allocFrame, wp_ite]
  constructor
  · rintro rfl
    refine wp_physAlloc2MIB H h.valid hroom (fun hE' s1 hv1 hown hagree => ?_)
      fun p s1 hp hv1 hroom1 hh _ => ?_
    · rw [if_pos rfl, wp_pure]
      exact .inl ⟨rfl, hE', hv1, hown, hagree⟩
    · rw [if_neg hp]
      exact wp_mono (wp_mapHanded h hv hv1 hroom1 hh hE) fun _ _ hm => .inr hm
  · intro hlarge
    rw [wp_ite]
    constructor
    · rintro rfl
      refine wp_physAlloc4KIB H h.valid hroom fun p s1 hv1 hroom1 hh _ => ?_
      have hpos : 0 < p.toNat := hh.pos
      rw [if_neg (by rintro rfl; exact absurd hpos (by simp))]
      exact wp_mono (wp_mapHanded h hv hv1 hroom1 hh hE) fun _ _ hm => .inr hm
    · intro hsmall
      rcases hE with hE | ⟨-, -, hs⟩
      · exact hE _
      · exact absurd hs (by simp [hlarge, hsmall])

/-! ## What has changed -/

namespace Entered

variable {a a' : α} {m m' m1 : Mem} {base e' : Word} {new : List Word}

lemma entryWrite (h : Entered H top r v k base a m a' m' m1 new u e')
    (hv : top (index 3 v) = true) :
    EntryWrite (phys m1) (phys m') (tables (tree (phys m1) top 3 r)) u (index k v) e' := by
  rw [h.stored]
  exact h.before.entryWrite hv h.reaches e'

/-- The addresses of the page are translated to the frame. -/
lemma walk_same (h : Entered H top r v k base a m a' m' m1 new u e')
    (hv : top (index 3 v) = true) (hw : SameDown k 3 v w) :
    walk (phys m') 3 r w = some (base, 2 ^ (12 + 9 * k)) := by
  rw [walk_write_same h.reaches hv h.before.nodup (h.entryWrite hv) hw, slotWalk_leaf h.leaf]

/-- All other addresses are translated as before. -/
lemma walk_other (h : Entered H top r v k base a m a' m' m1 new u e')
    (hv : top (index 3 v) = true) (hw3 : top (index 3 w) = true) (hw : ¬ SameDown k 3 v w) :
    walk (phys m') 3 r w = walk (phys m) 3 r w := by
  rw [walk_write_other h.reaches (by norm_num) hv hw3 h.before.nodup (h.entryWrite hv) hw,
    h.grown.walk w hw3]

/-- The pages before and after: `old` is what hung below the entry. -/
lemma pages (h : Entered H top r v k base a m a' m' m1 new u e') (hv : top (index 3 v) = true) :
    ∃ old kept, (new.map tablePage ++ tree (phys m) top 3 r).Perm (old ++ kept) ∧
      (tree (phys m') top 3 r).Perm (framePage base (2 ^ (12 + 9 * k)) :: kept) := by
  obtain ⟨kept, h1, h2⟩ := reaches_exchange h.reaches hv h.before.nodup (h.entryWrite hv)
  rw [slotTree_leaf h.leaf] at h2
  exact ⟨_, kept, h.grown.pages.symm.trans h1, h2⟩

/-- An outstanding block that is no table of the tree keeps its contents. -/
lemma others (h : Entered H top r v k base a m a' m' m1 new u e') (hv : top (index 3 v) = true)
    {b : Block} (hb : b ∈ H.own a)
    (hd : ∀ t ∈ tables (tree (phys m) top 3 r), (page4KIB t).Disjoint b) {x : Word}
    (hx : b.Has x) : phys m' x = phys m x := by
  have hpair := (h.grown.own.pairwise_iff fun hd => Block.Disjoint.symm hd).mp
    (H.disjoint h.before.valid)
  have hu : (page4KIB u).Disjoint b := by
    have hmem := (tables_perm h.grown.pages).mem_iff.mp (h.reaches.mem_tables hv)
    rw [tables_append, tables_map_tablePage, List.mem_append] at hmem
    rcases hmem with hmem | hmem
    · exact (List.pairwise_append.mp hpair).2.2 _ (List.mem_map_of_mem hmem) b hb
    · exact hd u hmem
  rw [h.stored, phys_storeEntry, entry_store64_outside _ _ (h.before.reached_aligned hv h.reaches)
    (index_lt k v) (hu.not_has hx), h.grown.others b hb hd x hx]

end Entered

end Bikeshed
