import Bikeshed.VirtMemory.DirectMapTheorems
import Bikeshed.VirtMemory.PhysicalInit

/-!
# What `phys_memory_init` hands over

The chunks on `stack_2MIB` are those of the map that is left: they lie in memory that was usable
before, and neither in the kernel nor in the tables. The direct map ends at a whole GiB.
-/

namespace Bikeshed

open Lib PhysAlloc

variable {K : KernelTables} {psi : PageStructInfo} {mmap mmap' : List MMapEntry} {s s' : Boot}
  {c t u x : Word} {P : Mem} {m : Mem} {a i j n : ℕ} {e : MMapEntry}

/-! ## The budget -/

/-- The usable entries end below `n`. -/
def EndBelow (n : ℕ) (mmap : List MMapEntry) : Prop :=
  ∀ e ∈ mmap, e.type = typeUsable → e.base.toNat + e.length.toNat ≤ n

lemma EndBelow.mono {k : ℕ} (h : EndBelow n mmap) (hle : n ≤ k) : EndBelow k mmap :=
  fun e he hu => (h e he hu).trans hle

lemma EndBelow.fits (h : EndBelow (2 ^ 47) mmap) : ∀ e ∈ mmap, e.type = typeUsable →
    e.base.toNat + e.length.toNat < 2 ^ 64 := fun e he hu =>
  lt_of_le_of_lt (h e he hu) (by norm_num)

lemma EndBelow.keep_parts (h : EndBelow (2 ^ 47) mmap) :
    List.Forall₂ Part (mmap.map keep) mmap := by
  rw [List.forall₂_map_left_iff]
  exact List.forall₂_same.mpr fun e he => keep_part (h.fits e he)

lemma EndBelow.of_parts (h : EndBelow n mmap) (hparts : List.Forall₂ Part mmap' mmap) :
    EndBelow n mmap' := by
  intro e' he' hu
  obtain ⟨e, he, hpart⟩ := exists_part hparts he'
  obtain ⟨hue, -, hend⟩ := hpart hu
  exact hend.trans (h e he hue)

def highestAddress (mmap : List MMapEntry) : ℕ := (getTotalUsableRam mmap).1.highestAddress.toNat

lemma EndBelow.highestAddress (h : EndBelow (2 ^ 47) mmap) (hn : EndBelow n mmap) :
    highestAddress mmap ≤ n := by
  rw [Bikeshed.highestAddress, getTotalUsableRam_eq]
  refine (highest_le fun e he => ?_).mpr ⟨Nat.zero_le n, fun e he => ?_⟩
  · obtain ⟨hk, hu⟩ := List.mem_filter.mp he
    exact (h.of_parts h.keep_parts).fits e hk (isUsable_iff.mp hu)
  · obtain ⟨hk, hu⟩ := List.mem_filter.mp he
    exact hn.of_parts h.keep_parts e hk (isUsable_iff.mp hu)

lemma toNat_numPds {h : Word} (hle : h.toNat ≤ 2 ^ 47) :
    (numPds h).toNat = (h.toNat + 2 ^ 29) / 2 ^ 30 - 1 := by
  have hG : oneGiB.toNat = 2 ^ 30 := rfl
  have hsum : (h + 0x20000000).toNat = h.toNat + 2 ^ 29 :=
    toNat_add_ofNat (show h.toNat + 0x20000000 < 2 ^ 64 by omega)
  have hdiv : ((h + 0x20000000) / oneGiB).toNat = (h.toNat + 2 ^ 29) / 2 ^ 30 := by
    rw [BitVec.toNat_udiv, hsum, hG]
  unfold numPds
  dsimp only
  split
  · rename_i hpos
    rw [BitVec.toNat_sub_of_le hpos, hdiv]
    rfl
  · rename_i hzero
    have hlt : ((h + 0x20000000) / oneGiB).toNat < 1 := BitVec.lt_def.mp (BitVec.not_le.mp hzero)
    rw [hdiv] at hlt ⊢
    omega

lemma toNat_numPdpts {n : Word} (hle : n.toNat < 2 ^ 32) :
    (numPdpts n).toNat = (n.toNat + 1) / 512 - 1 := by
  have hsum : (n + 1).toNat = n.toNat + 1 := toNat_add_ofNat (show n.toNat + 1 < 2 ^ 64 by omega)
  have hdiv : ((n + 1) / 512).toNat = (n.toNat + 1) / 512 := by
    rw [BitVec.toNat_udiv, hsum]
    rfl
  unfold numPdpts
  dsimp only
  split
  · rename_i hpos
    rw [BitVec.toNat_sub_of_le hpos, hdiv]
    rfl
  · rename_i hzero
    have hlt : ((n + 1) / 512).toNat < 1 := BitVec.lt_def.mp (BitVec.not_le.mp hzero)
    rw [hdiv] at hlt ⊢
    omega

lemma toNat_spaceNeeded {n m : Word} (hn : n.toNat < 2 ^ 32) (hm : m.toNat < 2 ^ 32) :
    (spaceNeeded n m).toNat = 4096 * (n.toNat + m.toNat) := by
  have hpage : (4096 : Word).toNat = 4096 := rfl
  rw [spaceNeeded, BitVec.toNat_add, BitVec.toNat_mul, BitVec.toNat_mul, hpage]
  omega

/-- What is known of the tables before they are made. -/
structure Planned (mmap : List MMapEntry) (psi : PageStructInfo) (mmap' : List MMapEntry) :
    Prop where
  numPds : psi.numPds.toNat = (highestAddress mmap + 2 ^ 29) / 2 ^ 30 - 1
  numPdpts : psi.numPdpts.toNat = (psi.numPds.toNat + 1) / 512 - 1
  space : (spaceNeeded psi.numPds psi.numPdpts).toNat
    = 4096 * (psi.numPds.toNat + psi.numPdpts.toNat)
  psiOk : PsiOk psi
  placed : Placed psi.base (spaceNeeded psi.numPds psi.numPdpts) (mmap.map keep) mmap'

lemma placeTables_planned (h : EndBelow (2 ^ 47) mmap)
    (hplace : placeTables mmap = some (psi, mmap')) : Planned mmap psi mmap' := by
  have hhigh := h.highestAddress h
  have hkept := h.of_parts h.keep_parts
  rw [placeTables, getTotalUsableRam_eq] at hplace
  obtain ⟨⟨base, rest⟩, hregion, heq⟩ := Option.map_eq_some_iff.mp hplace
  obtain ⟨rfl, rfl⟩ := Prod.mk.inj heq
  have hplaced := findRegion_placed hkept hregion
  have hpds := toNat_numPds hhigh
  change _ = (highestAddress mmap + 2 ^ 29) / 2 ^ 30 - 1 at hpds
  rw [getTotalUsableRam_eq] at hpds
  generalize numPds _ = pds at hplaced hpds ⊢
  have hpdpts := toNat_numPdpts (n := pds) (by omega)
  have hspace := toNat_spaceNeeded (n := pds) (m := numPdpts pds) (by omega) (by omega)
  refine ⟨hpds, hpdpts, hspace, ⟨hplaced.aligned, hplaced.above, hplaced.below, ?_⟩, hplaced⟩
  have hbelow := hplaced.below
  have hG : oneGiB.toNat = 2 ^ 30 := rfl
  dsimp only
  omega

/-! ## The chunks -/

/-- The bytes that the tables are made in -/
def PageStructInfo.area (psi : PageStructInfo) : Set ℕ :=
  Set.Ico psi.base.toNat (psi.base.toNat + (spaceNeeded psi.numPds psi.numPdpts).toNat)

/-- The chunk is usable memory of the map that is left. -/
lemma usable_of_inside (h : Inside mmap c n) (hlo : c.toNat ≤ a) (hhi : a < c.toNat + n) :
    ∃ e ∈ mmap, e.type = typeUsable ∧ e.Has a := by
  obtain ⟨e, he, hu, hfrom, hto⟩ := h
  exact ⟨e, he, hu, hfrom.trans hlo, hhi.trans_le hto⟩

lemma usableRam_of_parts (hparts : List.Forall₂ Part mmap' mmap) (ha : a ∈ usableRam mmap') :
    a ∈ usableRam mmap := by
  obtain ⟨e', he', hu, hhas⟩ := ha
  obtain ⟨e, he, hpart⟩ := exists_part hparts he'
  exact ⟨e, he, (hpart hu).1, hpart.has hu hhas⟩

/-- What is left usable is not the kernel's. -/
lemma Planned.not_kernel (h : Planned mmap psi mmap') (hfit : EndBelow (2 ^ 47) mmap)
    (ha : a ∈ usableRam mmap') : a ∉ kernelRam := by
  have hin := usableRam_of_parts h.placed.parts ha
  obtain ⟨-, -, -, -, hk, -⟩ := (mem_usableRam_keep hfit.fits).mp hin
  exact hk

/-- Nor is it the tables', if the entries do not overlap. -/
lemma Planned.not_area (h : Planned mmap psi mmap') (hmap : MapOk mmap)
    (ha : a ∈ usableRam mmap') : a ∉ psi.area := by
  have hfit : EndBelow (2 ^ 47) mmap := hmap.below
  have hkept : MapOk (mmap.map keep) := hmap.of_parts hfit.keep_parts
  obtain ⟨e'', he'', hu, hhas⟩ := ha
  obtain ⟨before, after, e, e', hmmap, hmmap', hcarves⟩ := h.placed.carves
  intro harea
  have hin : e.Has a := ⟨hcarves.from_le.trans harea.1, harea.2.trans_le hcarves.le_length⟩
  have hbelow := hkept.below e (hmmap ▸ List.mem_append_right _ List.mem_cons_self) hcarves.usable
  have hlt : a < e.base.toNat + e.length.toNat := hin.2
  have hword : (BitVec.ofNat 64 a).toNat = a := toNat_ofNat_lt (by omega)
  have hdisjoint := hkept.disjoint
  rw [hmmap, List.pairwise_append] at hdisjoint
  obtain ⟨-, hrest, hcross⟩ := hdisjoint
  have hx : ∀ e1 : MMapEntry, e1.Has a → e1.block.Has (BitVec.ofNat 64 a) := fun e1 h1 =>
    show e1.base.toNat ≤ _ ∧ _ < e1.base.toNat + e1.length.toNat from hword.symm ▸ h1
  rw [hmmap'] at he''
  rcases List.mem_append.mp he'' with hbefore | hafter
  · exact hcross e'' hbefore e List.mem_cons_self hu hcarves.usable _ (hx _ hhas) (hx _ hin)
  rcases List.mem_cons.mp hafter with rfl | hafter
  · have hfrom : e''.base.toNat ≤ a := hhas.1
    rw [hcarves.base_eq] at hfrom
    exact absurd harea.2 (not_lt.mpr hfrom)
  · exact (List.pairwise_cons.mp hrest).1 e'' hafter hcarves.usable hu _ (hx _ hin) (hx _ hhas)

lemma phys_clearPml4 (m : Mem) (t : Word) (n : ℕ) :
    phys (clearPml4 (physToVirt t) n m) = clearPml4 t n (phys m) := by
  unfold clearPml4
  induction List.range n generalizing m with
  | nil => rw [List.foldl_nil, List.foldl_nil]
  | cons i is ih => rw [List.foldl_cons, List.foldl_cons, ih, physToVirt_add, phys_store64]

/-- Bytes outside the table stay as they are. -/
lemma clearPml4_outside (ht : 4096 ∣ t.toNat) (hn : n ≤ 512)
    (hx : ¬(Block.mk t 4096).Has x) : clearPml4 t n P x = P x := by
  induction n with
  | zero => rfl
  | succ n ih =>
    simp only [clearPml4, List.range_succ, List.foldl_append, List.foldl_cons,
      List.foldl_nil] at ih ⊢
    rw [entry_store64_outside _ _ ht (by omega) hx, ih (by omega)]

/-- The first word of a chunk outside the kernel -/
lemma load64_clearPml4 (ht : t ∈ [K.pml4, K.pdpte, K.pdt]) (hc : c.toNat + 2 ^ 21 ≤ 2 ^ 47)
    (hkernel : ∀ a, c.toNat ≤ a → a < c.toNat + 2 ^ 21 → a ∉ kernelRam) :
    load64 (clearPml4 (physToVirt t) 256 m) (physToVirt c) = load64 m (physToVirt c) := by
  rw [← phys_load64, ← phys_load64, phys_clearPml4]
  refine load64_congr fun k hk => clearPml4_outside (K.aligned t ht) (by norm_num) fun hx => ?_
  have hin := K.inKernel t ht
  have hk' : (c + BitVec.ofNat 64 k).toNat = c.toNat + k := toNat_add_ofNat (by omega)
  obtain ⟨hlo, hhi⟩ := hx
  rw [hk'] at hlo hhi
  dsimp only at hlo hhi
  exact hkernel (c.toNat + k) (Nat.le_add_right _ _) (by omega) ⟨by omega, by omega⟩

/-- What `phys_memory_init` leaves on `stack_2MIB`. -/
structure HandedOver (K : KernelTables) (s : Boot) (psi : PageStructInfo) (s' : Boot)
    (nodes : List Word) : Prop where
  stack : ChunkStack (s'.alloc.chunks, s'.alloc.mem) nodes
  once : nodes.Nodup
  chunks : ∀ c, c ∈ nodes ↔ 2 ^ 21 ∣ c.toNat ∧ Inside s'.mmap c (2 ^ 21)
  usable : ∀ c ∈ nodes, Inside s.mmap c (2 ^ 21)
  kernel : ∀ c ∈ nodes, ∀ a, c.toNat ≤ a → a < c.toNat + 2 ^ 21 → a ∉ kernelRam
  area : ∀ c ∈ nodes, ∀ a, c.toNat ≤ a → a < c.toNat + 2 ^ 21 → a ∉ psi.area
  tables : ∀ t ∈ (createPagingStructures K psi (phys s.alloc.mem)).tables,
    ∀ a, t.toNat ≤ a → a < t.toNat + 4096 → a ∈ psi.area

/-- What `setup_physical_allocator` makes of memory with the new tables. -/
def allocatorSetup (K : KernelTables) (s : Boot) (psi : PageStructInfo)
    (mmap' : List MMapEntry) : Phys Stack :=
  setupPhysicalAllocator mmap' { s.alloc with
    mem := virt (createPagingStructures K psi (phys s.alloc.mem)).mem }

lemma physMemoryInit_some (hrun : physMemoryInit K s = .ok (psi, s')) :
    placeTables s.mmap = some (psi, s'.mmap) ∧
      s'.alloc.chunks = (allocatorSetup K s psi s'.mmap).chunks ∧
      s'.alloc.mem = clearPml4 (physToVirt K.pml4) 256 (allocatorSetup K s psi s'.mmap).mem := by
  rw [physMemoryInit] at hrun
  split at hrun
  · cases hrun
  · rename_i psi' mmap' hplace
    obtain ⟨rfl, rfl⟩ := Prod.mk.inj (Except.ok.inj hrun)
    refine ⟨hplace, ?_, ?_⟩
    · rw [allocatorSetup]
    · rw [allocatorSetup]

/-- The RAM of a map without overlaps is handed over exactly. -/
theorem physMemoryInit_handsOver (hmap : MapOk s.mmap)
    (hrun : physMemoryInit K s = .ok (psi, s')) : ∃ nodes, HandedOver K s psi s' nodes := by
  obtain ⟨hplace, hchunks, hstored⟩ := physMemoryInit_some hrun
  have hfit : EndBelow (2 ^ 47) s.mmap := hmap.below
  have hplan := placeTables_planned hfit hplace
  have hleft : MapOk s'.mmap := (hmap.of_parts hfit.keep_parts).of_parts hplan.placed.parts
  have hmem : ∀ c, c ∈ (mapChunks s'.mmap).reverse
      ↔ 2 ^ 21 ∣ c.toNat ∧ Inside s'.mmap c (2 ^ 21) :=
    fun c => by rw [List.mem_reverse, mem_mapChunks hleft]
  have hkernel : ∀ c ∈ (mapChunks s'.mmap).reverse, ∀ a, c.toNat ≤ a → a < c.toNat + 2 ^ 21 →
      a ∉ kernelRam := fun c hc a hlo hhi =>
    hplan.not_kernel hfit (usable_of_inside ((hmem c).mp hc).2 hlo hhi)
  have harea : ∀ c ∈ (mapChunks s'.mmap).reverse, ∀ a, c.toNat ≤ a → a < c.toNat + 2 ^ 21 →
      a ∉ psi.area := fun c hc a hlo hhi =>
    hplan.not_area hmap (usable_of_inside ((hmem c).mp hc).2 hlo hhi)
  refine ⟨(mapChunks s'.mmap).reverse, ?_, List.nodup_reverse.mpr (nodup_mapChunks hleft), hmem,
    fun c hc => inside_of_parts hfit.keep_parts
      (inside_of_parts hplan.placed.parts ((hmem c).mp hc).2),
    hkernel, harea, fun t ht a hlo hhi => ?_⟩
  · rw [hchunks, hstored]
    refine StackAt.congr (setup_chunkStack hleft _).2 fun c hc => ?_
    obtain ⟨e, he, hu, -, hend⟩ := ((hmem c).mp hc).2
    have hbelow : c.toNat + 2 ^ 21 ≤ 2 ^ 47 := hend.trans (hleft.below e he hu)
    have hpml4 : K.pml4 ∈ [K.pml4, K.pdpte, K.pdt] := List.mem_cons_self
    dsimp only
    rw [load64_clearPml4 hpml4 hbelow (hkernel c hc)]
    rfl
  · obtain ⟨-, hfrom, hto⟩ := (carved_createPagingStructures hplan.psiOk).between hplan.psiOk ht
    rw [← hplan.space] at hto
    exact ⟨hfrom.trans hlo, hhi.trans_le hto⟩

/-! ## The stores of `setup_physical_allocator` -/

lemma stackPush_store (y : Stack × Mem) (node : Word) : ∃ next, (next = 0 ∨ next = y.1.top) ∧
    (stackPush stack2MIB node y).2 = store64 y.2 node next ∧
    (stackPush stack2MIB node y).1.top = node := by
  unfold stackPush
  split
  · exact ⟨0, .inl rfl, rfl, rfl⟩
  · exact ⟨y.1.top, .inr rfl, rfl, rfl⟩

lemma present_physToVirt (hc : 2 ^ 21 ∣ c.toNat) : physToVirt c &&& presentBit = 0 := by
  have hand : (physToVirt c &&& presentBit).toNat = (physToVirt c).toNat % 2 ^ 1 / 2 ^ 0 * 2 ^ 0 :=
    toNat_and_mask 0 1 (by norm_num) (by norm_num) (physToVirt c)
  have hbase : kernelBase.toNat = 0xFFFF800000000000 := rfl
  apply word_ext
  rw [hand, physToVirt, BitVec.toNat_add, hbase]
  show _ = 0
  omega

/-- What the entries of tables become: of those in a chunk the first one is no longer present. -/
lemma entry_pushAll {cs : List Word} {y : Stack × Mem} (hcs : ∀ c ∈ cs, 2 ^ 21 ∣ c.toNat)
    (ht : 4096 ∣ t.toNat) :
    (∀ j < 512, t ∉ cs ∨ j ≠ 0 → entry (phys (pushAll cs y).2) t j = entry (phys y.2) t j) ∧
      (t ∈ cs → y.1.top &&& presentBit = 0 →
        entry (phys (pushAll cs y).2) t 0 &&& presentBit = 0) := by
  induction cs generalizing y with
  | nil => exact ⟨fun _ _ _ => rfl, fun hmem => absurd hmem List.not_mem_nil⟩
  | cons c cs ih =>
    obtain ⟨next, hnext, hmem, htop⟩ := stackPush_store y (physToVirt c)
    have hc := hcs c List.mem_cons_self
    obtain ⟨hkeep, hgone⟩ := ih (y := stackPush stack2MIB (physToVirt c) y)
      fun c hc => hcs c (List.mem_cons_of_mem _ hc)
    have hstore : phys (stackPush stack2MIB (physToVirt c) y).2
        = store64 (phys y.2) (c + BitVec.ofNat 64 (8 * 0)) next := by
      rw [hmem, phys_store64, Nat.mul_zero, BitVec.add_zero]
    have hpage : 4096 ∣ c.toNat := dvd_trans (by norm_num) hc
    have hcons : pushAll (c :: cs) y = pushAll cs (stackPush stack2MIB (physToVirt c) y) :=
      List.foldl_cons ..
    rw [hcons]
    constructor
    · intro j hj hne
      have hlater : t ∉ cs ∨ j ≠ 0 := hne.imp_left fun h hin => h (List.mem_cons_of_mem _ hin)
      have hapart : t ≠ c ∨ j ≠ 0 := hne.imp_left List.ne_of_not_mem_cons
      rw [hkeep j hj hlater, hstore,
        entry_store64_other _ _ ht hpage hj (Nat.zero_lt_succ 511) hapart]
    · intro hin hold
      by_cases hlater : t ∈ cs
      · refine hgone hlater ?_
        rw [htop, present_physToVirt hc]
      · -- this was the last store there
        obtain rfl : t = c := (List.mem_cons.mp hin).resolve_right hlater
        rw [hkeep 0 (Nat.zero_lt_succ 511) (.inl hlater), hstore, entry_store64_self]
        rcases hnext with rfl | rfl
        · exact BitVec.zero_and
        · exact hold

/-! ## How far the direct map reaches -/

/-- The GiBs that are mapped: the highest address, rounded to whole ones. -/
def mappedGiBs (mmap : List MMapEntry) : ℕ := max 1 ((highestAddress mmap + 2 ^ 29) / 2 ^ 30)

/-- `a` is in the first 2MiB of a page directory with a chunk in its place. -/
def Overlaid (psi : PageStructInfo) (mmap' : List MMapEntry) (a : ℕ) : Prop :=
  2 ^ 30 ≤ a ∧ a % 2 ^ 30 < 2 ^ 21 ∧ psi.table (a / 2 ^ 30 - 1) ∈ mapChunks mmap'

/-- The usable addresses are in the GiBs that are mapped, and no chunk replaces a page directory,
which takes entries that overlap. -/
structure MapsAll (mmap : List MMapEntry) : Prop where
  reached : ∀ a ∈ usableRam (mmap.map keep), a < mappedGiBs mmap * 2 ^ 30
  apart : ∀ psi mmap', placeTables mmap = some (psi, mmap') →
    ∀ a ∈ usableRam mmap', ¬Overlaid psi mmap' a

lemma Planned.gibs (h : Planned mmap psi mmap') : psi.numPds.toNat + 1 = mappedGiBs mmap := by
  have hpds := h.numPds
  rw [mappedGiBs]
  omega

lemma Planned.end_left (h : Planned mmap psi mmap') (hfit : EndBelow (2 ^ 47) mmap) :
    EndBelow (2 ^ 47) mmap' := (hfit.of_parts hfit.keep_parts).of_parts h.placed.parts

lemma Planned.dvd_chunk (h : Planned mmap psi mmap') (hfit : EndBelow (2 ^ 47) mmap)
    (hc : c ∈ mapChunks mmap') : 2 ^ 21 ∣ c.toNat :=
  ((mem_mapChunks_of_below (h.end_left hfit)).mp hc).1

/-- The kernel's own tables are in no chunk. -/
lemma Planned.kernel_not_mem (h : Planned mmap psi mmap') (hfit : EndBelow (2 ^ 47) mmap)
    (ht : t ∈ [K.pml4, K.pdpte, K.pdt]) : t ∉ mapChunks mmap' := by
  intro hc
  have hin := K.inKernel t ht
  have hinside := ((mem_mapChunks_of_below (h.end_left hfit)).mp hc).2
  have husable : t.toNat ∈ usableRam mmap' :=
    usable_of_inside hinside le_rfl (Nat.lt_add_of_pos_right (Nat.two_pow_pos 21))
  exact h.not_kernel hfit husable ⟨hin.1, by omega⟩

lemma entry_clearPml4 (hu : 4096 ∣ u.toNat) (ht : 4096 ∣ t.toNat) (hj : j < 512) (hn : n ≤ 512)
    (hne : u ≠ t ∨ n ≤ j) : entry (clearPml4 t n P) u j = entry P u j := by
  induction n with
  | zero => rfl
  | succ n ih =>
    have hne' : u ≠ t ∨ j ≠ n := hne.imp_right fun h => by omega
    have hprev := ih (by omega) (hne.imp_right fun h => by omega)
    simp only [clearPml4, List.range_succ, List.foldl_append, List.foldl_cons,
      List.foldl_nil] at hprev ⊢
    rw [entry_store64_other _ _ hu ht hj (by omega) hne', hprev]

/-- Memory after `phys_memory_init`, by physical address, next to memory with the new tables. -/
structure Left (K : KernelTables) (mmap' : List MMapEntry) (P P' : Mem) : Prop where
  same : ∀ t j, 4096 ∣ t.toNat → j < 512 → t ≠ K.pml4 ∨ 256 ≤ j →
    t ∉ mapChunks mmap' ∨ j ≠ 0 → entry P' t j = entry P t j
  gone : ∀ t ∈ mapChunks mmap', t ≠ K.pml4 → entry P' t 0 &&& presentBit = 0

lemma Planned.left (h : Planned mmap psi mmap') (hfit : EndBelow (2 ^ 47) mmap) (y : Phys Stack) :
    Left K mmap' (phys y.mem)
      (phys (clearPml4 (physToVirt K.pml4) 256 (setupPhysicalAllocator mmap' y).mem)) := by
  have hdvd : ∀ c ∈ mapChunks mmap', 2 ^ 21 ∣ c.toNat := fun c hc => h.dvd_chunk hfit hc
  have hpml4 : 4096 ∣ K.pml4.toNat := K.aligned _ List.mem_cons_self
  have hmem : (setupPhysicalAllocator mmap' y).mem
      = (pushAll (mapChunks mmap') (stackInit stack2MIB (y.chunks, y.mem))).2 := by
    rw [← foldl_setupEntry]
    rfl
  rw [hmem, phys_clearPml4]
  refine ⟨fun t j ht hj hne hnc => ?_, fun t hc hne => ?_⟩
  · rw [entry_clearPml4 ht hpml4 hj (by norm_num) hne, (entry_pushAll hdvd ht).1 j hj hnc]
    rfl
  · have ht : 4096 ∣ t.toNat := dvd_trans (by norm_num) (hdvd t hc)
    rw [entry_clearPml4 ht hpml4 (by norm_num) (by norm_num) (.inl hne)]
    exact (entry_pushAll hdvd ht).2 hc BitVec.zero_and

lemma directory_ne_pml4 (hpsi : PsiOk psi) (hi : i ≤ psi.numPds.toNat) :
    4096 ∣ (directory K psi i).toNat ∧ directory K psi i ≠ K.pml4 := by
  rw [directory]
  split
  · refine ⟨K.aligned _ (by simp), fun he => ?_⟩
    have hnodup := K.nodup
    simp only [List.nodup_cons, List.mem_cons, List.not_mem_nil, or_false, not_or] at hnodup
    exact hnodup.1.2 he.symm
  · have htable := hpsi.toNat_table (k := i - 1) (by omega)
    have haligned := hpsi.aligned
    have habove := hpsi.above
    refine ⟨by rw [htable]; omega, fun he => ?_⟩
    have hin := (K.inKernel K.pml4 (by simp)).2
    rw [← he, htable] at hin
    omega

/-- The walk for one address -/
lemma Left.translation_iff {r : Carving} {p : Word} (h : Left K mmap' r.mem P)
    (hpsi : PsiOk psi) (hle : psi.numPds.toNat ≤ 511) (hm : Prekernel K m)
    (hrounds : Rounds K psi m psi.numPds.toNat r)
    (hkernel : ∀ t ∈ [K.pml4, K.pdpte, K.pdt], t ∉ mapChunks mmap') (hp : p.toNat < 512 * 2 ^ 30) :
    translation P K.pml4 (physToVirt p) = some p
      ↔ p.toNat < (psi.numPds.toNat + 1) * 2 ^ 30 ∧ ¬Overlaid psi mmap' p.toNat := by
  have hpml4 : entry P K.pml4 256 = K.pdpte + 0b11 := by
    rw [h.same _ _ (K.aligned _ (by simp)) (by norm_num) (.inr le_rfl) (.inl (hkernel _ (by simp))),
      hrounds.pml4_256 hm]
  have hpdpte : ∀ i < 512, entry P K.pdpte i = entry r.mem K.pdpte i := fun i hi =>
    h.same _ _ (K.aligned _ (by simp)) hi (.inl K.ne.1.symm) (.inl (hkernel _ (by simp)))
  by_cases hlt : p.toNat < (psi.numPds.toNat + 1) * 2 ^ 30
  · have hgib : p.toNat / 2 ^ 30 ≤ psi.numPds.toNat :=
      Nat.lt_succ_iff.mp (Nat.div_lt_of_lt_mul (by rw [Nat.mul_comm]; exact hlt))
    obtain ⟨hpd, hentries⟩ := hrounds.directory hpsi hle hm hgib
    obtain ⟨haligned, hne⟩ := directory_ne_pml4 (K := K) hpsi hgib
    rw [← hpdpte _ (by omega)] at hpd
    have hslot : p.toNat / 2 ^ 21 % 512 < 512 := Nat.mod_lt _ (by norm_num)
    by_cases hgone : directory K psi (p.toNat / 2 ^ 30) ∈ mapChunks mmap' ∧
        p.toNat / 2 ^ 21 % 512 = 0
    · -- the chunk's node is where the entry for `p` was
      obtain ⟨hmem, hzero⟩ := hgone
      have hnone : translation P K.pml4 (physToVirt p) = none := by
        refine translation_absent hpml4 hp hpd ?_
        rw [hzero]
        exact h.gone _ hmem hne
      rw [hnone]
      refine iff_of_false nofun fun hno => hno.2 ?_
      have hpos : p.toNat / 2 ^ 30 ≠ 0 := fun h0 => by
        rw [h0, directory, if_pos rfl] at hmem
        exact hkernel _ (by simp) hmem
      rw [directory, if_neg hpos] at hmem
      exact ⟨by omega, by omega, hmem⟩
    · have hentry : entry P (directory K psi (p.toNat / 2 ^ 30)) (p.toNat / 2 ^ 21 % 512)
          = entry r.mem (directory K psi (p.toNat / 2 ^ 30)) (p.toNat / 2 ^ 21 % 512) :=
        h.same _ _ haligned hslot (.inl hne) (not_and_or.mp hgone)
      rw [hentries _ hslot] at hentry
      refine iff_of_true (translation_frame hpml4 hp hpd hentry) ⟨hlt, fun hover => hgone ?_⟩
      obtain ⟨hlo, hfirst, hmem⟩ := hover
      rw [directory, if_neg (by omega)]
      exact ⟨hmem, by omega⟩
  · have hzero : entry P K.pdpte (p.toNat / 2 ^ 30) = 0 := by
      rw [hpdpte _ (by omega), hrounds.pdpte_zero hm (by omega) (by omega)]
    rw [translation_none hpml4 hp hzero]
    exact iff_of_false nofun fun h => hlt h.1

/-- What is usable but for the tables is left, or lies below their end. -/
lemma Planned.usable_left (h : Planned mmap psi mmap') (ha : a ∈ usableRam (mmap.map keep)) :
    a ∈ usableRam mmap' ∨
      a < psi.base.toNat + 4096 * (psi.numPds.toNat + psi.numPdpts.toNat) := by
  obtain ⟨e0, he0, hu, hhas⟩ := ha
  obtain ⟨before, after, e, e', hmmap, hmmap', hcarves⟩ := h.placed.carves
  have hleft : ∀ e0 ∈ before ++ after, e0 ∈ mmap' := fun e0 he0 => by
    rw [hmmap']
    rcases List.mem_append.mp he0 with hbefore | hafter
    · exact List.mem_append_left _ hbefore
    · exact List.mem_append_right _ (List.mem_cons_of_mem _ hafter)
  rw [hmmap] at he0
  rcases List.mem_append.mp he0 with hbefore | hafter
  · exact .inl ⟨e0, hleft e0 (List.mem_append_left _ hbefore), hu, hhas⟩
  rcases List.mem_cons.mp hafter with rfl | hafter
  · rcases Nat.lt_or_ge a e'.base.toNat with hlt | hge
    · rw [hcarves.base_eq, h.space] at hlt
      exact .inr hlt
    · refine .inl ⟨e', ?_, hcarves.type_eq.trans hu, hge, hcarves.end_eq ▸ hhas.2⟩
      rw [hmmap']
      exact List.mem_append_right _ List.mem_cons_self
  · exact .inl ⟨e0, hleft e0 (List.mem_append_right _ hafter), hu, hhas⟩

/-- Which addresses are mapped to themselves at `KERNEL_BASE`. -/
lemma physMemoryInit_translation_iff {p : Word} (hm : Prekernel K (phys s.alloc.mem))
    (hfit : EndBelow (512 * 2 ^ 30) s.mmap) (hrun : physMemoryInit K s = .ok (psi, s'))
    (hp : p.toNat < 512 * 2 ^ 30) :
    translation (phys s'.alloc.mem) K.pml4 (physToVirt p) = some p
      ↔ p.toNat < mappedGiBs s.mmap * 2 ^ 30 ∧ ¬Overlaid psi s'.mmap p.toNat := by
  obtain ⟨hplace, -, hstored⟩ := physMemoryInit_some hrun
  have hend : EndBelow (2 ^ 47) s.mmap := hfit.mono (by norm_num)
  have hplan := placeTables_planned hend hplace
  have hhigh := hend.highestAddress hfit
  have hpds := hplan.numPds
  have hle : psi.numPds.toNat ≤ 511 := by omega
  have hrounds := rounds_createPagingStructures (K := K) (m := phys s.alloc.mem) hplan.psiOk hle
  have hleft := hplan.left hend (K := K) { s.alloc with
    mem := virt (createPagingStructures K psi (phys s.alloc.mem)).mem }
  rw [phys_virt] at hleft
  rw [← hplan.gibs, hstored, allocatorSetup]
  exact hleft.translation_iff hplan.psiOk hle hm hrounds
    (fun t ht => hplan.kernel_not_mem hend ht) hp

/-- The RAM that is left is all mapped if the highest address is not rounded below any of it, and
no page directory is overlaid; and only then. -/
theorem directMap_covers_iff (hm : Prekernel K (phys s.alloc.mem))
    (hfit : EndBelow (512 * 2 ^ 30) s.mmap) (hrun : physMemoryInit K s = .ok (psi, s')) :
    (∀ p : Word, p.toNat ∈ usableRam s'.mmap →
      translation (phys s'.alloc.mem) K.pml4 (physToVirt p) = some p) ↔ MapsAll s.mmap := by
  have hwalk : ∀ p : Word, p.toNat < 512 * 2 ^ 30 → _ := fun p hp =>
    physMemoryInit_translation_iff hm hfit hrun hp
  have hend : EndBelow (2 ^ 47) s.mmap := hfit.mono (by norm_num)
  obtain ⟨hplace, -⟩ := physMemoryInit_some hrun
  have hplan := placeTables_planned hend hplace
  have hbelow : ∀ a ∈ usableRam s'.mmap, a < 512 * 2 ^ 30 := fun a ha => by
    obtain ⟨e, he, hu, hhas⟩ := ha
    have hfit' := (hfit.of_parts hend.keep_parts).of_parts hplan.placed.parts
    exact hhas.2.trans_le (hfit' e he hu)
  constructor
  · intro hall
    have hreach : ∀ a ∈ usableRam s'.mmap,
        a < mappedGiBs s.mmap * 2 ^ 30 ∧ ¬Overlaid psi s'.mmap a := by
      intro a ha
      have hlt := hbelow a ha
      have hnat : (BitVec.ofNat 64 a).toNat = a := toNat_ofNat_lt (by omega)
      have hp : (BitVec.ofNat 64 a).toNat ∈ usableRam s'.mmap := hnat.symm ▸ ha
      have hboth := (hwalk _ (hnat.symm ▸ hlt)).mp (hall _ hp)
      rwa [hnat] at hboth
    refine ⟨fun a ha => ?_, fun psi1 mmap1 hplace1 a ha => ?_⟩
    · rcases hplan.usable_left ha with hin | hlow
      · exact (hreach a hin).1
      · -- the tables end in the first GiB, or in the second if it is mapped
        have hpds := hplan.numPds
        have hpdpts := hplan.numPdpts
        have hbase := hplan.placed.below
        have hhigh := hend.highestAddress hfit
        have hG : oneGiB.toNat = 2 ^ 30 := rfl
        rw [← hplan.gibs]
        omega
    · obtain ⟨rfl, rfl⟩ := Prod.mk.inj (Option.some.inj (hplace.symm.trans hplace1))
      exact (hreach a ha).2
  · intro hall p hp
    refine (hwalk p (hbelow _ hp)).mpr ⟨?_, hall.apart psi s'.mmap hplace _ hp⟩
    exact hall.reached _ (usableRam_of_parts hplan.placed.parts hp)

/-- Without overlaps only the rounding counts. -/
theorem mapsAll_iff (hmap : MapOk mmap) :
    MapsAll mmap ↔ ∀ a ∈ usableRam (mmap.map keep), a < mappedGiBs mmap * 2 ^ 30 := by
  have hfit : EndBelow (2 ^ 47) mmap := hmap.below
  refine ⟨MapsAll.reached, fun hreached => ⟨hreached, fun psi mmap' hplace a ha hover => ?_⟩⟩
  have hplan := placeTables_planned hfit hplace
  obtain ⟨hlo, -, hmem⟩ := hover
  have hlt := hreached a (usableRam_of_parts hplan.placed.parts ha)
  rw [← hplan.gibs] at hlt
  have htable := hplan.psiOk.toNat_table (k := a / 2 ^ 30 - 1) (by omega)
  have hinside := ((mem_mapChunks_of_below (hplan.end_left hfit)).mp hmem).2
  have husable : (psi.table (a / 2 ^ 30 - 1)).toNat ∈ usableRam mmap' :=
    usable_of_inside hinside le_rfl (Nat.lt_add_of_pos_right (Nat.two_pow_pos 21))
  refine hplan.not_area hmap husable ?_
  rw [PageStructInfo.area, hplan.space, htable]
  constructor <;> omega

/-! ## Two maps -/

lemma physMemoryInit_returns (h : placeTables s.mmap = some (psi, mmap')) :
    ∃ s', physMemoryInit K s = .ok (psi, s') ∧ s'.mmap = mmap' := by
  rw [physMemoryInit, h]
  exact ⟨_, rfl, rfl⟩

/-- Memory as it is linked, and no variables set yet -/
def linkedBoot (mmap : List MMapEntry) : Boot := ⟨mmap, virt linkedMem, ⟨0, 0⟩, 0⟩

/-- 2GiB of RAM, less the video memory. -/
def twoGiBs : List MMapEntry := [⟨0, 0xA0000, typeUsable⟩, ⟨0x100000, 0x7FF00000, typeUsable⟩]

lemma mapOk_twoGiBs : MapOk twoGiBs where
  below := by
    intro e he _
    obtain rfl | he := List.mem_cons.mp he
    · decide
    · obtain rfl := List.mem_singleton.mp he
      decide
  disjoint := by
    refine List.pairwise_pair.mpr fun _ _ x hx hx' => ?_
    have hlt : x.toNat < 0xA0000 := hx.2
    have hle : 0x100000 ≤ x.toNat := hx'.1
    omega

/-- The page directory of the second GiB is put behind the kernel. -/
lemma twoGiBs_returns : ∃ s',
    physMemoryInit linkedTables (linkedBoot twoGiBs) = .ok (⟨0x400000, 1, 0⟩, s') ∧
    s'.mmap = [⟨0, 0xA0000, typeUsable⟩, ⟨0x401000, 0x7FBFF000, typeUsable⟩] := by
  have hplace : placeTables (linkedBoot twoGiBs).mmap
      = some (⟨0x400000, 1, 0⟩,
          [⟨0, 0xA0000, typeUsable⟩, ⟨0x401000, 0x7FBFF000, typeUsable⟩]) := rfl
  exact physMemoryInit_returns hplace

theorem handsOver_twoGiBs : ∃ s' nodes,
    physMemoryInit linkedTables (linkedBoot twoGiBs) = .ok (⟨0x400000, 1, 0⟩, s') ∧
    HandedOver linkedTables (linkedBoot twoGiBs) ⟨0x400000, 1, 0⟩ s' nodes := by
  obtain ⟨s', hrun, -⟩ := twoGiBs_returns
  obtain ⟨nodes, hover⟩ := physMemoryInit_handsOver mapOk_twoGiBs hrun
  exact ⟨s', nodes, hrun, hover⟩

lemma prekernel_linkedBoot (mmap : List MMapEntry) :
    Prekernel linkedTables (phys (linkedBoot mmap).alloc.mem) := by
  rw [linkedBoot, phys_virt]
  exact prekernel_linked

/-- The end of memory is a whole number of GiB. -/
lemma mapsAll_twoGiBs : MapsAll twoGiBs := by
  refine (mapsAll_iff mapOk_twoGiBs).mpr fun a ha => ?_
  have hgibs : mappedGiBs twoGiBs = 2 := by decide
  have hkept : twoGiBs.map keep
      = [⟨0, 0xA0000, typeUsable⟩, ⟨0x400000, 0x7FC00000, typeUsable⟩] := rfl
  rw [hkept] at ha
  obtain ⟨e, he, -, -, hlt⟩ := ha
  rw [hgibs]
  obtain rfl | he := List.mem_cons.mp he
  · exact lt_trans (show a < 0xA0000 from hlt) (by norm_num)
  · obtain rfl := List.mem_singleton.mp he
    exact lt_of_lt_of_le (show a < 0x80000000 from hlt) (by norm_num)

theorem directMap_covers_twoGiBs : MapsAll twoGiBs ∧ ∃ s',
    physMemoryInit linkedTables (linkedBoot twoGiBs) = .ok (⟨0x400000, 1, 0⟩, s') ∧
    ((∀ p : Word, p.toNat ∈ usableRam s'.mmap →
      translation (phys s'.alloc.mem) linkedTables.pml4 (physToVirt p) = some p)
      ↔ MapsAll twoGiBs) := by
  obtain ⟨s', hrun, -⟩ := twoGiBs_returns
  have hfit : EndBelow (512 * 2 ^ 30) (linkedBoot twoGiBs).mmap := fun e he hu => by
    obtain rfl | he := List.mem_cons.mp he
    · decide
    · obtain rfl := List.mem_singleton.mp he
      decide
  exact ⟨mapsAll_twoGiBs, s', hrun,
    directMap_covers_iff (prekernel_linkedBoot twoGiBs) hfit hrun⟩

/-- 1344MiB of RAM: what lies above the first GiB is not mapped. -/
theorem not_directMap_covers : ¬∀ (s s' : Boot) (psi : PageStructInfo),
    Prekernel linkedTables (phys s.alloc.mem) → MapOk s.mmap → EndBelow (512 * 2 ^ 30) s.mmap →
    physMemoryInit linkedTables s = .ok (psi, s') →
    ∀ p : Word, p.toNat ∈ usableRam s'.mmap →
      translation (phys s'.alloc.mem) linkedTables.pml4 (physToVirt p) = some p := by
  intro hall
  have hplace : placeTables (linkedBoot [⟨0x100000, 0x53F00000, typeUsable⟩]).mmap
      = some (⟨0x400000, 0, 0⟩, [⟨0x400000, 0x53C00000, typeUsable⟩]) := rfl
  obtain ⟨s', hrun, hmmap⟩ := physMemoryInit_returns (K := linkedTables) hplace
  have hfit : EndBelow (512 * 2 ^ 30) (linkedBoot [⟨0x100000, 0x53F00000, typeUsable⟩]).mmap := by
    intro e he _
    obtain rfl := List.mem_singleton.mp he
    decide
  have hmap : MapOk (linkedBoot [⟨0x100000, 0x53F00000, typeUsable⟩]).mmap :=
    ⟨fun e he hu => (hfit e he hu).trans (by norm_num), List.pairwise_singleton _ _⟩
  have hm := prekernel_linkedBoot [⟨0x100000, 0x53F00000, typeUsable⟩]
  have husable : (0x40000000 : Word).toNat ∈ usableRam s'.mmap := by
    rw [hmmap]
    exact ⟨_, List.mem_singleton_self _, rfl, by decide, by decide⟩
  have hmapped := hall _ _ _ hm hmap hfit hrun _ husable
  have hiff := physMemoryInit_translation_iff hm hfit hrun (p := 0x40000000) (by decide)
  exact absurd (hiff.mp hmapped).1 (by decide)

end Bikeshed
