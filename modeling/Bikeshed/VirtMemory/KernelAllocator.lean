import Bikeshed.PhysMemory.Contract
import Bikeshed.VirtMemory.Isolation
import Bikeshed.VirtMemory.PhysicalInitTheorems
import Bikeshed.VirtMemory.Simulation

/-!
# Paging on the kernel's own allocator

`UserRun` are the operations on page tables after booting, with user addresses. Nothing is assumed
of the allocator any more: it is `phys_alloc.c` as `phys_memory_init` leaves it.
-/

namespace Bikeshed

open Lib PhysAlloc

variable {α β : Type} {A : PhysAllocator α} {B : PhysAllocator β} {H : PhysHeap A}
  {kernelTable : Word}

inductive UserStep (A : PhysAllocator α) (kernelTable : Word) : World α → World α → Prop
  | clone {s s' : Machine α} {live : List Word} {t p : Word} : t ∈ live →
      virtCloneMapping A t s = .ok (p, s') → UserStep A kernelTable ⟨s, live⟩ ⟨s', p :: live⟩
  | map {s s' : Machine α} {live : List Word} {t v flags pageSize : Word} {ret : Byte × Word} :
      t ∈ live → v.toNat < 2 ^ 47 → virtMapPage A t v flags pageSize s = .ok (ret, s') →
      UserStep A kernelTable ⟨s, live⟩ ⟨s', live⟩
  | unmap {s s' : Machine α} {live : List Word} {t v : Word} : t ∈ live → v.toNat < 2 ^ 47 →
      virtUnmapPage A t v s = .ok ((), s') → UserStep A kernelTable ⟨s, live⟩ ⟨s', live⟩
  | reset {s s' : Machine α} {live : List Word} {t : Word} : t ∈ live →
      virtResetTable A kernelTable t s = .ok ((), s') →
      UserStep A kernelTable ⟨s, live⟩ ⟨s', live⟩
  | cleanup {s s' : Machine α} {live : List Word} {t : Word} : t ∈ live → t ≠ kernelTable →
      virtCleanupTable A t s = .ok ((), s') →
      UserStep A kernelTable ⟨s, live⟩ ⟨s', live.erase t⟩

abbrev UserRun (A : PhysAllocator α) (kernelTable : Word) : World α → World α → Prop :=
  Relation.ReflTransGen (UserStep A kernelTable)

lemma Reach.run {w w' : World α} (h : Reach A H kernelTable w) (hr : UserRun A kernelTable w w') :
    Reach A H kernelTable w' := by
  induction hr with
  | refl => exact h
  | tail _ hstep ih =>
    cases hstep with
    | clone ht hrun => exact ih.clone ht hrun
    | map ht hv hrun => exact ih.map ht hv hrun
    | unmap ht hv hrun => exact ih.unmap ht hv hrun
    | reset ht hrun => exact ih.reset ht hrun
    | cleanup ht hne hrun => exact ih.cleanup ht hne hrun

def World.map (f : α → β) (w : World α) : World β := ⟨w.machine.map f, w.live⟩

/-- An allocator that knows less can take the same run. -/
lemma UserRun.carries {f : α → β} (h : A.Follows B f) {w w' : World α}
    (hr : UserRun A kernelTable w w') : UserRun B kernelTable (w.map f) (w'.map f) := by
  induction hr with
  | refl => exact .refl
  | tail _ hstep ih =>
    apply ih.tail
    cases hstep with
    | clone ht hrun => exact .clone ht (carries_virtCloneMapping h _ _ _ _ hrun)
    | map ht hv hrun => exact .map ht hv (carries_virtMapPage h _ _ _ _ _ _ _ hrun)
    | unmap ht hv hrun => exact .unmap ht hv (carries_virtUnmapPage h _ _ _ _ _ hrun)
    | reset ht hrun => exact .reset ht (carries_virtResetTable h _ _ _ _ _ hrun)
    | cleanup ht hne hrun => exact .cleanup ht hne (carries_virtCleanupTable h _ _ _ _ hrun)

/-- The ledger has no part in what the functions compute. -/
lemma ledgerAllocator_follows : ledgerAllocator.Follows kernelAllocator Ledger.vars where
  alloc4KIB h := (ledger_alloc4 h).1
  alloc2MIB h := (ledger_alloc2 h).1
  free4KIB h := (ledger_free4 h).2.2.1
  free2MIB h := (ledger_free2 h).2.1

/-! ## The machine after booting -/

variable {K : KernelTables} {s s' : Boot} {psi : PageStructInfo}

/-- No block is in use yet. -/
def Boot.machine (s : Boot) : Machine Ledger := ⟨s.alloc.mem, ⟨s.alloc.vars, [], []⟩, []⟩

/-- The map of `phys_memory_init`: all of it is in reach of the direct map, and there is no chunk
at address zero. -/
structure BootsWell (mmap : List MMapEntry) : Prop extends BootMap mmap where
  reach : EndBelow (2 ^ 39) mmap

lemma PhysAlloc.BootMap.of_parts {mmap mmap' : List MMapEntry} (h : BootMap mmap)
    (hparts : List.Forall₂ Part mmap' mmap) : BootMap mmap' where
  toMapOk := h.toMapOk.of_parts hparts
  noneAtZero := by
    intro e' he' hu hzero
    obtain ⟨e, he, hpart⟩ := exists_part hparts he'
    obtain ⟨hue, hlo, hhi⟩ := hpart hu
    have h0 : e'.base.toNat = 0 := by rw [hzero]; rfl
    have hbase : e.base = 0 := word_ext (by show _ = 0; omega)
    have hlength := h.noneAtZero e he hue hbase
    omega

/-- What is known of the chunks that are given to the allocator. -/
lemma init_chunk {c : Word} (h : BootsWell s.mmap) (hrun : physMemoryInit K s = .ok (psi, s'))
    (hc : c ∈ mapChunks s'.mmap) : Inside s'.mmap c (2 ^ 21) ∧ Inside s.mmap c (2 ^ 21) ∧
      ∀ a, c.toNat ≤ a → a < c.toNat + 2 ^ 21 → a ∉ kernelRam ∧ a ∉ psi.area := by
  have hfit : EndBelow (2 ^ 47) s.mmap := h.below
  have hplan := placeTables_planned hfit (physMemoryInit_some hrun).1
  have hin := ((mem_mapChunks_of_below (hplan.end_left hfit)).mp hc).2
  refine ⟨hin, inside_of_parts hfit.keep_parts (inside_of_parts hplan.placed.parts hin), ?_⟩
  intro a hlo hhi
  have husable := usable_of_inside hin hlo hhi
  exact ⟨hplan.not_kernel hfit husable, hplan.not_area h.toMapOk husable⟩

/-- The map that is left after `phys_memory_init`. -/
lemma BootsWell.left (h : BootsWell s.mmap) (hrun : physMemoryInit K s = .ok (psi, s')) :
    BootsWell s'.mmap := by
  have hfit : EndBelow (2 ^ 47) s.mmap := h.below
  have hplan := placeTables_planned hfit (physMemoryInit_some hrun).1
  exact ⟨(h.toBootMap.of_parts hfit.keep_parts).of_parts hplan.placed.parts,
    (h.reach.of_parts hfit.keep_parts).of_parts hplan.placed.parts⟩

lemma init_chunk_below {c : Word} (h : BootsWell s.mmap)
    (hrun : physMemoryInit K s = .ok (psi, s')) (hc : c ∈ mapChunks s'.mmap) :
    c.toNat + 2 ^ 21 ≤ 2 ^ 39 := by
  obtain ⟨⟨e, he, hu, -, hend⟩, -, -⟩ := init_chunk h hrun hc
  exact hend.trans ((h.left hrun).reach e he hu)

lemma init_chunk_apart {c : Word} (h : BootsWell s.mmap)
    (hrun : physMemoryInit K s = .ok (psi, s')) (hc : c ∈ mapChunks s'.mmap) :
    (page2MIB c).Disjoint (page4KIB K.pml4) := by
  obtain ⟨-, -, hout⟩ := init_chunk h hrun hc
  have hin := K.inKernel K.pml4 List.mem_cons_self
  -- the chunk does not start in the table, nor the table in the chunk
  by_contra hmeet
  rw [Block.Disjoint, not_or, not_le, not_le] at hmeet
  dsimp only at hmeet
  by_cases hle : c.toNat ≤ K.pml4.toNat
  · exact (hout K.pml4.toNat hle hmeet.1).1 ⟨hin.1, by omega⟩
  · exact (hout c.toNat le_rfl (by omega)).1 ⟨by omega, by omega⟩

/-- The chunks that the allocator is given, next to the kernel's PML4. -/
def initArena (K : KernelTables) (h : BootsWell s.mmap)
    (hrun : physMemoryInit K s = .ok (psi, s')) : Arena where
  supply := mapChunks s'.mmap
  image := [page4KIB K.pml4]
  ok := (h.left hrun).supplyOk
  below _ hc := init_chunk_below h hrun hc
  disjoint := List.pairwise_singleton _ _
  apart _ hb _ hc := List.mem_singleton.mp hb ▸ init_chunk_apart h hrun hc

lemma physMemoryInit_alloc (hrun : physMemoryInit K s = .ok (psi, s')) :
    s'.alloc = { allocatorSetup K s psi s'.mmap with
      mem := clearPml4 (physToVirt K.pml4) 256 (allocatorSetup K s psi s'.mmap).mem } := by
  rw [physMemoryInit] at hrun
  split at hrun
  · cases hrun
  · obtain ⟨rfl, rfl⟩ := Prod.mk.inj (Except.ok.inj hrun)
    rw [allocatorSetup]

lemma valid_init (h : BootsWell s.mmap) (hrun : physMemoryInit K s = .ok (psi, s')) :
    (initArena K h hrun).Valid s'.machine.heap s'.machine.mem := by
  have hstart : AllocInv (initArena K h hrun).supply (allocatorSetup K s psi s'.mmap) [] []
      (mapChunks s'.mmap).reverse [] [] := allocInv_start (h.left hrun).toBootMap _
  refine ⟨(mapChunks s'.mmap).reverse, [], [], ?_⟩
  show AllocInv _ s'.alloc [] [] _ [] []
  rw [physMemoryInit_alloc hrun]
  apply hstart.congr_supply
  intro c hc x hx
  rw [phys_clearPml4]
  -- the table that is cleared is in no chunk
  apply clearPml4_outside (K.aligned _ List.mem_cons_self) (by norm_num)
  exact fun hx' =>
    ((initArena K h hrun).apart _ (List.mem_singleton_self _) c hc).not_has hx' hx

lemma entry_clearPml4_self {t : Word} {P : Mem} {n i : ℕ} (ht : 4096 ∣ t.toNat) (hi : i < n)
    (hn : n ≤ 512) : entry (clearPml4 t n P) t i = 0 := by
  induction n with
  | zero => exact absurd hi (Nat.not_lt_zero i)
  | succ n ih =>
    simp only [clearPml4, List.range_succ, List.foldl_append, List.foldl_cons,
      List.foldl_nil] at ih ⊢
    by_cases he : i = n
    · rw [he, entry_store64_self]
    · rw [entry_store64_other _ _ ht ht (by omega) (by omega) (.inr he)]
      exact ih (by omega) (by omega)

lemma init_user (hrun : physMemoryInit K s = .ok (psi, s')) :
    ∀ i < 256, entry (phys s'.machine.mem) K.pml4 i = 0 := by
  intro i hi
  show entry (phys s'.alloc.mem) K.pml4 i = 0
  rw [physMemoryInit_alloc hrun]
  dsimp only
  rw [phys_clearPml4, entry_clearPml4_self (K.aligned _ List.mem_cons_self) hi (by norm_num)]

lemma reach_init (h : BootsWell s.mmap) (hrun : physMemoryInit K s = .ok (psi, s')) :
    Reach ledgerAllocator (initArena K h hrun).heap K.pml4 ⟨s'.machine, [K.pml4]⟩ :=
  .start (valid_init h hrun) (K.aligned _ List.mem_cons_self) (List.mem_singleton_self _)
    (init_user hrun)

/-- The block is usable memory that neither the kernel nor its paging structures are in. -/
def Housed (mmap : List MMapEntry) (psi : PageStructInfo) (b : Block) : Prop :=
  Inside mmap b.base b.size ∧
    ∀ a, b.base.toNat ≤ a → a < b.base.toNat + b.size → a ∉ kernelRam ∧ a ∉ psi.area

lemma Housed.part {mmap : List MMapEntry} {b c : Block} (h : Housed mmap psi c)
    (hlo : c.base.toNat ≤ b.base.toNat)
    (hhi : b.base.toNat + b.size ≤ c.base.toNat + c.size) : Housed mmap psi b := by
  obtain ⟨⟨e, he, hu, hfrom, hto⟩, hout⟩ := h
  refine ⟨⟨e, he, hu, hfrom.trans hlo, hhi.trans hto⟩, fun a h1 h2 => ?_⟩
  exact hout a (hlo.trans h1) (h2.trans_le hhi)

/-- Blocks in use, but for the kernel's PML4, are in usable memory. -/
lemma housed_own {a : Ledger} {m : Mem} {b : Block} (h : BootsWell s.mmap)
    (hrun : physMemoryInit K s = .ok (psi, s')) (hv : (initArena K h hrun).Valid a m)
    (hb : b ∈ (initArena K h hrun).own a) : b = page4KIB K.pml4 ∨ Housed s.mmap psi b := by
  have hchunk : ∀ c ∈ (initArena K h hrun).supply, Housed s.mmap psi (page2MIB c) :=
    fun c hc => (init_chunk h hrun hc).2
  obtain ⟨chunks, listed, full, hinv⟩ := hv
  rw [Arena.own, List.mem_append, List.mem_append] at hb
  rcases hb with hb | hb | hb
  · obtain ⟨c, hc, rfl⟩ := List.mem_map.mp hb
    exact .inr (hchunk c (hinv.large_mem hc))
  · obtain ⟨p, hp, rfl⟩ := List.mem_map.mp hb
    obtain ⟨-, -, c, hc, -, hlo, hhi⟩ := hinv.small_lies hp
    exact .inr ((hchunk c hc).part (Nat.le_of_add_right_le hlo) hhi)
  · exact .inl (List.mem_singleton.mp hb)

/-! ## Isolation on the kernel's allocator -/

/-- Whatever is done to page tables after booting is done on the functions of `phys_alloc.c` too,
and leaves the page tables apart, in usable memory. -/
theorem kernelAllocator_isolates (h : BootsWell s.mmap)
    (hrun : physMemoryInit K s = .ok (psi, s')) {w : World Ledger}
    (hw : UserRun ledgerAllocator K.pml4 ⟨s'.machine, [K.pml4]⟩ w) :
    UserRun kernelAllocator K.pml4 ⟨s'.machine.map Ledger.vars, [K.pml4]⟩ (w.map Ledger.vars) ∧
      Isolated (initArena K h hrun).heap w ∧
      ∀ t ∈ w.live, ∀ p ∈ userTree w.machine.mem t,
        p.block = page4KIB K.pml4 ∨ Housed s.mmap psi p.block := by
  have hr := (reach_init h hrun).run hw
  have hiso := isolation (initArena K h hrun).freesReturn hr
  refine ⟨hw.carries ledgerAllocator_follows, hiso, fun t ht p hp => ?_⟩
  exact housed_own h hrun (hr.inv (initArena K h hrun).freesReturn).valid
    (hiso.outstanding t ht p hp)

/-! ## A run after booting -/

/-- A chunk in use can be given back. -/
lemma ledger_free2_returns {R : Arena} {a : Ledger} {m : Mem} {c : Word} (hv : R.Valid a m)
    (hc : page2MIB c ∈ R.own a) (himage : ∀ b ∈ R.image, b.size = 4096) :
    ∃ r, ledgerAllocator.free2MIB c a m = .ok r := by
  obtain ⟨chunks, listed, full, hinv⟩ := hv
  have hlarge : c ∈ a.large := by
    rw [Arena.own, List.mem_append, List.mem_append] at hc
    rcases hc with hc | hc | hc
    · obtain ⟨d, hd, he⟩ := List.mem_map.mp hc
      obtain rfl : d = c := congrArg Block.base he
      exact hd
    · obtain ⟨d, -, he⟩ := List.mem_map.mp hc
      exact absurd (congrArg Block.size he) (by norm_num)
    · exact absurd (himage _ hc) (by norm_num)
  obtain ⟨u, s', hrun, -⟩ := (hinv.free2_contract hlarge).returns
  have hkernel : kernelAllocator.free2MIB c a.vars m = .ok (s'.vars, s'.mem) :=
    congrArg (Except.map fun r : Unit × Phys Stack => (r.2.vars, r.2.mem)) hrun
  refine ⟨(⟨s'.vars, a.large.erase c, a.small⟩, s'.mem), ?_⟩
  show (if c ∈ a.large then _ else _) = _
  rw [if_pos hlarge, hkernel]
  rfl

/-- A large page at 0 can be mapped and unmapped. -/
lemma map_unmap_large {R : Arena} {t : Word} {rest : List Block} {s : Machine Ledger}
    (hfoc : Focused R.heap t rest s.heap s.mem) (hroom : 4 ≤ R.heap.room s.heap)
    (hnone : walk (phys s.mem) 3 t 0 = none) (himage : ∀ b ∈ R.image, b.size = 4096) :
    ∃ frame s1 s2, virtMapPage ledgerAllocator t 0 pgFlagRw pageLarge s = .ok ((1, frame), s1) ∧
      virtUnmapPage ledgerAllocator t 0 s1 = .ok ((), s2) := by
  obtain ⟨⟨ret, frame⟩, s1, hmap, h | ⟨rfl, -, a1, m1, -, -, hh, m2, new, u, e', he⟩⟩ :=
    (wp_virtMapPage (E := fun _ => False) (v := 0) (s := s) hfoc.rooted (by decide) pgFlagRw
      pageLarge (.inr ⟨hroom, hnone, .inl rfl⟩)).returns
  · exact absurd (h.2.1 "") id
  have hwalk : walk (phys s1.mem) 3 t 0 = some (frame, 2 ^ 21) :=
    he.walk_same (by decide) fun i _ _ => rfl
  have hframe : page2MIB frame ∈ R.own s1.heap := he.grown.own.mem_iff.mpr
    (List.mem_append_right _ (hh.outstanding.mem_iff.mpr List.mem_cons_self))
  have hexact := wp_virtUnmapPage_exact (A := ledgerAllocator) (v := 0) he.after (by decide)
  rw [wp_iff] at hexact
  cases hunmap : virtUnmapPage ledgerAllocator t 0 s1 with
  | ok r => exact ⟨frame, s1, r.2, hmap, hunmap⟩
  | error e =>
    rcases hexact.2 e hunmap with hno | ⟨base, n, hwalk', hfree⟩
    · rw [hwalk] at hno
      cases hno
    · rw [hwalk] at hwalk'
      cases hwalk'
      obtain ⟨r, hr⟩ := ledger_free2_returns he.after.valid hframe himage
      rw [freeFrame, if_pos rfl, hr] at hfree
      cases hfree

lemma bootsWell_twoGiBs : BootsWell twoGiBs where
  toMapOk := mapOk_twoGiBs
  noneAtZero := by decide
  reach := by
    intro e he _
    obtain rfl | he := List.mem_cons.mp he
    · decide
    · obtain rfl := List.mem_singleton.mp he
      decide

/-- The chunks behind the kernel and the page directory. -/
lemma twoGiBs_chunks {s' : Boot}
    (hrun : physMemoryInit linkedTables (linkedBoot twoGiBs) = .ok (⟨0x400000, 1, 0⟩, s'))
    (hmmap : s'.mmap = [⟨0, 0xA0000, typeUsable⟩, ⟨0x401000, 0x7FBFF000, typeUsable⟩]) :
    5 ≤ s'.alloc.chunks.size.toNat := by
  obtain ⟨nodes, hover⟩ := physMemoryInit_handsOver mapOk_twoGiBs hrun
  have hsome : ∀ c ∈ ([0x600000, 0x800000, 0xA00000, 0xC00000, 0xE00000] : List Word),
      2 ^ 21 ∣ c.toNat ∧ (0x401000 : Word).toNat ≤ c.toNat ∧
        c.toNat + 2 ^ 21 ≤ (0x401000 : Word).toNat + (0x7FBFF000 : Word).toNat := by
    simp
  have hsub : ([0x600000, 0x800000, 0xA00000, 0xC00000, 0xE00000] : List Word) ⊆ nodes := by
    intro c hc
    obtain ⟨hdvd, hlo, hhi⟩ := hsome c hc
    rw [hover.chunks, hmmap]
    refine ⟨hdvd, _, List.mem_cons_of_mem _ (List.mem_singleton_self _), rfl, ?_, ?_⟩
    · exact hlo
    · exact hhi
  rw [hover.stack.size]
  exact (List.subperm_of_subset (by decide) hsub).length_le

/-- The first process's page table: a large page is mapped in it and unmapped again. -/
theorem kernelAllocator_isolates_twoGiBs : ∃ s' p frame s1 s2 s3,
    ∃ hrun : physMemoryInit linkedTables (linkedBoot twoGiBs) = .ok (⟨0x400000, 1, 0⟩, s'),
    virtCloneMapping ledgerAllocator linkedTables.pml4 s'.machine = .ok (p, s1) ∧
    virtMapPage ledgerAllocator p 0 pgFlagRw pageLarge s1 = .ok ((1, frame), s2) ∧
    virtUnmapPage ledgerAllocator p 0 s2 = .ok ((), s3) ∧
    UserRun kernelAllocator linkedTables.pml4
      ⟨s'.machine.map Ledger.vars, [linkedTables.pml4]⟩
      (World.map Ledger.vars ⟨s3, [p, linkedTables.pml4]⟩) ∧
    Isolated (initArena linkedTables bootsWell_twoGiBs hrun).heap
      ⟨s3, [p, linkedTables.pml4]⟩ := by
  obtain ⟨s', hrun, hmmap⟩ := twoGiBs_returns
  have hr := reach_init bootsWell_twoGiBs hrun
  have hreturn := (initArena linkedTables bootsWell_twoGiBs hrun).freesReturn
  obtain ⟨rest, hfoc⟩ := (hr.inv hreturn).focus (List.mem_singleton_self linkedTables.pml4)
  have huser : ∀ i ∈ slots userHalf 3,
      decode 3 (entry (phys s'.machine.mem) linkedTables.pml4 i) = .absent := fun i hi => by
    rw [slots_userHalf, List.mem_range] at hi
    rw [init_user hrun i hi, decode_zero]
  have htree : tree (phys s'.machine.mem) userHalf 3 linkedTables.pml4
      = [tablePage linkedTables.pml4] := tree_of_absent huser
  have hchunks := twoGiBs_chunks hrun hmmap
  have hroom : 5 ≤ (initArena linkedTables bootsWell_twoGiBs hrun).heap.room s'.machine.heap :=
    hchunks
  have hcovered : ∀ b ∈ blocks (tree (phys s'.machine.mem) userHalf 3 linkedTables.pml4),
      Covered ((initArena linkedTables bootsWell_twoGiBs hrun).heap.own s'.machine.heap) b :=
    fun _ hb => .of_mem (hfoc.mem_own hb)
  obtain ⟨p, s1, hclone, hcloned, -, hleft⟩ := (wp_virtCloneMapping_room (E := fun _ => False)
    hfoc.aligned hfoc.valid hfoc.form hcovered
    (.inr (by rw [htree, List.length_singleton]; omega))).returns
  rw [htree, List.length_singleton] at hleft
  have hslot : index 3 0 ∈ slots userHalf 3 := mem_slots.mpr ⟨index_lt 3 0, .inr (by decide)⟩
  have hnone : walk (phys s1.mem) 3 p 0 = none := by
    have hiff := (hcloned.deepCopy hcovered).translated 0 (by decide)
    rw [Ne, Ne, not_iff_not, translation_eq_none, translation_eq_none] at hiff
    exact hiff.mpr (walk_of_absent (huser _ hslot))
  have hr1 := hr.clone (List.mem_singleton_self _) hclone
  obtain ⟨rest1, hfoc1⟩ := (hr1.inv hreturn).focus List.mem_cons_self
  obtain ⟨frame, s2, s3, hmap, hunmap⟩ := map_unmap_large hfoc1 (by omega) hnone
    fun b hb => by rw [List.mem_singleton.mp hb]
  have hsteps : UserRun ledgerAllocator linkedTables.pml4 ⟨s'.machine, [linkedTables.pml4]⟩
      ⟨s3, [p, linkedTables.pml4]⟩ :=
    ((Relation.ReflTransGen.single (.clone (List.mem_singleton_self _) hclone)).tail
      (.map List.mem_cons_self (by decide) hmap)).tail
      (.unmap List.mem_cons_self (by decide) hunmap)
  obtain ⟨hkernel, hiso, -⟩ := kernelAllocator_isolates bootsWell_twoGiBs hrun hsteps
  exact ⟨s', p, frame, s1, s2, s3, hrun, hclone, hmap, hunmap, hkernel, hiso⟩

end Bikeshed
