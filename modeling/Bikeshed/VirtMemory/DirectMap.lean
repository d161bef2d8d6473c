import Bikeshed.PhysMemory.MemoryMap
import Bikeshed.VirtMemory.Paging

/-!
# The direct map

`create_paging_structures` runs on the first GiB that `prekernel.s` has mapped to itself, so
the tables it carves out and those of `prekernel.s` are all reached at their physical address,
and `mem` is memory seen that way. `tables` is what has been carved out so far.
-/

namespace Bikeshed

open Lib

def oneGiB : Word := 0x40000000

/-- What `create_paging_structures` reads of a `page_struct_info`. -/
structure PageStructInfo where
  base : Word
  numPds : Word
  numPdpts : Word

/-- `kernel_PML4`, `kernel_PDPTE` and `kernel_PDT`, as they are linked. -/
structure KernelTables where
  pml4 : Word
  pdpte : Word
  pdt : Word
  aligned : ∀ t ∈ [pml4, pdpte, pdt], 4096 ∣ t.toNat
  inKernel : ∀ t ∈ [pml4, pdpte, pdt], PhysAlloc.kernelStart.toNat ≤ t.toNat ∧
    t.toNat + 4096 ≤ PhysAlloc.kernelEnd.toNat
  nodup : [pml4, pdpte, pdt].Nodup

/-- The variables of `create_paging_structures`. -/
structure Carving where
  mem : Mem
  allocPtr : Word
  physAddress : Word
  pdsLeft : Word
  pdptsLeft : Word
  tables : List Word

/-- `table->entries[i] = e` -/
def putEntry (table : Word) (i : ℕ) (e : Word) (m : Mem) : Mem :=
  store64 m (table + BitVec.ofNat 64 (8 * i)) e

/-- One round of the loop over `pd_table->entries`. -/
def putPage (pdTable : Word) (s : Carving) (j : ℕ) : Carving :=
  { s with
    mem := putEntry pdTable j (s.physAddress ||| pdtPageSize ||| writable ||| present) s.mem
    physAddress := s.physAddress + pageLargeSize }

/-- One page directory, and its entry `i` in the table above it. -/
def addPd (pdpTable : Word) (i : ℕ) (s : Carving) : Carving :=
  let pdTable := s.allocPtr
  let s := { s with
    mem := putEntry pdpTable i (pdTable ||| writable ||| present) (memclr s.mem pdTable 4096)
    allocPtr := s.allocPtr + 4096
    pdsLeft := s.pdsLeft - 1
    tables := s.tables ++ [pdTable] }
  (List.range 512).foldl (putPage pdTable) s

/-- The loop over the entries of `pdp_table`, with its indices. -/
def addPds (pdpTable : Word) : List ℕ → Carving → Carving
  | [], s => s
  | i :: is, s => if s.pdsLeft = 0 then s else addPds pdpTable is (addPd pdpTable i s)

/-- One page directory pointer table with its page directories. -/
def addPdp (pml4Table : Word) (i : ℕ) (s : Carving) : Carving :=
  let pdpTable := s.allocPtr
  let s := { s with
    mem := putEntry pml4Table i (pdpTable ||| writable ||| present) (memclr s.mem pdpTable 4096)
    allocPtr := s.allocPtr + 4096
    pdptsLeft := s.pdptsLeft - 1
    tables := s.tables ++ [pdpTable] }
  addPds pdpTable (List.range 512) s

/-- The loop over the entries of `pml4_table`, with its indices. -/
def addPdps (pml4Table : Word) : List ℕ → Carving → Carving
  | [], s => s
  | i :: is, s =>
    if s.pdptsLeft = 0 ∨ s.pdsLeft = 0 then s else addPdps pml4Table is (addPdp pml4Table i s)

def createPagingStructures (K : KernelTables) (psi : PageStructInfo) (m : Mem) : Carving :=
  let s := addPds K.pdpte (List.range' 1 511) ⟨m, psi.base, oneGiB, psi.numPds, psi.numPdpts, []⟩
  addPdps K.pml4 (List.range' 1 511) s

variable {K : KernelTables} {psi : PageStructInfo} {m : Mem} {s : Carving} {i j n : ℕ}
  {is : List ℕ} {t pd pdp x : Word}

/-! ## One page directory -/

lemma memclr_page (ht : 4096 ∣ t.toNat) : memclr m t 4096 = fill m t 4096 0 := by
  have hhead : headLength t = 0 := by
    unfold headLength
    omega
  refine (memclr_eq m (by rw [hhead]; exact Nat.zero_le _)).trans ?_
  rfl

/-- What has become of a page directory after `n` rounds of its loop. -/
structure PagesPut (pd : Word) (n : ℕ) (s s' : Carving) : Prop where
  physAddress : s'.physAddress = s.physAddress + BitVec.ofNat 64 (0x200000 * n)
  entries : ∀ j < n, entry s'.mem pd j
    = s.physAddress + BitVec.ofNat 64 (0x200000 * j) ||| (pdtPageSize ||| writable ||| present)
  outside : ∀ x, ¬ (Block.mk pd 4096).Has x → s'.mem x = s.mem x
  same : s' = { s with mem := s'.mem, physAddress := s'.physAddress }

lemma pagesPut (hpd : 4096 ∣ pd.toNat) (hn : n ≤ 512) (s : Carving) :
    PagesPut pd n s ((List.range n).foldl (putPage pd) s) := by
  induction n with
  | zero =>
    refine ⟨?_, fun j hj => absurd hj (Nat.not_lt_zero j), fun _ _ => rfl, rfl⟩
    exact (BitVec.add_zero s.physAddress).symm
  | succ n ih =>
    obtain ⟨hphys, hentries, hout, hsame⟩ := ih (by omega)
    rw [List.range_succ, List.foldl_append, List.foldl_cons, List.foldl_nil]
    generalize (List.range n).foldl (putPage pd) s = s' at hphys hentries hout hsame ⊢
    refine ⟨?_, fun j hj => ?_, fun x hx => ?_, ?_⟩
    · show s'.physAddress + pageLargeSize = _
      have hone : pageLargeSize = BitVec.ofNat 64 (0x200000 * 1) := by decide
      rw [hphys, BitVec.add_assoc, hone, ← BitVec.ofNat_add, ← Nat.mul_add]
    · show entry (store64 _ _ _) pd j = _
      rcases Nat.lt_succ_iff_lt_or_eq.mp hj with hj | rfl
      · rw [entry_store64_other _ _ hpd hpd (by omega) (by omega) (.inr (by omega)), hentries j hj]
      · rw [entry_store64_self, hphys, BitVec.or_assoc, BitVec.or_assoc, BitVec.or_assoc]
    · exact (entry_store64_outside _ _ hpd (by omega) hx).trans (hout x hx)
    · rw [hsame]
      rfl

/-- What `addPd` does: the new table is the page at `allocPtr`. -/
structure PdAdded (pdp : Word) (i : ℕ) (s s' : Carving) : Prop where
  above : entry s'.mem pdp i = s.allocPtr ||| (writable ||| present)
  entries : ∀ j < 512, entry s'.mem s.allocPtr j
    = s.physAddress + BitVec.ofNat 64 (0x200000 * j) ||| (pdtPageSize ||| writable ||| present)
  others : ∀ t j, 4096 ∣ t.toNat → j < 512 → t ≠ s.allocPtr → t ≠ pdp ∨ j ≠ i →
    entry s'.mem t j = entry s.mem t j
  outside : ∀ x, ¬ (Block.mk s.allocPtr 4096).Has x → ¬ (Block.mk pdp 4096).Has x →
    s'.mem x = s.mem x
  allocPtr : s'.allocPtr = s.allocPtr + 4096
  physAddress : s'.physAddress = s.physAddress + oneGiB
  pdsLeft : s'.pdsLeft = s.pdsLeft - 1
  pdptsLeft : s'.pdptsLeft = s.pdptsLeft
  tables : s'.tables = s.tables ++ [s.allocPtr]

lemma pdAdded (hpd : 4096 ∣ s.allocPtr.toNat) (hpdp : 4096 ∣ pdp.toNat) (hi : i < 512)
    (hne : pdp ≠ s.allocPtr) : PdAdded pdp i s (addPd pdp i s) := by
  obtain ⟨hphys, hentries, hout, hsame⟩ := pagesPut hpd le_rfl { s with
    mem := putEntry pdp i (s.allocPtr ||| writable ||| present) (memclr s.mem s.allocPtr 4096)
    allocPtr := s.allocPtr + 4096
    pdsLeft := s.pdsLeft - 1
    tables := s.tables ++ [s.allocPtr] }
  unfold addPd
  generalize (List.range 512).foldl _ _ = s' at hphys hentries hout hsame ⊢
  have hkeep : ∀ t j, 4096 ∣ t.toNat → j < 512 → t ≠ s.allocPtr →
      entry s'.mem t j = entry (putEntry pdp i (s.allocPtr ||| writable ||| present)
        (memclr s.mem s.allocPtr 4096)) t j := fun t j ht hj hta =>
    entry_congr ht hj fun x hx => hout x ((Block.disjoint_of_dvd hpd ht hta.symm).not_has hx)
  have hclear : ∀ x, ¬ (Block.mk s.allocPtr 4096).Has x →
      memclr s.mem s.allocPtr 4096 x = s.mem x := fun x hx => by
    rw [memclr_page hpd]
    exact fill_outside _ (add_le_of_dvd hpd) hx
  refine ⟨?_, hentries, fun t j ht hj hta hti => ?_, fun x hx hxp => ?_, ?_, hphys, ?_, ?_, ?_⟩
  · rw [hkeep pdp i hpdp hi hne, putEntry, entry_store64_self, BitVec.or_assoc]
  · rw [hkeep t j ht hj hta, putEntry, entry_store64_other _ _ ht hpdp hj hi hti]
    exact entry_congr ht hj fun x hx =>
      hclear x ((Block.disjoint_of_dvd hpd ht hta.symm).not_has hx)
  · exact (hout x hx).trans ((entry_store64_outside _ _ hpdp hi hxp).trans (hclear x hx))
  · rw [hsame]
  · rw [hsame]
  · rw [hsame]
  · rw [hsame]

/-! ## The budget -/

/-- What `phys_memory_init` ensures of its argument. -/
structure PsiOk (psi : PageStructInfo) : Prop where
  aligned : 4096 ∣ psi.base.toNat
  above : PhysAlloc.kernelEnd.toNat ≤ psi.base.toNat
  below : psi.base.toNat < oneGiB.toNat
  room : psi.base.toNat + 4096 * (psi.numPds.toNat + psi.numPdpts.toNat) ≤ 2 ^ 64

/-- The page that becomes table `k`. -/
def PageStructInfo.table (psi : PageStructInfo) (k : ℕ) : Word :=
  psi.base + BitVec.ofNat 64 (4096 * k)

lemma PsiOk.toNat_table (h : PsiOk psi) {k : ℕ} (hk : k < psi.numPds.toNat + psi.numPdpts.toNat) :
    (psi.table k).toNat = psi.base.toNat + 4096 * k :=
  toNat_add_ofNat (by have := h.room; omega)

/-- The tables lie one after the other, each taken from the budget, and nothing else is written
but what hangs on them. -/
structure Carved (K : KernelTables) (psi : PageStructInfo) (m : Mem) (s : Carving) : Prop where
  tables : s.tables = (List.range s.tables.length).map psi.table
  allocPtr : s.allocPtr = psi.table s.tables.length
  budget : s.tables.length + s.pdsLeft.toNat + s.pdptsLeft.toNat
    = psi.numPds.toNat + psi.numPdpts.toNat
  outside : ∀ x, (∀ t ∈ K.pdpte :: K.pml4 :: s.tables, ¬ (Block.mk t 4096).Has x) → s.mem x = m x

lemma Carved.mem_tables (h : Carved K psi m s) :
    t ∈ s.tables ↔ ∃ k < s.tables.length, psi.table k = t := by
  conv_lhs => rw [h.tables]
  simp only [List.mem_map, List.mem_range]

/-- The tables that are written are pages below `allocPtr`. -/
lemma Carved.below (hpsi : PsiOk psi) (h : Carved K psi m s)
    (hroom : s.tables.length < psi.numPds.toNat + psi.numPdpts.toNat)
    (ht : t ∈ K.pdpte :: K.pml4 :: s.tables) :
    4096 ∣ t.toNat ∧ t.toNat + 4096 ≤ s.allocPtr.toNat := by
  have habove := hpsi.above
  have hptr := hpsi.toNat_table hroom
  have hkernel : ∀ t ∈ [K.pml4, K.pdpte, K.pdt],
      4096 ∣ t.toNat ∧ t.toNat + 4096 ≤ s.allocPtr.toNat := fun t ht => by
    have hin := K.inKernel t ht
    rw [h.allocPtr, hptr]
    exact ⟨K.aligned t ht, by omega⟩
  obtain rfl | ht := List.mem_cons.mp ht
  · exact hkernel _ (by simp)
  obtain rfl | ht := List.mem_cons.mp ht
  · exact hkernel _ (by simp)
  · obtain ⟨k, hk, rfl⟩ := h.mem_tables.mp ht
    have haligned := hpsi.aligned
    rw [h.allocPtr, hptr, hpsi.toNat_table (hk.trans hroom)]
    omega

lemma Carved.aligned_allocPtr (hpsi : PsiOk psi) (h : Carved K psi m s)
    (hroom : s.tables.length < psi.numPds.toNat + psi.numPdpts.toNat) :
    4096 ∣ s.allocPtr.toNat := by
  have haligned := hpsi.aligned
  rw [h.allocPtr, hpsi.toNat_table hroom]
  omega

/-- Another table is carved out. -/
lemma Carved.next {s' : Carving} (h : Carved K psi m s)
    (htables : s'.tables = s.tables ++ [s.allocPtr]) (hptr : s'.allocPtr = s.allocPtr + 4096)
    (hbudget : s'.pdsLeft.toNat + s'.pdptsLeft.toNat + 1 = s.pdsLeft.toNat + s.pdptsLeft.toNat)
    (hout : ∀ x, (∀ t ∈ K.pdpte :: K.pml4 :: s'.tables, ¬ (Block.mk t 4096).Has x) →
      s'.mem x = s.mem x) : Carved K psi m s' := by
  have hlen : s'.tables.length = s.tables.length + 1 := by
    rw [htables, List.length_append, List.length_singleton]
  refine ⟨?_, ?_, ?_, fun x hx => (hout x hx).trans (h.outside x fun t ht => hx t ?_)⟩
  · rw [hlen, List.range_succ, List.map_append, ← h.tables, htables, h.allocPtr]
    rfl
  · have hstep : (4096 : Word) = BitVec.ofNat 64 (4096 * 1) := by decide
    rw [hptr, h.allocPtr, hlen, PageStructInfo.table, PageStructInfo.table, BitVec.add_assoc,
      hstep, ← BitVec.ofNat_add, ← Nat.mul_add]
  · have := h.budget
    omega
  · rw [htables, ← List.cons_append, ← List.cons_append]
    exact List.mem_append_left _ ht

lemma Carved.addPd (hpsi : PsiOk psi) (h : Carved K psi m s) (hleft : s.pdsLeft ≠ 0)
    (hpdp : pdp ∈ K.pdpte :: K.pml4 :: s.tables) (hi : i < 512) :
    Carved K psi m (addPd pdp i s) ∧ PdAdded pdp i s (addPd pdp i s) := by
  have hpos : 0 < s.pdsLeft.toNat := Nat.pos_of_ne_zero fun h0 => hleft (word_ext h0)
  have hbudget := h.budget
  obtain ⟨haligned, hlt⟩ := h.below hpsi (by omega) hpdp
  have hadd := pdAdded (h.aligned_allocPtr hpsi (by omega)) haligned hi (fun he => by
    rw [← he] at hlt
    omega)
  refine ⟨h.next hadd.tables hadd.allocPtr ?_ fun x hx => hadd.outside x (hx _ ?_) (hx _ ?_), hadd⟩
  · rw [hadd.pdsLeft, hadd.pdptsLeft, toNat_pred hpos]
    omega
  · rw [hadd.tables]
    simp
  · rw [hadd.tables, ← List.cons_append, ← List.cons_append]
    exact List.mem_append_left _ hpdp

lemma Carved.addPds (hpsi : PsiOk psi) (h : Carved K psi m s)
    (hpdp : pdp ∈ K.pdpte :: K.pml4 :: s.tables) (his : ∀ i ∈ is, i < 512) :
    Carved K psi m (addPds pdp is s) := by
  induction is generalizing s with
  | nil => exact h
  | cons i is ih =>
    rw [Bikeshed.addPds]
    split
    · exact h
    rename_i hleft
    obtain ⟨hcarved, hadd⟩ := h.addPd hpsi hleft hpdp (his i List.mem_cons_self)
    refine ih hcarved ?_ fun i hi => his i (List.mem_cons_of_mem _ hi)
    rw [hadd.tables, ← List.cons_append, ← List.cons_append]
    exact List.mem_append_left _ hpdp

lemma Carved.addPdp (hpsi : PsiOk psi) (h : Carved K psi m s) (hleft : s.pdptsLeft ≠ 0)
    (hi : i < 512) : Carved K psi m (addPdp K.pml4 i s) := by
  have hpos : 0 < s.pdptsLeft.toNat := Nat.pos_of_ne_zero fun h0 => hleft (word_ext h0)
  have hbudget := h.budget
  obtain ⟨haligned, -⟩ := h.below hpsi (t := K.pml4) (by omega) (by simp)
  have hptr := h.aligned_allocPtr hpsi (by omega)
  have hnext : Carved K psi m { s with
      mem := putEntry K.pml4 i (s.allocPtr ||| writable ||| present) (memclr s.mem s.allocPtr 4096)
      allocPtr := s.allocPtr + 4096
      pdptsLeft := s.pdptsLeft - 1
      tables := s.tables ++ [s.allocPtr] } := by
    refine h.next rfl rfl ?_ fun x hx => ?_
    · dsimp only
      rw [toNat_pred hpos]
      omega
    · show putEntry _ _ _ _ x = _
      rw [putEntry, entry_store64_outside _ _ haligned hi (hx _ (by simp)), memclr_page hptr]
      exact fill_outside _ (add_le_of_dvd hptr) (hx _ (by simp))
  exact hnext.addPds hpsi (by simp) fun i hi => List.mem_range.mp hi

lemma Carved.addPdps (hpsi : PsiOk psi) (h : Carved K psi m s) (his : ∀ i ∈ is, i < 512) :
    Carved K psi m (addPdps K.pml4 is s) := by
  induction is generalizing s with
  | nil => exact h
  | cons i is ih =>
    rw [Bikeshed.addPdps]
    split
    · exact h
    rename_i hleft
    exact ih (h.addPdp hpsi (not_or.mp hleft).1 (his i List.mem_cons_self))
      fun i hi => his i (List.mem_cons_of_mem _ hi)

end Bikeshed
