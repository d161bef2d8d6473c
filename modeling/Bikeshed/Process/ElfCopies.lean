import Bikeshed.Kernel.KlibWrites
import Bikeshed.Process.Elf
import Bikeshed.VirtMemory.CloneTheorems

/-!
# The copies of `elf_create_process`

One page of a segment is filled by at most two calls, `memcpy` for what is left of the file and
`memclr` for the rest of the page. Whatever the program header says, they write the bytes of the
frame and nothing else.
-/

namespace Bikeshed

open Lib

variable {pageSize memoryAddress : Word}

/-- The addresses of the bytes that the calls for one page write, in order. -/
def pageWrites (elfAddress pageSize memoryAddress : Word) (l : Loading) : List Word :=
  fillPage (fun dst _ size ws => ws ++ blockWrites dst size)
    (fun ptr size ws => ws ++ blockWrites ptr size) elfAddress pageSize memoryAddress l []

/-- Where the calls start to write, and their sizes. -/
def pageCalls (elfAddress pageSize memoryAddress : Word) (l : Loading) : List (Word × Word) :=
  fillPage (fun dst _ size cs => cs ++ [(dst, size)]) (fun ptr size cs => cs ++ [(ptr, size)])
    elfAddress pageSize memoryAddress l []

/-- The frame is filled: its bytes are written, each once, and no others, and no counter wraps. -/
structure Fills (elfAddress pageSize memoryAddress : Word) (l : Loading) : Prop where
  writes : pageWrites elfAddress pageSize memoryAddress l
    = addresses (physToVirt memoryAddress) pageSize.toNat
  counts : ∀ c ∈ pageCalls elfAddress pageSize memoryAddress l, NeverWraps c.1 c.2

lemma headLength_add_aligned {p : Word} (hp : 8 ∣ p.toNat) (n : Word) :
    headLength (p + n) = (8 - n.toNat % 8) % 8 := by
  have hlt := p.isLt
  rw [headLength, BitVec.toNat_add]
  omega

lemma headLength_aligned {p : Word} (hp : 8 ∣ p.toNat) : headLength p = 0 := by
  rw [headLength]
  omega

lemma copyAmount_le (pageSize amountLeft : Word) :
    (copyAmount pageSize amountLeft).toNat ≤ pageSize.toNat := by
  unfold copyAmount
  split
  · exact le_rfl
  · rename_i h
    exact BitVec.le_def.mp (BitVec.not_lt.mp h)

lemma physToVirt_dvd {p : Word} (h : 8 ∣ p.toNat) : 8 ∣ (physToVirt p).toNat := by
  have hbase : (8 : ℕ) ∣ kernelBase.toNat := by decide
  rw [physToVirt, BitVec.toNat_add]
  omega

/-- The first loop of `memclr` does not go beyond what `memcpy` has left of the page. -/
lemma headLength_rest (hs : 8 ∣ pageSize.toNat) (ha : 8 ∣ memoryAddress.toNat) {amount : Word}
    (hle : amount.toNat ≤ pageSize.toNat) :
    headLength (physToVirt (memoryAddress + amount)) ≤ (pageSize - amount).toNat := by
  rw [← physToVirt_add, headLength_add_aligned (physToVirt_dvd ha),
    BitVec.toNat_sub_of_le (by rw [BitVec.le_def]; exact hle)]
  omega

/-- The two calls write one after the other. -/
lemma addresses_split (p : Word) {amount : Word} (h : amount.toNat ≤ pageSize.toNat) :
    addresses (physToVirt p) amount.toNat
        ++ addresses (physToVirt (p + amount)) (pageSize - amount).toNat
      = addresses (physToVirt p) pageSize.toNat := by
  have hnext : physToVirt (p + amount) = physToVirt p + BitVec.ofNat 64 amount.toNat := by
    rw [BitVec.ofNat_toNat, BitVec.setWidth_eq, physToVirt_add]
  rw [BitVec.toNat_sub_of_le (by rw [BitVec.le_def]; exact h), hnext, ← addresses_add,
    Nat.add_sub_cancel' h]

section FillPage

variable {σ : Type} {copy : Word → Word → Word → σ → σ} {clear : Word → Word → σ → σ}
  {elfAddress : Word} {l : Loading}

lemma fillPage_copy (h : 0 < l.amountLeft) (m : σ) :
    fillPage copy clear elfAddress pageSize memoryAddress l m
      = clear (physToVirt (memoryAddress + copyAmount pageSize l.amountLeft))
        (pageSize - copyAmount pageSize l.amountLeft)
        (copy (physToVirt memoryAddress) (elfAddress + l.loadOffset)
          (copyAmount pageSize l.amountLeft) m) := if_pos h

lemma fillPage_clear (h : ¬ 0 < l.amountLeft) (m : σ) :
    fillPage copy clear elfAddress pageSize memoryAddress l m
      = clear (physToVirt memoryAddress) pageSize m := if_neg h

end FillPage

lemma fills (elfAddress : Word) (l : Loading) (hs : 8 ∣ pageSize.toNat)
    (ha : 8 ∣ memoryAddress.toNat) : Fills elfAddress pageSize memoryAddress l := by
  have hle := copyAmount_le pageSize l.amountLeft
  have hcopy : ∀ size : Word, headLength (physToVirt memoryAddress) ≤ size.toNat := by
    intro size
    rw [headLength_aligned (physToVirt_dvd ha)]
    exact Nat.zero_le _
  have hclear := headLength_rest hs ha hle
  by_cases hpos : 0 < l.amountLeft
  · constructor
    · rw [pageWrites, fillPage_copy hpos, List.nil_append, blockWrites_eq (hcopy _),
        blockWrites_eq hclear, addresses_split _ hle]
    · rw [pageCalls, fillPage_copy hpos]
      intro c hc
      rcases List.mem_append.mp hc with hc | hc
      · rw [List.mem_singleton.mp hc]
        exact neverWraps (hcopy _)
      · rw [List.mem_singleton.mp hc]
        exact neverWraps hclear
  · constructor
    · rw [pageWrites, fillPage_clear hpos, List.nil_append, blockWrites_eq (hcopy _)]
    · rw [pageCalls, fillPage_clear hpos]
      intro c hc
      rw [List.mem_singleton.mp hc]
      exact neverWraps (hcopy _)

/-- What the calls do to memory -/
abbrev fillFrame (elfAddress pageSize memoryAddress : Word) (l : Loading) (m : Mem) : Mem :=
  fillPage (fun dst src size m => memcpy m dst src size) (fun ptr size m => memclr m ptr size)
    elfAddress pageSize memoryAddress l m

/-- Memory changes where the calls write. -/
lemma changedAt_fillFrame (elfAddress pageSize memoryAddress : Word) (l : Loading) (m : Mem) :
    ChangedAt m (fillFrame elfAddress pageSize memoryAddress l m)
      (pageWrites elfAddress pageSize memoryAddress l) := by
  by_cases hpos : 0 < l.amountLeft
  · rw [pageWrites, fillFrame, fillPage_copy hpos, fillPage_copy hpos, List.nil_append]
    exact (changedAt_memcpy m _ _ _).trans (changedAt_memclr _ _ _)
  · rw [pageWrites, fillFrame, fillPage_clear hpos, fillPage_clear hpos, List.nil_append]
    exact changedAt_memclr m _ _

variable {α : Type} {A : PhysAllocator α} {elfAddress pageTable : Word} {hdr : Elf64Phdr}
  {l : Loading} {s s1 : Machine α} {ret : Byte}

lemma Elf64Phdr.dvd_pageSize (hdr : Elf64Phdr) : 8 ∣ hdr.pageSize.toNat := by
  unfold Elf64Phdr.pageSize
  split
  · decide
  · decide

lemma loadPage_ok (hret : ret ≠ 0)
    (hmap : virtMapPage A pageTable l.vaddr (pgFlagRw ||| pgFlagUser) hdr.pageSizeType s
      = .ok ((ret, memoryAddress), s1)) :
    loadPage A elfAddress pageTable hdr l s
      = .ok ((), { s1 with mem := fillFrame elfAddress hdr.pageSize memoryAddress l s1.mem }) := by
  unfold loadPage
  simp only [bind, StateT.bind, Except.bind, hmap, if_neg hret]
  rfl

/-- An iteration of the loop over the pages of a segment, for every file, every program header and
whatever the iterations before have left: the frame that `virt_map_page` returned is filled, and
no other byte of memory changes after that. -/
theorem loadPage_fills (hret : ret ≠ 0)
    (hmap : virtMapPage A pageTable l.vaddr (pgFlagRw ||| pgFlagUser) hdr.pageSizeType s
      = .ok ((ret, memoryAddress), s1)) (haligned : hdr.pageSize.toNat ∣ memoryAddress.toNat) :
    Fills elfAddress hdr.pageSize memoryAddress l ∧
      ∃ m', loadPage A elfAddress pageTable hdr l s = .ok ((), { s1 with mem := m' }) ∧
        ChangedAt s1.mem m' (addresses (physToVirt memoryAddress) hdr.pageSize.toNat) := by
  have hfills := fills elfAddress l hdr.dvd_pageSize (hdr.dvd_pageSize.trans haligned)
  refine ⟨hfills, _, loadPage_ok hret hmap, ?_⟩
  rw [← hfills.writes]
  exact changedAt_fillFrame elfAddress hdr.pageSize memoryAddress l s1.mem

/-- The first page of a segment that has more bytes in the file than in memory -/
theorem Bump.loadPage_fills_start : ∃ memoryAddress s1,
    virtMapPage (allocator release) 0x1000 0 (pgFlagRw ||| pgFlagUser) pageSmall start
      = .ok ((1, memoryAddress), s1) ∧
    Fills 0x8000 pageSmallSize memoryAddress ⟨0x123, 0x5000, 0⟩ := by
  have hzero : walk (phys start.mem) 3 0x1000 0 = none :=
    walk_of_absent (by rw [entry]; exact (load64_zero _).symm ▸ decode_zero 3)
  obtain ⟨⟨ret, p⟩, s1, hrun, h | h⟩ := (wp_virtMapPage (E := fun _ => False) (v := 0) (s := start)
    rooted_start (by decide) (pgFlagRw ||| pgFlagUser) pageSmall
    (.inr ⟨by decide, hzero, .inr rfl⟩)).returns
  · exact absurd (h.2.1 "") id
  obtain ⟨hret, -, a1, m1, -, -, hh, -⟩ := h
  dsimp only at hret
  subst hret
  let hdr : Elf64Phdr := ⟨ptLoad, 0x123, 0, 0x5000, 0x800⟩
  have hmap : virtMapPage (allocator release) 0x1000 0 (pgFlagRw ||| pgFlagUser)
      hdr.pageSizeType start = .ok ((1, p), s1) := hrun
  exact ⟨p, s1, hrun, (loadPage_fills (l := ⟨0x123, 0x5000, 0⟩) (by decide) hmap hh.aligned).1⟩

end Bikeshed
