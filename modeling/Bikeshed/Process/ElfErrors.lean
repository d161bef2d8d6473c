import Bikeshed.Process.Elf
import Bikeshed.VirtMemory.Isolation
import Bikeshed.VirtMemory.Quiet

/-!
# When `elf_create_process` fails

The checks of the file header come before anything is changed. A segment is only refused when the
old image has been given back and the segments before it have been loaded.
-/

namespace Bikeshed

open Lib
open Scheduler (PCB)

variable {α : Type} {A : PhysAllocator α} {elfAddress pageTable kernelTable t : Word}
  {pcb pcb' : PCB} {error : ElfError} {s s' : Machine α}

/-- What a failed call is to leave: every user address is translated as before, to a frame with the
same contents, nothing has been allocated or freed, and the PCB is the same. -/
structure Unchanged (t : Word) (pcb : PCB) (s : Machine α) (pcb' : PCB) (s' : Machine α) :
    Prop where
  translated : ∀ v : Word, v.toNat < 2 ^ 47 → walk (phys s'.mem) 3 t v = walk (phys s.mem) 3 t v
  contents : ∀ v : Word, v.toNat < 2 ^ 47 → ∀ base n, walk (phys s.mem) 3 t v = some (base, n) →
    ∀ x, (Block.mk base n).Has x → phys s'.mem x = phys s.mem x
  quiet : Quiet s s'
  pcb : pcb' = pcb

/-- Out of `n` program headers from `a` on, the first of a segment to load is refused. -/
def FirstRefused (m : Mem) : ℕ → Word → Prop
  | 0, _ => False
  | n + 1, a =>
    if (curHdr m a).pType ≠ ptLoad then FirstRefused m n (a + phdrSize) else (curHdr m a).Refused

/-- The segments to load start with one that is refused. -/
def LoadsNothing (m : Mem) (elfAddress : Word) : Prop :=
  FirstRefused m (elfHdr m elfAddress).ePhnum.toNat (elfAddress + (elfHdr m elfAddress).ePhoff)

/-- The call fails at the file header, or there is no old image, and no segment is loaded. The
program headers are read when the entries for the old image have been set to zero. -/
def FailsInTime (m : Mem) (elfAddress t : Word) : Prop :=
  checkElfHdr (elfHdr m elfAddress) ≠ .noError ∨
    EntriesAbsent m t 256 ∧ LoadsNothing (clearEntries m t 256) elfAddress

/-! ## Segments -/

/-- Every segment has at least one page. -/
lemma Elf64Phdr.numPages_pos (hdr : Elf64Phdr) : 0 < hdr.numPages.toNat := by
  have hlt := hdr.pMemsz.isLt
  have hsize : 2 ≤ hdr.pageSize.toNat := by
    unfold pageSize
    split
    · decide
    · decide
  have hdiv : (hdr.pMemsz / hdr.pageSize).toNat ≤ hdr.pMemsz.toNat / 2 := by
    rw [BitVec.toNat_udiv]
    exact Nat.div_le_div_left hsize (by norm_num)
  rw [numPages, BitVec.toNat_add]
  have hone : (1 : Word).toNat = 1 := rfl
  omega

variable (A) in
lemma loud_loadPage (elfAddress pageTable : Word) (hdr : Elf64Phdr) (l : Loading) :
    Loud (loadPage A elfAddress pageTable hdr l) := by
  unfold loadPage
  exact (loud_virtMapPage A _ _ _ _).bind_left fun _ => .ite (.panicWith _) (.modifyMem _)

variable (A) in
lemma logging_loadPages (elfAddress pageTable : Word) (hdr : Elf64Phdr) :
    ∀ (n : ℕ) (l : Loading), Logging (loadPages A elfAddress pageTable hdr n l)
  | 0, _ => .pure _
  | n + 1, l => (loud_loadPage A elfAddress pageTable hdr l).logging.bind fun _ =>
    logging_loadPages elfAddress pageTable hdr n _

variable (A) in
/-- To load a segment is to allocate. -/
lemma loud_loadSegment (elfAddress pageTable : Word) (hdr : Elf64Phdr) :
    Loud (loadPages A elfAddress pageTable hdr hdr.numPages.toNat hdr.loading) := by
  obtain ⟨n, hn⟩ := Nat.exists_eq_succ_of_ne_zero hdr.numPages_pos.ne'
  rw [hn]
  exact (loud_loadPage A elfAddress pageTable hdr _).bind_left fun _ =>
    logging_loadPages A elfAddress pageTable hdr n _

variable (A) in
lemma logging_loadSegments (elfAddress pageTable : Word) :
    ∀ (n : ℕ) (a : Word), Logging (loadSegments A elfAddress pageTable n a)
  | 0, _ => .pure _
  | n + 1, a => by
    intro s
    unfold loadSegments
    rw [wp_bind, wp_get, wp_ite, wp_ite]
    refine ⟨fun _ => logging_loadSegments elfAddress pageTable n _ s, fun _ => ⟨fun _ => ?_,
      fun _ => ?_⟩⟩
    · exact List.prefix_rfl
    · exact (loud_loadSegment A elfAddress pageTable _).logging.bind
        (fun _ => logging_loadSegments elfAddress pageTable n _) s

/-- When a segment is refused, nothing has been loaded if and only if it is the first. -/
lemma wp_loadSegments_refused : ∀ (n : ℕ) (a : Word) (s : Machine α),
    wp (loadSegments A elfAddress pageTable n a)
      (fun error s' => s.log <+: s'.log ∧ (error ≠ .noError →
        (Quiet s s' ↔ FirstRefused s.mem n a) ∧ (FirstRefused s.mem n a → s' = s)))
      (fun _ => True) s
  | 0, _, _ => ⟨List.prefix_rfl, fun h => absurd rfl h⟩
  | n + 1, a, s => by
    unfold loadSegments FirstRefused
    rw [wp_bind, wp_get]
    dsimp only
    split
    · exact wp_loadSegments_refused n (a + phdrSize) s
    · split
      · rename_i href
        exact ⟨List.prefix_rfl, fun _ => ⟨⟨fun _ => href, fun _ => .of_log rfl⟩, fun _ => rfl⟩⟩
      · rename_i href
        -- this segment has been loaded, whatever comes after it
        refine wp_mono ((loud_loadSegment A elfAddress pageTable _).bind_left
          (fun _ => logging_loadSegments A elfAddress pageTable n (a + phdrSize)) s)
          fun error s' h => ⟨h.1, fun _ => ⟨⟨fun hq => absurd hq h.2, fun h0 => absurd h0 href⟩,
            fun h0 => absurd h0 href⟩⟩

/-- Then the state is what it was. -/
lemma wp_loadSegments_first {E : String → Prop} : ∀ (n : ℕ) (a : Word) {s : Machine α},
    FirstRefused s.mem n a → wp (loadSegments A elfAddress pageTable n a)
      (fun error s' => error = .badVaddr ∧ s' = s) E s
  | 0, _, _, h => h.elim
  | n + 1, a, s, h => by
    unfold FirstRefused at h
    unfold loadSegments
    rw [wp_bind, wp_get]
    dsimp only
    split at h
    · rename_i hload
      rw [if_pos hload]
      exact wp_loadSegments_first n (a + phdrSize) h
    · rename_i hload
      rw [if_neg hload, if_pos h]
      exact ⟨rfl, rfl⟩

/-! ## The whole function -/

/-- Where there was nothing, there still is nothing. -/
lemma walk_of_entriesAbsent {m : Mem} (h : EntriesAbsent m t 256) {v : Word}
    (hv : v.toNat < 2 ^ 47) : walk (phys m) 3 t v = none := by
  have hi : index 3 v < 256 := of_decide_eq_true (user_index hv)
  exact walk_of_absent (decode_absent_iff.mpr (h _ hi))

lemma entriesAbsent_clear (m : Mem) (t : Word) : EntriesAbsent (clearEntries m t 256) t 256 := by
  intro i hi
  rw [entry_clearEntries_lt m t (by omega) hi]
  decide

lemma Unchanged.refl (t : Word) (pcb : PCB) (s : Machine α) : Unchanged t pcb s pcb s :=
  ⟨fun _ _ => rfl, fun _ _ _ _ _ _ _ => rfl, .of_log rfl, rfl⟩

variable (A) in
lemma wp_replaceImage (elfAddress t kernelTable : Word) (pcb : PCB) (s : Machine α) :
    wp (replaceImage A elfAddress t kernelTable pcb)
      (fun r s' => r.1 ≠ .noError → (Unchanged t pcb s r.2 s' ↔
        EntriesAbsent s.mem t 256 ∧ LoadsNothing (clearEntries s.mem t 256) elfAddress))
      (fun _ => True) s := by
  unfold replaceImage
  rw [wp_bind]
  refine wp_mono (wp_virtResetTable_quiet A kernelTable t s) fun _ s1 h1 => ?_
  rw [wp_bind, wp_get, wp_bind]
  refine wp_mono (wp_loadSegments_refused _ _ s1) fun error s2 h2 => ?_
  rw [wp_ite]
  constructor
  · intro herr
    obtain ⟨hlog2, hrefused⟩ := h2
    obtain ⟨hquiet2, hsame⟩ := hrefused herr
    rw [wp_pure]
    refine fun _ => ⟨fun h => ?_, fun ⟨habs, hnothing⟩ => ?_⟩
    · obtain ⟨hq1, hq2⟩ := h.quiet.split h1.log hlog2
      have habs := h1.quiet.mp hq1
      have hfirst := hquiet2.mp hq2
      rw [h1.mem habs] at hfirst
      exact ⟨habs, hfirst⟩
    · have hmem := h1.mem habs
      unfold LoadsNothing at hnothing
      rw [← hmem] at hnothing
      obtain rfl := hsame hnothing
      refine ⟨fun v hv => ?_, fun v hv base n hwalk => ?_, h1.quiet.mpr habs, rfl⟩
      · rw [walk_of_entriesAbsent habs hv, hmem, walk_of_entriesAbsent (entriesAbsent_clear _ t) hv]
      · rw [walk_of_entriesAbsent habs hv] at hwalk
        cases hwalk
  · intro _
    -- a call that gets this far does not fail
    rw [wp_bind]
    refine wp_mono (wp_trivial _ s2) fun _ s3 _ => ?_
    rw [wp_bind]
    exact wp_mono (wp_trivial _ s3) fun _ _ _ hne => absurd rfl hne

/-- A failed call changes nothing if and only if it fails in time. -/
theorem elfCreateProcess_unchanged_iff
    (hrun : elfCreateProcess A elfAddress t kernelTable pcb s = .ok ((error, pcb'), s'))
    (herr : error ≠ .noError) :
    Unchanged t pcb s pcb' s' ↔ FailsInTime s.mem elfAddress t := by
  have h : wp (elfCreateProcess A elfAddress t kernelTable pcb)
      (fun r s' => r.1 ≠ .noError → (Unchanged t pcb s r.2 s' ↔ FailsInTime s.mem elfAddress t))
      (fun _ => True) s := by
    unfold elfCreateProcess
    rw [wp_bind, wp_get, wp_ite, wp_ite]
    refine ⟨fun hhdr => ?_, fun hhdr => ⟨fun _ => trivial, fun _ => ?_⟩⟩
    · exact fun _ => ⟨fun _ => .inl hhdr, fun _ => .refl t pcb s⟩
    · refine wp_mono (wp_replaceImage A elfAddress t kernelTable pcb s) fun r s' h hne => ?_
      rw [h hne, FailsInTime, or_iff_right hhdr]
  exact h.ok hrun herr

/-! ## What the headers are read from -/

section Headers

variable {m m' : Mem} {a : Word} {n : ℕ}

/-- The `n` bytes from `a` are the same. -/
def SameBytes (m m' : Mem) (a : Word) (n : ℕ) : Prop :=
  ∀ k < n, m' (a + BitVec.ofNat 64 k) = m (a + BitVec.ofNat 64 k)

lemma SameBytes.part (h : SameBytes m m' a n) (c : Word) (k : ℕ) (hk : c.toNat + k ≤ n) :
    SameBytes m m' (a + c) k := by
  intro i hi
  have hc : a + c + BitVec.ofNat 64 i = a + BitVec.ofNat 64 (c.toNat + i) := by
    rw [BitVec.ofNat_add, BitVec.ofNat_toNat, BitVec.setWidth_eq, add_assoc]
  rw [hc]
  exact h _ (by omega)

lemma SameBytes.mono (h : SameBytes m m' a n) {k : ℕ} (hk : k ≤ n) : SameBytes m m' a k :=
  fun i hi => h i (by omega)

lemma SameBytes.load8 (h : SameBytes m m' a 1) : load8 m' a = load8 m a := by
  have h0 := h 0 (by norm_num)
  simpa [Lib.load8] using h0

lemma SameBytes.load16 (h : SameBytes m m' a 2) : load16 m' a = load16 m a := by
  rw [Bikeshed.load16, Bikeshed.load16, (h.part 1 1 (by decide)).load8,
    (h.mono (by norm_num)).load8]

lemma SameBytes.load32 (h : SameBytes m m' a 4) : load32 m' a = load32 m a := by
  rw [Bikeshed.load32, Bikeshed.load32, (h.part 2 2 (by decide)).load16,
    (h.mono (by norm_num)).load16]

lemma SameBytes.load64 (h : SameBytes m m' a 8) : load64 m' a = load64 m a := load64_congr h

lemma elfHdr_congr (h : SameBytes m m' a 64) : elfHdr m' a = elfHdr m a := by
  have hident : ∀ i : Fin 16, load8 m' (a + BitVec.ofNat 64 i.val)
      = load8 m (a + BitVec.ofNat 64 i.val) := by
    intro i
    refine (h.part _ 1 ?_).load8
    rw [toNat_ofNat_lt (by omega)]
    omega
  simp only [elfHdr, hident, (h.part 16 2 (by decide)).load16, (h.part 18 2 (by decide)).load16,
    (h.part 20 4 (by decide)).load32, (h.part 24 8 (by decide)).load64,
    (h.part 32 8 (by decide)).load64, (h.part 56 2 (by decide)).load16]

lemma curHdr_congr (h : SameBytes m m' a 56) : curHdr m' a = curHdr m a := by
  simp only [curHdr, (h.mono (by norm_num)).load32, (h.part 8 8 (by decide)).load64,
    (h.part 16 8 (by decide)).load64, (h.part 32 8 (by decide)).load64,
    (h.part 40 8 (by decide)).load64]

lemma SameBytes.of_agreeOn {p : Word} {bs : List Block} (hagree : AgreeOn bs (phys m) (phys m'))
    (hmem : page4KIB p ∈ bs) (hp : p.toNat + 4096 ≤ 2 ^ 64) :
    SameBytes m m' (physToVirt p) 4096 := by
  intro k hk
  rw [physToVirt_add]
  refine hagree _ hmem _ ⟨?_, ?_⟩
  · rw [toNat_add_ofNat (by omega)]
    exact Nat.le_add_right _ _
  · rw [toNat_add_ofNat (by omega)]
    dsimp only
    omega

end Headers

/-! ## An old image and a bad segment -/

namespace Bump

/-- A file whose only segment is to be loaded where the kernel is. -/
def elfFile : List Byte :=
  [0x7F, 0x45, 0x4C, 0x46, 2, 1, 1, 0,  0, 0, 0, 0, 0, 0, 0, 0,
   2, 0, 62, 0, 1, 0, 0, 0,  0, 0, 0x40, 0, 0, 0, 0, 0,
   64, 0, 0, 0, 0, 0, 0, 0,  0, 0, 0, 0, 0, 0, 0, 0,
   0, 0, 0, 0, 64, 0, 56, 0,  1, 0, 0, 0, 0, 0, 0, 0,
   1, 0, 0, 0, 7, 0, 0, 0,  0, 0, 0, 0, 0, 0, 0, 0,
   0, 0, 0, 0, 0, 0x80, 0xFF, 0xFF,  0, 0, 0, 0, 0, 0, 0, 0,
   0, 0, 0, 0, 0, 0, 0, 0,  0, 0x10, 0, 0, 0, 0, 0, 0]

/-- The page the file is in -/
def filePage : Word := 0x2000

def elfMem : Mem := fun x => elfFile.getD (x - physToVirt filePage).toNat 0

/-- An empty PML4, and a file in that page -/
def fileStart (bytes : List Byte) : Machine Bump :=
  ⟨fun x => bytes.getD (x - physToVirt filePage).toNat 0,
    ⟨1, [page4KIB 0x1000, page4KIB filePage]⟩, []⟩

/-- The page before the file is zero. -/
lemma fileStart_entry {bytes : List Byte} (hlen : bytes.length ≤ 4096) {i : ℕ} (hi : i < 512) :
    entry (phys (fileStart bytes).mem) 0x1000 i = 0 := by
  have hpage : (0x1000 : Word).toNat = 4096 := rfl
  have hfile : filePage.toNat = 8192 := rfl
  refine load64_eq fun k hk => ?_
  have haddr : (0x1000 + BitVec.ofNat 64 (8 * i) + BitVec.ofNat 64 k : Word).toNat
      = 4096 + 8 * i + k := by
    rw [toNat_add_ofNat, toNat_add_ofNat, hpage]
    · rw [hpage]
      omega
    · rw [toNat_add_ofNat (by rw [hpage]; omega), hpage]
      omega
  have hfar : bytes.length ≤ (physToVirt (0x1000 + BitVec.ofNat 64 (8 * i) + BitVec.ofNat 64 k)
      - physToVirt filePage).toNat := by
    rw [physToVirt_sub, BitVec.toNat_sub, haddr, hfile]
    omega
  have hzero : phys (fileStart bytes).mem (0x1000 + BitVec.ofNat 64 (8 * i) + BitVec.ofNat 64 k)
      = 0 := by
    simp only [phys, fileStart, List.getD_eq_getElem?_getD, List.getElem?_eq_none hfar,
      Option.getD_none]
  rw [hzero]
  apply BitVec.eq_of_getLsbD_eq
  simp

lemma fileStart_absent {bytes : List Byte} (hlen : bytes.length ≤ 4096) {top : ℕ → Bool} {i : ℕ}
    (hi : i ∈ slots top 3) : decode 3 (entry (phys (fileStart bytes).mem) 0x1000 i) = .absent := by
  rw [fileStart_entry hlen (mem_slots.mp hi).1, decode_zero]

lemma valid_filePage : Valid ⟨1, [page4KIB 0x1000, page4KIB filePage]⟩ := by
  have hdis : Block.Disjoint (page4KIB 0x1000) (page4KIB filePage) := by decide
  refine ⟨by decide, by decide, ?_, ?_⟩
  · exact List.pairwise_cons.mpr ⟨fun b hb => List.mem_singleton.mp hb ▸ hdis,
      List.pairwise_singleton _ _⟩
  · intro b hb
    rcases List.mem_cons.mp hb with rfl | hb
    · decide
    · rw [List.mem_singleton.mp hb]
      decide

lemma focused_fileStart {bytes : List Byte} (hlen : bytes.length ≤ 4096) :
    Focused (heap release) 0x1000 [page4KIB filePage] (fileStart bytes).heap
      (fileStart bytes).mem := by
  refine ⟨valid_filePage, by decide, ?_, ?_⟩
  · exact tableAll_of_absent (fun e he => entryForm_of_absent (decode_absent_iff.mp he))
      fun i hi => fileStart_absent hlen hi
  · rw [userTree, tree_of_absent fun i hi => fileStart_absent hlen hi]
    exact .refl _

/-- A page is mapped at 0 next to the file. -/
lemma map_beside {s : Machine Bump}
    (hfoc : Focused (heap release) 0x1000 [page4KIB filePage] s.heap s.mem)
    (hzero : walk (phys s.mem) 3 0x1000 0 = none) (hroom : 4 ≤ (heap release).room s.heap) :
    ∃ (s1 : Machine Bump) (more : List Block), walk (phys s1.mem) 3 0x1000 0 ≠ none ∧
      Focused (heap release) 0x1000 (more ++ [page4KIB filePage]) s1.heap s1.mem ∧
      SameBytes s.mem s1.mem (physToVirt filePage) 4096 := by
  obtain ⟨ret, s1, hrun, h | h⟩ := (wp_virtMapPage (E := fun _ => False) (v := 0) (s := s)
    hfoc.rooted (by decide) pgFlagRw pageSmall (.inr ⟨hroom, hzero, .inr rfl⟩)).returns
  · exact absurd (h.2.1 "") id
  obtain ⟨-, -, a1, m1, -, -, -, m2, new, u, e', he⟩ := h
  obtain ⟨more, hfoc1, hagree⟩ := (wp_virtMapPage_kept hfoc (by decide)).ok hrun
  refine ⟨s1, more, ?_, hfoc1, .of_agreeOn hagree (List.mem_singleton_self _) (by decide)⟩
  rw [he.walk_same (by decide) fun i _ _ => rfl]
  exact Option.some_ne_none _

lemma map_fileStart (bytes : List Byte) (hlen : bytes.length ≤ 4096) :
    ∃ (s1 : Machine Bump) (more : List Block), walk (phys s1.mem) 3 0x1000 0 ≠ none ∧
      Focused (heap release) 0x1000 (more ++ [page4KIB filePage]) s1.heap s1.mem ∧
      SameBytes (fileStart bytes).mem s1.mem (physToVirt filePage) 4096 := by
  have hslot : index 3 0 ∈ slots userHalf 3 := mem_slots.mpr ⟨index_lt 3 0, .inr (by decide)⟩
  refine map_beside (focused_fileStart hlen) (walk_of_absent (fileStart_absent hlen hslot)) ?_
  show 4 ≤ 2 ^ 18 - 1
  norm_num

lemma elfFile_passes : checkElfHdr (elfHdr elfMem (physToVirt filePage)) = .noError ∧
    (elfHdr elfMem (physToVirt filePage)).eEntry ≠ 0 := by decide +kernel

lemma elfFile_refused : FirstRefused elfMem 1 (physToVirt filePage + 64) := by
  have hload : (curHdr elfMem (physToVirt filePage + 64)).pType = ptLoad := by decide +kernel
  have hbad : (curHdr elfMem (physToVirt filePage + 64)).Refused := by decide +kernel
  rw [FirstRefused, if_neg (not_not.mpr hload)]
  exact hbad

lemma elfFile_headers : (elfHdr elfMem (physToVirt filePage)).ePhnum.toNat = 1 ∧
    (elfHdr elfMem (physToVirt filePage)).ePhoff = 64 := by decide +kernel

/-- Memory in which the file still is. -/
lemma loadsNothing_elfFile {m : Mem} (h : SameBytes elfMem m (physToVirt filePage) 4096) :
    LoadsNothing m (physToVirt filePage) := by
  obtain ⟨hnum, hoff⟩ := elfFile_headers
  have hcur : curHdr m (physToVirt filePage + 64) = curHdr elfMem (physToVirt filePage + 64) :=
    curHdr_congr (h.part 64 56 (by decide))
  have hrefused := elfFile_refused
  unfold LoadsNothing
  rw [elfHdr_congr (h.mono (by norm_num)), hnum, hoff]
  unfold FirstRefused at hrefused ⊢
  rw [hcur]
  exact hrefused

/-- The old image is gone. -/
lemma elf_run {s : Machine Bump} {more : List Block} (pcb : PCB)
    (hfoc : Focused (heap release) 0x1000 (more ++ [page4KIB filePage]) s.heap s.mem)
    (hfile : SameBytes elfMem s.mem (physToVirt filePage) 4096) :
    ∃ s', elfCreateProcess (allocator release) (physToVirt filePage) 0x1000 0 pcb s
      = .ok ((.badVaddr, pcb), s') ∧ walk (phys s'.mem) 3 0x1000 0 = none := by
  have h : wp (elfCreateProcess (allocator release) (physToVirt filePage) 0x1000 0 pcb)
      (fun r s' => r = (.badVaddr, pcb) ∧ walk (phys s'.mem) 3 0x1000 0 = none)
      (fun _ => False) s := by
    obtain ⟨hpass, hentry⟩ := elfFile_passes
    have hhdr : elfHdr s.mem (physToVirt filePage) = elfHdr elfMem (physToVirt filePage) :=
      elfHdr_congr (hfile.mono (by norm_num))
    have hfrees : FreesAllowed (heap release) (fun _ => False) :=
      .inr fun a m p _ => ⟨fun _ => ⟨_, rfl⟩, fun _ => ⟨_, rfl⟩⟩
    unfold elfCreateProcess
    rw [wp_bind, wp_get, hhdr, if_neg (not_not.mpr hpass), if_neg hentry]
    unfold replaceImage
    rw [wp_bind]
    refine wp_mono (wp_virtResetTable_log freesReturn hfrees hfoc.aligned
      (fun h0 => absurd h0 (by decide)) hfoc.form ⟨hfoc.valid, hfoc.own⟩) ?_
    rintro - s2 ⟨-, hreset, -⟩
    have hfile2 : SameBytes s.mem s2.mem (physToVirt filePage) 4096 :=
      .of_agreeOn hreset.agree (List.mem_append_right _ (List.mem_append_right _
        (List.mem_singleton_self _))) (by decide)
    have hnothing := loadsNothing_elfFile fun k hk => (hfile2 k hk).trans (hfile k hk)
    rw [wp_bind, wp_get, wp_bind]
    refine wp_mono (wp_loadSegments_first _ _ hnothing) ?_
    rintro error s3 ⟨rfl, rfl⟩
    rw [if_pos (by decide), wp_pure]
    refine ⟨rfl, walk_of_absent ?_⟩
    rw [hreset.zero _ (by decide), decode_zero]
  obtain ⟨r, s', hrun, rfl, hwalk⟩ := h.returns
  exact ⟨s', hrun, hwalk⟩

/-- A call that fails does not leave everything as it was. -/
theorem not_unchanged : ¬ ∀ (s s' : Machine Bump) (elfAddress t kernelTable : Word)
    (pcb pcb' : PCB) (error : ElfError),
    elfCreateProcess (allocator release) elfAddress t kernelTable pcb s = .ok ((error, pcb'), s') →
      error ≠ .noError → Unchanged t pcb s pcb' s' := by
  intro h
  obtain ⟨s, more, hmapped, hfoc, hfile⟩ := map_fileStart elfFile (by decide)
  let pcb : PCB := ⟨0, 0x1000, 0, 1, 0, .ready, 1⟩
  obtain ⟨s', hrun, hgone⟩ := elf_run pcb hfoc hfile
  have hsame := (h s s' _ _ _ _ _ _ hrun (by decide)).translated 0 (by decide)
  exact hmapped (hsame.symm.trans hgone)

/-- The file is one for 32-bit machines. The call fails at its header, and a page that was mapped
stays mapped. -/
theorem unchanged_class32 : ∃ s : Machine Bump, walk (phys s.mem) 3 0x1000 0 ≠ none ∧
    elfCreateProcess (allocator release) (physToVirt filePage) 0x1000 0
      ⟨0, 0x1000, 0, 1, 0, .ready, 1⟩ s
        = .ok ((.badClass, ⟨0, 0x1000, 0, 1, 0, .ready, 1⟩), s) ∧
    (Unchanged 0x1000 ⟨0, 0x1000, 0, 1, 0, .ready, 1⟩ s ⟨0, 0x1000, 0, 1, 0, .ready, 1⟩ s ↔
      FailsInTime s.mem (physToVirt filePage) 0x1000) := by
  obtain ⟨s, more, hmapped, -, hfile⟩ := map_fileStart (elfFile.set 4 1) (by decide)
  have hclass : checkElfHdr (elfHdr s.mem (physToVirt filePage)) = .badClass := by
    rw [elfHdr_congr (hfile.mono (by norm_num))]
    decide +kernel
  have h : wp (elfCreateProcess (allocator release) (physToVirt filePage) 0x1000 0
      ⟨0, 0x1000, 0, 1, 0, .ready, 1⟩)
      (fun r s' => r = (.badClass, ⟨0, 0x1000, 0, 1, 0, .ready, 1⟩) ∧ s' = s)
      (fun _ => False) s := by
    unfold elfCreateProcess
    rw [wp_bind, wp_get]
    dsimp only
    rw [hclass, if_pos (by decide), wp_pure]
    exact ⟨rfl, rfl⟩
  obtain ⟨_, _, hrun, rfl, rfl⟩ := h.returns
  exact ⟨_, hmapped, hrun, elfCreateProcess_unchanged_iff hrun (by decide)⟩

end Bump

end Bikeshed
