import Bikeshed.Process.ElfCopies
import Bikeshed.Process.ElfErrors
import Bikeshed.VirtMemory.KernelHalf

/-!
# `elf_create_process` and the kernel half

A segment is refused by the 64-bit sum of its address and size, but a page table looks at bits
12..47 of an address only. So the kernel half stays as it is if and only if no page of the file has
bit 47 set, as long as the headers are not loaded over.

That a page in the kernel half does change it, whatever is loaded later, is seen from the size of
the page an address is translated by: mapping never makes it smaller, and makes it larger at the
address that is mapped.
-/

namespace Bikeshed

open Lib
open Scheduler (PCB)

variable {α : Type} {A : PhysAllocator α} {H : PhysHeap A} {E : String → Prop}
  {elfAddress t v w kernelTable : Word} {vs vs' : List Word} {s s1 s' : Machine α}

/-! ## The pages of a file -/

/-- The addresses of the pages that the loop over a segment maps, with `n` to go. -/
def Elf64Phdr.pages (hdr : Elf64Phdr) : ℕ → Loading → List Word
  | 0, _ => []
  | n + 1, l => l.vaddr :: hdr.pages n (l.next hdr.pageSize)

/-- Those of the segments before the first that is refused, out of `n` headers from `a` on. -/
def segmentPages (m : Mem) : ℕ → Word → List Word
  | 0, _ => []
  | n + 1, a =>
    let hdr := curHdr m a
    if hdr.pType ≠ ptLoad then segmentPages m n (a + phdrSize)
    else if hdr.Refused then []
    else hdr.pages hdr.numPages.toNat hdr.loading ++ segmentPages m n (a + phdrSize)

def filePages (m : Mem) (elfAddress : Word) : List Word :=
  segmentPages m (elfHdr m elfAddress).ePhnum.toNat (elfAddress + (elfHdr m elfAddress).ePhoff)

/-! ## The size of the page at an address -/

/-- 0 if `v` is not translated -/
def mappedSize (P : Mem) (t v : Word) : ℕ := ((walk P 3 t v).map Prod.snd).getD 0

/-- An entry that is no leaf only leads to smaller pages. -/
lemma slotWalk_size_lt {P : Mem} {k : ℕ} {e : Word} (h : ∀ b n, decode k e ≠ .leaf b n) :
    ((slotWalk P k e w).map Prod.snd).getD 0 < 2 ^ (12 + 9 * k) := by
  cases hd : decode k e with
  | absent =>
    rw [slotWalk_absent hd]
    exact Nat.two_pow_pos _
  | leaf b n => exact absurd hd (h b n)
  | table u =>
    cases k with
    | zero => exact absurd hd decode_zero_ne_table
    | succ k =>
      rw [slotWalk_table hd]
      cases hw : walk P k u w with
      | none => exact Nat.two_pow_pos _
      | some p =>
        obtain ⟨j, hj, hn⟩ := slotWalk_level k hw
        show p.2 < _
        rw [hn]
        exact Nat.pow_lt_pow_right (by norm_num) (by omega)

namespace Entered

variable {top : ℕ → Bool} {r u base e' : Word} {k : ℕ} {a a' : α} {m m' m1 : Mem}
  {new : List Word}

lemma size_lt (h : Entered H top r v k base a m a' m' m1 new u e') (hv : top (index 3 v) = true)
    (hw : SameDown k 3 v w) : mappedSize (phys m) r w < mappedSize (phys m') r w := by
  have hsame : index 3 w = index 3 v := hw 3 h.reaches.le le_rfl
  rw [mappedSize, mappedSize, h.walk_same hv hw, ← h.grown.walk w (by rw [hsame]; exact hv),
    h.reaches.walk_same hw]
  exact slotWalk_size_lt h.no_leaf

lemma size_le (h : Entered H top r v k base a m a' m' m1 new u e') (hv : top (index 3 v) = true)
    (hw : top (index 3 w) = true) : mappedSize (phys m) r w ≤ mappedSize (phys m') r w := by
  by_cases hsame : SameDown k 3 v w
  · exact (h.size_lt hv hsame).le
  · rw [mappedSize, mappedSize, h.walk_other hv hw hsame]

/-- The tables afterwards are those before and the new ones. -/
lemma tables_sub (h : Entered H top r v k base a m a' m' m1 new u e')
    (hv : top (index 3 v) = true) {x : Word} (hx : x ∈ tables (tree (phys m') top 3 r)) :
    x ∈ new ∨ x ∈ tables (tree (phys m) top 3 r) := by
  obtain ⟨old, kept, h1, h2⟩ := h.pages hv
  have hx' := (tables_perm h2).mem_iff.mp hx
  rw [tables_cons_frame] at hx'
  have hmem := (tables_perm h1).mem_iff.mpr (by
    rw [tables_append]
    exact List.mem_append_right _ hx')
  rwa [tables_append, tables_map_tablePage, List.mem_append] at hmem

end Entered

/-! ## Mapping and filling pages -/

/-- Block `b` is apart from the tables of `t`. -/
def ApartFromTables (m : Mem) (t : Word) (b : Block) : Prop :=
  ∀ u ∈ tables (tree (phys m) wholeTable 3 t), (page4KIB u).Disjoint b

/-- Pages have been mapped at `vs`, and filled. -/
structure Loaded (H : PhysHeap A) (t : Word) (vs : List Word) (s s' : Machine α) : Prop where
  rooted : Rooted H wholeTable t s'.heap s'.mem
  others : ∀ b ∈ H.own s.heap, ApartFromTables s.mem t b →
    b ∈ H.own s'.heap ∧ ApartFromTables s'.mem t b ∧ ∀ x, b.Has x → phys s'.mem x = phys s.mem x
  size_le : ∀ w, mappedSize (phys s.mem) t w ≤ mappedSize (phys s'.mem) t w
  size_lt : ∀ v ∈ vs, mappedSize (phys s.mem) t v < mappedSize (phys s'.mem) t v
  kept : (∀ v ∈ vs, index 3 v < 256) → KernelHalfKept (phys s.mem) (phys s'.mem) t

namespace Loaded

lemma refl (h : Rooted H wholeTable t s.heap s.mem) : Loaded H t [] s s :=
  ⟨h, fun _ hb hd => ⟨hb, hd, fun _ _ => rfl⟩, fun _ => le_rfl,
    fun _ hv => absurd hv List.not_mem_nil, fun _ => .refl _ _⟩

lemma trans (h : Loaded H t vs s s1) (h' : Loaded H t vs' s1 s') :
    Loaded H t (vs ++ vs') s s' := by
  refine ⟨h'.rooted, fun b hb hd => ?_, fun w => (h.size_le w).trans (h'.size_le w),
    fun v hv => ?_, fun hall => ?_⟩
  · obtain ⟨hb1, hd1, hx1⟩ := h.others b hb hd
    obtain ⟨hb2, hd2, hx2⟩ := h'.others b hb1 hd1
    exact ⟨hb2, hd2, fun x hx => (hx2 x hx).trans (hx1 x hx)⟩
  · rcases List.mem_append.mp hv with hv | hv
    · exact (h.size_lt v hv).trans_le (h'.size_le v)
    · exact (h.size_le v).trans_lt (h'.size_lt v hv)
  · exact (h.kept fun v hv => hall v (List.mem_append_left _ hv)).trans
      (h'.kept fun v hv => hall v (List.mem_append_right _ hv))

/-- Writing to a frame that was not outstanding before. -/
lemma write (h : Loaded H t vs s s1) (h0 : Rooted H wholeTable t s.heap s.mem) {b : Block}
    {m' : Mem} (hown : b ∈ H.own s1.heap) (hfresh : ∀ c ∈ H.own s.heap, b.Disjoint c)
    (hb : ApartFromTables s1.mem t b) (hm : ∀ x, ¬ b.Has x → phys m' x = phys s1.mem x) :
    Loaded H t vs s { s1 with mem := m' } := by
  have hsame : SameEntries (tables (tree (phys s1.mem) wholeTable 3 t)) (phys s1.mem) (phys m') :=
    fun u hu _ hi => entry_congr (h.rooted.tables_aligned hu) hi fun x hx =>
      hm x ((hb u hu).symm.not_has hx)
  have htree : tree (phys m') wholeTable 3 t = tree (phys s1.mem) wholeTable 3 t := tree_congr hsame
  have hwalk : ∀ w, mappedSize (phys m') t w = mappedSize (phys s1.mem) t w := fun w => by
    rw [mappedSize, mappedSize, walk_congr (by norm_num) (rfl : wholeTable (index 3 w) = true) hsame]
  refine ⟨h.rooted.of_same (H.stable h.rooted.valid fun x hx => hm x (hx b hown)) hsame
    h.rooted.owned, fun c hc hd => ?_, fun w => ?_, fun v hv => ?_, fun hall => ?_⟩
  · obtain ⟨hc1, hd1, hx1⟩ := h.others c hc hd
    refine ⟨hc1, ?_, fun x hx => (hm x ((hfresh c hc).not_has hx)).trans (hx1 x hx)⟩
    rw [ApartFromTables, htree]
    exact hd1
  · rw [hwalk]
    exact h.size_le w
  · rw [hwalk]
    exact h.size_lt v hv
  · have hkept := h.kept hall
    refine ⟨fun i h1 h2 => ?_, fun u hu x hx => ?_⟩
    · rw [hsame t self_mem_tables_tree i h2, hkept.entries i h1 h2]
    · have hu' : page4KIB u ∈ H.own s.heap := h0.owned u (by
        rw [tree_wholeTable, tables_append]
        exact List.mem_append_right _ hu)
      rw [hm x ((hfresh _ hu').not_has hx), hkept.below u hu x hx]

end Loaded

/-- A frame that was handed out has been mapped at `v`. -/
structure FrameLoaded (H : PhysHeap A) (t v pageSize frame : Word) (s s' : Machine α) : Prop where
  loaded : Loaded H t [v] s s'
  aligned : 2 ^ (12 + 9 * pageLevel pageSize) ∣ frame.toNat
  below : frame.toNat + 2 ^ (12 + 9 * pageLevel pageSize) ≤ 2 ^ 39
  own : ⟨frame, 2 ^ (12 + 9 * pageLevel pageSize)⟩ ∈ H.own s'.heap
  fresh : ∀ b ∈ H.own s.heap, Block.Disjoint ⟨frame, 2 ^ (12 + 9 * pageLevel pageSize)⟩ b
  apart : ApartFromTables s'.mem t ⟨frame, 2 ^ (12 + 9 * pageLevel pageSize)⟩

/-- The tables below the kernel half are no tables of the user half. -/
lemma Rooted.kernel_apart {a : α} {m : Mem} (h : Rooted H wholeTable t a m) {u x : Word}
    (hu : u ∈ tables (kernelTree (phys m) t)) (hx : x ∈ tables (tree (phys m) userHalf 3 t)) :
    (page4KIB x).Disjoint (page4KIB u) := by
  have hnodup := h.nodup
  rw [tree_wholeTable, tables_append, List.nodup_append] at hnodup
  exact Block.disjoint_of_dvd (tree_tables_aligned 3 h.aligned hx) (kernelTree_aligned hu)
    (hnodup.2.2 x hx u hu)

/-- `whole` and `user` are about one run. -/
lemma frameLoaded_of_mapped {pageSize : Word} {res : Byte × Word}
    (h : Rooted H wholeTable t s.heap s.mem)
    (hwhole : PageMapped H wholeTable t v pageSize s.heap s.mem res s'.heap s'.mem)
    (huser : index 3 v < 256 →
      PageMapped H userHalf t v pageSize s.heap s.mem res s'.heap s'.mem)
    (hpml4 : Pml4Kept (phys s.mem) (phys s'.mem) t v) :
    FrameLoaded H t v pageSize res.2 s s' := by
  obtain ⟨-, -, a1, m1, hv1, -, hh, m2, new, u, e', he⟩ := hwhole
  have hv : wholeTable (index 3 v) = true := rfl
  have h1 : Rooted H wholeTable t a1 m1 := h.handed hv1 hh
  have hsame := h.same hh.agree
  have htree : tree (phys m1) wholeTable 3 t = tree (phys s.mem) wholeTable 3 t := tree_congr hsame
  have hsize : ∀ w, mappedSize (phys m1) t w = mappedSize (phys s.mem) t w := fun w => by
    rw [mappedSize, mappedSize, walk_congr (by norm_num) (rfl : wholeTable (index 3 w) = true) hsame]
  have hown1 : ∀ b ∈ H.own s.heap, b ∈ H.own a1 := fun b hb =>
    hh.outstanding.mem_iff.mpr (List.mem_cons_of_mem _ hb)
  have hown2 : ∀ b ∈ H.own a1, b ∈ H.own s'.heap := fun b hb =>
    he.grown.own.mem_iff.mpr (List.mem_append_right _ hb)
  have hframe : ⟨res.2, 2 ^ (12 + 9 * pageLevel pageSize)⟩ ∈ H.own a1 :=
    hh.outstanding.mem_iff.mpr List.mem_cons_self
  -- a table that has come was not outstanding before
  have hnew : ∀ x ∈ new, ∀ b ∈ H.own a1, (page4KIB x).Disjoint b := fun x hx =>
    (List.pairwise_append.mp ((he.grown.own.pairwise_iff fun hd => Block.Disjoint.symm hd).mp
      (H.disjoint he.before.valid))).2.2 _ (List.mem_map_of_mem hx)
  have hapart : ∀ b ∈ H.own a1, ApartFromTables s.mem t b → ApartFromTables s'.mem t b := by
    intro b hb hd x hx
    rcases he.tables_sub hv hx with hx | hx
    · exact hnew x hx b hb
    · rw [htree] at hx
      exact hd x hx
  refine ⟨⟨he.after, fun b hb hd => ⟨hown2 b (hown1 b hb), hapart b (hown1 b hb) hd,
    fun x hx => ?_⟩, fun w => ?_, fun w hw => ?_, fun hall => ?_⟩, hh.aligned, hh.below,
    hown2 _ hframe, hh.fresh, hapart _ hframe fun x hx => (hh.fresh _ (h.owned x hx)).symm⟩
  · have hd1 : ∀ x ∈ tables (tree (phys m1) wholeTable 3 t), (page4KIB x).Disjoint b := by
      rw [htree]
      exact hd
    rw [he.others hv (hown1 b hb) hd1 hx, hh.agree b hb x hx]
  · rw [← hsize]
    exact he.size_le hv rfl
  · rw [List.mem_singleton.mp hw, ← hsize]
    exact he.size_lt hv fun _ _ _ => rfl
  · have hlt := hall v (List.mem_singleton_self v)
    obtain ⟨-, -, a3, m3, -, -, hh3, m4, new4, u4, e4, he4⟩ := huser hlt
    have hu : userHalf (index 3 v) = true := decide_eq_true hlt
    have htree3 : tree (phys m3) userHalf 3 t = tree (phys s.mem) userHalf 3 t :=
      tree_congr (h.user.same hh3.agree)
    refine ⟨fun i h1 h2 => hpml4 i h2 (.inl (by omega)), fun x hx y hy => ?_⟩
    have hxown : page4KIB x ∈ H.own s.heap := h.owned x (by
      rw [tree_wholeTable, tables_append]
      exact List.mem_append_right _ hx)
    rw [he4.others hu (hh3.outstanding.mem_iff.mpr (List.mem_cons_of_mem _ hxown))
      (fun z hz => h.kernel_apart hx (by rwa [htree3] at hz)) hy, hh3.agree _ hxown y hy]

lemma wp_virtMapPage_frame (h : Rooted H wholeTable t s.heap s.mem) (flags pageSize : Word)
    (hE : MapPageSafe H E t v pageSize s.heap s.mem) :
    wp (virtMapPage A t v flags pageSize)
      (fun res s' => (res = (0, 0) ∧ ∀ e, E e) ∨
        (res.1 = 1 ∧ FrameLoaded H t v pageSize res.2 s s')) E s := by
  have huser : wp (virtMapPage A t v flags pageSize) (fun res s' => index 3 v < 256 →
      res = (0, 0) ∨ PageMapped H userHalf t v pageSize s.heap s.mem res s'.heap s'.mem)
      (fun _ => True) s := by
    by_cases hv : index 3 v < 256
    · exact wp_mono (wp_virtMapPage h.user (decide_eq_true hv) flags pageSize
        (.inl fun _ => trivial)) fun _ _ hres _ => hres.imp_left And.left
    · exact wp_mono (wp_trivial _ s) fun _ _ _ hlt => absurd hlt hv
  refine wp_weaken (wp_mono (wp_and (wp_virtMapPage h rfl flags pageSize hE)
    (wp_and huser (wp_virtMapPage_pml4 h rfl flags pageSize))) ?_) fun _ he => he.1
  rintro res s' ⟨hnull | hwhole, huser, hpml4⟩
  · exact .inl ⟨hnull.1, hnull.2.1⟩
  · refine .inr ⟨hwhole.1, frameLoaded_of_mapped h hwhole (fun hv => ?_) hpml4⟩
    refine (huser hv).resolve_left fun hzero => ?_
    have hone := hwhole.1
    rw [hzero] at hone
    cases hone

lemma Elf64Phdr.toNat_pageSize (hdr : Elf64Phdr) :
    hdr.pageSize.toNat = 2 ^ (12 + 9 * pageLevel hdr.pageSizeType) := by
  unfold pageSize pageSizeType
  split
  · rfl
  · rfl

/-- Whatever is copied from the file, the bytes outside the frame stay. -/
lemma fillFrame_outside (hdr : Elf64Phdr) {p : Word} (l : Loading) (m : Mem)
    (hp : 2 ^ (12 + 9 * pageLevel hdr.pageSizeType) ∣ p.toNat)
    (hle : p.toNat + 2 ^ (12 + 9 * pageLevel hdr.pageSizeType) ≤ 2 ^ 39) {x : Word}
    (hx : ¬ (Block.mk p (2 ^ (12 + 9 * pageLevel hdr.pageSizeType))).Has x) :
    phys (fillFrame elfAddress hdr.pageSize p l m) x = phys m x := by
  have hsize := hdr.toNat_pageSize
  rw [← hsize] at hp hle hx
  refine changedAt_fillFrame elfAddress hdr.pageSize p l m _ ?_
  rw [(fills elfAddress l hdr.dvd_pageSize (hdr.dvd_pageSize.trans hp)).writes,
    mem_addresses (by omega), physToVirt_sub]
  exact fun hlt => hx (le_of_sub_toNat_lt (hle.trans (by norm_num)) hlt)

theorem wp_loadPage (h : Rooted H wholeTable t s.heap s.mem) (hdr : Elf64Phdr) (l : Loading)
    (hE : MapPageSafe H E t l.vaddr hdr.pageSizeType s.heap s.mem) :
    wp (loadPage A elfAddress t hdr l) (fun _ s' => Loaded H t [l.vaddr] s s') E s := by
  unfold loadPage
  rw [wp_bind]
  refine wp_mono (wp_virtMapPage_frame h _ _ hE) ?_
  rintro ⟨ret, p⟩ s1 (⟨hzero, hE'⟩ | ⟨hret, hf⟩)
  · cases hzero
    exact hE' _
  · dsimp only at hret hf ⊢
    rw [hret, if_neg (by decide), wp_modifyMem]
    exact hf.loaded.write h hf.own hf.fresh hf.apart fun x hx =>
      fillFrame_outside hdr l s1.mem hf.aligned hf.below hx

theorem wp_loadPages (hdr : Elf64Phdr) : ∀ (n : ℕ) (l : Loading) {s : Machine α},
    Rooted H wholeTable t s.heap s.mem → wp (loadPages A elfAddress t hdr n l)
      (fun _ s' => Loaded H t (hdr.pages n l) s s') (fun _ => True) s
  | 0, _, _, h => Loaded.refl h
  | n + 1, l, s, h => by
    unfold loadPages
    rw [wp_bind]
    refine wp_mono (wp_loadPage h hdr l (.inl fun _ => trivial)) fun _ s1 h1 => ?_
    exact wp_mono (wp_loadPages hdr n _ h1.rooted) fun _ s2 h2 => h1.trans h2

/-! ## The headers -/

/-- The `n` bytes from `a` lie in `file`. -/
def InBlocks (file : List Block) (a : Word) (n : ℕ) : Prop :=
  ∀ k < n, ∃ b ∈ file, b.Has (virtToPhys (a + BitVec.ofNat 64 k))

/-- `n` program headers from `a` on lie in `file`. -/
def PhdrsIn (file : List Block) : ℕ → Word → Prop
  | 0, _ => True
  | n + 1, a => InBlocks file a 56 ∧ PhdrsIn file n (a + phdrSize)

/-- What is read of the file, except for the bytes of its segments, lies in `file`. -/
structure HeadersIn (file : List Block) (m : Mem) (elfAddress : Word) : Prop where
  ehdr : InBlocks file elfAddress 64
  phdrs : PhdrsIn file (elfHdr m elfAddress).ePhnum.toNat
    (elfAddress + (elfHdr m elfAddress).ePhoff)

lemma InBlocks.sameBytes {file : List Block} {a : Word} {n : ℕ} {m m' : Mem}
    (h : InBlocks file a n) (hagree : AgreeOn file (phys m) (phys m')) : SameBytes m m' a n := by
  intro k hk
  obtain ⟨b, hb, hx⟩ := h k hk
  have hbyte := hagree b hb _ hx
  rwa [phys, phys, physToVirt_virtToPhys] at hbyte

lemma segmentPages_congr {file : List Block} {m m' : Mem}
    (hagree : AgreeOn file (phys m) (phys m')) : ∀ (n : ℕ) (a : Word), PhdrsIn file n a →
    segmentPages m' n a = segmentPages m n a
  | 0, _, _ => rfl
  | n + 1, a, h => by
    unfold segmentPages
    rw [curHdr_congr (h.1.sameBytes hagree), segmentPages_congr hagree n _ h.2]

/-- The blocks of the file are outstanding and hold no table. -/
def FileApart (H : PhysHeap A) (t : Word) (file : List Block) (s : Machine α) : Prop :=
  ∀ b ∈ file, b ∈ H.own s.heap ∧ ApartFromTables s.mem t b

lemma Loaded.file {file : List Block} (h : Loaded H t vs s s') (hfile : FileApart H t file s) :
    FileApart H t file s' ∧ AgreeOn file (phys s.mem) (phys s'.mem) := by
  refine ⟨fun b hb => ?_, fun b hb => ?_⟩
  · obtain ⟨h1, h2, -⟩ := h.others b (hfile b hb).1 (hfile b hb).2
    exact ⟨h1, h2⟩
  · exact (h.others b (hfile b hb).1 (hfile b hb).2).2.2

theorem wp_loadSegments {file : List Block} : ∀ (n : ℕ) (a : Word) {s : Machine α},
    Rooted H wholeTable t s.heap s.mem → FileApart H t file s → PhdrsIn file n a →
    wp (loadSegments A elfAddress t n a)
      (fun _ s' => Loaded H t (segmentPages s.mem n a) s s') (fun _ => True) s
  | 0, _, _, h, _, _ => Loaded.refl h
  | n + 1, a, s, h, hfile, hin => by
    unfold loadSegments segmentPages
    rw [wp_bind, wp_get]
    dsimp only
    split
    · exact wp_loadSegments n _ h hfile hin.2
    · split
      · exact Loaded.refl h
      · rw [wp_bind]
        refine wp_mono (wp_loadPages _ _ _ h) fun _ s1 h1 => ?_
        obtain ⟨hfile1, hagree⟩ := h1.file hfile
        refine wp_mono (wp_loadSegments n _ h1.rooted hfile1 hin.2) fun _ s2 h2 => ?_
        rw [segmentPages_congr hagree n _ hin.2] at h2
        exact h1.trans h2

/-! ## The stack and the context -/

/-- What has been mapped besides the pages `vs` is in the user half. -/
def LoadedWithUser (H : PhysHeap A) (t : Word) (vs : List Word) (s s' : Machine α) : Prop :=
  ∃ us, (∀ u ∈ us, index 3 u < 256) ∧ Loaded H t (vs ++ us) s s'

lemma Loaded.withUser (h : Loaded H t vs s s') : LoadedWithUser H t vs s s' :=
  ⟨[], fun _ hu => absurd hu List.not_mem_nil, by rwa [List.append_nil]⟩

lemma LoadedWithUser.next (h : LoadedWithUser H t vs s s1) (hv : index 3 v < 256)
    (h' : Loaded H t [v] s1 s') : LoadedWithUser H t vs s s' := by
  obtain ⟨us, hus, hl⟩ := h
  refine ⟨us ++ [v], fun u hu => ?_, by rw [← List.append_assoc]; exact hl.trans h'⟩
  rcases List.mem_append.mp hu with hu | hu
  · exact hus u hu
  · rw [List.mem_singleton.mp hu]
    exact hv

lemma index_stack {i : ℕ} (hi : i < 4) :
    index 3 (userStackLocation - userStackSize + pageSmallSize * BitVec.ofNat 64 i) < 256 := by
  interval_cases i <;> decide

theorem wp_loadStack (h : LoadedWithUser H t vs s s1) :
    wp (loadStack A t) (fun _ s' => LoadedWithUser H t vs s s') (fun _ => True) s1 := by
  unfold loadStack
  refine wp_forRange (fun _ s' => LoadedWithUser H t vs s s') 4 h fun i s2 hi h2 => ?_
  have hrooted : Rooted H wholeTable t s2.heap s2.mem := by
    obtain ⟨us, -, hl⟩ := h2
    exact hl.rooted
  rw [wp_bind]
  refine wp_mono (wp_virtMapPage_frame hrooted _ _ (.inl fun _ => trivial)) ?_
  rintro ⟨ret, p⟩ s3 (⟨hzero, -⟩ | ⟨hret, hf⟩)
  · cases hzero
    exact trivial
  · dsimp only at hret hf ⊢
    rw [hret, if_neg (by decide), wp_modifyMem]
    refine h2.next (index_stack hi) (hf.loaded.write hrooted hf.own hf.fresh hf.apart
      fun x hx => ?_)
    have hbelow : p.toNat + 4096 ≤ 2 ^ 39 := hf.below
    have hout : ¬ (page4KIB p).Has x := hx
    show phys (memclr s3.mem (physToVirt p) 4096) x = phys s3.mem x
    rw [phys_memclr_page, fill_outside _ (by omega) hout]

/-- The context lies at the end of its page. -/
lemma storeContext_outside (m : Mem) {p x : Word} (ip : Word) (hp : p.toNat + 4096 ≤ 2 ^ 39)
    (hx : ¬ (page4KIB p).Has x) :
    phys (storeContext m (physToVirt (p + contextStackSize - contextSize)) ip) x = phys m x := by
  have hstore : ∀ (n : Mem) (c y : Word), c.toNat + 8 ≤ 176 →
      phys (store64 n (physToVirt (p + contextStackSize - contextSize) + c) y) x = phys n x := by
    intro n c y hc
    have haddr : (p + contextStackSize - contextSize + c).toNat = p.toNat + 3920 + c.toNat := by
      show (p + 0x1000 - 176 + c).toNat = _
      rw [BitVec.toNat_add, BitVec.toNat_sub, BitVec.toNat_add]
      have h1 : (0x1000 : Word).toNat = 4096 := rfl
      have h2 : (176 : Word).toNat = 176 := rfl
      rw [h1, h2]
      omega
    rw [physToVirt_add, phys_store64]
    refine store64_outside _ (page4KIB p) ?_ ?_ ?_ hx
    · rw [haddr]
      dsimp only
      omega
    · rw [haddr]
      dsimp only
      omega
    · rw [haddr]
      omega
  simp only [storeContext]
  rw [hstore _ 168 _ (by decide), hstore _ 144 _ (by decide), hstore _ 152 _ (by decide),
    hstore _ 48 _ (by decide), hstore _ 160 _ (by decide), hstore _ 136 _ (by decide)]

/-- A small page is never missing: the allocator panics instead. -/
lemma wp_virtMapPage_small (hv : H.Valid s.heap s.mem) (flags : Word) :
    wp (virtMapPage A t v flags pageSmall) (fun res _ => res ≠ (0, 0)) (fun _ => True) s := by
  rw [virtMapPage, wp_bind, allocFrame, if_neg (by decide), if_pos rfl]
  refine wp_physAlloc4KIB H hv (.inl fun _ => trivial) fun p s1 _ _ hh _ => ?_
  have hpos : 0 < p.toNat := hh.pos
  have hne : p ≠ 0 := by
    rintro rfl
    exact absurd hpos (by simp)
  rw [if_neg hne, wp_bind]
  exact wp_mono (wp_trivial _ s1) fun ret _ _ he => hne (congrArg Prod.snd he)

theorem wp_loadContext (pcb : PCB) (h : LoadedWithUser H t vs s s1) :
    wp (loadContext A elfAddress t pcb) (fun _ s' => LoadedWithUser H t vs s s') (fun _ => True)
      s1 := by
  have hrooted : Rooted H wholeTable t s1.heap s1.mem := by
    obtain ⟨us, -, hl⟩ := h
    exact hl.rooted
  unfold loadContext
  rw [wp_bind]
  refine wp_weaken (wp_mono (wp_and (wp_virtMapPage_frame (E := fun _ => True) hrooted _ _
    (.inl fun _ => trivial)) (wp_virtMapPage_small hrooted.valid _)) ?_) fun _ _ => trivial
  rintro ⟨ret, p⟩ s2 ⟨⟨hzero, -⟩ | ⟨-, hf⟩, hsmall⟩
  · exact absurd hzero hsmall
  · dsimp only at hf ⊢
    rw [wp_bind, wp_modifyMem, wp_pure]
    exact h.next (by decide) (hf.loaded.write hrooted hf.own hf.fresh hf.apart fun x hx =>
      storeContext_outside s2.mem _ hf.below hx)

/-! ## The whole function -/

/-- The page table is a process's own, and the headers of the file are kept where neither it nor
its kernel half has a page. -/
structure LoaderInput (H : PhysHeap A) (elfAddress t : Word) (s : Machine α)
    (file rest : List Block) : Prop where
  table : ProcessTable H t rest s.heap s.mem
  apart : ∀ b ∈ file, b ∈ rest ∧ ∀ u ∈ tables (kernelTree (phys s.mem) t), (page4KIB u).Disjoint b
  headers : HeadersIn file s.mem elfAddress

lemma ProcessTable.fileApart {rest file : List Block} (h : ProcessTable H t rest s.heap s.mem)
    (hfile : ∀ b ∈ file, b ∈ rest ∧
      ∀ u ∈ tables (kernelTree (phys s.mem) t), (page4KIB u).Disjoint b) :
    FileApart H t file s := by
  refine fun b hb => ⟨h.user.rest_own (hfile b hb).1, fun u hu => ?_⟩
  rw [tree_wholeTable, tables_append] at hu
  rcases List.mem_append.mp hu with hu | hu
  · exact h.user.apart (table_mem_blocks hu) (hfile b hb).1
  · exact (hfile b hb).2 u hu

/-- After the reset the pages of the file, and some of the user half, are loaded. -/
lemma wp_replaceImage_loaded (hf : H.FreesReturn) {file rest : List Block} (pcb : PCB)
    (h : LoaderInput H elfAddress t s file rest) :
    wp (replaceImage A elfAddress t kernelTable pcb)
      (fun _ s' => ∃ s1, KernelHalfKept (phys s.mem) (phys s1.mem) t ∧
        LoadedWithUser H t (filePages s.mem elfAddress) s1 s') (fun _ => True) s := by
  unfold replaceImage
  rw [wp_bind]
  refine wp_mono (wp_virtResetTable_kernelHalf hf h.table) ?_
  rintro - s1 ⟨⟨more, htable⟩, hkept, hagree⟩
  have hfile : AgreeOn file (phys s.mem) (phys s1.mem) := hagree.mono fun b hb => (h.apart b hb).1
  have hapart : FileApart H t file s1 := htable.fileApart fun b hb => by
    refine ⟨List.mem_append_right _ (h.apart b hb).1, ?_⟩
    rw [hkept.tree_eq]
    exact (h.apart b hb).2
  rw [wp_bind, wp_get, elfHdr_congr (h.headers.ehdr.sameBytes hfile)]
  dsimp only
  rw [wp_bind]
  refine wp_mono (wp_loadSegments _ _ htable.rooted hapart h.headers.phdrs) fun error s2 h2 => ?_
  rw [segmentPages_congr hfile _ _ h.headers.phdrs] at h2
  have hloaded := h2.withUser
  rw [wp_ite]
  refine ⟨fun _ => ⟨s1, hkept, hloaded⟩, fun _ => ?_⟩
  rw [wp_bind]
  refine wp_mono (wp_loadStack hloaded) fun _ s3 h3 => ?_
  rw [wp_bind]
  exact wp_mono (wp_loadContext pcb h3) fun _ s4 h4 => ⟨s1, hkept, h4⟩

/-- A call that returns leaves the kernel half as it was if and only if it fails at the file
header or every page of the file is mapped through the user half. -/
theorem elfCreateProcess_kernelHalf_iff (hf : H.FreesReturn) {file rest : List Block} {pcb : PCB}
    {res : ElfError × PCB} (h : LoaderInput H elfAddress t s file rest)
    (hrun : elfCreateProcess A elfAddress t kernelTable pcb s = .ok (res, s')) :
    KernelHalfKept (phys s.mem) (phys s'.mem) t ↔
      checkElfHdr (elfHdr s.mem elfAddress) ≠ .noError ∨
        ∀ v ∈ filePages s.mem elfAddress, index 3 v < 256 := by
  have hwp : wp (elfCreateProcess A elfAddress t kernelTable pcb)
      (fun _ s' => KernelHalfKept (phys s.mem) (phys s'.mem) t ↔
        checkElfHdr (elfHdr s.mem elfAddress) ≠ .noError ∨
          ∀ v ∈ filePages s.mem elfAddress, index 3 v < 256) (fun _ => True) s := by
    unfold elfCreateProcess
    rw [wp_bind, wp_get, wp_ite, wp_ite]
    refine ⟨fun hhdr => ?_, fun hhdr => ⟨fun _ => trivial, fun _ => ?_⟩⟩
    · exact ⟨fun _ => .inl hhdr, fun _ => .refl _ _⟩
    · refine wp_mono (wp_replaceImage_loaded hf pcb h) ?_
      rintro - s2 ⟨s1, hkept, us, hus, hl⟩
      rw [or_iff_right hhdr]
      constructor
      · -- a page in the kernel half would be seen
        intro hall v hv
        by_contra hlt
        have hsize := hl.size_lt v (List.mem_append_left _ hv)
        rw [mappedSize, mappedSize, hall.walk (by omega), hkept.walk (by omega)] at hsize
        exact lt_irrefl _ hsize
      · intro hall
        refine hkept.trans (hl.kept fun v hv => ?_)
        exact (List.mem_append.mp hv).elim (hall v) (hus v)
  exact hwp.ok hrun

/-! ## A page beyond the user half -/

/-- There is nothing to give back. -/
lemma wp_virtResetTable_empty (ht : 4096 ∣ t.toNat) (hne : t ≠ kernelTable)
    (hzero : ∀ j < 512, entry (phys s.mem) t j = 0) :
    wp (virtResetTable A kernelTable t)
      (fun _ s' => s'.heap = s.heap ∧ (∀ j < 512, entry (phys s'.mem) t j = 0) ∧
        ∀ x, ¬ (page4KIB t).Has x → phys s'.mem x = phys s.mem x) E s := by
  unfold virtResetTable
  rw [if_neg hne]
  refine wp_forRange (fun _ (s' : Machine α) => s'.heap = s.heap ∧ (∀ j < 512, entry (phys s'.mem) t j = 0) ∧
    ∀ x, ¬ (page4KIB t).Has x → phys s'.mem x = phys s.mem x) 256
    ⟨rfl, hzero, fun _ _ => rfl⟩ fun i s1 hi h1 => ?_
  obtain ⟨hheap, hz, hout⟩ := h1
  unfold cleanupSlot
  rw [wp_bind, wp_bind, wp_loadEntry, hz i (by omega), if_neg (by decide), wp_pure, wp_storeEntry]
  refine ⟨hheap, fun j hj => ?_, fun x hx => ?_⟩
  · dsimp only
    rw [phys_storeEntry]
    by_cases hij : j = i
    · rw [hij, entry_store64_self]
    · rw [entry_store64_other _ _ ht ht hj (by omega) (.inr hij), hz j hj]
  · dsimp only
    rw [phys_storeEntry, entry_store64_outside _ _ ht (by omega) hx, hout x hx]

namespace Bump

/-- A file with a segment to load at `0x808000000000`, and one that is refused. -/
def kernelFile : List Byte :=
  [0x7F, 0x45, 0x4C, 0x46, 2, 1, 1, 0,  0, 0, 0, 0, 0, 0, 0, 0,
   2, 0, 62, 0, 1, 0, 0, 0,  0, 0, 0x40, 0, 0, 0, 0, 0,
   64, 0, 0, 0, 0, 0, 0, 0,  0, 0, 0, 0, 0, 0, 0, 0,
   0, 0, 0, 0, 64, 0, 56, 0,  2, 0, 0, 0, 0, 0, 0, 0,
   1, 0, 0, 0, 6, 0, 0, 0,  0, 0, 0, 0, 0, 0, 0, 0,
   0, 0, 0, 0, 0x80, 0x80, 0, 0,  0, 0, 0, 0, 0, 0, 0, 0,
   0, 0, 0, 0, 0, 0, 0, 0,  0, 0, 0, 0, 0, 0, 0, 0,
   0, 0, 0, 0, 0, 0, 0, 0,  1, 0, 0, 0, 6, 0, 0, 0,
   0, 0, 0, 0, 0, 0, 0, 0,  0, 0, 0, 0, 0, 0x80, 0xFF, 0xFF]

lemma kernelFile_length : kernelFile.length ≤ 4096 := by decide +kernel

/-- Where the page of the file is mapped -/
def kernelPage : Word := 0x808000000000

lemma kernelFile_ehdr : checkElfHdr (elfHdr (fileStart kernelFile).mem (physToVirt filePage))
      = .noError ∧
    (elfHdr (fileStart kernelFile).mem (physToVirt filePage)).eEntry ≠ 0 ∧
    (elfHdr (fileStart kernelFile).mem (physToVirt filePage)).ePhnum.toNat = 2 ∧
    (elfHdr (fileStart kernelFile).mem (physToVirt filePage)).ePhoff = 64 := by decide +kernel

/-- The first program header -/
lemma kernelFile_phdr : let hdr := curHdr (fileStart kernelFile).mem (physToVirt filePage + 64)
    hdr.pType = ptLoad ∧ ¬ hdr.Refused ∧ hdr.numPages.toNat = 1 ∧ hdr.loading.vaddr = kernelPage ∧
      hdr.pageSizeType = pageSmall := by decide +kernel

lemma kernelFile_refused :
    let hdr := curHdr (fileStart kernelFile).mem (physToVirt filePage + 64 + phdrSize)
    hdr.pType = ptLoad ∧ hdr.Refused := by decide +kernel

lemma inBlocks_filePage {c : Word} {n : ℕ} (h : c.toNat + n ≤ 4096) :
    InBlocks [page4KIB filePage] (physToVirt filePage + c) n := by
  intro k hk
  have hpage : filePage.toNat = 8192 := rfl
  refine ⟨_, List.mem_singleton_self _, ?_⟩
  rw [physToVirt_add, physToVirt_add, virtToPhys_physToVirt]
  have haddr : (filePage + c + BitVec.ofNat 64 k).toNat = 8192 + c.toNat + k := by
    rw [toNat_add_ofNat, BitVec.toNat_add, hpage]
    · omega
    · rw [BitVec.toNat_add, hpage]
      omega
  constructor
  · rw [haddr, hpage]
    omega
  · rw [haddr, hpage]
    dsimp only
    omega

lemma loaderInput_kernelFile : LoaderInput (heap release) (physToVirt filePage) 0x1000
    (fileStart kernelFile) [page4KIB filePage] [page4KIB filePage] := by
  have hlen := kernelFile_length
  have hempty : kernelTree (phys (fileStart kernelFile).mem) 0x1000 = [] := by
    rw [kernelTree, List.flatMap_eq_nil_iff]
    exact fun i hi => slotTree_absent (fileStart_absent hlen hi)
  refine ⟨⟨focused_fileStart hlen, ?_, ?_, ?_⟩, ?_, ?_, ?_⟩
  · exact tableAll_of_absent (fun e he => entryForm_of_absent (decode_absent_iff.mp he))
      fun i hi => fileStart_absent hlen hi
  · rw [hempty]
    exact List.nodup_nil
  · rw [hempty]
    exact fun u hu => absurd hu List.not_mem_nil
  · rw [hempty]
    exact fun b hb => ⟨hb, fun u hu => absurd hu List.not_mem_nil⟩
  · have h0 : InBlocks [page4KIB filePage] (physToVirt filePage + 0) 64 :=
      inBlocks_filePage (by decide)
    rwa [add_zero] at h0
  · obtain ⟨-, -, hnum, hoff⟩ := kernelFile_ehdr
    rw [hnum, hoff]
    refine ⟨inBlocks_filePage (by decide), ?_, trivial⟩
    rw [add_assoc]
    exact inBlocks_filePage (by decide)

/-- The page is mapped, and then the second segment is refused. -/
lemma wp_loadSegments_kernelFile {s : Machine Bump} (hheap : s.heap = (fileStart kernelFile).heap)
    (hzero : ∀ j < 512, entry (phys s.mem) 0x1000 j = 0)
    (hagree : AgreeOn [page4KIB filePage] (phys (fileStart kernelFile).mem) (phys s.mem)) :
    wp (loadSegments (allocator release) (physToVirt filePage) 0x1000 2 (physToVirt filePage + 64))
      (fun error s' => error = .badVaddr ∧ walk (phys s'.mem) 3 0x1000 kernelPage ≠ none)
      (fun _ => False) s := by
  obtain ⟨hload, haccepted, hpages, hvaddr, hsmall⟩ := kernelFile_phdr
  obtain ⟨hload', hrefused⟩ := kernelFile_refused
  have hphdrs : PhdrsIn [page4KIB filePage] 2 (physToVirt filePage + 64) := by
    have hin := loaderInput_kernelFile.headers.phdrs
    rwa [kernelFile_ehdr.2.2.1, kernelFile_ehdr.2.2.2] at hin
  have hown : (heap release).own s.heap = [page4KIB 0x1000, page4KIB filePage] := by
    rw [hheap]
    rfl
  have hrooted : Rooted (heap release) wholeTable 0x1000 s.heap s.mem := by
    refine rooted_empty ?_ (by decide) ?_ hzero
    · rw [hheap]
      exact valid_filePage
    · rw [hown]
      exact List.mem_cons_self
  have hnone : walk (phys s.mem) 3 0x1000 kernelPage = none :=
    walk_of_absent (by rw [hzero _ (index_lt 3 _), decode_zero])
  have hfile : FileApart (heap release) 0x1000 [page4KIB filePage] s := by
    intro b hb
    rw [List.mem_singleton.mp hb, hown]
    refine ⟨List.mem_cons_of_mem _ (List.mem_singleton_self _), fun u hu => ?_⟩
    rw [tree_of_absent fun i hi => by rw [hzero i (mem_slots.mp hi).1, decode_zero],
      tables_cons_table, tables_nil, List.mem_singleton] at hu
    rw [hu]
    decide
  rw [loadSegments, wp_bind, wp_get]
  dsimp only
  rw [curHdr_congr (hphdrs.1.sameBytes hagree), if_neg (not_not.mpr hload), if_neg haccepted,
    hpages, wp_bind, loadPages, wp_bind]
  have hsafe : MapPageSafe (heap release) (fun _ => False) 0x1000
      (curHdr (fileStart kernelFile).mem (physToVirt filePage + 64)).loading.vaddr
      (curHdr (fileStart kernelFile).mem (physToVirt filePage + 64)).pageSizeType s.heap s.mem := by
    rw [hvaddr, hsmall]
    exact .inr ⟨by rw [hheap]; decide, hnone, .inr rfl⟩
  refine wp_mono (wp_loadPage hrooted _ _ hsafe) fun _ s1 h1 => ?_
  rw [loadPages, wp_pure, loadSegments, wp_bind, wp_get]
  dsimp only
  have hagree1 := hagree.trans (h1.file hfile).2
  rw [curHdr_congr (hphdrs.2.1.sameBytes hagree1), if_neg (not_not.mpr hload'), if_pos hrefused,
    wp_pure]
  refine ⟨rfl, fun hwalk => ?_⟩
  have hsize := h1.size_lt _ (List.mem_singleton_self _)
  rw [hvaddr, mappedSize, mappedSize, hwalk, hnone] at hsize
  exact lt_irrefl _ hsize

lemma kernelFile_run (pcb : PCB) : ∃ s', elfCreateProcess (allocator release)
      (physToVirt filePage) 0x1000 0 pcb (fileStart kernelFile) = .ok ((.badVaddr, pcb), s') ∧
    walk (phys s'.mem) 3 0x1000 kernelPage ≠ none := by
  have h : wp (elfCreateProcess (allocator release) (physToVirt filePage) 0x1000 0 pcb)
      (fun r s' => r = (.badVaddr, pcb) ∧ walk (phys s'.mem) 3 0x1000 kernelPage ≠ none)
      (fun _ => False) (fileStart kernelFile) := by
    obtain ⟨hpass, hentry, hnum, hoff⟩ := kernelFile_ehdr
    unfold elfCreateProcess
    rw [wp_bind, wp_get, if_neg (not_not.mpr hpass), if_neg hentry]
    unfold replaceImage
    rw [wp_bind]
    refine wp_mono (wp_virtResetTable_empty (by decide) (by decide)
      fun j hj => fileStart_entry kernelFile_length hj) ?_
    rintro - s1 ⟨hheap, hzero, hout⟩
    have hagree : AgreeOn [page4KIB filePage] (phys (fileStart kernelFile).mem) (phys s1.mem) := by
      intro b hb x hx
      rw [List.mem_singleton.mp hb] at hx
      have hdis : (page4KIB 0x1000).Disjoint (page4KIB filePage) := by decide
      exact hout x (hdis.not_has hx)
    rw [wp_bind, wp_get,
      elfHdr_congr (loaderInput_kernelFile.headers.ehdr.sameBytes hagree)]
    dsimp only
    rw [hnum, hoff, wp_bind]
    refine wp_mono (wp_loadSegments_kernelFile hheap hzero hagree) ?_
    rintro error s2 ⟨rfl, hwalk⟩
    rw [if_pos (by decide), wp_pure]
    exact ⟨rfl, hwalk⟩
  obtain ⟨r, s', hrun, rfl, hwalk⟩ := h.returns
  exact ⟨s', hrun, hwalk⟩

/-- A file can have a page mapped in the kernel half. -/
theorem not_kernelHalfKept : ¬ ∀ (s s' : Machine Bump) (elfAddress t kernelTable : Word)
    (pcb : PCB) (res : ElfError × PCB) (file rest : List Block),
    LoaderInput (heap release) elfAddress t s file rest →
    elfCreateProcess (allocator release) elfAddress t kernelTable pcb s = .ok (res, s') →
      KernelHalfKept (phys s.mem) (phys s'.mem) t := by
  intro h
  obtain ⟨s', hrun, hmapped⟩ := kernelFile_run ⟨0, 0x1000, 0, 1, 0, .ready, 1⟩
  have hkept := h _ _ _ _ _ _ _ _ _ loaderInput_kernelFile hrun
  refine hmapped ?_
  rw [hkept.walk (by decide)]
  exact walk_of_absent (by rw [fileStart_entry kernelFile_length (index_lt 3 _), decode_zero])

/-- The file with that page -/
theorem kernelHalfKept_kernelFile : ∃ s',
    elfCreateProcess (allocator release) (physToVirt filePage) 0x1000 0
      ⟨0, 0x1000, 0, 1, 0, .ready, 1⟩ (fileStart kernelFile)
      = .ok ((.badVaddr, ⟨0, 0x1000, 0, 1, 0, .ready, 1⟩), s') ∧
    (KernelHalfKept (phys (fileStart kernelFile).mem) (phys s'.mem) 0x1000 ↔
      checkElfHdr (elfHdr (fileStart kernelFile).mem (physToVirt filePage)) ≠ .noError ∨
        ∀ v ∈ filePages (fileStart kernelFile).mem (physToVirt filePage), index 3 v < 256) := by
  obtain ⟨s', hrun, -⟩ := kernelFile_run ⟨0, 0x1000, 0, 1, 0, .ready, 1⟩
  exact ⟨s', hrun, elfCreateProcess_kernelHalf_iff freesReturn loaderInput_kernelFile hrun⟩

end Bump

end Bikeshed
