import Bikeshed.PhysMemory.Pool

/-!
# The pool functions on one pool

Each function is specified on a state whose memory holds a pool (`PoolAt`): what it returns,
which pool is there afterwards, and where it has written.
-/

namespace Bikeshed.PhysAlloc

open Lib

variable {P P' : Mem} {p q : PoolView} {a c : Word} {flag : Byte} {σ : Type} {s s' : Phys σ}

/-- The direct map moves physical addresses up. -/
lemma toNat_physToVirt {x : Word} (h : x.toNat < 2 ^ 47) :
    (physToVirt x).toNat = x.toNat + 0xFFFF800000000000 := by
  have hk : kernelBase.toNat = 0xFFFF800000000000 := by decide
  rw [physToVirt, BitVec.toNat_add, hk]
  omega

/-- A pointer into it is not NULL. -/
lemma physToVirt_ne {x : Word} (h : x.toNat < 2 ^ 47) : physToVirt x ≠ 0 := by
  intro h0
  have h1 := toNat_physToVirt h
  rw [h0] at h1
  simp at h1

/-- Masking a page leaves it as it is. -/
lemma mask4KIB_physToVirt {x : Word} (h : 4096 ∣ x.toNat) (hlt : x.toNat < 2 ^ 47) :
    mask4KIB (physToVirt x) = physToVirt x := by
  apply word_ext
  rw [toNat_mask4KIB, toNat_physToVirt hlt]
  omega

/-- The chunk of an address, as `phys_free_4KIB` finds it. -/
lemma mask2MIB_physToVirt {c x : Word} (hc : 2 ^ 21 ∣ c.toNat) (hlt : c.toNat + 2 ^ 21 < 2 ^ 47)
    (hx : (page2MIB c).Has x) : mask2MIB (physToVirt x) = physToVirt c := by
  obtain ⟨h1, h2⟩ := hx
  dsimp only at h1 h2
  apply word_ext
  rw [toNat_mask2MIB, toNat_physToVirt (by omega), toNat_physToVirt (by omega)]
  omega

lemma load64_eq_entry (P : Mem) (a : Word) : load64 P a = entry P a 0 := by
  rw [entry]
  simp

/-- The first word of a page is in the page. -/
lemma load64_page (ha : 4096 ∣ a.toNat) (h : ∀ x, (page4KIB a).Has x → P' x = P x) :
    load64 P' a = load64 P a := by
  rw [load64_eq_entry, load64_eq_entry]
  exact entry_congr ha (by norm_num) h

/-- The memory `P` holds the pool `p`. -/
structure PoolAt (P : Mem) (p : PoolView) (flag : Byte) : Prop where
  size : (header P p.base).field .size = BitVec.ofNat 64 p.free.length
  stack : Linked physToVirt (load64 P) ((header P p.base).field .top) p.free
  implicitNext : (header P p.base).field .implicitNext = physToVirt (p.page p.bump)
  maxAddress : (header P p.base).field .maxAddress = physToVirt (p.base + 0x200000)
  onList : (header P p.base).onList = flag

/-- The nodes of the free stack are as they were. -/
lemma PoolAt.nodes (h : PoolAt P p flag) (hs : p.Sound)
    (hP : ∀ a ∈ p.free, ∀ x, (page4KIB a).Has x → P' x = P x) :
    Linked physToVirt (load64 P') ((header P p.base).field .top) p.free :=
  h.stack.congr fun a ha => load64_page (hs.toNat_mem (List.mem_append_left _ ha)).1 (hP a ha)

/-- A pool depends on its record and on its free pages only. -/
lemma PoolAt.congr (h : PoolAt P p flag) (hs : p.Sound)
    (hrec : ∀ x, (page4KIB p.base).Has x → P' x = P x)
    (hP : ∀ a ∈ p.free, ∀ x, (page4KIB a).Has x → P' x = P x) : PoolAt P' p flag := by
  have hh := header_congr hs.page_aligned hrec
  have hnodes := h.nodes hs hP
  constructor
  · rw [hh, h.size]
  · rw [hh]
    exact hnodes
  · rw [hh, h.implicitNext]
  · rw [hh, h.maxAddress]
  · rw [hh, h.onList]

/-- A pool is read off the record that has been set. -/
lemma poolAt_of_sets {hdr : Header} (hset : Sets c hdr s s') (hq : q.base = c)
    (hsize : hdr.field .size = BitVec.ofNat 64 q.free.length)
    (hstack : Linked physToVirt (load64 (phys s'.mem)) (hdr.field .top) q.free)
    (himp : hdr.field .implicitNext = physToVirt (q.page q.bump))
    (hmax : hdr.field .maxAddress = physToVirt (q.base + 0x200000)) :
    PoolAt (phys s'.mem) q hdr.onList := by
  subst hq
  constructor
  · rw [hset.header, hsize]
  · rw [hset.header]
    exact hstack
  · rw [hset.header, himp]
  · rw [hset.header, hmax]
  · rw [hset.header]

/-- Links and flag are no part of the pool itself. -/
lemma PoolAt.relink (h : PoolAt (phys s.mem) p flag) (hs : p.Sound) {hdr : Header}
    (hset : Sets p.base hdr s s')
    (hsame : ∀ f, f ≠ .next → f ≠ .prev → hdr.field f = (header (phys s.mem) p.base).field f) :
    PoolAt (phys s'.mem) p hdr.onList := by
  have hnodes := h.nodes hs fun a ha =>
    hset.within.agree (hs.record_disjoint (List.mem_append_left _ ha))
  refine poolAt_of_sets hset rfl ?_ ?_ ?_ ?_
  · rw [hsame _ (by decide) (by decide), h.size]
  · rw [hsame _ (by decide) (by decide)]
    exact hnodes
  · rw [hsame _ (by decide) (by decide), h.implicitNext]
  · rw [hsame _ (by decide) (by decide), h.maxAddress]

/-! ## Reading -/

lemma PoolView.Sound.base_lt (hs : p.Sound) : p.base.toNat < 2 ^ 47 := by
  have := hs.below
  omega

/-- Pages lie below the end of the direct map. -/
lemma PoolView.Sound.mem_lt (hs : p.Sound) (ha : a ∈ p.free ++ p.used) : a.toNat < 2 ^ 47 := by
  have h1 := (hs.toNat_mem ha).2.2
  have h2 := hs.below
  omega

/-- A chunk does not wrap. -/
lemma toNat_chunkEnd (hs : p.Sound) : (p.base + 0x200000).toNat = p.base.toNat + 2 ^ 21 := by
  have h := hs.below
  have hlt : p.base.toNat + 0x200000 < 2 ^ 64 := by omega
  exact toNat_add_ofNat hlt

/-- The fields as the code reads them -/
lemma field_header (hb : c = p.base) (f : PoolField) :
    s.field (physToVirt c) f = (header (phys s.mem) p.base).field f := by
  rw [hb, field_eq]
  rfl

/-- The test whether pages have been given back -/
lemma stackEmpty_iff (h : PoolAt (phys s.mem) p flag) (hs : p.Sound) :
    stackEmpty (freeStack (physToVirt p.base)) s = true ↔ p.free = [] := by
  have hlen := hs.length
  have hbump := hs.bump
  show decide (s.field (physToVirt p.base) .size = 0) = true ↔ _
  rw [field_header rfl, h.size, decide_eq_true_iff, ← BitVec.toNat_inj,
    toNat_ofNat_lt (by omega), ← List.length_eq_zero_iff]
  rfl

/-- The test whether there are pages left that have never been handed out -/
lemma maxAddress_le_iff (h : PoolAt (phys s.mem) p flag) (hs : p.Sound) :
    (s.field (physToVirt p.base) .maxAddress).toNat
      ≤ (s.field (physToVirt p.base) .implicitNext).toNat ↔ p.bump = 511 := by
  have hbump := hs.bump
  have hbelow := hs.below
  have hend := toNat_chunkEnd hs
  have hpage := p.toNat_page hbelow (i := p.bump) (by omega)
  rw [field_header rfl, field_header rfl, h.maxAddress, h.implicitNext,
    toNat_physToVirt (by omega), toNat_physToVirt (by omega), hend, hpage]
  omega

/-- `pool_empty` answers what its name says. -/
lemma poolEmpty_iff (h : PoolAt (phys s.mem) p flag) (hs : p.Sound) :
    poolEmpty (physToVirt p.base) s = true ↔ p.isEmpty := by
  rw [poolEmpty, Bool.and_eq_true, stackEmpty_iff h hs, decide_eq_true_iff, maxAddress_le_iff h hs]
  rfl

/-! ## Handing out a page -/

/-- The page comes off the free stack. -/
lemma stackPop_pool (h : PoolAt (phys s.mem) p flag) (hs : p.Sound) {free : List Word}
    (hfree : p.free = a :: free) :
    ∃ s' hdr, stackPop (freeStack (physToVirt p.base)) s = (physToVirt a, s') ∧
      Sets p.base hdr s s' ∧
      hdr = ((header (phys s.mem) p.base).set .top (load64 (phys s.mem) a)).set .size
        (BitVec.ofNat 64 free.length) := by
  have hne : ¬ stackEmpty (freeStack (physToVirt p.base)) s = true := by
    rw [stackEmpty_iff h hs, hfree]
    exact List.cons_ne_nil _ _
  have htop : s.field (physToVirt p.base) .top = physToVirt a := by
    have hst := h.stack
    rw [hfree] at hst
    rw [field_header rfl]
    exact hst.1
  have hload : load64 s.mem (physToVirt a) = load64 (phys s.mem) a := (phys_load64 _ _).symm
  have hset := (Sets.refl p.base s).setField hs.page_aligned .top (load64 (phys s.mem) a)
  have hsize : (s.setField (physToVirt p.base) .top (load64 (phys s.mem) a)).field
      (physToVirt p.base) .size - 1 = BitVec.ofNat 64 free.length := by
    rw [field_header rfl, hset.header]
    show (header (phys s.mem) p.base).field .size - 1 = _
    rw [h.size, hfree, List.length_cons]
    rw [BitVec.ofNat_add]
    exact add_sub_cancel_right _ _
  refine ⟨_, _, ?_, hset.setField hs.page_aligned .size (BitVec.ofNat 64 free.length), rfl⟩
  rw [stackPop, if_neg hne]
  show (s.field (physToVirt p.base) .top,
    ((s.setField (physToVirt p.base) .top
      (load64 s.mem (s.field (physToVirt p.base) .top))).setField
      (physToVirt p.base) .size ((s.setField (physToVirt p.base) .top
        (load64 s.mem (s.field (physToVirt p.base) .top))).field (physToVirt p.base) .size - 1)))
          = _
  rw [htop, hload, hsize]

/-- A page off the free stack. -/
lemma poolAlloc_free (h : PoolAt (phys s.mem) p flag) (hs : p.Sound) {free : List Word}
    (hfree : p.free = a :: free) :
    ∃ s' hdr, poolAlloc (physToVirt p.base) s = .ok (physToVirt a, s') ∧ Sets p.base hdr s s' ∧
      hdr.field .next = (header (phys s.mem) p.base).field .next ∧
      hdr.field .prev = (header (phys s.mem) p.base).field .prev ∧
      PoolAt (phys s'.mem) ⟨p.base, free, a :: p.used, p.bump⟩ flag := by
  have hne : ¬ poolEmpty (physToVirt p.base) s = true := by
    rw [poolEmpty_iff h hs, PoolView.isEmpty, hfree]
    exact fun he => List.cons_ne_nil _ _ he.1
  have hne' : ¬ stackEmpty (freeStack (physToVirt p.base)) s = true := by
    rw [stackEmpty_iff h hs, hfree]
    exact List.cons_ne_nil _ _
  have hmem : a ∈ p.free ++ p.used := by
    rw [hfree]
    exact List.mem_cons_self
  obtain ⟨s', hdr, hpop, hset, hdr_eq⟩ := stackPop_pool h hs hfree
  have hnodes := h.nodes hs fun b hb =>
    hset.within.agree (hs.record_disjoint (List.mem_append_left _ hb))
  rw [hfree, linked_cons, load64_page (hs.toNat_mem hmem).1
    (hset.within.agree (hs.record_disjoint hmem))] at hnodes
  have hkeep : ∀ f, f ≠ .top → f ≠ .size →
      hdr.field f = (header (phys s.mem) p.base).field f := by
    intro f h1 h2
    rw [hdr_eq, Header.set_field_ne _ _ h2, Header.set_field_ne _ _ h1]
  have hflag : hdr.onList = flag := by
    rw [hdr_eq, Header.set_onList, Header.set_onList, h.onList]
  refine ⟨s', hdr, ?_, hset, hkeep _ (by decide) (by decide), hkeep _ (by decide) (by decide), ?_⟩
  · rw [poolAlloc, if_neg hne, if_pos hne', hpop]
  rw [← hflag]
  refine poolAt_of_sets hset rfl ?_ ?_ ?_ ?_
  · rw [hdr_eq, Header.set_field_self]
  · rw [hdr_eq, Header.set_field_ne _ _ (by decide), Header.set_field_self]
    exact hnodes.2
  · rw [hkeep _ (by decide) (by decide), h.implicitNext]
    rfl
  · rw [hkeep _ (by decide) (by decide), h.maxAddress]

/-- The next page in order. -/
lemma poolAlloc_bump (h : PoolAt (phys s.mem) p flag) (hs : p.Sound) (hfree : p.free = [])
    (hlt : p.bump < 511) :
    ∃ s' hdr, poolAlloc (physToVirt p.base) s = .ok (physToVirt (p.page p.bump), s') ∧
      Sets p.base hdr s s' ∧
      hdr.field .next = (header (phys s.mem) p.base).field .next ∧
      hdr.field .prev = (header (phys s.mem) p.base).field .prev ∧
      PoolAt (phys s'.mem) ⟨p.base, [], p.page p.bump :: p.used, p.bump + 1⟩ flag := by
  have hne : ¬ poolEmpty (physToVirt p.base) s = true := by
    rw [poolEmpty_iff h hs, PoolView.isEmpty]
    omega
  have hempty : stackEmpty (freeStack (physToVirt p.base)) s = true :=
    (stackEmpty_iff h hs).mpr hfree
  have himp : s.field (physToVirt p.base) .implicitNext = physToVirt (p.page p.bump) := by
    rw [field_header rfl, h.implicitNext]
  have hset := (Sets.refl p.base s).setField hs.page_aligned .implicitNext
    (physToVirt (p.page p.bump) + 0x1000)
  have hkeep : ∀ f, f ≠ .implicitNext → ((header (phys s.mem) p.base).set .implicitNext
      (physToVirt (p.page p.bump) + 0x1000)).field f = (header (phys s.mem) p.base).field f :=
    fun f hf => Header.set_field_ne _ _ hf
  have hstack := h.stack
  rw [hfree, linked_nil] at hstack
  refine ⟨_, _, ?_, hset, hkeep _ (by decide), hkeep _ (by decide), ?_⟩
  · rw [poolAlloc, if_neg hne, if_neg (by rw [hempty]; simp), himp]
  rw [← (Header.set_onList _ _ _).trans h.onList]
  refine poolAt_of_sets hset rfl ?_ ?_ ?_ ?_
  · rw [hkeep _ (by decide), h.size, hfree]
  · rw [hkeep _ (by decide), hstack]
    rfl
  · rw [Header.set_field_self, physToVirt_add, PoolView.page_succ]
    rfl
  · rw [hkeep _ (by decide), h.maxAddress]

/-- `pool_alloc` takes a page of the view. -/
theorem poolAlloc_ok (h : PoolAt (phys s.mem) p flag) (hs : p.Sound) (ht : p.take = some (a, q)) :
    ∃ s' hdr, poolAlloc (physToVirt p.base) s = .ok (physToVirt a, s') ∧ Sets p.base hdr s s' ∧
      hdr.field .next = (header (phys s.mem) p.base).field .next ∧
      hdr.field .prev = (header (phys s.mem) p.base).field .prev ∧
      PoolAt (phys s'.mem) q flag := by
  rcases PoolView.take_cases ht with ⟨free, hfree, rfl⟩ | ⟨hfree, hlt, rfl, rfl⟩
  · exact poolAlloc_free h hs hfree
  · exact poolAlloc_bump h hs hfree hlt

/-! ## Taking a page back -/

/-- Nothing but the record and the page `a` of the pool at `c` has changed. -/
def WritesPage (c a : Word) (P P' : Mem) : Prop :=
  ∀ x, ¬ (page4KIB c).Has x → ¬ (page4KIB a).Has x → P' x = P x

lemma phys_setNext (s : Phys σ) (a v : Word) :
    phys ((freeStack c).setNext (physToVirt a) v s).mem = store64 (phys s.mem) a v := by
  unfold StackVar.setNext freeStack
  exact phys_store64 _ _ _

lemma setNext_vars (s : Phys σ) (a v : Word) :
    ((freeStack c).setNext a v s).chunks = s.chunks ∧
      ((freeStack c).setNext a v s).pool4KIB = s.pool4KIB := by
  unfold StackVar.setNext freeStack
  exact ⟨rfl, rfl⟩

/-- On an empty stack the old top is NULL, so that the two cases of `stack_push` agree. -/
lemma stackPush_pool (h : PoolAt (phys s.mem) p flag) (hs : p.Sound) (node : Word)
    (hsame : ((freeStack (physToVirt p.base)).setNext node
      (s.field (physToVirt p.base) .top) s).field
      (physToVirt p.base) .size = s.field (physToVirt p.base) .size) :
    stackPush (freeStack (physToVirt p.base)) node s
      = (((freeStack (physToVirt p.base)).setNext node
        (s.field (physToVirt p.base) .top) s).setField
          (physToVirt p.base) .size (s.field (physToVirt p.base) .size + 1)).setField
        (physToVirt p.base) .top node := by
  unfold stackPush
  split
  · rename_i he
    have hfree := (stackEmpty_iff h hs).mp he
    have hstack := h.stack
    rw [hfree, linked_nil] at hstack
    have hsize : s.field (physToVirt p.base) .size = 0 := by
      rw [field_header rfl, h.size, hfree]
      rfl
    have htop : s.field (physToVirt p.base) .top = 0 := by
      rw [field_header rfl, hstack]
    rw [hsize, htop]
    rfl
  · show Phys.setField _ _ _ (Phys.setField _ _ (Phys.field _ _ _ + 1) _) = _
    rw [← hsame]
    rfl

/-- `pool_free` gives a page of the view back. -/
theorem poolFree_ok (h : PoolAt (phys s.mem) p flag) (hs : p.Sound) (ha : a ∈ p.used) :
    ∃ s' hdr, poolFree (physToVirt p.base) (physToVirt a) s = .ok ((), s') ∧
      header (phys s'.mem) p.base = hdr ∧ WritesPage p.base a (phys s.mem) (phys s'.mem) ∧
      s'.chunks = s.chunks ∧ s'.pool4KIB = s.pool4KIB ∧
      hdr.field .next = (header (phys s.mem) p.base).field .next ∧
      hdr.field .prev = (header (phys s.mem) p.base).field .prev ∧
      PoolAt (phys s'.mem) (p.give a) flag := by
  have hmem : a ∈ p.free ++ p.used := List.mem_append_right _ ha
  have halt := hs.mem_lt hmem
  have hbelow := hs.below
  obtain ⟨hdvd, hlo, hhi⟩ := hs.toNat_mem hmem
  have hend := toNat_chunkEnd hs
  -- the checks of `pool_free`
  have hcheck : ¬ ((physToVirt a).toNat ≤ (physToVirt p.base).toNat ∨
      (s.field (physToVirt p.base) .maxAddress).toNat ≤ (physToVirt a).toNat) := by
    rw [field_header rfl, h.maxAddress, toNat_physToVirt halt, toNat_physToVirt hs.base_lt,
      toNat_physToVirt (by omega), hend]
    omega
  -- the link goes into the page, away from the record
  set top := s.field (physToVirt p.base) .top
  have htop' : top = (header (phys s.mem) p.base).field .top := field_header rfl _
  set s1 := (freeStack (physToVirt p.base)).setNext (physToVirt a) top s with hs1
  have hP1 : phys s1.mem = store64 (phys s.mem) a top := phys_setNext s a top
  have hw1 : Within (page4KIB a) (phys s.mem) (phys s1.mem) := by
    rw [hP1]
    have hw := within_store64 (P := phys s.mem) hdvd (k := 0) (by norm_num) top
    rwa [show a + BitVec.ofNat 64 (8 * 0) = a by simp] at hw
  have hrec : header (phys s1.mem) p.base = header (phys s.mem) p.base :=
    header_congr hs.page_aligned (hw1.agree (hs.record_disjoint hmem).symm)
  have hsame : s1.field (physToVirt p.base) .size = s.field (physToVirt p.base) .size := by
    rw [field_header rfl, field_header rfl, hrec]
  have hset := ((Sets.refl p.base s1).setField hs.page_aligned .size
    (s.field (physToVirt p.base) .size + 1)).setField hs.page_aligned .top (physToVirt a)
  set hdr := ((header (phys s1.mem) p.base).set .size
    (s.field (physToVirt p.base) .size + 1)).set .top (physToVirt a) with hhdr
  have hkeep : ∀ f, f ≠ .top → f ≠ .size →
      hdr.field f = (header (phys s.mem) p.base).field f := by
    intro f h1 h2
    rw [hhdr, Header.set_field_ne _ _ h1, Header.set_field_ne _ _ h2, hrec]
  have hflag : hdr.onList = flag := by
    rw [hhdr, Header.set_onList, Header.set_onList, hrec, h.onList]
  -- the other free pages keep their links
  have hothers : ∀ b ∈ p.free, ∀ x, (page4KIB b).Has x →
      phys ((s1.setField (physToVirt p.base) .size
        (s.field (physToVirt p.base) .size + 1)).setField (physToVirt p.base) .top
        (physToVirt a)).mem x = phys s.mem x := by
    intro b hb x hx
    have hb' : b ∈ p.free ++ p.used := List.mem_append_left _ hb
    have hne : a ≠ b := by
      rintro rfl
      exact (List.nodup_append.mp hs.nodup).2.2 a hb a ha rfl
    exact (hset.within.agree (hs.record_disjoint hb') x hx).trans
      (hw1.agree (hs.disjoint hmem hb' hne) x hx)
  refine ⟨_, hdr, ?_, hset.header, fun x hx hxa => (hset.within x hx).trans (hw1 x hxa),
    hset.chunks.trans (setNext_vars _ _ _).1, hset.pool4KIB.trans (setNext_vars _ _ _).2,
    hkeep _ (by decide) (by decide), hkeep _ (by decide) (by decide), ?_⟩
  · rw [poolFree, if_neg hcheck, mask4KIB_physToVirt hdvd halt, stackPush_pool h hs _ hsame]
  rw [← hflag]
  refine poolAt_of_sets hset rfl ?_ ?_ ?_ ?_
  · rw [hhdr, Header.set_field_ne _ _ (by decide), Header.set_field_self, field_header rfl, h.size,
      PoolView.give, List.length_cons, BitVec.ofNat_add]
    rfl
  · rw [hhdr, Header.set_field_self, PoolView.give, linked_cons]
    refine ⟨rfl, ?_⟩
    have hnext : load64 (phys s1.mem) a = top := by
      rw [hP1, load64_store64_self]
    rw [load64_page hdvd (hset.within.agree (hs.record_disjoint hmem)), hnext, htop']
    exact h.nodes hs hothers
  · rw [hkeep _ (by decide) (by decide), h.implicitNext]
    rfl
  · rw [hkeep _ (by decide) (by decide), h.maxAddress]
    rfl

/-! ## A new pool -/

/-- The chunk `c` with nothing handed out. -/
def newPool (c : Word) : PoolView := ⟨c, [], [], 0⟩

/-- A chunk that ends below `2 ^ 47` makes a pool. -/
lemma newPool_sound (hc : 2 ^ 21 ∣ c.toNat) (hlt : c.toNat + 2 ^ 21 < 2 ^ 47) :
    (newPool c).Sound :=
  ⟨hc, hlt, Nat.zero_le _, .refl _⟩

/-- It has pages. -/
lemma newPool_not_empty (c : Word) : ¬ (newPool c).isEmpty := fun h =>
  absurd h.2 (show (0 : ℕ) ≠ 511 by decide)

/-- The record holds it. -/
lemma newPool_poolAt {hdr : Header} (hset : Sets c hdr s s')
    (hhdr : hdr.field = (newHeader c).field) : PoolAt (phys s'.mem) (newPool c) hdr.onList := by
  refine poolAt_of_sets hset rfl ?_ ?_ ?_ ?_
  · rw [hhdr]
    rfl
  · rw [hhdr]
    rfl
  · rw [hhdr]
    show physToVirt c + 0x1000 = physToVirt ((newPool c).page 0)
    rw [physToVirt_add]
    rfl
  · rw [hhdr]
    show physToVirt c + 0x200000 = physToVirt (c + 0x200000)
    rw [physToVirt_add]

end Bikeshed.PhysAlloc
