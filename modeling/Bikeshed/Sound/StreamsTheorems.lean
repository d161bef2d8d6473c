import Bikeshed.Kernel.WatermarkTheorems
import Bikeshed.Sound.Streams
import Bikeshed.VirtMemory.MapContract

/-!
# Where the stream buffers are recorded

Each round maps its pages first and records the addresses behind them. What the last round records
as its data buffer is therefore mapped in no round, and neither for `kernel_WaterMark`: an
address that is not translated before stays so (`Free`).
-/

namespace Bikeshed.Sound

open Lib DataStructures

variable {α : Type} {A : PhysAllocator α} {H : PhysHeap A} {top : ℕ → Bool} {r v x : Word}
  {E : String → Prop} {w : Machine α} {flags pageSize : Word}

/-- `x` is not translated. -/
structure Free (H : PhysHeap A) (top : ℕ → Bool) (r x : Word) (w : Machine α) : Prop where
  rooted : Rooted H top r w.heap w.mem
  walk_none : walk (phys w.mem) 3 r x = none

/-- Mapping another page leaves `x` free. -/
lemma wp_virtMapPage_free (h : Free H top r x w) (hv : top (index 3 v) = true)
    (hx : top (index 3 x) = true) (hne : ¬SameDown (pageLevel pageSize) 3 v x)
    (hE : MapPageSafe H E r v pageSize w.heap w.mem) :
    wp (virtMapPage A r v flags pageSize) (fun _ w' => Free H top r x w' ∧
      ((∀ e, E e) ∨ H.room w.heap ≤ H.room w'.heap + 4)) E w := by
  refine wp_mono (wp_virtMapPage h.rooted hv flags pageSize hE) fun res w' hres => ?_
  rcases hres with ⟨-, hpanic, hvalid, hown, hagree⟩ | ⟨-, -, a1, m1, hv1, hroom, hh, hm⟩
  · have hsame := h.rooted.same hagree
    refine ⟨⟨h.rooted.of_same hvalid hsame fun t ht => ?_, ?_⟩, .inl hpanic⟩
    · exact hown.mem_iff.mpr (h.rooted.owned t ht)
    · rw [walk_congr (by norm_num) hx hsame, h.walk_none]
  · obtain ⟨m2, new, u, e', hentered⟩ := hm
    refine ⟨⟨hentered.after, ?_⟩, .inr ?_⟩
    · rw [hentered.walk_other hv hx hne, walk_congr (by norm_num) hx (h.rooted.same hh.agree),
        h.walk_none]
    · have hgrown := hentered.grown.room
      have hnew := hentered.length
      omega

/-! ## The pages of `kernel_WaterMark` -/

section
variable {σ : Type} {mapPage : Word → Prog σ String Byte} {J : σ → Prop} {low : ℕ}
  {s : WaterMark σ} {rs : List Block} {size : Word}

/-- The loop keeps what mapping the pages from `low` on keeps. -/
lemma wp_mapPages_world (hJ : ∀ l world, low ≤ l.toNat → J world →
      wp (mapPage l) (fun _ world' => J world') (fun _ => True) world) (n : ℕ)
    (hcurrent : low ≤ s.wma.currentAddress.toNat)
    (hpage : ∃ j k, s.wma.pageAddress.toNat + 2 ^ 21 * j = low + 2 ^ 21 * k) (hs : J s.world) :
    wp (mapPages mapPage n) (fun _ s' => J s'.world) (fun _ => True) s := by
  induction n generalizing s with
  | zero => trivial
  | succ n ih =>
    rw [mapPages, wp_bind, wp_get, wp_ite]
    refine ⟨fun hlt => ?_, fun _ => hs⟩
    have hlt' : s.wma.currentAddress.toNat < s.wma.pageAddress.toNat := hlt
    obtain ⟨j, k, hjk⟩ := hpage
    have hnext : (s.wma.pageAddress - pageLargeSize).toNat = s.wma.pageAddress.toNat - 2 ^ 21 :=
      toNat_sub_pageLargeSize (by omega)
    have hworld := hJ (s.wma.pageAddress - pageLargeSize) s.world (by omega) hs
    rw [wp_bind, wp, callMapPage]
    rw [wp] at hworld
    split at hworld
    next ret world' hcall =>
      rw [hcall]
      dsimp only
      rw [wp_ite]
      refine ⟨fun _ => trivial, fun _ => ?_⟩
      rw [wp_bind, wp_modify]
      refine ih (s := { s with
        wma := { s.wma with pageAddress := s.wma.pageAddress - pageLargeSize }
        mapped := if ret = 0 then s.mapped else (s.wma.pageAddress - pageLargeSize) :: s.mapped
        world := world' }) hcurrent ⟨j + 1, k, ?_⟩ hworld
      dsimp only
      omega
    next hcall =>
      rw [hcall]
      trivial

/-- So does an allocation: it maps pages within the size of the allocator alone. -/
lemma wp_allocAlign_world {wma : WaterMarkAllocator} {alignment : Word} (h : Inv wma rs s)
    (hw : Fits wma)
    (hJ : ∀ l world, wma.currentAddress.toNat - wma.maxSize.toNat ≤ l.toNat → J world →
      wp (mapPage l) (fun _ world' => J world') (fun _ => True) world)
    (halign : alignment.toNat < 2 ^ 62) (hsize : size.toNat < 2 ^ 62) (hs : J s.world) :
    wp (waterMarkAllocAlign mapPage alignment size) (fun _ s' => J s'.world) (fun _ => True) s := by
  rw [waterMarkAllocAlign, wp_ite]
  refine ⟨fun _ => trivial, fun hpow => ?_⟩
  rw [wp_bind, wp_get]
  set pad := alignUp s.wma.currentAddress alignment - s.wma.currentAddress with hpad
  rw [wp_ite]
  refine ⟨fun _ => trivial, fun hroom => ?_⟩
  obtain ⟨-, hroom', hnew⟩ := h.counters hw halign hsize (Bool.of_not_eq_false hpow) hpad hroom
  have hcur := h.current
  have htop := hw.le
  obtain ⟨k, hk⟩ := hw.dvd
  have hsum := h.pages.pageAddress
  rw [wp_bind, wp_modify, wp_bind]
  refine wp_mono (wp_mapPages_world hJ (2 ^ 43) ?_ ⟨s.mapped.length, k, ?_⟩ hs) ?_
  · show _ ≤ (s.wma.currentAddress - (pad + size)).toNat
    omega
  · show s.wma.pageAddress.toNat + _ = _
    omega
  · intro _ s' hs'
    exact hs'

end

/-! ## One round -/

variable {s : WaterMark (Machine α)} {rs : List Block} {size : Word}

lemma wp_kernelMapPage {Q : Byte × Word → WaterMark (Machine α) → Prop} {F : Stop → Prop}
    (h : wp (virtMapPage A r v flags pageSize) (fun res world => Q res { s with world := world })
      (fun e => F (.panic e)) s.world) :
    wp (kernelMapPage A r v flags pageSize) Q F s := by
  rw [wp, kernelMapPage]
  rw [wp] at h
  split at h
  next hcall => rw [hcall]; exact h
  next hcall => rw [hcall]; exact h

/-- The state of the allocator and an address that is not translated. -/
structure Kept (H : PhysHeap A) (top : ℕ → Bool) (r x : Word) (s : WaterMark (Machine α)) :
    Prop where
  mark : ∃ rs, Inv allocInit rs s
  free : Free H top r x s.world

/-- `x` is in the last 512GiB of the addresses, below the region of `kernel_WaterMark`. -/
structure Outside (top : ℕ → Bool) (x : Word) : Prop where
  top_last : top 511 = true
  above : 0xFFFFFF8000000000 ≤ x.toNat
  below : x.toNat < 0xFFFFFFFFFFA00000

lemma index_last {l : Word} (h : 0xFFFFFF8000000000 ≤ l.toNat) : index 3 l = 511 := by
  have hlt := l.isLt
  rw [index]
  omega

lemma Outside.top_index (hx : Outside top x) : top (index 3 x) = true :=
  index_last hx.above ▸ hx.top_last

/-- Addresses of the last 512GiB in different 2MiB differ in their indices. -/
lemma not_sameDown {l : Word} {k : ℕ} (hk : k ≤ 1) (hl : 0xFFFFFF8000000000 ≤ l.toNat)
    (hx : 0xFFFFFF8000000000 ≤ x.toNat) (hne : l.toNat / 2 ^ 21 ≠ x.toNat / 2 ^ 21) :
    ¬SameDown k 3 l x := by
  intro hsame
  have h1 := hsame 1 hk (by norm_num)
  have h2 := hsame 2 (by omega) (by norm_num)
  have hltl := l.isLt
  have hltx := x.isLt
  rw [index, index] at h1 h2
  norm_num at h1 h2 hne
  omega

lemma Kept.wp_hdaAlloc (h : Kept H top r x s) (hx : Outside top x) (hsize : size.toNat < 2 ^ 62) :
    wp (hdaAlloc A r size) (fun _ s' => Kept H top r x s') (fun _ => True) s := by
  obtain ⟨⟨rs, hmark⟩, hfree⟩ := h
  have hbelow := hx.below
  have hJ : ∀ l (world : Machine α),
      allocInit.currentAddress.toNat - allocInit.maxSize.toNat ≤ l.toNat → Free H top r x world →
      wp (waterMarkMapPage A r l) (fun _ world' => Free H top r x world') (fun _ => True)
        world := by
    intro l world hl hworld
    have hlow : 0xFFFFFFFFFFA00000 ≤ l.toNat := hl
    have hindex : index 3 l = 511 := index_last (by omega)
    rw [waterMarkMapPage, wp_bind]
    refine wp_mono (wp_virtMapPage_free hworld (hindex ▸ hx.top_last) hx.top_index
      (not_sameDown le_rfl (by omega) hx.above (by omega)) (.inl fun _ => trivial)) ?_
    intro res world' hres
    exact hres.1
  have hone : (1 : Word).toNat < 2 ^ 62 := by decide
  rw [hdaAlloc, wp_bind]
  refine wp_mono (wp_weaken (wp_and (hmark.wp_allocAlign fits_allocInit hone hsize)
    (wp_allocAlign_world hmark fits_allocInit hJ hone hsize hfree)) fun _ _ => trivial) ?_
  rintro ptr s' ⟨hmark', hfree'⟩
  rw [wp_ite]
  exact ⟨fun _ => trivial, fun _ => ⟨⟨_, hmark'⟩, hfree'⟩⟩

/-- A page of the driver in other 2MiB than `x` -/
lemma Kept.wp_kernelMapPage (h : Kept H top r x s) (hx : Outside top x)
    (hv : 0xFFFFFF8000000000 ≤ v.toNat) (hne : v.toNat / 2 ^ 21 ≠ x.toNat / 2 ^ 21) :
    wp (kernelMapPage A r v flags pageSize) (fun _ s' => Kept H top r x s') (fun _ => True) s := by
  obtain ⟨⟨rs, hmark⟩, hfree⟩ := h
  have hlevel : pageLevel pageSize ≤ 1 := by
    rw [pageLevel]
    split <;> omega
  refine Sound.wp_kernelMapPage (wp_mono (wp_virtMapPage_free hfree
    (index_last hv ▸ hx.top_last) hx.top_index (not_sameDown hlevel hv hx.above hne)
    (.inl fun _ => trivial)) ?_)
  intro res world' hres
  exact ⟨⟨rs, hmark.of_world world'⟩, hres.1⟩

variable {i n left : ℕ} {d b : Word} {streams : List Stream} {gcap : BitVec 16}

lemma toNat_add_pageLargeSize (hd : d.toNat + 2 ^ 21 < 2 ^ 64) :
    (d + pageLargeSize).toNat = d.toNat + 2 ^ 21 := by
  have hsize : pageLargeSize.toNat = 2 ^ 21 := rfl
  rw [BitVec.toNat_add, hsize, Nat.mod_eq_of_lt hd]

lemma toNat_add_pageSmallSize (hb : b.toNat + 2 ^ 12 < 2 ^ 64) :
    (b + pageSmallSize).toNat = b.toNat + 2 ^ 12 := by
  have hsize : pageSmallSize.toNat = 2 ^ 12 := rfl
  rw [BitVec.toNat_add, hsize, Nat.mod_eq_of_lt hb]

/-- A round records the address behind its data page. -/
lemma Kept.wp_setupStream (h : Kept H top r x s) (hx : Outside top x)
    (hd : 0xFFFFFF8000000000 ≤ d.toNat) (hdx : d.toNat / 2 ^ 21 ≠ x.toNat / 2 ^ 21)
    (hb : 0xFFFFFF8000000000 ≤ b.toNat) (hbx : b.toNat / 2 ^ 21 ≠ x.toNat / 2 ^ 21) :
    wp (setupStream A r i d b) (fun stream s' => Kept H top r x s' ∧
      stream.bdlInfo.dataAddress = d + pageLargeSize ∧
      stream.bdlInfo.dataLength = pageLargeSize) (fun _ => True) s := by
  have hstream : streamSize.toNat < 2 ^ 62 := by decide
  have helement : listElementSize.toNat < 2 ^ 62 := by decide
  rw [setupStream, wp_bind]
  refine wp_mono (h.wp_kernelMapPage hx hd hdx) ?_
  rintro ⟨res1, dataPhysLoc⟩ s1 h1
  rw [wp_bind]
  refine wp_mono (h1.wp_hdaAlloc hx hstream) ?_
  intro _ s2 h2
  rw [wp_bind]
  refine wp_mono (h2.wp_kernelMapPage hx hb hbx) ?_
  rintro ⟨res3, bdlPhysLoc⟩ s3 h3
  rw [wp_bind]
  refine wp_mono (h3.wp_hdaAlloc hx helement) ?_
  intro _ s4 h4
  exact ⟨h4, rfl, rfl⟩

/-- Where the rounds that are left map their pages, as numbers -/
lemma windows_apart {d b x : ℕ} (hd : 0xFFFFFFFFF0200000 ≤ d)
    (hdx : d + 2 ^ 21 * (left + 1) = x) (hbd : b + 2 ^ 12 * (left + 1) ≤ 0xFFFFFFFFF0200000) :
    d / 2 ^ 21 ≠ x / 2 ^ 21 ∧ b / 2 ^ 21 ≠ x / 2 ^ 21 ∧ d + 2 ^ 21 ≤ x ∧
      b + 2 ^ 12 ≤ 0xFFFFFFFFF0200000 := by
  have hround : ∀ y k : ℕ, y + k ≤ y + k * (left + 1) := fun y k =>
    Nat.add_le_add_left (Nat.le_mul_of_pos_right k (Nat.succ_pos left)) y
  have hdle : d + 2 ^ 21 ≤ x := hdx ▸ hround d _
  have hble : b + 2 ^ 12 ≤ 0xFFFFFFFFF0200000 := le_trans (hround b _) hbd
  clear hdx hbd hround
  refine ⟨?_, ?_, hdle, hble⟩
  · omega
  · omega

/-- The last round records `x`, which no round maps. -/
lemma Kept.wp_setupStreams (hx : Outside top x) (h : Kept H top r x s)
    (hd : 0xFFFFFFFFF0200000 ≤ d.toNat) (hdx : d.toNat + 2 ^ 21 * left = x.toNat)
    (hb : 0xFFFFFF8000000000 ≤ b.toNat) (hbd : b.toNat + 2 ^ 12 * left ≤ 0xFFFFFFFFF0200000) :
    wp (setupStreams A r left i d b streams) (fun streams' s' => Kept H top r x s' ∧
      streams ⊆ streams' ∧ (0 < left → ∃ stream ∈ streams',
        stream.bdlInfo.dataAddress = x ∧ stream.bdlInfo.dataLength = pageLargeSize))
      (fun _ => True) s := by
  induction left generalizing s i d b streams with
  | zero => exact ⟨h, List.Subset.refl _, fun hpos => absurd hpos (lt_irrefl 0)⟩
  | succ left ih =>
    obtain ⟨hdne, hbne, hdle, hble⟩ := windows_apart hd hdx hbd
    have habove : 0xFFFFFF8000000000 ≤ d.toNat := le_trans (by norm_num) hd
    rw [setupStreams, wp_bind]
    refine wp_mono (h.wp_setupStream hx habove hdne hb hbne) ?_
    rintro stream s1 ⟨h1, haddress, hlength⟩
    have hdnext : (d + pageLargeSize).toNat = d.toNat + 2 ^ 21 :=
      toNat_add_pageLargeSize (lt_of_le_of_lt hdle x.isLt)
    have hbnext : (b + pageSmallSize).toNat = b.toNat + 2 ^ 12 :=
      toNat_add_pageSmallSize (lt_of_le_of_lt hble (by norm_num))
    generalize d + pageLargeSize = d' at hdnext haddress ⊢
    generalize b + pageSmallSize = b' at hbnext ⊢
    have hdx' : d'.toNat + 2 ^ 21 * left = x.toNat := by
      rw [hdnext, ← hdx]
      ring
    have hbd' : b'.toNat + 2 ^ 12 * left ≤ 0xFFFFFFFFF0200000 := by
      refine le_trans (le_of_eq ?_) hbd
      rw [hbnext]
      ring
    refine wp_mono (ih h1 (le_trans hd (hdnext ▸ Nat.le_add_right _ _)) hdx'
      (le_trans hb (hbnext ▸ Nat.le_add_right _ _)) hbd') ?_
    rintro streams' s' ⟨h', hsub, hrecorded⟩
    refine ⟨h', fun st hst => hsub (List.mem_cons_of_mem _ hst), fun _ => ?_⟩
    rcases Nat.eq_zero_or_pos left with rfl | hpos
    · -- this was the last round
      refine ⟨stream, hsub List.mem_cons_self, ?_, hlength⟩
      rw [haddress]
      apply word_ext
      rw [← hdx', Nat.mul_zero, Nat.add_zero]
    · exact hrecorded hpos

/-! ## All rounds -/

/-- The page behind the data pages of the streams -/
def behindData (gcap : BitVec 16) : Word :=
  hdaStreamDataBase + BitVec.ofNat 64 (2 ^ 21 * numOutputStreams gcap)

lemma numOutputStreams_le (gcap : BitVec 16) : numOutputStreams gcap ≤ 15 := by
  rw [numOutputStreams, BitVec.toNat_and]
  exact Nat.and_le_right

lemma toNat_behindData (gcap : BitVec 16) :
    (behindData gcap).toNat = 0xFFFFFFFFF0200000 + 2 ^ 21 * numOutputStreams gcap := by
  have hle := numOutputStreams_le gcap
  have hbase : hdaStreamDataBase.toNat = 0xFFFFFFFFF0200000 := rfl
  rw [behindData, BitVec.toNat_add, BitVec.toNat_ofNat, hbase]
  omega

/-- A record of bytes that are not translated -/
lemma not_wellBuffered {P : Mem} {stream : Stream} (hstream : stream ∈ streams)
    (hlength : stream.bdlInfo.dataLength = pageLargeSize)
    (hnone : walk P 3 r stream.bdlInfo.dataAddress = none) : ¬WellBuffered P r streams := by
  intro hwell
  have h0 := hwell.data stream hstream 0 (by rw [hlength]; decide)
  rw [BitVec.add_zero, translation_eq_none.mpr hnone] at h0
  cases h0

lemma wp_hdaSetupStreams (hmark : Inv allocInit rs s)
    (hrooted : Rooted H top r s.world.heap s.world.mem) (htop : top 511 = true)
    (hnone : translation (phys s.world.mem) r (behindData gcap) = none) :
    wp (hdaSetupStreams A r gcap)
      (fun streams s' => ¬WellBuffered (phys s'.world.mem) r streams) (fun _ => True) s := by
  have hle := numOutputStreams_le gcap
  have hbehind := toNat_behindData gcap
  have hx : Outside top (behindData gcap) := ⟨htop, by omega, by omega⟩
  have hkept : Kept H top r (behindData gcap) s :=
    ⟨⟨rs, hmark⟩, hrooted, translation_eq_none.mp hnone⟩
  have hdata : hdaStreamDataBase.toNat = 0xFFFFFFFFF0200000 := rfl
  have hbase : hdaStreamBase.toNat = 0xFFFFFFFFF000C000 := rfl
  rw [hdaSetupStreams, wp_ite]
  refine ⟨fun _ => trivial, fun hpos => ?_⟩
  refine wp_mono (hkept.wp_setupStreams hx (by omega) (by omega) (by omega) (by omega)) ?_
  rintro streams s' ⟨h', -, hrecorded⟩
  obtain ⟨stream, hstream, haddress, hlength⟩ := hrecorded (by omega)
  refine not_wellBuffered hstream hlength ?_
  rw [haddress]
  exact h'.free.walk_none

/-- The last record's data buffer is behind the pages mapped, whatever the allocator returns. -/
theorem hdaSetupStreams_not_wellBuffered {s' : WaterMark (Machine α)} (hmark : Inv allocInit rs s)
    (hrooted : Rooted H top r s.world.heap s.world.mem) (htop : top 511 = true)
    (hnone : translation (phys s.world.mem) r (behindData gcap) = none)
    (hrun : hdaSetupStreams A r gcap s = .ok (streams, s')) :
    ¬WellBuffered (phys s'.world.mem) r streams :=
  (wp_hdaSetupStreams hmark hrooted htop hnone).ok hrun

/-! ## One stream -/

/-- After `alloc_init`, with nothing mapped yet -/
def streamStart : WaterMark (Machine Bump) := ⟨allocInit, [], Bump.start⟩

/-- The first page of `kernel_WaterMark` -/
def waterMarkPage : Word := 0xFFFFFFFFFFC00000

lemma rooted_start :
    Rooted (Bump.heap Bump.keep) wholeTable 0x1000 Bump.start.heap Bump.start.mem :=
  Bump.built_start.rooted Bump.freesKeep

lemma walk_start (v : Word) : walk (phys Bump.start.mem) 3 0x1000 v = none :=
  walk_of_absent (by rw [entry]; exact (Bump.load64_zero _).symm ▸ decode_zero 3)

section
variable {σ : Type} {mapPage : Word → Prog σ String Byte} {s : WaterMark σ} {F : Stop → Prop}

/-- The loop maps a single page. -/
lemma wp_mapPages_once {Q : Unit → WaterMark σ → Prop} {n : ℕ} (hn : 1 < n)
    (hpage : s.wma.currentAddress < s.wma.pageAddress)
    (hlast : ¬s.wma.currentAddress < s.wma.pageAddress - pageLargeSize)
    (hmap : wp (mapPage (s.wma.pageAddress - pageLargeSize)) (fun ret world => ret ≠ 0 ∧ Q ()
      { wma := { s.wma with pageAddress := s.wma.pageAddress - pageLargeSize }
        mapped := (s.wma.pageAddress - pageLargeSize) :: s.mapped
        world := world }) (fun e => F (.panic e)) s.world) :
    wp (mapPages mapPage n) Q F s := by
  obtain ⟨k, rfl⟩ := Nat.exists_eq_add_of_lt hn
  rw [show 1 + k + 1 = (k + 1) + 1 by omega, mapPages, wp_bind, wp_get, if_pos hpage, wp_bind, wp,
    callMapPage]
  rw [wp] at hmap
  split at hmap
  next ret world hcall =>
    obtain ⟨hret, hQ⟩ := hmap
    rw [hcall]
    dsimp only
    rw [if_neg hret, if_neg hret, wp_bind, wp_modify]
    exact wp_mapPages_done (Nat.succ_pos k) hlast hQ
  next hcall =>
    rw [hcall]
    exact hmap

end

section
variable {F : Stop → Prop} {Q : Word → WaterMark (Machine α) → Prop}

/-- An allocation up to its loop -/
lemma wp_hdaAlloc_loop (hroom : ¬s.wma.maxSize < s.wma.currentSize + size)
    (hloop : wp (mapPages (waterMarkMapPage A r) (2 ^ 43))
      (fun _ s' => s'.wma.currentAddress ≠ 0 ∧ Q s'.wma.currentAddress s') F
      { s with wma := { s.wma with
        currentAddress := s.wma.currentAddress - size
        currentSize := s.wma.currentSize + size } }) :
    wp (hdaAlloc A r size) Q F s := by
  have hadjusted : alignUp s.wma.currentAddress 1 - s.wma.currentAddress + size = size := by
    rw [alignUp_one, BitVec.sub_self, BitVec.zero_add]
  rw [hdaAlloc, wp_bind, waterMarkAlloc, waterMarkAllocAlign, wp_ite]
  refine ⟨fun hpow => absurd hpow (by decide), fun _ => ?_⟩
  rw [wp_bind, wp_get]
  dsimp only
  rw [hadjusted, wp_ite]
  refine ⟨fun hover => absurd hover hroom, fun _ => ?_⟩
  rw [wp_bind, wp_modify, wp_bind]
  refine wp_mono hloop ?_
  rintro - s' ⟨hnull, hQ⟩
  rw [wp_bind, wp_get, wp_pure, wp_ite]
  exact ⟨fun hzero => absurd hzero hnull, fun _ => hQ⟩

/-- An allocation that reaches the next page -/
lemma wp_hdaAlloc_next (hroom : ¬s.wma.maxSize < s.wma.currentSize + size)
    (hpage : s.wma.currentAddress - size < s.wma.pageAddress)
    (hlast : ¬s.wma.currentAddress - size < s.wma.pageAddress - pageLargeSize)
    (hnull : s.wma.currentAddress - size ≠ 0)
    (hmap : wp (virtMapPage A r (s.wma.pageAddress - pageLargeSize) pgFlagRw pageLarge)
      (fun res world => res.1 ≠ 0 ∧ Q (s.wma.currentAddress - size)
        { wma := { s.wma with
            currentAddress := s.wma.currentAddress - size
            currentSize := s.wma.currentSize + size
            pageAddress := s.wma.pageAddress - pageLargeSize }
          mapped := (s.wma.pageAddress - pageLargeSize) :: s.mapped
          world := world }) (fun e => F (.panic e)) s.world) :
    wp (hdaAlloc A r size) Q F s := by
  refine wp_hdaAlloc_loop hroom (wp_mapPages_once (by norm_num) hpage hlast ?_)
  rw [waterMarkMapPage, wp_bind]
  refine wp_mono hmap ?_
  rintro res world ⟨hret, hQ⟩
  exact ⟨hret, hnull, hQ⟩

/-- An allocation within the pages that are mapped -/
lemma wp_hdaAlloc_mapped (hroom : ¬s.wma.maxSize < s.wma.currentSize + size)
    (hpage : ¬s.wma.currentAddress - size < s.wma.pageAddress)
    (hnull : s.wma.currentAddress - size ≠ 0)
    (hQ : Q (s.wma.currentAddress - size) { s with wma := { s.wma with
        currentAddress := s.wma.currentAddress - size
        currentSize := s.wma.currentSize + size } }) :
    wp (hdaAlloc A r size) Q F s :=
  wp_hdaAlloc_loop hroom (wp_mapPages_done (by norm_num) hpage ⟨hnull, hQ⟩)

end

/-- Addresses in different 2MiB regions -/
lemma not_sameDown_large {x y : Word} (h : index 1 x ≠ index 1 y) :
    ¬SameDown (pageLevel pageLarge) 3 x y := fun hsame =>
  h (hsame 1 le_rfl (by norm_num)).symm

/-- Mapping a page with enough memory -/
lemma wp_virtMapPage_room {w : Machine Bump} (h : Free (Bump.heap Bump.keep) wholeTable 0x1000 x w)
    (hv : walk (phys w.mem) 3 0x1000 v = none) (hne : index 1 v ≠ index 1 x) {n : ℕ} (hn : 4 ≤ n)
    (hroom : n ≤ (Bump.heap Bump.keep).room w.heap) :
    wp (virtMapPage (Bump.allocator Bump.keep) 0x1000 v flags pageLarge) (fun res w' =>
      res.1 ≠ 0 ∧ Free (Bump.heap Bump.keep) wholeTable 0x1000 x w' ∧
        n - 4 ≤ (Bump.heap Bump.keep).room w'.heap) (fun _ => False) w := by
  have hsafe : MapPageSafe (Bump.heap Bump.keep) (fun _ => False) 0x1000 v pageLarge w.heap w.mem :=
    .inr ⟨hn.trans hroom, hv, .inl rfl⟩
  have hboth := wp_and (wp_virtMapPage h.rooted rfl flags pageLarge hsafe)
    (wp_virtMapPage_free h rfl rfl (not_sameDown_large hne) hsafe)
  refine wp_weaken (wp_mono hboth ?_) fun _ he => he.1
  rintro res w' ⟨hmapped, hfree, hleft⟩
  refine ⟨?_, hfree, ?_⟩
  · rcases hmapped with hno | hmapped
    · exact absurd (hno.2.1 "") id
    · rw [hmapped.1]
      decide
  · rcases hleft with hno | hle
    · exact absurd (hno "") id
    · omega

/-- With one output stream nothing panics. -/
lemma oneStream_runs : ∃ streams s',
    hdaSetupStreams (Bump.allocator Bump.keep) 0x1000 0x1000 streamStart = .ok (streams, s') := by
  have hwp : wp (hdaSetupStreams (Bump.allocator Bump.keep) 0x1000 0x1000) (fun _ _ => True)
      (fun _ => False) streamStart := by
    have hfree : ∀ x, Free (Bump.heap Bump.keep) wholeTable 0x1000 x streamStart.world := fun x =>
      ⟨rooted_start, walk_start x⟩
    have hroom : 12 ≤ (Bump.heap Bump.keep).room streamStart.world.heap := by decide
    rw [hdaSetupStreams, wp_ite]
    refine ⟨fun hno => hno (by decide), fun _ => ?_⟩
    show wp (setupStreams _ _ 1 _ _ _ _) _ _ _
    rw [setupStreams, wp_bind, setupStream, wp_bind]
    -- the data page
    refine wp_kernelMapPage (wp_mono (wp_weaken (wp_and
      (wp_virtMapPage_room (v := hdaStreamDataBase) (n := 12) (hfree hdaStreamBase) (walk_start _)
        (by decide) (by norm_num) hroom)
      (wp_virtMapPage_room (v := hdaStreamDataBase) (n := 12) (hfree waterMarkPage) (walk_start _)
        (by decide) (by norm_num) hroom))
      fun _ he => he.1) ?_)
    rintro ⟨res1, dataPhysLoc⟩ w1 ⟨⟨-, hbdl1, hroom1⟩, -, hmark1, -⟩
    rw [wp_bind]
    -- the record, for which `kernel_WaterMark` gets its first page
    refine wp_hdaAlloc_next (show ¬(0x400000 : Word) < 0 + streamSize by decide)
      (show (0xFFFFFFFFFFE00000 : Word) - streamSize < 0xFFFFFFFFFFE00000 by decide)
      (show ¬(0xFFFFFFFFFFE00000 : Word) - streamSize
        < 0xFFFFFFFFFFE00000 - pageLargeSize by decide)
      (show (0xFFFFFFFFFFE00000 : Word) - streamSize ≠ 0 by decide) ?_
    show wp (virtMapPage _ _ (allocInit.pageAddress - pageLargeSize) _ _) _ _ w1
    rw [show allocInit.pageAddress - pageLargeSize = waterMarkPage by decide]
    refine wp_mono (wp_virtMapPage_room (n := 12 - 4) hbdl1 hmark1.walk_none (by decide)
      (by norm_num) hroom1) ?_
    rintro ⟨res2, _⟩ w2 ⟨hret, hbdl2, hroom2⟩
    refine ⟨hret, ?_⟩
    rw [wp_bind]
    refine wp_kernelMapPage (wp_mono (wp_virtMapPage hbdl2.rooted rfl _ _
      (.inr ⟨hroom2, hbdl2.walk_none, .inr rfl⟩)) ?_)
    rintro ⟨res3, bdlPhysLoc⟩ w3 -
    rw [wp_bind]
    exact wp_hdaAlloc_mapped
      (show ¬(0x400000 : Word) < 0 + streamSize + listElementSize by decide)
      (show ¬(0xFFFFFFFFFFE00000 : Word) - streamSize - listElementSize
        < 0xFFFFFFFFFFE00000 - pageLargeSize by decide)
      (show (0xFFFFFFFFFFE00000 : Word) - streamSize - listElementSize ≠ 0 by decide) trivial
  obtain ⟨streams, s', hrun, -⟩ := hwp.returns
  exact ⟨streams, s', hrun⟩

theorem not_all_wellBuffered : ¬∀ (gcap : BitVec 16) (streams : List Stream)
    (s' : WaterMark (Machine Bump)),
    hdaSetupStreams (Bump.allocator Bump.keep) 0x1000 gcap streamStart = .ok (streams, s') →
    WellBuffered (phys s'.world.mem) 0x1000 streams := by
  intro hclaim
  obtain ⟨streams, s', hrun⟩ := oneStream_runs
  have hnone : translation (phys streamStart.world.mem) 0x1000 (behindData 0x1000) = none :=
    translation_eq_none.mpr (walk_start _)
  exact (wp_hdaSetupStreams (inv_init Bump.start) rooted_start rfl hnone).ok hrun
    (hclaim 0x1000 streams s' hrun)

theorem oneStream_not_wellBuffered : ∃ streams s',
    hdaSetupStreams (Bump.allocator Bump.keep) 0x1000 0x1000 streamStart = .ok (streams, s') ∧
    ¬WellBuffered (phys s'.world.mem) 0x1000 streams := by
  obtain ⟨streams, s', hrun⟩ := oneStream_runs
  have hnone : translation (phys streamStart.world.mem) 0x1000 (behindData 0x1000) = none :=
    translation_eq_none.mpr (walk_start _)
  exact ⟨streams, s', hrun,
    hdaSetupStreams_not_wellBuffered (inv_init Bump.start) rooted_start rfl hnone hrun⟩

end Bikeshed.Sound
