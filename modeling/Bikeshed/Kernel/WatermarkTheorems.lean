import Bikeshed.Kernel.Watermark

/-!
# What the watermark allocator hands out

`PagesDown` is what the mapped pages look like between two calls and within one, `Inv` what all
three counters do between calls.
-/

namespace Bikeshed.DataStructures

open Lib

variable {σ : Type} {mapPage : Word → Prog σ String Byte} {w : WaterMarkAllocator}
  {s s' : WaterMark σ} {rs : List Block} {alignment size p : Word} {bound : ℕ}

/-- The 2MiB page at `l` -/
def largePage (l : Word) : Block := ⟨l, 2 ^ 21⟩

/-- The large pages mapped so far reach without a gap from `page_address` up to `top`, each
mapped once. -/
structure PagesDown (top : Word) (s : WaterMark σ) : Prop where
  pageAddress : s.wma.pageAddress.toNat + 2 ^ 21 * s.mapped.length = top.toNat
  above : ∀ l ∈ s.mapped, s.wma.pageAddress.toNat ≤ l.toNat
  apart : (s.mapped.map largePage).Pairwise Block.Disjoint
  covers : ∀ x : Word, s.wma.pageAddress.toNat ≤ x.toNat → x.toNat < top.toNat →
    ∃ l ∈ s.mapped, (largePage l).Has x

lemma toNat_sub_pageLargeSize {x : Word} (h : 2 ^ 21 ≤ x.toNat) :
    (x - pageLargeSize).toNat = x.toNat - 2 ^ 21 := by
  rw [BitVec.toNat_sub_of_le (by rw [BitVec.le_def]; exact h)]
  rfl

/-- One more page below the others -/
lemma PagesDown.grow {top : Word} (h : PagesDown top s) (world : σ)
    (hle : 2 ^ 21 ≤ s.wma.pageAddress.toNat) : PagesDown top
      { s with
        wma := { s.wma with pageAddress := s.wma.pageAddress - pageLargeSize }
        mapped := (s.wma.pageAddress - pageLargeSize) :: s.mapped
        world := world } := by
  have hpage := toNat_sub_pageLargeSize hle
  have hsum := h.pageAddress
  refine ⟨?_, fun l hl => ?_, List.pairwise_cons.mpr ⟨fun b hb => ?_, h.apart⟩, fun x hx hlt => ?_⟩
  · dsimp only
    rw [hpage, List.length_cons]
    omega
  · rcases List.mem_cons.mp hl with rfl | hl
    · exact le_rfl
    · have := h.above l hl
      dsimp only
      omega
  · obtain ⟨l, hl, rfl⟩ := List.mem_map.mp hb
    have := h.above l hl
    left
    show (s.wma.pageAddress - pageLargeSize).toNat + 2 ^ 21 ≤ l.toNat
    omega
  · dsimp only at hx
    rcases Nat.lt_or_ge x.toNat s.wma.pageAddress.toNat with hnew | hold
    · refine ⟨_, List.mem_cons_self, hx, ?_⟩
      show x.toNat < (s.wma.pageAddress - pageLargeSize).toNat + 2 ^ 21
      omega
    · obtain ⟨l, hl, hhas⟩ := h.covers x hold hlt
      exact ⟨l, List.mem_cons_of_mem _ hl, hhas⟩

lemma wp_callMapPage {Q : Byte → WaterMark σ → Prop} {E : Stop → Prop} {location : Word}
    (hE : ∀ e, E (.panic e)) (hno : ∀ world, Q 0 { s with world := world })
    (hyes : ∀ ret world, ret ≠ 0 →
      Q ret { s with mapped := location :: s.mapped, world := world }) :
    wp (callMapPage mapPage location) Q E s := by
  rw [wp, callMapPage]
  cases h : mapPage location s.world with
  | error e => exact hE e
  | ok r =>
    dsimp only
    by_cases hret : r.1 = 0
    · rw [if_pos hret, hret]
      exact hno _
    · rw [if_neg hret]
      exact hyes _ _ hret

lemma wp_mapPages_done {Q : Unit → WaterMark σ → Prop} {E : Stop → Prop} {n : ℕ} (hn : 0 < n)
    (hpage : ¬s.wma.currentAddress < s.wma.pageAddress) (hQ : Q () s) :
    wp (mapPages mapPage n) Q E s := by
  obtain ⟨k, rfl⟩ := Nat.exists_eq_succ_of_ne_zero hn.ne'
  rw [mapPages, wp_bind, wp_get, wp_ite]
  exact ⟨fun hlt => absurd hlt hpage, fun _ => hQ⟩

lemma panic_ne_diverges (message : String) : Stop.panic message ≠ .diverges := by
  intro h
  cases h

/-- The loop maps pages down to `current_address`, which is not below `low`. -/
lemma wp_mapPages {top : Word} {low : ℕ} (hdvd : 2 ^ 21 ∣ top.toNat - low) (hle : low ≤ top.toNat) :
    ∀ (n : ℕ) {s : WaterMark σ}, 0 < n → low ≤ s.wma.currentAddress.toNat →
      s.wma.pageAddress.toNat + 2 ^ 21 ≤ s.wma.currentAddress.toNat + 2 ^ 21 * n →
      PagesDown top s →
      wp (mapPages mapPage n) (fun _ s' => PagesDown top s' ∧
        s'.wma.pageAddress ≤ s'.wma.currentAddress ∧
        ∃ page, s'.wma = { s.wma with pageAddress := page }) (· ≠ .diverges) s
  | 0, _, hn, _, _, _ => absurd hn (lt_irrefl 0)
  | n + 1, s, _, hlow, hfuel, h => by
    rw [mapPages, wp_bind, wp_get, wp_ite]
    constructor
    · intro hlt
      have hlt' : s.wma.currentAddress.toNat < s.wma.pageAddress.toNat := hlt
      -- the next page is still above `low`, because both are whole pages below `top`
      have hpage : 2 ^ 21 ≤ s.wma.pageAddress.toNat - low := by
        have hsum := h.pageAddress
        obtain ⟨m, hm⟩ := hdvd
        omega
      rw [wp_bind]
      refine wp_callMapPage panic_ne_diverges (fun world => ?_) fun ret world hret => ?_
      · rw [if_pos rfl]
        exact panic_ne_diverges _
      · rw [if_neg hret, wp_bind, wp_modify]
        have hgrow := h.grow world (by omega)
        have hnext : (s.wma.pageAddress - pageLargeSize).toNat
            = s.wma.pageAddress.toNat - 2 ^ 21 :=
          toNat_sub_pageLargeSize (by omega)
        refine wp_mono (wp_mapPages hdvd hle n (by omega) hlow ?_ hgrow) fun _ s' hs' => ?_
        · dsimp only
          omega
        · obtain ⟨h1, h2, page, h3⟩ := hs'
          exact ⟨h1, h2, page, h3⟩
    · intro hge
      exact ⟨h, BitVec.not_lt.mp hge, _, rfl⟩

/-! ## Between two calls -/

/-- What the sizes that `water_mark_init` is called with have to fit. -/
structure Fits (w : WaterMarkAllocator) : Prop where
  dvd : 2 ^ 21 ∣ w.maxSize.toNat
  le : w.maxSize.toNat ≤ w.currentAddress.toNat
  lt : w.maxSize.toNat < 2 ^ 63

structure Inv (w : WaterMarkAllocator) (rs : List Block) (s : WaterMark σ) : Prop where
  maxSize : s.wma.maxSize = w.maxSize
  size : s.wma.currentSize.toNat ≤ w.maxSize.toNat
  current : s.wma.currentAddress.toNat + s.wma.currentSize.toNat = w.currentAddress.toNat
  pages : PagesDown w.currentAddress s
  reached : s.wma.pageAddress.toNat ≤ s.wma.currentAddress.toNat
  disjoint : rs.Pairwise Block.Disjoint
  within : ∀ r ∈ rs, s.wma.currentAddress.toNat ≤ r.base.toNat ∧
    r.base.toNat + r.size ≤ w.currentAddress.toNat

lemma inv_init {location maxSize : Word} (world : σ) :
    Inv (waterMarkInit location maxSize) [] ⟨waterMarkInit location maxSize, [], world⟩ where
  maxSize := rfl
  size := Nat.zero_le _
  current := rfl
  pages :=
    { pageAddress := rfl
      above := fun _ hl => absurd hl List.not_mem_nil
      apart := .nil
      covers := fun _ hx hlt => absurd hlt (Nat.not_lt.mpr hx) }
  reached := le_rfl
  disjoint := .nil
  within := fun _ hr => absurd hr List.not_mem_nil

/-- The rest of the system may change. -/
lemma Inv.of_world (h : Inv w rs s) (world : σ) : Inv w rs { s with world := world } where
  maxSize := h.maxSize
  size := h.size
  current := h.current
  pages := ⟨h.pages.pageAddress, h.pages.above, h.pages.apart, h.pages.covers⟩
  reached := h.reached
  disjoint := h.disjoint
  within := h.within

/-- The padding is shorter than the alignment, so that no counter wraps. -/
lemma Inv.counters (h : Inv w rs s) (hw : Fits w) (halign : alignment.toNat < 2 ^ 62)
    (hsize : size.toNat < 2 ^ 62) (hpow : isPowerOfTwo alignment = true) {pad : Word}
    (hpad : pad = alignUp s.wma.currentAddress alignment - s.wma.currentAddress)
    (hroom : ¬s.wma.maxSize < s.wma.currentSize + (pad + size)) :
    (s.wma.currentSize + (pad + size)).toNat
        = s.wma.currentSize.toNat + (pad.toNat + size.toNat) ∧
      s.wma.currentSize.toNat + (pad.toNat + size.toNat) ≤ w.maxSize.toNat ∧
      (s.wma.currentAddress - (pad + size)).toNat
        = s.wma.currentAddress.toNat - (pad.toNat + size.toNat) := by
  obtain ⟨k, hk, hp⟩ := isPowerOfTwo_iff.mp hpow
  have hpadlt : pad.toNat < alignment.toNat := hpad ▸ hp ▸ alignUp_sub_lt hk hp
  have hmax := h.size
  have hcur := h.current
  have hfits := hw.lt
  have htop := hw.le
  have hadj : (pad + size).toNat = pad.toNat + size.toNat := by
    rw [BitVec.toNat_add, Nat.mod_eq_of_lt (by omega)]
  have hsum : (s.wma.currentSize + (pad + size)).toNat
      = s.wma.currentSize.toNat + (pad.toNat + size.toNat) := by
    rw [BitVec.toNat_add, hadj, Nat.mod_eq_of_lt (by omega)]
  have hroom' : s.wma.currentSize.toNat + (pad.toNat + size.toNat) ≤ w.maxSize.toNat := by
    rw [← hsum, ← h.maxSize]
    exact BitVec.not_lt.mp hroom
  refine ⟨hsum, hroom', ?_⟩
  rw [BitVec.toNat_sub_of_le (by rw [BitVec.le_def, hadj]; omega), hadj]

theorem Inv.wp_allocAlign (h : Inv w rs s) (hw : Fits w) (halign : alignment.toNat < 2 ^ 62)
    (hsize : size.toNat < 2 ^ 62) : wp (waterMarkAllocAlign mapPage alignment size)
      (fun p s' => Inv w (⟨p, size.toNat⟩ :: rs) s') (· ≠ .diverges) s := by
  rw [waterMarkAllocAlign, wp_ite]
  refine ⟨fun _ => panic_ne_diverges _, fun hpow => ?_⟩
  rw [wp_bind, wp_get]
  set pad := alignUp s.wma.currentAddress alignment - s.wma.currentAddress with hpad
  have hmax := h.size
  have hcur := h.current
  have htop := hw.le
  rw [wp_ite]
  refine ⟨fun _ => panic_ne_diverges _, fun hroom => ?_⟩
  obtain ⟨hsum, hroom', hnew⟩ :=
    h.counters hw halign hsize (Bool.of_not_eq_false hpow) hpad hroom
  rw [wp_bind, wp_modify, wp_bind]
  have hdvd : 2 ^ 21 ∣ w.currentAddress.toNat - (w.currentAddress.toNat - w.maxSize.toNat) := by
    rw [Nat.sub_sub_self htop]
    exact hw.dvd
  have hpages : PagesDown w.currentAddress { s with wma := { s.wma with
      currentAddress := s.wma.currentAddress - (pad + size)
      currentSize := s.wma.currentSize + (pad + size) } } :=
    ⟨h.pages.pageAddress, h.pages.above, h.pages.apart, h.pages.covers⟩
  have hreached := h.reached
  refine wp_mono (wp_mapPages hdvd (Nat.sub_le _ _) (2 ^ 43) (by norm_num) ?_ ?_ hpages) ?_
  · show _ ≤ (s.wma.currentAddress - (pad + size)).toNat
    omega
  · show s.wma.pageAddress.toNat + _ ≤ (s.wma.currentAddress - (pad + size)).toNat + _
    have := s.wma.pageAddress.isLt
    omega
  · rintro - s' ⟨hpages', hreached', page, hwma⟩
    rw [wp_bind, wp_get, wp_pure]
    have hc : s'.wma.currentAddress = s.wma.currentAddress - (pad + size) := by rw [hwma]
    have hz : s'.wma.currentSize = s.wma.currentSize + (pad + size) := by rw [hwma]
    have hregion : (s.wma.currentAddress - (pad + size)).toNat + size.toNat
        ≤ s.wma.currentAddress.toNat := by omega
    refine ⟨by rw [hwma]; exact h.maxSize, by rw [hz, hsum]; exact hroom', ?_, hpages', hreached',
      List.pairwise_cons.mpr ⟨fun r hr => ?_, h.disjoint⟩, fun r hr => ?_⟩
    · rw [hc, hz, hnew, hsum]
      omega
    · left
      have := (h.within r hr).1
      show s'.wma.currentAddress.toNat + size.toNat ≤ r.base.toNat
      rw [hc]
      omega
    · rcases List.mem_cons.mp hr with rfl | hr
      · refine ⟨le_rfl, ?_⟩
        show s'.wma.currentAddress.toNat + size.toNat ≤ w.currentAddress.toNat
        rw [hc]
        omega
      · obtain ⟨h1, h2⟩ := h.within r hr
        rw [hc]
        exact ⟨by omega, h2⟩

theorem Allocated.inv (h : Allocated mapPage w bound rs s) (hw : Fits w)
    (hstart : ∀ world : σ, Inv w [] ⟨w, [], world⟩) (hb : bound ≤ 2 ^ 62) : Inv w rs s := by
  induction h with
  | init world => exact hstart world
  | alloc _ hsize hrun ih =>
    have hone : (1 : Word).toNat < 2 ^ 62 := by decide
    exact (ih.wp_allocAlign hw hone (by omega)).ok hrun
  | allocAlign _ halign hsize hrun ih =>
    exact (ih.wp_allocAlign hw (by omega) (by omega)).ok hrun

/-- What the users of the allocator rely on. -/
structure WellPlaced (w : WaterMarkAllocator) (rs : List Block) (s : WaterMark σ) : Prop where
  disjoint : rs.Pairwise Block.Disjoint
  within : ∀ r ∈ rs, r.base.toNat + r.size ≤ w.currentAddress.toNat ∧
    w.currentAddress.toNat ≤ r.base.toNat + w.maxSize.toNat
  mapped : ∀ r ∈ rs, ∀ x, r.Has x → ∃ l ∈ s.mapped, (largePage l).Has x
  once : (s.mapped.map largePage).Pairwise Block.Disjoint
  sum : s.wma.currentAddress + s.wma.currentSize = w.currentAddress

lemma Inv.wellPlaced (h : Inv w rs s) : WellPlaced w rs s where
  disjoint := h.disjoint
  within := fun r hr => by
    have hsize := h.size
    have hcur := h.current
    obtain ⟨h1, h2⟩ := h.within r hr
    exact ⟨h2, by omega⟩
  mapped := fun r hr x hx => by
    have hreached := h.reached
    obtain ⟨h1, h2⟩ := h.within r hr
    exact h.pages.covers x (by have := hx.1; omega) (by have := hx.2; omega)
  once := h.pages.apart
  sum := by
    have hlt := w.currentAddress.isLt
    have hcur := h.current
    apply word_ext
    rw [BitVec.toNat_add, Nat.mod_eq_of_lt (by omega), hcur]

lemma fits_allocInit : Fits allocInit := ⟨by decide, by decide, by decide⟩

/-- In every run from `alloc_init` the regions are well placed, and no call loops for ever. -/
theorem wellPlaced_allocInit (h : Allocated mapPage allocInit (2 ^ 62) rs s) :
    WellPlaced allocInit rs s ∧ ∀ alignment size : Word, alignment.toNat < 2 ^ 62 →
      size.toNat < 2 ^ 62 → waterMarkAllocAlign mapPage alignment size s ≠ .error .diverges := by
  have hinv := h.inv fits_allocInit (fun world => inv_init world) le_rfl
  refine ⟨hinv.wellPlaced, fun alignment size halign hsize hrun => ?_⟩
  exact (hinv.wp_allocAlign fits_allocInit halign hsize).error hrun rfl

/-- `virt_map_page` when there is memory. -/
def mapAlways (_ : Word) : Prog Unit String Byte := pure 1

/-- The state after a call that returns. -/
def after (s : WaterMark Unit) (alignment size : Word) : WaterMark Unit :=
  match waterMarkAllocAlign mapAlways alignment size s with
  | .ok (_, s') => s'
  | .error _ => s

def started : WaterMark Unit := ⟨allocInit, [], ()⟩

theorem wellPlaced_two : WellPlaced allocInit
    [⟨0xFFFFFFFFFFBFE000, 0x200000⟩, ⟨0xFFFFFFFFFFDFE000, 0x2000⟩]
    (after (after started 0x1000 0x2000) 1 0x200000) := by
  have h1 : Allocated mapAlways allocInit (2 ^ 62) [⟨0xFFFFFFFFFFDFE000, 0x2000⟩]
      (after started 0x1000 0x2000) :=
    .allocAlign (.init ()) (show (0x1000 : Word).toNat < 2 ^ 62 by decide)
      (show (0x2000 : Word).toNat < 2 ^ 62 by decide) rfl
  exact (wellPlaced_allocInit (.alloc h1 (show (0x200000 : Word).toNat < 2 ^ 62 by decide) rfl)).1

/-! ## Alignment -/

lemma wp_mapPages_current (n : ℕ) : wp (mapPages mapPage n)
    (fun _ s' => s'.wma.currentAddress = s.wma.currentAddress) (fun _ => True) s := by
  induction n generalizing s with
  | zero => trivial
  | succ n ih =>
    rw [mapPages, wp_bind, wp_get, wp_ite]
    refine ⟨fun _ => ?_, fun _ => rfl⟩
    rw [wp_bind]
    refine wp_callMapPage (fun _ => trivial) (fun world => ?_) fun ret world hret => ?_
    · rw [if_pos rfl]
      trivial
    · rw [if_neg hret, wp_bind, wp_modify]
      exact ih

/-- The address is two times the current one less the next multiple and the size. -/
theorem allocAlign_aligned_iff (hrun : waterMarkAllocAlign mapPage alignment size s = .ok (p, s')) :
    alignment.toNat ∣ p.toNat ↔
      size.toNat ≡ 2 * s.wma.currentAddress.toNat [MOD alignment.toNat] := by
  set a := s.wma.currentAddress with ha
  have hwp : wp (waterMarkAllocAlign mapPage alignment size) (fun p _ =>
      (∃ k < 64, alignment.toNat = 2 ^ k) ∧ p = a - (alignUp a alignment - a + size))
      (fun _ => True) s := by
    rw [waterMarkAllocAlign, wp_ite]
    refine ⟨fun _ => trivial, fun hpow => ?_⟩
    rw [wp_bind, wp_get, wp_ite]
    refine ⟨fun _ => trivial, fun _ => ?_⟩
    rw [wp_bind, wp_modify, wp_bind]
    refine wp_mono (wp_mapPages_current _) fun _ s1 h1 => ?_
    rw [wp_bind, wp_get, wp_pure]
    exact ⟨isPowerOfTwo_iff.mp (Bool.of_not_eq_false hpow), h1⟩
  obtain ⟨⟨k, hk, hp⟩, rfl⟩ := hwp.ok hrun
  have hup := dvd_alignUp (x := a) hk hp
  have hwrap : alignment.toNat ∣ 2 ^ 64 := hp ▸ Nat.pow_dvd_pow 2 hk.le
  -- the four addresses balance modulo `2 ^ 64`, and so modulo the alignment
  have hbalance : a - (alignUp a alignment - a + size) + (alignUp a alignment + size) = a + a := by
    ring
  generalize a - (alignUp a alignment - a + size) = p at hbalance ⊢
  have hnat : p.toNat + ((alignUp a alignment).toNat + size.toNat) ≡ 2 * a.toNat [MOD 2 ^ 64] := by
    have h := congrArg BitVec.toNat hbalance
    rw [BitVec.toNat_add, BitVec.toNat_add, BitVec.toNat_add, Nat.add_mod_mod] at h
    rw [Nat.two_mul]
    exact h
  have hmod : p.toNat + size.toNat ≡ 2 * a.toNat [MOD alignment.toNat] := by
    have hzero : (alignUp a alignment).toNat ≡ 0 [MOD alignment.toNat] :=
      (Nat.modEq_zero_iff_dvd).mpr hup
    calc p.toNat + size.toNat
        = p.toNat + (0 + size.toNat) := by rw [Nat.zero_add]
      _ ≡ p.toNat + ((alignUp a alignment).toNat + size.toNat) [MOD alignment.toNat] :=
          ((hzero.symm).add_right _).add_left _
      _ ≡ 2 * a.toNat [MOD alignment.toNat] := hnat.of_dvd hwrap
  rw [← Nat.modEq_zero_iff_dvd]
  constructor
  · intro h
    calc size.toNat = 0 + size.toNat := (Nat.zero_add _).symm
      _ ≡ p.toNat + size.toNat [MOD alignment.toNat] := h.symm.add_right _
      _ ≡ 2 * a.toNat [MOD alignment.toNat] := hmod
  · intro h
    refine Nat.ModEq.add_right_cancel' size.toNat ?_
    rw [Nat.zero_add]
    exact hmod.trans h.symm

/-- A hundred bytes that are to be aligned to a page -/
theorem not_aligned : ∃ s p s', Allocated mapAlways allocInit (2 ^ 64) [] s ∧
    waterMarkAllocAlign mapAlways 0x1000 100 s = .ok (p, s') ∧ ¬ (0x1000 : Word).toNat ∣ p.toNat :=
  ⟨started, 0xFFFFFFFFFFDFFF9C, after started 0x1000 100, .init (), rfl, by decide⟩

/-- The first 4KiB that are to be aligned to a page are. -/
theorem aligned_page : (0x1000 : Word).toNat ∣ (0xFFFFFFFFFFDFF000 : Word).toNat := by
  have hrun : waterMarkAllocAlign mapAlways 0x1000 0x1000 started
      = .ok (0xFFFFFFFFFFDFF000, after started 0x1000 0x1000) := rfl
  exact (allocAlign_aligned_iff hrun).mpr (by decide)

end Bikeshed.DataStructures
