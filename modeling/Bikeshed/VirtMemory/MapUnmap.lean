import Bikeshed.VirtMemory.MapContract

/-!
# Mapping a page and unmapping it again

`virt_map_page` gives the addresses of one page a translation, to a frame that was not in use
before, and `virt_unmap_page` at any address of the page takes back just that. What remains are
the tables that were made on the way.
-/

namespace Bikeshed

open Lib

variable {α : Type} {A : PhysAllocator α} {H : PhysHeap A} {r v w frame flags pageSize : Word}
  {k : ℕ} {s s0 s1 s2 : Machine α} {new : List Word}

/-- The addresses of the page of `v` are translated to a new frame, all others as before. -/
structure PageGained (H : PhysHeap A) (r v frame pageSize : Word) (s s1 : Machine α)
    (new : List Word) : Prop where
  mapped : ∀ w, SamePage pageSize v w → translation (phys s1.mem) r w
    = some (frame + BitVec.ofNat 64 (w.toNat % pageBytes pageSize))
  others : ∀ w, ¬ SamePage pageSize v w →
    translation (phys s1.mem) r w = translation (phys s.mem) r w
  fresh : ∀ b ∈ H.own s.heap, (Block.mk frame (pageBytes pageSize)).Disjoint b
  own : (H.own s1.heap).Perm
    (new.map page4KIB ++ ⟨frame, pageBytes pageSize⟩ :: H.own s.heap)

/-- All is as before but for the tables `new`, and the frame has been given back through the free
function of its size. -/
structure PageLost (H : PhysHeap A) (r frame pageSize : Word) (s s1 s2 : Machine α)
    (new : List Word) : Prop where
  translations : ∀ w, translation (phys s2.mem) r w = translation (phys s.mem) r w
  freed : ∃ L, s2.log = s1.log ++ L ∧ freed L = [⟨frame, pageBytes pageSize⟩] ∧ allocated L = []
  own : (H.own s2.heap).Perm (new.map page4KIB ++ H.own s.heap)
  tables : (tree (phys s2.mem) wholeTable 3 r).Perm
    (new.map tablePage ++ tree (phys s.mem) wholeTable 3 r)

/-! ## Mapping -/

lemma allocFrame_handed (hv : H.Valid s.heap s.mem) (hne : frame ≠ 0)
    (hrun : allocFrame A pageSize s = .ok (frame, s0)) : H.Valid s0.heap s0.mem ∧
      (pageSize = pageLarge ∨ pageSize = pageSmall) ∧
      Handed (H.own s.heap) (H.own s0.heap) (phys s.mem) (phys s0.mem)
        ⟨frame, 2 ^ (12 + 9 * pageLevel pageSize)⟩ := by
  have hwp : wp (allocFrame A pageSize) (fun p s' => p ≠ 0 → H.Valid s'.heap s'.mem ∧
      (pageSize = pageLarge ∨ pageSize = pageSmall) ∧
      Handed (H.own s.heap) (H.own s'.heap) (phys s.mem) (phys s'.mem)
        ⟨p, 2 ^ (12 + 9 * pageLevel pageSize)⟩) (fun _ => True) s := by
    rw [allocFrame, wp_ite]
    constructor
    · rintro rfl
      exact wp_physAlloc2MIB H hv (.inl fun _ => trivial)
        (fun _ _ _ _ _ h0 => absurd rfl h0) fun p s' _ hv' _ hh _ _ => ⟨hv', .inl rfl, hh⟩
    · intro _
      rw [wp_ite]
      constructor
      · rintro rfl
        exact wp_physAlloc4KIB H hv (.inl fun _ => trivial) fun p s' hv' _ hh _ _ =>
          ⟨hv', .inr rfl, hh⟩
      · intro _
        rw [wp_panicWith]
        trivial
  exact hwp.ok hrun hne

/-- A call that returned 1 allocated the frame and then mapped it. -/
lemma virtMapPage_ok (hrun : virtMapPage A r v flags pageSize s = .ok ((1, frame), s1)) :
    ∃ s0, frame ≠ 0 ∧ allocFrame A pageSize s = .ok (frame, s0) ∧
      virtMapPhys A r v frame flags pageSize s0 = .ok (1, s1) := by
  have hwp : wp (virtMapPage A r v flags pageSize) (fun res s' => res.1 = 1 → ∃ s0, res.2 ≠ 0 ∧
      allocFrame A pageSize s = .ok (res.2, s0) ∧
      virtMapPhys A r v res.2 flags pageSize s0 = .ok (1, s')) (fun _ => True) s := by
    rw [virtMapPage, wp_bind, wp_iff]
    refine ⟨fun p s0 hp => ?_, fun _ _ => trivial⟩
    rw [wp_ite]
    constructor
    · intro _
      rw [wp_pure]
      exact fun h => absurd h (show (0 : Byte) ≠ 1 by decide)
    · intro hne
      rw [wp_bind, wp_iff]
      refine ⟨fun ret s' hret => ?_, fun _ _ => trivial⟩
      rw [wp_pure]
      rintro rfl
      exact ⟨s0, hne, hp, hret⟩
  exact hwp.ok hrun rfl

/-- What `virt_map_page` has done to the tree. -/
structure NewPage (H : PhysHeap A) (r v frame pageSize : Word) (s s0 s1 : Machine α) (m1 : Mem)
    (new : List Word) (u e' : Word) : Prop where
  rooted : Rooted H wholeTable r s0.heap s0.mem
  handed : Handed (H.own s.heap) (H.own s0.heap) (phys s.mem) (phys s0.mem)
    ⟨frame, pageBytes pageSize⟩
  same : SameEntries (tables (tree (phys s.mem) wholeTable 3 r)) (phys s.mem) (phys s0.mem)
  entered : Entered H wholeTable r v (pageLevel pageSize) frame s0.heap s0.mem s1.heap s1.mem m1
    new u e'
  absent : decode (pageLevel pageSize) (entry (phys m1) u (index (pageLevel pageSize) v)) = .absent

lemma exists_newPage (h : Rooted H wholeTable r s.heap s.mem)
    (hpde : pageSize = pageLarge → PdeAbsent (phys s.mem) r v)
    (hrun : virtMapPage A r v flags pageSize s = .ok ((1, frame), s1)) :
    ∃ s0 m1 new u e', NewPage H r v frame pageSize s s0 s1 m1 new u e' := by
  obtain ⟨s0, hne, halloc, hmap⟩ := virtMapPage_ok hrun
  obtain ⟨hv0, -, hh⟩ := allocFrame_handed h.valid hne halloc
  have hbelow : frame.toNat + 2 ^ (12 + 9 * pageLevel pageSize) ≤ 2 ^ 39 := hh.below
  have haligned : 2 ^ (12 + 9 * pageLevel pageSize) ∣ frame.toNat := hh.aligned
  have hs := h.same hh.agree
  have h0 := h.handed hv0 hh
  obtain ⟨-, -, m1, new, u, e', he, habs⟩ := (wp_virtMapPhys_into (E := fun _ => True) h0 rfl
    (by omega) flags pageSize (.inl fun _ => trivial)).ok hmap
  rw [frameBase_eq (Nat.mod_eq_zero_of_dvd haligned)] at he
  rw [← pageBytes_eq] at hh
  refine ⟨s0, m1, new, u, e', h0, hh, hs, he, ?_⟩
  by_cases hlarge : pageSize = pageLarge
  · refine habs fun u' hu' => ?_
    -- handing out the frame has not changed the tables
    have hback : Reaches (phys s.mem) v 3 r 1 u' := by
      refine hu'.congr (show wholeTable (index 3 v) = true from rfl) ?_
      rw [tree_congr hs]
      exact fun t ht i hi => (hs t ht i hi).symm
    rw [hs u' (hback.mem_tables rfl) _ (index_lt 1 v)]
    exact hpde hlarge u' hback
  · exact he.absent (if_neg hlarge)

namespace NewPage

variable {m1 : Mem} {u e' : Word}

lemma own (h : NewPage H r v frame pageSize s s0 s1 m1 new u e') :
    (H.own s1.heap).Perm (new.map page4KIB ++ ⟨frame, pageBytes pageSize⟩ :: H.own s.heap) :=
  h.entered.grown.own.trans (h.handed.outstanding.append_left _)

/-- The frame and the new tables are the pages that the tree has gained. -/
lemma pages (h : NewPage H r v frame pageSize s s0 s1 m1 new u e') :
    (tree (phys s1.mem) wholeTable 3 r).Perm
      (framePage frame (pageBytes pageSize) ::
        (new.map tablePage ++ tree (phys s.mem) wholeTable 3 r)) := by
  obtain ⟨kept, h1, h2⟩ := reaches_exchange h.entered.reaches rfl h.entered.before.nodup
    (h.entered.entryWrite rfl)
  rw [slotTree_absent h.absent, List.nil_append] at h1
  rw [slotTree_leaf h.entered.leaf, ← pageBytes_eq] at h2
  have hgrown := h.entered.grown.pages
  rw [tree_congr h.same] at hgrown
  exact h2.trans ((h1.symm.trans hgrown).cons _)

/-- The frame is no table. -/
lemma tables_owned (h : NewPage H r v frame pageSize s s0 s1 m1 new u e')
    (hs : Rooted H wholeTable r s.heap s.mem) :
    ∀ t ∈ tables (tree (phys s1.mem) wholeTable 3 r),
      page4KIB t ∈ new.map page4KIB ++ H.own s.heap := by
  intro t ht
  have hmem := (tables_perm h.pages).mem_iff.mp ht
  rw [tables_cons_frame, tables_append, tables_map_tablePage, List.mem_append] at hmem
  rw [List.mem_append]
  exact hmem.imp (fun hnew => List.mem_map_of_mem hnew) fun hold => hs.owned t hold

lemma gained (h : NewPage H r v frame pageSize s s0 s1 m1 new u e') :
    PageGained H r v frame pageSize s s1 new := by
  refine ⟨fun w hw => ?_, fun w hw => ?_, h.handed.fresh, h.own⟩
  · rw [samePage_iff] at hw
    rw [translation, h.entered.walk_same rfl hw, pageBytes_eq]
    rfl
  · rw [samePage_iff] at hw
    rw [translation, translation, h.entered.walk_other rfl rfl hw, walk_congr le_rfl rfl h.same]

/-- Giving back the frame leaves the tables alone. -/
lemma keepsTables (h : NewPage H r v frame pageSize s s0 s1 m1 new u e') (hf : H.FreesReturn)
    (hs : Rooted H wholeTable r s.heap s.mem) (hw : SamePage pageSize v w) :
    FreeKeepsTables H wholeTable r w (fun a' m' => Returned (H.own s1.heap) (H.own a')
      (phys s1.mem) (phys m') ⟨frame, pageBytes pageSize⟩) s1.heap s1.mem := by
  intro base n hwalk a' m' hrun
  rw [h.entered.walk_same rfl ((samePage_iff _ _ _).mp hw), ← pageBytes_eq] at hwalk
  cases hwalk
  have hmem : ⟨frame, pageBytes pageSize⟩ ∈ H.own s1.heap :=
    h.own.mem_iff.mpr (List.mem_append_right _ List.mem_cons_self)
  -- the walk ends at the frame, and the free function is that of its size
  have hfree : H.Valid a' m' ∧ Returned (H.own s1.heap) (H.own a') (phys s1.mem) (phys m')
      ⟨frame, pageBytes pageSize⟩ := by
    rw [freeFrame] at hrun
    split at hrun
    case isTrue hn =>
      rw [hn] at hmem ⊢
      exact hf.free2MIB h.entered.after.valid hmem hrun
    case isFalse hn =>
      have hn' : pageBytes pageSize = 4096 := by
        unfold pageBytes at hn ⊢
        split at hn
        · exact absurd rfl hn
        · rename_i hsize
          exact if_neg hsize
      rw [hn'] at hmem ⊢
      exact hf.free4KIB h.entered.after.valid hmem hrun
  obtain ⟨hvalid, hret⟩ := hfree
  -- what is left are the new tables and the blocks of before
  have hleft : (H.own a').Perm (new.map page4KIB ++ H.own s.heap) :=
    ((hret.outstanding.symm.trans h.own).trans List.perm_middle).cons_inv
  have hown : ∀ t ∈ tables (tree (phys s1.mem) wholeTable 3 r), page4KIB t ∈ H.own a' :=
    fun t ht => hleft.mem_iff.mpr (h.tables_owned hs t ht)
  exact ⟨hvalid, hret, sameEntries_of_agreeOn hret.agree
    (fun t ht => h.entered.after.tables_aligned ht) hown, hown⟩

/-- Unmapping the page gives back the frame and no translation is left of it. -/
lemma lost (h : NewPage H r v frame pageSize s s0 s1 m1 new u e') (hf : H.FreesReturn)
    (hs : Rooted H wholeTable r s.heap s.mem)
    (hnone : ∀ w, SamePage pageSize v w → translation (phys s.mem) r w = none)
    (hw : SamePage pageSize v w) {base u' : Word} {m2 : Mem}
    (hl : FreesLeaf A r w k base u' m2 s1 s2) :
    PageLost H r frame pageSize s s1 s2 new := by
  have hwalk := h.entered.walk_same rfl ((samePage_iff _ _ _).mp hw)
  rw [hl.walk, Option.some.injEq, Prod.mk.injEq] at hwalk
  obtain ⟨rfl, hlevel⟩ := hwalk
  obtain rfl : k = pageLevel pageSize := by
    have hexp := Nat.pow_right_injective le_rfl hlevel
    omega
  obtain ⟨hc, hret⟩ := hl.cleared h.entered.after rfl (h.keepsTables hf hs hw)
  refine ⟨fun x => ?_, ?_, ?_, ?_⟩
  · -- an address of the page is as untranslated as before, any other was never touched
    by_cases hx : SamePage pageSize v x
    · rw [hnone x hx, translation_eq_none]
      refine hc.walk_same rfl ((samePage_iff _ _ _).mp ?_)
      exact hx.trans hw.symm
    · have hxw : ¬ SameDown (pageLevel pageSize) 3 w x := by
        rw [← samePage_iff]
        exact fun hxw => hx (hxw.trans hw)
      rw [translation, hc.walk_other rfl rfl hxw]
      exact h.gained.others x hx
  · rw [pageBytes_eq]
    exact hl.log
  · exact ((hret.outstanding.symm.trans h.own).trans List.perm_middle).cons_inv
  · have hpages := hc.pages rfl
    rw [← pageBytes_eq] at hpages
    exact (hpages.symm.trans h.pages).cons_inv

end NewPage

/-- A page whose addresses were not translated is mapped to a new frame; unmapping it at any of
its addresses takes that back, unless the allocator refuses the frame. -/
theorem virtMapPage_unmap (hf : H.FreesReturn) (h : Rooted H wholeTable r s.heap s.mem)
    (hnone : ∀ w, SamePage pageSize v w → translation (phys s.mem) r w = none)
    (hpde : pageSize = pageLarge → PdeAbsent (phys s.mem) r v)
    (hrun : virtMapPage A r v flags pageSize s = .ok ((1, frame), s1)) :
    ∃ new, PageGained H r v frame pageSize s s1 new ∧ ∀ w, SamePage pageSize v w →
      (∀ s2, virtUnmapPage A r w s1 = .ok ((), s2) → PageLost H r frame pageSize s s1 s2 new) ∧
      ∀ e, virtUnmapPage A r w s1 = .error e →
        freeFrame A (pageBytes pageSize) frame s1.heap s1.mem = .error e := by
  obtain ⟨s0, m1, new, u, e', hnew⟩ := exists_newPage h hpde hrun
  refine ⟨new, hnew.gained, fun w hw => ?_⟩
  have hwp := wp_virtUnmapPage_exact (A := A) (v := w) hnew.entered.after rfl
  rw [wp_iff] at hwp
  constructor
  · intro s2 hunmap
    obtain ⟨k, base, u', m2, hl⟩ := hwp.1 _ _ hunmap
    exact hnew.lost hf h hnone hw hl
  · intro e hpanic
    have hwalk := hnew.entered.walk_same rfl ((samePage_iff _ _ _).mp hw)
    rw [← pageBytes_eq] at hwalk
    rcases hwp.2 _ hpanic with hno | ⟨base, n, hwalk', hfree⟩
    · rw [hwalk] at hno
      cases hno
    · rw [hwalk] at hwalk'
      cases hwalk'
      exact hfree

/-- Mapping a large page into the empty table and unmapping it at another of its addresses. -/
theorem Bump.map_unmap_start : ∃ frame s1 s2 new,
    virtMapPage (allocator release) 0x1000 0 pgFlagRw pageLarge start = .ok ((1, frame), s1) ∧
    PageGained (heap release) 0x1000 0 frame pageLarge start s1 new ∧
    virtUnmapPage (allocator release) 0x1000 0x1000 s1 = .ok ((), s2) ∧
    PageLost (heap release) 0x1000 frame pageLarge start s1 s2 new := by
  have hrooted : Rooted (heap release) wholeTable 0x1000 start.heap start.mem :=
    rooted_empty valid_start (by decide) List.mem_cons_self fun i _ => load64_zero _
  have habs : ∀ w, decode 3 (entry (phys start.mem) 0x1000 (index 3 w)) = .absent := fun w => by
    rw [entry]
    exact (load64_zero _).symm ▸ decode_zero 3
  have hnone : ∀ w, walk (phys start.mem) 3 0x1000 w = none := fun w => walk_of_absent (habs w)
  obtain ⟨⟨ret, frame⟩, s1, hrun, h | ⟨rfl, -⟩⟩ := (wp_virtMapPage (E := fun _ => False) (v := 0)
    (s := start) hrooted rfl pgFlagRw pageLarge
    (.inr ⟨by decide, hnone 0, .inl rfl⟩)).returns
  · exact absurd (h.2.1 "") id
  obtain ⟨new, hgained, hunmap⟩ := virtMapPage_unmap freesReturn hrooted
    (fun w _ => translation_eq_none.mpr (hnone w))
    (fun _ => pdeAbsent_of_absent (.refl 3 _) (by norm_num) (habs 0)) hrun
  obtain ⟨hlost, hfails⟩ := hunmap 0x1000 (by decide)
  cases hs2 : virtUnmapPage (allocator release) 0x1000 0x1000 s1 with
  | error e =>
    have hfree := hfails e hs2
    rw [freeFrame, if_pos (by decide)] at hfree
    cases hfree
  | ok res => exact ⟨frame, s1, res.2, new, hrun, hgained, hs2, hlost _ hs2⟩

end Bikeshed
