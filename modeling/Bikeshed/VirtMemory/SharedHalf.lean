import Bikeshed.VirtMemory.KernelHalf

/-!
# Kernel halves that share their tables

A clone copies the upper 256 entries of the PML4, so the page tables share what hangs below them.
`KernelSlots` says how: a table is met from two slots only if they are the same slot with the same
entry. `KernelFrames` is about the frames that were mapped there later: two addresses lead to
one of them only through one and the same entry. What changes below one slot of one page table
changes it for all that share the slot, and for no other (`SlotChanged`).
-/

namespace Bikeshed

open Lib

variable {P P' : Mem} {t t0 t' u v w : Word} {i i0 j k : ℕ} {live live' : List Word}
  {pinned pinned' frames : List Block} {ours ours' : Word → Prop}

/-- The pages below slot `i` of the PML4 at `t`. -/
def kernelSlot (P : Mem) (t : Word) (i : ℕ) : List Page := slotTree P kernelHalf 3 (entry P t i)

lemma index_kernel (hv : 256 ≤ index 3 v) : index 3 v ∈ slots kernelHalf 3 :=
  mem_slots_kernel.mpr ⟨hv, index_lt 3 v⟩

/-- There is nothing below an absent entry. -/
lemma present_of_table (hu : u ∈ tables (kernelSlot P t i)) : entry P t i &&& presentBit ≠ 0 := by
  intro h0
  rw [kernelSlot, slotTree_absent (decode_absent_iff.mpr h0)] at hu
  exact absurd hu List.not_mem_nil

lemma present_of_walk {b : Word × ℕ} (h : walk P 3 t v = some b) :
    entry P t (index 3 v) &&& presentBit ≠ 0 := by
  intro h0
  rw [walk_of_absent (decode_absent_iff.mpr h0)] at h
  cases h

/-- The tables below the kernel halves of the live page tables. -/
structure KernelSlots (P : Mem) (live : List Word) (pinned : List Block) : Prop where
  form : ∀ t ∈ live, ∀ i ∈ slots kernelHalf 3, SlotAll EntryForm P kernelHalf 3 (entry P t i)
  nodup : ∀ t ∈ live, ∀ i ∈ slots kernelHalf 3, (tables (kernelSlot P t i)).Nodup
  pinned : ∀ t ∈ live, ∀ i ∈ slots kernelHalf 3, ∀ u ∈ tables (kernelSlot P t i),
    page4KIB u ∈ pinned
  owner : ∀ t ∈ live, ∀ t' ∈ live, ∀ i ∈ slots kernelHalf 3, ∀ j ∈ slots kernelHalf 3,
    ∀ u ∈ tables (kernelSlot P t i), u ∈ tables (kernelSlot P t' j) →
      i = j ∧ entry P t i = entry P t' j

/-- The kernel addresses in `ours` are translated to frames of `frames`, two of them to the same
one only within a page and below one entry of the PML4s. -/
structure KernelFrames (P : Mem) (live : List Word) (ours : Word → Prop) (frames : List Block) :
    Prop where
  mem : ∀ t ∈ live, ∀ v, 256 ≤ index 3 v → ours v → ∀ b n, walk P 3 t v = some (b, n) →
    Block.mk b n ∈ frames
  page : ∀ t ∈ live, ∀ t' ∈ live, ∀ v v', 256 ≤ index 3 v → 256 ≤ index 3 v' → ours v → ours v' →
    ∀ b n, walk P 3 t v = some (b, n) → walk P 3 t' v' = some (b, n) →
      index 3 v = index 3 v' ∧ entry P t (index 3 v) = entry P t' (index 3 v') ∧
        ∀ k, n = 2 ^ (12 + 9 * k) → SameDown k 3 v v'

/-! ## Page tables with the kernel half of another -/

/-- `t` now has the kernel half that `t0` had. -/
structure SameHalf (P P' : Mem) (t0 t : Word) : Prop where
  entries : ∀ i ∈ slots kernelHalf 3, entry P' t i = entry P t0 i
  below : ∀ i ∈ slots kernelHalf 3, SameEntries (tables (kernelSlot P t0 i)) P P'

namespace SameHalf

lemma slot (h : SameHalf P P' t0 t) (hi : i ∈ slots kernelHalf 3) :
    kernelSlot P' t i = kernelSlot P t0 i := by
  rw [kernelSlot, h.entries i hi]
  exact slotTree_congr 3 (h.below i hi)

lemma walk (h : SameHalf P P' t0 t) (hv : 256 ≤ index 3 v) :
    Lib.walk P' 3 t v = Lib.walk P 3 t0 v := by
  rw [Lib.walk, Lib.walk, h.entries _ (index_kernel hv)]
  exact slotWalk_congr 3 (by omega) (h.below _ (index_kernel hv))

end SameHalf

lemma KernelSlots.carry (h : KernelSlots P live pinned)
    (hs : ∀ t ∈ live', ∃ t0 ∈ live, SameHalf P P' t0 t) (hp : ∀ b ∈ pinned, b ∈ pinned') :
    KernelSlots P' live' pinned' := by
  refine ⟨fun t ht i hi => ?_, fun t ht i hi => ?_, fun t ht i hi u hu => ?_,
    fun t ht t' ht' i hi j hj u hu hu' => ?_⟩
  · obtain ⟨t0, ht0, hsame⟩ := hs t ht
    rw [hsame.entries i hi]
    exact slotAll_congr 3 (hsame.below i hi) (h.form t0 ht0 i hi)
  · obtain ⟨t0, ht0, hsame⟩ := hs t ht
    rw [hsame.slot hi]
    exact h.nodup t0 ht0 i hi
  · obtain ⟨t0, ht0, hsame⟩ := hs t ht
    rw [hsame.slot hi] at hu
    exact hp _ (h.pinned t0 ht0 i hi u hu)
  · obtain ⟨t0, ht0, hsame⟩ := hs t ht
    obtain ⟨t1, ht1, hsame'⟩ := hs t' ht'
    rw [hsame.slot hi] at hu
    rw [hsame'.slot hj] at hu'
    rw [hsame.entries i hi, hsame'.entries j hj]
    exact h.owner t0 ht0 t1 ht1 i hi j hj u hu hu'

lemma KernelFrames.carry (h : KernelFrames P live ours frames)
    (hs : ∀ t ∈ live', ∃ t0 ∈ live, SameHalf P P' t0 t)
    (ho : ∀ v, 256 ≤ index 3 v → ours' v → ours v) : KernelFrames P' live' ours' frames := by
  refine ⟨fun t ht v hv hov b n hb => ?_,
    fun t ht t' ht' v v' hv hv' hov hov' b n hb hb' => ?_⟩
  · obtain ⟨t0, ht0, hsame⟩ := hs t ht
    rw [hsame.walk hv] at hb
    exact h.mem t0 ht0 v hv (ho v hv hov) b n hb
  · obtain ⟨t0, ht0, hsame⟩ := hs t ht
    obtain ⟨t1, ht1, hsame'⟩ := hs t' ht'
    rw [hsame.walk hv] at hb
    rw [hsame'.walk hv'] at hb'
    rw [hsame.entries _ (index_kernel hv), hsame'.entries _ (index_kernel hv')]
    exact h.page t0 ht0 t1 ht1 v v' hv hv' (ho v hv hov) (ho v' hv' hov') b n hb hb'

/-! ## A change below one slot -/

/-- Slot `i` of `t'` is the slot `i0` of `t`, or has a present entry in common with it. -/
def Hit (P : Mem) (t : Word) (i0 : ℕ) (t' : Word) (i : ℕ) : Prop :=
  i = i0 ∧ entry P t' i = entry P t i0 ∧ (t' = t ∨ entry P t i0 &&& presentBit ≠ 0)

lemma Hit.self (P : Mem) (t : Word) (i0 : ℕ) : Hit P t i0 t i0 := ⟨rfl, rfl, .inl rfl⟩

lemma Hit.congr (h : Hit P t i0 t' i) (he : entry P t' i = entry P w i)
    (hp : entry P t' i &&& presentBit ≠ 0) : Hit P t i0 w i := by
  obtain ⟨rfl, heq, -⟩ := h
  rw [heq] at he hp
  exact ⟨rfl, he.symm, .inr hp⟩

/-- All page tables that share the slot see the same change; the other slots are left alone. -/
structure SlotChanged (P P' : Mem) (live : List Word) (t : Word) (i0 : ℕ) : Prop where
  hit : ∀ t' ∈ live, ∀ i, Hit P t i0 t' i → entry P' t' i = entry P' t i0
  kept : ∀ t' ∈ live, ∀ i ∈ slots kernelHalf 3, ¬ Hit P t i0 t' i →
    entry P' t' i = entry P t' i ∧ SameEntries (tables (kernelSlot P t' i)) P P'

namespace SlotChanged

lemma slot_hit (h : SlotChanged P P' live t i0) (ht' : t' ∈ live) (hh : Hit P t i0 t' i) :
    kernelSlot P' t' i = kernelSlot P' t i0 := by rw [kernelSlot, kernelSlot, h.hit t' ht' i hh]

lemma slot_kept (h : SlotChanged P P' live t i0) (ht' : t' ∈ live) (hi : i ∈ slots kernelHalf 3)
    (hn : ¬ Hit P t i0 t' i) : kernelSlot P' t' i = kernelSlot P t' i := by
  obtain ⟨he, hs⟩ := h.kept t' ht' i hi hn
  rw [kernelSlot, he]
  exact slotTree_congr 3 hs

lemma walk_hit (h : SlotChanged P P' live t i0) (ht' : t' ∈ live)
    (hh : Hit P t i0 t' (index 3 w)) : walk P' 3 t' w = walk P' 3 t w := by
  rw [walk, walk, h.hit t' ht' _ hh, hh.1]

lemma walk_kept (h : SlotChanged P P' live t i0) (ht' : t' ∈ live) (hw : 256 ≤ index 3 w)
    (hn : ¬ Hit P t i0 t' (index 3 w)) : walk P' 3 t' w = walk P 3 t' w := by
  obtain ⟨he, hs⟩ := h.kept t' ht' _ (index_kernel hw) hn
  rw [walk, walk, he]
  exact slotWalk_congr 3 (by omega) hs

end SlotChanged

/-- The tables of the slot are replaced by `P'`'s, of which the new ones come from elsewhere. -/
lemma KernelSlots.change (h : KernelSlots P live pinned) (hc : SlotChanged P P' live t i0)
    (ht : t ∈ live) (hi0 : i0 ∈ slots kernelHalf 3)
    (hform : SlotAll EntryForm P' kernelHalf 3 (entry P' t i0))
    (hnd : (tables (kernelSlot P' t i0)).Nodup) (hp : ∀ b ∈ pinned, b ∈ pinned')
    (hnew : ∀ u ∈ tables (kernelSlot P' t i0),
      u ∈ tables (kernelSlot P t i0) ∨ (page4KIB u ∈ pinned' ∧ page4KIB u ∉ pinned)) :
    KernelSlots P' live pinned' := by
  -- a table of the slot changed is met from no slot that is left alone
  have hno : ∀ {t' j u}, t' ∈ live → j ∈ slots kernelHalf 3 → ¬ Hit P t i0 t' j →
      u ∈ tables (kernelSlot P' t i0) → u ∉ tables (kernelSlot P t' j) := by
    intro t' j u ht' hj hn hu hu'
    rcases hnew u hu with hold | ⟨-, hnot⟩
    · obtain ⟨rfl, he⟩ := h.owner t ht t' ht' i0 hi0 j hj u hold hu'
      exact hn ⟨rfl, he.symm, .inr (present_of_table hold)⟩
    · exact hnot (h.pinned t' ht' j hj u hu')
  refine ⟨fun t' ht' i hi => ?_, fun t' ht' i hi => ?_, fun t' ht' i hi u hu => ?_,
    fun t1 ht1 t2 ht2 i hi j hj u hu hu' => ?_⟩
  · by_cases hh : Hit P t i0 t' i
    · rw [hc.hit t' ht' i hh]
      exact hform
    · obtain ⟨he, hs⟩ := hc.kept t' ht' i hi hh
      rw [he]
      exact slotAll_congr 3 hs (h.form t' ht' i hi)
  · by_cases hh : Hit P t i0 t' i
    · rw [hc.slot_hit ht' hh]
      exact hnd
    · rw [hc.slot_kept ht' hi hh]
      exact h.nodup t' ht' i hi
  · by_cases hh : Hit P t i0 t' i
    · rw [hc.slot_hit ht' hh] at hu
      rcases hnew u hu with hold | ⟨hmem, -⟩
      · exact hp _ (h.pinned t ht i0 hi0 u hold)
      · exact hmem
    · rw [hc.slot_kept ht' hi hh] at hu
      exact hp _ (h.pinned t' ht' i hi u hu)
  · by_cases hh1 : Hit P t i0 t1 i <;> by_cases hh2 : Hit P t i0 t2 j
    · rw [hc.hit t1 ht1 i hh1, hc.hit t2 ht2 j hh2]
      exact ⟨hh1.1.trans hh2.1.symm, rfl⟩
    · rw [hc.slot_hit ht1 hh1] at hu
      rw [hc.slot_kept ht2 hj hh2] at hu'
      exact absurd hu' (hno ht2 hj hh2 hu)
    · rw [hc.slot_kept ht1 hi hh1] at hu
      rw [hc.slot_hit ht2 hh2] at hu'
      exact absurd hu (hno ht1 hi hh1 hu')
    · rw [hc.slot_kept ht1 hi hh1] at hu
      rw [hc.slot_kept ht2 hj hh2] at hu'
      rw [(hc.kept t1 ht1 i hi hh1).1, (hc.kept t2 ht2 j hj hh2).1]
      exact h.owner t1 ht1 t2 ht2 i hi j hj u hu hu'

/-! ## The frames after such a change -/

/-- `w` is translated under `t'` through the entry that is written for `v` under `t`. -/
def Through (P : Mem) (t v : Word) (k : ℕ) (t' w : Word) : Prop :=
  Hit P t (index 3 v) t' (index 3 w) ∧ SameDown k 3 v w

/-- All other addresses are translated as before. -/
lemma SlotChanged.walk_other (h : SlotChanged P P' live t (index 3 v)) (ht' : t' ∈ live)
    (hother : ∀ w, index 3 w = index 3 v → ¬ SameDown k 3 v w → walk P' 3 t w = walk P 3 t w)
    (hw : 256 ≤ index 3 w) (hn : ¬ Through P t v k t' w) :
    walk P' 3 t' w = walk P 3 t' w := by
  by_cases hh : Hit P t (index 3 v) t' (index 3 w)
  · rw [h.walk_hit ht' hh, hother w hh.1 fun hs => hn ⟨hh, hs⟩, walk, walk, hh.2.1, hh.1]
  · exact h.walk_kept ht' hw hh

/-- Entries that were the same are still the same. -/
lemma SlotChanged.entry_eq {t1 t2 : Word} (h : SlotChanged P P' live t i0) (ht1 : t1 ∈ live)
    (ht2 : t2 ∈ live) (hi : i ∈ slots kernelHalf 3) (he : entry P t1 i = entry P t2 i)
    (hp : entry P t1 i &&& presentBit ≠ 0) : entry P' t1 i = entry P' t2 i := by
  by_cases hh : Hit P t i0 t1 i
  · rw [h.hit t1 ht1 i hh, h.hit t2 ht2 i (hh.congr he hp)]
  · have hh2 : ¬ Hit P t i0 t2 i := fun h2 => hh (h2.congr he.symm (by rwa [← he]))
    rw [(h.kept t1 ht1 i hi hh).1, (h.kept t2 ht2 i hi hh2).1, he]

/-- Two addresses that are translated as before. -/
lemma KernelFrames.page_old (h : KernelFrames P live ours frames)
    (hc : SlotChanged P P' live t i0) {t1 t2 v1 v2 : Word} (ht1 : t1 ∈ live) (ht2 : t2 ∈ live)
    (hv1 : 256 ≤ index 3 v1) (hv2 : 256 ≤ index 3 v2) (ho1 : ours v1) (ho2 : ours v2) {b : Word}
    {n : ℕ} (hb1 : walk P 3 t1 v1 = some (b, n)) (hb2 : walk P 3 t2 v2 = some (b, n)) :
    index 3 v1 = index 3 v2 ∧ entry P' t1 (index 3 v1) = entry P' t2 (index 3 v2) ∧
      ∀ k, n = 2 ^ (12 + 9 * k) → SameDown k 3 v1 v2 := by
  obtain ⟨hi, he, hdown⟩ := h.page t1 ht1 t2 ht2 v1 v2 hv1 hv2 ho1 ho2 b n hb1 hb2
  refine ⟨hi, ?_, hdown⟩
  rw [← hi] at he ⊢
  exact hc.entry_eq ht1 ht2 (index_kernel hv1) he (present_of_walk hb1)

/-- A frame that is none of `frames` has been entered for `v`. -/
lemma KernelFrames.enter (h : KernelFrames P live ours frames)
    (hc : SlotChanged P P' live t (index 3 v)) {base : Word}
    (hnew : Block.mk base (2 ^ (12 + 9 * k)) ∉ frames)
    (hsame : ∀ w, SameDown k 3 v w → index 3 w = index 3 v →
      walk P' 3 t w = some (base, 2 ^ (12 + 9 * k)))
    (hother : ∀ w, index 3 w = index 3 v → ¬ SameDown k 3 v w → walk P' 3 t w = walk P 3 t w)
    (ho : ∀ t' ∈ live, ∀ w, 256 ≤ index 3 w → ours' w → ¬ Through P t v k t' w → ours w) :
    KernelFrames P' live ours' (⟨base, 2 ^ (12 + 9 * k)⟩ :: frames) := by
  have hthrough : ∀ {t' w b n}, t' ∈ live → Through P t v k t' w →
      walk P' 3 t' w = some (b, n) → b = base ∧ n = 2 ^ (12 + 9 * k) := by
    intro t' w b n ht' hth hb
    rw [hc.walk_hit ht' hth.1, hsame w hth.2 hth.1.1] at hb
    cases hb
    exact ⟨rfl, rfl⟩
  have hold : ∀ {t' w b n}, t' ∈ live → 256 ≤ index 3 w → ours' w → ¬ Through P t v k t' w →
      walk P' 3 t' w = some (b, n) → walk P 3 t' w = some (b, n) ∧ Block.mk b n ∈ frames := by
    intro t' w b n ht' hw how hth hb
    rw [hc.walk_other ht' hother hw hth] at hb
    exact ⟨hb, h.mem t' ht' w hw (ho t' ht' w hw how hth) b n hb⟩
  refine ⟨fun t' ht' w hw how b n hb => ?_,
    fun t1 ht1 t2 ht2 v1 v2 hv1 hv2 ho1 ho2 b n hb1 hb2 => ?_⟩
  · by_cases hth : Through P t v k t' w
    · obtain ⟨rfl, rfl⟩ := hthrough ht' hth hb
      exact List.mem_cons_self
    · exact List.mem_cons_of_mem _ (hold ht' hw how hth hb).2
  · by_cases hth1 : Through P t v k t1 v1 <;> by_cases hth2 : Through P t v k t2 v2
    · obtain ⟨rfl, rfl⟩ := hthrough ht1 hth1 hb1
      refine ⟨hth1.1.1.trans hth2.1.1.symm, ?_, fun k' hk' => ?_⟩
      · rw [hc.hit t1 ht1 _ hth1.1, hc.hit t2 ht2 _ hth2.1]
      · obtain rfl : k = k' := by
          have := Nat.pow_right_injective le_rfl hk'
          omega
        exact fun i h1 h2 => (hth2.2 i h1 h2).trans (hth1.2 i h1 h2).symm
    · obtain ⟨rfl, rfl⟩ := hthrough ht1 hth1 hb1
      exact absurd (hold ht2 hv2 ho2 hth2 hb2).2 hnew
    · obtain ⟨rfl, rfl⟩ := hthrough ht2 hth2 hb2
      exact absurd (hold ht1 hv1 ho1 hth1 hb1).2 hnew
    · exact h.page_old hc ht1 ht2 hv1 hv2 (ho t1 ht1 v1 hv1 ho1 hth1) (ho t2 ht2 v2 hv2 ho2 hth2)
        (hold ht1 hv1 ho1 hth1 hb1).1 (hold ht2 hv2 ho2 hth2 hb2).1

/-- The entry for `v` has been cleared. -/
lemma KernelFrames.clear (h : KernelFrames P live ours frames)
    (hc : SlotChanged P P' live t (index 3 v)) (ht : t ∈ live) (hv : 256 ≤ index 3 v)
    (hov : ours v) {base : Word} (hmapped : walk P 3 t v = some (base, 2 ^ (12 + 9 * k)))
    (hsame : ∀ w, SameDown k 3 v w → index 3 w = index 3 v → walk P' 3 t w = none)
    (hother : ∀ w, index 3 w = index 3 v → ¬ SameDown k 3 v w → walk P' 3 t w = walk P 3 t w) :
    KernelFrames P' live ours (frames.erase ⟨base, 2 ^ (12 + 9 * k)⟩) := by
  have hold : ∀ {t' w b n}, t' ∈ live → 256 ≤ index 3 w → walk P' 3 t' w = some (b, n) →
      ¬ Through P t v k t' w ∧ walk P 3 t' w = some (b, n) := by
    intro t' w b n ht' hw hb
    have hth : ¬ Through P t v k t' w := by
      intro hth
      rw [hc.walk_hit ht' hth.1, hsame w hth.2 hth.1.1] at hb
      cases hb
    rw [hc.walk_other ht' hother hw hth] at hb
    exact ⟨hth, hb⟩
  refine ⟨fun t' ht' w hw how b n hb => ?_,
    fun t1 ht1 t2 ht2 v1 v2 hv1 hv2 ho1 ho2 b n hb1 hb2 => ?_⟩
  · obtain ⟨hth, hb⟩ := hold ht' hw hb
    refine (List.mem_erase_of_ne fun he => ?_).mpr (h.mem t' ht' w hw how b n hb)
    -- no other address leads to the frame of `v`
    cases he
    obtain ⟨hi, he, hdown⟩ := h.page t ht t' ht' v w hv hw hov how _ _ hmapped hb
    refine hth ⟨⟨hi.symm, he.symm, .inr (present_of_walk hmapped)⟩, hdown k rfl⟩
  · exact h.page_old hc ht1 ht2 hv1 hv2 ho1 ho2 (hold ht1 hv1 hb1).2 (hold ht2 hv2 hb2).2

end Bikeshed
