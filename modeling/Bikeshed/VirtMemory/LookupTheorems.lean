import Bikeshed.VirtMemory.MapContract

/-!
# The software walk against the processor's

`virt_lookup_phys` walks the same four levels, but it reports success for an absent entry
of a present page table, and it takes 12 offset bits for a 2MiB page too.
-/

namespace Bikeshed

open Lib

/-- What the comment on `virt_lookup_phys` promises. -/
structure LookupContract (P : Mem) (r v outPhys : Word) (ret : Byte) (out : Word) : Prop where
  found : ret = 1 ↔ translation P r v ≠ none
  address : ∀ p, translation P r v = some p → out = p
  kept : ret = 0 → out = outPhys

/-- If `v` has a present page-directory entry, it is a 2MiB page and bits 12..20 of `v` are
zero, or it is a page table with a present entry for `v`. -/
def LookupSafe (P : Mem) (r v : Word) : Prop :=
  ∀ u, Reaches P v 3 r 1 u →
    match decode 1 (entry P u (index 1 v)) with
    | .absent => True
    | .leaf _ _ => index 0 v = 0
    | .table t => entry P t (index 0 v) &&& presentBit ≠ 0

/-- `virt_addr & 0xFFF` -/
lemma and_pageOffset (v : Word) : v &&& 0xFFF = BitVec.ofNat 64 (v.toNat % 2 ^ 12) := by
  have h : (v &&& 0xFFF).toNat = v.toNat % 2 ^ 12 := by
    rw [BitVec.toNat_and]
    exact Nat.and_two_pow_sub_one_eq_mod v.toNat 12
  refine word_ext ?_
  have := v.isLt
  rw [h, toNat_ofNat_lt (by omega)]

/-- A 12-bit offset is the offset in a 2MiB page exactly when bits 12..20 are zero. -/
lemma offset_eq_iff (v : Word) :
    BitVec.ofNat 64 (v.toNat % 2 ^ 12) = BitVec.ofNat 64 (v.toNat % 2 ^ 21) ↔ index 0 v = 0 := by
  have hv := v.isLt
  rw [← BitVec.toNat_inj, toNat_ofNat_lt (by omega), toNat_ofNat_lt (by omega), index]
  norm_num
  omega

/-- The 12-bit lookup of a leaf against its translation. -/
lemma lookupContract_leaf {P : Mem} {r v outPhys base : Word} {n : ℕ}
    (hw : walk P 3 r v = some (base, n)) :
    LookupContract P r v outPhys 1 (base + (v &&& 0xFFF)) ↔
      BitVec.ofNat 64 (v.toNat % 2 ^ 12) = BitVec.ofNat 64 (v.toNat % n) := by
  have ht : translation P r v = some (base + BitVec.ofNat 64 (v.toNat % n)) := by
    rw [translation, hw]
    rfl
  rw [and_pageOffset]
  constructor
  · intro h
    exact add_left_cancel (h.address _ ht)
  · intro h
    refine ⟨?_, ?_, fun h0 => absurd h0 (by decide)⟩
    · rw [ht]
      simp
    · intro p hp
      rw [ht] at hp
      cases hp
      rw [h]

/-- Nothing found, and nothing is translated. -/
lemma lookupContract_none {P : Mem} {r v outPhys : Word} (hw : walk P 3 r v = none) :
    LookupContract P r v outPhys 0 outPhys := by
  have ht : translation P r v = none := translation_eq_none.mpr hw
  refine ⟨?_, ?_, fun _ => rfl⟩
  · rw [ht]
    simp
  · rw [ht]
    intro p hp
    cases hp

variable {α : Type} {A : PhysAllocator α} {H : PhysHeap A} {r v : Word} {s : Machine α}

/-- On every table built by mapping and unmapping, the lookup of `v` returns, writes nothing,
and agrees with the processor's walk exactly when `LookupSafe` holds of `v`. -/
theorem virtLookupPhys_contract_iff (hf : H.FreesKeep) (hb : Built A H r s) (v outPhys : Word) :
    ∃ ret out L, virtLookupPhys r v outPhys s = .ok ((ret, out), ⟨s.mem, s.heap, L⟩) ∧
      (LookupContract (phys s.mem) r v outPhys ret out ↔ LookupSafe (phys s.mem) r v) := by
  have h := hb.rooted hf
  suffices hwp : wp (virtLookupPhys r v outPhys) (fun res s' => s'.mem = s.mem ∧ s'.heap = s.heap ∧
      (LookupContract (phys s.mem) r v outPhys res.1 res.2 ↔ LookupSafe (phys s.mem) r v))
      (fun _ => False) s by
    obtain ⟨⟨ret, out⟩, ⟨m, a, L⟩, hrun, rfl, rfl, hiff⟩ := hwp.returns
    exact ⟨ret, out, L, hrun, hiff⟩
  have h3 : Reaches (phys s.mem) v 3 r 3 r := .refl 3 r
  -- above the page directory nothing can go wrong
  have hnone : ∀ {k : ℕ} {t : Word}, 1 < k → Reaches (phys s.mem) v 3 r k t →
      entry (phys s.mem) t (index k v) &&& presentBit = 0 →
      (LookupContract (phys s.mem) r v outPhys 0 outPhys ↔ LookupSafe (phys s.mem) r v) := by
    intro k t hk hr habs
    have hdec := decode_absent_iff (l := k).mpr habs
    refine iff_of_true (lookupContract_none ?_) fun u hu => ?_
    · rw [hr.walk_same fun i _ _ => rfl, slotWalk_absent hdec]
    · obtain ⟨s', hs'⟩ := hr.next hu hk
      rw [hdec] at hs'
      cases hs'
  rw [virtLookupPhys]
  simp only [pml4Index_eq, pdptIndex_eq, pdtIndex_eq, ptIndex_eq]
  rw [wp_bind, wp_loadEntry, wp_ite]
  refine ⟨fun hp3 => ⟨rfl, rfl, hnone (by norm_num) h3 hp3⟩, fun hp3 => ?_⟩
  have h2 := h3.snoc (decode_table (l := 2) (h.reached_form rfl h3) hp3 fun h0 => by cases h0)
  rw [wp_bind, wp_loadEntry, wp_ite]
  refine ⟨fun hp2 => ⟨rfl, rfl, hnone (by norm_num) h2 hp2⟩, fun hp2 => ?_⟩
  have h1 := h2.snoc (decode_table (l := 1) (h.reached_form rfl h2) hp2 fun h0 => by cases h0)
  have hsafe : LookupSafe (phys s.mem) r v ↔ _ :=
    ⟨fun hs => hs _ h1, fun hs u hu => hu.unique h1 ▸ hs⟩
  have hform := h.reached_form rfl h1
  rw [hsafe]
  show wp (loadEntry (physToVirt (pml4eToPdpt _)) _ >>= _) _ _ _
  rw [wp_bind, wp_loadEntry, wp_ite]
  refine ⟨fun hp1 => ⟨rfl, rfl, ?_⟩, fun hp1 => ?_⟩
  · have hdec := decode_absent_iff (l := 1).mpr hp1
    rw [hdec]
    refine iff_of_true (lookupContract_none ?_) trivial
    rw [h1.walk_same fun i _ _ => rfl, slotWalk_absent hdec]
  rw [wp_ite]
  constructor
  · intro hs
    have hdec := decode_large hform hp1 hs
    refine ⟨rfl, rfl, ?_⟩
    rw [hdec]
    refine (lookupContract_leaf (n := 2 ^ 21) ?_).trans (offset_eq_iff v)
    rw [h1.walk_same fun i _ _ => rfl, slotWalk_leaf hdec]
  · intro hs
    rw [not_not] at hs
    have hdec := decode_table (l := 0) hform hp1 fun _ => hs
    have h0 := h1.snoc hdec
    rw [hdec]
    show wp (loadEntry (physToVirt (pml4eToPdpt _)) _ >>= _) _ _ _
    rw [wp_bind, wp_loadEntry, wp_ite]
    refine ⟨fun hp0 => ⟨rfl, rfl, ?_⟩, fun hp0 => ⟨rfl, rfl, ?_⟩⟩
    · refine iff_of_true ((lookupContract_leaf (n := 2 ^ 12) ?_).mpr rfl) hp0
      rw [h0.walk_same fun i _ _ => rfl, slotWalk_leaf (decode_small (h.reached_form rfl h0) hp0)]
    · -- the lookup reports success at address 0
      refine iff_of_false (fun hc => ?_) hp0
      rw [not_not] at hp0
      refine hc.found.mp rfl (translation_eq_none.mpr ?_)
      rw [h0.walk_same fun i _ _ => rfl, slotWalk_absent (decode_absent_iff.mpr hp0)]

namespace Bump

/-- After one 4KiB page has been mapped at 0, the lookup of `0x1000` goes wrong. -/
theorem lookup_unmapped : ∃ s1 ret out s2, Built (allocator keep) (heap keep) 0x1000 s1 ∧
    virtLookupPhys 0x1000 0x1000 0xDEAD s1 = .ok ((ret, out), s2) ∧
    ¬ LookupContract (phys s1.mem) 0x1000 0x1000 0xDEAD ret out := by
  obtain ⟨s1, -, hb, hroom, hpage, hnone⟩ := map_first
  obtain ⟨u, t, i, hr, hd, -⟩ := shadows_first hb hroom hpage hnone
  obtain ⟨ret, out, L, hrun, hiff⟩ := virtLookupPhys_contract_iff freesKeep hb 0x1000 0xDEAD
  refine ⟨s1, ret, out, _, hb, hrun, fun hc => ?_⟩
  have hp := hiff.mp hc u hr
  rw [hd] at hp
  have h0 := hr.snoc hd
  have hleaf := decode_small ((hb.rooted freesKeep).reached_form rfl h0) hp
  rw [translation_eq_none, h0.walk_same fun i _ _ => rfl, slotWalk_leaf hleaf] at hnone
  cases hnone

/-- The lookup of an address in the page that is mapped. -/
theorem lookup_mapped : ∃ s1 L, translation (phys s1.mem) 0x1000 0x123 = some 0x600123 ∧
    virtLookupPhys 0x1000 0x123 0xDEAD s1
      = .ok ((1, 0x600123), (⟨s1.mem, s1.heap, L⟩ : Machine Bump)) ∧
    (LookupContract (phys s1.mem) 0x1000 0x123 0xDEAD 1 0x600123 ↔
      LookupSafe (phys s1.mem) 0x1000 0x123) := by
  obtain ⟨s1, -, hb, -, hpage, -⟩ := map_first
  have hsafe : LookupSafe (phys s1.mem) 0x1000 0x123 := by
    intro u hr
    cases hd : decode 1 (entry (phys s1.mem) u (index 1 0x123)) with
    | absent => trivial
    | leaf b n => exact (by decide : index 0 0x123 = 0)
    | table t =>
      intro hp
      rw [translation, (hr.snoc hd).walk_same fun i _ _ => rfl,
        slotWalk_absent (decode_absent_iff.mpr hp)] at hpage
      cases hpage
  obtain ⟨ret, out, L, hrun, hiff⟩ := virtLookupPhys_contract_iff freesKeep hb 0x123 0xDEAD
  have hcontract := hiff.mpr hsafe
  obtain rfl : ret = 1 := hcontract.found.mpr (by rw [hpage]; exact Option.some_ne_none _)
  obtain rfl : out = 0x600123 := hcontract.address _ hpage
  exact ⟨s1, L, hpage, hrun, hiff⟩

end Bump

end Bikeshed
