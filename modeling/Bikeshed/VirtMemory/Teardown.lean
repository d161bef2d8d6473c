import Bikeshed.VirtMemory.Isolation

/-!
# Teardown is exact

`virt_reset_table` and `virt_cleanup_table` give back every page below the user half of the
PML4 exactly once, through the free function of its size, and never read a table that is gone.
-/

namespace Bikeshed

open Lib

variable {α : Type} {A : PhysAllocator α} {H : PhysHeap A}

/-- No page is empty. -/
lemma slot_page_pos {P : Mem} {top : ℕ → Bool} : ∀ (l : ℕ) {e : Word} {p : Page},
    p ∈ slotTree P top l e → 0 < p.size
  | 0, e, p, hp => by
    cases hd : decode 0 e with
    | absent => simp [slotTree_absent hd] at hp
    | leaf a n =>
      obtain ⟨k, -, -, rfl, -⟩ := decode_leaf_dvd hd
      rw [slotTree_leaf hd, List.mem_singleton] at hp
      rw [hp]
      exact Nat.two_pow_pos _
    | table u => exact absurd hd decode_zero_ne_table
  | l + 1, e, p, hp => by
    cases hd : decode (l + 1) e with
    | absent => simp [slotTree_absent hd] at hp
    | leaf a n =>
      obtain ⟨k, -, -, rfl, -⟩ := decode_leaf_dvd hd
      rw [slotTree_leaf hd, List.mem_singleton] at hp
      rw [hp]
      exact Nat.two_pow_pos _
    | table u =>
      rw [slotTree_table hd, tree, List.mem_cons, List.mem_flatMap] at hp
      rcases hp with rfl | ⟨i, -, hp⟩
      · show 0 < 4096
        norm_num
      · exact slot_page_pos l hp

lemma blocks_pos {P : Mem} {top : ℕ → Bool} {l : ℕ} {t : Word} {b : Block}
    (hb : b ∈ blocks (tree P top l t)) : 0 < b.size := by
  obtain ⟨p, hp, rfl⟩ := List.mem_map.mp hb
  rw [tree, List.mem_cons, List.mem_flatMap] at hp
  rcases hp with rfl | ⟨i, -, hp⟩
  · show 0 < 4096
    norm_num
  · exact slot_page_pos l hp

/-- Between `s` and `s'` exactly the blocks `bs` were given back, each once, by the free function
of its size and with its base; no table was read after that. -/
def ExactlyFreed (bs : List Block) (s s' : Machine α) : Prop :=
  ∃ L, s'.log = s.log ++ L ∧ (freed L).Perm bs ∧ (freed L).Nodup ∧ ReadsLive L

/-- The blocks of outstanding pages are distinct. -/
lemma Holds.nodup {bs rest : List Block} {s : Machine α} (h : Holds H bs rest s)
    (hpos : ∀ b ∈ bs, 0 < b.size) : bs.Nodup := by
  refine (List.pairwise_append.mp h.disjoint).1.imp_of_mem fun {b c} hb _ hd => ?_
  exact hd.ne (hpos b hb)

lemma Releases.exactly {own bs : List Block} {L : List Event} {s s' : Machine α}
    (hL : s'.log = s.log ++ L) (h : Releases own bs L) (hnd : bs.Nodup) : ExactlyFreed bs s s' :=
  ⟨L, hL, h.freed, h.freed.nodup_iff.mpr hnd, h.live⟩

/-- What teardown does to the page table `r`, in every run that does not end in a panic. -/
structure TeardownExact (A : PhysAllocator α) (kernelTable r : Word) (s : Machine α) : Prop where
  cleanup : ∀ s', virtCleanupTable A r s = .ok ((), s') →
    ExactlyFreed (blocks (tree (phys s.mem) userHalf 3 r)) s s'
  reset : ∀ s', virtResetTable A kernelTable r s = .ok ((), s') →
    ExactlyFreed (blocks (tree (phys s.mem) userHalf 3 r).tail) s s' ∧
      (∀ i < 256, entry (phys s'.mem) r i = 0) ∧
      ∀ i, 256 ≤ i → i < 512 → entry (phys s'.mem) r i = entry (phys s.mem) r i
  clone : ∀ p s1 s2, virtCloneMapping A r s = .ok (p, s1) →
    virtCleanupTable A p s1 = .ok ((), s2) →
    ∃ L, s1.log = s.log ++ L ∧ freed L = [] ∧ ExactlyFreed (allocated L) s1 s2

/-- Teardown is exact, and it only panics if giving back an outstanding block does, or when it
is asked to reset the kernel's own table. -/
theorem teardown_exact (hf : H.FreesReturn) (kernelTable : Word) {r : Word} {s : Machine α}
    {rest : List Block} (hr : 4096 ∣ r.toNat)
    (hform : TableAll EntryForm (phys s.mem) userHalf 3 r) (hv : H.Valid s.heap s.mem)
    (hown : (H.own s.heap).Perm (blocks (tree (phys s.mem) userHalf 3 r) ++ rest)) :
    TeardownExact A kernelTable r s ∧
      (FreesAllowed H (fun _ => False) →
        (∃ s', virtCleanupTable A r s = .ok ((), s')) ∧
        (r ≠ kernelTable → ∃ s', virtResetTable A kernelTable r s = .ok ((), s'))) := by
  have hh : Holds H (blocks (tree (phys s.mem) userHalf 3 r)) rest s := ⟨hv, hown⟩
  refine ⟨⟨fun s' hrun => ?_, fun s' hrun => ?_, fun p s1 s2 hclone hrun => ?_⟩, fun hE => ⟨?_, ?_⟩⟩
  · obtain ⟨-, L, hL, hrel⟩ :=
      (wp_virtCleanupTable_log hf (.inl fun _ => trivial) hr hform hh).ok hrun
    exact hrel.exactly hL (hh.nodup fun b hb => blocks_pos hb)
  · obtain ⟨-, hreset, L, hL, hrel⟩ := (wp_virtResetTable_log hf (E := fun _ => True)
      (.inl fun _ => trivial) hr (fun _ _ => trivial) hform hh).ok hrun
    have htail : slotsUpTo (phys s.mem) userHalf 3 r 256
        = (tree (phys s.mem) userHalf 3 r).tail := by
      rw [tree_user_eq, List.tail_cons]
    rw [htail] at hrel
    have hnd : (blocks (tree (phys s.mem) userHalf 3 r).tail).Nodup :=
      (hh.nodup fun b hb => blocks_pos hb).sublist ((List.tail_sublist _).map _)
    exact ⟨hrel.exactly hL hnd, hreset.zero, fun i h1 h2 => hreset.same i h1 h2⟩
  · obtain ⟨hc, L, hL, hfree, hperm⟩ := (wp_virtCloneMapping_log (E := fun _ => True) hr hv hform
      (fun b hb => .of_mem (hown.mem_iff.mpr (List.mem_append_left _ hb)))
      (.inl fun _ => trivial)).ok hclone
    have hc1 : Holds H (blocks (tree (phys s1.mem) userHalf 3 p)) (H.own s.heap) s1 :=
      ⟨hc.valid, hc.own⟩
    obtain ⟨-, L', hL', hrel⟩ := (wp_virtCleanupTable_log hf (E := fun _ => True)
      (.inl fun _ => trivial) hc.aligned hc.form hc1).ok hrun
    -- what is outstanding beyond the old blocks is the clone, and is what was handed out
    have hsame : (blocks (tree (phys s1.mem) userHalf 3 p)).Perm (allocated L) :=
      (List.perm_append_right_iff _).mp (hc.own.symm.trans hperm)
    have hnd := hc1.nodup fun b hb => blocks_pos hb
    exact ⟨L, hL, hfree, L', hL', hrel.freed.trans hsame, hrel.freed.nodup_iff.mpr hnd, hrel.live⟩
  · obtain ⟨⟨⟩, s', hrun, -⟩ := (wp_virtCleanupTable_log hf hE hr hform hh).returns
    exact ⟨s', hrun⟩
  · intro hne
    obtain ⟨⟨⟩, s', hrun, -⟩ := (wp_virtResetTable_log hf hE hr
      (fun h => absurd h hne) hform hh).returns
    exact ⟨s', hrun⟩

/-- A page table with one page mapped, torn down: it returns, and all is given back. -/
theorem Bump.teardown_page : ∃ s1 s2,
    translation (phys s1.mem) 0x1000 0 ≠ none ∧
    virtCleanupTable (allocator release) 0x1000 s1 = .ok ((), s2) ∧
    ExactlyFreed (blocks (tree (phys s1.mem) userHalf 3 0x1000)) s1 s2 := by
  obtain ⟨ret, s1, hmap, -, hmapped, -⟩ := map_start
  have hr : Reach (allocator release) (heap release) 0x1000 ⟨start, [0x1000]⟩ :=
    .start valid_start (by decide) List.mem_cons_self fun i _ => load64_zero _
  have hinv := (hr.map (List.mem_singleton_self _) (by decide) hmap).inv freesReturn
  obtain ⟨rest, hfoc⟩ := hinv.focus (List.mem_singleton_self _)
  obtain ⟨hexact, hreturns⟩ := teardown_exact freesReturn 0 hfoc.aligned
    hfoc.form hfoc.valid hfoc.own
  obtain ⟨⟨s2, hrun⟩, -⟩ := hreturns (.inr fun a m p _ => ⟨fun _ => ⟨_, rfl⟩, fun _ => ⟨_, rfl⟩⟩)
  exact ⟨s1, s2, hmapped, hrun, hexact.cleanup s2 hrun⟩

end Bikeshed
