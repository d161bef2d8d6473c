import Bikeshed.PhysMemory.AllocRun

/-!
# When taking a page back panics

`phys_free_4KIB` panics when no pool is on the list, which is so after the last page of the last
listed pool has been handed out. A pool with all of its pages back goes onto `stack_2MIB` at an
address outside the direct map; such a chunk may lie on the stack or be in use as a whole, and
the free pages of the other pools are as they were.
-/

namespace Bikeshed.PhysAlloc

open Lib

variable {a c : Word} {p : PoolView} {l r listed full : List PoolView}
  {supply chunks large small : List Word} {map : List MMapEntry} {s s' : Phys Stack}

-- known by what is proved of its outcomes
attribute [local irreducible] physFree4KIB

/-! ## A chunk that changes its address -/

/-- The chunk is named by its virtual address. -/
def moved (supply : List Word) (c : Word) : List Word := physToVirt c :: supply.erase c

lemma Slots.moved (h : Slots supply) (hc : c ∈ supply) : Slots (moved supply c) := by
  have hperm : ((PhysAlloc.moved supply c).map place).Perm (supply.map place) := by
    rw [PhysAlloc.moved, List.map_cons, place_physToVirt, ← List.map_cons]
    exact (List.perm_cons_erase hc).symm.map place
  have hmem : ∀ b ∈ PhysAlloc.moved supply c, b = physToVirt c ∨ b ∈ supply := fun b hb =>
    (List.mem_cons.mp hb).imp_right List.mem_of_mem_erase
  refine ⟨hperm.nodup_iff.mpr h.places, fun b hb => ?_, fun b hb => ?_⟩
  · rcases hmem b hb with rfl | hb
    · exact dvd_physToVirt (h.aligned c hc)
    · exact h.aligned b hb
  · rcases hmem b hb with rfl | hb
    · rw [place_physToVirt]
      exact h.place_ne c hc
    · exact h.place_ne b hb

/-- The page that is given back is the only one in use. -/
lemma used_eq (hs : p.Sound) (ha : a ∈ p.used) (hsize : p.free.length = 510) : p.used = [a] := by
  have hlen := hs.length
  have hbump := hs.bump
  have hpos := List.length_pos_of_mem ha
  obtain ⟨b, hb⟩ := List.length_eq_one_iff.mp (show p.used.length = 1 by omega)
  rw [hb] at ha ⊢
  rw [List.mem_singleton.mp ha]

namespace AllocInv

/-- The account without the chunk of the pool `p`. -/
lemma account_moved (h : AllocInv supply s large small chunks (l ++ p :: r) full) :
    (chunks ++ ((l ++ r ++ full).map PoolView.base ++ physToVirt p.base :: large)).Perm
      (moved supply p.base) := by
  have hperm := (append_cons_perm l r full p).map PoolView.base
  rw [List.map_cons] at hperm
  have hbase : (chunks ++ ((l ++ r ++ full).map PoolView.base ++ large)).Perm
      (supply.erase p.base) := by
    have hall : (p.base :: (chunks ++ ((l ++ r ++ full).map PoolView.base ++ large))).Perm
        supply := by
      refine List.Perm.trans ?_ h.account
      exact List.perm_middle.symm.trans ((hperm.symm.append_right large).append_left chunks)
    have he := hall.erase p.base
    rwa [List.erase_cons_head] at he
  calc (chunks ++ ((l ++ r ++ full).map PoolView.base ++ physToVirt p.base :: large)).Perm
        (chunks ++ physToVirt p.base :: ((l ++ r ++ full).map PoolView.base ++ large)) :=
        List.perm_middle.append_left _
    _ |>.Perm (physToVirt p.base :: (chunks ++ ((l ++ r ++ full).map PoolView.base ++ large))) :=
        List.perm_middle
    _ |>.Perm (moved supply p.base) := hbase.cons _

/-- A pool with all of its pages back: its chunk is on the stack from now on. -/
theorem wp_free4_complete (hsup : Slots supply)
    (h : AllocInv supply s large small chunks (l ++ p :: r) full) (ha : a ∈ p.used)
    (hsize : p.free.length = 510) :
    wp (physFree4KIB stackSupply a)
      (fun _ s' => AllocInv (moved supply p.base) s' large (small.erase a)
        (physToVirt p.base :: chunks) (l ++ r) full) (fun _ => False) s := by
  have hmem : p ∈ l ++ p :: r := List.mem_append_right _ List.mem_cons_self
  have hmem' : p ∈ l ++ p :: r ++ full := List.mem_append_left _ hmem
  have hbase : p.base ∈ supply := h.mem_supply
    (List.mem_append_right _ (List.mem_append_left _ (List.mem_map_of_mem hmem')))
  refine wp_physFree4KIB_complete h.pools ha hsize fun s1 hch hpools htouch => ?_
  have hstack : ChunkStack (s1.chunks, s1.mem) chunks := h.keep_stack hsup hch htouch fun c hc => by
    obtain ⟨q, hq, rfl⟩ := List.mem_map.mp hc
    exact List.mem_map_of_mem (List.mem_append_left _ hq)
  have hsmall : (small.erase a).Perm (inUse (l ++ r ++ full)) := by
    have hgive := perm_give ha (h.small.trans (perm_inUse (append_cons_perm l r full p)))
    rwa [inUse_cons, PoolView.give, used_eq (h.pools.sound p hmem') ha hsize, List.erase_cons_head,
      List.nil_append] at hgive
  -- for `phys_free_2MIB` it is a chunk in use like any other
  have hinv : AllocInv (moved supply p.base) s1 (physToVirt p.base :: large) (small.erase a)
      chunks (l ++ r) full := ⟨hstack, hpools, h.account_moved, hsmall⟩
  have hfree := hinv.wp_free2 (hsup.moved hbase) List.mem_cons_self
  rwa [List.erase_cons_head] at hfree

/-- Every state and what the chunks in it are used for. -/
def Holds (s : Phys Stack) (large small : List Word) : Prop :=
  ∃ supply chunks listed full, Slots supply ∧ AllocInv supply s large small chunks listed full

/-- Taking a page back, whatever pools there are. -/
theorem wp_free4_any (hsup : Slots supply)
    (h : AllocInv supply s large small chunks listed full) (ha : a ∈ small) :
    wp (physFree4KIB stackSupply a)
      (fun _ s' => s.pool4KIB ≠ 0 ∧ Holds s' large (small.erase a))
      (fun _ => s.pool4KIB = 0) s := by
  rcases exists_pool_of_perm h.small ha with ⟨l, p, r, rfl, hap⟩ | ⟨l, p, r, rfl, hap⟩
  · have hne : s.pool4KIB ≠ 0 := h.pools.null_iff.not.mpr (by simp)
    by_cases hsize : p.free.length = 510
    · obtain ⟨_, s', hrun, hinv⟩ := (wp_free4_complete hsup h hap hsize).returns
      have hmem : p ∈ l ++ p :: r ++ full := by simp
      have hbase : p.base ∈ supply := h.mem_supply
        (List.mem_append_right _ (List.mem_append_left _ (List.mem_map_of_mem hmem)))
      exact wp_of_ok hrun ⟨hne, _, _, _, _, hsup.moved hbase, hinv⟩
    · obtain ⟨_, s', hrun, hinv⟩ := (wp_free4_listed hsup h hap hsize).returns
      exact wp_of_ok hrun ⟨hne, _, _, _, _, hsup, hinv⟩
  · cases listed with
    | nil =>
      have hbad : wp (physFree4KIB stackSupply a) _ _ s := wp_physFree4KIB_bad h.pools hap
      rw [wp_iff] at hbad ⊢
      exact ⟨fun _ _ hrun => (hbad.1 _ _ hrun).elim, fun _ _ => h.pools.null_iff.mpr rfl⟩
    | cons q listed =>
      have hne : s.pool4KIB ≠ 0 := h.pools.null_iff.not.mpr (List.cons_ne_nil _ _)
      obtain ⟨_, s', hrun, hinv⟩ := (wp_free4_join hsup h hap).returns
      exact wp_of_ok hrun ⟨hne, _, _, _, _, hsup, hinv⟩

end AllocInv

/-! ## Runs -/

/-- The next chunk that `phys_alloc_2MIB` hands out lies in the direct map. -/
def TopMapped (s : Phys Stack) : Prop :=
  s.chunks.size ≠ 0 → kernelBase.toNat ≤ s.chunks.top.toNat

/-- The runs in which pools are made of chunks in the direct map only. -/
inductive MappedRun (map : List MMapEntry) : Phys Stack → List Word → List Word → Prop
  | start (s : Phys Stack) : MappedRun map (setupPhysicalAllocator map s) [] []
  | alloc2 {s s' : Phys Stack} {large small : List Word} {c : Word} :
      MappedRun map s large small → onChunks physAlloc2MIB s = .ok (c, s') →
      MappedRun map s' (if c = 0 then large else c :: large) small
  | alloc4 {s s' : Phys Stack} {large small : List Word} {a : Word} :
      MappedRun map s large small → (s.pool4KIB = 0 → TopMapped s) →
      physAlloc4KIB stackSupply s = .ok (a, s') →
      MappedRun map s' large (if a = 0 then small else a :: small)
  | free2 {s s' : Phys Stack} {large small : List Word} {c : Word} :
      MappedRun map s large small → c ∈ large → onChunks (physFree2MIB c) s = .ok ((), s') →
      MappedRun map s' (large.erase c) small
  | free4 {s s' : Phys Stack} {large small : List Word} {a : Word} :
      MappedRun map s large small → a ∈ small → physFree4KIB stackSupply a s = .ok ((), s') →
      MappedRun map s' large (small.erase a)
  | write {s : Phys Stack} {large small : List Word} {m : Mem} :
      MappedRun map s large small →
      (∀ x, (∀ c ∈ large, ¬ (page2MIB c).Has x) → (∀ a ∈ small, ¬ (page4KIB a).Has x) →
        phys m x = phys s.mem x) → MappedRun map { s with mem := m } large small

/-- They are runs of the allocator. -/
lemma MappedRun.allocRun (h : MappedRun map s large small) :
    AllocRun anyFree map s large small := by
  induction h with
  | start s => exact .start s
  | alloc2 _ hrun ih => exact ih.alloc2 hrun
  | alloc4 _ _ hrun ih => exact ih.alloc4 hrun
  | free2 _ hc hrun ih => exact ih.free2 hc hrun
  | free4 _ ha hrun ih => exact ih.free4 ha trivial hrun
  | write _ hm ih => exact ih.write hm

lemma TopMapped.head_lt (h : TopMapped s) (hstack : ChunkStack (s.chunks, s.mem) chunks) :
    ∀ c ∈ chunks.head?, c.toNat < 2 ^ 47 := by
  intro c hc
  cases chunks with
  | nil => simp at hc
  | cons b chunks =>
    obtain rfl : b = c := Option.some_injective _ hc
    have hsize : s.chunks.size ≠ 0 := hstack.size_eq_zero_iff.not.mpr (List.cons_ne_nil _ _)
    have htop : s.chunks.top = physToVirt b := hstack.pop.1
    have hle := h hsize
    have hk : kernelBase.toNat = 0xFFFF800000000000 := by decide
    rw [htop, physToVirt, BitVec.toNat_add, hk] at hle
    omega

theorem MappedRun.holds (hmap : BootMap map) (h : MappedRun map s large small) :
    AllocInv.Holds s large small := by
  induction h with
  | start s => exact ⟨_, _, [], [], hmap.supplyOk.slots, allocInv_start hmap s⟩
  | alloc2 _ hrun ih =>
    obtain ⟨supply, chunks, listed, full, hsup, hinv⟩ := ih
    obtain ⟨chunks', hinv'⟩ := (hinv.wp_alloc2 hsup).ok hrun
    exact ⟨supply, chunks', listed, full, hsup, hinv'⟩
  | alloc4 _ htop hrun ih =>
    obtain ⟨supply, chunks, listed, full, hsup, hinv⟩ := ih
    have hlt := fun hnull => (htop hnull).head_lt hinv.stack
    obtain ⟨chunks', listed', full', hinv'⟩ := (hinv.wp_alloc4 hsup hlt).ok hrun
    rw [if_neg hinv'.small_ne_zero]
    exact ⟨supply, chunks', listed', full', hsup, hinv'⟩
  | free2 _ hc hrun ih =>
    obtain ⟨supply, chunks, listed, full, hsup, hinv⟩ := ih
    exact ⟨supply, _, listed, full, hsup, (hinv.wp_free2 hsup hc).ok hrun⟩
  | free4 _ ha hrun ih =>
    obtain ⟨supply, chunks, listed, full, hsup, hinv⟩ := ih
    exact ((hinv.wp_free4_any hsup ha).ok hrun).2
  | write _ hm ih =>
    obtain ⟨supply, chunks, listed, full, hsup, hinv⟩ := ih
    exact ⟨supply, chunks, listed, full, hsup, hinv.write hsup hm⟩

/-- A page in use is taken back without a panic if and only if some pool is on the list. -/
theorem physFree4KIB_ok_iff (hmap : BootMap map) (h : MappedRun map s large small)
    (ha : a ∈ small) :
    (∃ s', physFree4KIB stackSupply a s = .ok ((), s')) ↔ s.pool4KIB ≠ 0 := by
  obtain ⟨supply, chunks, listed, full, hsup, hinv⟩ := h.holds hmap
  have hwp := hinv.wp_free4_any hsup ha
  refine ⟨fun ⟨s', hrun⟩ => (hwp.ok hrun).1, fun hne => ?_⟩
  cases hrun : physFree4KIB stackSupply a s with
  | ok r => exact ⟨r.2, rfl⟩
  | error e =>
    rw [wp_iff] at hwp
    exact absurd (hwp.2 e hrun) hne

/-- The only page in use is the first of a new pool. -/
theorem physFree4KIB_ok_twoChunks :
    ∃ s, MappedRun twoChunks s [] [0x401000] ∧
      ((∃ s', physFree4KIB stackSupply 0x401000 s = .ok ((), s')) ↔ s.pool4KIB ≠ 0) := by
  have hstart := allocInv_start twoChunks_boot ⟨fun _ => 0, ⟨0, 0⟩, 0⟩
  have hsup := twoChunks_boot.supplyOk.slots
  rw [mapChunks_twoChunks] at hstart hsup
  have hnew := AllocInv.wp_alloc4_new (c := 0x400000) hsup hstart (by simp)
  obtain ⟨a, s, hrun, ha, -⟩ := hnew.returns
  have hpage : (newPool 0x400000).page 0 = 0x401000 := by decide
  have htop : TopMapped (setupPhysicalAllocator twoChunks ⟨fun _ => 0, ⟨0, 0⟩, 0⟩) := fun _ => by
    rw [show _ = physToVirt 0x400000 from hstart.stack.pop.1]
    decide
  rw [ha, hpage] at hrun
  have hall : MappedRun twoChunks s [] [0x401000] := .alloc4 (.start _) (fun _ => htop) hrun
  exact ⟨s, hall, physFree4KIB_ok_iff twoChunks_boot hall (List.mem_singleton.mpr rfl)⟩

/-- All 511 pages of the first pool are handed out, and one of them is given back. -/
theorem not_physFree4KIB_ok : ¬ ∀ map, BootMap map → ∀ s large small,
    AllocRun anyFree map s large small →
      ∀ a ∈ small, ∃ s', physFree4KIB stackSupply a s = .ok ((), s') := by
  intro hall
  obtain ⟨used, s, hrun, hinv⟩ := reached_full
  have hlen := (hinv.pools.sound ⟨0x400000, [], used, 511⟩ (by simp)).length
  obtain ⟨a, used', rfl⟩ := List.exists_cons_of_length_pos
    (show 0 < used.length by simp only [List.length_nil] at hlen; omega)
  obtain ⟨s', hfree⟩ := hall _ twoChunks_boot _ _ _ hrun a List.mem_cons_self
  have hbad : wp (physFree4KIB stackSupply a) _ _ s :=
    wp_physFree4KIB_bad (l := []) hinv.pools (List.mem_cons_self (a := a) (l := used'))
  exact hbad.ok hfree

end Bikeshed.PhysAlloc
