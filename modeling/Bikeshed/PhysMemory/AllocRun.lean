import Bikeshed.PhysMemory.Chunks
import Bikeshed.PhysMemory.PoolRun

/-!
# Both allocators over the memory map

The chunks of the map are on the stack, are pools, or have been handed out, and so they stay
until `phys_free_4KIB` gives a chunk back: it names the chunk by its virtual address, which
`phys_free_2MIB` takes for a physical one.
-/

namespace Bikeshed.PhysAlloc

open Lib

variable {a b c d : Word} {p q : PoolView} {l r listed full : List PoolView}
  {supply chunks large small nodes : List Word} {map : List MMapEntry} {s s' : Phys Stack}

-- known by what is proved of its outcomes
attribute [local irreducible] physFree4KIB

/-! ## The stack between calls -/

/-- The links of the stack are in the chunks. -/
lemma ChunkStack.keep {x : Stack} {m m' : Mem} (h : ChunkStack (x, m) nodes)
    (hdvd : ∀ c ∈ nodes, 2 ^ 21 ∣ c.toNat) (hkeep : KeepsChunks nodes m m') :
    ChunkStack (x, m') nodes :=
  StackAt.congr h fun c hc => by
    have hload : ∀ m : Mem, load64 m (physToVirt c) = load64 (phys m) c := fun m =>
      (phys_load64 m c).symm
    rw [hload, hload]
    exact load64_page (dvd_trans (by norm_num) (hdvd c hc)) fun x hx =>
      hkeep c hc x (has_chunk_of_record hx)

/-- What touches some chunks keeps the others. -/
lemma Touches.keeps {bs cs : List Word} {m m' : Mem} (h : Touches bs (phys m) (phys m'))
    (hbs : ∀ b ∈ bs, 2 ^ 21 ∣ b.toNat) (hcs : ∀ c ∈ cs, 2 ^ 21 ∣ c.toNat)
    (hdis : ∀ b ∈ bs, b ∉ cs) : KeepsChunks cs m m' := fun c hc x hx =>
  h x fun b hb => (Block.disjoint_of_dvd (hbs b hb) (hcs c hc)
    fun he => hdis b hb (he ▸ hc)).not_has hx

/-! ## The invariant -/

/-- The 2MiB chunks there are. -/
structure SupplyOk (supply : List Word) : Prop where
  nodup : supply.Nodup
  aligned : ∀ c ∈ supply, 2 ^ 21 ∣ c.toNat
  below : ∀ c ∈ supply, c.toNat + 2 ^ 21 ≤ 2 ^ 47
  ne_zero : ∀ c ∈ supply, c ≠ 0

/-- Adding `KERNEL_BASE` to the address of a chunk does not change its place. -/
def place (c : Word) : ℕ := c.toNat % 2 ^ 47

/-- A pointer and its physical address mean the same chunk. -/
lemma place_physToVirt (c : Word) : place (physToVirt c) = place c := by
  have hk : kernelBase.toNat = 0xFFFF800000000000 := by decide
  rw [place, place, physToVirt, BitVec.toNat_add, hk]
  omega

lemma physToVirt_ne_zero (h : place c ≠ 0) : physToVirt c ≠ 0 := by
  intro h0
  rw [← place_physToVirt, h0] at h
  exact h rfl

lemma dvd_physToVirt (h : 2 ^ 21 ∣ c.toNat) : 2 ^ 21 ∣ (physToVirt c).toNat := by
  have hk : kernelBase.toNat = 0xFFFF800000000000 := by decide
  rw [physToVirt, BitVec.toNat_add, hk]
  omega

/-- No two of the chunks have one place, but they need not lie in the direct map. -/
structure Slots (supply : List Word) : Prop where
  places : (supply.map place).Nodup
  aligned : ∀ c ∈ supply, 2 ^ 21 ∣ c.toNat
  place_ne : ∀ c ∈ supply, place c ≠ 0

lemma Slots.nodup (h : Slots supply) : supply.Nodup := h.places.of_map

lemma Slots.ne_zero (h : Slots supply) : ∀ c ∈ supply, c ≠ 0 := fun c hc h0 =>
  h.place_ne c hc (by rw [h0]; rfl)

/-- Chunks in the direct map have different places. -/
lemma SupplyOk.slots (h : SupplyOk supply) : Slots supply := by
  have hlt : ∀ c ∈ supply, place c = c.toNat := fun c hc => by
    have hbelow := h.below c hc
    exact Nat.mod_eq_of_lt (by omega)
  refine ⟨?_, h.aligned, fun c hc h0 => ?_⟩
  · rw [List.map_congr_left hlt]
    exact h.nodup.map fun a b => word_ext
  · rw [hlt c hc] at h0
    exact h.ne_zero c hc (word_ext h0)

/-- Every chunk is free, a pool or handed out as a whole. -/
structure AllocInv (supply : List Word) (s : Phys Stack) (large small chunks : List Word)
    (listed full : List PoolView) : Prop where
  stack : ChunkStack (s.chunks, s.mem) chunks
  pools : Pools (phys s.mem) s.pool4KIB listed full
  account : (chunks ++ ((listed ++ full).map PoolView.base ++ large)).Perm supply
  small : small.Perm (inUse (listed ++ full))

namespace AllocInv

variable (hsup : Slots supply) (h : AllocInv supply s large small chunks listed full)

include h in
/-- Chunks are those of the supply, wherever they are. -/
lemma mem_supply (hc : c ∈ chunks ++ ((listed ++ full).map PoolView.base ++ large)) : c ∈ supply :=
  h.account.mem_iff.mp hc

include h in
lemma top_lt (hbelow : SupplyOk supply) (hc : c ∈ chunks.head?) : c.toNat < 2 ^ 47 := by
  have hend := hbelow.below c (h.mem_supply (List.mem_append_left _ (List.mem_of_mem_head? hc)))
  omega

include hsup h in
/-- No chunk is in two places. -/
lemma nodup_account : (chunks ++ ((listed ++ full).map PoolView.base ++ large)).Nodup :=
  h.account.nodup_iff.mpr hsup.nodup

include hsup h in
lemma aligned_chunks : ∀ c ∈ chunks, 2 ^ 21 ∣ c.toNat := fun c hc =>
  hsup.aligned c (h.mem_supply (List.mem_append_left _ hc))

include hsup h in
/-- A pool's chunk is not on the stack. -/
lemma base_not_mem (hp : p ∈ listed ++ full) : p.base ∉ chunks := fun hc =>
  (List.nodup_append.mp (h.nodup_account hsup)).2.2 p.base hc p.base
    (List.mem_append_left _ (List.mem_map_of_mem hp)) rfl

include hsup h in
/-- The stack stays as it is while the pools change. -/
lemma keep_stack (hch : s'.chunks = s.chunks) {bs : List Word}
    (htouch : Touches bs (phys s.mem) (phys s'.mem))
    (hbs : ∀ c ∈ bs, c ∈ (listed ++ full).map PoolView.base) :
    ChunkStack (s'.chunks, s'.mem) chunks := by
  rw [hch]
  refine h.stack.keep (h.aligned_chunks hsup) (htouch.keeps (fun b hb => ?_)
    (h.aligned_chunks hsup) fun b hb => ?_)
  · obtain ⟨p, hp, rfl⟩ := List.mem_map.mp (hbs b hb)
    exact (h.pools.sound p hp).aligned
  · obtain ⟨p, hp, rfl⟩ := List.mem_map.mp (hbs b hb)
    exact h.base_not_mem hsup hp

/-! ## 2MiB blocks -/

/-- Without a chunk there is NULL. -/
lemma physAlloc2MIB_nil {x : Stack × Mem} (h : ChunkStack x []) : physAlloc2MIB x = .ok (0, x) := by
  have h0 : x.1.size = 0 := h.size_eq_zero_iff.mpr rfl
  have hpop : stackPop stack2MIB x = (0, x) := stackPop_empty h0
  rw [physAlloc2MIB, hpop]
  rfl

lemma physAlloc2MIB_cons {x : Stack × Mem} (h : ChunkStack x (c :: nodes)) (hc : place c ≠ 0) :
    ∃ t, physAlloc2MIB x = .ok (c, t, x.2) ∧ ChunkStack (t, x.2) nodes := by
  have hne : x.1.size ≠ 0 := h.size_eq_zero_iff.not.mpr (List.cons_ne_nil _ _)
  obtain ⟨htop, hrest⟩ := h.pop
  have hpop : stackPop stack2MIB x = (x.1.top, ⟨x.1.size - 1, load64 x.2 x.1.top⟩, x.2) :=
    stackPop_eq hne
  refine ⟨⟨x.1.size - 1, load64 x.2 x.1.top⟩, ?_, hrest⟩
  rw [physAlloc2MIB, hpop]
  simp only [htop, if_neg (physToVirt_ne_zero hc), virtToPhys_physToVirt]

include hsup h in
/-- A large block is a chunk from the stack, or NULL. -/
theorem wp_alloc2 : wp (onChunks physAlloc2MIB)
    (fun c s' => ∃ chunks, AllocInv supply s' (if c = 0 then large else c :: large) small chunks
      listed full) (fun _ => False) s := by
  cases chunks with
  | nil =>
    refine wp_of_ok (onChunks_ok (physAlloc2MIB_nil h.stack)) ⟨[], ?_⟩
    rw [if_pos rfl]
    exact h
  | cons c chunks =>
    have hc : c ∈ supply := h.mem_supply List.mem_cons_self
    obtain ⟨t, hrun, hstack⟩ := physAlloc2MIB_cons h.stack (hsup.place_ne c hc)
    refine wp_of_ok (onChunks_ok hrun) ⟨chunks, ?_⟩
    rw [if_neg (hsup.ne_zero c hc)]
    refine ⟨hstack, h.pools, ?_, h.small⟩
    refine List.Perm.trans ?_ h.account
    calc (chunks ++ ((listed ++ full).map PoolView.base ++ c :: large)).Perm
          (chunks ++ c :: ((listed ++ full).map PoolView.base ++ large)) :=
          List.perm_middle.append_left _
      _ |>.Perm (c :: chunks ++ ((listed ++ full).map PoolView.base ++ large)) :=
          List.perm_middle

include hsup h in
/-- A large block goes back on the stack. -/
theorem wp_free2 (hc : c ∈ large) : wp (onChunks (physFree2MIB c))
    (fun _ s' => AllocInv supply s' (large.erase c) small (c :: chunks) listed full)
    (fun _ => False) s := by
  have hcs : c ∈ supply := h.mem_supply (by simp [hc])
  have hdvd := hsup.aligned c hcs
  have hnd := h.nodup_account hsup
  have hnew : c ∉ chunks := fun hm =>
    (List.nodup_append.mp hnd).2.2 c hm c (List.mem_append_right _ hc) rfl
  have hmask : mask2MIB (physToVirt c) = physToVirt c := by
    have hdvd' := dvd_physToVirt hdvd
    apply word_ext
    rw [toNat_mask2MIB]
    omega
  have hlen : chunks.length + 1 < 2 ^ 64 := by
    have hall := length_lt_of_nodup hsup.nodup fun h0 => hsup.ne_zero 0 h0 rfl
    have hpos := List.length_pos_of_mem hc
    rw [← h.account.length_eq, List.length_append, List.length_append] at hall
    omega
  have hrun : physFree2MIB c (s.chunks, s.mem)
      = .ok ((), stackPush stack2MIB (physToVirt c) (s.chunks, s.mem)) := by
    rw [physFree2MIB, hmask]
    rfl
  have hstack := h.stack.push hlen hdvd (h.aligned_chunks hsup) hnew
  rw [stackPush_2MIB h.stack] at hrun hstack
  have hw : Touches [c] (phys s.mem) (phys (store64 s.mem (physToVirt c) s.chunks.top)) := by
    rw [phys_store64]
    have hw := within_store64 (P := phys s.mem) (dvd_trans (by norm_num) hdvd) (k := 0)
      (by norm_num) s.chunks.top
    rw [show c + BitVec.ofNat 64 (8 * 0) = c by simp] at hw
    exact hw.chunk.touches (List.mem_singleton.mpr rfl)
  refine wp_of_ok (onChunks_ok hrun) ⟨hstack, ?_, ?_, h.small⟩
  · refine h.pools.keeps (hw.keeps (fun b hb => ?_) (fun d hd => ?_) fun b hb hm => ?_)
    · rwa [List.mem_singleton.mp hb]
    · exact hsup.aligned d (h.mem_supply (List.mem_append_right _ (List.mem_append_left _ hd)))
    · rw [List.mem_singleton.mp hb] at hm
      exact (List.nodup_append.mp (List.nodup_append.mp hnd).2.1).2.2 c hm c hc rfl
  · refine List.Perm.trans ?_ h.account
    calc (c :: chunks ++ ((listed ++ full).map PoolView.base ++ large.erase c)).Perm
          (chunks ++ c :: ((listed ++ full).map PoolView.base ++ large.erase c)) :=
          List.perm_middle.symm
      _ |>.Perm (chunks ++ ((listed ++ full).map PoolView.base ++ c :: large.erase c)) :=
          List.perm_middle.symm.append_left _
      _ |>.Perm (chunks ++ ((listed ++ full).map PoolView.base ++ large)) :=
          ((List.perm_cons_erase hc).symm.append_left _).append_left _

/-! ## 4KiB pages -/

include hsup in
/-- A page comes from the first pool of the list. -/
theorem wp_alloc4_listed (h : AllocInv supply s large small chunks (p :: listed) full)
    (ht : p.take = some (a, q)) :
    wp (physAlloc4KIB stackSupply)
      (fun b s' => b = a ∧
        if q.isEmpty then AllocInv supply s' large (a :: small) chunks listed (q :: full)
        else AllocInv supply s' large (a :: small) chunks (q :: listed) full)
      (fun _ => False) s := by
  refine wp_mono (wp_physAlloc4KIB_listed h.pools ht) ?_
  rintro b s' ⟨rfl, hch, hw, hpools⟩
  have hstack := h.keep_stack hsup hch (hw.chunk.touches (List.mem_singleton.mpr rfl))
    fun c hc => by simp [List.mem_singleton.mp hc]
  have hout : (b :: small).Perm (inUse (q :: (listed ++ full))) := perm_take ht h.small
  have haccount : (chunks ++ ((q :: (listed ++ full)).map PoolView.base ++ large)).Perm supply := by
    rw [List.map_cons, PoolView.take_base ht]
    exact h.account
  refine ⟨rfl, ?_⟩
  split at hpools
  · rename_i he
    rw [if_pos he]
    refine ⟨hstack, hpools, ?_, hout.trans (perm_inUse List.perm_middle.symm)⟩
    exact (((List.perm_middle.map _).append_right _).append_left _).trans haccount
  · rename_i he
    rw [if_neg he]
    exact ⟨hstack, hpools, haccount, hout⟩

include hsup in
/-- The chunk on top of the stack becomes a pool. -/
theorem wp_alloc4_new (h : AllocInv supply s large small (c :: chunks) [] full)
    (hlt : c.toNat + 2 ^ 21 < 2 ^ 47) :
    wp (physAlloc4KIB stackSupply)
      (fun a s' => a = (newPool c).page 0 ∧
        AllocInv supply s' large (a :: small) chunks [⟨c, [], [a], 1⟩] full)
      (fun _ => False) s := by
  have hdvd := h.aligned_chunks hsup c List.mem_cons_self
  have hc := h.mem_supply List.mem_cons_self
  have hc0 := hsup.ne_zero c hc
  obtain ⟨t, hrun, hstack⟩ := physAlloc2MIB_cons h.stack (hsup.place_ne c hc)
  have hfresh : ∀ p ∈ full, p.base ≠ c := fun p hp he =>
    h.base_not_mem hsup hp (he ▸ List.mem_cons_self)
  refine wp_mono (wp_physAlloc4KIB_new h.pools hrun hc0 hdvd hlt hfresh h.pools) ?_
  rintro a s' ⟨rfl, hch, hw, hpools⟩
  refine ⟨rfl, ?_, hpools, ?_, ?_⟩
  · have hnd := h.nodup_account hsup
    rw [List.cons_append, List.nodup_cons] at hnd
    rw [hch]
    refine hstack.keep (fun d hd => h.aligned_chunks hsup d (List.mem_cons_of_mem _ hd))
      ((hw.chunk.touches (List.mem_singleton.mpr rfl)).keeps (fun d hd => ?_)
        (fun d hd => h.aligned_chunks hsup d (List.mem_cons_of_mem _ hd)) fun d hd hm => ?_)
    · rwa [List.mem_singleton.mp hd]
    · rw [List.mem_singleton.mp hd] at hm
      exact hnd.1 (List.mem_append_left _ hm)
  · exact List.perm_middle.trans h.account
  · exact h.small.cons _

include hsup in
/-- A chunk that becomes a pool has to lie in the direct map. -/
theorem wp_alloc4 (h : AllocInv supply s large small chunks listed full)
    (htop : s.pool4KIB = 0 → ∀ c ∈ chunks.head?, c.toNat < 2 ^ 47) :
    wp (physAlloc4KIB stackSupply)
      (fun a s' => ∃ chunks listed full, AllocInv supply s' large (a :: small) chunks listed full)
      (fun _ => True) s := by
  cases listed with
  | cons p listed =>
    obtain ⟨a, q, ht⟩ := PoolView.take_isSome (h.pools.available p List.mem_cons_self).2
      (h.pools.sound p List.mem_cons_self).bump
    obtain ⟨b, s', hrun, rfl, hinv⟩ := (wp_alloc4_listed hsup h ht).returns
    refine wp_of_ok hrun ?_
    split at hinv
    · exact ⟨chunks, listed, q :: full, hinv⟩
    · exact ⟨chunks, q :: listed, full, hinv⟩
  | nil =>
    have hnull : s.pool4KIB = 0 := h.pools.null_iff.mpr rfl
    cases chunks with
    | nil =>
      rw [physAlloc4KIB, ensurePool, wp_bind, wp_bind, wp_get, if_pos hnull, wp_bind]
      refine wp_of_ok (onChunks_ok (physAlloc2MIB_nil h.stack)) ?_
      rw [if_pos rfl]
      exact wp_panicWith.mpr trivial
    | cons c chunks =>
      have hc : c ∈ supply := h.mem_supply List.mem_cons_self
      have hdvd := hsup.aligned c hc
      have hbelow := htop hnull c rfl
      by_cases hlt : c.toNat + 2 ^ 21 < 2 ^ 47
      · obtain ⟨a, s', hrun, -, hinv⟩ := (wp_alloc4_new hsup h hlt).returns
        exact wp_of_ok hrun ⟨chunks, _, full, hinv⟩
      · obtain ⟨t, hrun, -⟩ := physAlloc2MIB_cons h.stack (hsup.place_ne c hc)
        have hlast : wp (physAlloc4KIB stackSupply) _ _ s := wp_physAlloc4KIB_last hnull hrun
          (hsup.ne_zero c hc) (dvd_trans (by norm_num) hdvd) (by omega)
        rw [wp_iff] at hlast ⊢
        exact ⟨fun _ _ hok => (hlast.1 _ _ hok).elim, fun _ _ => trivial⟩

include hsup in
/-- A page of a listed pool comes back. -/
theorem wp_free4_listed (h : AllocInv supply s large small chunks (l ++ p :: r) full)
    (ha : a ∈ p.used) (hsize : p.free.length ≠ 510) :
    wp (physFree4KIB stackSupply a)
      (fun _ s' => AllocInv supply s' large (small.erase a) chunks (l ++ p.give a :: r) full)
      (fun _ => False) s := by
  have hperm := append_cons_perm l r full
  refine wp_mono (wp_physFree4KIB_listed h.pools ha hsize) ?_
  rintro - s' ⟨hch, hw, hpools⟩
  refine ⟨?_, hpools, ?_, ?_⟩
  · exact h.keep_stack hsup hch (hw.touches (List.mem_singleton.mpr rfl)) fun c hc => by
      simp [List.mem_singleton.mp hc]
  · have hbase : (l ++ p.give a :: r ++ full).map PoolView.base
        = (l ++ p :: r ++ full).map PoolView.base := by simp
    rw [hbase]
    exact h.account
  · have hout := perm_give ha (h.small.trans (perm_inUse (hperm p)))
    exact hout.trans (perm_inUse (hperm (p.give a)).symm)

include hsup in
/-- A page of a pool that had none left: the pool joins the list. -/
theorem wp_free4_join (h : AllocInv supply s large small chunks (q :: listed) (l ++ p :: r))
    (ha : a ∈ p.used) :
    wp (physFree4KIB stackSupply a)
      (fun _ s' => AllocInv supply s' large (small.erase a) chunks (p.give a :: q :: listed)
        (l ++ r))
      (fun _ => False) s := by
  have hperm := append_append_cons_perm (q :: listed) l r p
  refine wp_mono (wp_physFree4KIB_join h.pools ha) ?_
  rintro - s' ⟨hch, htouch, hpools⟩
  refine ⟨?_, hpools, ?_, ?_⟩
  · exact h.keep_stack hsup hch htouch fun c hc => by
      simp only [List.mem_cons, List.not_mem_nil, or_false] at hc
      rcases hc with rfl | rfl <;> simp
  · refine List.Perm.trans ?_ h.account
    refine (List.Perm.append_right _ ?_).append_left _
    exact (hperm.map PoolView.base).symm
  · exact perm_give ha (h.small.trans (perm_inUse hperm))

end AllocInv

/-! ## The condition -/

/-- `phys_free_4KIB(a)` finds the page's pool on the list, with 510 free pages on its stack: it
gives the pool's chunk back. -/
def Completes (s : Phys Stack) (a : Word) : Prop :=
  s.onList (mask2MIB (physToVirt a)) ≠ 0 ∧ s.field (mask2MIB (physToVirt a)) .size = 510

/-- It is the last page that a listed pool is missing. -/
lemma completes_iff (h : Pools (phys s.mem) s.pool4KIB (l ++ p :: r) full) (ha : a ∈ p.used) :
    Completes s a ↔ p.free.length = 510 := by
  have hmem : p ∈ l ++ p :: r := List.mem_append_right _ List.mem_cons_self
  have hs := h.sound p (List.mem_append_left _ hmem)
  have hp := (h.available p hmem).1
  have hlen := hs.length
  have hbump := hs.bump
  have hflag : s.onList (physToVirt p.base) = 1 := by
    rw [onList_header]
    exact hp.onList
  have hsize : s.field (physToVirt p.base) .size = 510 ↔ p.free.length = 510 := by
    rw [field_header rfl, hp.size, ← BitVec.toNat_inj, toNat_ofNat_lt (by omega)]
    rfl
  rw [Completes, physFree4KIB_pool hs ha, hflag, hsize]
  exact and_iff_right (by decide)

namespace AllocInv

/-- Any page that is handed out, unless it completes a pool -/
theorem wp_free4 (hsup : Slots supply) (h : AllocInv supply s large small chunks listed full)
    (ha : a ∈ small) (hok : ¬ Completes s a) :
    wp (physFree4KIB stackSupply a)
      (fun _ s' => ∃ listed full, AllocInv supply s' large (small.erase a) chunks listed full)
      (fun _ => True) s := by
  rcases exists_pool_of_perm h.small ha with ⟨l, p, r, rfl, hap⟩ | ⟨l, p, r, rfl, hap⟩
  · rw [completes_iff h.pools hap] at hok
    obtain ⟨_, s', hrun, hinv⟩ := (wp_free4_listed hsup h hap hok).returns
    exact wp_of_ok hrun ⟨_, _, hinv⟩
  · cases listed with
    | nil =>
      have hbad : wp (physFree4KIB stackSupply a) _ _ s := wp_physFree4KIB_bad h.pools hap
      rw [wp_iff] at hbad ⊢
      exact ⟨fun _ _ hrun => (hbad.1 _ _ hrun).elim, fun _ _ => trivial⟩
    | cons q listed =>
      obtain ⟨_, s', hrun, hinv⟩ := (wp_free4_join hsup h hap).returns
      exact wp_of_ok hrun ⟨_, _, hinv⟩

/-- Clients write into their own blocks. -/
theorem write (hsup : Slots supply) (h : AllocInv supply s large small chunks listed full)
    {m : Mem} (hm : ∀ x, (∀ c ∈ large, ¬ (page2MIB c).Has x) → (∀ a ∈ small, ¬ (page4KIB a).Has x) →
      phys m x = phys s.mem x) :
    AllocInv supply { s with mem := m } large small chunks listed full := by
  have hused : ∀ a ∈ small, ∃ p ∈ listed ++ full, a ∈ p.used := fun a ha => by
    have hmem := h.small.mem_iff.mp ha
    rwa [inUse, List.mem_flatMap] at hmem
  have hnd := h.nodup_account hsup
  have hlarge : ∀ c ∈ large, ∀ d, d ∈ supply → d ∉ large → ∀ x, (page2MIB d).Has x →
      ¬ (page2MIB c).Has x := fun c hc d hd hdl x hx =>
    (Block.disjoint_of_dvd (hsup.aligned c (h.mem_supply (by simp [hc]))) (hsup.aligned d hd)
      fun he => hdl (he ▸ hc)).not_has hx
  have hbase : ∀ p ∈ listed ++ full, p.base ∈ supply ∧ p.base ∉ large := fun p hp => by
    have hb : p.base ∈ (listed ++ full).map PoolView.base := List.mem_map_of_mem hp
    refine ⟨h.mem_supply (List.mem_append_right _ (List.mem_append_left _ hb)), fun hl => ?_⟩
    exact (List.nodup_append.mp (List.nodup_append.mp hnd).2.1).2.2 _ hb _ hl rfl
  refine ⟨h.stack.keep (h.aligned_chunks hsup) fun c hc x hx => hm x (fun d hd => ?_)
    fun a ha hxa => ?_, h.pools.congr fun p hp => ⟨fun x hx => hm x (fun d hd => ?_)
    fun a ha hxa => ?_, fun b hb x hx => hm x (fun d hd => ?_) fun a ha hxa => ?_⟩, h.account,
    h.small⟩
  · refine hlarge d hd c (h.mem_supply (List.mem_append_left _ hc)) (fun hl => ?_) x hx
    exact (List.nodup_append.mp hnd).2.2 c hc c (List.mem_append_right _ hl) rfl
  · -- a page in use lies in the chunk of a pool
    obtain ⟨q, hq, haq⟩ := hused a ha
    have hqs := h.pools.sound q hq
    refine (Block.disjoint_of_dvd (h.aligned_chunks hsup c hc) hqs.aligned fun he => ?_).not_has
      (hqs.has_of_page (List.mem_append_right _ haq) hxa) hx
    exact h.base_not_mem hsup hq (he ▸ hc)
  · exact hlarge d hd p.base (hbase p hp).1 (hbase p hp).2 x (has_chunk_of_record hx)
  · obtain ⟨q, hq, haq⟩ := hused a ha
    exact ((h.pools.sound q hq).disjoint_record (List.mem_append_right _ haq)
      (h.pools.sound p hp).aligned).not_has hxa hx
  · exact hlarge d hd p.base (hbase p hp).1 (hbase p hp).2 x
      ((h.pools.sound p hp).has_of_page (List.mem_append_left _ hb) hx)
  · obtain ⟨q, hq, haq⟩ := hused a ha
    exact (h.pools.page_disjoint hp hq hb haq).not_has hxa hx

end AllocInv

/-! ## Runs -/

/-- The memory map a run starts from. -/
structure BootMap (map : List MMapEntry) : Prop extends MapOk map where
  noneAtZero : ∀ e ∈ map, e.type = typeUsable → e.base = 0 → e.length.toNat < 2 ^ 21

/-- The chunks of a map are such a supply. -/
lemma BootMap.supplyOk (h : BootMap map) : SupplyOk (mapChunks map) := by
  refine ⟨nodup_mapChunks h.toMapOk, fun c hc => ((mem_mapChunks h.toMapOk).mp hc).1,
    fun c hc => ?_, fun c hc h0 => ?_⟩
  · obtain ⟨-, e, he, hu, -, hle⟩ := (mem_mapChunks h.toMapOk).mp hc
    exact hle.trans (h.below e he hu)
  · obtain ⟨-, e, he, hu, hge, hle⟩ := (mem_mapChunks h.toMapOk).mp hc
    rw [h0] at hge hle
    have hz : (0 : Word).toNat = 0 := rfl
    have hbase : e.base = 0 := word_ext (by omega)
    have hlen := h.noneAtZero e he hu hbase
    rw [hbase] at hle
    omega

/-- `s` is reached from `setup_physical_allocator`, with the blocks `large` and `small` in use.
Frees of pages are subject to `ok`. -/
inductive AllocRun (ok : Phys Stack → Word → Prop) (map : List MMapEntry) :
    Phys Stack → List Word → List Word → Prop
  | start (s : Phys Stack) : AllocRun ok map (setupPhysicalAllocator map s) [] []
  | alloc2 {s s' : Phys Stack} {large small : List Word} {c : Word} :
      AllocRun ok map s large small → onChunks physAlloc2MIB s = .ok (c, s') →
      AllocRun ok map s' (if c = 0 then large else c :: large) small
  | alloc4 {s s' : Phys Stack} {large small : List Word} {a : Word} :
      AllocRun ok map s large small → physAlloc4KIB stackSupply s = .ok (a, s') →
      AllocRun ok map s' large (if a = 0 then small else a :: small)
  | free2 {s s' : Phys Stack} {large small : List Word} {c : Word} :
      AllocRun ok map s large small → c ∈ large → onChunks (physFree2MIB c) s = .ok ((), s') →
      AllocRun ok map s' (large.erase c) small
  | free4 {s s' : Phys Stack} {large small : List Word} {a : Word} :
      AllocRun ok map s large small → a ∈ small → ok s a →
      physFree4KIB stackSupply a s = .ok ((), s') → AllocRun ok map s' large (small.erase a)
  | write {s : Phys Stack} {large small : List Word} {m : Mem} :
      AllocRun ok map s large small →
      (∀ x, (∀ c ∈ large, ¬ (page2MIB c).Has x) → (∀ a ∈ small, ¬ (page4KIB a).Has x) →
        phys m x = phys s.mem x) → AllocRun ok map { s with mem := m } large small

/-- What is asked of a block of `n` bytes that is handed out. -/
structure Placed (map : List MMapEntry) (large small : List Word) (b : Word) (n : ℕ) : Prop where
  aligned : n ∣ b.toNat
  inside : Inside map b n
  large : ∀ c ∈ large, (page2MIB c).Disjoint ⟨b, n⟩
  small : ∀ a ∈ small, (page4KIB a).Disjoint ⟨b, n⟩

/-- Both functions return blocks of their size, or NULL. -/
def AllocatesWell (map : List MMapEntry) (s : Phys Stack) (large small : List Word) : Prop :=
  (∀ c s', onChunks physAlloc2MIB s = .ok (c, s') → c ≠ 0 → Placed map large small c (2 ^ 21)) ∧
    ∀ a s', physAlloc4KIB stackSupply s = .ok (a, s') → a ≠ 0 → Placed map large small a 4096

namespace AllocInv

/-- A large block is apart from everything else. -/
lemma placed_large (hsup : Slots supply) (hin : ∀ c ∈ supply, Inside map c (2 ^ 21))
    (h : AllocInv supply s (c :: large) small chunks listed full) :
    Placed map large small c (2 ^ 21) := by
  have hc : c ∈ supply := h.mem_supply (by simp)
  obtain ⟨-, hnd, -⟩ := List.nodup_append.mp (h.nodup_account hsup)
  obtain ⟨-, hlarge, hdis⟩ := List.nodup_append.mp hnd
  refine ⟨hsup.aligned c hc, hin c hc, fun d hd => ?_, fun a ha => ?_⟩
  · refine Block.disjoint_of_dvd (hsup.aligned d (h.mem_supply (by simp [hd])))
      (hsup.aligned c hc) ?_
    rintro rfl
    exact (List.nodup_cons.mp hlarge).1 hd
  · have hmem := h.small.mem_iff.mp ha
    rw [inUse, List.mem_flatMap] at hmem
    obtain ⟨p, hp, hap⟩ := hmem
    have hps := h.pools.sound p hp
    have hpc : p.base ≠ c := hdis _ (List.mem_map_of_mem hp) _ List.mem_cons_self
    obtain ⟨-, h1, h2⟩ := hps.toNat_mem (List.mem_append_right _ hap)
    rcases Block.disjoint_of_dvd hps.aligned (hsup.aligned c hc) hpc with hd | hd
    · exact .inl (by dsimp only at hd ⊢; omega)
    · exact .inr (by dsimp only at hd ⊢; omega)

lemma nodup_inUse {P : Mem} {head : Word} (h : Pools P head listed full) :
    (inUse (listed ++ full)).Nodup := by
  rw [inUse, List.nodup_flatMap]
  refine ⟨fun p hp => (List.nodup_append.mp (h.sound p hp).nodup).2.1, ?_⟩
  have hne := List.pairwise_map.mp h.distinct
  refine hne.imp_of_mem fun {p q} hp hq hpq => ?_
  refine List.disjoint_left.mpr ?_
  intro a ha hb
  have hps := h.sound p hp
  have hqs := h.sound q hq
  obtain ⟨-, h1, h2⟩ := hps.toNat_mem (List.mem_append_right _ ha)
  obtain ⟨-, h3, h4⟩ := hqs.toNat_mem (List.mem_append_right _ hb)
  rcases Block.disjoint_of_dvd hps.aligned hqs.aligned hpq with hd | hd
  · dsimp only at hd
    omega
  · dsimp only at hd
    omega

/-- So is a small one. -/
lemma placed_small (hsup : Slots supply) (hin : ∀ c ∈ supply, Inside map c (2 ^ 21))
    (h : AllocInv supply s large (a :: small) chunks listed full) :
    Placed map large small a 4096 := by
  have hnd := h.small.nodup_iff.mpr (nodup_inUse h.pools)
  have hused : ∀ b ∈ a :: small, ∃ p ∈ listed ++ full, b ∈ p.used := fun b hb => by
    have hmem := h.small.mem_iff.mp hb
    rwa [inUse, List.mem_flatMap] at hmem
  obtain ⟨p, hp, hap⟩ := hused a List.mem_cons_self
  have hps := h.pools.sound p hp
  have hpb : p.base ∈ (listed ++ full).map PoolView.base := List.mem_map_of_mem hp
  have hpsup : p.base ∈ supply :=
    h.mem_supply (List.mem_append_right _ (List.mem_append_left _ hpb))
  obtain ⟨hdvd, h1, h2⟩ := hps.toNat_mem (List.mem_append_right _ hap)
  obtain ⟨-, hacc, -⟩ := List.nodup_append.mp (h.nodup_account hsup)
  refine ⟨hdvd, ?_, fun d hd => ?_, fun b hb => ?_⟩
  · obtain ⟨e, he, hu, hge, hle⟩ := hin _ hpsup
    exact ⟨e, he, hu, by omega, by omega⟩
  · have hpd : d ≠ p.base := fun he => (List.nodup_append.mp hacc).2.2 _ hpb _ hd he.symm
    have hda := hsup.aligned d (h.mem_supply (by simp [hd]))
    rcases Block.disjoint_of_dvd hda hps.aligned hpd with hdis | hdis
    · exact .inl (by dsimp only at hdis ⊢; omega)
    · exact .inr (by dsimp only at hdis ⊢; omega)
  · obtain ⟨q, hq, hbq⟩ := hused b (List.mem_cons_of_mem a hb)
    have hbdvd := ((h.pools.sound q hq).toNat_mem (List.mem_append_right _ hbq)).1
    refine Block.disjoint_of_dvd hbdvd hdvd ?_
    rintro rfl
    exact (List.nodup_cons.mp hnd).1 hb

end AllocInv

lemma allocInv_start (h : BootMap map) (s : Phys Stack) :
    AllocInv (mapChunks map) (setupPhysicalAllocator map s) [] []
      (mapChunks map).reverse [] [] := by
  obtain ⟨hnull, hstack⟩ := setup_chunkStack h.toMapOk s
  refine ⟨hstack, ⟨hnull, List.isChain_nil, ?_, ?_, ?_, List.nodup_nil⟩, ?_, .nil⟩
  · exact fun p hp => absurd hp List.not_mem_nil
  · exact fun p hp => absurd hp List.not_mem_nil
  · exact fun p hp => absurd hp List.not_mem_nil
  · show ((mapChunks map).reverse ++ []).Perm (mapChunks map)
    rw [List.append_nil]
    exact List.reverse_perm _

/-- Pages handed out are not NULL. -/
lemma AllocInv.small_ne_zero (h : AllocInv supply s large (a :: small) chunks listed full) :
    a ≠ 0 := by
  have hmem := h.small.mem_iff.mp List.mem_cons_self
  rw [inUse, List.mem_flatMap] at hmem
  obtain ⟨p, hp, hap⟩ := hmem
  obtain ⟨-, h1, -⟩ := (h.pools.sound p hp).toNat_mem (List.mem_append_right _ hap)
  rintro rfl
  have hz : (0 : Word).toNat = 0 := rfl
  omega

/-- In runs without a completing free everything is in order. -/
theorem AllocRun.inv (hmap : BootMap map)
    (h : AllocRun (fun s a => ¬ Completes s a) map s large small) :
    ∃ chunks listed full, AllocInv (mapChunks map) s large small chunks listed full := by
  have hsup := hmap.supplyOk.slots
  induction h with
  | start s => exact ⟨_, [], [], allocInv_start hmap s⟩
  | alloc2 _ hrun ih =>
    obtain ⟨chunks, listed, full, hinv⟩ := ih
    obtain ⟨chunks', hinv'⟩ := (hinv.wp_alloc2 hsup).ok hrun
    exact ⟨chunks', listed, full, hinv'⟩
  | alloc4 _ hrun ih =>
    obtain ⟨chunks, listed, full, hinv⟩ := ih
    have htop : ∀ c ∈ chunks.head?, c.toNat < 2 ^ 47 := fun _ =>
      hinv.top_lt hmap.supplyOk
    obtain ⟨chunks', listed', full', hinv'⟩ := (hinv.wp_alloc4 hsup fun _ => htop).ok hrun
    rw [if_neg hinv'.small_ne_zero]
    exact ⟨chunks', listed', full', hinv'⟩
  | free2 _ hc hrun ih =>
    obtain ⟨chunks, listed, full, hinv⟩ := ih
    exact ⟨_, listed, full, (hinv.wp_free2 hsup hc).ok hrun⟩
  | free4 _ ha hok hrun ih =>
    obtain ⟨chunks, listed, full, hinv⟩ := ih
    obtain ⟨listed', full', hinv'⟩ := (hinv.wp_free4 hsup ha hok).ok hrun
    exact ⟨chunks, listed', full', hinv'⟩
  | write _ hm ih =>
    obtain ⟨chunks, listed, full, hinv⟩ := ih
    exact ⟨chunks, listed, full, hinv.write hsup hm⟩

/-- 4MiB of memory from 2MiB on. -/
def twoChunks : List MMapEntry := [⟨0x200000, 0x400000, typeUsable⟩]

lemma twoChunks_boot : BootMap twoChunks := by
  refine ⟨⟨fun e he _ => ?_, List.pairwise_singleton _ _⟩, fun e he _ h0 => ?_⟩
  · rw [List.mem_singleton.mp he]
    simp
  · rw [List.mem_singleton.mp he] at h0
    exact absurd h0 (by decide)

lemma mapChunks_twoChunks : mapChunks twoChunks = [0x200000, 0x400000] := by decide

/-- As long as no pool gets all of its pages back, both functions hand out blocks of the memory
map that are not in use. -/
theorem allocatesWell_of_not_completes (hmap : BootMap map)
    (h : AllocRun (fun s a => ¬ Completes s a) map s large small) :
    AllocatesWell map s large small := by
  have hsup := hmap.supplyOk.slots
  have hin : ∀ c ∈ mapChunks map, Inside map c (2 ^ 21) := fun c hc =>
    ((mem_mapChunks hmap.toMapOk).mp hc).2
  obtain ⟨chunks, listed, full, hinv⟩ := h.inv hmap
  refine ⟨fun c s' hrun hne => ?_, fun a s' hrun hne => ?_⟩
  · obtain ⟨chunks', hinv'⟩ := (hinv.wp_alloc2 hsup).ok hrun
    rw [if_neg hne] at hinv'
    exact hinv'.placed_large hsup hin
  · have htop : ∀ c ∈ chunks.head?, c.toNat < 2 ^ 47 := fun _ =>
      hinv.top_lt hmap.supplyOk
    obtain ⟨chunks', listed', full', hinv'⟩ := (hinv.wp_alloc4 hsup fun _ => htop).ok hrun
    exact hinv'.placed_small hsup hin

/-- After two pages have been handed out and the first of them has been given back. -/
theorem allocatesWell_freed :
    ∃ s, AllocRun (fun s a => ¬ Completes s a) twoChunks s [] [0x402000] ∧
      AllocatesWell twoChunks s [] [0x402000] := by
  have hstart := allocInv_start twoChunks_boot ⟨fun _ => 0, ⟨0, 0⟩, 0⟩
  have hsup := twoChunks_boot.supplyOk.slots
  rw [mapChunks_twoChunks] at hstart hsup
  have hfirst : (newPool 0x400000).page 0 = 0x401000 := by decide
  have hsecond : (⟨0x400000, [], [0x401000], 1⟩ : PoolView).page 1 = 0x402000 := by decide
  obtain ⟨a, s1, hrun1, rfl, hinv1⟩ :=
    (AllocInv.wp_alloc4_new (c := 0x400000) hsup hstart (by simp)).returns
  rw [hfirst] at hrun1 hinv1
  have htake := PoolView.take_fresh 0x400000 [0x401000] (n := 1) (by norm_num)
  rw [hsecond] at htake
  obtain ⟨a, s2, hrun2, rfl, hinv2⟩ := (hinv1.wp_alloc4_listed hsup htake).returns
  rw [if_neg (fun he => absurd he.2 (by decide))] at hinv2
  have hused : (0x401000 : Word) ∈ [0x402000, 0x401000] := by decide
  -- one page is free after this, not 511
  have hnot : ¬ Completes s2 0x401000 :=
    (completes_iff (l := []) hinv2.pools hused).not.mpr (by decide)
  obtain ⟨_, s3, hrun3, -⟩ :=
    (AllocInv.wp_free4_listed (l := []) hsup hinv2 hused (by decide)).returns
  have hall : AllocRun (fun s a => ¬ Completes s a) twoChunks s3 [] [0x402000] :=
    (((AllocRun.start _).alloc4 hrun1).alloc4 hrun2).free4 hused hnot hrun3
  exact ⟨s3, hall, allocatesWell_of_not_completes twoChunks_boot hall⟩

/-! ## A pool that gets all of its pages back -/

abbrev anyFree : Phys Stack → Word → Prop := fun _ _ => True

/-- A reachable state, by what its chunks are used for. -/
def Reached (small chunks : List Word) (listed full : List PoolView) : Prop :=
  ∃ s, AllocRun anyFree twoChunks s [] small ∧
    AllocInv [0x200000, 0x400000] s [] small chunks listed full

lemma slots_twoChunks : Slots [0x200000, 0x400000] :=
  mapChunks_twoChunks ▸ twoChunks_boot.supplyOk.slots

lemma reached_start : Reached [] [0x400000, 0x200000] [] [] := by
  have h := allocInv_start twoChunks_boot ⟨fun _ => 0, ⟨0, 0⟩, 0⟩
  rw [mapChunks_twoChunks] at h
  exact ⟨_, .start _, h⟩

lemma Reached.alloc_new {small chunks : List Word} {full : List PoolView} {c : Word}
    (h : Reached small (c :: chunks) [] full) (hlt : c.toNat + 2 ^ 21 < 2 ^ 47) :
    ∃ a, Reached (a :: small) chunks [⟨c, [], [a], 1⟩] full := by
  obtain ⟨s, hrun, hinv⟩ := h
  obtain ⟨a, s', ha, -, hinv'⟩ := (hinv.wp_alloc4_new slots_twoChunks hlt).returns
  have hrun' := hrun.alloc4 ha
  rw [if_neg hinv'.small_ne_zero] at hrun'
  exact ⟨a, s', hrun', hinv'⟩

/-- All pages of the first pool are handed out. -/
lemma reached_taken (n : ℕ) (hn : n < 510) : ∃ used,
    Reached used [0x200000] [⟨0x400000, [], used, n + 1⟩] [] := by
  induction n with
  | zero =>
    obtain ⟨a, h⟩ := reached_start.alloc_new (by simp)
    exact ⟨[a], h⟩
  | succ n ih =>
    obtain ⟨used, s, hrun, hinv⟩ := ih (by omega)
    have ht := PoolView.take_fresh 0x400000 used (n := n + 1) (by omega)
    obtain ⟨a, s', ha, rfl, hinv'⟩ := (hinv.wp_alloc4_listed slots_twoChunks ht).returns
    rw [if_neg (fun he => absurd he.2 (by dsimp only; omega))] at hinv'
    have hrun' := hrun.alloc4 ha
    rw [if_neg hinv'.small_ne_zero] at hrun'
    exact ⟨_, s', hrun', hinv'⟩

lemma reached_full : ∃ used, Reached used [0x200000] [] [⟨0x400000, [], used, 511⟩] := by
  obtain ⟨used, s, hrun, hinv⟩ := reached_taken 509 (by norm_num)
  have ht := PoolView.take_fresh 0x400000 used (n := 510) (by norm_num)
  obtain ⟨a, s', ha, rfl, hinv'⟩ := (hinv.wp_alloc4_listed slots_twoChunks ht).returns
  rw [if_pos ⟨rfl, rfl⟩] at hinv'
  have hrun' := hrun.alloc4 ha
  rw [if_neg hinv'.small_ne_zero] at hrun'
  exact ⟨_, s', hrun', hinv'⟩

/-- The first pool gets back `k + 1` of its pages. -/
lemma reached_given (k : ℕ) (hk : k < 510) : ∃ b small free used, free.length = k + 1 ∧
    Reached small [] [⟨0x400000, free, used, 511⟩, ⟨0x200000, [], [b], 1⟩] [] := by
  induction k with
  | zero =>
    obtain ⟨used, h⟩ := reached_full
    obtain ⟨b, s, hrun, hinv⟩ := h.alloc_new (by simp)
    have hlen := (hinv.pools.sound ⟨0x400000, [], used, 511⟩ (by simp)).length
    obtain ⟨a, used', rfl⟩ := List.exists_cons_of_length_pos
      (show 0 < used.length by simp only [List.length_nil] at hlen; omega)
    have ha : a ∈ b :: a :: used' := by simp
    have hjoin := AllocInv.wp_free4_join (l := []) (r := []) slots_twoChunks hinv
      (List.mem_cons_self (a := a) (l := used'))
    obtain ⟨_, s', hfree, hinv'⟩ := hjoin.returns
    exact ⟨b, _, [a], _, rfl, s', hrun.free4 ha trivial hfree, hinv'⟩
  | succ k ih =>
    obtain ⟨b, small, free, used, hfree, s, hrun, hinv⟩ := ih (by omega)
    have hlen := (hinv.pools.sound ⟨0x400000, free, used, 511⟩ (by simp)).length
    obtain ⟨a, used', rfl⟩ := List.exists_cons_of_length_pos
      (show 0 < used.length by dsimp only at hlen; omega)
    have ha : a ∈ small := hinv.small.mem_iff.mpr (by simp [inUse])
    have hlisted := AllocInv.wp_free4_listed (l := []) slots_twoChunks hinv
      (List.mem_cons_self (a := a) (l := used')) (by dsimp only; omega)
    obtain ⟨_, s', hrun', hinv'⟩ := hlisted.returns
    refine ⟨b, _, a :: free, _, ?_, s', hrun.free4 ha trivial hrun', hinv'⟩
    rw [List.length_cons, hfree]

/-- `phys_free_2MIB` has been given the virtual address of a chunk. -/
lemma wp_free_last {b : Word} {free : List Word} {small : List Word}
    (h : AllocInv supply s [] small [] [⟨c, free, [a], 511⟩, ⟨b, [], [d], 1⟩] [])
    (hfree : free.length = 510) :
    wp (physFree4KIB stackSupply a)
      (fun _ s' => s'.chunks = ⟨1, mask2MIB (physToVirt (physToVirt c))⟩) (fun _ => False) s := by
  refine wp_physFree4KIB_complete (l := []) h.pools (List.mem_singleton.mpr rfl) hfree
    fun s1 hch _ _ => ?_
  have hsize : stackEmpty stack2MIB (s1.chunks, s1.mem) = true := by
    rw [hch]
    exact decide_eq_true (h.stack.size_eq_zero_iff.mpr rfl)
  have hpush : physFree2MIB (physToVirt c) (s1.chunks, s1.mem)
      = .ok ((), stackPush stack2MIB (mask2MIB (physToVirt (physToVirt c)))
        (s1.chunks, s1.mem)) := rfl
  rw [stackPush, if_pos hsize] at hpush
  exact wp_of_ok (onChunks_ok hpush) rfl

/-- A stack of one node. -/
lemma alloc2_of_top {node : Word} (hch : s.chunks = ⟨1, node⟩) (hnode : node ≠ 0) :
    ∃ s', onChunks physAlloc2MIB s = .ok (virtToPhys node, s') := by
  have hne : stack2MIB.size (s.chunks, s.mem) ≠ 0 := by
    show s.chunks.size ≠ 0
    rw [hch]
    exact (by decide : (1 : Word) ≠ 0)
  have hrun : physAlloc2MIB (s.chunks, s.mem) = .ok (virtToPhys s.chunks.top,
      ⟨s.chunks.size - 1, load64 s.mem s.chunks.top⟩, s.mem) := by
    have htop : s.chunks.top ≠ 0 := by rwa [hch]
    rw [physAlloc2MIB, stackPop_eq hne]
    show Except.ok (if s.chunks.top = 0 then 0 else virtToPhys s.chunks.top, _) = _
    rw [if_neg htop]
    rfl
  rw [hch] at hrun
  exact ⟨_, onChunks_ok (by rw [hch]; exact hrun)⟩

/-- All 511 pages of the first pool are given back; the chunk that `phys_alloc_2MIB` returns next
is not in the map. -/
theorem not_allocatesWell : ¬ ∀ map, BootMap map → ∀ s large small,
    AllocRun anyFree map s large small → AllocatesWell map s large small := by
  intro hall
  obtain ⟨b, small, free, used, hfree, s, hrun, hinv⟩ := reached_given 509 (by norm_num)
  have hlen := (hinv.pools.sound ⟨0x400000, free, used, 511⟩ (by simp)).length
  obtain ⟨a, rfl⟩ := List.length_eq_one_iff.mp
    (show used.length = 1 by dsimp only at hlen; omega)
  have ha : a ∈ small := hinv.small.mem_iff.mpr (by simp [inUse])
  obtain ⟨_, s', hfree', hch⟩ := (wp_free_last hinv hfree).returns
  have hwell := (hall _ twoChunks_boot _ _ _ (hrun.free4 ha trivial hfree')).1
  obtain ⟨s'', halloc⟩ := alloc2_of_top hch (by decide)
  obtain ⟨e, he, -, -, hle⟩ := (hwell _ _ halloc (by decide)).inside
  have hval : virtToPhys (mask2MIB (physToVirt (physToVirt 0x400000))) = 0xFFFF800000400000 := by
    decide
  rw [List.mem_singleton.mp he, hval] at hle
  exact absurd hle (by simp)

end Bikeshed.PhysAlloc
