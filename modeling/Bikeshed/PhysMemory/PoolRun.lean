import Bikeshed.PhysMemory.PoolFree

/-!
# Runs of the 4KiB allocator

The 2MiB chunks come from any supplier that hands out chunks that are not in use. A run is a
sequence of allocations and frees, and of writes of the clients into their pages. `PoolsInv`
holds all the way: every page in use belongs to exactly one pool. The chunk that ends where the
direct map does is the one that cannot be made a pool.
-/

namespace Bikeshed.PhysAlloc

open Lib

variable {σ : Type} {supply : ChunkSupply σ} {V : σ → Mem → List Word → Prop} {a c : Word}
  {m : Mem} {p q : PoolView} {l r ps listed full : List PoolView} {out taken : List Word}
  {s s0 s' : Phys σ}

-- known by what is proved of its outcomes
attribute [local irreducible] physFree4KIB

/-- Two memories agree on the chunks at `bs`. -/
def KeepsChunks (bs : List Word) (m m' : Mem) : Prop :=
  ∀ c ∈ bs, ∀ x, (page2MIB c).Has x → phys m' x = phys m x

/-- `V a m taken`: the supplier's variables are `a`, and `taken` are the chunks in use. A chunk
it hands out lies in the direct map. The chunk that is given back is named by its virtual
address. -/
structure Supplies (supply : ChunkSupply σ) (V : σ → Mem → List Word → Prop) : Prop where
  alloc : ∀ a m taken, V a m taken → wp supply.alloc
    (fun c s => KeepsChunks taken m s.2 ∧
      if c = 0 then V s.1 s.2 taken
      else c ∉ taken ∧ 2 ^ 21 ∣ c.toNat ∧ c.toNat + 2 ^ 21 ≤ 2 ^ 47 ∧ V s.1 s.2 (c :: taken))
    (fun _ => False) (a, m)
  free : ∀ a m taken c, V a m taken → c ∈ taken → wp (supply.free (physToVirt c))
    (fun _ s => KeepsChunks (taken.erase c) m s.2 ∧ V s.1 s.2 (taken.erase c))
    (fun _ => False) (a, m)
  write : ∀ a m m' taken, V a m taken → Touches taken (phys m) (phys m') → V a m' taken

/-- The next allocation makes a pool of the last chunk of the direct map, with NULL as the pointer
to its end. -/
def LastChunk (supply : ChunkSupply σ) (s : Phys σ) : Prop :=
  s.pool4KIB = 0 ∧ ∃ c a m, supply.alloc (s.chunks, s.mem) = .ok (c, a, m) ∧
    c.toNat + 2 ^ 21 = 2 ^ 47

/-! ## The invariant -/

/-- The pages in use. -/
def inUse (ps : List PoolView) : List Word := ps.flatMap PoolView.used

structure PoolsInv (V : σ → Mem → List Word → Prop) (s : Phys σ) (out taken : List Word)
    (listed full : List PoolView) : Prop where
  pools : Pools (phys s.mem) s.pool4KIB listed full
  supplied : V s.chunks s.mem taken
  taken : taken.Perm ((listed ++ full).map PoolView.base)
  out : out.Perm (inUse (listed ++ full))

@[simp] lemma inUse_cons (p : PoolView) (ps : List PoolView) :
    inUse (p :: ps) = p.used ++ inUse ps :=
  List.flatMap_cons

lemma perm_inUse (h : l.Perm r) : (inUse l).Perm (inUse r) := h.flatMap_right _

lemma append_cons_perm (l r full : List PoolView) (p : PoolView) :
    (l ++ p :: r ++ full).Perm (p :: (l ++ r ++ full)) := by
  rw [List.append_assoc, List.cons_append, List.append_assoc]
  exact List.perm_middle

lemma append_append_cons_perm (listed l r : List PoolView) (p : PoolView) :
    (listed ++ (l ++ p :: r)).Perm (p :: (listed ++ (l ++ r))) := by
  rw [← List.append_assoc, ← List.append_assoc]
  exact List.perm_middle

/-- Handing out a page. -/
lemma perm_take (ht : p.take = some (a, q)) (h : out.Perm (inUse (p :: ps))) :
    (a :: out).Perm (inUse (q :: ps)) := by
  rw [inUse_cons, PoolView.take_used ht]
  exact h.cons a

/-- Taking one back. -/
lemma perm_give (ha : a ∈ p.used) (h : out.Perm (inUse (p :: ps))) :
    (out.erase a).Perm (inUse (p.give a :: ps)) := by
  rw [inUse_cons] at h ⊢
  have he := h.erase a
  rwa [List.erase_append_left _ ha] at he

/-- The pool of a page in use. -/
lemma exists_pool_of_perm (h : out.Perm (inUse (listed ++ full))) (ha : a ∈ out) :
    (∃ l p r, listed = l ++ p :: r ∧ a ∈ p.used) ∨ ∃ l p r, full = l ++ p :: r ∧ a ∈ p.used := by
  have hmem := h.mem_iff.mp ha
  rw [inUse, List.mem_flatMap] at hmem
  obtain ⟨p, hp, hap⟩ := hmem
  rcases List.mem_append.mp hp with hp | hp
  · obtain ⟨l, r, rfl⟩ := List.append_of_mem hp
    exact .inl ⟨l, p, r, rfl, hap⟩
  · obtain ⟨l, r, rfl⟩ := List.append_of_mem hp
    exact .inr ⟨l, p, r, rfl, hap⟩

lemma map_base_perm (hb : q.base = p.base) (h : taken.Perm ((p :: ps).map PoolView.base)) :
    taken.Perm ((q :: ps).map PoolView.base) := by
  rwa [List.map_cons, hb]

/-! ## One step -/

lemma Touches.mono {bs cs : List Word} {P P' : Mem} (h : Touches bs P P')
    (hsub : ∀ c ∈ bs, c ∈ cs) : Touches cs P P' :=
  fun x hx => h x fun c hc => hx c (hsub c hc)

/-- The pools of a state whose chunks have been kept. -/
lemma Pools.keeps {head : Word} {m' : Mem} (h : Pools (phys m) head listed full)
    (hkeep : KeepsChunks ((listed ++ full).map PoolView.base) m m') :
    Pools (phys m') head listed full :=
  h.congr fun p hp => ⟨fun _ hx => hkeep p.base (List.mem_map_of_mem hp) _ (has_chunk_of_record hx),
    fun _ ha _ hx => hkeep p.base (List.mem_map_of_mem hp) _
      ((h.sound p hp).has_of_page (List.mem_append_left _ ha) hx)⟩

/-- A free page and a page in use are not the same, of whatever pools they are. -/
lemma Pools.page_disjoint {P : Mem} {head b : Word} (h : Pools P head listed full)
    (hp : p ∈ listed ++ full) (hq : q ∈ listed ++ full) (hb : b ∈ p.free) (ha : a ∈ q.used) :
    (page4KIB b).Disjoint (page4KIB a) := by
  have hps := h.sound p hp
  have hqs := h.sound q hq
  obtain ⟨hdb, hb1, hb2⟩ := hps.toNat_mem (List.mem_append_left _ hb)
  obtain ⟨hda, ha1, ha2⟩ := hqs.toNat_mem (List.mem_append_right _ ha)
  refine Block.disjoint_of_dvd hdb hda ?_
  rintro rfl
  have hbase : p.base = q.base := by
    have h1 := hps.aligned
    have h2 := hqs.aligned
    apply word_ext
    omega
  have hpq : p = q := List.inj_on_of_nodup_map h.distinct hp hq hbase
  rw [hpq] at hb
  exact (List.nodup_append.mp hqs.nodup).2.2 b hb b ha rfl

namespace PoolsInv

/-- What touches the chunks of the pools only is no concern of the supplier. -/
lemma supplied_of_touches (hsup : Supplies supply V) (h : PoolsInv V s out taken listed full)
    (hch : s'.chunks = s.chunks) {bs : List Word}
    (htouch : Touches bs (phys s.mem) (phys s'.mem))
    (hbs : ∀ c ∈ bs, c ∈ (listed ++ full).map PoolView.base) : V s'.chunks s'.mem taken := by
  rw [hch]
  exact hsup.write _ _ _ _ h.supplied (htouch.mono fun c hc => h.taken.mem_iff.mpr (hbs c hc))

theorem wp_alloc_listed (hsup : Supplies supply V)
    (h : PoolsInv V s out taken (p :: listed) full) :
    wp (physAlloc4KIB supply)
      (fun a s' => ∃ listed full, PoolsInv V s' (a :: out) taken listed full)
      (fun _ => False) s := by
  have hs := h.pools.sound p List.mem_cons_self
  obtain ⟨a, q, ht⟩ := PoolView.take_isSome (h.pools.available p List.mem_cons_self).2 hs.bump
  refine wp_mono (wp_physAlloc4KIB_listed h.pools ht) ?_
  rintro b s' ⟨rfl, hch, hw, hpools⟩
  have hsupplied := h.supplied_of_touches hsup hch (hw.chunk.touches (List.mem_singleton.mpr rfl))
    fun c hc => by simp [List.mem_singleton.mp hc]
  have htaken : taken.Perm ((q :: (listed ++ full)).map PoolView.base) :=
    map_base_perm (PoolView.take_base ht) h.taken
  have hout : (b :: out).Perm (inUse (q :: (listed ++ full))) := perm_take ht h.out
  split at hpools
  · refine ⟨listed, q :: full, hpools, hsupplied, ?_, ?_⟩
    · exact htaken.trans (List.perm_middle.symm.map _)
    · exact hout.trans (perm_inUse List.perm_middle.symm)
  · exact ⟨q :: listed, full, hpools, hsupplied, htaken, hout⟩

theorem wp_alloc_new (hsup : Supplies supply V) (h : PoolsInv V s out taken [] full) :
    wp (physAlloc4KIB supply)
      (fun a s' => ∃ taken listed full, PoolsInv V s' (a :: out) taken listed full)
      (fun e => e = "ASSERT FAILED: pool_4KIB != NULL" ∨ LastChunk supply s) s := by
  have hnull : s.pool4KIB = 0 := h.pools.null_iff.mpr rfl
  obtain ⟨c, ⟨a1, m1⟩, hrun, hkeep, hc⟩ := (hsup.alloc _ _ _ h.supplied).returns
  by_cases hc0 : c = 0
  · -- the supplier has run out
    rw [physAlloc4KIB, ensurePool, wp_bind, wp_bind, wp_get, if_pos hnull, wp_bind]
    refine wp_of_ok (onChunks_ok hrun) ?_
    rw [if_pos hc0]
    exact wp_panicWith.mpr (.inl rfl)
  · rw [if_neg hc0] at hc
    obtain ⟨hnew, hdvd, hle, hV⟩ := hc
    by_cases hlast : c.toNat + 2 ^ 21 = 2 ^ 47
    · have hbad : wp (physAlloc4KIB supply) _ _ s :=
        wp_physAlloc4KIB_last hnull hrun hc0 (dvd_trans (by norm_num) hdvd) hlast
      rw [wp_iff] at hbad ⊢
      exact ⟨fun _ _ hok => (hbad.1 _ _ hok).elim, fun _ _ => .inr ⟨hnull, c, a1, m1, hrun, hlast⟩⟩
    · have hlt : c.toNat + 2 ^ 21 < 2 ^ 47 := lt_of_le_of_ne hle hlast
      have hfresh : ∀ p ∈ full, p.base ≠ c := by
        rintro p hp rfl
        exact hnew (h.taken.mem_iff.mpr (List.mem_map_of_mem hp))
      have hpools : Pools (phys m1) s.pool4KIB [] full :=
        h.pools.keeps fun d hd => hkeep d (h.taken.mem_iff.mpr hd)
      obtain ⟨b, s', hb, rfl, hch, hw, hfin⟩ :=
        (wp_physAlloc4KIB_new h.pools hrun hc0 hdvd hlt hfresh hpools).returns
      refine wp_of_ok hb ⟨c :: taken, _, full, hfin, ?_, ?_, ?_⟩
      · rw [hch]
        exact hsup.write _ _ _ _ hV (hw.chunk.touches List.mem_cons_self)
      · exact h.taken.cons c
      · exact h.out.cons _

/-- `phys_alloc_4KIB` hands out a page or finds that there is no memory left, unless it gets the
last chunk. -/
theorem wp_alloc (hsup : Supplies supply V) (h : PoolsInv V s out taken listed full) :
    wp (physAlloc4KIB supply)
      (fun a s' => ∃ taken listed full, PoolsInv V s' (a :: out) taken listed full)
      (fun e => e = "ASSERT FAILED: pool_4KIB != NULL" ∨ LastChunk supply s) s := by
  cases listed with
  | nil => exact h.wp_alloc_new hsup
  | cons p listed =>
    obtain ⟨a, s', hrun, listed', full', hinv⟩ := (h.wp_alloc_listed hsup).returns
    exact wp_of_ok hrun ⟨taken, listed', full', hinv⟩

/-- The last chunk makes a pool that looks empty. -/
theorem alloc_lastChunk (hsup : Supplies supply V) (h : PoolsInv V s out taken listed full)
    (hlast : LastChunk supply s) :
    physAlloc4KIB supply s = .error "Trying to allocate from empty pool!" := by
  obtain ⟨hnull, c, a1, m1, hrun, htop⟩ := hlast
  have hc0 : c ≠ 0 := by
    rintro rfl
    exact absurd htop (by decide)
  have hc := (hsup.alloc _ _ _ h.supplied).ok hrun
  rw [if_neg hc0] at hc
  have hbad : wp (physAlloc4KIB supply) _ _ s :=
    wp_physAlloc4KIB_last hnull hrun hc0 (dvd_trans (by norm_num) hc.2.2.1) htop
  cases halloc : physAlloc4KIB supply s with
  | ok r => exact (hbad.ok halloc).elim
  | error e => rw [hbad.error halloc]

theorem wp_free_listed (hsup : Supplies supply V)
    (h : PoolsInv V s out taken (l ++ p :: r) full) (ha : a ∈ p.used)
    (hsize : p.free.length ≠ 510) :
    wp (physFree4KIB supply a)
      (fun _ s' => ∃ taken listed full, PoolsInv V s' (out.erase a) taken listed full)
      (fun _ => False) s := by
  have hperm := append_cons_perm l r full
  refine wp_mono (wp_physFree4KIB_listed h.pools ha hsize) ?_
  rintro - s' ⟨hch, hw, hpools⟩
  refine ⟨taken, _, full, hpools, ?_, ?_, ?_⟩
  · exact h.supplied_of_touches hsup hch (hw.touches (List.mem_singleton.mpr rfl)) fun c hc => by
      simp [List.mem_singleton.mp hc]
  · have htaken := map_base_perm (p.give_base a) (h.taken.trans ((hperm p).map _))
    exact htaken.trans ((hperm (p.give a)).symm.map _)
  · have hout := perm_give ha (h.out.trans (perm_inUse (hperm p)))
    exact hout.trans (perm_inUse (hperm (p.give a)).symm)

/-- With its last page back, the pool is no more; its chunk is given back. -/
theorem wp_free_complete (hsup : Supplies supply V)
    (h : PoolsInv V s out taken (l ++ p :: r) full) (ha : a ∈ p.used)
    (hsize : p.free.length = 510) :
    wp (physFree4KIB supply a)
      (fun _ s' => ∃ taken listed full, PoolsInv V s' (out.erase a) taken listed full)
      (fun _ => False) s := by
  have hperm := append_cons_perm l r full p
  have htaken := h.taken.trans (hperm.map _)
  have hmem : p.base ∈ taken := htaken.mem_iff.mpr (by simp)
  refine wp_physFree4KIB_complete h.pools ha hsize fun s1 hch hpools htouch => ?_
  have hV := h.supplied_of_touches hsup hch htouch fun c hc => by
    simp only [List.map_append, List.mem_append] at hc ⊢
    exact .inl hc
  have herase : (taken.erase p.base).Perm ((l ++ r ++ full).map PoolView.base) := by
    have he := htaken.erase p.base
    rwa [List.map_cons, List.erase_cons_head] at he
  -- the only page in use of `p` was `a`
  have hlast : p.used = [a] := by
    have hs := h.pools.sound p (by simp)
    have hlen := hs.length
    have hbump := hs.bump
    obtain ⟨b, hb⟩ := List.length_eq_one_iff.mp (show p.used.length = 1 by
      have := List.length_pos_of_mem ha
      omega)
    rw [hb] at ha ⊢
    rw [List.mem_singleton.mp ha]
  obtain ⟨_, ⟨a2, m2⟩, hrun, hkeep, hV2⟩ := (hsup.free _ _ _ _ hV hmem).returns
  refine wp_of_ok (onChunks_ok hrun) ⟨taken.erase p.base, l ++ r, full, ?_, hV2, herase, ?_⟩
  · exact hpools.keeps fun d hd => hkeep d (herase.mem_iff.mpr hd)
  · have hout := (h.out.trans (perm_inUse hperm)).erase a
    rwa [inUse_cons, hlast, List.singleton_append, List.erase_cons_head] at hout

theorem wp_free_full (hsup : Supplies supply V)
    (h : PoolsInv V s out taken listed (l ++ p :: r)) (ha : a ∈ p.used) :
    wp (physFree4KIB supply a)
      (fun _ s' => ∃ taken listed full, PoolsInv V s' (out.erase a) taken listed full)
      (fun e => e = "phys_free_4KIB bad free") s := by
  have hperm := append_append_cons_perm listed l r p
  cases listed with
  | nil =>
    have hbad : wp (physFree4KIB supply a) _ _ s := wp_physFree4KIB_bad h.pools ha
    rw [wp_iff] at hbad ⊢
    exact ⟨fun _ _ hok => (hbad.1 _ _ hok).elim, hbad.2⟩
  | cons q listed =>
    have hjoin : wp (physFree4KIB supply a) _ _ s := wp_physFree4KIB_join h.pools ha
    obtain ⟨_, s', hrun, hch, htouch, hpools⟩ := hjoin.returns
    refine wp_of_ok hrun ⟨taken, _, _, hpools, ?_, ?_, ?_⟩
    · exact h.supplied_of_touches hsup hch htouch fun c hc => by
        simp only [List.mem_cons, List.not_mem_nil, or_false] at hc
        rcases hc with rfl | rfl <;> simp
    · exact map_base_perm (p.give_base a) (h.taken.trans (hperm.map _))
    · exact perm_give ha (h.out.trans (perm_inUse hperm))

theorem wp_free (hsup : Supplies supply V) (h : PoolsInv V s out taken listed full)
    (ha : a ∈ out) :
    wp (physFree4KIB supply a)
      (fun _ s' => ∃ taken listed full, PoolsInv V s' (out.erase a) taken listed full)
      (fun e => e = "phys_free_4KIB bad free") s := by
  rcases exists_pool_of_perm h.out ha with ⟨l, p, r, rfl, hap⟩ | ⟨l, p, r, rfl, hap⟩
  · by_cases hsize : p.free.length = 510
    · obtain ⟨_, s', hrun, hinv⟩ := (h.wp_free_complete hsup hap hsize).returns
      exact wp_of_ok hrun hinv
    · obtain ⟨_, s', hrun, hinv⟩ := (h.wp_free_listed hsup hap hsize).returns
      exact wp_of_ok hrun hinv
  · exact h.wp_free_full hsup hap

/-- Clients write into their own pages. -/
theorem write (hsup : Supplies supply V) (h : PoolsInv V s out taken listed full) {m' : Mem}
    (hm : ∀ x, (∀ a ∈ out, ¬ (page4KIB a).Has x) → phys m' x = phys s.mem x) :
    PoolsInv V { s with mem := m' } out taken listed full := by
  have hused : ∀ a ∈ out, ∃ p ∈ listed ++ full, a ∈ p.used := fun a ha => by
    have hmem := h.out.mem_iff.mp ha
    rwa [inUse, List.mem_flatMap] at hmem
  refine ⟨h.pools.congr fun p hp => ⟨fun x hx => hm x fun a ha hxa => ?_,
    fun b hb x hx => hm x fun a ha hxa => ?_⟩, hsup.write _ _ _ _ h.supplied fun x hx =>
      hm x fun a ha hxa => ?_, h.taken, h.out⟩
  · obtain ⟨q, hq, haq⟩ := hused a ha
    exact ((h.pools.sound q hq).disjoint_record (List.mem_append_right _ haq)
      (h.pools.sound p hp).aligned).not_has hxa hx
  · obtain ⟨q, hq, haq⟩ := hused a ha
    exact (h.pools.page_disjoint hp hq hb haq).not_has hxa hx
  · obtain ⟨q, hq, haq⟩ := hused a ha
    exact hx q.base (h.taken.mem_iff.mpr (List.mem_map_of_mem hq))
      ((h.pools.sound q hq).has_of_page (List.mem_append_right _ haq) hxa)

end PoolsInv

/-! ## Runs -/

/-- `s` is reached from `s0`, with the pages `out` in use and allocations in the states of `P`. -/
inductive PoolRun (supply : ChunkSupply σ) (P : Phys σ → Prop) (s0 : Phys σ) :
    Phys σ → List Word → Prop
  | start : PoolRun supply P s0 s0 []
  | alloc {s s' : Phys σ} {out : List Word} {a : Word} : PoolRun supply P s0 s out → P s →
      physAlloc4KIB supply s = .ok (a, s') →
      PoolRun supply P s0 s' (a :: out)
  | free {s s' : Phys σ} {out : List Word} {a : Word} : PoolRun supply P s0 s out → a ∈ out →
      physFree4KIB supply a s = .ok ((), s') → PoolRun supply P s0 s' (out.erase a)
  | write {s : Phys σ} {out : List Word} {m : Mem} : PoolRun supply P s0 s out →
      (∀ x, (∀ a ∈ out, ¬ (page4KIB a).Has x) → phys m x = phys s.mem x) →
      PoolRun supply P s0 { s with mem := m } out

variable {P : Phys σ → Prop}

theorem PoolRun.inv (hsup : Supplies supply V) (h0 : V s0.chunks s0.mem [])
    (hnull : s0.pool4KIB = 0) (h : PoolRun supply P s0 s out) :
    ∃ taken listed full, PoolsInv V s out taken listed full := by
  induction h with
  | start =>
    refine ⟨[], [], [], ⟨hnull, List.isChain_nil, ?_, ?_, ?_, List.nodup_nil⟩, h0, .nil, .nil⟩ <;>
      exact fun p hp => absurd hp List.not_mem_nil
  | alloc _ _ hrun ih =>
    obtain ⟨taken, listed, full, hinv⟩ := ih
    exact (hinv.wp_alloc hsup).ok hrun
  | free _ ha hrun ih =>
    obtain ⟨taken, listed, full, hinv⟩ := ih
    exact (hinv.wp_free hsup ha).ok hrun
  | write _ hm ih =>
    obtain ⟨taken, listed, full, hinv⟩ := ih
    exact ⟨taken, listed, full, hinv.write hsup hm⟩

/-! ## The pool list -/

/-- The pages of a pool. -/
def PoolView.all (p : PoolView) : List Word := (List.range 511).map p.page

/-- Those that have never been handed out: from `implicit_next` to `max_address`. -/
def PoolView.fresh (p : PoolView) : List Word := (List.range' p.bump (511 - p.bump)).map p.page

/-- What holds of `pool_4KIB` and of the pools `listed ++ full` while the pages `out` are in
use. -/
structure PoolListOk (s : Phys σ) (out : List Word) (listed full : List PoolView) : Prop where
  /-- The chain of `next` pointers meets the pools `listed` and then NULL. -/
  chain : Linked physToVirt (fun c => (header (phys s.mem) c).field .next) s.pool4KIB
    (listed.map PoolView.base)
  distinct : ((listed ++ full).map PoolView.base).Nodup
  onList : ∀ p ∈ listed ++ full, (header (phys s.mem) p.base).onList = 1 ↔ p ∈ listed
  prev : (listed.map PoolView.base).IsChain fun b c =>
    (header (phys s.mem) c).field .prev = physToVirt b
  available : ∀ p ∈ listed, p.free ≠ [] ∨ p.fresh ≠ []
  /-- The record, and the links in the free pages. -/
  contents : ∀ p ∈ listed ++ full, ∃ flag, PoolAt (phys s.mem) p flag
  partition : ∀ p ∈ listed ++ full, (p.free ++ p.fresh ++ p.used).Perm p.all ∧ p.all.Nodup
  outstanding : out.Perm (inUse (listed ++ full))

lemma PoolView.Sound.all_nodup (hs : p.Sound) : p.all.Nodup := by
  refine List.Nodup.map_on (fun i hi j hj he => ?_) List.nodup_range
  rw [List.mem_range] at hi hj
  have hi' := p.toNat_page hs.below (i := i) (by omega)
  have hj' := p.toNat_page hs.below (i := j) (by omega)
  rw [he, hj'] at hi'
  omega

lemma PoolView.Sound.partition (hs : p.Sound) : (p.free ++ p.fresh ++ p.used).Perm p.all := by
  have hb := hs.bump
  have hall : p.all = p.pages ++ p.fresh := by
    have hr := List.range'_append_1 (s := 0) (m := p.bump) (n := 511 - p.bump)
    rw [zero_add, Nat.add_sub_of_le hb, ← List.range_eq_range', ← List.range_eq_range'] at hr
    unfold PoolView.all PoolView.pages PoolView.fresh
    rw [← List.map_append, hr]
  rw [hall]
  calc (p.free ++ p.fresh ++ p.used).Perm (p.free ++ (p.used ++ p.fresh)) := by
        rw [List.append_assoc]
        exact List.perm_append_comm.append_left _
    _ = p.free ++ p.used ++ p.fresh := (List.append_assoc ..).symm
    _ |>.Perm (p.pages ++ p.fresh) := hs.pages.append_right _

lemma PoolView.Sound.available (hs : p.Sound) (he : ¬ p.isEmpty) : p.free ≠ [] ∨ p.fresh ≠ [] := by
  have hb := hs.bump
  by_cases hf : p.free = []
  · right
    intro hfr
    have hlen := congrArg List.length hfr
    rw [PoolView.fresh, List.length_map, List.length_range', List.length_nil] at hlen
    exact he ⟨hf, by omega⟩
  · exact .inl hf

theorem PoolsInv.ok (h : PoolsInv V s out taken listed full) : PoolListOk s out listed full := by
  have hp := h.pools
  refine ⟨hp.list, hp.distinct, fun p hmem => ?_, hp.prev,
    fun p hmem => (hp.sound p (List.mem_append_left _ hmem)).available (hp.available p hmem).2,
    fun p hmem => ?_, fun p hmem => ⟨(hp.sound p hmem).partition, (hp.sound p hmem).all_nodup⟩,
    h.out⟩
  · rcases List.mem_append.mp hmem with hl | hf
    · exact iff_of_true (hp.available p hl).1.onList hl
    · refine iff_of_false ?_ fun hl => (hp.available p hl).2 (hp.exhausted p hf).2
      rw [(hp.exhausted p hf).1.onList]
      decide
  · rcases List.mem_append.mp hmem with hl | hf
    · exact ⟨1, (hp.available p hl).1⟩
    · exact ⟨0, (hp.exhausted p hf).1⟩

/-- The panics that only a broken pool list could reach. -/
def poolPanics : List String :=
  ["Trying to allocate from empty pool!", "Pool freeing bad ptr",
    "ASSERT FAILED: pool->implicit_next >= pool->max_address"]

/-- In the runs with allocations in the states of `P`, the chunks in use are the pools, the list is
in order, and neither of the two functions finds it otherwise. -/
def PoolListInvariant (supply : ChunkSupply σ) (V : σ → Mem → List Word → Prop)
    (P : Phys σ → Prop) (s0 : Phys σ) : Prop :=
  ∀ s out, PoolRun supply P s0 s out →
    (∃ taken listed full, V s.chunks s.mem taken ∧
      taken.Perm ((listed ++ full).map PoolView.base) ∧ PoolListOk s out listed full) ∧
    (P s → ∀ e, physAlloc4KIB supply s = .error e → e ∉ poolPanics) ∧
    ∀ a ∈ out, ∀ e, physFree4KIB supply a s = .error e → e ∉ poolPanics

/-- It is the last chunk of the direct map, and nothing else, that breaks it. -/
theorem poolList_invariant_iff (hsup : Supplies supply V) (h0 : V s0.chunks s0.mem [])
    (hnull : s0.pool4KIB = 0) : PoolListInvariant supply V P s0 ↔
      ∀ s out, PoolRun supply P s0 s out → P s → ¬ LastChunk supply s := by
  constructor
  · intro h s out hrun hp hlast
    obtain ⟨taken, listed, full, hinv⟩ := hrun.inv hsup h0 hnull
    have hno := (h s out hrun).2.1 hp _ (hinv.alloc_lastChunk hsup hlast)
    exact hno (by decide)
  · intro h s out hrun
    obtain ⟨taken, listed, full, hinv⟩ := hrun.inv hsup h0 hnull
    refine ⟨⟨taken, listed, full, hinv.supplied, hinv.taken, hinv.ok⟩, fun hp e he => ?_,
      fun a ha e he => ?_⟩
    · rw [((hinv.wp_alloc hsup).error he).resolve_right (h s out hrun hp)]
      decide
    · rw [(hinv.wp_free hsup ha).error he]
      decide

/-! ## Chunks in order -/

def orderedAlloc : Prog (Word × Mem) String Word := fun s =>
  if s.1.toNat + 2 ^ 21 ≤ 2 ^ 47 then .ok (s.1, s.1 + 0x200000, s.2) else .ok (0, s)

/-- A supplier that hands out the chunks of the direct map in order. -/
def orderedSupply : ChunkSupply Word := ⟨orderedAlloc, fun _ => pure ()⟩

/-- The chunks from `n` on are not in use. -/
def Ordered (n : Word) (_ : Mem) (taken : List Word) : Prop :=
  2 ^ 21 ∣ n.toNat ∧ 0 < n.toNat ∧ ∀ c ∈ taken, c.toNat < n.toNat

lemma orderedAlloc_le {n : Word} (h : n.toNat + 2 ^ 21 ≤ 2 ^ 47) :
    orderedAlloc (n, m) = .ok (n, n + 0x200000, m) := by
  rw [orderedAlloc]
  exact if_pos h

lemma orderedAlloc_gt {n : Word} (h : ¬ n.toNat + 2 ^ 21 ≤ 2 ^ 47) :
    orderedAlloc (n, m) = .ok (0, n, m) := by
  rw [orderedAlloc]
  exact if_neg h

attribute [local irreducible] wp orderedAlloc

theorem orderedSupply_supplies : Supplies orderedSupply Ordered := by
  constructor
  · intro n m taken h
    have hpos := h.2.1
    by_cases hlt : n.toNat + 2 ^ 21 ≤ 2 ^ 47
    · refine wp_of_ok (orderedAlloc_le hlt) ⟨fun _ _ _ _ => rfl, ?_⟩
      have hlt' : n.toNat + 0x200000 < 2 ^ 64 := by omega
      have hnext : (n + 0x200000).toNat = n.toNat + 2 ^ 21 := toNat_add_ofNat hlt'
      have h0 : n ≠ 0 := fun h0 => by
        rw [h0] at hpos
        exact absurd hpos (by decide)
      rw [if_neg h0]
      refine ⟨fun hm => lt_irrefl _ (h.2.2 n hm), h.1, hlt, ?_, ?_, fun c hc => ?_⟩
      · rw [hnext]
        exact Nat.dvd_add h.1 (dvd_refl _)
      · show 0 < (n + 0x200000).toNat
        omega
      · show c.toNat < (n + 0x200000).toNat
        rcases List.mem_cons.mp hc with rfl | hc
        · omega
        · have := h.2.2 c hc
          omega
    · exact wp_of_ok (orderedAlloc_gt hlt) ⟨fun _ _ _ _ => rfl, h⟩
  · intro n m taken c h _
    exact wp_pure.mpr
      ⟨fun _ _ _ _ => rfl, h.1, h.2.1, fun d hd => h.2.2 d (List.mem_of_mem_erase hd)⟩
  · intro n m m' taken h _
    exact h

def orderedStart : Phys Word := ⟨fun _ => 0, 0x200000, 0⟩

lemma pools_start : Pools (phys orderedStart.mem) orderedStart.pool4KIB [] [] := by
  refine ⟨rfl, List.isChain_nil, ?_, ?_, ?_, List.nodup_nil⟩ <;>
    exact fun p hp => absurd hp List.not_mem_nil

lemma wp_alloc_ordered : wp (physAlloc4KIB orderedSupply) (fun a _ => a = 0x201000)
    (fun _ => False) orderedStart := by
  have hrun : orderedSupply.alloc (orderedStart.chunks, orderedStart.mem)
      = .ok (0x200000, 0x200000 + 0x200000, orderedStart.mem) :=
    orderedAlloc_le (by simp [orderedStart])
  have hwp := wp_physAlloc4KIB_new pools_start hrun (by decide) (by decide) (by decide)
    (fun p hp => absurd hp List.not_mem_nil) pools_start
  refine wp_mono hwp fun a s h => ?_
  rw [h.1]
  decide

lemma ordered_start : Ordered orderedStart.chunks orderedStart.mem [] :=
  ⟨by decide, by decide, fun c hc => absurd hc List.not_mem_nil⟩

/-- One page out of the chunk at 2MiB, in a run that stops short of the last chunk. -/
theorem poolList_invariant_ordered :
    ∃ s, physAlloc4KIB orderedSupply orderedStart = .ok (0x201000, s) ∧
      (∃ taken listed full, Ordered s.chunks s.mem taken ∧
        taken.Perm ((listed ++ full).map PoolView.base) ∧ PoolListOk s [0x201000] listed full) ∧
      ∀ a ∈ [0x201000], ∀ e, physFree4KIB orderedSupply a s = .error e → e ∉ poolPanics := by
  obtain ⟨a, s, hrun, rfl⟩ := wp_alloc_ordered.returns
  have hfirst : ¬ LastChunk orderedSupply orderedStart := by
    rintro ⟨-, c, n, m, hc, hlast⟩
    have hnext : orderedSupply.alloc (orderedStart.chunks, orderedStart.mem)
        = .ok (0x200000, 0x200000 + 0x200000, orderedStart.mem) :=
      orderedAlloc_le (by simp [orderedStart])
    rw [hnext] at hc
    obtain ⟨rfl, -⟩ := Prod.mk.inj (Except.ok.inj hc)
    exact absurd hlast (by decide)
  have hinv := (poolList_invariant_iff (P := fun s => ¬ LastChunk orderedSupply s)
    orderedSupply_supplies ordered_start rfl).mpr fun _ _ _ h => h
  obtain ⟨hlist, -, hfree⟩ := hinv s _ (.alloc .start hfirst hrun)
  exact ⟨s, hrun, hlist, hfree⟩

/-- With the last chunk of the direct map as the first one handed out -/
def lastStart : Phys Word := ⟨fun _ => 0, 0x7FFFFFE00000, 0⟩

theorem not_poolList_invariant : Ordered lastStart.chunks lastStart.mem [] ∧
    lastStart.pool4KIB = 0 ∧
    ¬ PoolListInvariant orderedSupply Ordered (fun _ => True) lastStart := by
  have h0 : Ordered lastStart.chunks lastStart.mem [] :=
    ⟨by decide, by decide, fun c hc => absurd hc List.not_mem_nil⟩
  have hrun : orderedSupply.alloc (lastStart.chunks, lastStart.mem)
      = .ok (0x7FFFFFE00000, 0x7FFFFFE00000 + 0x200000, lastStart.mem) :=
    orderedAlloc_le (by simp [lastStart])
  refine ⟨h0, rfl, fun h => ?_⟩
  have hinv : PoolsInv Ordered lastStart [] [] [] [] :=
    ⟨pools_start, h0, .nil, .nil⟩
  have hbad := hinv.alloc_lastChunk orderedSupply_supplies ⟨rfl, _, _, _, hrun, by decide⟩
  exact (h lastStart [] .start).2.1 trivial _ hbad (by decide)

end Bikeshed.PhysAlloc
