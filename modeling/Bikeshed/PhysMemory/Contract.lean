import Bikeshed.PhysMemory.PageWrites

/-!
# The physical memory allocator meets the paging code's contract

What `PhysHeap` asks of an allocator is proved here of the functions of `phys_alloc.c`. `Ledger`
is their static variables with the blocks that are in use, which no function looks at except for
the frees: a free that the allocator is not made for ends the run. That is a free of a block it
has not handed out, or of the last page in use of a pool on the list, after which the pool's chunk
is put on the stack under a wrong address.
-/

namespace Bikeshed.PhysAlloc

open Lib

/-- `stack_2MIB` and `pool_4KIB` -/
structure Vars where
  chunks : Stack
  pool4KIB : Word

/-- The variables of the allocator and memory make up its state. -/
def Vars.at (v : Vars) (m : Mem) : Phys Stack := ⟨m, v.chunks, v.pool4KIB⟩

/-- The state without memory -/
def Phys.vars (s : Phys Stack) : Vars := ⟨s.chunks, s.pool4KIB⟩

@[simp] lemma Phys.vars_at (s : Phys Stack) : s.vars.at s.mem = s := rfl

@[simp] lemma Vars.at_vars (v : Vars) (m : Mem) : (v.at m).vars = v := rfl

@[simp] lemma Vars.at_mem (v : Vars) (m : Mem) : (v.at m).mem = m := rfl

/-- The functions of `phys_alloc.h`. -/
def kernelAllocator : PhysAllocator Vars where
  alloc4KIB v m := (physAlloc4KIB stackSupply (v.at m)).map fun r => (r.1, r.2.vars, r.2.mem)
  alloc2MIB v m := (onChunks physAlloc2MIB (v.at m)).map fun r => (r.1, r.2.vars, r.2.mem)
  free4KIB p v m := (physFree4KIB stackSupply p (v.at m)).map fun r => (r.2.vars, r.2.mem)
  free2MIB p v m := (onChunks (physFree2MIB p) (v.at m)).map fun r => (r.2.vars, r.2.mem)

/-- The variables, and the blocks that are handed out -/
structure Ledger where
  vars : Vars
  large : List Word
  small : List Word

instance (s : Phys Stack) (a : Word) : Decidable (Completes s a) :=
  inferInstanceAs (Decidable (_ ∧ _))

/-- The functions of the code, which stop at a free that they would mishandle -/
def ledgerAllocator : PhysAllocator Ledger where
  alloc4KIB a m := (kernelAllocator.alloc4KIB a.vars m).map fun r =>
    (r.1, ⟨r.2.1, a.large, r.1 :: a.small⟩, r.2.2)
  alloc2MIB a m := (kernelAllocator.alloc2MIB a.vars m).map fun r =>
    (r.1, ⟨r.2.1, if r.1 = 0 then a.large else r.1 :: a.large, a.small⟩, r.2.2)
  free4KIB p a m :=
    if p ∈ a.small ∧ ¬ Completes (a.vars.at m) p then
      (kernelAllocator.free4KIB p a.vars m).map fun r => (⟨r.1, a.large, a.small.erase p⟩, r.2)
    else .error "bad free"
  free2MIB p a m :=
    if p ∈ a.large then
      (kernelAllocator.free2MIB p a.vars m).map fun r => (⟨r.1, a.large.erase p, a.small⟩, r.2)
    else .error "bad free"

/-- The 2MiB chunks that the allocator starts with, and the blocks in use that it never had, such
as the kernel's PML4. -/
structure Arena where
  supply : List Word
  image : List Block
  ok : SupplyOk supply
  below : ∀ c ∈ supply, c.toNat + 2 ^ 21 ≤ 2 ^ 39
  disjoint : image.Pairwise Block.Disjoint
  apart : ∀ b ∈ image, ∀ c ∈ supply, (page2MIB c).Disjoint b

/-- The blocks in use. -/
def Arena.own (R : Arena) (a : Ledger) : List Block :=
  a.large.map page2MIB ++ (a.small.map page4KIB ++ R.image)

/-- The allocator is in order, with the blocks of the ledger handed out. -/
def Arena.Valid (R : Arena) (a : Ledger) (m : Mem) : Prop :=
  ∃ chunks listed full, AllocInv R.supply (a.vars.at m) a.large a.small chunks listed full

variable {R : Arena} {a a' : Ledger} {b c p : Word} {m m' : Mem} {s s' : Phys Stack}
  {large small chunks bs : List Word} {listed full : List PoolView}

-- known by what is proved of its outcomes
attribute [local irreducible] physFree4KIB

/-! ## Where the blocks lie -/

namespace AllocInv

/-- A page in use belongs to a pool. -/
lemma exists_pool {supply : List Word} (h : AllocInv supply s large small chunks listed full)
    (hp : p ∈ small) : ∃ q ∈ listed ++ full, p ∈ q.used := by
  have hmem := h.small.mem_iff.mp hp
  rwa [inUse, List.mem_flatMap] at hmem

variable (h : AllocInv R.supply s large small chunks listed full)

include h in
/-- Pools are made of chunks that are not handed out as large blocks. -/
lemma base_mem {q : PoolView} (hq : q ∈ listed ++ full) :
    q.base ∈ R.supply ∧ q.base ∉ large := by
  have hb : q.base ∈ (listed ++ full).map PoolView.base := List.mem_map_of_mem hq
  have hnd := h.nodup_account R.ok.slots
  refine ⟨h.mem_supply (List.mem_append_right _ (List.mem_append_left _ hb)), fun hl => ?_⟩
  exact (List.nodup_append.mp (List.nodup_append.mp hnd).2.1).2.2 _ hb _ hl rfl

include h in
/-- Large blocks are chunks. -/
lemma large_mem (hc : c ∈ large) : c ∈ R.supply := h.mem_supply (by simp [hc])

include h in
/-- A small block lies in a chunk, behind the record of its pool. -/
lemma small_lies (hp : p ∈ small) : 4096 ∣ p.toNat ∧ 0 < p.toNat ∧
    ∃ c ∈ R.supply, c ∉ large ∧ c.toNat + 4096 ≤ p.toNat ∧ p.toNat + 4096 ≤ c.toNat + 2 ^ 21 := by
  obtain ⟨q, hq, hpq⟩ := h.exists_pool hp
  obtain ⟨hdvd, h1, h2⟩ := (h.pools.sound q hq).toNat_mem (List.mem_append_right _ hpq)
  exact ⟨hdvd, by omega, q.base, (h.base_mem hq).1, (h.base_mem hq).2, h1, h2⟩

include h in
/-- The first page of a chunk that is not in use as a whole is apart from all that is. -/
lemma record_apart (hc : c ∈ R.supply) (hcl : c ∉ large) {b : Block}
    (hb : b ∈ large.map page2MIB ++ (small.map page4KIB ++ R.image)) :
    (page4KIB c).Disjoint b := by
  have hdvd := R.ok.aligned c hc
  rw [List.mem_append, List.mem_append] at hb
  rcases hb with hb | hb | hb
  · obtain ⟨d, hd, rfl⟩ := List.mem_map.mp hb
    have hne : c ≠ d := fun he => hcl (he ▸ hd)
    have hdis := Block.disjoint_of_dvd hdvd (R.ok.aligned d (h.large_mem hd)) hne
    rcases hdis with hdis | hdis
    · left
      dsimp only at hdis ⊢
      omega
    · exact .inr hdis
  · obtain ⟨p, hp, rfl⟩ := List.mem_map.mp hb
    obtain ⟨q, hq, hpq⟩ := h.exists_pool hp
    exact (h.pools.sound q hq).disjoint_record (List.mem_append_right _ hpq) hdvd
  · rcases R.apart b hb c hc with hdis | hdis
    · left
      dsimp only at hdis ⊢
      omega
    · exact .inr hdis

include h in
/-- All blocks in use are disjoint. -/
lemma own_disjoint : (large.map page2MIB ++ (small.map page4KIB ++ R.image)).Pairwise
    Block.Disjoint := by
  have hnd := h.nodup_account R.ok.slots
  have hlarge : large.Nodup := (List.nodup_append.mp (List.nodup_append.mp hnd).2.1).2.1
  have hsmall : small.Nodup := h.small.nodup_iff.mpr (nodup_inUse h.pools)
  rw [List.pairwise_append, List.pairwise_append]
  refine ⟨?_, ⟨?_, R.disjoint, fun x hx y hy => ?_⟩, fun x hx y hy => ?_⟩
  · rw [List.pairwise_map]
    exact hlarge.imp_of_mem fun hc hd hne => Block.disjoint_of_dvd
      (R.ok.aligned _ (h.large_mem hc)) (R.ok.aligned _ (h.large_mem hd)) hne
  · rw [List.pairwise_map]
    exact hsmall.imp_of_mem fun hc hd hne =>
      Block.disjoint_of_dvd (h.small_lies hc).1 (h.small_lies hd).1 hne
  · obtain ⟨p, hp, rfl⟩ := List.mem_map.mp hx
    obtain ⟨-, -, c, hc, -, h1, h2⟩ := h.small_lies hp
    rcases R.apart y hy c hc with hdis | hdis
    · left
      dsimp only at hdis ⊢
      omega
    · right
      dsimp only at hdis ⊢
      omega
  · obtain ⟨d, hd, rfl⟩ := List.mem_map.mp hx
    rcases List.mem_append.mp hy with hy | hy
    · -- a page in use lies in the chunk of a pool
      obtain ⟨p, hp, rfl⟩ := List.mem_map.mp hy
      obtain ⟨-, -, c, hc, hcl, h1, h2⟩ := h.small_lies hp
      have hne : d ≠ c := fun he => hcl (he ▸ hd)
      rcases Block.disjoint_of_dvd (R.ok.aligned d (h.large_mem hd)) (R.ok.aligned c hc) hne
        with hdis | hdis
      · left
        dsimp only at hdis ⊢
        omega
      · right
        dsimp only at hdis ⊢
        omega
    · exact R.apart y hy d (h.large_mem hd)

include h in
/-- What is written next to the blocks in use. -/
lemma agree (hbs : ∀ c ∈ bs, c ∈ R.supply ∧ c ∉ large) {P P' : Mem}
    (hw : WritesPages bs P P') :
    AgreeOn (large.map page2MIB ++ (small.map page4KIB ++ R.image)) P P' :=
  hw.agreeOn fun _ hb c hc => h.record_apart (hbs c hc).1 (hbs c hc).2 hb

/-! ## The four functions -/

/-- A block has been handed out, and the account still holds. -/
lemma handed {own own' : List Block} {P P' : Mem} {b : Block} (hdis : own'.Pairwise Block.Disjoint)
    (hperm : own'.Perm (b :: own)) (hdvd : b.size ∣ b.base.toNat) (hpos : 0 < b.base.toNat)
    (hend : b.base.toNat + b.size ≤ 2 ^ 39) (hagree : AgreeOn own P P') :
    Handed own own' P P' b := by
  have hpair := (hperm.pairwise_iff fun hd => Block.Disjoint.symm hd).mp hdis
  exact ⟨hdvd, hpos, hend, (List.pairwise_cons.mp hpair).1, hperm, hagree⟩

/-- A page that is handed out is none of the others. -/
lemma handed_small {listed' full' : List PoolView} {chunks' : List Word}
    (h' : AllocInv R.supply s' large (p :: small) chunks' listed' full')
    (hagree : AgreeOn (large.map page2MIB ++ (small.map page4KIB ++ R.image)) (phys s.mem)
      (phys s'.mem)) :
    Handed (large.map page2MIB ++ (small.map page4KIB ++ R.image))
      (large.map page2MIB ++ ((p :: small).map page4KIB ++ R.image)) (phys s.mem) (phys s'.mem)
      (page4KIB p) := by
  obtain ⟨hdvd, hpos, c, hc, -, -, hend⟩ := h'.small_lies List.mem_cons_self
  have hbelow := R.below c hc
  exact handed h'.own_disjoint List.perm_middle hdvd hpos (by dsimp only; omega) hagree

include h in
/-- A page comes out of the first pool on the list, or out of a new one. -/
lemma alloc4_contract : wp (physAlloc4KIB stackSupply)
    (fun p s' => (∃ chunks' listed' full',
      AllocInv R.supply s' large (p :: small) chunks' listed' full' ∧
        chunks.length ≤ chunks'.length + 1) ∧
      AgreeOn (large.map page2MIB ++ (small.map page4KIB ++ R.image)) (phys s.mem) (phys s'.mem))
    (fun _ => chunks = []) s := by
  cases listed with
  | cons q listed =>
    obtain ⟨a, q', ht⟩ := PoolView.take_isSome (h.pools.available q List.mem_cons_self).2
      (h.pools.sound q List.mem_cons_self).bump
    have hlisted : wp (physAlloc4KIB stackSupply) _ (fun _ => False) s :=
      wp_physAlloc4KIB_listed h.pools ht
    have hwp := wp_and (wp_alloc4_listed R.ok.slots h ht) hlisted
    refine wp_weaken (wp_mono hwp ?_) fun _ he => he.1.elim
    rintro p s' ⟨⟨rfl, hinv⟩, -, -, hw, -⟩
    refine ⟨?_, h.agree (fun c hc => ?_) (hw.writesPages (List.mem_singleton_self _))⟩
    · split at hinv
      · exact ⟨chunks, listed, q' :: full, hinv, Nat.le_succ _⟩
      · exact ⟨chunks, q' :: listed, full, hinv, Nat.le_succ _⟩
    · rw [List.mem_singleton.mp hc]
      exact h.base_mem List.mem_cons_self
  | nil =>
    cases chunks with
    | nil =>
      refine wp_weaken (E := fun _ => True) (wp_iff.mpr ⟨fun a s' hrun => ?_, fun _ _ => trivial⟩)
        fun _ _ => rfl
      -- there is no chunk for a pool
      have hnull : s.pool4KIB = 0 := h.pools.null_iff.mpr rfl
      have hpanic : wp (physAlloc4KIB stackSupply) (fun _ _ => False) (fun _ => True) s := by
        rw [physAlloc4KIB, ensurePool, wp_bind, wp_bind, wp_get, if_pos hnull, wp_bind]
        refine wp_of_ok (onChunks_ok (physAlloc2MIB_nil h.stack)) ?_
        rw [if_pos rfl]
        exact wp_panicWith.mpr trivial
      exact (hpanic.ok hrun).elim
    | cons c chunks =>
      have hc : c ∈ R.supply := h.mem_supply List.mem_cons_self
      have hbelow := R.below c hc
      have hlt : c.toNat + 2 ^ 21 < 2 ^ 47 := by omega
      have hnd := h.nodup_account R.ok.slots
      have hcl : c ∉ large := fun hl => (List.nodup_cons.mp hnd).1 (by simp [hl])
      obtain ⟨t, hrun, -⟩ := physAlloc2MIB_cons h.stack (R.ok.slots.place_ne c hc)
      have hfresh : ∀ p ∈ full, p.base ≠ c := fun p hp he =>
        h.base_not_mem R.ok.slots hp (he ▸ List.mem_cons_self)
      have hwp := wp_and (wp_alloc4_new R.ok.slots h hlt) (wp_physAlloc4KIB_new h.pools hrun
        (R.ok.ne_zero c hc) (R.ok.aligned c hc) hlt hfresh h.pools)
      refine wp_weaken (wp_mono hwp ?_) fun _ he => he.1.elim
      rintro p s' ⟨⟨-, hinv⟩, -, -, hw, -⟩
      refine ⟨⟨chunks, _, full, hinv, le_rfl⟩, h.agree (fun d hd => ?_)
        (hw.writesPages (List.mem_singleton_self _))⟩
      rw [List.mem_singleton.mp hd]
      exact ⟨hc, hcl⟩

include h in
/-- The chunk on top of the stack; memory is left alone. -/
lemma alloc2_contract : wp (onChunks physAlloc2MIB)
    (fun c s' => s'.mem = s.mem ∧ ∃ chunks',
      AllocInv R.supply s' (if c = 0 then large else c :: large) small chunks' listed full ∧
        chunks.length ≤ chunks'.length + 1 ∧ (chunks ≠ [] → c ≠ 0)) (fun _ => False) s := by
  cases chunks with
  | nil =>
    refine wp_of_ok (onChunks_ok (physAlloc2MIB_nil h.stack)) ⟨rfl, [], ?_, by simp, by simp⟩
    rw [if_pos rfl]
    exact h
  | cons c chunks =>
    have hc : c ∈ R.supply := h.mem_supply List.mem_cons_self
    have hc0 := R.ok.ne_zero c hc
    obtain ⟨t, hrun, hstack⟩ := physAlloc2MIB_cons h.stack (R.ok.slots.place_ne c hc)
    refine wp_of_ok (onChunks_ok hrun) ⟨rfl, chunks, ?_, le_rfl, fun _ => hc0⟩
    rw [if_neg hc0]
    refine ⟨hstack, h.pools, ?_, h.small⟩
    refine List.Perm.trans ?_ h.account
    exact (List.perm_middle.append_left chunks).trans List.perm_middle

include h in
/-- A large block comes back. -/
lemma free2_contract (hc : c ∈ large) : wp (onChunks (physFree2MIB c))
    (fun _ s' => AllocInv R.supply s' (large.erase c) small (c :: chunks) listed full ∧
      Returned (large.map page2MIB ++ (small.map page4KIB ++ R.image))
        ((large.erase c).map page2MIB ++ (small.map page4KIB ++ R.image)) (phys s.mem)
        (phys s'.mem) (page2MIB c)) (fun _ => False) s := by
  have hdvd := R.ok.aligned c (h.large_mem hc)
  have hnd := h.nodup_account R.ok.slots
  have hlarge : large.Nodup := (List.nodup_append.mp (List.nodup_append.mp hnd).2.1).2.1
  have hwrites : wp (onChunks (physFree2MIB c))
      (fun _ s' => WritesPages [c] (phys s.mem) (phys s'.mem)) (fun _ => True) s := by
    have hmask : mask2MIB (physToVirt c) = physToVirt c := by
      have hdvd' := dvd_physToVirt hdvd
      apply word_ext
      rw [toNat_mask2MIB]
      omega
    have hrun : physFree2MIB c (s.chunks, s.mem)
        = .ok ((), stackPush stack2MIB (physToVirt c) (s.chunks, s.mem)) := by
      rw [physFree2MIB, hmask]
      rfl
    rw [stackPush_2MIB h.stack] at hrun
    refine wp_of_ok (onChunks_ok hrun) ?_
    show WritesPages [c] (phys s.mem) (phys (store64 s.mem (physToVirt c) s.chunks.top))
    have hw := within_store64 (P := phys s.mem) (dvd_trans (by norm_num) hdvd) (k := 0)
      (by norm_num) s.chunks.top
    rw [show c + BitVec.ofNat 64 (8 * 0) = c by simp, ← phys_store64] at hw
    exact hw.writesPages (List.mem_singleton_self _)
  refine wp_weaken (wp_mono (wp_and (wp_free2 R.ok.slots h hc) hwrites) ?_) fun _ he => he.1
  rintro - s' ⟨hinv, hw⟩
  refine ⟨hinv, ((List.perm_cons_erase hc).map page2MIB).append_right _, hinv.agree ?_ hw⟩
  intro d hd
  rw [List.mem_singleton.mp hd]
  exact ⟨h.large_mem hc, hlarge.not_mem_erase⟩

include h in
/-- A page comes back, and it is not the last one of a listed pool. -/
lemma free4_contract (hp : p ∈ small) (hok : ¬ Completes s p) : wp (physFree4KIB stackSupply p)
    (fun _ s' => (∃ chunks listed full,
        AllocInv R.supply s' large (small.erase p) chunks listed full) ∧
      Returned (large.map page2MIB ++ (small.map page4KIB ++ R.image))
        (large.map page2MIB ++ ((small.erase p).map page4KIB ++ R.image)) (phys s.mem)
        (phys s'.mem) (page4KIB p)) (fun _ => True) s := by
  have hperm : (large.map page2MIB ++ (small.map page4KIB ++ R.image)).Perm
      (page4KIB p :: (large.map page2MIB ++ ((small.erase p).map page4KIB ++ R.image))) := by
    refine List.Perm.trans ?_ List.perm_middle
    exact (((List.perm_cons_erase hp).map page4KIB).append_right _).append_left _
  have hpair := (hperm.pairwise_iff fun hd => Block.Disjoint.symm hd).mp h.own_disjoint
  have hwp : wp (physFree4KIB stackSupply p) _ _ s :=
    wp_and (wp_free4 R.ok.slots h hp hok) (h.writes_free4 hp hok)
  rw [wp_iff] at hwp ⊢
  refine ⟨fun _ s' hrun => ?_, fun _ _ => trivial⟩
  obtain ⟨⟨listed', full', hinv⟩, bs, hbs, hw⟩ := hwp.1 _ s' hrun
  refine ⟨⟨chunks, listed', full', hinv⟩, hperm, hw.agreeOn fun b hb c hc => ?_⟩
  rcases List.mem_cons.mp hc with rfl | hc
  · exact (List.pairwise_cons.mp hpair).1 b hb
  · obtain ⟨q, hq, rfl⟩ := List.mem_map.mp (hbs c hc)
    exact h.record_apart (h.base_mem hq).1 (h.base_mem hq).2
      (hperm.mem_iff.mpr (List.mem_cons_of_mem _ hb))

/-! ## Clients -/

/-- What lies outside the chunks is no concern of the allocator. -/
lemma congr_supply (h : AllocInv R.supply s large small chunks listed full)
    (hm : ∀ c ∈ R.supply, ∀ x, (page2MIB c).Has x → phys m x = phys s.mem x) :
    AllocInv R.supply { s with mem := m } large small chunks listed full := by
  refine ⟨h.stack.keep (h.aligned_chunks R.ok.slots) fun c hc x hx => hm c ?_ x hx,
    h.pools.keeps fun c hc x hx => hm c ?_ x hx, h.account, h.small⟩
  · exact h.mem_supply (List.mem_append_left _ hc)
  · exact h.mem_supply (List.mem_append_right _ (List.mem_append_left _ hc))

include h in
/-- Clients write into blocks in use, those the allocator never had included. -/
lemma write_own (hm : ∀ x,
    (∀ b ∈ large.map page2MIB ++ (small.map page4KIB ++ R.image), ¬ b.Has x) →
      phys m x = phys s.mem x) :
    AllocInv R.supply { s with mem := m } large small chunks listed full := by
  classical
  -- first what is written to the chunks, then the rest
  set m1 : Mem := fun y => if ∃ c ∈ R.supply, (page2MIB c).Has (virtToPhys y) then m y else s.mem y
    with hm1
  have hphys : ∀ x, phys m1 x
      = if ∃ c ∈ R.supply, (page2MIB c).Has x then phys m x else phys s.mem x := by
    intro x
    simp only [phys, hm1, virtToPhys_physToVirt]
  have h1 : AllocInv R.supply { s with mem := m1 } large small chunks listed full := by
    refine h.write R.ok.slots fun x hlarge hsmall => ?_
    rw [hphys]
    split
    · rename_i hx
      obtain ⟨c, hc, hx⟩ := hx
      refine hm x fun b hb => ?_
      rw [List.mem_append, List.mem_append] at hb
      rcases hb with hb | hb | hb
      · obtain ⟨d, hd, rfl⟩ := List.mem_map.mp hb
        exact hlarge d hd
      · obtain ⟨p, hp, rfl⟩ := List.mem_map.mp hb
        exact hsmall p hp
      · exact fun hxb => (R.apart b hb c hc).not_has hxb hx
    · rfl
  refine h1.congr_supply fun c hc x hx => ?_
  rw [hphys, if_pos ⟨c, hc, hx⟩]

end AllocInv

/-! ## The contract -/

lemma mapped_ok {ε α β : Type} {x : Except ε α} {g : α → β} {d : β} (h : x.map g = .ok d) :
    ∃ r, x = .ok r ∧ g r = d := by
  cases x with
  | error e => cases h
  | ok r => exact ⟨r, rfl, Except.ok.inj h⟩

/-- The ledger follows `phys_alloc_4KIB`. -/
lemma ledger_alloc4 (h : ledgerAllocator.alloc4KIB a m = .ok (p, a', m')) :
    kernelAllocator.alloc4KIB a.vars m = .ok (p, a'.vars, m') ∧ a'.large = a.large ∧
      a'.small = p :: a.small := by
  simp only [ledgerAllocator] at h
  obtain ⟨r, hrun, he⟩ := mapped_ok h
  cases he
  exact ⟨hrun, rfl, rfl⟩

/-- NULL is no block. -/
lemma ledger_alloc2 (h : ledgerAllocator.alloc2MIB a m = .ok (p, a', m')) :
    kernelAllocator.alloc2MIB a.vars m = .ok (p, a'.vars, m') ∧
      a'.large = (if p = 0 then a.large else p :: a.large) ∧ a'.small = a.small := by
  simp only [ledgerAllocator] at h
  obtain ⟨r, hrun, he⟩ := mapped_ok h
  cases he
  exact ⟨hrun, rfl, rfl⟩

/-- Only pages that are handed out come back. -/
lemma ledger_free4 (h : ledgerAllocator.free4KIB p a m = .ok (a', m')) :
    p ∈ a.small ∧ ¬ Completes (a.vars.at m) p ∧
      kernelAllocator.free4KIB p a.vars m = .ok (a'.vars, m') ∧ a'.large = a.large ∧
      a'.small = a.small.erase p := by
  simp only [ledgerAllocator] at h
  split at h
  · rename_i hp
    obtain ⟨r, hrun, he⟩ := mapped_ok h
    cases he
    exact ⟨hp.1, hp.2, hrun, rfl, rfl⟩
  · cases h

/-- Only large blocks that are handed out come back. -/
lemma ledger_free2 (h : ledgerAllocator.free2MIB p a m = .ok (a', m')) :
    p ∈ a.large ∧ kernelAllocator.free2MIB p a.vars m = .ok (a'.vars, m') ∧
      a'.large = a.large.erase p ∧ a'.small = a.small := by
  simp only [ledgerAllocator] at h
  split at h
  · rename_i hp
    obtain ⟨r, hrun, he⟩ := mapped_ok h
    cases he
    exact ⟨hp, hrun, rfl, rfl⟩
  · cases h

/-! The same calls, on the state of `phys_alloc.c` -/

/-- The interface is `phys_alloc_4KIB` on the state. -/
lemma kernel_alloc4 {v v' : Vars} (h : kernelAllocator.alloc4KIB v m = .ok (p, v', m')) :
    physAlloc4KIB stackSupply (v.at m) = .ok (p, v'.at m') := by
  simp only [kernelAllocator] at h
  obtain ⟨r, hrun, he⟩ := mapped_ok h
  cases he
  exact hrun

lemma kernel_alloc2 {v v' : Vars} (h : kernelAllocator.alloc2MIB v m = .ok (p, v', m')) :
    onChunks physAlloc2MIB (v.at m) = .ok (p, v'.at m') := by
  simp only [kernelAllocator] at h
  obtain ⟨r, hrun, he⟩ := mapped_ok h
  cases he
  exact hrun

lemma kernel_free4 {v v' : Vars} (h : kernelAllocator.free4KIB p v m = .ok (v', m')) :
    physFree4KIB stackSupply p (v.at m) = .ok ((), v'.at m') := by
  simp only [kernelAllocator] at h
  obtain ⟨r, hrun, he⟩ := mapped_ok h
  cases he
  exact hrun

lemma kernel_free2 {v v' : Vars} (h : kernelAllocator.free2MIB p v m = .ok (v', m')) :
    onChunks (physFree2MIB p) (v.at m) = .ok ((), v'.at m') := by
  simp only [kernelAllocator] at h
  obtain ⟨r, hrun, he⟩ := mapped_ok h
  cases he
  exact hrun

namespace Arena

/-- A page is handed out as the contract says. -/
lemma Valid.alloc4 (hv : R.Valid a m) (h : ledgerAllocator.alloc4KIB a m = .ok (p, a', m')) :
    R.Valid a' m' ∧ a.vars.chunks.size.toNat ≤ a'.vars.chunks.size.toNat + 1 ∧
      Handed (R.own a) (R.own a') (phys m) (phys m') (page4KIB p) := by
  obtain ⟨chunks, listed, full, hinv⟩ := hv
  obtain ⟨hrun, hlarge, hsmall⟩ := ledger_alloc4 h
  obtain ⟨⟨chunks', listed', full', hinv', hlen⟩, hagree⟩ :=
    hinv.alloc4_contract.ok (kernel_alloc4 hrun)
  have hsize : a.vars.chunks.size.toNat = chunks.length := hinv.stack.size
  have hsize' : a'.vars.chunks.size.toNat = chunks'.length := hinv'.stack.size
  refine ⟨⟨chunks', listed', full', ?_⟩, by omega, ?_⟩
  · rw [hlarge, hsmall]
    exact hinv'
  · rw [own, own, hlarge, hsmall]
    exact hinv'.handed_small hagree

/-- So is a large block, if there is one. -/
lemma Valid.alloc2 (hv : R.Valid a m) (h : ledgerAllocator.alloc2MIB a m = .ok (p, a', m')) :
    R.Valid a' m' ∧ a.vars.chunks.size.toNat ≤ a'.vars.chunks.size.toNat + 1 ∧
      if p = 0 then (R.own a').Perm (R.own a) ∧ AgreeOn (R.own a) (phys m) (phys m')
      else Handed (R.own a) (R.own a') (phys m) (phys m') (page2MIB p) := by
  obtain ⟨chunks, listed, full, hinv⟩ := hv
  obtain ⟨hrun, hlarge, hsmall⟩ := ledger_alloc2 h
  obtain ⟨hmem, chunks', hinv', hlen, -⟩ := hinv.alloc2_contract.ok (kernel_alloc2 hrun)
  have hmem' : m' = m := hmem
  have hsize : a.vars.chunks.size.toNat = chunks.length := hinv.stack.size
  have hsize' : a'.vars.chunks.size.toNat = chunks'.length := hinv'.stack.size
  refine ⟨⟨chunks', listed, full, ?_⟩, by omega, ?_⟩
  · rw [hlarge, hsmall]
    exact hinv'
  · rw [own, own, hlarge, hsmall, hmem']
    split
    · exact ⟨.refl _, .refl _ _⟩
    · rename_i hp
      rw [if_neg hp] at hinv'
      have hmem : p ∈ p :: a.large := List.mem_cons_self
      have hsup := hinv'.large_mem hmem
      have hpos : 0 < p.toNat := by
        have hne := R.ok.ne_zero p hsup
        rw [Nat.pos_iff_ne_zero]
        exact fun h0 => hne (word_ext h0)
      exact AllocInv.handed hinv'.own_disjoint (.refl _) (R.ok.aligned p hsup) hpos
        (R.below p hsup) (.refl _ _)

/-- The functions of `phys_alloc.c` meet the contract. -/
def heap (R : Arena) : PhysHeap ledgerAllocator where
  own := R.own
  Valid := R.Valid
  room a := a.vars.chunks.size.toNat
  disjoint := by
    rintro a m ⟨chunks, listed, full, hinv⟩
    exact hinv.own_disjoint
  stable := by
    rintro a m m' ⟨chunks, listed, full, hinv⟩ hm
    exact ⟨chunks, listed, full, hinv.write_own hm⟩
  alloc4KIB hv h := hv.alloc4 h
  alloc2MIB hv h := hv.alloc2 h
  alloc4KIB_room := by
    rintro a m ⟨chunks, listed, full, hinv⟩ hpos
    have hsize : a.vars.chunks.size.toNat = chunks.length := hinv.stack.size
    cases hrun : physAlloc4KIB stackSupply (a.vars.at m) with
    | error e =>
      have hnil : chunks = [] := hinv.alloc4_contract.error hrun
      rw [hnil] at hsize
      exact absurd hsize hpos.ne'
    | ok r => exact ⟨_, _, _, by simp only [ledgerAllocator, kernelAllocator, hrun]; rfl⟩
  alloc2MIB_room := by
    rintro a m ⟨chunks, listed, full, hinv⟩ hpos
    have hsize : a.vars.chunks.size.toNat = chunks.length := hinv.stack.size
    obtain ⟨c, s', hrun, -, chunks', -, -, hne⟩ := hinv.alloc2_contract.returns
    refine ⟨c, _, _, hne ?_, by simp only [ledgerAllocator, kernelAllocator, hrun]; rfl⟩
    rintro rfl
    exact absurd hsize hpos.ne'

/-- What is given back may be handed out again. -/
lemma freesReturn (R : Arena) : R.heap.FreesReturn where
  free4KIB := by
    rintro a a' m m' p ⟨chunks, listed, full, hinv⟩ - h
    obtain ⟨hp, hok, hrun, hlarge, hsmall⟩ := ledger_free4 h
    obtain ⟨⟨chunks', listed', full', hinv'⟩, hret⟩ :=
      (hinv.free4_contract hp hok).ok (kernel_free4 hrun)
    refine ⟨⟨chunks', listed', full', ?_⟩, ?_⟩
    · rw [hlarge, hsmall]
      exact hinv'
    · show Returned (R.own a) (R.own a') _ _ _
      rw [own, own, hlarge, hsmall]
      exact hret
  free2MIB := by
    rintro a a' m m' p ⟨chunks, listed, full, hinv⟩ - h
    obtain ⟨hp, hrun, hlarge, hsmall⟩ := ledger_free2 h
    obtain ⟨hinv', hret⟩ := (hinv.free2_contract hp).ok (kernel_free2 hrun)
    refine ⟨⟨p :: chunks, listed, full, ?_⟩, ?_⟩
    · rw [hlarge, hsmall]
      exact hinv'
    · show Returned (R.own a) (R.own a') _ _ _
      rw [own, own, hlarge, hsmall]
      exact hret

end Arena

end Bikeshed.PhysAlloc
