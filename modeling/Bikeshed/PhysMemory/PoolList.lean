import Bikeshed.Lib.Wp
import Bikeshed.PhysMemory.PoolTheorems

/-!
# The pool list

`Pools`: the pools with a page to hand out are on the list, in this order, and all others have
every page in use. The `prev` pointer of the head is left open: when the head before it ran
out of pages nobody cleared it, and nothing reads it before it is set again.
-/

namespace Bikeshed.PhysAlloc

open Lib

variable {σ : Type} {supply : ChunkSupply σ} {P P' : Mem} {head c a : Word} {p q : PoolView}
  {l r listed full : List PoolView} {flag : Byte} {s s' : Phys σ}

structure Pools (P : Mem) (head : Word) (listed full : List PoolView) : Prop where
  list : Linked physToVirt (fun c => (header P c).field .next) head (listed.map PoolView.base)
  prev : (listed.map PoolView.base).IsChain fun b c => (header P c).field .prev = physToVirt b
  available : ∀ p ∈ listed, PoolAt P p 1 ∧ ¬ p.isEmpty
  exhausted : ∀ p ∈ full, PoolAt P p 0 ∧ p.isEmpty
  sound : ∀ p ∈ listed ++ full, p.Sound
  distinct : ((listed ++ full).map PoolView.base).Nodup

/-! ## Chunks do not interfere -/

lemma has_chunk_of_record {x : Word} (hx : (page4KIB c).Has x) : (page2MIB c).Has x := by
  obtain ⟨h1, h2⟩ := hx
  dsimp only at h1 h2
  exact ⟨h1, by show x.toNat < c.toNat + 2 ^ 21; omega⟩

lemma Within.chunk (h : Within (page4KIB c) P P') : Within (page2MIB c) P P' :=
  h.mono fun _ => has_chunk_of_record

/-- A chunk that is not `q`'s is not touched by what happens in `q`'s. -/
lemma Within.other (hw : Within (page2MIB c) P P') (hc : 2 ^ 21 ∣ c.toNat) (hp : p.Sound)
    (hne : p.base ≠ c) {x : Word} (hx : (page2MIB p.base).Has x) : P' x = P x :=
  hw.agree (Block.disjoint_of_dvd hc hp.aligned (Ne.symm hne)) x hx

lemma Within.other_header (hw : Within (page2MIB c) P P') (hc : 2 ^ 21 ∣ c.toNat) (hp : p.Sound)
    (hne : p.base ≠ c) : header P' p.base = header P p.base :=
  header_congr hp.page_aligned fun _ hx => hw.other hc hp hne (has_chunk_of_record hx)

lemma Within.other_pool (hw : Within (page2MIB c) P P') (hc : 2 ^ 21 ∣ c.toNat) (hp : p.Sound)
    (hne : p.base ≠ c) (h : PoolAt P p flag) : PoolAt P' p flag :=
  h.congr hp (fun _ hx => hw.other hc hp hne (has_chunk_of_record hx)) fun _ ha _ hx =>
    hw.other hc hp hne (hp.has_of_page (List.mem_append_left _ ha) hx)

namespace Pools

/-- What keeps records and free pages keeps the pools. -/
lemma congr (h : Pools P head listed full)
    (hP : ∀ p ∈ listed ++ full, (∀ x, (page4KIB p.base).Has x → P' x = P x) ∧
      ∀ a ∈ p.free, ∀ x, (page4KIB a).Has x → P' x = P x) : Pools P' head listed full := by
  have hrec : ∀ p ∈ listed, header P' p.base = header P p.base := fun p hp =>
    have hp' := List.mem_append_left full hp
    header_congr (h.sound p hp').page_aligned (hP p hp').1
  refine ⟨h.list.congr fun c hc => ?_, ?_, fun p hp => ?_, fun p hp => ?_, h.sound, h.distinct⟩
  · obtain ⟨p, hp, rfl⟩ := List.mem_map.mp hc
    rw [hrec p hp]
  · refine h.prev.imp_of_mem_imp fun b c _ hc hbc => ?_
    obtain ⟨p, hp, rfl⟩ := List.mem_map.mp hc
    rw [hrec p hp, hbc]
  · have hp' := List.mem_append_left full hp
    exact ⟨(h.available p hp).1.congr (h.sound p hp') (hP p hp').1 (hP p hp').2,
      (h.available p hp).2⟩
  · have hp' := List.mem_append_right listed hp
    exact ⟨(h.exhausted p hp).1.congr (h.sound p hp') (hP p hp').1 (hP p hp').2,
      (h.exhausted p hp).2⟩

lemma null_iff (h : Pools P head listed full) : head = 0 ↔ listed = [] := by
  rw [h.list.null_iff, List.map_eq_nil_iff]
  intro c hc
  obtain ⟨p, hp, rfl⟩ := List.mem_map.mp hc
  exact physToVirt_ne (h.sound p (List.mem_append_left _ hp)).base_lt

/-- The other pools lie in other chunks. -/
lemma base_ne (h : Pools P head (l ++ p :: r) full) :
    ∀ q ∈ l ++ r ++ full, q.base ≠ p.base := by
  have hperm : (((l ++ p :: r) ++ full).map PoolView.base).Perm
      ((p :: (l ++ r ++ full)).map PoolView.base) := by
    refine List.Perm.map _ ?_
    rw [List.append_assoc, List.cons_append, List.append_assoc]
    exact List.perm_middle
  have hnd := hperm.nodup_iff.mp h.distinct
  rw [List.map_cons, List.nodup_cons] at hnd
  intro q hq he
  exact hnd.1 (he ▸ List.mem_map_of_mem hq)

lemma base_ne_full (h : Pools P head listed (l ++ p :: r)) :
    ∀ q ∈ listed ++ (l ++ r), q.base ≠ p.base := by
  have hperm : ((listed ++ (l ++ p :: r)).map PoolView.base).Perm
      ((p :: (listed ++ (l ++ r))).map PoolView.base) := by
    refine List.Perm.map _ ?_
    rw [← List.append_assoc, ← List.append_assoc]
    exact List.perm_middle
  have hnd := hperm.nodup_iff.mp h.distinct
  rw [List.map_cons, List.nodup_cons] at hnd
  intro q hq he
  exact hnd.1 (he ▸ List.mem_map_of_mem hq)

/-- Writing into the chunk of a pool that is off the list leaves the others as they are. -/
lemma drop (h : Pools P head listed (l ++ p :: r)) (hw : Within (page2MIB p.base) P P') :
    Pools P' head listed (l ++ r) := by
  have hsub : ∀ {q}, q ∈ l ++ r → q ∈ l ++ p :: r := fun hq => by
    simp only [List.mem_append, List.mem_cons] at hq ⊢
    tauto
  have hne := h.base_ne_full
  have hc := (h.sound p (by simp)).aligned
  have hsound : ∀ q ∈ listed ++ (l ++ r), q.Sound := fun q hq => h.sound q <| by
    simp only [List.mem_append, List.mem_cons] at hq ⊢
    tauto
  have hrest : Pools P head listed (l ++ r) := by
    refine ⟨h.list, h.prev, h.available, fun q hq => h.exhausted q (hsub hq), hsound, ?_⟩
    have hperm : (listed ++ (l ++ p :: r)).Perm (p :: (listed ++ (l ++ r))) := by
      rw [← List.append_assoc, ← List.append_assoc]
      exact List.perm_middle
    exact (List.nodup_cons.mp ((hperm.map _).nodup_iff.mp h.distinct)).2
  exact hrest.congr fun q hq => ⟨fun x hx => hw.other hc (hsound q hq) (hne q hq)
    (has_chunk_of_record hx), fun a ha x hx => hw.other hc (hsound q hq) (hne q hq)
    ((hsound q hq).has_of_page (List.mem_append_left _ ha) hx)⟩

/-- A pool on the list has changed, but for its links. -/
lemma replace (h : Pools P head (l ++ p :: r) full) (hw : Within (page2MIB p.base) P P')
    (hb : q.base = p.base) (hnext : (header P' p.base).field .next = (header P p.base).field .next)
    (hprev : (header P' p.base).field .prev = (header P p.base).field .prev)
    (hq : PoolAt P' q 1) (hs : q.Sound) (hne : ¬ q.isEmpty) :
    Pools P' head (l ++ q :: r) full := by
  have hmem : p ∈ l ++ p :: r := List.mem_append_right _ List.mem_cons_self
  have hc := (h.sound p (List.mem_append_left _ hmem)).aligned
  have hbases : (l ++ q :: r).map PoolView.base = (l ++ p :: r).map PoolView.base := by
    simp [hb]
  have hother := h.base_ne
  -- links of the other pools
  have hlinks : ∀ c ∈ (l ++ p :: r).map PoolView.base,
      (header P' c).field .next = (header P c).field .next ∧
      (header P' c).field .prev = (header P c).field .prev := by
    intro c hc'
    obtain ⟨b, hb', rfl⟩ := List.mem_map.mp hc'
    by_cases he : b.base = p.base
    · rw [he]
      exact ⟨hnext, hprev⟩
    · rw [hw.other_header hc (h.sound b (List.mem_append_left _ hb')) he]
      exact ⟨rfl, rfl⟩
  refine ⟨?_, ?_, fun b hb' => ?_, fun b hb' => ?_, fun b hb' => ?_, ?_⟩
  · rw [hbases]
    exact h.list.congr fun c hc' => (hlinks c hc').1
  · rw [hbases]
    exact h.prev.imp_of_mem_imp fun b c _ hc' hbc => (hlinks c hc').2.trans hbc
  · have hcase : b = q ∨ b ∈ l ++ r := by
      simp only [List.mem_append, List.mem_cons] at hb' ⊢
      tauto
    rcases hcase with rfl | hb'
    · exact ⟨hq, hne⟩
    · have hb'' : b ∈ l ++ p :: r := by
        simp only [List.mem_append, List.mem_cons] at hb' ⊢
        tauto
      exact ⟨hw.other_pool hc (h.sound b (List.mem_append_left _ hb''))
        (hother b (List.mem_append_left _ hb')) (h.available b hb'').1, (h.available b hb'').2⟩
  · exact ⟨hw.other_pool hc (h.sound b (List.mem_append_right _ hb'))
      (hother b (List.mem_append_right _ hb')) (h.exhausted b hb').1, (h.exhausted b hb').2⟩
  · have hcase : b = q ∨ b ∈ l ++ p :: r ++ full := by
      simp only [List.mem_append, List.mem_cons] at hb' ⊢
      tauto
    rcases hcase with rfl | hb'
    · exact hs
    · exact h.sound b hb'
  · rw [List.map_append, hbases, ← List.map_append]
    exact h.distinct

/-- The head has no page left and comes off the list. -/
lemma retire (h : Pools P head (p :: listed) full) {head' : Word}
    (hw : Within (page2MIB p.base) P P') (hb : q.base = p.base)
    (hhead : head' = (header P p.base).field .next) (hq : PoolAt P' q 0) (hs : q.Sound)
    (he : q.isEmpty) : Pools P' head' listed (q :: full) := by
  have hc := (h.sound p List.mem_cons_self).aligned
  have hne : ∀ b ∈ listed ++ full, b.base ≠ p.base :=
    h.base_ne (l := [])
  have hsound : ∀ b ∈ listed ++ full, b.Sound := fun b hb' => h.sound b (List.mem_cons_of_mem _ hb')
  have hrec : ∀ b ∈ listed, header P' b.base = header P b.base := fun b hb' =>
    have hb'' := List.mem_append_left full hb'
    hw.other_header hc (hsound b hb'') (hne b hb'')
  refine ⟨?_, ?_, fun b hb' => ?_, fun b hb' => ?_, fun b hb' => ?_, ?_⟩
  · rw [hhead]
    refine h.list.2.congr fun c hc' => ?_
    obtain ⟨b, hb', rfl⟩ := List.mem_map.mp hc'
    rw [hrec b hb']
  · refine h.prev.tail.imp_of_mem_imp fun b c _ hc' hbc => ?_
    obtain ⟨b, hb', rfl⟩ := List.mem_map.mp hc'
    rw [hrec b hb', hbc]
  · have hb'' := List.mem_append_left full hb'
    have hav := h.available b (List.mem_cons_of_mem _ hb')
    exact ⟨hw.other_pool hc (hsound b hb'') (hne b hb'') hav.1, hav.2⟩
  · rcases List.mem_cons.mp hb' with rfl | hb'
    · exact ⟨hq, he⟩
    · have hb'' := List.mem_append_right listed hb'
      exact ⟨hw.other_pool hc (hsound b hb'') (hne b hb'') (h.exhausted b hb').1,
        (h.exhausted b hb').2⟩
  · have hcase : b = q ∨ b ∈ listed ++ full := by
      simp only [List.mem_append, List.mem_cons] at hb' ⊢
      tauto
    rcases hcase with rfl | hb'
    · exact hs
    · exact hsound b hb'
  · have hperm : ((listed ++ q :: full).map PoolView.base).Perm
        ((p :: listed ++ full).map PoolView.base) := by
      refine (List.perm_middle.map _).trans ?_
      rw [List.map_cons, hb, List.cons_append, List.map_cons]
    exact hperm.nodup_iff.mpr h.distinct

end Pools

/-! ## Handing out a page -/

lemma retirePool_nonempty (hpool : s.pool4KIB = physToVirt q.base)
    (hq : PoolAt (phys s.mem) q flag) (hs : q.Sound) (he : ¬ q.isEmpty) : retirePool s = s := by
  have hempty : ¬ poolEmpty (physToVirt q.base) s = true := (poolEmpty_iff hq hs).not.mpr he
  simp only [retirePool, hpool, if_neg hempty]

lemma retirePool_empty (hpool : s.pool4KIB = physToVirt q.base)
    (hq : PoolAt (phys s.mem) q flag) (hs : q.Sound) (he : q.isEmpty) :
    (retirePool s).chunks = s.chunks ∧
      Within (page4KIB q.base) (phys s.mem) (phys (retirePool s).mem) ∧
      (retirePool s).pool4KIB = (header (phys s.mem) q.base).field .next ∧
      PoolAt (phys (retirePool s).mem) q 0 := by
  have hempty : poolEmpty (physToVirt q.base) s = true := (poolEmpty_iff hq hs).mpr he
  have hset := (((Sets.refl q.base s).setOnList hs.page_aligned 0).setField hs.page_aligned
    .next 0).setField hs.page_aligned .prev 0
  have hflag := hq.relink hs hset fun f h1 h2 => by
    rw [Header.set_field_ne _ _ h2, Header.set_field_ne _ _ h1]
  simp only [retirePool, hpool, if_pos hempty]
  exact ⟨hset.chunks, hset.within, field_header rfl _, hflag⟩

/-- With a pool on the list, a page comes out of the first one. -/
theorem wp_takePage (h : Pools (phys s.mem) s.pool4KIB (p :: listed) full)
    (ht : p.take = some (a, q)) :
    wp takePage
      (fun b s' => b = a ∧ s'.chunks = s.chunks ∧
        Within (page4KIB p.base) (phys s.mem) (phys s'.mem) ∧
        if q.isEmpty then Pools (phys s'.mem) s'.pool4KIB listed (q :: full)
        else Pools (phys s'.mem) s'.pool4KIB (q :: listed) full) (fun _ => False) s := by
  have hs := h.sound p List.mem_cons_self
  have hp := (h.available p List.mem_cons_self).1
  have hhead : s.pool4KIB = physToVirt p.base := h.list.1
  obtain ⟨s1, hdr, hrun, hset, hnext, hprev, hq⟩ := poolAlloc_ok hp hs ht
  have hqs := hs.take ht
  have hqb := PoolView.take_base ht
  have hpool1 : s1.pool4KIB = physToVirt q.base := by
    rw [hset.pool4KIB, hhead, hqb]
  rw [takePage, wp_bind, wp_get, wp_bind, hhead]
  refine wp_of_ok hrun ?_
  rw [wp_bind, wp_modify, wp_pure, virtToPhys_physToVirt]
  refine ⟨rfl, ?_⟩
  by_cases he : q.isEmpty
  · obtain ⟨hch, hw, hpool2, hq2⟩ := retirePool_empty hpool1 hq hqs he
    rw [hqb] at hw
    rw [if_pos he, hch]
    refine ⟨hset.chunks, hset.within.trans hw, ?_⟩
    refine h.retire (hset.within.trans hw).chunk hqb ?_ hq2 hqs he
    rw [hpool2, hqb, hset.header, hnext]
  · rw [retirePool_nonempty hpool1 hq hqs he, if_neg he, hset.pool4KIB]
    refine ⟨hset.chunks, hset.within, ?_⟩
    exact Pools.replace (l := []) h hset.within.chunk hqb (by rw [hset.header, hnext])
      (by rw [hset.header, hprev]) hq hqs he

theorem wp_physAlloc4KIB_listed (h : Pools (phys s.mem) s.pool4KIB (p :: listed) full)
    (ht : p.take = some (a, q)) :
    wp (physAlloc4KIB supply)
      (fun b s' => b = a ∧ s'.chunks = s.chunks ∧
        Within (page4KIB p.base) (phys s.mem) (phys s'.mem) ∧
        if q.isEmpty then Pools (phys s'.mem) s'.pool4KIB listed (q :: full)
        else Pools (phys s'.mem) s'.pool4KIB (q :: listed) full) (fun _ => False) s := by
  have hne : s.pool4KIB ≠ 0 := h.null_iff.not.mpr (List.cons_ne_nil _ _)
  rw [physAlloc4KIB, ensurePool, wp_bind, wp_bind, wp_get, wp_ite]
  exact ⟨fun h0 => absurd h0 hne, fun _ => wp_takePage h ht⟩

/-- The chunk `c` has become a pool, the only one on the list. -/
lemma Pools.of_new (h : Pools P head [] full) (hc : 2 ^ 21 ∣ c.toNat)
    (hlt : c.toNat + 2 ^ 21 < 2 ^ 47) (hfresh : ∀ p ∈ full, p.base ≠ c)
    (hw : Within (page4KIB c) P P') (hp : PoolAt P' (newPool c) 1)
    (hnext : (header P' c).field .next = 0) : Pools P' (physToVirt c) [newPool c] full := by
  have hs := newPool_sound hc hlt
  refine ⟨⟨rfl, hnext⟩, List.isChain_singleton _,
    fun b hb => ?_, fun b hb => ?_, fun b hb => ?_, ?_⟩
  · rw [List.mem_singleton.mp hb]
    exact ⟨hp, newPool_not_empty c⟩
  · have hav := h.exhausted b hb
    exact ⟨hw.chunk.other_pool hc (h.sound b hb) (hfresh b hb) hav.1, hav.2⟩
  · rcases List.mem_cons.mp hb with rfl | hb
    · exact hs
    · exact h.sound b hb
  · rw [List.singleton_append, List.map_cons, List.nodup_cons]
    refine ⟨fun hm => ?_, h.distinct⟩
    obtain ⟨b, hb, he⟩ := List.mem_map.mp hm
    exact hfresh b hb he

lemma onChunks_ok {β : Type} {b : Prog (σ × Mem) String β} {v : β} {a1 : σ} {m1 : Mem}
    (h : b (s.chunks, s.mem) = .ok (v, a1, m1)) : onChunks b s = .ok (v, ⟨m1, a1, s.pool4KIB⟩) := by
  rw [onChunks, h]

/-- Without a pool on the list, the supplier's chunk becomes one. -/
theorem wp_physAlloc4KIB_new {a1 : σ} {m1 : Mem} (h : Pools (phys s.mem) s.pool4KIB [] full)
    (hsup : supply.alloc (s.chunks, s.mem) = .ok (c, a1, m1)) (hc0 : c ≠ 0)
    (hc : 2 ^ 21 ∣ c.toNat) (hlt : c.toNat + 2 ^ 21 < 2 ^ 47) (hfresh : ∀ p ∈ full, p.base ≠ c)
    (hkeep : Pools (phys m1) s.pool4KIB [] full) :
    wp (physAlloc4KIB supply)
      (fun b s' => b = (newPool c).page 0 ∧ s'.chunks = a1 ∧
        Within (page4KIB c) (phys m1) (phys s'.mem) ∧
        Pools (phys s'.mem) s'.pool4KIB [⟨c, [], [(newPool c).page 0], 1⟩] full)
      (fun _ => False) s := by
  have hs := newPool_sound hc hlt
  have h0 : s.pool4KIB = 0 := h.null_iff.mpr rfl
  set s1 : Phys σ := ⟨m1, a1, s.pool4KIB⟩
  have hca : 4096 ∣ c.toNat := hs.page_aligned
  have hset := (sets_poolInit hca { s1 with pool4KIB := physToVirt c }).setOnList hca 1
  have hp : PoolAt _ (newPool c) 1 := newPool_poolAt hset rfl
  have hpools := hkeep.of_new hc hlt hfresh hset.within hp (by rw [hset.header]; rfl)
  have hpool : (makePool (physToVirt c) s1).pool4KIB = physToVirt c := hset.pool4KIB
  rw [physAlloc4KIB, ensurePool, wp_bind, wp_bind, wp_get, wp_ite]
  refine ⟨fun _ => ?_, fun hne => absurd h0 hne⟩
  rw [wp_bind]
  refine wp_of_ok (onChunks_ok hsup) ?_
  rw [if_neg hc0, wp_modify]
  rw [← hpool] at hpools
  refine wp_mono (wp_takePage (s := makePool (physToVirt c) s1) hpools rfl) ?_
  rintro b s' ⟨rfl, hch, hw, hfin⟩
  rw [if_neg (fun he => absurd he.2 (show (1 : ℕ) ≠ 511 by decide))] at hfin
  exact ⟨rfl, hch.trans hset.chunks, hset.within.trans hw, hfin⟩

/-- The last chunk below `2 ^ 47`: the pointer to its end is NULL, so the pool looks empty. -/
theorem wp_physAlloc4KIB_last {a1 : σ} {m1 : Mem} (hnull : s.pool4KIB = 0)
    (hsup : supply.alloc (s.chunks, s.mem) = .ok (c, a1, m1)) (hc0 : c ≠ 0)
    (hc : 4096 ∣ c.toNat) (hlt : c.toNat + 2 ^ 21 = 2 ^ 47) :
    wp (physAlloc4KIB supply) (fun _ _ => False)
      (fun e => e = "Trying to allocate from empty pool!") s := by
  set s1 : Phys σ := ⟨m1, a1, s.pool4KIB⟩
  have hset := (sets_poolInit hc { s1 with pool4KIB := physToVirt c }).setOnList hc 1
  have hfield : ∀ f, (makePool (physToVirt c) s1).field (physToVirt c) f = (newHeader c).field f :=
    fun f => (field_eq _ f).trans (congrFun (congrArg Header.field hset.header) f)
  have hend : physToVirt c + 0x200000 = 0 := by
    apply word_ext
    rw [BitVec.toNat_add, toNat_physToVirt (by omega)]
    have h2 : (0x200000 : Word).toNat = 2 ^ 21 := rfl
    have h0 : (0 : Word).toNat = 0 := rfl
    rw [h2, h0]
    omega
  have hempty : poolEmpty (physToVirt c) (makePool (physToVirt c) s1) = true := by
    have hsize : stackEmpty (freeStack (physToVirt c)) (makePool (physToVirt c) s1) = true :=
      decide_eq_true (hfield .size)
    have hmax : (makePool (physToVirt c) s1).field (physToVirt c) .maxAddress = 0 :=
      (hfield .maxAddress).trans hend
    rw [poolEmpty, hsize, hmax, Bool.true_and]
    exact decide_eq_true
      (Nat.zero_le ((makePool (physToVirt c) s1).field (physToVirt c) .implicitNext).toNat)
  have hrun : poolAlloc (physToVirt c) (makePool (physToVirt c) s1)
      = .error "Trying to allocate from empty pool!" := by
    rw [poolAlloc, if_pos hempty]
  have hpool : (makePool (physToVirt c) s1).pool4KIB = physToVirt c := hset.pool4KIB
  rw [physAlloc4KIB, ensurePool, wp_bind, wp_bind, wp_get, if_pos hnull, wp_bind]
  refine wp_of_ok (onChunks_ok hsup) ?_
  rw [if_neg hc0, wp_modify, takePage, wp_bind, wp_get, wp_bind, hpool]
  exact wp_of_error hrun rfl

end Bikeshed.PhysAlloc
