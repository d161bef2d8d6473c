import Bikeshed.PhysMemory.PoolList

/-!
# Taking a page back

`phys_free_4KIB` has three outcomes: the page's pool is on the list and stays there, it is not
and joins the list, or it has got back all of its pages and leaves the list for good.
-/

namespace Bikeshed.PhysAlloc

open Lib

variable {σ : Type} {supply : ChunkSupply σ} {P P' P'' : Mem} {head c d a v : Word}
  {bs : List Word} {p q : PoolView} {l r listed full : List PoolView} {flag : Byte} {s s' : Phys σ}

-- known by its specification here
attribute [local irreducible] poolFree

/-- Only the chunks at `bs` have been written to. -/
def Touches (bs : List Word) (P P' : Mem) : Prop :=
  ∀ x, (∀ c ∈ bs, ¬ (page2MIB c).Has x) → P' x = P x

lemma Touches.refl (bs : List Word) (P : Mem) : Touches bs P P := fun _ _ => rfl

lemma Touches.trans (h : Touches bs P P') (h' : Touches bs P' P'') : Touches bs P P'' :=
  fun x hx => (h' x hx).trans (h x hx)

lemma Within.touches (h : Within (page2MIB c) P P') (hc : c ∈ bs) : Touches bs P P' :=
  fun x hx => h x (hx c hc)

lemma WritesPage.chunk (h : WritesPage p.base a P P') (hs : p.Sound) (ha : a ∈ p.free ++ p.used) :
    Within (page2MIB p.base) P P' :=
  fun x hx => h x (fun hr => hx (has_chunk_of_record hr)) fun hr => hx (hs.has_of_page ha hr)

/-! ## The pool stays on the list -/

lemma physFree4KIB_pool (hs : p.Sound) (ha : a ∈ p.used) :
    mask2MIB (physToVirt a) = physToVirt p.base := by
  have hmem : a ∈ p.free ++ p.used := List.mem_append_right _ ha
  obtain ⟨-, h1, h2⟩ := hs.toNat_mem hmem
  exact mask2MIB_physToVirt hs.aligned hs.below
    ⟨by show p.base.toNat ≤ _; omega, by show _ < p.base.toNat + 2 ^ 21; omega⟩

lemma onList_header : s.onList (physToVirt c) = (header (phys s.mem) c).onList := onList_eq s

/-- What `pool_full` returns; its assertion holds. -/
lemma poolFull_ok (h : PoolAt (phys s.mem) p flag) (hs : p.Sound) :
    poolFull (physToVirt p.base) s = .ok (decide (p.free.length = 511), s) := by
  have hlen := hs.length
  have hbump := hs.bump
  have hsize : (stackSize (freeStack (physToVirt p.base)) s = 511) ↔ p.free.length = 511 := by
    show s.field (physToVirt p.base) .size = 511 ↔ _
    rw [field_header rfl, h.size, ← BitVec.toNat_inj, toNat_ofNat_lt (by omega)]
    rfl
  have hassert : ¬ (stackSize (freeStack (physToVirt p.base)) s = 511 ∧
      ¬ (s.field (physToVirt p.base) .maxAddress).toNat
        ≤ (s.field (physToVirt p.base) .implicitNext).toNat) := by
    rw [hsize, maxAddress_le_iff h hs]
    omega
  rw [poolFull]
  rw [if_neg hassert]
  simp only [hsize]

/-! ## Setting links -/

lemma onList_setField (hc : 4096 ∣ c.toNat) (hd : 4096 ∣ d.toNat) (f : PoolField) (v : Word) :
    (header (phys (s.setField (physToVirt c) f v).mem) d).onList
      = (header (phys s.mem) d).onList := by
  have hset := (Sets.refl c s).setField hc f v
  by_cases he : d = c
  · rw [he, hset.header, Header.set_onList]
  · rw [header_congr hd (hset.within.agree (Block.disjoint_of_dvd hc hd (Ne.symm he)))]

lemma field_setField (hc : 4096 ∣ c.toNat) (hd : 4096 ∣ d.toNat) (f g : PoolField) (v : Word) :
    (header (phys (s.setField (physToVirt c) f v).mem) d).field g
      = if d = c ∧ g = f then v else (header (phys s.mem) d).field g := by
  have hset := (Sets.refl c s).setField hc f v
  by_cases he : d = c
  · rw [he, hset.header]
    by_cases hg : g = f
    · rw [hg, Header.set_field_self, if_pos ⟨rfl, rfl⟩]
    · rw [Header.set_field_ne _ _ hg, if_neg fun h => hg h.2]
  · rw [header_congr hd (hset.within.agree (Block.disjoint_of_dvd hc hd (Ne.symm he))),
      if_neg fun h => he h.1]

/-- Links of the records at `bs` have been set, nothing else. -/
structure Relinks (bs : List Word) (s s' : Phys σ) : Prop where
  field : ∀ d, 4096 ∣ d.toNat → ∀ f, f ≠ .next → f ≠ .prev →
    (header (phys s'.mem) d).field f = (header (phys s.mem) d).field f
  onList : ∀ d, 4096 ∣ d.toNat →
    (header (phys s'.mem) d).onList = (header (phys s.mem) d).onList
  outside : ∀ x, (∀ c ∈ bs, ¬ (page4KIB c).Has x) → phys s'.mem x = phys s.mem x
  chunks : s'.chunks = s.chunks

namespace Relinks

lemma refl (bs : List Word) (s : Phys σ) : Relinks bs s s :=
  ⟨fun _ _ _ _ _ => rfl, fun _ _ => rfl, fun _ _ => rfl, rfl⟩

lemma setField (h : Relinks bs s s') (hc : 4096 ∣ c.toNat) (hmem : c ∈ bs) {f : PoolField}
    (hf : f = .next ∨ f = .prev) (v : Word) : Relinks bs s (s'.setField (physToVirt c) f v) := by
  constructor
  · intro d hd g h1 h2
    rw [field_setField hc hd, if_neg, h.field d hd g h1 h2]
    rintro ⟨-, rfl⟩
    exact hf.elim h1 h2
  · intro d hd
    rw [onList_setField hc hd, h.onList d hd]
  · intro x hx
    exact (((Sets.refl c s').setField hc f v).within x (hx c hmem)).trans (h.outside x hx)
  · rw [Phys.setField_chunks, h.chunks]

/-- A pool does not depend on the links. -/
lemma poolAt (h : Relinks bs s s') (hp : PoolAt (phys s.mem) p flag) (hs : p.Sound)
    (hfree : ∀ a ∈ p.free, ∀ c ∈ bs, (page4KIB c).Disjoint (page4KIB a)) :
    PoolAt (phys s'.mem) p flag := by
  have hnodes := hp.nodes hs fun a ha x hx =>
    h.outside x fun c hc => (hfree a ha c hc).not_has hx
  have hfield := h.field p.base hs.page_aligned
  constructor
  · rw [hfield _ (by decide) (by decide), hp.size]
  · rw [hfield _ (by decide) (by decide)]
    exact hnodes
  · rw [hfield _ (by decide) (by decide), hp.implicitNext]
  · rw [hfield _ (by decide) (by decide), hp.maxAddress]
  · rw [h.onList _ hs.page_aligned, hp.onList]

end Relinks

/-! ## Taking a pool off the list -/

/-- `if (next != NULL) next->prev = v;` -/
def setPrev (next v : Word) (s : Phys σ) : Phys σ :=
  if next ≠ 0 then s.setField next .prev v else s

section SetPrev

variable {next : Word} {n : Word → Word} (v : Word)
  (hnext : Linked physToVirt n next bs) (hbs : ∀ c ∈ bs, 4096 ∣ c.toNat ∧ c.toNat < 2 ^ 47)

include hnext hbs in
/-- `next` is NULL or the first of the records `bs`. -/
lemma setPrev_cases : (bs = [] ∧ setPrev next v s = s) ∨
    ∃ c ∈ bs.head?, setPrev next v s = s.setField (physToVirt c) .prev v := by
  cases bs with
  | nil => exact .inl ⟨rfl, if_neg (not_not.mpr hnext)⟩
  | cons c bs =>
    refine .inr ⟨c, rfl, ?_⟩
    have hne : next ≠ 0 := by
      rw [hnext.1]
      exact physToVirt_ne (hbs c List.mem_cons_self).2
    rw [setPrev, if_pos hne, hnext.1]

include hnext hbs in
lemma setPrev_pool4KIB : (setPrev next v s).pool4KIB = s.pool4KIB := by
  rcases setPrev_cases v hnext hbs (s := s) with ⟨-, h⟩ | ⟨c, -, h⟩
  · rw [h]
  · rw [h, Phys.setField_pool4KIB]

include hnext hbs in
lemma relinks_setPrev {cs : List Word} (hsub : ∀ c ∈ bs, c ∈ cs) :
    Relinks cs s (setPrev next v s) := by
  rcases setPrev_cases v hnext hbs (s := s) with ⟨-, h⟩ | ⟨c, hc, h⟩
  · rw [h]
    exact .refl cs s
  · have hmem := List.mem_of_mem_head? hc
    rw [h]
    exact (Relinks.refl cs s).setField (hbs c hmem).1 (hsub c hmem) (.inr rfl) v

include hnext hbs in
lemma field_setPrev (hd : 4096 ∣ d.toNat) (g : PoolField) :
    (header (phys (setPrev next v s).mem) d).field g
      = if d ∈ bs.head? ∧ g = .prev then v else (header (phys s.mem) d).field g := by
  rcases setPrev_cases v hnext hbs (s := s) with ⟨rfl, h⟩ | ⟨c, hc, h⟩
  · rw [h, if_neg (by simp)]
  · rw [h, field_setField (hbs c (List.mem_of_mem_head? hc)).1 hd]
    have hiff : d = c ↔ d ∈ bs.head? := by
      rw [Option.mem_def.mp hc, Option.mem_some_iff, eq_comm]
    simp only [hiff]

end SetPrev

/-- The links of the records in the memory `P`. -/
abbrev Chained (P : Mem) (head : Word) (bs : List Word) : Prop :=
  Doubly physToVirt (fun c => (header P c).field .next) (fun c => (header P c).field .prev) head bs

lemma chained_unlinkPool {ls rs : List Word} (h : Chained (phys s.mem) s.pool4KIB (ls ++ c :: rs))
    (hbs : ∀ d ∈ ls ++ c :: rs, 4096 ∣ d.toNat ∧ d.toNat < 2 ^ 47)
    (hnd : (ls ++ c :: rs).Nodup) :
    Chained (phys (unlinkPool (physToVirt c) s).mem) (unlinkPool (physToVirt c) s).pool4KIB
        (ls ++ rs) ∧
      Relinks (ls ++ rs) s (unlinkPool (physToVirt c) s) := by
  have hnext := h.next_linked
  have hbs' : ∀ d ∈ ls ++ rs, 4096 ∣ d.toNat ∧ d.toNat < 2 ^ 47 := fun d hd =>
    hbs d (by simp only [List.mem_append, List.mem_cons] at hd ⊢; tauto)
  have hrs : ∀ d ∈ rs, 4096 ∣ d.toNat ∧ d.toNat < 2 ^ 47 := fun d hd =>
    hbs' d (List.mem_append_right _ hd)
  have hnd' : (ls ++ rs).Nodup :=
    (List.nodup_cons.mp (List.perm_middle.nodup_iff.mp hnd)).2
  have hfield := field_header (s := s) (p := ⟨c, [], [], 0⟩) (c := c) rfl
  rcases List.eq_nil_or_concat' ls with rfl | ⟨ls, b, rfl⟩
  · -- the head of the list
    have hun : unlinkPool (physToVirt c) s
        = setPrev ((header (phys s.mem) c).field .next) 0
          { s with pool4KIB := (header (phys s.mem) c).field .next } := by
      rw [unlinkPool, if_pos h.head_eq, hfield]
      rfl
    rw [hun]
    refine ⟨?_, ?_⟩
    · rw [setPrev_pool4KIB 0 hnext hrs]
      refine h.unlink hnd' (by simp) (fun d hd _ => ?_) (by simp) fun d hd hdr => ?_
      · rw [field_setPrev 0 hnext hrs (hbs' d hd).1, if_neg (by simp)]
      · rw [field_setPrev 0 hnext hrs (hbs' d hd).1, if_neg fun he => hdr he.1]
    · have hrel : Relinks ([] ++ rs) { s with pool4KIB := (header (phys s.mem) c).field .next } _ :=
        relinks_setPrev 0 hnext hrs (by simp)
      exact ⟨hrel.field, hrel.onList, hrel.outside, hrel.chunks⟩
  · -- the pool comes after `b`
    have hb := hbs' b (by simp)
    have hcb : c ≠ b := by
      rintro rfl
      exact (List.nodup_cons.mp (List.perm_middle.nodup_iff.mp hnd)).1 (by simp)
    have hrb : ∀ d ∈ rs.head?, d ≠ b := by
      rintro d hd rfl
      exact (List.nodup_append.mp hnd').2.2 d (by simp) d (List.mem_of_mem_head? hd) rfl
    have hhead : s.pool4KIB ≠ physToVirt c := by
      intro he
      obtain ⟨d, l, hl⟩ := List.exists_cons_of_ne_nil (show ls ++ [b] ≠ [] by simp)
      have hd := h.linked
      rw [hl] at hd hnd
      have hdc : d = c := physToVirt_injective (hd.1.symm.trans he)
      exact (List.nodup_cons.mp (List.perm_middle.nodup_iff.mp hnd)).1 (by simp [hdc])
    have hprev : (header (phys s.mem) c).field .prev = physToVirt b := by
      rw [List.append_assoc] at h
      exact h.prev_eq
    have hun : unlinkPool (physToVirt c) s
        = (setPrev ((header (phys s.mem) c).field .next) (physToVirt b) s).setField
          (physToVirt b) .next ((header (phys s.mem) c).field .next) := by
      rw [unlinkPool, if_neg hhead, hfield, hfield, hprev]
      exact if_pos (physToVirt_ne hb.2)
    set s1 := setPrev ((header (phys s.mem) c).field .next) (physToVirt b) s with hs1
    have hrel : Relinks (ls ++ [b] ++ rs) s s1 := relinks_setPrev _ hnext hrs fun d hd =>
      List.mem_append_right _ hd
    set s2 := s1.setField (physToVirt b) .next ((header (phys s.mem) c).field .next) with hs2
    have hlinks : ∀ d, 4096 ∣ d.toNat → ∀ g, (header (phys s2.mem) d).field g =
        if d = b ∧ g = .next then (header (phys s.mem) c).field .next
        else if d ∈ rs.head? ∧ g = .prev then physToVirt b
        else (header (phys s.mem) d).field g := fun d hd g => by
      rw [hs2, field_setField hb.1 hd, hs1, field_setPrev _ hnext hrs hd]
    rw [hun]
    refine ⟨?_, hrel.setField hb.1 (by simp) (.inl rfl) _⟩
    have hpool : s2.pool4KIB = if ls ++ [b] = [] then (header (phys s.mem) c).field .next
        else s.pool4KIB := by
      rw [if_neg (by simp), hs2, Phys.setField_pool4KIB, hs1, setPrev_pool4KIB _ hnext hrs]
    rw [hpool]
    refine h.unlink hnd' (fun d hd => ?_) (fun d hd hdl => ?_) (fun d hd e he => ?_)
      fun d hd hdr => ?_
    · have hdb : d = b := by
        rw [List.getLast?_concat, Option.mem_some_iff] at hd
        exact hd.symm
      rw [hlinks d (hdb ▸ hb.1), if_pos ⟨hdb, rfl⟩]
    · have hdb : d ≠ b := fun he => hdl (by rw [he, List.getLast?_concat]; rfl)
      rw [hlinks d (hbs' d hd).1, if_neg fun he => hdb he.1, if_neg (by simp)]
    · have heb : e = b := by
        rw [List.getLast?_concat, Option.mem_some_iff] at he
        exact he.symm
      rw [hlinks d (hrs d (List.mem_of_mem_head? hd)).1, if_neg (by simp), if_pos ⟨hd, rfl⟩, heb]
    · rw [hlinks d (hbs' d hd).1, if_neg (by simp), if_neg fun he => hdr he.1]

lemma PoolView.Sound.disjoint_record (h : p.Sound) (ha : a ∈ p.free ++ p.used)
    (hc : 2 ^ 21 ∣ c.toNat) : (page4KIB c).Disjoint (page4KIB a) := by
  obtain ⟨-, h1, h2⟩ := h.toNat_mem ha
  have h3 := h.aligned
  show c.toNat + 4096 ≤ a.toNat ∨ a.toNat + 4096 ≤ c.toNat
  omega

lemma Relinks.touches (h : Relinks bs s s') : Touches bs (phys s.mem) (phys s'.mem) :=
  fun x hx => h.outside x fun c hc hr => hx c hc (has_chunk_of_record hr)

lemma Pools.chained (h : Pools P head listed full) :
    Chained P head (listed.map PoolView.base) := ⟨h.list, h.prev⟩

/-- `p` is taken off the list, wherever it is. -/
lemma Pools.unlink (h : Pools (phys s.mem) s.pool4KIB (l ++ p :: r) full) :
    Pools (phys (unlinkPool (physToVirt p.base) s).mem)
        (unlinkPool (physToVirt p.base) s).pool4KIB (l ++ r) full ∧
      Relinks ((l ++ r).map PoolView.base) s (unlinkPool (physToVirt p.base) s) := by
  have hsub : ∀ {q}, q ∈ l ++ r → q ∈ l ++ p :: r := fun hq => by
    simp only [List.mem_append, List.mem_cons] at hq ⊢
    tauto
  have hsound : ∀ q ∈ l ++ r ++ full, q.Sound := fun q hq => h.sound q <| by
    simp only [List.mem_append, List.mem_cons] at hq ⊢
    tauto
  have hch := h.chained
  have hdist := h.distinct
  have hmap : (l ++ p :: r).map PoolView.base
      = l.map PoolView.base ++ p.base :: r.map PoolView.base := by simp
  rw [List.map_append, hmap] at hdist
  rw [hmap] at hch
  obtain ⟨hnd, hndf, hdis⟩ := List.nodup_append.mp hdist
  obtain ⟨hchain, hrel⟩ := chained_unlinkPool hch (fun c hc => by
    rw [← hmap] at hc
    obtain ⟨q, hq, rfl⟩ := List.mem_map.mp hc
    have hs := h.sound q (List.mem_append_left _ hq)
    exact ⟨hs.page_aligned, hs.base_lt⟩) hnd
  rw [← List.map_append] at hchain hrel
  have hpool : ∀ q ∈ l ++ r ++ full, ∀ flag, PoolAt (phys s.mem) q flag →
      PoolAt (phys (unlinkPool (physToVirt p.base) s).mem) q flag := fun q hq flag hqp =>
    hrel.poolAt hqp (hsound q hq) fun a ha c hc => by
      obtain ⟨b, hb, rfl⟩ := List.mem_map.mp hc
      exact (hsound q hq).disjoint_record (List.mem_append_left _ ha)
        (hsound b (List.mem_append_left _ hb)).aligned
  refine ⟨⟨hchain.linked, hchain.chain, fun q hq => ?_, fun q hq => ?_, hsound, ?_⟩, hrel⟩
  · have hav := h.available q (hsub hq)
    exact ⟨hpool q (List.mem_append_left _ hq) 1 hav.1, hav.2⟩
  · have hex := h.exhausted q hq
    exact ⟨hpool q (List.mem_append_right _ hq) 0 hex.1, hex.2⟩
  · have hperm : ((l ++ p :: r) ++ full).Perm (p :: (l ++ r ++ full)) := by
      rw [List.append_assoc, List.cons_append, List.append_assoc]
      exact List.perm_middle
    exact (List.nodup_cons.mp ((hperm.map _).nodup_iff.mp h.distinct)).2

/-! ## Putting a pool on the list -/

/-- What `linkPool` leaves in the record of the pool. -/
def linkedHeader (hdr : Header) (next : Word) : Header :=
  { (hdr.set .next next).set .prev 0 with onList := 1 }

lemma setOnList_head (s : Phys σ) (pool head : Word) (v : Byte) :
    ({ s with pool4KIB := head } : Phys σ).setOnList pool v
      = { s.setOnList pool v with pool4KIB := head } := by
  unfold Phys.setOnList
  rfl

/-- With `d` at the head of the list, the records of `d` and `c` are written to. -/
lemma linkPool_eq (hc : 4096 ∣ c.toNat) (hhead : s.pool4KIB = physToVirt d) :
    ∃ s', linkPool (physToVirt c) s = { s' with pool4KIB := physToVirt c } ∧
      Sets c (linkedHeader (header (phys (s.setField (physToVirt d) .prev (physToVirt c)).mem) c)
        (physToVirt d)) (s.setField (physToVirt d) .prev (physToVirt c)) s' := by
  refine ⟨_, ?_, (((Sets.refl c _).setField hc .next (physToVirt d)).setField hc .prev
    0).setOnList hc 1⟩
  rw [← setOnList_head, linkPool]
  simp only [Phys.setField_pool4KIB, hhead]

/-- `p` was not among the pools, and becomes the head of the list. -/
lemma Pools.link (h : Pools (phys s.mem) s.pool4KIB (q :: listed) full)
    (hp : PoolAt (phys s.mem) p flag) (hs : p.Sound) (he : ¬ p.isEmpty)
    (hne : ∀ b ∈ q :: listed ++ full, b.base ≠ p.base) :
    Pools (phys (linkPool (physToVirt p.base) s).mem) (linkPool (physToVirt p.base) s).pool4KIB
        (p :: q :: listed) full ∧
      Touches [p.base, q.base] (phys s.mem) (phys (linkPool (physToVirt p.base) s).mem) ∧
      (linkPool (physToVirt p.base) s).chunks = s.chunks := by
  have hq := h.sound q List.mem_cons_self
  obtain ⟨s2, hlink, hset⟩ := linkPool_eq hs.page_aligned h.chained.head_eq
  rw [hlink]
  set s1 := s.setField (physToVirt q.base) .prev (physToVirt p.base) with hs1
  have hrel : Relinks [q.base] s s1 := (Relinks.refl _ s).setField hq.page_aligned
    (List.mem_singleton.mpr rfl) (.inr rfl) _
  have hfields : ∀ d, 4096 ∣ d.toNat → ∀ f, (header (phys s1.mem) d).field f =
      if d = q.base ∧ f = .prev then physToVirt p.base else (header (phys s.mem) d).field f :=
    fun d hd f => field_setField hq.page_aligned hd .prev f _
  have hother : ∀ b ∈ q :: listed ++ full,
      header (phys s2.mem) b.base = header (phys s1.mem) b.base :=
    fun b hb => hset.within.chunk.other_header hs.aligned (h.sound b hb) (hne b hb)
  -- the pools in the memory after each of the two steps
  have hstep : ∀ b ∈ q :: listed ++ full, ∀ flag, PoolAt (phys s.mem) b flag →
      PoolAt (phys s2.mem) b flag := fun b hb flag hpb => by
    have hpb1 := hrel.poolAt hpb (h.sound b hb) fun a ha c hc => by
      rw [List.mem_singleton.mp hc]
      exact (h.sound b hb).disjoint_record (List.mem_append_left _ ha) hq.aligned
    exact hset.within.chunk.other_pool hs.aligned (h.sound b hb) (hne b hb) hpb1
  have hp1 : PoolAt (phys s1.mem) p flag := hrel.poolAt hp hs fun a ha c hc => by
    rw [List.mem_singleton.mp hc]
    exact hs.disjoint_record (List.mem_append_left _ ha) hq.aligned
  have hp2 : PoolAt (phys s2.mem) p 1 := hp1.relink hs hset fun f h1 h2 => by
    show ((Header.set _ _ _).set _ _).field f = _
    rw [Header.set_field_ne _ _ h2, Header.set_field_ne _ _ h1]
  have hchain : Chained (phys s2.mem) (physToVirt p.base)
      (p.base :: q.base :: listed.map PoolView.base) := by
    have hnd := (List.nodup_append.mp (List.map_append ▸ h.distinct)).1
    rw [List.map_cons, List.nodup_cons] at hnd
    refine h.chained.push ?_ ?_ (fun c hc => ?_) fun c hc => ?_
    · rw [hset.header, h.chained.head_eq]
      rfl
    · rw [hother q List.mem_cons_self, hfields _ hq.page_aligned, if_pos ⟨rfl, rfl⟩]
    · rw [← List.map_cons] at hc
      obtain ⟨b, hb, rfl⟩ := List.mem_map.mp hc
      have hb' := List.mem_append_left full hb
      rw [hother b hb', hfields _ (h.sound b hb').page_aligned, if_neg (by simp)]
    · obtain ⟨b, hb, rfl⟩ := List.mem_map.mp hc
      have hb' := List.mem_append_left full (List.mem_cons_of_mem q hb)
      rw [hother b hb', hfields _ (h.sound b hb').page_aligned, if_neg]
      rintro ⟨hbq, -⟩
      exact hnd.1 (hbq ▸ hc)
  refine ⟨⟨hchain.linked, hchain.chain, fun b hb => ?_, fun b hb => ?_, fun b hb => ?_, ?_⟩, ?_, ?_⟩
  · rcases List.mem_cons.mp hb with rfl | hb
    · exact ⟨hp2, he⟩
    · have hav := h.available b hb
      exact ⟨hstep b (List.mem_append_left _ hb) 1 hav.1, hav.2⟩
  · have hex := h.exhausted b hb
    exact ⟨hstep b (List.mem_append_right _ hb) 0 hex.1, hex.2⟩
  · rcases List.mem_cons.mp hb with rfl | hb
    · exact hs
    · exact h.sound b hb
  · rw [List.cons_append, List.map_cons, List.nodup_cons]
    refine ⟨fun hm => ?_, h.distinct⟩
    obtain ⟨b, hb, hbe⟩ := List.mem_map.mp hm
    exact hne b hb hbe
  · exact Touches.trans (fun x hx => hrel.touches x fun c hc => hx c (List.mem_cons_of_mem _ hc))
      (hset.within.chunk.touches List.mem_cons_self)
  · show s2.chunks = s.chunks
    rw [hset.chunks, hrel.chunks]

/-! ## The three outcomes -/

/-- The call up to `pool_free`: the page is among the free ones of its pool, where `s1` is. -/
lemma wp_physFree4KIB_start {Q : Unit → Phys σ → Prop} {E : String → Prop}
    (hp : PoolAt (phys s.mem) p flag) (hs : p.Sound) (ha : a ∈ p.used)
    (hk : ∀ s1, s1.chunks = s.chunks → s1.pool4KIB = s.pool4KIB →
      WritesPage p.base a (phys s.mem) (phys s1.mem) →
      (∀ f, f = .next ∨ f = .prev →
        (header (phys s1.mem) p.base).field f = (header (phys s.mem) p.base).field f) →
      PoolAt (phys s1.mem) (p.give a) flag →
      wp (if s1.pool4KIB = 0 then panicWith "phys_free_4KIB bad free"
        else if flag ≠ 0 then do
          let full ← poolFull (physToVirt p.base)
          if full then
            modify fun s => poolInit (physToVirt p.base) (unlinkPool (physToVirt p.base) s)
            onChunks (supply.free (physToVirt p.base))
          else pure ()
        else modify (linkPool (physToVirt p.base))) Q E s1) :
    wp (physFree4KIB supply a) Q E s := by
  obtain ⟨s1, hdr, hrun, hhdr, hw, hch, hpool, hnext, hprev, hp1⟩ := poolFree_ok hp hs ha
  have hlinks : ∀ f, f = .next ∨ f = .prev →
      (header (phys s1.mem) p.base).field f = (header (phys s.mem) p.base).field f := by
    rintro f (rfl | rfl)
    · rw [hhdr, hnext]
    · rw [hhdr, hprev]
  have hflag : s1.onList (physToVirt p.base) = flag := by
    rw [onList_header]
    exact hp1.onList
  have hk := hk s1 hch hpool hw hlinks hp1
  rw [physFree4KIB, physFree4KIB_pool hs ha, wp_bind]
  refine wp_of_ok hrun ?_
  rw [wp_bind, wp_get, hflag]
  exact hk

/-- `p` has got the page `a` back and still has others in use. -/
theorem wp_physFree4KIB_listed (h : Pools (phys s.mem) s.pool4KIB (l ++ p :: r) full)
    (ha : a ∈ p.used) (hsize : p.free.length ≠ 510) :
    wp (physFree4KIB supply a)
      (fun _ s' => s'.chunks = s.chunks ∧ Within (page2MIB p.base) (phys s.mem) (phys s'.mem) ∧
        Pools (phys s'.mem) s'.pool4KIB (l ++ p.give a :: r) full) (fun _ => False) s := by
  have hmem : p ∈ l ++ p :: r := List.mem_append_right _ List.mem_cons_self
  have hs := h.sound p (List.mem_append_left _ hmem)
  have hne : s.pool4KIB ≠ 0 := h.null_iff.not.mpr fun he => by
    rw [he] at hmem
    exact absurd hmem List.not_mem_nil
  have hgive := hs.give ha
  refine wp_physFree4KIB_start (h.available p hmem).1 hs ha fun s1 hch hpool hw hlinks hp => ?_
  have hfull : poolFull (physToVirt p.base) s1 = .ok (false, s1) := by
    have hf := poolFull_ok hp hgive
    rwa [decide_eq_false (show (p.give a).free.length ≠ 511 by
      rw [PoolView.give, List.length_cons]
      omega)] at hf
  rw [hpool, if_neg hne, if_pos (by decide), wp_bind]
  refine wp_of_ok hfull ?_
  have hwc := hw.chunk hs (List.mem_append_right _ ha)
  rw [if_neg (by simp), wp_pure, hpool]
  exact ⟨hch, hwc, h.replace hwc rfl (hlinks _ (.inl rfl)) (hlinks _ (.inr rfl)) hp hgive
    fun he => List.cons_ne_nil _ _ he.1⟩

/-- `p` has got its last page back, and its chunk goes to the supplier. -/
theorem wp_physFree4KIB_complete {Q : Unit → Phys σ → Prop} {E : String → Prop}
    (h : Pools (phys s.mem) s.pool4KIB (l ++ p :: r) full) (ha : a ∈ p.used)
    (hsize : p.free.length = 510)
    (hk : ∀ s1, s1.chunks = s.chunks → Pools (phys s1.mem) s1.pool4KIB (l ++ r) full →
      Touches ((l ++ p :: r).map PoolView.base) (phys s.mem) (phys s1.mem) →
      wp (onChunks (supply.free (physToVirt p.base))) Q E s1) :
    wp (physFree4KIB supply a) Q E s := by
  have hmem : p ∈ l ++ p :: r := List.mem_append_right _ List.mem_cons_self
  have hs := h.sound p (List.mem_append_left _ hmem)
  have hne : s.pool4KIB ≠ 0 := h.null_iff.not.mpr fun he => by
    rw [he] at hmem
    exact absurd hmem List.not_mem_nil
  have hgive := hs.give ha
  refine wp_physFree4KIB_start (h.available p hmem).1 hs ha fun s1 hch hpool hw hlinks hp => ?_
  have hwc := hw.chunk hs (List.mem_append_right _ ha)
  have hfull : poolFull (physToVirt p.base) s1 = .ok (true, s1) := by
    have hf := poolFull_ok hp hgive
    rwa [decide_eq_true (show (p.give a).free.length = 511 by
      rw [PoolView.give, List.length_cons, hsize])] at hf
  have h1 : Pools (phys s1.mem) s1.pool4KIB (l ++ p.give a :: r) full := by
    rw [hpool]
    exact h.replace hwc rfl (hlinks _ (.inl rfl)) (hlinks _ (.inr rfl)) hp hgive
      fun he => List.cons_ne_nil _ _ he.1
  obtain ⟨h2, hrel⟩ := h1.unlink
  rw [PoolView.give_base] at h2 hrel
  have hset := sets_poolInit hs.page_aligned (unlinkPool (physToVirt p.base) s1)
  rw [hpool, if_neg hne, if_pos (by decide), wp_bind]
  refine wp_of_ok hfull ?_
  rw [if_pos rfl, wp_bind, wp_modify]
  refine hk _ ?_ ?_ ?_
  · rw [hset.chunks, hrel.chunks, hch]
  · rw [hset.pool4KIB]
    have hother := h1.base_ne
    refine h2.congr fun q hq => ⟨?_, fun b hb => ?_⟩
    · exact hset.within.agree (Block.disjoint_of_dvd hs.page_aligned
        (h2.sound q hq).page_aligned (hother q hq).symm)
    · exact hset.within.agree ((h2.sound q hq).disjoint_record (List.mem_append_left _ hb)
        hs.aligned)
  · have hbase : ∀ {c}, c ∈ (l ++ r).map PoolView.base → c ∈ (l ++ p :: r).map PoolView.base := by
      intro c hc
      simp only [List.map_append, List.map_cons, List.mem_append, List.mem_cons] at hc ⊢
      tauto
    have htouch : Touches ((l ++ p :: r).map PoolView.base) (phys s1.mem)
        (phys (unlinkPool (physToVirt p.base) s1).mem) :=
      fun x hx => hrel.touches x fun c hc => hx c (hbase hc)
    exact ((hwc.touches (List.mem_map_of_mem hmem)).trans htouch).trans
      (hset.within.chunk.touches (List.mem_map_of_mem hmem))

/-- `p` was off the list, and becomes its head. -/
theorem wp_physFree4KIB_join (h : Pools (phys s.mem) s.pool4KIB (q :: listed) (l ++ p :: r))
    (ha : a ∈ p.used) :
    wp (physFree4KIB supply a)
      (fun _ s' => s'.chunks = s.chunks ∧
        Touches [p.base, q.base] (phys s.mem) (phys s'.mem) ∧
        Pools (phys s'.mem) s'.pool4KIB (p.give a :: q :: listed) (l ++ r)) (fun _ => False) s := by
  have hmem : p ∈ l ++ p :: r := List.mem_append_right _ List.mem_cons_self
  have hs := h.sound p (List.mem_append_right _ hmem)
  have hne : s.pool4KIB ≠ 0 := h.null_iff.not.mpr (List.cons_ne_nil _ _)
  refine wp_physFree4KIB_start (h.exhausted p hmem).1 hs ha fun s1 hch hpool hw hlinks hp => ?_
  have hwc := hw.chunk hs (List.mem_append_right _ ha)
  have h1 : Pools (phys s1.mem) s1.pool4KIB (q :: listed) (l ++ r) := by
    rw [hpool]
    exact h.drop hwc
  obtain ⟨h2, htouch, hch2⟩ := h1.link hp (hs.give ha) (fun he => List.cons_ne_nil _ _ he.1)
    h.base_ne_full
  rw [hpool, if_neg hne, if_neg (by decide), wp_modify]
  exact ⟨hch2.trans hch, (hwc.touches List.mem_cons_self).trans htouch, h2⟩

/-- Without a pool on the list the call panics. -/
theorem wp_physFree4KIB_bad (h : Pools (phys s.mem) s.pool4KIB [] (l ++ p :: r))
    (ha : a ∈ p.used) :
    wp (physFree4KIB supply a) (fun _ _ => False) (fun e => e = "phys_free_4KIB bad free") s := by
  have hmem : p ∈ l ++ p :: r := List.mem_append_right _ List.mem_cons_self
  have hs := h.sound p hmem
  refine wp_physFree4KIB_start (h.exhausted p hmem).1 hs ha fun s1 _ hpool _ _ _ => ?_
  rw [hpool, if_pos (h.null_iff.mpr rfl)]
  exact wp_panicWith.mpr rfl

end Bikeshed.PhysAlloc
