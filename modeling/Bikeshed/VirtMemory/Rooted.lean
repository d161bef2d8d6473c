import Bikeshed.VirtMemory.Entry

/-!
# Page tables held in blocks of the allocator

`Rooted`: the tables below the PML4 at `r` are distinct outstanding pages and their
entries have `EntryForm`. It is kept by whatever leaves those pages alone
(`Rooted.of_same`) and by the store of one entry of a table on the way to an address
(`Rooted.store`). `Grown` is what adding empty tables does.
-/

namespace Bikeshed

open Lib

variable {α : Type} {A : PhysAllocator α}

/-- The tables below `r` are those of a tree, and all of them are handed out. -/
structure Rooted (H : PhysHeap A) (top : ℕ → Bool) (r : Word) (a : α) (m : Mem) : Prop where
  valid : H.Valid a m
  aligned : 4096 ∣ r.toNat
  nodup : (tables (tree (phys m) top 3 r)).Nodup
  owned : ∀ t ∈ tables (tree (phys m) top 3 r), page4KIB t ∈ H.own a
  form : TableAll EntryForm (phys m) top 3 r

variable {H : PhysHeap A} {top : ℕ → Bool} {r u v w e' : Word} {k : ℕ} {a a' : α} {m m' : Mem}

/-! ## Stores inside outstanding pages -/

/-- A store through the direct map is one to the physical address. -/
lemma phys_storeEntry (m : Mem) (u e' : Word) (j : ℕ) :
    phys (store64 m (physToVirt u + BitVec.ofNat 64 (8 * j)) e')
      = store64 (phys m) (u + BitVec.ofNat 64 (8 * j)) e' := by
  rw [physToVirt_add, phys_store64]

/-- Storing to a table that is handed out is allowed. -/
lemma valid_storeEntry (hv : H.Valid a m) (hu : 4096 ∣ u.toNat) (hown : page4KIB u ∈ H.own a)
    {j : ℕ} (hj : j < 512) (e' : Word) :
    H.Valid a (store64 m (physToVirt u + BitVec.ofNat 64 (8 * j)) e') := by
  refine H.stable hv fun x hx => ?_
  rw [phys_storeEntry]
  exact entry_store64_outside _ _ hu hj (hx _ hown)

/-- Blocks apart from the table are not changed. -/
lemma agreeOn_storeEntry {bs : List Block} (m : Mem) (hu : 4096 ∣ u.toNat) {j : ℕ} (hj : j < 512)
    (e' : Word) (hbs : ∀ b ∈ bs, (page4KIB u).Disjoint b) :
    AgreeOn bs (phys m) (phys (store64 m (physToVirt u + BitVec.ofNat 64 (8 * j)) e')) := by
  rw [phys_storeEntry]
  refine agreeOn_of_outside (page4KIB u) (fun x hx => ?_) hbs
  exact entry_store64_outside (phys m) e' hu hj hx

/-- The same with another form of the entries. -/
structure RootedBy (φ : ℕ → Word → Prop) (H : PhysHeap A) (top : ℕ → Bool) (r : Word) (a : α)
    (m : Mem) : Prop where
  valid : H.Valid a m
  aligned : 4096 ∣ r.toNat
  nodup : (tables (tree (phys m) top 3 r)).Nodup
  owned : ∀ t ∈ tables (tree (phys m) top 3 r), page4KIB t ∈ H.own a
  form : TableAll φ (phys m) top 3 r

namespace RootedBy

variable {φ : ℕ → Word → Prop}

/-- Tables are pages. -/
lemma tables_aligned (h : RootedBy φ H top r a m) {t : Word}
    (ht : t ∈ tables (tree (phys m) top 3 r)) : 4096 ∣ t.toNat :=
  tree_tables_aligned 3 h.aligned ht

/-- The entries are in blocks that are handed out. -/
lemma same (h : RootedBy φ H top r a m) (hagree : AgreeOn (H.own a) (phys m) (phys m')) :
    SameEntries (tables (tree (phys m) top 3 r)) (phys m) (phys m') :=
  sameEntries_of_agreeOn hagree (fun _ => h.tables_aligned) h.owned

/-- The allocator may move on and other memory change. -/
lemma of_same (h : RootedBy φ H top r a m) (hv : H.Valid a' m')
    (hs : SameEntries (tables (tree (phys m) top 3 r)) (phys m) (phys m'))
    (hown : ∀ t ∈ tables (tree (phys m) top 3 r), page4KIB t ∈ H.own a') :
    RootedBy φ H top r a' m' := by
  refine ⟨hv, h.aligned, ?_, ?_, tableAll_congr hs h.form⟩
  · rw [tree_congr hs]
    exact h.nodup
  · rw [tree_congr hs]
    exact hown

/-- Every table on a walk is handed out. -/
lemma reached_owned (h : RootedBy φ H top r a m) (hv : top (index 3 v) = true)
    (hr : Reaches (phys m) v 3 r k u) : page4KIB u ∈ H.own a := h.owned u (hr.mem_tables hv)

lemma reached_aligned (h : RootedBy φ H top r a m) (hv : top (index 3 v) = true)
    (hr : Reaches (phys m) v 3 r k u) : 4096 ∣ u.toNat := h.tables_aligned (hr.mem_tables hv)

/-- The entry that `v` selects in the table reached has the form of its level. -/
lemma reached_form (h : RootedBy φ H top r a m) (hv : top (index 3 v) = true)
    (hr : Reaches (phys m) v 3 r k u) : φ k (entry (phys m) u (index k v)) :=
  slotAll_head (hr.slotAll hv h.form _ (index_mem_slots hv k))

/-- The write that storing an entry of the table reached amounts to. -/
lemma entryWrite (h : RootedBy φ H top r a m) (hv : top (index 3 v) = true)
    (hr : Reaches (phys m) v 3 r k u) (e' : Word) :
    EntryWrite (phys m) (phys (store64 m (physToVirt u + BitVec.ofNat 64 (8 * index k v)) e'))
      (tables (tree (phys m) top 3 r)) u (index k v) e' := by
  rw [phys_storeEntry]
  exact entryWrite_store64 _ _ (fun _ => h.tables_aligned) (h.reached_aligned hv hr) (index_lt k v)

/-- A new entry may bring tables that are outstanding and not yet in the tree. -/
lemma store (h : RootedBy φ H top r a m) (hv : top (index 3 v) = true)
    (hr : Reaches (phys m) v 3 r k u)
    (hm' : m' = store64 m (physToVirt u + BitVec.ofNat 64 (8 * index k v)) e')
    (he : SlotAll φ (phys m') top k e')
    (hnd : (tables (slotTree (phys m') top k e')).Nodup)
    (hnew : ∀ t ∈ tables (slotTree (phys m') top k e'),
      page4KIB t ∈ H.own a ∧ t ∉ tables (tree (phys m) top 3 r)) : RootedBy φ H top r a m' := by
  subst hm'
  have hw := h.entryWrite hv hr e'
  obtain ⟨kept, h1, h2⟩ := reaches_exchange hr hv h.nodup hw
  have ht1 := tables_perm h1
  have ht2 := tables_perm h2
  rw [tables_append] at ht1 ht2
  have hkept : ∀ t ∈ tables kept, t ∈ tables (tree (phys m) top 3 r) := fun t ht =>
    ht1.mem_iff.mpr (List.mem_append_right _ ht)
  refine ⟨valid_storeEntry h.valid (h.reached_aligned hv hr) (h.reached_owned hv hr)
    (index_lt k v) e', h.aligned, ?_, ?_, tableAll_write hr hv h.nodup hw h.form he⟩
  · rw [ht2.nodup_iff, List.nodup_append]
    refine ⟨hnd, ((ht1.nodup_iff.mp h.nodup).of_append_right), ?_⟩
    rintro t ht _ ht' rfl
    exact (hnew t ht).2 (hkept t ht')
  · intro t ht
    rcases List.mem_append.mp (ht2.mem_iff.mp ht) with ht | ht
    · exact (hnew t ht).1
    · exact h.owned t (hkept t ht)

end RootedBy

/-- `Rooted` is the case where all that is known of an entry is its form. -/
lemma rooted_iff : Rooted H top r a m ↔ RootedBy EntryForm H top r a m :=
  ⟨fun h => ⟨h.valid, h.aligned, h.nodup, h.owned, h.form⟩,
    fun h => ⟨h.valid, h.aligned, h.nodup, h.owned, h.form⟩⟩

namespace Rooted

lemma rootedBy (h : Rooted H top r a m) : RootedBy EntryForm H top r a m := rooted_iff.mp h

lemma tables_aligned (h : Rooted H top r a m) {t : Word}
    (ht : t ∈ tables (tree (phys m) top 3 r)) : 4096 ∣ t.toNat := h.rootedBy.tables_aligned ht

lemma same (h : Rooted H top r a m) (hagree : AgreeOn (H.own a) (phys m) (phys m')) :
    SameEntries (tables (tree (phys m) top 3 r)) (phys m) (phys m') := h.rootedBy.same hagree

lemma of_same (h : Rooted H top r a m) (hv : H.Valid a' m')
    (hs : SameEntries (tables (tree (phys m) top 3 r)) (phys m) (phys m'))
    (hown : ∀ t ∈ tables (tree (phys m) top 3 r), page4KIB t ∈ H.own a') :
    Rooted H top r a' m' := rooted_iff.mpr (h.rootedBy.of_same hv hs hown)

/-- Handing out a block keeps the tree. -/
lemma handed (h : Rooted H top r a m) (hv : H.Valid a' m') {b : Block}
    (hh : Handed (H.own a) (H.own a') (phys m) (phys m') b) : Rooted H top r a' m' :=
  h.of_same hv (h.same hh.agree) fun t ht =>
    hh.outstanding.mem_iff.mpr (List.mem_cons_of_mem _ (h.owned t ht))

lemma reached_owned (h : Rooted H top r a m) (hv : top (index 3 v) = true)
    (hr : Reaches (phys m) v 3 r k u) : page4KIB u ∈ H.own a := h.rootedBy.reached_owned hv hr

lemma reached_aligned (h : Rooted H top r a m) (hv : top (index 3 v) = true)
    (hr : Reaches (phys m) v 3 r k u) : 4096 ∣ u.toNat := h.rootedBy.reached_aligned hv hr

lemma reached_form (h : Rooted H top r a m) (hv : top (index 3 v) = true)
    (hr : Reaches (phys m) v 3 r k u) : EntryForm k (entry (phys m) u (index k v)) :=
  h.rootedBy.reached_form hv hr

lemma entryWrite (h : Rooted H top r a m) (hv : top (index 3 v) = true)
    (hr : Reaches (phys m) v 3 r k u) (e' : Word) :
    EntryWrite (phys m) (phys (store64 m (physToVirt u + BitVec.ofNat 64 (8 * index k v)) e'))
      (tables (tree (phys m) top 3 r)) u (index k v) e' := h.rootedBy.entryWrite hv hr e'

lemma store (h : Rooted H top r a m) (hv : top (index 3 v) = true)
    (hr : Reaches (phys m) v 3 r k u)
    (hm' : m' = store64 m (physToVirt u + BitVec.ofNat 64 (8 * index k v)) e')
    (he : SlotAll EntryForm (phys m') top k e')
    (hnd : (tables (slotTree (phys m') top k e')).Nodup)
    (hnew : ∀ t ∈ tables (slotTree (phys m') top k e'),
      page4KIB t ∈ H.own a ∧ t ∉ tables (tree (phys m) top 3 r)) : Rooted H top r a m' :=
  rooted_iff.mpr (h.rootedBy.store hv hr hm' he hnd hnew)

end Rooted

/-- Where the walk of a translated address ends. -/
lemma Rooted.walk_cases {a : α} {m : Mem} {b : Word} {n : ℕ} (h : Rooted H top r a m)
    (hv : top (index 3 v) = true) (hwalk : walk (phys m) 3 r v = some (b, n)) :
    ∃ u, Reaches (phys m) v 3 r 1 u ∧
      (decode 1 (entry (phys m) u (index 1 v)) = .leaf b n ∧ n = 2 ^ 21 ∨
        ∃ t, decode 1 (entry (phys m) u (index 1 v)) = .table t ∧
          decode 0 (entry (phys m) t (index 0 v)) = .leaf b n ∧ n = 2 ^ 12) := by
  -- one level down, unless the walk ends here
  have hdown : ∀ {k : ℕ} {t : Word}, k ≤ 3 → Reaches (phys m) v 3 r k t →
      walk (phys m) k t v = some (b, n) →
      (∃ j s, k = j + 1 ∧ decode k (entry (phys m) t (index k v)) = .table s ∧
        Reaches (phys m) v 3 r j s ∧ walk (phys m) j s v = some (b, n)) ∨
      (decode k (entry (phys m) t (index k v)) = .leaf b n ∧
        (k = 1 ∧ n = 2 ^ 21 ∨ k = 0 ∧ n = 2 ^ 12)) := by
    intro k t hk hr hw
    have hp : entry (phys m) t (index k v) &&& presentBit ≠ 0 := by
      intro hp
      rw [walk, slotWalk_absent (decode_absent_iff.mpr hp)] at hw
      cases hw
    rcases decode_cases hk (h.reached_form hv hr) hp with ⟨j, rfl, -, hd⟩ | ⟨rfl, -, hd⟩ | ⟨rfl, hd⟩
    · rw [walk, slotWalk_table hd] at hw
      exact .inl ⟨j, _, rfl, hd, hr.snoc hd, hw⟩
    · rw [walk, slotWalk_leaf hd] at hw
      cases hw
      exact .inr ⟨hd, .inl ⟨rfl, rfl⟩⟩
    · rw [walk, slotWalk_leaf hd] at hw
      cases hw
      exact .inr ⟨hd, .inr ⟨rfl, rfl⟩⟩
  rcases hdown le_rfl (.refl 3 r) hwalk with ⟨j, t2, hj, -, hr2, hw2⟩ | ⟨-, hk⟩
  swap
  · omega
  obtain rfl : j = 2 := by omega
  rcases hdown (by norm_num) hr2 hw2 with ⟨j, t1, hj, -, hr1, hw1⟩ | ⟨-, hk⟩
  swap
  · omega
  obtain rfl : j = 1 := by omega
  refine ⟨t1, hr1, ?_⟩
  rcases hdown (by norm_num) hr1 hw1 with ⟨j, t0, hj, hd, hr0, hw0⟩ | ⟨hd, hk⟩
  · obtain rfl : j = 0 := by omega
    refine .inr ⟨t0, hd, ?_⟩
    rcases hdown (by norm_num) hr0 hw0 with ⟨j, -, hj, -⟩ | ⟨hd0, hk⟩
    · omega
    · exact ⟨hd0, by omega⟩
  · exact .inl ⟨hd, by omega⟩

/-! ## Adding empty tables -/

/-- The tables `new` have been added; no translation has changed. -/
structure Grown (H : PhysHeap A) (top : ℕ → Bool) (r : Word) (a : α) (m : Mem) (a' : α)
    (m' : Mem) (new : List Word) : Prop where
  pages : (tree (phys m') top 3 r).Perm (new.map tablePage ++ tree (phys m) top 3 r)
  own : (H.own a').Perm (new.map page4KIB ++ H.own a)
  walk : ∀ w, top (index 3 w) = true → walk (phys m') 3 r w = walk (phys m) 3 r w
  others : ∀ b ∈ H.own a, (∀ t ∈ tables (tree (phys m) top 3 r), (page4KIB t).Disjoint b) →
    ∀ x, b.Has x → phys m' x = phys m x
  room : H.room a ≤ H.room a' + new.length

lemma tables_map_tablePage (ts : List Word) : tables (ts.map tablePage) = ts := by
  induction ts with
  | nil => rfl
  | cons t ts ih => rw [List.map_cons, tables_cons_table, ih]

namespace Grown

/-- Nothing is new yet. -/
lemma refl (H : PhysHeap A) (top : ℕ → Bool) (r : Word) (a : α) (m : Mem) :
    Grown H top r a m a m [] :=
  ⟨.refl _, .refl _, fun _ _ => rfl, fun _ _ _ _ _ => rfl, le_rfl⟩

variable {a'' : α} {m'' : Mem} {new new' : List Word}

/-- New tables of both steps -/
lemma trans (h : Grown H top r a m a' m' new) (hv : H.Valid a' m')
    (h' : Grown H top r a' m' a'' m'' new') : Grown H top r a m a'' m'' (new' ++ new) := by
  have hmem : ∀ b ∈ H.own a, b ∈ H.own a' := fun b hb =>
    h.own.mem_iff.mpr (List.mem_append_right _ hb)
  refine ⟨?_, ?_, fun w hw => (h'.walk w hw).trans (h.walk w hw), ?_, ?_⟩
  · rw [List.map_append, List.append_assoc]
    exact h'.pages.trans (h.pages.append_left _)
  · rw [List.map_append, List.append_assoc]
    exact h'.own.trans (h.own.append_left _)
  · intro b hb hdisj x hx
    rw [h'.others b (hmem b hb) ?_ x hx, h.others b hb hdisj x hx]
    intro t ht
    have ht' := (tables_perm h.pages).mem_iff.mp ht
    rw [tables_append, tables_map_tablePage, List.mem_append] at ht'
    rcases ht' with ht' | ht'
    · -- a table added in the first step was not outstanding before it
      have hpair := (h.own.pairwise_iff fun hd => Block.Disjoint.symm hd).mp (H.disjoint hv)
      exact (List.pairwise_append.mp hpair).2.2 _ (List.mem_map_of_mem ht') b hb
    · exact hdisj t ht'
  · have h1 := h.room
    have h2 := h'.room
    rw [List.length_append]
    omega

end Grown

end Bikeshed
