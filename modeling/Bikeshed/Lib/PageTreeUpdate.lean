import Bikeshed.Lib.Lists
import Bikeshed.Lib.PageTree
import Mathlib.Data.List.Pairwise

/-!
# Writing one entry of a page tree

`Reaches P v l t k u`: from the level `l` table `t`, the walk of `v` comes to the level
`k` table `u`. An `EntryWrite` changes one entry of one table and no other entry of the
tables it is told about. The results of this file say what such a write to the entry of
`u` that `v` selects does to the pages of the tree, to its entries, and to the walk of
every address.
-/

namespace Bikeshed.Lib

variable {P P' : Mem} {top : ℕ → Bool} {l k : ℕ} {e e' t u v w : Word}

/-- The walk for `v` from table `t` gets to table `u`. -/
inductive Reaches (P : Mem) (v : Word) : ℕ → Word → ℕ → Word → Prop
  | refl (l : ℕ) (t : Word) : Reaches P v l t l t
  | step {l k : ℕ} {t s u : Word} (hd : decode (l + 1) (entry P t (index (l + 1) v)) = .table s)
      (hr : Reaches P v l s k u) : Reaches P v (l + 1) t k u

lemma Reaches.le (h : Reaches P v l t k u) : k ≤ l := by
  induction h with
  | refl => exact le_rfl
  | step _ _ ih => omega

/-- One more level down. -/
lemma Reaches.snoc {s : Word} (h : Reaches P v l t (k + 1) u)
    (hd : decode (k + 1) (entry P u (index (k + 1) v)) = .table s) : Reaches P v l t k s := by
  generalize hk : k + 1 = k' at h
  induction h with
  | refl l t =>
    subst hk
    exact .step hd (.refl _ _)
  | step hd' _ ih => exact .step hd' (ih hd hk)

/-- Of the entries in the tables `ts` only entry `j` of `u` has changed. -/
structure EntryWrite (P P' : Mem) (ts : List Word) (u : Word) (j : ℕ) (e' : Word) : Prop where
  others : ∀ t ∈ ts, ∀ i < 512, t ≠ u ∨ i ≠ j → entry P' t i = entry P t i
  written : entry P' u j = e'

namespace EntryWrite

variable {ts ss : List Word} {j : ℕ}

/-- Fewer tables may be looked at. -/
lemma mono (h : EntryWrite P P' ts u j e') (hs : ∀ t ∈ ss, t ∈ ts) :
    EntryWrite P P' ss u j e' := ⟨fun t ht => h.others t (hs t ht), h.written⟩

/-- Tables other than `u` -/
lemma same (h : EntryWrite P P' ts u j e') (hs : ∀ t ∈ ss, t ∈ ts) (hu : u ∉ ss) :
    SameEntries ss P P' := by
  intro t ht i hi
  refine h.others t (hs t ht) i hi (.inl ?_)
  rintro rfl
  exact hu ht

end EntryWrite

/-! ## Tables of different slots -/

/-- The walk takes slots of the tree. -/
lemma index_mem_slots (hv : top (index 3 v) = true) (l : ℕ) : index l v ∈ slots top l := by
  rw [mem_slots]
  refine ⟨index_lt l v, ?_⟩
  by_cases hl : l = 3
  · exact .inr (hl ▸ hv)
  · exact .inl hl

lemma tables_tree : tables (tree P top l t)
    = t :: (slots top l).flatMap fun i => tables (slotTree P top l (entry P t i)) := by
  rw [tree, tables_cons_table, tables_flatMap]

/-- The tables below one slot are distinct. -/
lemma nodup_slot (hnd : (tables (tree P top l t)).Nodup) {i : ℕ} (hi : i ∈ slots top l) :
    (tables (slotTree P top l (entry P t i))).Nodup := by
  rw [tables_tree, List.nodup_cons, List.nodup_flatMap] at hnd
  exact hnd.2.1 i hi

lemma self_not_mem_slot (hnd : (tables (tree P top l t)).Nodup) {i : ℕ} (hi : i ∈ slots top l) :
    t ∉ tables (slotTree P top l (entry P t i)) := by
  rw [tables_tree, List.nodup_cons] at hnd
  exact fun hm => hnd.1 (List.mem_flatMap.mpr ⟨i, hi, hm⟩)

/-- Different slots have different tables below them. -/
lemma not_mem_other_slot (hnd : (tables (tree P top l t)).Nodup) {i j : ℕ}
    (hi : i ∈ slots top l) (hj : j ∈ slots top l) (hij : i ≠ j) {s : Word}
    (hs : s ∈ tables (slotTree P top l (entry P t j))) :
    s ∉ tables (slotTree P top l (entry P t i)) := by
  rw [tables_tree, List.nodup_cons, List.nodup_flatMap] at hnd
  intro hs'
  have hsymm : Std.Symm (Function.onFun List.Disjoint
      fun i => tables (slotTree P top l (entry P t i))) := ⟨fun _ _ h => h.symm⟩
  exact hnd.2.2.forall hi hj hij hs' hs

/-! ## The table that is reached -/

/-- Tables on the walk are tables of the tree. -/
lemma Reaches.mem_tables (h : Reaches P v l t k u) (hv : top (index 3 v) = true) :
    u ∈ tables (tree P top l t) := by
  induction h with
  | refl => exact self_mem_tables_tree
  | step hd _ ih =>
    refine tables_slot_subset_tree (index_mem_slots hv _) ?_
    rw [slotTree_table hd]
    exact ih

/-- The slot that leads down to `u` holds `u`, so no other part of the tree does. -/
lemma Reaches.mem_slot {s : Word} (h : Reaches P v l s k u) (hv : top (index 3 v) = true)
    (hd : decode (l + 1) (entry P t (index (l + 1) v)) = .table s) :
    u ∈ tables (slotTree P top (l + 1) (entry P t (index (l + 1) v))) := by
  rw [slotTree_table hd]
  exact h.mem_tables hv

/-- A table further down is another one. -/
lemma Reaches.ne_root (h : Reaches P v l t k u) (hv : top (index 3 v) = true)
    (hnd : (tables (tree P top l t)).Nodup) (hk : k < l) : u ≠ t := by
  cases h with
  | refl => exact absurd hk (lt_irrefl _)
  | step hd hr =>
    rintro rfl
    exact self_not_mem_slot hnd (index_mem_slots hv _) (hr.mem_slot hv hd)

/-- The walk takes the same way in the same tables. -/
lemma Reaches.congr (h : Reaches P v l t k u) (hv : top (index 3 v) = true)
    (hs : SameEntries (tables (tree P top l t)) P P') : Reaches P' v l t k u := by
  induction h with
  | refl => exact .refl _ _
  | step hd hr ih =>
    refine .step ?_ (ih (hs.mono fun s' hs' => ?_))
    · rw [hs _ self_mem_tables_tree _ (index_lt _ _)]
      exact hd
    · refine tables_slot_subset_tree (index_mem_slots hv _) ?_
      rw [slotTree_table hd]
      exact hs'

/-- And it gets to the same page. -/
lemma walk_congr (hl : l ≤ 3) (hw : top (index 3 w) = true)
    (hs : SameEntries (tables (tree P top l t)) P P') : walk P' l t w = walk P l t w := by
  rw [walk, walk, hs t self_mem_tables_tree _ (index_lt l w)]
  exact slotWalk_congr l (by omega) (hs.mono fun s hs' =>
    tables_slot_subset_tree (index_mem_slots hw l) hs')

/-- `w` selects the entries that `v` does, from level `k` up to level `l`. -/
def SameDown (k l : ℕ) (v w : Word) : Prop := ∀ i, k ≤ i → i ≤ l → index i w = index i v

/-- An address with the same indices above level `k` comes to the same table. -/
lemma Reaches.of_same (h : Reaches P v l t k u)
    (hsame : ∀ i, k < i → i ≤ l → index i w = index i v) :
    Reaches P w l t k u := by
  induction h with
  | refl => exact .refl _ _
  | @step l k t s u hd hr ih =>
    refine .step ?_ (ih fun i h1 h2 => hsame i h1 (by omega))
    rw [hsame (l + 1) (by have := hr.le; omega) le_rfl]
    exact hd

/-- The table reached is determined by the address. -/
lemma Reaches.unique {u' : Word} (h : Reaches P v l t k u) (h' : Reaches P v l t k u') :
    u = u' := by
  induction h with
  | refl l t =>
    cases h' with
    | refl => rfl
    | step _ hr => exact absurd hr.le (by omega)
  | @step l k t s u hd hr ih =>
    cases h' with
    | refl => exact absurd hr.le (by omega)
    | step hd' hr' =>
      rw [hd] at hd'
      cases hd'
      exact ih hr'

/-- On the way further down, the entry of a table passed leads to a table. -/
lemma Reaches.next {j : ℕ} {u' : Word} (h : Reaches P v l t k u) (h' : Reaches P v l t j u')
    (hjk : j < k) : ∃ s, decode k (entry P u (index k v)) = .table s := by
  induction h with
  | refl l t =>
    cases h' with
    | refl => exact absurd hjk (lt_irrefl _)
    | step hd _ => exact ⟨_, hd⟩
  | @step l k t s u hd hr ih =>
    cases h' with
    | refl => exact absurd hr.le (by omega)
    | step hd' hr' =>
      rw [hd] at hd'
      cases hd'
      exact ih hr' hjk

/-- An address that goes through the same entry is translated by it. -/
lemma Reaches.walk_same (h : Reaches P v l t k u) (hsame : SameDown k l v w) :
    walk P l t w = slotWalk P k (entry P u (index k v)) w := by
  induction h with
  | refl l t => rw [walk, hsame l le_rfl le_rfl]
  | @step l k t s u hd hr ih =>
    rw [walk, hsame (l + 1) (by have := hr.le; omega) le_rfl, slotWalk_table hd]
    exact ih fun i h1 h2 => hsame i h1 (by omega)

/-! ## A write at the table that is reached

In all of these, `u` is the level `k` table on the way to `v`, and its entry for `v`
becomes `e'`. -/

section Write

variable {φ : ℕ → Word → Prop}

/-- A slot whose tables do not include `u` is left alone. -/
lemma EntryWrite.slot_other {i j : ℕ}
    (hw : EntryWrite P P' (tables (tree P top l t)) u j e')
    (hi : i ∈ slots top l) (hu : u ∉ tables (slotTree P top l (entry P t i))) :
    SameEntries (tables (slotTree P top l (entry P t i))) P P' :=
  hw.same (fun _ hs => tables_slot_subset_tree hi hs) hu

lemma EntryWrite.below {s : Word} {i j : ℕ}
    (hw : EntryWrite P P' (tables (tree P top (l + 1) t)) u j e') (hi : i ∈ slots top (l + 1))
    (hd : decode (l + 1) (entry P t i) = .table s) :
    EntryWrite P P' (tables (tree P top l s)) u j e' := by
  refine hw.mono fun s' hs' => tables_slot_subset_tree hi ?_
  rw [slotTree_table hd]
  exact hs'

lemma nodup_below {s : Word} {i : ℕ} (hnd : (tables (tree P top (l + 1) t)).Nodup)
    (hi : i ∈ slots top (l + 1)) (hd : decode (l + 1) (entry P t i) = .table s) :
    (tables (tree P top l s)).Nodup := by
  rw [← slotTree_table hd]
  exact nodup_slot hnd hi

/-- Above the table written, the way to `v` is unchanged. -/
lemma EntryWrite.path (hw : EntryWrite P P' (tables (tree P top (l + 1) t)) u (index k v) e')
    (hnd : (tables (tree P top (l + 1) t)).Nodup) (hv : top (index 3 v) = true) {s : Word}
    (hr : Reaches P v l s k u)
    (hd : decode (l + 1) (entry P t (index (l + 1) v)) = .table s) {i : ℕ} (hi : i < 512) :
    entry P' t i = entry P t i := by
  refine hw.others t self_mem_tables_tree i hi (.inl ?_)
  rintro rfl
  exact self_not_mem_slot hnd (index_mem_slots hv _) (hr.mem_slot hv hd)

/-- Writing an entry exchanges what is below it, the rest of the tree stays. -/
theorem reaches_exchange (hr : Reaches P v l t k u) (hv : top (index 3 v) = true)
    (hnd : (tables (tree P top l t)).Nodup)
    (hw : EntryWrite P P' (tables (tree P top l t)) u (index k v) e') :
    ∃ kept, (tree P top l t).Perm (slotTree P top k (entry P u (index k v)) ++ kept) ∧
      (tree P' top l t).Perm (slotTree P' top k e' ++ kept) := by
  induction hr with
  | refl l t =>
    obtain ⟨rest, h1, h2⟩ := flatMap_exchange (slots_nodup top l) (index_mem_slots hv l)
      (f := fun i => slotTree P top l (entry P t i))
      (g := fun i => slotTree P' top l (entry P' t i)) fun i hi hij => by
        rw [hw.others t self_mem_tables_tree i (mem_slots.mp hi).1 (.inr hij)]
        exact slotTree_congr l (hw.slot_other hi (self_not_mem_slot hnd hi))
    rw [hw.written] at h2
    exact ⟨tablePage t :: rest, (h1.cons _).trans List.perm_middle.symm,
      (h2.cons _).trans List.perm_middle.symm⟩
  | @step l k t s u hd hr ih =>
    have hj := index_mem_slots hv (l + 1)
    obtain ⟨kept, k1, k2⟩ := ih (nodup_below hnd hj hd) (hw.below hj hd)
    obtain ⟨rest, h1, h2⟩ := flatMap_exchange (slots_nodup top (l + 1)) hj
      (f := fun i => slotTree P top (l + 1) (entry P t i))
      (g := fun i => slotTree P' top (l + 1) (entry P' t i)) fun i hi hij => by
        rw [hw.path hnd hv hr hd (mem_slots.mp hi).1]
        exact slotTree_congr _ (hw.slot_other hi
          (not_mem_other_slot hnd hi hj hij (hr.mem_slot hv hd)))
    rw [hw.path hnd hv hr hd (index_lt _ _), slotTree_table hd] at h2
    rw [slotTree_table hd] at h1
    refine ⟨tablePage t :: (kept ++ rest), ?_, ?_⟩
    · refine ((h1.trans (k1.append_right rest)).cons _).trans ?_
      rw [List.append_assoc]
      exact List.perm_middle.symm
    · refine ((h2.trans (k2.append_right rest)).cons _).trans ?_
      rw [List.append_assoc]
      exact List.perm_middle.symm

/-- The walk to `v` still comes to `u`. -/
theorem reaches_write (hr : Reaches P v l t k u) (hv : top (index 3 v) = true)
    (hnd : (tables (tree P top l t)).Nodup)
    (hw : EntryWrite P P' (tables (tree P top l t)) u (index k v) e') :
    Reaches P' v l t k u := by
  induction hr with
  | refl => exact .refl _ _
  | @step l k t s u hd hr ih =>
    have hj := index_mem_slots hv (l + 1)
    refine .step ?_ (ih (nodup_below hnd hj hd) (hw.below hj hd))
    rw [hw.path hnd hv hr hd (index_lt _ _)]
    exact hd

/-- An address that goes through the entry written is translated by the new entry. -/
theorem walk_write_same (hr : Reaches P v l t k u) (hv : top (index 3 v) = true)
    (hnd : (tables (tree P top l t)).Nodup)
    (hw : EntryWrite P P' (tables (tree P top l t)) u (index k v) e')
    (hsame : SameDown k l v w) : walk P' l t w = slotWalk P' k e' w := by
  induction hr with
  | refl l t => rw [walk, hsame l le_rfl le_rfl, hw.written]
  | @step l k t s u hd hr ih =>
    have hj := index_mem_slots hv (l + 1)
    rw [walk, hsame (l + 1) (by have := hr.le; omega) le_rfl,
      hw.path hnd hv hr hd (index_lt _ _), slotWalk_table hd]
    exact ih (nodup_below hnd hj hd) (hw.below hj hd) fun i h1 h2 => hsame i h1 (by omega)

/-- Every other address is translated as before. -/
theorem walk_write_other (hr : Reaches P v l t k u) (hl : l ≤ 3) (hv : top (index 3 v) = true)
    (hw3 : top (index 3 w) = true) (hnd : (tables (tree P top l t)).Nodup)
    (hw : EntryWrite P P' (tables (tree P top l t)) u (index k v) e')
    (hother : ¬ SameDown k l v w) : walk P' l t w = walk P l t w := by
  induction hr with
  | refl l t =>
    have hne : index l w ≠ index l v := by
      intro he
      refine hother fun i h1 h2 => ?_
      obtain rfl : i = l := by omega
      exact he
    have hi := index_mem_slots hw3 l
    rw [walk, walk, hw.others t self_mem_tables_tree _ (index_lt l w) (.inr hne)]
    exact slotWalk_congr l (by omega) (hw.slot_other hi (self_not_mem_slot hnd hi))
  | @step l k t s u hd hr ih =>
    have hj := index_mem_slots hv (l + 1)
    have hi := index_mem_slots hw3 (l + 1)
    rw [walk, walk, hw.path hnd hv hr hd (index_lt _ _)]
    by_cases hij : index (l + 1) w = index (l + 1) v
    · rw [hij, slotWalk_table hd, slotWalk_table hd]
      refine ih (by omega) (nodup_below hnd hj hd) (hw.below hj hd) fun hs => hother ?_
      intro i h1 h2
      rcases Nat.lt_or_ge l i with h | h
      · obtain rfl : i = l + 1 := by omega
        exact hij
      · exact hs i h1 h
    · exact slotWalk_congr _ (by omega) (hw.slot_other hi
        (not_mem_other_slot hnd hi hj hij (hr.mem_slot hv hd)))

/-! ### Properties of every entry -/

lemma slotAll_congr : ∀ (l : ℕ) {e : Word},
    SameEntries (tables (slotTree P top l e)) P P' → SlotAll φ P top l e → SlotAll φ P' top l e
  | 0, _, _, h => h
  | l + 1, e, hs, h => by
    refine ⟨h.1, fun u hu i hi => ?_⟩
    rw [slotTree_table hu] at hs
    rw [hs u self_mem_tables_tree i (mem_slots.mp hi).1]
    exact slotAll_congr l (hs.mono fun s hs' => tables_slot_subset_tree hi hs') (h.2 u hu i hi)

/-- The same entries have the same properties. -/
lemma tableAll_congr (hs : SameEntries (tables (tree P top l t)) P P')
    (h : TableAll φ P top l t) : TableAll φ P' top l t := by
  intro i hi
  rw [hs t self_mem_tables_tree i (mem_slots.mp hi).1]
  exact slotAll_congr l (hs.mono fun s hs' => tables_slot_subset_tree hi hs') (h i hi)

/-- The entry on the way to `v`, and the tables below it. -/
lemma Reaches.slotAll (hr : Reaches P v l t k u) (hv : top (index 3 v) = true)
    (h : TableAll φ P top l t) : TableAll φ P top k u := by
  induction hr with
  | refl => exact h
  | step hd _ ih => exact ih (slotAll_table (h _ (index_mem_slots hv _)) hd)

/-- The entry that is written has to have the property. -/
theorem tableAll_write (hr : Reaches P v l t k u) (hv : top (index 3 v) = true)
    (hnd : (tables (tree P top l t)).Nodup)
    (hw : EntryWrite P P' (tables (tree P top l t)) u (index k v) e')
    (h : TableAll φ P top l t) (he : SlotAll φ P' top k e') : TableAll φ P' top l t := by
  induction hr with
  | refl l t =>
    intro i hi
    by_cases hij : i = index l v
    · rw [hij, hw.written]
      exact he
    · rw [hw.others t self_mem_tables_tree i (mem_slots.mp hi).1 (.inr hij)]
      exact slotAll_congr l (hw.slot_other hi (self_not_mem_slot hnd hi)) (h i hi)
  | @step l k t s u hd hr ih =>
    have hj := index_mem_slots hv (l + 1)
    intro i hi
    rw [hw.path hnd hv hr hd (mem_slots.mp hi).1]
    by_cases hij : i = index (l + 1) v
    · subst hij
      exact slotAll_of_table (slotAll_head (h _ hi)) hd
        (ih (nodup_below hnd hj hd) (hw.below hj hd) (slotAll_table (h _ hi) hd) he)
    · exact slotAll_congr _ (hw.slot_other hi
        (not_mem_other_slot hnd hi hj hij (hr.mem_slot hv hd))) (h i hi)

end Write

end Bikeshed.Lib
