import Bikeshed.Lib.PageTreeUpdate

/-!
# The entries that a walk reads

`walkEntries P l t v` are the entries that the processor reads for `v`, from the level `l` table
`t` down to a page or to an absent entry: what a page may be used for is decided by all of them.
A write to one entry keeps those above it, and all of an address that does not go through it.
-/

namespace Bikeshed.Lib

def slotEntries (P : Mem) : ℕ → Word → Word → List Word
  | 0, e, _ => [e]
  | l + 1, e, v =>
    match decode (l + 1) e with
    | .table u => e :: slotEntries P l (entry P u (index l v)) v
    | _ => [e]

/-- The entries on the walk for `v` -/
def walkEntries (P : Mem) (l : ℕ) (t v : Word) : List Word :=
  slotEntries P l (entry P t (index l v)) v

variable {P P' : Mem} {top : ℕ → Bool} {l k : ℕ} {e e' t u v w : Word}

lemma slotEntries_table (h : decode (l + 1) e = .table u) :
    slotEntries P (l + 1) e v = e :: walkEntries P l u v := by
  simp [slotEntries, walkEntries, h]

/-- The walk ends at a page or an absent entry. -/
lemma slotEntries_last (h : ∀ u, decode l e ≠ .table u) : slotEntries P l e v = [e] := by
  cases l with
  | zero => rfl
  | succ l =>
    cases hd : decode (l + 1) e with
    | absent => simp [slotEntries, hd]
    | leaf a n => simp [slotEntries, hd]
    | table u => exact absurd hd (h u)

/-- The walk begins in the table that it is given. -/
lemma walkEntries_head (P : Mem) (l : ℕ) (t v : Word) :
    ∃ rest, walkEntries P l t v = entry P t (index l v) :: rest := by
  unfold walkEntries
  cases l with
  | zero => exact ⟨[], rfl⟩
  | succ l =>
    cases hd : decode (l + 1) (entry P t (index (l + 1) v)) with
    | absent => exact ⟨[], slotEntries_last (by simp [hd])⟩
    | leaf a n => exact ⟨[], slotEntries_last (by simp [hd])⟩
    | table u => exact ⟨_, slotEntries_table hd⟩

/-- The tables of the tree determine the entries. -/
lemma slotEntries_congr : ∀ (l : ℕ) {e : Word}, (∀ j, 3 ≤ j → j < l → top (index j v) = true) →
    SameEntries (tables (slotTree P top l e)) P P' → slotEntries P' l e v = slotEntries P l e v
  | 0, e, _, _ => rfl
  | l + 1, e, hv, h => by
    cases hd : decode (l + 1) e with
    | absent => rw [slotEntries_last (by simp [hd]), slotEntries_last (by simp [hd])]
    | leaf a n => rw [slotEntries_last (by simp [hd]), slotEntries_last (by simp [hd])]
    | table u =>
      rw [slotTree_table hd] at h
      rw [slotEntries_table hd, slotEntries_table hd, walkEntries, walkEntries,
        h u self_mem_tables_tree _ (index_lt l v)]
      congr 1
      refine slotEntries_congr l (fun j h3 hj => hv j h3 (by omega)) (h.mono fun s hs => ?_)
      refine tables_slot_subset_tree (mem_slots.mpr ⟨index_lt l v, ?_⟩) hs
      rcases Nat.lt_or_ge l 3 with hl | hl
      · exact .inl (by omega)
      · exact .inr (hv l hl (by omega))

lemma walkEntries_congr (hl : l ≤ 3) (hw : top (index 3 w) = true)
    (hs : SameEntries (tables (tree P top l t)) P P') :
    walkEntries P' l t w = walkEntries P l t w := by
  rw [walkEntries, walkEntries, hs t self_mem_tables_tree _ (index_lt l w)]
  exact slotEntries_congr l (by omega) (hs.mono fun s hs' =>
    tables_slot_subset_tree (index_mem_slots hw l) hs')

/-- The entries on the way to a table, one for each level passed. -/
structure Above (P : Mem) (v : Word) (l : ℕ) (t : Word) (k : ℕ) (above : List Word) : Prop where
  length : above.length = l - k
  passed : ∀ e ∈ above, ∃ j u s, Reaches P v l t j u ∧ e = entry P u (index j v) ∧
    decode j e = .table s

/-- A write to the entry of the table reached keeps the entries above. -/
theorem entries_write (hr : Reaches P v l t k u) (hv : top (index 3 v) = true)
    (hnd : (tables (tree P top l t)).Nodup)
    (hw : EntryWrite P P' (tables (tree P top l t)) u (index k v) e') :
    ∃ above, Above P v l t k above ∧
      (∀ w, SameDown k l v w →
        walkEntries P l t w = above ++ slotEntries P k (entry P u (index k v)) w) ∧
      ∀ w, SameDown k l v w → walkEntries P' l t w = above ++ slotEntries P' k e' w := by
  induction hr with
  | refl l t =>
    refine ⟨[], ⟨(Nat.sub_self l).symm, fun e he => absurd he List.not_mem_nil⟩,
      fun w hw' => ?_, fun w hw' => ?_⟩
    · rw [walkEntries, hw' l le_rfl le_rfl, List.nil_append]
    · rw [walkEntries, hw' l le_rfl le_rfl, hw.written, List.nil_append]
  | @step l k t s u hd hr ih =>
    have hj := index_mem_slots hv (l + 1)
    have hle := hr.le
    obtain ⟨above, ⟨hlen, hpassed⟩, h1, h2⟩ := ih (nodup_below hnd hj hd) (hw.below hj hd)
    refine ⟨entry P t (index (l + 1) v) :: above, ⟨?_, ?_⟩, fun w hw' => ?_, fun w hw' => ?_⟩
    · rw [List.length_cons, hlen]
      omega
    · refine List.forall_mem_cons.mpr ⟨⟨l + 1, t, s, .refl _ _, rfl, hd⟩, fun e he => ?_⟩
      obtain ⟨j, u', s', hr', he', hd'⟩ := hpassed e he
      exact ⟨j, u', s', .step hd hr', he', hd'⟩
    · rw [walkEntries, hw' (l + 1) (by omega) le_rfl, slotEntries_table hd, List.cons_append,
        h1 w fun i hi hil => hw' i hi (by omega)]
    · rw [walkEntries, hw' (l + 1) (by omega) le_rfl, hw.path hnd hv hr hd (index_lt _ _),
        slotEntries_table hd, List.cons_append, h2 w fun i hi hil => hw' i hi (by omega)]

/-- Every other address is translated through the same entries as before. -/
theorem walkEntries_write_other (hr : Reaches P v l t k u) (hl : l ≤ 3)
    (hv : top (index 3 v) = true) (hw3 : top (index 3 w) = true)
    (hnd : (tables (tree P top l t)).Nodup)
    (hw : EntryWrite P P' (tables (tree P top l t)) u (index k v) e')
    (hother : ¬ SameDown k l v w) : walkEntries P' l t w = walkEntries P l t w := by
  induction hr with
  | refl l t =>
    have hne : index l w ≠ index l v := by
      intro he
      refine hother fun i h1 h2 => ?_
      obtain rfl : i = l := by omega
      exact he
    have hi := index_mem_slots hw3 l
    rw [walkEntries, walkEntries, hw.others t self_mem_tables_tree _ (index_lt l w) (.inr hne)]
    exact slotEntries_congr l (by omega) (hw.slot_other hi (self_not_mem_slot hnd hi))
  | @step l k t s u hd hr ih =>
    have hj := index_mem_slots hv (l + 1)
    have hi := index_mem_slots hw3 (l + 1)
    rw [walkEntries, walkEntries, hw.path hnd hv hr hd (index_lt _ _)]
    by_cases hij : index (l + 1) w = index (l + 1) v
    · rw [hij, slotEntries_table hd, slotEntries_table hd]
      congr 1
      refine ih (by omega) (nodup_below hnd hj hd) (hw.below hj hd) fun hs => hother ?_
      intro i h1 h2
      rcases Nat.lt_or_ge l i with h | h
      · obtain rfl : i = l + 1 := by omega
        exact hij
      · exact hs i h1 h
    · exact slotEntries_congr _ (by omega) (hw.slot_other hi
        (not_mem_other_slot hnd hi hj hij (hr.mem_slot hv hd)))

end Bikeshed.Lib
