import Bikeshed.Lib.PageTreeStore

/-!
# Copies of page tables

`SlotCopy P P' top l e e'`: in `P'` the level `l` entry `e'` is a deep copy of what `e` is in
`P`. The shape is the same, the flags `flags` of every entry are the same, and every frame
has the same contents. A walk through the copy passes the same flags and ends in a frame
with the same contents (`slotCopy_walk`).

Two addresses in different pages are mapped to different frames of a tree whose pages are
disjoint (`walk_disjoint`).
-/

namespace Bikeshed.Lib

variable {P P' P'' : Mem} {top : ℕ → Bool} {l : ℕ} {e e' t u v w : Word} {flags : Word}

/-! ## Leaves -/

lemma decode_leaf_dvd {a : Word} {n : ℕ} (h : decode l e = .leaf a n) :
    ∃ k, k ≤ 2 ∧ k = l ∧ n = 2 ^ (12 + 9 * k) ∧ n ∣ a.toNat := by
  have hdvd : ∀ lo, lo ≤ 52 → 2 ^ lo ∣ (e &&& mask lo 52).toNat := fun lo hlo => by
    rw [toNat_and_mask _ _ hlo (by norm_num)]
    exact Dvd.intro_left _ rfl
  unfold decode at h
  repeat' split at h
  all_goals first
    | cases h; done
    | skip
  · cases h
    exact ⟨0, by norm_num, rfl, rfl, hdvd 12 (by norm_num)⟩
  · cases h
    exact ⟨1, by norm_num, rfl, rfl, hdvd 21 (by norm_num)⟩
  · cases h
    exact ⟨2, by norm_num, rfl, rfl, hdvd 30 (by norm_num)⟩

/-- A frame does not reach beyond the end of the address space. -/
lemma decode_leaf_le {a : Word} {n : ℕ} (h : decode l e = .leaf a n) : a.toNat + n ≤ 2 ^ 64 := by
  obtain ⟨k, hk, -, rfl, hd⟩ := decode_leaf_dvd h
  have ha := a.isLt
  interval_cases k <;> norm_num at hd ⊢ <;> omega

lemma decode_leaf_has {a : Word} {n k : ℕ} (h : decode l e = .leaf a n) (hk : k < n) :
    (Block.mk a n).Has (a + BitVec.ofNat 64 k) := by
  have hle := decode_leaf_le h
  rw [Block.Has, toNat_add_ofNat (by omega)]
  exact ⟨Nat.le_add_right _ _, by
    show a.toNat + k < a.toNat + n
    omega⟩

/-! ## Copies -/

/-- The `n` bytes at `a'` in `P'` are those at `a` in `P`. -/
def SameBytes (P P' : Mem) (a a' : Word) (n : ℕ) : Prop :=
  ∀ k < n, P' (a' + BitVec.ofNat 64 k) = P (a + BitVec.ofNat 64 k)

def SlotCopy (flags : Word) (P P' : Mem) (top : ℕ → Bool) : ℕ → Word → Word → Prop
  | 0, e, e' =>
    match decode 0 e with
    | .leaf a n => ∃ a', decode 0 e' = .leaf a' n ∧ e' &&& flags = e &&& flags ∧
        SameBytes P P' a a' n
    | _ => decode 0 e' = .absent
  | l + 1, e, e' =>
    match decode (l + 1) e with
    | .absent => decode (l + 1) e' = .absent
    | .leaf a n => ∃ a', decode (l + 1) e' = .leaf a' n ∧ e' &&& flags = e &&& flags ∧
        SameBytes P P' a a' n
    | .table u => ∃ u', decode (l + 1) e' = .table u' ∧ e' &&& flags = e &&& flags ∧
        ∀ i ∈ slots top l, SlotCopy flags P P' top l (entry P u i) (entry P' u' i)

lemma slotCopy_absent (h : decode l e = .absent) :
    SlotCopy flags P P' top l e e' ↔ decode l e' = .absent := by
  cases l <;> simp [SlotCopy, h]

lemma slotCopy_leaf {a : Word} {n : ℕ} (h : decode l e = .leaf a n) :
    SlotCopy flags P P' top l e e' ↔ ∃ a', decode l e' = .leaf a' n ∧
      e' &&& flags = e &&& flags ∧ SameBytes P P' a a' n := by
  cases l <;> simp [SlotCopy, h]

lemma slotCopy_table (h : decode (l + 1) e = .table u) :
    SlotCopy flags P P' top (l + 1) e e' ↔ ∃ u', decode (l + 1) e' = .table u' ∧
      e' &&& flags = e &&& flags ∧
      ∀ i ∈ slots top l, SlotCopy flags P P' top l (entry P u i) (entry P' u' i) := by
  simp [SlotCopy, h]

lemma block_mem_slot {i : ℕ} (hi : i ∈ slots top l) {p : Page}
    (hp : p ∈ slotTree P top l (entry P t i)) : p ∈ tree P top l t :=
  List.mem_cons_of_mem _ (List.mem_flatMap.mpr ⟨i, hi, hp⟩)

/-- Changing memory outside the original's pages keeps it a copy. -/
lemma slotCopy_congr_left : ∀ (l : ℕ) {e e' : Word},
    (∀ p ∈ slotTree P top l e, ∀ x, p.block.Has x → P'' x = P x) →
    SameEntries (tables (slotTree P top l e)) P P'' →
    SlotCopy flags P'' P' top l e e' → SlotCopy flags P P' top l e e'
  | l, e, e', hag, hs, h => by
    cases hd : decode l e with
    | absent => exact (slotCopy_absent hd).mpr ((slotCopy_absent hd).mp h)
    | leaf a n =>
      obtain ⟨a', h1, h2, h3⟩ := (slotCopy_leaf hd).mp h
      refine (slotCopy_leaf hd).mpr ⟨a', h1, h2, fun k hk => ?_⟩
      rw [h3 k hk]
      refine hag (framePage a n) ?_ _ (decode_leaf_has hd hk)
      rw [slotTree_leaf hd]
      exact List.mem_singleton_self _
    | table u =>
      cases l with
      | zero => exact absurd hd decode_zero_ne_table
      | succ l =>
        obtain ⟨u', h1, h2, h3⟩ := (slotCopy_table hd).mp h
        rw [slotTree_table hd] at hag hs
        refine (slotCopy_table hd).mpr ⟨u', h1, h2, fun i hi => ?_⟩
        have h4 := h3 i hi
        rw [hs u self_mem_tables_tree i (mem_slots.mp hi).1] at h4
        exact slotCopy_congr_left l (fun p hp => hag p (block_mem_slot hi hp))
          (hs.mono fun s hs' => tables_slot_subset_tree hi hs') h4

/-- Changing memory outside the copy's pages keeps it a copy. -/
lemma slotCopy_congr_right : ∀ (l : ℕ) {e e' : Word},
    (∀ p ∈ slotTree P' top l e', ∀ x, p.block.Has x → P'' x = P' x) →
    SameEntries (tables (slotTree P' top l e')) P' P'' →
    SlotCopy flags P P' top l e e' → SlotCopy flags P P'' top l e e'
  | l, e, e', hag, hs, h => by
    cases hd : decode l e with
    | absent => exact (slotCopy_absent hd).mpr ((slotCopy_absent hd).mp h)
    | leaf a n =>
      obtain ⟨a', h1, h2, h3⟩ := (slotCopy_leaf hd).mp h
      refine (slotCopy_leaf hd).mpr ⟨a', h1, h2, fun k hk => ?_⟩
      rw [← h3 k hk]
      refine hag (framePage a' n) ?_ _ (decode_leaf_has h1 hk)
      rw [slotTree_leaf h1]
      exact List.mem_singleton_self _
    | table u =>
      cases l with
      | zero => exact absurd hd decode_zero_ne_table
      | succ l =>
        obtain ⟨u', h1, h2, h3⟩ := (slotCopy_table hd).mp h
        rw [slotTree_table h1] at hag hs
        refine (slotCopy_table hd).mpr ⟨u', h1, h2, fun i hi => ?_⟩
        rw [hs u' self_mem_tables_tree i (mem_slots.mp hi).1]
        exact slotCopy_congr_right l (fun p hp => hag p (block_mem_slot hi hp))
          (hs.mono fun s hs' => tables_slot_subset_tree hi hs') (h3 i hi)

/-! ## Walking a copy -/

/-- The entries the processor reads for `v`, from the level `l` entry `e` on. -/
def slotPath (P : Mem) : ℕ → Word → Word → List Word
  | 0, e, _ => [e]
  | l + 1, e, v =>
    match decode (l + 1) e with
    | .table u => e :: slotPath P l (entry P u (index l v)) v
    | _ => [e]

/-- The entries the processor reads for `v` under the level `l` table `t`. -/
def walkPath (P : Mem) (l : ℕ) (t v : Word) : List Word := slotPath P l (entry P t (index l v)) v

lemma slotPath_leaf {a : Word} {n : ℕ} (h : decode l e = .leaf a n) : slotPath P l e v = [e] := by
  cases l <;> simp [slotPath, h]

lemma slotPath_table (h : decode (l + 1) e = .table u) :
    slotPath P (l + 1) e v = e :: walkPath P l u v := by
  simp [slotPath, h, walkPath]

/-- The copy translates what the original does, through entries with the same flags, to a
frame with the same contents. -/
theorem slotCopy_walk : ∀ (l : ℕ) {e e' : Word}, (∀ j, 3 ≤ j → j < l → top (index j v) = true) →
    SlotCopy flags P P' top l e e' →
    (slotWalk P l e v = none ∧ slotWalk P' l e' v = none) ∨
    ∃ a a' n, slotWalk P l e v = some (a, n) ∧ slotWalk P' l e' v = some (a', n) ∧
      SameBytes P P' a a' n ∧
      (slotPath P' l e' v).map (· &&& flags) = (slotPath P l e v).map (· &&& flags)
  | l, e, e', hv, h => by
    cases hd : decode l e with
    | absent =>
      exact .inl ⟨slotWalk_absent hd, slotWalk_absent ((slotCopy_absent hd).mp h)⟩
    | leaf a n =>
      obtain ⟨a', h1, h2, h3⟩ := (slotCopy_leaf hd).mp h
      refine .inr ⟨a, a', n, slotWalk_leaf hd, slotWalk_leaf h1, h3, ?_⟩
      rw [slotPath_leaf hd, slotPath_leaf h1, List.map_singleton, List.map_singleton, h2]
    | table u =>
      cases l with
      | zero => exact absurd hd decode_zero_ne_table
      | succ l =>
        obtain ⟨u', h1, h2, h3⟩ := (slotCopy_table hd).mp h
        have hi : index l v ∈ slots top l := by
          refine mem_slots.mpr ⟨index_lt l v, ?_⟩
          rcases Nat.lt_or_ge l 3 with hl | hl
          · exact .inl (by omega)
          · exact .inr (hv l hl (by omega))
        rw [slotWalk_table hd, slotWalk_table h1, slotPath_table hd, slotPath_table h1]
        rcases slotCopy_walk l (fun j h3 hj => hv j h3 (by omega)) (h3 _ hi) with h4 | h4
        · exact .inl h4
        · obtain ⟨a, a', n, k1, k2, k3, k4⟩ := h4
          refine .inr ⟨a, a', n, k1, k2, k3, ?_⟩
          rw [List.map_cons, List.map_cons, h2]
          exact congrArg _ k4

/-! ## Different pages, different frames -/

/-- A walk ends in a frame of the tree. -/
lemma slotWalk_mem : ∀ (l : ℕ) {e : Word} {a : Word} {n : ℕ},
    (∀ j, 3 ≤ j → j < l → top (index j v) = true) → slotWalk P l e v = some (a, n) →
    framePage a n ∈ slotTree P top l e
  | l, e, a, n, hv, h => by
    cases hd : decode l e with
    | absent =>
      rw [slotWalk_absent hd] at h
      cases h
    | leaf b m =>
      rw [slotWalk_leaf hd] at h
      cases h
      rw [slotTree_leaf hd]
      exact List.mem_singleton_self _
    | table u =>
      cases l with
      | zero => exact absurd hd decode_zero_ne_table
      | succ l =>
        rw [slotWalk_table hd] at h
        rw [slotTree_table hd]
        refine block_mem_slot (mem_slots.mpr ⟨index_lt l v, ?_⟩)
          (slotWalk_mem l (fun j h3 hj => hv j h3 (by omega)) h)
        rcases Nat.lt_or_ge l 3 with hl | hl
        · exact .inl (by omega)
        · exact .inr (hv l hl (by omega))

lemma walk_mem {a : Word} {n : ℕ} (hl : l ≤ 3) (hv : top (index 3 v) = true)
    (h : walk P l t v = some (a, n)) : framePage a n ∈ tree P top l t := by
  refine block_mem_slot (mem_slots.mpr ⟨index_lt l v, ?_⟩) (slotWalk_mem l (by omega) h)
  by_cases h3 : l = 3
  · exact .inr (h3 ▸ hv)
  · exact .inl h3

/-- The number of the page of `n` bytes that `v` lies in, within the region of one level `l`
entry. -/
def pageIn (l n : ℕ) (v : Word) : ℕ := v.toNat % 2 ^ (12 + 9 * l) / n

lemma pageIn_succ {l n k : ℕ} (hk : k ≤ l) (hn : n = 2 ^ (12 + 9 * k)) (v : Word) :
    pageIn (l + 1) n v = index l v * 2 ^ (9 * (l - k)) + pageIn l n v := by
  subst hn
  have hpow : 2 ^ (12 + 9 * l) = 2 ^ (9 * (l - k)) * 2 ^ (12 + 9 * k) := by
    rw [← Nat.pow_add]
    congr 1
    omega
  have hsplit : v.toNat % 2 ^ (12 + 9 * (l + 1))
      = index l v * 2 ^ (12 + 9 * l) + v.toNat % 2 ^ (12 + 9 * l) := by
    rw [index, show 12 + 9 * (l + 1) = 12 + 9 * l + 9 by ring, Nat.pow_add, Nat.mod_mul]
    ring
  rw [pageIn, pageIn, hsplit]
  nth_rewrite 1 [hpow]
  rw [← Nat.mul_assoc, Nat.add_comm, Nat.add_mul_div_right _ _ (Nat.two_pow_pos _), Nat.add_comm]

lemma slotWalk_level : ∀ (l : ℕ) {e : Word} {a : Word} {n : ℕ}, slotWalk P l e v = some (a, n) →
    ∃ k, k ≤ l ∧ n = 2 ^ (12 + 9 * k)
  | l, e, a, n, h => by
    cases hd : decode l e with
    | absent =>
      rw [slotWalk_absent hd] at h
      cases h
    | leaf b m =>
      rw [slotWalk_leaf hd] at h
      cases h
      obtain ⟨k, -, hk, hn, -⟩ := decode_leaf_dvd hd
      exact ⟨k, hk.le, hn⟩
    | table u =>
      cases l with
      | zero => exact absurd hd decode_zero_ne_table
      | succ l =>
        rw [slotWalk_table hd] at h
        obtain ⟨k, hk, hn⟩ := slotWalk_level l h
        exact ⟨k, by omega, hn⟩

/-- The two addresses lie in one page, or their frames are disjoint. -/
def PageOrDisjoint (l : ℕ) (v w a b : Word) (n m : ℕ) : Prop :=
  (n = m ∧ pageIn l n v = pageIn l n w) ∨ Block.Disjoint ⟨a, n⟩ ⟨b, m⟩

/-- Different slots of a table have disjoint pages; one slot is left to `ih`. -/
lemma walk_disjoint_of_slot {a b : Word} {n m : ℕ} (hv : index l v ∈ slots top l)
    (hw : index l w ∈ slots top l) (hv3 : ∀ j, 3 ≤ j → j < l → top (index j v) = true)
    (hw3 : ∀ j, 3 ≤ j → j < l → top (index j w) = true)
    (ih : ∀ e, (slotTree P top l e).Pairwise (fun p q => p.block.Disjoint q.block) →
      slotWalk P l e v = some (a, n) → slotWalk P l e w = some (b, m) →
      PageOrDisjoint l v w a b n m)
    (hpair : (tree P top l t).Pairwise fun p q => p.block.Disjoint q.block)
    (hva : walk P l t v = some (a, n)) (hwb : walk P l t w = some (b, m)) :
    PageOrDisjoint (l + 1) v w a b n m := by
  rw [tree, List.pairwise_cons, List.pairwise_flatMap] at hpair
  rw [walk] at hva hwb
  by_cases hij : index l v = index l w
  · rw [← hij] at hwb
    rcases ih _ (hpair.2.1 _ hv) hva hwb with ⟨rfl, hp⟩ | hdis
    · obtain ⟨k, hk, hn⟩ := slotWalk_level l hva
      refine .inl ⟨rfl, ?_⟩
      rw [pageIn_succ hk hn, pageIn_succ hk hn, hij, hp]
    · exact .inr hdis
  · right
    have hsymm : Std.Symm fun i j => ∀ p ∈ slotTree P top l (entry P t i),
        ∀ q ∈ slotTree P top l (entry P t j), p.block.Disjoint q.block :=
      ⟨fun _ _ h p hp q hq => (h q hq p hp).symm⟩
    exact hpair.2.2.forall hv hw hij _ (slotWalk_mem l hv3 hva) _ (slotWalk_mem l hw3 hwb)

lemma slotWalk_disjoint : ∀ (l : ℕ) {e : Word} {a b : Word} {n m : ℕ},
    (∀ j, 3 ≤ j → j < l → top (index j v) = true) →
    (∀ j, 3 ≤ j → j < l → top (index j w) = true) →
    (slotTree P top l e).Pairwise (fun p q => p.block.Disjoint q.block) →
    slotWalk P l e v = some (a, n) → slotWalk P l e w = some (b, m) →
    PageOrDisjoint l v w a b n m
  | l, e, a, b, n, m, hv, hw, hpair, hva, hwb => by
    cases hd : decode l e with
    | absent =>
      rw [slotWalk_absent hd] at hva
      cases hva
    | leaf c k =>
      rw [slotWalk_leaf hd] at hva hwb
      cases hva
      cases hwb
      obtain ⟨j, -, rfl, rfl, -⟩ := decode_leaf_dvd hd
      refine .inl ⟨rfl, ?_⟩
      rw [pageIn, pageIn, Nat.div_eq_of_lt (Nat.mod_lt _ (Nat.two_pow_pos _)),
        Nat.div_eq_of_lt (Nat.mod_lt _ (Nat.two_pow_pos _))]
    | table u =>
      cases l with
      | zero => exact absurd hd decode_zero_ne_table
      | succ l =>
        have hmem : ∀ {x : Word}, (∀ j, 3 ≤ j → j < l + 1 → top (index j x) = true) →
            index l x ∈ slots top l := fun {x} hx => by
          refine mem_slots.mpr ⟨index_lt l x, ?_⟩
          rcases Nat.lt_or_ge l 3 with hl | hl
          · exact .inl (by omega)
          · exact .inr (hx l hl (by omega))
        rw [slotTree_table hd] at hpair
        rw [slotWalk_table hd] at hva hwb
        have hv' : ∀ j, 3 ≤ j → j < l → top (index j v) = true := fun j h3 hj => hv j h3 (by omega)
        have hw' : ∀ j, 3 ≤ j → j < l → top (index j w) = true := fun j h3 hj => hw j h3 (by omega)
        exact walk_disjoint_of_slot (hmem hv) (hmem hw) hv' hw'
          (fun e' hp => slotWalk_disjoint l hv' hw' hp) hpair hva hwb

/-- In a tree of disjoint pages, two translated addresses share the page or nothing. -/
theorem walk_disjoint {a b : Word} {n m : ℕ} (hv : top (index 3 v) = true)
    (hw : top (index 3 w) = true)
    (hpair : (tree P top 3 t).Pairwise fun p q => p.block.Disjoint q.block)
    (hva : walk P 3 t v = some (a, n)) (hwb : walk P 3 t w = some (b, m)) :
    PageOrDisjoint 4 v w a b n m :=
  walk_disjoint_of_slot (mem_slots.mpr ⟨index_lt 3 v, .inr hv⟩)
    (mem_slots.mpr ⟨index_lt 3 w, .inr hw⟩) (fun j h3 hj => by omega) (fun j h3 hj => by omega)
    (fun _ hp => slotWalk_disjoint 3 (fun j h3 hj => by omega) (fun j h3 hj => by omega) hp)
    hpair hva hwb

end Bikeshed.Lib
