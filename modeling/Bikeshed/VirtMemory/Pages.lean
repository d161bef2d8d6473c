import Bikeshed.VirtMemory.Entry

/-!
# The memory that pages occupy

`blocks` of a list of pages, and what keeping those blocks keeps. `slotsFrom` and `slotsUpTo`
are the pages below the slots that a loop over a table has still to visit and has visited.
-/

namespace Bikeshed

open Lib

/-- The user half of the PML4. -/
def userHalf : ℕ → Bool := fun i => decide (i < 256)

/-- The memory that pages occupy. -/
def blocks (ps : List Page) : List Block := ps.map Page.block

@[simp] lemma blocks_append (ps qs : List Page) : blocks (ps ++ qs) = blocks ps ++ blocks qs :=
  List.map_append

@[simp] lemma blocks_nil : blocks [] = [] := rfl

@[simp] lemma blocks_cons (p : Page) (ps : List Page) : blocks (p :: ps) = p.block :: blocks ps :=
  rfl

lemma blocks_perm {ps qs : List Page} (h : ps.Perm qs) : (blocks ps).Perm (blocks qs) := h.map _

section Pages

variable {P P' : Mem} {top : ℕ → Bool} {l : ℕ} {e t s : Word}

/-- Tables below the root have all their slots. -/
lemma slots_of_ne (h : l ≠ 3) : slots top l = List.range 512 := by
  rw [slots, List.filter_eq_self]
  intro i _
  simp [h]

/-- The first half of the PML4 -/
lemma slots_userHalf : slots userHalf 3 = List.range 256 := by decide +kernel

lemma mem_slots_user {i : ℕ} (hi : i < 256) : i ∈ slots userHalf 3 := by
  rw [slots_userHalf]
  exact List.mem_range.mpr hi

/-- Addresses in entries are those of pages. -/
lemma slot_tables_aligned (hs : s ∈ tables (slotTree P top l e)) : 4096 ∣ s.toNat := by
  cases hd : decode l e with
  | absent => simp [slotTree_absent hd] at hs
  | leaf a n => simp [slotTree_leaf hd] at hs
  | table u =>
    cases l with
    | zero => exact absurd hd decode_zero_ne_table
    | succ l =>
      rw [slotTree_table hd] at hs
      exact tree_tables_aligned l (decode_table_aligned hd) hs

/-- The table pages of a tree are 4096 bytes long. -/
lemma slot_table_page : ∀ (l : ℕ) {e : Word} {p : Page}, p ∈ slotTree P top l e →
    p.isTable = true → p = tablePage p.base
  | 0, e, p, hp, ht => by
    cases hd : decode 0 e with
    | absent => simp [slotTree_absent hd] at hp
    | leaf a n =>
      rw [slotTree_leaf hd, List.mem_singleton] at hp
      rw [hp] at ht
      cases ht
    | table u => exact absurd hd decode_zero_ne_table
  | l + 1, e, p, hp, ht => by
    cases hd : decode (l + 1) e with
    | absent => simp [slotTree_absent hd] at hp
    | leaf a n =>
      rw [slotTree_leaf hd, List.mem_singleton] at hp
      rw [hp] at ht
      cases ht
    | table u =>
      rw [slotTree_table hd, tree, List.mem_cons, List.mem_flatMap] at hp
      rcases hp with rfl | ⟨i, -, hp⟩
      · rfl
      · exact slot_table_page l hp ht

/-- A table below an entry is a block of a page. -/
lemma table_mem_blocks_slot (hs : s ∈ tables (slotTree P top l e)) :
    page4KIB s ∈ blocks (slotTree P top l e) := by
  obtain ⟨p, hp, ht, rfl⟩ := mem_tables.mp hs
  rw [slot_table_page l hp ht] at hp
  exact List.mem_map_of_mem hp

/-- The tables of a tree are among its blocks. -/
lemma table_mem_blocks (hs : s ∈ tables (tree P top l t)) :
    page4KIB s ∈ blocks (tree P top l t) := by
  rw [tables_tree, List.mem_cons, List.mem_flatMap] at hs
  rw [tree, blocks_cons, List.mem_cons]
  rcases hs with rfl | ⟨i, hi, hs⟩
  · exact .inl rfl
  · refine .inr ?_
    obtain ⟨p, hp, hb⟩ := List.mem_map.mp (table_mem_blocks_slot hs)
    exact List.mem_map.mpr ⟨p, List.mem_flatMap.mpr ⟨i, hi, hp⟩, hb⟩

/-- What keeps the blocks of a slot's pages keeps the slot. -/
lemma slot_same {bs : List Block} (h : AgreeOn bs P P')
    (hbs : ∀ b ∈ blocks (slotTree P top l e), b ∈ bs) :
    SameEntries (tables (slotTree P top l e)) P P' :=
  sameEntries_of_agreeOn h (fun _ => slot_tables_aligned) fun _ hs =>
    hbs _ (table_mem_blocks_slot hs)

/-- Who agrees on the blocks agrees on the entries. -/
lemma tree_same {bs : List Block} (h : AgreeOn bs P P') (ht : 4096 ∣ t.toNat)
    (hbs : ∀ b ∈ blocks (tree P top l t), b ∈ bs) :
    SameEntries (tables (tree P top l t)) P P' :=
  sameEntries_of_agreeOn h (fun _ => tree_tables_aligned l ht) fun _ hs =>
    hbs _ (table_mem_blocks hs)

/-! ## Loops over the slots -/

/-- What is left of the pages of the first `n` slots before iteration `i`. -/
def slotsFrom (P : Mem) (top : ℕ → Bool) (l : ℕ) (t : Word) (n i : ℕ) : List Page :=
  ((List.range n).drop i).flatMap fun j => slotTree P top l (entry P t j)

/-- Before the first round everything is left. -/
lemma slotsFrom_zero {t : Word} {n : ℕ} : slotsFrom P top l t n 0
    = (List.range n).flatMap fun j => slotTree P top l (entry P t j) := by
  rw [slotsFrom, List.drop_zero]

/-- The next slot and the rest -/
lemma slotsFrom_step {t : Word} {n i : ℕ} (hi : i < n) :
    slotsFrom P top l t n i
      = slotTree P top l (entry P t i) ++ slotsFrom P top l t n (i + 1) := by
  rw [slotsFrom, List.drop_eq_getElem_cons (by simpa using hi), List.getElem_range,
    List.flatMap_cons]
  rfl

lemma slotsFrom_all {t : Word} {n : ℕ} : slotsFrom P top l t n n = [] := by
  rw [slotsFrom, List.drop_of_length_le (by simp), List.flatMap_nil]

/-- The pages of the first `i` slots. -/
def slotsUpTo (P : Mem) (top : ℕ → Bool) (l : ℕ) (t : Word) (i : ℕ) : List Page :=
  (List.range i).flatMap fun j => slotTree P top l (entry P t j)

lemma slotsUpTo_zero : slotsUpTo P top l t 0 = [] := by
  rw [slotsUpTo, List.range_zero, List.flatMap_nil]

lemma slotsUpTo_succ {i : ℕ} :
    slotsUpTo P top l t (i + 1) = slotsUpTo P top l t i ++ slotTree P top l (entry P t i) := by
  rw [slotsUpTo, List.range_succ, List.flatMap_append, List.flatMap_singleton]
  rfl

/-- What has been done and what is left -/
lemma slotsFrom_split {n i : ℕ} (hi : i ≤ n) :
    slotsFrom P top l t n 0 = slotsUpTo P top l t i ++ slotsFrom P top l t n i := by
  induction i with
  | zero => rw [slotsUpTo_zero, List.nil_append]
  | succ i ih =>
    rw [ih (by omega), slotsFrom_step (by omega), slotsUpTo_succ, List.append_assoc]

/-- Blocks below a slot that has been done -/
lemma mem_slotsUpTo {i j : ℕ} (hj : j < i) {b : Block}
    (hb : b ∈ blocks (slotTree P top l (entry P t j))) : b ∈ blocks (slotsUpTo P top l t i) := by
  obtain ⟨p, hp, rfl⟩ := List.mem_map.mp hb
  exact List.mem_map_of_mem (List.mem_flatMap.mpr ⟨j, List.mem_range.mpr hj, hp⟩)

/-- The slots visited depend on their own pages and entries only. -/
lemma slotsUpTo_congr {i : ℕ} (hentry : ∀ j < i, entry P' t j = entry P t j)
    (hsame : ∀ j < i, SameEntries (tables (slotTree P top l (entry P t j))) P P') :
    slotsUpTo P' top l t i = slotsUpTo P top l t i := by
  refine List.flatMap_congr fun j hj => ?_
  rw [List.mem_range] at hj
  rw [hentry j hj, slotTree_congr l (hsame j hj)]

end Pages

end Bikeshed
