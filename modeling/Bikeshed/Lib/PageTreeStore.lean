import Bikeshed.Lib.PageTreeUpdate

/-!
# Page tables kept in memory blocks

A table is a 4096-byte block. A store of one entry is an `EntryWrite` that leaves every
disjoint block alone, and what keeps the blocks of all tables of a tree keeps the tree.
-/

namespace Bikeshed.Lib

variable {P P' : Mem} {t u e' : Word} {i j : ℕ}

/-- A 4096-aligned block does not reach the end of the address space. -/
lemma add_le_of_dvd (h : 4096 ∣ t.toNat) : t.toNat + 4096 ≤ 2 ^ 64 := by
  have := t.isLt
  omega

/-- Entries do not wrap. -/
lemma toNat_entry_addr (ht : 4096 ∣ t.toNat) (hi : i < 512) :
    (t + BitVec.ofNat 64 (8 * i)).toNat = t.toNat + 8 * i :=
  toNat_add_ofNat (by have := add_le_of_dvd ht; omega)

/-- Different entries are different words. -/
lemma entry_apart (ht : 4096 ∣ t.toNat) (hu : 4096 ∣ u.toNat) (hi : i < 512) (hj : j < 512)
    (hne : t ≠ u ∨ i ≠ j) :
    Apart (t + BitVec.ofNat 64 (8 * i)) (u + BitVec.ofNat 64 (8 * j)) := by
  have hne' : t.toNat ≠ u.toNat ∨ i ≠ j := hne.imp_left fun h he => h (word_ext he)
  have h1 := toNat_entry_addr ht hi
  have h2 := toNat_entry_addr hu hj
  have h3 := add_le_of_dvd ht
  have h4 := add_le_of_dvd hu
  constructor
  · rw [BitVec.toNat_sub, h1, h2]
    omega
  · rw [BitVec.toNat_sub, h1, h2]
    omega

/-- The entry that is stored to -/
lemma entry_store64_self (P : Mem) (u e' : Word) (j : ℕ) :
    entry (store64 P (u + BitVec.ofNat 64 (8 * j)) e') u j = e' := load64_store64_self _ _ _

/-- Every other entry of every table -/
lemma entry_store64_other (P : Mem) (e' : Word) (ht : 4096 ∣ t.toNat) (hu : 4096 ∣ u.toNat)
    (hi : i < 512) (hj : j < 512) (hne : t ≠ u ∨ i ≠ j) :
    entry (store64 P (u + BitVec.ofNat 64 (8 * j)) e') t i = entry P t i :=
  load64_store64_apart P e' (entry_apart ht hu hi hj hne)

/-- A store of an entry is one entry write, for any tables. -/
lemma entryWrite_store64 {ts : List Word} (P : Mem) (e' : Word)
    (hts : ∀ t ∈ ts, 4096 ∣ t.toNat) (hu : 4096 ∣ u.toNat) (hj : j < 512) :
    EntryWrite P (store64 P (u + BitVec.ofNat 64 (8 * j)) e') ts u j e' :=
  ⟨fun t ht _ hi hne => entry_store64_other P e' (hts t ht) hu hi hj hne,
    entry_store64_self P u e' j⟩

/-- Storing an entry writes inside the table's block. -/
lemma entry_store64_outside (P : Mem) (e' : Word) (hu : 4096 ∣ u.toNat) (hj : j < 512)
    {x : Word} (hx : ¬ (Block.mk u 4096).Has x) :
    store64 P (u + BitVec.ofNat 64 (8 * j)) e' x = P x := by
  have h1 := toNat_entry_addr hu hj
  have h2 := add_le_of_dvd hu
  refine store64_outside P ⟨u, 4096⟩ ?_ ?_ ?_ hx
  · rw [h1]
    exact Nat.le_add_right _ _
  · rw [h1]
    show u.toNat + 8 * j + 8 ≤ u.toNat + 4096
    omega
  · rw [h1]
    omega

/-- An entry is in the page of its table. -/
lemma entry_congr (ht : 4096 ∣ t.toNat) (hi : i < 512)
    (h : ∀ x, (Block.mk t 4096).Has x → P' x = P x) : entry P' t i = entry P t i := by
  have h1 := toNat_entry_addr ht hi
  have h2 := add_le_of_dvd ht
  refine load64_congr fun k hk => h _ ?_
  have h3 : (t + BitVec.ofNat 64 (8 * i) + BitVec.ofNat 64 k).toNat = t.toNat + 8 * i + k := by
    rw [toNat_add_ofNat (by omega), h1]
  constructor
  · rw [h3]
    show t.toNat ≤ _
    omega
  · rw [h3]
    show _ < t.toNat + 4096
    omega

lemma sameEntries_of_agreeOn {ts : List Word} {bs : List Block} (h : AgreeOn bs P P')
    (hts : ∀ t ∈ ts, 4096 ∣ t.toNat) (hown : ∀ t ∈ ts, Block.mk t 4096 ∈ bs) :
    SameEntries ts P P' :=
  fun t ht _ hi => entry_congr (hts t ht) hi (h _ (hown t ht))

/-- A cleared table has only absent entries. -/
lemma entry_fill_zero (P : Mem) (ht : 4096 ∣ t.toNat) (hi : i < 512) :
    entry (fill P t 4096 0) t i = 0 := by
  have h1 := toNat_entry_addr ht hi
  have h2 := add_le_of_dvd ht
  refine load64_eq fun k hk => ?_
  have h3 : (t + BitVec.ofNat 64 (8 * i) + BitVec.ofNat 64 k).toNat = t.toNat + 8 * i + k := by
    rw [toNat_add_ofNat (by omega), h1]
  rw [fill_inside]
  · apply BitVec.eq_of_getLsbD_eq
    simp
  · constructor
    · rw [h3]
      show t.toNat ≤ _
      omega
    · rw [h3]
      show _ < t.toNat + 4096
      omega

/-- Memory that holds the words `f 0`, `f 1` and so on. -/
def memOfWords (f : ℕ → Word) : Mem :=
  fun x => (f (x.toNat / 8)).extractLsb' (8 * (x.toNat % 8)) 8

lemma entry_memOfWords (f : ℕ → Word) (ht : 4096 ∣ t.toNat) (hi : i < 512) :
    entry (memOfWords f) t i = f (t.toNat / 8 + i) := by
  have h1 := toNat_entry_addr ht hi
  have h2 := add_le_of_dvd ht
  refine load64_eq fun k hk => ?_
  have h3 : (t + BitVec.ofNat 64 (8 * i) + BitVec.ofNat 64 k).toNat = t.toNat + 8 * i + k := by
    rw [toNat_add_ofNat (by omega), h1]
  rw [memOfWords, h3]
  have hword : (t.toNat + 8 * i + k) / 8 = t.toNat / 8 + i := by omega
  have hbyte : (t.toNat + 8 * i + k) % 8 = k := by omega
  rw [hword, hbyte]

/-! ## Tables all of whose entries are absent -/

variable {top : ℕ → Bool} {l : ℕ} {φ : ℕ → Word → Prop} {v : Word}

lemma decode_zero (l : ℕ) : decode l 0 = .absent := decode_absent_iff.mpr (by simp)

/-- A table without present entries -/
lemma tree_of_absent (h : ∀ i ∈ slots top l, decode l (entry P t i) = .absent) :
    tree P top l t = [tablePage t] := by
  have hnil : ((slots top l).flatMap fun i => slotTree P top l (entry P t i)) = [] := by
    rw [List.flatMap_eq_nil_iff]
    exact fun i hi => slotTree_absent (h i hi)
  rw [tree, hnil]

lemma walk_of_absent (h : decode l (entry P t (index l v)) = .absent) : walk P l t v = none :=
  slotWalk_absent h

lemma tableAll_of_absent (hφ : ∀ e, decode l e = .absent → φ l e)
    (h : ∀ i ∈ slots top l, decode l (entry P t i) = .absent) : TableAll φ P top l t :=
  fun i hi => slotAll_of_not_table (hφ _ (h i hi)) fun u hu => by simp [h i hi] at hu

end Bikeshed.Lib
