import Bikeshed.VirtMemory.Paging

/-!
# Page-table entries

The kernel takes the address of a lower table from bits 12..38 of an entry and the address
of a frame from bits 12..62; the processor reads bits 12..51 (21..51 for a 2MiB page) of
either. `EntryForm` lists the bits a present entry may have set for the two readings to
agree: a table below `2^39` or a frame below `2^47`, and any of the low 12 flag bits.
-/

namespace Bikeshed

open Lib

/-- The bits of an entry that points to a table -/
def tableBits : Word := 0x8000007FFFFFFF7F
def smallBits : Word := 0x80007FFFFFFFFFFF
def largeBits : Word := 0x80007FFFFFE00FFF

/-- What a present entry of a level `l` table may look like. -/
def EntryForm (l : ℕ) (e : Word) : Prop :=
  e &&& presentBit ≠ 0 →
    match l with
    | 0 => e &&& smallBits = e
    | 1 => if e &&& sizeBit = 0 then e &&& tableBits = e else e &&& largeBits = e
    | _ => e &&& tableBits = e

/-- The indices the source computes are those of the walk. -/
lemma toNat_shift_and (x : Word) (k : ℕ) : ((x >>> k) &&& 0x1FF).toNat = x.toNat / 2 ^ k % 512 := by
  rw [BitVec.toNat_and, BitVec.toNat_ushiftRight, Nat.shiftRight_eq_div_pow]
  exact Nat.and_two_pow_sub_one_eq_mod (x.toNat / 2 ^ k) 9

/-- The macros of the code are the indices of the tree. -/
@[simp] lemma pml4Index_eq (x : Word) : pml4Index x = index 3 x := toNat_shift_and x 39
@[simp] lemma pdptIndex_eq (x : Word) : pdptIndex x = index 2 x := toNat_shift_and x 30
@[simp] lemma pdtIndex_eq (x : Word) : pdtIndex x = index 1 x := toNat_shift_and x 21
@[simp] lemma ptIndex_eq (x : Word) : ptIndex x = index 0 x := toNat_shift_and x 12

/-! ## Reading an entry -/

section Reading

variable {l : ℕ} {e u : Word}

lemma entryForm_of_absent (h : e &&& presentBit = 0) : EntryForm l e := fun hp => absurd h hp

lemma table_addr_eq (h : e &&& tableBits = e) : e &&& mask 12 52 = pml4eToPdpt e :=
  and_of_and_eq h (by decide)

/-- Above the page tables, what is not a large page is a table. -/
lemma decode_table {e : Word} (hf : EntryForm (l + 1) e) (hp : e &&& presentBit ≠ 0)
    (hs : l = 0 → e &&& sizeBit = 0) : decode (l + 1) e = .table (pml4eToPdpt e) := by
  have hb := hf hp
  rcases l with _ | _ | l
  · simp only [Nat.zero_add, hs, ↓reduceIte] at hb
    simp only [decode, hp, hs, ↓reduceIte, table_addr_eq hb]
  · have hsize : e &&& sizeBit = 0 := and_eq_zero_of_and_eq hb (by decide)
    simp only [decode, hp, hsize, ↓reduceIte, table_addr_eq hb]
  · simp only [decode, hp, ↓reduceIte, table_addr_eq hb]

/-- A frame of 2MiB -/
lemma decode_large (hf : EntryForm 1 e) (hp : e &&& presentBit ≠ 0) (hs : e &&& sizeBit ≠ 0) :
    decode 1 e = .leaf (entryToAddr e) (2 ^ 21) := by
  have hb := hf hp
  simp only [hs, ↓reduceIte] at hb
  have haddr : e &&& mask 21 52 = entryToAddr e := and_of_and_eq hb (by decide)
  simp only [decode, hp, hs, ↓reduceIte, haddr]

/-- A frame of 4KiB -/
lemma decode_small (hf : EntryForm 0 e) (hp : e &&& presentBit ≠ 0) :
    decode 0 e = .leaf (entryToAddr e) (2 ^ 12) := by
  have haddr : e &&& mask 12 52 = entryToAddr e := and_of_and_eq (hf hp) (by decide)
  simp only [decode, hp, ↓reduceIte, haddr]

/-- A present entry is a large page, a table, or a small page. -/
lemma decode_cases (hl : l ≤ 3) (hf : EntryForm l e) (hp : e &&& presentBit ≠ 0) :
    (∃ k, l = k + 1 ∧ (k = 0 → e &&& sizeBit = 0) ∧ decode l e = .table (pml4eToPdpt e)) ∨
    (l = 1 ∧ e &&& sizeBit ≠ 0 ∧ decode l e = .leaf (entryToAddr e) (2 ^ 21)) ∨
    (l = 0 ∧ decode l e = .leaf (entryToAddr e) (2 ^ 12)) := by
  rcases l with _ | l
  · exact .inr (.inr ⟨rfl, decode_small hf hp⟩)
  · by_cases hs : l = 0 → e &&& sizeBit = 0
    · exact .inl ⟨l, rfl, hs, decode_table hf hp hs⟩
    · simp only [Classical.not_imp] at hs
      obtain ⟨rfl, hs⟩ := hs
      exact .inr (.inl ⟨rfl, hs, decode_large hf hp hs⟩)

/-- The base of a table is a multiple of the page size. -/
lemma decode_table_aligned (h : decode l e = .table u) : 4096 ∣ u.toNat := by
  have hdvd : 4096 ∣ (e &&& mask 12 52).toNat := by
    rw [toNat_and_mask _ _ (by norm_num) (by norm_num)]
    exact Dvd.intro_left _ rfl
  unfold decode at h
  repeat' split at h
  all_goals first
    | (cases h; exact hdvd)
    | cases h

/-- All tables below a page are pages. -/
lemma tree_tables_aligned {P : Mem} {top : ℕ → Bool} : ∀ (l : ℕ) {t s : Word}, 4096 ∣ t.toNat →
    s ∈ tables (tree P top l t) → 4096 ∣ s.toNat
  | l, t, s, ht, hs => by
    rw [tables_tree, List.mem_cons, List.mem_flatMap] at hs
    rcases hs with rfl | ⟨i, -, hs⟩
    · exact ht
    · cases l with
      | zero =>
        cases hd : decode 0 (entry P t i) with
        | absent => simp [slotTree_absent hd] at hs
        | leaf a n => simp [slotTree_leaf hd] at hs
        | table u => exact absurd hd decode_zero_ne_table
      | succ l =>
        cases hd : decode (l + 1) (entry P t i) with
        | absent => simp [slotTree_absent hd] at hs
        | leaf a n => simp [slotTree_leaf hd] at hs
        | table u =>
          rw [slotTree_table hd] at hs
          exact tree_tables_aligned l (decode_table_aligned hd) hs

end Reading

/-! ## Writing an entry

An entry is put together from an address `x`, with bits in `a`, and flags `f`, with bits in
`b`; a mask `c` picks out one or the other. -/

section Writing

variable {x f a b c : Word}

/-- An entry is put together from an address and flags. This reads the address back. -/
lemma joined_and_addr (hx : x &&& a = x) (hf : f &&& b = f) (ha : a &&& c = a)
    (hb : b &&& c = 0) : (x ||| f) &&& c = x := by
  rw [BitVec.and_or_distrib_right, and_eq_self_of_and_eq_self hx ha,
    and_eq_zero_of_and_eq hf hb]
  simp

/-- And this the flags -/
lemma joined_and_flags (hx : x &&& a = x) (ha : a &&& c = 0) : (x ||| f) &&& c = f &&& c := by
  rw [BitVec.and_or_distrib_right, and_eq_zero_of_and_eq hx ha]
  simp

/-- No other bits come in. -/
lemma joined_form (hx : x &&& a = x) (hf : f &&& b = f) (ha : a &&& c = a)
    (hb : b &&& c = b) : (x ||| f) &&& c = x ||| f :=
  or_and_eq (and_eq_self_of_and_eq_self hx ha) (and_eq_self_of_and_eq_self hf hb)

/-- The flag bits that the kernel's own entries carry. -/
def flagBits : Word := 0x800000000000009F

/-- An entry for a table at `p`, with flags `f`. -/
lemma decode_mk_table {l : ℕ} {p : Word} (hp : p &&& mask 12 39 = p)
    (hf : f &&& pageCopyFlags = f) (hpres : f &&& presentBit ≠ 0) :
    decode (l + 1) (p ||| f) = .table p ∧ EntryForm (l + 1) (p ||| f) ∧
      pml4eToPdpt (p ||| f) = p := by
  have hform : (p ||| f) &&& tableBits = p ||| f := joined_form hp hf (by decide) (by decide)
  have hsize : (p ||| f) &&& sizeBit = 0 := and_eq_zero_of_and_eq (b := 0x8000007FFFFFF01F)
    (joined_form hp hf (by decide) (by decide)) (by decide)
  have hp1 : (p ||| f) &&& presentBit ≠ 0 := by
    rw [joined_and_flags hp (by decide)]
    exact hpres
  have haddr : pml4eToPdpt (p ||| f) = p := joined_and_addr hp hf (by decide) (by decide)
  have hentry : EntryForm (l + 1) (p ||| f) := by
    intro _
    rcases l with _ | l
    · simp only [Nat.zero_add, hsize, ↓reduceIte]
      exact hform
    · exact hform
  refine ⟨?_, hentry, haddr⟩
  rw [decode_table hentry hp1 fun _ => hsize, haddr]

/-- An entry for a small frame at `p`, with flags `f`. -/
lemma decode_mk_small {p : Word} (hp : p &&& mask 12 47 = p) (hf : f &&& pageCopyFlags = f)
    (hpres : f &&& presentBit ≠ 0) :
    decode 0 (p ||| f) = .leaf p (2 ^ 12) ∧ EntryForm 0 (p ||| f) := by
  have hform : (p ||| f) &&& smallBits = p ||| f := joined_form hp hf (by decide) (by decide)
  have hp1 : (p ||| f) &&& presentBit ≠ 0 := by
    rw [joined_and_flags hp (by decide)]
    exact hpres
  have haddr : entryToAddr (p ||| f) = p := joined_and_addr hp hf (by decide) (by decide)
  have hentry : EntryForm 0 (p ||| f) := fun _ => hform
  refine ⟨?_, hentry⟩
  rw [decode_small hentry hp1, haddr]

/-- An entry for a large frame at `p`, with flags `f`. -/
lemma decode_mk_large {p : Word} (hp : p &&& mask 21 47 = p) (hf : f &&& flagBits = f)
    (hpres : f &&& presentBit ≠ 0) (hsize : f &&& sizeBit ≠ 0) :
    decode 1 (p ||| f) = .leaf p (2 ^ 21) ∧ EntryForm 1 (p ||| f) := by
  have hform : (p ||| f) &&& largeBits = p ||| f := joined_form hp hf (by decide) (by decide)
  have hp1 : (p ||| f) &&& presentBit ≠ 0 := by
    rw [joined_and_flags hp (by decide)]
    exact hpres
  have hs1 : (p ||| f) &&& sizeBit ≠ 0 := by
    rw [joined_and_flags hp (by decide)]
    exact hsize
  have haddr : entryToAddr (p ||| f) = p := joined_and_addr hp hf (by decide) (by decide)
  have hentry : EntryForm 1 (p ||| f) := by
    intro _
    simp only [hs1, ↓reduceIte]
    exact hform
  refine ⟨?_, hentry⟩
  rw [decode_large hentry hp1 hs1, haddr]

/-- An aligned address below `2 ^ hi` survives the mask. -/
lemma and_mask_of_dvd {p : Word} {lo hi : ℕ} (h : lo ≤ hi) (hhi : hi ≤ 64)
    (hd : 2 ^ lo ∣ p.toNat) (hlt : p.toNat < 2 ^ hi) : p &&& mask lo hi = p :=
  (and_mask_eq_self _ _ h hhi p).mpr ⟨hd, hlt⟩

end Writing

end Bikeshed
