import Bikeshed.Kernel.BlockAllocator

/-!
# The blocks of a region

A block is known by its number. The blocks with a number below `bump` have been handed out at
some time; they are the free ones, which are linked into a stack, and the ones in use, which
belong to the clients.
-/

namespace Bikeshed

open Lib

/-- A region that is large enough for the record, with blocks that can hold a stack node. The
blocks end below `2 ^ 64`. -/
structure Region where
  address : Word
  length : Word
  blockSize : Word
  hasRecord : 48 ≤ length.toNat
  hasNode : 8 ≤ blockSize.toNat
  noWrap : address.toNat + 48 + (length.toNat - 48) / blockSize.toNat * blockSize.toNat < 2 ^ 64

namespace Region

variable {R : Region} {i j k : ℕ}

/-- How many blocks the region has room for -/
def maxBlocks (R : Region) : ℕ := (R.length.toNat - 48) / R.blockSize.toNat

/-- The block of the number `k`, and the end of the region for `k = maxBlocks`. -/
def block (R : Region) (k : ℕ) : Word :=
  R.address + BitVec.ofNat 64 (48 + k * R.blockSize.toNat)

/-- Blocks do not wrap. -/
lemma toNat_block (hk : k ≤ R.maxBlocks) :
    (R.block k).toNat = R.address.toNat + 48 + k * R.blockSize.toNat := by
  have hw := R.noWrap
  have hle : k * R.blockSize.toNat ≤ R.maxBlocks * R.blockSize.toNat :=
    Nat.mul_le_mul_right _ hk
  have hlt : R.address.toNat + (48 + k * R.blockSize.toNat) < 2 ^ 64 := by
    rw [maxBlocks] at hle
    omega
  rw [block, toNat_add_ofNat hlt]
  omega

/-- A block ends where the next one starts, or before. -/
lemma block_le (hij : i < j) (hj : j ≤ R.maxBlocks) :
    (R.block i).toNat + R.blockSize.toNat ≤ (R.block j).toNat := by
  have hle : (i + 1) * R.blockSize.toNat ≤ j * R.blockSize.toNat := Nat.mul_le_mul_right _ hij
  rw [toNat_block (by omega), toNat_block hj]
  rw [Nat.add_mul, one_mul] at hle
  omega

/-- Blocks lie in the order of their numbers. -/
lemma block_lt_iff (hi : i ≤ R.maxBlocks) (hj : j ≤ R.maxBlocks) :
    (R.block i).toNat < (R.block j).toNat ↔ i < j := by
  have hs := R.hasNode
  constructor
  · intro h
    by_contra hle
    rcases Nat.lt_or_eq_of_le (Nat.le_of_not_lt hle) with hlt | heq
    · have := block_le hlt hi
      omega
    · rw [heq] at h
      omega
  · intro h
    have := block_le h hj
    omega

/-- Different blocks do not overlap. -/
lemma block_disjoint (hi : i < R.maxBlocks) (hj : j < R.maxBlocks) (hne : i ≠ j) :
    (Block.mk (R.block i) R.blockSize.toNat).Disjoint ⟨R.block j, R.blockSize.toNat⟩ := by
  rcases Nat.lt_or_gt_of_ne hne with h | h
  · exact .inl (block_le h hj.le)
  · exact .inr (block_le h hi.le)

/-- `implicit_next` moves to the next block. -/
lemma block_succ (R : Region) (k : ℕ) : R.block k + R.blockSize = R.block (k + 1) := by
  have hofNat : R.blockSize = BitVec.ofNat 64 R.blockSize.toNat := by simp
  rw [block, block, Nat.add_mul, one_mul, ← add_assoc 48, BitVec.ofNat_add _ R.blockSize.toNat,
    ← hofNat, add_assoc]

end Region

/-! ## The record -/

section Record

variable {ba v : Word} {m m' : Mem} {f g : BlockField}

/-- The record has six words. -/
lemma BlockField.slot_lt (f : BlockField) : f.slot < 6 := by cases f <;> decide

/-- Each field has its own word. -/
lemma BlockField.slot_inj (h : f ≠ g) : f.slot ≠ g.slot := by
  cases f <;> cases g <;> first | exact absurd rfl h | decide

lemma toNat_slot (hba : ba.toNat + 48 < 2 ^ 64) (f : BlockField) :
    (ba + BitVec.ofNat 64 (8 * f.slot)).toNat = ba.toNat + 8 * f.slot := by
  have hf := f.slot_lt
  exact toNat_add_ofNat (by omega)

/-- The words do not overlap. -/
lemma apart_slots (hba : ba.toNat + 48 < 2 ^ 64) (h : g ≠ f) :
    Apart (ba + BitVec.ofNat 64 (8 * g.slot)) (ba + BitVec.ofNat 64 (8 * f.slot)) := by
  have hf := f.slot_lt
  have hg := g.slot_lt
  have hne := BlockField.slot_inj h
  have hf' := toNat_slot hba f
  have hg' := toNat_slot hba g
  rcases Nat.lt_or_gt_of_ne hne with hlt | hgt
  · exact apart_of_le (by omega) (by omega)
  · exact (apart_of_le (by omega) (by omega)).symm

@[simp] lemma baField_self (ba v : Word) (f : BlockField) (m : Mem) :
    baField ba f (setBaField ba f v m) = v := load64_store64_self _ _ _

/-- An assignment to one field leaves the others. -/
lemma baField_ne (hba : ba.toNat + 48 < 2 ^ 64) (h : g ≠ f) :
    baField ba g (setBaField ba f v m) = baField ba g m :=
  load64_store64_apart _ _ (apart_slots hba h)

/-- An access behind the record. -/
lemma apart_slot (hba : ba.toNat + 48 < 2 ^ 64) {p : Word} (hp : ba.toNat + 48 ≤ p.toNat)
    (hlt : p.toNat + 8 ≤ 2 ^ 64) (f : BlockField) :
    Apart (ba + BitVec.ofNat 64 (8 * f.slot)) p := by
  have hf := f.slot_lt
  have hf' := toNat_slot hba f
  exact apart_of_le (by omega) hlt

/-- The record is in the 48 bytes at its address. -/
lemma baField_congr (hba : ba.toNat + 48 < 2 ^ 64)
    (hm : ∀ x, (Block.mk ba 48).Has x → m' x = m x) : baField ba f m' = baField ba f m := by
  refine load64_congr fun k hk => hm _ ?_
  have hf := f.slot_lt
  have hf' := toNat_slot hba f
  have hk' : (ba + BitVec.ofNat 64 (8 * f.slot) + BitVec.ofNat 64 k).toNat
      = ba.toNat + 8 * f.slot + k := by
    rw [toNat_add_ofNat (by omega), hf']
  constructor
  · dsimp only
    omega
  · dsimp only
    omega

/-- The blocks are behind the record. -/
lemma load64_setBaField (hba : ba.toNat + 48 < 2 ^ 64) {p : Word} (hp : ba.toNat + 48 ≤ p.toNat)
    (hlt : p.toNat + 8 ≤ 2 ^ 64) : load64 (setBaField ba f v m) p = load64 m p :=
  load64_store64_apart _ _ (apart_slot hba hp hlt f).symm

/-- A store to a block leaves the record. -/
lemma baField_store64 (hba : ba.toNat + 48 < 2 ^ 64) {p : Word} (hp : ba.toNat + 48 ≤ p.toNat)
    (hlt : p.toNat + 8 ≤ 2 ^ 64) : baField ba f (store64 m p v) = baField ba f m :=
  load64_store64_apart _ _ (apart_slot hba hp hlt f)

end Record

/-! ## The invariant -/

/-- The memory holds an allocator for the region, with the free blocks `free`, the blocks `used`
in use, and the blocks from `bump` on never handed out. -/
structure BlocksAt (R : Region) (m : Mem) (free used : List ℕ) (bump : ℕ) : Prop where
  base : baField R.address .base m = R.block 0
  maxAddress : baField R.address .maxAddress m = R.block R.maxBlocks
  implicitNext : baField R.address .implicitNext m = R.block bump
  blockSize : baField R.address .blockSize m = R.blockSize
  stack : StackAt R.block m (baField R.address .size m) (baField R.address .top m) free
  bump_le : bump ≤ R.maxBlocks
  perm : (free ++ used).Perm (List.range bump)

namespace BlocksAt

variable {R : Region} {m m' : Mem} {free used : List ℕ} {bump k : ℕ}

lemma address_lt (R : Region) : R.address.toNat + 48 < 2 ^ 64 := by
  have h := R.noWrap
  omega

/-- Only blocks that there are have been handed out. -/
lemma lt_max (h : BlocksAt R m free used bump) (hk : k ∈ free ++ used) : k < R.maxBlocks := by
  have hlt := List.mem_range.mp (h.perm.mem_iff.mp hk)
  exact hlt.trans_le h.bump_le

/-- No block is there twice. -/
lemma nodup (h : BlocksAt R m free used bump) : (free ++ used).Nodup :=
  h.perm.nodup_iff.mpr List.nodup_range

/-- Where the first word of a block lies. -/
lemma block_bounds (hk : k < R.maxBlocks) :
    R.address.toNat + 48 ≤ (R.block k).toNat ∧ (R.block k).toNat + 8 ≤ 2 ^ 64 := by
  have hle := Region.block_le hk le_rfl
  have hs := R.hasNode
  have hlt := (R.block R.maxBlocks).isLt
  rw [Region.toNat_block hk.le] at hle ⊢
  omega

lemma apart_blocks {i j : ℕ} (hi : i < R.maxBlocks) (hj : j < R.maxBlocks) (hne : i ≠ j) :
    Apart (R.block i) (R.block j) := by
  have hs := R.hasNode
  rcases Nat.lt_or_gt_of_ne hne with h | h
  · exact apart_of_le (le_trans (by omega) (Region.block_le h hj.le)) (block_bounds hj).2
  · exact (apart_of_le (le_trans (by omega) (Region.block_le h hi.le)) (block_bounds hi).2).symm

/-- Only the record and the first words of the free blocks matter. -/
lemma congr (h : BlocksAt R m free used bump)
    (hrec : ∀ x, (Block.mk R.address 48).Has x → m' x = m x)
    (hfree : ∀ k ∈ free, load64 m' (R.block k) = load64 m (R.block k)) :
    BlocksAt R m' free used bump := by
  have hfield : ∀ f, baField R.address f m' = baField R.address f m := fun f =>
    baField_congr (address_lt R) hrec
  refine ⟨?_, ?_, ?_, ?_, ?_, h.bump_le, h.perm⟩
  · rw [hfield, h.base]
  · rw [hfield, h.maxAddress]
  · rw [hfield, h.implicitNext]
  · rw [hfield, h.blockSize]
  · rw [hfield, hfield]
    exact h.stack.congr hfree

/-- The end of the region, as `block_init` computes it. -/
lemma maxAddress_eq (R : Region) :
    R.address + sizeofBlockAllocator + (R.length - sizeofBlockAllocator) / R.blockSize * R.blockSize
      = R.block R.maxBlocks := by
  have hw := R.noWrap
  have hr := R.hasRecord
  have h48 : sizeofBlockAllocator.toNat = 48 := rfl
  have hsub : (R.length - sizeofBlockAllocator).toNat = R.length.toNat - 48 := by
    rw [BitVec.toNat_sub_of_le (by rw [BitVec.le_def, h48]; exact hr), h48]
  have hmul : (R.length - sizeofBlockAllocator) / R.blockSize * R.blockSize
      = BitVec.ofNat 64 (R.maxBlocks * R.blockSize.toNat) := by
    apply word_ext
    rw [BitVec.toNat_mul, BitVec.toNat_udiv, hsub, BitVec.toNat_ofNat]
    rfl
  rw [hmul, Region.block, BitVec.ofNat_add, ← add_assoc]
  rfl

/-- `block_init` leaves an allocator with all its blocks. -/
theorem init (R : Region) (m : Mem) :
    ∃ m', blockInit R.address R.length R.blockSize m = .ok (R.address, m') ∧
      BlocksAt R m' [] [] 0 := by
  have hba := address_lt R
  have hcheck : ¬ (R.length.toNat < sizeofBlockAllocator.toNat ∨
      R.blockSize.toNat < sizeofStackNode.toNat) := by
    have hr := R.hasRecord
    have hs := R.hasNode
    have h48 : sizeofBlockAllocator.toNat = 48 := rfl
    have h8 : sizeofStackNode.toNat = 8 := rfl
    omega
  have hblock : R.address + sizeofBlockAllocator = R.block 0 := by
    rw [Region.block, Nat.zero_mul]
    rfl
  refine ⟨_, by rw [blockInit, if_neg hcheck]; rfl, ?_, ?_, ?_, ?_, ?_, Nat.zero_le _, .refl _⟩
  · simp [stackInit, baFreeStack, baField_ne hba, hblock]
  · simp [stackInit, baFreeStack, baField_ne hba, maxAddress_eq]
  · simp [stackInit, baFreeStack, baField_ne hba, hblock]
  · simp [stackInit, baFreeStack, baField_ne hba]
  · -- `stack_init` comes last
    have hsize : ∀ m, baField R.address .size (stackInit (baFreeStack R.address) m) = 0 := by
      simp [stackInit, baFreeStack, baField_ne hba]
    have htop : ∀ m, baField R.address .top (stackInit (baFreeStack R.address) m) = 0 := by
      simp [stackInit, baFreeStack]
    rw [hsize, htop]
    exact .nil _ _

/-! ## Handing out a block -/

/-- The stack has changed, the rest of the record has not. -/
lemma of_stack (h : BlocksAt R m free used bump) {free' used' : List ℕ}
    (hrec : ∀ f, f ≠ .size → f ≠ .top → baField R.address f m' = baField R.address f m)
    (hstack : StackAt R.block m' (baField R.address .size m') (baField R.address .top m') free')
    (hperm : (free' ++ used').Perm (List.range bump)) : BlocksAt R m' free' used' bump := by
  refine ⟨?_, ?_, ?_, ?_, hstack, h.bump_le, hperm⟩
  · rw [hrec _ (by decide) (by decide), h.base]
  · rw [hrec _ (by decide) (by decide), h.maxAddress]
  · rw [hrec _ (by decide) (by decide), h.implicitNext]
  · rw [hrec _ (by decide) (by decide), h.blockSize]

lemma stackAt_set {f : BlockField} {v size top : Word} (h : StackAt R.block m size top free)
    (hfree : ∀ k ∈ free, k < R.maxBlocks) :
    StackAt R.block (setBaField R.address f v m) size top free :=
  h.congr fun k hk => by
    obtain ⟨h1, h2⟩ := block_bounds (hfree k hk)
    exact load64_setBaField (address_lt R) h1 h2

/-- A block off the stack. -/
theorem alloc_pop (h : BlocksAt R m (k :: free) used bump) :
    ∃ m', blockAlloc R.address m = (R.block k, m') ∧ BlocksAt R m' free (k :: used) bump := by
  have hba := address_lt R
  have hne : (baFreeStack R.address).size m ≠ 0 :=
    h.stack.size_eq_zero_iff.not.mpr (List.cons_ne_nil _ _)
  have hempty : ¬ stackEmpty (baFreeStack R.address) m = true := fun he =>
    hne (of_decide_eq_true he)
  obtain ⟨htop, hpop⟩ := h.stack.pop
  set m1 := setBaField R.address .top (load64 m (baField R.address .top m)) m with hm1
  have hkeep : baField R.address .size m1 = baField R.address .size m := baField_ne hba (by decide)
  have hfree : ∀ j ∈ free, j < R.maxBlocks := fun j hj =>
    h.lt_max (List.mem_cons_of_mem _ (List.mem_append_left _ hj))
  refine ⟨setBaField R.address .size (baField R.address .size m1 - 1) m1, ?_,
    h.of_stack (fun f h1 h2 => ?_) ?_ (List.perm_middle.trans h.perm)⟩
  · rw [blockAlloc, if_pos hempty, stackPop_eq hne, ← htop]
    rfl
  · rw [baField_ne hba h1, hm1, baField_ne hba h2]
  · rw [hkeep, baField_self, baField_ne hba (by decide), hm1, baField_self]
    exact stackAt_set (stackAt_set hpop hfree) hfree

lemma stackEmpty_nil (h : BlocksAt R m [] used bump) :
    stackEmpty (baFreeStack R.address) m = true :=
  decide_eq_true (h.stack.size_eq_zero_iff.mpr rfl)

/-- The next block in order. -/
theorem alloc_bump (h : BlocksAt R m [] used bump) (hlt : bump < R.maxBlocks) :
    ∃ m', blockAlloc R.address m = (R.block bump, m') ∧
      BlocksAt R m' [] (bump :: used) (bump + 1) := by
  have hba := address_lt R
  have hcmp :
      (baField R.address .implicitNext m).toNat < (baField R.address .maxAddress m).toNat := by
    rw [h.implicitNext, h.maxAddress, Region.block_lt_iff hlt.le le_rfl]
    exact hlt
  refine ⟨setBaField R.address .implicitNext (R.block (bump + 1)) m,
    ?_, ?_, ?_, ?_, ?_, ?_, hlt, ?_⟩
  · rw [blockAlloc, if_neg (not_not.mpr h.stackEmpty_nil), if_pos hcmp, h.implicitNext, h.blockSize]
    dsimp only
    rw [Region.block_succ]
  · rw [baField_ne hba (by decide), h.base]
  · rw [baField_ne hba (by decide), h.maxAddress]
  · rw [baField_self]
  · rw [baField_ne hba (by decide), h.blockSize]
  · rw [baField_ne hba (by decide), baField_ne hba (by decide)]
    exact h.stack.congr fun j hj => absurd hj List.not_mem_nil
  · rw [List.range_succ, List.nil_append]
    exact (h.perm.cons bump).trans (List.perm_append_singleton _ _).symm

/-- All blocks are in use. -/
theorem alloc_none (h : BlocksAt R m [] used R.maxBlocks) : blockAlloc R.address m = (0, m) := by
  have hcmp : ¬ (baField R.address .implicitNext m).toNat
      < (baField R.address .maxAddress m).toNat := by
    rw [h.implicitNext, h.maxAddress]
    exact lt_irrefl _
  rw [blockAlloc, if_neg (not_not.mpr h.stackEmpty_nil), if_neg hcmp]

/-! ## Taking one back -/

lemma maxBlocks_lt (R : Region) : R.maxBlocks < 2 ^ 64 := by
  have hw := R.noWrap
  have hs := R.hasNode
  have hle : R.maxBlocks ≤ R.maxBlocks * R.blockSize.toNat := Nat.le_mul_of_pos_right _ (by omega)
  rw [Region.maxBlocks] at hle ⊢
  omega

/-- `block_free` gives a block back that is in use. -/
theorem release (h : BlocksAt R m free used bump) (hk : k ∈ used) :
    ∃ m', blockFree R.address (R.block k) m = .ok ((), m') ∧
      BlocksAt R m' (k :: free) (used.erase k) bump := by
  have hba := address_lt R
  have hkmem : k ∈ free ++ used := List.mem_append_right _ hk
  have hkmax := h.lt_max hkmem
  obtain ⟨hlo, hhi⟩ := block_bounds hkmax
  have hcheck : (R.address + sizeofBlockAllocator).toNat ≤ (R.block k).toNat ∧
      (R.block k).toNat < (baField R.address .maxAddress m).toNat := by
    have h48 : (R.address + sizeofBlockAllocator).toNat = R.address.toNat + 48 := by
      exact toNat_add_ofNat (k := 48) (by omega)
    rw [h48, h.maxAddress, Region.block_lt_iff hkmax.le le_rfl]
    exact ⟨hlo, hkmax⟩
  have hlen : free.length + 1 < 2 ^ 64 := by
    have hl := h.perm.length_eq
    have hpos := List.length_pos_of_mem hk
    have hmax := maxBlocks_lt R
    have hb := h.bump_le
    rw [List.length_append, List.length_range] at hl
    omega
  have hnew : k ∉ free := fun hf => (List.nodup_append.mp h.nodup).2.2 k hf k hk rfl
  have hfree : ∀ j ∈ free, j < R.maxBlocks := fun j hj => h.lt_max (List.mem_append_left _ hj)
  set m1 := store64 m (R.block k) (baField R.address .top m) with hm1
  have hpush : StackAt R.block m1 (baField R.address .size m + 1) (R.block k) (k :: free) :=
    h.stack.push hlen fun j hj => apart_blocks (hfree j hj) hkmax fun he => hnew (he ▸ hj)
  have hfree' : ∀ j ∈ k :: free, j < R.maxBlocks := fun j hj => by
    rcases List.mem_cons.mp hj with rfl | hj
    · exact hkmax
    · exact hfree j hj
  have hsame : baField R.address .size m1 = baField R.address .size m := baField_store64 hba hlo hhi
  refine ⟨setBaField R.address .top (R.block k)
    (setBaField R.address .size (baField R.address .size m + 1) m1), ?_,
    h.of_stack (fun f h1 h2 => ?_) ?_ ?_⟩
  · have hrun : stackPush (baFreeStack R.address) (R.block k) m = _ :=
      stackPush_eq h.stack.top_eq_zero hsame
    rw [blockFree, if_pos hcheck, hrun]
    rfl
  · rw [baField_ne hba h2, baField_ne hba h1, hm1, baField_store64 hba hlo hhi]
  · rw [baField_self, baField_ne hba (by decide), baField_self]
    exact stackAt_set (stackAt_set hpush hfree') hfree'
  · refine List.Perm.trans ?_ h.perm
    calc (k :: free ++ used.erase k).Perm (free ++ k :: used.erase k) := List.perm_middle.symm
      _ |>.Perm (free ++ used) := (List.perm_cons_erase hk).symm.append_left _

end BlocksAt

/-! ## Runs -/

/-- `m` is reached from `block_init`, with the blocks `out` in use; clients write into them. -/
inductive BlockRun (R : Region) : Mem → List Word → Prop
  | init {m m' : Mem} {ba : Word} :
      blockInit R.address R.length R.blockSize m = .ok (ba, m') → BlockRun R m' []
  | alloc {m m' : Mem} {out : List Word} {p : Word} : BlockRun R m out →
      blockAlloc R.address m = (p, m') → BlockRun R m' (if p = 0 then out else p :: out)
  | free {m m' : Mem} {out : List Word} {p : Word} : BlockRun R m out → p ∈ out →
      blockFree R.address p m = .ok ((), m') → BlockRun R m' (out.erase p)
  | write {m m' : Mem} {out : List Word} : BlockRun R m out →
      (∀ x, (∀ p ∈ out, ¬ (Block.mk p R.blockSize.toNat).Has x) → m' x = m x) → BlockRun R m' out

section Runs

variable {R : Region} {m m' : Mem} {free used : List ℕ} {bump k : ℕ} {out : List Word} {p : Word}

/-- No block is NULL. -/
lemma block_ne_zero (hk : k < R.maxBlocks) : R.block k ≠ 0 := fun h0 => by
  have hlo := (BlocksAt.block_bounds hk).1
  rw [h0] at hlo
  exact absurd hlo (by simp)

/-- A client's write does not reach the record nor the free blocks. -/
lemma BlocksAt.write (h : BlocksAt R m free used bump) (hout : out.Perm (used.map R.block))
    (hm : ∀ x, (∀ p ∈ out, ¬ (Block.mk p R.blockSize.toNat).Has x) → m' x = m x) :
    BlocksAt R m' free used bump := by
  have hused : ∀ p ∈ out, ∃ j ∈ used, R.block j = p := fun p hp =>
    List.mem_map.mp (hout.mem_iff.mp hp)
  have hs := R.hasNode
  refine h.congr (fun x hx => hm x fun p hp hpx => ?_) fun k hk => load64_congr fun i hi =>
    hm _ fun p hp hpx => ?_
  · obtain ⟨j, hj, rfl⟩ := hused p hp
    have hlo := (block_bounds (h.lt_max (List.mem_append_right _ hj))).1
    exact absurd (hx.2.trans_le (hlo.trans hpx.1)) (lt_irrefl _)
  · obtain ⟨j, hj, rfl⟩ := hused p hp
    have hkmax := h.lt_max (List.mem_append_left used hk)
    have hjmax := h.lt_max (List.mem_append_right free hj)
    have hne : j ≠ k := fun he => (List.nodup_append.mp h.nodup).2.2 k hk j hj he.symm
    refine (Region.block_disjoint hjmax hkmax hne).not_has ⟨?_, ?_⟩ hpx
    · rw [toNat_add_ofNat (by have := (block_bounds hkmax).2; omega)]
      dsimp only
      omega
    · rw [toNat_add_ofNat (by have := (block_bounds hkmax).2; omega)]
      dsimp only
      omega

/-- What one allocation does: a block that was not in use, or NULL when all are. -/
theorem BlocksAt.alloc (h : BlocksAt R m free used bump) :
    (∃ k m' free' bump', blockAlloc R.address m = (R.block k, m') ∧ k < R.maxBlocks ∧ k ∉ used ∧
        BlocksAt R m' free' (k :: used) bump') ∨
      (used.length = R.maxBlocks ∧ blockAlloc R.address m = (0, m)) := by
  have hmem : ∀ {k free' bump' m'}, BlocksAt R m' free' (k :: used) bump' →
      k < R.maxBlocks ∧ k ∉ used := fun h' =>
    ⟨h'.lt_max (by simp), (List.nodup_cons.mp (List.nodup_append.mp h'.nodup).2.1).1⟩
  cases free with
  | cons k free =>
    obtain ⟨m', hrun, h'⟩ := h.alloc_pop
    exact .inl ⟨k, m', free, bump, hrun, (hmem h').1, (hmem h').2, h'⟩
  | nil =>
    by_cases hlt : bump < R.maxBlocks
    · obtain ⟨m', hrun, h'⟩ := h.alloc_bump hlt
      exact .inl ⟨bump, m', [], bump + 1, hrun, (hmem h').1, (hmem h').2, h'⟩
    · have hle := h.bump_le
      obtain rfl : bump = R.maxBlocks := by omega
      have hlen := h.perm.length_eq
      rw [List.nil_append, List.length_range] at hlen
      exact .inr ⟨hlen, h.alloc_none⟩

/-- The blocks that a run has not given back are those in use. -/
theorem BlockRun.inv (h : BlockRun R m out) :
    ∃ free used bump, BlocksAt R m free used bump ∧ out.Perm (used.map R.block) := by
  induction h with
  | @init m m' ba hrun =>
    obtain ⟨m'', hrun', h'⟩ := BlocksAt.init R m
    rw [hrun] at hrun'
    cases hrun'
    exact ⟨[], [], 0, h', .refl _⟩
  | alloc _ hrun ih =>
    obtain ⟨free, used, bump, hinv, hout⟩ := ih
    rcases hinv.alloc with ⟨k, m'', free', bump', hrun', hk, -, h'⟩ | ⟨-, hrun'⟩
    · rw [hrun] at hrun'
      cases hrun'
      rw [if_neg (block_ne_zero hk)]
      exact ⟨free', k :: used, bump', h', hout.cons _⟩
    · rw [hrun] at hrun'
      cases hrun'
      rw [if_pos rfl]
      exact ⟨free, used, bump, hinv, hout⟩
  | @free m m' out p _ hp hrun ih =>
    obtain ⟨free, used, bump, hinv, hout⟩ := ih
    obtain ⟨k, hk, rfl⟩ := List.mem_map.mp (hout.mem_iff.mp hp)
    obtain ⟨m'', hrun', h'⟩ := hinv.release hk
    rw [hrun] at hrun'
    cases hrun'
    refine ⟨_, _, _, h', ?_⟩
    have hperm : out.Perm (R.block k :: (used.erase k).map R.block) :=
      hout.trans ((List.perm_cons_erase hk).map _)
    have he := hperm.erase (R.block k)
    rwa [List.erase_cons_head] at he
  | write _ hm ih =>
    obtain ⟨free, used, bump, hinv, hout⟩ := ih
    exact ⟨free, used, bump, hinv.write hout hm, hout⟩

/-- In every run the blocks handed out lie behind the record, on the grid of the block size, and
apart from those in use; there is one unless all are in use; and every block in use can be
given back. -/
theorem blockAllocator_correct (h : BlockRun R m out) :
    (∀ p m', blockAlloc R.address m = (p, m') → p ≠ 0 →
      (∃ k, p.toNat = (baField R.address .base m).toNat + k * R.blockSize.toNat) ∧
      (baField R.address .base m).toNat ≤ p.toNat ∧
      p.toNat + R.blockSize.toNat ≤ (baField R.address .maxAddress m).toNat ∧
      ∀ q ∈ out, (Block.mk q R.blockSize.toNat).Disjoint ⟨p, R.blockSize.toNat⟩) ∧
    ((blockAlloc R.address m).1 = 0 ↔
      out.length = (R.length.toNat - 48) / R.blockSize.toNat) ∧
    ∀ p ∈ out, ∃ m', blockFree R.address p m = .ok ((), m') := by
  obtain ⟨free, used, bump, hinv, hout⟩ := h.inv
  have hlen : out.length = used.length := by
    rw [hout.length_eq, List.length_map]
  refine ⟨fun p m' hrun hp => ?_, ?_, fun p hp => ?_⟩
  · rcases hinv.alloc with ⟨k, m'', free', bump', hrun', hk, hnew, h'⟩ | ⟨-, hrun'⟩
    · rw [hrun] at hrun'
      obtain ⟨rfl, -⟩ := Prod.mk.inj hrun'
      have hpos := Region.toNat_block hk.le
      have hzero := Region.toNat_block (R := R) (Nat.zero_le _)
      rw [hinv.base, hinv.maxAddress, hzero]
      refine ⟨⟨k, by omega⟩, by omega, Region.block_le hk le_rfl, fun q hq => ?_⟩
      obtain ⟨j, hj, rfl⟩ := List.mem_map.mp (hout.mem_iff.mp hq)
      exact Region.block_disjoint (hinv.lt_max (List.mem_append_right _ hj)) hk
        fun he => hnew (he ▸ hj)
    · rw [hrun] at hrun'
      exact absurd (Prod.mk.inj hrun').1 hp
  · rw [hlen]
    rcases hinv.alloc with ⟨k, m'', free', bump', hrun', hk, hnew, h'⟩ | ⟨hall, hrun'⟩
    · rw [hrun']
      refine iff_of_false (block_ne_zero hk) fun he => ?_
      have hl := h'.perm.length_eq
      have hb := h'.bump_le
      rw [List.length_append, List.length_cons, List.length_range] at hl
      rw [Region.maxBlocks] at hb
      omega
    · rw [hrun']
      exact iff_of_true rfl hall
  · obtain ⟨k, hk, rfl⟩ := List.mem_map.mp (hout.mem_iff.mp hp)
    obtain ⟨m', hrun, -⟩ := hinv.release hk
    exact ⟨m', hrun⟩

/-- Two blocks of 16 bytes. -/
def twoBlocks : Region where
  address := 0x1000
  length := 80
  blockSize := 16
  hasRecord := by decide
  hasNode := by decide
  noWrap := by simp

/-- After the first of them has been handed out. -/
theorem blockAllocator_twoBlocks : ∃ m, BlockRun twoBlocks m [0x1030] ∧
    (∀ p m', blockAlloc twoBlocks.address m = (p, m') → p ≠ 0 →
      (∃ k, p.toNat = (baField twoBlocks.address .base m).toNat + k * twoBlocks.blockSize.toNat) ∧
      (baField twoBlocks.address .base m).toNat ≤ p.toNat ∧
      p.toNat + twoBlocks.blockSize.toNat ≤ (baField twoBlocks.address .maxAddress m).toNat ∧
      ∀ q ∈ [0x1030], (Block.mk q twoBlocks.blockSize.toNat).Disjoint
        ⟨p, twoBlocks.blockSize.toNat⟩) ∧
    ((blockAlloc twoBlocks.address m).1 = 0 ↔
      [0x1030].length = (twoBlocks.length.toNat - 48) / twoBlocks.blockSize.toNat) ∧
    ∀ p ∈ [0x1030], ∃ m', blockFree twoBlocks.address p m = .ok ((), m') := by
  obtain ⟨m1, hinit, h1⟩ := BlocksAt.init twoBlocks fun _ => 0
  obtain ⟨m2, halloc, -⟩ := h1.alloc_bump (by decide)
  have hblock : twoBlocks.block 0 = 0x1030 := by decide
  rw [hblock] at halloc
  have hrun : BlockRun twoBlocks m2 [0x1030] := .alloc (.init hinit) halloc
  exact ⟨m2, hrun, blockAllocator_correct hrun⟩

end Runs

end Bikeshed
