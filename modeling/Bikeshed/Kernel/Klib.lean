import Bikeshed.Lib.Block

/-!
# `memclr`, `memset` and `memcpy`

All run byte by byte up to the next multiple of 8, then word by word, then byte by
byte again, so all are `blockLoop`, which is given what one byte step and one word step
do at an offset from the start; the state is memory, or a list of what was done. The first
loop decrements `size` without a check: the results need `size` to reach that multiple
(`headLength`).
-/

namespace Bikeshed

open Lib

variable {σ : Type}

lemma toNat_pred {n : Word} (h : 0 < n.toNat) : (n - 1).toNat = n.toNat - 1 := by
  rw [BitVec.toNat_sub_of_le (by rw [BitVec.le_def]; exact h)]
  rfl

lemma toNat_sub_eight {n : Word} (h : 8 ≤ n.toNat) : (n - 8).toNat = n.toNat - 8 := by
  rw [BitVec.toNat_sub_of_le (by rw [BitVec.le_def]; exact h)]
  rfl

/-- `while (((uint64_t)p8 & 0x7) != 0) { ... p8++ ...; --size; }`: at most 7 rounds. -/
def blockHead (put8 : Word → σ → σ) (dst : Word) :
    ℕ → σ → Word → Word → σ × Word × Word
  | 0, m, off, size => (m, off, size)
  | fuel + 1, m, off, size =>
    if (dst + off) &&& 0x7 ≠ 0 then blockHead put8 dst fuel (put8 off m) (off + 1) (size - 1)
    else (m, off, size)

/-- `while (size >= 8) { ... p64++ ...; size -= 8; }` -/
def blockWords (put64 : Word → σ → σ) (m : σ) (off size : Word) : σ × Word × Word :=
  if h : 8 ≤ size.toNat then blockWords put64 (put64 off m) (off + 8) (size - 8)
  else (m, off, size)
termination_by size.toNat
decreasing_by
  rw [toNat_sub_eight h]
  omega

/-- `while (size > 0) { ... p++ ...; --size; }` -/
def blockTail (put8 : Word → σ → σ) (m : σ) (off size : Word) : σ :=
  if h : 0 < size.toNat then blockTail put8 (put8 off m) (off + 1) (size - 1)
  else m
termination_by size.toNat
decreasing_by
  rw [toNat_pred h]
  omega

/-- The three loops, with the stores of bytes and words as parameters -/
def blockLoop (put8 put64 : Word → σ → σ) (m : σ) (dst size : Word) : σ :=
  let (m, off, size) := blockHead put8 dst 8 m 0 size
  let (m, off, size) := blockWords put64 m off size
  blockTail put8 m off size

def memclr (m : Mem) (ptr size : Word) : Mem :=
  blockLoop (fun off m => store8 m (ptr + off) 0) (fun off m => store64 m (ptr + off) 0)
    m ptr size

/-- The `value` of `memset`: eight times the byte `val`. -/
def memsetValue (val : Byte) : Word :=
  let value := (val.setWidth 64 <<< 8) ||| val.setWidth 64
  let value := value ||| value <<< 16
  value ||| value <<< 32

def memset (m : Mem) (ptr : Word) (val : Byte) (size : Word) : Mem :=
  blockLoop (fun off m => store8 m (ptr + off) val)
    (fun off m => store64 m (ptr + off) (memsetValue val)) m ptr size

/-- The memory after `memcpy`; the `dst` that it also returns no caller looks at. -/
def memcpy (m : Mem) (dst src size : Word) : Mem :=
  blockLoop (fun off m => store8 m (dst + off) (load8 m (src + off)))
    (fun off m => store64 m (dst + off) (load64 m (src + off))) m dst size

/-! ## The loops -/

/-- How many bytes the first loop handles. -/
def headLength (p : Word) : ℕ := (8 - p.toNat % 8) % 8

/-- The test for an unaligned pointer -/
lemma and_seven_ne_zero (p : Word) : p &&& 0x7 ≠ 0 ↔ p.toNat % 8 ≠ 0 := by
  have h : (p &&& 0x7).toNat = p.toNat % 8 := by
    rw [BitVec.toNat_and]
    exact Nat.and_two_pow_sub_one_eq_mod p.toNat 3
  rw [Ne, ← BitVec.toNat_inj, h]
  rfl

/-- One byte less up to the next multiple of eight -/
lemma headLength_succ {p : Word} (h : p.toNat % 8 ≠ 0) :
    headLength p = headLength (p + 1) + 1 := by
  have hp := p.isLt
  have h1 : (p + 1).toNat = (p.toNat + 1) % 2 ^ 64 := BitVec.toNat_add p 1
  rw [headLength, headLength, h1]
  omega

lemma ofNat_add_one (a : ℕ) : BitVec.ofNat 64 a + 1 = BitVec.ofNat 64 (a + 1) :=
  (BitVec.ofNat_add a 1).symm

lemma ofNat_add_eight (a : ℕ) : BitVec.ofNat 64 a + 8 = BitVec.ofNat 64 (a + 8) :=
  (BitVec.ofNat_add a 8).symm

section Loop

-- `S a` is what the state has become after `a` bytes.
variable {put8 put64 : Word → σ → σ} {n : ℕ} (S : ℕ → σ)

/-- The bytes in front of the first aligned word. `S a` is the state in which `a` bytes are done. -/
lemma blockHead_eq {dst : Word}
    (h8 : ∀ a, a + 1 ≤ n → put8 (BitVec.ofNat 64 a) (S a) = S (a + 1)) :
    ∀ (fuel a : ℕ) (size : Word), headLength (dst + BitVec.ofNat 64 a) < fuel →
      a + headLength (dst + BitVec.ofNat 64 a) ≤ n → a + size.toNat = n →
      ∃ b size', b + BitVec.toNat size' = n ∧
        blockHead put8 dst fuel (S a) (BitVec.ofNat 64 a) size
          = (S b, BitVec.ofNat 64 b, size')
  | 0, _, _, h, _, _ => by omega
  | fuel + 1, a, size, h, hn, hsize => by
    rw [blockHead]
    split
    · rename_i hp
      rw [and_seven_ne_zero] at hp
      have hs := headLength_succ hp
      rw [add_assoc, ofNat_add_one] at hs
      rw [h8 a (by omega), ofNat_add_one]
      exact blockHead_eq h8 fuel (a + 1) (size - 1) (by omega) (by omega)
        (by rw [toNat_pred (by omega)]; omega)
    · exact ⟨a, size, hsize, rfl⟩

/-- The words in the middle -/
lemma blockWords_eq (h64 : ∀ a, a + 8 ≤ n → put64 (BitVec.ofNat 64 a) (S a) = S (a + 8))
    (a : ℕ) (size : Word) (hsize : a + size.toNat = n) :
    ∃ b size', b + BitVec.toNat size' = n ∧
      blockWords put64 (S a) (BitVec.ofNat 64 a) size = (S b, BitVec.ofNat 64 b, size') := by
  rw [blockWords]
  split
  · rename_i h
    rw [h64 a (by omega), ofNat_add_eight]
    exact blockWords_eq h64 (a + 8) (size - 8) (by rw [toNat_sub_eight h]; omega)
  · exact ⟨a, size, hsize, rfl⟩
termination_by size.toNat
decreasing_by
  rw [toNat_sub_eight (by assumption)]
  omega

/-- The bytes behind the last word -/
lemma blockTail_eq (h8 : ∀ a, a + 1 ≤ n → put8 (BitVec.ofNat 64 a) (S a) = S (a + 1))
    (a : ℕ) (size : Word) (hsize : a + size.toNat = n) :
    blockTail put8 (S a) (BitVec.ofNat 64 a) size = S n := by
  rw [blockTail]
  split
  · rename_i h
    rw [h8 a (by omega), ofNat_add_one]
    exact blockTail_eq h8 (a + 1) (size - 1) (by rw [toNat_pred h]; omega)
  · rw [show a = n by omega]
termination_by size.toNat
decreasing_by
  rw [toNat_pred (by assumption)]
  omega

variable (put8 put64) in
/-- With enough bytes for the head, the loops do all the bytes. -/
lemma blockLoop_eq {dst size : Word} (hn : headLength dst ≤ size.toNat)
    (h8 : ∀ a, a + 1 ≤ size.toNat → put8 (BitVec.ofNat 64 a) (S a) = S (a + 1))
    (h64 : ∀ a, a + 8 ≤ size.toNat → put64 (BitVec.ofNat 64 a) (S a) = S (a + 8)) :
    blockLoop put8 put64 (S 0) dst size = S size.toNat := by
  have hlt : headLength dst < 8 := Nat.mod_lt _ (by norm_num)
  obtain ⟨b, size1, hb, h1⟩ := blockHead_eq S h8 8 0 size (by simpa using hlt) (by simpa using hn)
    (Nat.zero_add _)
  obtain ⟨c, size2, hc, h2⟩ := blockWords_eq S h64 b size1 hb
  have h3 := blockTail_eq S h8 c size2 hc
  simp only [blockLoop]
  rw [show (0 : Word) = BitVec.ofNat 64 0 from rfl, h1]
  simp only [h2, h3]

end Loop

/-! ## Filling and copying in pieces -/

lemma toNat_sub_lt_one {x p : Word} : (x - p).toNat < 1 ↔ x = p := by
  constructor
  · intro h
    have h0 : x - p = 0 := word_ext (by simpa using Nat.lt_one_iff.mp h)
    calc x = x - p + p := (sub_add_cancel x p).symm
      _ = p := by rw [h0]; simp
  · rintro rfl
    simp

/-- A byte is a fill of one. -/
lemma store8_eq_fill (m : Mem) (p : Word) (v : Byte) : store8 m p v = fill m p 1 v := by
  funext x
  simp only [store8, fill, toNat_sub_lt_one]

/-- A zero word is a fill of eight. -/
lemma store64_zero_eq_fill (m : Mem) (p : Word) : store64 m p 0 = fill m p 8 0 := by
  funext x
  simp only [store64, fill]
  split
  · apply BitVec.eq_of_getLsbD_eq
    simp
  · rfl

/-- Shifted copies of a byte, each in its own place -/
lemma getLsbD_memsetValue (val : Byte) {k i : ℕ} (hk : k < 8) (hi : i < 8) :
    (memsetValue val).getLsbD (8 * k + i) = val.getLsbD i := by
  simp only [memsetValue, BitVec.getLsbD_or, BitVec.getLsbD_shiftLeft, BitVec.getLsbD_setWidth]
  interval_cases k <;> interval_cases i <;> simp

/-- The word of `memset` has its byte eight times. -/
lemma store64_memsetValue_eq_fill (m : Mem) (p : Word) (val : Byte) :
    store64 m p (memsetValue val) = fill m p 8 val := by
  funext x
  simp only [store64, fill]
  split
  · rename_i hx
    apply BitVec.eq_of_getLsbD_eq
    intro i hi
    rw [BitVec.getLsbD_extractLsb', getLsbD_memsetValue val hx hi]
    simp [hi]
  · rfl

lemma store8_eq_copy (m : Mem) (d s : Word) : store8 m d (load8 m s) = copy m d s 1 := by
  funext x
  simp only [store8, copy, load8, toNat_sub_lt_one]
  split
  · rename_i hx
    simp [hx]
  · rfl

lemma store64_eq_copy (m : Mem) (d s : Word) : store64 m d (load64 m s) = copy m d s 8 := by
  funext x
  simp only [store64, copy]
  split
  · rename_i h
    rw [extractLsb'_load64 m s h, BitVec.ofNat_toNat, BitVec.setWidth_eq]
  · rfl

/-- Where `x` lies relative to what is left of a range after its first `a` bytes. -/
lemma sub_add_toNat (x p : Word) (a : ℕ) (ha : a < 2 ^ 64) :
    (x - (p + BitVec.ofNat 64 a)).toNat
      = if a ≤ (x - p).toNat then (x - p).toNat - a else (x - p).toNat + 2 ^ 64 - a := by
  rw [← sub_sub, BitVec.toNat_sub (x - p), toNat_ofNat_lt ha]
  have := (x - p).isLt
  split <;> omega

/-- Two fills one behind the other -/
lemma fill_fill (m : Mem) (p : Word) (v : Byte) {a b : ℕ} (h : a + b < 2 ^ 64) :
    fill (fill m p a v) (p + BitVec.ofNat 64 a) b v = fill m p (a + b) v := by
  funext x
  simp only [fill, sub_add_toNat x p a (by omega)]
  have := (x - p).isLt
  by_cases h1 : (x - p).toNat < a
  · rw [if_pos h1, if_pos (show (x - p).toNat < a + b by omega), ite_self]
  · rw [if_neg h1, if_pos (show a ≤ (x - p).toNat by omega)]
    by_cases h2 : (x - p).toNat < a + b
    · rw [if_pos h2, if_pos (by omega)]
    · rw [if_neg h2, if_neg (by omega)]

/-- No byte of the `n` from `src` is among the `n` from `dst`. -/
def Separate (dst src : Word) (n : ℕ) : Prop :=
  ∀ k < n, n ≤ (src + BitVec.ofNat 64 k - dst).toNat

lemma Separate.mono {dst src : Word} {n k : ℕ} (h : Separate dst src n) (hk : k ≤ n) :
    Separate dst src k := fun i hi => hk.trans (h i (by omega))

/-- The second copy still finds its source as it was. -/
lemma copy_copy (m : Mem) (d s : Word) {a b : ℕ} (h : a + b < 2 ^ 64)
    (hsep : Separate d s (a + b)) :
    copy (copy m d s a) (d + BitVec.ofNat 64 a) (s + BitVec.ofNat 64 a) b
      = copy m d s (a + b) := by
  funext x
  simp only [copy, sub_add_toNat x d a (by omega)]
  have := (x - d).isLt
  by_cases h1 : (x - d).toNat < a
  · rw [if_pos h1, if_pos (show (x - d).toNat < a + b by omega),
      if_neg (show ¬ a ≤ (x - d).toNat by omega), if_neg (by omega)]
  · rw [if_neg h1, if_pos (show a ≤ (x - d).toNat by omega)]
    by_cases h2 : (x - d).toNat < a + b
    · rw [if_pos h2, if_pos (by omega)]
      have hx : s + BitVec.ofNat 64 a + (x - (d + BitVec.ofNat 64 a)) = s + (x - d) := by ring
      have hk := hsep _ h2
      rw [BitVec.ofNat_toNat, BitVec.setWidth_eq] at hk
      rw [hx, if_neg (by omega)]
    · rw [if_neg h2, if_neg (by omega)]

/-! ## What they do -/

/-- `memclr` on a block not shorter than its unaligned head -/
theorem memclr_eq (m : Mem) {ptr size : Word} (h : headLength ptr ≤ size.toNat) :
    memclr m ptr size = fill m ptr size.toNat 0 := by
  have hsize := size.isLt
  have hloop := blockLoop_eq (fun off m => store8 m (ptr + off) 0)
    (fun off m => store64 m (ptr + off) 0) (fun a => fill m ptr a 0) h
    (fun a ha => (store8_eq_fill _ _ _).trans (fill_fill m ptr 0 (by omega)))
    (fun a ha => (store64_zero_eq_fill _ _).trans (fill_fill m ptr 0 (by omega)))
  have h0 : fill m ptr 0 0 = m := by
    funext x
    simp [fill]
  rw [h0] at hloop
  exact hloop

/-- `memset` likewise -/
theorem memset_eq (m : Mem) {ptr size : Word} (val : Byte) (h : headLength ptr ≤ size.toNat) :
    memset m ptr val size = fill m ptr size.toNat val := by
  have hsize := size.isLt
  have hloop := blockLoop_eq (fun off m => store8 m (ptr + off) val)
    (fun off m => store64 m (ptr + off) (memsetValue val)) (fun a => fill m ptr a val) h
    (fun a ha => (store8_eq_fill _ _ _).trans (fill_fill m ptr val (by omega)))
    (fun a ha => (store64_memsetValue_eq_fill _ _ _).trans (fill_fill m ptr val (by omega)))
  have h0 : fill m ptr 0 val = m := by
    funext x
    simp [fill]
  rw [h0] at hloop
  exact hloop

/-- `memcpy` likewise, between blocks that may lie as `Separate` says -/
theorem memcpy_eq (m : Mem) {dst src size : Word} (h : headLength dst ≤ size.toNat)
    (hsep : Separate dst src size.toNat) :
    memcpy m dst src size = copy m dst src size.toNat := by
  have hsize := size.isLt
  have hloop := blockLoop_eq (fun off m => store8 m (dst + off) (load8 m (src + off)))
    (fun off m => store64 m (dst + off) (load64 m (src + off))) (fun a => copy m dst src a) h
    (fun a ha => (store8_eq_copy _ _ _).trans (copy_copy m dst src (by omega) (hsep.mono ha)))
    (fun a ha => (store64_eq_copy _ _ _).trans (copy_copy m dst src (by omega) (hsep.mono ha)))
  have h0 : copy m dst src 0 = m := by
    funext x
    simp [copy]
  rw [h0] at hloop
  exact hloop

end Bikeshed
