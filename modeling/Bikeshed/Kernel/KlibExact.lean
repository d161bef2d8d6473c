import Bikeshed.Kernel.Klib

/-!
# When `memclr`, `memset` and `memcpy` are exact

A size that does not reach the next multiple of 8 makes the counter of the first loop wrap: the
byte after the range is written, and nothing that is written later restores it.
-/

namespace Bikeshed

open Lib

variable {σ : Type} {put8 put64 : Word → Mem → Mem} {dst src size off x : Word} {m : Mem}

/-! ## The loops from any size -/

lemma headLength_lt (p : Word) : headLength p < 8 := Nat.mod_lt _ (by norm_num)

lemma headLength_add {p : Word} {a : ℕ} (h : a ≤ headLength p) :
    headLength (p + BitVec.ofNat 64 a) = headLength p - a := by
  have hlt := headLength_lt p
  have hp := p.isLt
  have ha : (p + BitVec.ofNat 64 a).toNat = (p.toNat + a) % 2 ^ 64 := by
    rw [BitVec.toNat_add, toNat_ofNat_lt (by omega)]
  rw [headLength] at h hlt
  rw [headLength, headLength, ha]
  omega

/-- The first loop handles `headLength` bytes, whatever the size is. -/
lemma blockHead_rounds (put8 : Word → σ → σ) (S : ℕ → σ)
    (hS : ∀ a, put8 (BitVec.ofNat 64 a) (S a) = S (a + 1)) : ∀ (fuel a : ℕ) (size : Word),
      a ≤ headLength dst → headLength dst < a + fuel →
      blockHead put8 dst fuel (S a) (BitVec.ofNat 64 a) size
        = (S (headLength dst), BitVec.ofNat 64 (headLength dst),
          size - BitVec.ofNat 64 (headLength dst - a))
  | 0, a, size, h1, h2 => by omega
  | fuel + 1, a, size, h1, h2 => by
    have hhead := headLength_add h1
    rw [blockHead]
    split
    · rename_i hne
      rw [and_seven_ne_zero] at hne
      have hsucc := headLength_succ hne
      rw [hS, ofNat_add_one, blockHead_rounds put8 S hS fuel (a + 1) (size - 1) (by omega)
        (by omega)]
      have hcount : headLength dst - a = headLength dst - (a + 1) + 1 := by omega
      rw [hcount, ← ofNat_add_one, sub_sub, add_comm (1 : Word)]
    · rename_i hdone
      rw [and_seven_ne_zero, not_not] at hdone
      have hzero : headLength dst - a = 0 := by
        rw [← hhead, headLength, hdone]
      have ha : headLength dst = a := by omega
      rw [hzero, ha]
      simp

/-- No byte outside the next `size` from `off` is written. -/
lemma blockWords_frame (h64 : ∀ off m x, 8 ≤ (x - (dst + off)).toNat → put64 off m x = m x)
    (m : Mem) (off size : Word) (hx : size.toNat ≤ (x - (dst + off)).toNat) :
    (blockWords put64 m off size).1 x = m x ∧ (blockWords put64 m off size).2.2.toNat
      ≤ (x - (dst + (blockWords put64 m off size).2.1)).toNat := by
  rw [blockWords]
  split
  · rename_i h
    have hnext : (x - (dst + (off + 8))).toNat = (x - (dst + off)).toNat - 8 := by
      rw [← add_assoc, ← sub_sub, toNat_sub_eight (by omega)]
    obtain ⟨h1, h2⟩ := blockWords_frame h64 (put64 off m) (off + 8) (size - 8)
      (by rw [hnext, toNat_sub_eight h]; omega)
    exact ⟨h1.trans (h64 off m x (by omega)), h2⟩
  · exact ⟨rfl, hx⟩
termination_by size.toNat
decreasing_by
  rw [toNat_sub_eight (by assumption)]
  omega

lemma blockTail_frame (h8 : ∀ off m x, 1 ≤ (x - (dst + off)).toNat → put8 off m x = m x)
    (m : Mem) (off size : Word) (hx : size.toNat ≤ (x - (dst + off)).toNat) :
    blockTail put8 m off size x = m x := by
  rw [blockTail]
  split
  · rename_i h
    have hnext : (x - (dst + (off + 1))).toNat = (x - (dst + off)).toNat - 1 := by
      rw [← add_assoc, ← sub_sub, toNat_pred (by omega)]
    rw [blockTail_frame h8 (put8 off m) (off + 1) (size - 1)
      (by rw [hnext, toNat_pred h]; omega)]
    exact h8 off m x (by omega)
  · rfl
termination_by size.toNat
decreasing_by
  rw [toNat_pred (by assumption)]
  omega

/-- The first byte after a range that is too short keeps what the first loop gave it. -/
lemma blockLoop_overrun (put8 put64 : Word → Mem → Mem) (S : ℕ → Mem)
    (hS : ∀ a, put8 (BitVec.ofNat 64 a) (S a) = S (a + 1))
    (h8 : ∀ off m x, 1 ≤ (x - (dst + off)).toNat → put8 off m x = m x)
    (h64 : ∀ off m x, 8 ≤ (x - (dst + off)).toNat → put64 off m x = m x)
    (hshort : size.toNat < headLength dst) :
    blockLoop put8 put64 (S 0) dst size (dst + size) = S (size.toNat + 1) (dst + size) := by
  have hlt := headLength_lt dst
  have hhead : blockHead put8 dst 8 (S 0) (0#64) size = _ :=
    blockHead_rounds put8 S hS 8 0 size (Nat.zero_le _) (by omega)
  -- how far the byte is behind what is still to be written
  have hfar : ∀ a, size.toNat < a → a ≤ headLength dst →
      (dst + size - (dst + BitVec.ofNat 64 a)).toNat = 2 ^ 64 + size.toNat - a := by
    intro a h1 h2
    rw [add_sub_add_left_eq_sub, BitVec.toNat_sub, toNat_ofNat_lt (by omega)]
    omega
  have hkeep : ∀ n, size.toNat + 1 + n ≤ headLength dst →
      S (size.toNat + 1 + n) (dst + size) = S (size.toNat + 1) (dst + size) := by
    intro n
    induction n with
    | zero => exact fun _ => rfl
    | succ n ih =>
      intro hn
      rw [← ih (by omega), ← add_assoc, ← hS]
      exact h8 _ _ _ (by rw [hfar _ (by omega) (by omega)]; omega)
  have hrest : (size - BitVec.ofNat 64 (headLength dst)).toNat
      = 2 ^ 64 + size.toNat - headLength dst := by
    rw [BitVec.toNat_sub, toNat_ofNat_lt (by omega)]
    omega
  have hlast : S (headLength dst) (dst + size) = S (size.toNat + 1) (dst + size) := by
    have := hkeep (headLength dst - (size.toNat + 1)) (by omega)
    rwa [Nat.add_sub_cancel' (by omega)] at this
  obtain ⟨h1, h2⟩ := blockWords_frame (x := dst + size) h64 (S (headLength dst))
    (BitVec.ofNat 64 (headLength dst)) (size - BitVec.ofNat 64 (headLength dst))
    (by rw [hrest, hfar _ hshort le_rfl])
  simp only [blockLoop]
  rw [show (0 : Word) = BitVec.ofNat 64 0 from rfl, hhead, Nat.sub_zero]
  rw [blockTail_frame h8 _ _ _ h2, h1, hlast]

/-! ## Exactness -/

/-- The range of `size` bytes at `dst` gets the bytes `val`, which may depend on what memory was,
and every other byte stays. -/
structure Exact (dst size : Word) (val : Mem → ℕ → Byte) (f : Mem → Mem) : Prop where
  written : ∀ m, ∀ k < size.toNat, f m (dst + BitVec.ofNat 64 k) = val m k
  frame : ∀ m x, ¬ (Block.mk dst size.toNat).Has x → f m x = m x

lemma not_has_iff (hd : dst.toNat + size.toNat ≤ 2 ^ 64) :
    ¬ (Block.mk dst size.toNat).Has x ↔ size.toNat ≤ (x - dst).toNat := by
  have hx := x.isLt
  rw [Block.Has, BitVec.toNat_sub]
  dsimp only
  omega

lemma exact_fill {f : Mem → Mem} {val : Byte} (hd : dst.toNat + size.toNat ≤ 2 ^ 64)
    (h : ∀ m, f m = fill m dst size.toNat val) : Exact dst size (fun _ _ => val) f where
  written := fun m k hk => by
    rw [h, fill, add_sub_toNat _ (by omega), if_pos hk]
  frame := fun m x hx => by
    rw [h, fill, if_neg (not_lt.mpr ((not_has_iff hd).mp hx))]

lemma exact_copy {f : Mem → Mem} (hd : dst.toNat + size.toNat ≤ 2 ^ 64)
    (h : ∀ m, f m = copy m dst src size.toNat) :
    Exact dst size (fun m k => m (src + BitVec.ofNat 64 k)) f where
  written := fun m k hk => by
    rw [h, copy, add_sub_toNat _ (by omega), if_pos hk, add_sub_cancel_left]
  frame := fun m x hx => by
    rw [h, copy, if_neg (not_lt.mpr ((not_has_iff hd).mp hx))]

/-- It is enough that one byte after the range is changed in some memory. -/
lemma not_exact_of_overrun {f : Mem → Mem} {val : Mem → ℕ → Byte}
    (hd : dst.toNat + size.toNat ≤ 2 ^ 64) (hf : f m (dst + size) ≠ m (dst + size)) :
    ¬ Exact dst size val f := by
  intro h
  refine hf (h.frame m _ ((not_has_iff hd).mpr ?_))
  rw [add_sub_cancel_left]

section Stores

variable {a : Word} {v : Byte} {w : Word}

lemma store8_frame (h : 1 ≤ (x - a).toNat) : store8 m a v x = m x := by
  rw [store8_eq_fill, fill, if_neg (by omega)]

lemma store64_frame (h : 8 ≤ (x - a).toNat) : store64 m a w x = m x := by
  rw [store64, if_neg (by omega)]

lemma store8_self : store8 m a v a = v := if_pos rfl

end Stores

/-- The byte after the range gets the value too. -/
lemma fill_overrun {val : Byte} {word : Word} (hshort : size.toNat < headLength dst) (m : Mem) :
    blockLoop (fun off m => store8 m (dst + off) val) (fun off m => store64 m (dst + off) word) m
      dst size (dst + size) = val := by
  let S : ℕ → Mem := fun a => Nat.rec m (fun a m => store8 m (dst + BitVec.ofNat 64 a) val) a
  have h := blockLoop_overrun (fun off m => store8 m (dst + off) val)
    (fun off m => store64 m (dst + off) word) S (fun _ => rfl)
    (fun _ _ _ => store8_frame) (fun _ _ _ => store64_frame) hshort
  refine h.trans ?_
  show store8 _ (dst + BitVec.ofNat 64 size.toNat) val (dst + size) = val
  rw [BitVec.ofNat_toNat, BitVec.setWidth_eq]
  exact store8_self

lemma separate_of_disjoint (hd : dst.toNat + size.toNat ≤ 2 ^ 64)
    (hs : src.toNat + size.toNat ≤ 2 ^ 64)
    (hdis : Block.Disjoint ⟨dst, size.toNat⟩ ⟨src, size.toNat⟩) :
    Separate dst src size.toNat := by
  intro k hk
  have hdis' : dst.toNat + size.toNat ≤ src.toNat ∨ src.toNat + size.toNat ≤ dst.toNat := hdis
  rw [BitVec.toNat_sub, toNat_add_ofNat (by omega)]
  omega

/-- What the byte after the range gets was not there before, if that was the only byte set. -/
lemma memcpy_overrun (hne : dst ≠ src) (hsep : Separate dst src size.toNat)
    (hshort : size.toNat < headLength dst) :
    memcpy (fun x => if x = dst + size then 1 else 0) dst src size (dst + size) = 0 := by
  have hlt := headLength_lt dst
  set m : Mem := fun x => if x = dst + size then 1 else 0 with hm
  let put8 : Word → Mem → Mem := fun off m => store8 m (dst + off) (load8 m (src + off))
  let S : ℕ → Mem := fun a => Nat.rec m (fun a m => put8 (BitVec.ofNat 64 a) m) a
  have h : memcpy m dst src size (dst + size) = S (size.toNat + 1) (dst + size) :=
    blockLoop_overrun put8 (fun off m => store64 m (dst + off) (load64 m (src + off))) S
      (fun _ => rfl) (fun _ _ _ => store8_frame) (fun _ _ _ => store64_frame) hshort
  -- up to there it was a copy
  have hcopy : ∀ a ≤ size.toNat, S a = copy m dst src a := by
    intro a ha
    induction a with
    | zero =>
      funext x
      simp [S, copy]
    | succ a ih =>
      have hstep : S (a + 1) = store8 (S a) (dst + BitVec.ofNat 64 a)
          (load8 (S a) (src + BitVec.ofNat 64 a)) := rfl
      rw [hstep, ih (by omega), store8_eq_copy, copy_copy m dst src (by omega) (hsep.mono ha)]
  have hlast : S (size.toNat + 1) (dst + size) = copy m dst src size.toNat (src + size) := by
    have hstep : S (size.toNat + 1) = store8 (S size.toNat) (dst + BitVec.ofNat 64 size.toNat)
        (load8 (S size.toNat) (src + BitVec.ofNat 64 size.toNat)) := rfl
    rw [hstep, BitVec.ofNat_toNat, BitVec.setWidth_eq, store8_self, hcopy _ le_rfl, load8]
  rw [h, hlast, copy]
  split
  · rename_i hin
    -- a byte that was copied itself
    rw [hm]
    refine if_neg fun heq => ?_
    have hdouble : (src - dst) + (src - dst) = 0 := by
      have hz : src + (src + size - dst) - (dst + size) = 0 := by rw [heq, sub_self]
      rw [← hz]
      ring
    have hdiff : src - dst ≠ 0 := fun h0 => hne (sub_eq_zero.mp h0).symm
    have hhalf : (src - dst).toNat = 2 ^ 63 := by
      have hz := congrArg BitVec.toNat hdouble
      rw [BitVec.toNat_add] at hz
      have hpos : (src - dst).toNat ≠ 0 := fun h0 => hdiff (word_ext h0)
      have := (src - dst).isLt
      have hz' : ((src - dst).toNat + (src - dst).toNat) % 2 ^ 64 = 0 := hz
      omega
    have hfar : (src + size - dst).toNat = 2 ^ 63 + size.toNat := by
      rw [add_sub_right_comm, BitVec.toNat_add, hhalf]
      omega
    omega
  · rw [hm]
    exact if_neg fun heq => hne (add_right_cancel heq).symm

/-- A copy of memory onto itself -/
lemma blockLoop_id {put8 put64 : Word → σ → σ} {s : σ} (h8 : ∀ off, put8 off s = s)
    (h64 : ∀ off, put64 off s = s) (dst size : Word) : blockLoop put8 put64 s dst size = s := by
  have hhead : blockHead put8 dst 8 s (0#64) size = _ :=
    blockHead_rounds put8 (fun _ => s) (fun a => h8 _) 8 0 size
      (Nat.zero_le _) (by have := headLength_lt dst; omega)
  obtain ⟨b, size1, hb, hwords⟩ := blockWords_eq (n := _) (fun _ => s) (fun a _ => h64 _)
    (headLength dst) (size - BitVec.ofNat 64 (headLength dst - 0)) rfl
  have htail := blockTail_eq (fun _ => s) (fun a _ => h8 _) b size1 hb
  simp only [blockLoop]
  rw [show (0 : Word) = BitVec.ofNat 64 0 from rfl, hhead]
  simp only [hwords, htail]

lemma memcpy_self (m : Mem) (dst size : Word) : memcpy m dst dst size = m := by
  refine blockLoop_id (fun off => ?_) (fun off => ?_) dst size
  · funext x
    rw [store8_eq_copy, copy]
    split
    · rw [add_sub_cancel]
    · rfl
  · funext x
    rw [store64_eq_copy, copy]
    split
    · rw [add_sub_cancel]
    · rfl

/-- For a range that does not wrap the functions are exact if and only if `size` reaches the first
multiple of 8; `memcpy` also if it is to copy nothing from `dst` to `dst`. -/
theorem klib_exact_iff (hd : dst.toNat + size.toNat ≤ 2 ^ 64) :
    (∀ src : Word, src.toNat + size.toNat ≤ 2 ^ 64 →
      Block.Disjoint ⟨dst, size.toNat⟩ ⟨src, size.toNat⟩ →
      (Exact dst size (fun m k => m (src + BitVec.ofNat 64 k)) (fun m => memcpy m dst src size) ↔
        headLength dst ≤ size.toNat ∨ dst = src)) ∧
    (∀ val, Exact dst size (fun _ _ => val) (fun m => memset m dst val size) ↔
      headLength dst ≤ size.toNat) ∧
    (Exact dst size (fun _ _ => 0) (fun m => memclr m dst size) ↔ headLength dst ≤ size.toNat) := by
  refine ⟨fun src hs hdis => ⟨fun h => ?_, fun h => ?_⟩, fun val => ⟨fun h => ?_, fun h => ?_⟩,
    fun h => ?_, fun h => ?_⟩
  · have hsep := separate_of_disjoint hd hs hdis
    by_contra hno
    rw [not_or, not_le] at hno
    refine not_exact_of_overrun (m := fun x => if x = dst + size then 1 else 0) hd ?_ h
    rw [memcpy_overrun hno.2 hsep hno.1, if_pos rfl]
    decide
  · have hsep := separate_of_disjoint hd hs hdis
    rcases h with h | rfl
    · exact exact_copy hd fun m => memcpy_eq m h hsep
    · refine ⟨fun m k _ => ?_, fun m x _ => ?_⟩
      · rw [memcpy_self]
      · rw [memcpy_self]
  · by_contra hno
    refine not_exact_of_overrun (m := fun _ => val + 1) hd ?_ h
    rw [memset, fill_overrun (not_le.mp hno)]
    exact fun heq => absurd (left_eq_add.mp heq) (by decide)
  · exact exact_fill hd fun m => memset_eq m val h
  · by_contra hno
    refine not_exact_of_overrun (m := fun _ => 1) hd ?_ h
    rw [memclr, fill_overrun (not_le.mp hno)]
    decide
  · exact exact_fill hd fun m => memclr_eq m h

/-- To clear no byte at 1 clears the next seven, and then everything else. -/
theorem not_exact_memclr : ¬ Exact 1 0 (fun _ _ => 0) (fun m => memclr m 1 0) := by
  refine not_exact_of_overrun (m := fun _ => 1) (by decide) ?_
  rw [memclr, fill_overrun (by decide)]
  decide

/-- To clear a page is exact. -/
theorem exact_memclr_page : Exact 0x1000 0x1000 (fun _ _ => 0) (fun m => memclr m 0x1000 0x1000) :=
  (klib_exact_iff (by decide)).2.2.mpr (by decide)

end Bikeshed
