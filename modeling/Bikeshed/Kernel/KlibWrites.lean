import Bikeshed.Kernel.KlibExact

/-!
# What `memclr` and `memcpy` write, and how they count

The bytes that the three loops write, in order, and what `size` is whenever something is taken from
it. If it starts out large enough for the first loop, the bytes are those of the range and the
counter does not wrap.
-/

namespace Bikeshed

open Lib

variable {dst size : Word}

/-- The addresses of the `n` bytes from `p` -/
def addresses (p : Word) (n : ℕ) : List Word := (List.range n).map fun k => p + BitVec.ofNat 64 k

/-- The addresses of the bytes that the loops write. -/
def blockWrites (dst size : Word) : List Word :=
  blockLoop (fun off ws => ws ++ addresses (dst + off) 1)
    (fun off ws => ws ++ addresses (dst + off) 8) [] dst size

/-- The counter and what is taken from it, at each `--size` of the first loop. -/
def headCounts (dst : Word) : ℕ → Word → Word → List (Word × Word)
  | 0, _, _ => []
  | fuel + 1, off, size =>
    if (dst + off) &&& 0x7 ≠ 0 then (size, 1) :: headCounts dst fuel (off + 1) (size - 1) else []

/-- At each `size -= 8` -/
def wordCounts (size : Word) : List (Word × Word) :=
  if h : 8 ≤ size.toNat then (size, 8) :: wordCounts (size - 8) else []
termination_by size.toNat
decreasing_by
  rw [toNat_sub_eight h]
  omega

/-- At each `--size` of the last loop -/
def tailCounts (size : Word) : List (Word × Word) :=
  if h : 0 < size.toNat then (size, 1) :: tailCounts (size - 1) else []
termination_by size.toNat
decreasing_by
  rw [toNat_pred h]
  omega

/-- Every decrement of `size` in the three loops: its value, and what is taken off -/
def blockCounts (dst size : Word) : List (Word × Word) :=
  let (_, off1, size1) := blockHead (fun _ s => s) dst 8 () 0 size
  let (_, _, size2) := blockWords (fun _ s => s) () off1 size1
  headCounts dst 8 0 size ++ wordCounts size1 ++ tailCounts size2

/-- The counter stays at or above zero. -/
def NeverWraps (dst size : Word) : Prop := ∀ c ∈ blockCounts dst size, c.2.toNat ≤ c.1.toNat

/-! ## The bytes -/

/-- A block in two parts -/
lemma addresses_add (p : Word) (a b : ℕ) :
    addresses p (a + b) = addresses p a ++ addresses (p + BitVec.ofNat 64 a) b := by
  rw [addresses, List.range_add, List.map_append, List.map_map]
  refine congrArg _ (List.map_congr_left fun k _ => ?_)
  rw [Function.comp_apply, BitVec.ofNat_add, add_assoc]

/-- The addresses of a block that does not wrap around memory -/
lemma mem_addresses {p x : Word} {n : ℕ} (hn : n ≤ 2 ^ 64) :
    x ∈ addresses p n ↔ (x - p).toNat < n := by
  rw [addresses, List.mem_map]
  constructor
  · rintro ⟨k, hk, rfl⟩
    have hk := List.mem_range.mp hk
    rwa [Lib.add_sub_toNat p (by omega)]
  · intro h
    refine ⟨(x - p).toNat, List.mem_range.mpr h, ?_⟩
    rw [BitVec.ofNat_toNat, BitVec.setWidth_eq, add_sub_cancel]

/-- Every byte of the range is written once, and no other. -/
theorem blockWrites_eq (h : headLength dst ≤ size.toNat) :
    blockWrites dst size = addresses dst size.toNat :=
  blockLoop_eq _ _ (addresses dst) h (fun a _ => (addresses_add dst a 1).symm)
    fun a _ => (addresses_add dst a 8).symm

section Rel

variable {σ τ : Type} {put8 put64 : Word → σ → σ} {put8' put64' : Word → τ → τ} {R : σ → τ → Prop}

/-- Loops with related stores have related results. -/
lemma blockHead_rel (h8 : ∀ off s t, R s t → R (put8 off s) (put8' off t)) :
    ∀ (fuel : ℕ) {s : σ} {t : τ} (off size : Word), R s t →
      R (blockHead put8 dst fuel s off size).1 (blockHead put8' dst fuel t off size).1 ∧
        (blockHead put8 dst fuel s off size).2 = (blockHead put8' dst fuel t off size).2
  | 0, _, _, _, _, h => ⟨h, rfl⟩
  | fuel + 1, s, t, off, size, h => by
    unfold blockHead
    split
    · exact blockHead_rel h8 fuel _ _ (h8 off s t h)
    · exact ⟨h, rfl⟩

lemma blockWords_rel (h64 : ∀ off s t, R s t → R (put64 off s) (put64' off t)) {s : σ} {t : τ}
    (off size : Word) (h : R s t) :
    R (blockWords put64 s off size).1 (blockWords put64' t off size).1 ∧
      (blockWords put64 s off size).2 = (blockWords put64' t off size).2 := by
  rw [blockWords.eq_def put64, blockWords.eq_def put64']
  split
  · exact blockWords_rel h64 (off + 8) (size - 8) (h64 off s t h)
  · exact ⟨h, rfl⟩
termination_by size.toNat
decreasing_by
  rw [toNat_sub_eight (by assumption)]
  omega

lemma blockTail_rel (h8 : ∀ off s t, R s t → R (put8 off s) (put8' off t)) {s : σ} {t : τ}
    (off size : Word) (h : R s t) :
    R (blockTail put8 s off size) (blockTail put8' t off size) := by
  rw [blockTail.eq_def put8, blockTail.eq_def put8']
  split
  · exact blockTail_rel h8 (off + 1) (size - 1) (h8 off s t h)
  · exact h
termination_by size.toNat
decreasing_by
  rw [toNat_pred (by assumption)]
  omega

/-- Two states that are related byte by byte and word by word. -/
lemma blockLoop_rel (h8 : ∀ off s t, R s t → R (put8 off s) (put8' off t))
    (h64 : ∀ off s t, R s t → R (put64 off s) (put64' off t)) {s : σ} {t : τ}
    (dst size : Word) (h : R s t) :
    R (blockLoop put8 put64 s dst size) (blockLoop put8' put64' t dst size) := by
  obtain ⟨h1, he1⟩ : R (blockHead put8 dst 8 s 0 size).1 (blockHead put8' dst 8 t 0 size).1 ∧
      (blockHead put8 dst 8 s 0 size).2 = (blockHead put8' dst 8 t 0 size).2 :=
    blockHead_rel h8 8 0 size h
  unfold blockLoop
  generalize blockHead put8 dst 8 s 0 size = r at h1 he1 ⊢
  generalize blockHead put8' dst 8 t 0 size = r' at h1 he1 ⊢
  obtain ⟨s1, off1, size1⟩ := r
  obtain ⟨t1, _⟩ := r'
  subst he1
  obtain ⟨h2, he2⟩ := blockWords_rel h64 off1 size1 h1
  dsimp only
  generalize blockWords put64 s1 off1 size1 = q at h2 he2 ⊢
  generalize blockWords put64' t1 off1 size1 = q' at h2 he2 ⊢
  obtain ⟨s2, off2, size2⟩ := q
  obtain ⟨t2, _⟩ := q'
  subst he2
  exact blockTail_rel h8 off2 size2 h2

end Rel

/-! ## Nothing else is written -/

section Frame

variable {m m' : Mem} {ws : List Word}

/-- `m'` differs from `m` at the addresses `ws` at most. -/
def ChangedAt (m m' : Mem) (ws : List Word) : Prop := ∀ x, x ∉ ws → m' x = m x

/-- Changes of both steps -/
lemma ChangedAt.trans {m'' : Mem} {vs : List Word} (h : ChangedAt m m' ws)
    (h' : ChangedAt m' m'' vs) : ChangedAt m m'' (ws ++ vs) := by
  intro x hx
  rw [List.mem_append, not_or] at hx
  exact (h' x hx.2).trans (h x hx.1)

lemma changedAt_store8 (m : Mem) (a : Word) (v : Byte) :
    ChangedAt m (store8 m a v) (addresses a 1) := by
  intro x hx
  rw [mem_addresses (by norm_num)] at hx
  exact store8_frame (by omega)

lemma changedAt_store64 (m : Mem) (a v : Word) : ChangedAt m (store64 m a v) (addresses a 8) := by
  intro x hx
  rw [mem_addresses (by norm_num)] at hx
  exact store64_frame (by omega)

/-- `memclr` changes what the loops store to. -/
lemma changedAt_memclr (m : Mem) (ptr size : Word) :
    ChangedAt m (memclr m ptr size) (blockWrites ptr size) :=
  blockLoop_rel (R := ChangedAt m) (fun off m' _ h => h.trans (changedAt_store8 m' (ptr + off) 0))
    (fun off m' _ h => h.trans (changedAt_store64 m' (ptr + off) 0)) ptr size fun _ _ => rfl

/-- So does `memcpy`. -/
lemma changedAt_memcpy (m : Mem) (dst src size : Word) :
    ChangedAt m (memcpy m dst src size) (blockWrites dst size) :=
  blockLoop_rel (R := ChangedAt m)
    (fun off m' _ h => h.trans (changedAt_store8 m' (dst + off) (load8 m' (src + off))))
    (fun off m' _ h => h.trans (changedAt_store64 m' (dst + off) (load64 m' (src + off))))
    dst size fun _ _ => rfl

end Frame

/-! ## The counter -/

/-- The counter never wraps in the first loop. -/
lemma headCounts_le : ∀ (fuel : ℕ) (off size : Word), headLength (dst + off) ≤ size.toNat →
    ∀ c ∈ headCounts dst fuel off size, c.2.toNat ≤ c.1.toNat
  | 0, _, _, _, c, hc => absurd hc List.not_mem_nil
  | fuel + 1, off, size, h, c, hc => by
    rw [headCounts] at hc
    split at hc
    · rename_i hne
      rw [and_seven_ne_zero] at hne
      have hsucc := headLength_succ hne
      have hpos : 0 < size.toNat := by omega
      rcases List.mem_cons.mp hc with rfl | hc
      · exact hpos
      · refine headCounts_le fuel (off + 1) (size - 1) ?_ c hc
        rw [toNat_pred hpos, ← add_assoc]
        omega
    · exact absurd hc List.not_mem_nil

/-- Nor does it in the second, -/
lemma wordCounts_le (size : Word) : ∀ c ∈ wordCounts size, c.2.toNat ≤ c.1.toNat := by
  intro c hc
  rw [wordCounts] at hc
  split at hc
  · rename_i h
    rcases List.mem_cons.mp hc with rfl | hc
    · exact h
    · exact wordCounts_le (size - 8) c hc
  · exact absurd hc List.not_mem_nil
termination_by size.toNat
decreasing_by
  rw [toNat_sub_eight (by assumption)]
  omega

/-- nor in the third. -/
lemma tailCounts_le (size : Word) : ∀ c ∈ tailCounts size, c.2.toNat ≤ c.1.toNat := by
  intro c hc
  rw [tailCounts] at hc
  split at hc
  · rename_i h
    rcases List.mem_cons.mp hc with rfl | hc
    · exact h
    · exact tailCounts_le (size - 1) c hc
  · exact absurd hc List.not_mem_nil
termination_by size.toNat
decreasing_by
  rw [toNat_pred (by assumption)]
  omega

/-- Only the first loop can make it wrap. -/
theorem neverWraps (h : headLength dst ≤ size.toNat) : NeverWraps dst size := by
  intro c hc
  rcases List.mem_append.mp hc with hc | hc
  · rcases List.mem_append.mp hc with hc | hc
    · exact headCounts_le 8 0 size (by simpa using h) c hc
    · exact wordCounts_le _ c hc
  · exact tailCounts_le _ c hc

end Bikeshed
