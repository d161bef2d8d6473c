import Bikeshed.Lib.Word
import Mathlib.Tactic.IntervalCases

/-!
# Flat byte memory

Memory is a total function from 64-bit addresses to bytes. `load64`/`store64` are the
little-endian 8-byte accesses; address arithmetic wraps modulo `2^64`, as pointers do.
`fill` and `copy` describe what a whole range looks like after it has been cleared or
copied over; loops that do so byte by byte or word by word are proved equal to them.

An access at `a` meets an address `x` exactly when `(x - a).toNat < 8`, so two accesses
are separate when neither start lies within 8 bytes above the other (`Apart`).
-/

namespace Bikeshed.Lib

/-- A memory has a byte at every address. -/
abbrev Mem := Word → Byte

def load8 (m : Mem) (a : Word) : Byte := m a

def store8 (m : Mem) (a : Word) (v : Byte) : Mem :=
  fun x => if x = a then v else m x

/-- The byte at `a + k`, moved to its place in a little-endian word. -/
def byteAt (m : Mem) (a : Word) (k : ℕ) : Word :=
  (m (a + BitVec.ofNat 64 k)).setWidth 64 <<< (8 * k)

/-- Words are stored with the low byte first, at any alignment. -/
def load64 (m : Mem) (a : Word) : Word :=
  byteAt m a 0 ||| byteAt m a 1 ||| byteAt m a 2 ||| byteAt m a 3 |||
    byteAt m a 4 ||| byteAt m a 5 ||| byteAt m a 6 ||| byteAt m a 7

def store64 (m : Mem) (a v : Word) : Mem :=
  fun x => if (x - a).toNat < 8 then v.extractLsb' (8 * (x - a).toNat) 8 else m x

/-- The first `n` bytes from `p` all hold `v`. -/
def fill (m : Mem) (p : Word) (n : ℕ) (v : Byte) : Mem :=
  fun x => if (x - p).toNat < n then v else m x

/-- The first `n` bytes from `dst` hold what `m` has at `src`. -/
def copy (m : Mem) (dst src : Word) (n : ℕ) : Mem :=
  fun x => if (x - dst).toNat < n then m (src + (x - dst)) else m x

/-! ## A word and its bytes -/

/-- The distance from `a` to the `k`-th byte after it -/
lemma add_sub_toNat (a : Word) {k : ℕ} (hk : k < 2 ^ 64) :
    (a + BitVec.ofNat 64 k - a).toNat = k := by
  rw [add_sub_cancel_left, toNat_ofNat_lt hk]

lemma getLsbD_byteAt (m : Mem) (a : Word) {j i : ℕ} (k : ℕ) (hi : i < 8) (hj : j < 8) :
    (byteAt m a k).getLsbD (8 * j + i)
      = (decide (j = k) && (m (a + BitVec.ofNat 64 k)).getLsbD i) := by
  rw [byteAt, BitVec.getLsbD_shiftLeft, BitVec.getLsbD_setWidth]
  have hlt : 8 * j + i < 64 := by omega
  rcases Nat.lt_trichotomy j k with h | h | h
  · have h1 : 8 * j + i < 8 * k := by omega
    simp [h1, show j ≠ k by omega]
  · subst h
    simp [hlt, show i < 64 by omega]
  · have h1 : (m (a + BitVec.ofNat 64 k)).getLsbD (8 * j + i - 8 * k) = false :=
      BitVec.getLsbD_of_ge _ _ (by omega)
    simp [h1, show j ≠ k by omega]

/-- A byte of the word that is loaded -/
lemma extractLsb'_load64 (m : Mem) (a : Word) {k : ℕ} (hk : k < 8) :
    (load64 m a).extractLsb' (8 * k) 8 = m (a + BitVec.ofNat 64 k) := by
  apply BitVec.eq_of_getLsbD_eq
  intro i hi
  simp only [BitVec.getLsbD_extractLsb', hi, decide_true, Bool.true_and, load64,
    BitVec.getLsbD_or, getLsbD_byteAt m a _ hi hk]
  interval_cases k <;> simp

/-- A word is read off as soon as its eight bytes are known. -/
lemma load64_eq {m : Mem} {a v : Word}
    (h : ∀ k : ℕ, k < 8 → m (a + BitVec.ofNat 64 k) = v.extractLsb' (8 * k) 8) :
    load64 m a = v := by
  apply BitVec.eq_of_getLsbD_eq
  intro i hi
  have hk : i / 8 < 8 := by omega
  have hb := (extractLsb'_load64 m a hk).trans (h _ hk)
  have hbit := congrArg (fun b : Byte => b.getLsbD (i % 8)) hb
  simp only [BitVec.getLsbD_extractLsb', Nat.mod_lt i (show 0 < 8 by norm_num), decide_true,
    Bool.true_and, Nat.div_add_mod] at hbit
  exact hbit

/-- A load depends on its eight bytes. -/
lemma load64_congr {m m' : Mem} {a b : Word}
    (h : ∀ k : ℕ, k < 8 → m (a + BitVec.ofNat 64 k) = m' (b + BitVec.ofNat 64 k)) :
    load64 m a = load64 m' b :=
  load64_eq fun k hk => by rw [h k hk, extractLsb'_load64 m' b hk]

/-! ## Stores -/

/-- A byte that is stored to -/
lemma store64_apply_self (m : Mem) (a v : Word) {k : ℕ} (hk : k < 8) :
    store64 m a v (a + BitVec.ofNat 64 k) = v.extractLsb' (8 * k) 8 := by
  rw [store64, add_sub_toNat a (by omega), if_pos hk]

/-- A byte that is not stored to -/
lemma store64_apply_of_le (m : Mem) (a v : Word) {x : Word} (h : 8 ≤ (x - a).toNat) :
    store64 m a v x = m x := by
  rw [store64, if_neg (by omega)]

@[simp] lemma load64_store64_self (m : Mem) (a v : Word) : load64 (store64 m a v) a = v :=
  load64_eq fun _ hk => store64_apply_self m a v hk

/-- The second store wins. -/
lemma store64_store64_self (m : Mem) (a v w : Word) :
    store64 (store64 m a v) a w = store64 m a w := by
  funext x
  simp only [store64]
  split <;> rfl

/-- Two 8-byte accesses that share no byte. -/
def Apart (a b : Word) : Prop := 8 ≤ (a - b).toNat ∧ 8 ≤ (b - a).toNat

lemma Apart.symm {a b : Word} (h : Apart a b) : Apart b a := ⟨h.2, h.1⟩

/-- Two words one behind the other -/
lemma apart_of_le {a b : Word} (h : a.toNat + 8 ≤ b.toNat) (hb : b.toNat + 8 ≤ 2 ^ 64) :
    Apart a b := by
  unfold Apart
  rw [BitVec.toNat_sub, BitVec.toNat_sub]
  omega

lemma Apart.not_mem {a b : Word} (h : Apart a b) {k : ℕ} (hk : k < 8) :
    8 ≤ (a + BitVec.ofNat 64 k - b).toNat := by
  obtain ⟨h1, h2⟩ := h
  rw [BitVec.toNat_sub] at h1 h2 ⊢
  rw [BitVec.toNat_add, BitVec.toNat_ofNat]
  have ha := a.isLt
  have hb := b.isLt
  omega

/-- A store next to the word does not change it. -/
lemma load64_store64_apart (m : Mem) {a b : Word} (v : Word) (h : Apart a b) :
    load64 (store64 m b v) a = load64 m a :=
  load64_congr fun _ hk => store64_apply_of_le m b v (h.not_mem hk)

-- the bytes of an access are reached through the lemmas above only
attribute [irreducible] load64 store64

end Bikeshed.Lib
