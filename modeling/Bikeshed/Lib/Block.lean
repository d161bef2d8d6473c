import Bikeshed.Lib.Memory

/-!
# Address blocks

A `Block` is a range of addresses that does not wrap. `AgreeOn bs m m'` is the frame
condition of an operation that leaves the blocks `bs` alone.
-/

namespace Bikeshed.Lib

/-- The addresses from `base` on, `size` bytes -/
structure Block where
  base : Word
  size : ℕ
deriving DecidableEq

namespace Block

/-- The address `x` lies in the block. -/
def Has (b : Block) (x : Word) : Prop :=
  b.base.toNat ≤ x.toNat ∧ x.toNat < b.base.toNat + b.size

/-- One block ends before the other begins. -/
def Disjoint (b c : Block) : Prop :=
  b.base.toNat + b.size ≤ c.base.toNat ∨ c.base.toNat + c.size ≤ b.base.toNat

instance (b : Block) (x : Word) : Decidable (b.Has x) := inferInstanceAs (Decidable (_ ∧ _))
instance (b c : Block) : Decidable (b.Disjoint c) := inferInstanceAs (Decidable (_ ∨ _))

lemma Disjoint.symm {b c : Block} (h : b.Disjoint c) : c.Disjoint b := Or.symm h

/-- An address lies in one of two disjoint blocks at most. -/
lemma Disjoint.not_has {b c : Block} (h : b.Disjoint c) {x : Word} (hx : c.Has x) :
    ¬ b.Has x := by
  rintro ⟨h1, h2⟩
  obtain ⟨h3, h4⟩ := hx
  rcases h with h | h <;> omega

lemma Disjoint.ne {b c : Block} (h : b.Disjoint c) (hb : 0 < b.size) : b ≠ c := by
  rintro rfl
  rcases h with h | h <;> omega

/-- Blocks of one size that start at multiples of it are disjoint or start together. -/
lemma disjoint_of_dvd {a b : Word} {n : ℕ} (ha : n ∣ a.toNat) (hb : n ∣ b.toNat) (hne : a ≠ b) :
    Disjoint ⟨a, n⟩ ⟨b, n⟩ := by
  obtain ⟨c, hc⟩ := ha
  obtain ⟨d, hd⟩ := hb
  have hcd : c ≠ d := by
    rintro rfl
    exact hne (word_ext (hc.trans hd.symm))
  rcases Nat.lt_or_gt_of_ne hcd with h | h
  · left
    show a.toNat + n ≤ b.toNat
    calc a.toNat + n = n * (c + 1) := by rw [hc]; ring
      _ ≤ n * d := Nat.mul_le_mul_left n h
      _ = b.toNat := hd.symm
  · right
    show b.toNat + n ≤ a.toNat
    calc b.toNat + n = n * (d + 1) := by rw [hd]; ring
      _ ≤ n * c := Nat.mul_le_mul_left n h
      _ = a.toNat := hc.symm

end Block

/-! ## Frame conditions -/

/-- The memories have the same bytes in the blocks. -/
def AgreeOn (bs : List Block) (m m' : Mem) : Prop :=
  ∀ b ∈ bs, ∀ x, b.Has x → m' x = m x

namespace AgreeOn

variable {bs cs : List Block} {m m' m'' : Mem}

@[simp] lemma refl (bs : List Block) (m : Mem) : AgreeOn bs m m := fun _ _ _ _ => rfl

lemma trans (h : AgreeOn bs m m') (h' : AgreeOn bs m' m'') : AgreeOn bs m m'' :=
  fun b hb x hx => (h' b hb x hx).trans (h b hb x hx)

lemma symm (h : AgreeOn bs m m') : AgreeOn bs m' m := fun b hb x hx => (h b hb x hx).symm

lemma mono (h : AgreeOn bs m m') (hs : ∀ c ∈ cs, c ∈ bs) : AgreeOn cs m m' :=
  fun c hc => h c (hs c hc)

end AgreeOn

/-- Every address of `b` lies in one of the blocks. -/
def Covered (bs : List Block) (b : Block) : Prop := ∀ x, b.Has x → ∃ c ∈ bs, c.Has x

namespace Covered

variable {bs cs : List Block} {b d : Block} {m m' : Mem}

/-- A block of the list itself -/
lemma of_mem (h : b ∈ bs) : Covered bs b := fun _ hx => ⟨b, h, hx⟩

lemma mono (h : Covered bs b) (hs : ∀ c ∈ bs, c ∈ cs) : Covered cs b := fun x hx => by
  obtain ⟨c, hc, hcx⟩ := h x hx
  exact ⟨c, hs c hc, hcx⟩

/-- Memories that agree on the blocks agree on what they cover. -/
lemma agreeOn (h : ∀ c ∈ cs, Covered bs c) (hagree : AgreeOn bs m m') : AgreeOn cs m m' := by
  intro c hc x hx
  obtain ⟨b, hb, hbx⟩ := h c hc x hx
  exact hagree b hb x hbx

lemma agree (h : Covered bs b) (hagree : AgreeOn bs m m') {x : Word} (hx : b.Has x) :
    m' x = m x := by
  obtain ⟨c, hc, hcx⟩ := h x hx
  exact hagree c hc x hcx

/-- What is disjoint from all of `bs` is disjoint from what they cover. -/
lemma disjoint (h : Covered bs b) (hd : ∀ c ∈ bs, d.Disjoint c) (hb : 0 < b.size)
    (hpos : 0 < d.size) : d.Disjoint b := by
  by_contra hno
  rw [Block.Disjoint, not_or, not_le, not_le] at hno
  -- the later of the two bases lies in both blocks
  obtain ⟨x, hdx, hbx⟩ : ∃ x, d.Has x ∧ b.Has x := by
    rcases le_total d.base.toNat b.base.toNat with hle | hle
    · exact ⟨b.base, ⟨hle, hno.1⟩, le_rfl, by omega⟩
    · exact ⟨d.base, ⟨le_rfl, by omega⟩, hle, hno.2⟩
  obtain ⟨c, hc, hcx⟩ := h x hbx
  exact (hd c hc).not_has hcx hdx

end Covered

/-- Writing inside a block disjoint from all of `bs` leaves them alone. -/
lemma agreeOn_of_outside {bs : List Block} {m m' : Mem} (c : Block)
    (hout : ∀ x, ¬ c.Has x → m' x = m x) (hd : ∀ b ∈ bs, c.Disjoint b) : AgreeOn bs m m' :=
  fun b hb _ hx => hout _ ((hd b hb).not_has hx)

/-! ## The three kinds of writes, seen from outside the written block -/

/-- The offset of an address of a block -/
lemma sub_toNat_lt_of_le {x a : Word} {n : ℕ} (h1 : a.toNat ≤ x.toNat)
    (h2 : x.toNat < a.toNat + n) : (x - a).toNat < n := by
  rw [BitVec.toNat_sub]
  have := x.isLt
  have := a.isLt
  omega

/-- And back: a block does not wrap. -/
lemma le_of_sub_toNat_lt {x a : Word} {n : ℕ} (hn : a.toNat + n ≤ 2 ^ 64)
    (h : (x - a).toNat < n) : a.toNat ≤ x.toNat ∧ x.toNat < a.toNat + n := by
  rw [BitVec.toNat_sub] at h
  have := x.isLt
  have := a.isLt
  omega

/-- A word in the block is stored to. -/
lemma store64_outside (m : Mem) {a v x : Word} (b : Block)
    (ha : b.base.toNat ≤ a.toNat) (hb : a.toNat + 8 ≤ b.base.toNat + b.size)
    (hw : a.toNat + 8 ≤ 2 ^ 64) (hx : ¬ b.Has x) : store64 m a v x = m x := by
  rw [store64]
  split
  · rename_i h
    obtain ⟨h1, h2⟩ := le_of_sub_toNat_lt hw h
    exact absurd ⟨by omega, by omega⟩ hx
  · rfl

/-- A fill writes its block only. -/
lemma fill_outside (m : Mem) {p x : Word} {n : ℕ} {v : Byte} (hw : p.toNat + n ≤ 2 ^ 64)
    (hx : ¬ (Block.mk p n).Has x) : fill m p n v x = m x := by
  rw [fill]
  split
  · rename_i h
    exact absurd (le_of_sub_toNat_lt hw h) hx
  · rfl

lemma fill_inside (m : Mem) {p x : Word} {n : ℕ} {v : Byte} (hx : (Block.mk p n).Has x) :
    fill m p n v x = v := by
  rw [fill, if_pos (sub_toNat_lt_of_le hx.1 hx.2)]

/-- So does a copy. -/
lemma copy_outside (m : Mem) {dst src x : Word} {n : ℕ} (hw : dst.toNat + n ≤ 2 ^ 64)
    (hx : ¬ (Block.mk dst n).Has x) : copy m dst src n x = m x := by
  rw [copy]
  split
  · rename_i h
    exact absurd (le_of_sub_toNat_lt hw h) hx
  · rfl

end Bikeshed.Lib
