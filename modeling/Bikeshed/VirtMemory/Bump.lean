import Bikeshed.VirtMemory.Physical

/-!
# A bump allocator

The simplest allocator that meets the contract: every block starts a new 2MiB chunk, and
it panics when the memory below `2^39` is used up. `forget` says what a free does to the
list of outstanding blocks: `release` removes the block, `keep` does nothing.
-/

namespace Bikeshed

open Lib

/-- The number of the next 2MiB, and the blocks handed out -/
structure Bump where
  next : ℕ
  own : List Block

namespace Bump

/-- A block that is given back is forgotten. -/
def release : Block → List Block → List Block := fun b own => own.erase b

/-- A block that is given back stays with its owner. -/
def keep : Block → List Block → List Block := fun _ own => own

variable (forget : Block → List Block → List Block)

def alloc (n : ℕ) (b : Bump) (m : Mem) : Except String (Word × Bump × Mem) :=
  if b.next < 2 ^ 18 then
    .ok (BitVec.ofNat 64 (b.next * 2 ^ 21),
      ⟨b.next + 1, ⟨BitVec.ofNat 64 (b.next * 2 ^ 21), n⟩ :: b.own⟩, m)
  else .error "out of memory"

def allocator : PhysAllocator Bump where
  alloc4KIB := alloc 4096
  alloc2MIB := alloc (2 ^ 21)
  free4KIB p b m := .ok (⟨b.next, forget (page4KIB p) b.own⟩, m)
  free2MIB p b m := .ok (⟨b.next, forget (page2MIB p) b.own⟩, m)

/-- Blocks handed out lie below the next one. -/
structure Valid (b : Bump) : Prop where
  pos : 0 < b.next
  le : b.next ≤ 2 ^ 18
  disjoint : b.own.Pairwise Block.Disjoint
  below : ∀ c ∈ b.own, c.base.toNat + c.size ≤ b.next * 2 ^ 21

/-- Blocks are new, and their memory is as it was. -/
lemma alloc_handed {n : ℕ} {a a' : Bump} {m m' : Mem} {p : Word} (hn : n ∣ 2 ^ 21) (hv : Valid a)
    (h : alloc n a m = .ok (p, a', m')) :
    p ≠ 0 ∧ Valid a' ∧ 2 ^ 18 - a.next ≤ 2 ^ 18 - a'.next + 1 ∧
      Handed a.own a'.own (phys m) (phys m') ⟨p, n⟩ := by
  have hle : n ≤ 2 ^ 21 := Nat.le_of_dvd (by norm_num) hn
  rw [alloc] at h
  split at h
  case isFalse => cases h
  case isTrue hlt =>
    cases h
    have hpos := hv.pos
    have hbase : (BitVec.ofNat 64 (a.next * 2 ^ 21)).toNat = a.next * 2 ^ 21 :=
      toNat_ofNat_lt (by omega)
    have hfresh : ∀ c ∈ a.own, Block.Disjoint ⟨BitVec.ofNat 64 (a.next * 2 ^ 21), n⟩ c := by
      intro c hc
      right
      show c.base.toNat + c.size ≤ (BitVec.ofNat 64 (a.next * 2 ^ 21)).toNat
      rw [hbase]
      exact hv.below c hc
    refine ⟨?_, ⟨Nat.succ_pos _, hlt, List.pairwise_cons.mpr ⟨hfresh, hv.disjoint⟩, ?_⟩, ?_,
      ⟨?_, ?_, ?_, hfresh, .refl _, .refl _ _⟩⟩
    · intro h0
      rw [h0] at hbase
      simp at hbase
      omega
    · intro c hc
      rcases List.mem_cons.mp hc with rfl | hc
      · show (BitVec.ofNat 64 (a.next * 2 ^ 21)).toNat + n ≤ (a.next + 1) * 2 ^ 21
        rw [hbase]
        omega
      · exact (hv.below c hc).trans (Nat.mul_le_mul_right _ (Nat.le_succ _))
    · dsimp only
      omega
    · show n ∣ (BitVec.ofNat 64 (a.next * 2 ^ 21)).toNat
      rw [hbase]
      exact hn.mul_left _
    · show 0 < (BitVec.ofNat 64 (a.next * 2 ^ 21)).toNat
      rw [hbase]
      omega
    · show (BitVec.ofNat 64 (a.next * 2 ^ 21)).toNat + n ≤ 2 ^ 39
      rw [hbase]
      omega

/-- There is a next block. -/
lemma alloc_room {n : ℕ} {a : Bump} {m : Mem} (hv : Valid a) (h : 0 < 2 ^ 18 - a.next) :
    ∃ p a' m', p ≠ 0 ∧ alloc n a m = .ok (p, a', m') := by
  have hpos := hv.pos
  refine ⟨BitVec.ofNat 64 (a.next * 2 ^ 21), _, m, ?_, if_pos (by omega)⟩
  intro h0
  have h1 := congrArg BitVec.toNat h0
  rw [toNat_ofNat_lt (by omega)] at h1
  simp at h1
  omega

/-- The contract that both variants keep -/
def heap : PhysHeap (allocator forget) where
  own := own
  Valid b _ := Valid b
  room b := 2 ^ 18 - b.next
  disjoint hv := hv.disjoint
  stable hv _ := hv
  alloc4KIB hv h := (alloc_handed (by norm_num) hv h).2
  alloc2MIB hv h := by
    obtain ⟨hp, h1, h2, h3⟩ := alloc_handed (by norm_num) hv h
    rw [if_neg hp]
    exact ⟨h1, h2, h3⟩
  alloc4KIB_room hv h := by
    obtain ⟨p, a', m', -, hr⟩ := alloc_room hv h
    exact ⟨p, a', m', hr⟩
  alloc2MIB_room hv h := alloc_room hv h

lemma freesKeep : (heap keep).FreesKeep where
  free4KIB hv h := by
    cases h
    exact ⟨hv, .refl _, .refl _ _⟩
  free2MIB hv h := by
    cases h
    exact ⟨hv, .refl _, .refl _ _⟩

lemma returned {a : Bump} {m : Mem} {b : Block} (hv : Valid a) (hb : b ∈ a.own) :
    Valid ⟨a.next, a.own.erase b⟩ ∧
      Returned a.own (a.own.erase b) (phys m) (phys m) b :=
  ⟨⟨hv.pos, hv.le, hv.disjoint.sublist List.erase_sublist,
    fun c hc => hv.below c (List.mem_of_mem_erase hc)⟩,
    ⟨List.perm_cons_erase hb, .refl _ _⟩⟩

lemma freesReturn : (heap release).FreesReturn where
  free4KIB hv hb h := by
    cases h
    exact returned hv hb
  free2MIB hv hb h := by
    cases h
    exact returned hv hb

/-- Nothing but an empty PML4 at `0x1000`. -/
def start : Machine Bump := ⟨fun _ => 0, ⟨1, [page4KIB 0x1000]⟩, []⟩

lemma load64_zero (a : Word) : load64 (fun _ => 0) a = 0 :=
  load64_eq fun k _ => by
    apply BitVec.eq_of_getLsbD_eq
    simp

lemma valid_start : Valid start.heap := by
  refine ⟨by decide, by decide, List.pairwise_singleton _ _, fun c hc => ?_⟩
  rw [List.mem_singleton.mp hc]
  decide

end Bump

end Bikeshed
