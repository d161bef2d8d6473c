import Bikeshed.Kernel.Klib
import Bikeshed.Lib.Wp
import Bikeshed.Lib.PageTreeStore

/-!
# Physical memory, and the allocator the paging code runs on

The kernel reaches physical address `x` at `physToVirt x`; `phys m` is memory seen by
physical address, which is what the processor's page walk reads.

The paging code is modelled over any page allocator. `PhysHeap` says what it may rely on:
the blocks handed out and not given back (`own`) are aligned, below `2^39` and disjoint,
and neither the allocator nor its client writes into the other's memory. What the frees
do is a separate assumption, `FreesReturn` or `FreesKeep`: a table that maps memory the
allocator never handed out can only be promised the second.
-/

namespace Bikeshed

open Lib

def kernelBase : Word := 0xFFFF800000000000

/-- `PHYS_TO_VIRT(X)` -/
def physToVirt (x : Word) : Word := x + kernelBase

/-- `VIRT_TO_PHYS(X)` -/
def virtToPhys (x : Word) : Word := x - kernelBase

/-- `MASK_2MIB(X)` -/
def mask2MIB (x : Word) : Word := x &&& 0xFFFFFFFFFFE00000

/-- `MASK_4KIB(X)` -/
def mask4KIB (x : Word) : Word := x &&& 0xFFFFFFFFFFFFF000

lemma toNat_mask2MIB (x : Word) : (mask2MIB x).toNat = x.toNat / 2 ^ 21 * 2 ^ 21 := by
  have h : (mask2MIB x).toNat = x.toNat % 2 ^ 64 / 2 ^ 21 * 2 ^ 21 :=
    toNat_and_mask 21 64 (by norm_num) (by norm_num) x
  rw [h, Nat.mod_eq_of_lt x.isLt]

lemma toNat_mask4KIB (x : Word) : (mask4KIB x).toNat = x.toNat / 2 ^ 12 * 2 ^ 12 := by
  have h : (mask4KIB x).toNat = x.toNat % 2 ^ 64 / 2 ^ 12 * 2 ^ 12 :=
    toNat_and_mask 12 64 (by norm_num) (by norm_num) x
  rw [h, Nat.mod_eq_of_lt x.isLt]

@[simp] lemma virtToPhys_physToVirt (x : Word) : virtToPhys (physToVirt x) = x :=
  add_sub_cancel_right x kernelBase

@[simp] lemma physToVirt_virtToPhys (x : Word) : physToVirt (virtToPhys x) = x :=
  sub_add_cancel x kernelBase

lemma physToVirt_add (x k : Word) : physToVirt x + k = physToVirt (x + k) :=
  add_right_comm x kernelBase k

lemma physToVirt_sub (x y : Word) : physToVirt x - physToVirt y = x - y :=
  add_sub_add_right_eq_sub x y kernelBase

/-- Memory by physical address. -/
def phys (m : Mem) : Mem := fun x => m (physToVirt x)

lemma phys_load64 (m : Mem) (a : Word) : load64 (phys m) a = load64 m (physToVirt a) :=
  load64_congr fun k _ => by rw [phys, physToVirt_add]

lemma physToVirt_injective : Function.Injective physToVirt := fun _ _ h => add_right_cancel h

lemma phys_store8 (m : Mem) (a : Word) (v : Byte) :
    phys (store8 m (physToVirt a) v) = store8 (phys m) a v := by
  funext x
  simp only [phys, store8, physToVirt_injective.eq_iff]

lemma phys_store64 (m : Mem) (a v : Word) :
    phys (store64 m (physToVirt a) v) = store64 (phys m) a v := by
  funext x
  simp only [phys, store64, physToVirt_sub]

lemma phys_fill (m : Mem) (p : Word) (n : ℕ) (v : Byte) :
    phys (fill m (physToVirt p) n v) = fill (phys m) p n v := by
  funext x
  simp only [phys, fill, physToVirt_sub]

lemma phys_copy (m : Mem) (d s : Word) (n : ℕ) :
    phys (copy m (physToVirt d) (physToVirt s) n) = copy (phys m) d s n := by
  funext x
  simp only [phys, copy, physToVirt_sub, physToVirt_add]

/-! ## The machine -/

/-- What the kernel's run is asked about afterwards. -/
inductive Event where
  | read (table : Word)
  | alloc4KIB (page : Word)
  | alloc2MIB (page : Word)
  | free4KIB (page : Word)
  | free2MIB (page : Word)
deriving DecidableEq

/-- The functions of `phys_alloc.h`, over the allocator's own variables `α` and memory. -/
structure PhysAllocator (α : Type) where
  alloc4KIB : α → Mem → Except String (Word × α × Mem)
  alloc2MIB : α → Mem → Except String (Word × α × Mem)
  free4KIB : Word → α → Mem → Except String (α × Mem)
  free2MIB : Word → α → Mem → Except String (α × Mem)

structure Machine (α : Type) where
  mem : Mem
  heap : α
  log : List Event

/-- Kernel code that may `panic` with a message. -/
abbrev Kern (α β : Type) := Prog (Machine α) String β

variable {α : Type}

def physAlloc4KIB (A : PhysAllocator α) : Kern α Word := fun s =>
  match A.alloc4KIB s.heap s.mem with
  | .ok (p, a, m) => .ok (p, ⟨m, a, s.log ++ [.alloc4KIB p]⟩)
  | .error e => .error e

def physAlloc2MIB (A : PhysAllocator α) : Kern α Word := fun s =>
  match A.alloc2MIB s.heap s.mem with
  | .ok (p, a, m) => .ok (p, ⟨m, a, s.log ++ [.alloc2MIB p]⟩)
  | .error e => .error e

def physFree4KIB (A : PhysAllocator α) (p : Word) : Kern α Unit := fun s =>
  match A.free4KIB p s.heap s.mem with
  | .ok (a, m) => .ok ((), ⟨m, a, s.log ++ [.free4KIB p]⟩)
  | .error e => .error e

def physFree2MIB (A : PhysAllocator α) (p : Word) : Kern α Unit := fun s =>
  match A.free2MIB p s.heap s.mem with
  | .ok (a, m) => .ok ((), ⟨m, a, s.log ++ [.free2MIB p]⟩)
  | .error e => .error e

/-- `table->entries[i]`, where `table` is a virtual address. -/
def loadEntry (table : Word) (i : ℕ) : Kern α Word := fun s =>
  .ok (load64 s.mem (table + BitVec.ofNat 64 (8 * i)),
    { s with log := s.log ++ [.read (virtToPhys table)] })

/-- `table->entries[i] = e` -/
def storeEntry (table : Word) (i : ℕ) (e : Word) : Kern α Unit := fun s =>
  .ok ((), { s with mem := store64 s.mem (table + BitVec.ofNat 64 (8 * i)) e })

def modifyMem (f : Mem → Mem) : Kern α Unit := fun s => .ok ((), { s with mem := f s.mem })

/-! ## What the allocator promises -/

abbrev page4KIB (p : Word) : Block := ⟨p, 4096⟩

abbrev page2MIB (p : Word) : Block := ⟨p, 2 ^ 21⟩

/-- `b` was not outstanding and now is, and nothing outstanding was written. -/
structure Handed (own own' : List Block) (P P' : Mem) (b : Block) : Prop where
  aligned : b.size ∣ b.base.toNat
  pos : 0 < b.base.toNat
  below : b.base.toNat + b.size ≤ 2 ^ 39
  fresh : ∀ c ∈ own, b.Disjoint c
  outstanding : own'.Perm (b :: own)
  agree : AgreeOn own P P'

/-- `b` is no longer outstanding, and nothing that still is was written. -/
structure Returned (own own' : List Block) (P P' : Mem) (b : Block) : Prop where
  outstanding : own.Perm (b :: own')
  agree : AgreeOn own' P P'

structure PhysHeap (A : PhysAllocator α) where
  /-- The blocks handed out and not given back, the kernel image's included. -/
  own : α → List Block
  /-- The allocator's bookkeeping is sound. -/
  Valid : α → Mem → Prop
  /-- A number of blocks that can still be handed out. -/
  room : α → ℕ
  disjoint {a : α} {m : Mem} : Valid a m → (own a).Pairwise Block.Disjoint
  /-- The bookkeeping is not kept in blocks handed out. -/
  stable {a : α} {m m' : Mem} : Valid a m →
    (∀ x, (∀ b ∈ own a, ¬ b.Has x) → phys m' x = phys m x) → Valid a m'
  alloc4KIB {a a' : α} {m m' : Mem} {p : Word} : Valid a m →
    A.alloc4KIB a m = .ok (p, a', m') → Valid a' m' ∧ room a ≤ room a' + 1 ∧
      Handed (own a) (own a') (phys m) (phys m') (page4KIB p)
  alloc2MIB {a a' : α} {m m' : Mem} {p : Word} : Valid a m →
    A.alloc2MIB a m = .ok (p, a', m') → Valid a' m' ∧ room a ≤ room a' + 1 ∧
      if p = 0 then (own a').Perm (own a) ∧ AgreeOn (own a) (phys m) (phys m')
      else Handed (own a) (own a') (phys m) (phys m') (page2MIB p)
  alloc4KIB_room {a : α} {m : Mem} : Valid a m → 0 < room a →
    ∃ p a' m', A.alloc4KIB a m = .ok (p, a', m')
  alloc2MIB_room {a : α} {m : Mem} : Valid a m → 0 < room a →
    ∃ p a' m', p ≠ 0 ∧ A.alloc2MIB a m = .ok (p, a', m')

namespace PhysHeap

variable {A : PhysAllocator α}

/-- The frees give outstanding blocks back. -/
structure FreesReturn (H : PhysHeap A) : Prop where
  free4KIB {a a' : α} {m m' : Mem} {p : Word} : H.Valid a m → page4KIB p ∈ H.own a →
    A.free4KIB p a m = .ok (a', m') →
    H.Valid a' m' ∧ Returned (H.own a) (H.own a') (phys m) (phys m') (page4KIB p)
  free2MIB {a a' : α} {m m' : Mem} {p : Word} : H.Valid a m → page2MIB p ∈ H.own a →
    A.free2MIB p a m = .ok (a', m') →
    H.Valid a' m' ∧ Returned (H.own a) (H.own a') (phys m) (phys m') (page2MIB p)

/-- The frees take no block of `own` out of use and write into none. -/
structure FreesKeep (H : PhysHeap A) : Prop where
  free4KIB {a a' : α} {m m' : Mem} {p : Word} : H.Valid a m →
    A.free4KIB p a m = .ok (a', m') →
    H.Valid a' m' ∧ (H.own a').Perm (H.own a) ∧ AgreeOn (H.own a) (phys m) (phys m')
  free2MIB {a a' : α} {m m' : Mem} {p : Word} : H.Valid a m →
    A.free2MIB p a m = .ok (a', m') →
    H.Valid a' m' ∧ (H.own a').Perm (H.own a) ∧ AgreeOn (H.own a) (phys m) (phys m')

end PhysHeap

/-! ## Rules for the primitives -/

section Rules

variable {A : PhysAllocator α} {E : String → Prop} {s : Machine α}

@[simp] lemma wp_loadEntry {t : Word} {i : ℕ} {Q : Word → Machine α → Prop} :
    wp (loadEntry (physToVirt t) i) Q E s
      ↔ Q (entry (phys s.mem) t i) { s with log := s.log ++ [.read t] } := by
  rw [entry, phys_load64, ← physToVirt_add, wp, loadEntry, virtToPhys_physToVirt]

@[simp] lemma wp_storeEntry {t e : Word} {i : ℕ} {Q : Unit → Machine α → Prop} :
    wp (storeEntry t i e) Q E s
      ↔ Q () { s with mem := store64 s.mem (t + BitVec.ofNat 64 (8 * i)) e } := Iff.rfl

@[simp] lemma wp_modifyMem {f : Mem → Mem} {Q : Unit → Machine α → Prop} :
    wp (modifyMem f) Q E s ↔ Q () { s with mem := f s.mem } := Iff.rfl

/-- Either panics are allowed or `n` more blocks can be handed out. -/
def Supplied (H : PhysHeap A) (E : String → Prop) (n : ℕ) (a : α) : Prop :=
  (∀ e, E e) ∨ n ≤ H.room a

lemma Supplied.mono {H : PhysHeap A} {n k : ℕ} {a : α} (h : Supplied H E n a) (hk : k ≤ n) :
    Supplied H E k a := h.imp_right hk.trans

/-- What is left of the supply after at most `k` blocks have been handed out. -/
lemma Supplied.next {H : PhysHeap A} {n k : ℕ} {a a' : α} (h : Supplied H E (n + k) a)
    (hr : H.room a ≤ H.room a' + k) : Supplied H E n a' := by
  rcases h with h | h
  · exact .inl h
  · exact .inr (by omega)

variable (H : PhysHeap A)

lemma wp_physAlloc4KIB {Q : Word → Machine α → Prop} (hv : H.Valid s.heap s.mem)
    (hE : Supplied H E 1 s.heap)
    (hQ : ∀ p s', H.Valid s'.heap s'.mem → H.room s.heap ≤ H.room s'.heap + 1 →
      Handed (H.own s.heap) (H.own s'.heap) (phys s.mem) (phys s'.mem) (page4KIB p) →
      s'.log = s.log ++ [.alloc4KIB p] → Q p s') :
    wp (physAlloc4KIB A) Q E s := by
  rw [wp, physAlloc4KIB]
  cases h : A.alloc4KIB s.heap s.mem with
  | ok r =>
    obtain ⟨p, a, m⟩ := r
    obtain ⟨h1, h2, h3⟩ := H.alloc4KIB hv h
    exact hQ p _ h1 h2 h3 rfl
  | error e =>
    rcases hE with hE | hE
    · exact hE e
    · obtain ⟨p, a, m, hr⟩ := H.alloc4KIB_room hv hE
      rw [hr] at h
      cases h

/-- The NULL case only arises when panics are allowed. -/
lemma wp_physAlloc2MIB {Q : Word → Machine α → Prop} (hv : H.Valid s.heap s.mem)
    (hE : Supplied H E 1 s.heap)
    (hnull : (∀ e, E e) → ∀ s', H.Valid s'.heap s'.mem → (H.own s'.heap).Perm (H.own s.heap) →
      AgreeOn (H.own s.heap) (phys s.mem) (phys s'.mem) → Q 0 s')
    (hQ : ∀ p s', p ≠ 0 → H.Valid s'.heap s'.mem → H.room s.heap ≤ H.room s'.heap + 1 →
      Handed (H.own s.heap) (H.own s'.heap) (phys s.mem) (phys s'.mem) (page2MIB p) →
      s'.log = s.log ++ [.alloc2MIB p] → Q p s') :
    wp (physAlloc2MIB A) Q E s := by
  rw [wp, physAlloc2MIB]
  cases h : A.alloc2MIB s.heap s.mem with
  | ok r =>
    obtain ⟨p, a, m⟩ := r
    obtain ⟨h1, h2, h3⟩ := H.alloc2MIB hv h
    by_cases hp : p = 0
    · subst hp
      rw [if_pos rfl] at h3
      rcases hE with hE | hE
      · exact hnull hE _ h1 h3.1 h3.2
      · obtain ⟨q, a', m', hq, hr⟩ := H.alloc2MIB_room hv hE
        rw [hr] at h
        cases h
        exact absurd rfl hq
    · rw [if_neg hp] at h3
      exact hQ p _ hp h1 h2 h3 rfl
  | error e =>
    rcases hE with hE | hE
    · exact hE e
    · obtain ⟨p, a, m, -, hr⟩ := H.alloc2MIB_room hv hE
      rw [hr] at h
      cases h

end Rules

end Bikeshed
