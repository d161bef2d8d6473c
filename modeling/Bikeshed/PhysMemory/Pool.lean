import Bikeshed.Lib.Linked
import Bikeshed.PhysMemory.PhysAlloc

/-!
# One pool

`PoolView` is what the memory of a pool means: which of its pages are free and which are in
use. `PoolAt` says that memory holds such a pool. All pointers in memory are virtual
addresses, all addresses in a view are physical.
-/

namespace Bikeshed.PhysAlloc

open Lib

/-! ## Writes into a block -/

/-- Nothing outside the block has changed. -/
def Within (b : Block) (P P' : Mem) : Prop := ∀ x, ¬ b.Has x → P' x = P x

namespace Within

variable {b c : Block} {P P' P'' : Mem}

/-- Nothing has changed at all. -/
lemma refl (b : Block) (P : Mem) : Within b P P := fun _ _ => rfl

lemma trans (h : Within b P P') (h' : Within b P' P'') : Within b P P'' :=
  fun x hx => (h' x hx).trans (h x hx)

/-- The block may be taken larger. -/
lemma mono (h : Within b P P') (hbc : ∀ x, b.Has x → c.Has x) : Within c P P' :=
  fun x hx => h x fun hb => hx (hbc x hb)

/-- A disjoint block is as it was. -/
lemma agree (h : Within b P P') (hd : b.Disjoint c) : ∀ x, c.Has x → P' x = P x :=
  fun x hx => h x (hd.not_has hx)

end Within

/-! ## The record -/

/-- What is stored of a `Pool`: the six words and the byte `on_list` behind them. -/
@[ext] structure Header where
  field : PoolField → Word
  onList : Byte

def Header.set (h : Header) (f : PoolField) (v : Word) : Header :=
  { h with field := Function.update h.field f v }

@[simp] lemma Header.set_field_self (h : Header) (f : PoolField) (v : Word) :
    (h.set f v).field f = v := Function.update_self ..

lemma Header.set_field_ne (h : Header) {f g : PoolField} (v : Word) (hne : g ≠ f) :
    (h.set f v).field g = h.field g := Function.update_of_ne hne ..

@[simp] lemma Header.set_onList (h : Header) (f : PoolField) (v : Word) :
    (h.set f v).onList = h.onList := rfl

/-- The record of the pool at the physical address `c`. -/
def header (P : Mem) (c : Word) : Header where
  field f := entry P c f.slot
  onList := P (c + 48)

/-- The words take the first slots of the page. -/
lemma PoolField.slot_lt (f : PoolField) : f.slot < 6 := by cases f <;> decide

/-- Each field has its own word. -/
lemma PoolField.slot_inj {f g : PoolField} (h : f ≠ g) : f.slot ≠ g.slot := by
  cases f <;> cases g <;> first | exact absurd rfl h | decide

variable {P P' : Mem} {c : Word}

/-- A page does not wrap in its record. -/
lemma toNat_add_48 (hc : 4096 ∣ c.toNat) : (c + 48).toNat = c.toNat + 48 :=
  toNat_add_ofNat (a := c) (k := 48) (by have := add_le_of_dvd hc; omega)

/-- The record lies in the first page of the chunk. -/
lemma header_congr (hc : 4096 ∣ c.toNat) (h : ∀ x, (page4KIB c).Has x → P' x = P x) :
    header P' c = header P c := by
  have hbyte : P' (c + 48) = P (c + 48) := by
    apply h
    have h48 := toNat_add_48 hc
    constructor
    · show c.toNat ≤ (c + 48).toNat
      omega
    · show (c + 48).toNat < c.toNat + 4096
      omega
  apply Header.ext
  · funext f
    exact entry_congr hc (f.slot_lt.trans (by norm_num)) h
  · exact hbyte

/-- A word of the record is one field of the header. -/
lemma header_store64 (hc : 4096 ∣ c.toNat) (f : PoolField) (v : Word) :
    header (store64 P (c + BitVec.ofNat 64 (8 * f.slot)) v) c = (header P c).set f v := by
  have hf := f.slot_lt
  apply Header.ext
  · funext g
    have hg := g.slot_lt
    show _ = Function.update (header P c).field f v g
    rw [Function.update_apply]
    split
    · rename_i h
      rw [h]
      exact entry_store64_self P c v f.slot
    · rename_i h
      exact entry_store64_other P v hc hc (by omega) (by omega) (.inr (PoolField.slot_inj h))
  · -- the byte lies behind the six words
    have h48 := toNat_add_48 hc
    have hslot := toNat_entry_addr hc (i := f.slot) (by omega)
    apply store64_apply_of_le
    rw [BitVec.toNat_sub, h48, hslot]
    omega

/-- A byte behind a word is none of it. -/
lemma load64_store8 {a b : Word} (v : Byte) (h : 8 ≤ (b - a).toNat) :
    load64 (store8 P b v) a = load64 P a := by
  refine load64_congr fun k hk => ?_
  rw [store8, if_neg]
  intro he
  rw [← he, add_sub_toNat a (by omega)] at h
  omega

/-- The byte of the record is `on_list`. -/
lemma header_store8 (hc : 4096 ∣ c.toNat) (v : Byte) :
    header (store8 P (c + 48) v) c = { header P c with onList := v } := by
  apply Header.ext
  · funext f
    have hf := f.slot_lt
    apply load64_store8
    rw [BitVec.toNat_sub, toNat_add_48 hc, toNat_entry_addr hc (by omega)]
    have := add_le_of_dvd hc
    omega
  · exact if_pos rfl

/-- A word of the record is in the page of the record. -/
lemma within_store64 (hc : 4096 ∣ c.toNat) {k : ℕ} (hk : k < 512) (v : Word) :
    Within (page4KIB c) P (store64 P (c + BitVec.ofNat 64 (8 * k)) v) :=
  fun _ hx => entry_store64_outside P v hc hk hx

/-- So is `on_list`. -/
lemma within_store8 (hc : 4096 ∣ c.toNat) (v : Byte) :
    Within (page4KIB c) P (store8 P (c + 48) v) := by
  intro x hx
  rw [store8, if_neg]
  rintro rfl
  have h48 := toNat_add_48 hc
  apply hx
  constructor
  · show c.toNat ≤ (c + 48).toNat
    omega
  · show (c + 48).toNat < c.toNat + 4096
    omega

/-! ## The accesses of the code -/

section Accesses

variable {σ : Type} (s : Phys σ) (f : PoolField) (v : Word) (b : Byte)

/-- Reading a field through the pointer of the code -/
lemma field_eq : s.field (physToVirt c) f = entry (phys s.mem) c f.slot := by
  rw [Phys.field, entry, phys_load64, physToVirt_add]

/-- Reading `on_list` through it -/
lemma onList_eq : s.onList (physToVirt c) = (header (phys s.mem) c).onList := by
  unfold Phys.onList load8
  rw [physToVirt_add]
  rfl

/-- Writing a field through it -/
lemma phys_setField : phys (s.setField (physToVirt c) f v).mem
    = store64 (phys s.mem) (c + BitVec.ofNat 64 (8 * f.slot)) v := by
  unfold Phys.setField
  rw [physToVirt_add, phys_store64]

/-- Writing `on_list` through it -/
lemma phys_setOnList :
    phys (s.setOnList (physToVirt c) b).mem = store8 (phys s.mem) (c + 48) b := by
  unfold Phys.setOnList
  rw [physToVirt_add, phys_store8]

/-- `s'` differs from `s` in the pool record at `c`, which is now `h`. -/
structure Sets (c : Word) (h : Header) (s s' : Phys σ) : Prop where
  header : header (phys s'.mem) c = h
  within : Within (page4KIB c) (phys s.mem) (phys s'.mem)
  chunks : s'.chunks = s.chunks
  pool4KIB : s'.pool4KIB = s.pool4KIB

variable {s f v b} {s' : Phys σ} {h : Header}

lemma Sets.refl (c : Word) (s : Phys σ) : Sets c (PhysAlloc.header (phys s.mem) c) s s :=
  ⟨rfl, .refl _ _, rfl, rfl⟩

/-- One assignment of the code is one update of the header. -/
lemma Sets.setField (hs : Sets c h s s') (hc : 4096 ∣ c.toNat) (f : PoolField) (v : Word) :
    Sets c (h.set f v) s (s'.setField (physToVirt c) f v) := by
  have hf := f.slot_lt
  constructor
  · rw [phys_setField, header_store64 hc, hs.header]
  · rw [phys_setField]
    exact hs.within.trans (within_store64 hc (by omega) v)
  · rw [Phys.setField_chunks, hs.chunks]
  · rw [Phys.setField_pool4KIB, hs.pool4KIB]

/-- The same for `on_list` -/
lemma Sets.setOnList (hs : Sets c h s s') (hc : 4096 ∣ c.toNat) (b : Byte) :
    Sets c { h with onList := b } s (s'.setOnList (physToVirt c) b) := by
  constructor
  · rw [phys_setOnList, header_store8 hc, hs.header]
  · rw [phys_setOnList]
    exact hs.within.trans (within_store8 hc b)
  · rw [Phys.setOnList_chunks, hs.chunks]
  · rw [Phys.setOnList_pool4KIB, hs.pool4KIB]

/-- The record of a pool from which nothing has been handed out. -/
def newHeader (c : Word) : Header where
  field
    | .size => 0
    | .top => 0
    | .implicitNext => physToVirt c + 0x1000
    | .maxAddress => physToVirt c + 0x200000
    | .next => 0
    | .prev => 0
  onList := 0

/-- `pool_init` fills in the whole record. -/
lemma sets_poolInit (hc : 4096 ∣ c.toNat) (s : Phys σ) :
    Sets c (newHeader c) s (poolInit (physToVirt c) s) := by
  have h := (((((Sets.refl c s).setField hc .size 0).setField hc .top 0).setField hc .implicitNext
    (physToVirt c + 0x1000)).setField hc .maxAddress (physToVirt c + 0x200000))
  have h' := ((h.setField hc .next 0).setField hc .prev 0).setOnList hc 0
  have hset : ∀ h0 : Header, { ((((((h0.set .size 0).set .top 0).set .implicitNext
      (physToVirt c + 0x1000)).set .maxAddress (physToVirt c + 0x200000)).set .next 0).set .prev 0)
      with onList := 0 } = newHeader c := by
    intro h0
    apply Header.ext
    · funext f
      cases f <;> rfl
    · rfl
  rw [hset] at h'
  exact h'

end Accesses

/-! ## Views -/

/-- A pool by the pages it still has and those it has handed out -/
structure PoolView where
  base : Word
  free : List Word
  used : List Word
  /-- How many pages have been handed out in order. -/
  bump : ℕ

namespace PoolView

/-- The page that `implicit_next` hands out after `i` others. -/
def page (p : PoolView) (i : ℕ) : Word := p.base + BitVec.ofNat 64 (4096 * (i + 1))

/-- The pages that `implicit_next` has handed out -/
def pages (p : PoolView) : List Word := (List.range p.bump).map p.page

/-- Every page of the pool is in use. -/
def isEmpty (p : PoolView) : Prop := p.free = [] ∧ p.bump = 511

instance (p : PoolView) : Decidable p.isEmpty := inferInstanceAs (Decidable (_ ∧ _))

/-- A page handed out, and the pool after that. -/
def take (p : PoolView) : Option (Word × PoolView) :=
  match p.free with
  | a :: free => some (a, { p with free := free, used := a :: p.used })
  | [] =>
    if p.bump < 511 then
      some (p.page p.bump, { p with used := p.page p.bump :: p.used, bump := p.bump + 1 })
    else none

/-- The pool after the page `a` has been given back. -/
def give (p : PoolView) (a : Word) : PoolView :=
  { p with free := a :: p.free, used := p.used.erase a }

@[simp] lemma give_base (p : PoolView) (a : Word) : (p.give a).base = p.base := rfl

/-- The pages handed out in order are the free ones and the ones in use. The chunk ends below
`2 ^ 47`: the pointer to its end is not NULL. -/
structure Sound (p : PoolView) : Prop where
  aligned : 2 ^ 21 ∣ p.base.toNat
  below : p.base.toNat + 2 ^ 21 < 2 ^ 47
  bump : p.bump ≤ 511
  pages : (p.free ++ p.used).Perm p.pages

variable {p q : PoolView} {a b : Word}

/-- Pages do not wrap. -/
lemma toNat_page (h : p.base.toNat + 2 ^ 21 < 2 ^ 47) {i : ℕ} (hi : i < 512) :
    (p.page i).toNat = p.base.toNat + 4096 * (i + 1) := by
  have hle : p.base.toNat + 4096 * (i + 1) ≤ p.base.toNat + 2 ^ 21 := by omega
  exact toNat_add_ofNat (hle.trans_lt (h.trans (by norm_num)))

/-- `implicit_next` moves to the next page. -/
lemma page_succ (p : PoolView) (i : ℕ) : p.page i + 0x1000 = p.page (i + 1) := by
  unfold page
  rw [show 4096 * (i + 1 + 1) = 4096 * (i + 1) + 4096 by ring, BitVec.ofNat_add, ← add_assoc]
  rfl

/-- The two ways of handing out a page. -/
lemma take_cases (h : p.take = some (a, q)) :
    (∃ free, p.free = a :: free ∧ q = ⟨p.base, free, a :: p.used, p.bump⟩) ∨
    (p.free = [] ∧ p.bump < 511 ∧ a = p.page p.bump ∧
      q = ⟨p.base, [], a :: p.used, p.bump + 1⟩) := by
  unfold take at h
  split at h
  · rename_i f fs hfree
    rw [Option.some.injEq, Prod.mk.injEq] at h
    obtain ⟨rfl, rfl⟩ := h
    exact .inl ⟨fs, hfree, rfl⟩
  · rename_i hfree
    split at h
    · rename_i hlt
      rw [Option.some.injEq, Prod.mk.injEq] at h
      obtain ⟨rfl, rfl⟩ := h
      refine .inr ⟨hfree, hlt, rfl, ?_⟩
      rw [hfree]
    · cases h

/-- A pool to which nothing has been given back -/
lemma take_fresh (c : Word) (used : List Word) {n : ℕ} (h : n < 511) :
    (⟨c, [], used, n⟩ : PoolView).take
      = some (page ⟨c, [], used, n⟩ n, ⟨c, [], page ⟨c, [], used, n⟩ n :: used, n + 1⟩) :=
  if_pos h

lemma take_base (h : p.take = some (a, q)) : q.base = p.base := by
  rcases take_cases h with ⟨_, -, rfl⟩ | ⟨-, -, -, rfl⟩ <;> rfl

/-- What is handed out is in use from then on. -/
lemma take_used (h : p.take = some (a, q)) : q.used = a :: p.used := by
  rcases take_cases h with ⟨_, -, rfl⟩ | ⟨-, -, -, rfl⟩ <;> rfl

/-- A pool that is not empty has a page. -/
lemma take_isSome (h : ¬ p.isEmpty) (hb : p.bump ≤ 511) : ∃ a q, p.take = some (a, q) := by
  unfold take
  split
  · exact ⟨_, _, rfl⟩
  · rename_i hfree
    rw [if_pos]
    · exact ⟨_, _, rfl⟩
    · by_contra hlt
      exact h ⟨hfree, by omega⟩

namespace Sound

/-- A chunk starts at a page. -/
lemma page_aligned (h : p.Sound) : 4096 ∣ p.base.toNat := dvd_trans (by norm_num) h.aligned

/-- Every page has been handed out by `implicit_next` once. -/
lemma mem_page (h : p.Sound) (ha : a ∈ p.free ++ p.used) : ∃ i < p.bump, a = p.page i := by
  obtain ⟨i, hi, rfl⟩ := List.mem_map.mp (h.pages.mem_iff.mp ha)
  exact ⟨i, List.mem_range.mp hi, rfl⟩

/-- Where a page of the pool lies. -/
lemma toNat_mem (h : p.Sound) (ha : a ∈ p.free ++ p.used) :
    4096 ∣ a.toNat ∧ p.base.toNat + 4096 ≤ a.toNat ∧ a.toNat + 4096 ≤ p.base.toNat + 2 ^ 21 := by
  obtain ⟨i, hi, rfl⟩ := h.mem_page ha
  have hb := h.bump
  rw [toNat_page h.below (by omega)]
  refine ⟨?_, by omega, by omega⟩
  exact Nat.dvd_add h.page_aligned (Nat.dvd_mul_right _ _)

/-- No page is there twice. -/
lemma nodup (h : p.Sound) : (p.free ++ p.used).Nodup := by
  rw [h.pages.nodup_iff]
  refine List.Nodup.map_on (fun i hi j hj he => ?_) List.nodup_range
  have hb := h.bump
  rw [List.mem_range] at hi hj
  have hi' := toNat_page h.below (i := i) (by omega)
  have hj' := toNat_page h.below (i := j) (by omega)
  rw [he, hj'] at hi'
  omega

/-- Each page handed out in order is free or in use. -/
lemma length (h : p.Sound) : p.free.length + p.used.length = p.bump := by
  have hlen := h.pages.length_eq
  rw [List.length_append, PoolView.pages, List.length_map, List.length_range] at hlen
  exact hlen

/-- Distinct pages of a pool are disjoint blocks, and all are apart from the record. -/
lemma disjoint (h : p.Sound) (ha : a ∈ p.free ++ p.used) (hb : b ∈ p.free ++ p.used)
    (hne : a ≠ b) : (page4KIB a).Disjoint (page4KIB b) :=
  Block.disjoint_of_dvd (h.toNat_mem ha).1 (h.toNat_mem hb).1 hne

/-- The record is in front of all pages. -/
lemma record_disjoint (h : p.Sound) (ha : a ∈ p.free ++ p.used) :
    (page4KIB p.base).Disjoint (page4KIB a) :=
  .inl (h.toNat_mem ha).2.1

/-- The pages lie in the chunk. -/
lemma has_of_page (h : p.Sound) (ha : a ∈ p.free ++ p.used) {x : Word} (hx : (page4KIB a).Has x) :
    (page2MIB p.base).Has x := by
  obtain ⟨-, h1, h2⟩ := h.toNat_mem ha
  obtain ⟨h3, h4⟩ := hx
  dsimp only at h3 h4
  exact ⟨by show p.base.toNat ≤ _; omega, by show _ < p.base.toNat + 2 ^ 21; omega⟩

/-- Taking a page keeps the pool sound. -/
lemma take (h : p.Sound) (ht : p.take = some (a, q)) : q.Sound := by
  have hb := h.bump
  have hp := h.pages
  rcases take_cases ht with ⟨fs, hfree, rfl⟩ | ⟨hfree, hlt, rfl, rfl⟩
  · refine ⟨h.aligned, h.below, hb, ?_⟩
    rw [hfree, List.cons_append] at hp
    exact List.perm_middle.trans hp
  · refine ⟨h.aligned, h.below, hlt, ?_⟩
    rw [hfree, List.nil_append] at hp
    show (p.page p.bump :: p.used).Perm ((List.range (p.bump + 1)).map p.page)
    rw [List.range_succ, List.map_append, List.map_singleton]
    exact (hp.cons _).trans (List.perm_append_singleton _ _).symm

/-- So does giving one back that is in use. -/
lemma give (h : p.Sound) (ha : a ∈ p.used) : (p.give a).Sound := by
  refine ⟨h.aligned, h.below, h.bump, ?_⟩
  show (a :: p.free ++ p.used.erase a).Perm p.pages
  calc (a :: p.free ++ p.used.erase a).Perm (p.free ++ a :: p.used.erase a) :=
        List.perm_middle.symm
    _ |>.Perm (p.free ++ p.used) := (List.perm_cons_erase ha).symm.append_left _
    _ |>.Perm p.pages := h.pages

end Sound

end PoolView

end Bikeshed.PhysAlloc
