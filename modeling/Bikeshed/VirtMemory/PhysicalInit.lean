import Bikeshed.PhysMemory.Chunks
import Bikeshed.VirtMemory.DirectMap

/-!
# `phys_memory_init`

The memory map is the array at `MMAP_ADDRESS`. `create_paging_structures` works on memory by
physical address, everything after it on the same memory at `KERNEL_BASE`, which is modelled as if
all of it were mapped there by then.
-/

namespace Bikeshed

open Lib PhysAlloc

/-- `ALIGN_4KIB(X)` -/
def align4KIB (x : Word) : Word :=
  (x &&& 0xFFFFFFFFFFFFF000) + if 0 < (x &&& 0xFFF).toNat then 0x1000 else 0

def numPds (highestAddress : Word) : Word :=
  let numPds := (highestAddress + 0x20000000) / oneGiB
  if 1 ≤ numPds then numPds - 1 else numPds

def numPdpts (numPds : Word) : Word :=
  let numPdpts := (numPds + 1) / 512
  if 1 ≤ numPdpts then numPdpts - 1 else numPdpts

def spaceNeeded (numPds numPdpts : Word) : Word := 4096 * numPds + 4096 * numPdpts

/-- The loop over the memory map: where the paging structures go, and the map without them. -/
def findRegion (spaceNeeded : Word) : List MMapEntry → Option (Word × List MMapEntry)
  | [] => none
  | e :: mmap =>
    let base := align4KIB e.base
    let length := e.length - (base - e.base)
    if e.type ≠ typeUsable ∨ e.length < 0x1000 then
      (findRegion spaceNeeded mmap).map fun r => (r.1, e :: r.2)
    else if oneGiB ≤ base then none
    else if kernelEnd ≤ base ∧ spaceNeeded ≤ length then
      some (base, { e with base := base + spaceNeeded, length := length - spaceNeeded } :: mmap)
    else (findRegion spaceNeeded mmap).map fun r => (r.1, e :: r.2)

/-- The part before `create_paging_structures`: its argument, and the memory map that is left. -/
def placeTables (mmap : List MMapEntry) : Option (PageStructInfo × List MMapEntry) :=
  let (info, mmap) := getTotalUsableRam mmap
  let numPds := numPds info.highestAddress
  let numPdpts := numPdpts numPds
  (findRegion (spaceNeeded numPds numPdpts) mmap).map fun r => (⟨r.1, numPds, numPdpts⟩, r.2)

/-- The array at `MMAP_ADDRESS`, and memory with the variables of `phys_alloc.c`. -/
structure Boot where
  mmap : List MMapEntry
  alloc : Phys Stack

/-- Memory at `KERNEL_BASE`. -/
def virt (P : Mem) : Mem := fun x => P (virtToPhys x)

@[simp] lemma phys_virt (P : Mem) : phys (virt P) = P := by
  funext x
  rw [phys, virt, virtToPhys_physToVirt]

/-- `for (i = 0; i < n; ++i) pml4_table->entries[i] = 0` -/
def clearPml4 (pml4Table : Word) (n : ℕ) (m : Mem) : Mem :=
  (List.range n).foldl (fun m i => store64 m (pml4Table + BitVec.ofNat 64 (8 * i)) 0) m

/-- The result is what `psi` was. -/
def physMemoryInit (K : KernelTables) : Prog Boot String PageStructInfo := fun s =>
  match placeTables s.mmap with
  | none => .error "Could not allocate paging structures\n"
  | some (psi, mmap) =>
    let P := (createPagingStructures K psi (phys s.alloc.mem)).mem
    let alloc := setupPhysicalAllocator mmap { s.alloc with mem := virt P }
    .ok (psi, ⟨mmap, { alloc with mem := clearPml4 (physToVirt K.pml4) 256 alloc.mem }⟩)

variable {e e' : MMapEntry} {mmap mmap' : List MMapEntry} {base space c : Word} {a n : ℕ}

/-! ## Parts of entries -/

/-- What is usable of `e'` lies inside `e`. -/
def Part (e' e : MMapEntry) : Prop :=
  e'.type = typeUsable → e.type = typeUsable ∧ e.base.toNat ≤ e'.base.toNat ∧
    e'.base.toNat + e'.length.toNat ≤ e.base.toNat + e.length.toNat

lemma Part.refl (e : MMapEntry) : Part e e := fun hu => ⟨hu, le_rfl, le_rfl⟩

/-- What is in a part is in the entry. -/
lemma Part.has (h : Part e' e) (hu : e'.type = typeUsable) (ha : e'.Has a) : e.Has a := by
  obtain ⟨-, hlo, hhi⟩ := h hu
  exact ⟨hlo.trans ha.1, ha.2.trans_le hhi⟩

/-- What is kept of an entry is a part of it. -/
lemma keep_part (hfit : e.type = typeUsable → e.base.toNat + e.length.toNat < 2 ^ 64) :
    Part (keep e) e := by
  intro hk
  have hu := usable_of_keep hk
  have hend : (e.base + e.length).toNat = e.base.toNat + e.length.toNat := by
    rw [BitVec.toNat_add, Nat.mod_eq_of_lt (hfit hu)]
  refine ⟨hu, ?_⟩
  unfold keep
  rw [if_neg (not_not.mpr hu)]
  simp only [BitVec.lt_def, BitVec.le_def, hend]
  split
  · have hsub : (kernelStart - e.base).toNat = kernelStart.toNat - e.base.toNat :=
      BitVec.toNat_sub_of_le (by rw [BitVec.le_def]; omega)
    dsimp only
    omega
  split
  · have hsub : (e.base + e.length - kernelEnd).toNat
        = e.base.toNat + e.length.toNat - kernelEnd.toNat := by
      rw [BitVec.toNat_sub_of_le (by rw [BitVec.le_def, hend]; omega), hend]
    dsimp only
    omega
  split
  · exact ⟨le_rfl, le_rfl⟩
  · exact ⟨le_rfl, le_rfl⟩

/-- Every entry comes from one of the old map. -/
lemma exists_part (h : List.Forall₂ Part mmap' mmap) (he : e' ∈ mmap') :
    ∃ e ∈ mmap, Part e' e := by
  induction h with
  | nil => exact absurd he List.not_mem_nil
  | cons hpart _ ih =>
    rcases List.mem_cons.mp he with rfl | he
    · exact ⟨_, List.mem_cons_self, hpart⟩
    · obtain ⟨e, he, hpart⟩ := ih he
      exact ⟨e, List.mem_cons_of_mem _ he, hpart⟩

lemma Part.block_has (h : Part e' e) (hu : e'.type = typeUsable) {x : Word}
    (hx : e'.block.Has x) : e.block.Has x := h.has hu hx

/-- Parts of entries that do not overlap do not overlap. -/
lemma PhysAlloc.MapOk.of_parts (h : MapOk mmap) (hparts : List.Forall₂ Part mmap' mmap) :
    MapOk mmap' := by
  refine ⟨fun e' he' hu => ?_, ?_⟩
  · obtain ⟨e, he, hpart⟩ := exists_part hparts he'
    obtain ⟨hue, -, hend⟩ := hpart hu
    exact hend.trans (h.below e he hue)
  · have hdisjoint := h.disjoint
    clear h
    induction hparts with
    | nil => exact .nil
    | cons hpart hparts ih =>
      obtain ⟨hhead, htail⟩ := List.pairwise_cons.mp hdisjoint
      refine List.pairwise_cons.mpr ⟨fun e'' he'' hu hu'' x hx hx'' => ?_, ih htail⟩
      obtain ⟨e, he, hpart''⟩ := exists_part hparts he''
      exact hhead e he (hpart hu).1 (hpart'' hu'').1 x (hpart.block_has hu hx)
        (hpart''.block_has hu'' hx'')

/-- What is inside the new map is inside the old one. -/
lemma inside_of_parts (hparts : List.Forall₂ Part mmap' mmap) (h : Inside mmap' c n) :
    Inside mmap c n := by
  obtain ⟨e', he', hu, hlo, hhi⟩ := h
  obtain ⟨e, he, hpart⟩ := exists_part hparts he'
  obtain ⟨hue, hlo', hhi'⟩ := hpart hu
  exact ⟨e, he, hue, hlo'.trans hlo, hhi.trans hhi'⟩

/-! ## Where the tables are placed -/

lemma toNat_align4KIB {x : Word} (hx : x.toNat < 2 ^ 63) :
    (align4KIB x).toNat = (x.toNat + (2 ^ 12 - 1)) / 2 ^ 12 * 2 ^ 12 := by
  have hmask : (x &&& 0xFFF).toNat = x.toNat % 2 ^ 12 := by
    have hand : (x &&& 0xFFF).toNat = x.toNat % 2 ^ 12 / 2 ^ 0 * 2 ^ 0 :=
      toNat_and_mask 0 12 (by norm_num) (by norm_num) x
    omega
  have hbase : (x &&& 0xFFFFFFFFFFFFF000).toNat = x.toNat / 2 ^ 12 * 2 ^ 12 := toNat_mask4KIB x
  rw [align4KIB, BitVec.toNat_add, hmask, hbase]
  split
  · have h1 : (0x1000 : Word).toNat = 2 ^ 12 := rfl
    rw [h1]
    omega
  · have h0 : (0 : Word).toNat = 0 := rfl
    rw [h0]
    omega

/-- The entry that gives up its first `space` bytes, and what is left of it. -/
structure Carves (base space : Word) (e e' : MMapEntry) : Prop where
  usable : e.type = typeUsable
  type_eq : e'.type = e.type
  from_le : e.base.toNat ≤ base.toNat
  le_length : base.toNat + space.toNat ≤ e.base.toNat + e.length.toNat
  base_eq : e'.base.toNat = base.toNat + space.toNat
  end_eq : e'.base.toNat + e'.length.toNat = e.base.toNat + e.length.toNat

/-- What is left of the entry is a part of it. -/
lemma Carves.part (h : Carves base space e e') : Part e' e := by
  intro _
  have hfrom := h.from_le
  have hbase := h.base_eq
  exact ⟨h.usable, by omega, h.end_eq.le⟩

/-- What the loop finds. -/
structure Placed (base space : Word) (mmap mmap' : List MMapEntry) : Prop where
  aligned : 4096 ∣ base.toNat
  above : kernelEnd.toNat ≤ base.toNat
  below : base.toNat < oneGiB.toNat
  carves : ∃ before after e e', mmap = before ++ e :: after ∧ mmap' = before ++ e' :: after ∧
    Carves base space e e'

/-- The space is cut from the start of an entry. -/
lemma findRegion_placed (hfit : ∀ e ∈ mmap, e.type = typeUsable →
      e.base.toNat + e.length.toNat ≤ 2 ^ 47)
    (h : findRegion space mmap = some (base, mmap')) : Placed base space mmap mmap' := by
  induction mmap generalizing mmap' with
  | nil => cases h
  | cons e mmap ih =>
    have hskip : (findRegion space mmap).map (fun r => (r.1, e :: r.2)) = some (base, mmap') →
        Placed base space (e :: mmap) mmap' := by
      intro hskip
      obtain ⟨⟨base', rest⟩, hrest, heq⟩ := Option.map_eq_some_iff.mp hskip
      obtain ⟨rfl, rfl⟩ := Prod.mk.inj heq
      have hplaced := ih (fun e he => hfit e (List.mem_cons_of_mem _ he)) hrest
      obtain ⟨before, after, e1, e1', hmmap, hmmap', hcarves⟩ := hplaced.carves
      refine ⟨hplaced.aligned, hplaced.above, hplaced.below, e :: before, after, e1, e1', ?_, ?_,
        hcarves⟩
      · rw [hmmap, List.cons_append]
      · rw [hmmap', List.cons_append]
    rw [findRegion] at h
    split at h
    · exact hskip h
    rename_i hsuits
    split at h
    · cases h
    rename_i hbelow
    split at h
    · rename_i hroom
      obtain ⟨rfl, rfl⟩ := Prod.mk.inj (Option.some.inj h)
      obtain ⟨hu, hlength⟩ := not_or.mp hsuits
      have hu := not_not.mp hu
      have hend := hfit e List.mem_cons_self hu
      have halign := toNat_align4KIB (x := e.base) (by omega)
      rw [BitVec.not_lt, BitVec.le_def] at hlength
      have hpage : (0x1000 : Word).toNat = 2 ^ 12 := rfl
      have hoff : (align4KIB e.base - e.base).toNat = (align4KIB e.base).toNat - e.base.toNat :=
        BitVec.toNat_sub_of_le (by rw [BitVec.le_def]; omega)
      have hrest : (e.length - (align4KIB e.base - e.base)).toNat
          = e.length.toNat - ((align4KIB e.base).toNat - e.base.toNat) := by
        rw [BitVec.toNat_sub_of_le (by rw [BitVec.le_def, hoff]; omega), hoff]
      have hspace := BitVec.le_def.mp hroom.2
      rw [hrest] at hspace
      have hbase : (align4KIB e.base + space).toNat = (align4KIB e.base).toNat + space.toNat := by
        rw [BitVec.toNat_add, Nat.mod_eq_of_lt (by omega)]
      have hleft : (e.length - (align4KIB e.base - e.base) - space).toNat
          = e.length.toNat - ((align4KIB e.base).toNat - e.base.toNat) - space.toNat := by
        rw [BitVec.toNat_sub_of_le (by rw [BitVec.le_def, hrest]; exact hspace), hrest]
      refine ⟨by omega, BitVec.le_def.mp hroom.1, ?_, [], mmap, e, _, rfl, rfl, hu, rfl, by omega,
        by omega, hbase, ?_⟩
      · exact BitVec.lt_def.mp (BitVec.not_le.mp hbelow)
      · dsimp only
        rw [hbase, hleft]
        omega
    · exact hskip h

/-- The other entries stay. -/
lemma Placed.parts (h : Placed base space mmap mmap') : List.Forall₂ Part mmap' mmap := by
  obtain ⟨before, after, e, e', rfl, rfl, hcarves⟩ := h.carves
  have hsame : ∀ es : List MMapEntry, List.Forall₂ Part es es := fun es =>
    List.forall₂_same.mpr fun e _ => Part.refl e
  exact List.rel_append (hsame before) (.cons hcarves.part (hsame after))

end Bikeshed
