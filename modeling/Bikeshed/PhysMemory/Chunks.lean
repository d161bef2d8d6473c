import Bikeshed.Kernel.StackTheorems
import Bikeshed.PhysMemory.PhysAlloc

/-!
# The 2MiB chunks of the memory map

`setup_physical_allocator` pushes the aligned chunks of every usable entry onto `stack_2MIB`:
`mapChunks map` are these chunks. With entries that do not overlap they are disjoint, and each
lies inside one of the entries.
-/

namespace Bikeshed.PhysAlloc

open Lib

variable {m m' : Mem} {size top base length c : Word} {n : ℕ} {cs nodes : List Word}
  {x : Stack × Mem} {e : MMapEntry} {map : List MMapEntry}

/-! ## The stack of chunks -/

/-- The chunks on `stack_2MIB`, by physical address. -/
def ChunkStack (x : Stack × Mem) (nodes : List Word) : Prop :=
  StackAt physToVirt x.2 x.1.size x.1.top nodes

/-- The first words of different chunks -/
lemma apart_of_chunks {b c : Word} (hb : 2 ^ 21 ∣ b.toNat) (hc : 2 ^ 21 ∣ c.toNat) (hne : b ≠ c) :
    Apart (physToVirt b) (physToVirt c) := by
  unfold Apart
  rw [physToVirt_sub, physToVirt_sub, BitVec.toNat_sub, BitVec.toNat_sub]
  have hne' : b.toNat ≠ c.toNat := fun h => hne (word_ext h)
  have h1 := b.isLt
  have h2 := c.isLt
  omega

/-- The two stores of `stack_push` -/
lemma stackPush_2MIB (h : ChunkStack x nodes) (node : Word) :
    stackPush stack2MIB node x = (⟨x.1.size + 1, node⟩, store64 x.2 node x.1.top) :=
  stackPush_eq h.top_eq_zero rfl

/-- A chunk that is not on the stack is pushed. -/
lemma ChunkStack.push (h : ChunkStack x nodes) (hlen : nodes.length + 1 < 2 ^ 64)
    (hc : 2 ^ 21 ∣ c.toNat) (hnodes : ∀ b ∈ nodes, 2 ^ 21 ∣ b.toNat) (hnew : c ∉ nodes) :
    ChunkStack (stackPush stack2MIB (physToVirt c) x) (c :: nodes) := by
  rw [stackPush_2MIB h]
  exact StackAt.push h hlen fun b hb => apart_of_chunks (hnodes b hb) hc fun he => hnew (he ▸ hb)

/-- `base + 2MiB * i` for all `i < n`. -/
def chunksFrom (base : Word) : ℕ → List Word
  | 0 => []
  | n + 1 => base :: chunksFrom (base + 0x200000) n

/-- Pushing the chunks of a list, the first one first -/
def pushAll (cs : List Word) (x : Stack × Mem) : Stack × Mem :=
  cs.foldl (fun x c => stackPush stack2MIB (physToVirt c) x) x

lemma pushChunks_eq (base length : Word) (x : Stack × Mem) :
    pushChunks base length x = pushAll (chunksFrom base (length.toNat / 0x200000)) x := by
  fun_induction pushChunks base length x with
  | case1 base length x h ih =>
    have hdiv : length.toNat / 0x200000 = (length - 0x200000).toNat / 0x200000 + 1 := by
      rw [toNat_sub_chunk h]
      omega
    rw [ih, hdiv]
    simp only [chunksFrom, pushAll, List.foldl_cons, physToVirt]
  | case2 base length x h =>
    rw [Nat.div_eq_of_lt (by omega)]
    rfl

/-- The chunks of one entry. -/
def entryChunks (e : MMapEntry) : List Word :=
  if e.type ≠ typeUsable then []
  else if e.length.toNat < 0x200000 then []
  else chunksFrom (align2MIB e.base)
    ((e.length - (align2MIB e.base - e.base)).toNat / 0x200000)

/-- An entry is pushed chunk by chunk. -/
lemma setupEntry_eq (x : Stack × Mem) (e : MMapEntry) :
    setupEntry x e = pushAll (entryChunks e) x := by
  unfold setupEntry entryChunks
  split
  · rfl
  split
  · rfl
  dsimp only
  split
  · rename_i h
    rw [Nat.div_eq_of_lt h]
    rfl
  · exact pushChunks_eq _ _ _

/-- The chunks of all entries -/
def mapChunks (map : List MMapEntry) : List Word := map.flatMap entryChunks

/-- The whole map is pushed chunk by chunk. -/
lemma foldl_setupEntry (map : List MMapEntry) (x : Stack × Mem) :
    map.foldl setupEntry x = pushAll (mapChunks map) x := by
  induction map generalizing x with
  | nil => rfl
  | cons e map ih =>
    have hcons : mapChunks (e :: map) = entryChunks e ++ mapChunks map := List.flatMap_cons
    rw [List.foldl_cons, ih, setupEntry_eq, hcons]
    exact (List.foldl_append ..).symm

/-- Pushing chunks one after the other; the last one ends up on top. -/
lemma ChunkStack.pushAll (h : ChunkStack x nodes) (hlen : cs.length + nodes.length < 2 ^ 64)
    (hdvd : ∀ c ∈ cs ++ nodes, 2 ^ 21 ∣ c.toNat) (hnd : (cs ++ nodes).Nodup) :
    ChunkStack (pushAll cs x) (cs.reverse ++ nodes) := by
  induction cs generalizing x nodes with
  | nil => exact h
  | cons c cs ih =>
    rw [List.reverse_cons, List.append_assoc, List.singleton_append]
    rw [List.cons_append] at hdvd hnd
    have hperm : (c :: (cs ++ nodes)).Perm (cs ++ c :: nodes) := List.perm_middle.symm
    have hnew := (List.nodup_cons.mp hnd).1
    rw [List.length_cons] at hlen
    refine ih (h.push (by omega) (hdvd c List.mem_cons_self) (fun b hb => hdvd b ?_) ?_) ?_ ?_ ?_
    · exact List.mem_cons_of_mem _ (List.mem_append_right _ hb)
    · exact fun hb => hnew (List.mem_append_right _ hb)
    · rw [List.length_cons]
      omega
    · exact fun b hb => hdvd b (hperm.mem_iff.mpr hb)
    · exact hperm.nodup_iff.mp hnd

/-! ## Where the chunks lie -/

/-- The aligned chunks between two addresses -/
lemma mem_chunksFrom (h : base.toNat + n * 2 ^ 21 < 2 ^ 64) (hdvd : 2 ^ 21 ∣ base.toNat) :
    c ∈ chunksFrom base n ↔ 2 ^ 21 ∣ c.toNat ∧ base.toNat ≤ c.toNat ∧
      c.toNat + 2 ^ 21 ≤ base.toNat + n * 2 ^ 21 := by
  induction n generalizing base with
  | zero =>
    rw [chunksFrom]
    exact iff_of_false List.not_mem_nil (by omega)
  | succ n ih =>
    have hlt : base.toNat + 0x200000 < 2 ^ 64 := by omega
    have hnext : (base + 0x200000).toNat = base.toNat + 2 ^ 21 := toNat_add_ofNat hlt
    rw [chunksFrom, List.mem_cons, ih (by omega) (by omega), hnext]
    constructor
    · rintro (rfl | hc)
      · omega
      · omega
    · rintro ⟨hc, hle, hge⟩
      by_cases he : c = base
      · exact .inl he
      · have hne : c.toNat ≠ base.toNat := fun h => he (word_ext h)
        exact .inr (by omega)

/-- Each of them once -/
lemma nodup_chunksFrom (h : base.toNat + n * 2 ^ 21 < 2 ^ 64) (hdvd : 2 ^ 21 ∣ base.toNat) :
    (chunksFrom base n).Nodup := by
  induction n generalizing base with
  | zero => exact List.nodup_nil
  | succ n ih =>
    have hlt : base.toNat + 0x200000 < 2 ^ 64 := by omega
    have hnext : (base + 0x200000).toNat = base.toNat + 2 ^ 21 := toNat_add_ofNat hlt
    have hle : (base + 0x200000).toNat + n * 2 ^ 21 < 2 ^ 64 := by omega
    have hdvd' : 2 ^ 21 ∣ (base + 0x200000).toNat := by omega
    rw [chunksFrom, List.nodup_cons, mem_chunksFrom hle hdvd']
    exact ⟨by omega, ih hle hdvd'⟩

lemma toNat_align2MIB (h : e.base.toNat < 2 ^ 47) :
    (align2MIB e.base).toNat = (e.base.toNat + (2 ^ 21 - 1)) / 2 ^ 21 * 2 ^ 21 := by
  have hmask : (e.base &&& 0x1FFFFF).toNat = e.base.toNat % 2 ^ 21 := by
    have hand : (e.base &&& 0x1FFFFF).toNat = e.base.toNat % 2 ^ 21 / 2 ^ 0 * 2 ^ 0 :=
      toNat_and_mask 0 21 (by norm_num) (by norm_num) e.base
    omega
  have hbase : (e.base &&& 0xFFFFFFFFFFE00000).toNat = e.base.toNat / 2 ^ 21 * 2 ^ 21 :=
    toNat_mask2MIB e.base
  rw [align2MIB, BitVec.toNat_add, hmask, hbase]
  split
  · have h2 : (0x200000 : Word).toNat = 2 ^ 21 := rfl
    rw [h2]
    omega
  · have h0 : (0 : Word).toNat = 0 := rfl
    rw [h0]
    omega

/-- An entry of usable memory that ends below `2 ^ 47`. -/
structure UsableEntry (e : MMapEntry) : Prop where
  usable : e.type = typeUsable
  below : e.base.toNat + e.length.toNat ≤ 2 ^ 47

/-- What is left of an entry behind its first aligned address. -/
lemma toNat_rest (h : UsableEntry e) (hlen : 0x200000 ≤ e.length.toNat) :
    (align2MIB e.base).toNat = (e.base.toNat + (2 ^ 21 - 1)) / 2 ^ 21 * 2 ^ 21 ∧
      (e.length - (align2MIB e.base - e.base)).toNat
        = e.length.toNat - ((align2MIB e.base).toNat - e.base.toNat) := by
  have hbelow := h.below
  have halign := toNat_align2MIB (e := e) (by omega)
  have hoff : (align2MIB e.base - e.base).toNat = (align2MIB e.base).toNat - e.base.toNat :=
    BitVec.toNat_sub_of_le (by rw [BitVec.le_def]; omega)
  refine ⟨halign, ?_⟩
  rw [BitVec.toNat_sub_of_le (by rw [BitVec.le_def, hoff]; omega), hoff]

/-- All 2MiB ranges on the 2MiB grid that lie inside the entry. -/
lemma mem_entryChunks (h : UsableEntry e) :
    c ∈ entryChunks e ↔ 2 ^ 21 ∣ c.toNat ∧ e.base.toNat ≤ c.toNat ∧
      c.toNat + 2 ^ 21 ≤ e.base.toNat + e.length.toNat := by
  have hbelow := h.below
  rw [entryChunks, if_neg (not_not.mpr h.usable)]
  split
  · exact iff_of_false List.not_mem_nil (by omega)
  · rename_i hlen
    obtain ⟨halign, hrest⟩ := toNat_rest h (by omega)
    rw [hrest, mem_chunksFrom (by omega) (by omega)]
    omega

lemma nodup_entryChunks (h : UsableEntry e) : (entryChunks e).Nodup := by
  have hbelow := h.below
  rw [entryChunks, if_neg (not_not.mpr h.usable)]
  split
  · exact List.nodup_nil
  · rename_i hlen
    obtain ⟨halign, hrest⟩ := toNat_rest h (by omega)
    exact nodup_chunksFrom (by rw [hrest]; omega) (by omega)

/-- Other entries have no chunks. -/
lemma entryChunks_unusable (h : e.type ≠ typeUsable) : entryChunks e = [] := by
  rw [entryChunks, if_pos h]

/-! ## The map -/

def MMapEntry.block (e : MMapEntry) : Block := ⟨e.base, e.length.toNat⟩

/-- What the BIOS promises of the memory map. -/
structure MapOk (map : List MMapEntry) : Prop where
  below : ∀ e ∈ map, e.type = typeUsable → e.base.toNat + e.length.toNat ≤ 2 ^ 47
  disjoint : map.Pairwise fun e e' => e.type = typeUsable → e'.type = typeUsable →
    ∀ x, e.block.Has x → ¬ e'.block.Has x

lemma MapOk.entry (h : MapOk map) (he : e ∈ map) (hu : e.type = typeUsable) : UsableEntry e :=
  ⟨hu, h.below e he hu⟩

/-- The block of `n` bytes at `a` lies inside one usable entry of the map. -/
def Inside (map : List MMapEntry) (a : Word) (n : ℕ) : Prop :=
  ∃ e ∈ map, e.type = typeUsable ∧ e.base.toNat ≤ a.toNat ∧
    a.toNat + n ≤ e.base.toNat + e.length.toNat

/-- The chunks are all the ranges on the 2MiB grid that lie inside a usable entry. -/
lemma mem_mapChunks_of_below
    (h : ∀ e ∈ map, e.type = typeUsable → e.base.toNat + e.length.toNat ≤ 2 ^ 47) :
    c ∈ mapChunks map ↔ 2 ^ 21 ∣ c.toNat ∧ Inside map c (2 ^ 21) := by
  rw [mapChunks, List.mem_flatMap]
  constructor
  · rintro ⟨e, he, hc⟩
    by_cases hu : e.type = typeUsable
    · rw [mem_entryChunks ⟨hu, h e he hu⟩] at hc
      exact ⟨hc.1, e, he, hu, hc.2⟩
    · rw [entryChunks_unusable hu] at hc
      exact absurd hc List.not_mem_nil
  · rintro ⟨hdvd, e, he, hu, hin⟩
    exact ⟨e, he, (mem_entryChunks ⟨hu, h e he hu⟩).mpr ⟨hdvd, hin⟩⟩

/-- The chunks of the map are those inside its usable memory. -/
theorem mem_mapChunks (h : MapOk map) :
    c ∈ mapChunks map ↔ 2 ^ 21 ∣ c.toNat ∧ Inside map c (2 ^ 21) :=
  mem_mapChunks_of_below h.below

/-- No chunk is in two entries. -/
theorem nodup_mapChunks (h : MapOk map) : (mapChunks map).Nodup := by
  rw [mapChunks, List.nodup_flatMap]
  constructor
  · intro e he
    by_cases hu : e.type = typeUsable
    · exact nodup_entryChunks (h.entry he hu)
    · rw [entryChunks_unusable hu]
      exact List.nodup_nil
  · refine h.disjoint.imp_of_mem fun {e e'} he he' hd => ?_
    refine List.disjoint_left.mpr ?_
    intro c hc hc'
    by_cases hu : e.type = typeUsable
    · by_cases hu' : e'.type = typeUsable
      · rw [mem_entryChunks (h.entry he hu)] at hc
        rw [mem_entryChunks (h.entry he' hu')] at hc'
        refine hd hu hu' c ⟨hc.2.1, ?_⟩ ⟨hc'.2.1, ?_⟩
        · show c.toNat < e.base.toNat + e.length.toNat
          omega
        · show c.toNat < e'.base.toNat + e'.length.toNat
          omega
      · rw [entryChunks_unusable hu'] at hc'
        exact absurd hc' List.not_mem_nil
    · rw [entryChunks_unusable hu] at hc
      exact absurd hc List.not_mem_nil

/-- After `setup_physical_allocator` the chunks of the map are on the stack. -/
theorem setup_chunkStack (h : MapOk map) (s : Phys Stack) :
    (setupPhysicalAllocator map s).pool4KIB = 0 ∧
      ChunkStack ((setupPhysicalAllocator map s).chunks, (setupPhysicalAllocator map s).mem)
        (mapChunks map).reverse := by
  refine ⟨rfl, ?_⟩
  have hnil : ChunkStack (stackInit stack2MIB (s.chunks, s.mem)) [] := .nil _ _
  have hmem : 0xFFFFFFFFFFFFFFFF ∉ mapChunks map := fun hc => by
    have hdvd := ((mem_mapChunks h).mp hc).1
    have htop : (0xFFFFFFFFFFFFFFFF : Word).toNat = 2 ^ 64 - 1 := rfl
    omega
  have hall := hnil.pushAll (length_lt_of_nodup (nodup_mapChunks h) hmem)
    (fun c hc => ((mem_mapChunks h).mp (by rwa [List.append_nil] at hc)).1)
    (by rw [List.append_nil]; exact nodup_mapChunks h)
  rw [← foldl_setupEntry, List.append_nil] at hall
  exact hall

end Bikeshed.PhysAlloc
