import Bikeshed.Lib.Regions
import Bikeshed.PhysMemory.PhysAlloc

/-!
# The memory map of the BIOS

`get_total_usable_ram` takes the kernel out of the usable entries. The fourth of its cases, an
entry that reaches past the kernel at both ends, is never reached: the first takes such an
entry too, and with it goes what lies above the kernel.
-/

namespace Bikeshed.PhysAlloc

open Lib

def kernelStart : Word := 0x100000
def kernelEnd : Word := 0x400000
/-- What fits between the map and the boot sector -/
def mmapMaxEntries : ℕ := (0x7C00 - 0x2D04) / 24
def typeReserved : BitVec 32 := 2

/-- What `get_total_usable_ram` returns -/
structure RamInfo where
  totalUsableRam : Word
  highestAddress : Word

/-- The cases for a usable entry, and what is appended to the array. -/
def splitEntry (addIndex : ℕ) (e : MMapEntry) : MMapEntry × List MMapEntry :=
  let maxAddr := e.base + e.length
  if e.base < kernelStart ∧ kernelStart < maxAddr then
    ({ e with length := kernelStart - e.base }, [])
  else if e.base < kernelEnd ∧ kernelEnd < maxAddr then
    ({ e with base := kernelEnd, length := maxAddr - kernelEnd }, [])
  else if kernelStart ≤ e.base ∧ maxAddr ≤ kernelEnd then
    ({ e with type := typeReserved }, [])
  else if e.base < kernelStart ∧ kernelEnd < maxAddr then
    if addIndex < mmapMaxEntries then
      ({ e with length := kernelStart - e.base }, [⟨kernelEnd, maxAddr - kernelEnd, typeUsable⟩])
    else if maxAddr - kernelEnd < kernelStart - e.base then
      ({ e with length := kernelStart - e.base }, [])
    else ({ e with base := kernelEnd, length := maxAddr - kernelEnd }, [])
  else (e, [])

/-- A usable entry adds its length and may raise the highest address. -/
def countEntry (info : RamInfo) (e : MMapEntry) : RamInfo where
  totalUsableRam := info.totalUsableRam + e.length
  highestAddress :=
    if info.highestAddress < e.base + e.length then e.base + e.length else info.highestAddress

/-- The array up to `i`, the entries behind `mmap_size`, and the two sums. -/
structure RamScan where
  done : List MMapEntry
  added : List MMapEntry
  info : RamInfo

/-- One round of the loop over the map -/
def scanEntry (mmapSize : ℕ) (s : RamScan) (e : MMapEntry) : RamScan :=
  if e.type ≠ typeUsable then { s with done := s.done ++ [e] }
  else
    let (e', added) := splitEntry (mmapSize + s.added.length) e
    { done := s.done ++ [e']
      added := s.added ++ added
      info := if e'.type = typeUsable then countEntry s.info e' else s.info }

/-- The updated map comes back next to `*info`. -/
def getTotalUsableRam (mmap : List MMapEntry) : RamInfo × List MMapEntry :=
  let s := mmap.foldl (scanEntry mmap.length) ⟨[], [], ⟨0, 0⟩⟩
  (s.added.foldl countEntry s.info, s.done ++ s.added)

variable {e : MMapEntry} {es mmap : List MMapEntry} {i : ℕ} {info : RamInfo} {a b : ℕ}

/-! ## The cases -/

/-- What becomes of an entry. -/
def keep (e : MMapEntry) : MMapEntry :=
  if e.type ≠ typeUsable then e
  else if e.base < kernelStart ∧ kernelStart < e.base + e.length then
    { e with length := kernelStart - e.base }
  else if e.base < kernelEnd ∧ kernelEnd < e.base + e.length then
    { e with base := kernelEnd, length := e.base + e.length - kernelEnd }
  else if kernelStart ≤ e.base ∧ e.base + e.length ≤ kernelEnd then
    { e with type := typeReserved }
  else e

/-- The fourth case is never reached. -/
lemma splitEntry_eq (hu : e.type = typeUsable) : splitEntry i e = (keep e, []) := by
  unfold splitEntry keep
  rw [if_neg (not_not.mpr hu)]
  dsimp only
  split
  · rfl
  rename_i h1
  split
  · rfl
  split
  · rfl
  rw [if_neg fun h4 => h1 ⟨h4.1, BitVec.lt_trans (by decide) h4.2⟩]

def isUsable (e : MMapEntry) : Bool := decide (e.type = typeUsable)

lemma isUsable_iff : isUsable e = true ↔ e.type = typeUsable := decide_eq_true_iff

/-- Entries that are not usable are not looked at. -/
lemma keep_of_not_usable (hu : ¬ e.type = typeUsable) : keep e = e := if_pos hu

/-- The loop, once there is no entry to be appended -/
lemma foldl_scanEntry (done : List MMapEntry) (info : RamInfo) :
    mmap.foldl (scanEntry i) ⟨done, [], info⟩
      = ⟨done ++ mmap.map keep, [], ((mmap.map keep).filter isUsable).foldl countEntry info⟩ := by
  induction mmap generalizing done info with
  | nil => rw [List.foldl_nil, List.map_nil, List.append_nil]; rfl
  | cons e mmap ih =>
    rw [List.foldl_cons, List.map_cons, List.filter_cons]
    by_cases hu : e.type = typeUsable
    · rw [scanEntry, if_neg (not_not.mpr hu), splitEntry_eq hu]
      dsimp only
      rw [List.append_nil, ih, List.append_assoc, List.singleton_append]
      by_cases hk : (keep e).type = typeUsable
      · rw [if_pos hk, if_pos (isUsable_iff.mpr hk), List.foldl_cons]
      · rw [if_neg hk, if_neg (fun h => hk (isUsable_iff.mp h))]
    · rw [scanEntry, if_pos hu, ih, keep_of_not_usable hu, List.append_assoc,
        List.singleton_append, if_neg (fun h => hu (isUsable_iff.mp h))]

/-- Each entry is changed by itself, and what is usable then is counted. -/
lemma getTotalUsableRam_eq (mmap : List MMapEntry) : getTotalUsableRam mmap
    = (((mmap.map keep).filter isUsable).foldl countEntry ⟨0, 0⟩, mmap.map keep) := by
  rw [getTotalUsableRam, foldl_scanEntry, List.nil_append, List.append_nil, List.foldl_nil]

/-! ## The sums -/

/-- The addresses of an entry -/
def MMapEntry.region (e : MMapEntry) : ℕ × ℕ := (e.base.toNat, e.length.toNat)

/-- The sum of the lengths may wrap. -/
lemma toNat_total :
    (es.foldl countEntry info).totalUsableRam.toNat
      = (info.totalUsableRam.toNat + ((es.map MMapEntry.region).map Prod.snd).sum) % 2 ^ 64 := by
  induction es generalizing info with
  | nil => exact (Nat.mod_eq_of_lt info.totalUsableRam.isLt).symm
  | cons e es ih =>
    rw [List.foldl_cons, ih, List.map_cons, List.map_cons, List.sum_cons]
    show ((info.totalUsableRam + e.length).toNat + _) % _ = _
    rw [BitVec.toNat_add, Nat.mod_add_mod, Nat.add_assoc]
    rfl

/-- The highest address is the least bound of the ends. -/
lemma highest_le (hfit : ∀ e ∈ es, e.base.toNat + e.length.toNat < 2 ^ 64) :
    (es.foldl countEntry info).highestAddress.toNat ≤ b
      ↔ info.highestAddress.toNat ≤ b ∧ ∀ e ∈ es, e.base.toNat + e.length.toNat ≤ b := by
  induction es generalizing info with
  | nil => exact ⟨fun h => ⟨h, fun e he => absurd he List.not_mem_nil⟩, And.left⟩
  | cons e es ih =>
    have hend : (e.base + e.length).toNat = e.base.toNat + e.length.toNat := by
      rw [BitVec.toNat_add, Nat.mod_eq_of_lt (hfit e List.mem_cons_self)]
    have hone : (countEntry info e).highestAddress.toNat ≤ b
        ↔ info.highestAddress.toNat ≤ b ∧ e.base.toNat + e.length.toNat ≤ b := by
      simp only [countEntry, BitVec.lt_def, hend]
      split <;> omega
    rw [List.foldl_cons, ih fun e' he' => hfit e' (List.mem_cons_of_mem e he'), hone,
      List.forall_mem_cons, and_assoc]

/-! ## The addresses -/

def MMapEntry.Has (e : MMapEntry) (a : ℕ) : Prop :=
  e.base.toNat ≤ a ∧ a < e.base.toNat + e.length.toNat

/-- The addresses of usable memory. -/
def usableRam (mmap : List MMapEntry) : Set ℕ := {a | ∃ e ∈ mmap, e.type = typeUsable ∧ e.Has a}

/-- The memory of the kernel image -/
def kernelRam : Set ℕ := Set.Ico kernelStart.toNat kernelEnd.toNat

/-- The entry starts below the kernel and ends above it. -/
def Spans (e : MMapEntry) : Prop := e.base < kernelStart ∧ kernelEnd < e.base + e.length

/-- Usable memory is what the usable entries cover. -/
lemma usableRam_eq (mmap : List MMapEntry) :
    usableRam mmap = covered ((mmap.filter isUsable).map MMapEntry.region) := by
  ext a
  constructor
  · rintro ⟨e, he, hu, ha⟩
    exact ⟨e.region, List.mem_map_of_mem (List.mem_filter.mpr ⟨he, isUsable_iff.mpr hu⟩), ha⟩
  · rintro ⟨r, hr, ha⟩
    obtain ⟨e, he, rfl⟩ := List.mem_map.mp hr
    obtain ⟨he, hu⟩ := List.mem_filter.mp he
    exact ⟨e, he, isUsable_iff.mp hu, ha⟩

lemma toNat_kernelStart : kernelStart.toNat = 0x100000 := rfl

lemma toNat_kernelEnd : kernelEnd.toNat = 0x400000 := rfl

/-- What is kept of a usable entry is all outside the kernel; above the kernel nothing is kept
of one that spans it. -/
lemma keep_has (hu : e.type = typeUsable) (hfit : e.base.toNat + e.length.toNat < 2 ^ 64) :
    ((keep e).type = typeUsable ∧ (keep e).Has a)
      ↔ e.Has a ∧ a ∉ kernelRam ∧ ¬ (Spans e ∧ kernelEnd.toNat ≤ a) := by
  have hend : (e.base + e.length).toNat = e.base.toNat + e.length.toNat := by
    rw [BitVec.toNat_add, Nat.mod_eq_of_lt hfit]
  have hS := toNat_kernelStart
  have hE := toNat_kernelEnd
  have hres : ¬ typeReserved = typeUsable := by decide
  unfold keep Spans kernelRam
  rw [if_neg (not_not.mpr hu), Set.mem_Ico]
  simp only [BitVec.lt_def, BitVec.le_def, hend, MMapEntry.Has]
  split
  · rename_i h1
    have hsub : (kernelStart - e.base).toNat = kernelStart.toNat - e.base.toNat :=
      BitVec.toNat_sub_of_le (by rw [BitVec.le_def]; omega)
    dsimp only
    rw [hsub]
    simp only [hu, true_and]
    omega
  split
  · have hsub : (e.base + e.length - kernelEnd).toNat
        = e.base.toNat + e.length.toNat - kernelEnd.toNat := by
      rw [BitVec.toNat_sub_of_le (by rw [BitVec.le_def, hend]; omega), hend]
    dsimp only
    rw [hsub]
    simp only [hu, true_and]
    omega
  split
  · dsimp only
    simp only [hres, false_and, false_iff]
    omega
  · simp only [hu, true_and]
    omega

/-- An entry is only made shorter. -/
lemma keep_fits (hfit : e.type = typeUsable → e.base.toNat + e.length.toNat < 2 ^ 64)
    (hk : (keep e).type = typeUsable) :
    (keep e).base.toNat + (keep e).length.toNat < 2 ^ 64 := by
  by_cases hu : e.type = typeUsable
  · by_contra hover
    have hin := (keep_has (a := 2 ^ 64 - 1) hu (hfit hu)).mp ⟨hk, by
      have hb := (keep e).base.isLt
      exact ⟨by omega, by omega⟩⟩
    have hhas : e.base.toNat ≤ 2 ^ 64 - 1 ∧ 2 ^ 64 - 1 < e.base.toNat + e.length.toNat := hin.1
    have := hfit hu
    omega
  · rw [keep_of_not_usable hu] at hk
    exact absurd hk hu

/-- No entry becomes usable. -/
lemma usable_of_keep (hu : (keep e).type = typeUsable) : e.type = typeUsable := by
  by_contra hne
  rw [keep_of_not_usable hne] at hu
  exact hne hu

/-- What is left: not the kernel, and nothing above it in an entry that spans it. -/
lemma mem_usableRam_keep (hfit : ∀ e ∈ mmap, e.type = typeUsable →
      e.base.toNat + e.length.toNat < 2 ^ 64) :
    a ∈ usableRam (mmap.map keep) ↔ ∃ e ∈ mmap, e.type = typeUsable ∧
      e.Has a ∧ a ∉ kernelRam ∧ ¬ (Spans e ∧ kernelEnd.toNat ≤ a) := by
  constructor
  · rintro ⟨k, hk, hka⟩
    obtain ⟨e, he, rfl⟩ := List.mem_map.mp hk
    have hu := usable_of_keep hka.1
    exact ⟨e, he, hu, (keep_has hu (hfit e he hu)).mp hka⟩
  · rintro ⟨e, he, hu, ha⟩
    exact ⟨keep e, List.mem_map_of_mem he, (keep_has hu (hfit e he hu)).mpr ha⟩

/-! ## The updated map -/

/-- No address is usable memory of both entries. -/
def Apart (e e' : MMapEntry) : Prop :=
  e.type = typeUsable → e'.type = typeUsable → ∀ a, e.Has a → ¬ e'.Has a

instance : Std.Symm Apart := ⟨fun _ _ h hu hu' a ha ha' => h hu' hu a ha' ha⟩

/-- A map as the BIOS gives it, with room for more entries. -/
structure BiosMap (mmap : List MMapEntry) : Prop where
  short : mmap.length < mmapMaxEntries - 1
  fits : ∀ e ∈ mmap, e.type = typeUsable → e.base.toNat + e.length.toNat < 2 ^ 64
  disjoint : mmap.Pairwise Apart

/-- Usable is what was usable and is not the kernel's, and the two sums are right. The highest
address is 0 if there is no usable memory. -/
structure NothingLost (mmap : List MMapEntry) (r : RamInfo × List MMapEntry) : Prop where
  usable : usableRam r.2 = usableRam mmap \ kernelRam
  total : r.1.totalUsableRam.toNat = (usableRam mmap \ kernelRam).ncard
  highest : IsLUB {a | ∃ e ∈ r.2, e.type = typeUsable ∧ a = e.base.toNat + e.length.toNat}
    r.1.highestAddress.toNat

lemma BiosMap.keep_fits (h : BiosMap mmap) (he : e ∈ (mmap.map keep).filter isUsable) :
    e.base.toNat + e.length.toNat < 2 ^ 64 := by
  obtain ⟨hk, hu⟩ := List.mem_filter.mp he
  obtain ⟨e', he', rfl⟩ := List.mem_map.mp hk
  exact PhysAlloc.keep_fits (h.fits e' he') (isUsable_iff.mp hu)

/-- Entries that did not overlap still do not. -/
lemma BiosMap.keep_apart (h : BiosMap mmap) : (mmap.map keep).Pairwise Apart := by
  refine List.pairwise_map.mpr (h.disjoint.imp_of_mem fun {e e'} he he' hap hk hk' a ha ha' => ?_)
  have hu := usable_of_keep hk
  have hu' := usable_of_keep hk'
  exact hap hu hu' a ((keep_has hu (h.fits e he hu)).mp ⟨hk, ha⟩).1
    ((keep_has hu' (h.fits e' he' hu')).mp ⟨hk', ha'⟩).1

lemma BiosMap.keep_disjoint (h : BiosMap mmap) :
    (((mmap.map keep).filter isUsable).map MMapEntry.region).Pairwise Parted := by
  refine List.pairwise_map.mpr ((h.keep_apart.filter isUsable).imp_of_mem
    fun {e e'} he he' hap a ha ha' => ?_)
  exact hap (isUsable_iff.mp (List.mem_filter.mp he).2)
    (isUsable_iff.mp (List.mem_filter.mp he').2) a ha ha'

/-- The total is the number of usable bytes. -/
lemma BiosMap.total (h : BiosMap mmap) :
    (getTotalUsableRam mmap).1.totalUsableRam.toNat = (usableRam (mmap.map keep)).ncard := by
  have hsum := sum_le_of_covered (n := 2 ^ 64 - 1) h.keep_disjoint fun a ⟨r, hr, ha⟩ => by
    obtain ⟨e, he, rfl⟩ := List.mem_map.mp hr
    have hfit := h.keep_fits he
    have hlt : a < e.base.toNat + e.length.toNat := ha.2
    omega
  rw [getTotalUsableRam_eq, toNat_total, usableRam_eq, ncard_covered h.keep_disjoint]
  exact (congrArg (· % 2 ^ 64) (Nat.zero_add _)).trans (Nat.mod_eq_of_lt (by omega))

/-- The highest address is that of a usable entry, and none ends above it. -/
lemma BiosMap.highest (h : BiosMap mmap) :
    IsLUB {a | ∃ e ∈ (getTotalUsableRam mmap).2, e.type = typeUsable ∧
      a = e.base.toNat + e.length.toNat} (getTotalUsableRam mmap).1.highestAddress.toNat := by
  rw [getTotalUsableRam_eq]
  refine isLUB_iff_le_iff.mpr fun b => (highest_le fun e he => h.keep_fits he).trans ?_
  constructor
  · rintro ⟨-, hall⟩ a ⟨e, he, hu, rfl⟩
    exact hall e (List.mem_filter.mpr ⟨he, isUsable_iff.mpr hu⟩)
  · intro hall
    refine ⟨Nat.zero_le b, fun e he => hall ⟨e, (List.mem_filter.mp he).1, ?_, rfl⟩⟩
    exact isUsable_iff.mp (List.mem_filter.mp he).2

/-- Memory is lost if a usable entry spans the kernel, and only then. -/
theorem nothingLost_iff (h : BiosMap mmap) :
    NothingLost mmap (getTotalUsableRam mmap)
      ↔ ∀ e ∈ mmap, e.type = typeUsable → ¬ Spans e := by
  constructor
  · intro hno e he hu hspan
    -- the first address above the kernel is in no other entry
    have hend : (e.base + e.length).toNat = e.base.toNat + e.length.toNat := by
      rw [BitVec.toNat_add, Nat.mod_eq_of_lt (h.fits e he hu)]
    have hlo : e.base.toNat < kernelStart.toNat := BitVec.lt_def.mp hspan.1
    have hhi : kernelEnd.toNat < e.base.toNat + e.length.toNat := hend ▸ BitVec.lt_def.mp hspan.2
    have hhas : e.Has kernelEnd.toNat :=
      ⟨(hlo.trans (by decide : kernelStart.toNat < kernelEnd.toNat)).le, hhi⟩
    have hin : kernelEnd.toNat ∈ usableRam mmap \ kernelRam :=
      ⟨⟨e, he, hu, hhas⟩, fun hk => lt_irrefl _ hk.2⟩
    rw [← hno.usable, getTotalUsableRam_eq, mem_usableRam_keep h.fits] at hin
    obtain ⟨e', he', hu', hhas', -, hns⟩ := hin
    have hsame : e = e' := by
      by_contra hne
      exact h.disjoint.forall he he' hne hu hu' _ hhas hhas'
    exact hns ⟨hsame ▸ hspan, le_rfl⟩
  · intro hns
    have hset : usableRam (mmap.map keep) = usableRam mmap \ kernelRam := by
      ext a
      rw [mem_usableRam_keep h.fits]
      constructor
      · rintro ⟨e, he, hu, ha, hk, -⟩
        exact ⟨⟨e, he, hu, ha⟩, hk⟩
      · rintro ⟨⟨e, he, hu, ha⟩, hk⟩
        exact ⟨e, he, hu, ha, hk, fun hsp => hns e he hu hsp.1⟩
    refine ⟨?_, h.total.trans (congrArg Set.ncard hset), h.highest⟩
    rw [getTotalUsableRam_eq]
    exact hset

/-- Memory below 640KiB and 127MiB from where the kernel is. -/
def lowAndHigh : List MMapEntry := [⟨0, 0xA0000, typeUsable⟩, ⟨0x100000, 0x7F00000, typeUsable⟩]

lemma biosMap_lowAndHigh : BiosMap lowAndHigh where
  short := by decide
  fits := by
    intro e he _
    obtain rfl | he := List.mem_cons.mp he
    · decide
    · obtain rfl := List.mem_singleton.mp he
      decide
  disjoint := by
    refine List.pairwise_pair.mpr fun _ _ a ha ha' => ?_
    have hlt : a < 0xA0000 := ha.2
    have hle : 0x100000 ≤ a := ha'.1
    omega

theorem nothingLost_lowAndHigh : NothingLost lowAndHigh (getTotalUsableRam lowAndHigh) :=
  (nothingLost_iff biosMap_lowAndHigh).mpr fun e he _ hspan => by
    obtain rfl | he := List.mem_cons.mp he
    · exact absurd hspan.2 (by decide)
    · obtain rfl := List.mem_singleton.mp he
      exact absurd hspan.1 (by decide)

/-- 8MiB in one entry: of its upper half nothing is left. -/
theorem not_nothingLost :
    ¬ ∀ mmap : List MMapEntry, BiosMap mmap → NothingLost mmap (getTotalUsableRam mmap) := by
  intro hall
  have hone : BiosMap [⟨0, 0x800000, typeUsable⟩] := by
    refine ⟨by decide, fun e he _ => ?_, List.pairwise_singleton _ _⟩
    obtain rfl := List.mem_singleton.mp he
    decide
  have hin : 0x400000 ∈ usableRam [⟨0, 0x800000, typeUsable⟩] \ kernelRam := by
    refine ⟨⟨_, List.mem_singleton_self _, rfl, ?_⟩, fun hk => ?_⟩
    · exact ⟨by decide, by decide⟩
    · exact absurd hk.2 (by decide)
  rw [← (hall _ hone).usable] at hin
  obtain ⟨e, he, -, ha⟩ := hin
  obtain rfl : e = ⟨0, 0x100000, typeUsable⟩ := List.mem_singleton.mp he
  exact absurd ha.2 (by decide)

end Bikeshed.PhysAlloc
