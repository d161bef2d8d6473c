import Bikeshed.VirtMemory.DirectMap
import Bikeshed.VirtMemory.Entry

/-!
# The direct map, read back

With at most 511 page directories the first loop does all the work: after `n` rounds the entries
`1 .. n` of `kernel_PDPTE` stand for the next `n` GiB. The processor's walk then goes through
entry 256 of `kernel_PML4`.
-/

namespace Bikeshed

open Lib

variable {K : KernelTables} {psi : PageStructInfo} {m : Mem} {s : Carving} {i j k n : ℕ}
  {is : List ℕ} {t pd p : Word}

/-- The tables of `prekernel.s`. -/
structure Prekernel (K : KernelTables) (m : Mem) : Prop where
  pml4 : ∀ i < 512, entry m K.pml4 i = if i = 0 ∨ i = 256 then K.pdpte + 0b11 else 0
  pdpte : ∀ i < 512, entry m K.pdpte i = if i = 0 then K.pdt + 0b11 else 0
  pdt : ∀ i < 512, entry m K.pdt i = BitVec.ofNat 64 (0x200000 * i) + 0b010000011

/-- What `create_paging_structures` is for. -/
structure DirectMap (K : KernelTables) (psi : PageStructInfo) (m : Mem) (s : Carving) : Prop where
  distinct : s.tables.Nodup
  inRange : ∀ t ∈ s.tables, 4096 ∣ t.toNat ∧ psi.base.toNat ≤ t.toNat ∧
    t.toNat + 4096 ≤ psi.base.toNat + 4096 * (psi.numPds.toNat + psi.numPdpts.toNat)
  outside : ∀ x, (∀ t ∈ K.pdpte :: K.pml4 :: s.tables, ¬ (Block.mk t 4096).Has x) → s.mem x = m x
  mapped : psi.numPds.toNat ≤ 511 → ∀ p : Word, p.toNat < (psi.numPds.toNat + 1) * 2 ^ 30 →
    translation s.mem K.pml4 (physToVirt p) = some p
  unmapped : psi.numPds.toNat ≤ 511 → ∀ p : Word, (psi.numPds.toNat + 1) * 2 ^ 30 ≤ p.toNat →
    p.toNat < 512 * 2 ^ 30 → translation s.mem K.pml4 (physToVirt p) = none

/-! ## The first loop -/

/-- What the entry of a page directory is put together from, after the address. -/
def pageBits : Word := pdtPageSize ||| writable ||| present

/-- After `n` rounds of the first loop. -/
structure Rounds (K : KernelTables) (psi : PageStructInfo) (m : Mem) (n : ℕ) (s : Carving) :
    Prop where
  carved : Carved K psi m s
  length : s.tables.length = n
  pdptsLeft : s.pdptsLeft = psi.numPdpts
  physAddress : s.physAddress = BitVec.ofNat 64 ((n + 1) * 2 ^ 30)
  pml4 : ∀ i < 512, entry s.mem K.pml4 i = entry m K.pml4 i
  pdt : ∀ i < 512, entry s.mem K.pdt i = entry m K.pdt i
  pdpte : ∀ i < 512, entry s.mem K.pdpte i = if 1 ≤ i ∧ i ≤ n
    then psi.table (i - 1) ||| (writable ||| present) else entry m K.pdpte i
  pds : ∀ k < n, ∀ j < 512, entry s.mem (psi.table k) j
    = BitVec.ofNat 64 ((k + 1) * 2 ^ 30 + 0x200000 * j) ||| pageBits

lemma Rounds.pdsLeft (h : Rounds K psi m n s) : n + s.pdsLeft.toNat = psi.numPds.toNat := by
  have hbudget := h.carved.budget
  rw [h.length, h.pdptsLeft] at hbudget
  omega

lemma KernelTables.ne (K : KernelTables) :
    K.pml4 ≠ K.pdpte ∧ K.pdt ≠ K.pdpte := by
  have hnodup := K.nodup
  simp only [List.nodup_cons, List.mem_cons, List.not_mem_nil, or_false, not_or] at hnodup
  exact ⟨hnodup.1.1, fun h => hnodup.2.1 h.symm⟩

/-- Another round. -/
lemma Rounds.next (hpsi : PsiOk psi) (h : Rounds K psi m n s) (hn : n < 511)
    (hleft : s.pdsLeft ≠ 0) : Rounds K psi m (n + 1) (addPd K.pdpte (n + 1) s) := by
  have hpos : 0 < s.pdsLeft.toNat := Nat.pos_of_ne_zero fun h0 => hleft (word_ext h0)
  have hpds := h.pdsLeft
  have hlen := h.length
  obtain ⟨hcarved, hadd⟩ := h.carved.addPd hpsi hleft (List.mem_cons_self) (i := n + 1) (by omega)
  have hptr : s.allocPtr = psi.table n := by rw [h.carved.allocPtr, h.length]
  have hroom : s.tables.length < psi.numPds.toNat + psi.numPdpts.toNat := by omega
  have hptrNat := hpsi.toNat_table (k := n) (by omega)
  have hnew : ∀ t ∈ [K.pml4, K.pdpte, K.pdt], t ≠ s.allocPtr := fun t ht he => by
    have hin := (K.inKernel t ht).2
    have habove := hpsi.above
    rw [he, hptr, hptrNat] at hin
    omega
  have hne := K.ne
  refine ⟨hcarved, ?_, hadd.pdptsLeft.trans h.pdptsLeft, ?_, fun i hi => ?_, fun i hi => ?_,
    fun i hi => ?_, fun k hk j hj => ?_⟩
  · rw [hadd.tables, List.length_append, List.length_singleton, hlen]
  · have hone : oneGiB = BitVec.ofNat 64 (1 * 2 ^ 30) := by decide
    rw [hadd.physAddress, h.physAddress, hone, ← BitVec.ofNat_add, ← Nat.add_mul]
  · rw [hadd.others _ _ (K.aligned _ (by simp)) hi (hnew _ (by simp)) (.inl hne.1), h.pml4 i hi]
  · rw [hadd.others _ _ (K.aligned _ (by simp)) hi (hnew _ (by simp)) (.inl hne.2), h.pdt i hi]
  · by_cases hin : i = n + 1
    · rw [hin, hadd.above, if_pos (by omega), hptr, Nat.add_sub_cancel]
    · rw [hadd.others _ _ (K.aligned _ (by simp)) hi (hnew _ (by simp)) (.inr hin), h.pdpte i hi]
      exact if_congr (by omega) rfl rfl
  · rcases Nat.lt_succ_iff_lt_or_eq.mp hk with hk | rfl
    · have hkNat := hpsi.toNat_table (k := k) (by omega)
      have haligned := hpsi.aligned
      rw [hadd.others _ _ (by rw [hkNat]; omega) hj, h.pds k hk j hj]
      · rw [hptr]
        intro he
        have := congrArg BitVec.toNat he
        omega
      · refine .inl fun he => ?_
        have hin := (K.inKernel K.pdpte (by simp)).2
        have habove := hpsi.above
        rw [← he, hkNat] at hin
        omega
    · rw [← hptr, hadd.entries j hj, h.physAddress, ← BitVec.ofNat_add]
      rfl

/-- The loop comes to an end with no page directory left. -/
lemma Rounds.addPds (hpsi : PsiOk psi) (hle : psi.numPds.toNat ≤ 511) (h : Rounds K psi m n s)
    (hk : n + k = 511) :
    Rounds K psi m psi.numPds.toNat (addPds K.pdpte (List.range' (n + 1) k) s) := by
  have hpds := h.pdsLeft
  induction k generalizing n s with
  | zero =>
    obtain rfl : n = psi.numPds.toNat := by omega
    exact h
  | succ k ih =>
    rw [List.range'_succ, Bikeshed.addPds]
    split
    · rename_i hleft
      rw [hleft] at hpds
      obtain rfl : n = psi.numPds.toNat := hpds
      exact h
    · rename_i hleft
      have hnext := h.next hpsi (by omega) hleft
      exact ih hnext (by omega) hnext.pdsLeft

lemma rounds_start :
    Rounds K psi m 0 ⟨m, psi.base, oneGiB, psi.numPds, psi.numPdpts, []⟩ where
  carved := by
    refine ⟨rfl, ?_, Nat.zero_add _ ▸ rfl, fun _ _ => rfl⟩
    exact (BitVec.add_zero psi.base).symm
  length := rfl
  pdptsLeft := rfl
  physAddress := rfl
  pml4 _ _ := rfl
  pdt _ _ := rfl
  pdpte i _ := (if_neg (by omega)).symm
  pds k hk := absurd hk (Nat.not_lt_zero k)

lemma addPdps_none (h : s.pdsLeft = 0) : addPdps K.pml4 is s = s := by
  cases is with
  | nil => rfl
  | cons i is => exact if_pos (.inr h)

/-- With so few page directories there is no second loop. -/
lemma rounds_createPagingStructures (hpsi : PsiOk psi) (hle : psi.numPds.toNat ≤ 511) :
    Rounds K psi m psi.numPds.toNat (createPagingStructures K psi m) := by
  have h := (rounds_start (K := K) (m := m)).addPds hpsi hle (k := 511) rfl
  have hnone : psi.numPds.toNat + _ = psi.numPds.toNat + 0 := h.pdsLeft
  unfold createPagingStructures
  rw [addPdps_none (word_ext (Nat.add_left_cancel hnone))]
  exact h

/-! ## The walk -/

lemma index_physToVirt (hp : p.toNat < 512 * 2 ^ 30) :
    index 3 (physToVirt p) = 256 ∧ index 2 (physToVirt p) = p.toNat / 2 ^ 30 ∧
      index 1 (physToVirt p) = p.toNat / 2 ^ 21 % 512 ∧
      (physToVirt p).toNat % 2 ^ 21 = p.toNat % 2 ^ 21 := by
  have hv : (physToVirt p).toNat = p.toNat + 0xFFFF800000000000 := by
    have hb : kernelBase.toNat = 0xFFFF800000000000 := rfl
    rw [physToVirt, BitVec.toNat_add, hb]
    omega
  simp only [index, hv]
  norm_num
  omega

lemma add_eq_or {f : Word} (ht : t &&& mask 12 39 = t) (hf : mask 12 39 &&& f = 0) :
    t + f = t ||| f :=
  BitVec.add_eq_or_of_and_eq_zero t f (and_eq_zero_of_and_eq ht hf)

lemma KernelTables.mask (K : KernelTables) (ht : t ∈ [K.pml4, K.pdpte, K.pdt]) :
    t &&& Lib.mask 12 39 = t := by
  have hin := (K.inKernel t ht).2
  have hE : PhysAlloc.kernelEnd.toNat = 0x400000 := rfl
  exact and_mask_of_dvd (by norm_num) (by norm_num) (K.aligned t ht) (by omega)

/-- `kernel_PML4` leads to `kernel_PDPTE`. -/
lemma walk_physToVirt {P : Mem} (hpml4 : entry P K.pml4 256 = K.pdpte + 0b11)
    (hp : p.toNat < 512 * 2 ^ 30) : walk P 3 K.pml4 (physToVirt p)
      = slotWalk P 2 (entry P K.pdpte (p.toNat / 2 ^ 30)) (physToVirt p) := by
  obtain ⟨h3, h2, -, -⟩ := index_physToVirt hp
  have hmask := K.mask (t := K.pdpte) (by simp)
  have hentry : entry P K.pml4 256 = K.pdpte ||| 0b11 := by
    rw [hpml4, add_eq_or hmask (by decide)]
  rw [walk, h3, hentry, slotWalk_table (decode_mk_table hmask (by decide) (by decide)).1, walk, h2]

lemma translation_none {P : Mem} (hpml4 : entry P K.pml4 256 = K.pdpte + 0b11)
    (hp : p.toNat < 512 * 2 ^ 30) (hnone : entry P K.pdpte (p.toNat / 2 ^ 30) = 0) :
    translation P K.pml4 (physToVirt p) = none := by
  rw [translation, walk_physToVirt hpml4 hp, hnone, slotWalk_absent (decode_zero 2)]
  rfl

/-- A page directory without an entry for `p` -/
lemma translation_absent {P : Mem} (hpml4 : entry P K.pml4 256 = K.pdpte + 0b11)
    (hp : p.toNat < 512 * 2 ^ 30) (hpd : decode 2 (entry P K.pdpte (p.toNat / 2 ^ 30)) = .table pd)
    (hnone : entry P pd (p.toNat / 2 ^ 21 % 512) &&& presentBit = 0) :
    translation P K.pml4 (physToVirt p) = none := by
  obtain ⟨-, -, h1, -⟩ := index_physToVirt hp
  rw [translation, walk_physToVirt hpml4 hp, slotWalk_table hpd, walk, h1,
    slotWalk_absent (decode_absent_iff.mpr hnone)]
  rfl

/-- A page directory that maps `p` to itself -/
lemma translation_frame {P : Mem} (hpml4 : entry P K.pml4 256 = K.pdpte + 0b11)
    (hp : p.toNat < 512 * 2 ^ 30) (hpd : decode 2 (entry P K.pdpte (p.toNat / 2 ^ 30)) = .table pd)
    (hentry : entry P pd (p.toNat / 2 ^ 21 % 512) = BitVec.ofNat 64 (p.toNat / 2 ^ 30 * 2 ^ 30
      + 0x200000 * (p.toNat / 2 ^ 21 % 512)) ||| pageBits) :
    translation P K.pml4 (physToVirt p) = some p := by
  obtain ⟨-, -, h1, hoff⟩ := index_physToVirt hp
  have hframe : p.toNat / 2 ^ 30 * 2 ^ 30 + 0x200000 * (p.toNat / 2 ^ 21 % 512)
      = p.toNat / 2 ^ 21 * 2 ^ 21 := by omega
  rw [hframe] at hentry
  have hnat : (BitVec.ofNat 64 (p.toNat / 2 ^ 21 * 2 ^ 21)).toNat = p.toNat / 2 ^ 21 * 2 ^ 21 :=
    toNat_ofNat_lt (by omega)
  have hleaf := (decode_mk_large (f := pageBits)
    (and_mask_of_dvd (by norm_num) (by norm_num) (by rw [hnat]; omega) (by rw [hnat]; omega))
    (by decide) (by decide) (by decide)).1
  rw [← hentry] at hleaf
  rw [translation, walk_physToVirt hpml4 hp, slotWalk_table hpd, walk, h1, slotWalk_leaf hleaf,
    Option.map_some, hoff]
  refine congrArg some (word_ext ?_)
  rw [toNat_add_ofNat (by rw [hnat]; omega), hnat, Nat.div_add_mod']

lemma Rounds.pml4_256 (hm : Prekernel K m) (h : Rounds K psi m n s) :
    entry s.mem K.pml4 256 = K.pdpte + 0b11 := by
  rw [h.pml4 256 (by norm_num), hm.pml4 256 (by norm_num), if_pos (.inr rfl)]

/-- The page directory for GiB number `i` -/
def directory (K : KernelTables) (psi : PageStructInfo) (i : ℕ) : Word :=
  if i = 0 then K.pdt else psi.table (i - 1)

lemma Rounds.directory (hpsi : PsiOk psi) (hle : psi.numPds.toNat ≤ 511) (hm : Prekernel K m)
    (h : Rounds K psi m psi.numPds.toNat s) (hi : i ≤ psi.numPds.toNat) :
    decode 2 (entry s.mem K.pdpte i) = .table (directory K psi i) ∧
      ∀ j < 512, entry s.mem (directory K psi i) j
        = BitVec.ofNat 64 (i * 2 ^ 30 + 0x200000 * j) ||| pageBits := by
  have hG : oneGiB.toNat = 2 ^ 30 := rfl
  rcases Nat.eq_zero_or_pos i with rfl | hpos
  · have hmask := K.mask (t := K.pdt) (by simp)
    rw [Bikeshed.directory, if_pos rfl]
    refine ⟨?_, fun j hj => ?_⟩
    · rw [h.pdpte 0 (by norm_num), if_neg (by omega), hm.pdpte 0 (by norm_num), if_pos rfl,
        add_eq_or hmask (by decide)]
      exact (decode_mk_table hmask (by decide) (by decide)).1
    · have hpage : BitVec.ofNat 64 (0x200000 * j) &&& mask 12 39 = BitVec.ofNat 64 (0x200000 * j) :=
        and_mask_of_dvd (by norm_num) (by norm_num) (by rw [toNat_ofNat_lt (by omega)]; omega)
          (by rw [toNat_ofNat_lt (by omega)]; omega)
      rw [h.pdt j hj, hm.pdt j hj, add_eq_or hpage (by decide), Nat.zero_mul, Nat.zero_add]
      rfl
  · obtain ⟨k, rfl⟩ : ∃ k, i = k + 1 := ⟨i - 1, by omega⟩
    have htable := hpsi.toNat_table (k := k) (by omega)
    have haligned := hpsi.aligned
    have hbelow := hpsi.below
    have hmask : psi.table k &&& mask 12 39 = psi.table k :=
      and_mask_of_dvd (by norm_num) (by norm_num) (by rw [htable]; omega) (by rw [htable]; omega)
    rw [Bikeshed.directory, if_neg hpos.ne', Nat.add_sub_cancel]
    refine ⟨?_, fun j hj => h.pds k (by omega) j hj⟩
    rw [h.pdpte (k + 1) (by omega), if_pos ⟨hpos, hi⟩, Nat.add_sub_cancel]
    exact (decode_mk_table hmask (by decide) (by decide)).1

lemma Rounds.mapped (hpsi : PsiOk psi) (hle : psi.numPds.toNat ≤ 511) (hm : Prekernel K m)
    (h : Rounds K psi m psi.numPds.toNat s) (hp : p.toNat < (psi.numPds.toNat + 1) * 2 ^ 30) :
    translation s.mem K.pml4 (physToVirt p) = some p := by
  have hlt : p.toNat < 512 * 2 ^ 30 := hp.trans_le (Nat.mul_le_mul_right _ (by omega))
  have hgib : p.toNat / 2 ^ 30 ≤ psi.numPds.toNat :=
    Nat.lt_succ_iff.mp (Nat.div_lt_of_lt_mul (by rw [Nat.mul_comm]; exact hp))
  obtain ⟨hpd, hentries⟩ := h.directory hpsi hle hm hgib
  exact translation_frame (h.pml4_256 hm) hlt hpd (hentries _ (Nat.mod_lt _ (by norm_num)))

/-- Beyond the page directories `kernel_PDPTE` has no entries. -/
lemma Rounds.pdpte_zero (hm : Prekernel K m) (h : Rounds K psi m psi.numPds.toNat s)
    (hlo : psi.numPds.toNat < i) (hi : i < 512) : entry s.mem K.pdpte i = 0 := by
  rw [h.pdpte i hi, if_neg (by omega), hm.pdpte i hi, if_neg (by omega)]

lemma Rounds.unmapped (hm : Prekernel K m) (h : Rounds K psi m psi.numPds.toNat s)
    (hlo : (psi.numPds.toNat + 1) * 2 ^ 30 ≤ p.toNat) (hhi : p.toNat < 512 * 2 ^ 30) :
    translation s.mem K.pml4 (physToVirt p) = none :=
  translation_none (h.pml4_256 hm) hhi (h.pdpte_zero hm (by omega) (by omega))

lemma carved_createPagingStructures (hpsi : PsiOk psi) :
    Carved K psi m (createPagingStructures K psi m) := by
  have hind : ∀ i ∈ List.range' 1 511, i < 512 := fun i hi => (List.mem_range'_1.mp hi).2
  exact (rounds_start.carved.addPds hpsi List.mem_cons_self hind).addPdps hpsi hind

lemma Carved.between (hpsi : PsiOk psi) (h : Carved K psi m s) (ht : t ∈ s.tables) :
    4096 ∣ t.toNat ∧ psi.base.toNat ≤ t.toNat ∧
      t.toNat + 4096 ≤ psi.base.toNat + 4096 * (psi.numPds.toNat + psi.numPdpts.toNat) := by
  obtain ⟨k, hk, rfl⟩ := h.mem_tables.mp ht
  have haligned := hpsi.aligned
  have hbudget := h.budget
  rw [hpsi.toNat_table (by omega)]
  omega

/-- The tables are pages of the range, and the walk finds what they are built for. -/
theorem createPagingStructures_directMap (K : KernelTables) (hpsi : PsiOk psi)
    (hm : Prekernel K m) : DirectMap K psi m (createPagingStructures K psi m) := by
  have hcarved : Carved K psi m (createPagingStructures K psi m) :=
    carved_createPagingStructures hpsi
  have hbudget := hcarved.budget
  refine ⟨?_, fun t => hcarved.between hpsi, hcarved.outside,
    fun hle p => (rounds_createPagingStructures hpsi hle).mapped hpsi hle hm,
    fun hle p => (rounds_createPagingStructures hpsi hle).unmapped hm⟩
  rw [hcarved.tables]
  refine List.nodup_range.map_on fun k hk l hl he => ?_
  have hk' := List.mem_range.mp hk
  have hl' := List.mem_range.mp hl
  have hnat := congrArg BitVec.toNat he
  rw [hpsi.toNat_table (by omega), hpsi.toNat_table (by omega)] at hnat
  omega

/-- The three tables at the end of the third MiB. -/
def linkedTables : KernelTables where
  pml4 := 0x300000
  pdpte := 0x301000
  pdt := 0x302000
  aligned := by simp
  inKernel := by simp [PhysAlloc.kernelStart, PhysAlloc.kernelEnd]
  nodup := by decide

/-- Memory as it is linked. -/
def linkedMem : Mem := memOfWords fun w =>
  if w = 0x300000 / 8 ∨ w = 0x300000 / 8 + 256 then 0x301003
  else if w = 0x301000 / 8 then 0x302003
  else if 0x302000 / 8 ≤ w then BitVec.ofNat 64 (0x200000 * (w - 0x302000 / 8)) + 0b010000011
  else 0

lemma prekernel_linked : Prekernel linkedTables linkedMem := by
  have haligned := linkedTables.aligned
  refine ⟨fun i hi => ?_, fun i hi => ?_, fun i hi => ?_⟩
  · rw [linkedMem, entry_memOfWords _ (haligned _ (by simp)) hi]
    have ht : linkedTables.pml4.toNat / 8 = 0x300000 / 8 := rfl
    rw [ht]
    by_cases h : i = 0 ∨ i = 256
    · rw [if_pos h, if_pos (by omega)]
      rfl
    · rw [if_neg h, if_neg (by omega), if_neg (by omega), if_neg (by omega)]
  · rw [linkedMem, entry_memOfWords _ (haligned _ (by simp)) hi]
    have ht : linkedTables.pdpte.toNat / 8 = 0x301000 / 8 := rfl
    rw [ht, if_neg (by omega)]
    by_cases h : i = 0
    · rw [if_pos h, if_pos (by omega)]
      rfl
    · rw [if_neg h, if_neg (by omega), if_neg (by omega)]
  · rw [linkedMem, entry_memOfWords _ (haligned _ (by simp)) hi]
    have ht : linkedTables.pdt.toNat / 8 = 0x302000 / 8 := rfl
    rw [ht, if_neg (by omega), if_neg (by omega), if_pos (by omega), Nat.add_sub_cancel_left]

/-- Three page directories right behind the kernel, for 4GiB. -/
theorem directMap_fourGiB : DirectMap linkedTables ⟨0x400000, 3, 0⟩ linkedMem
    (createPagingStructures linkedTables ⟨0x400000, 3, 0⟩ linkedMem) :=
  createPagingStructures_directMap linkedTables
    ⟨by decide, by decide, by decide, by decide⟩ prekernel_linked

end Bikeshed
