import Bikeshed.Lib.PageTreeEntries
import Bikeshed.VirtMemory.MapContract
import Bikeshed.VirtMemory.Quiet
import Bikeshed.VirtMemory.SharedHalf

/-!
# Coherence of the kernel half

Slots of the PML4 are copied when a page table is cloned and never synchronised again. `PageStep`
are the operations on any number of page tables, now for kernel addresses too. The account is
that of the user halves; what is left over is divided into the frames that were mapped in kernel
halves and may be given back (`frames`), and the rest, which never is (`pinned`).
-/

namespace Bikeshed

open Lib

variable {α : Type} {A : PhysAllocator α} {H : PhysHeap A}

/-- The machine, the page tables in use, and the address and page size of every call of
`virt_map_page` that succeeded. -/
structure Paged (α : Type) where
  machine : Machine α
  live : List Word
  mapped : List (Word × Word)

def Canonical (v : Word) : Prop := v.toNat < 2 ^ 47 ∨ 2 ^ 64 - 2 ^ 47 ≤ v.toNat

inductive PageStep (A : PhysAllocator α) (kernelTable : Word) : Paged α → Paged α → Prop
  | clone {s s' : Machine α} {live : List Word} {mapped : List (Word × Word)} {t p : Word} :
      t ∈ live → virtCloneMapping A t s = .ok (p, s') →
      PageStep A kernelTable ⟨s, live, mapped⟩ ⟨s', p :: live, mapped⟩
  | map {s s' : Machine α} {live : List Word} {mapped : List (Word × Word)}
      {t v flags pageSize : Word} {ret : Byte × Word} : t ∈ live → Canonical v →
      virtMapPage A t v flags pageSize s = .ok (ret, s') →
      PageStep A kernelTable ⟨s, live, mapped⟩
        ⟨s', live, if ret.1 = 0 then mapped else (v, pageSize) :: mapped⟩
  | unmap {s s' : Machine α} {live : List Word} {mapped : List (Word × Word)} {t v : Word} :
      t ∈ live → Canonical v → (∃ c ∈ mapped, SamePage c.2 c.1 v) →
      virtUnmapPage A t v s = .ok ((), s') →
      PageStep A kernelTable ⟨s, live, mapped⟩ ⟨s', live, mapped⟩
  | reset {s s' : Machine α} {live : List Word} {mapped : List (Word × Word)} {t : Word} :
      t ∈ live → virtResetTable A kernelTable t s = .ok ((), s') →
      PageStep A kernelTable ⟨s, live, mapped⟩ ⟨s', live, mapped⟩
  | cleanup {s s' : Machine α} {live : List Word} {mapped : List (Word × Word)} {t : Word} :
      t ∈ live → t ≠ kernelTable → virtCleanupTable A t s = .ok ((), s') →
      PageStep A kernelTable ⟨s, live, mapped⟩ ⟨s', live.erase t, mapped⟩

abbrev PageRun (A : PhysAllocator α) (kernelTable : Word) : Paged α → Paged α → Prop :=
  Relation.ReflTransGen (PageStep A kernelTable)

/-- `kernel_table` before anything is cloned: its tables are in use, and no user page is mapped. -/
structure KernelStart (H : PhysHeap A) (kernelTable : Word) (s : Machine α) : Prop where
  rooted : Rooted H wholeTable kernelTable s.heap s.mem
  user : ∀ i < 256, entry (phys s.mem) kernelTable i = 0

lemma pageLevel_le (pageSize : Word) : pageLevel pageSize ≤ 3 := by
  rw [pageLevel]
  split <;> norm_num

/-! ## The invariant -/

/-- In slots that `orig` chooses the page tables have the entry of the kernel's. -/
def Shared (orig : ℕ → Prop) (kernelTable : Word) (P : Mem) (live : List Word) : Prop :=
  ∀ i ∈ slots kernelHalf 3, orig i → entry P kernelTable i &&& presentBit ≠ 0 ∧
    ∀ t ∈ live, entry P t i = entry P kernelTable i

/-- Addresses that `virt_unmap_page` may be called with: those of an original slot only if they
have been mapped since. -/
def Ours (orig : ℕ → Prop) (mapped : List (Word × Word)) (v : Word) : Prop :=
  orig (index 3 v) → ∃ c ∈ mapped, SamePage c.2 c.1 v

structure KernelInv (H : PhysHeap A) (orig : ℕ → Prop) (kernelTable : Word) (w : Paged α)
    (frames pinned : List Block) : Prop where
  account : Accounts H ⟨w.machine, w.live⟩ (frames ++ pinned)
  kernel : kernelTable ∈ w.live
  shared : Shared orig kernelTable (phys w.machine.mem) w.live
  slots : KernelSlots (phys w.machine.mem) w.live pinned
  leaves : KernelFrames (phys w.machine.mem) w.live (Ours orig w.mapped) frames

/-- Present entries of the kernel half stay as they are, and new page tables have got theirs from
one that there was. -/
def Carried (kernelTable : Word) (P P' : Mem) (live live' : List Word) : Prop :=
  ∀ t ∈ live', ∃ t0 ∈ live, (t = kernelTable → t0 = kernelTable) ∧
    ∀ i ∈ slots kernelHalf 3, entry P t0 i &&& presentBit ≠ 0 → entry P' t i = entry P t0 i

lemma Shared.carried {orig : ℕ → Prop} {K : Word} {P P' : Mem} {live live' : List Word}
    (h : Shared orig K P live) (hc : Carried K P P' live live') (hK : K ∈ live') :
    Shared orig K P' live' := by
  intro i hi ho
  obtain ⟨hp, hall⟩ := h i hi ho
  obtain ⟨t0, -, ht0, he0⟩ := hc K hK
  obtain rfl := ht0 rfl
  have hK' := he0 i hi hp
  refine ⟨by rwa [hK'], fun t ht => ?_⟩
  obtain ⟨t1, ht1, -, he1⟩ := hc t ht
  rw [hK', he1 i hi (by rwa [hall t1 ht1]), hall t1 ht1]

/-- None of `bs` has been given back between `s` and `s'`, nor anything that overlaps them. -/
def FreesApart (bs : List Block) (s s' : Machine α) : Prop :=
  ∃ L, s'.log = s.log ++ L ∧ ∀ b ∈ freed L, ∀ c ∈ bs, b.Disjoint c

lemma FreesApart.of_nothing {bs : List Block} {s s' : Machine α}
    (h : ∃ L, s'.log = s.log ++ L ∧ freed L = []) : FreesApart bs s s' := by
  obtain ⟨L, hL, hf⟩ := h
  exact ⟨L, hL, fun b hb => absurd (hf ▸ hb) List.not_mem_nil⟩

lemma FreesApart.trans {bs bs' : List Block} {s s1 s' : Machine α} (h : FreesApart bs s s1)
    (hsub : ∀ b ∈ bs, b ∈ bs') (h' : FreesApart bs' s1 s') : FreesApart bs s s' := by
  obtain ⟨L, hL, hf⟩ := h
  obtain ⟨L', hL', hf'⟩ := h'
  refine ⟨L ++ L', by rw [hL', hL, List.append_assoc], fun b hb c hc => ?_⟩
  rw [freed_append, List.mem_append] at hb
  exact hb.elim (fun hb => hf b hb c hc) fun hb => hf' b hb c (hsub c hc)

/-- What one step leads to. -/
def StepKeeps (H : PhysHeap A) (orig : ℕ → Prop) (kernelTable : Word) (w w' : Paged α)
    (pinned : List Block) : Prop :=
  ∃ frames more, KernelInv H orig kernelTable w' frames (more ++ pinned) ∧
    Carried kernelTable (phys w.machine.mem) (phys w'.machine.mem) w.live w'.live ∧
    FreesApart pinned w.machine w'.machine

namespace KernelInv

variable {orig : ℕ → Prop} {K t u v : Word} {s s' : Machine α} {live : List Word}
  {mapped : List (Word × Word)} {frames pinned : List Block}

lemma disjoint (h : KernelInv H orig K ⟨s, live, mapped⟩ frames pinned) :
    (live.flatMap (fun t => blocks (userTree s.mem t)) ++ (frames ++ pinned)).Pairwise
      Block.Disjoint :=
  (h.account.own.pairwise_iff fun hd => Block.Disjoint.symm hd).mp (H.disjoint h.account.valid)

/-- What may be given back is apart from what never is. -/
lemma apart (h : KernelInv H orig K ⟨s, live, mapped⟩ frames pinned) {b c : Block}
    (hb : b ∈ frames ∨ ∃ t ∈ live, b ∈ blocks (userTree s.mem t)) (hc : c ∈ pinned) :
    b.Disjoint c := by
  obtain ⟨-, hrest, hcross⟩ := List.pairwise_append.mp h.disjoint
  rcases hb with hb | ⟨t, ht, hb⟩
  · exact (List.pairwise_append.mp hrest).2.2 b hb c hc
  · exact hcross b (List.mem_flatMap.mpr ⟨t, ht, hb⟩) c (List.mem_append_right _ hc)

lemma pinned_own (h : KernelInv H orig K ⟨s, live, mapped⟩ frames pinned) {b : Block}
    (hb : b ∈ pinned) : b ∈ H.own s.heap :=
  h.account.own.mem_iff.mpr (List.mem_append_right _ (List.mem_append_right _ hb))

/-! ## Steps that leave the kernel halves alone -/

/-- A page table whose PML4 and tables are kept has kept its kernel half. -/
lemma sameHalf_of_agree (h : KernelInv H orig K ⟨s, live, mapped⟩ frames pinned) {m' : Mem}
    (ht : t ∈ live) (hpml4 : ∀ x, (page4KIB t).Has x → phys m' x = phys s.mem x)
    (hagree : AgreeOn pinned (phys s.mem) (phys m')) : SameHalf (phys s.mem) (phys m') t t :=
  ⟨fun _ hi => entry_congr (h.account.aligned t ht) (mem_slots.mp hi).1 hpml4,
    fun i hi => sameEntries_of_agreeOn hagree (fun _ => slot_tables_aligned)
      (h.slots.pinned t ht i hi)⟩

/-- The kernel halves are as they were, and the account is given. -/
lemma of_sameHalf (h : KernelInv H orig K ⟨s, live, mapped⟩ frames pinned) {live' : List Word}
    {mapped' : List (Word × Word)} (more : List Block)
    (hacc : Accounts H ⟨s', live'⟩ (more ++ (frames ++ pinned))) (hK : K ∈ live')
    (hs : ∀ t ∈ live', ∃ t0 ∈ live, (t = K → t0 = K) ∧ SameHalf (phys s.mem) (phys s'.mem) t0 t)
    (ho : ∀ v, 256 ≤ index 3 v → Ours orig mapped' v → Ours orig mapped v)
    (hlog : FreesApart pinned s s') :
    StepKeeps H orig K ⟨s, live, mapped⟩ ⟨s', live', mapped'⟩ pinned := by
  have hcarried : Carried K (phys s.mem) (phys s'.mem) live live' := by
    intro t ht
    obtain ⟨t0, ht0, hKt, hsame⟩ := hs t ht
    exact ⟨t0, ht0, hKt, fun i hi _ => hsame.entries i hi⟩
  have hs' : ∀ t ∈ live', ∃ t0 ∈ live, SameHalf (phys s.mem) (phys s'.mem) t0 t := by
    intro t ht
    obtain ⟨t0, ht0, -, hsame⟩ := hs t ht
    exact ⟨t0, ht0, hsame⟩
  refine ⟨frames, more, ⟨⟨hacc.valid, hacc.aligned, hacc.form, ?_⟩, hK,
    h.shared.carried hcarried hK, h.slots.carry hs' fun b hb => List.mem_append_right _ hb,
    h.leaves.carry hs' ho⟩, hcarried, hlog⟩
  exact hacc.own.trans ((List.perm_append_comm_assoc _ _ _).append_left _)

/-- An operation on the user half of `t`. -/
lemma of_user (h : KernelInv H orig K ⟨s, live, mapped⟩ frames pinned) (ht : t ∈ live)
    {mapped' : List (Word × Word)}
    (hk : Kept H t (Inv.others live s.mem t ++ (frames ++ pinned)) s.mem s'.heap s'.mem)
    (he : ∀ i ∈ Lib.slots kernelHalf 3, entry (phys s'.mem) t i = entry (phys s.mem) t i)
    (ho : ∀ v, 256 ≤ index 3 v → Ours orig mapped' v → Ours orig mapped v)
    (hlog : FreesApart pinned s s') :
    StepKeeps H orig K ⟨s, live, mapped⟩ ⟨s', live, mapped'⟩ pinned := by
  obtain ⟨more, hacc⟩ := h.account.of_kept ht hk
  obtain ⟨-, -, hagree⟩ := hk
  have hpinned : AgreeOn pinned (phys s.mem) (phys s'.mem) := hagree.mono fun b hb =>
    List.mem_append_right _ (List.mem_append_right _ hb)
  refine h.of_sameHalf more hacc h.kernel (fun t1 ht1 => ⟨t1, ht1, id, ?_⟩) ho hlog
  by_cases htt : t1 = t
  · subst htt
    exact ⟨he, fun i hi => sameEntries_of_agreeOn hpinned (fun _ => slot_tables_aligned)
      (h.slots.pinned t1 ht1 i hi)⟩
  · refine h.sameHalf_of_agree ht1 (hagree _ (List.mem_append_left _ ?_)) hpinned
    exact List.mem_flatMap.mpr ⟨t1, (List.mem_erase_of_ne htt).mpr ht1,
      table_mem_blocks self_mem_tables_tree⟩

lemma clone (h : KernelInv H orig K ⟨s, live, mapped⟩ frames pinned) {p : Word} (ht : t ∈ live)
    (hrun : virtCloneMapping A t s = .ok (p, s')) :
    StepKeeps H orig K ⟨s, live, mapped⟩ ⟨s', p :: live, mapped⟩ pinned := by
  have hfoc := h.account.focus ht
  obtain ⟨hc, L, hL, hfreed, -⟩ := (wp_virtCloneMapping_log (E := fun _ => True) hfoc.aligned
    hfoc.valid hfoc.form (fun _ hb => .of_mem (hfoc.mem_own hb)) (.inl fun _ => trivial)).ok hrun
  have hpinned : AgreeOn pinned (phys s.mem) (phys s'.mem) := hc.agree.mono fun _ => h.pinned_own
  have hpml4 : ∀ t1 ∈ live, page4KIB t1 ∈ H.own s.heap := fun t1 ht1 =>
    (h.account.focus ht1).mem_own (table_mem_blocks self_mem_tables_tree)
  refine h.of_sameHalf [] (h.account.clone hc) (List.mem_cons_of_mem _ h.kernel)
    (fun t1 ht1 => ?_) (fun _ _ ho => ho) (.of_nothing ⟨L, hL, hfreed⟩)
  rcases List.mem_cons.mp ht1 with rfl | ht1
  · refine ⟨t, ht, ?_, fun i hi => ?_, fun i hi => ?_⟩
    · -- the new PML4 was not outstanding
      rintro rfl
      have hpair := (hc.own.pairwise_iff fun hd => Block.Disjoint.symm hd).mp (H.disjoint hc.valid)
      have hdis := (List.pairwise_append.mp hpair).2.2 _ (table_mem_blocks self_mem_tables_tree) _
        (hpml4 _ h.kernel)
      exact absurd rfl (hdis.ne (by norm_num))
    · obtain ⟨h1, h2⟩ := mem_slots_kernel.mp hi
      exact hc.kernelHalf i h1 h2
    · exact sameEntries_of_agreeOn hpinned (fun _ => slot_tables_aligned) (h.slots.pinned t ht i hi)
  · exact ⟨t1, ht1, id, h.sameHalf_of_agree ht1 (hc.agree _ (hpml4 t1 ht1)) hpinned⟩

lemma reset (hf : H.FreesReturn) (h : KernelInv H orig K ⟨s, live, mapped⟩ frames pinned)
    (ht : t ∈ live) (hrun : virtResetTable A K t s = .ok ((), s')) :
    StepKeeps H orig K ⟨s, live, mapped⟩ ⟨s', live, mapped⟩ pinned := by
  have hfoc := h.account.focus ht
  obtain ⟨-, hr, L, hL, hrel⟩ := (wp_virtResetTable_log hf (E := fun _ => True)
    (.inl fun _ => trivial) hfoc.aligned (fun _ _ => trivial) hfoc.form
    ⟨hfoc.valid, hfoc.own⟩).ok hrun
  refine h.of_user ht ((wp_virtResetTable_kept hf hfoc).ok hrun) (fun i hi => ?_)
    (fun _ _ ho => ho) ⟨L, hL, fun b hb c hc => h.apart (.inr ⟨t, ht, ?_⟩) hc⟩
  · obtain ⟨h1, h2⟩ := mem_slots_kernel.mp hi
    exact hr.same i h1 h2
  · rw [userTree, tree_user_eq]
    exact List.mem_cons_of_mem _ (hrel.freed.mem_iff.mp hb)

lemma cleanup (hf : H.FreesReturn) (h : KernelInv H orig K ⟨s, live, mapped⟩ frames pinned)
    (ht : t ∈ live) (htK : t ≠ K) (hrun : virtCleanupTable A t s = .ok ((), s')) :
    StepKeeps H orig K ⟨s, live, mapped⟩ ⟨s', live.erase t, mapped⟩ pinned := by
  have hfoc := h.account.focus ht
  obtain ⟨hfreed, L, hL, hrel⟩ := (wp_virtCleanupTable_log hf (E := fun _ => True)
    (.inl fun _ => trivial) hfoc.aligned hfoc.form ⟨hfoc.valid, hfoc.own⟩).ok hrun
  refine h.of_sameHalf [] (h.account.cleanup hfreed)
    ((List.mem_erase_of_ne htK.symm).mpr h.kernel) (fun t1 ht1 => ?_) (fun _ _ ho => ho)
    ⟨L, hL, fun b hb c hc => h.apart (.inr ⟨t, ht, hrel.freed.mem_iff.mp hb⟩) hc⟩
  have hmem := List.mem_of_mem_erase ht1
  refine ⟨t1, hmem, id, h.sameHalf_of_agree hmem (hfreed.agree _ (List.mem_append_left _ ?_))
    (hfreed.agree.mono fun b hb => List.mem_append_right _ (List.mem_append_right _ hb))⟩
  exact List.mem_flatMap.mpr ⟨t1, ht1, table_mem_blocks self_mem_tables_tree⟩

/-- A page of the user half is mapped. -/
lemma map_user (h : KernelInv H orig K ⟨s, live, mapped⟩ frames pinned) {flags pageSize : Word}
    {ret : Byte × Word} (ht : t ∈ live) (hv : v.toNat < 2 ^ 47)
    (hrun : virtMapPage A t v flags pageSize s = .ok (ret, s')) :
    StepKeeps H orig K ⟨s, live, mapped⟩
      ⟨s', live, if ret.1 = 0 then mapped else (v, pageSize) :: mapped⟩ pinned := by
  have hfoc := h.account.focus ht
  have hlt : index 3 v < 256 := of_decide_eq_true (user_index hv)
  have hpml4 := (wp_virtMapPage_pml4 hfoc.rooted (user_index hv) flags pageSize).ok hrun
  refine h.of_user ht ((wp_virtMapPage_kept hfoc hv).ok hrun) (fun i hi => ?_) (fun w hw ho => ?_)
    (.of_nothing ((freesNothing_virtMapPage A t v flags pageSize s).ok hrun))
  · obtain ⟨h1, h2⟩ := mem_slots_kernel.mp hi
    exact hpml4 i h2 (.inl (by omega))
  · -- the page of `v` is not among the kernel's addresses
    intro horig
    obtain ⟨c, hc, hsame⟩ := ho horig
    split at hc
    · exact ⟨c, hc, hsame⟩
    · rcases List.mem_cons.mp hc with rfl | hc
      · have hdown := (samePage_iff _ _ _).mp hsame
        have hi : index 3 w = index 3 v := hdown 3 (pageLevel_le pageSize) le_rfl
        omega
      · exact ⟨c, hc, hsame⟩

lemma unmap_user (hf : H.FreesReturn) (h : KernelInv H orig K ⟨s, live, mapped⟩ frames pinned)
    (ht : t ∈ live) (hv : v.toNat < 2 ^ 47) (hrun : virtUnmapPage A t v s = .ok ((), s')) :
    StepKeeps H orig K ⟨s, live, mapped⟩ ⟨s', live, mapped⟩ pinned := by
  have hfoc := h.account.focus ht
  obtain ⟨k, base, u, m1, hl⟩ := (wp_virtUnmapPage_exact hfoc.rooted (user_index hv)).ok hrun
  obtain ⟨hc, -⟩ := hl.cleared hfoc.rooted (user_index hv) (hfoc.freeKeeps hf hv)
  obtain ⟨L, hL, hfreed, -⟩ := hl.log
  refine h.of_user ht ((wp_virtUnmapPage_kept hf hfoc hv).ok hrun) (fun i hi => ?_)
    (fun _ _ ho => ho) ⟨L, hL, fun b hb c hc' => h.apart (.inr ⟨t, ht, ?_⟩) hc'⟩
  · exact hc.pml4 (user_index hv) hl.level (mem_slots.mp hi).1
  · rw [hfreed, List.mem_singleton] at hb
    rw [hb]
    exact List.mem_map_of_mem (walk_mem (by norm_num) (user_index hv) hl.walk)

/-! ## Steps that change a kernel half -/

/-- One slot of the PML4, as the choice that singles it out. -/
def oneSlot (i : ℕ) : ℕ → Bool := fun j => decide (j = i)

lemma slots_oneSlot {i : ℕ} (hi : i < 512) : Lib.slots (oneSlot i) 3 = [i] := by
  refine List.perm_singleton.mp ((List.perm_ext_iff_of_nodup (slots_nodup _ _)
    (List.nodup_singleton i)).mpr fun j => ?_)
  rw [mem_slots, oneSlot, decide_eq_true_iff, List.mem_singleton]
  exact ⟨fun hj => hj.2.resolve_left (by norm_num), fun hj => ⟨hj ▸ hi, .inr hj⟩⟩

lemma tree_oneSlot (P : Mem) (t : Word) {i : ℕ} (hi : i < 512) :
    tree P (oneSlot i) 3 t = tablePage t :: kernelSlot P t i := by
  rw [tree, slots_oneSlot hi, List.flatMap_singleton, slotTree_top _ kernelHalf 3 le_rfl]
  rfl

/-- The PML4 of a live page table is apart from the tables of all kernel halves. -/
lemma pml4_apart (h : KernelInv H orig K ⟨s, live, mapped⟩ frames pinned) (ht : t ∈ live)
    {b : Block} (hb : b ∈ pinned) : (page4KIB t).Disjoint b :=
  h.apart (.inr ⟨t, ht, table_mem_blocks self_mem_tables_tree⟩) hb

lemma rooted (h : KernelInv H orig K ⟨s, live, mapped⟩ frames pinned) (ht : t ∈ live) {i : ℕ}
    (hi : i ∈ Lib.slots kernelHalf 3) : Rooted H (oneSlot i) t s.heap s.mem := by
  have hlt := (mem_slots.mp hi).1
  refine ⟨h.account.valid, h.account.aligned t ht, ?_, fun u hu => ?_, fun j hj => ?_⟩
  · rw [tree_oneSlot _ _ hlt, tables_cons_table, List.nodup_cons]
    refine ⟨fun hu => ?_, h.slots.nodup t ht i hi⟩
    exact (h.pml4_apart ht (h.slots.pinned t ht i hi t hu)).ne (by norm_num) rfl
  · rw [tree_oneSlot _ _ hlt, tables_cons_table, List.mem_cons] at hu
    rcases hu with rfl | hu
    · exact (h.account.focus ht).mem_own (table_mem_blocks self_mem_tables_tree)
    · exact h.pinned_own (h.slots.pinned t ht i hi u hu)
  · rw [slots_oneSlot hlt, List.mem_singleton] at hj
    rw [hj]
    exact slotAll_top (oneSlot i) 3 le_rfl (h.slots.form t ht i hi)

/-- What an operation at a kernel address `v` of the page table `t` may write: of the PML4 the
slot of `v` unless something is present there, and the tables below that slot. -/
structure KernelWrite (s : Machine α) (live : List Word) (pinned : List Block) (t v : Word)
    (m' : Mem) : Prop where
  pml4 : Pml4Kept (phys s.mem) (phys m') t v
  others : ∀ b, (b ∈ pinned ∨ ∃ t' ∈ live, b ∈ blocks (userTree s.mem t')) →
    (page4KIB t).Disjoint b →
    (∀ u ∈ tables (kernelSlot (phys s.mem) t (index 3 v)), (page4KIB u).Disjoint b) →
    ∀ x, b.Has x → phys m' x = phys s.mem x

section Write

variable {m' : Mem}

/-- The pages of the user halves, but for the PML4 itself, are not among those written. -/
lemma kept_user (h : KernelInv H orig K ⟨s, live, mapped⟩ frames pinned)
    (hw : KernelWrite s live pinned t v m') (ht : t ∈ live) (hv : 256 ≤ index 3 v) {t' : Word}
    (ht' : t' ∈ live) {b : Block} (hb : b ∈ blocks (userTree s.mem t'))
    (hne : b ≠ page4KIB t) : ∀ x, b.Has x → phys m' x = phys s.mem x := by
  refine hw.others b (.inr ⟨t', ht', hb⟩) ?_ fun u hu =>
    (h.apart (.inr ⟨t', ht', hb⟩) (h.slots.pinned t ht _ (index_kernel hv) u hu)).symm
  have hsymm : Std.Symm Block.Disjoint := ⟨fun _ _ hd => hd.symm⟩
  exact (List.pairwise_append.mp h.disjoint).1.forall
    (List.mem_flatMap.mpr ⟨t, ht, table_mem_blocks self_mem_tables_tree⟩)
    (List.mem_flatMap.mpr ⟨t', ht', hb⟩) hne.symm

lemma userTree_kept (h : KernelInv H orig K ⟨s, live, mapped⟩ frames pinned)
    (hw : KernelWrite s live pinned t v m') (ht : t ∈ live) (hv : 256 ≤ index 3 v) {t' : Word}
    (ht' : t' ∈ live) : userTree m' t' = userTree s.mem t' ∧
      TableAll EntryForm (phys m') userHalf 3 t' := by
  have hfoc := h.account.focus ht'
  have hentry : ∀ i < 256, entry (phys m') t' i = entry (phys s.mem) t' i := by
    intro i hi
    by_cases htt : t' = t
    · rw [htt]
      exact hw.pml4 i (by omega) (.inl (by omega))
    · refine entry_congr hfoc.aligned (by omega) (h.kept_user hw ht hv ht'
        (table_mem_blocks self_mem_tables_tree) fun he => htt ?_)
      exact congrArg Block.base he
  have hsame : ∀ i < 256, SameEntries (tables (slotTree (phys s.mem) userHalf 3
      (entry (phys s.mem) t' i))) (phys s.mem) (phys m') := by
    intro i hi u hu j hj
    have hmem : u ∈ tables (userTree s.mem t') := tables_slot_subset_tree (mem_slots_user hi) hu
    refine entry_congr (slot_tables_aligned hu) hj (h.kept_user hw ht hv ht'
      (table_mem_blocks hmem) fun he => ?_)
    -- a table of a user half is no PML4
    have hut : u = t := congrArg Block.base he
    subst hut
    by_cases htt : t' = u
    · subst htt
      exact self_not_mem_slot hfoc.rooted.nodup (mem_slots_user hi) hu
    · refine (hfoc.apart (table_mem_blocks hmem) (List.mem_append_left _ ?_)).ne (by norm_num) rfl
      exact List.mem_flatMap.mpr ⟨u, (List.mem_erase_of_ne (Ne.symm htt)).mpr ht,
        table_mem_blocks self_mem_tables_tree⟩
  refine ⟨?_, fun i hi => ?_⟩
  · rw [userTree, userTree, tree_user_eq, tree_user_eq, slotsUpTo_congr hentry hsame]
  · rw [slots_userHalf, List.mem_range] at hi
    rw [hentry i hi]
    exact slotAll_congr 3 (hsame i hi) (h.account.form t' ht' i (mem_slots_user hi))

lemma slotChanged (h : KernelInv H orig K ⟨s, live, mapped⟩ frames pinned)
    (hw : KernelWrite s live pinned t v m') (ht : t ∈ live) (hv : 256 ≤ index 3 v) :
    SlotChanged (phys s.mem) (phys m') live t (index 3 v) := by
  have hpml4 : ∀ t' ∈ live, t' ≠ t → ∀ i < 512,
      entry (phys m') t' i = entry (phys s.mem) t' i := fun t' ht' hne i hi =>
    entry_congr (h.account.aligned t' ht') hi (h.kept_user hw ht hv ht'
      (table_mem_blocks self_mem_tables_tree) fun he => hne (congrArg Block.base he))
  refine ⟨fun t' ht' i hh => ?_, fun t' ht' i hi hn => ⟨?_, fun u hu j hj => ?_⟩⟩
  · obtain ⟨rfl, he, hp⟩ := hh
    by_cases htt : t' = t
    · rw [htt]
    · rw [hpml4 t' ht' htt _ (index_lt 3 v), he]
      exact (hw.pml4 _ (index_lt 3 v) (.inr (hp.resolve_left htt))).symm
  · by_cases htt : t' = t
    · subst htt
      exact hw.pml4 i (mem_slots.mp hi).1 (.inl fun hiv => hn (hiv ▸ Hit.self _ _ _))
    · exact hpml4 t' ht' htt i (mem_slots.mp hi).1
  · have hmem := h.slots.pinned t' ht' i hi u hu
    refine entry_congr (slot_tables_aligned hu) hj (hw.others _ (.inl hmem) (h.pml4_apart ht hmem)
      fun u' hu' => Block.disjoint_of_dvd (slot_tables_aligned hu') (slot_tables_aligned hu) ?_)
    rintro rfl
    obtain ⟨hij, he⟩ := h.slots.owner t' ht' t ht i hi _ (index_kernel hv) u' hu hu'
    exact hn ⟨hij, he, .inr (present_of_table hu')⟩

/-- The account, the tables and the frames after such an operation. -/
lemma of_write (h : KernelInv H orig K ⟨s, live, mapped⟩ frames pinned) (ht : t ∈ live)
    (hv : 256 ≤ index 3 v) (hw : KernelWrite s live pinned t v s'.mem)
    {mapped' : List (Word × Word)} (frames' more : List Block)
    (hafter : Rooted H (oneSlot (index 3 v)) t s'.heap s'.mem)
    (hown : (H.own s'.heap).Perm (live.flatMap (fun t => blocks (userTree s.mem t))
      ++ (frames' ++ (more ++ pinned))))
    (hnew : ∀ u ∈ tables (kernelSlot (phys s'.mem) t (index 3 v)),
      u ∈ tables (kernelSlot (phys s.mem) t (index 3 v)) ∨
        (page4KIB u ∈ more ++ pinned ∧ page4KIB u ∉ pinned))
    (hleaves : KernelFrames (phys s'.mem) live (Ours orig mapped') frames')
    (hlog : FreesApart pinned s s') :
    StepKeeps H orig K ⟨s, live, mapped⟩ ⟨s', live, mapped'⟩ pinned := by
  have hc := h.slotChanged hw ht hv
  have hi := index_kernel hv
  have hcarried : Carried K (phys s.mem) (phys s'.mem) live live := by
    intro t' ht'
    refine ⟨t', ht', id, fun i hi hp => ?_⟩
    by_cases hh : Hit (phys s.mem) t (index 3 v) t' i
    · rw [hc.hit t' ht' i hh, hh.2.1]
      exact hw.pml4 _ (index_lt 3 v) (.inr (by rwa [← hh.2.1]))
    · exact (hc.kept t' ht' i hi hh).1
  have htables : tables (tree (phys s'.mem) (oneSlot (index 3 v)) 3 t)
      = t :: tables (kernelSlot (phys s'.mem) t (index 3 v)) := by
    rw [tree_oneSlot _ _ (index_lt 3 v), tables_cons_table]
  have hnd := hafter.nodup
  rw [htables, List.nodup_cons] at hnd
  have hform := hafter.form (index 3 v) (by
    rw [slots_oneSlot (index_lt 3 v)]
    exact List.mem_singleton_self _)
  refine ⟨frames', more, ⟨⟨hafter.valid, h.account.aligned,
    fun t' ht' => (h.userTree_kept hw ht hv ht').2, ?_⟩, h.kernel,
    h.shared.carried hcarried h.kernel, h.slots.change hc ht hi (slotAll_top kernelHalf 3 le_rfl
      hform) hnd.2 (fun b hb => List.mem_append_right _ hb) hnew, hleaves⟩, hcarried, hlog⟩
  have husers : live.flatMap (fun t => blocks (userTree s'.mem t))
      = live.flatMap fun t => blocks (userTree s.mem t) :=
    List.flatMap_congr fun t' ht' => by rw [(h.userTree_kept hw ht hv ht').1]
  dsimp only
  rw [husers]
  exact hown

end Write

/-- A page of the kernel half is mapped. -/
lemma map_kernel (h : KernelInv H orig K ⟨s, live, mapped⟩ frames pinned) {flags pageSize : Word}
    {ret : Byte × Word} (ht : t ∈ live) (hv : 256 ≤ index 3 v)
    (hrun : virtMapPage A t v flags pageSize s = .ok (ret, s')) :
    StepKeeps H orig K ⟨s, live, mapped⟩
      ⟨s', live, if ret.1 = 0 then mapped else (v, pageSize) :: mapped⟩ pinned := by
  have hlt := index_lt 3 v
  have htop : oneSlot (index 3 v) (index 3 v) = true := decide_eq_true rfl
  have hroot := h.rooted ht (index_kernel hv)
  have hlog : FreesApart pinned s s' :=
    .of_nothing ((freesNothing_virtMapPage A t v flags pageSize s).ok hrun)
  have hpml4 := (wp_virtMapPage_pml4 hroot htop flags pageSize).ok hrun
  have hmem : ∀ {b}, (b ∈ pinned ∨ ∃ t' ∈ live, b ∈ blocks (userTree s.mem t')) →
      b ∈ H.own s.heap := by
    rintro b (hb | ⟨t', ht', hb⟩)
    · exact h.pinned_own hb
    · exact (h.account.focus ht').mem_own hb
  rcases (wp_virtMapPage (E := fun _ => True) hroot htop flags pageSize
    (.inl fun _ => trivial)).ok hrun with ⟨rfl, -, hvalid, hown, hagree⟩ | ⟨hret, -, hmapped⟩
  · -- there was no frame
    rw [if_pos rfl]
    refine h.of_sameHalf [] ⟨hvalid, h.account.aligned, fun t1 ht1 => ?_, ?_⟩ h.kernel
      (fun t1 ht1 => ⟨t1, ht1, id, ?_⟩) (fun _ _ ho => ho) hlog
    · exact tableAll_congr (h.account.same hagree ht1) (h.account.form t1 ht1)
    · have husers : live.flatMap (fun t => blocks (userTree s'.mem t))
          = live.flatMap fun t => blocks (userTree s.mem t) :=
        List.flatMap_congr fun t1 ht1 => by
          rw [userTree, tree_congr (h.account.same hagree ht1)]
          rfl
      dsimp only
      rw [husers]
      exact hown.trans h.account.own
    · exact h.sameHalf_of_agree ht1
        (hagree _ (hmem (.inr ⟨t1, ht1, table_mem_blocks self_mem_tables_tree⟩)))
        (hagree.mono fun _ => h.pinned_own)
  · obtain ⟨a1, m1, hv1, -, hh, m2, new, u, e', he⟩ := hmapped
    have hsame1 := hroot.same hh.agree
    have htree1 : tree (phys m1) (oneSlot (index 3 v)) 3 t = _ := tree_congr hsame1
    have hw : KernelWrite s live pinned t v s'.mem := by
      refine ⟨hpml4, fun b hb hbt hbs x hx => ?_⟩
      rw [he.others htop (hh.outstanding.mem_iff.mpr (List.mem_cons_of_mem _ (hmem hb)))
        (fun u hu => ?_) hx, hh.agree b (hmem hb) x hx]
      rw [htree1, tree_oneSlot _ _ hlt, tables_cons_table, List.mem_cons] at hu
      rcases hu with rfl | hu
      · exact hbt
      · exact hbs u hu
    have hwalk : ∀ w, index 3 w = index 3 v →
        walk (phys m1) 3 t w = walk (phys s.mem) 3 t w := fun w hi =>
      walk_congr (by norm_num) (by rw [hi]; exact htop) hsame1
    -- the new tables were not outstanding
    have hfresh : ∀ u ∈ new, page4KIB u ∉ H.own s.heap := by
      intro u hu hmem
      have hpair := (he.grown.own.pairwise_iff fun hd => Block.Disjoint.symm hd).mp
        (H.disjoint he.before.valid)
      exact ((List.pairwise_append.mp hpair).2.2 _ (List.mem_map_of_mem hu) _
        (hh.outstanding.mem_iff.mpr (List.mem_cons_of_mem _ hmem))).ne (by norm_num) rfl
    have hret0 : ret.1 ≠ 0 := by
      rw [hret]
      decide
    rw [if_neg hret0]
    refine h.of_write ht hv hw (⟨ret.2, 2 ^ (12 + 9 * pageLevel pageSize)⟩ :: frames)
      (new.map page4KIB) he.after ?_ (fun u hu => ?_) ?_ hlog
    · calc (H.own s'.heap).Perm (new.map page4KIB ++ H.own a1) := he.grown.own
        _ |>.Perm (new.map page4KIB ++ (⟨ret.2, 2 ^ (12 + 9 * pageLevel pageSize)⟩
            :: (live.flatMap (fun t => blocks (userTree s.mem t)) ++ (frames ++ pinned)))) :=
          (hh.outstanding.trans (h.account.own.cons _)).append_left _
        _ |>.Perm (new.map page4KIB ++ (live.flatMap (fun t => blocks (userTree s.mem t))
            ++ (⟨ret.2, 2 ^ (12 + 9 * pageLevel pageSize)⟩ :: frames ++ pinned))) :=
          List.perm_middle.symm.append_left _
        _ |>.Perm _ := by
          refine (List.perm_append_comm_assoc _ _ _).trans (.append_left _ ?_)
          exact List.perm_append_comm_assoc _ _ _
    · obtain ⟨old, kept, h1, h2⟩ := he.pages htop
      have hall : u ∈ tables (tree (phys s'.mem) (oneSlot (index 3 v)) 3 t) := by
        rw [tree_oneSlot _ _ hlt, tables_cons_table]
        exact List.mem_cons_of_mem _ hu
      rw [(tables_perm h2).mem_iff, tables_cons_frame] at hall
      have hmem' := (tables_perm h1).mem_iff.mpr (by
        rw [tables_append]
        exact List.mem_append_right _ hall)
      rw [tables_append, tables_map_tablePage, htree1, tree_oneSlot _ _ hlt, tables_cons_table,
        List.mem_append, List.mem_cons] at hmem'
      rcases hmem' with hu' | rfl | hu'
      · exact .inr ⟨List.mem_append_left _ (List.mem_map_of_mem hu'),
          fun hp => hfresh u hu' (h.pinned_own hp)⟩
      · have hnd := he.after.nodup
        rw [tree_oneSlot _ _ hlt, tables_cons_table, List.nodup_cons] at hnd
        exact absurd hu hnd.1
      · exact .inl hu'
    · refine h.leaves.enter (h.slotChanged hw ht hv) (fun hmem' => ?_) (fun w hdown hi => ?_)
        (fun w hi hdown => ?_) fun t' ht' w hw' ho hth horig => ?_
      · have hdis := hh.fresh _ (h.account.own.mem_iff.mpr (List.mem_append_right _
          (List.mem_append_left _ hmem')))
        exact hdis.ne (Nat.two_pow_pos _) rfl
      · exact he.walk_same htop hdown
      · rw [he.walk_other htop (by rw [hi]; exact htop) hdown, hwalk w hi]
      · -- an original slot is shared by all page tables
        obtain ⟨c, hc, hsame⟩ := ho horig
        rcases List.mem_cons.mp hc with rfl | hc
        · have hdown : SameDown (pageLevel pageSize) 3 v w := (samePage_iff _ _ _).mp hsame
          have hi : index 3 w = index 3 v := hdown 3 (pageLevel_le pageSize) le_rfl
          obtain ⟨hp, hall⟩ := h.shared _ (index_kernel hw') horig
          refine absurd ⟨⟨hi, ?_, .inr ?_⟩, hdown⟩ hth
          · rw [← hi, hall t' ht', hall t ht]
          · rw [← hi, hall t ht]
            exact hp
        · exact ⟨c, hc, hsame⟩

/-- A page of the kernel half is unmapped. -/
lemma unmap_kernel (hf : H.FreesReturn) (h : KernelInv H orig K ⟨s, live, mapped⟩ frames pinned)
    (ht : t ∈ live) (hv : 256 ≤ index 3 v) (hov : Ours orig mapped v)
    (hrun : virtUnmapPage A t v s = .ok ((), s')) :
    StepKeeps H orig K ⟨s, live, mapped⟩ ⟨s', live, mapped⟩ pinned := by
  have hlt := index_lt 3 v
  have htop : oneSlot (index 3 v) (index 3 v) = true := decide_eq_true rfl
  have hroot := h.rooted ht (index_kernel hv)
  have hframe : ∀ base n, walk (phys s.mem) 3 t v = some (base, n) →
      Block.mk base n ∈ frames := h.leaves.mem t ht v hv hov
  have htables : ∀ {b}, b ∈ frames →
      ∀ u ∈ tables (tree (phys s.mem) (oneSlot (index 3 v)) 3 t), (page4KIB u).Disjoint b := by
    intro b hb u hu
    rw [tree_oneSlot _ _ hlt, tables_cons_table, List.mem_cons] at hu
    rcases hu with rfl | hu
    · exact (h.account.focus ht).apart (table_mem_blocks self_mem_tables_tree)
        (List.mem_append_right _ (List.mem_append_left _ hb))
    · exact (h.apart (.inl hb) (h.slots.pinned t ht _ (index_kernel hv) u hu)).symm
  have hfree := hroot.freeKeeps hf htop fun base n hwalk =>
    ⟨h.account.own.mem_iff.mpr (List.mem_append_right _ (List.mem_append_left _
      (hframe base n hwalk))), htables (hframe base n hwalk)⟩
  obtain ⟨k, base, u, m1, hl⟩ := (wp_virtUnmapPage_exact hroot htop).ok hrun
  obtain ⟨hc, hret⟩ := hl.cleared hroot htop hfree
  have hret := hret base _ hl.walk
  have hb := hframe base _ hl.walk
  obtain ⟨L, hL, hfreed, -⟩ := hl.log
  have hw : KernelWrite s live pinned t v s'.mem := by
    refine ⟨fun i hi _ => hc.pml4 htop hl.level hi, fun b hbmem hbt hbs x hx => ?_⟩
    have hne : (Block.mk base (2 ^ (12 + 9 * k))).Disjoint b := by
      rcases hbmem with hp | ⟨t', ht', hb'⟩
      · exact h.apart (.inl hb) hp
      · exact ((h.account.focus ht').apart hb' (List.mem_append_right _
          (List.mem_append_left _ hb))).symm
    have hown : b ∈ H.own s.heap := by
      rcases hbmem with hp | ⟨t', ht', hb'⟩
      · exact h.pinned_own hp
      · exact (h.account.focus ht').mem_own hb'
    have hown' : b ∈ H.own s'.heap := by
      refine (List.mem_cons.mp (hret.outstanding.mem_iff.mp hown)).resolve_left ?_
      exact (hne.ne (Nat.two_pow_pos _)).symm
    have hu : (page4KIB u).Disjoint b := by
      have hmem := hl.reaches.mem_tables htop
      rw [tree_oneSlot _ _ hlt, tables_cons_table, List.mem_cons] at hmem
      rcases hmem with rfl | hmem
      · exact hbt
      · exact hbs u hmem
    rw [hl.stored, phys_storeEntry, entry_store64_outside _ _
      (hroot.reached_aligned htop hl.reaches) (index_lt k v) (hu.not_has hx)]
    exact hret.agree b hown' x hx
  refine h.of_write ht hv hw (frames.erase ⟨base, 2 ^ (12 + 9 * k)⟩) [] hc.after ?_
    (fun u' hu' => .inl ?_) ?_ ⟨L, hL, fun b' hb' c hc' => ?_⟩
  · refine (hret.outstanding.symm.trans (h.account.own.trans ?_)).cons_inv
    refine (((List.perm_cons_erase hb).append_right pinned).append_left _).trans ?_
    exact List.perm_middle
  · have hmem : u' ∈ tables (tree (phys s'.mem) (oneSlot (index 3 v)) 3 t) := by
      rw [tree_oneSlot _ _ hlt, tables_cons_table]
      exact List.mem_cons_of_mem _ hu'
    have hall := (tables_perm (hc.pages htop)).mem_iff.mpr (by
      rw [tables_cons_frame]
      exact hmem)
    rw [tree_oneSlot _ _ hlt, tables_cons_table, List.mem_cons] at hall
    refine hall.resolve_left ?_
    rintro rfl
    have hnd := hc.after.nodup
    rw [tree_oneSlot _ _ hlt, tables_cons_table, List.nodup_cons] at hnd
    exact hnd.1 hu'
  · refine h.leaves.clear (h.slotChanged hw ht hv) ht hv hov hl.walk (fun w hdown _ => ?_)
      fun w hi hdown => ?_
    · exact hc.walk_same htop hdown
    · exact hc.walk_other htop (by rw [hi]; exact htop) hdown
  · rw [hfreed, List.mem_singleton] at hb'
    rw [hb']
    exact h.apart (.inl hb) hc'

/-! ## Runs -/

lemma step (hf : H.FreesReturn) {w w' : Paged α} (h : KernelInv H orig K w frames pinned)
    (hs : PageStep A K w w') : StepKeeps H orig K w w' pinned := by
  have hcases : ∀ {v : Word}, Canonical v → v.toNat < 2 ^ 47 ∨ 256 ≤ index 3 v := by
    rintro v (hv | hv)
    · exact .inl hv
    · have hlt := v.isLt
      right
      rw [index]
      norm_num
      omega
  cases hs with
  | clone ht hrun => exact h.clone ht hrun
  | map ht hv hrun =>
    rcases hcases hv with hv | hv
    · exact h.map_user ht hv hrun
    · exact h.map_kernel ht hv hrun
  | unmap ht hv hc hrun =>
    rcases hcases hv with hv | hv
    · exact h.unmap_user hf ht hv hrun
    · exact h.unmap_kernel hf ht hv (fun _ => hc) hrun
  | reset ht hrun => exact h.reset hf ht hrun
  | cleanup ht hne hrun => exact h.cleanup hf ht hne hrun

/-- The invariant of a whole run, during which nothing that is pinned is given back. -/
lemma run (hf : H.FreesReturn) {w w' : Paged α} (h : KernelInv H orig K w frames pinned)
    (hr : PageRun A K w w') : ∃ frames' more, KernelInv H orig K w' frames' (more ++ pinned) ∧
      FreesApart pinned w.machine w'.machine ∧
      ∀ orig', Shared orig' K (phys w.machine.mem) w.live →
        Shared orig' K (phys w'.machine.mem) w'.live := by
  induction hr with
  | refl => exact ⟨frames, [], h, ⟨[], (List.append_nil _).symm, fun b hb =>
      absurd hb List.not_mem_nil⟩, fun _ hs => hs⟩
  | tail _ hs ih =>
    obtain ⟨frames1, more1, h1, hlog1, hshared1⟩ := ih
    obtain ⟨frames2, more2, h2, hcarried, hlog2⟩ := h1.step hf hs
    rw [← List.append_assoc] at h2
    exact ⟨frames2, _, h2, hlog1.trans (fun b hb => List.mem_append_right _ hb) hlog2,
      fun orig' ho => (hshared1 orig' ho).carried hcarried h2.kernel⟩

end KernelInv

/-- At the start everything outstanding but the PML4 is pinned. -/
lemma KernelStart.inv {kernelTable : Word} {s : Machine α} (hs : KernelStart H kernelTable s) :
    KernelInv H (fun i => entry (phys s.mem) kernelTable i &&& presentBit ≠ 0) kernelTable
      ⟨s, [kernelTable], []⟩ [] ((H.own s.heap).erase (page4KIB kernelTable)) := by
  have hroot := hs.rooted
  have hnodup := hroot.nodup
  rw [tables_tree, List.nodup_cons, List.nodup_flatMap] at hnodup
  obtain ⟨hself, hslot, hpair⟩ := hnodup
  have hwhole : ∀ i ∈ slots kernelHalf 3, i ∈ slots wholeTable 3 := fun i hi => by
    rw [slots_wholeTable]
    exact List.mem_append_right _ hi
  have htree : ∀ i, kernelSlot (phys s.mem) kernelTable i
      = slotTree (phys s.mem) wholeTable 3 (entry (phys s.mem) kernelTable i) := fun i =>
    slotTree_top kernelHalf wholeTable 3 le_rfl
  refine ⟨accounts_start hroot.valid hroot.aligned hroot.root_owned hs.user,
    List.mem_singleton_self _, fun i _ ho => ⟨ho, fun t ht => ?_⟩, ⟨fun t ht i hi => ?_,
    fun t ht i hi => ?_, fun t ht i hi u hu => ?_, fun t ht t' ht' i hi j hj u hu hu' => ?_⟩,
    ⟨fun t ht v hv ho b n hb => ?_, fun t ht t' ht' v v' hv hv' ho ho' b n hb hb' => ?_⟩⟩
  · rw [List.mem_singleton.mp ht]
  · rw [List.mem_singleton.mp ht]
    exact slotAll_top kernelHalf 3 le_rfl (hroot.form i (hwhole i hi))
  · rw [List.mem_singleton.mp ht, htree]
    exact hslot i (hwhole i hi)
  · rw [List.mem_singleton.mp ht, htree] at hu
    refine (List.mem_erase_of_ne fun he => ?_).mpr
      (hroot.owned u (tables_slot_subset_tree (hwhole i hi) hu))
    have hut : u = kernelTable := congrArg Block.base he
    rw [hut] at hu
    exact hself (List.mem_flatMap.mpr ⟨i, hwhole i hi, hu⟩)
  · rw [List.mem_singleton.mp ht, htree] at hu
    rw [List.mem_singleton.mp ht', htree] at hu'
    rw [List.mem_singleton.mp ht, List.mem_singleton.mp ht']
    by_cases hij : i = j
    · exact ⟨hij, by rw [hij]⟩
    · exact absurd hu' (not_mem_other_slot hroot.nodup (hwhole j hj) (hwhole i hi)
        (Ne.symm hij) hu)
  · rw [List.mem_singleton.mp ht] at hb
    obtain ⟨c, hc, -⟩ := ho (present_of_walk hb)
    exact absurd hc List.not_mem_nil
  · rw [List.mem_singleton.mp ht] at hb
    obtain ⟨c, hc, -⟩ := ho (present_of_walk hb)
    exact absurd hc List.not_mem_nil

/-! ## Coherence -/

/-- What holds in `w` of the kernel half, for the slots that are present in the kernel's table in
`w0`. -/
structure Coherent (A : PhysAllocator α) (H : PhysHeap A) (kernelTable : Word) (w0 w : Paged α) :
    Prop where
  same : ∀ v, 256 ≤ index 3 v →
    entry (phys w0.machine.mem) kernelTable (index 3 v) &&& presentBit ≠ 0 →
    ∀ t ∈ w.live, walkEntries (phys w.machine.mem) 3 t v
        = walkEntries (phys w.machine.mem) 3 kernelTable v ∧
      translation (phys w.machine.mem) t v = translation (phys w.machine.mem) kernelTable v
  kept : ∀ i, 256 ≤ i → i < 512 → entry (phys w0.machine.mem) kernelTable i &&& presentBit ≠ 0 →
    ∀ t ∈ w.live, ∀ u ∈ tables (kernelSlot (phys w.machine.mem) t i),
      page4KIB u ∈ H.own w.machine.heap ∧
        ∀ w', PageRun A kernelTable w w' → FreesApart [page4KIB u] w.machine w'.machine

/-- From any state in which the kernel's table is the only one in use, such as the one before the
first clone. -/
theorem kernelHalf_coherent (hf : H.FreesReturn) {kernelTable : Word} {s : Machine α}
    (hs : KernelStart H kernelTable s) {w0 w : Paged α}
    (h0 : PageRun A kernelTable ⟨s, [kernelTable], []⟩ w0) (honly : w0.live = [kernelTable])
    (h : PageRun A kernelTable w0 w) : Coherent A H kernelTable w0 w := by
  obtain ⟨frames0, more0, hinv0, -, -⟩ := hs.inv.run hf h0
  obtain ⟨frames1, more1, hinv, -, hshared⟩ := hinv0.run hf h
  have hall := hshared (fun i => entry (phys w0.machine.mem) kernelTable i &&& presentBit ≠ 0)
    fun i _ hp => ⟨hp, fun t ht => by
      rw [honly, List.mem_singleton] at ht
      rw [ht]⟩
  refine ⟨fun v hv hp t ht => ?_, fun i h1 h2 _ t ht u hu => ?_⟩
  · have he := (hall _ (index_kernel hv) hp).2 t ht
    constructor
    · rw [walkEntries, walkEntries, he]
    · rw [translation, translation, walk, walk, he]
  · have hmem := hinv.slots.pinned t ht i (mem_slots_kernel.mpr ⟨h1, h2⟩) u hu
    refine ⟨hinv.pinned_own hmem, fun w' hr => ?_⟩
    obtain ⟨-, -, -, ⟨L, hL, hfreed⟩, -⟩ := hinv.run hf hr
    refine ⟨L, hL, fun b hb c hc => ?_⟩
    rw [List.mem_singleton.mp hc]
    exact hfreed b hb _ hmem

namespace Bump

/-- A PML4 at `0x1000` with a PDPT at `0x2000` for the first slot of the kernel half. -/
def kernelStart : Machine Bump :=
  ⟨fun x => memOfWords (fun w => if w = 512 + 256 then 0x2003 else 0) (virtToPhys x),
    ⟨1, [page4KIB 0x1000, page4KIB 0x2000]⟩, []⟩

lemma kernelStart_entry {t : Word} {i : ℕ} (ht : 4096 ∣ t.toNat) (hi : i < 512) :
    entry (phys kernelStart.mem) t i
      = if t.toNat / 8 + i = 512 + 256 then 0x2003 else 0 := by
  have hP : phys kernelStart.mem = memOfWords fun w => if w = 512 + 256 then 0x2003 else 0 := by
    funext x
    simp only [phys, kernelStart, virtToPhys_physToVirt]
  rw [hP, entry_memOfWords _ ht hi]

lemma kernelStart_pml4 {i : ℕ} (hi : i < 512) :
    entry (phys kernelStart.mem) 0x1000 i = if i = 256 then 0x2003 else 0 := by
  rw [kernelStart_entry (by decide) hi]
  exact if_congr (by show 0x1000 / 8 + i = _ ↔ _; omega) rfl rfl

lemma kernelStart_pdpt {i : ℕ} (hi : i < 512) : entry (phys kernelStart.mem) 0x2000 i = 0 := by
  rw [kernelStart_entry (by decide) hi]
  exact if_neg (by show ¬(0x2000 / 8 + i = _); omega)

lemma kernelStart_slot {i : ℕ} (hi : i < 512) :
    slotTree (phys kernelStart.mem) wholeTable 3 (entry (phys kernelStart.mem) 0x1000 i)
      = if i = 256 then [tablePage 0x2000] else [] := by
  rw [kernelStart_pml4 hi]
  split
  · rw [slotTree_table (u := 0x2000) (by decide)]
    exact tree_of_absent fun i hi => by rw [kernelStart_pdpt (mem_slots.mp hi).1, decode_zero]
  · exact slotTree_absent (decode_zero 3)

lemma valid_kernelStart : Valid kernelStart.heap := by
  refine ⟨by decide, by decide, ?_, ?_⟩
  · exact List.pairwise_cons.mpr ⟨fun b hb => by rw [List.mem_singleton.mp hb]; decide,
      List.pairwise_singleton _ _⟩
  · intro b hb
    rcases List.mem_cons.mp hb with rfl | hb
    · decide
    · rw [List.mem_singleton.mp hb]
      decide

lemma kernelStart_start : KernelStart (heap release) 0x1000 kernelStart := by
  have htables : tables (tree (phys kernelStart.mem) wholeTable 3 0x1000)
      = [0x1000, 0x2000] := by
    have hslots : (slots wholeTable 3).flatMap (fun i => slotTree (phys kernelStart.mem)
          wholeTable 3 (entry (phys kernelStart.mem) 0x1000 i))
        = (slots wholeTable 3).flatMap fun i => if i = 256 then [tablePage 0x2000] else [] :=
      List.flatMap_congr fun i hi => kernelStart_slot (mem_slots.mp hi).1
    rw [tree, hslots]
    decide +kernel
  refine ⟨⟨valid_kernelStart, by decide, ?_, fun u hu => ?_, fun i hi => ?_⟩, fun i hi => ?_⟩
  · rw [htables]
    decide
  · rw [htables] at hu
    rcases List.mem_cons.mp hu with rfl | hu
    · exact List.mem_cons_self
    · rw [List.mem_singleton.mp hu]
      exact List.mem_cons_of_mem _ List.mem_cons_self
  · rw [kernelStart_pml4 (mem_slots.mp hi).1]
    split
    · have hform : EntryForm 3 0x2003 := fun _ => by
        show (0x2003 : Word) &&& tableBits = 0x2003
        decide
      refine slotAll_of_table (u := 0x2000) hform (by decide) ?_
      refine tableAll_of_absent (fun e he => entryForm_of_absent (decode_absent_iff.mp he))
        fun i hi => ?_
      rw [kernelStart_pdpt (mem_slots.mp hi).1, decode_zero]
    · exact slotAll_of_not_table (entryForm_of_absent (by decide)) fun u hu => by
        rw [decode_zero] at hu
        cases hu
  · rw [kernelStart_pml4 (by omega), if_neg (by omega)]

/-- The first address of the kernel half. -/
def kernelAddress : Word := 0xFFFF800000000000

/-- Nothing is mapped there at the start. -/
lemma kernelStart_walk : walk (phys kernelStart.mem) 3 0x1000 kernelAddress = none := by
  have hslot : index 3 kernelAddress = 256 := by decide
  have hentry : entry (phys kernelStart.mem) 0x1000 (index 3 kernelAddress) = 0x2003 := by
    rw [hslot, kernelStart_pml4 (by norm_num), if_pos rfl]
  rw [walk, hentry, slotWalk_table (u := 0x2000) (by decide)]
  refine walk_of_absent ?_
  rw [kernelStart_pdpt (index_lt 2 _), decode_zero]

/-- The first clone has the kernel's PDPT, and there is memory for a page in it. -/
lemma clone_kernelStart : ∃ p s1,
    virtCloneMapping (allocator release) 0x1000 kernelStart = .ok (p, s1) ∧
    4 ≤ (heap release).room s1.heap ∧ walk (phys s1.mem) 3 0x1000 kernelAddress = none ∧
    entry (phys s1.mem) p 256 = entry (phys s1.mem) 0x1000 256 := by
  have hroot := kernelStart_start.rooted
  have hfoc := kernelStart_start.inv.account.focus (List.mem_singleton_self _)
  have htree : tree (phys kernelStart.mem) userHalf 3 0x1000 = [tablePage 0x1000] :=
    tree_of_absent fun i hi => by
      obtain ⟨h1, h2⟩ := mem_slots.mp hi
      have hlt : i < 256 := of_decide_eq_true (h2.resolve_left fun h => h rfl)
      rw [kernelStart_start.user i hlt, decode_zero]
  obtain ⟨p, s1, hrun, hcloned, -, hleft⟩ := (wp_virtCloneMapping_room (E := fun _ => False)
    hfoc.aligned hfoc.valid hfoc.form (fun _ hb => .of_mem (hfoc.mem_own hb))
    (.inr (by rw [htree]; decide))).returns
  have hsame := hroot.same hcloned.agree
  refine ⟨p, s1, hrun, ?_, ?_, ?_⟩
  · have hroom : (heap release).room kernelStart.heap = 2 ^ 18 - 1 := rfl
    rw [htree, List.length_singleton, hroom] at hleft
    omega
  · rw [walk_congr le_rfl rfl hsame, kernelStart_walk]
  · rw [hcloned.kernelHalf 256 le_rfl (by norm_num),
      hsame 0x1000 self_mem_tables_tree 256 (by norm_num)]

/-- Frames are always taken back. -/
lemma unmap_returns {top : ℕ → Bool} {r v : Word} {s : Machine Bump}
    (h : Rooted (heap release) top r s.heap s.mem) (hv : top (index 3 v) = true)
    (hmapped : walk (phys s.mem) 3 r v ≠ none) :
    ∃ s', virtUnmapPage (allocator release) r v s = .ok ((), s') := by
  have hexact := wp_virtUnmapPage_exact h hv
  rw [wp_iff] at hexact
  cases hrun : virtUnmapPage (allocator release) r v s with
  | ok r => exact ⟨r.2, rfl⟩
  | error e =>
    rcases hexact.2 e hrun with hno | ⟨base, n, -, hfree⟩
    · exact absurd hno hmapped
    · unfold freeFrame at hfree
      split at hfree <;> cases hfree

end Bump

/-- A page of the kernel half is mapped through a clone and unmapped through the kernel's table. -/
theorem Bump.kernelHalf_coherent_mapped : ∃ p frame s1 s2 s3,
    virtCloneMapping (allocator release) 0x1000 kernelStart = .ok (p, s1) ∧
    virtMapPage (allocator release) p kernelAddress pgFlagRw pageSmall s1 = .ok ((1, frame), s2) ∧
    virtUnmapPage (allocator release) 0x1000 kernelAddress s2 = .ok ((), s3) ∧
    entry (phys kernelStart.mem) 0x1000 256 &&& presentBit ≠ 0 ∧
    Coherent (allocator release) (heap release) 0x1000 ⟨kernelStart, [0x1000], []⟩
      ⟨s3, [p, 0x1000], [(kernelAddress, pageSmall)]⟩ := by
  have hslot : 256 ≤ index 3 kernelAddress := by decide
  have hcanonical : Canonical kernelAddress := .inr (by decide)
  have hpresent : entry (phys kernelStart.mem) 0x1000 256 &&& presentBit ≠ 0 := by
    rw [kernelStart_pml4 (by norm_num)]
    decide
  obtain ⟨p, s1, hclone, hroom, hnone, hshared⟩ := clone_kernelStart
  have hrun1 : PageRun (allocator release) 0x1000 ⟨kernelStart, [0x1000], []⟩
      ⟨s1, [p, 0x1000], []⟩ := .single (.clone (List.mem_singleton_self _) hclone)
  obtain ⟨frames1, more1, hinv1, -⟩ := kernelStart_start.inv.run freesReturn hrun1
  have hnone1 : walk (phys s1.mem) 3 p kernelAddress = none := by
    rw [walk, show index 3 kernelAddress = 256 by decide, hshared]
    exact hnone
  obtain ⟨⟨ret, frame⟩, s2, hmap, h | ⟨rfl, -, a1, m1, -, -, hh, m2, new, u, e', he⟩⟩ :=
    (wp_virtMapPage (E := fun _ => False) (v := kernelAddress) (s := s1)
      (hinv1.rooted List.mem_cons_self (index_kernel hslot)) (decide_eq_true rfl) pgFlagRw
      pageSmall (.inr ⟨hroom, hnone1, .inr rfl⟩)).returns
  · exact absurd (h.2.1 "") id
  have hrun2 : PageRun (allocator release) 0x1000 ⟨kernelStart, [0x1000], []⟩
      ⟨s2, [p, 0x1000], [(kernelAddress, pageSmall)]⟩ :=
    hrun1.tail (.map List.mem_cons_self hcanonical hmap)
  -- the kernel's table has the page too
  have hsame := ((kernelHalf_coherent freesReturn kernelStart_start .refl rfl hrun2).same
    kernelAddress hslot hpresent p List.mem_cons_self).2
  have hmapped : walk (phys s2.mem) 3 0x1000 kernelAddress ≠ none := by
    intro hno
    rw [translation_eq_none.mpr hno, translation_eq_none, he.walk_same (decide_eq_true rfl)
      fun i _ _ => rfl] at hsame
    cases hsame
  obtain ⟨frames2, more2, hinv2, -⟩ := kernelStart_start.inv.run freesReturn hrun2
  have hkernel : (0x1000 : Word) ∈ [p, 0x1000] := List.mem_cons_of_mem _ (List.mem_singleton_self _)
  obtain ⟨s3, hunmap⟩ := unmap_returns (hinv2.rooted hkernel (index_kernel hslot))
    (decide_eq_true rfl) hmapped
  have hrun3 := hrun2.tail (.unmap hkernel hcanonical
    ⟨_, List.mem_singleton_self _, rfl⟩ hunmap)
  exact ⟨p, frame, s1, s2, s3, hclone, hmap, hunmap, hpresent,
    kernelHalf_coherent freesReturn kernelStart_start .refl rfl hrun3⟩

end Bikeshed
