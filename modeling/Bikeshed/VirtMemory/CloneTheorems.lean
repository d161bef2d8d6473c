import Bikeshed.Lib.PageTreeCopy
import Bikeshed.VirtMemory.Events
import Bikeshed.VirtMemory.MapContract
import Bikeshed.VirtMemory.Pages

/-!
# Cloning

`CopiesSlot` specifies the code for one present entry of a `clone_*` function, `ClonesTable` a
whole one. `Cloning` is the invariant of the loop over a table: what has been copied so far
and the new table itself are all that has become outstanding, and nothing that was
outstanding before has been written.
-/

namespace Bikeshed

open Lib

variable {α : Type} {A : PhysAllocator α} {H : PhysHeap A} {E : String → Prop} {l : ℕ}

/-! ## Frames -/

lemma phys_memcpy {m : Mem} {dst src size : Word} {n : ℕ} (hsize : size.toNat = n) (hn : 8 ≤ n)
    (hd : dst.toNat + n ≤ 2 ^ 64) (hs : src.toNat + n ≤ 2 ^ 64)
    (hdis : Block.Disjoint ⟨dst, n⟩ ⟨src, n⟩) :
    phys (memcpy m (physToVirt dst) (physToVirt src) size) = copy (phys m) dst src n := by
  have hhead : headLength (physToVirt dst) < 8 := Nat.mod_lt _ (by norm_num)
  have hdis' : dst.toNat + n ≤ src.toNat ∨ src.toNat + n ≤ dst.toNat := hdis
  have hsep : Separate (physToVirt dst) (physToVirt src) size.toNat := by
    intro k hk
    rw [physToVirt_add, physToVirt_sub, BitVec.toNat_sub, toNat_add_ofNat (by omega)]
    have := dst.isLt
    omega
  rw [memcpy_eq m (by omega) hsep, phys_copy, hsize]

/-- Bytes copied within a range that does not wrap. -/
lemma sameBytes_copy {P : Mem} {dst src : Word} {n : ℕ} (hd : dst.toNat + n ≤ 2 ^ 64) :
    SameBytes P (copy P dst src n) src dst n := by
  intro k hk
  have hsub : dst + BitVec.ofNat 64 k - dst = BitVec.ofNat 64 k := add_sub_cancel_left _ _
  rw [copy, hsub, if_pos (by rw [toNat_ofNat_lt (by omega)]; exact hk)]

/-! ## One entry -/

/-- Entry `i` of the table `new` has become a copy of the entry `e`. -/
structure SlotDone (H : PhysHeap A) (l : ℕ) (new : Word) (i : ℕ) (e : Word) (a : α) (m : Mem)
    (a' : α) (m' : Mem) : Prop where
  valid : H.Valid a' m'
  own : (H.own a').Perm
    (blocks (slotTree (phys m') userHalf l (entry (phys m') new i)) ++ H.own a)
  agree : ∀ b ∈ H.own a, (page4KIB new).Disjoint b → ∀ x, b.Has x → phys m' x = phys m x
  entries : ∀ j < 512, j ≠ i → entry (phys m') new j = entry (phys m) new j
  copy : SlotCopy pgSafeFlags (phys m) (phys m') userHalf l e (entry (phys m') new i)
  form : SlotAll EntryForm (phys m') userHalf l (entry (phys m') new i)
  room : H.room a ≤ H.room a' + (slotTree (phys m) userHalf l e).length

/-- What the copying of one entry starts from. -/
structure SlotReady (H : PhysHeap A) (l : ℕ) (new : Word) (e : Word) (a : α) (m : Mem) : Prop where
  valid : H.Valid a m
  aligned : 4096 ∣ new.toNat
  new_own : page4KIB new ∈ H.own a
  form : SlotAll EntryForm (phys m) userHalf l e
  owned : ∀ b ∈ blocks (slotTree (phys m) userHalf l e), Covered (H.own a) b

def CopiesSlot (H : PhysHeap A) (E : String → Prop) (l : ℕ)
    (copySlot : Word → ℕ → Word → Kern α Unit) : Prop :=
  ∀ (new : Word) (i : ℕ) (e : Word) (a : α) (m : Mem) (L : List Event), i < 512 →
    e &&& presentBit ≠ 0 → SlotReady H l new e a m →
    Supplied H E (slotTree (phys m) userHalf l e).length a →
    wp (copySlot (physToVirt new) i e)
      (fun _ s' => SlotDone H l new i e a m s'.heap s'.mem ∧ Allocates H ⟨m, a, L⟩ s') E ⟨m, a, L⟩

/-- The table `p` is a copy of the table `t`. -/
structure Cloned (H : PhysHeap A) (l : ℕ) (t p : Word) (a : α) (m : Mem) (a' : α) (m' : Mem) :
    Prop where
  base : p &&& mask 12 39 = p
  valid : H.Valid a' m'
  own : (H.own a').Perm (blocks (tree (phys m') userHalf l p) ++ H.own a)
  agree : AgreeOn (H.own a) (phys m) (phys m')
  copy : ∀ i ∈ slots userHalf l, SlotCopy pgSafeFlags (phys m) (phys m') userHalf l
    (entry (phys m) t i) (entry (phys m') p i)
  form : TableAll EntryForm (phys m') userHalf l p
  room : H.room a ≤ H.room a' + (tree (phys m) userHalf l t).length

def ClonesTable (H : PhysHeap A) (E : String → Prop) (l : ℕ) (clone : Word → Kern α Word) : Prop :=
  ∀ (t : Word) (a : α) (m : Mem) (L : List Event), t &&& mask 12 39 = t → H.Valid a m →
    TableAll EntryForm (phys m) userHalf l t →
    (∀ b ∈ blocks (tree (phys m) userHalf l t), Covered (H.own a) b) →
    Supplied H E (tree (phys m) userHalf l t).length a →
    wp (clone (physToVirt t))
      (fun p s' => Cloned H l t p a m s'.heap s'.mem ∧ Allocates H ⟨m, a, L⟩ s') E ⟨m, a, L⟩

/-- Nothing is copied for an absent entry. -/
lemma slotDone_absent {new e : Word} {i : ℕ} {a : α} {m m' : Mem} (hi : i < 512)
    (hv : H.Valid a m) (hnew : 4096 ∣ new.toNat) (hown : page4KIB new ∈ H.own a)
    (habs : e &&& presentBit = 0)
    (hm' : m' = store64 m (physToVirt new + BitVec.ofNat 64 (8 * i)) 0) :
    SlotDone H l new i e a m a m' := by
  subst hm'
  have hentry :
      entry (phys (store64 m (physToVirt new + BitVec.ofNat 64 (8 * i)) 0)) new i = 0 := by
    rw [phys_storeEntry, entry_store64_self]
  have hdec := decode_absent_iff (l := l).mpr habs
  refine ⟨valid_storeEntry hv hnew hown hi 0, ?_, fun b hb hd x hx => ?_, fun j hj hji => ?_, ?_,
    ?_, Nat.le_add_right _ _⟩
  · rw [hentry, slotTree_absent (decode_zero l)]
    exact .refl _
  · rw [phys_storeEntry, entry_store64_outside _ _ hnew hi (hd.not_has hx)]
  · rw [phys_storeEntry, entry_store64_other _ _ hnew hnew hj hi (.inr hji)]
  · rw [hentry]
    exact (slotCopy_absent hdec).mpr (decode_zero l)
  · rw [hentry]
    exact slotAll_of_not_table (entryForm_of_absent (by simp)) fun u hu => by
      rw [decode_zero] at hu
      cases hu

/-- A frame is handed out, copied to, and entered. -/
lemma slotDone_frame {new e e' src dst : Word} {i n : ℕ} {a a1 : α} {m m1 m2 m3 : Mem}
    (hi : i < 512) (h : SlotReady H l new e a m)
    (hd : decode l e = .leaf src n) (hd' : decode l e' = .leaf dst n)
    (hform : EntryForm l e') (hflags : e' &&& pgSafeFlags = e &&& pgSafeFlags)
    (hvalid : H.Valid a1 m1) (hroom : H.room a ≤ H.room a1 + 1)
    (hh : Handed (H.own a) (H.own a1) (phys m) (phys m1) ⟨dst, n⟩)
    (hm2 : phys m2 = copy (phys m1) dst src n)
    (hm3 : m3 = store64 m2 (physToVirt new + BitVec.ofNat 64 (8 * i)) e') :
    SlotDone H l new i e a m a1 m3 := by
  have hslot : slotTree (phys m) userHalf l e = [framePage src n] := slotTree_leaf hd
  have hsrc : Covered (H.own a) ⟨src, n⟩ :=
    h.owned _ (by rw [hslot]; exact List.mem_singleton_self _)
  have hle := decode_leaf_le hd'
  have hown1 : ∀ b ∈ H.own a, b ∈ H.own a1 := fun b hb =>
    hh.outstanding.mem_iff.mpr (List.mem_cons_of_mem _ hb)
  have hdst : Block.mk dst n ∈ H.own a1 := hh.outstanding.mem_iff.mpr List.mem_cons_self
  have hvalid2 : H.Valid a1 m2 := H.stable hvalid fun x hx => by
    rw [hm2]
    exact copy_outside _ hle (hx _ hdst)
  have hagree2 : AgreeOn (H.own a) (phys m) (phys m2) := by
    refine hh.agree.trans (agreeOn_of_outside ⟨dst, n⟩ (fun x hx => ?_) hh.fresh)
    rw [hm2]
    exact copy_outside _ hle hx
  have hentry : entry (phys m3) new i = e' := by
    rw [hm3, phys_storeEntry, entry_store64_self]
  -- the new frame is apart from the new table, so the store of the entry leaves it alone
  have hagree3 : ∀ b, (page4KIB new).Disjoint b → ∀ x, b.Has x → phys m3 x = phys m2 x := by
    intro b hb x hx
    rw [hm3, phys_storeEntry, entry_store64_outside _ _ h.aligned hi (hb.not_has hx)]
  have hnewdst : (page4KIB new).Disjoint ⟨dst, n⟩ := (hh.fresh _ h.new_own).symm
  refine ⟨?_, ?_, fun b hb hdis x hx => ?_, fun j hj hji => ?_, ?_, ?_, ?_⟩
  · rw [hm3]
    exact valid_storeEntry hvalid2 h.aligned (hown1 _ h.new_own) hi e'
  · rw [hentry, slotTree_leaf hd']
    exact hh.outstanding
  · rw [hagree3 b hdis x hx, hagree2 b hb x hx]
  · rw [hm3, phys_storeEntry, entry_store64_other _ _ h.aligned h.aligned hj hi (.inr hji)]
    exact entry_congr h.aligned hj (hagree2 _ h.new_own)
  · rw [hentry]
    refine (slotCopy_leaf hd).mpr ⟨dst, hd', hflags, fun k hk => ?_⟩
    rw [hagree3 _ hnewdst _ (decode_leaf_has hd' hk), hm2, sameBytes_copy hle k hk]
    exact hsrc.agree hh.agree (decode_leaf_has hd hk)
  · rw [hentry]
    exact slotAll_of_not_table hform fun u hu => by
      rw [hd'] at hu
      cases hu
  · rw [hslot]
    exact hroom

/-- A table is cloned and entered. -/
lemma slotDone_table {new e e' t p : Word} {i : ℕ} {a a1 : α} {m m1 m2 : Mem} (hi : i < 512)
    (h : SlotReady H (l + 1) new e a m) (hd : decode (l + 1) e = .table t)
    (hd' : decode (l + 1) e' = .table p) (hform : EntryForm (l + 1) e')
    (hflags : e' &&& pgSafeFlags = e &&& pgSafeFlags) (hc : Cloned H l t p a m a1 m1)
    (hm2 : m2 = store64 m1 (physToVirt new + BitVec.ofNat 64 (8 * i)) e') :
    SlotDone H (l + 1) new i e a m a1 m2 := by
  have hpair := (hc.own.pairwise_iff fun hd => Block.Disjoint.symm hd).mp (H.disjoint hc.valid)
  have hp := decode_table_aligned hd'
  have hnewown : page4KIB new ∈ H.own a1 :=
    hc.own.mem_iff.mpr (List.mem_append_right _ h.new_own)
  have hentry : entry (phys m2) new i = e' := by
    rw [hm2, phys_storeEntry, entry_store64_self]
  have hagree2 : ∀ b, (page4KIB new).Disjoint b → ∀ x, b.Has x → phys m2 x = phys m1 x := by
    intro b hb x hx
    rw [hm2, phys_storeEntry, entry_store64_outside _ _ h.aligned hi (hb.not_has hx)]
  -- the store leaves the copy alone
  have hcopied : AgreeOn (blocks (tree (phys m1) userHalf l p)) (phys m1) (phys m2) := fun b hb =>
    hagree2 b ((List.pairwise_append.mp hpair).2.2 b hb _ h.new_own).symm
  have hsame := tree_same hcopied hp fun b hb => hb
  refine ⟨?_, ?_, fun b hb hdis x hx => ?_, fun j hj hji => ?_, ?_, ?_, ?_⟩
  · rw [hm2]
    exact valid_storeEntry hc.valid h.aligned hnewown hi e'
  · rw [hentry, slotTree_table hd', tree_congr hsame]
    exact hc.own
  · rw [hagree2 b hdis x hx, hc.agree b hb x hx]
  · rw [hm2, phys_storeEntry, entry_store64_other _ _ h.aligned h.aligned hj hi (.inr hji)]
    exact entry_congr h.aligned hj (hc.agree _ h.new_own)
  · rw [hentry]
    refine (slotCopy_table hd).mpr ⟨p, hd', hflags, fun j hj => ?_⟩
    rw [hsame p self_mem_tables_tree j (mem_slots.mp hj).1]
    refine slotCopy_congr_right l (fun q hq => hcopied _ ?_)
      (hsame.mono fun s hs => tables_slot_subset_tree hj hs) (hc.copy j hj)
    exact List.mem_map_of_mem (block_mem_slot hj hq)
  · rw [hentry]
    exact slotAll_of_table hform hd' (tableAll_congr hsame hc.form)
  · rw [slotTree_table hd]
    exact hc.room

/-! ## The loop over a table -/

/-- The first `i` entries of `t` have been copied to the new table `p`. -/
structure Cloning (H : PhysHeap A) (l : ℕ) (t p : Word) (i : ℕ) (a0 : α) (m0 : Mem) (a : α)
    (m : Mem) : Prop where
  valid : H.Valid a m
  own : (H.own a).Perm (blocks (slotsUpTo (phys m) userHalf l p i) ++ page4KIB p :: H.own a0)
  agree : AgreeOn (H.own a0) (phys m0) (phys m)
  copy : ∀ j < i, SlotCopy pgSafeFlags (phys m0) (phys m) userHalf l (entry (phys m0) t j)
    (entry (phys m) p j)
  form : ∀ j < i, SlotAll EntryForm (phys m) userHalf l (entry (phys m) p j)
  room : H.room a0 ≤ H.room a + (1 + (slotsUpTo (phys m0) userHalf l t i).length)

namespace Cloning

variable {t p : Word} {i n : ℕ} {a0 a a' : α} {m0 m m' : Mem}

/-- The new table is apart from everything else that is outstanding. -/
lemma apart (h : Cloning H l t p i a0 m0 a m) :
    ∀ b ∈ blocks (slotsUpTo (phys m) userHalf l p i) ++ H.own a0, (page4KIB p).Disjoint b := by
  have hpair := ((h.own.trans List.perm_middle).pairwise_iff fun hd => Block.Disjoint.symm hd).mp
    (H.disjoint h.valid)
  exact fun b hb => List.rel_of_pairwise_cons hpair hb

lemma mem_own (h : Cloning H l t p i a0 m0 a m) {b : Block}
    (hb : b ∈ blocks (slotsUpTo (phys m) userHalf l p i) ++ H.own a0) : b ∈ H.own a := by
  rw [h.own.mem_iff]
  rcases List.mem_append.mp hb with hb | hb
  · exact List.mem_append_left _ hb
  · exact List.mem_append_right _ (List.mem_cons_of_mem _ hb)

/-- The original's slot is as it was. -/
lemma slot_eq (h : Cloning H l t p i a0 m0 a m)
    (hown : ∀ b ∈ blocks (slotTree (phys m0) userHalf l (entry (phys m0) t i)),
      Covered (H.own a0) b) :
    SameEntries (tables (slotTree (phys m0) userHalf l (entry (phys m0) t i)))
      (phys m0) (phys m) := slot_same (Covered.agreeOn hown h.agree) fun _ hb => hb

lemma ready (h : Cloning H l t p i a0 m0 a m) (hp : 4096 ∣ p.toNat)
    (hform : SlotAll EntryForm (phys m0) userHalf l (entry (phys m0) t i))
    (hown : ∀ b ∈ blocks (slotTree (phys m0) userHalf l (entry (phys m0) t i)),
      Covered (H.own a0) b) :
    SlotReady H l p (entry (phys m0) t i) a m := by
  have hsame := h.slot_eq hown
  refine ⟨h.valid, hp, h.own.mem_iff.mpr (List.mem_append_right _ List.mem_cons_self),
    slotAll_congr l hsame hform, ?_⟩
  rw [slotTree_congr l hsame]
  exact fun b hb => (hown b hb).mono fun c hc => h.mem_own (List.mem_append_right _ hc)

/-- Copying one more entry. -/
lemma step (h : Cloning H l t p i a0 m0 a m) (hi : i < 512)
    (hown : ∀ b ∈ blocks (slotTree (phys m0) userHalf l (entry (phys m0) t i)),
      Covered (H.own a0) b)
    (hd : SlotDone H l p i (entry (phys m0) t i) a m a' m') :
    Cloning H l t p (i + 1) a0 m0 a' m' := by
  have hentry : ∀ j < i, entry (phys m') p j = entry (phys m) p j := fun j hj =>
    hd.entries j (by omega) (by omega)
  have hagree : AgreeOn (blocks (slotsUpTo (phys m) userHalf l p i) ++ H.own a0)
      (phys m) (phys m') := fun b hb => hd.agree b (h.mem_own hb) (h.apart b hb)
  have hsame : ∀ j < i, SameEntries (tables (slotTree (phys m) userHalf l (entry (phys m) p j)))
      (phys m) (phys m') := fun j hj =>
    slot_same hagree fun b hb => List.mem_append_left _ (mem_slotsUpTo hj hb)
  have hslot := h.slot_eq hown
  refine ⟨hd.valid, ?_, ?_, fun j hj => ?_, fun j hj => ?_, ?_⟩
  · rw [slotsUpTo_succ, slotsUpTo_congr hentry hsame, blocks_append]
    refine hd.own.trans ((h.own.append_left _).trans ?_)
    rw [← List.append_assoc]
    exact List.perm_append_comm.append_right _
  · exact h.agree.trans (hagree.mono fun b hb => List.mem_append_right _ hb)
  · rcases Nat.lt_succ_iff_lt_or_eq.mp hj with hj | rfl
    · rw [hentry j hj]
      refine slotCopy_congr_right l (fun q hq => hagree _ ?_) (hsame j hj) (h.copy j hj)
      exact List.mem_append_left _ (mem_slotsUpTo hj (List.mem_map_of_mem hq))
    · exact slotCopy_congr_left l
        (fun q hq => Covered.agreeOn hown h.agree _ (List.mem_map_of_mem hq)) hslot hd.copy
  · rcases Nat.lt_succ_iff_lt_or_eq.mp hj with hj | rfl
    · rw [hentry j hj]
      exact slotAll_congr l (hsame j hj) (h.form j hj)
    · exact hd.form
  · have h1 := h.room
    have h2 := hd.room
    rw [slotTree_congr l hslot] at h2
    rw [slotsUpTo_succ, List.length_append]
    omega

end Cloning

/-- What a loop over the first `n` entries of a table needs. -/
structure LoopReady (H : PhysHeap A) (l : ℕ) (t : Word) (n : ℕ) (a0 : α) (m0 : Mem) : Prop where
  aligned : 4096 ∣ t.toNat
  le : n ≤ 512
  table_own : Covered (H.own a0) (page4KIB t)
  form : ∀ j < n, SlotAll EntryForm (phys m0) userHalf l (entry (phys m0) t j)
  owned : ∀ j < n, ∀ b ∈ blocks (slotTree (phys m0) userHalf l (entry (phys m0) t j)),
    Covered (H.own a0) b

lemma slotsUpTo_length_le {P : Mem} {t : Word} {i n : ℕ} (h : i ≤ n) :
    (slotsUpTo P userHalf l t i).length ≤ (slotsUpTo P userHalf l t n).length := by
  induction n, h using Nat.le_induction with
  | base => exact le_rfl
  | succ n _ ih =>
    rw [slotsUpTo_succ, List.length_append]
    omega

theorem wp_cloneLoop {copySlot : Word → ℕ → Word → Kern α Unit} (hs : CopiesSlot H E l copySlot)
    {t p : Word} {n : ℕ} {a0 a : α} {m0 m : Mem} {L : List Event} (hr : LoopReady H l t n a0 m0)
    (hp : 4096 ∣ p.toNat) (h : Cloning H l t p 0 a0 m0 a m)
    (hE : Supplied H E ((slotsUpTo (phys m0) userHalf l t n).length + 1) a0) :
    wp (forRange n fun i => cloneSlot copySlot (physToVirt t) (physToVirt p) i)
      (fun _ s' => Cloning H l t p n a0 m0 s'.heap s'.mem ∧ Allocates H ⟨m, a, L⟩ s') E
      ⟨m, a, L⟩ := by
  refine wp_forRange (fun i (s : Machine α) => Cloning H l t p i a0 m0 s.heap s.mem ∧
    Allocates H ⟨m, a, L⟩ s) n ⟨h, .refl H _⟩ ?_
  rintro i ⟨m1, a1, L1⟩ hi ⟨h1, hlog1⟩
  have hi512 : i < 512 := hi.trans_le hr.le
  have he : entry (phys m1) t i = entry (phys m0) t i :=
    entry_congr hr.aligned hi512 fun _ => hr.table_own.agree h1.agree
  have hready := h1.ready hp (hr.form i hi) (hr.owned i hi)
  have hread : Allocates H ⟨m, a, L⟩ ⟨m1, a1, L1 ++ [.read t]⟩ := hlog1.read rfl rfl
  rw [cloneSlot, wp_bind, wp_loadEntry, he, wp_ite]
  constructor
  · intro hpres
    refine wp_mono (hs p i _ a1 m1 _ hi512 hpres hready ?_) fun _ s' hd =>
      ⟨h1.step hi512 (hr.owned i hi) hd.1, hread.trans hd.2⟩
    -- what has been used so far leaves room for this entry
    have hroom := h1.room
    have hlen := slotsUpTo_length_le (P := phys m0) (l := l) (t := t) (Nat.succ_le_of_lt hi)
    rw [slotsUpTo_succ, List.length_append] at hlen
    rw [slotTree_congr l (h1.slot_eq (hr.owned i hi))]
    refine (hE.mono (k := (slotTree (phys m0) userHalf l (entry (phys m0) t i)).length
      + (1 + (slotsUpTo (phys m0) userHalf l t i).length)) (by omega)).next hroom
  · intro habs
    rw [not_not] at habs
    rw [wp_storeEntry]
    exact ⟨h1.step hi512 (hr.owned i hi)
      (slotDone_absent hi512 h1.valid hp hready.new_own habs rfl), hread.write rfl rfl⟩

/-! ## Whole tables -/

lemma wp_physAlloc4KIBSafe {a : α} {m : Mem} {L : List Event} {msg : String}
    {Q : Word → Machine α → Prop} (hv : H.Valid a m) (hE : Supplied H E 1 a)
    (hQ : ∀ p a' m' L', H.Valid a' m' → H.room a ≤ H.room a' + 1 →
      Handed (H.own a) (H.own a') (phys m) (phys m') (page4KIB p) →
      Allocates H ⟨m, a, L⟩ ⟨m', a', L'⟩ → Q p ⟨m', a', L'⟩) :
    wp (physAlloc4KIBSafe A msg) Q E ⟨m, a, L⟩ := by
  rw [physAlloc4KIBSafe, wp_bind]
  refine wp_physAlloc4KIB H hv hE fun p s' h1 h2 h3 h4 => ?_
  have hpos : 0 < p.toNat := h3.pos
  rw [wp_ite]
  refine ⟨?_, fun _ => hQ p _ _ _ h1 h2 h3 (.of_alloc h4 rfl rfl h3.outstanding)⟩
  rintro rfl
  exact absurd hpos (by simp)

lemma wp_physAlloc2MIBSafe {a : α} {m : Mem} {L : List Event} {msg : String}
    {Q : Word → Machine α → Prop} (hv : H.Valid a m) (hE : Supplied H E 1 a)
    (hQ : ∀ p a' m' L', H.Valid a' m' → H.room a ≤ H.room a' + 1 →
      Handed (H.own a) (H.own a') (phys m) (phys m') (page2MIB p) →
      Allocates H ⟨m, a, L⟩ ⟨m', a', L'⟩ → Q p ⟨m', a', L'⟩) :
    wp (physAlloc2MIBSafe A msg) Q E ⟨m, a, L⟩ := by
  rw [physAlloc2MIBSafe, wp_bind]
  refine wp_physAlloc2MIB H hv hE (fun hE' s' _ _ _ => ?_) fun p s' hp h1 h2 h3 h4 => ?_
  · rw [if_pos rfl]
    exact hE' msg
  · rw [if_neg hp]
    exact hQ p _ _ _ h1 h2 h3 (.of_alloc h4 rfl rfl h3.outstanding)

lemma cloning_zero {t p : Word} {a a' : α} {m m' : Mem} (hv : H.Valid a' m')
    (hroom : H.room a ≤ H.room a' + 1) (hown : (H.own a').Perm (page4KIB p :: H.own a))
    (hagree : AgreeOn (H.own a) (phys m) (phys m')) : Cloning H l t p 0 a m a' m' := by
  refine ⟨hv, ?_, hagree, fun j hj => absurd hj (Nat.not_lt_zero j),
    fun j hj => absurd hj (Nat.not_lt_zero j), ?_⟩
  · rw [slotsUpTo_zero, blocks_nil, List.nil_append]
    exact hown
  · rw [slotsUpTo_zero]
    exact hroom

theorem clonesTable_of_copiesSlot {copySlot : Word → ℕ → Word → Kern α Unit} (hl : l ≠ 3)
    (hs : CopiesSlot H E l copySlot) (msg : String) :
    ClonesTable H E l (cloneTable A msg copySlot) := by
  intro t a m L ht hv hform hown hE
  have htree : tree (phys m) userHalf l t
      = tablePage t :: slotsUpTo (phys m) userHalf l t 512 := by
    rw [tree, slots_of_ne hl, slotsUpTo]
  have haligned : 4096 ∣ t.toNat :=
    ((and_mask_eq_self 12 39 (by norm_num) (by norm_num) t).mp ht).1
  have hslots : ∀ j < 512, j ∈ slots userHalf l := fun j hj => by
    rw [slots_of_ne hl]
    exact List.mem_range.mpr hj
  rw [htree, List.length_cons] at hE
  rw [htree, blocks_cons] at hown
  have hready : LoopReady H l t 512 a m := by
    refine ⟨haligned, le_rfl, hown _ List.mem_cons_self, fun j hj => hform j (hslots j hj),
      fun j hj b hb => hown b ?_⟩
    exact List.mem_cons_of_mem _ (mem_slotsUpTo hj hb)
  rw [cloneTable, wp_bind]
  refine wp_physAlloc4KIBSafe hv (hE.mono (Nat.le_add_left _ _))
    fun p a1 m1 L1 hv1 hroom hh hlog => ?_
  have hp : 4096 ∣ p.toNat := hh.aligned
  have hbelow : p.toNat + 4096 ≤ 2 ^ 39 := hh.below
  rw [wp_bind]
  refine wp_mono (wp_cloneLoop hs hready hp
    (cloning_zero hv1 hroom hh.outstanding hh.agree) hE) ?_
  rintro - s' ⟨h, hlog'⟩
  have hflags : t &&& pageCopyFlags = 0 := and_eq_zero_of_and_eq ht (by decide)
  have hret : virtToPhys (physToVirt p) ||| (virtToPhys (physToVirt t) &&& pageCopyFlags) = p := by
    rw [virtToPhys_physToVirt, virtToPhys_physToVirt, hflags]
    simp
  have htree' : tree (phys s'.mem) userHalf l p
      = tablePage p :: slotsUpTo (phys s'.mem) userHalf l p 512 := by
    rw [tree, slots_of_ne hl, slotsUpTo]
  rw [wp_pure, hret]
  refine ⟨⟨page_and_mask hp (by omega), h.valid, ?_, h.agree, fun j hj => ?_, fun j hj => ?_, ?_⟩,
    hlog.trans hlog'⟩
  · rw [htree', blocks_cons]
    exact h.own.trans List.perm_middle
  · exact h.copy j (mem_slots.mp hj).1
  · exact h.form j (mem_slots.mp hj).1
  · rw [htree, List.length_cons, Nat.add_comm (List.length _)]
    exact h.room

/-! ## The levels -/

/-- The flags of a copied entry. -/
lemma copyFlags_facts {e f : Word} (he : e &&& presentBit ≠ 0) (hf : f = e &&& pageCopyFlags) :
    f &&& pageCopyFlags = f ∧ f &&& presentBit ≠ 0 ∧ f &&& pgSafeFlags = e &&& pgSafeFlags := by
  subst hf
  refine ⟨?_, ?_, ?_⟩
  · rw [BitVec.and_assoc, BitVec.and_self]
  · rw [BitVec.and_assoc, show pageCopyFlags &&& presentBit = presentBit by decide]
    exact he
  · rw [BitVec.and_assoc, show pageCopyFlags &&& pgSafeFlags = pgSafeFlags by decide]

/-- An entry for a copied table. -/
lemma wp_copySubtable {clone : Word → Kern α Word} (hc : ClonesTable H E l clone) {new e : Word}
    {i : ℕ} {a : α} {m : Mem} {L : List Event} (hi : i < 512) (hp : e &&& presentBit ≠ 0)
    (hsize : l = 0 → e &&& sizeBit = 0) (h : SlotReady H (l + 1) new e a m)
    (hE : Supplied H E (slotTree (phys m) userHalf (l + 1) e).length a) :
    wp (copySubtable clone (pml4eToPdpt e) (physToVirt new) i e)
      (fun _ s' => SlotDone H (l + 1) new i e a m s'.heap s'.mem ∧ Allocates H ⟨m, a, L⟩ s') E
      ⟨m, a, L⟩ := by
  have hd := decode_table (slotAll_head h.form) hp hsize
  have howned := h.owned
  rw [slotTree_table hd] at hE howned
  have hbase : pml4eToPdpt e &&& mask 12 39 = pml4eToPdpt e := by
    rw [pml4eToPdpt, BitVec.and_assoc]
    congr 1
  rw [copySubtable, wp_bind]
  refine wp_mono (hc _ a m L hbase h.valid (slotAll_table h.form hd) howned hE) ?_
  rintro p ⟨m1, a1, L1⟩ ⟨hcl, hlog⟩
  rw [wp_bind, wp_storeEntry, wp_bind, wp_loadEntry, wp_storeEntry, phys_storeEntry,
    entry_store64_self, store64_store64_self]
  obtain ⟨hf, hpres, hsafe⟩ := copyFlags_facts hp rfl
  obtain ⟨hd', hform, -⟩ := decode_mk_table (l := l) hcl.base hf hpres
  refine ⟨slotDone_table hi h hd hd' hform ?_ hcl rfl, hlog.read rfl rfl⟩
  rw [joined_and_flags hcl.base (by decide), hsafe]

theorem clonesTable_clonePageTable : ClonesTable H E 0 (clonePageTable A) := by
  refine clonesTable_of_copiesSlot (by norm_num) (fun new i e a m L hi hp h hE => ?_) _
  have hd := decode_small (slotAll_head h.form) hp
  rw [slotTree_leaf hd] at hE
  rw [wp_bind]
  refine wp_physAlloc4KIBSafe h.valid hE fun dst a1 m1 L1 hv1 hroom hh hlog => ?_
  have hdst : 4096 ∣ dst.toNat := hh.aligned
  have hbelow : dst.toNat + 4096 ≤ 2 ^ 39 := hh.below
  have hsrc : Covered (H.own a) (page4KIB (entryToAddr e)) := h.owned _ (by
    rw [slotTree_leaf hd]
    exact List.mem_singleton_self _)
  obtain ⟨hf, hpres, hsafe⟩ := copyFlags_facts hp rfl
  have hbase : dst &&& mask 12 47 = dst :=
    and_mask_of_dvd (by norm_num) (by norm_num) hdst (by omega)
  obtain ⟨hd', hform⟩ := decode_mk_small hbase hf hpres
  have hentry : virtToPhys (physToVirt dst) ||| (e &&& pageCopyFlags) ||| 0
      = dst ||| (e &&& pageCopyFlags) := by
    rw [virtToPhys_physToVirt]
    simp
  rw [copyFrame, wp_bind, wp_modifyMem, wp_storeEntry, hentry]
  refine ⟨slotDone_frame hi h hd hd' hform ?_ hv1 hroom hh (phys_memcpy rfl (by norm_num)
    (decode_leaf_le hd') (decode_leaf_le hd) (hsrc.disjoint hh.fresh (by norm_num) (by norm_num)))
    rfl, hlog.write rfl rfl⟩
  rw [joined_and_flags hbase (by decide), hsafe]

/-- The entry for a copied 2MiB frame. -/
lemma copy_largeEntry {dst e : Word} (hdst : 2 ^ 21 ∣ dst.toNat) (hbelow : dst.toNat < 2 ^ 47)
    (hp : e &&& presentBit ≠ 0) :
    let e' := virtToPhys (physToVirt dst) ||| (e &&& pageCopyFlags) ||| pdtPageSize
    decode 1 e' = .leaf dst (2 ^ 21) ∧ EntryForm 1 e' ∧ e' &&& pgSafeFlags = e &&& pgSafeFlags := by
  have hbase : dst &&& mask 21 47 = dst := and_mask_of_dvd (by norm_num) (by norm_num) hdst hbelow
  obtain ⟨hf, hpres, hsafe⟩ := copyFlags_facts hp rfl
  have hsize : ∀ c : Word, (e &&& pageCopyFlags ||| pdtPageSize) &&& c
      = (e &&& pageCopyFlags &&& c) ||| (pdtPageSize &&& c) := fun c =>
    BitVec.and_or_distrib_right
  have hflag : (e &&& pageCopyFlags ||| pdtPageSize) &&& flagBits
      = e &&& pageCopyFlags ||| pdtPageSize :=
    or_and_eq (and_eq_self_of_and_eq_self hf (by decide)) (by decide)
  have hpres' : (e &&& pageCopyFlags ||| pdtPageSize) &&& presentBit ≠ 0 := by
    rw [hsize, show pdtPageSize &&& presentBit = 0 by decide]
    simpa using hpres
  have hsize' : (e &&& pageCopyFlags ||| pdtPageSize) &&& sizeBit ≠ 0 := by
    rw [hsize, and_eq_zero_of_and_eq hf (by decide)]
    decide
  simp only [virtToPhys_physToVirt, BitVec.or_assoc]
  obtain ⟨hd', hform⟩ := decode_mk_large hbase hflag hpres' hsize'
  refine ⟨hd', hform, ?_⟩
  rw [joined_and_flags hbase (by decide), hsize, hsafe,
    show pdtPageSize &&& pgSafeFlags = 0 by decide]
  simp

theorem clonesTable_clonePageDirectory : ClonesTable H E 1 (clonePageDirectory A) := by
  refine clonesTable_of_copiesSlot (by norm_num) (fun new i e a m L hi hp h hE => ?_) _
  rw [wp_ite]
  constructor
  · intro hs
    have hd := decode_large (slotAll_head h.form) hp hs
    rw [slotTree_leaf hd] at hE
    rw [wp_bind]
    refine wp_physAlloc2MIBSafe h.valid hE fun dst a1 m1 L1 hv1 hroom hh hlog => ?_
    have hdst : 2 ^ 21 ∣ dst.toNat := hh.aligned
    have hbelow : dst.toNat + 2 ^ 21 ≤ 2 ^ 39 := hh.below
    have hsrc : Covered (H.own a) (page2MIB (entryToAddr e)) := h.owned _ (by
      rw [slotTree_leaf hd]
      exact List.mem_singleton_self _)
    obtain ⟨hd', hform, hflags⟩ := copy_largeEntry hdst (by omega) hp
    rw [copyFrame, wp_bind, wp_modifyMem, wp_storeEntry]
    exact ⟨slotDone_frame hi h hd hd' hform hflags hv1 hroom hh (phys_memcpy rfl (by norm_num)
      (decode_leaf_le hd') (decode_leaf_le hd) (hsrc.disjoint hh.fresh (by norm_num) (by norm_num)))
      rfl, hlog.write rfl rfl⟩
  · intro hs
    rw [not_not] at hs
    exact wp_copySubtable clonesTable_clonePageTable hi hp (fun _ => hs) h hE

theorem clonesTable_clonePageDirectoryPointer :
    ClonesTable H E 2 (clonePageDirectoryPointer A) := by
  refine clonesTable_of_copiesSlot (by norm_num) (fun new i e a m L hi hp h hE => ?_) _
  exact wp_copySubtable clonesTable_clonePageDirectory hi hp (fun h0 => by cases h0) h hE

/-! ## The whole mapping -/

/-- Writing an entry that the loop does not look at. -/
lemma Cloning.store {t p : Word} {i j : ℕ} {a0 a : α} {m0 m : Mem}
    (h : Cloning H l t p i a0 m0 a m) (hp : 4096 ∣ p.toNat) (hij : i ≤ j) (hj : j < 512)
    (e' : Word) :
    Cloning H l t p i a0 m0 a (store64 m (physToVirt p + BitVec.ofNat 64 (8 * j)) e') := by
  have hown : page4KIB p ∈ H.own a :=
    h.own.mem_iff.mpr (List.mem_append_right _ List.mem_cons_self)
  have hagree := agreeOn_storeEntry m hp hj e' h.apart
  have hentry : ∀ k < i, entry (phys (store64 m (physToVirt p + BitVec.ofNat 64 (8 * j)) e')) p k
      = entry (phys m) p k := fun k hk => by
    rw [phys_storeEntry, entry_store64_other _ _ hp hp (by omega) hj (.inr (by omega))]
  have hsame : ∀ k < i, SameEntries (tables (slotTree (phys m) userHalf l (entry (phys m) p k)))
      (phys m) (phys (store64 m (physToVirt p + BitVec.ofNat 64 (8 * j)) e')) := fun k hk =>
    slot_same hagree fun b hb => List.mem_append_left _ (mem_slotsUpTo hk hb)
  refine ⟨valid_storeEntry h.valid hp hown hj e', ?_, ?_, fun k hk => ?_, fun k hk => ?_, h.room⟩
  · rw [slotsUpTo_congr hentry hsame]
    exact h.own
  · exact h.agree.trans (hagree.mono fun b hb => List.mem_append_right _ hb)
  · rw [hentry k hk]
    refine slotCopy_congr_right l (fun q hq => hagree _ ?_) (hsame k hk) (h.copy k hk)
    exact List.mem_append_left _ (mem_slotsUpTo hk (List.mem_map_of_mem hq))
  · rw [hentry k hk]
    exact slotAll_congr l (hsame k hk) (h.form k hk)

/-- The PML4 `p` is a clone of the PML4 `r`. -/
structure MappingCloned (H : PhysHeap A) (r p : Word) (a : α) (m : Mem) (a' : α) (m' : Mem) :
    Prop where
  aligned : 4096 ∣ p.toNat
  valid : H.Valid a' m'
  own : (H.own a').Perm (blocks (tree (phys m') userHalf 3 p) ++ H.own a)
  agree : AgreeOn (H.own a) (phys m) (phys m')
  copy : ∀ i < 256, SlotCopy pgSafeFlags (phys m) (phys m') userHalf 3
    (entry (phys m) r i) (entry (phys m') p i)
  form : TableAll EntryForm (phys m') userHalf 3 p
  kernelHalf : ∀ i, 256 ≤ i → i < 512 → entry (phys m') p i = entry (phys m) r i

lemma tree_user_eq (P : Mem) (r : Word) :
    tree P userHalf 3 r = tablePage r :: slotsUpTo P userHalf 3 r 256 := by
  rw [tree, slots_userHalf, slotsUpTo]

/-- The loop over the kernel half copies the entries as they are. -/
lemma wp_cloneKernelHalf {r p : Word} {a0 a : α} {m0 m : Mem} {L : List Event}
    (hr : 4096 ∣ r.toNat) (hown : Covered (H.own a0) (page4KIB r)) (hp : 4096 ∣ p.toNat)
    (h : Cloning H 3 r p 256 a0 m0 a m) :
    wp (forRange 256 fun i => do
        let entry ← loadEntry (physToVirt r) (256 + i)
        storeEntry (physToVirt p) (256 + i) entry)
      (fun _ s' => Cloning H 3 r p 256 a0 m0 s'.heap s'.mem ∧ Allocates H ⟨m, a, L⟩ s' ∧
        ∀ j < 256, entry (phys s'.mem) p (256 + j) = entry (phys m0) r (256 + j)) E ⟨m, a, L⟩ := by
  refine wp_forRange (fun i (s : Machine α) => Cloning H 3 r p 256 a0 m0 s.heap s.mem ∧
    Allocates H ⟨m, a, L⟩ s ∧
    ∀ j < i, entry (phys s.mem) p (256 + j) = entry (phys m0) r (256 + j)) 256
    ⟨h, .refl H _, fun j hj => absurd hj (Nat.not_lt_zero j)⟩ ?_
  rintro i ⟨m1, a1, L1⟩ hi ⟨h1, hlog1, hdone⟩
  have he : entry (phys m1) r (256 + i) = entry (phys m0) r (256 + i) :=
    entry_congr hr (by omega) fun _ => hown.agree h1.agree
  rw [wp_bind, wp_loadEntry, he, wp_storeEntry]
  refine ⟨h1.store hp (by omega) (by omega) _, hlog1.read rfl rfl, fun j hj => ?_⟩
  rw [phys_storeEntry]
  rcases Nat.lt_succ_iff_lt_or_eq.mp hj with hj | rfl
  · rw [entry_store64_other _ _ hp hp (by omega) (by omega) (.inr (by omega)), hdone j hj]
  · exact entry_store64_self _ _ _ _

lemma copiesSlot_pml4 : CopiesSlot H E 3 fun newTable i entry =>
    copySubtable (clonePageDirectoryPointer A) (pml4eToPdpt entry) newTable i entry :=
  fun _ _ _ _ _ _ hi hp h hE =>
    wp_copySubtable clonesTable_clonePageDirectoryPointer hi hp (fun h0 => by cases h0) h hE

/-- The clone uses up no more room than the original has pages. -/
theorem wp_virtCloneMapping_room {r : Word} {s : Machine α} (hr : 4096 ∣ r.toNat)
    (hv : H.Valid s.heap s.mem) (hform : TableAll EntryForm (phys s.mem) userHalf 3 r)
    (hown : ∀ b ∈ blocks (tree (phys s.mem) userHalf 3 r), Covered (H.own s.heap) b)
    (hE : Supplied H E (tree (phys s.mem) userHalf 3 r).length s.heap) :
    wp (virtCloneMapping A r)
      (fun p s' => MappingCloned H r p s.heap s.mem s'.heap s'.mem ∧ Allocates H s s' ∧
        H.room s.heap ≤ H.room s'.heap + (tree (phys s.mem) userHalf 3 r).length) E s := by
  rw [tree_user_eq, List.length_cons] at hE ⊢
  rw [tree_user_eq, blocks_cons] at hown
  have hrown : Covered (H.own s.heap) (page4KIB r) := hown _ List.mem_cons_self
  have hready : LoopReady H 3 r 256 s.heap s.mem := by
    refine ⟨hr, by norm_num, hrown, fun j hj => hform j (mem_slots_user hj),
      fun j hj b hb => hown b ?_⟩
    exact List.mem_cons_of_mem _ (mem_slotsUpTo hj hb)
  rw [virtCloneMapping, wp_bind]
  refine wp_physAlloc4KIBSafe hv (hE.mono (Nat.le_add_left _ _))
    fun p a1 m1 L1 hv1 hroom hh hlog => ?_
  have hp : 4096 ∣ p.toNat := hh.aligned
  have hbelow : p.toNat + 4096 ≤ 2 ^ 39 := hh.below
  have hpown : page4KIB p ∈ H.own a1 := hh.outstanding.mem_iff.mpr List.mem_cons_self
  -- clearing the new table first changes nothing that matters
  have hclear := phys_memclr_page m1 p
  have hstart : Cloning H 3 r p 0 s.heap s.mem a1 (memclr m1 (physToVirt p) 4096) := by
    refine cloning_zero (H.stable hv1 fun x hx => ?_) hroom hh.outstanding (hh.agree.trans ?_)
    · rw [hclear]
      exact fill_outside _ (by omega) (hx _ hpown)
    · refine agreeOn_of_outside (page4KIB p) (fun x hx => ?_) hh.fresh
      rw [hclear]
      exact fill_outside _ (by omega) hx
  have hcleared : Allocates H s ⟨memclr m1 (physToVirt p) 4096, a1, L1⟩ := hlog.write rfl rfl
  rw [wp_bind, wp_modifyMem, wp_bind]
  refine wp_mono (wp_cloneLoop copiesSlot_pml4 hready hp hstart hE) ?_
  rintro - ⟨m2, a2, L2⟩ ⟨h2, hlog2⟩
  rw [wp_bind]
  refine wp_mono (wp_cloneKernelHalf hr hrown hp h2) ?_
  rintro - ⟨m3, a3, L3⟩ ⟨h3, hlog3, hkernel⟩
  rw [wp_pure, virtToPhys_physToVirt]
  refine ⟨⟨hp, h3.valid, ?_, h3.agree, h3.copy, fun j hj => h3.form j ?_, fun i h1 h2 => ?_⟩,
    hcleared.trans (hlog2.trans hlog3), ?_⟩
  · rw [tree_user_eq, blocks_cons]
    exact h3.own.trans List.perm_middle
  · rw [slots_userHalf] at hj
    exact List.mem_range.mp hj
  · have h4 := hkernel (i - 256) (by omega)
    rwa [show 256 + (i - 256) = i by omega] at h4
  · rw [Nat.add_comm (List.length _)]
    exact h3.room

theorem wp_virtCloneMapping_log {r : Word} {s : Machine α} (hr : 4096 ∣ r.toNat)
    (hv : H.Valid s.heap s.mem) (hform : TableAll EntryForm (phys s.mem) userHalf 3 r)
    (hown : ∀ b ∈ blocks (tree (phys s.mem) userHalf 3 r), Covered (H.own s.heap) b)
    (hE : Supplied H E (tree (phys s.mem) userHalf 3 r).length s.heap) :
    wp (virtCloneMapping A r)
      (fun p s' => MappingCloned H r p s.heap s.mem s'.heap s'.mem ∧ Allocates H s s') E s :=
  wp_mono (wp_virtCloneMapping_room hr hv hform hown hE) fun _ _ h => ⟨h.1, h.2.1⟩

theorem wp_virtCloneMapping {r : Word} {s : Machine α} (hr : 4096 ∣ r.toNat)
    (hv : H.Valid s.heap s.mem) (hform : TableAll EntryForm (phys s.mem) userHalf 3 r)
    (hown : ∀ b ∈ blocks (tree (phys s.mem) userHalf 3 r), Covered (H.own s.heap) b)
    (hE : Supplied H E (tree (phys s.mem) userHalf 3 r).length s.heap) :
    wp (virtCloneMapping A r)
      (fun p s' => MappingCloned H r p s.heap s.mem s'.heap s'.mem) E s :=
  wp_mono (wp_virtCloneMapping_log hr hv hform hown hE) fun _ _ h => h.1

/-- What `virt_clone_mapping` promises: for user addresses the clone translates what the
original does, with the same flags, to new frames with the same contents. -/
structure DeepCopy (H : PhysHeap A) (r p : Word) (a : α) (m : Mem) (a' : α) (m' : Mem) : Prop where
  translated : ∀ v, index 3 v < 256 →
    (translation (phys m') p v ≠ none ↔ translation (phys m) r v ≠ none)
  frames : ∀ v b n, index 3 v < 256 → walk (phys m) 3 r v = some (b, n) →
    ∃ b', walk (phys m') 3 p v = some (b', n) ∧ SameBytes (phys m) (phys m') b b' n ∧
      (walkPath (phys m') 3 p v).map (· &&& pgSafeFlags)
        = (walkPath (phys m) 3 r v).map (· &&& pgSafeFlags) ∧
      Block.mk b' n ∈ H.own a' ∧ ∀ c ∈ H.own a, Block.Disjoint ⟨b', n⟩ c
  distinct : ∀ v w b b' n n', index 3 v < 256 → index 3 w < 256 →
    walk (phys m') 3 p v = some (b, n) → walk (phys m') 3 p w = some (b', n') →
    (n = n' ∧ v.toNat % 2 ^ 48 / n = w.toNat % 2 ^ 48 / n) ∨ Block.Disjoint ⟨b, n⟩ ⟨b', n'⟩
  kernelHalf : ∀ i, 256 ≤ i → i < 512 → entry (phys m') p i = entry (phys m) r i
  original : AgreeOn (blocks (tree (phys m) userHalf 3 r)) (phys m) (phys m')

lemma MappingCloned.deepCopy {r p : Word} {a a' : α} {m m' : Mem}
    (h : MappingCloned H r p a m a' m')
    (hown : ∀ b ∈ blocks (tree (phys m) userHalf 3 r), Covered (H.own a) b) :
    DeepCopy H r p a m a' m' := by
  have hpair := (h.own.pairwise_iff fun hd => Block.Disjoint.symm hd).mp (H.disjoint h.valid)
  have huser : ∀ {v : Word}, index 3 v < 256 → userHalf (index 3 v) = true := fun hv =>
    decide_eq_true hv
  have hwalk : ∀ {v : Word}, index 3 v < 256 →
      (walk (phys m) 3 r v = none ∧ walk (phys m') 3 p v = none) ∨ _ := fun {v} hv =>
    slotCopy_walk (v := v) 3 (fun j h3 hj => by omega) (h.copy _ hv)
  refine ⟨fun v hv => ?_, fun v b n hv hb => ?_, fun v w b b' n n' hv hw hb hb' => ?_, h.kernelHalf,
    Covered.agreeOn hown h.agree⟩
  · rw [Ne, Ne, translation_eq_none, translation_eq_none]
    rcases hwalk hv with ⟨h1, h2⟩ | ⟨b, b', n, h1, h2, -⟩
    · rw [h1, h2]
    · rw [walk, walk, h1, h2]
      simp
  · rcases hwalk hv with ⟨h1, -⟩ | ⟨b1, b', n1, h1, h2, h3, h4⟩
    · rw [h1] at hb
      cases hb
    · rw [walk, h1] at hb
      cases hb
      have hmem : Block.mk b' n ∈ blocks (tree (phys m') userHalf 3 p) :=
        List.mem_map_of_mem (walk_mem (by norm_num) (huser hv) h2)
      exact ⟨b', h2, h3, h4, h.own.mem_iff.mpr (List.mem_append_left _ hmem),
        (List.pairwise_append.mp hpair).2.2 _ hmem⟩
  · exact walk_disjoint (huser hv) (huser hw)
      (List.pairwise_map.mp (List.pairwise_append.mp hpair).1) hb hb'

/-- Cloning a page table whose user half lies in outstanding blocks is a deep copy, and it
succeeds if there is memory for as many blocks as that half has. -/
theorem virtCloneMapping_deepCopy {r : Word} {s : Machine α} (hr : 4096 ∣ r.toNat)
    (hv : H.Valid s.heap s.mem) (hform : TableAll EntryForm (phys s.mem) userHalf 3 r)
    (hown : ∀ b ∈ blocks (tree (phys s.mem) userHalf 3 r), Covered (H.own s.heap) b) :
    (∀ p s', virtCloneMapping A r s = .ok (p, s') →
      DeepCopy H r p s.heap s.mem s'.heap s'.mem) ∧
    ((tree (phys s.mem) userHalf 3 r).length ≤ H.room s.heap →
      ∃ p s', virtCloneMapping A r s = .ok (p, s')) := by
  constructor
  · intro p s' hrun
    exact ((wp_virtCloneMapping (E := fun _ => True) hr hv hform hown
      (.inl fun _ => trivial)).ok hrun).deepCopy hown
  · intro hroom
    obtain ⟨p, s', hrun, -⟩ := (wp_virtCloneMapping (E := fun _ => False) hr hv hform hown
      (.inr hroom)).returns
    exact ⟨p, s', hrun⟩

namespace Bump

lemma tree_start : tree (phys start.mem) userHalf 3 0x1000 = [tablePage 0x1000] :=
  tree_of_absent fun i _ => by rw [entry]; exact (load64_zero _).symm ▸ decode_zero 3

lemma rooted_start : Rooted (heap release) userHalf 0x1000 start.heap start.mem := by
  refine ⟨valid_start, by decide, ?_, fun t ht => ?_, tableAll_of_absent
    (fun e he => entryForm_of_absent (decode_absent_iff.mp he)) fun i _ => ?_⟩
  · rw [tree_start, tables_cons_table, tables_nil]
    exact List.nodup_singleton _
  · rw [tree_start, tables_cons_table, tables_nil] at ht
    exact List.mem_singleton.mp ht ▸ List.mem_cons_self
  · rw [entry]
    exact (load64_zero _).symm ▸ decode_zero 3

/-- A 4KiB page can be mapped at 0, and what is mapped then is outstanding. -/
lemma map_start : ∃ ret s1, virtMapPage (allocator release) 0x1000 0 pgFlagRw pageSmall start
      = .ok (ret, s1) ∧ Rooted (heap release) userHalf 0x1000 s1.heap s1.mem ∧
    translation (phys s1.mem) 0x1000 0 ≠ none ∧
    (∀ b ∈ blocks (tree (phys s1.mem) userHalf 3 0x1000), b ∈ (heap release).own s1.heap) ∧
    (tree (phys s1.mem) userHalf 3 0x1000).length ≤ (heap release).room s1.heap := by
  have hzero : walk (phys start.mem) 3 0x1000 0 = none :=
    walk_of_absent (by rw [entry]; exact (load64_zero _).symm ▸ decode_zero 3)
  have hroom : (heap release).room start.heap = 2 ^ 18 - 1 := rfl
  obtain ⟨ret, s1, hrun, h | h⟩ := (wp_virtMapPage (E := fun _ => False) (v := 0) (s := start)
    rooted_start (by decide) pgFlagRw pageSmall
    (.inr ⟨by decide, hzero, .inr rfl⟩)).returns
  · exact absurd (h.2.1 "") id
  obtain ⟨-, -, a1, m1, hv1, hroom1, hh, m2, new, u, e', he⟩ := h
  obtain ⟨old, kept, h1, h2⟩ := he.pages (by decide)
  have hkept : ∀ p ∈ old ++ kept, p.block ∈ (heap release).own s1.heap := by
    intro p hp
    rw [he.grown.own.mem_iff, List.mem_append]
    rcases List.mem_append.mp (h1.mem_iff.mpr hp) with hp | hp
    · obtain ⟨t, ht, rfl⟩ := List.mem_map.mp hp
      exact .inl (List.mem_map_of_mem ht)
    · have htree : tree (phys m1) userHalf 3 0x1000 = [tablePage 0x1000] := by
        rw [tree_congr (rooted_start.same hh.agree), tree_start]
      rw [htree] at hp
      rw [List.mem_singleton.mp hp]
      exact .inr (hh.outstanding.mem_iff.mpr (List.mem_cons_of_mem _ List.mem_cons_self))
  refine ⟨ret, s1, hrun, he.after, ?_, fun b hb => ?_, ?_⟩
  · rw [Ne, translation_eq_none, he.walk_same (by decide) fun i _ _ => rfl]
    exact Option.some_ne_none _
  · obtain ⟨p, hp, rfl⟩ := List.mem_map.mp hb
    rcases List.mem_cons.mp (h2.mem_iff.mp hp) with rfl | hp
    · rw [he.grown.own.mem_iff]
      exact List.mem_append_right _ (hh.outstanding.mem_iff.mpr List.mem_cons_self)
    · exact hkept p (List.mem_append_right _ hp)
  · have hlen := h1.length_eq
    have hlen2 := h2.length_eq
    have h3 := he.length
    have h4 := he.grown.room
    rw [List.length_append, List.length_append, List.length_map,
      tree_congr (rooted_start.same hh.agree), tree_start, List.length_singleton] at hlen
    rw [List.length_cons] at hlen2
    omega

/-- Then the page table can be cloned. -/
lemma clone_start : ∃ ret s1 p s2,
    virtMapPage (allocator release) 0x1000 0 pgFlagRw pageSmall start = .ok (ret, s1) ∧
    Rooted (heap release) userHalf 0x1000 s1.heap s1.mem ∧
    translation (phys s1.mem) 0x1000 0 ≠ none ∧
    (∀ b ∈ blocks (tree (phys s1.mem) userHalf 3 0x1000), Covered ((heap release).own s1.heap) b) ∧
    virtCloneMapping (allocator release) 0x1000 s1 = .ok (p, s2) := by
  obtain ⟨ret, s1, hrun, hrooted, hmapped, hown, hroom⟩ := map_start
  obtain ⟨p, s2, hclone, -⟩ := (wp_virtCloneMapping (E := fun _ => False) hrooted.aligned
    hrooted.valid hrooted.form (fun b hb => .of_mem (hown b hb)) (.inr hroom)).returns
  exact ⟨ret, s1, p, s2, hrun, hrooted, hmapped, fun b hb => .of_mem (hown b hb), hclone⟩

theorem clone_page : ∃ s1 p s2, translation (phys s1.mem) 0x1000 0 ≠ none ∧
    virtCloneMapping (allocator release) 0x1000 s1 = .ok (p, s2) ∧
    DeepCopy (heap release) 0x1000 p s1.heap s1.mem s2.heap s2.mem := by
  obtain ⟨-, s1, p, s2, -, hrooted, hmapped, hown, hclone⟩ := clone_start
  exact ⟨s1, p, s2, hmapped, hclone, (virtCloneMapping_deepCopy (A := allocator release)
    hrooted.aligned hrooted.valid hrooted.form hown).1 p s2 hclone⟩

end Bump

end Bikeshed
