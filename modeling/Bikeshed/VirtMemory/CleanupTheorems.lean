import Bikeshed.VirtMemory.Events
import Bikeshed.VirtMemory.Pages
import Bikeshed.VirtMemory.UnmapTheorems

/-!
# Teardown

A `cleanup_*` function gives back the pages below its table, one each, and then the table.
`FreesSlot` is the specification of the code for one present entry; the loop over a table
(`wp_cleanupEntries`) turns it into that of the next level up.
-/

namespace Bikeshed

open Lib

variable {α : Type} {A : PhysAllocator α} {H : PhysHeap A} {E : String → Prop} {top : ℕ → Bool}
  {l : ℕ}

/-- Everything outstanding but `rest` has been given back. -/
structure Freed (H : PhysHeap A) (rest : List Block) (m : Mem) (a' : α) (m' : Mem) : Prop where
  valid : H.Valid a' m'
  own : (H.own a').Perm rest
  agree : AgreeOn rest (phys m) (phys m')

/-- The outstanding blocks are `bs` and `rest`. -/
structure Holds (H : PhysHeap A) (bs rest : List Block) (s : Machine α) : Prop where
  valid : H.Valid s.heap s.mem
  own : (H.own s.heap).Perm (bs ++ rest)

/-- The run has given back `bs`, each block once, and has left `rest`. -/
structure FreedBy (H : PhysHeap A) (bs rest : List Block) (s s' : Machine α) : Prop where
  freed : Freed H rest s.mem s'.heap s'.mem
  log : ∃ L, s'.log = s.log ++ L ∧ Releases (bs ++ rest) bs L

lemma Holds.disjoint {bs rest : List Block} {s : Machine α} (h : Holds H bs rest s) :
    (bs ++ rest).Pairwise Block.Disjoint :=
  (h.own.pairwise_iff fun hd => Block.Disjoint.symm hd).mp (H.disjoint h.valid)

namespace FreedBy

variable {bs bs' rest : List Block} {s s1 s' : Machine α}

lemma refl (h : Holds H [] rest s) : FreedBy H [] rest s s := by
  refine ⟨⟨h.valid, h.own, .refl _ _⟩, [], ?_, .nil⟩
  rw [List.append_nil]

lemma holds (h : FreedBy H bs (bs' ++ rest) s s1) : Holds H bs' rest s1 :=
  ⟨h.freed.valid, h.freed.own⟩

/-- One teardown after another. -/
lemma trans (hs : Holds H bs (bs' ++ rest) s) (h : FreedBy H bs (bs' ++ rest) s s1)
    (h' : FreedBy H bs' rest s1 s') : FreedBy H (bs ++ bs') rest s s' := by
  obtain ⟨L, hL, hrel⟩ := h.log
  obtain ⟨L', hL', hrel'⟩ := h'.log
  refine ⟨⟨h'.freed.valid, h'.freed.own, ?_⟩, L ++ L', ?_, ?_⟩
  · exact (h.freed.agree.mono fun b hb => List.mem_append_right _ hb).trans h'.freed.agree
  · rw [hL', hL, List.append_assoc]
  · refine (hrel.trans (.refl _) hs.disjoint hrel').mono (fun b hb => ?_) (.refl _)
    rw [List.append_assoc]
    exact hb

/-- The teardown is preceded by reading a table that is left. -/
lemma read {t : Word} (hs : Holds H bs rest s) (ht : page4KIB t ∈ rest)
    (h : FreedBy H bs rest { s with log := s.log ++ [.read t] } s') : FreedBy H bs rest s s' := by
  have hread : FreedBy H [] (bs ++ rest) s { s with log := s.log ++ [.read t] } :=
    ⟨⟨hs.valid, hs.own, .refl _ _⟩, _, rfl,
      .read (List.mem_append_right _ (List.mem_append_right _ ht))⟩
  exact trans ⟨hs.valid, hs.own⟩ hread h

end FreedBy

/-- Either panics are allowed or giving back an outstanding block does not panic. -/
def FreesAllowed (H : PhysHeap A) (E : String → Prop) : Prop :=
  (∀ e, E e) ∨ ∀ (a : α) (m : Mem) (p : Word), H.Valid a m →
    (page4KIB p ∈ H.own a → ∃ r, A.free4KIB p a m = .ok r) ∧
      (page2MIB p ∈ H.own a → ∃ r, A.free2MIB p a m = .ok r)

/-- `freeSlot` gives back the pages of a present level `l` entry. -/
def FreesSlot (H : PhysHeap A) (E : String → Prop) (top : ℕ → Bool) (l : ℕ)
    (freeSlot : Word → Kern α Unit) : Prop :=
  ∀ (e : Word) (s : Machine α) (rest : List Block), e &&& presentBit ≠ 0 →
    SlotAll EntryForm (phys s.mem) top l e →
    Holds H (blocks (slotTree (phys s.mem) top l e)) rest s →
    wp (freeSlot e)
      (fun _ s' => FreedBy H (blocks (slotTree (phys s.mem) top l e)) rest s s') E s

/-- `freeTable` gives back a level `l` table and the pages below it. -/
def FreesTable (H : PhysHeap A) (E : String → Prop) (top : ℕ → Bool) (l : ℕ)
    (freeTable : Word → Kern α Unit) : Prop :=
  ∀ (t : Word) (s : Machine α) (rest : List Block), 4096 ∣ t.toNat →
    TableAll EntryForm (phys s.mem) top l t →
    Holds H (blocks (tree (phys s.mem) top l t)) rest s →
    wp (freeTable (physToVirt t))
      (fun _ s' => FreedBy H (blocks (tree (phys s.mem) top l t)) rest s s') E s

/-! ## Single frees -/

lemma freed_of_returned {a a' : α} {m m' : Mem} {b : Block} {rest : List Block}
    (hv : H.Valid a' m') (hret : Returned (H.own a) (H.own a') (phys m) (phys m') b)
    (hown : (H.own a).Perm (b :: rest)) : Freed H rest m a' m' := by
  have hperm : (H.own a').Perm rest := (hret.outstanding.symm.trans hown).cons_inv
  exact ⟨hv, hperm, hret.agree.mono fun c hc => hperm.mem_iff.mpr hc⟩

lemma wp_physFree4KIB (hf : H.FreesReturn) (hE : FreesAllowed H E) {s : Machine α} {p : Word}
    {rest : List Block} (h : Holds H [page4KIB p] rest s) :
    wp (physFree4KIB A p) (fun _ s' => FreedBy H [page4KIB p] rest s s') E s := by
  have hmem : page4KIB p ∈ H.own s.heap := h.own.mem_iff.mpr List.mem_cons_self
  rw [wp, physFree4KIB]
  cases hrun : A.free4KIB p s.heap s.mem with
  | ok r =>
    obtain ⟨h1, h2⟩ := hf.free4KIB h.valid hmem hrun
    exact ⟨freed_of_returned h1 h2 h.own, _, rfl, .free4KIB p⟩
  | error e =>
    rcases hE with hE | hE
    · exact hE e
    · obtain ⟨r, hr⟩ := (hE _ _ p h.valid).1 hmem
      rw [hr] at hrun
      cases hrun

lemma wp_physFree2MIB (hf : H.FreesReturn) (hE : FreesAllowed H E) {s : Machine α} {p : Word}
    {rest : List Block} (h : Holds H [page2MIB p] rest s) :
    wp (physFree2MIB A p) (fun _ s' => FreedBy H [page2MIB p] rest s s') E s := by
  have hmem : page2MIB p ∈ H.own s.heap := h.own.mem_iff.mpr List.mem_cons_self
  rw [wp, physFree2MIB]
  cases hrun : A.free2MIB p s.heap s.mem with
  | ok r =>
    obtain ⟨h1, h2⟩ := hf.free2MIB h.valid hmem hrun
    exact ⟨freed_of_returned h1 h2 h.own, _, rfl, .free2MIB p⟩
  | error e =>
    rcases hE with hE | hE
    · exact hE e
    · obtain ⟨r, hr⟩ := (hE _ _ p h.valid).2 hmem
      rw [hr] at hrun
      cases hrun

/-! ## The loop over a table -/

/-- One round: the entry is read, and if present its pages are given back. The state that
the table was read from is `P`. -/
lemma wp_cleanupSlot {freeSlot : Word → Kern α Unit} (hs : FreesSlot H E top l freeSlot)
    {t : Word} {i : ℕ} {P : Mem} {rest : List Block} (hrest : page4KIB t ∈ rest) {s : Machine α}
    (he : entry (phys s.mem) t i = entry P t i)
    (hform : SlotAll EntryForm P top l (entry P t i))
    (hsame : SameEntries (tables (slotTree P top l (entry P t i))) P (phys s.mem))
    (h : Holds H (blocks (slotTree P top l (entry P t i))) rest s) :
    wp (cleanupSlot freeSlot (physToVirt t) i)
      (fun _ s' => FreedBy H (blocks (slotTree P top l (entry P t i))) rest s s') E s := by
  have htree := slotTree_congr l hsame
  rw [cleanupSlot, wp_bind, wp_loadEntry, he, wp_ite]
  constructor
  · intro hp
    refine wp_mono (hs _ { s with log := s.log ++ [.read t] } rest hp (slotAll_congr l hsame hform)
      ⟨h.valid, ?_⟩) fun _ s' hfreed => .read h hrest ?_
    · rw [htree]
      exact h.own
    · rw [htree] at hfreed
      exact hfreed
  · intro hp
    rw [not_not] at hp
    rw [slotTree_absent (decode_absent_iff.mpr hp)] at h ⊢
    rw [wp_pure]
    exact .read h hrest (.refl ⟨h.valid, h.own⟩)

theorem wp_cleanupEntries {freeSlot : Word → Kern α Unit} (hs : FreesSlot H E top l freeSlot)
    {t : Word} {n : ℕ} (ht : 4096 ∣ t.toNat) (hn : n ≤ 512) {rest : List Block}
    (hrest : page4KIB t ∈ rest) {s : Machine α}
    (hform : ∀ i < n, SlotAll EntryForm (phys s.mem) top l (entry (phys s.mem) t i))
    (h : Holds H (blocks (slotsFrom (phys s.mem) top l t n 0)) rest s) :
    wp (cleanupEntries freeSlot (physToVirt t) n)
      (fun _ s' => FreedBy H (blocks (slotsFrom (phys s.mem) top l t n 0)) rest s s') E s := by
  have hsplit : ∀ i ≤ n, slotsFrom (phys s.mem) top l t n 0
      = slotsUpTo (phys s.mem) top l t i ++ slotsFrom (phys s.mem) top l t n i := fun i hi =>
    slotsFrom_split hi
  rw [cleanupEntries]
  refine wp_mono (wp_forRange
    (fun i s' => FreedBy H (blocks (slotsUpTo (phys s.mem) top l t i))
      (blocks (slotsFrom (phys s.mem) top l t n i) ++ rest) s s') n ?_ ?_) ?_
  · rw [slotsUpTo_zero]
    exact .refl ⟨h.valid, h.own⟩
  · intro i s1 hi h1
    have hfrom : slotsFrom (phys s.mem) top l t n i = _ := slotsFrom_step hi
    rw [hfrom, blocks_append, List.append_assoc] at h1
    have hrest1 : page4KIB t ∈ blocks (slotsFrom (phys s.mem) top l t n (i + 1)) ++ rest :=
      List.mem_append_right _ hrest
    -- what is left has not been written so far
    have he : entry (phys s1.mem) t i = entry (phys s.mem) t i :=
      entry_congr ht (by omega) (h1.freed.agree _ (List.mem_append_right _ hrest1))
    have hsame : SameEntries (tables (slotTree (phys s.mem) top l (entry (phys s.mem) t i)))
        (phys s.mem) (phys s1.mem) :=
      slot_same h1.freed.agree fun b hb => List.mem_append_left _ hb
    refine wp_mono (wp_cleanupSlot hs hrest1 he (hform i hi) hsame h1.holds) fun _ s2 h2 => ?_
    rw [slotsUpTo_succ, blocks_append]
    refine FreedBy.trans ⟨h.valid, ?_⟩ h1 h2
    have hown := h.own
    rw [hsplit i (by omega), hfrom, blocks_append, blocks_append] at hown
    simpa only [List.append_assoc] using hown
  · intro _ s' h'
    have hall := hsplit n le_rfl
    rw [slotsFrom_all, List.append_nil] at hall
    rw [slotsFrom_all, blocks_nil, List.nil_append, ← hall] at h'
    exact h'

/-- The table itself is given back after its entries. -/
lemma wp_freeTableAfter (hf : H.FreesReturn) (hE : FreesAllowed H E) {entries : Kern α Unit}
    {t : Word} {bs rest : List Block} {s : Machine α} (h : Holds H (page4KIB t :: bs) rest s)
    (hentries : wp entries (fun _ s' => FreedBy H bs (page4KIB t :: rest) s s') E s) :
    wp (do entries; physFree4KIB A t)
      (fun _ s' => FreedBy H (page4KIB t :: bs) rest s s') E s := by
  have hown : (H.own s.heap).Perm (bs ++ page4KIB t :: rest) := h.own.trans List.perm_middle.symm
  rw [wp_bind]
  refine wp_mono hentries fun _ s1 h1 => ?_
  refine wp_mono (wp_physFree4KIB hf hE (show Holds H [page4KIB t] rest s1 from h1.holds))
    fun _ s2 h2 => ?_
  obtain ⟨hfreed, L, hL, hrel⟩ :=
    FreedBy.trans (show Holds H bs ([page4KIB t] ++ rest) s from ⟨h.valid, hown⟩) h1 h2
  have hperm : (bs ++ [page4KIB t]).Perm (page4KIB t :: bs) := List.perm_append_singleton _ _
  exact ⟨hfreed, L, hL, hrel.mono (fun b hb => (hperm.append_right rest).mem_iff.mp hb) hperm⟩

/-- Freeing the entries and then the table itself. -/
theorem freesTable_of_freesSlot (hf : H.FreesReturn) (hE : FreesAllowed H E)
    {freeSlot : Word → Kern α Unit} (hl : l ≠ 3) (hs : FreesSlot H E top l freeSlot) :
    FreesTable H E top l (cleanupTable A freeSlot) := by
  intro t s rest ht hform h
  have htree : blocks (tree (phys s.mem) top l t)
      = page4KIB t :: blocks (slotsFrom (phys s.mem) top l t 512 0) := by
    rw [tree, slots_of_ne hl, slotsFrom_zero, blocks_cons]
    rfl
  rw [htree] at h ⊢
  rw [cleanupTable, virtToPhys_physToVirt]
  refine wp_freeTableAfter hf hE h (wp_cleanupEntries hs ht le_rfl List.mem_cons_self
    (fun i hi => hform i ?_) ⟨h.valid, h.own.trans List.perm_middle.symm⟩)
  rw [slots_of_ne hl]
  exact List.mem_range.mpr hi

/-! ## The levels -/

/-- An entry that leads to a table is freed by freeing that table. -/
lemma freesSlot_table {freeTable : Word → Kern α Unit} (hs : FreesTable H E top l freeTable)
    {e : Word} {s : Machine α} {rest : List Block} (hp : e &&& presentBit ≠ 0)
    (hsize : l = 0 → e &&& sizeBit = 0) (hform : SlotAll EntryForm (phys s.mem) top (l + 1) e)
    (h : Holds H (blocks (slotTree (phys s.mem) top (l + 1) e)) rest s) :
    wp (freeTable (physToVirt (pml4eToPdpt e)))
      (fun _ s' => FreedBy H (blocks (slotTree (phys s.mem) top (l + 1) e)) rest s s') E s := by
  have hd := decode_table (slotAll_head hform) hp hsize
  rw [slotTree_table hd] at h ⊢
  exact hs _ s rest (decode_table_aligned hd) (slotAll_table hform hd) h

theorem freesTable_cleanupPageTable (hf : H.FreesReturn) (hE : FreesAllowed H E) :
    FreesTable H E top 0 (cleanupPageTable A) := by
  refine freesTable_of_freesSlot hf hE (by norm_num) fun e s rest hp hform h => ?_
  rw [slotTree_leaf (decode_small hform hp)] at h ⊢
  exact wp_physFree4KIB hf hE h

theorem freesTable_cleanupPageDirectoryTable (hf : H.FreesReturn) (hE : FreesAllowed H E) :
    FreesTable H E top 1 (cleanupPageDirectoryTable A) := by
  refine freesTable_of_freesSlot hf hE (by norm_num) fun e s rest hp hform h => ?_
  rw [wp_ite]
  constructor
  · intro hs
    rw [slotTree_leaf (decode_large (slotAll_head hform) hp hs)] at h ⊢
    exact wp_physFree2MIB hf hE h
  · intro hs
    rw [not_not] at hs
    exact freesSlot_table (freesTable_cleanupPageTable hf hE) hp (fun _ => hs) hform h

theorem freesTable_cleanupPageDirectoryPointerTable (hf : H.FreesReturn)
    (hE : FreesAllowed H E) : FreesTable H E top 2 (cleanupPageDirectoryPointerTable A) := by
  refine freesTable_of_freesSlot hf hE (by norm_num) fun e s rest hp hform h => ?_
  exact freesSlot_table (freesTable_cleanupPageDirectoryTable hf hE) hp (fun h0 => by cases h0)
    hform h

/-- The code for one entry of the PML4. -/
lemma freesSlot_pml4 (hf : H.FreesReturn) (hE : FreesAllowed H E) : FreesSlot H E userHalf 3
    fun entry => cleanupPageDirectoryPointerTable A (physToVirt (pml4eToPdpt entry)) :=
  fun _ _ _ hp hform h =>
    freesSlot_table (freesTable_cleanupPageDirectoryPointerTable hf hE) hp (fun h0 => by cases h0)
      hform h

lemma blocks_tree_user (P : Mem) (r : Word) : blocks (tree P userHalf 3 r)
    = page4KIB r :: blocks (slotsFrom P userHalf 3 r 256 0) := by
  rw [tree, slots_userHalf, slotsFrom_zero, blocks_cons]
  rfl

/-- `virt_cleanup_table` gives back the user half and the PML4, each block once. -/
theorem wp_virtCleanupTable_log (hf : H.FreesReturn) (hE : FreesAllowed H E) {r : Word}
    {s : Machine α} {rest : List Block} (hr : 4096 ∣ r.toNat)
    (hform : TableAll EntryForm (phys s.mem) userHalf 3 r)
    (h : Holds H (blocks (tree (phys s.mem) userHalf 3 r)) rest s) :
    wp (virtCleanupTable A r)
      (fun _ s' => FreedBy H (blocks (tree (phys s.mem) userHalf 3 r)) rest s s') E s := by
  rw [blocks_tree_user] at h ⊢
  rw [virtCleanupTable]
  exact wp_freeTableAfter hf hE h (wp_cleanupEntries (freesSlot_pml4 hf hE) hr (by norm_num)
    List.mem_cons_self (fun i hi => hform i (mem_slots_user hi))
    ⟨h.valid, h.own.trans List.perm_middle.symm⟩)

/-- `virt_cleanup_table` gives back the user half and the PML4. -/
theorem wp_virtCleanupTable (hf : H.FreesReturn) {r : Word} {s : Machine α} {rest : List Block}
    (hr : 4096 ∣ r.toNat) (hform : TableAll EntryForm (phys s.mem) userHalf 3 r)
    (hv : H.Valid s.heap s.mem)
    (hown : (H.own s.heap).Perm (blocks (tree (phys s.mem) userHalf 3 r) ++ rest)) :
    wp (virtCleanupTable A r) (fun _ s' => Freed H rest s.mem s'.heap s'.mem) (fun _ => True) s :=
  wp_mono (wp_virtCleanupTable_log hf (.inl fun _ => trivial) hr hform ⟨hv, hown⟩)
    fun _ _ h => h.freed

/-! ## Reset -/

/-- The state of `virt_reset_table` before iteration `i`: the entries below `i` are zero, the
pages of the others are still there, and `rest` is untouched. -/
structure Resetting (H : PhysHeap A) (P : Mem) (r : Word) (rest : List Block) (i : ℕ) (a : α)
    (m : Mem) : Prop where
  valid : H.Valid a m
  own : (H.own a).Perm (blocks (slotsFrom P userHalf 3 r 256 i) ++ page4KIB r :: rest)
  agree : AgreeOn (blocks (slotsFrom P userHalf 3 r 256 i) ++ rest) P (phys m)
  zero : ∀ j < i, entry (phys m) r j = 0
  same : ∀ j, i ≤ j → j < 512 → entry (phys m) r j = entry P r j

lemma Resetting.step (hf : H.FreesReturn) (hE : FreesAllowed H E) {P : Mem} {r : Word}
    {rest : List Block} {i : ℕ} {s : Machine α} (hr : 4096 ∣ r.toNat) (hi : i < 256)
    (hform : SlotAll EntryForm P userHalf 3 (entry P r i))
    (h : Resetting H P r rest i s.heap s.mem) :
    wp (do
      cleanupSlot
        (fun entry => cleanupPageDirectoryPointerTable A (physToVirt (pml4eToPdpt entry)))
        (physToVirt r) i
      storeEntry (physToVirt r) i 0)
      (fun _ s' => Resetting H P r rest (i + 1) s'.heap s'.mem ∧
        ∃ L, s'.log = s.log ++ L ∧
          Releases (blocks (slotsFrom P userHalf 3 r 256 i) ++ page4KIB r :: rest)
            (blocks (slotTree P userHalf 3 (entry P r i))) L) E s := by
  have hown := h.own
  have hagree := h.agree
  rw [slotsFrom_step hi, blocks_append, List.append_assoc] at hown hagree
  have hsame : SameEntries (tables (slotTree P userHalf 3 (entry P r i))) P (phys s.mem) :=
    slot_same hagree fun b hb => List.mem_append_left _ hb
  rw [wp_bind]
  refine wp_mono (wp_cleanupSlot (freesSlot_pml4 hf hE)
    (List.mem_append_right _ List.mem_cons_self) (h.same i le_rfl (by omega)) hform hsame
    ⟨h.valid, hown⟩) ?_
  rintro - s1 ⟨⟨hv1, hown1, hagree1⟩, L, hL, hrel⟩
  rw [wp_storeEntry]
  have hpage : page4KIB r ∈ H.own s1.heap :=
    hown1.mem_iff.mpr (List.mem_append_right _ List.mem_cons_self)
  -- the PML4 is apart from everything else that is left
  have hdisj : ∀ b ∈ blocks (slotsFrom P userHalf 3 r 256 (i + 1)) ++ rest,
      (page4KIB r).Disjoint b := by
    have hpair := ((hown1.trans List.perm_middle).pairwise_iff fun hd => Block.Disjoint.symm hd).mp
      (H.disjoint hv1)
    exact fun b hb => List.rel_of_pairwise_cons hpair hb
  have hentry : ∀ j < 512, entry (phys s1.mem) r j = entry (phys s.mem) r j := fun j hj =>
    entry_congr hr hj (hagree1 _ (List.mem_append_right _ List.mem_cons_self))
  refine ⟨⟨valid_storeEntry hv1 hr hpage (by omega) 0, hown1, ?_, fun j hj => ?_,
    fun j h1 h2 => ?_⟩, L, hL, ?_⟩
  · refine (hagree.mono fun b hb => List.mem_append_right _ hb).trans
      (.trans (hagree1.mono fun b hb => ?_) (agreeOn_storeEntry s1.mem hr (by omega) 0 hdisj))
    rcases List.mem_append.mp hb with hb | hb
    · exact List.mem_append_left _ hb
    · exact List.mem_append_right _ (List.mem_cons_of_mem _ hb)
  · rw [phys_storeEntry]
    rcases Nat.lt_succ_iff_lt_or_eq.mp hj with hj | rfl
    · rw [entry_store64_other _ _ hr hr (by omega) (by omega) (.inr (by omega)),
        hentry j (by omega), h.zero j hj]
    · exact entry_store64_self _ _ _ _
  · rw [phys_storeEntry, entry_store64_other _ _ hr hr h2 (by omega) (.inr (by omega)),
      hentry j h2, h.same j (by omega) h2]
  · rw [slotsFrom_step hi, blocks_append, List.append_assoc]
    exact hrel

/-- `virt_reset_table` gives back the user half, each block once, and leaves it empty. -/
theorem wp_virtResetTable_log (hf : H.FreesReturn) (hE : FreesAllowed H E)
    {kernelTable r : Word} {s : Machine α} {rest : List Block} (hr : 4096 ∣ r.toNat)
    (hpanic : r = kernelTable → ∀ e, E e)
    (hform : TableAll EntryForm (phys s.mem) userHalf 3 r)
    (h : Holds H (blocks (tree (phys s.mem) userHalf 3 r)) rest s) :
    wp (virtResetTable A kernelTable r)
      (fun _ s' => r ≠ kernelTable ∧ Resetting H (phys s.mem) r rest 256 s'.heap s'.mem ∧
        ∃ L, s'.log = s.log ++ L ∧
          Releases (blocks (tree (phys s.mem) userHalf 3 r) ++ rest)
            (blocks (slotsUpTo (phys s.mem) userHalf 3 r 256)) L) E s := by
  rw [blocks_tree_user] at h ⊢
  have hown : (H.own s.heap).Perm
      (blocks (slotsFrom (phys s.mem) userHalf 3 r 256 0) ++ page4KIB r :: rest) :=
    h.own.trans List.perm_middle.symm
  have hdis := (hown.pairwise_iff fun hd => Block.Disjoint.symm hd).mp (H.disjoint h.valid)
  rw [virtResetTable, wp_ite]
  refine ⟨fun heq => hpanic heq _, fun hne => ?_⟩
  refine wp_mono (wp_forRange
    (fun i s' => Resetting H (phys s.mem) r rest i s'.heap s'.mem ∧ ∃ L, s'.log = s.log ++ L ∧
      Releases (blocks (slotsFrom (phys s.mem) userHalf 3 r 256 0) ++ page4KIB r :: rest)
        (blocks (slotsUpTo (phys s.mem) userHalf 3 r i)) L) 256 ?_ ?_) ?_
  · refine ⟨⟨h.valid, hown, .refl _ _, fun j hj => absurd hj (Nat.not_lt_zero j),
      fun _ _ _ => rfl⟩, [], ?_, ?_⟩
    · rw [List.append_nil]
    · rw [slotsUpTo_zero]
      exact .nil
  · rintro i s1 hi ⟨h1, L, hL, hrel⟩
    refine wp_mono (h1.step hf hE hr hi (hform i (mem_slots_user hi))) ?_
    rintro - s2 ⟨h2, L', hL', hrel'⟩
    refine ⟨h2, L ++ L', ?_, ?_⟩
    · rw [hL', hL, List.append_assoc]
    · rw [slotsUpTo_succ, blocks_append]
      refine hrel.trans (.of_eq ?_) hdis hrel'
      rw [← List.append_assoc, ← blocks_append, ← slotsFrom_split hi.le]
  · rintro - s' ⟨h', L, hL, hrel⟩
    exact ⟨hne, h', L, hL, hrel.mono (fun b hb => List.perm_middle.mem_iff.mp hb) (.refl _)⟩

/-- `virt_reset_table` gives back the user half and leaves it empty. -/
theorem wp_virtResetTable (hf : H.FreesReturn) {kernelTable r : Word} {s : Machine α}
    {rest : List Block} (hr : 4096 ∣ r.toNat)
    (hform : TableAll EntryForm (phys s.mem) userHalf 3 r) (hv : H.Valid s.heap s.mem)
    (hown : (H.own s.heap).Perm (blocks (tree (phys s.mem) userHalf 3 r) ++ rest)) :
    wp (virtResetTable A kernelTable r)
      (fun _ s' => r ≠ kernelTable ∧ Resetting H (phys s.mem) r rest 256 s'.heap s'.mem)
      (fun _ => True) s :=
  wp_mono (wp_virtResetTable_log hf (.inl fun _ => trivial) hr (fun _ _ => trivial) hform
    ⟨hv, hown⟩) fun _ _ h => ⟨h.1, h.2.1⟩

/-- Nothing hangs below the user half afterwards. -/
lemma Resetting.tree_eq {P : Mem} {r : Word} {rest : List Block} {a : α} {m : Mem}
    (h : Resetting H P r rest 256 a m) :
    tree (phys m) userHalf 3 r = [tablePage r] ∧ TableAll EntryForm (phys m) userHalf 3 r := by
  have habs : ∀ i ∈ slots userHalf 3, decode 3 (entry (phys m) r i) = .absent := by
    intro i hi
    rw [slots_userHalf, List.mem_range] at hi
    rw [h.zero i hi, decode_zero]
  exact ⟨tree_of_absent habs, tableAll_of_absent
    (fun e he => entryForm_of_absent (decode_absent_iff.mp he)) habs⟩

end Bikeshed
