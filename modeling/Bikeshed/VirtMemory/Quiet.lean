import Bikeshed.VirtMemory.Events
import Bikeshed.VirtMemory.Paging

/-!
# Runs that neither allocate nor free

Whatever the allocator and the page tables are, a run only adds to the log (`Logging`). So a step
that allocates or frees cannot be made up for by what comes after it (`Loud`).
-/

namespace Bikeshed

open Lib

variable {α β γ : Type} {A : PhysAllocator α} {s s1 s' : Machine α}

/-- Nothing has been handed out or given back between `s` and `s'`. -/
def Quiet (s s' : Machine α) : Prop :=
  ∃ L, s'.log = s.log ++ L ∧ allocated L = [] ∧ freed L = []

namespace Quiet

/-- Memory may have been written. -/
lemma of_log (h : s'.log = s.log) : Quiet s s' := ⟨[], by rw [h, List.append_nil], rfl, rfl⟩

lemma trans (h : Quiet s s1) (h' : Quiet s1 s') : Quiet s s' := by
  obtain ⟨L, hL, ha, hf⟩ := h
  obtain ⟨L', hL', ha', hf'⟩ := h'
  refine ⟨L ++ L', ?_, ?_, ?_⟩
  · rw [hL', hL, List.append_assoc]
  · rw [allocated_append, ha, ha', List.append_nil]
  · rw [freed_append, hf, hf', List.append_nil]

/-- Reading a table is an event of its own. -/
lemma read {t : Word} (h : s'.log = s.log ++ [.read t]) : Quiet s s' := ⟨_, h, rfl, rfl⟩

/-- Neither was anything on the way. -/
lemma split (h : Quiet s s') (h1 : s.log <+: s1.log) (h2 : s1.log <+: s'.log) :
    Quiet s s1 ∧ Quiet s1 s' := by
  obtain ⟨L, hL, ha, hf⟩ := h
  obtain ⟨L1, hL1⟩ := h1
  obtain ⟨L2, hL2⟩ := h2
  have hcat : L1 ++ L2 = L := by
    rw [← hL2, ← hL1, List.append_assoc] at hL
    exact List.append_cancel_left hL
  rw [← hcat, allocated_append, List.append_eq_nil_iff] at ha
  rw [← hcat, freed_append, List.append_eq_nil_iff] at hf
  exact ⟨⟨L1, hL1.symm, ha.1, hf.1⟩, L2, hL2.symm, ha.2, hf.2⟩

/-- One event is enough. -/
lemma not_of_event {e : Event} (h : s'.log = s.log ++ [e])
    (he : e.allocated ≠ none ∨ e.freed ≠ none) : ¬ Quiet s s' := by
  rintro ⟨L, hL, ha, hf⟩
  rw [h] at hL
  rw [← List.append_cancel_left hL, allocated, List.filterMap_eq_nil_iff] at ha
  rw [← List.append_cancel_left hL, freed, List.filterMap_eq_nil_iff] at hf
  rcases he with he | he
  · exact he (ha e List.mem_cons_self)
  · exact he (hf e List.mem_cons_self)

end Quiet

/-- The log only grows. -/
def Logging (c : Kern α β) : Prop :=
  ∀ s, wp c (fun _ s' => s.log <+: s'.log) (fun _ => True) s

/-- Something is handed out or given back in every run that returns. -/
def Loud (c : Kern α β) : Prop :=
  ∀ s, wp c (fun _ s' => s.log <+: s'.log ∧ ¬ Quiet s s') (fun _ => True) s

/-! ## Rules -/

namespace Logging

lemma pure (b : β) : Logging (Pure.pure b : Kern α β) := fun _ => List.prefix_rfl

lemma panicWith (e : String) : Logging (Lib.panicWith e : Kern α β) := fun _ => trivial

lemma bind {c : Kern α β} {f : β → Kern α γ} (hc : Logging c) (hf : ∀ b, Logging (f b)) :
    Logging (c >>= f) := by
  intro s
  rw [wp_bind]
  refine wp_mono (hc s) fun b s1 h1 => ?_
  exact wp_mono (hf b s1) fun _ _ h2 => h1.trans h2

lemma ite {p : Prop} [Decidable p] {c d : Kern α β} (hc : Logging c) (hd : Logging d) :
    Logging (if p then c else d) := by
  split
  · exact hc
  · exact hd

/-- A loop adds what its rounds add. -/
lemma forRange {body : ℕ → Kern α Unit} (h : ∀ i, Logging (body i)) (n : ℕ) :
    Logging (Lib.forRange n body) := fun s =>
  wp_forRange (fun _ s' => s.log <+: s'.log) n List.prefix_rfl fun i s1 _ h1 =>
    wp_mono (h i s1) fun _ _ h2 => h1.trans h2

/-- The read is logged. -/
lemma loadEntry (t : Word) (i : ℕ) : Logging (Bikeshed.loadEntry t i : Kern α Word) :=
  fun s => List.prefix_append s.log _

/-- Writes are not logged. -/
lemma storeEntry (t : Word) (i : ℕ) (e : Word) :
    Logging (Bikeshed.storeEntry t i e : Kern α Unit) := fun _ => List.prefix_rfl

lemma modifyMem (f : Mem → Mem) : Logging (Bikeshed.modifyMem f : Kern α Unit) :=
  fun _ => List.prefix_rfl

end Logging

namespace Loud

lemma logging {c : Kern α β} (h : Loud c) : Logging c := fun s => wp_mono (h s) fun _ _ h => h.1

lemma panicWith (e : String) : Loud (Lib.panicWith e : Kern α β) := fun _ => trivial

/-- The primitives of the allocator add one event. -/
lemma of_event {c : Kern α β} {e : β → Event}
    (he : ∀ b, (e b).allocated ≠ none ∨ (e b).freed ≠ none)
    (h : ∀ s b s', c s = .ok (b, s') → s'.log = s.log ++ [e b]) : Loud c := by
  intro s
  rw [wp_iff]
  refine ⟨fun b s' hrun => ?_, fun _ _ => trivial⟩
  have hlog := h s b s' hrun
  exact ⟨hlog ▸ List.prefix_append s.log _, Quiet.not_of_event hlog (he b)⟩

/-- What comes after a loud step cannot take its event away. -/
lemma bind_left {c : Kern α β} {f : β → Kern α γ} (hc : Loud c) (hf : ∀ b, Logging (f b)) :
    Loud (c >>= f) := by
  intro s
  rw [wp_bind]
  refine wp_mono (hc s) fun b s1 h1 => ?_
  exact wp_mono (hf b s1) fun _ _ h2 => ⟨h1.1.trans h2, fun hq => h1.2 (hq.split h1.1 h2).1⟩

/-- Neither can what came before it. -/
lemma bind_right {c : Kern α β} {f : β → Kern α γ} (hc : Logging c) (hf : ∀ b, Loud (f b)) :
    Loud (c >>= f) := by
  intro s
  rw [wp_bind]
  refine wp_mono (hc s) fun b s1 h1 => ?_
  exact wp_mono (hf b s1) fun _ _ h2 => ⟨h1.trans h2.1, fun hq => h2.2 (hq.split h1 h2.1).2⟩

lemma ite {p : Prop} [Decidable p] {c d : Kern α β} (hc : Loud c) (hd : Loud d) :
    Loud (if p then c else d) := by
  split
  · exact hc
  · exact hd

end Loud

/-! ## The functions -/

variable (A)

/-- Also where the allocator has nothing left: the event has NULL then. -/
lemma loud_physAlloc4KIB : Loud (physAlloc4KIB A) := by
  refine Loud.of_event (e := fun p => .alloc4KIB p) (fun _ => .inl (by simp [Event.allocated]))
    fun s p s' hrun => ?_
  rw [physAlloc4KIB] at hrun
  split at hrun
  · cases hrun
    rfl
  · cases hrun

lemma loud_physAlloc2MIB : Loud (physAlloc2MIB A) := by
  refine Loud.of_event (e := fun p => .alloc2MIB p) (fun _ => .inl (by simp [Event.allocated]))
    fun s p s' hrun => ?_
  rw [physAlloc2MIB] at hrun
  split at hrun
  · cases hrun
    rfl
  · cases hrun

/-- A page is given back. -/
lemma loud_physFree4KIB (p : Word) : Loud (physFree4KIB A p) := by
  refine Loud.of_event (e := fun _ => .free4KIB p) (fun _ => .inr (by simp [Event.freed]))
    fun s _ s' hrun => ?_
  rw [physFree4KIB] at hrun
  split at hrun
  · cases hrun
    rfl
  · cases hrun

lemma loud_physFree2MIB (p : Word) : Loud (physFree2MIB A p) := by
  refine Loud.of_event (e := fun _ => .free2MIB p) (fun _ => .inr (by simp [Event.freed]))
    fun s _ s' hrun => ?_
  rw [physFree2MIB] at hrun
  split at hrun
  · cases hrun
    rfl
  · cases hrun

/-- It is loud only when the table is missing. -/
lemma logging_ensureTable (table : Word) (i : ℕ) (safeFlags : Word) :
    Logging (ensureTable A table i safeFlags) := by
  unfold ensureTable
  refine (Logging.loadEntry _ _).bind fun _ => .ite ?_ (.pure _)
  refine (loud_physAlloc4KIB A).logging.bind fun p => ?_
  split
  · exact .pure false
  · exact .bind (.modifyMem _) fun _ => .bind (.storeEntry _ _ _) fun _ => .pure true

/-- An entry is put in place. -/
lemma logging_mapLarge (pdTable : Word) (i : ℕ) (physAddr safeFlags : Word) :
    Logging (mapLarge pdTable i physAddr safeFlags : Kern α Byte) := by
  unfold mapLarge
  refine (Logging.storeEntry _ _ _).bind fun _ => (Logging.loadEntry _ _).bind fun _ => ?_
  exact (Logging.storeEntry _ _ _).bind fun _ => .pure _

/-- A page table may be made first. -/
lemma logging_mapSmall (pdTable virtAddr physAddr safeFlags : Word) :
    Logging (mapSmall A pdTable virtAddr physAddr safeFlags) := by
  unfold mapSmall
  refine (logging_ensureTable A _ _ _).bind fun _ => .ite ?_ (.pure _)
  refine (Logging.loadEntry _ _).bind fun _ => (Logging.loadEntry _ _).bind fun _ => ?_
  exact .ite (.panicWith _) ((Logging.storeEntry _ _ _).bind fun _ => .pure _)

/-- Whatever the levels find -/
lemma logging_virtMapPhys (t virtAddr physAddr flags pageSize : Word) :
    Logging (virtMapPhys A t virtAddr physAddr flags pageSize) := by
  unfold virtMapPhys
  refine (logging_ensureTable A _ _ _).bind fun _ => .ite ?_ (.pure _)
  refine (Logging.loadEntry _ _).bind fun _ => ?_
  refine (logging_ensureTable A _ _ _).bind fun _ => .ite ?_ (.pure _)
  refine (Logging.loadEntry _ _).bind fun _ => (Logging.loadEntry _ _).bind fun _ => ?_
  exact .ite (.panicWith _) (.ite (logging_mapLarge _ _ _ _)
    (.ite (logging_mapSmall A _ _ _ _) (.panicWith _)))

/-- A frame is asked for first. -/
lemma loud_virtMapPage (t virtAddr flags pageSize : Word) :
    Loud (virtMapPage A t virtAddr flags pageSize) := by
  unfold virtMapPage allocFrame
  refine Loud.bind_left ?_ fun _ => .ite (.pure _)
    ((logging_virtMapPhys A _ _ _ _ _).bind fun _ => .pure _)
  exact .ite (loud_physAlloc2MIB A) (.ite (loud_physAlloc4KIB A) (.panicWith _))

/-- If each slot only adds to the log, so does the loop. -/
lemma logging_cleanupEntries {freeSlot : Word → Kern α Unit} (h : ∀ e, Logging (freeSlot e))
    (table : Word) (n : ℕ) : Logging (cleanupEntries freeSlot table n) := by
  unfold cleanupEntries
  refine .forRange (fun i => ?_) n
  unfold cleanupSlot
  exact (Logging.loadEntry _ _).bind fun _ => .ite (h _) (.pure _)

/-- A table is given back last. -/
lemma loud_cleanupTable {freeSlot : Word → Kern α Unit} (h : ∀ e, Logging (freeSlot e))
    (table : Word) : Loud (cleanupTable A freeSlot table) := by
  unfold cleanupTable
  exact .bind_right (logging_cleanupEntries h _ _) fun _ => loud_physFree4KIB A _

/-- All three levels give their table back. -/
lemma loud_cleanupPageDirectoryPointerTable (table : Word) :
    Loud (cleanupPageDirectoryPointerTable A table) := by
  refine loud_cleanupTable A (fun _ => Loud.logging ?_) table
  refine loud_cleanupTable A (fun _ => .ite (loud_physFree2MIB A _).logging (Loud.logging ?_)) _
  exact loud_cleanupTable A (fun _ => (loud_physFree4KIB A _).logging) _

/-! ## Mapping gives nothing back -/

/-- Nothing is given back in any run that returns. -/
def FreesNothing (c : Kern α β) : Prop :=
  ∀ s, wp c (fun _ s' => ∃ L, s'.log = s.log ++ L ∧ freed L = []) (fun _ => True) s

namespace FreesNothing

lemma pure (b : β) : FreesNothing (Pure.pure b : Kern α β) := fun _ =>
  ⟨[], (List.append_nil _).symm, rfl⟩

lemma panicWith (e : String) : FreesNothing (Lib.panicWith e : Kern α β) := fun _ => trivial

/-- Two steps give back what each of them does. -/
lemma bind {c : Kern α β} {f : β → Kern α γ} (hc : FreesNothing c)
    (hf : ∀ b, FreesNothing (f b)) : FreesNothing (c >>= f) := by
  intro s
  rw [wp_bind]
  refine wp_mono (hc s) fun b s1 ⟨L1, h1, hf1⟩ => ?_
  refine wp_mono (hf b s1) fun _ s2 ⟨L2, h2, hf2⟩ => ⟨L1 ++ L2, ?_, ?_⟩
  · rw [h2, h1, List.append_assoc]
  · rw [freed_append, hf1, hf2, List.append_nil]

lemma ite {p : Prop} [Decidable p] {c d : Kern α β} (hc : FreesNothing c) (hd : FreesNothing d) :
    FreesNothing (if p then c else d) := by
  split
  · exact hc
  · exact hd

/-- A read is no free. -/
lemma loadEntry (t : Word) (i : ℕ) : FreesNothing (Bikeshed.loadEntry t i : Kern α Word) :=
  fun _ => ⟨_, rfl, rfl⟩

lemma storeEntry (t : Word) (i : ℕ) (e : Word) :
    FreesNothing (Bikeshed.storeEntry t i e : Kern α Unit) :=
  fun _ => ⟨[], (List.append_nil _).symm, rfl⟩

lemma modifyMem (f : Mem → Mem) : FreesNothing (Bikeshed.modifyMem f : Kern α Unit) :=
  fun _ => ⟨[], (List.append_nil _).symm, rfl⟩

/-- The primitives that allocate -/
lemma of_event {c : Kern α β} {e : β → Event} (he : ∀ b, (e b).freed = none)
    (h : ∀ s b s', c s = .ok (b, s') → s'.log = s.log ++ [e b]) : FreesNothing c := by
  intro s
  rw [wp_iff]
  refine ⟨fun b s' hrun => ⟨[e b], h s b s' hrun, ?_⟩, fun _ _ => trivial⟩
  rw [freed, List.filterMap_cons, he]
  rfl

end FreesNothing

/-- Handing out a page is no free. -/
lemma freesNothing_physAlloc4KIB : FreesNothing (physAlloc4KIB A) := by
  refine FreesNothing.of_event (e := fun p => .alloc4KIB p) (fun _ => rfl) fun s p s' hrun => ?_
  rw [physAlloc4KIB] at hrun
  split at hrun
  · cases hrun
    rfl
  · cases hrun

lemma freesNothing_physAlloc2MIB : FreesNothing (physAlloc2MIB A) := by
  refine FreesNothing.of_event (e := fun p => .alloc2MIB p) (fun _ => rfl) fun s p s' hrun => ?_
  rw [physAlloc2MIB] at hrun
  split at hrun
  · cases hrun
    rfl
  · cases hrun

/-- A table may be allocated. -/
lemma freesNothing_ensureTable (table : Word) (i : ℕ) (safeFlags : Word) :
    FreesNothing (ensureTable A table i safeFlags) := by
  unfold ensureTable
  refine (FreesNothing.loadEntry _ _).bind fun _ => .ite ?_ (.pure _)
  refine (freesNothing_physAlloc4KIB A).bind fun p => ?_
  split
  · exact .pure false
  · exact .bind (.modifyMem _) fun _ => .bind (.storeEntry _ _ _) fun _ => .pure true

/-- A page table may be allocated. -/
lemma freesNothing_mapSmall (pdTable virtAddr physAddr safeFlags : Word) :
    FreesNothing (mapSmall A pdTable virtAddr physAddr safeFlags) := by
  unfold mapSmall
  refine (freesNothing_ensureTable A _ _ _).bind fun _ => .ite ?_ (.pure _)
  refine (FreesNothing.loadEntry _ _).bind fun _ => (FreesNothing.loadEntry _ _).bind fun _ => ?_
  exact .ite (.panicWith _) ((FreesNothing.storeEntry _ _ _).bind fun _ => .pure _)

/-- Tables that are replaced are not given back either. -/
lemma freesNothing_virtMapPhys (t virtAddr physAddr flags pageSize : Word) :
    FreesNothing (virtMapPhys A t virtAddr physAddr flags pageSize) := by
  have hlarge : ∀ pdTable i safeFlags,
      FreesNothing (mapLarge pdTable i physAddr safeFlags : Kern α Byte) := by
    intro pdTable i safeFlags
    unfold mapLarge
    refine (FreesNothing.storeEntry _ _ _).bind fun _ => ?_
    refine (FreesNothing.loadEntry _ _).bind fun _ => ?_
    exact (FreesNothing.storeEntry _ _ _).bind fun _ => .pure _
  unfold virtMapPhys
  refine (freesNothing_ensureTable A _ _ _).bind fun _ => .ite ?_ (.pure _)
  refine (FreesNothing.loadEntry _ _).bind fun _ => ?_
  refine (freesNothing_ensureTable A _ _ _).bind fun _ => .ite ?_ (.pure _)
  refine (FreesNothing.loadEntry _ _).bind fun _ => (FreesNothing.loadEntry _ _).bind fun _ => ?_
  exact .ite (.panicWith _) (.ite (hlarge _ _ _)
    (.ite (freesNothing_mapSmall A _ _ _ _) (.panicWith _)))

/-- Not even when the page cannot be mapped: the frame is lost then. -/
lemma freesNothing_virtMapPage (t virtAddr flags pageSize : Word) :
    FreesNothing (virtMapPage A t virtAddr flags pageSize) := by
  unfold virtMapPage allocFrame
  refine FreesNothing.bind ?_ fun _ => .ite (.pure _)
    ((freesNothing_virtMapPhys A _ _ _ _ _).bind fun _ => .pure _)
  exact .ite (freesNothing_physAlloc2MIB A) (.ite (freesNothing_physAlloc4KIB A) (.panicWith _))

/-! ## Reset -/

/-- None of the first `n` entries is present. -/
def EntriesAbsent (m : Mem) (t : Word) (n : ℕ) : Prop :=
  ∀ i < n, entry (phys m) t i &&& presentBit = 0

/-- Memory in which the first `n` entries of the table are zero -/
def clearEntries (m : Mem) (t : Word) (n : ℕ) : Mem := fill m (physToVirt t) (8 * n) 0

/-- A byte of an entry -/
lemma entry_byte (t : Word) {i k : ℕ} (hi : i < 512) (hk : k < 8) :
    (t + BitVec.ofNat 64 (8 * i) + BitVec.ofNat 64 k - t).toNat = 8 * i + k := by
  rw [add_assoc, ← BitVec.ofNat_add, Lib.add_sub_toNat t (by omega)]

/-- The entries in front are zero. -/
lemma entry_clearEntries_lt (m : Mem) (t : Word) {i n : ℕ} (hi : i < 512) (hn : i < n) :
    entry (phys (clearEntries m t n)) t i = 0 := by
  unfold clearEntries
  rw [phys_fill]
  refine load64_eq fun k hk => ?_
  rw [fill, entry_byte t hi hk, if_pos (by omega)]
  apply BitVec.eq_of_getLsbD_eq
  simp

/-- The others stay. -/
lemma entry_clearEntries_ge (m : Mem) (t : Word) {i n : ℕ} (hi : i < 512) (hn : n ≤ i) :
    entry (phys (clearEntries m t n)) t i = entry (phys m) t i := by
  unfold clearEntries
  rw [phys_fill]
  refine load64_congr fun k hk => ?_
  rw [fill, entry_byte t hi hk, if_neg (by omega)]

lemma clearEntries_zero (m : Mem) (t : Word) : clearEntries m t 0 = m := by
  funext x
  rw [clearEntries, fill, if_neg (Nat.not_lt_zero _)]

/-- One entry more -/
lemma clearEntries_succ (m : Mem) (t : Word) {n : ℕ} (hn : n < 512) :
    store64 (clearEntries m t n) (physToVirt t + BitVec.ofNat 64 (8 * n)) 0
      = clearEntries m t (n + 1) := by
  rw [store64_zero_eq_fill, clearEntries, fill_fill m (physToVirt t) 0 (by omega)]
  rfl

/-- What is known after the first `n` entries have been reset: something has been given back unless
all were absent, and then zeros are all that has been written. -/
structure ResetTo (s : Machine α) (t : Word) (n : ℕ) (s1 : Machine α) : Prop where
  log : s.log <+: s1.log
  quiet : Quiet s s1 ↔ EntriesAbsent s.mem t n
  mem : EntriesAbsent s.mem t n → s1.mem = clearEntries s.mem t n

namespace ResetTo

variable {t : Word} {n : ℕ}

/-- Once something has been given back; the memory does not matter then. -/
lemma of_loud (hsame : s'.log = s1.log) (hlog : s.log <+: s1.log) (hloud : ¬ Quiet s s1)
    (hpres : ¬ EntriesAbsent s.mem t n) : ResetTo s t n s' := by
  have hloud' : ¬ Quiet s s' := by
    rw [Quiet, hsame]
    exact hloud
  refine ⟨?_, ⟨fun h => absurd h hloud', fun h => absurd h hpres⟩, fun h => absurd h hpres⟩
  rw [hsame]
  exact hlog

/-- One slot: a present one makes the run loud, an absent one is set to zero. -/
lemma step (hn : n < 512) (h : ResetTo s t n s1) :
    wp (do
      cleanupSlot (fun entry => cleanupPageDirectoryPointerTable A (physToVirt (pml4eToPdpt entry)))
        (physToVirt t) n
      storeEntry (physToVirt t) n 0) (fun _ s' => ResetTo s t (n + 1) s') (fun _ => True) s1 := by
  by_cases habs : EntriesAbsent s.mem t n
  · have hmem := h.mem habs
    have hentry : entry (phys s1.mem) t n = entry (phys s.mem) t n := by
      rw [hmem, entry_clearEntries_ge s.mem t hn le_rfl]
    unfold cleanupSlot
    simp only [wp_bind, wp_loadEntry, wp_ite, wp_pure, wp_storeEntry]
    rw [hentry]
    set s2 : Machine α := { s1 with log := s1.log ++ [.read t] } with hs2
    have hread : s.log <+: s2.log := h.log.trans (List.prefix_append _ _)
    constructor
    · intro hpres
      refine wp_mono (loud_cleanupPageDirectoryPointerTable A _ s2) fun _ s3 h3 => ?_
      have hloud : ¬ Quiet s s3 := fun hq => h3.2 (hq.split hread h3.1).2
      have hno : ¬ EntriesAbsent s.mem t (n + 1) := fun hall => hpres (hall n (Nat.lt_succ_self n))
      exact of_loud (show _ = s3.log from rfl) (hread.trans h3.1) hloud hno
    · intro hn0
      rw [not_not] at hn0
      have hnext : EntriesAbsent s.mem t (n + 1) := by
        intro i hi
        rcases Nat.lt_succ_iff_lt_or_eq.mp hi with hi | rfl
        · exact habs i hi
        · exact hn0
      refine ⟨hread, ⟨fun _ => hnext, fun _ => (h.quiet.mpr habs).trans (.read (t := t) rfl)⟩,
        fun _ => ?_⟩
      rw [hmem]
      exact clearEntries_succ s.mem t hn
  · have hbody : Logging (do
        cleanupSlot
          (fun entry => cleanupPageDirectoryPointerTable A (physToVirt (pml4eToPdpt entry)))
          (physToVirt t) n
        storeEntry (physToVirt t) n 0) := by
      refine .bind (.bind (.loadEntry _ _) fun _ => .ite ?_ (.pure _)) fun _ => .storeEntry _ _ _
      exact (loud_cleanupPageDirectoryPointerTable A _).logging
    refine wp_mono (hbody s1) fun _ s2 h2 => ?_
    have hloud : ¬ Quiet s s2 := fun hq => habs (h.quiet.mp (hq.split h.log h2).1)
    have hno : ¬ EntriesAbsent s.mem t (n + 1) := fun hall => habs fun i hi => hall i (by omega)
    exact of_loud (show _ = s2.log from rfl) (h.log.trans h2) hloud hno

end ResetTo

/-- `virt_reset_table` gives something back unless the user half is empty. -/
theorem wp_virtResetTable_quiet (kernelTable t : Word) (s : Machine α) :
    wp (virtResetTable A kernelTable t) (fun _ s' => ResetTo s t 256 s') (fun _ => True) s := by
  unfold virtResetTable
  rw [wp_ite]
  refine ⟨fun _ => trivial, fun _ => ?_⟩
  have h0 : ResetTo s t 0 s := by
    exact ⟨List.prefix_rfl, ⟨fun _ j hj => absurd hj (Nat.not_lt_zero j), fun _ => .of_log rfl⟩,
      fun _ => (clearEntries_zero s.mem t).symm⟩
  have hstep : ∀ i s1, i < 256 → ResetTo s t i s1 → wp (do
      cleanupSlot (fun entry => cleanupPageDirectoryPointerTable A (physToVirt (pml4eToPdpt entry)))
        (physToVirt t) i
      storeEntry (physToVirt t) i 0) (fun _ s' => ResetTo s t (i + 1) s') (fun _ => True) s1 := by
    intro i s1 hi h1
    exact h1.step A (hi.trans (by norm_num))
  exact wp_forRange (fun i s1 => ResetTo s t i s1) 256 h0 hstep

end Bikeshed
