import Bikeshed.VirtMemory.Paging

/-!
# The paging code on two allocators

An allocator `B` may do what `A` does and know less: where `A` returns, so does `B`, and `f` maps
the variables of the one to those of the other (`Follows`). Everything built from the primitives
carries over (`Carries`).
-/

namespace Bikeshed

open Lib

variable {α β γ δ : Type} {A : PhysAllocator α} {B : PhysAllocator β} {f : α → β}

/-- Where `A` returns, `B` returns the same block and the same memory. -/
structure PhysAllocator.Follows (A : PhysAllocator α) (B : PhysAllocator β) (f : α → β) : Prop where
  alloc4KIB {a a' : α} {m m' : Mem} {p : Word} : A.alloc4KIB a m = .ok (p, a', m') →
    B.alloc4KIB (f a) m = .ok (p, f a', m')
  alloc2MIB {a a' : α} {m m' : Mem} {p : Word} : A.alloc2MIB a m = .ok (p, a', m') →
    B.alloc2MIB (f a) m = .ok (p, f a', m')
  free4KIB {a a' : α} {m m' : Mem} {p : Word} : A.free4KIB p a m = .ok (a', m') →
    B.free4KIB p (f a) m = .ok (f a', m')
  free2MIB {a a' : α} {m m' : Mem} {p : Word} : A.free2MIB p a m = .ok (a', m') →
    B.free2MIB p (f a) m = .ok (f a', m')

/-- The machine with the variables of the other allocator. -/
def Machine.map (f : α → β) (s : Machine α) : Machine β := ⟨s.mem, f s.heap, s.log⟩

/-- The returns of `x` are those of `y` as well. -/
def Carries (f : α → β) (x : Kern α γ) (y : Kern β γ) : Prop :=
  ∀ s c s', x s = .ok (c, s') → y (s.map f) = .ok (c, s'.map f)

namespace Carries

lemma pure (c : γ) : Carries f (Pure.pure c : Kern α γ) (Pure.pure c) := by
  rintro s c s' h
  cases h
  rfl

lemma panicWith (e : String) : Carries f (Lib.panicWith e : Kern α γ) (Lib.panicWith e) := by
  rintro s c s' h
  cases h

/-- The two sides of a bind carry over one after the other. -/
lemma bind {x : Kern α γ} {y : Kern β γ} {k : γ → Kern α δ} {l : γ → Kern β δ}
    (h : Carries f x y) (hk : ∀ c, Carries f (k c) (l c)) : Carries f (x >>= k) (y >>= l) := by
  intro s d s' hrun
  have hx : ∃ c s1, x s = .ok (c, s1) ∧ k c s1 = .ok (d, s') := by
    cases hxs : x s with
    | error e =>
      simp [Bind.bind, StateT.bind, Except.bind, hxs] at hrun
    | ok r => exact ⟨r.1, r.2, rfl, by simpa [Bind.bind, StateT.bind, Except.bind, hxs] using hrun⟩
  obtain ⟨c, s1, hx, hk1⟩ := hx
  have hy := h s c s1 hx
  simp only [Bind.bind, StateT.bind, Except.bind, hy]
  exact hk c s1 d s' hk1

/-- A branch that does not depend on the allocator -/
lemma ite {p : Prop} [Decidable p] {x x' : Kern α γ} {y y' : Kern β γ} (h : Carries f x y)
    (h' : Carries f x' y') : Carries f (if p then x else x') (if p then y else y') := by
  split
  · exact h
  · exact h'

/-- A loop carries over if each of its rounds does. -/
lemma forRange {n : ℕ} {x : ℕ → Kern α Unit} {y : ℕ → Kern β Unit}
    (h : ∀ i, Carries f (x i) (y i)) : Carries f (Lib.forRange n x) (Lib.forRange n y) := by
  induction n with
  | zero =>
    simp only [Lib.forRange]
    exact pure ()
  | succ n ih =>
    simp only [Lib.forRange]
    exact ih.bind fun _ => h n

/-- Page table entries are in the memory, which both machines share. -/
lemma loadEntry (t : Word) (i : ℕ) :
    Carries f (Bikeshed.loadEntry t i : Kern α Word) (Bikeshed.loadEntry t i) := by
  rintro s c s' h
  cases h
  rfl

lemma storeEntry (t : Word) (i : ℕ) (e : Word) :
    Carries f (Bikeshed.storeEntry t i e : Kern α Unit) (Bikeshed.storeEntry t i e) := by
  rintro s c s' h
  cases h
  rfl

lemma modifyMem (g : Mem → Mem) :
    Carries f (Bikeshed.modifyMem g : Kern α Unit) (Bikeshed.modifyMem g) := by
  rintro s c s' h
  cases h
  rfl

end Carries

variable (h : A.Follows B f)

include h

/-! ## The allocator's functions -/

lemma carries_physAlloc4KIB : Carries f (physAlloc4KIB A) (physAlloc4KIB B) := by
  intro s c s' hrun
  rw [physAlloc4KIB] at hrun
  split at hrun
  · rename_i p a m hA
    cases hrun
    simp only [physAlloc4KIB, Machine.map, h.alloc4KIB hA]
  · cases hrun

lemma carries_physAlloc2MIB : Carries f (physAlloc2MIB A) (physAlloc2MIB B) := by
  intro s c s' hrun
  rw [physAlloc2MIB] at hrun
  split at hrun
  · rename_i p a m hA
    cases hrun
    simp only [physAlloc2MIB, Machine.map, h.alloc2MIB hA]
  · cases hrun

lemma carries_physFree4KIB (p : Word) : Carries f (physFree4KIB A p) (physFree4KIB B p) := by
  intro s c s' hrun
  rw [physFree4KIB] at hrun
  split at hrun
  · rename_i a m hA
    cases hrun
    simp only [physFree4KIB, Machine.map, h.free4KIB hA]
  · cases hrun

lemma carries_physFree2MIB (p : Word) : Carries f (physFree2MIB A p) (physFree2MIB B p) := by
  intro s c s' hrun
  rw [physFree2MIB] at hrun
  split at hrun
  · rename_i a m hA
    cases hrun
    simp only [physFree2MIB, Machine.map, h.free2MIB hA]
  · cases hrun

/-- The check for NULL sees the same block. -/
lemma carries_physAlloc4KIBSafe (error : String) :
    Carries f (physAlloc4KIBSafe A error) (physAlloc4KIBSafe B error) := by
  unfold physAlloc4KIBSafe
  exact (carries_physAlloc4KIB h).bind fun _ => .ite (.panicWith _) (.pure _)

lemma carries_physAlloc2MIBSafe (error : String) :
    Carries f (physAlloc2MIBSafe A error) (physAlloc2MIBSafe B error) := by
  unfold physAlloc2MIBSafe
  exact (carries_physAlloc2MIB h).bind fun _ => .ite (.panicWith _) (.pure _)

/-! ## Mapping and unmapping -/

/-- The new table page is the same block, cleared in the same memory. -/
lemma carries_ensureTable (table : Word) (i : ℕ) (safeFlags : Word) :
    Carries f (ensureTable A table i safeFlags) (ensureTable B table i safeFlags) := by
  unfold ensureTable
  apply (Carries.loadEntry _ _).bind
  intro _
  refine .ite ((carries_physAlloc4KIB h).bind fun _ => .ite (.pure _) ?_) (.pure _)
  exact (Carries.modifyMem _).bind fun _ => (Carries.storeEntry _ _ _).bind fun _ => .pure _

/-- Of the levels only the making of tables calls the allocator. -/
lemma carries_virtMapPhys (t virtAddr physAddr flags pageSize : Word) :
    Carries f (virtMapPhys A t virtAddr physAddr flags pageSize)
      (virtMapPhys B t virtAddr physAddr flags pageSize) := by
  have hlarge : ∀ pdTable i safeFlags, Carries f
      (mapLarge pdTable i physAddr safeFlags : Kern α Byte)
      (mapLarge pdTable i physAddr safeFlags) := by
    intro pdTable i safeFlags
    unfold mapLarge
    apply (Carries.storeEntry _ _ _).bind
    intro _
    exact (Carries.loadEntry _ _).bind fun _ => (Carries.storeEntry _ _ _).bind fun _ => .pure _
  have hsmall : ∀ pdTable safeFlags, Carries f (mapSmall A pdTable virtAddr physAddr safeFlags)
      (mapSmall B pdTable virtAddr physAddr safeFlags) := by
    intro pdTable safeFlags
    unfold mapSmall
    refine (carries_ensureTable h _ _ _).bind fun _ => .ite ?_ (.pure _)
    apply (Carries.loadEntry _ _).bind
    intro _
    apply (Carries.loadEntry _ _).bind
    intro _
    exact .ite (.panicWith _) ((Carries.storeEntry _ _ _).bind fun _ => .pure _)
  unfold virtMapPhys
  refine (carries_ensureTable h _ _ _).bind fun _ => .ite ?_ (.pure _)
  refine (Carries.loadEntry _ _).bind fun _ => ?_
  refine (carries_ensureTable h _ _ _).bind fun _ => .ite ?_ (.pure _)
  refine (Carries.loadEntry _ _).bind fun _ => (Carries.loadEntry _ _).bind fun _ => ?_
  exact .ite (.panicWith _) (.ite (hlarge _ _ _) (.ite (hsmall _ _) (.panicWith _)))

/-- `virt_map_page` maps the same frame. -/
lemma carries_virtMapPage (t virtAddr flags pageSize : Word) :
    Carries f (virtMapPage A t virtAddr flags pageSize)
      (virtMapPage B t virtAddr flags pageSize) := by
  unfold virtMapPage allocFrame
  refine Carries.bind ?_ fun _ => .ite (.pure _)
    ((carries_virtMapPhys h _ _ _ _ _).bind fun _ => .pure _)
  exact .ite (carries_physAlloc2MIB h) (.ite (carries_physAlloc4KIB h) (.panicWith _))

/-- `virt_unmap_page` gives the same frame back. -/
lemma carries_virtUnmapPage (t virtAddr : Word) :
    Carries f (virtUnmapPage A t virtAddr) (virtUnmapPage B t virtAddr) := by
  unfold virtUnmapPage unmapFrom
  refine (Carries.loadEntry _ _).bind fun _ => .ite (.panicWith _) ?_
  refine (Carries.loadEntry _ _).bind fun _ => .ite (.panicWith _) ?_
  refine (Carries.loadEntry _ _).bind fun _ => .ite (.panicWith _) (.ite ?_ ?_)
  · exact (carries_physFree2MIB h _).bind fun _ => .storeEntry _ _ _
  · refine (Carries.loadEntry _ _).bind fun _ => .ite (.panicWith _) ?_
    exact (carries_physFree4KIB h _).bind fun _ => .storeEntry _ _ _

/-! ## Teardown -/

omit h in
/-- A slot is torn down by `x` here and by `y` there. -/
lemma carries_cleanupSlot {x : Word → Kern α Unit} {y : Word → Kern β Unit}
    (hxy : ∀ e, Carries f (x e) (y e)) (t : Word) (i : ℕ) :
    Carries f (cleanupSlot x t i) (cleanupSlot y t i) := by
  unfold cleanupSlot
  exact (Carries.loadEntry _ _).bind fun _ => .ite (hxy _) (.pure _)

/-- The table itself is given back behind its slots. -/
lemma carries_cleanupTable {x : Word → Kern α Unit} {y : Word → Kern β Unit}
    (hxy : ∀ e, Carries f (x e) (y e)) (t : Word) :
    Carries f (cleanupTable A x t) (cleanupTable B y t) := by
  unfold cleanupTable cleanupEntries
  exact (Carries.forRange fun _ => carries_cleanupSlot hxy _ _).bind
    fun _ => carries_physFree4KIB h _

/-- From the page tables up, each level by the one below it. -/
lemma carries_cleanupPageDirectoryPointerTable (t : Word) :
    Carries f (cleanupPageDirectoryPointerTable A t) (cleanupPageDirectoryPointerTable B t) := by
  have hpt : ∀ t, Carries f (cleanupPageTable A t) (cleanupPageTable B t) := fun t =>
    carries_cleanupTable h (fun _ => carries_physFree4KIB h _) t
  have hpd : ∀ t, Carries f (cleanupPageDirectoryTable A t) (cleanupPageDirectoryTable B t) :=
    fun t => carries_cleanupTable h (fun _ => .ite (carries_physFree2MIB h _) (hpt _)) t
  exact carries_cleanupTable h (fun _ => hpd _) t

/-- The whole user half and the PML4 -/
lemma carries_virtCleanupTable (t : Word) :
    Carries f (virtCleanupTable A t) (virtCleanupTable B t) := by
  unfold virtCleanupTable cleanupEntries
  refine (Carries.forRange fun _ => carries_cleanupSlot (fun _ => ?_) _ _).bind
    fun _ => carries_physFree4KIB h _
  exact carries_cleanupPageDirectoryPointerTable h _

lemma carries_virtResetTable (kernelTable t : Word) :
    Carries f (virtResetTable A kernelTable t) (virtResetTable B kernelTable t) := by
  unfold virtResetTable
  refine .ite (.panicWith _) (.forRange fun _ => ?_)
  refine (carries_cleanupSlot (fun _ => ?_) _ _).bind fun _ => .storeEntry _ _ _
  exact carries_cleanupPageDirectoryPointerTable h _

/-! ## Cloning -/

omit h in
/-- Present entries are copied by `x` and `y`, all others stored as they are. -/
lemma carries_cloneSlot {x : Word → ℕ → Word → Kern α Unit} {y : Word → ℕ → Word → Kern β Unit}
    (hxy : ∀ t i e, Carries f (x t i e) (y t i e)) (table newTable : Word) (i : ℕ) :
    Carries f (cloneSlot x table newTable i) (cloneSlot y table newTable i) := by
  unfold cloneSlot
  exact (Carries.loadEntry _ _).bind fun _ => .ite (hxy _ _ _) (.storeEntry _ _ _)

/-- A copy of a table is a new page that both allocators hand out. -/
lemma carries_cloneTable {x : Word → ℕ → Word → Kern α Unit} {y : Word → ℕ → Word → Kern β Unit}
    (hxy : ∀ t i e, Carries f (x t i e) (y t i e)) (error : String) (t : Word) :
    Carries f (cloneTable A error x t) (cloneTable B error y t) := by
  unfold cloneTable
  apply (carries_physAlloc4KIBSafe h _).bind
  intro _
  exact (Carries.forRange fun _ => carries_cloneSlot hxy _ _ _).bind fun _ => .pure _

omit h in
lemma carries_copyFrame (dst size sizeBit newTable : Word) (i : ℕ) (entry : Word) :
    Carries f (copyFrame dst size sizeBit newTable i entry : Kern α Unit)
      (copyFrame dst size sizeBit newTable i entry) := by
  unfold copyFrame
  exact (Carries.modifyMem _).bind fun _ => .storeEntry _ _ _

omit h in
/-- The copied entry points to the table that the copy of the level below returned. -/
lemma carries_copySubtable {x : Word → Kern α Word} {y : Word → Kern β Word}
    (hxy : ∀ t, Carries f (x t) (y t)) (sub newTable : Word) (i : ℕ) (entry : Word) :
    Carries f (copySubtable x sub newTable i entry) (copySubtable y sub newTable i entry) := by
  unfold copySubtable
  apply (hxy _).bind
  intro _
  exact (Carries.storeEntry _ _ _).bind fun _ => (Carries.loadEntry _ _).bind fun _ =>
    .storeEntry _ _ _

/-- From the page tables up, as for the teardown -/
lemma carries_clonePageDirectoryPointer (t : Word) :
    Carries f (clonePageDirectoryPointer A t) (clonePageDirectoryPointer B t) := by
  have hpt : ∀ t, Carries f (clonePageTable A t) (clonePageTable B t) := fun t =>
    carries_cloneTable h (fun _ _ _ => (carries_physAlloc4KIBSafe h _).bind fun _ =>
      carries_copyFrame _ _ _ _ _ _) _ t
  have hpd : ∀ t, Carries f (clonePageDirectory A t) (clonePageDirectory B t) := fun t =>
    carries_cloneTable h (fun _ _ _ => .ite ((carries_physAlloc2MIBSafe h _).bind fun _ =>
      carries_copyFrame _ _ _ _ _ _) (carries_copySubtable hpt _ _ _ _)) _ t
  exact carries_cloneTable h (fun _ _ _ => carries_copySubtable hpd _ _ _ _) _ t

/-- The user half is copied, the entries of the kernel half are shared. -/
lemma carries_virtCloneMapping (t : Word) :
    Carries f (virtCloneMapping A t) (virtCloneMapping B t) := by
  unfold virtCloneMapping
  apply (carries_physAlloc4KIBSafe h _).bind
  intro _
  apply (Carries.modifyMem _).bind
  intro _
  apply Carries.bind
  · -- the user half
    refine .forRange fun _ => carries_cloneSlot (fun _ _ _ => ?_) _ _ _
    exact carries_copySubtable (carries_clonePageDirectoryPointer h) _ _ _ _
  · intro _
    refine (Carries.forRange fun _ => ?_).bind fun _ => .pure _
    exact (Carries.loadEntry _ _).bind fun _ => .storeEntry _ _ _

end Bikeshed
