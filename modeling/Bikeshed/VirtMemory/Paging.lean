import Bikeshed.VirtMemory.Physical

/-!
# `paging.c`

Tables are named by their address: `_table` physical, as it stands in `cr3`, every other
table virtual. `uint8_t` results are bytes. `invlpg` and the debug output are left out: the
model has no translation cache.

The three blocks of `virt_map_phys` that allocate a missing level are `ensureTable`; the
`cleanup_*` functions of the three lower levels are `cleanupTable`, the `clone_*` functions
`cloneTable`, each with the code for one present entry.
-/

namespace Bikeshed

open Lib

def pgFlagRw : Word := 0x2
def pgFlagUser : Word := 0x4
def pgFlagPwt : Word := 0x8
def pgFlagPcd : Word := 0x10
def pgFlagXd : Word := 0x8000000000000000
def pgSafeFlags : Word := pgFlagRw ||| pgFlagUser ||| pgFlagPwt ||| pgFlagPcd ||| pgFlagXd
def pageCopyFlags : Word := pgSafeFlags ||| 0x1

def pageSmall : Word := 0x1
def pageLarge : Word := 0x2
def pageSmallSize : Word := 0x1000
def pageLargeSize : Word := 0x200000

/-- `PT_PRESENT`, `PDT_PRESENT`, `PDPT_PRESENT`, `PML4_PRESENT`: 0x1 -/
abbrev present : Word := presentBit

/-- `PT_WRITABLE`, `PDT_WRITABLE`, `PDPT_WRITABLE`, `PML4_WRITABLE` -/
def writable : Word := 0x2

/-- `PDT_PAGE_SIZE`: 0x80 -/
abbrev pdtPageSize : Word := sizeBit

/-- The address in an entry, without its flags -/
def entryToAddr (x : Word) : Word := x &&& 0x7FFFFFFFFFFFF000

/-- Each level takes nine bits of an address. -/
def pml4Index (x : Word) : ℕ := ((x >>> 39) &&& 0x1FF).toNat
def pdptIndex (x : Word) : ℕ := ((x >>> 30) &&& 0x1FF).toNat
def pdtIndex (x : Word) : ℕ := ((x >>> 21) &&& 0x1FF).toNat
def ptIndex (x : Word) : ℕ := ((x >>> 12) &&& 0x1FF).toNat

/-- The table that an entry points to -/
def pml4eToPdpt (x : Word) : Word := x &&& 0x7FFFFFF000
def pdpteToPdt (x : Word) : Word := x &&& 0x7FFFFFF000
def pdteToPt (x : Word) : Word := x &&& 0x7FFFFFF000

variable {α : Type} (A : PhysAllocator α)

/-- A page, or a panic with the message -/
def physAlloc4KIBSafe (error : String) : Kern α Word := do
  let p ← physAlloc4KIB A
  if p = 0 then panicWith error else pure p

def physAlloc2MIBSafe (error : String) : Kern α Word := do
  let p ← physAlloc2MIB A
  if p = 0 then panicWith error else pure p

/-! ## Mapping -/

/-- `if ((table->entries[i] & PRESENT) == 0) { ... }`; false where the source returns 0. -/
def ensureTable (table : Word) (i : ℕ) (safeFlags : Word) : Kern α Bool := do
  let e ← loadEntry table i
  if e &&& present = 0 then do
    let p ← physAlloc4KIB A
    if physToVirt p = 0 then pure false
    else do
      modifyMem fun m => memclr m (physToVirt p) 4096
      storeEntry table i (virtToPhys (physToVirt p) ||| writable ||| present ||| safeFlags)
      pure true
  else pure true

/-- The part of `virt_map_phys` for `PAGE_LARGE`. -/
def mapLarge (pdTable : Word) (i : ℕ) (physAddr safeFlags : Word) : Kern α Byte := do
  storeEntry pdTable i (mask2MIB physAddr ||| pdtPageSize ||| present ||| safeFlags)
  let e ← loadEntry pdTable i
  storeEntry pdTable i (e ||| safeFlags)
  pure 1

/-- The part of `virt_map_phys` for `PAGE_SMALL`. -/
def mapSmall (pdTable : Word) (virtAddr physAddr safeFlags : Word) : Kern α Byte := do
  if ← ensureTable A pdTable (pdtIndex virtAddr) safeFlags then do
    let pde ← loadEntry pdTable (pdtIndex virtAddr)
    let pTable := physToVirt (pdteToPt pde)
    let pte ← loadEntry pTable (ptIndex virtAddr)
    if pte &&& present ≠ 0 then panicWith "Address already mapped!\n"
    else do
      storeEntry pTable (ptIndex virtAddr) (mask4KIB physAddr ||| present ||| safeFlags)
      pure 1
  else pure 0

/-- The tables on the way are made if they are missing. -/
def virtMapPhys (_table virtAddr physAddr flags pageSize : Word) : Kern α Byte := do
  let table := physToVirt _table
  let safeFlags := flags &&& pgSafeFlags
  if ← ensureTable A table (pml4Index virtAddr) safeFlags then do
    let pml4e ← loadEntry table (pml4Index virtAddr)
    let pdpTable := physToVirt (pml4eToPdpt pml4e)
    if ← ensureTable A pdpTable (pdptIndex virtAddr) safeFlags then do
      let pdpte ← loadEntry pdpTable (pdptIndex virtAddr)
      let pdTable := physToVirt (pdpteToPdt pdpte)
      let pde ← loadEntry pdTable (pdtIndex virtAddr)
      if pde &&& pdtPageSize ≠ 0 ∧ pde &&& present ≠ 0 then panicWith "Address already mapped!\n"
      else if pageSize = pageLarge then mapLarge pdTable (pdtIndex virtAddr) physAddr safeFlags
      else if pageSize = pageSmall then mapSmall A pdTable virtAddr physAddr safeFlags
      else panicWith "virt_map_page: Invalid page size specified"
    else pure 0
  else pure 0

/-- The part of `virt_map_page` that allocates the frame. -/
def allocFrame (pageSize : Word) : Kern α Word :=
  if pageSize = pageLarge then physAlloc2MIB A
  else if pageSize = pageSmall then physAlloc4KIB A
  else panicWith "virt_map_page: Invalid page size\n"

/-- The result and `*phys_addr`. -/
def virtMapPage (_table virtAddr flags pageSize : Word) : Kern α (Byte × Word) := do
  let addr ← allocFrame A pageSize
  if addr = 0 then pure (0, addr)
  else do
    let ret ← virtMapPhys A _table virtAddr addr flags pageSize
    pure (ret, addr)

/-! ## Unmapping -/

/-- The part of `virt_unmap_page` from the page directory on. -/
def unmapFrom (pdTable virtAddr : Word) : Kern α Unit := do
  let pde ← loadEntry pdTable (pdtIndex virtAddr)
  if pde &&& present = 0 then panicWith "Can't unmap non-present page (3)"
  else if pde &&& pdtPageSize ≠ 0 then do
    physFree2MIB A (entryToAddr pde)
    storeEntry pdTable (pdtIndex virtAddr) 0
  else do
    let pTable := physToVirt (pdteToPt pde)
    let pte ← loadEntry pTable (ptIndex virtAddr)
    if pte &&& present = 0 then panicWith "Can't unmap non-present page (4)"
    else do
      physFree4KIB A (entryToAddr pte)
      storeEntry pTable (ptIndex virtAddr) 0

/-- The frame is given back, its entry cleared; the tables stay. -/
def virtUnmapPage (_table virtAddr : Word) : Kern α Unit := do
  let table := physToVirt _table
  let pml4e ← loadEntry table (pml4Index virtAddr)
  if pml4e &&& present = 0 then panicWith "Can't unmap non-present page (1)"
  else do
    let pdpTable := physToVirt (pml4eToPdpt pml4e)
    let pdpte ← loadEntry pdpTable (pdptIndex virtAddr)
    if pdpte &&& present = 0 then panicWith "Can't unmap non-present page (2)"
    else unmapFrom A (physToVirt (pdpteToPdt pdpte)) virtAddr

/-! ## Teardown -/

/-- `freeSlot` on entry `i` if it is present. -/
def cleanupSlot (freeSlot : Word → Kern α Unit) (table : Word) (i : ℕ) : Kern α Unit := do
  let entry ← loadEntry table i
  if entry &&& present ≠ 0 then freeSlot entry else pure ()

/-- The loop over the first `n` entries of a table -/
def cleanupEntries (freeSlot : Word → Kern α Unit) (table : Word) (n : ℕ) : Kern α Unit :=
  forRange n fun i => cleanupSlot freeSlot table i

/-- All entries, and the table itself -/
def cleanupTable (freeSlot : Word → Kern α Unit) (table : Word) : Kern α Unit := do
  cleanupEntries freeSlot table 512
  physFree4KIB A (virtToPhys table)

/-- Frames of 4KiB -/
def cleanupPageTable : Word → Kern α Unit :=
  cleanupTable A fun entry => physFree4KIB A (entryToAddr entry)

/-- Frames of 2MiB and page tables -/
def cleanupPageDirectoryTable : Word → Kern α Unit :=
  cleanupTable A fun entry =>
    if entry &&& pdtPageSize ≠ 0 then physFree2MIB A (entryToAddr entry)
    else cleanupPageTable A (physToVirt (pdteToPt entry))

/-- Page directories -/
def cleanupPageDirectoryPointerTable : Word → Kern α Unit :=
  cleanupTable A fun entry => cleanupPageDirectoryTable A (physToVirt (pdpteToPdt entry))

/-- The user half and the PML4 -/
def virtCleanupTable (_table : Word) : Kern α Unit := do
  cleanupEntries
    (fun entry => cleanupPageDirectoryPointerTable A (physToVirt (pml4eToPdpt entry)))
    (physToVirt _table) 256
  physFree4KIB A _table

/-- `kernelTable` is the static variable of that name. -/
def virtResetTable (kernelTable table : Word) : Kern α Unit := do
  if table = kernelTable then panicWith "virt_reset_table: Bad param - kernel's page table"
  else forRange 256 fun i => do
    cleanupSlot
      (fun entry => cleanupPageDirectoryPointerTable A (physToVirt (pml4eToPdpt entry)))
      (physToVirt table) i
    storeEntry (physToVirt table) i 0

/-! ## Lookup -/

/-- The result and `*out_phys`, which is `outPhys` before the call. -/
def virtLookupPhys (table virtAddr outPhys : Word) : Kern α (Byte × Word) := do
  let pml4Entry ← loadEntry (physToVirt table) (pml4Index virtAddr)
  if pml4Entry &&& present = 0 then pure (0, outPhys)
  else do
    let pdptEntry ← loadEntry (physToVirt (pml4eToPdpt pml4Entry)) (pdptIndex virtAddr)
    if pdptEntry &&& present = 0 then pure (0, outPhys)
    else do
      let pdtEntry ← loadEntry (physToVirt (pdpteToPdt pdptEntry)) (pdtIndex virtAddr)
      if pdtEntry &&& present = 0 then pure (0, outPhys)
      else if pdtEntry &&& pdtPageSize ≠ 0 then
        pure (1, entryToAddr pdtEntry + (virtAddr &&& 0xFFF))
      else do
        let ptEntry ← loadEntry (physToVirt (pdteToPt pdtEntry)) (ptIndex virtAddr)
        -- `out_address` starts as 0 and is only set when the entry is present
        if ptEntry &&& present ≠ 0 then pure (1, entryToAddr ptEntry + (virtAddr &&& 0xFFF))
        else pure (1, 0)

/-! ## Cloning -/

/-- One round of the loops below; `copySlot` copies a present entry into the new table. -/
def cloneSlot (copySlot : Word → ℕ → Word → Kern α Unit) (table newTable : Word) (i : ℕ) :
    Kern α Unit := do
  let entry ← loadEntry table i
  if entry &&& present ≠ 0 then copySlot newTable i entry
  else storeEntry newTable i 0

/-- A copy of a table, slot by slot -/
def cloneTable (error : String) (copySlot : Word → ℕ → Word → Kern α Unit) (table : Word) :
    Kern α Word := do
  let p ← physAlloc4KIBSafe A error
  let newTable := physToVirt p
  forRange 512 fun i => cloneSlot copySlot table newTable i
  pure (virtToPhys newTable ||| (virtToPhys table &&& pageCopyFlags))

/-- `memcpy` of a frame and the entry for the copy; `sizeBit` is `PDT_PAGE_SIZE` or nothing. -/
def copyFrame (dst size sizeBit newTable : Word) (i : ℕ) (entry : Word) : Kern α Unit := do
  modifyMem fun m => memcpy m dst (physToVirt (entryToAddr entry)) size
  storeEntry newTable i (virtToPhys dst ||| (entry &&& pageCopyFlags) ||| sizeBit)

/-- `new_table->entries[i] = clone(...); new_table->entries[i] |= (entry & PAGE_COPY_FLAGS);` -/
def copySubtable (clone : Word → Kern α Word) (sub newTable : Word) (i : ℕ) (entry : Word) :
    Kern α Unit := do
  let e ← clone (physToVirt sub)
  storeEntry newTable i e
  let e ← loadEntry newTable i
  storeEntry newTable i (e ||| (entry &&& pageCopyFlags))

/-- Every frame of 4KiB is copied. -/
def clonePageTable : Word → Kern α Word :=
  cloneTable A "clone_page_table: No memory" fun newTable i entry => do
    let dst ← physAlloc4KIBSafe A "clone_page_table: No memory (loop)"
    copyFrame (physToVirt dst) pageSmallSize 0 newTable i entry

/-- Frames of 2MiB are copied, page tables cloned. -/
def clonePageDirectory : Word → Kern α Word :=
  cloneTable A "clone_page_directory: No memory" fun newTable i entry =>
    if entry &&& pdtPageSize ≠ 0 then do
      let dst ← physAlloc2MIBSafe A "clone_page_directory: Failed to alloc 2MIB"
      copyFrame (physToVirt dst) pageLargeSize pdtPageSize newTable i entry
    else copySubtable (clonePageTable A) (pdteToPt entry) newTable i entry

/-- Page directories are cloned. -/
def clonePageDirectoryPointer : Word → Kern α Word :=
  cloneTable A "clone_page_directory_pointer: No memory" fun newTable i entry =>
    copySubtable (clonePageDirectory A) (pdpteToPdt entry) newTable i entry

/-- The user half is cloned, the entries of the kernel half are copied as they are. -/
def virtCloneMapping (_other : Word) : Kern α Word := do
  let other := physToVirt _other
  let p ← physAlloc4KIBSafe A "virt_clone_mapping: No memory"
  let newTable := physToVirt p
  modifyMem fun m => memclr m newTable 4096
  forRange 256 fun i => cloneSlot
    (fun newTable i entry =>
      copySubtable (clonePageDirectoryPointer A) (pml4eToPdpt entry) newTable i entry)
    other newTable i
  forRange 256 fun i => do
    let entry ← loadEntry other (256 + i)
    storeEntry newTable (256 + i) entry
  pure (virtToPhys newTable)

end Bikeshed
