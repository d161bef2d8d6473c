import Bikeshed.Scheduler.Scheduler
import Bikeshed.VirtMemory.Paging

/-!
# `elf.c`

The file is where it is in memory, and what the source reads of it is read there each time: a
header at once, with all its fields. The program headers are walked by address. The debug output
is left out.
-/

namespace Bikeshed

open Lib
open Scheduler (PCB)

/-- `ELF_Error` -/
inductive ElfError where
  | noError
  | badMagic
  | badClass
  | badEndian
  | badAbi
  | badType
  | badMachine
  | badVersion
  | badVaddr
deriving DecidableEq

/-- The two byte access; `Elf64_Half` -/
def load16 (m : Mem) (a : Word) : BitVec 16 := load8 m (a + 1) ++ load8 m a

/-- The four byte access; `Elf64_Word` -/
def load32 (m : Mem) (a : Word) : BitVec 32 := load16 m (a + 2) ++ load16 m a

/-- `ELF64_Ehdr`, as far as it is read -/
structure Elf64Ehdr where
  eIdent : Fin 16 → Byte
  eType : BitVec 16
  eMachine : BitVec 16
  eVersion : BitVec 32
  eEntry : Word
  ePhoff : Word
  ePhnum : BitVec 16

/-- `ELF64_Phdr`, as far as it is read -/
structure Elf64Phdr where
  pType : BitVec 32
  pOffset : Word
  pVaddr : Word
  pFilesz : Word
  pMemsz : Word

def elfHdr (m : Mem) (a : Word) : Elf64Ehdr where
  eIdent i := load8 m (a + BitVec.ofNat 64 i.val)
  eType := load16 m (a + 16)
  eMachine := load16 m (a + 18)
  eVersion := load32 m (a + 20)
  eEntry := load64 m (a + 24)
  ePhoff := load64 m (a + 32)
  ePhnum := load16 m (a + 56)

def curHdr (m : Mem) (a : Word) : Elf64Phdr where
  pType := load32 m a
  pOffset := load64 m (a + 8)
  pVaddr := load64 m (a + 16)
  pFilesz := load64 m (a + 32)
  pMemsz := load64 m (a + 40)

/-- `sizeof(ELF64_Phdr)` -/
def phdrSize : Word := 56

/-- `El_MAG0` to `El_MAG3` -/
def elMag : List Byte := [0x7F, 0x45, 0x4C, 0x46]

def elfClassOff : Fin 16 := 4
def elfDataOff : Fin 16 := 5
def elfOsabiOff : Fin 16 := 7
def elfClass64 : Byte := 2
/-- `ELF_DATA2`: `ELF_DATA2_LSB` -/
def elfData2 : Byte := 1
/-- `ELF_ABI`: `ELF_OSABI_SYSV` -/
def elfAbi : Byte := 0
def etExec : BitVec 16 := 2
/-- `ELF_CUR_MACHINE`: `EM_X86_64` -/
def elfCurMachine : BitVec 16 := 62
def evCurrent : BitVec 32 := 1
def ptLoad : BitVec 32 := 1

def userStackLocation : Word := 0x2000000
def userStackSize : Word := 0x4000
def contextStackLocation : Word := userStackLocation + 0x1000
def contextStackSize : Word := pageSmallSize

/-- `sizeof(Context)` -/
def contextSize : Word := 176

def userCodeSeg64 : Word := 0x30
def userDataSeg64 : Word := 0x40
def defaultEflags : Word := 0x202

/-! ## The checks of the header -/

/-- The checks that come before anything is changed; `noError` if all are passed. -/
def checkElfHdr (hdr : Elf64Ehdr) : ElfError :=
  if [hdr.eIdent 0, hdr.eIdent 1, hdr.eIdent 2, hdr.eIdent 3] ≠ elMag then .badMagic
  else if hdr.eIdent elfClassOff ≠ elfClass64 then .badClass
  else if hdr.eIdent elfDataOff ≠ elfData2 then .badEndian
  else if hdr.eIdent elfOsabiOff ≠ elfAbi then .badAbi
  else if hdr.eType ≠ etExec then .badType
  else if hdr.eMachine ≠ elfCurMachine then .badMachine
  else if hdr.eVersion ≠ evCurrent then .badVersion
  else .noError

/-! ## One segment -/

namespace Elf64Phdr

variable (hdr : Elf64Phdr)

/-- The segment is refused. -/
def Refused : Prop := kernelBase ≤ hdr.pVaddr + hdr.pMemsz

instance : Decidable hdr.Refused := inferInstanceAs (Decidable (_ ≤ _))

def pageSize : Word := if pageLargeSize ≤ hdr.pMemsz then pageLargeSize else pageSmallSize
def pageSizeType : Word := if pageLargeSize ≤ hdr.pMemsz then pageLarge else pageSmall
def numPages : Word := hdr.pMemsz / hdr.pageSize + 1

end Elf64Phdr

/-- The variables of the loop over the pages of a segment. -/
structure Loading where
  loadOffset : Word
  amountLeft : Word
  vaddr : Word

def Elf64Phdr.loading (hdr : Elf64Phdr) : Loading := ⟨hdr.pOffset, hdr.pFilesz, hdr.pVaddr⟩

def copyAmount (pageSize amountLeft : Word) : Word :=
  if pageSize < amountLeft then pageSize else amountLeft

/-- The calls of `memcpy` and `memclr` for one page; `copy` and `clear` are what these do. -/
def fillPage {σ : Type} (copy : Word → Word → Word → σ → σ) (clear : Word → Word → σ → σ)
    (elfAddress pageSize memoryAddress : Word) (l : Loading) (m : σ) : σ :=
  let amount := copyAmount pageSize l.amountLeft
  if 0 < l.amountLeft then
    let m := copy (physToVirt memoryAddress) (elfAddress + l.loadOffset) amount m
    clear (physToVirt (memoryAddress + amount)) (pageSize - amount) m
  else clear (physToVirt memoryAddress) pageSize m

/-- `copy_amount` is 0 where nothing is left. -/
def Loading.next (pageSize : Word) (l : Loading) : Loading where
  loadOffset := l.loadOffset + copyAmount pageSize l.amountLeft
  amountLeft := l.amountLeft - copyAmount pageSize l.amountLeft
  vaddr := l.vaddr + copyAmount pageSize l.amountLeft

variable {α : Type} (A : PhysAllocator α) (elfAddress pageTable : Word)

def loadPage (hdr : Elf64Phdr) (l : Loading) : Kern α Unit := do
  let (ret, memoryAddress) ←
    virtMapPage A pageTable l.vaddr (pgFlagRw ||| pgFlagUser) hdr.pageSizeType
  if ret = 0 then panicWith "ELF: Failed to map page"
  else modifyMem (fillPage (fun dst src size m => memcpy m dst src size)
    (fun ptr size m => memclr m ptr size) elfAddress hdr.pageSize memoryAddress l)

/-- The loop over the pages, with `n` of them to go. -/
def loadPages (hdr : Elf64Phdr) : ℕ → Loading → Kern α Unit
  | 0, _ => pure ()
  | n + 1, l => do
    loadPage A elfAddress pageTable hdr l
    loadPages hdr n (l.next hdr.pageSize)

/-- The loop over the program headers, with `n` of them to go from address `a` on. -/
def loadSegments : ℕ → Word → Kern α ElfError
  | 0, _ => pure .noError
  | n + 1, a => do
    let hdr := curHdr (← get).mem a
    if hdr.pType ≠ ptLoad then loadSegments n (a + phdrSize)
    else if hdr.Refused then pure .badVaddr
    else do
      loadPages A elfAddress pageTable hdr hdr.numPages.toNat hdr.loading
      loadSegments n (a + phdrSize)

/-! ## The stack and the context -/

def loadStack : Kern α Unit :=
  forRange 4 fun i => do
    let address := userStackLocation - userStackSize + pageSmallSize * BitVec.ofNat 64 i
    let (ret, memoryAddress) ←
      virtMapPage A pageTable address (pgFlagRw ||| pgFlagUser) pageSmall
    if ret = 0 then panicWith "ELF: Failed to allocate stack"
    else modifyMem fun m => memclr m (physToVirt memoryAddress) pageSmallSize

/-- The fields of the `Context` at `context` that are set. -/
def storeContext (m : Mem) (context ip : Word) : Mem :=
  let m := store64 m (context + 136) ip
  let m := store64 m (context + 160) userStackLocation
  let m := store64 m (context + 48) userStackLocation
  let m := store64 m (context + 152) defaultEflags
  let m := store64 m (context + 144) (userCodeSeg64 ||| 3)
  store64 m (context + 168) (userDataSeg64 ||| 3)

/-- Whether the page for the context could be mapped is not looked at. -/
def loadContext (pcb : PCB) : Kern α PCB := do
  let (_, memoryAddress) ← virtMapPage A pageTable contextStackLocation pgFlagRw pageSmall
  let context := physToVirt (memoryAddress + contextStackSize - contextSize)
  modifyMem fun m => storeContext m context (elfHdr m elfAddress).eEntry
  pure { pcb with context := contextStackLocation + contextStackSize - contextSize }

/-! ## `elf_create_process` -/

/-- Everything from the reset of the page table on. -/
def replaceImage (kernelTable : Word) (pcb : PCB) : Kern α (ElfError × PCB) := do
  virtResetTable A kernelTable pageTable
  let hdr := elfHdr (← get).mem elfAddress
  let error ← loadSegments A elfAddress pageTable hdr.ePhnum.toNat (elfAddress + hdr.ePhoff)
  if error ≠ .noError then pure (error, pcb)
  else do
    loadStack A pageTable
    let pcb ← loadContext A elfAddress pageTable pcb
    pure (.noError, pcb)

/-- The error and the PCB; `kernelTable` is the static variable of `paging.c`. -/
def elfCreateProcess (kernelTable : Word) (pcb : PCB) : Kern α (ElfError × PCB) := do
  let hdr := elfHdr (← get).mem elfAddress
  if checkElfHdr hdr ≠ .noError then pure (checkElfHdr hdr, pcb)
  else if hdr.eEntry = 0 then panicWith "ELF: Bad entry point"
  else replaceImage A elfAddress pageTable kernelTable pcb

end Bikeshed
