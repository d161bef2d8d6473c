import Bikeshed.Kernel.Watermark
import Bikeshed.VirtMemory.Paging

/-!
# The stream buffers of `sound.c`

`hda_setup_streams` runs on the machine and on `kernel_WaterMark`, whose pages are mapped in
`kernel_table` as well. The list `hda_lst_streams` is the sequence of its records, which take the
memory that `hda_alloc` returns for them; what the records hold beside the buffers is left out.
-/

namespace Bikeshed.Sound

open Lib DataStructures

def hdaStreamBase : Word := 0xFFFFFFFFF000C000
def hdaStreamDataBase : Word := 0xFFFFFFFFF0200000

structure BdlInfo where
  dataAddress : Word
  dataPhysAddress : Word
  dataLength : Word
  bdlBufferAddress : Word
  bdlBufferPhysAddress : Word
  bdlBufferLength : Word

structure Stream where
  number : Byte
  bdlInfo : BdlInfo

variable {α : Type} (A : PhysAllocator α) (kernelTable : Word)

/-- `virt_map_page(kernel_table, ...)`: the result and `*phys_addr` -/
def kernelMapPage (virtAddr flags pageSize : Word) : WaterMarkM (Machine α) (Byte × Word) :=
  fun s =>
    match virtMapPage A kernelTable virtAddr flags pageSize s.world with
    | .ok (res, world) => .ok (res, { s with world := world })
    | .error e => .error (.panic e)

/-- The call of `virt_map_page` in `water_mark_alloc_align` -/
def waterMarkMapPage (location : Word) : Kern α Byte := do
  let res ← virtMapPage A kernelTable location pgFlagRw pageLarge
  pure res.1

def hdaAlloc (size : Word) : WaterMarkM (Machine α) Word := do
  let ptr ← waterMarkAlloc (waterMarkMapPage A kernelTable) size
  if ptr = 0 then panicWith (.panic "ASSERT FAILED: ptr != NULL") else pure ptr

/-- `sizeof(Stream)` -/
def streamSize : Word := 56

/-- `sizeof(list_element_t)` -/
def listElementSize : Word := 24

/-- The body of the loop: the record that is put in front of the list. -/
def setupStream (i : ℕ) (streamDataAddr streamBdlAddr : Word) :
    WaterMarkM (Machine α) Stream := do
  let (_, dataPhysLoc) ← kernelMapPage A kernelTable streamDataAddr
    (pgFlagRw ||| pgFlagPcd ||| pgFlagPwt) pageLarge
  let streamDataAddr := streamDataAddr + pageLargeSize
  let _ ← hdaAlloc A kernelTable streamSize
  let (_, bdlPhysLoc) ← kernelMapPage A kernelTable streamBdlAddr
    (pgFlagRw ||| pgFlagPcd ||| pgFlagPwt) pageSmall
  let streamBdlAddr := streamBdlAddr + pageSmallSize
  let _ ← hdaAlloc A kernelTable listElementSize
  pure
    { number := BitVec.ofNat 8 i
      bdlInfo :=
        { dataAddress := streamDataAddr
          dataPhysAddress := dataPhysLoc
          dataLength := pageLargeSize
          bdlBufferAddress := streamBdlAddr
          bdlBufferPhysAddress := bdlPhysLoc
          bdlBufferLength := pageSmallSize } }

/-- The loop from round `i` on, with as many rounds left as the first argument says. -/
def setupStreams : ℕ → ℕ → Word → Word → List Stream → WaterMarkM (Machine α) (List Stream)
  | 0, _, _, _, streams => pure streams
  | left + 1, i, streamDataAddr, streamBdlAddr, streams => do
    let stream ← setupStream A kernelTable i streamDataAddr streamBdlAddr
    setupStreams left (i + 1) (streamDataAddr + pageLargeSize) (streamBdlAddr + pageSmallSize)
      (stream :: streams)

def numOutputStreams (gcap : BitVec 16) : ℕ := ((gcap >>> 12) &&& 0xF).toNat

/-- `hda_setup_streams`, for what is read from `GCAP`: `hda_lst_streams` after it -/
def hdaSetupStreams (gcap : BitVec 16) : WaterMarkM (Machine α) (List Stream) :=
  if ¬numOutputStreams gcap ≥ 1 then
    panicWith (.panic "ASSERT FAILED: hda_num_output_streams >= 1")
  else setupStreams A kernelTable (numOutputStreams gcap) 0 hdaStreamDataBase hdaStreamBase []

/-! ## What the records claim -/

/-- The `length` bytes at `address` are translated to those at `physAddress`. -/
def TranslatedTo (P : Mem) (table address physAddress length : Word) : Prop :=
  ∀ k < length.toNat,
    translation P table (address + BitVec.ofNat 64 k) = some (physAddress + BitVec.ofNat 64 k)

/-- The buffers of a stream where the processor sees them, and where the device does. -/
def virtBuffers (b : BdlInfo) : List Block :=
  [⟨b.dataAddress, b.dataLength.toNat⟩, ⟨b.bdlBufferAddress, b.bdlBufferLength.toNat⟩]

def physBuffers (b : BdlInfo) : List Block :=
  [⟨b.dataPhysAddress, b.dataLength.toNat⟩, ⟨b.bdlBufferPhysAddress, b.bdlBufferLength.toNat⟩]

structure WellBuffered (P : Mem) (table : Word) (streams : List Stream) : Prop where
  data : ∀ stream ∈ streams, TranslatedTo P table stream.bdlInfo.dataAddress
    stream.bdlInfo.dataPhysAddress stream.bdlInfo.dataLength
  bdl : ∀ stream ∈ streams, TranslatedTo P table stream.bdlInfo.bdlBufferAddress
    stream.bdlInfo.bdlBufferPhysAddress stream.bdlInfo.bdlBufferLength
  virtApart : streams.Pairwise fun stream stream' => ∀ b ∈ virtBuffers stream.bdlInfo,
    ∀ c ∈ virtBuffers stream'.bdlInfo, b.Disjoint c
  physApart : streams.Pairwise fun stream stream' => ∀ b ∈ physBuffers stream.bdlInfo,
    ∀ c ∈ physBuffers stream'.bdlInfo, b.Disjoint c

end Bikeshed.Sound
