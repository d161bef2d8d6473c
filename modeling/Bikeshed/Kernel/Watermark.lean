import Bikeshed.Lib.Align
import Bikeshed.Lib.Block
import Bikeshed.Lib.Wp
import Bikeshed.VirtMemory.Paging

/-!
# `watermark.c` and `alloc.c`

The allocator grows down from its location, and maps the large pages below it as it reaches
them. `mapPage` is `virt_map_page(kernel_table, location, PG_FLAG_RW, PAGE_LARGE, NULL)`, which
works on the rest of the system, `σ`.
-/

namespace Bikeshed.DataStructures

open Lib

/-- The record of the source; memory is handed out downwards. -/
structure WaterMarkAllocator where
  pageAddress : Word
  currentAddress : Word
  currentSize : Word
  maxSize : Word

/-- The ways in which a call does not return -/
inductive Stop where
  | panic (message : String)
  /-- The loop never ends. -/
  | diverges

/-- The allocator, the large pages that have been mapped for it, and the rest of the system. -/
structure WaterMark (σ : Type) where
  wma : WaterMarkAllocator
  mapped : List Word
  world : σ

variable {σ : Type} (mapPage : Word → Prog σ String Byte)

abbrev WaterMarkM (σ β : Type) := Prog (WaterMark σ) Stop β

/-- The call through the function pointer `map_page` -/
def callMapPage (location : Word) : WaterMarkM σ Byte := fun s =>
  match mapPage location s.world with
  | .ok (ret, w) =>
    .ok (ret, { s with mapped := if ret = 0 then s.mapped else location :: s.mapped, world := w })
  | .error e => .error (.panic e)

def waterMarkInit (location maxSize : Word) : WaterMarkAllocator where
  currentAddress := location
  pageAddress := location
  currentSize := 0
  maxSize := maxSize

/-- `while (wma->current_address < wma->page_address) { ... }` After `2 ^ 43` rounds
`page_address` is back where it was. -/
def mapPages : ℕ → WaterMarkM σ Unit
  | 0 => panicWith .diverges
  | fuel + 1 => do
    let s ← get
    if s.wma.currentAddress < s.wma.pageAddress then do
      let location := s.wma.pageAddress - pageLargeSize
      let ret ← callMapPage mapPage location
      if ret = 0 then panicWith (.panic "WaterMark: Failed to allocate page!")
      else do
        modify fun s =>
          { s with wma := { s.wma with pageAddress := s.wma.pageAddress - pageLargeSize } }
        mapPages fuel
    else pure ()

/-- The address is rounded up before the size is taken off it. -/
def waterMarkAllocAlign (alignment size : Word) : WaterMarkM σ Word := do
  if isPowerOfTwo alignment = false then panicWith (.panic
    "ASSERT FAILED: (alignment != 0) && ((alignment & (alignment - 1)) == 0)")
  else do
    let s ← get
    let newAddress := alignUp s.wma.currentAddress alignment
    let adjustedSize := (newAddress - s.wma.currentAddress) + size
    if s.wma.maxSize < s.wma.currentSize + adjustedSize then
      panicWith (.panic "Watermark: Size exceeded!")
    else do
      modify fun s => { s with wma := { s.wma with
        currentAddress := s.wma.currentAddress - adjustedSize
        currentSize := s.wma.currentSize + adjustedSize } }
      mapPages mapPage (2 ^ 43)
      let s ← get
      pure s.wma.currentAddress

def waterMarkAlloc (size : Word) : WaterMarkM σ Word := waterMarkAllocAlign mapPage 1 size

/-- `kernel_WaterMark` after `alloc_init` -/
def allocInit : WaterMarkAllocator := waterMarkInit 0xFFFFFFFFFFE00000 0x400000

/-- The regions handed out since the allocator was `w`, the last one first, by calls with
alignments and sizes below `bound`. -/
inductive Allocated (w : WaterMarkAllocator) (bound : ℕ) : List Block → WaterMark σ → Prop
  | init (world : σ) : Allocated w bound [] ⟨w, [], world⟩
  | alloc {rs : List Block} {s s' : WaterMark σ} {size p : Word} : Allocated w bound rs s →
      size.toNat < bound → waterMarkAlloc mapPage size s = .ok (p, s') →
      Allocated w bound (⟨p, size.toNat⟩ :: rs) s'
  | allocAlign {rs : List Block} {s s' : WaterMark σ} {alignment size p : Word} :
      Allocated w bound rs s → alignment.toNat < bound → size.toNat < bound →
      waterMarkAllocAlign mapPage alignment size s = .ok (p, s') →
      Allocated w bound (⟨p, size.toNat⟩ :: rs) s'

end Bikeshed.DataStructures
