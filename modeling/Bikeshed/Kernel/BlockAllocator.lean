import Bikeshed.Kernel.StackTheorems
import Bikeshed.Lib.Block
import Bikeshed.Lib.Wp

/-!
# The block allocator

A region of memory that starts with a `BlockAllocator` record, and is cut into blocks of one
size behind it. Blocks are handed out in order the first time and from `free_stack` after that.
-/

namespace Bikeshed

open Lib

/-- The words of a `BlockAllocator`, `free_stack` being the last two. -/
inductive BlockField where
  | base | maxAddress | implicitNext | blockSize | size | top
deriving DecidableEq

def BlockField.slot : BlockField → ℕ
  | .base => 0
  | .maxAddress => 1
  | .implicitNext => 2
  | .blockSize => 3
  | .size => 4
  | .top => 5

/-- `ba->f` -/
def baField (ba : Word) (f : BlockField) (m : Mem) : Word :=
  load64 m (ba + BitVec.ofNat 64 (8 * f.slot))

def setBaField (ba : Word) (f : BlockField) (v : Word) (m : Mem) : Mem :=
  store64 m (ba + BitVec.ofNat 64 (8 * f.slot)) v

/-- `sizeof(BlockAllocator)` -/
def sizeofBlockAllocator : Word := 48

/-- `sizeof(StackNode)` -/
def sizeofStackNode : Word := 8

/-- `&ba->free_stack` -/
def baFreeStack (ba : Word) : StackVar Mem where
  mem m := m
  setMem m _ := m
  size := baField ba .size
  setSize := setBaField ba .size
  top := baField ba .top
  setTop := setBaField ba .top

def blockInit (address length blockSize : Word) : Prog Mem String Word := do
  if length.toNat < sizeofBlockAllocator.toNat ∨ blockSize.toNat < sizeofStackNode.toNat then
    panicWith "BlockAllocator - Init: Region of memory too small"
  else
    let base := address + sizeofBlockAllocator
    let adjustedSize := length - sizeofBlockAllocator
    let maxBlocks := adjustedSize / blockSize
    modify fun m =>
      let m := setBaField address .base base m
      let m := setBaField address .blockSize blockSize m
      let m := setBaField address .maxAddress (base + maxBlocks * blockSize) m
      let m := setBaField address .implicitNext base m
      stackInit (baFreeStack address) m
    pure address

def blockAlloc (ba : Word) (m : Mem) : Word × Mem :=
  if ¬ stackEmpty (baFreeStack ba) m then stackPop (baFreeStack ba) m
  else if (baField ba .implicitNext m).toNat < (baField ba .maxAddress m).toNat then
    let returnVal := baField ba .implicitNext m
    (returnVal, setBaField ba .implicitNext (returnVal + baField ba .blockSize m) m)
  else (0, m)

def blockFree (ba ptr : Word) : Prog Mem String Unit := fun m =>
  if (ba + sizeofBlockAllocator).toNat ≤ ptr.toNat ∧
      ptr.toNat < (baField ba .maxAddress m).toNat then
    .ok ((), stackPush (baFreeStack ba) ptr m)
  else .error "ASSERT FAILED: ptr >= ba + sizeof(BlockAllocator) && ptr < ba->max_address"

end Bikeshed
