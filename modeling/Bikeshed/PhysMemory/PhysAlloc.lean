import Bikeshed.Kernel.Stack
import Bikeshed.VirtMemory.Physical

/-!
# The physical memory allocator

Free 2MiB chunks are kept on the stack `stack_2MIB`. 4KiB pages come out of pools: a pool is a
chunk whose first page holds a `Pool` record, and its other 511 pages are handed out in order
the first time (`implicit_next`) and from the pool's own `free_stack` after that. Pools that
have a page to hand out are on the list `pool_4KIB`.

Pointers are virtual addresses, what the four functions take and return are physical ones. A
failed `ASSERT` panics with a text that names the file and the line; here it names the
condition.
-/

namespace Bikeshed.PhysAlloc

open Lib

/-- The record of a stack; its nodes are in the chunks. -/
structure Stack where
  size : Word
  top : Word

/-- The memory, the pool list's head, and what the supplier of 2MiB chunks keeps. For the
kernel's own supplier that is the static variable `stack_2MIB`. -/
structure Phys (σ : Type) where
  mem : Mem
  chunks : σ
  pool4KIB : Word

abbrev Alloc (σ β : Type) := Prog (Phys σ) String β

variable {σ : Type}

/-! ## The record in a pool's first page -/

/-- The 8-byte fields of a `Pool`, `free_stack` being the first two. -/
inductive PoolField where
  | size | top | implicitNext | maxAddress | next | prev
deriving DecidableEq

def PoolField.slot : PoolField → ℕ
  | .size => 0
  | .top => 1
  | .implicitNext => 2
  | .maxAddress => 3
  | .next => 4
  | .prev => 5

/-- `pool->f` -/
def Phys.field (s : Phys σ) (pool : Word) (f : PoolField) : Word :=
  load64 s.mem (pool + BitVec.ofNat 64 (8 * f.slot))

def Phys.setField (pool : Word) (f : PoolField) (v : Word) (s : Phys σ) : Phys σ :=
  { s with mem := store64 s.mem (pool + BitVec.ofNat 64 (8 * f.slot)) v }

@[simp] lemma Phys.setField_chunks (s : Phys σ) (pool v : Word) (f : PoolField) :
    (s.setField pool f v).chunks = s.chunks := by
  unfold Phys.setField
  rfl

@[simp] lemma Phys.setField_pool4KIB (s : Phys σ) (pool v : Word) (f : PoolField) :
    (s.setField pool f v).pool4KIB = s.pool4KIB := by
  unfold Phys.setField
  rfl

/-- `pool->on_list`, a byte after the six words. -/
def Phys.onList (s : Phys σ) (pool : Word) : Byte := load8 s.mem (pool + 48)

def Phys.setOnList (pool : Word) (v : Byte) (s : Phys σ) : Phys σ :=
  { s with mem := store8 s.mem (pool + 48) v }

@[simp] lemma Phys.setOnList_chunks (s : Phys σ) (pool : Word) (v : Byte) :
    (s.setOnList pool v).chunks = s.chunks := by
  unfold Phys.setOnList
  rfl

@[simp] lemma Phys.setOnList_pool4KIB (s : Phys σ) (pool : Word) (v : Byte) :
    (s.setOnList pool v).pool4KIB = s.pool4KIB := by
  unfold Phys.setOnList
  rfl

/-- `&pool->free_stack` -/
def freeStack (pool : Word) : StackVar (Phys σ) where
  mem s := s.mem
  setMem m s := { s with mem := m }
  size s := s.field pool .size
  setSize n s := s.setField pool .size n
  top s := s.field pool .top
  setTop p s := s.setField pool .top p

/-! ## Setting up -/

/-- `stack_2MIB`, next to the memory its nodes lie in. -/
def stack2MIB : StackVar (Stack × Mem) where
  mem s := s.2
  setMem m s := (s.1, m)
  size s := s.1.size
  setSize n s := ({ s.1 with size := n }, s.2)
  top s := s.1.top
  setTop p s := ({ s.1 with top := p }, s.2)

/-- An entry of the BIOS memory map -/
structure MMapEntry where
  base : Word
  length : Word
  type : BitVec 32

def typeUsable : BitVec 32 := 1

/-- `ALIGN_2MIB(X)` -/
def align2MIB (x : Word) : Word :=
  (x &&& 0xFFFFFFFFFFE00000) + if 0 < (x &&& 0x1FFFFF).toNat then 0x200000 else 0

lemma toNat_sub_chunk {n : Word} (h : 0x200000 ≤ n.toNat) :
    (n - 0x200000).toNat = n.toNat - 0x200000 := by
  rw [BitVec.toNat_sub_of_le (by rw [BitVec.le_def]; exact h)]
  rfl

/-- The inner loop, which is entered with `length >= _2_MiB`. -/
def pushChunks (base length : Word) (s : Stack × Mem) : Stack × Mem :=
  if _h : 0x200000 ≤ length.toNat then
    pushChunks (base + 0x200000) (length - 0x200000) (stackPush stack2MIB (base + kernelBase) s)
  else s
termination_by length.toNat
decreasing_by
  rw [toNat_sub_chunk _h]
  omega

/-- One round of the loop over the memory map. -/
def setupEntry (s : Stack × Mem) (e : MMapEntry) : Stack × Mem :=
  if e.type ≠ typeUsable then s
  else if e.length.toNat < 0x200000 then s
  else
    let base := align2MIB e.base
    let length := e.length - (base - e.base)
    if length.toNat < 0x200000 then s else pushChunks base length s

/-- The map is the array at `MMAP_ADDRESS`, of `MMAP_COUNT` entries. -/
def setupPhysicalAllocator (map : List MMapEntry) (s : Phys Stack) : Phys Stack :=
  let (stack, mem) := map.foldl setupEntry (stackInit stack2MIB (s.chunks, s.mem))
  ⟨mem, stack, 0⟩

/-! ## 2MiB chunks -/

/-- The chunk on top of the stack, as a physical address; NULL if there is none -/
def physAlloc2MIB : Prog (Stack × Mem) String Word := fun s =>
  let (retVal, s) := stackPop stack2MIB s
  .ok (if retVal = 0 then 0 else virtToPhys retVal, s)

/-- A chunk is pushed through the direct map. -/
def physFree2MIB (ptr : Word) : Prog (Stack × Mem) String Unit :=
  modify (stackPush stack2MIB (mask2MIB (physToVirt ptr)))

/-- `phys_alloc_2MIB` and `phys_free_2MIB`, as the 4KiB allocator uses them. -/
structure ChunkSupply (σ : Type) where
  alloc : Prog (σ × Mem) String Word
  free : Word → Prog (σ × Mem) String Unit

/-- The stack supplies the pools with chunks. -/
def stackSupply : ChunkSupply Stack := ⟨physAlloc2MIB, physFree2MIB⟩

/-- What the supplier does leaves the pool list's head alone. -/
def onChunks {β : Type} (c : Prog (σ × Mem) String β) : Alloc σ β := fun s =>
  match c (s.chunks, s.mem) with
  | .ok (b, chunks, mem) => .ok (b, ⟨mem, chunks, s.pool4KIB⟩)
  | .error e => .error e

/-! ## Pools -/

/-- The first page of the chunk has the record. -/
def poolInit (pool : Word) (s : Phys σ) : Phys σ :=
  let s := stackInit (freeStack pool) s
  let s := s.setField pool .implicitNext (pool + 0x1000)
  let s := s.setField pool .maxAddress (pool + 0x200000)
  let s := s.setField pool .next 0
  let s := s.setField pool .prev 0
  s.setOnList pool 0

/-- No page has been given back and none is left. -/
def poolEmpty (pool : Word) (s : Phys σ) : Bool :=
  stackEmpty (freeStack pool) s &&
    decide ((s.field pool .maxAddress).toNat ≤ (s.field pool .implicitNext).toNat)

/-- All 511 pages are on the stack of the pool. -/
def poolFull (pool : Word) : Alloc σ Bool := fun s =>
  let entriesFree := stackSize (freeStack pool) s
  if entriesFree = 511 ∧
      ¬ (s.field pool .maxAddress).toNat ≤ (s.field pool .implicitNext).toNat then
    .error "ASSERT FAILED: pool->implicit_next >= pool->max_address"
  else .ok (entriesFree = 511, s)

/-- A page is pushed on the stack of the pool. -/
def poolFree (pool ptr : Word) : Alloc σ Unit := fun s =>
  if ptr.toNat ≤ pool.toNat ∨ (s.field pool .maxAddress).toNat ≤ ptr.toNat then
    .error "Pool freeing bad ptr"
  else .ok ((), stackPush (freeStack pool) (mask4KIB ptr) s)

/-- A page from the stack, or the next one that has never been handed out -/
def poolAlloc (pool : Word) : Alloc σ Word := fun s =>
  if poolEmpty pool s then .error "Trying to allocate from empty pool!"
  else if ¬ stackEmpty (freeStack pool) s then .ok (stackPop (freeStack pool) s)
  else
    let retVal := s.field pool .implicitNext
    .ok (retVal, s.setField pool .implicitNext (retVal + 0x1000))

/-! ## 4KiB pages -/

/-- `pool` becomes the only pool of the list. -/
def makePool (pool : Word) (s : Phys σ) : Phys σ :=
  (poolInit pool { s with pool4KIB := pool }).setOnList pool 1

/-- The start of `phys_alloc_4KIB`: without a pool on the list, a chunk is made one. -/
def ensurePool (supply : ChunkSupply σ) : Alloc σ Unit := do
  let s ← get
  if s.pool4KIB = 0 then
    let chunk ← onChunks supply.alloc
    if chunk = 0 then panicWith "ASSERT FAILED: pool_4KIB != NULL"
    else modify (makePool (physToVirt chunk))
  else pure ()

/-- The end of `phys_alloc_4KIB`: a pool with no page left is taken off the list. -/
def retirePool (s : Phys σ) : Phys σ :=
  let pool := s.pool4KIB
  if poolEmpty pool s then
    let next := s.field pool .next
    let s := s.setOnList pool 0
    let s := s.setField pool .next 0
    let s := s.setField pool .prev 0
    { s with pool4KIB := next }
  else s

/-- The rest of `phys_alloc_4KIB`. -/
def takePage : Alloc σ Word := do
  let s ← get
  let retVal ← poolAlloc s.pool4KIB
  modify retirePool
  pure (virtToPhys retVal)

/-- A pool is made if there is none, and leaves the list with its last page. -/
def physAlloc4KIB (supply : ChunkSupply σ) : Alloc σ Word := do
  ensurePool supply
  takePage

/-- `pool` is taken off the list. -/
def unlinkPool (pool : Word) (s : Phys σ) : Phys σ :=
  if s.pool4KIB = pool then
    let s := { s with pool4KIB := s.field pool .next }
    if s.pool4KIB ≠ 0 then s.setField s.pool4KIB .prev 0 else s
  else
    let next := s.field pool .next
    let prev := s.field pool .prev
    let s := if next ≠ 0 then s.setField next .prev prev else s
    if prev ≠ 0 then s.setField prev .next next else s

/-- `pool` becomes the head of the list. -/
def linkPool (pool : Word) (s : Phys σ) : Phys σ :=
  let s := s.setField s.pool4KIB .prev pool
  let s := s.setField pool .next s.pool4KIB
  let s := s.setField pool .prev 0
  let s := { s with pool4KIB := pool }
  s.setOnList pool 1

/-- The pool of a page is found by masking its address. -/
def physFree4KIB (supply : ChunkSupply σ) (ptr : Word) : Alloc σ Unit := do
  let address := physToVirt ptr
  let pool := mask2MIB address
  poolFree pool address
  let s ← get
  if s.pool4KIB = 0 then panicWith "phys_free_4KIB bad free"
  else if s.onList pool ≠ 0 then
    let full ← poolFull pool
    if full then
      modify fun s => poolInit pool (unlinkPool pool s)
      onChunks (supply.free pool)
    else pure ()
  else modify (linkPool pool)

end Bikeshed.PhysAlloc
