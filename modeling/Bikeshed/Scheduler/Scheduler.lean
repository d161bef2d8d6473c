import Bikeshed.Lib.Word
import Bikeshed.Lib.Wp
import Mathlib.Logic.Function.Basic

/-!
# `scheduler.c`

Queues are the sequences of the PCBs in them, and the two block allocators are what they
still have to give: a list of PCBs, and a number of queue nodes. PCBs are named by numbers.
`timer_get_elapsed` reads the current count of the APIC timer; what it reads is the argument
`count` of everything that leads there.

What the scheduler calls outside, from page tables to the registers a process was
interrupted with, is `Services`. It also says where the scheduler's memory is, which a system
call can be made to write to.
-/

namespace Bikeshed.Scheduler

open Lib

/-- The enumeration `State` -/
inductive PState where
  | ready | running | sleeping | killed
deriving DecidableEq

/-- `Priority`; the source casts an unchecked integer to it only after an assertion. -/
def normal : ℕ := 1
def idle : ℕ := 3

structure PCB where
  context : Word
  pageTable : Word
  sleepTime : ℕ
  pid : ℕ
  ppid : ℕ
  state : PState
  priority : ℕ

/-- How the kernel stops. -/
inductive Panic where
  | message (text : String)
  | assertion (condition : String)
  /-- A panic of code outside the scheduler. -/
  | outside (text : String)
deriving DecidableEq

/-- The APIC timer: the initial-count register, whether a count is under way, and the variable
`timer_delay` of `apic.c`. -/
structure Timer where
  delay : ℕ
  initialCount : ℕ
  counting : Bool

/-- The static variables of `scheduler.c`. -/
structure Sched where
  pcbs : ℕ → PCB
  baPcbs : List ℕ
  baQnodes : ℕ
  queues : ℕ → List ℕ
  sleepQueue : List ℕ
  currentPcb : Option ℕ
  prevTicks : ℕ
  quantumLeft : ℕ
  oneMs : ℕ
  timer : Timer

def numQueues : ℕ := 4

/-- `MAX_PCBS` -/
def maxPcbs : ℕ := 1024

/-- The blocks that `block_init` cuts out of the space for `MAX_QUEUE_NODES` nodes and one
more: a node has 16 bytes and the record in front of them 48. -/
def queueNodes : ℕ := (16 * 2048 + 16 - 48) / 16

abbrev SchedM (β : Type) := Prog Sched Panic β

def setPcb (p : ℕ) (f : PCB → PCB) (s : Sched) : Sched :=
  { s with pcbs := Function.update s.pcbs p (f (s.pcbs p)) }

def setQueue (i : ℕ) (q : List ℕ) (s : Sched) : Sched :=
  { s with queues := Function.update s.queues i q }

/-- `ASSERT(X)` -/
def assert (condition : String) (b : Bool) : SchedM Unit :=
  if b then pure () else panicWith (.assertion condition)

/-! ## `apic.c` -/

def timerSetDelay (delay : ℕ) : SchedM Unit :=
  modify fun s => { s with timer := { s.timer with delay := delay % 2 ^ 32 } }

/-- Writing the initial count starts the timer, or stops it if the count is zero. -/
def timerStart : SchedM Unit :=
  modify fun s => { s with timer :=
    { s.timer with initialCount := s.timer.delay, counting := decide (s.timer.delay ≠ 0) } }

def timerStop : SchedM Unit :=
  modify fun s => { s with timer := { s.timer with initialCount := 0, counting := false } }

def timerGetElapsed (count : ℕ) : SchedM ℕ := do
  let s ← get
  assert "timer_delay >= count" (decide (count ≤ s.timer.delay))
  pure (s.timer.delay - count)

/-- `timer_one_ms` -/
def timerOneMs (tscPerSec : ℕ) : ℕ := tscPerSec / 1000 / 128

/-! ## `queue.c` -/

def queueEnqueue (q : List ℕ) (node : ℕ) : List ℕ := q ++ [node]

/-- The loop of `queue_enqueue_prio`: the number of nodes that `node` is found to come after.
`cmp` may change the data it compares. -/
def passOver {δ : Type} (cmp : ℕ → ℕ → δ → ℤ × δ) (node : ℕ) : List ℕ → δ → ℕ × δ
  | [], d => (0, d)
  | other :: rest, d =>
    let (c, d) := cmp node other d
    if 0 < c then
      let (k, d) := passOver cmp node rest d
      (k + 1, d)
    else (0, d)

def queueEnqueuePrio {δ : Type} (cmp : ℕ → ℕ → δ → ℤ × δ) (q : List ℕ) (node : ℕ) (d : δ) :
    List ℕ × δ :=
  if q.length = 0 then (queueEnqueue q node, d)
  else
    let (k, d) := passOver cmp node q d
    if k = q.length then (q ++ [node], d)
    else if k = 0 then (node :: q, d)
    -- `node->next = other->next; other->next = node;`
    else (q.take (k + 1) ++ node :: q.drop (k + 1), d)

/-! ## `scheduler.c` -/

def allocPcb : SchedM ℕ := do
  let s ← get
  match s.baPcbs with
  | [] => panicWith (.message "Failed to allocate first PCB")
  | pcb :: rest => do
    modify fun s => { s with baPcbs := rest }
    modify (setPcb pcb fun r => { r with state := .ready, priority := normal })
    pure pcb

def freePcb (pcb : ℕ) : SchedM Unit := modify fun s => { s with baPcbs := pcb :: s.baPcbs }

/-- `block_alloc(ba_qnodes)` and `ASSERT(node != NULL)` -/
def allocNode : SchedM Unit := do
  let s ← get
  assert "node != NULL" (decide (s.baQnodes ≠ 0))
  modify fun s => { s with baQnodes := s.baQnodes - 1 }

/-- `block_free(ba_qnodes, node)` -/
def freeNode : SchedM Unit := modify fun s => { s with baQnodes := s.baQnodes + 1 }

def sleepInsert (pcb1 pcb2 : ℕ) (pcbs : ℕ → PCB) : ℤ × (ℕ → PCB) :=
  if (pcbs pcb1).sleepTime ≤ (pcbs pcb2).sleepTime then
    (-1, Function.update pcbs pcb2
      { pcbs pcb2 with sleepTime := (pcbs pcb2).sleepTime - (pcbs pcb1).sleepTime })
  else
    (1, Function.update pcbs pcb1
      { pcbs pcb1 with sleepTime := (pcbs pcb1).sleepTime - (pcbs pcb2).sleepTime })

def schedule (pcb : ℕ) : SchedM Unit := do
  let s ← get
  match (s.pcbs pcb).state with
  | .ready => do
    allocNode
    assert "pcb->priority < NUM_QUEUES" (decide ((s.pcbs pcb).priority < numQueues))
    modify fun s =>
      setQueue (s.pcbs pcb).priority (queueEnqueue (s.queues (s.pcbs pcb).priority) pcb) s
  | .sleeping => do
    allocNode
    modify fun s =>
      let (q, pcbs) := queueEnqueuePrio sleepInsert s.sleepQueue pcb s.pcbs
      { s with sleepQueue := q, pcbs := pcbs }
  | _ => panicWith (.message "Scheduler: Unhandled PCB state")

def getNextSleep (tickSpan : ℕ) : SchedM ℕ := do
  let s ← get
  match s.sleepQueue with
  | [] => pure 0
  | pcb :: _ =>
    if (s.pcbs pcb).sleepTime ≤ tickSpan then do
      modify (setPcb pcb fun r => { r with state := .ready, sleepTime := 0 })
      schedule pcb
      modify fun s => { s with sleepQueue := s.sleepQueue.tail }
      freeNode
      let s ← get
      match s.sleepQueue with
      | [] => pure 0
      | next :: _ => pure (s.pcbs next).sleepTime
    else do
      modify (setPcb pcb fun r => { r with sleepTime := r.sleepTime - tickSpan })
      let s ← get
      pure (s.pcbs pcb).sleepTime

/-- `while (!queue_empty(&queues[i])) { ... }`: the PCB to run, if one is found. -/
def scanQueue (i : ℕ) : List ℕ → SchedM (Option ℕ)
  | [] => pure none
  | next :: rest => do
    modify (setQueue i rest)
    freeNode
    let s ← get
    match (s.pcbs next).state with
    | .killed => do
      freePcb next
      scanQueue i rest
    | .ready => pure (some next)
    | _ => panicWith (.message "Scheduler: Unhandled case!")

/-- `for (i = 0; i < NUM_QUEUES; ++i) { ... }`, from `i` on for `n` queues. -/
def scanQueues : ℕ → ℕ → SchedM ℕ
  | _, 0 => panicWith (.message "Dispatch: Nothing left to run!")
  | i, n + 1 => do
    let s ← get
    match ← scanQueue i (s.queues i) with
    | some next => pure next
    | none => scanQueues (i + 1) n

/-! ### With what it calls -/

/-- The 32-bit variables and fields in the scheduler's memory, and all that is left of it: the
pointers, the nodes and the allocators' records. What four bytes stored there come to is given
with them; it can be anything but a change of the times. -/
inductive Place where
  | sleepTime (pcb : ℕ)
  | pid (pcb : ℕ)
  | ppid (pcb : ℕ)
  | state (pcb : ℕ)
  | priority (pcb : ℕ)
  | prevTicks
  | quantumLeft
  | oneMs
  | timerDelay
  | other (f : ℕ → Sched → Sched)

/-- The state with this number -/
def PState.numbered : ℕ → PState
  | 0 => .ready
  | 1 => .running
  | 2 => .sleeping
  | _ => .killed

/-- `n` has been stored in the four bytes of a place. -/
def Place.store (n : ℕ) : Place → Sched → Sched
  | .sleepTime pcb => setPcb pcb fun r => { r with sleepTime := n }
  | .pid pcb => setPcb pcb fun r => { r with pid := n }
  | .ppid pcb => setPcb pcb fun r => { r with ppid := n }
  | .state pcb => setPcb pcb fun r => { r with state := .numbered n }
  | .priority pcb => setPcb pcb fun r => { r with priority := n }
  | .prevTicks => fun s => { s with prevTicks := n }
  | .quantumLeft => fun s => { s with quantumLeft := n }
  | .oneMs => fun s => { s with oneMs := n }
  | .timerDelay => fun s => { s with timer := { s.timer with delay := n } }
  | .other f => fun s =>
    { f n s with
      prevTicks := s.prevTicks
      quantumLeft := s.quantumLeft
      oneMs := s.oneMs
      timer := s.timer }

/-- What the scheduler and the system calls use of the rest of the system, whose state is `σ`.
Registers are those of the `Context` at an address. -/
structure Services (σ : Type) where
  kernelTable : Word
  /-- `virt_switch_page_table` -/
  switchPageTable : Word → Prog σ String Unit
  /-- `virt_cleanup_table` -/
  cleanupTable : Word → Prog σ String Unit
  /-- `virt_clone_mapping(kernel_table)` and `elf_create_process`: page table and context. -/
  loadInit : Prog σ String (Word × Word)
  /-- `virt_clone_mapping` -/
  cloneMapping : Word → Prog σ String Word
  /-- `virt_lookup_phys`: what it stores, if it returns 1 -/
  lookupPhys : Word → Word → Prog σ String (Option Word)
  /-- `context->r10` -/
  r10 : Word → Prog σ String Word
  /-- `context->rdi` -/
  rdi : Word → Prog σ String Word
  /-- `context->rax = ...` -/
  setRax : Word → Word → Prog σ String Unit
  /-- `context->rax = keyboard_char_available()` -/
  keyAvail : Word → Prog σ String Unit
  /-- `context->rax = keyboard_get_char()` -/
  getKey : Word → Prog σ String Unit
  /-- What of the scheduler's memory the four bytes at an address are or reach into, if they do.
  The kernel's half of the address space is the same in every page table. -/
  place : Word → Option Place
  /-- Storing four bytes anywhere else -/
  store : Word → ℕ → Prog σ String Unit

structure Kernel (σ : Type) where
  sched : Sched
  world : σ

abbrev KernelM (σ β : Type) := Prog (Kernel σ) Panic β

variable {σ β : Type}

def onSched (c : SchedM β) : KernelM σ β := fun k =>
  match c k.sched with
  | .ok (b, s) => .ok (b, { k with sched := s })
  | .error e => .error e

def onWorld (c : Prog σ String β) : KernelM σ β := fun k =>
  match c k.world with
  | .ok (b, w) => .ok (b, { k with world := w })
  | .error e => .error (.outside e)

/-- `current_pcb`, which is dereferenced. -/
def currentPcb : KernelM σ ℕ := do
  let k ← get
  match k.sched.currentPcb with
  | none => panicWith (.outside "Page Fault")
  | some pcb => pure pcb

/-- `*pcb` -/
def readPcb (pcb : ℕ) : KernelM σ PCB := do
  let k ← get
  pure (k.sched.pcbs pcb)

variable (S : Services σ)

/-- `*((Pid*)address) = pid`, with the rights of the kernel -/
def storePid (address : Word) (pid : ℕ) : KernelM σ Unit :=
  match S.place address with
  | none => onWorld (S.store address pid)
  | some place => onSched (modify (place.store pid))

def cleanupPcb (pcb : ℕ) : KernelM σ Unit := do
  onWorld (S.switchPageTable S.kernelTable)
  let r ← readPcb pcb
  onWorld (S.cleanupTable r.pageTable)
  onSched (modify (setPcb pcb fun r => { r with state := .killed }))

/-- Adjust the quantum. -/
def chargeQuantum (tickSpan : ℕ) : SchedM Unit := modify fun s =>
  { s with quantumLeft := if s.quantumLeft < tickSpan then 0 else s.quantumLeft - tickSpan }

/-- `current_pcb = NULL; quantum_left = 10;` -/
def dropCurrent : SchedM Unit := modify fun s => { s with currentPcb := none, quantumLeft := 10 }

/-- The branches of `dispatch` that take the processor from the current process. -/
def retireCurrent : KernelM σ Unit := do
  let pcb ← currentPcb
  let r ← readPcb pcb
  if r.state = .killed then do
    cleanupPcb S pcb
    onSched dropCurrent
  else do
    let k ← get
    if r.state = .sleeping ∨ k.sched.quantumLeft = 0 then onSched do
      schedule pcb
      dropCurrent
    else pure ()

/-- `prev_ticks` from the quantum and the next wake-up. -/
def setPrevTicks (tickSpan : ℕ) : SchedM Unit := do
  modify fun s => { s with prevTicks := s.quantumLeft }
  let nextWakeup ← getNextSleep tickSpan
  modify fun s =>
    if 0 < nextWakeup ∧ nextWakeup < s.quantumLeft then { s with prevTicks := nextWakeup } else s

/-- `timer_set_delay(prev_ticks*one_ms); timer_start();` -/
def armTimer : SchedM Unit := do
  let s ← get
  timerSetDelay (s.prevTicks * s.oneMs)
  timerStart

def dispatch (count : ℕ) : KernelM σ Unit := do
  let elapsed ← onSched (timerGetElapsed count)
  let k ← get
  if k.sched.oneMs = 0 then panicWith (.outside "Interrupt! vector: 0")
  else do
    let tickSpan := elapsed / k.sched.oneMs
    onSched (chargeQuantum tickSpan)
    retireCurrent S
    onSched (setPrevTicks tickSpan)
    let k ← get
    if k.sched.currentPcb ≠ none then onSched do
      assert "quantum_left != 0" (decide (k.sched.quantumLeft ≠ 0))
      armTimer
    else do
      onSched (assert "prev_ticks > 0" (decide (0 < k.sched.prevTicks)))
      let next ← onSched (scanQueues 0 numQueues)
      onSched (modify fun s => { s with currentPcb := some next })
      let r ← readPcb next
      onWorld (S.switchPageTable r.pageTable)
      onSched armTimer

def timerInterrupt (count : ℕ) : KernelM σ Unit := dispatch S count

def sleepPcb (count pcb time : ℕ) : KernelM σ Unit := do
  if time ≠ 0 then
    onSched (modify (setPcb pcb fun r => { r with state := .sleeping, sleepTime := time }))
  dispatch S count

/-- The variables after `scheduler_init`. -/
def schedulerInit (pcbBlocks : List ℕ) (pcbs : ℕ → PCB) : Sched where
  pcbs := pcbs
  baPcbs := pcbBlocks
  baQnodes := queueNodes
  queues := fun _ => []
  sleepQueue := []
  currentPcb := none
  prevTicks := 0
  quantumLeft := 0
  oneMs := 0
  timer := ⟨0, 0, false⟩

/-- Up to the jump into the process; `tscPerSec` is the variable of `apic.c`. -/
def createInitProcess (tscPerSec : ℕ) : KernelM σ Unit := do
  let pcb ← onSched allocPcb
  onSched (modify fun s => { s with currentPcb := some pcb })
  let (pageTable, context) ← onWorld S.loadInit
  onSched do
    modify (setPcb pcb fun r =>
      { r with pageTable := pageTable, state := .ready, context := context })
    modify fun s => { s with oneMs := timerOneMs tscPerSec, prevTicks := 10, quantumLeft := 10 }
    armTimer

end Bikeshed.Scheduler
