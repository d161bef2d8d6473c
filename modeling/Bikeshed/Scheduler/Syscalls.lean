import Bikeshed.Scheduler.Scheduler
import Bikeshed.VirtMemory.Physical

/-!
# `syscalls.c`, and the steps of the system

A run alternates processes, which may change anything outside the scheduler, with timer
interrupts and system calls.
-/

namespace Bikeshed.Scheduler

open Lib

variable {σ : Type} (S : Services σ)

def numSyscalls : ℕ := 7
def syscallFork : ℕ := 0
def syscallExec : ℕ := 1
def syscallExit : ℕ := 2
def syscallMsleep : ℕ := 3
def syscallSetPrio : ℕ := 4
def syscallKeyAvail : ℕ := 5
def syscallGetKey : ℕ := 6

/-- `SUCCESS` -/
def success : Word := 0

/-- `virt_lookup_phys`, and the panic if there is no mapping -/
def lookupOr (text : String) (table address : Word) : Prog σ String Word := do
  match ← S.lookupPhys table address with
  | none => panicWith text
  | some location => pure location

/-- `fork` up to the parent's `Pid`: the new page table, the new context, and the address that the
parent passed in `rdi`. -/
def forkSpace (r : PCB) : Prog σ String (Word × Word × Word) := do
  let newPageTable ← S.cloneMapping r.pageTable
  let newContextAddr ←
    lookupOr S "Fork: failed to lookup context location, very bad!" newPageTable r.context
  S.setRax r.context success
  let rdi ← S.rdi r.context
  pure (newPageTable, physToVirt newContextAddr, rdi)

/-- From there to the child's `Pid`: where its `rdi` points to, in the direct map. -/
def childPid (newPageTable newContext : Word) : Prog σ String Word := do
  S.setRax newContext success
  let rdi ← S.rdi newContext
  let pidParamLocation ←
    lookupOr S "Fork: failed to lookup parameter location!" newPageTable rdi
  pure (physToVirt pidParamLocation)

/-- Nothing is checked of the two addresses that a `Pid` is stored at. -/
def fork (count pcb : ℕ) : KernelM σ Unit := do
  let newPcb ← onSched allocPcb
  onSched (modify fun s => setPcb newPcb (fun _ => s.pcbs pcb) s)
  let r ← readPcb pcb
  let (newPageTable, newContext, rdi) ← onWorld (forkSpace S r)
  onSched (modify (setPcb newPcb fun n =>
    { n with pageTable := newPageTable, context := r.context }))
  storePid S rdi 0
  let paramPid ← onWorld (childPid S newPageTable newContext)
  storePid S paramPid 1
  onSched (schedule newPcb)
  dispatch S count

/-- It is not implemented in the source. -/
def exec (_pcb : ℕ) : KernelM σ Unit := pure ()

/-- The PCB is marked as killed, and another process is picked. -/
def exit (count pcb : ℕ) : KernelM σ Unit := do
  cleanupPcb S pcb
  dispatch S count

/-- The time is the low half of rdi. -/
def msleep (count pcb : ℕ) : KernelM σ Unit := do
  let r ← readPcb pcb
  let sleepTime ← onWorld (S.rdi r.context)
  sleepPcb S count pcb (sleepTime.toNat % 2 ^ 32)

/-- A priority out of range fails the ASSERT. -/
def setPriority (pcb : ℕ) : KernelM σ Unit := do
  let r ← readPcb pcb
  let priority ← onWorld (S.rdi r.context)
  onSched do
    assert "priority <= IDLE" (decide (priority.toNat ≤ idle))
    modify (setPcb pcb fun r => { r with priority := priority.toNat })

def keyAvail (pcb : ℕ) : KernelM σ Unit := do
  let r ← readPcb pcb
  onWorld (S.keyAvail r.context)

def getKey (pcb : ℕ) : KernelM σ Unit := do
  let r ← readPcb pcb
  onWorld (S.getKey r.context)

/-- `syscall_functions[i]` -/
def syscallFunctions (count : ℕ) : ℕ → ℕ → KernelM σ Unit
  | 0 => fork S count
  | 1 => exec
  | 2 => exit S count
  | 3 => msleep S count
  | 4 => setPriority S
  | 5 => keyAvail S
  | _ => getKey S

/-- A number that is none is an exit. -/
def syscallInterrupt (count : ℕ) : KernelM σ Unit := do
  onSched timerStop
  let k ← get
  match k.sched.currentPcb with
  | none => panicWith (.message "SYSCALL: Current PCB is NULL!")
  | some pcb => do
    let r ← readPcb pcb
    let syscallNum ← onWorld (S.r10 r.context)
    if numSyscalls ≤ syscallNum.toNat then syscallFunctions S count syscallExit pcb
    else syscallFunctions S count syscallNum.toNat pcb

/-- `timer_handler`, entered when the count has run out. -/
def timerHandler (count : ℕ) : KernelM σ Unit := do
  onSched (modify fun s => { s with timer := { s.timer with counting := false } })
  timerInterrupt S count

/-! ## Runs -/

/-- What can happen next. `count` is what the timer's current-count register reads. -/
inductive Event (σ : Type) where
  /-- The current process runs. -/
  | user (f : σ → σ)
  | timer (count : ℕ)
  | syscall (count : ℕ)

/-- What the processor does at an event -/
def step : Event σ → KernelM σ Unit
  | .user f => modify fun k => { k with world := f k.world }
  | .timer count => timerHandler S count
  | .syscall count => syscallInterrupt S count

/-- When `fork` is called by the process `r`, neither of the two addresses is in the scheduler's
memory, as far as it gets. -/
def StoresOutside (r : PCB) (w : σ) : Prop :=
  wp (forkSpace S r) (fun x w => S.place x.2.2 = none ∧
    wp (S.store x.2.2 0) (fun _ w =>
      wp (childPid S x.1 x.2.1) (fun paramPid _ => S.place paramPid = none) (fun _ => True) w)
      (fun _ => True) w) (fun _ => True) w

/-- If the step is a `fork`, it does not store to the scheduler's memory. -/
def ForksOutside (k : Kernel σ) : Event σ → Prop
  | .syscall _ => ∀ c n w, k.sched.currentPcb = some c →
      S.r10 (k.sched.pcbs c).context k.world = .ok (n, w) → n.toNat = syscallFork →
        StoresOutside S (k.sched.pcbs c) w
  | _ => True

/-- The state left by `create_init_process`, from any state of the PCBs' memory. -/
def AfterInit (k : Kernel σ) : Prop :=
  ∃ pcbBlocks pcbs tscPerSec w, pcbBlocks.Nodup ∧ pcbBlocks.length = maxPcbs ∧
    tscPerSec < 2 ^ 32 ∧
      createInitProcess S tscPerSec ⟨schedulerInit pcbBlocks pcbs, w⟩ = .ok ((), k)

end Bikeshed.Scheduler
