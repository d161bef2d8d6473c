import Bikeshed.Scheduler.Dispatch
import Bikeshed.Scheduler.Preemption

/-!
# One step of the system

A step either comes to no `dispatch` at all or does something and then calls it. Up to the call
every PCB stays in one place, and then the process that runs keeps the processor or the next one
gets it. The sleep queue changes in two ways only: `dispatch` takes the time it measured from the
head, and before that a process that called `msleep` is inserted.
-/

namespace Bikeshed.Scheduler

open Lib

variable {σ : Type} (S : Services σ)

/-! ## Up to the call -/

/-- `fork` up to its call of `dispatch` -/
def forkChild (pcb : ℕ) : KernelM σ Unit := do
  let newPcb ← onSched allocPcb
  onSched (modify fun s => setPcb newPcb (fun _ => s.pcbs pcb) s)
  let r ← readPcb pcb
  let (newPageTable, newContext, rdi) ← onWorld (forkSpace S r)
  onSched (modify (setPcb newPcb fun n =>
    { n with pageTable := newPageTable, context := r.context }))
  storePid S rdi 0
  let paramPid ← onWorld (childPid S newPageTable newContext)
  storePid S paramPid 1
  onSched (schedule newPcb)

/-- `msleep` up to its call of `dispatch` -/
def fallAsleep (pcb : ℕ) : KernelM σ Unit := do
  let r ← readPcb pcb
  let sleepTime ← onWorld (S.rdi r.context)
  if sleepTime.toNat % 2 ^ 32 ≠ 0 then
    onSched (modify (setPcb pcb fun r =>
      { r with state := .sleeping, sleepTime := sleepTime.toNat % 2 ^ 32 }))
  else pure ()

/-- A system call up to its call of `dispatch`, if it comes to that. -/
def callUpToDispatch (count : ℕ) : ℕ → ℕ → KernelM σ (Option ℕ)
  | 0, pcb => do
    forkChild S pcb
    pure (some count)
  | 1, pcb => do
    exec pcb
    pure none
  | 2, pcb => do
    cleanupPcb S pcb
    pure (some count)
  | 3, pcb => do
    fallAsleep S pcb
    pure (some count)
  | 4, pcb => do
    setPriority S pcb
    pure none
  | 5, pcb => do
    keyAvail S pcb
    pure none
  | _, pcb => do
    getKey S pcb
    pure none

/-- A step up to its call of `dispatch`, if it comes to that: what the timer's current-count
register reads then. -/
def upToDispatch : Event σ → KernelM σ (Option ℕ)
  | .user f => do
    modify fun k => { k with world := f k.world }
    pure none
  | .timer count => do
    onSched (modify fun s => { s with timer := { s.timer with counting := false } })
    pure (some count)
  | .syscall count => do
    onSched timerStop
    let k ← get
    match k.sched.currentPcb with
    | none => panicWith (.message "SYSCALL: Current PCB is NULL!")
    | some pcb => do
      let r ← readPcb pcb
      let syscallNum ← onWorld (S.r10 r.context)
      callUpToDispatch S count
        (if numSyscalls ≤ syscallNum.toNat then syscallExit else syscallNum.toNat) pcb

def dispatchIf : Option ℕ → KernelM σ Unit
  | none => pure ()
  | some count => dispatch S count

lemma syscallFunctions_eq (count pcb : ℕ) : ∀ n,
    syscallFunctions S count n pcb = callUpToDispatch S count n pcb >>= dispatchIf S
  | 0 => by
    show fork S count pcb = _
    simp only [fork, callUpToDispatch, forkChild, bind_assoc, pure_bind, dispatchIf]
  | 1 => rfl
  | 2 => by
    show exit S count pcb = _
    simp only [exit, callUpToDispatch, bind_assoc, pure_bind, dispatchIf]
  | 3 => by
    show msleep S count pcb = _
    simp only [msleep, sleepPcb, callUpToDispatch, fallAsleep, bind_assoc, pure_bind, dispatchIf]
    refine bind_congr fun r => bind_congr fun t => ?_
    split <;> rfl
  | 4 => by
    show setPriority S pcb = _
    simp only [callUpToDispatch, bind_assoc, pure_bind, dispatchIf, bind_pure_unit]
  | 5 => by
    show keyAvail S pcb = _
    simp only [callUpToDispatch, bind_assoc, pure_bind, dispatchIf, bind_pure_unit]
  | n + 6 => by
    show getKey S pcb = (getKey S pcb >>= fun _ => pure none) >>= dispatchIf S
    simp only [bind_assoc, pure_bind, dispatchIf, bind_pure_unit]

/-- A step is what it does up to the call of `dispatch`, and then the call. -/
theorem step_eq (e : Event σ) : step S e = upToDispatch S e >>= dispatchIf S := by
  cases e with
  | user f => rfl
  | timer count => rfl
  | syscall count =>
    show syscallInterrupt S count = _
    rw [syscallInterrupt, upToDispatch]
    simp only [bind_assoc]
    refine bind_congr fun _ => bind_congr fun k => ?_
    cases k.sched.currentPcb with
    | none => rfl
    | some pcb =>
      simp only [bind_assoc]
      refine bind_congr fun r => bind_congr fun n => ?_
      rw [← syscallFunctions_eq]
      split <;> rfl

/-! ## What a step is -/

/-- The milliseconds that the process `pcb` asks to sleep with the system call `n`, or 0 -/
def askedSleep (n pcb : ℕ) (k : Kernel σ) : ℕ :=
  if n = syscallMsleep then
    match S.rdi (k.sched.pcbs pcb).context k.world with
    | .error _ => 0
    | .ok (t, _) => t.toNat % 2 ^ 32
  else 0

/-- The milliseconds that the current process asks to sleep, or 0 -/
def sleepTime (k : Kernel σ) : Event σ → ℕ
  | .syscall _ =>
    match k.sched.currentPcb with
    | none => 0
    | some pcb =>
      match S.r10 (k.sched.pcbs pcb).context k.world with
      | .error _ => 0
      | .ok (n, w) => askedSleep S n.toNat pcb { k with world := w }
  | _ => 0

/-- The event is a system call that ends the current process. -/
def Exits (k : Kernel σ) : Event σ → Prop
  | .syscall _ => ∃ n, syscallNum S k = some n ∧ (n = syscallExit ∨ numSyscalls ≤ n)
  | _ => False

/-- The milliseconds that the step measures, if it comes to `dispatch` -/
def measured (k : Kernel σ) : Event σ → Option ℕ
  | .user _ => none
  | .timer count => some (tickSpan count k.sched)
  | .syscall count => (syscallNum S k).bind fun n =>
      if Skips n then none else some (tickSpan count k.sched)

/-- The current process has been put to sleep for `t` milliseconds, if that is not 0. -/
def asleep (c t : ℕ) (s : Sched) : Sched :=
  if t = 0 then s
  else enqueueSleeper c (setPcb c (fun r => { r with state := .sleeping, sleepTime := t }) s)

/-- What a step of the process `c` does to the sleep queue. -/
def SleepersAfter (c : ℕ) (k : Kernel σ) (e : Event σ) (s' : Sched) : Prop :=
  match measured S k e with
  | none => SameSleepers k.sched s'
  | some d => SameSleepers (afterTick d (asleep c (sleepTime S k e) k.sched)) s'

variable {S} {k : Kernel σ} {s s' s'' : Sched} {c d t count : ℕ} {E : Panic → Prop}

/-! ## The state in which `dispatch` is called -/

/-- Nothing leaves a ready queue, and what joins does so at its end. -/
def Grows (s s' : Sched) : Prop := ∀ i, s.queues i <+: s'.queues i

lemma Grows.of_eq (h : s'.queues = s.queues) : Grows s s' := fun i => by
  rw [h]

lemma grows_enqueueReady : Grows s (enqueueReady c s) := fun i => by
  rw [queues_enqueueReady]
  exact List.prefix_append _ _

/-- What the process `c` has done when it asked to sleep for `t` milliseconds, or not to sleep. -/
structure Called (c t : ℕ) (s s' : Sched) : Prop where
  currentPcb : s'.currentPcb = some c
  inv : SchedInv [c] s'
  notRunning : (s'.pcbs c).state ≠ .running
  byPriority : ByPriority s → ByPriority s'
  times : SameTimes s s'
  delay : s'.timer.delay = s.timer.delay
  stillReady : readyList s' = [] → readyList s = []
  grows : Grows s s'
  sleepers : SameSleepers s s'
  awake : t = 0 → (s'.pcbs c).state ≠ .sleeping
  asleep : t ≠ 0 → s'.pcbs = (setPcb c
    (fun r => { r with state := .sleeping, sleepTime := t }) s).pcbs

lemma Called.refl (hc : s.currentPcb = some c) (h : SchedInv [c] s)
    (hready : (s.pcbs c).state = .ready) : Called c 0 s s where
  currentPcb := hc
  inv := h
  notRunning := by rw [hready]; decide
  byPriority := id
  times := ⟨rfl, rfl, rfl⟩
  delay := rfl
  stillReady := id
  grows := .of_eq rfl
  sleepers := .refl s
  awake := fun _ => by rw [hready]; decide
  asleep := fun h0 => absurd rfl h0

/-- A change of the current PCB -/
lemma called_setPcb {f : PCB → PCB} (hc : s.currentPcb = some c) (h : SchedInv [c] s)
    (hf : (f (s.pcbs c)).priority < numQueues) (hrun : (f (s.pcbs c)).state ≠ .running)
    (hawake : t = 0 → (f (s.pcbs c)).state ≠ .sleeping)
    (hasleep : t ≠ 0 → f (s.pcbs c) = { s.pcbs c with state := .sleeping, sleepTime := t }) :
    Called c t s (setPcb c f s) where
  currentPcb := hc
  inv := h.setPcb List.mem_cons_self hf
  notRunning := by rw [setPcb_self]; exact hrun
  byPriority := fun hp => hp.setPcb h List.mem_cons_self
  times := ⟨rfl, rfl, rfl⟩
  delay := rfl
  stillReady := id
  grows := .of_eq rfl
  sleepers := ⟨rfl, fun q hq => setPcb_of_ne _
    (ne_of_mem_of_not_mem hq (h.not_mem_sleepQueue List.mem_cons_self))⟩
  awake := fun h0 => by rw [setPcb_self]; exact hawake h0
  asleep := fun h0 => by rw [setPcb, hasleep h0]; rfl

/-- The parent is not among the PCBs that can be allocated. -/
lemma SchedInv.ne_allocated {new : ℕ} {free : List ℕ} (h : SchedInv [c] s)
    (hfree : s.baPcbs = new :: free) : c ≠ new := by
  rintro rfl
  exact (List.nodup_cons.mp (h.allocated hfree).nodup).1 List.mem_cons_self

/-- A ready process `r` in a new PCB is put on its queue. -/
lemma called_child {new : ℕ} {free : List ℕ} {r : PCB} (hc : s.currentPcb = some c)
    (h : SchedInv [c] s) (hready : (s.pcbs c).state = .ready) (hfree : s.baPcbs = new :: free)
    (hr : r.state = .ready) (hprio : r.priority < numQueues) :
    Called c 0 s (enqueueReady new (setPcb new (fun _ => r) (allocated new free s))) ∧
      ((enqueueReady new (setPcb new (fun _ => r) (allocated new free s))).pcbs c).state = .ready ∧
      (setPcb new (fun _ => r) (allocated new free s)).baQnodes ≠ 0 := by
  have h1 := h.allocated hfree
  have hne := h.ne_allocated hfree
  set s2 := setPcb new (fun _ => r) (allocated new free s) with hs2
  have h2 : SchedInv [new, c] s2 := h1.setPcb List.mem_cons_self hprio
  have hself : s2.pcbs new = r := by rw [hs2, setPcb_self]
  have hothers : ∀ q, q ≠ new → s2.pcbs q = s.pcbs q := fun q hq => by
    rw [hs2, setPcb_of_ne _ hq, allocated, setPcb_of_ne _ hq]
  have hcready : ((enqueueReady new s2).pcbs c).state = .ready :=
    (congrArg PCB.state (hothers c hne)).trans hready
  refine ⟨?_, hcready, h2.baQnodes_ne_zero⟩
  exact
    { currentPcb := hc
      inv := h2.enqueueReady (by rw [hself]; exact hr)
      notRunning := by rw [hcready]; decide
      byPriority := fun hp =>
        ((hp.allocated h hfree).setPcb h1 List.mem_cons_self).enqueueReady
      times := ⟨rfl, rfl, rfl⟩
      delay := rfl
      stillReady := fun hnil => by
        have hlen := (readyList_enqueueReady (s := s2) (hself ▸ hprio)).length_eq
        rw [hnil, List.length_cons, List.length_nil] at hlen
        omega
      grows := grows_enqueueReady (c := new) (s := s2)
      sleepers := by
        refine ⟨rfl, fun q hq => hothers q ?_⟩
        exact ne_of_mem_of_not_mem hq (h1.not_mem_sleepQueue List.mem_cons_self)
      awake := fun _ => by rw [hcready]; decide
      asleep := fun h0 => absurd rfl h0 }

section Calls

variable {Q : Unit → Kernel σ → Prop} (hc : k.sched.currentPcb = some c) (h : SchedInv [c] k.sched)
  (hready : (k.sched.pcbs c).state = .ready) (hE : ∀ x, x ∉ schedulerPanics → E x)
include hc h hready hE

lemma wp_forkChild (hstores : StoresOutside S (k.sched.pcbs c) k.world)
    (hQ : ∀ k', Called c 0 k.sched k'.sched → (k'.sched.pcbs c).state = .ready → Q () k') :
    wp (forkChild S c) Q E k := by
  have hout : ∀ e, E (.outside e) := fun e => hE _ (outside_not_mem e)
  rw [forkChild, wp_bind, wp_onSched]
  refine wp_allocPcb (fun _ => hE _ (by decide)) fun new free hfree => ?_
  have hne := h.ne_allocated hfree
  have hparent : (allocated new free k.sched).pcbs c = k.sched.pcbs c := setPcb_of_ne _ hne
  rw [wp_bind, wp_onSched, wp_modify, wp_bind, wp_readPcb, wp_bind]
  dsimp only
  rw [hparent, setPcb_of_ne _ hne, hparent]
  refine wp_onWorld_mono hstores (fun space w hspace => ?_) hout
  rw [wp_bind, wp_onSched, wp_modify, wp_bind, wp_storePid_outside hspace.1]
  refine wp_onWorld_mono hspace.2 (fun _ w hchild => ?_) hout
  rw [wp_bind]
  refine wp_onWorld_mono hchild (fun paramPid w hplace => ?_) hout
  rw [wp_bind, wp_storePid_outside hplace]
  refine wp_onWorld_of (fun _ w => ?_) hout
  rw [wp_onSched, setPcb_setPcb]
  -- the child is the parent with a page table of its own
  set r : PCB := { k.sched.pcbs c with
    pageTable := space.1, context := (k.sched.pcbs c).context } with hr
  obtain ⟨hcalled, hstill, hnode⟩ := called_child hc h hready hfree (r := r) hready
    (h.priority c List.mem_cons_self)
  have hself : (setPcb new (fun _ => r) (allocated new free k.sched)).pcbs new = r :=
    setPcb_self _
  refine wp_schedule_ready (by rw [hself]; exact hready)
    ⟨fun h0 => absurd h0 hnode, fun hp => absurd (h.priority c List.mem_cons_self) ?_⟩
    fun _ _ => hQ _ hcalled hstill
  rw [hself] at hp
  exact hp

lemma wp_fallAsleep (hQ : ∀ k', Called c (askedSleep S syscallMsleep c k) k.sched k'.sched →
    (askedSleep S syscallMsleep c k = 0 → (k'.sched.pcbs c).state = .ready) → Q () k') :
    wp (fallAsleep S c) Q E k := by
  rw [fallAsleep, wp_bind, wp_readPcb, wp_bind, wp_onWorld, wp_iff]
  refine ⟨fun t w hrdi => ?_, fun e _ => hE _ (outside_not_mem e)⟩
  have hasked : askedSleep S syscallMsleep c k = t.toNat % 2 ^ 32 := by
    rw [askedSleep, if_pos rfl, hrdi]
  rw [hasked] at hQ
  rw [wp_ite]
  constructor
  · intro ht
    rw [wp_onSched, wp_modify]
    have hcalled : Called c (t.toNat % 2 ^ 32) k.sched (setPcb c
        (fun r => { r with state := .sleeping, sleepTime := t.toNat % 2 ^ 32 }) k.sched) := by
      refine called_setPcb hc h (h.priority c List.mem_cons_self) ?_ (fun h0 => absurd h0 ht)
        fun _ => rfl
      exact fun hno => by cases hno
    exact hQ ⟨_, w⟩ hcalled fun h0 => absurd h0 ht
  · intro ht
    rw [not_not] at ht
    rw [ht] at hQ
    exact hQ ⟨k.sched, w⟩ (.refl hc h hready) fun _ => hready

end Calls

/-- What is known of a system call or another step when it comes to `dispatch`, or returns. -/
structure UpTo (c t : ℕ) (leaves : Prop) (r calls : Option ℕ) (s s' : Sched) : Prop where
  called : Called c t s s'
  ready : leaves ∨ (s'.pcbs c).state = .ready
  result : r = calls
  quiet : calls = none → t = 0 ∧ (s'.pcbs c).state = .ready

theorem wp_callUpToDispatch (hc : k.sched.currentPcb = some c) (h : SchedInv [c] k.sched)
    (hready : (k.sched.pcbs c).state = .ready) (hE : ∀ x, x ∉ schedulerPanics → E x) :
    ∀ n < numSyscalls, (n = syscallFork → StoresOutside S (k.sched.pcbs c) k.world) →
      wp (callUpToDispatch S count n c)
      (fun r k' => UpTo c (askedSleep S n c k) (n = syscallExit ∨ askedSleep S n c k ≠ 0) r
        (if Skips n then none else some count) k.sched k'.sched) E k
  | 0, _, hstores => by
    rw [callUpToDispatch, wp_bind]
    refine wp_forkChild hc h hready hE (hstores rfl) fun k' hcalled hstays => ?_
    exact ⟨hcalled, .inr hstays, rfl, fun hno => by cases hno⟩
  | 1, _, _ => ⟨.refl hc h hready, .inr hready, rfl, fun _ => ⟨rfl, hready⟩⟩
  | 2, _, _ => by
    rw [callUpToDispatch, wp_bind]
    refine wp_mono (wp_cleanupPcb (fun e => hE _ (outside_not_mem e)) c) fun _ k' hk' => ?_
    refine ⟨?_, .inl (.inl rfl), rfl, fun hno => by cases hno⟩
    rw [hk']
    refine called_setPcb hc h (h.priority c List.mem_cons_self) ?_ ?_ fun h0 => absurd rfl h0
    · exact fun hno => by cases hno
    · exact fun _ hno => by cases hno
  | 3, _, _ => by
    rw [callUpToDispatch, wp_bind]
    refine wp_fallAsleep hc h hready hE fun k' hcalled hstays => ?_
    refine ⟨hcalled, ?_, rfl, fun hno => by cases hno⟩
    by_cases ht : askedSleep S syscallMsleep c k = 0
    · exact .inr (hstays ht)
    · exact .inl (.inr ht)
  | 4, _, _ => by
    rw [callUpToDispatch, wp_bind, setPriority, wp_bind, wp_readPcb, wp_bind]
    refine wp_onWorld_of (fun t w => ?_) fun e => hE _ (outside_not_mem e)
    rw [wp_onSched, wp_bind, wp_assert]
    refine ⟨fun ht => ?_, fun _ => hE _ (by decide)⟩
    rw [wp_modify, wp_pure]
    set f : PCB → PCB := fun r => { r with priority := t.toNat } with hf
    have hprio : t.toNat < numQueues := Nat.lt_succ_of_le (of_decide_eq_true ht)
    have hstate : ((setPcb c f k.sched).pcbs c).state = .ready := by
      rw [setPcb_self]
      exact hready
    have hcalled : Called c 0 k.sched (setPcb c f k.sched) := by
      refine called_setPcb hc h hprio ?_ (fun _ => ?_) fun h0 => absurd rfl h0
      · show (k.sched.pcbs c).state ≠ .running
        rw [hready]
        decide
      · show (k.sched.pcbs c).state ≠ .sleeping
        rw [hready]
        decide
    exact ⟨hcalled, .inr hstate, rfl, fun _ => ⟨rfl, hstate⟩⟩
  | 5, _, _ => by
    rw [callUpToDispatch, wp_bind, keyAvail, wp_bind, wp_readPcb]
    refine wp_onWorld_of (fun _ w => ?_) fun e => hE _ (outside_not_mem e)
    exact ⟨.refl hc h hready, .inr hready, rfl, fun _ => ⟨rfl, hready⟩⟩
  | 6, _, _ => by
    show wp (getKey S c >>= fun _ => pure none) _ _ k
    rw [wp_bind, getKey, wp_bind, wp_readPcb]
    refine wp_onWorld_of (fun _ w => ?_) fun e => hE _ (outside_not_mem e)
    exact ⟨.refl hc h hready, .inr hready, rfl, fun _ => ⟨rfl, hready⟩⟩
  | n + 7, hn, _ => absurd hn (by rw [numSyscalls]; omega)

/-- A change of the timer or of anything outside before it -/
lemma Called.of_timer {s0 : Sched} {timer : Timer} (h : Called c t s s')
    (hs : s = { s0 with timer := timer }) (hdelay : timer.delay = s0.timer.delay) :
    Called c t s0 s' := by
  subst hs
  exact
    { currentPcb := h.currentPcb
      inv := h.inv
      notRunning := h.notRunning
      byPriority := h.byPriority
      times := ⟨h.times.quantumLeft, h.times.oneMs, h.times.prevTicks⟩
      delay := h.delay.trans hdelay
      stillReady := h.stillReady
      grows := h.grows
      sleepers := h.sleepers
      awake := h.awake
      asleep := h.asleep }

/-- Where a step calls `dispatch` -/
def callsAt (S : Services σ) (k : Kernel σ) : Event σ → Option ℕ
  | .user _ => none
  | .timer count => some count
  | .syscall count => (syscallNum S k).bind fun n => if Skips n then none else some count

lemma measured_eq (k : Kernel σ) (e : Event σ) :
    measured S k e = (callsAt S k e).map fun count => tickSpan count k.sched := by
  cases e with
  | user f => rfl
  | timer count => rfl
  | syscall count =>
    rw [measured, callsAt]
    cases syscallNum S k with
    | none => rfl
    | some n =>
      simp only [Option.bind_some]
      split <;> rfl

/-- Every step up to its call of `dispatch` -/
theorem wp_upToDispatch (hc : k.sched.currentPcb = some c) (h : SchedInv [c] k.sched)
    (hready : (k.sched.pcbs c).state = .ready) (hE : ∀ x, x ∉ schedulerPanics → E x) {e : Event σ}
    (hforks : ForksOutside S k e) : wp (upToDispatch S e) (fun r k' => UpTo c (sleepTime S k e)
      (Exits S k e ∨ sleepTime S k e ≠ 0) r (callsAt S k e) k.sched k'.sched) E k := by
  cases e with
  | user f => exact ⟨.refl hc h hready, .inr hready, rfl, fun _ => ⟨rfl, hready⟩⟩
  | timer count =>
    rw [upToDispatch, wp_bind, wp_onSched, wp_modify]
    set s1 : Sched := { k.sched with timer := { k.sched.timer with counting := false } } with hs1
    have h1 : SchedInv [c] s1 := h.congr rfl rfl rfl rfl rfl
    have hcalled : Called c 0 s1 s1 := .refl hc h1 hready
    exact ⟨hcalled.of_timer hs1 rfl, .inr hready, rfl, fun hno => by cases hno⟩
  | syscall count =>
    rw [upToDispatch, wp_bind, wp_onSched, timerStop, wp_modify, wp_bind, wp_getKernel]
    set s1 : Sched := { k.sched with timer :=
      { k.sched.timer with initialCount := 0, counting := false } } with hs1
    have h1 : SchedInv [c] s1 := h.congr rfl rfl rfl rfl rfl
    have hc1 : s1.currentPcb = some c := hc
    simp only [hc1]
    rw [wp_bind, wp_readPcb, wp_bind, wp_onWorld, wp_iff]
    refine ⟨fun n w hn => ?_, fun x _ => hE _ (outside_not_mem x)⟩
    have hn' : S.r10 (k.sched.pcbs c).context k.world = .ok (n, w) := hn
    have hnum : syscallNum S k = some n.toNat := by
      rw [syscallNum, hc]
      simp only [hn']
    have hsleep : sleepTime S k (.syscall count) = askedSleep S n.toNat c ⟨s1, w⟩ := by
      rw [sleepTime, hc]
      simp only [hn']
      rfl
    -- the system call `m` that is made for the number `n`
    have hcall : ∀ m < numSyscalls, (m = syscallExit → Exits S k (.syscall count)) →
        (m = syscallFork → n.toNat = syscallFork) → (Skips m ↔ Skips n.toNat) →
        askedSleep S m c ⟨s1, w⟩ = sleepTime S k (.syscall count) →
        wp (callUpToDispatch S count m c) (fun r k' => UpTo c (sleepTime S k (.syscall count))
          (Exits S k (.syscall count) ∨ sleepTime S k (.syscall count) ≠ 0) r
          (callsAt S k (.syscall count)) k.sched k'.sched) E ⟨s1, w⟩ := by
      intro m hm hexit hfork hskips hasked
      refine wp_mono (wp_callUpToDispatch (k := ⟨s1, w⟩) hc1 h1 hready hE m hm
        fun hm => hforks c n w hc hn' (hfork hm)) fun r k' hup => ?_
      rw [hasked] at hup
      have hcalls : callsAt S k (.syscall count) = if Skips m then none else some count := by
        rw [callsAt, hnum, Option.bind_some]
        by_cases hs : Skips m
        · rw [if_pos hs, if_pos (hskips.mp hs)]
        · rw [if_neg hs, if_neg (fun hm => hs (hskips.mpr hm))]
      rw [← hcalls] at hup
      exact ⟨hup.called.of_timer hs1 rfl, hup.ready.imp_left (.imp_left hexit), hup.result,
        hup.quiet⟩
    split
    · rename_i hbad
      have hbad' : syscallGetKey < n.toNat := hbad
      refine hcall syscallExit (by decide) (fun _ => ⟨_, hnum, .inr hbad⟩)
        (fun hno => absurd hno (by decide)) ?_ ?_
      · refine ⟨fun hs => absurd hs (by decide), fun hs => ?_⟩
        rcases hs with hs | hs | hs | hs <;> rw [hs] at hbad' <;> exact absurd hbad' (by decide)
      · rw [hsleep, askedSleep, askedSleep, if_neg (by decide), if_neg]
        rintro hs
        rw [hs] at hbad'
        exact absurd hbad' (by decide)
    · rename_i hgood
      exact hcall n.toNat (not_le.mp hgood) (fun hx => ⟨_, hnum, .inl hx⟩) id Iff.rfl hsleep.symm

/-! ## The whole step -/

lemma Called.sleepers_asleep (h : Called c t s s') :
    SameSleepers (Scheduler.asleep c t s) (afterRetire c s') := by
  rw [Scheduler.asleep, afterRetire]
  by_cases ht : t = 0
  · rw [if_pos ht, if_neg (h.awake ht)]
    exact h.sleepers
  · have hpcbs := h.asleep ht
    have hstate : (s'.pcbs c).state = .sleeping := by
      rw [hpcbs, setPcb_self]
    rw [if_neg ht, if_pos hstate]
    set s1 := setPcb c (fun r => { r with state := .sleeping, sleepTime := t }) s with hs1
    have hqueue : s'.sleepQueue = s1.sleepQueue := h.sleepers.1
    refine ⟨?_, fun q _ => ?_⟩
    · simp only [enqueueSleeper, hpcbs, hqueue]
    · simp only [enqueueSleeper, hpcbs, hqueue]

lemma Called.tickSpan (h : Called c t s s') : tickSpan count s' = tickSpan count s := by
  rw [Scheduler.tickSpan, Scheduler.tickSpan, h.delay, h.times.oneMs]

lemma sleepersAfter_quiet {e : Event σ} (hr : callsAt S k e = none) (h : SameSleepers k.sched s') :
    SleepersAfter S c k e s' := by
  rw [SleepersAfter, measured_eq, hr]
  exact h

lemma sleepersAfter_dispatch {e : Event σ} (hr : callsAt S k e = some count)
    (h : SameSleepers (afterTick (tickSpan count k.sched)
      (asleep c (sleepTime S k e) k.sched)) s') :
    SleepersAfter S c k e s' := by
  rw [SleepersAfter, measured_eq, hr]
  exact h

/-- What a step of the process `c` does, and the panics that it may end in. -/
theorem wp_step (hc : k.sched.currentPcb = some c) (h : SchedInv [c] k.sched)
    (hready : (k.sched.pcbs c).state = .ready) {e : Event σ} (hforks : ForksOutside S k e)
    (hE : ∀ x, x ∉ schedulerPanics → E x)
    (hnone : Exits S k e ∨ sleepTime S k e ≠ 0 → readyList k.sched = [] →
      E (.message "Dispatch: Nothing left to run!")) :
    wp (step S e) (fun _ k' => Steady k'.sched ∧ SleepersAfter S c k e k'.sched) E k := by
  rw [step_eq, wp_bind]
  refine wp_mono (wp_upToDispatch hc h hready hE hforks) fun r k1 hup => ?_
  rw [hup.result]
  have hcalled := hup.called
  cases hr : callsAt S k e with
  | none =>
    exact ⟨⟨c, hcalled.currentPcb, hcalled.inv, (hup.quiet hr).2⟩,
      sleepersAfter_quiet hr hcalled.sleepers⟩
  | some count =>
    refine wp_mono (wp_dispatch hcalled.currentPcb hcalled.inv hcalled.notRunning hE
      (fun hne hnil => hnone (hup.ready.resolve_right hne) (hcalled.stillReady hnil)) count) ?_
    intro _ k' hpicks
    obtain ⟨hsteady, hsleepers⟩ :=
      hpicks.dispatched hcalled.currentPcb hcalled.inv hcalled.notRunning
    rw [hcalled.tickSpan] at hsleepers
    refine ⟨hsteady, sleepersAfter_dispatch hr ?_⟩
    exact (hcalled.sleepers_asleep.afterTick
      (d := Scheduler.tickSpan count k.sched)).trans hsleepers

end Bikeshed.Scheduler
