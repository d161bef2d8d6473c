import Bikeshed.Scheduler.SchedulerTheorems

/-!
# Whether the timer is running when a process is

Every way through `dispatch` that returns starts the timer. A system call stops it, and four
of the seven do not come to `dispatch`.
-/

namespace Bikeshed.Scheduler

open Lib

variable {σ : Type} (S : Services σ)

/-- The states that steps allowed by `P` lead to. -/
inductive Run (P : Kernel σ → Event σ → Prop) (k0 : Kernel σ) : Kernel σ → Prop
  | start : Run P k0 k0
  | next {k k' : Kernel σ} {e : Event σ} : Run P k0 k → P k e → step S e k = .ok ((), k') →
      Run P k0 k'

/-- The number of the system call that the current process makes. -/
def syscallNum (k : Kernel σ) : Option ℕ :=
  match k.sched.currentPcb with
  | none => none
  | some pcb =>
    match S.r10 (k.sched.pcbs pcb).context k.world with
    | .ok (n, _) => some n.toNat
    | .error _ => none

/-- The event is an interrupt or a system call, which returns to a process. -/
def Event.Returns : Event σ → Prop
  | .user _ => False
  | _ => True

/-- The event is one of the system calls that return without a call of `dispatch`. -/
def SkipsDispatch (k : Kernel σ) : Event σ → Prop
  | .syscall _ => syscallNum S k = some syscallExec ∨ syscallNum S k = some syscallSetPrio ∨
      syscallNum S k = some syscallKeyAvail ∨ syscallNum S k = some syscallGetKey
  | _ => False

/-- The initial count has been written since the timer was last stopped or ran out, and it
was not zero. -/
def Armed (k : Kernel σ) : Prop :=
  k.sched.timer.counting = true ∧ k.sched.timer.initialCount ≠ 0

/-- In the runs made of steps allowed by `P`, the timer is armed on every return. -/
def PreemptionArmed (P : Kernel σ → Event σ → Prop) (k0 : Kernel σ) : Prop :=
  ∀ k e k', Run S P k0 k → P k e → step S e k = .ok ((), k') → e.Returns → Armed k'

/-! ## The times -/

/-- The quantum is at most ten milliseconds of `ms` counts. -/
def Within (ms : ℕ) (s : Sched) : Prop := s.quantumLeft ≤ 10 ∧ s.oneMs = ms

/-- The timer can count a whole quantum. -/
def Bounded (s : Sched) : Prop := s.quantumLeft ≤ 10 ∧ 10 * s.oneMs < 2 ^ 32

/-- The times are as they were. -/
structure SameTimes (s s' : Sched) : Prop where
  quantumLeft : s'.quantumLeft = s.quantumLeft
  oneMs : s'.oneMs = s.oneMs
  prevTicks : s'.prevTicks = s.prevTicks

lemma SameTimes.bounded {s s' : Sched} (h : SameTimes s s') (hb : Bounded s) : Bounded s' := by
  rw [Bounded, h.quantumLeft, h.oneMs]
  exact hb

lemma SameTimes.within {s s' : Sched} {ms : ℕ} (h : SameTimes s s') (hb : Within ms s) :
    Within ms s' := by
  rw [Within, h.quantumLeft, h.oneMs]
  exact hb

abbrev Anything : Panic → Prop := fun _ => True

variable {S} {k : Kernel σ} {s : Sched} {ms : ℕ}

lemma wp_schedule_times (p : ℕ) : wp (schedule p) (fun _ s' => SameTimes s s') Anything s := by
  by_cases hr : (s.pcbs p).state = .ready
  · exact wp_schedule_ready hr ⟨fun _ => trivial, fun _ => trivial⟩ fun _ _ => ⟨rfl, rfl, rfl⟩
  by_cases hs : (s.pcbs p).state = .sleeping
  · exact wp_schedule_sleeping hs (fun _ => trivial) fun _ => ⟨rfl, rfl, rfl⟩
  exact wp_schedule_other hr hs trivial

lemma wp_getNextSleep_times (d : ℕ) :
    wp (getNextSleep d) (fun _ s' => SameTimes s s') Anything s := by
  cases hq : s.sleepQueue with
  | nil => exact (wp_getNextSleep_nil hq).mpr ⟨rfl, rfl, rfl⟩
  | cons p rest =>
    rcases le_or_gt (s.pcbs p).sleepTime d with hd | hd
    · exact wp_getNextSleep_wake hq hd ⟨fun _ => trivial, fun _ => trivial⟩ fun _ _ =>
        ⟨rfl, rfl, rfl⟩
    · exact (wp_getNextSleep_tick hq hd).mpr ⟨rfl, rfl, rfl⟩

lemma wp_cleanupPcb_times (p : ℕ) :
    wp (cleanupPcb S p) (fun _ k' => SameTimes k.sched k'.sched) Anything k := by
  rw [cleanupPcb, wp_bind]
  refine wp_onWorld_of (fun _ w => ?_) fun _ => trivial
  rw [wp_bind, wp_readPcb, wp_bind]
  refine wp_onWorld_of (fun _ w => ?_) fun _ => trivial
  rw [wp_onSched, wp_modify]
  exact ⟨rfl, rfl, rfl⟩

lemma wp_retireCurrent_times (hb : Within ms k.sched) :
    wp (retireCurrent S) (fun _ k' => Within ms k'.sched) Anything k := by
  rw [retireCurrent, wp_bind]
  cases hc : k.sched.currentPcb with
  | none =>
    rw [wp_currentPcb_none hc]
    trivial
  | some p =>
    rw [wp_currentPcb_some hc, wp_bind, wp_readPcb, wp_ite]
    constructor
    · intro _
      rw [wp_bind]
      refine wp_mono (wp_cleanupPcb_times p) fun _ k1 h1 => ?_
      rw [wp_onSched, dropCurrent, wp_modify]
      exact ⟨le_rfl, (h1.within hb).2⟩
    · intro _
      rw [wp_bind, wp_getKernel, wp_ite]
      constructor
      · intro _
        rw [wp_onSched, wp_bind]
        refine wp_mono (wp_schedule_times p) fun _ s1 h1 => ?_
        rw [dropCurrent, wp_modify]
        exact ⟨le_rfl, (h1.within hb).2⟩
      · intro _
        exact hb

/-- What `prev_ticks` is set to is at most the quantum, and zero only if that is. -/
lemma wp_setPrevTicks_times (hb : Within ms s) (d : ℕ) :
    wp (setPrevTicks d) (fun _ s' => Within ms s' ∧ s'.prevTicks ≤ 10 ∧
      (s'.quantumLeft ≠ 0 → 0 < s'.prevTicks)) Anything s := by
  rw [setPrevTicks, wp_bind, wp_modify, wp_bind]
  refine wp_mono (wp_getNextSleep_times d) fun n s1 htimes => ?_
  have hb1 := htimes.within hb
  rw [wp_modify]
  split
  · rename_i h
    exact ⟨hb1, by have := hb1.1; show n ≤ 10; omega, fun _ => h.1⟩
  · rw [htimes.quantumLeft, htimes.prevTicks]
    exact ⟨hb1, hb.1, Nat.pos_of_ne_zero⟩

/-! ## The steps -/

lemma wp_armTimer (hb : Within ms s) (hprev : s.prevTicks ≤ 10) (hpos : 0 < s.prevTicks)
    (hms : 0 < ms) (hfits : 10 * ms < 2 ^ 32) :
    wp armTimer (fun _ s' => Within ms s' ∧ s'.timer.counting = true ∧
      s'.timer.initialCount ≠ 0) Anything s := by
  have hle : s.prevTicks * s.oneMs ≤ 10 * ms := by
    rw [hb.2]
    exact Nat.mul_le_mul_right ms hprev
  have hne : s.prevTicks * s.oneMs % 2 ^ 32 ≠ 0 := by
    rw [Nat.mod_eq_of_lt (by omega), hb.2]
    exact Nat.mul_ne_zero (by omega) (by omega)
  rw [armTimer, wp_bind, wp_getSched, wp_bind, timerSetDelay, wp_modify, timerStart, wp_modify]
  exact ⟨hb, decide_eq_true hne, hne⟩

/-- Every way through `dispatch` that returns arms the timer. -/
theorem wp_dispatch_within (hfits : 10 * ms < 2 ^ 32) (hb : Within ms k.sched) (count : ℕ) :
    wp (dispatch S count) (fun _ k' => Within ms k'.sched ∧ Armed k') Anything k := by
  rw [dispatch, wp_bind, wp_onSched, timerGetElapsed, wp_bind, wp_getSched, wp_bind, wp_assert]
  refine ⟨fun _ => ?_, fun _ => trivial⟩
  rw [wp_pure, wp_bind, wp_getKernel, wp_ite]
  refine ⟨fun _ => trivial, fun hms => ?_⟩
  have hpos : 0 < ms := by
    rw [← hb.2]
    exact Nat.pos_of_ne_zero hms
  rw [wp_bind, wp_onSched, chargeQuantum, wp_modify, wp_bind]
  refine wp_mono (wp_retireCurrent_times ⟨?_, hb.2⟩) fun _ k1 hb1 => ?_
  · show (if _ then 0 else _) ≤ 10
    split
    · exact Nat.zero_le _
    · exact (Nat.sub_le _ _).trans hb.1
  rw [wp_bind, wp_onSched]
  refine wp_mono (wp_setPrevTicks_times hb1 _) ?_
  rintro - s2 ⟨hb2, hle2, hpos2⟩
  rw [wp_bind, wp_getKernel, wp_ite]
  constructor
  · intro _
    rw [wp_onSched, wp_bind, wp_assert]
    refine ⟨fun hq => ?_, fun _ => trivial⟩
    exact wp_armTimer hb2 hle2 (hpos2 (of_decide_eq_true hq)) hpos hfits
  · intro _
    rw [wp_bind, wp_onSched, wp_assert]
    refine ⟨fun hprev => ?_, fun _ => trivial⟩
    rw [wp_bind, wp_onSched]
    refine wp_mono (wp_scanQueues ⟨trivial, trivial⟩ numQueues 0 s2) fun next s3 h3 => ?_
    rw [wp_bind, wp_onSched, wp_modify, wp_bind, wp_readPcb, wp_bind]
    refine wp_onWorld_of (fun _ w => ?_) fun _ => trivial
    rw [wp_onSched]
    refine wp_armTimer ⟨?_, ?_⟩ ?_ ?_ hpos hfits
    · rw [h3.quantumLeft]
      exact hb2.1
    · rw [h3.oneMs]
      exact hb2.2
    · rw [h3.prevTicks]
      exact hle2
    · rw [h3.prevTicks]
      exact of_decide_eq_true hprev

theorem wp_dispatch_armed (hb : Bounded k.sched) (count : ℕ) :
    wp (dispatch S count) (fun _ k' => Bounded k'.sched ∧ Armed k') Anything k := by
  refine wp_mono (wp_dispatch_within hb.2 ⟨hb.1, rfl⟩ count) ?_
  rintro - k' ⟨⟨hq, hms⟩, harmed⟩
  exact ⟨⟨hq, hms ▸ hb.2⟩, harmed⟩

/-- Times that a `Pid` has been stored over are small. -/
lemma Bounded.store {pid : ℕ} (hb : Bounded s) (hpid : pid ≤ 1) (place : Place) :
    Bounded (place.store pid s) := by
  cases place with
  | quantumLeft => exact ⟨hpid.trans (by decide), hb.2⟩
  | oneMs => exact ⟨hb.1, (Nat.mul_le_mul_left 10 hpid).trans_lt (by decide)⟩
  | _ => exact hb

lemma wp_storePid_bounded {address : Word} {pid : ℕ} (hb : Bounded k.sched) (hpid : pid ≤ 1) :
    wp (storePid S address pid) (fun _ k' => Bounded k'.sched) Anything k :=
  wp_storePid (fun _ => hb) (fun place => hb.store hpid place) fun _ => trivial

/-- The system calls that return without a call of `dispatch`. -/
def Skips (n : ℕ) : Prop :=
  n = syscallExec ∨ n = syscallSetPrio ∨ n = syscallKeyAvail ∨ n = syscallGetKey

instance (n : ℕ) : Decidable (Skips n) := inferInstanceAs (Decidable (_ ∨ _))

/-- What a system call leaves: the timer is armed unless `dispatch` was not called. -/
def ArmedUnless (n : ℕ) (k : Kernel σ) : Prop :=
  Bounded k.sched ∧ (Armed k ↔ ¬ Skips n)

lemma armedUnless_of_dispatch {n : ℕ} (hn : ¬ Skips n) (h : Bounded k.sched ∧ Armed k) :
    ArmedUnless n k := ⟨h.1, fun _ => hn, fun _ => h.2⟩

lemma armedUnless_of_skips {n : ℕ} (hn : Skips n) (hb : Bounded k.sched)
    (hstop : k.sched.timer.counting = false) : ArmedUnless n k := by
  refine ⟨hb, fun h => ?_, fun h => absurd hn h⟩
  rw [Armed, hstop] at h
  exact absurd h.1 Bool.false_ne_true

lemma wp_fork_armed (hb : Bounded k.sched) (count p : ℕ) :
    wp (fork S count p) (fun _ k' => Bounded k'.sched ∧ Armed k') Anything k := by
  rw [fork, wp_bind, wp_onSched, allocPcb, wp_bind, wp_getSched]
  split
  · trivial
  · rename_i newPcb rest hfree
    rw [wp_bind, wp_modify, wp_bind, wp_modify, wp_pure, wp_bind, wp_onSched, wp_modify, wp_bind,
      wp_readPcb, wp_bind]
    refine wp_onWorld_of (fun t w => ?_) fun _ => trivial
    rw [wp_bind, wp_onSched, wp_modify, wp_bind]
    refine wp_mono (wp_storePid_bounded hb (Nat.zero_le 1)) fun _ k1 h1 => ?_
    rw [wp_bind]
    refine wp_onWorld_of (fun paramPid w => ?_) fun _ => trivial
    rw [wp_bind]
    refine wp_mono (wp_storePid_bounded h1 le_rfl) fun _ k2 h2 => ?_
    rw [wp_bind, wp_onSched]
    refine wp_mono (wp_schedule_times newPcb) fun _ s3 h3 => ?_
    exact wp_dispatch_armed ((h3.bounded h2)) count

lemma wp_exit_armed (hb : Bounded k.sched) (count p : ℕ) :
    wp (exit S count p) (fun _ k' => Bounded k'.sched ∧ Armed k') Anything k := by
  rw [exit, wp_bind]
  refine wp_mono (wp_cleanupPcb_times p) fun _ k1 h1 => ?_
  exact wp_dispatch_armed ((h1.bounded hb)) count

lemma wp_msleep_armed (hb : Bounded k.sched) (count p : ℕ) :
    wp (msleep S count p) (fun _ k' => Bounded k'.sched ∧ Armed k') Anything k := by
  rw [msleep, wp_bind, wp_readPcb, wp_bind]
  refine wp_onWorld_of (fun t w => ?_) fun _ => trivial
  rw [sleepPcb, wp_ite]
  constructor
  · intro _
    rw [wp_bind, wp_onSched, wp_modify]
    refine wp_dispatch_armed ?_ count
    exact hb
  · intro _
    refine wp_dispatch_armed ?_ count
    exact hb

theorem wp_syscallFunctions_armed (hb : Bounded k.sched)
    (hstop : k.sched.timer.counting = false) (count p : ℕ) : ∀ n < numSyscalls,
    wp (syscallFunctions S count n p) (fun _ k' => ArmedUnless n k') Anything k
  | 0, _ => wp_mono (wp_fork_armed hb count p) fun _ _ h =>
      armedUnless_of_dispatch (by decide) h
  | 1, _ => armedUnless_of_skips (.inl rfl) hb hstop
  | 2, _ => wp_mono (wp_exit_armed hb count p) fun _ _ h =>
      armedUnless_of_dispatch (by decide) h
  | 3, _ => wp_mono (wp_msleep_armed hb count p) fun _ _ h =>
      armedUnless_of_dispatch (by decide) h
  | 4, _ => by
    rw [syscallFunctions, setPriority, wp_bind, wp_readPcb, wp_bind]
    refine wp_onWorld_of (fun t w => ?_) fun _ => trivial
    rw [wp_onSched, wp_bind, wp_assert]
    refine ⟨fun _ => ?_, fun _ => trivial⟩
    exact armedUnless_of_skips (.inr (.inl rfl)) hb hstop
  | 5, _ => by
    rw [syscallFunctions, keyAvail, wp_bind, wp_readPcb]
    exact wp_onWorld_of (fun _ w => armedUnless_of_skips (.inr (.inr (.inl rfl))) hb hstop)
      fun _ => trivial
  | 6, _ => by
    show wp (getKey S p) _ _ k
    rw [getKey, wp_bind, wp_readPcb]
    exact wp_onWorld_of (fun _ w => armedUnless_of_skips (.inr (.inr (.inr rfl))) hb hstop)
      fun _ => trivial
  | n + 7, hn => absurd hn (by rw [numSyscalls]; omega)

/-- A step that returns arms the timer unless it is one of the four system calls. -/
theorem step_armed {e : Event σ} {k' : Kernel σ}
    (hb : Bounded k.sched) (hstep : step S e k = .ok ((), k')) :
    Bounded k'.sched ∧ (e.Returns → (Armed k' ↔ ¬ SkipsDispatch S k e)) := by
  cases e with
  | user f =>
    cases hstep
    exact ⟨hb, fun h => h.elim⟩
  | timer count =>
    have h : wp (timerHandler S count) (fun _ k' => Bounded k'.sched ∧ Armed k') Anything k := by
      rw [timerHandler, wp_bind, wp_onSched, wp_modify]
      refine wp_dispatch_armed ?_ count
      exact hb
    obtain ⟨h1, h2⟩ := h.ok hstep
    exact ⟨h1, fun _ => ⟨fun _ h => h, fun _ => h2⟩⟩
  | syscall count =>
    have h : wp (syscallInterrupt S count) (fun _ k' => Bounded k'.sched ∧
        (Armed k' ↔ ¬ SkipsDispatch S k (.syscall count))) Anything k := by
      rw [syscallInterrupt, wp_bind, wp_onSched, timerStop, wp_modify, wp_bind, wp_getKernel]
      cases hc : k.sched.currentPcb with
      | none =>
        simp only
        trivial
      | some p =>
        simp only
        rw [wp_bind, wp_readPcb, wp_bind, wp_onWorld, wp_iff]
        refine ⟨fun n w hn => ?_, fun _ _ => trivial⟩
        have hnum : syscallNum S k = some n.toNat := by
          rw [syscallNum, hc]
          show (match S.r10 (k.sched.pcbs p).context k.world with
            | .ok (n, _) => some n.toNat
            | .error _ => none) = _
          have hn' : S.r10 (k.sched.pcbs p).context k.world = .ok (n, w) := hn
          rw [hn']
        have hskips : SkipsDispatch S k (.syscall count) ↔ Skips n.toNat := by
          rw [SkipsDispatch, hnum, Skips]
          simp only [Option.some.injEq]
        rw [hskips, wp_ite]
        constructor
        · intro hbad
          refine wp_mono (wp_syscallFunctions_armed ?_ rfl count p syscallExit
            (by decide)) fun _ k1 h1 => ?_
          · exact hb
          -- a number that is not a system call does not skip `dispatch` either
          have hno : ¬ Skips n.toNat := by
            rintro (h | h | h | h) <;> rw [h] at hbad <;> exact absurd hbad (by decide)
          exact ⟨h1.1, fun _ => hno, fun _ => h1.2.mpr (by decide)⟩
        · intro hgood
          refine wp_syscallFunctions_armed ?_ rfl count p n.toNat (not_le.mp hgood)
          exact hb
    obtain ⟨h1, h2⟩ := h.ok hstep
    exact ⟨h1, fun _ => h2⟩

/-! ## Runs -/

lemma timerOneMs_fits {tscPerSec : ℕ} (h : tscPerSec < 2 ^ 32) :
    10 * timerOneMs tscPerSec < 2 ^ 32 := by
  rw [timerOneMs, Nat.div_div_eq_div_mul]
  have := Nat.div_le_self tscPerSec (1000 * 128)
  omega

lemma AfterInit.bounded (h : AfterInit S k) : Bounded k.sched := by
  obtain ⟨blocks, pcbs, tsc, w, -, -, htsc, hrun⟩ := h
  have hinit : wp (createInitProcess S tsc) (fun _ k => Bounded k.sched) Anything
      ⟨schedulerInit blocks pcbs, w⟩ := by
    rw [createInitProcess, wp_bind, wp_onSched, allocPcb, wp_bind, wp_getSched]
    split
    · trivial
    · rw [wp_bind, wp_modify, wp_bind, wp_modify, wp_pure, wp_bind, wp_onSched, wp_modify, wp_bind]
      refine wp_onWorld_of (fun t w => ?_) fun _ => trivial
      rw [wp_onSched, wp_bind, wp_modify, wp_bind, wp_modify, armTimer, wp_bind, wp_getSched,
        wp_bind, timerSetDelay, wp_modify, timerStart, wp_modify]
      exact ⟨le_rfl, timerOneMs_fits htsc⟩
  exact hinit.ok hrun

lemma Run.bounded {P : Kernel σ → Event σ → Prop} {k0 : Kernel σ} (h0 : Bounded k0.sched)
    (hr : Run S P k0 k) : Bounded k.sched := by
  induction hr with
  | start => exact h0
  | next _ _ hstep ih => exact (step_armed ih hstep).1

/-- In the runs made of any kind of steps the timer is armed on every return, exactly if no
step that is taken is a system call that skips `dispatch`. -/
theorem preemptionArmed_iff {P : Kernel σ → Event σ → Prop} {k0 : Kernel σ}
    (h0 : AfterInit S k0) : PreemptionArmed S P k0 ↔
      ∀ k e k', Run S P k0 k → P k e → step S e k = .ok ((), k') → ¬ SkipsDispatch S k e := by
  have hb0 := h0.bounded
  constructor
  · intro h k e k' hr hP hstep hskip
    have hret : e.Returns := by
      cases e with
      | user f => exact hskip.elim
      | timer count => trivial
      | syscall count => trivial
    exact ((step_armed (hr.bounded hb0) hstep).2 hret).mp
      (h k e k' hr hP hstep hret) hskip
  · intro h k e k' hr hP hstep hret
    exact ((step_armed (hr.bounded hb0) hstep).2 hret).mpr (h k e k' hr hP hstep)

/-! ## A process that calls `exec` -/

/-- What is at an offset in the PCB with this number. -/
def pcbPlace (pcb : ℕ) : ℕ → Place
  | 16 => .sleepTime pcb
  | 20 => .pid pcb
  | 24 => .ppid pcb
  | 28 => .state pcb
  | 32 => .priority pcb
  | _ => .other fun _ => id

/-- The last 2MiB of the space of `kernel_WaterMark`, by offset: `scheduler_init` has cut the 1024
PCBs out of its end and the nodes out of what is in front of them. `ba_qnodes->max_address` with
its low half overwritten is below all nodes. -/
def watermarkPlace (offset : ℕ) : Option Place :=
  if 0x1F6000 ≤ offset then
    some (pcbPlace ((offset - 0x1F6000) / 40 + 1) ((offset - 0x1F6000) % 40))
  else if offset = 0x1EDFC8 then some (.other fun _ s => { s with baQnodes := 0 })
  else if 0x1EDFC0 < offset + 4 then some (.other fun _ => id)
  else none

/-- The frame of the 2MiB page at `0xFFFFFFFFFFC00000` -/
def watermarkFrame : Word := 0x8000000

/-- The address of `quantum_left`; the linker chooses it. -/
def quantumLeftAddress : Word := 0xFFFF800000210004

/-- The page is at two addresses. -/
def schedulerPlace (address : Word) : Option Place :=
  if address = quantumLeftAddress then some .quantumLeft
  else if address >>> 21 = 0x7FFFFFFFFFE ∨ address >>> 21 = physToVirt watermarkFrame >>> 21 then
    watermarkPlace (address &&& 0x1FFFFF).toNat
  else none

/-- The frame that `virt_lookup_phys` finds. The kernel's pages are those of 2MiB. -/
def lookupFrame (address : Word) : Word :=
  if address >>> 21 = 0x7FFFFFFFFFE then watermarkFrame
  else if address >>> 47 = 0x1FFFF then mask2MIB (virtToPhys address)
  else 0x9000000

/-- The registers `r10` and `rdi` of the current process, in a system where all calls return. -/
def registers : Services (Word × Word) where
  kernelTable := 0x1000
  switchPageTable _ := pure ()
  cleanupTable _ := pure ()
  loadInit := pure (0x2000, 0x7FFFFFFFF000)
  cloneMapping _ := pure 0x3000
  lookupPhys _ address := pure (some (lookupFrame address + (address &&& 0xFFF)))
  r10 _ := fun w => .ok (w.1, w)
  rdi _ := fun w => .ok (w.2, w)
  setRax _ _ := pure ()
  keyAvail _ := pure ()
  getKey _ := pure ()
  place := schedulerPlace
  store _ _ := pure ()

def blankPcb : PCB := ⟨0, 0, 0, 0, 0, .ready, 0⟩

/-- The first process, of a PCB with these contents, about to make the system call `r10` with
the argument `rdi`; the timer counts 1,280,000 a second. -/
def atInit (pcbs : ℕ → PCB) (r10 rdi : Word) : Kernel (Word × Word) where
  sched :=
    { schedulerInit (List.range' 2 1023) pcbs with
      currentPcb := some 1
      oneMs := 10
      prevTicks := 10
      quantumLeft := 10
      timer := ⟨100, 100, true⟩ }
  world := (r10, rdi)

def firstPcb : ℕ → PCB := Function.update (fun _ => blankPcb) 1
  { blankPcb with pageTable := 0x2000, context := 0x7FFFFFFFF000, priority := normal }

lemma afterInit_atInit (r10 rdi : Word) : AfterInit registers (atInit firstPcb r10 rdi) := by
  refine ⟨List.range' 1 1024, fun _ => blankPcb, 1280000, (r10, rdi), List.nodup_range', ?_, ?_, ?_⟩
  · rw [List.length_range']
    rfl
  · norm_num
  · have hset : firstPcb = Function.update (Function.update (fun _ => blankPcb) 1
        { blankPcb with priority := normal }) 1
        { blankPcb with pageTable := 0x2000, context := 0x7FFFFFFFF000, priority := normal } :=
      (Function.update_idem _ _ _).symm
    rw [hset]
    rfl

/-- `exec` returns to the process with the timer stopped. -/
theorem not_preemptionArmed :
    ∃ k0 : Kernel (Word × Word), AfterInit registers k0 ∧
      ¬ PreemptionArmed registers (fun _ _ => True) k0 := by
  refine ⟨atInit firstPcb 1 0, afterInit_atInit 1 0, fun h => ?_⟩
  have harmed := h _ (.syscall 0) _ .start trivial rfl trivial
  exact absurd harmed.1 (by decide)

/-- In a run of timer interrupts only it is armed on every return. -/
theorem preemptionArmed_timers :
    PreemptionArmed registers (fun _ e => ∃ n, e = .timer n) (atInit firstPcb 1 0) := by
  refine (preemptionArmed_iff (afterInit_atInit 1 0)).mpr ?_
  rintro k e k' - ⟨n, rfl⟩ - hskip
  exact hskip

end Bikeshed.Scheduler
