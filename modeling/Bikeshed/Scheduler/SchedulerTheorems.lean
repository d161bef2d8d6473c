import Bikeshed.Scheduler.Syscalls

/-!
# What the functions of the scheduler do

One rule for each: where it asserts or panics, and the state it leaves otherwise.
-/

namespace Bikeshed.Scheduler

open Lib

variable {σ β : Type} {E : Panic → Prop}

/-! ## Rules -/

section Rules

variable {Q : β → Kernel σ → Prop} {k : Kernel σ}

/-- What works on the scheduler leaves the world alone. -/
lemma wp_onSched {c : SchedM β} : wp (onSched c) Q E k
    ↔ wp c (fun b s => Q b { k with sched := s }) E k.sched := by
  rw [wp, wp, onSched]
  cases c k.sched <;> rfl

/-- What works on the world leaves the scheduler alone. -/
lemma wp_onWorld {c : Prog σ String β} : wp (onWorld c) Q E k
    ↔ wp c (fun b w => Q b { k with world := w }) (fun e => E (.outside e)) k.world := by
  rw [wp, wp, onWorld]
  cases c k.world <;> rfl

/-- Nothing is known of what is called outside but that the scheduler's state is kept. -/
lemma wp_onWorld_of {c : Prog σ String β} (h : ∀ b w, Q b { k with world := w })
    (hE : ∀ e, E (.outside e)) : wp (onWorld c) Q E k := by
  rw [wp_onWorld, wp_iff]
  exact ⟨fun b w _ => h b w, fun e _ => hE e⟩

/-- The same with what is known of it -/
lemma wp_onWorld_mono {c : Prog σ String β} {P : β → σ → Prop} (h : wp c P (fun _ => True) k.world)
    (hQ : ∀ b w, P b w → Q b { k with world := w }) (hE : ∀ e, E (.outside e)) :
    wp (onWorld c) Q E k := by
  rw [wp_onWorld, wp_iff]
  exact ⟨fun b w hrun => hQ b w (h.ok hrun), fun e _ => hE e⟩

variable {S : Services σ} {address : Word} {pid : ℕ} {R : Unit → Kernel σ → Prop}

/-- A store outside the scheduler's memory -/
lemma wp_storePid_outside (h : S.place address = none) :
    wp (storePid S address pid) R E k ↔ wp (onWorld (S.store address pid)) R E k := by
  rw [storePid, h]

lemma wp_storePid (hout : ∀ w, R () { k with world := w })
    (hin : ∀ place : Place, R () { k with sched := place.store pid k.sched })
    (hE : ∀ e, E (.outside e)) : wp (storePid S address pid) R E k := by
  rw [storePid]
  cases S.place address with
  | none => exact wp_onWorld_of (fun _ w => hout w) hE
  | some place =>
    dsimp only
    rw [wp_onSched, wp_modify]
    exact hin place

lemma wp_readPcb {pcb : ℕ} {Q : PCB → Kernel σ → Prop} :
    wp (readPcb pcb) Q E k ↔ Q (k.sched.pcbs pcb) k := Iff.rfl

lemma wp_getKernel {Q : Kernel σ → Kernel σ → Prop} :
    wp (get : KernelM σ (Kernel σ)) Q E k ↔ Q k k := Iff.rfl

lemma wp_currentPcb_some {pcb : ℕ} {Q : ℕ → Kernel σ → Prop} (h : k.sched.currentPcb = some pcb) :
    wp currentPcb Q E k ↔ Q pcb k := by
  rw [currentPcb, wp_bind, wp_getKernel, h]
  exact Iff.rfl

/-- With no process `current_pcb` is NULL, and reading through it faults. -/
lemma wp_currentPcb_none {Q : ℕ → Kernel σ → Prop} (h : k.sched.currentPcb = none) :
    wp currentPcb Q E k ↔ E (.outside "Page Fault") := by
  rw [currentPcb, wp_bind, wp_getKernel, h]
  exact Iff.rfl

/-- A failed ASSERT is a panic with the text of its condition. -/
lemma wp_assert {condition : String} {b : Bool} {Q : Unit → Sched → Prop} {s : Sched} :
    wp (assert condition b) Q E s
      ↔ (b = true → Q () s) ∧ (b = false → E (.assertion condition)) := by
  rw [assert]
  cases b <;> simp

lemma wp_getSched {Q : Sched → Sched → Prop} {s : Sched} :
    wp (get : SchedM Sched) Q E s ↔ Q s s := Iff.rfl

end Rules

/-! ## The PCBs and the queues -/

variable {s : Sched} {p : ℕ}

@[simp] lemma setPcb_self (f : PCB → PCB) : (setPcb p f s).pcbs p = f (s.pcbs p) :=
  Function.update_self _ _ _

lemma setPcb_of_ne {q : ℕ} (f : PCB → PCB) (h : q ≠ p) : (setPcb p f s).pcbs q = s.pcbs q :=
  Function.update_of_ne h _ _

/-- Two changes of one PCB -/
lemma setPcb_setPcb (f g : PCB → PCB) (s : Sched) :
    setPcb p f (setPcb p g s) = setPcb p (fun r => f (g r)) s := by
  have hpcbs : Function.update (Function.update s.pcbs p (g (s.pcbs p))) p
      (f (Function.update s.pcbs p (g (s.pcbs p)) p))
        = Function.update s.pcbs p (f (g (s.pcbs p))) := by
    rw [Function.update_self, Function.update_idem]
  exact congrArg (fun pcbs => { s with pcbs := pcbs }) hpcbs

/-- `new` has been taken from the pool. -/
def allocated (new : ℕ) (free : List ℕ) (s : Sched) : Sched :=
  setPcb new (fun r => { r with state := .ready, priority := normal }) { s with baPcbs := free }

/-- `alloc_pcb` panics only when all PCBs are in use. -/
lemma wp_allocPcb {Q : ℕ → Sched → Prop}
    (hnil : s.baPcbs = [] → E (.message "Failed to allocate first PCB"))
    (hQ : ∀ new free, s.baPcbs = new :: free → Q new (allocated new free s)) :
    wp allocPcb Q E s := by
  rw [allocPcb, wp_bind, wp_getSched]
  cases hfree : s.baPcbs with
  | nil => exact hnil hfree
  | cons new free => exact hQ new free hfree

/-- What `schedule` does with a ready process -/
def enqueueReady (pcb : ℕ) (s : Sched) : Sched :=
  setQueue (s.pcbs pcb).priority (queueEnqueue (s.queues (s.pcbs pcb).priority) pcb)
    { s with baQnodes := s.baQnodes - 1 }

/-- What `schedule` does with a sleeping process -/
def enqueueSleeper (pcb : ℕ) (s : Sched) : Sched :=
  { s with
    baQnodes := s.baQnodes - 1
    sleepQueue := (queueEnqueuePrio sleepInsert s.sleepQueue pcb s.pcbs).1
    pcbs := (queueEnqueuePrio sleepInsert s.sleepQueue pcb s.pcbs).2 }

/-- Where `schedule` may stop. -/
def ScheduleStops (E : Panic → Prop) (pcb : ℕ) (s : Sched) : Prop :=
  (s.baQnodes = 0 → E (.assertion "node != NULL")) ∧
    (¬ (s.pcbs pcb).priority < numQueues → E (.assertion "pcb->priority < NUM_QUEUES"))

/-- A queue node is taken, or there is none. -/
lemma wp_allocNode {Q : Unit → Sched → Prop} (hE : s.baQnodes = 0 → E (.assertion "node != NULL"))
    (hQ : s.baQnodes ≠ 0 → Q () { s with baQnodes := s.baQnodes - 1 }) :
    wp allocNode Q E s := by
  rw [allocNode, wp_bind, wp_getSched, wp_bind, wp_assert]
  constructor
  · intro h
    exact hQ (of_decide_eq_true h)
  · intro h
    exact hE (not_not.mp (of_decide_eq_false h))

/-- A ready process -/
lemma wp_schedule_ready {Q : Unit → Sched → Prop} (h : (s.pcbs p).state = .ready)
    (hE : ScheduleStops E p s)
    (hQ : s.baQnodes ≠ 0 → (s.pcbs p).priority < numQueues → Q () (enqueueReady p s)) :
    wp (schedule p) Q E s := by
  rw [schedule, wp_bind, wp_getSched]
  simp only [h]
  rw [wp_bind]
  refine wp_allocNode hE.1 fun hn => ?_
  rw [wp_bind, wp_assert]
  constructor
  · intro hp
    exact hQ hn (of_decide_eq_true hp)
  · intro hp
    exact hE.2 (of_decide_eq_false hp)

/-- A sleeping process -/
lemma wp_schedule_sleeping {Q : Unit → Sched → Prop} (h : (s.pcbs p).state = .sleeping)
    (hE : s.baQnodes = 0 → E (.assertion "node != NULL"))
    (hQ : s.baQnodes ≠ 0 → Q () (enqueueSleeper p s)) : wp (schedule p) Q E s := by
  rw [schedule, wp_bind, wp_getSched]
  simp only [h]
  rw [wp_bind]
  exact wp_allocNode hE hQ

/-- A process in any other state -/
lemma wp_schedule_other {Q : Unit → Sched → Prop} (h : (s.pcbs p).state ≠ .ready)
    (h' : (s.pcbs p).state ≠ .sleeping)
    (hE : E (.message "Scheduler: Unhandled PCB state")) : wp (schedule p) Q E s := by
  rw [schedule, wp_bind, wp_getSched]
  cases hs : (s.pcbs p).state with
  | ready => exact absurd hs h
  | sleeping => exact absurd hs h'
  | running => exact hE
  | killed => exact hE

/-! ## Waking up -/

/-- The head of the sleep queue has been put on its ready queue. -/
def wakeHead (pcb : ℕ) (s : Sched) : Sched :=
  { enqueueReady pcb (setPcb pcb (fun r => { r with state := .ready, sleepTime := 0 }) s) with
    sleepQueue := s.sleepQueue.tail
    baQnodes := s.baQnodes }

/-- The head of the sleep queue has `tickSpan` less to sleep. -/
def tickHead (tickSpan pcb : ℕ) (s : Sched) : Sched :=
  setPcb pcb (fun r => { r with sleepTime := r.sleepTime - tickSpan }) s

/-- `sleep_time` of the head of the sleep queue, or 0 -/
def headSleep (s : Sched) : ℕ :=
  match s.sleepQueue with
  | [] => 0
  | pcb :: _ => (s.pcbs pcb).sleepTime

/-- Nobody sleeps. -/
lemma wp_getNextSleep_nil {d : ℕ} {Q : ℕ → Sched → Prop} (h : s.sleepQueue = []) :
    wp (getNextSleep d) Q E s ↔ Q 0 s := by
  rw [getNextSleep, wp_bind, wp_getSched]
  simp only [h]
  rfl

/-- The first sleeper has slept long enough. -/
lemma wp_getNextSleep_wake {d : ℕ} {rest : List ℕ} {Q : ℕ → Sched → Prop}
    (h : s.sleepQueue = p :: rest) (hd : (s.pcbs p).sleepTime ≤ d) (hE : ScheduleStops E p s)
    (hQ : s.baQnodes ≠ 0 → (s.pcbs p).priority < numQueues →
      Q (headSleep (wakeHead p s)) (wakeHead p s)) : wp (getNextSleep d) Q E s := by
  set s1 := setPcb p (fun r => { r with state := .ready, sleepTime := 0 }) s with hs1
  have hpcb : s1.pcbs p = { s.pcbs p with state := .ready, sleepTime := 0 } := setPcb_self _
  rw [getNextSleep, wp_bind, wp_getSched]
  simp only [h]
  rw [if_pos hd, wp_bind, wp_modify, ← hs1, wp_bind]
  refine wp_schedule_ready (by rw [hpcb]) ⟨hE.1, ?_⟩ fun hn hp => ?_
  · rw [hpcb]
    exact hE.2
  · rw [hpcb] at hp
    have hnodes : s.baQnodes - 1 + 1 = s.baQnodes := Nat.sub_add_cancel (Nat.pos_of_ne_zero hn)
    have hend : { enqueueReady p s1 with
        sleepQueue := (enqueueReady p s1).sleepQueue.tail
        baQnodes := (enqueueReady p s1).baQnodes + 1 } = wakeHead p s := by
      show { enqueueReady p s1 with
        sleepQueue := s.sleepQueue.tail
        baQnodes := s.baQnodes - 1 + 1 } = _
      rw [hnodes]
      rfl
    rw [wp_bind, wp_modify, wp_bind, freeNode, wp_modify, wp_bind, wp_getSched, hend]
    have hwoken := hQ hn hp
    rw [headSleep] at hwoken
    revert hwoken
    cases (wakeHead p s).sleepQueue with
    | nil => exact fun hwoken => hwoken
    | cons next _ => exact fun hwoken => hwoken

/-- The first sleeper goes on sleeping. -/
lemma wp_getNextSleep_tick {d : ℕ} {rest : List ℕ} {Q : ℕ → Sched → Prop}
    (h : s.sleepQueue = p :: rest) (hd : d < (s.pcbs p).sleepTime) :
    wp (getNextSleep d) Q E s ↔ Q ((s.pcbs p).sleepTime - d) (tickHead d p s) := by
  rw [getNextSleep, wp_bind, wp_getSched]
  simp only [h]
  have hleft : ((tickHead d p s).pcbs p).sleepTime = (s.pcbs p).sleepTime - d := by
    rw [tickHead, setPcb_self]
  rw [if_neg (by omega), wp_bind, wp_modify, wp_bind, wp_getSched, wp_pure, ← hleft]
  rfl

/-! ## Picking the next process -/

/-- Everything but the ready queues and the two pools is as it was. -/
structure OnlyQueues (s s' : Sched) : Prop where
  pcbs : s'.pcbs = s.pcbs
  sleepQueue : s'.sleepQueue = s.sleepQueue
  currentPcb : s'.currentPcb = s.currentPcb
  prevTicks : s'.prevTicks = s.prevTicks
  quantumLeft : s'.quantumLeft = s.quantumLeft
  oneMs : s'.oneMs = s.oneMs
  timer : s'.timer = s.timer

namespace OnlyQueues

variable {s1 s2 s3 : Sched}

lemma refl (s : Sched) : OnlyQueues s s := ⟨rfl, rfl, rfl, rfl, rfl, rfl, rfl⟩

lemma trans (h : OnlyQueues s1 s2) (h' : OnlyQueues s2 s3) : OnlyQueues s1 s3 :=
  ⟨h'.pcbs.trans h.pcbs, h'.sleepQueue.trans h.sleepQueue, h'.currentPcb.trans h.currentPcb,
    h'.prevTicks.trans h.prevTicks, h'.quantumLeft.trans h.quantumLeft, h'.oneMs.trans h.oneMs,
    h'.timer.trans h.timer⟩

end OnlyQueues

/-- Where the search for the next process may stop. -/
def ScanStops (E : Panic → Prop) : Prop :=
  E (.message "Scheduler: Unhandled case!") ∧ E (.message "Dispatch: Nothing left to run!")

/-- Looking through one queue changes nothing but the queues. -/
lemma wp_scanQueue (hE : ScanStops E) (i : ℕ) : ∀ (q : List ℕ) (s : Sched),
    wp (scanQueue i q) (fun _ s' => OnlyQueues s s') E s
  | [], s => OnlyQueues.refl s
  | next :: rest, s => by
    rw [scanQueue, wp_bind, wp_modify, wp_bind, freeNode, wp_modify, wp_bind, wp_getSched]
    split
    · rw [wp_bind, freePcb, wp_modify]
      refine wp_mono (wp_scanQueue hE i rest _) fun _ s' h => ?_
      exact ⟨h.pcbs, h.sleepQueue, h.currentPcb, h.prevTicks, h.quantumLeft, h.oneMs, h.timer⟩
    · rw [wp_pure]
      exact ⟨rfl, rfl, rfl, rfl, rfl, rfl, rfl⟩
    · exact hE.1

/-- Looking through the queues from the `i`-th on -/
lemma wp_scanQueues (hE : ScanStops E) : ∀ (n i : ℕ) (s : Sched),
    wp (scanQueues i n) (fun _ s' => OnlyQueues s s') E s
  | 0, _, _ => hE.2
  | n + 1, i, s => by
    rw [scanQueues, wp_bind, wp_getSched, wp_bind]
    refine wp_mono (wp_scanQueue hE i (s.queues i) s) fun found s1 h1 => ?_
    cases found with
    | some next => exact h1
    | none => exact wp_mono (wp_scanQueues hE n (i + 1) s1) fun _ s2 h2 => h1.trans h2

end Bikeshed.Scheduler
