import Bikeshed.Scheduler.Places

/-!
# One call of `dispatch`

With every PCB in one place, `dispatch` returns with a process to run or there was none. What
it does to the sleep queue is what it does in turn: the current process goes to sleep, and the
time that has passed is taken from the head of the queue.
-/

namespace Bikeshed.Scheduler

open Lib

/-- The panics of the scheduler itself. -/
def schedulerPanics : List Panic :=
  [.message "Scheduler: Unhandled PCB state", .message "Scheduler: Unhandled case!",
    .message "Dispatch: Nothing left to run!", .assertion "node != NULL",
    .assertion "pcb->priority < NUM_QUEUES", .assertion "quantum_left != 0",
    .assertion "prev_ticks > 0"]

lemma outside_not_mem (text : String) : Panic.outside text ∉ schedulerPanics := by
  simp [schedulerPanics]

/-- Between two steps: one process is running, and it is ready. -/
def Steady (s : Sched) : Prop :=
  ∃ c, s.currentPcb = some c ∧ SchedInv [c] s ∧ (s.pcbs c).state = .ready

/-- Nothing changes for the processes that sleep. -/
def SameSleepers (s s' : Sched) : Prop :=
  s'.sleepQueue = s.sleepQueue ∧ ∀ q ∈ s.sleepQueue, s'.pcbs q = s.pcbs q

/-- The current process is on the sleep queue if that is its state. -/
def afterRetire (c : ℕ) (s : Sched) : Sched :=
  if (s.pcbs c).state = .sleeping then enqueueSleeper c s else s

/-- The milliseconds that `dispatch` measures. -/
def tickSpan (count : ℕ) (s : Sched) : ℕ := (s.timer.delay - count) / s.oneMs

/-! ## What the parts of `dispatch` do -/

/-- The time measured is charged to the quantum. -/
def charge (d : ℕ) (s : Sched) : Sched :=
  { s with quantumLeft := if s.quantumLeft < d then 0 else s.quantumLeft - d }

/-- No process has the processor. -/
def freed (s : Sched) : Sched := { s with currentPcb := none, quantumLeft := 10 }

/-- The process `c` has lost the processor if it is not to keep it. -/
def retire (c : ℕ) (s : Sched) : Sched :=
  match (s.pcbs c).state with
  | .killed => freed (setPcb c (fun r => { r with state := .killed }) s)
  | .sleeping => freed (enqueueSleeper c s)
  | _ => if s.quantumLeft = 0 then freed (enqueueReady c s) else s

/-- What is left of the quantum, or the time until the next sleeper is to wake if that is less. -/
def nextTicks (d : ℕ) (s : Sched) : ℕ :=
  if 0 < headSleep (afterTick d s) ∧ headSleep (afterTick d s) < s.quantumLeft then
    headSleep (afterTick d s)
  else s.quantumLeft

/-- The time until the next interrupt has been set. -/
def tick (d : ℕ) (s : Sched) : Sched := { afterTick d s with prevTicks := nextTicks d s }

/-- What `dispatch` has before it when it picks a process, the current one being `c`. -/
def turn (c d : ℕ) (s : Sched) : Sched := tick d (retire c (charge d s))

/-- The timer is running for `prev_ticks` milliseconds. -/
def armed (s : Sched) : Sched :=
  { s with timer := ⟨s.prevTicks * s.oneMs % 2 ^ 32, s.prevTicks * s.oneMs % 2 ^ 32,
      decide (s.prevTicks * s.oneMs % 2 ^ 32 ≠ 0)⟩ }

/-- The head of a ready queue has been taken off it. -/
def dequeueReady (i : ℕ) (rest : List ℕ) (s : Sched) : Sched :=
  { setQueue i rest s with baQnodes := s.baQnodes + 1 }

/-- The current process stays, or the head of the first queue that has one is taken. -/
inductive Picks (s : Sched) : Sched → Prop
  | keep : s.currentPcb ≠ none → Picks s (armed s)
  | take {i next : ℕ} {rest : List ℕ} : s.currentPcb = none → i < numQueues →
      (∀ j < i, s.queues j = []) → s.queues i = next :: rest →
      Picks s (armed { dequeueReady i rest s with currentPcb := some next })

variable {σ : Type} {S : Services σ} {k : Kernel σ} {s s' s'' : Sched} {held : List ℕ} {c d p : ℕ}
  {E : Panic → Prop}

namespace SameSleepers

/-- The sleepers have not been touched. -/
lemma refl (s : Sched) : SameSleepers s s := ⟨rfl, fun _ _ => rfl⟩

lemma trans (h : SameSleepers s s') (h' : SameSleepers s' s'') : SameSleepers s s'' := by
  refine ⟨h'.1.trans h.1, fun q hq => ?_⟩
  rw [h'.2 q (h.1 ▸ hq), h.2 q hq]

/-- Time passes for both in the same way. -/
lemma afterTick (h : SameSleepers s s') : SameSleepers (afterTick d s) (afterTick d s') := by
  unfold Scheduler.afterTick
  cases hq : s.sleepQueue with
  | nil =>
    have hq' : s'.sleepQueue = [] := h.1.trans hq
    simp only [hq']
    exact h
  | cons pcb rest =>
    have hq' : s'.sleepQueue = pcb :: rest := h.1.trans hq
    have hpcb : s'.pcbs pcb = s.pcbs pcb := h.2 pcb (hq ▸ List.mem_cons_self)
    have hrest : ∀ q ∈ rest, s'.pcbs q = s.pcbs q :=
      fun q hm => h.2 q (hq ▸ List.mem_cons_of_mem _ hm)
    simp only [hq', hpcb]
    split
    · refine ⟨?_, fun q hm => ?_⟩
      · show s'.sleepQueue.tail = s.sleepQueue.tail
        rw [hq', hq]
      · have hm' : q ∈ rest := by
          have htail : q ∈ s.sleepQueue.tail := hm
          rwa [hq] at htail
        rw [wakeHead_pcbs, wakeHead_pcbs, hpcb]
        by_cases hqp : q = pcb
        · rw [hqp, Function.update_self, Function.update_self]
        · rw [Function.update_of_ne hqp, Function.update_of_ne hqp]
          exact hrest q hm'
    · refine ⟨h.1, fun q hm => ?_⟩
      have hm' : q ∈ s.sleepQueue := hm
      rw [tickHead, tickHead]
      by_cases hqp : q = pcb
      · rw [hqp, setPcb_self, setPcb_self, hpcb]
      · rw [setPcb_of_ne _ hqp, setPcb_of_ne _ hqp]
        exact h.2 q hm'

end SameSleepers

/-! ## Taking the processor away -/

/-- The panics that the page-table code can end in. -/
structure WorldStops (S : Services σ) (E : Panic → Prop) : Prop where
  switchPageTable {t : Word} {w : σ} {e : String} :
    S.switchPageTable t w = .error e → E (.outside e)
  cleanupTable {t : Word} {w : σ} {e : String} : S.cleanupTable t w = .error e → E (.outside e)

/-- The page table goes, and the PCB is marked. -/
lemma wp_cleanupPcb_of (hE : WorldStops S E) (p : ℕ) : wp (cleanupPcb S p)
    (fun _ k' => k'.sched = setPcb p (fun r => { r with state := .killed }) k.sched) E k := by
  rw [cleanupPcb, wp_bind, wp_onWorld, wp_iff]
  refine ⟨fun _ w _ => ?_, fun e he => hE.switchPageTable he⟩
  rw [wp_bind, wp_readPcb, wp_bind, wp_onWorld, wp_iff]
  refine ⟨fun _ w _ => ?_, fun e he => hE.cleanupTable he⟩
  rw [wp_onSched, wp_modify]

lemma wp_cleanupPcb (hE : ∀ e, E (.outside e)) (p : ℕ) : wp (cleanupPcb S p)
    (fun _ k' => k'.sched = setPcb p (fun r => { r with state := .killed }) k.sched) E k :=
  wp_cleanupPcb_of ⟨fun _ => hE _, fun _ => hE _⟩ p

section Retire

variable (hr : (s.pcbs c).state = .ready)

/-- A killed process -/
lemma retire_killed (h : (s.pcbs c).state = .killed) :
    retire c s = freed (setPcb c (fun r => { r with state := .killed }) s) := by
  rw [retire, h]

/-- One that goes to sleep -/
lemma retire_sleeping (h : (s.pcbs c).state = .sleeping) :
    retire c s = freed (enqueueSleeper c s) := by
  rw [retire, h]

include hr

/-- One whose quantum is spent -/
lemma retire_spent (hq : s.quantumLeft = 0) : retire c s = freed (enqueueReady c s) := by
  rw [retire, hr]
  exact if_pos hq

/-- One with time left -/
lemma retire_stays (hq : s.quantumLeft ≠ 0) : retire c s = s := by
  rw [retire, hr]
  exact if_neg hq

end Retire

/-- The first part of `dispatch` -/
lemma wp_retireCurrent (hc : k.sched.currentPcb = some c) (h : SchedInv [c] k.sched)
    (hrun : (k.sched.pcbs c).state ≠ .running) (hE : WorldStops S E) :
    wp (retireCurrent S) (fun _ k' => k'.sched = retire c k.sched) E k := by
  have hstops : ScheduleStops E c k.sched :=
    ⟨fun h0 => absurd h0 h.baQnodes_ne_zero, fun hp => absurd (h.priority c List.mem_cons_self) hp⟩
  rw [retireCurrent, wp_bind, wp_currentPcb_some hc, wp_bind, wp_readPcb, wp_ite]
  constructor
  · intro hkilled
    rw [wp_bind]
    refine wp_mono (wp_cleanupPcb_of hE c) fun _ k1 h1 => ?_
    rw [wp_onSched, h1, retire_killed hkilled, dropCurrent, wp_modify]
    rfl
  · intro hlive
    rw [wp_bind, wp_getKernel, wp_ite]
    cases hs : (k.sched.pcbs c).state with
    | running => exact absurd hs hrun
    | killed => exact absurd hs hlive
    | sleeping =>
      refine ⟨fun _ => ?_, fun hno => absurd (.inl rfl) hno⟩
      rw [wp_onSched, wp_bind]
      refine wp_schedule_sleeping hs hstops.1 fun _ => ?_
      rw [retire_sleeping hs, dropCurrent, wp_modify]
      rfl
    | ready =>
      constructor
      · intro hgo
        have hq : k.sched.quantumLeft = 0 := hgo.resolve_left (by decide)
        rw [wp_onSched, wp_bind]
        refine wp_schedule_ready hs hstops fun _ _ => ?_
        rw [retire_spent hs hq, dropCurrent, wp_modify]
        rfl
      · intro hstay
        rw [not_or] at hstay
        exact (retire_stays hs hstay.2).symm

/-- The processor is still taken, or it is free and the quantum is whole. -/
structure Retired (c : ℕ) (s s' : Sched) : Prop where
  sleepers : SameSleepers (afterRetire c s) s'
  kept : s'.currentPcb ≠ none →
    s'.currentPcb = some c ∧ SchedInv [c] s' ∧ (s'.pcbs c).state = .ready ∧ s'.quantumLeft ≠ 0
  free : s'.currentPcb = none → SchedInv [] s' ∧ s'.quantumLeft ≠ 0 ∧
    (readyList s' = [] → (s.pcbs c).state ≠ .ready ∧ readyList s = [])

lemma retired_freed {s1 : Sched} (hsleepers : SameSleepers (afterRetire c s) s1)
    (hinv : SchedInv [] s1)
    (hnone : readyList s1 = [] → (s.pcbs c).state ≠ .ready ∧ readyList s = []) :
    Retired c s (freed s1) := by
  refine ⟨hsleepers.trans ⟨rfl, fun _ _ => rfl⟩, fun hne => absurd rfl hne, fun _ => ?_⟩
  have hinv' : SchedInv [] (freed s1) := hinv.congr rfl rfl rfl rfl rfl
  exact ⟨hinv', Nat.succ_ne_zero 9, hnone⟩

lemma SchedInv.retired (hc : s.currentPcb = some c) (h : SchedInv [c] s)
    (hrun : (s.pcbs c).state ≠ .running) : Retired c s (retire c s) := by
  have hprio : (s.pcbs c).priority < numQueues := h.priority c List.mem_cons_self
  cases hs : (s.pcbs c).state with
  | running => exact absurd hs hrun
  | killed =>
    rw [retire_killed hs]
    have hinv : SchedInv [c] (Scheduler.setPcb c (fun r => { r with state := .killed }) s) :=
      h.setPcb List.mem_cons_self hprio
    refine retired_freed ?_ hinv.drop fun hnil => ⟨?_, hnil⟩
    · rw [afterRetire, if_neg (by rw [hs]; decide)]
      exact ⟨rfl, fun q hq => setPcb_of_ne _
        (ne_of_mem_of_not_mem hq (h.not_mem_sleepQueue List.mem_cons_self))⟩
    · rw [hs]
      decide
  | sleeping =>
    rw [retire_sleeping hs]
    refine retired_freed ?_ (h.enqueueSleeper hs) fun hnil => ⟨?_, hnil⟩
    · rw [afterRetire, if_pos hs]
      exact .refl _
    · rw [hs]
      decide
  | ready =>
    have hnot : afterRetire c s = s := by
      rw [afterRetire, if_neg (by rw [hs]; decide)]
    by_cases hq : s.quantumLeft = 0
    · rw [retire_spent hs hq]
      refine retired_freed ?_ (h.enqueueReady hs) fun hnil => ?_
      · rw [hnot]
        exact ⟨rfl, fun _ _ => rfl⟩
      · have hlen := (readyList_enqueueReady hprio).length_eq
        rw [hnil, List.length_cons, List.length_nil] at hlen
        omega
    · rw [retire_stays hs hq]
      refine ⟨?_, fun _ => ⟨hc, h, hs, hq⟩, fun hnone => ?_⟩
      · rw [hnot]
        exact .refl _
      · rw [hc] at hnone
        cases hnone

/-! ## Time passing -/

lemma afterTick_currentPcb (d : ℕ) (s : Sched) : (afterTick d s).currentPcb = s.currentPcb := by
  unfold afterTick
  split
  · rfl
  · split <;> rfl

lemma afterTick_quantumLeft (d : ℕ) (s : Sched) : (afterTick d s).quantumLeft = s.quantumLeft := by
  unfold afterTick
  split
  · rfl
  · split <;> rfl

/-- A process that is woken joins those that are ready. -/
lemma SchedInv.ready_afterTick (h : SchedInv held s) (hq : p ∈ readyList s) :
    p ∈ readyList (Scheduler.afterTick d s) := by
  unfold Scheduler.afterTick
  cases hsq : s.sleepQueue with
  | nil => exact hq
  | cons pcb rest =>
    simp only
    split
    · have hprio : (s.pcbs pcb).priority < numQueues :=
        h.priority pcb (List.mem_append_right _
          (List.mem_append_right _ (hsq ▸ List.mem_cons_self)))
      exact (readyList_wakeHead hprio).mem_iff.mpr (List.mem_cons_of_mem _ hq)
    · exact hq

/-- Nobody leaves the ready queues when time passes. -/
lemma SchedInv.readyList_nil (h : SchedInv held s)
    (hnil : readyList (Scheduler.afterTick d s) = []) : readyList s = [] := by
  refine List.eq_nil_iff_forall_not_mem.mpr fun p hp => ?_
  have hmem := h.ready_afterTick (d := d) hp
  rw [hnil] at hmem
  exact List.not_mem_nil hmem

/-- The sleepers, with the result for the timer -/
lemma wp_getNextSleep {Q : ℕ → Sched → Prop} (h : SchedInv held s)
    (hQ : Q (headSleep (afterTick d s)) (afterTick d s)) : wp (getNextSleep d) Q E s := by
  unfold afterTick at hQ
  cases hq : s.sleepQueue with
  | nil =>
    simp only [hq] at hQ
    rw [headSleep, hq] at hQ
    exact (wp_getNextSleep_nil hq).mpr hQ
  | cons pcb rest =>
    simp only [hq] at hQ
    have hprio : (s.pcbs pcb).priority < numQueues :=
      h.priority pcb (List.mem_append_right _ (List.mem_append_right _ (hq ▸ List.mem_cons_self)))
    rcases le_or_gt (s.pcbs pcb).sleepTime d with hd | hd
    · simp only [if_pos hd] at hQ
      refine wp_getNextSleep_wake hq hd ⟨fun h0 => ?_, fun hp => ?_⟩ fun _ _ => hQ
      · exact absurd h0 h.baQnodes_ne_zero
      · exact absurd hprio hp
    · simp only [if_neg (not_le.mpr hd)] at hQ
      have hhead : headSleep (tickHead d pcb s) = (s.pcbs pcb).sleepTime - d := by
        have hqueue : (tickHead d pcb s).sleepQueue = pcb :: rest := hq
        rw [headSleep, hqueue]
        simp only [tickHead, setPcb_self]
      rw [hhead] at hQ
      exact (wp_getNextSleep_tick hq hd).mpr hQ

lemma afterTick_prevTicks (n : ℕ) :
    afterTick d { s with prevTicks := n } = { afterTick d s with prevTicks := n } := by
  unfold afterTick
  simp only
  split
  · rfl
  · split <;> rfl

/-- The sleepers, and how long the timer is to run -/
lemma wp_setPrevTicks {Q : Unit → Sched → Prop} (h : SchedInv held s) (hQ : Q () (tick d s)) :
    wp (setPrevTicks d) Q E s := by
  have h0 : SchedInv held { s with prevTicks := s.quantumLeft } := h.congr rfl rfl rfl rfl rfl
  rw [setPrevTicks, wp_bind, wp_modify, wp_bind]
  refine wp_getNextSleep h0 ?_
  rw [wp_modify, afterTick_prevTicks]
  have hq : (afterTick d s).quantumLeft = s.quantumLeft := afterTick_quantumLeft d s
  have hend : tick d s = (if 0 < headSleep (afterTick d s) ∧
      headSleep (afterTick d s) < (afterTick d s).quantumLeft then
        { afterTick d s with prevTicks := headSleep (afterTick d s) }
      else { afterTick d s with prevTicks := s.quantumLeft }) := by
    rw [hq, tick, nextTicks]
    split <;> rfl
  rw [hend] at hQ
  exact hQ

/-! ## Picking the next process -/

/-- The next process is the head of the first queue that has one. -/
theorem wp_scanQueues_first {Q : ℕ → Sched → Prop} (hready : ∀ p ∈ readyList s,
    (s.pcbs p).state = .ready) (hnone : readyList s = [] →
      E (.message "Dispatch: Nothing left to run!"))
    (hQ : ∀ i next rest, i < numQueues → (∀ j < i, s.queues j = []) → s.queues i = next :: rest →
      Q next (dequeueReady i rest s)) : ∀ n i, i + n = numQueues → (∀ j < i, s.queues j = []) →
    wp (scanQueues i n) Q E s
  | 0, i, hi, hempty => by
    refine hnone (List.flatMap_eq_nil_iff.mpr fun j hj => hempty j ?_)
    have := List.mem_range.mp hj
    omega
  | n + 1, i, hi, hempty => by
    rw [scanQueues, wp_bind, wp_getSched, wp_bind]
    cases hq : s.queues i with
    | nil =>
      rw [scanQueue, wp_pure]
      refine wp_scanQueues_first hready hnone hQ n (i + 1) (by omega) fun j hj => ?_
      rcases Nat.lt_succ_iff_lt_or_eq.mp hj with hj | rfl
      · exact hempty j hj
      · exact hq
    | cons next rest =>
      have hnext : ((setQueue i rest s).pcbs next).state = .ready :=
        hready next (mem_readyList.mpr ⟨i, by omega, hq ▸ List.mem_cons_self⟩)
      rw [scanQueue, wp_bind, wp_modify, wp_bind, freeNode, wp_modify, wp_bind, wp_getSched]
      dsimp only
      rw [hnext]
      exact hQ i next rest (by omega) hempty hq

/-- The process that is picked is held from then on. -/
lemma SchedInv.dequeueReady {i : ℕ} {rest : List ℕ} (h : SchedInv held s) (hi : i < numQueues)
    (hq : s.queues i = p :: rest) : SchedInv (p :: held) (dequeueReady i rest s) := by
  obtain ⟨others, h1, h2⟩ := readyList_setQueue (s := s) (Q := rest) hi
  rw [hq] at h1
  have hperm : (readyList s).Perm (p :: readyList (Scheduler.dequeueReady i rest s)) :=
    h1.trans (.cons p h2.symm)
  refine h.of_perm ?_ ?_ ?_ h.sleeping ?_
  · refine .trans ?_ (List.Perm.append_left held (hperm.symm.append_right _))
    exact List.perm_middle.symm
  · have hnodes := h.nodes
    rw [hperm.length_eq, List.length_cons] at hnodes
    show s.baQnodes + 1 +
      ((readyList (Scheduler.dequeueReady i rest s)).length + s.sleepQueue.length) = _
    omega
  · intro q hm
    exact h.ready q (hperm.mem_iff.mpr (List.mem_cons_of_mem _ hm))
  · intro q hm
    refine h.priority q ?_
    rw [List.mem_append, List.mem_append, hperm.mem_iff]
    simp only [List.cons_append, List.mem_append, List.mem_cons] at hm ⊢
    tauto

/-! ## The whole of it -/

/-- The timer is set. -/
lemma wp_armTimer_of {Q : Unit → Sched → Prop} (hQ : Q () (armed s)) : wp armTimer Q E s := by
  rw [armTimer, wp_bind, wp_getSched, wp_bind, timerSetDelay, wp_modify, timerStart, wp_modify]
  exact hQ

section Turn

variable (hc : s.currentPcb = some c) (h : SchedInv [c] s) (hrun : (s.pcbs c).state ≠ .running)
include hc h hrun

lemma SchedInv.retired_charge : Retired c (charge d s) (retire c (charge d s)) := by
  have h1 : SchedInv [c] (charge d s) := h.congr rfl rfl rfl rfl rfl
  exact h1.retired hc hrun

/-- If nobody loses the processor, there is some of the quantum left. -/
lemma SchedInv.turn_kept (hcur : (turn c d s).currentPcb ≠ none) :
    (turn c d s).currentPcb = some c ∧ SchedInv [c] (turn c d s) ∧
      ((turn c d s).pcbs c).state = .ready ∧ (turn c d s).quantumLeft ≠ 0 := by
  have hcur' : (turn c d s).currentPcb = (retire c (charge d s)).currentPcb :=
    afterTick_currentPcb _ _
  rw [hcur'] at hcur ⊢
  obtain ⟨h1, h2, h3, h4⟩ := (h.retired_charge (d := d) hc hrun).kept hcur
  refine ⟨h1, h2.afterTick.congr rfl rfl rfl rfl rfl, ?_, ?_⟩
  · have hsame : (Scheduler.afterTick d (retire c (charge d s))).pcbs c
        = (retire c (charge d s)).pcbs c :=
      afterTick_pcbs (h2.not_mem_sleepQueue List.mem_cons_self)
    exact hsame ▸ h3
  · exact (afterTick_quantumLeft _ _).trans_ne h4

/-- If the processor is free, the timer is still set. -/
lemma SchedInv.turn_free (hcur : (turn c d s).currentPcb = none) :
    SchedInv [] (turn c d s) ∧ 0 < (turn c d s).prevTicks ∧
      (readyList (turn c d s) = [] → (s.pcbs c).state ≠ .ready ∧ readyList s = []) := by
  have hcur' : (turn c d s).currentPcb = (retire c (charge d s)).currentPcb :=
    afterTick_currentPcb _ _
  rw [hcur'] at hcur
  obtain ⟨h1, h2, h3⟩ := (h.retired_charge (d := d) hc hrun).free hcur
  refine ⟨h1.afterTick.congr rfl rfl rfl rfl rfl, ?_, fun hnil => h3 (h1.readyList_nil hnil)⟩
  show 0 < nextTicks d (retire c (charge d s))
  rw [nextTicks]
  split
  · rename_i hpos
    exact hpos.1
  · exact Nat.pos_of_ne_zero h2

lemma SchedInv.turn_sleepers :
    SameSleepers (Scheduler.afterTick d (afterRetire c s)) (turn c d s) := by
  have hstart : SameSleepers (afterRetire c s) (afterRetire c (charge d s)) := by
    have hcharge : ((charge d s).pcbs c).state = (s.pcbs c).state := rfl
    rw [afterRetire, afterRetire, hcharge]
    split
    · exact ⟨rfl, fun _ _ => rfl⟩
    · exact ⟨rfl, fun _ _ => rfl⟩
  exact (hstart.trans (h.retired_charge (d := d) hc hrun).sleepers).afterTick

end Turn

/-- What a call of `dispatch` that returns has done, when `c` was the current process, and the
panics that it may end in. -/
theorem wp_dispatch_of (hc : k.sched.currentPcb = some c) (h : SchedInv [c] k.sched)
    (hrun : (k.sched.pcbs c).state ≠ .running) (hE : WorldStops S E) {count : ℕ}
    (hcount : count ≤ k.sched.timer.delay ∨ E (.assertion "timer_delay >= count"))
    (hms : k.sched.oneMs ≠ 0 ∨ E (.outside "Interrupt! vector: 0"))
    (hnone : (k.sched.pcbs c).state ≠ .ready → readyList k.sched = [] →
      E (.message "Dispatch: Nothing left to run!")) :
    wp (dispatch S count)
      (fun _ k' => Picks (turn c (tickSpan count k.sched) k.sched) k'.sched) E k := by
  rw [dispatch, wp_bind, wp_onSched, timerGetElapsed, wp_bind, wp_getSched, wp_bind, wp_assert]
  refine ⟨fun _ => ?_, fun hlate => hcount.resolve_left (of_decide_eq_false hlate)⟩
  rw [wp_pure, wp_bind, wp_getKernel, wp_ite]
  refine ⟨fun hzero => hms.resolve_left (not_not.mpr hzero), fun _ => ?_⟩
  rw [wp_bind, wp_onSched, chargeQuantum, wp_modify, wp_bind]
  set d := tickSpan count k.sched with hd
  have h1 : SchedInv [c] (charge d k.sched) := h.congr rfl rfl rfl rfl rfl
  refine wp_mono (wp_retireCurrent (k := { k with sched := charge d k.sched }) hc h1 hrun hE) ?_
  rintro - ⟨s2, w⟩ h2
  have hs2 : s2 = retire c (charge d k.sched) := h2
  have hinv2 : ∃ held, SchedInv held s2 := by
    rw [hs2]
    by_cases hcur : (retire c (charge d k.sched)).currentPcb = none
    · exact ⟨_, ((h.retired_charge (d := d) hc hrun).free hcur).1⟩
    · exact ⟨_, ((h.retired_charge (d := d) hc hrun).kept hcur).2.1⟩
  obtain ⟨held, hinv2⟩ := hinv2
  rw [wp_bind, wp_onSched]
  show wp (setPrevTicks d) _ E s2
  refine wp_setPrevTicks hinv2 ?_
  have hturn : tick d s2 = turn c d k.sched := by rw [hs2, turn]
  rw [hturn, wp_bind, wp_getKernel, wp_ite]
  constructor
  · intro hcur
    obtain ⟨-, -, -, hq⟩ := h.turn_kept (d := d) hc hrun hcur
    rw [wp_onSched, wp_bind, wp_assert]
    refine ⟨fun _ => wp_armTimer_of (.keep hcur), fun hz => ?_⟩
    exact absurd hq (of_decide_eq_false hz)
  · intro hcur
    rw [not_not] at hcur
    obtain ⟨hinv, hpos, hnil⟩ := h.turn_free (d := d) hc hrun hcur
    rw [wp_bind, wp_onSched, wp_assert]
    refine ⟨fun _ => ?_, fun hz => absurd hpos (of_decide_eq_false hz)⟩
    rw [wp_bind, wp_onSched]
    refine wp_scanQueues_first hinv.ready (fun hempty => ?_) ?_ numQueues 0 rfl
      fun j hj => absurd hj (Nat.not_lt_zero j)
    · exact hnone (hnil hempty).1 (hnil hempty).2
    · intro i next rest hi hfirst hqueue
      rw [wp_bind, wp_onSched, wp_modify, wp_bind, wp_readPcb, wp_bind]
      rw [wp_onWorld, wp_iff]
      refine ⟨fun _ w _ => ?_, fun e he => hE.switchPageTable he⟩
      rw [wp_onSched]
      exact wp_armTimer_of (.take hcur hi hfirst hqueue)

/-- The case where panics other than those of the scheduler do not matter -/
theorem wp_dispatch (hc : k.sched.currentPcb = some c) (h : SchedInv [c] k.sched)
    (hrun : (k.sched.pcbs c).state ≠ .running) (hE : ∀ x, x ∉ schedulerPanics → E x)
    (hnone : (k.sched.pcbs c).state ≠ .ready → readyList k.sched = [] →
      E (.message "Dispatch: Nothing left to run!")) (count : ℕ) :
    wp (dispatch S count)
      (fun _ k' => Picks (turn c (tickSpan count k.sched) k.sched) k'.sched) E k :=
  have hout : ∀ e, E (.outside e) := fun e => hE _ (outside_not_mem e)
  wp_dispatch_of hc h hrun ⟨fun _ => hout _, fun _ => hout _⟩ (.inr (hE _ (by decide)))
    (.inr (hout _)) hnone

/-- Between two calls, and what has happened to those that sleep. -/
structure Dispatched (c d : ℕ) (s s' : Sched) : Prop where
  steady : Steady s'
  sleepers : SameSleepers (afterTick d (afterRetire c s)) s'

/-- What can be said of every process after that -/
theorem Picks.dispatched (hp : Picks (turn c d s) s') (hc : s.currentPcb = some c)
    (h : SchedInv [c] s) (hrun : (s.pcbs c).state ≠ .running) : Dispatched c d s s' := by
  have hsleepers := h.turn_sleepers (d := d) hc hrun
  cases hp with
  | keep hcur =>
    obtain ⟨h1, h2, h3, -⟩ := h.turn_kept (d := d) hc hrun hcur
    exact ⟨⟨c, h1, h2.congr rfl rfl rfl rfl rfl, h3⟩, hsleepers.trans ⟨rfl, fun _ _ => rfl⟩⟩
  | @take i next rest hcur hi hfirst hqueue =>
    obtain ⟨hinv, -, -⟩ := h.turn_free (d := d) hc hrun hcur
    have hinv' := hinv.dequeueReady hi hqueue
    have hnext : ((turn c d s).pcbs next).state = .ready :=
      hinv.ready next (mem_readyList.mpr ⟨i, hi, hqueue ▸ List.mem_cons_self⟩)
    exact ⟨⟨next, rfl, hinv'.congr rfl rfl rfl rfl rfl, hnext⟩,
      hsleepers.trans ⟨rfl, fun _ _ => rfl⟩⟩

end Bikeshed.Scheduler
