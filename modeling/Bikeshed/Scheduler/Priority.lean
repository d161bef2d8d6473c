import Bikeshed.Scheduler.PanicFree

/-!
# Whom `dispatch` picks

In every state in which a run calls `dispatch`, each ready queue holds processes of its own
priority. The process picked is the head of the first queue that is not empty, after the one that
lost the processor and the one that was woken have been appended.
-/

namespace Bikeshed.Scheduler

open Lib

/-- The processes on the five queues -/
def queued (s : Sched) : List ℕ := readyList s ++ s.sleepQueue

/-- The process `c` does not keep the processor. -/
def Loses (c d : ℕ) (s : Sched) : Prop := (s.pcbs c).state ≠ .ready ∨ s.quantumLeft ≤ d

instance (c d : ℕ) (s : Sched) : Decidable (Loses c d s) := inferInstanceAs (Decidable (_ ∨ _))

/-- The current process, if it is put back on its ready queue -/
def requeued (c d : ℕ) (s : Sched) : List ℕ :=
  if (s.pcbs c).state = .ready ∧ s.quantumLeft ≤ d then [c] else []

/-- The process that `get_next_sleep` puts on its ready queue -/
def woken (d : ℕ) (s : Sched) : List ℕ :=
  match s.sleepQueue with
  | [] => []
  | pcb :: _ => if (s.pcbs pcb).sleepTime ≤ d then [pcb] else []

/-- Strict priority, first in first out within a priority. -/
structure Strict (c d : ℕ) (s s' : Sched) : Prop where
  appended : ∀ i, (turn c d s).queues i = s.queues i ++
    (requeued c d s ++ woken d (retire c (charge d s))).filter fun p => (s.pcbs p).priority = i
  picked : ∃ i < numQueues, ∃ next rest, (turn c d s).queues i = next :: rest ∧
    (∀ j < i, (turn c d s).queues j = []) ∧ s'.currentPcb = some next ∧ s'.queues i = rest ∧
    ∀ j, j ≠ i → s'.queues j = (turn c d s).queues j

/-- Nobody is in two places, and nobody is lost but a process that has been killed. -/
structure Conserved (c : ℕ) (s s' : Sched) : Prop where
  once : ∃ next, s'.currentPcb = some next ∧ (next :: queued s').Nodup ∧
    (next :: queued s').Perm (if (s.pcbs c).state = .killed then queued s else c :: queued s)
  baPcbs : s'.baPcbs = s.baPcbs

section

variable {σ : Type} (S : Services σ)

/-- In the runs made of steps allowed by `P`, each ready queue holds processes of its priority, and
every call of `dispatch` picks the first of the first queue. -/
def StrictDispatch (P : Kernel σ → Event σ → Prop) (k0 : Kernel σ) : Prop :=
  ∀ k, Run S P k0 k → ByPriority k.sched ∧ ∀ e count k1 k', P k e →
    upToDispatch S e k = .ok (some count, k1) → dispatch S count k1 = .ok ((), k') →
      ByPriority k1.sched ∧ ∃ c, k1.sched.currentPcb = some c ∧ Conserved c k1.sched k'.sched ∧
        if Loses c (tickSpan count k1.sched) k1.sched then
          Strict c (tickSpan count k1.sched) k1.sched k'.sched
        else k'.sched.currentPcb = some c

end

variable {σ : Type} {S : Services σ} {k k' k0 : Kernel σ} {s s' : Sched} {held : List ℕ}
  {P : Kernel σ → Event σ → Prop}
  {c d p count : ℕ}

/-! ## What is appended -/

/-- The process that had the processor keeps its priority. -/
lemma retire_priority (c p : ℕ) (s : Sched) :
    ((retire c s).pcbs p).priority = (s.pcbs p).priority := by
  rw [retire]
  split
  · show ((setPcb c (fun r => { r with state := .killed }) s).pcbs p).priority = _
    by_cases hp : p = c
    · rw [hp, setPcb_self]
    · rw [setPcb_of_ne _ hp]
  · exact (enqueueSleeper_same c s).priority p
  · split <;> rfl

/-- The quantum is spent when it is not longer than the time that passed. -/
lemma charge_spent : (charge d s).quantumLeft = 0 ↔ s.quantumLeft ≤ d := by
  show (if s.quantumLeft < d then 0 else s.quantumLeft - d) = 0 ↔ _
  split <;> omega

/-- A process whose quantum is spent comes last on its queue. -/
lemma queues_retire (hrun : (s.pcbs c).state ≠ .running) (i : ℕ) : (retire c (charge d s)).queues i
    = s.queues i ++ (requeued c d s).filter fun p => (s.pcbs p).priority = i := by
  have hstate : ((charge d s).pcbs c).state = (s.pcbs c).state := rfl
  rw [requeued]
  cases hs : (s.pcbs c).state with
  | running => exact absurd hs hrun
  | killed =>
    rw [retire_killed (hstate.trans hs), if_neg (fun hno => by cases hno.1), List.filter_nil,
      List.append_nil]
    rfl
  | sleeping =>
    rw [retire_sleeping (hstate.trans hs), if_neg (fun hno => by cases hno.1), List.filter_nil,
      List.append_nil]
    rfl
  | ready =>
    by_cases hq : s.quantumLeft ≤ d
    · rw [retire_spent (hstate.trans hs) (charge_spent.mpr hq), if_pos ⟨rfl, hq⟩]
      exact queues_enqueueReady i
    · rw [retire_stays (hstate.trans hs) (fun h0 => hq (charge_spent.mp h0)),
        if_neg (fun hno => hq hno.2), List.filter_nil, List.append_nil]
      rfl

/-- So does a sleeper that wakes up. -/
lemma queues_afterTick (i : ℕ) : (afterTick d s).queues i
    = s.queues i ++ (woken d s).filter fun p => (s.pcbs p).priority = i := by
  unfold afterTick woken
  cases hq : s.sleepQueue with
  | nil =>
    simp only
    rw [List.filter_nil, List.append_nil]
  | cons pcb rest =>
    simp only
    split
    · exact queues_wakeHead i
    · rw [List.filter_nil, List.append_nil]
      rfl

/-- What the queues get in one `dispatch`, in this order -/
lemma queues_turn (hrun : (s.pcbs c).state ≠ .running) (i : ℕ) :
    (turn c d s).queues i = s.queues i ++
      (requeued c d s ++ woken d (retire c (charge d s))).filter
        fun p => (s.pcbs p).priority = i := by
  have hqueues : (turn c d s).queues i = (afterTick d (retire c (charge d s))).queues i := rfl
  rw [hqueues, queues_afterTick, queues_retire hrun, List.append_assoc, List.filter_append]
  refine congrArg (fun l => s.queues i ++ ((requeued c d s).filter _ ++ l)) ?_
  refine List.filter_congr fun p _ => ?_
  rw [retire_priority]
  rfl

/-- Another process is picked exactly in the cases of `Loses`. -/
lemma turn_currentPcb (hc : s.currentPcb = some c) (hrun : (s.pcbs c).state ≠ .running) :
    (turn c d s).currentPcb = none ↔ Loses c d s := by
  have hstate : ((charge d s).pcbs c).state = (s.pcbs c).state := rfl
  have hcur : (turn c d s).currentPcb = (retire c (charge d s)).currentPcb :=
    afterTick_currentPcb _ _
  rw [hcur, Loses]
  cases hs : (s.pcbs c).state with
  | running => exact absurd hs hrun
  | killed =>
    rw [retire_killed (hstate.trans hs)]
    exact ⟨fun _ => .inl fun hno => (by cases hno), fun _ => rfl⟩
  | sleeping =>
    rw [retire_sleeping (hstate.trans hs)]
    exact ⟨fun _ => .inl fun hno => (by cases hno), fun _ => rfl⟩
  | ready =>
    by_cases hq : s.quantumLeft ≤ d
    · rw [retire_spent (hstate.trans hs) (charge_spent.mpr hq)]
      exact ⟨fun _ => .inr hq, fun _ => rfl⟩
    · rw [retire_stays (hstate.trans hs) (fun h0 => hq (charge_spent.mp h0))]
      refine ⟨fun hnone => ?_, fun hor => ?_⟩
      · have hno : s.currentPcb = none := hnone
        rw [hc] at hno
        cases hno
      · exact absurd hor (not_or.mpr ⟨fun hne => hne rfl, hq⟩)

/-! ## Nobody is lost -/

/-- `schedule` adds the process to those on queues. -/
lemma queued_enqueueReady (hp : (s.pcbs p).priority < numQueues) :
    (queued (enqueueReady p s)).Perm (p :: queued s) :=
  (readyList_enqueueReady hp).append_right _

lemma queued_enqueueSleeper : (queued (enqueueSleeper p s)).Perm (p :: queued s) := by
  have hperm : (enqueueSleeper p s).sleepQueue.Perm (p :: s.sleepQueue) := queueEnqueuePrio_perm
  exact (List.Perm.append_left _ hperm).trans List.perm_middle

/-- Time moves sleepers between queues. -/
lemma SchedInv.queued_afterTick (h : SchedInv held s) :
    (queued (Scheduler.afterTick d s)).Perm (queued s) := by
  unfold Scheduler.afterTick
  split
  · exact .refl _
  · rename_i pcb rest hq
    have hprio : (s.pcbs pcb).priority < numQueues :=
      h.priority pcb (List.mem_append_right _ (List.mem_append_right _ (hq ▸ List.mem_cons_self)))
    split
    · have htail : (Scheduler.wakeHead pcb s).sleepQueue = rest := by
        show s.sleepQueue.tail = rest
        rw [hq, List.tail_cons]
      rw [queued, queued, htail, hq]
      exact ((readyList_wakeHead hprio).append_right _).trans List.perm_middle.symm
    · exact .refl _

/-- Only a killed process leaves the scheduler. -/
lemma SchedInv.queued_retire (h : SchedInv [c] s) (hrun : (s.pcbs c).state ≠ .running)
    (hq : (s.pcbs c).state = .ready → s.quantumLeft ≤ d) :
    (queued (retire c (charge d s))).Perm
      (if (s.pcbs c).state = .killed then queued s else c :: queued s) := by
  have hstate : ((charge d s).pcbs c).state = (s.pcbs c).state := rfl
  cases hs : (s.pcbs c).state with
  | running => exact absurd hs hrun
  | killed =>
    rw [retire_killed (hstate.trans hs), if_pos rfl]
    exact .refl _
  | sleeping =>
    rw [retire_sleeping (hstate.trans hs), if_neg (fun hno => by cases hno)]
    exact queued_enqueueSleeper (s := charge d s)
  | ready =>
    rw [retire_spent (hstate.trans hs) (charge_spent.mpr (hq hs)), if_neg (fun hno => by cases hno)]
    exact queued_enqueueReady (s := charge d s) (h.priority c List.mem_cons_self)

/-- The process that is picked leaves its queue. -/
lemma queued_dequeueReady {i : ℕ} {rest : List ℕ} (hi : i < numQueues)
    (hq : s.queues i = p :: rest) :
    (p :: queued (dequeueReady i rest s)).Perm (queued s) := by
  obtain ⟨others, h1, h2⟩ := readyList_setQueue (s := s) (Q := rest) hi
  rw [hq] at h1
  have hperm : (readyList s).Perm (p :: readyList (dequeueReady i rest s)) :=
    h1.trans (.cons p h2.symm)
  exact (hperm.symm.append_right s.sleepQueue)

/-- The current process is on no queue. -/
lemma SchedInv.nodup_queued (h : SchedInv [p] s) : (p :: queued s).Nodup := by
  have hnd := h.nodup
  rw [places, ← List.append_assoc (readyList s)] at hnd
  exact (List.nodup_append'.mp ((List.append_assoc [p] _ _).symm ▸ hnd)).1

/-! ## One call -/

/-- The queue that a process is picked from is the first with a process on it. -/
theorem Picks.strict (hp : Picks (turn c d s) s') (hc : s.currentPcb = some c)
    (hrun : (s.pcbs c).state ≠ .running) (hl : Loses c d s) : Strict c d s s' := by
  have hnone := (turn_currentPcb hc hrun).mpr hl
  refine ⟨queues_turn hrun, ?_⟩
  cases hp with
  | keep hcur => exact absurd hnone hcur
  | @take i next rest hcur hi hfirst hqueue =>
    refine ⟨i, hi, next, rest, hqueue, hfirst, rfl, ?_, fun j hj => ?_⟩
    · exact Function.update_self _ _ _
    · exact Function.update_of_ne hj _ _

/-- A process with time left stays. -/
theorem Picks.keeps (hp : Picks (turn c d s) s') (hc : s.currentPcb = some c) (h : SchedInv [c] s)
    (hrun : (s.pcbs c).state ≠ .running) (hkeeps : ¬ Loses c d s) : s'.currentPcb = some c := by
  cases hp with
  | keep hcur => exact (h.turn_kept hc hrun hcur).1
  | take hcur hi hfirst hqueue => exact absurd ((turn_currentPcb hc hrun).mp hcur) hkeeps

lemma retire_baPcbs (c : ℕ) (s : Sched) : (retire c s).baPcbs = s.baPcbs := by
  rw [retire]
  split
  · rfl
  · rfl
  · split <;> rfl

/-- No PCB is allocated or freed on the way. -/
lemma turn_baPcbs (c d : ℕ) (s : Sched) : (turn c d s).baPcbs = s.baPcbs := by
  have htick : ∀ s : Sched, (afterTick d s).baPcbs = s.baPcbs := by
    intro s
    unfold afterTick
    split
    · rfl
    · split <;> rfl
  exact (htick _).trans (retire_baPcbs c _)

/-- Nobody is lost and nobody doubled. -/
theorem Picks.conserved (hp : Picks (turn c d s) s') (hc : s.currentPcb = some c)
    (h : SchedInv [c] s) (hrun : (s.pcbs c).state ≠ .running) : Conserved c s s' := by
  obtain ⟨next, hnext, hinv, -⟩ := (hp.dispatched hc h hrun).steady
  refine ⟨⟨next, hnext, hinv.nodup_queued, ?_⟩, ?_⟩
  · cases hp with
    | keep hcur =>
      have hkeeps : ¬ Loses c d s := fun hl => hcur ((turn_currentPcb hc hrun).mpr hl)
      rw [Loses, not_or, not_not] at hkeeps
      obtain ⟨hcur', -, -, -⟩ := h.turn_kept (d := d) hc hrun hcur
      have hnext' : next = c := Option.some.inj (hnext.symm.trans hcur')
      have hstays : retire c (charge d s) = charge d s :=
        retire_stays hkeeps.1 fun h0 => hkeeps.2 (charge_spent.mp h0)
      have h1 : SchedInv [c] (charge d s) := h.congr rfl rfl rfl rfl rfl
      have hqueued : (queued (turn c d s)).Perm (queued s) := by
        rw [turn, hstays]
        exact h1.queued_afterTick
      rw [hnext', hkeeps.1, if_neg (fun hno => by cases hno)]
      exact .cons c hqueued
    | @take i first rest hcur hi hfirst hqueue =>
      have hl := (turn_currentPcb hc hrun).mp hcur
      have hnext' : next = first := (Option.some.inj hnext).symm
      have hcur' : (retire c (charge d s)).currentPcb = none :=
        (afterTick_currentPcb _ _).symm.trans hcur
      have hfree := ((h.retired_charge (d := d) hc hrun).free hcur').1
      rw [hnext']
      refine (queued_dequeueReady hi hqueue).trans (hfree.queued_afterTick.trans ?_)
      exact h.queued_retire hrun fun hr => hl.resolve_left (not_not.mpr hr)
  · cases hp with
    | keep hcur => exact turn_baPcbs c d s
    | take hcur hi hfirst hqueue => exact turn_baPcbs c d s

/-- Processes come back to the queue of their priority. -/
lemma ByPriority.turn (h : ByPriority s) : ByPriority (turn c d s) := by
  have h1 : ByPriority (charge d s) := h
  have h2 : ByPriority (retire c (charge d s)) := by
    rw [retire]
    split
    · refine h1.congr rfl fun q _ => ?_
      show ((Scheduler.setPcb c (fun r => { r with state := .killed })
        (charge d s)).pcbs q).priority = _
      by_cases hq : q = c
      · rw [hq, setPcb_self]
      · rw [setPcb_of_ne _ hq]
    · exact h1.enqueueSleeper
    · split
      · exact h1.enqueueReady
      · exact h1
  exact h2.afterTick

/-- Picking takes one out of its queue. -/
lemma Picks.byPriority (hp : Picks (turn c d s) s') (h : ByPriority s) : ByPriority s' := by
  have ht : ByPriority (Scheduler.turn c d s) := h.turn
  cases hp with
  | keep hcur => exact ht
  | @take i next rest hcur hi hfirst hqueue =>
    intro j hj q hq
    have hq' : q ∈ Function.update (Scheduler.turn c d s).queues i rest j := hq
    by_cases hji : j = i
    · rw [hji, Function.update_self] at hq'
      rw [hji]
      exact ht i hi q (hqueue ▸ List.mem_cons_of_mem _ hq')
    · rw [Function.update_of_ne hji] at hq'
      exact ht j hj q hq'

/-! ## Runs -/

/-- All queues are empty at first. -/
lemma AfterInit.byPriority (h : AfterInit S k) : ByPriority k.sched := by
  obtain ⟨blocks, pcbs, tsc, w, -, -, -, hrun⟩ := h
  have hinit : wp (createInitProcess S tsc) (fun _ k => k.sched.queues = fun _ => []) Anything
      ⟨schedulerInit blocks pcbs, w⟩ := by
    rw [createInitProcess, wp_bind, wp_onSched]
    refine wp_allocPcb (fun _ => trivial) fun c free hfree => ?_
    rw [wp_bind, wp_onSched, wp_modify, wp_bind]
    refine wp_onWorld_of (fun image w => ?_) fun _ => trivial
    rw [wp_onSched, wp_bind, wp_modify, wp_bind, wp_modify]
    exact wp_armTimer_of rfl
  intro i _ p hp
  rw [hinit.ok hrun] at hp
  exact absurd hp List.not_mem_nil

/-- A step, if no fork writes to the scheduler -/
lemma step_byPriority {e : Event σ} (h : Steady k.sched) (hforks : ForksOutside S k e)
    (hp : ByPriority k.sched) (hstep : step S e k = .ok ((), k')) : ByPriority k'.sched := by
  obtain ⟨c, hc, hinv, hready⟩ := h
  have hrun : wp (step S e) (fun _ k' => ByPriority k'.sched) Anything k := by
    rw [step_eq, wp_bind]
    refine wp_mono (wp_upToDispatch hc hinv hready (fun _ _ => trivial) hforks) fun r k1 hup => ?_
    have hcalled := hup.called
    cases r with
    | none => exact hcalled.byPriority hp
    | some count =>
      refine wp_mono (wp_dispatch hcalled.currentPcb hcalled.inv hcalled.notRunning
        (fun _ _ => trivial) (fun _ _ => trivial) count) fun _ k' hpicks => ?_
      exact hpicks.byPriority (hcalled.byPriority hp)
  exact hrun.ok hstep

/-- A run of such steps -/
lemma Run.byPriority (h0 : AfterInit S k0) (hP : ∀ k e, P k e → ForksOutside S k e)
    (hr : Run S P k0 k) : ByPriority k.sched := by
  induction hr with
  | start => exact h0.byPriority
  | next hr hp hstep ih =>
    exact step_byPriority (hr.steady h0.steady.1 hP) (hP _ _ hp) ih hstep

/-- If no `fork` stores to the scheduler's memory, `dispatch` is strict. -/
theorem strictDispatch (h0 : AfterInit S k0) : StrictDispatch S (ForksOutside S) k0 := by
  intro k hr
  have hprio := hr.byPriority h0 fun _ _ h => h
  refine ⟨hprio, fun e count k1 k' hforks hcall hdispatch => ?_⟩
  obtain ⟨c, hc, hinv, hready⟩ := hr.steady h0.steady.1 fun _ _ h => h
  have hcalled := ((wp_upToDispatch (E := Anything) hc hinv hready (fun _ _ => trivial) hforks).ok
    hcall).called
  have hpicks := (wp_dispatch (E := Anything) hcalled.currentPcb hcalled.inv hcalled.notRunning
    (fun _ _ => trivial) (fun _ _ => trivial) count).ok hdispatch
  refine ⟨hcalled.byPriority hprio, c, hcalled.currentPcb,
    hpicks.conserved hcalled.currentPcb hcalled.inv hcalled.notRunning, ?_⟩
  split
  · rename_i hl
    exact hpicks.strict hcalled.currentPcb hcalled.notRunning hl
  · rename_i hkeeps
    exact hpicks.keeps hcalled.currentPcb hcalled.inv hcalled.notRunning hkeeps

/-! ## Two children -/

/-- The first process has forked twice. -/
def twoForks : Kernel (Word × Word) :=
  after registers [.syscall 100, .syscall 100] (atInit firstPcb 0 0x600000)

lemma run_twoForks :
    Run registers (ForksOutside registers) (atInit firstPcb 0 0x600000) twoForks := by
  refine .after .start ⟨?_, rfl, ?_, rfl, trivial⟩
  · exact forksOutside_registers rfl fun _ => ⟨rfl, rfl⟩
  · exact forksOutside_registers rfl fun _ => ⟨rfl, rfl⟩

/-- When the quantum of the first process is spent, it goes behind its children. -/
theorem strictDispatch_twoForks : ∃ k1 k', upToDispatch registers (.timer 0) twoForks
      = .ok (some 0, k1) ∧ dispatch registers 0 k1 = .ok ((), k') ∧
    Strict 1 10 k1.sched k'.sched ∧ k'.sched.currentPcb = some 2 := by
  refine ⟨_, _, rfl, rfl, ?_, rfl⟩
  obtain ⟨c, hc, -, hstrict⟩ := (strictDispatch (afterInit_atInit 0 0x600000) _ run_twoForks).2
    (.timer 0) 0 _ _ trivial rfl rfl |>.2
  obtain rfl : 1 = c := Option.some.inj hc
  rw [if_pos (by decide)] at hstrict
  exact hstrict

/-- The first process passes the address of its child's `priority` to the second `fork`: the child
stays on the queue of the priority that it had. -/
theorem not_strictDispatch : ∃ k0 : Kernel (Word × Word), AfterInit registers k0 ∧
    ¬ StrictDispatch registers (fun _ _ => True) k0 := by
  refine ⟨atInit firstPcb 0 0x600000, afterInit_atInit 0 _, fun h => ?_⟩
  have hrun : Run registers (fun _ _ => True) (atInit firstPcb 0 0x600000)
      (after registers [.syscall 100, .user fun _ => (0, 0xFFFFFFFFFFDF6048), .syscall 100]
        (atInit firstPcb 0 0x600000)) :=
    .after .start ⟨trivial, rfl, trivial, rfl, trivial, rfl, trivial⟩
  have hprio := (h _ hrun).1 1 (by decide) 2 (by decide)
  exact absurd hprio (by decide)

end Bikeshed.Scheduler
