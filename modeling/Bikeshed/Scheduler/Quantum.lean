import Bikeshed.Scheduler.Priority

/-!
# How long a process keeps the processor

The timer is set for no longer than what is left of the quantum, so what `dispatch` measures never
exceeds it: what a process has been charged and what it has left are ten milliseconds together.
-/

namespace Bikeshed.Scheduler

open Lib

variable {σ : Type} (S : Services σ)

/-- The states that steps allowed by `P` lead to, with the milliseconds that the current process
has been charged since it was picked. -/
inductive Charged (P : Kernel σ → Event σ → Prop) (k0 : Kernel σ) : ℕ → Kernel σ → Prop
  | start : Charged P k0 0 k0
  | quiet {n : ℕ} {k k' : Kernel σ} {e : Event σ} : Charged P k0 n k → P k e →
      upToDispatch S e k = .ok (none, k') → Charged P k0 n k'
  | dispatch {n c count : ℕ} {k k1 k' : Kernel σ} {e : Event σ} : Charged P k0 n k → P k e →
      upToDispatch S e k = .ok (some count, k1) → k1.sched.currentPcb = some c →
      dispatch S count k1 = .ok ((), k') →
      Charged P k0 (if Loses c (tickSpan count k1.sched) k1.sched then 0
        else n + tickSpan count k1.sched) k'

/-- The timer is set for some of what is left of the quantum. -/
structure Timed (s : Sched) : Prop where
  pos : 1 ≤ s.prevTicks
  le : s.prevTicks ≤ s.quantumLeft
  quantum : s.quantumLeft ≤ 10
  delay : s.timer.delay = s.prevTicks * s.oneMs
  fits : s.prevTicks * s.oneMs < 2 ^ 32

/-- In the runs made of steps allowed by `P`, the timer is always set for at least one and at most
the rest of ten milliseconds, no process is charged more than ten, and one that is ready is put back
exactly when it has been charged ten. -/
def QuantumAccounting (P : Kernel σ → Event σ → Prop) (k0 : Kernel σ) : Prop :=
  ∀ n k, Charged S P k0 n k → Timed k.sched ∧
    ∀ e count k1, P k e → upToDispatch S e k = .ok (some count, k1) →
      ∃ c, k1.sched.currentPcb = some c ∧ n + tickSpan count k1.sched ≤ 10 ∧
        (∀ k', dispatch S count k1 = .ok ((), k') →
          Picks (turn c (tickSpan count k1.sched) k1.sched) k'.sched) ∧
        ((k1.sched.pcbs c).state = .ready →
          (c ∈ (turn c (tickSpan count k1.sched) k1.sched).queues (k1.sched.pcbs c).priority ↔
            n + tickSpan count k1.sched = 10))

variable {S} {k k' k0 : Kernel σ} {s s' : Sched} {c d n ms count : ℕ}
  {P : Kernel σ → Event σ → Prop}

/-- Every run is one with charges. -/
theorem Run.charged (h0 : AfterInit S k0) (hP : ∀ k e, P k e → ForksOutside S k e)
    (hr : Run S P k0 k) : ∃ n, Charged S P k0 n k := by
  induction hr with
  | start => exact ⟨0, .start⟩
  | @next k k' e hr hp hstep ih =>
    obtain ⟨n, hn⟩ := ih
    obtain ⟨c, hc, hinv, hready⟩ := hr.steady h0.steady.1 hP
    have hup := wp_upToDispatch (S := S) (E := Anything) hc hinv hready (fun _ _ => trivial)
      (hP _ _ hp)
    rw [step_eq] at hstep
    cases hcall : upToDispatch S e k with
    | error x =>
      have herr : (upToDispatch S e >>= dispatchIf S) k = .error x := by
        simp only [bind, StateT.bind, hcall, Except.bind]
      rw [herr] at hstep
      cases hstep
    | ok r =>
      obtain ⟨r, k1⟩ := r
      have hrest : dispatchIf S r k1 = .ok ((), k') := by
        rw [← hstep]
        simp only [bind, StateT.bind, hcall, Except.bind]
      cases r with
      | none =>
        cases hrest
        exact ⟨n, hn.quiet hp hcall⟩
      | some count => exact ⟨_, hn.dispatch hp hcall (hup.ok hcall).called.currentPcb hrest⟩

/-! ## What `dispatch` measures and sets -/

lemma Timed.tickSpan_le (h : Timed s) : tickSpan count s ≤ s.prevTicks := by
  rw [tickSpan, h.delay]
  rcases Nat.eq_zero_or_pos s.oneMs with hz | hpos
  · rw [hz, Nat.div_zero]
    exact Nat.zero_le _
  · refine (Nat.div_le_div_right (Nat.sub_le _ _)).trans ?_
    rw [Nat.mul_div_cancel _ hpos]

lemma nextTicks_pos (hq : s.quantumLeft ≠ 0) : 1 ≤ nextTicks d s := by
  rw [nextTicks]
  split
  · rename_i h
    exact h.1
  · exact Nat.pos_of_ne_zero hq

lemma nextTicks_le : nextTicks d s ≤ s.quantumLeft := by
  rw [nextTicks]
  split
  · rename_i h
    exact h.2.le
  · exact le_rfl

lemma afterTick_oneMs (d : ℕ) (s : Sched) : (afterTick d s).oneMs = s.oneMs := by
  unfold afterTick
  split
  · rfl
  · split <;> rfl

lemma retire_oneMs (c : ℕ) (s : Sched) : (retire c s).oneMs = s.oneMs := by
  rw [retire]
  split
  · rfl
  · rfl
  · split <;> rfl

/-- The quantum after `dispatch` has charged it or made it whole. -/
lemma turn_quantumLeft (hrun : (s.pcbs c).state ≠ .running) : (turn c d s).quantumLeft
    = if Loses c d s then 10 else s.quantumLeft - d := by
  have hstate : ((charge d s).pcbs c).state = (s.pcbs c).state := rfl
  have hquantum : (turn c d s).quantumLeft = (retire c (charge d s)).quantumLeft :=
    afterTick_quantumLeft _ _
  rw [hquantum]
  cases hs : (s.pcbs c).state with
  | running => exact absurd hs hrun
  | killed =>
    rw [retire_killed (hstate.trans hs), if_pos (.inl (by rw [hs]; decide))]
    rfl
  | sleeping =>
    rw [retire_sleeping (hstate.trans hs), if_pos (.inl (by rw [hs]; decide))]
    rfl
  | ready =>
    by_cases hq : s.quantumLeft ≤ d
    · rw [retire_spent (hstate.trans hs) (charge_spent.mpr hq), if_pos (.inr hq)]
      rfl
    · rw [retire_stays (hstate.trans hs) (fun h0 => hq (charge_spent.mp h0)),
        if_neg (show ¬ Loses c d s from not_or.mpr ⟨not_not.mpr hs, hq⟩)]
      show (if s.quantumLeft < d then 0 else s.quantumLeft - d) = _
      rw [if_neg (by omega)]

lemma turn_oneMs : (turn c d s).oneMs = s.oneMs :=
  (afterTick_oneMs d _).trans (retire_oneMs c _)

/-- After `dispatch` the timer is set for some of what is left. -/
lemma timed_armed (hle : s.quantumLeft ≤ 10) (hticks : 1 ≤ s.prevTicks)
    (hprev : s.prevTicks ≤ s.quantumLeft) (hms : 10 * s.oneMs < 2 ^ 32) : Timed (armed s) := by
  have hfits : s.prevTicks * s.oneMs < 2 ^ 32 :=
    (Nat.mul_le_mul_right _ (hprev.trans hle)).trans_lt hms
  exact ⟨hticks, hprev, hle, Nat.mod_eq_of_lt hfits, hfits⟩

/-- What a process has been charged and what it has left are its quantum. -/
structure Accounted (n : ℕ) (s : Sched) : Prop where
  steady : Steady s
  timed : Timed s
  whole : n + s.quantumLeft = 10
  fits : 10 * s.oneMs < 2 ^ 32

lemma Picks.accounted (hp : Picks (turn c d s) s') (hc : s.currentPcb = some c)
    (h : SchedInv [c] s) (hrun : (s.pcbs c).state ≠ .running) (hwhole : n + s.quantumLeft = 10)
    (hd : d ≤ s.quantumLeft) (hfits : 10 * s.oneMs < 2 ^ 32) :
    Accounted (if Loses c d s then 0 else n + d) s' := by
  have hsteady := (hp.dispatched hc h hrun).steady
  have hq := turn_quantumLeft (d := d) hrun
  have hms : (turn c d s).oneMs = s.oneMs := turn_oneMs
  have hprev : (turn c d s).prevTicks = nextTicks d (retire c (charge d s)) := rfl
  have hquantum : (retire c (charge d s)).quantumLeft = (turn c d s).quantumLeft :=
    (afterTick_quantumLeft _ _).symm
  have hwhole' : (if Loses c d s then 0 else n + d) + (turn c d s).quantumLeft = 10 := by
    rw [hq]
    split <;> omega
  have hne : (turn c d s).quantumLeft ≠ 0 := by
    rw [hq]
    split
    · decide
    · rename_i hkeeps
      rw [Loses, not_or] at hkeeps
      omega
  have hle : (turn c d s).quantumLeft ≤ 10 := by omega
  have hticks : 1 ≤ (turn c d s).prevTicks := by
    rw [hprev]
    exact nextTicks_pos (by rw [hquantum]; exact hne)
  have hticks' : (turn c d s).prevTicks ≤ (turn c d s).quantumLeft := by
    rw [hprev, ← hquantum]
    exact nextTicks_le
  cases hp with
  | keep hcur =>
    exact ⟨hsteady, timed_armed hle hticks hticks' (by rw [hms]; exact hfits), hwhole', hms ▸ hfits⟩
  | @take i next rest hcur hi hfirst hqueue =>
    refine ⟨hsteady, timed_armed hle hticks hticks' ?_, hwhole', ?_⟩
    · show 10 * (turn c d s).oneMs < 2 ^ 32
      rw [hms]
      exact hfits
    · show 10 * (turn c d s).oneMs < 2 ^ 32
      rw [hms]
      exact hfits

/-! ## Runs -/

lemma AfterInit.accounted (h : AfterInit S k) : Accounted 0 k.sched := by
  have hsteady := h.steady.1
  obtain ⟨blocks, pcbs, tsc, w, -, -, htsc, hrun⟩ := h
  have hfits := timerOneMs_fits htsc
  have hinit : wp (createInitProcess S tsc) (fun _ k => Timed k.sched ∧ k.sched.quantumLeft = 10 ∧
      10 * k.sched.oneMs < 2 ^ 32) Anything ⟨schedulerInit blocks pcbs, w⟩ := by
    rw [createInitProcess, wp_bind, wp_onSched]
    refine wp_allocPcb (fun _ => trivial) fun c free hfree => ?_
    rw [wp_bind, wp_onSched, wp_modify, wp_bind]
    refine wp_onWorld_of (fun image w => ?_) fun _ => trivial
    rw [wp_onSched, wp_bind, wp_modify, wp_bind, wp_modify]
    exact wp_armTimer_of ⟨timed_armed le_rfl (Nat.le_add_left 1 9) le_rfl hfits, rfl, hfits⟩
  obtain ⟨htimed, hq, hms⟩ := hinit.ok hrun
  exact ⟨hsteady, htimed, by rw [hq], hms⟩

/-- Up to the call of `dispatch` nothing that is set changes. -/
lemma Called.accounted {t : ℕ} (h : Called c t s s') (ha : Accounted n s) :
    Timed s' ∧ n + s'.quantumLeft = 10 ∧ 10 * s'.oneMs < 2 ^ 32 := by
  obtain ⟨hpos, hle, hquantum, hdelay, hfits⟩ := ha.timed
  rw [← h.times.prevTicks, ← h.times.quantumLeft] at hle
  rw [← h.times.prevTicks] at hpos
  rw [← h.times.quantumLeft] at hquantum
  rw [← h.times.prevTicks, ← h.times.oneMs, ← h.delay] at hdelay
  rw [← h.times.prevTicks, ← h.times.oneMs] at hfits
  refine ⟨⟨hpos, hle, hquantum, hdelay, hfits⟩, ?_, ?_⟩
  · rw [h.times.quantumLeft]
    exact ha.whole
  · rw [h.times.oneMs]
    exact ha.fits

theorem Charged.accounted (h0 : AfterInit S k0) (hP : ∀ k e, P k e → ForksOutside S k e)
    (hr : Charged S P k0 n k) : Accounted n k.sched := by
  induction hr with
  | start => exact h0.accounted
  | @quiet n k k' e _ hp hcall ih =>
    obtain ⟨c, hc, hinv, hready⟩ := ih.steady
    have hup := (wp_upToDispatch (S := S) (E := Anything) hc hinv hready
      (fun _ _ => trivial) (hP _ _ hp)).ok hcall
    obtain ⟨htimed, hwhole, hfits⟩ := hup.called.accounted ih
    exact ⟨⟨c, hup.called.currentPcb, hup.called.inv, (hup.quiet hup.result.symm).2⟩, htimed,
      hwhole, hfits⟩
  | @dispatch n c count k k1 k' e _ hp hcall hc1 hdispatch ih =>
    obtain ⟨c', hc, hinv, hready⟩ := ih.steady
    have hcalled := ((wp_upToDispatch (S := S) (E := Anything) hc hinv hready (fun _ _ => trivial)
      (hP _ _ hp)).ok hcall).called
    have hcc : c' = c := Option.some.inj (hcalled.currentPcb.symm.trans hc1)
    subst hcc
    obtain ⟨htimed, hwhole, hfits⟩ := hcalled.accounted ih
    have hpicks := (wp_dispatch (E := Anything) hc1 hcalled.inv hcalled.notRunning
      (fun _ _ => trivial) (fun _ _ => trivial) count).ok hdispatch
    exact hpicks.accounted hc1 hcalled.inv hcalled.notRunning hwhole
      (htimed.tickSpan_le.trans htimed.le) hfits

/-- If no `fork` stores to the scheduler's memory, every process gets its quantum. -/
theorem quantumAccounting (h0 : AfterInit S k0) : QuantumAccounting S (ForksOutside S) k0 := by
  intro n k hr
  have ha := hr.accounted h0 fun _ _ h => h
  refine ⟨ha.timed, fun e count k1 hforks hcall => ?_⟩
  obtain ⟨c, hc, hinv, hready⟩ := ha.steady
  have hcalled := ((wp_upToDispatch (S := S) (E := Anything) hc hinv hready (fun _ _ => trivial)
    hforks).ok hcall).called
  obtain ⟨htimed, hwhole, hfits⟩ := hcalled.accounted ha
  have hle : tickSpan count k1.sched ≤ k1.sched.quantumLeft := htimed.tickSpan_le.trans htimed.le
  refine ⟨c, hcalled.currentPcb, by omega, fun k' hdispatch => ?_, fun hstate => ?_⟩
  · exact (wp_dispatch (E := Anything) hcalled.currentPcb hcalled.inv hcalled.notRunning
      (fun _ _ => trivial) (fun _ _ => trivial) count).ok hdispatch
  · set d := tickSpan count k1.sched with hd
    have hprio : (k1.sched.pcbs c).priority < numQueues := hcalled.inv.priority c List.mem_cons_self
    constructor
    · intro hmem
      by_contra hten
      have hkeeps : ¬ Loses c d k1.sched := by
        rw [Loses, not_or, not_not]
        exact ⟨hstate, by omega⟩
      have hcur : (turn c d k1.sched).currentPcb ≠ none :=
        fun hno => hkeeps ((turn_currentPcb hcalled.currentPcb hcalled.notRunning).mp hno)
      obtain ⟨-, hinv', -, -⟩ := hcalled.inv.turn_kept hcalled.currentPcb hcalled.notRunning hcur
      exact hinv'.not_mem_ready List.mem_cons_self (mem_readyList.mpr ⟨_, hprio, hmem⟩)
    · intro hten
      have hback : requeued c d k1.sched = [c] := by
        rw [requeued, if_pos ⟨hstate, by omega⟩]
      rw [queues_turn hcalled.notRunning, hback, List.mem_append, List.mem_filter]
      refine .inr ⟨List.mem_append_left _ List.mem_cons_self, decide_eq_true rfl⟩

/-! ## With two children -/

/-- The timer interrupt that ends the first quantum charges ten milliseconds and puts the process
back; the timer is set again. -/
theorem quantumAccounting_twoForks : ∃ n k1, Charged registers (ForksOutside registers)
      (atInit firstPcb 0 0x600000) n twoForks ∧
    upToDispatch registers (.timer 0) twoForks = .ok (some 0, k1) ∧
    n + tickSpan 0 k1.sched ≤ 10 ∧
    (1 ∈ (turn 1 (tickSpan 0 k1.sched) k1.sched).queues 1 ↔ n + tickSpan 0 k1.sched = 10) ∧
    Timed (after registers [.timer 0] twoForks).sched := by
  have hP : ∀ k e, ForksOutside registers k e → ForksOutside registers k e := fun _ _ h => h
  have h0 := afterInit_atInit 0 0x600000
  obtain ⟨n, hn⟩ := run_twoForks.charged h0 hP
  have htimer : Returning registers (ForksOutside registers) [.timer 0] twoForks :=
    ⟨trivial, rfl, trivial⟩
  obtain ⟨m, hm⟩ := (run_twoForks.after htimer).charged h0 hP
  obtain ⟨c, hc, hle, -, hback⟩ := (quantumAccounting h0 n _ hn).2 (.timer 0) 0 _ trivial rfl
  obtain rfl : 1 = c := Option.some.inj hc
  exact ⟨n, _, hn, rfl, hle, hback rfl, (quantumAccounting h0 m _ hm).1⟩

/-- The first process passes `&quantum_left` to `fork`: it is put back without having been
charged. -/
theorem not_quantumAccounting : ∃ k0 : Kernel (Word × Word), AfterInit registers k0 ∧
    ¬ QuantumAccounting registers (fun _ _ => True) k0 := by
  refine ⟨atInit firstPcb 0 quantumLeftAddress, afterInit_atInit 0 _, fun h => ?_⟩
  obtain ⟨c, hc, -, -, hback⟩ := (h 0 _ .start).2 (.syscall 100) 100 _ trivial rfl
  obtain rfl : 1 = c := Option.some.inj hc
  exact absurd ((hback rfl).mp (by decide)) (by decide)

end Bikeshed.Scheduler
