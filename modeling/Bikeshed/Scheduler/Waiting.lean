import Bikeshed.Scheduler.Quantum

/-!
# How long a process waits

A process on a ready queue is overtaken only by processes of higher priority: of the others each
one ahead of it in its queue gets the processor once, in order, and nobody else. `Turns` is a part
of a run with the processes that got the processor on the way.
-/

namespace Bikeshed.Scheduler

open Lib

variable {σ : Type} (S : Services σ)

/-- The states that steps allowed by `P` lead to from `k0`, with the milliseconds measured on the
way and the processes that were picked, each with its priority at that time. -/
inductive Turns (P : Kernel σ → Event σ → Prop) (k0 : Kernel σ) :
    ℕ → List (ℕ × ℕ) → Kernel σ → Prop
  | start : Turns P k0 0 [] k0
  | quiet {ms : ℕ} {turns : List (ℕ × ℕ)} {k k' : Kernel σ} {e : Event σ} :
      Turns P k0 ms turns k → P k e → upToDispatch S e k = .ok (none, k') → Turns P k0 ms turns k'
  | keep {ms c count : ℕ} {turns : List (ℕ × ℕ)} {k k1 k' : Kernel σ} {e : Event σ} :
      Turns P k0 ms turns k → P k e → upToDispatch S e k = .ok (some count, k1) →
      k1.sched.currentPcb = some c → ¬ Loses c (tickSpan count k1.sched) k1.sched →
      dispatch S count k1 = .ok ((), k') → Turns P k0 (ms + tickSpan count k1.sched) turns k'
  | pick {ms c next count : ℕ} {turns : List (ℕ × ℕ)} {k k1 k' : Kernel σ} {e : Event σ} :
      Turns P k0 ms turns k → P k e → upToDispatch S e k = .ok (some count, k1) →
      k1.sched.currentPcb = some c → Loses c (tickSpan count k1.sched) k1.sched →
      dispatch S count k1 = .ok ((), k') → k'.sched.currentPcb = some next →
      Turns P k0 (ms + tickSpan count k1.sched)
        (turns ++ [(next, (k'.sched.pcbs next).priority)]) k'

/-- The processes picked that are not of a higher priority than `i`. -/
def notHigher (i : ℕ) (turns : List (ℕ × ℕ)) : List ℕ :=
  (turns.filter fun x => i ≤ x.2).map Prod.fst

variable {S} {k k' k0 : Kernel σ} {s s' : Sched} {c d i p ms n : ℕ} {turns : List (ℕ × ℕ)}
  {ahead behind : List ℕ} {P : Kernel σ → Event σ → Prop}

lemma notHigher_append (x : ℕ × ℕ) :
    notHigher i (turns ++ [x]) = notHigher i turns ++ if i ≤ x.2 then [x.1] else [] := by
  rw [notHigher, List.filter_append, List.map_append, notHigher]
  by_cases hx : i ≤ x.2
  · simp [hx]
  · simp [hx]

/-! ## One turn -/

lemma grows_turn (hrun : (s.pcbs c).state ≠ .running) : Grows s (turn c d s) := fun i => by
  rw [queues_turn hrun]
  exact List.prefix_append _ _

/-- `p` is on queue `i`, behind the processes `ahead`. -/
def WaitsBehind (i p : ℕ) (ahead behind : List ℕ) (s : Sched) : Prop :=
  ∃ more, s.queues i = ahead ++ p :: (behind ++ more)

lemma WaitsBehind.grows (h : WaitsBehind i p ahead behind s) (hg : Grows s s') :
    WaitsBehind i p ahead behind s' := by
  obtain ⟨more, hq⟩ := h
  obtain ⟨late, hlate⟩ := hg i
  refine ⟨more ++ late, ?_⟩
  rw [← hlate, hq]
  simp

/-- Nobody else is picked from the queues at `i` and below but the first of those ahead. -/
lemma Picks.waitsBehind {next : ℕ} (hp : Picks (turn c d s) s') (hb : ByPriority s)
    (hi : i < numQueues) (hc : s.currentPcb = some c) (hrun : (s.pcbs c).state ≠ .running)
    (hl : Loses c d s) (hnext : s'.currentPcb = some next) (hne : next ≠ p)
    (hw : WaitsBehind i p ahead behind s) :
    ∃ ahead', ahead = (if i ≤ (s'.pcbs next).priority then [next] else []) ++ ahead' ∧
      WaitsBehind i p ahead' behind s' := by
  obtain ⟨more, hq⟩ := hw.grows (grows_turn (d := d) hrun)
  have ht : ByPriority (turn c d s) := hb.turn
  cases hp with
  | keep hcur => exact absurd ((turn_currentPcb hc hrun).mpr hl) hcur
  | @take j first rest hcur hj hfirst hqueue =>
    have hfirst' : first = next := Option.some.inj hnext
    subst hfirst'
    have hprio : ((turn c d s).pcbs first).priority = j :=
      ht j hj first (hqueue ▸ List.mem_cons_self)
    have hprio' : ((armed { dequeueReady j rest (turn c d s) with
        currentPcb := some first }).pcbs first).priority = j := hprio
    rw [hprio']
    have hle : j ≤ i := by
      by_contra hlt
      rw [hfirst i (by omega)] at hq
      simp at hq
    by_cases hji : j = i
    · -- it is the first of the queue that `p` is on
      subst hji
      rw [if_pos le_rfl]
      rw [hqueue] at hq
      cases ahead with
      | nil =>
        rw [List.nil_append] at hq
        exact absurd (List.cons.inj hq).1 hne
      | cons x ahead =>
        rw [List.cons_append] at hq
        obtain ⟨hx, hrest⟩ := List.cons.inj hq
        refine ⟨ahead, by rw [hx]; rfl, more, ?_⟩
        rw [← hrest]
        exact Function.update_self _ _ _
    · rw [if_neg (by omega)]
      refine ⟨ahead, rfl, more, ?_⟩
      rw [← hq]
      exact Function.update_of_ne (Ne.symm hji) _ _

/-- Nobody is picked at all. -/
lemma Picks.waits_kept (hp : Picks (turn c d s) s') (hc : s.currentPcb = some c)
    (hrun : (s.pcbs c).state ≠ .running) (hl : ¬ Loses c d s)
    (hw : WaitsBehind i p ahead behind s) : WaitsBehind i p ahead behind s' := by
  cases hp with
  | keep hcur => exact hw.grows (grows_turn hrun)
  | take hcur => exact absurd ((turn_currentPcb hc hrun).mp hcur) hl

/-! ## Runs -/

lemma step_cases {e : Event σ} (h : step S e k = .ok ((), k')) :
    ∃ r k1, upToDispatch S e k = .ok (r, k1) ∧ dispatchIf S r k1 = .ok ((), k') := by
  rw [step_eq] at h
  cases hcall : upToDispatch S e k with
  | error x => simp [bind, StateT.bind, hcall, Except.bind] at h
  | ok r => exact ⟨r.1, r.2, rfl, by simpa [bind, StateT.bind, hcall, Except.bind] using h⟩

/-- Every part of a run is one with turns. -/
theorem Run.exists_turns (h : Steady k.sched) (hP : ∀ k e, P k e → ForksOutside S k e)
    (hr : Run S P k k') : ∃ ms turns, Turns S P k ms turns k' := by
  induction hr with
  | start => exact ⟨0, [], .start⟩
  | @next k1 k' e hr hp hstep ih =>
    obtain ⟨ms, turns, ht⟩ := ih
    obtain ⟨c, hc, hinv, hready⟩ := hr.steady h hP
    have hup := wp_upToDispatch (S := S) (E := Anything) hc hinv hready (fun _ _ => trivial)
      (hP _ _ hp)
    obtain ⟨r, k2, hcall, hrest⟩ := step_cases hstep
    have hcalled := (hup.ok hcall).called
    cases r with
    | none =>
      cases hrest
      exact ⟨ms, turns, ht.quiet hp hcall⟩
    | some count =>
      by_cases hl : Loses c (tickSpan count k2.sched) k2.sched
      · have hpicks := (wp_dispatch (E := Anything) hcalled.currentPcb hcalled.inv
          hcalled.notRunning (fun _ _ => trivial) (fun _ _ => trivial) count).ok hrest
        obtain ⟨next, hnext, -⟩ :=
          (hpicks.dispatched hcalled.currentPcb hcalled.inv hcalled.notRunning).steady
        exact ⟨_, _, ht.pick hp hcall hcalled.currentPcb hl hrest hnext⟩
      · exact ⟨_, _, ht.keep hp hcall hcalled.currentPcb hl hrest⟩

/-- What is known where `dispatch` is called. -/
lemma Charged.atCall {e : Event σ} {k1 : Kernel σ} {count : ℕ} (h0 : AfterInit S k0)
    (hP : ∀ k e, P k e → ForksOutside S k e) (hr : Charged S P k0 n k) (hp : P k e)
    (hcall : upToDispatch S e k = .ok (some count, k1)) (hc : k1.sched.currentPcb = some c) :
    SchedInv [c] k1.sched ∧ (k1.sched.pcbs c).state ≠ .running ∧
      (ByPriority k.sched → ByPriority k1.sched) ∧ Grows k.sched k1.sched ∧
      n + tickSpan count k1.sched ≤ 10 := by
  have ha := hr.accounted h0 hP
  obtain ⟨c', hc', hinv, hready⟩ := ha.steady
  have hcalled := ((wp_upToDispatch (S := S) (E := Anything) hc' hinv hready (fun _ _ => trivial)
    (hP _ _ hp)).ok hcall).called
  have hcc : c' = c := Option.some.inj (hcalled.currentPcb.symm.trans hc)
  subst hcc
  obtain ⟨htimed, hwhole, -⟩ := hcalled.accounted ha
  have hle : tickSpan count k1.sched ≤ k1.sched.quantumLeft := htimed.tickSpan_le.trans htimed.le
  exact ⟨hcalled.inv, hcalled.notRunning, hcalled.byPriority, hcalled.grows, by omega⟩

/-- Each turn takes ten milliseconds at most. -/
lemma Turns.time_le (h0 : AfterInit S k0) (hP : ∀ k e, P k e → ForksOutside S k e)
    (hr : Charged S P k0 n k) (ht : Turns S P k ms turns k') :
    ∃ n', Charged S P k0 n' k' ∧ ms ≤ 10 * turns.length + n' := by
  induction ht with
  | start => exact ⟨n, hr, Nat.zero_le _⟩
  | quiet _ hp hcall ih =>
    obtain ⟨n', hn', hle⟩ := ih
    exact ⟨n', hn'.quiet hp hcall, hle⟩
  | keep _ hp hcall hc hl hrun ih =>
    obtain ⟨n', hn', hle⟩ := ih
    refine ⟨_, hn'.dispatch hp hcall hc hrun, ?_⟩
    rw [if_neg hl]
    omega
  | pick _ hp hcall hc hl hrun _ ih =>
    obtain ⟨n', hn', hle⟩ := ih
    obtain ⟨-, -, -, -, hten⟩ := hn'.atCall h0 hP hp hcall hc
    refine ⟨_, hn'.dispatch hp hcall hc hrun, ?_⟩
    rw [if_pos hl, List.length_append, List.length_singleton]
    omega

/-- By induction on the turns: `p` stays where it is until those ahead of it have had theirs. -/
lemma Turns.waitsBehind (h0 : AfterInit S k0) (hP : ∀ k e, P k e → ForksOutside S k e)
    (hr : Charged S P k0 n k) (hb : ByPriority k.sched) (hi : i < numQueues)
    (hw : WaitsBehind i p ahead behind k.sched) (ht : Turns S P k ms turns k') :
    ByPriority k'.sched ∧ ((∀ x ∈ turns, x.1 ≠ p) →
      ∃ ahead', ahead = notHigher i turns ++ ahead' ∧ WaitsBehind i p ahead' behind k'.sched) := by
  induction ht with
  | start => exact ⟨hb, fun _ => ⟨ahead, rfl, hw⟩⟩
  | @quiet ms turns k1 k' e ht hp hcall ih =>
    obtain ⟨n', hn', -⟩ := ht.time_le h0 hP hr
    obtain ⟨c, hc, hinv, hready⟩ := (hn'.accounted h0 hP).steady
    have hcalled := ((wp_upToDispatch (S := S) (E := Anything) hc hinv hready (fun _ _ => trivial)
      (hP _ _ hp)).ok hcall).called
    refine ⟨hcalled.byPriority ih.1, fun hnot => ?_⟩
    obtain ⟨ahead', hahead, hw'⟩ := ih.2 hnot
    exact ⟨ahead', hahead, hw'.grows hcalled.grows⟩
  | @keep ms c count turns k1 k2 k' e ht hp hcall hc hl hrun ih =>
    obtain ⟨n', hn', -⟩ := ht.time_le h0 hP hr
    obtain ⟨hinv, hnot, hprio, hgrows, -⟩ := hn'.atCall h0 hP hp hcall hc
    have hpicks := (wp_dispatch (E := Anything) hc hinv hnot (fun _ _ => trivial)
      (fun _ _ => trivial) count).ok hrun
    refine ⟨hpicks.byPriority (hprio ih.1), fun hwait => ?_⟩
    obtain ⟨ahead', hahead, hw'⟩ := ih.2 hwait
    exact ⟨ahead', hahead, hpicks.waits_kept hc hnot hl (hw'.grows hgrows)⟩
  | @pick ms c next count turns k1 k2 k' e ht hp hcall hc hl hrun hnext ih =>
    obtain ⟨n', hn', -⟩ := ht.time_le h0 hP hr
    obtain ⟨hinv, hnot, hprio, hgrows, -⟩ := hn'.atCall h0 hP hp hcall hc
    have hpicks := (wp_dispatch (E := Anything) hc hinv hnot (fun _ _ => trivial)
      (fun _ _ => trivial) count).ok hrun
    refine ⟨hpicks.byPriority (hprio ih.1), fun hwait => ?_⟩
    obtain ⟨ahead', hahead, hw'⟩ := ih.2 fun x hx => hwait x (List.mem_append_left _ hx)
    have hne : next ≠ p := hwait _ (List.mem_append_right _ (List.mem_singleton_self _))
    obtain ⟨ahead'', hsplit, hw''⟩ := hpicks.waitsBehind (hprio ih.1) hi hc hnot hl hnext hne
      (hw'.grows hgrows)
    refine ⟨ahead'', ?_, hw''⟩
    rw [notHigher_append, List.append_assoc, ← hsplit]
    exact hahead

/-- As long as no `fork` stores to the scheduler's memory: until a process on a ready queue is
picked, of those that do not come before it by priority the ones ahead of it are picked, each once
and in their order, and each process picked is charged ten milliseconds at most. -/
theorem bounded_waiting (h0 : AfterInit S k0) (hr : Run S (ForksOutside S) k0 k)
    (hi : i < numQueues) (hq : k.sched.queues i = ahead ++ p :: behind)
    (ht : Turns S (ForksOutside S) k ms turns k') (hwait : ∀ x ∈ turns, x.1 ≠ p) :
    (∃ ahead', ahead = notHigher i turns ++ ahead' ∧
      WaitsBehind i p ahead' behind k'.sched) ∧ ms ≤ 10 * (turns.length + 1) := by
  have hP : ∀ k e, ForksOutside S k e → ForksOutside S k e := fun _ _ h => h
  obtain ⟨n, hn⟩ := hr.charged h0 hP
  have hw : WaitsBehind i p ahead behind k.sched := ⟨[], by rw [hq, List.append_nil]⟩
  constructor
  · exact (ht.waitsBehind h0 hP hn (hr.byPriority h0 hP) hi hw).2 hwait
  · obtain ⟨n', hn', hle⟩ := ht.time_le h0 hP hn
    have hwhole := (hn'.accounted h0 hP).whole
    omega

/-- When the quantum of the first process is spent, the second child is next. -/
theorem bounded_waiting_twoForks :
    Turns registers (ForksOutside registers) twoForks 10 [(2, 1)]
        (after registers [.timer 0] twoForks) ∧
      WaitsBehind 1 3 [] [] (after registers [.timer 0] twoForks).sched := by
  have hstep : step registers (.timer 0) twoForks
      = .ok ((), after registers [.timer 0] twoForks) := rfl
  obtain ⟨r, k1, hcall, hlast⟩ := step_cases hstep
  have hr : r = some 0 := by
    cases hcall
    rfl
  have hk1 : k1.sched.currentPcb = some 1 ∧ Loses 1 (tickSpan 0 k1.sched) k1.sched ∧
      tickSpan 0 k1.sched = 10 := by
    cases hcall
    decide
  subst hr
  have ht : Turns registers (ForksOutside registers) twoForks (0 + tickSpan 0 k1.sched) [(2, 1)]
      (after registers [.timer 0] twoForks) :=
    Turns.pick .start trivial hcall hk1.1 hk1.2.1 hlast rfl
  rw [hk1.2.2] at ht
  have hq : twoForks.sched.queues 1 = [2] ++ 3 :: [] := rfl
  obtain ⟨⟨ahead', hahead, hw⟩, -⟩ := bounded_waiting (afterInit_atInit 0 0x600000) run_twoForks
    (by decide) hq ht (by decide)
  have hnil : [] = ahead' := (List.cons.inj hahead).2
  rw [← hnil] at hw
  exact ⟨ht, hw⟩

end Bikeshed.Scheduler
