import Bikeshed.Scheduler.Sleepers

/-!
# How long a process sleeps

Time that `dispatch` measures is taken from the head of the sleep queue, after the process that
called it has been inserted. A sleep is cut short by time that had passed before, and by a
process that is inserted in between.
-/

namespace Bikeshed.Scheduler

open Lib

variable {σ : Type} (S : Services σ)

/-- The states that steps allowed by `P` lead to, with the milliseconds measured on the way. -/
inductive Elapsed (P : Kernel σ → Event σ → Prop) (k0 : Kernel σ) : ℕ → Kernel σ → Prop
  | start : Elapsed P k0 0 k0
  | next {n : ℕ} {k k' : Kernel σ} {e : Event σ} : Elapsed P k0 n k → P k e →
      step S e k = .ok ((), k') → Elapsed P k0 (n + (measured S k e).getD 0) k'

/-- In the runs made of steps allowed by `P`, a process that asks to sleep for `t` milliseconds
is on the sleep queue until so many have been measured. -/
def NoEarlyWake (P : Kernel σ → Event σ → Prop) (k0 : Kernel σ) : Prop :=
  ∀ k1 e k2 p n k3, Run S P k0 k1 → P k1 e → step S e k1 = .ok ((), k2) →
    k1.sched.currentPcb = some p → sleepTime S k1 e ≠ 0 → Elapsed S P k2 n k3 →
    p ∉ k3.sched.sleepQueue → sleepTime S k1 e ≤ n

/-- The process goes to sleep at an end of the queue, and no time that has passed is taken off:
there is none, or the head of the queue has none left. -/
def SleepsWell (k : Kernel σ) (e : Event σ) : Prop :=
  sleepTime S k e ≠ 0 →
    AtAnEnd (sleepTimes k.sched.pcbs) (sleepTime S k e) k.sched.sleepQueue ∧
    (measured S k e = some 0 ∨ ∃ h rest, k.sched.sleepQueue = h :: rest ∧
      (k.sched.pcbs h).sleepTime = 0)

variable {S} {k k' k0 : Kernel σ} {s s' : Sched} {held : List ℕ} {c d p t n : ℕ}

/-! ## Wake times -/

lemma SameSleepers.wakeTime (h : SameSleepers s s') : wakeTime s' p = wakeTime s p := by
  rw [Scheduler.wakeTime, Scheduler.wakeTime, h.1]
  refine due_congr fun q hq => ?_
  rw [sleepTimes, h.2 q hq]
  rfl

lemma atAnEnd_congr {δ δ' : ℕ → ℕ} {q : List ℕ} (h : ∀ x ∈ q, δ' x = δ x) :
    AtAnEnd δ' t q ↔ AtAnEnd δ t q := by
  cases q with
  | nil => exact Iff.rfl
  | cons x rest =>
    rw [AtAnEnd, AtAnEnd, h x List.mem_cons_self, List.map_congr_left h]

/-- At an end of the queue a process is put where its time says. -/
lemma asleep_wakeTime (h : SchedInv [c] s)
    (hend : t ≠ 0 → AtAnEnd (sleepTimes s.pcbs) t s.sleepQueue) :
    (∀ p ∈ s.sleepQueue, p ∈ (asleep c t s).sleepQueue ∧
      wakeTime (asleep c t s) p = wakeTime s p) ∧
    (t ≠ 0 → c ∈ (asleep c t s).sleepQueue ∧ wakeTime (asleep c t s) c = t) := by
  rw [asleep]
  split
  · rename_i ht
    exact ⟨fun p hp => ⟨hp, rfl⟩, fun hne => absurd ht hne⟩
  · rename_i ht
    have hc : c ∉ s.sleepQueue := h.not_mem_sleepQueue List.mem_cons_self
    set s1 := setPcb c (fun r => { r with state := .sleeping, sleepTime := t }) s with hs1
    have hsame : ∀ x ∈ s.sleepQueue, sleepTimes s1.pcbs x = sleepTimes s.pcbs x := by
      intro x hx
      rw [sleepTimes, hs1, setPcb_of_ne _ (ne_of_mem_of_not_mem hx hc)]
      rfl
    have hself : (s1.pcbs c).sleepTime = t := by
      rw [hs1, setPcb_self]
    have hin := inserted_of_atAnEnd (f := s1.pcbs) hc h.nodup_sleepQueue
      (by rw [hself]; exact (atAnEnd_congr hsame).mpr (hend ht))
    have hperm : (enqueueSleeper c s1).sleepQueue.Perm (c :: s.sleepQueue) := queueEnqueuePrio_perm
    refine ⟨fun p hp => ⟨hperm.mem_iff.mpr (List.mem_cons_of_mem _ hp), ?_⟩,
      fun _ => ⟨hperm.mem_iff.mpr List.mem_cons_self, ?_⟩⟩
    · exact (hin.others p hp).trans (due_congr hsame)
    · exact hin.new.trans hself

lemma afterTick_wakeTime (hnd : s.sleepQueue.Nodup) (hp : p ∈ s.sleepQueue) :
    (p ∈ (afterTick d s).sleepQueue ∧ wakeTime s p ≤ d + wakeTime (afterTick d s) p) ∨
      wakeTime s p ≤ d := by
  cases hq : s.sleepQueue with
  | nil => exact absurd hp (hq ▸ List.not_mem_nil)
  | cons h rest =>
    unfold afterTick
    simp only [hq]
    split
    · -- the head is woken, whose time was up
      rename_i hd
      rcases List.mem_cons.mp (hq ▸ hp) with rfl | hp
      · exact .inr ((wakeTime_head hq).trans_le hd)
      · refine .inl ⟨?_, ?_⟩
        · show p ∈ s.sleepQueue.tail
          rw [hq]
          exact hp
        · have hleft := wakeTime_wakeHead hq hnd hp
          omega
    · -- the head waits on, and with it all others, by `d` less
      rename_i hd
      have htick := wakeTime_tickHead (p := p) hq hnd (not_le.mp hd).le
      exact .inl ⟨hp, by omega⟩

/-- Nothing is taken off when no time has passed or the head has none left. -/
lemma afterTick_wakeTime_eq (hnd : s.sleepQueue.Nodup) (hp : p ∈ s.sleepQueue)
    (hpos : wakeTime s p ≠ 0) (hfree : d = 0 ∨ ∃ q ∈ s.sleepQueue, wakeTime s q = 0) :
    p ∈ (afterTick d s).sleepQueue ∧ wakeTime (afterTick d s) p = wakeTime s p := by
  cases hq : s.sleepQueue with
  | nil => exact absurd hp (hq ▸ List.not_mem_nil)
  | cons h rest =>
    have hhead : d = 0 ∨ (s.pcbs h).sleepTime = 0 := by
      refine hfree.imp_right ?_
      rintro ⟨q, -, hzero⟩
      have hle := head_le_wakeTime hq q
      omega
    unfold afterTick
    simp only [hq]
    split
    · -- the head that is woken has no time left, so it is not `p`
      rename_i hd
      have hzero : (s.pcbs h).sleepTime = 0 := by omega
      have hne : p ≠ h := by
        rintro rfl
        exact hpos ((wakeTime_head hq).trans hzero)
      have hrest : p ∈ rest := (List.mem_cons.mp (hq ▸ hp)).resolve_left hne
      refine ⟨?_, ?_⟩
      · show p ∈ s.sleepQueue.tail
        rw [hq]
        exact hrest
      · have hleft := wakeTime_wakeHead hq hnd hrest
        omega
    · rename_i hd
      have htick := wakeTime_tickHead (p := p) hq hnd (not_le.mp hd).le
      exact ⟨hp, by omega⟩

/-! ## One step -/

lemma step_sleepers {e : Event σ} (hc : k.sched.currentPcb = some c) (h : SchedInv [c] k.sched)
    (hready : (k.sched.pcbs c).state = .ready) (hforks : ForksOutside S k e)
    (hstep : step S e k = .ok ((), k')) : SleepersAfter S c k e k'.sched := by
  have hrun : wp (step S e) (fun _ k' => Steady k'.sched ∧ SleepersAfter S c k e k'.sched)
      Anything k := wp_step hc h hready hforks (fun _ _ => trivial) fun _ _ => trivial
  exact (hrun.ok hstep).2

lemma nodup_asleep (h : SchedInv [c] s) : (asleep c t s).sleepQueue.Nodup := by
  rw [asleep]
  split
  · exact h.nodup_sleepQueue
  · have hperm : (enqueueSleeper c
        (setPcb c (fun r => { r with state := .sleeping, sleepTime := t }) s)).sleepQueue.Perm
        (c :: s.sleepQueue) := queueEnqueuePrio_perm
    exact hperm.nodup_iff.mpr (List.nodup_cons.mpr
      ⟨h.not_mem_sleepQueue List.mem_cons_self, h.nodup_sleepQueue⟩)

/-- `p` has waited `t` milliseconds, or is still asleep and waits for the rest of them. -/
def Waits (p t n : ℕ) (s : Sched) : Prop :=
  t ≤ n ∨ p ∈ s.sleepQueue ∧ t ≤ n + wakeTime s p

/-- A step takes from the wait of a process what it has measured. -/
lemma SleepersAfter.waits {e : Event σ} (h : SleepersAfter S c k e s') (hinv : SchedInv [c] k.sched)
    (hwell : SleepsWell S k e) (hw : Waits p t n k.sched) :
    Waits p t (n + (measured S k e).getD 0) s' := by
  rcases hw with hw | ⟨hp, hw⟩
  · exact .inl (Nat.le_add_right_of_le hw)
  rw [SleepersAfter] at h
  cases hd : measured S k e with
  | none =>
    rw [hd] at h
    have h' : SameSleepers k.sched s' := h
    refine .inr ⟨h'.1 ▸ hp, ?_⟩
    rw [h'.wakeTime]
    exact hw
  | some d =>
    rw [hd] at h
    have h' : SameSleepers (afterTick d (asleep c (sleepTime S k e) k.sched)) s' := h
    obtain ⟨hmem, hwake⟩ := (asleep_wakeTime hinv fun ht => (hwell ht).1).1 p hp
    rw [Option.getD_some]
    rcases afterTick_wakeTime (d := d) (nodup_asleep hinv) hmem with ⟨hmem', hle⟩ | hle
    · refine .inr ⟨h'.1 ▸ hmem', ?_⟩
      rw [h'.wakeTime]
      omega
    · exact .inl (by omega)

/-- A process that goes to sleep has all of its time before it. -/
lemma SleepersAfter.waits_new {e : Event σ} (h : SleepersAfter S c k e s')
    (hinv : SchedInv [c] k.sched) (hwell : SleepsWell S k e) (ht : sleepTime S k e ≠ 0)
    (hdispatch : measured S k e ≠ none) : Waits c (sleepTime S k e) 0 s' := by
  obtain ⟨hend, hfree⟩ := hwell ht
  obtain ⟨hothers, hnew⟩ := asleep_wakeTime (t := sleepTime S k e) hinv fun _ => hend
  obtain ⟨hmem, hwake⟩ := hnew ht
  rw [SleepersAfter] at h
  obtain ⟨d, hd⟩ := Option.ne_none_iff_exists'.mp hdispatch
  rw [hd] at h hfree
  have h' : SameSleepers (afterTick d (asleep c (sleepTime S k e) k.sched)) s' := h
  have hfree' : d = 0 ∨ ∃ q ∈ (asleep c (sleepTime S k e) k.sched).sleepQueue,
      wakeTime (asleep c (sleepTime S k e) k.sched) q = 0 := by
    rcases hfree with hzero | ⟨q, rest, hq, hzero⟩
    · exact .inl (Option.some.inj hzero)
    · obtain ⟨hqmem, hqwake⟩ := hothers q (hq ▸ List.mem_cons_self)
      exact .inr ⟨q, hqmem, hqwake.trans ((wakeTime_head hq).trans hzero)⟩
  obtain ⟨hmem', hwake'⟩ := afterTick_wakeTime_eq (nodup_asleep hinv) hmem (by rw [hwake]; exact ht)
    hfree'
  refine .inr ⟨h'.1 ▸ hmem', ?_⟩
  rw [h'.wakeTime, hwake', hwake, Nat.zero_add]

/-- Only `msleep` asks for time, and it comes to `dispatch`. -/
lemma measured_of_sleepTime {e : Event σ} (ht : sleepTime S k e ≠ 0) : measured S k e ≠ none := by
  cases e with
  | user f => exact absurd rfl ht
  | timer count => exact Option.some_ne_none _
  | syscall count =>
    rw [sleepTime] at ht
    rw [measured, syscallNum]
    cases hc : k.sched.currentPcb with
    | none =>
      rw [hc] at ht
      exact absurd rfl ht
    | some pcb =>
      rw [hc] at ht
      simp only at ht ⊢
      cases hr : S.r10 (k.sched.pcbs pcb).context k.world with
      | error x =>
        rw [hr] at ht
        exact absurd rfl ht
      | ok r =>
        obtain ⟨num, w⟩ := r
        rw [hr] at ht
        have hnum : num.toNat = syscallMsleep := by
          by_contra hne
          refine ht ?_
          show askedSleep S num.toNat pcb { k with world := w } = 0
          rw [askedSleep, if_neg hne]
        show (some num.toNat).bind _ ≠ none
        rw [hnum, Option.bind_some, if_neg (by decide)]
        exact Option.some_ne_none _

/-! ## Runs -/

lemma Elapsed.waits (hsteady : Steady k0.sched) (hw : Waits p t 0 k0.sched)
    (hr : Elapsed S (fun k e => SleepsWell S k e ∧ ForksOutside S k e) k0 n k) :
    Steady k.sched ∧ Waits p t n k.sched := by
  induction hr with
  | start => exact ⟨hsteady, hw⟩
  | next _ hallowed hstep ih =>
    obtain ⟨hwell, hforks⟩ := hallowed
    obtain ⟨⟨c, hc, hinv, hready⟩, hw1⟩ := ih
    exact ⟨step_steady ⟨c, hc, hinv, hready⟩ hforks hstep,
      (step_sleepers hc hinv hready hforks hstep).waits hinv hwell hw1⟩

/-- If every process that goes to sleep does so at an end of the queue and with no time to be
taken off, and no `fork` stores to the scheduler's memory, nobody is woken too soon. -/
theorem noEarlyWake (h0 : AfterInit S k0) :
    NoEarlyWake S (fun k e => SleepsWell S k e ∧ ForksOutside S k e) k0 := by
  intro k1 e k2 p n k3 hr1 hallowed hstep hp ht hr2 hawake
  obtain ⟨hwell, hforks⟩ := hallowed
  obtain ⟨c, hc, hinv, hready⟩ := hr1.steady h0.steady.1 fun _ _ h => h.2
  have hcp : c = p := Option.some.inj (hc.symm.trans hp)
  subst hcp
  have hw := (step_sleepers hc hinv hready hforks hstep).waits_new hinv hwell ht
    (measured_of_sleepTime ht)
  rcases (hr2.waits (step_steady ⟨c, hc, hinv, hready⟩ hforks hstep) hw).2 with hle | ⟨hmem, -⟩
  · exact hle
  · exact absurd hmem hawake

/-- The first process has forked and is about to sleep for 5 milliseconds. -/
def aboutToSleep : Kernel (Word × Word) :=
  after registers [.syscall 100, .user fun _ => (3, 5)] (atInit firstPcb 0 0x600000)

/-- The first process sleeps while its child runs for 5 milliseconds. -/
theorem noEarlyWake_aboutToSleep : ∃ n k, Elapsed registers
      (fun k e => SleepsWell registers k e ∧ ForksOutside registers k e)
      (after registers [.syscall 100] aboutToSleep) n k ∧
    1 ∈ (after registers [.syscall 100] aboutToSleep).sched.sleepQueue ∧
    1 ∉ k.sched.sleepQueue ∧ sleepTime registers aboutToSleep (.syscall 100) ≤ n := by
  have hfork : ForksOutside registers (atInit firstPcb 0 0x600000) (.syscall 100) :=
    forksOutside_registers rfl fun _ => ⟨rfl, rfl⟩
  have hrun : Run registers (fun k e => SleepsWell registers k e ∧ ForksOutside registers k e)
      (atInit firstPcb 0 0x600000) aboutToSleep :=
    .after .start ⟨⟨fun h => absurd rfl h, hfork⟩, rfl, ⟨fun h => absurd rfl h, trivial⟩, rfl,
      trivial⟩
  have hsleep : SleepsWell registers aboutToSleep (.syscall 100) ∧
      ForksOutside registers aboutToSleep (.syscall 100) :=
    ⟨fun _ => ⟨trivial, .inl rfl⟩, forksOutside_registers rfl fun h => absurd h (by decide)⟩
  have hwait : Elapsed registers
      (fun k e => SleepsWell registers k e ∧ ForksOutside registers k e)
      (after registers [.syscall 100] aboutToSleep) _ _ :=
    .next (e := .timer 0) .start ⟨fun h => absurd rfl h, trivial⟩ (step_after rfl)
  have hawake : 1 ∉ (after registers [.timer 0]
      (after registers [.syscall 100] aboutToSleep)).sched.sleepQueue := by decide
  exact ⟨_, _, hwait, by decide, hawake, noEarlyWake (afterInit_atInit 0 0x600000) _ _ _ 1 _ _ hrun
    hsleep (step_after rfl) rfl (by decide) hwait hawake⟩

/-! ## A process that sleeps alone -/

/-- The first process asks to sleep for 5 milliseconds, 10 after the timer was started: it does not
sleep at all. -/
theorem not_noEarlyWake : ∃ k0 : Kernel (Word × Word), AfterInit registers k0 ∧
    ¬ NoEarlyWake registers (fun _ _ => True) k0 := by
  refine ⟨atInit firstPcb 3 5, afterInit_atInit 3 5, fun h => ?_⟩
  have hlate := h _ (.syscall 0) _ 1 0 _ .start trivial rfl rfl (by decide) .start (by rintro ⟨⟩)
  exact absurd hlate (by decide)

end Bikeshed.Scheduler
