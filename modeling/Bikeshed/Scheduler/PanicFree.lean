import Bikeshed.Scheduler.Steps

/-!
# The scheduler does not panic while a process stays

The only way out of `dispatch` without a process to run is that none is ready. A process that
neither exits nor sleeps is always running or on a ready queue. A `fork` that is passed the address
of one of the scheduler's own variables is another matter.
-/

namespace Bikeshed.Scheduler

open Lib

variable {σ : Type} (S : Services σ)

/-- The process `g` makes a system call that ends it or puts it to sleep. -/
def Leaves (g : ℕ) (k : Kernel σ) (e : Event σ) : Prop :=
  k.sched.currentPcb = some g ∧ (Exits S k e ∨ sleepTime S k e ≠ 0)

/-- `g` is running, ready or asleep. -/
def Live (g : ℕ) (s : Sched) : Prop :=
  s.currentPcb = some g ∨ g ∈ readyList s ∨ g ∈ s.sleepQueue

/-- In the runs made of steps allowed by `P`, no step ends in a panic or a failed assertion of the
scheduler as long as some live process neither exits nor sleeps. -/
def PanicFree (P : Kernel σ → Event σ → Prop) (k0 : Kernel σ) : Prop :=
  ∀ g k e x, Run S (fun k e => ¬ Leaves S g k e ∧ P k e) k0 k → Live g k.sched →
    ¬ Leaves S g k e → P k e → step S e k = .error x → x ∉ schedulerPanics

variable {S} {k k' k0 : Kernel σ} {s s' : Sched} {c d g p t : ℕ} {P : Kernel σ → Event σ → Prop}

/-! ## The first state -/

lemma schedInv_schedulerInit {pcbBlocks : List ℕ} (pcbs : ℕ → PCB) (hnd : pcbBlocks.Nodup)
    (hlen : pcbBlocks.length = maxPcbs) : SchedInv [] (schedulerInit pcbBlocks pcbs) := by
  have hready : readyList (schedulerInit pcbBlocks pcbs) = [] := by
    rw [readyList, List.flatMap_eq_nil_iff]
    exact fun _ _ => rfl
  have hplaces : places [] (schedulerInit pcbBlocks pcbs) = pcbBlocks := by
    rw [places, hready]
    rfl
  refine ⟨?_, ?_, ?_, ?_, ?_, ?_⟩
  · rw [hplaces]
    exact hnd
  · rw [hplaces, hlen]
  · rw [hready]
    rfl
  · rw [hready]
    exact fun p hp => absurd hp List.not_mem_nil
  · exact fun p hp => absurd hp List.not_mem_nil
  · rw [hready]
    exact fun p hp => absurd hp List.not_mem_nil

theorem AfterInit.steady (h : AfterInit S k) : Steady k.sched ∧ k.sched.sleepQueue = [] := by
  obtain ⟨blocks, pcbs, tsc, w, hnd, hlen, -, hrun⟩ := h
  have h0 := schedInv_schedulerInit pcbs hnd hlen
  have hinit : wp (createInitProcess S tsc)
      (fun _ k => Steady k.sched ∧ k.sched.sleepQueue = []) Anything
        ⟨schedulerInit blocks pcbs, w⟩ := by
    rw [createInitProcess, wp_bind, wp_onSched]
    refine wp_allocPcb (fun _ => trivial) fun c free hfree => ?_
    have h1 := h0.allocated hfree
    have hsleep : (allocated c free (schedulerInit blocks pcbs)).sleepQueue = [] := rfl
    generalize allocated c free (schedulerInit blocks pcbs) = s1 at h1 hsleep ⊢
    rw [wp_bind, wp_onSched, wp_modify, wp_bind]
    refine wp_onWorld_of (fun image w => ?_) fun _ => trivial
    rw [wp_onSched, wp_bind, wp_modify, wp_bind, wp_modify]
    refine wp_armTimer_of ⟨⟨c, rfl, ?_, ?_⟩, hsleep⟩
    · have h2 : SchedInv [c] { s1 with currentPcb := some c } := h1.congr rfl rfl rfl rfl rfl
      have h3 : SchedInv [c] (setPcb c (fun r =>
          { r with pageTable := image.1, state := .ready, context := image.2 })
          { s1 with currentPcb := some c }) :=
        h2.setPcb List.mem_cons_self (h1.priority c List.mem_cons_self)
      exact h3.congr rfl rfl rfl rfl rfl
    · show ((setPcb c (fun r =>
        { r with pageTable := image.1, state := .ready, context := image.2 })
        { s1 with currentPcb := some c }).pcbs c).state = .ready
      rw [setPcb_self]
  exact hinit.ok hrun

/-! ## Runs -/

lemma step_steady {e : Event σ} (h : Steady k.sched) (hforks : ForksOutside S k e)
    (hstep : step S e k = .ok ((), k')) : Steady k'.sched := by
  obtain ⟨c, hc, hinv, hready⟩ := h
  have hrun : wp (step S e) (fun _ k' => Steady k'.sched ∧ SleepersAfter S c k e k'.sched)
      Anything k := wp_step hc hinv hready hforks (fun _ _ => trivial) fun _ _ => trivial
  exact (hrun.ok hstep).1

theorem Run.steady (h0 : Steady k0.sched) (hP : ∀ k e, P k e → ForksOutside S k e)
    (hr : Run S P k0 k) : Steady k.sched := by
  induction hr with
  | start => exact h0
  | next _ hp hstep ih => exact step_steady ih (hP _ _ hp) hstep

lemma afterTick_sleepQueue_subset : (afterTick d s).sleepQueue ⊆ s.sleepQueue := by
  unfold afterTick
  split
  · exact List.Subset.refl _
  · split
    · exact List.tail_subset _
    · exact List.Subset.refl _

lemma mem_sleepQueue_asleep (hp : p ∈ (asleep c t s).sleepQueue) :
    p ∈ s.sleepQueue ∨ p = c ∧ t ≠ 0 := by
  rw [asleep] at hp
  split at hp
  · exact .inl hp
  · rename_i ht
    have hperm : (enqueueSleeper c
        (setPcb c (fun r => { r with state := .sleeping, sleepTime := t }) s)).sleepQueue.Perm
        (c :: s.sleepQueue) := queueEnqueuePrio_perm
    rcases List.mem_cons.mp (hperm.mem_iff.mp hp) with hpc | hp
    · exact .inr ⟨hpc, ht⟩
    · exact .inl hp

/-- Only a process that makes the system call for it goes to sleep. -/
lemma mem_sleepQueue_of_step {e : Event σ} (h : SleepersAfter S c k e s')
    (hp : p ∈ s'.sleepQueue) : p ∈ k.sched.sleepQueue ∨ p = c ∧ sleepTime S k e ≠ 0 := by
  rw [SleepersAfter] at h
  split at h
  · rw [h.1] at hp
    exact .inl hp
  · rw [h.1] at hp
    exact mem_sleepQueue_asleep (afterTick_sleepQueue_subset hp)

lemma Run.awake (h0 : AfterInit S k0)
    (hr : Run S (fun k e => ¬ Leaves S g k e ∧ ForksOutside S k e) k0 k) :
    g ∉ k.sched.sleepQueue := by
  induction hr with
  | start =>
    rw [h0.steady.2]
    exact List.not_mem_nil
  | @next k k' e hr hallowed hstep ih =>
    intro hmem
    obtain ⟨hstay, hforks⟩ := hallowed
    obtain ⟨c, hc, hinv, hready⟩ := hr.steady h0.steady.1 fun _ _ h => h.2
    have hrun : wp (step S e) (fun _ k' => Steady k'.sched ∧ SleepersAfter S c k e k'.sched)
        Anything k := wp_step hc hinv hready hforks (fun _ _ => trivial) fun _ _ => trivial
    rcases mem_sleepQueue_of_step (hrun.ok hstep).2 hmem with hbefore | ⟨rfl, ht⟩
    · exact ih hbefore
    · exact hstay ⟨hc, .inr ht⟩

/-- If no `fork` stores to the scheduler's memory, nothing in it panics. -/
theorem panicFree (h0 : AfterInit S k0) : PanicFree S (ForksOutside S) k0 := by
  intro g k e x hr hlive hstay hforks hx
  obtain ⟨c, hc, hinv, hready⟩ := hr.steady h0.steady.1 fun _ _ h => h.2
  have hrun : wp (step S e) (fun _ k' => Steady k'.sched ∧ SleepersAfter S c k e k'.sched)
      (fun x => x ∉ schedulerPanics) k := by
    refine wp_step hc hinv hready hforks (fun _ h => h) fun hgo hnil => ?_
    exfalso
    rcases hlive with hg | hg | hg
    · exact hstay ⟨hg, hgo⟩
    · rw [hnil] at hg
      exact List.not_mem_nil hg
    · exact hr.awake h0 hg
  exact hrun.error hx

/-! ## Runs that are given -/

/-- What the steps lead to, as long as they return. -/
def after (S : Services σ) (es : List (Event σ)) (k : Kernel σ) : Kernel σ :=
  es.foldl (fun k e => match step S e k with
    | .ok (_, k') => k'
    | .error _ => k) k

/-- The steps are allowed by `P`, and all return. -/
def Returning (S : Services σ) (P : Kernel σ → Event σ → Prop) : List (Event σ) → Kernel σ → Prop
  | [], _ => True
  | e :: es, k => P k e ∧ (step S e k).toBool = true ∧ Returning S P es (after S [e] k)

lemma step_after {e : Event σ} (h : (step S e k).toBool = true) :
    step S e k = .ok ((), after S [e] k) := by
  rw [after, List.foldl_cons, List.foldl_nil]
  cases hstep : step S e k with
  | ok r => rfl
  | error x =>
    rw [hstep] at h
    exact absurd h Bool.false_ne_true

lemma Run.after {es : List (Event σ)} (hr : Run S P k0 k) (h : Returning S P es k) :
    Run S P k0 (after S es k) := by
  induction es generalizing k with
  | nil => exact hr
  | cons e es ih =>
    obtain ⟨hp, hok, hrest⟩ := h
    exact ih (hr.next hp (step_after hok)) hrest

/-- With these services `fork` stores at `rdi` and at the place in the direct map that is looked up
for it. -/
lemma storesOutside_registers {r : PCB} {r10 rdi : Word} : StoresOutside registers r (r10, rdi) ↔
    schedulerPlace rdi = none ∧
      schedulerPlace (physToVirt (lookupFrame rdi + (rdi &&& 0xFFF))) = none := by
  have hspace : forkSpace registers r (r10, rdi) = .ok ((0x3000,
      physToVirt (lookupFrame r.context + (r.context &&& 0xFFF)), rdi), r10, rdi) := rfl
  have hstore : registers.store rdi 0 (r10, rdi) = .ok ((), r10, rdi) := rfl
  have hchild : ∀ table context, childPid registers table context (r10, rdi)
      = .ok (physToVirt (lookupFrame rdi + (rdi &&& 0xFFF)), r10, rdi) := fun _ _ => rfl
  have hplace : registers.place = schedulerPlace := rfl
  rw [StoresOutside, wp_iff_of_ok hspace, wp_iff_of_ok hstore, wp_iff_of_ok (hchild _ _), hplace]

lemma forksOutside_registers {k : Kernel (Word × Word)} {r10 rdi : Word} {count : ℕ}
    (hw : k.world = (r10, rdi)) (h : r10.toNat = syscallFork → schedulerPlace rdi = none ∧
      schedulerPlace (physToVirt (lookupFrame rdi + (rdi &&& 0xFFF))) = none) :
    ForksOutside registers k (.syscall count) := by
  rintro c n w - hr10 hfork
  rw [hw] at hr10
  have hpair : (r10, r10, rdi) = (n, w) := Except.ok.inj hr10
  obtain ⟨rfl, rfl⟩ := Prod.mk.inj hpair
  exact storesOutside_registers.mpr (h hfork)

/-- The first process forks and has its quantum; the child then goes to sleep. -/
def forkSleep : List (Event (Word × Word)) :=
  [.user fun _ => (0, 0x600000), .syscall 100, .timer 0, .user fun _ => (3, 50), .syscall 60]

lemma returning_forkSleep : Returning registers
    (fun k e => ¬ Leaves registers 1 k e ∧ ForksOutside registers k e) forkSleep
    (atInit firstPcb 0 0) := by
  have hquiet (k : Kernel (Word × Word)) (e : Event (Word × Word)) (hexit : ¬ Exits registers k e)
      (hsleep : sleepTime registers k e = 0) : ¬ Leaves registers 1 k e :=
    fun h => h.2.elim hexit fun h => h hsleep
  refine ⟨⟨hquiet _ _ id rfl, trivial⟩, rfl, ⟨hquiet _ _ ?_ rfl, ?_⟩, rfl,
    ⟨hquiet _ _ id rfl, trivial⟩, rfl, ⟨hquiet _ _ id rfl, trivial⟩, rfl, ⟨?_, ?_⟩, rfl, trivial⟩
  · rintro ⟨n, hn, hexit⟩
    cases hn
    exact absurd hexit (by decide)
  · exact forksOutside_registers rfl fun _ => ⟨rfl, rfl⟩
  · rintro ⟨hcur, -⟩
    exact absurd (Option.some.inj hcur) (by decide)
  · exact forksOutside_registers rfl fun h => absurd h (by decide)

/-- With the first process running and the second asleep -/
theorem panicFree_forkSleep : (after registers forkSleep (atInit firstPcb 0 0)).sched.sleepQueue
      = [2] ∧ ∀ e x, ¬ Leaves registers 1 (after registers forkSleep (atInit firstPcb 0 0)) e →
    ForksOutside registers (after registers forkSleep (atInit firstPcb 0 0)) e →
    step registers e (after registers forkSleep (atInit firstPcb 0 0)) = .error x →
    x ∉ schedulerPanics :=
  ⟨rfl, fun e x => panicFree (afterInit_atInit 0 0) 1 _ e x
    (.after .start returning_forkSleep) (.inl rfl)⟩

/-! ## A `fork` that is passed an address of the scheduler -/

/-- The first process passes `&ba_qnodes->max_address` to `fork`, which then gets no node for the
child. -/
theorem not_panicFree : ∃ k0 : Kernel (Word × Word), AfterInit registers k0 ∧
    ¬ PanicFree registers (fun _ _ => True) k0 := by
  refine ⟨atInit firstPcb 0 0xFFFFFFFFFFDEDFC8, afterInit_atInit 0 _, fun h => ?_⟩
  have hstay : ¬ Leaves registers 1 (atInit firstPcb 0 0xFFFFFFFFFFDEDFC8) (.syscall 100) := by
    rintro ⟨-, ⟨n, hn, hexit⟩ | hsleep⟩
    · cases hn
      exact absurd hexit (by decide)
    · exact hsleep rfl
  have hno := h 1 _ (.syscall 100) (.assertion "node != NULL") .start (.inl rfl) hstay trivial rfl
  exact hno (by decide)

end Bikeshed.Scheduler
