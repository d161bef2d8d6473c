import Bikeshed.Lib.Lists
import Bikeshed.Scheduler.SchedulerTheorems

/-!
# Every PCB in one place

A PCB is held by the code that is running, on a ready queue, on the sleep queue, still to be
allocated, or lost. `SchedInv` says that it is in no two of these places, that its state
agrees with its place, and that every node of the pool is accounted for.
-/

namespace Bikeshed.Scheduler

open Lib

/-- The PCBs on the four ready queues. -/
def readyList (s : Sched) : List ℕ := (List.range numQueues).flatMap s.queues

/-- The PCBs in all the places but the lost ones -/
def places (held : List ℕ) (s : Sched) : List ℕ :=
  held ++ (readyList s ++ (s.sleepQueue ++ s.baPcbs))

/-- `held` are the PCBs that the running code has a pointer to. -/
structure SchedInv (held : List ℕ) (s : Sched) : Prop where
  nodup : (places held s).Nodup
  length : (places held s).length ≤ maxPcbs
  nodes : s.baQnodes + ((readyList s).length + s.sleepQueue.length) = queueNodes
  ready : ∀ p ∈ readyList s, (s.pcbs p).state = .ready
  sleeping : ∀ p ∈ s.sleepQueue, (s.pcbs p).state = .sleeping
  priority : ∀ p ∈ held ++ (readyList s ++ s.sleepQueue), (s.pcbs p).priority < numQueues

variable {s s' : Sched} {held held' : List ℕ} {p q i d : ℕ} {rest : List ℕ}

lemma mem_readyList : p ∈ readyList s ↔ ∃ i < numQueues, p ∈ s.queues i := by
  rw [readyList, List.mem_flatMap]
  simp only [List.mem_range]

/-- PCBs move between the places. -/
lemma SchedInv.of_perm (h : SchedInv held s) (hperm : (places held' s').Perm (places held s))
    (hnodes : s'.baQnodes + ((readyList s').length + s'.sleepQueue.length) = queueNodes)
    (hready : ∀ p ∈ readyList s', (s'.pcbs p).state = .ready)
    (hsleeping : ∀ p ∈ s'.sleepQueue, (s'.pcbs p).state = .sleeping)
    (hpriority : ∀ p ∈ held' ++ (readyList s' ++ s'.sleepQueue), (s'.pcbs p).priority < numQueues) :
    SchedInv held' s' :=
  ⟨hperm.nodup_iff.mpr h.nodup, hperm.length_eq ▸ h.length, hnodes, hready, hsleeping, hpriority⟩

/-- What the code holds is on no ready queue. -/
lemma SchedInv.not_mem_ready (h : SchedInv held s) (hp : p ∈ held) : p ∉ readyList s := by
  intro hr
  have hdisj := (List.nodup_append'.mp h.nodup).2.2
  exact hdisj hp (List.mem_append_left _ hr)

lemma SchedInv.not_mem_sleepQueue (h : SchedInv held s) (hp : p ∈ held) : p ∉ s.sleepQueue := by
  intro hs
  have hdisj := (List.nodup_append'.mp h.nodup).2.2
  exact hdisj hp (List.mem_append_right _ (List.mem_append_left _ hs))

/-- There are fewer PCBs than queue nodes. -/
lemma SchedInv.baQnodes_ne_zero (h : SchedInv held s) : s.baQnodes ≠ 0 := by
  have hlen := h.length
  have hnodes := h.nodes
  rw [places, List.length_append, List.length_append, List.length_append] at hlen
  rw [maxPcbs] at hlen
  rw [queueNodes] at hnodes
  omega

lemma SchedInv.nodup_sleepQueue (h : SchedInv held s) : s.sleepQueue.Nodup :=
  (List.nodup_append'.mp (List.nodup_append'.mp (List.nodup_append'.mp h.nodup).2.1).2.1).1

/-- A PCB may be lost. -/
lemma SchedInv.drop (h : SchedInv (p :: held) s) : SchedInv held s where
  nodup := (List.nodup_cons.mp h.nodup).2
  length := (Nat.le_succ _).trans h.length
  nodes := h.nodes
  ready := h.ready
  sleeping := h.sleeping
  priority := fun q hq => h.priority q (List.mem_cons_of_mem _ hq)

/-- Nothing that is recorded of a PCB on a queue changes. -/
lemma SchedInv.of_same (h : SchedInv held s) (hqueues : s'.queues = s.queues)
    (hsleep : s'.sleepQueue = s.sleepQueue) (hpcbs : s'.baPcbs = s.baPcbs)
    (hnodes : s'.baQnodes = s.baQnodes)
    (hstate : ∀ p ∈ readyList s ++ s.sleepQueue, (s'.pcbs p).state = (s.pcbs p).state)
    (hpriority : ∀ p ∈ held ++ (readyList s ++ s.sleepQueue), (s'.pcbs p).priority < numQueues) :
    SchedInv held s' := by
  have hready : readyList s' = readyList s := by rw [readyList, hqueues, readyList]
  refine h.of_perm ?_ ?_ ?_ ?_ ?_
  · rw [places, places, hready, hsleep, hpcbs]
  · rw [hnodes, hready, hsleep]
    exact h.nodes
  · intro p hp
    rw [hready] at hp
    rw [hstate p (List.mem_append_left _ hp)]
    exact h.ready p hp
  · intro p hp
    rw [hsleep] at hp
    rw [hstate p (List.mem_append_right _ hp)]
    exact h.sleeping p hp
  · rw [hready, hsleep]
    exact hpriority

/-- Only the other variables change. -/
lemma SchedInv.congr (h : SchedInv held s) (hqueues : s'.queues = s.queues)
    (hsleep : s'.sleepQueue = s.sleepQueue) (hbaPcbs : s'.baPcbs = s.baPcbs)
    (hnodes : s'.baQnodes = s.baQnodes) (hpcbs : s'.pcbs = s.pcbs) : SchedInv held s' := by
  refine h.of_same hqueues hsleep hbaPcbs hnodes (fun _ _ => by rw [hpcbs]) fun p hp => ?_
  rw [hpcbs]
  exact h.priority p hp

/-- The PCB that the code holds may be changed. -/
lemma SchedInv.setPcb {f : PCB → PCB} (h : SchedInv held s) (hp : p ∈ held)
    (hf : (f (s.pcbs p)).priority < numQueues) : SchedInv held (setPcb p f s) := by
  refine h.of_same rfl rfl rfl rfl ?_ ?_
  · intro q hq
    have hne : q ≠ p := by
      rintro rfl
      rcases List.mem_append.mp hq with hq | hq
      · exact h.not_mem_ready hp hq
      · exact h.not_mem_sleepQueue hp hq
    rw [setPcb_of_ne f hne]
  · intro q hq
    by_cases hqp : q = p
    · rw [hqp, setPcb_self]
      exact hf
    · rw [setPcb_of_ne f hqp]
      exact h.priority q hq

/-- `alloc_pcb` takes a free PCB and leaves it with the code. -/
lemma SchedInv.allocated {new : ℕ} {free : List ℕ} (h : SchedInv held s)
    (hfree : s.baPcbs = new :: free) : SchedInv (new :: held) (allocated new free s) := by
  have hperm : (new :: (held ++ (readyList s ++ (s.sleepQueue ++ free)))).Perm (places held s) := by
    rw [places, hfree, ← List.append_assoc (readyList s), ← List.append_assoc (readyList s),
      ← List.append_assoc held, ← List.append_assoc held _ (new :: free)]
    exact List.perm_middle.symm
  have hnew : ∀ q ∈ held ++ (readyList s ++ s.sleepQueue), q ≠ new := by
    rintro q hq rfl
    have hnd := hperm.nodup_iff.mpr h.nodup
    refine (List.nodup_cons.mp hnd).1 ?_
    simp only [List.mem_append] at hq ⊢
    tauto
  have hother : ∀ q ∈ held ++ (readyList s ++ s.sleepQueue),
      (Scheduler.allocated new free s).pcbs q = s.pcbs q :=
    fun q hq => setPcb_of_ne _ (hnew q hq)
  refine h.of_perm hperm h.nodes ?_ ?_ ?_
  · intro q hq
    rw [hother q (List.mem_append_right _ (List.mem_append_left _ hq))]
    exact h.ready q hq
  · intro q hq
    rw [hother q (List.mem_append_right _ (List.mem_append_right _ hq))]
    exact h.sleeping q hq
  · intro q hq
    rcases List.mem_cons.mp hq with rfl | hq
    · rw [Scheduler.allocated, setPcb_self]
      show normal < numQueues
      decide
    · rw [hother q hq]
      exact h.priority q hq

/-! ## Putting a PCB on a ready queue -/

/-- One queue is exchanged for `Q`, the others stay. -/
lemma readyList_setQueue {Q : List ℕ} (hi : i < numQueues) : ∃ others,
    (readyList s).Perm (s.queues i ++ others) ∧
      (readyList (setQueue i Q s)).Perm (Q ++ others) := by
  obtain ⟨others, h1, h2⟩ := flatMap_exchange (f := s.queues) (g := (setQueue i Q s).queues)
    (List.nodup_range (n := numQueues)) (List.mem_range.mpr hi)
    fun j _ hj => Function.update_of_ne hj _ _
  have hself : (setQueue i Q s).queues i = Q := Function.update_self _ _ _
  rw [hself] at h2
  exact ⟨others, h1, h2⟩

/-- `schedule` puts the PCB on the queue of its priority. -/
lemma readyList_enqueueReady (hp : (s.pcbs p).priority < numQueues) :
    (readyList (enqueueReady p s)).Perm (p :: readyList s) := by
  obtain ⟨others, h1, h2⟩ := readyList_setQueue (s := { s with baQnodes := s.baQnodes - 1 })
    (Q := queueEnqueue (s.queues (s.pcbs p).priority) p) hp
  refine h2.trans (.trans ?_ (.cons p h1.symm))
  rw [queueEnqueue, List.append_assoc]
  exact List.perm_middle

/-- The PCB comes last on its queue, the other queues stay. -/
lemma queues_enqueueReady (i : ℕ) : (enqueueReady p s).queues i
    = s.queues i ++ [p].filter fun q => (s.pcbs q).priority = i := by
  show Function.update s.queues _ (queueEnqueue (s.queues _) p) i = _
  by_cases hi : i = (s.pcbs p).priority
  · rw [hi, Function.update_self, List.filter_singleton, decide_eq_true rfl]
    rfl
  · rw [Function.update_of_ne hi, List.filter_singleton, decide_eq_false (Ne.symm hi)]
    exact (List.append_nil _).symm

/-- The code lets go of a ready PCB. -/
lemma SchedInv.enqueueReady (h : SchedInv (p :: held) s) (hp : (s.pcbs p).state = .ready) :
    SchedInv held (enqueueReady p s) := by
  have hprio := h.priority p List.mem_cons_self
  have hperm := readyList_enqueueReady hprio
  have hne := h.baQnodes_ne_zero
  refine h.of_perm ?_ ?_ ?_ h.sleeping ?_
  · refine (List.Perm.append_left held (hperm.append_right _)).trans ?_
    exact List.perm_middle
  · have hnodes := h.nodes
    show s.baQnodes - 1 + ((readyList (Scheduler.enqueueReady p s)).length + s.sleepQueue.length)
      = _
    rw [hperm.length_eq, List.length_cons]
    omega
  · intro q hq
    rcases List.mem_cons.mp (hperm.mem_iff.mp hq) with rfl | hq
    · exact hp
    · exact h.ready q hq
  · intro q hq
    refine h.priority q ?_
    rw [List.mem_append, List.mem_append, hperm.mem_iff] at hq
    simp only [List.mem_append, List.mem_cons] at hq ⊢
    tauto

/-! ## Putting a PCB on the sleep queue -/

/-- The PCBs are as they were but for the time they still have to sleep. -/
def SameButSleep (f g : ℕ → PCB) : Prop := ∀ q, ∃ t, g q = { f q with sleepTime := t }

lemma SameButSleep.refl (f : ℕ → PCB) : SameButSleep f f := fun q => ⟨(f q).sleepTime, rfl⟩

lemma SameButSleep.trans {f g h : ℕ → PCB} (hfg : SameButSleep f g) (hgh : SameButSleep g h) :
    SameButSleep f h := by
  intro q
  obtain ⟨t, ht⟩ := hfg q
  obtain ⟨u, hu⟩ := hgh q
  refine ⟨u, ?_⟩
  rw [hu, ht]

lemma SameButSleep.state {f g : ℕ → PCB} (h : SameButSleep f g) (q : ℕ) :
    (g q).state = (f q).state := by
  obtain ⟨t, ht⟩ := h q
  rw [ht]

lemma SameButSleep.priority {f g : ℕ → PCB} (h : SameButSleep f g) (q : ℕ) :
    (g q).priority = (f q).priority := by
  obtain ⟨t, ht⟩ := h q
  rw [ht]

/-- Setting the time of one PCB -/
lemma sameButSleep_update {f : ℕ → PCB} (t : ℕ) :
    SameButSleep f (Function.update f p { f p with sleepTime := t }) := by
  intro q
  by_cases hq : q = p
  · subst hq
    exact ⟨t, Function.update_self _ _ _⟩
  · exact ⟨_, Function.update_of_ne hq _ _⟩

/-- The comparison writes `sleep_time` of the PCB that it finds later. -/
lemma sleepInsert_same (p q : ℕ) (f : ℕ → PCB) : SameButSleep f (sleepInsert p q f).2 := by
  rw [sleepInsert]
  split
  · exact sameButSleep_update _
  · exact sameButSleep_update _

/-- So do all comparisons on the way along the queue. -/
lemma passOver_same (node : ℕ) : ∀ (q : List ℕ) (f : ℕ → PCB),
    SameButSleep f (passOver sleepInsert node q f).2
  | [], f => .refl f
  | other :: rest, f => by
    rw [passOver]
    show SameButSleep f (if 0 < (sleepInsert node other f).1 then _ else _ : ℕ × (ℕ → PCB)).2
    split
    · exact (sleepInsert_same node other f).trans (passOver_same node rest _)
    · exact sleepInsert_same node other f

section Prio

variable {δ : Type} {cmp : ℕ → ℕ → δ → ℤ × δ} {q : List ℕ} {node : ℕ} {data : δ}

/-- The data changes by the comparisons on the way alone. -/
lemma queueEnqueuePrio_data :
    (queueEnqueuePrio cmp q node data).2 = data ∨
      (queueEnqueuePrio cmp q node data).2 = (passOver cmp node q data).2 := by
  rw [queueEnqueuePrio]
  split
  · exact .inl rfl
  · simp only
    split
    · exact .inr rfl
    · split
      · exact .inr rfl
      · exact .inr rfl

/-- Wherever it is put, the queue has one more node. -/
lemma queueEnqueuePrio_perm : (queueEnqueuePrio cmp q node data).1.Perm (node :: q) := by
  rw [queueEnqueuePrio]
  split
  · exact List.perm_append_singleton node q
  · simp only
    split
    · exact List.perm_append_singleton node q
    · split
      · exact .refl _
      · refine List.perm_middle.trans ?_
        rw [List.take_append_drop]

end Prio

/-- `sleep_pcb` changes no more than the sleeping times. -/
lemma enqueueSleeper_same (p : ℕ) (s : Sched) :
    SameButSleep s.pcbs (enqueueSleeper p s).pcbs := by
  show SameButSleep s.pcbs (queueEnqueuePrio sleepInsert s.sleepQueue p s.pcbs).2
  have hdata : (queueEnqueuePrio sleepInsert s.sleepQueue p s.pcbs).2 = s.pcbs ∨
      (queueEnqueuePrio sleepInsert s.sleepQueue p s.pcbs).2
        = (passOver sleepInsert p s.sleepQueue s.pcbs).2 := queueEnqueuePrio_data
  rcases hdata with h | h
  · rw [h]
    exact .refl _
  · rw [h]
    exact passOver_same _ _ _

/-- The code lets go of a sleeping PCB. -/
lemma SchedInv.enqueueSleeper (h : SchedInv (p :: held) s) (hp : (s.pcbs p).state = .sleeping) :
    SchedInv held (enqueueSleeper p s) := by
  have hsame := enqueueSleeper_same p s
  have hperm : (Scheduler.enqueueSleeper p s).sleepQueue.Perm (p :: s.sleepQueue) :=
    queueEnqueuePrio_perm
  have hne := h.baQnodes_ne_zero
  refine h.of_perm ?_ ?_ ?_ ?_ ?_
  · refine (List.Perm.append_left held (.append_left _ (hperm.append_right _))).trans ?_
    refine (List.Perm.append_left held List.perm_middle).trans ?_
    exact List.perm_middle
  · have hnodes := h.nodes
    show s.baQnodes - 1 + ((readyList s).length + (Scheduler.enqueueSleeper p s).sleepQueue.length)
      = _
    rw [hperm.length_eq, List.length_cons]
    omega
  · intro q hq
    rw [hsame.state]
    exact h.ready q hq
  · intro q hq
    rw [hsame.state]
    rcases List.mem_cons.mp (hperm.mem_iff.mp hq) with rfl | hq
    · exact hp
    · exact h.sleeping q hq
  · intro q hq
    rw [hsame.priority]
    refine h.priority q ?_
    rw [List.mem_append, List.mem_append, hperm.mem_iff] at hq
    simp only [List.mem_append, List.mem_cons] at hq ⊢
    tauto

/-! ## Time passing for the sleepers -/

/-- What `get_next_sleep` does. -/
def afterTick (tickSpan : ℕ) (s : Sched) : Sched :=
  match s.sleepQueue with
  | [] => s
  | pcb :: _ =>
    if (s.pcbs pcb).sleepTime ≤ tickSpan then wakeHead pcb s else tickHead tickSpan pcb s

lemma wakeHead_pcbs (p : ℕ) (s : Sched) : (wakeHead p s).pcbs
    = Function.update s.pcbs p { s.pcbs p with state := .ready, sleepTime := 0 } := rfl

/-- The sleeper that wakes up comes last on the queue of its priority. -/
lemma queues_wakeHead (i : ℕ) : (wakeHead p s).queues i
    = s.queues i ++ [p].filter fun q => (s.pcbs q).priority = i := by
  set s1 := setPcb p (fun r => { r with state := .ready, sleepTime := 0 }) s with hs1
  have hprio : (s1.pcbs p).priority = (s.pcbs p).priority := by
    rw [hs1, setPcb_self]
  have henqueue : (wakeHead p s).queues i
      = s.queues i ++ [p].filter fun q => (s1.pcbs q).priority = i := queues_enqueueReady i
  rw [henqueue, List.filter_singleton, List.filter_singleton, hprio]

lemma readyList_wakeHead (hp : (s.pcbs p).priority < numQueues) :
    (readyList (wakeHead p s)).Perm (p :: readyList s) := by
  refine readyList_enqueueReady (s := Scheduler.setPcb p _ s) ?_
  rw [setPcb_self]
  exact hp

/-- The first sleeper moves to a ready queue. -/
lemma SchedInv.wakeHead (h : SchedInv held s) (hq : s.sleepQueue = p :: rest) :
    SchedInv held (wakeHead p s) := by
  have hmem : p ∈ s.sleepQueue := by
    rw [hq]
    exact List.mem_cons_self
  have hperm := readyList_wakeHead (h.priority p (List.mem_append_right _
    (List.mem_append_right _ hmem)))
  have htail : (Scheduler.wakeHead p s).sleepQueue = rest := by
    show s.sleepQueue.tail = rest
    rw [hq, List.tail_cons]
  have hself : (Scheduler.wakeHead p s).pcbs p
      = { s.pcbs p with state := .ready, sleepTime := 0 } := by
    rw [wakeHead_pcbs, Function.update_self]
  have hother : ∀ q, q ≠ p → (Scheduler.wakeHead p s).pcbs q = s.pcbs q := by
    intro q hne
    rw [wakeHead_pcbs, Function.update_of_ne hne]
  have hnotin : p ∉ rest := by
    have hnd := h.nodup_sleepQueue
    rw [hq, List.nodup_cons] at hnd
    exact hnd.1
  refine h.of_perm ?_ ?_ ?_ ?_ ?_
  · rw [places, places, htail, hq]
    refine .append_left held ((hperm.append_right _).trans ?_)
    exact List.perm_middle.symm
  · have hnodes := h.nodes
    rw [hq, List.length_cons] at hnodes
    show s.baQnodes + ((readyList (Scheduler.wakeHead p s)).length +
      (Scheduler.wakeHead p s).sleepQueue.length) = _
    rw [htail, hperm.length_eq, List.length_cons]
    omega
  · intro q hqr
    by_cases hqp : q = p
    · rw [hqp, hself]
    · rw [hother q hqp]
      exact h.ready q ((List.mem_cons.mp (hperm.mem_iff.mp hqr)).resolve_left hqp)
  · intro q hqs
    rw [htail] at hqs
    rw [hother q (fun heq => hnotin (heq ▸ hqs))]
    exact h.sleeping q (by rw [hq]; exact List.mem_cons_of_mem _ hqs)
  · intro q hqm
    rw [List.mem_append, List.mem_append, hperm.mem_iff, htail] at hqm
    have hbefore : (s.pcbs q).priority < numQueues := by
      refine h.priority q ?_
      rw [hq]
      simp only [List.mem_append, List.mem_cons] at hqm ⊢
      tauto
    by_cases hqp : q = p
    · rw [hqp, hself]
      rw [hqp] at hbefore
      exact hbefore
    · rw [hother q hqp]
      exact hbefore

/-- Nobody but sleepers is touched. -/
lemma afterTick_pcbs (hp : p ∉ s.sleepQueue) : (afterTick d s).pcbs p = s.pcbs p := by
  unfold afterTick
  split
  · rfl
  · rename_i pcb rest hq
    have hne : p ≠ pcb := by
      rintro rfl
      exact hp (hq ▸ List.mem_cons_self)
    split
    · rw [wakeHead_pcbs, Function.update_of_ne hne]
    · exact setPcb_of_ne _ hne

/-- The first sleeper has less time left. -/
lemma SchedInv.tickHead (h : SchedInv held s) : SchedInv held (tickHead d p s) := by
  have hsame : SameButSleep s.pcbs (Scheduler.tickHead d p s).pcbs := sameButSleep_update _
  refine h.of_same rfl rfl rfl rfl (fun q _ => hsame.state q) fun q hq => ?_
  rw [hsame.priority]
  exact h.priority q hq

/-- Time passes: the first sleeper wakes up or waits on. -/
theorem SchedInv.afterTick (h : SchedInv held s) : SchedInv held (afterTick d s) := by
  unfold Scheduler.afterTick
  split
  · exact h
  · rename_i pcb rest hq
    split
    · exact h.wakeHead hq
    · exact h.tickHead

/-! ## Each ready queue has its priority -/

/-- The PCBs on a ready queue have the priority of that queue. -/
def ByPriority (s : Sched) : Prop := ∀ i < numQueues, ∀ p ∈ s.queues i, (s.pcbs p).priority = i

namespace ByPriority

/-- Neither the queues nor the priorities of the PCBs on them change. -/
lemma congr (h : ByPriority s) (hq : s'.queues = s.queues)
    (hp : ∀ p ∈ readyList s, (s'.pcbs p).priority = (s.pcbs p).priority) : ByPriority s' := by
  intro i hi p hm
  rw [hq] at hm
  rw [hp p (mem_readyList.mpr ⟨i, hi, hm⟩)]
  exact h i hi p hm

/-- The PCB that the code holds is on no queue. -/
lemma setPcb {f : PCB → PCB} (h : ByPriority s) (hinv : SchedInv held s) (hp : p ∈ held) :
    ByPriority (setPcb p f s) := by
  refine h.congr rfl fun q hq => ?_
  rw [setPcb_of_ne f (ne_of_mem_of_not_mem hq (hinv.not_mem_ready hp))]

lemma allocated {new : ℕ} {free : List ℕ} (h : ByPriority s) (hinv : SchedInv held s)
    (hfree : s.baPcbs = new :: free) : ByPriority (allocated new free s) := by
  refine h.congr rfl fun q hq => ?_
  have hnew : new ∉ readyList s :=
    (hinv.allocated hfree).not_mem_ready List.mem_cons_self
  rw [Scheduler.allocated, setPcb_of_ne _ (ne_of_mem_of_not_mem hq hnew)]

/-- `schedule` goes by the priority of the PCB. -/
lemma enqueueReady (h : ByPriority s) : ByPriority (enqueueReady p s) := by
  intro i hi q hq
  have hq' : q ∈ Function.update s.queues (s.pcbs p).priority
      (queueEnqueue (s.queues (s.pcbs p).priority) p) i := hq
  show (s.pcbs q).priority = i
  by_cases hip : i = (s.pcbs p).priority
  · rw [hip, Function.update_self, queueEnqueue, List.mem_append, List.mem_singleton] at hq'
    rcases hq' with hq' | rfl
    · rw [hip]
      exact h _ (hip ▸ hi) q hq'
    · exact hip.symm
  · rw [Function.update_of_ne hip] at hq'
    exact h i hi q hq'

lemma enqueueSleeper (h : ByPriority s) : ByPriority (enqueueSleeper p s) :=
  h.congr rfl fun q _ => (enqueueSleeper_same p s).priority q

/-- A sleeper keeps its priority. -/
lemma wakeHead (h : ByPriority s) : ByPriority (wakeHead p s) := by
  have h1 : ByPriority (Scheduler.setPcb p
      (fun r => { r with state := .ready, sleepTime := 0 }) s) := by
    refine h.congr rfl fun q _ => ?_
    by_cases hqp : q = p
    · rw [hqp, setPcb_self]
    · rw [setPcb_of_ne _ hqp]
  exact h1.enqueueReady (p := p)

/-- Time passes. -/
lemma afterTick (h : ByPriority s) : ByPriority (afterTick d s) := by
  unfold Scheduler.afterTick
  split
  · exact h
  · split
    · exact h.wakeHead
    · have hsame : ∀ pcb, SameButSleep s.pcbs (tickHead d pcb s).pcbs :=
        fun _ => sameButSleep_update _
      exact h.congr rfl fun q _ => (hsame _).priority q

end ByPriority

end Bikeshed.Scheduler
