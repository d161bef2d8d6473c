import Bikeshed.Kernel.QueueTheorems
import Bikeshed.Scheduler.Scheduler

/-!
# The queues of the scheduler

The scheduler's queues are sequences of PCBs: what the nodes of a `Queue` have as their data.
-/

namespace Bikeshed.Scheduler

open Lib DataStructures

variable {δ : Type} {cmp : Cmp δ} {d : δ} {s s' : QueueMem} {node : Word} {l : List Word}

/-- PCBs are named by their addresses. -/
def byNumber (cmp : Cmp δ) (pcb1 pcb2 : ℕ) (d : δ) : ℤ × δ :=
  cmp (BitVec.ofNat 64 pcb1) (BitVec.ofNat 64 pcb2) d

lemma byNumber_toNat (cmp : Cmp δ) (x y : Word) (d : δ) :
    byNumber cmp x.toNat y.toNat d = cmp x y d := by
  rw [byNumber, BitVec.ofNat_toNat, BitVec.ofNat_toNat, BitVec.setWidth_eq, BitVec.setWidth_eq]

/-- The nodes that are passed, by their numbers -/
lemma passOver_eq (cmp : Cmp δ) (x : Word) (l : List Word) (d : δ) :
    passOver (byNumber cmp) x.toNat (l.map BitVec.toNat) d = passed cmp x l d := by
  induction l generalizing d with
  | nil => rfl
  | cons y l ih =>
    rw [List.map_cons, passOver, byNumber_toNat, passed_cons]
    dsimp only
    rw [ih]

/-- The PCBs in a queue. -/
def pcbsOf (s : QueueMem) (l : List Word) : List ℕ := l.map fun a => (s.data a).toNat

/-- Where the PCB of a new node ends up -/
lemma pcbsOf_placed (k : ℕ) (l : List Word) (node : Word) : pcbsOf s (placed k l node)
    = if k = (pcbsOf s l).length then pcbsOf s l ++ [(s.data node).toNat]
      else if k = 0 then (s.data node).toNat :: pcbsOf s l
      else (pcbsOf s l).take (k + 1) ++ (s.data node).toNat :: (pcbsOf s l).drop (k + 1) := by
  unfold placed pcbsOf
  rw [List.length_map]
  split
  · simp
  · split
    · simp
    · simp [List.map_take, List.map_drop]

lemma data_setNext (s : QueueMem) (node v : Word) : (s.setNext node v).data = s.data := by
  funext a
  unfold QueueMem.data QueueMem.setNext
  dsimp only
  rw [Function.update_apply]
  split
  · rename_i h
    rw [h]
  · rfl

/-- Queue operations leave `data` alone. -/
lemma data_queueEnqueue (s : QueueMem) (node : Word) :
    (DataStructures.queueEnqueue node s).data = s.data := by
  unfold DataStructures.queueEnqueue
  dsimp only
  split
  · exact data_setNext s node 0
  · exact (data_setNext _ _ _).trans (data_setNext s node 0)

lemma data_linkBehind (s : QueueMem) (node other : Word) :
    (linkBehind node other s).data = s.data := by
  unfold linkBehind
  dsimp only
  split
  · exact (data_setNext _ _ _).trans (data_setNext s node 0)
  · split
    · exact data_setNext s node _
    · exact (data_setNext _ _ _).trans (data_setNext s node _)

/-- No link is part of the data. -/
lemma data_queueEnqueuePrio {n : ℕ} {d' : δ}
    (h : DataStructures.queueEnqueuePrio cmp n node s d = some (s', d')) : s'.data = s.data := by
  unfold DataStructures.queueEnqueuePrio at h
  split at h
  · cases h
    exact data_queueEnqueue s node
  · obtain ⟨⟨other, d1⟩, -, hr⟩ := Option.bind_eq_some_iff.mp h
    cases hr
    exact data_linkBehind s node other

/-- The PCBs of a list of nodes are read from `data` alone. -/
lemma pcbsOf_congr (h : s'.data = s.data) (l : List Word) : pcbsOf s' l = pcbsOf s l := by
  unfold pcbsOf
  rw [h]

/-! ## Refinement -/

/-- `queue_enqueue` puts the PCB behind all others. -/
theorem queueEnqueue_refines (h : Represents s l) (h0 : node ≠ 0) (hnew : node ∉ l) :
    Represents (DataStructures.queueEnqueue node s) (l ++ [node]) ∧
      pcbsOf (DataStructures.queueEnqueue node s) (l ++ [node])
        = queueEnqueue (pcbsOf s l) (s.data node).toNat := by
  refine ⟨h.enqueue h0 hnew, ?_⟩
  rw [pcbsOf_congr (data_queueEnqueue s node), pcbsOf, List.map_append]
  rfl

/-- Unless the new node meets the last one, `queue_enqueue_prio` does to the queue what the
scheduler's sequences say. -/
theorem queueEnqueuePrio_refines {n : ℕ} (h : Represents s l) (h0 : node ≠ 0) (hnew : node ∉ l)
    (hn : l.length < n) (hmeet : ¬ MeetsLast cmp d node s) :
    ∃ s' d' l', DataStructures.queueEnqueuePrio cmp n node s d = some (s', d') ∧ Represents s' l' ∧
      queueEnqueuePrio (byNumber cmp) (pcbsOf s l) (s.data node).toNat d = (pcbsOf s' l', d') := by
  obtain ⟨s', hrun, hgood, -⟩ := h.enqueuePrio cmp (d := d) h0 hnew hn
  refine ⟨s', _, _, hrun, hgood hmeet, ?_⟩
  have hpass : passOver (byNumber cmp) (s.data node).toNat (pcbsOf s l) d
      = passed cmp (s.data node) (l.map s.data) d := by
    rw [← passOver_eq, List.map_map]
    rfl
  rw [pcbsOf_congr (data_queueEnqueuePrio hrun), pcbsOf_placed, queueEnqueuePrio, hpass]
  by_cases hnil : (pcbsOf s l).length = 0
  · have hl : l = [] := by
      rw [pcbsOf, List.length_map] at hnil
      exact List.length_eq_zero_iff.mp hnil
    subst hl
    rfl
  · rw [if_neg hnil]
    obtain ⟨k, d'⟩ := passed cmp (s.data node) (l.map s.data) d
    dsimp only
    split
    · rfl
    · split <;> rfl

/-- `queue_dequeue` returns the first node, and the others stay. -/
theorem queueDequeue_refines {a : Word} (h : Represents s (a :: l)) :
    (queueDequeue s).1 = a ∧ Represents (queueDequeue s).2 l ∧
      pcbsOf s (a :: l) = (s.data a).toNat :: pcbsOf (queueDequeue s).2 l := by
  obtain ⟨ha, hl⟩ := h.dequeue
  refine ⟨ha, hl, ?_⟩
  unfold queueDequeue
  split <;> rfl

end Bikeshed.Scheduler
