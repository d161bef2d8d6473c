import Bikeshed.Kernel.QueueTheorems

/-!
# Runs of a queue

Nodes are put in and taken out in any order, and clients write to the nodes that are not in the
queue and to the data of the others.
-/

namespace Bikeshed.DataStructures

open Lib

variable {δ : Type} {cmp : Cmp δ} {d : δ} {s s' : QueueMem} {node : Word} {l live : List Word}

-- known by what is proved of them
attribute [local irreducible] queueEnqueue queueEnqueuePrio queueDequeue

/-- `live` are the nodes that have been put in and not yet been taken out. Calls of
`queue_enqueue_prio` are subject to `ok`. -/
inductive QueueRun (ok : ∀ δ : Type, Cmp δ → δ → Word → QueueMem → Prop) :
    QueueMem → List Word → Prop
  | init (s : QueueMem) : QueueRun ok (queueInit s) []
  | enqueue {s : QueueMem} {live : List Word} {node : Word} :
      QueueRun ok s live → node ≠ 0 → node ∉ live → QueueRun ok (queueEnqueue node s) (node :: live)
  | enqueuePrio {s s' : QueueMem} {live : List Word} {node : Word} {δ : Type} {cmp : Cmp δ}
      {d d' : δ} {n : ℕ} :
      QueueRun ok s live → node ≠ 0 → node ∉ live → ok δ cmp d node s →
      queueEnqueuePrio cmp n node s d = some (s', d') → QueueRun ok s' (node :: live)
  | dequeue {s : QueueMem} {live : List Word} :
      QueueRun ok s live → QueueRun ok (queueDequeue s).2 (live.erase (queueDequeue s).1)
  | write {s : QueueMem} {live : List Word} {nodes : Word → QueueNode} :
      QueueRun ok s live → (∀ a ∈ live, (nodes a).next = s.next a) →
      QueueRun ok { s with nodes := nodes } live

/-- From `head` on exactly `size` nodes are met, those of `live`, each of them once. `tail` is the
last of them, and `queue_dequeue` finds one of them at `head`. -/
def QueueOk (s : QueueMem) (live : List Word) : Prop :=
  ∃ l, Linked id s.next s.queue.head l ∧ 0 ∉ l ∧ l.length = s.queue.size.toNat ∧ l.Nodup ∧
    l.Perm live ∧ (s.queue.size ≠ 0 →
      l.getLast? = some s.queue.tail ∧ s.next s.queue.tail = 0 ∧ s.queue.head ∈ live)

lemma Represents.queueOk (h : Represents s l) (hperm : l.Perm live) : QueueOk s live := by
  refine ⟨l, h.linked, h.nonnull, h.size.symm, h.nodup, hperm, fun hsize => ?_⟩
  have hl := h.ne_nil hsize
  refine ⟨?_, ?_, ?_⟩
  · rw [List.getLast?_eq_getLast_of_ne_nil hl]
    rw [h.tail _ (List.getLast?_eq_getLast_of_ne_nil hl)]
  · obtain ⟨l', b, rfl⟩ := (List.eq_nil_or_concat' l).resolve_left hl
    rw [h.last.1]
    exact h.last.2
  · obtain ⟨a, l', rfl⟩ := List.exists_cons_of_ne_nil hl
    have hhead : s.queue.head = a := h.linked.1
    rw [hhead]
    exact hperm.mem_iff.mp List.mem_cons_self

lemma QueueOk.represents (h : QueueOk s live) : ∃ l, Represents s l ∧ l.Perm live := by
  obtain ⟨l, hlinked, h0, hlen, hnd, hperm, htail⟩ := h
  refine ⟨l, ⟨hlinked, hnd, h0, hlen.symm, fun a ha => ?_⟩, hperm⟩
  have hsize : s.queue.size ≠ 0 := by
    intro hz
    rw [hz] at hlen
    rw [List.length_eq_zero_iff.mp hlen] at ha
    exact absurd ha (by simp)
  rw [(htail hsize).1] at ha
  exact Option.mem_some_iff.mp ha

variable (cmp) in
/-- One call of `queue_enqueue_prio` with enough rounds for its loop. -/
lemma QueueOk.enqueuePrio (h : QueueOk s live) (h0 : node ≠ 0) (hnew : node ∉ live) {n : ℕ}
    (hn : s.queue.size.toNat < n) : ∃ s' d', queueEnqueuePrio cmp n node s d = some (s', d') ∧
      (QueueOk s' (node :: live) ↔ ¬ MeetsLast cmp d node s) := by
  obtain ⟨l, hl, hperm⟩ := h.represents
  have hnew' : node ∉ l := hperm.mem_iff.not.mpr hnew
  obtain ⟨s', hrun, hgood, hbad⟩ := hl.enqueuePrio cmp (d := d) h0 hnew' (hl.size ▸ hn)
  refine ⟨s', _, hrun, fun hok hmeet => ?_, fun hmeet => ?_⟩
  · obtain ⟨l', hl', -⟩ := hok.represents
    exact hbad hmeet l' hl'
  · exact (hgood hmeet).queueOk ((placed_perm _ l node).trans (hperm.cons node))

/-- With the rounds of the loop unbounded. -/
lemma queueEnqueuePrio_mono {n m : ℕ} {r : QueueMem × δ} (hnm : n ≤ m)
    (h : queueEnqueuePrio cmp n node s d = some r) : queueEnqueuePrio cmp m node s d = some r := by
  unfold queueEnqueuePrio at h ⊢
  split
  · rename_i hsize
    rwa [if_pos hsize] at h
  · rename_i hsize
    rw [if_neg hsize] at h
    obtain ⟨x, hx, hr⟩ := Option.bind_eq_some_iff.mp h
    exact Option.bind_eq_some_iff.mpr ⟨x, skipNodes_mono hnm hx, hr⟩

/-- The runs in which no new node meets the last one. -/
abbrev notLast : ∀ δ : Type, Cmp δ → δ → Word → QueueMem → Prop := fun _ cmp d node s =>
  ¬ MeetsLast cmp d node s

theorem QueueRun.queueOk (h : QueueRun notLast s live) : QueueOk s live := by
  induction h with
  | init s => exact ⟨[], rfl, by simp, rfl, List.nodup_nil, .nil, fun h => absurd rfl h⟩
  | enqueue _ h0 hnew ih =>
    obtain ⟨l, hl, hperm⟩ := ih.represents
    have hnew' := hperm.mem_iff.not.mpr hnew
    exact (hl.enqueue h0 hnew').queueOk ((List.perm_append_singleton _ l).trans (hperm.cons _))
  | @enqueuePrio s s' live node δ cmp d d' n _ h0 hnew hok hrun ih =>
    have hmax : n ≤ max n (s.queue.size.toNat + 1) := le_max_left _ _
    obtain ⟨s'', d'', hrun', hiff⟩ := ih.enqueuePrio cmp (d := d) h0 hnew
      (Nat.lt_of_succ_le (le_max_right n (s.queue.size.toNat + 1)))
    rw [queueEnqueuePrio_mono hmax hrun] at hrun'
    obtain ⟨rfl, -⟩ := Prod.mk.inj (Option.some.inj hrun')
    exact hiff.mpr hok
  | dequeue _ ih =>
    obtain ⟨l, hl, hperm⟩ := ih.represents
    cases l with
    | nil =>
      obtain rfl := hperm.nil_eq
      rw [hl.dequeue_nil]
      exact hl.queueOk hperm
    | cons a l =>
      obtain ⟨ha, hl'⟩ := hl.dequeue
      have he := hperm.erase a
      rw [List.erase_cons_head] at he
      rw [ha]
      exact hl'.queueOk he
  | @write s live nodes _ hw ih =>
    obtain ⟨l, hl, hperm⟩ := ih.represents
    have hl' : Represents { s with nodes := nodes } l := hl.congr rfl fun a ha =>
      hw a (hperm.mem_iff.mp ha)
    exact hl'.queueOk hperm

/-- As long as no new node meets the last one the queue is as it should be, and the next call of
`queue_enqueue_prio` returns and keeps it so if and only if its node does not either. -/
theorem queue_integrity (h : QueueRun notLast s live) : QueueOk s live ∧
    ∀ (δ : Type) (cmp : Cmp δ) (d : δ) (node : Word), node ≠ 0 → node ∉ live →
      ∃ s' d', queueEnqueuePrio cmp (s.queue.size.toNat + 1) node s d = some (s', d') ∧
        (QueueOk s' (node :: live) ↔ ¬ MeetsLast cmp d node s) :=
  ⟨h.queueOk, fun _ cmp _ _ h0 hnew => h.queueOk.enqueuePrio cmp h0 hnew (Nat.lt_succ_self _)⟩

/-! ## Four nodes -/

/-- Each node has its own address for its data. -/
def fourNodes : QueueMem := ⟨fun a => ⟨0, a⟩, ⟨0, 0, 0⟩⟩

def byAddress : Cmp Unit := fun x y d => (if x.toNat ≤ y.toNat then -1 else 1, d)

lemma run_one : QueueRun notLast (queueEnqueue 0x10 (queueInit fourNodes)) [0x10] :=
  .enqueue (.init fourNodes) (by decide) (by simp)

/-- A node is put in next to another. -/
theorem queue_integrity_two : ∃ s, QueueRun notLast s [0x20, 0x10] ∧ QueueOk s [0x20, 0x10] ∧
    ∀ (δ : Type) (cmp : Cmp δ) (d : δ) (node : Word), node ≠ 0 → node ∉ [0x20, 0x10] →
      ∃ s' d', queueEnqueuePrio cmp (s.queue.size.toNat + 1) node s d = some (s', d') ∧
        (QueueOk s' (node :: [0x20, 0x10]) ↔ ¬ MeetsLast cmp d node s) := by
  obtain ⟨l, hl, hperm⟩ := run_one.queueOk.represents
  obtain rfl := List.perm_singleton.mp hperm
  have hmeet : ¬ MeetsLast byAddress () 0x20 (queueEnqueue 0x10 (queueInit fourNodes)) := by
    rw [meetsLast_iff hl, List.length_singleton]
    omega
  obtain ⟨s, d, hrun, -⟩ := run_one.queueOk.enqueuePrio byAddress (d := ())
    (show (0x20 : Word) ≠ 0 by decide) (by decide) (Nat.lt_succ_self _)
  have hall : QueueRun notLast s [0x20, 0x10] :=
    .enqueuePrio run_one (by decide) (by decide) hmeet hrun
  have hok := queue_integrity hall
  exact ⟨s, hall, hok.1, hok.2⟩

attribute [local semireducible] queueEnqueue queueEnqueuePrio

def twoQueued : QueueMem := queueEnqueue 0x30 (queueEnqueue 0x10 (queueInit fourNodes))

lemma enqueuePrio_twoQueued :
    queueEnqueuePrio byAddress 2 0x20 twoQueued () =
      some (linkBehind 0x20 0x30 twoQueued, ()) := rfl

/-- The third node is linked behind the second, and the fourth takes its place. -/
theorem not_queue_integrity :
    ¬ ∀ s live, QueueRun (fun _ _ _ _ _ => True) s live → QueueOk s live := by
  intro hall
  have hrun2 : QueueRun (fun _ _ _ _ _ => True) twoQueued [0x30, 0x10] :=
    .enqueue (.enqueue (.init fourNodes) (by decide) (by decide)) (by decide) (by decide)
  have hrun4 : QueueRun (fun _ _ _ _ _ => True)
      (queueEnqueue 0x40 (linkBehind 0x20 0x30 twoQueued)) [0x40, 0x20, 0x30, 0x10] :=
    .enqueue (.enqueuePrio hrun2 (by decide) (by decide) trivial enqueuePrio_twoQueued)
      (by decide) (by decide)
  obtain ⟨l, hlinked, h0, -, -, hperm, -⟩ := hall _ _ hrun4
  have hchain : Linked id (queueEnqueue 0x40 (linkBehind 0x20 0x30 twoQueued)).next
      (queueEnqueue 0x40 (linkBehind 0x20 0x30 twoQueued)).queue.head [0x10, 0x30, 0x40] :=
    ⟨by decide, by decide, by decide, segment_nil.mpr (by decide)⟩
  have hl : l = [0x10, 0x30, 0x40] := hlinked.unique Function.injective_id hchain
    (fun a ha he => h0 (he ▸ ha)) (by simp)
  rw [hl] at hperm
  exact absurd hperm.length_eq (by decide)

end Bikeshed.DataStructures
