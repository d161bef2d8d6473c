import Bikeshed.Kernel.Queue
import Bikeshed.Lib.Linked

/-!
# What is in a queue

`Represents s l`: from `head` on the nodes `l` are met, and `tail` is the last of them.
`queue_enqueue_prio` keeps this up unless its loop stops at the last of several nodes: the new
node is then linked behind it, and `tail` still points to the node before the last one.
-/

namespace Bikeshed.DataStructures

open Lib

variable {δ : Type} {cmp : Cmp δ} {d d' : δ} {s s' : QueueMem} {node other a x : Word}
  {l r live : List Word} {n : ℕ}

def QueueMem.next (s : QueueMem) (a : Word) : Word := (s.nodes a).next

@[simp] lemma next_setNext (s : QueueMem) (node v a : Word) :
    (s.setNext node v).next a = if a = node then v else s.next a := by
  unfold QueueMem.next QueueMem.setNext
  dsimp only
  rw [Function.update_apply]
  split <;> rfl

@[simp] lemma setNext_queue (s : QueueMem) (node v : Word) :
    (s.setNext node v).queue = s.queue := rfl

@[simp] lemma next_mk (q : Queue) (s : QueueMem) (a : Word) :
    QueueMem.next { s with queue := q } a = s.next a := rfl

/-- The queue in memory is the list `l` of its nodes. -/
structure Represents (s : QueueMem) (l : List Word) : Prop where
  linked : Linked id s.next s.queue.head l
  nodup : l.Nodup
  nonnull : 0 ∉ l
  size : s.queue.size.toNat = l.length
  tail : ∀ a ∈ l.getLast?, s.queue.tail = a

namespace Represents

/-- The test for an empty queue -/
lemma size_eq_zero_iff (h : Represents s l) : s.queue.size = 0 ↔ l = [] := by
  rw [← List.length_eq_zero_iff, ← h.size, ← BitVec.toNat_inj]
  rfl

lemma ne_nil (h : Represents s l) (hsize : s.queue.size ≠ 0) : l ≠ [] :=
  h.size_eq_zero_iff.not.mp hsize

/-- The counter does not overflow: there are not as many addresses. -/
lemma size_succ (hsize : s.queue.size.toNat = l.length) (hr : r.length = l.length + 1)
    (hnd : r.Nodup) (h0 : 0 ∉ r) : (s.queue.size + 1).toNat = r.length := by
  have hlt := length_lt_of_nodup hnd h0
  rw [BitVec.toNat_add, hsize, hr]
  rw [hr] at hlt
  exact Nat.mod_eq_of_lt hlt

/-- The last node is the tail, and its `next` is NULL. -/
lemma last (h : Represents s (l ++ [a])) : s.queue.tail = a ∧ s.next a = 0 := by
  refine ⟨h.tail a (by simp), ?_⟩
  exact (segment_concat.mp h.linked).2

/-- Client writes do not matter as long as the links stay. -/
lemma congr (h : Represents s l) (hq : s'.queue = s.queue) (hl : ∀ a ∈ l, s'.next a = s.next a) :
    Represents s' l := by
  constructor
  · rw [hq]
    exact h.linked.congr hl
  · exact h.nodup
  · exact h.nonnull
  · rw [hq]
    exact h.size
  · rw [hq]
    exact h.tail

/-! ## The four places -/

/-- A node is linked in between `l` and `r`. -/
lemma insert_linked (h : Represents s (l ++ r))
    (hhead : s'.queue.head = if l = [] then node else s.queue.head)
    (hlast : ∀ a ∈ l.getLast?, s'.next a = node) (hnode : Linked id s.next (s'.next node) r)
    (hrest : ∀ a ∈ l ++ r, a ∉ l.getLast? → s'.next a = s.next a) :
    Linked id s'.next s'.queue.head (l ++ node :: r) := by
  obtain ⟨hl, -, hdis⟩ := List.nodup_append.mp h.nodup
  have hright : Linked id s'.next (s'.next node) r := hnode.congr fun a ha =>
    hrest a (List.mem_append_right l ha) fun hla =>
      hdis a (List.mem_of_mem_getLast? hla) a ha rfl
  rcases List.eq_nil_or_concat' l with rfl | ⟨l', b, rfl⟩
  · rw [hhead, if_pos rfl]
    exact ⟨rfl, hright⟩
  · rw [hhead, if_neg (by simp)]
    obtain ⟨m, hleft, -⟩ := segment_append.mp h.linked
    refine segment_append.mpr ⟨node, ?_, rfl, hright⟩
    rw [segment_concat] at hleft ⊢
    refine ⟨hleft.1.congr fun c hc => ?_, hlast b (by simp)⟩
    refine hrest c (by simp [hc]) fun hlc => ?_
    rw [List.getLast?_concat, Option.mem_some_iff] at hlc
    exact (List.nodup_append.mp hl).2.2 c hc b (by simp) hlc.symm

/-- One node more, linked in at its place -/
lemma insert (h : Represents s (l ++ r)) (h0 : node ≠ 0) (hnew : node ∉ l ++ r)
    (hsize : s'.queue.size = s.queue.size + 1)
    (htail : s'.queue.tail = if r = [] then node else s.queue.tail)
    (hlinked : Linked id s'.next s'.queue.head (l ++ node :: r)) :
    Represents s' (l ++ node :: r) := by
  have hperm : (l ++ node :: r).Perm (node :: (l ++ r)) := List.perm_middle
  have hnd : (l ++ node :: r).Nodup :=
    hperm.nodup_iff.mpr (List.nodup_cons.mpr ⟨hnew, h.nodup⟩)
  have hnull : 0 ∉ l ++ node :: r := fun hm =>
    (List.mem_cons.mp (hperm.mem_iff.mp hm)).elim (fun he => h0 he.symm) h.nonnull
  refine ⟨hlinked, hnd, hnull, ?_, fun a ha => ?_⟩
  · rw [hsize]
    exact size_succ h.size hperm.length_eq hnd hnull
  · rw [htail]
    rw [List.getLast?_append_cons] at ha
    cases r with
    | nil =>
      rw [if_pos rfl]
      exact Option.mem_some_iff.mp ha
    | cons b r =>
      rw [if_neg (List.cons_ne_nil b r)]
      rw [List.getLast?_cons_cons] at ha
      refine h.tail a ?_
      rwa [List.getLast?_append_cons]

/-- `queue_enqueue` adds a node at the end. -/
theorem enqueue (h : Represents s l) (h0 : node ≠ 0) (hnew : node ∉ l) :
    Represents (queueEnqueue node s) (l ++ [node]) := by
  have h' : Represents s (l ++ []) := by rwa [List.append_nil]
  have hnew' : node ∉ l ++ [] := by rwa [List.append_nil]
  unfold queueEnqueue
  by_cases hsize : s.queue.size = 0
  · have hl := h.size_eq_zero_iff.mp hsize
    subst hl
    rw [if_pos (by exact hsize)]
    exact h'.insert h0 hnew' rfl rfl (h'.insert_linked rfl (by simp) (by simp) (by simp))
  · have hl := h.ne_nil hsize
    obtain ⟨l', b, rfl⟩ := (List.eq_nil_or_concat' l).resolve_left hl
    have htail : s.queue.tail = b := h.last.1
    have hb : node ≠ b := by
      rintro rfl
      exact hnew (by simp)
    rw [if_neg (by exact hsize)]
    refine h'.insert h0 hnew' rfl rfl (h'.insert_linked ?_ ?_ ?_ ?_)
    · rw [if_neg hl]
      rfl
    · simp [htail]
    · simp [htail, hb]
    · intro a ha hlast
      rw [List.getLast?_concat, Option.mem_some_iff] at hlast
      have han : a ≠ node := by
        rintro rfl
        exact hnew' ha
      simp [htail, han, Ne.symm hlast]

end Represents

/-! ## The loop of `queue_enqueue_prio` -/

/-- How many of the nodes with the data `l` the loop passes. -/
def passed (cmp : Cmp δ) (x : Word) : List Word → δ → ℕ × δ
  | [], d => (0, d)
  | y :: l, d =>
    if 0 < (cmp x y d).1 then
      let (k, d) := passed cmp x l (cmp x y d).2
      (k + 1, d)
    else (0, (cmp x y d).2)

/-- A node is passed if the comparison is positive. -/
lemma passed_cons (cmp : Cmp δ) (x y : Word) (l : List Word) (d : δ) :
    passed cmp x (y :: l) d = if 0 < (cmp x y d).1 then
      ((passed cmp x l (cmp x y d).2).1 + 1, (passed cmp x l (cmp x y d).2).2)
      else (0, (cmp x y d).2) := rfl

lemma passed_le (cmp : Cmp δ) (x : Word) (l : List Word) (d : δ) :
    (passed cmp x l d).1 ≤ l.length := by
  induction l generalizing d with
  | nil => exact le_rfl
  | cons y l ih =>
    rw [passed_cons]
    split
    · exact Nat.succ_le_succ (ih _)
    · exact Nat.zero_le _

/-- `x` comes after all but the last of the data `l`, and not after the last. -/
def StopsAtLast (cmp : Cmp δ) (x : Word) : List Word → δ → Prop
  | [], _ => False
  | [y], d => ¬ 0 < (cmp x y d).1
  | y :: z :: l, d => 0 < (cmp x y d).1 ∧ StopsAtLast cmp x (z :: l) (cmp x y d).2

/-- All nodes but the last are passed. -/
lemma stopsAtLast_iff (cmp : Cmp δ) (x : Word) (l : List Word) (d : δ) :
    StopsAtLast cmp x l d ↔ (passed cmp x l d).1 + 1 = l.length := by
  fun_induction StopsAtLast cmp x l d with
  | case1 d => simp [passed]
  | case2 y d =>
    rw [passed_cons]
    split <;> simp_all [passed]
  | case3 y z l d ih =>
    rw [ih, passed_cons cmp x y (z :: l) d]
    split
    · rename_i hpos
      rw [and_iff_right hpos, List.length_cons, List.length_cons, List.length_cons]
      exact Nat.succ_inj.symm
    · rename_i hneg
      exact iff_of_false (fun h => hneg h.1) (by simp)

def QueueMem.data (s : QueueMem) (a : Word) : Word := (s.nodes a).data

variable (cmp) in
/-- The loop ends, at the first node it does not pass. -/
lemma skipNodes_eq (h : Linked id s.next x l) (h0 : 0 ∉ l) (hn : l.length < n) (y : Word) (d : δ) :
    skipNodes cmp s.nodes y n x d
      = some ((l.drop (passed cmp y (l.map s.data) d).1).headD 0,
          (passed cmp y (l.map s.data) d).2) := by
  induction l generalizing x n d with
  | nil =>
    obtain ⟨n, rfl⟩ := Nat.exists_eq_succ_of_ne_zero (Nat.ne_of_gt hn)
    have hx : x = 0 := h
    rw [skipNodes, if_pos hx]
    rfl
  | cons a l ih =>
    obtain ⟨n, rfl⟩ := Nat.exists_eq_succ_of_ne_zero (Nat.ne_zero_of_lt hn)
    have hx : x = a := h.1
    have ha : a ≠ 0 := fun he => h0 (he ▸ List.mem_cons_self)
    rw [hx, skipNodes, if_neg ha, List.map_cons, passed]
    by_cases hc : 0 < (cmp y (s.data a) d).1
    · have hrest := ih h.2 (fun hm => h0 (List.mem_cons_of_mem a hm)) (Nat.succ_lt_succ_iff.mp hn)
        (cmp y (s.data a) d).2
      rw [if_pos hc]
      exact (if_pos hc).trans hrest
    · rw [if_neg hc]
      exact if_neg hc

/-- Where the list-level reading of `queue_enqueue_prio` puts a node that passes `k` others. -/
def placed (k : ℕ) (l : List Word) (node : Word) : List Word :=
  if k = l.length then l ++ [node]
  else if k = 0 then node :: l
  else l.take (k + 1) ++ node :: l.drop (k + 1)

/-- No other node comes or goes. -/
lemma placed_perm (k : ℕ) (l : List Word) (node : Word) : (placed k l node).Perm (node :: l) := by
  unfold placed
  split
  · exact List.perm_append_singleton node l
  · split
    · exact .refl _
    · have hperm : (l.take (k + 1) ++ node :: l.drop (k + 1)).Perm
          (node :: (l.take (k + 1) ++ l.drop (k + 1))) := List.perm_middle
      rwa [List.take_append_drop] at hperm

namespace Represents

/-- Behind the last node: as `queue_enqueue` does it. -/
lemma linkBehind_null (hsize : s.queue.size ≠ 0) : linkBehind node 0 s = queueEnqueue node s := by
  unfold linkBehind queueEnqueue
  rw [if_pos rfl, if_neg (by exact hsize)]
  rfl

/-- In front of the first node. -/
lemma linkBehind_head (h : Represents s (a :: r)) (h0 : node ≠ 0) (hnew : node ∉ a :: r) :
    Represents (linkBehind node a s) (node :: a :: r) := by
  have ha : a ≠ 0 := fun he => h.nonnull (he ▸ List.mem_cons_self)
  have hhead : s.queue.head = a := h.linked.1
  unfold linkBehind
  rw [if_neg ha, if_pos hhead.symm]
  refine Represents.insert (l := []) h h0 hnew rfl rfl
    (insert_linked (l := []) h rfl (by simp) ?_ ?_)
  · simpa using h.linked
  · intro b hb _
    have hbn : b ≠ node := ne_of_mem_of_not_mem hb hnew
    simp [hbn]

/-- Behind the node at which the loop stops, if it is not the first. -/
lemma linkBehind_middle (h : Represents s (l ++ a :: r)) (hl : l ≠ [])
    (hnew : node ∉ l ++ a :: r) :
    Linked id (linkBehind node a s).next (linkBehind node a s).queue.head (l ++ a :: node :: r) ∧
      (linkBehind node a s).queue = ⟨s.queue.size + 1, s.queue.head, s.queue.tail⟩ := by
  have ha : a ≠ 0 := fun he => h.nonnull (by simp [he])
  have hhead : a ≠ s.queue.head := by
    obtain ⟨b, l', rfl⟩ := List.exists_cons_of_ne_nil hl
    have hb : s.queue.head = b := h.linked.1
    have hnd := (List.nodup_append.mp h.nodup).2.2
    rw [hb]
    exact (hnd b List.mem_cons_self a List.mem_cons_self).symm
  have hne : node ≠ a := by
    rintro rfl
    exact hnew (by simp)
  have h' : Represents s ((l ++ [a]) ++ r) := by rwa [List.append_assoc]
  have hnext : Linked id s.next (s.next a) r := by
    obtain ⟨m, -, hm⟩ := segment_append.mp h.linked
    exact hm.2
  have heq : linkBehind node a s
      = { (s.setNext node (s.next a)).setNext a node with
          queue := ⟨s.queue.size + 1, s.queue.head, s.queue.tail⟩ } := by
    unfold linkBehind
    rw [if_neg ha, if_neg hhead]
    rfl
  rw [heq]
  refine ⟨?_, rfl⟩
  suffices hlink : Linked id
      ({ (s.setNext node (s.next a)).setNext a node with
        queue := ⟨s.queue.size + 1, s.queue.head, s.queue.tail⟩ } : QueueMem).next s.queue.head
      ((l ++ [a]) ++ node :: r) by rwa [List.append_assoc] at hlink
  refine h'.insert_linked ?_ ?_ ?_ ?_
  · rw [if_neg (by simp)]
  · simp
  · simpa [hne] using hnext
  · intro b hb hlast
    rw [List.getLast?_concat, Option.mem_some_iff] at hlast
    have hbn : b ≠ node := by
      rintro rfl
      exact hnew (by simpa using hb)
    simp [hbn, Ne.symm hlast]

/-- The new node is linked where the list-level reading has it, `tail` is right unless the loop
has stopped at the last of several nodes. -/
theorem linkBehind_drop (h : Represents s l) (hne : l ≠ []) (h0 : node ≠ 0) (hnew : node ∉ l)
    {k : ℕ} (hk : k ≤ l.length) :
    ((k + 1 = l.length → k = 0) →
      Represents (linkBehind node ((l.drop k).headD 0) s) (placed k l node)) ∧
    (k + 1 = l.length → k ≠ 0 →
      ∀ l', ¬ Represents (linkBehind node ((l.drop k).headD 0) s) l') := by
  have hsize : s.queue.size ≠ 0 := h.size_eq_zero_iff.not.mpr hne
  rcases hk.eq_or_lt with rfl | hk
  · rw [List.drop_length, placed, if_pos rfl]
    show (_ → Represents (linkBehind node 0 s) _) ∧ _
    rw [linkBehind_null hsize]
    exact ⟨fun _ => h.enqueue h0 hnew, fun hlen => absurd hlen (Nat.succ_ne_self _)⟩
  · obtain ⟨l1, a, r, rfl, rfl⟩ : ∃ l1 a r, l = l1 ++ a :: r ∧ l1.length = k :=
      ⟨l.take k, l[k], l.drop (k + 1), by simp, by simp; omega⟩
    have hdrop : ((l1 ++ a :: r).drop l1.length).headD 0 = a := by simp
    have hplaced : placed l1.length (l1 ++ a :: r) node
        = if l1 = [] then node :: a :: r else l1 ++ a :: node :: r := by
      rw [placed, if_neg hk.ne]
      by_cases hl1 : l1 = []
      · simp [hl1]
      · have hlen := List.length_pos_iff.mpr hl1
        have hsplit : l1 ++ a :: r = (l1 ++ [a]) ++ r := by
          rw [List.append_assoc, List.singleton_append]
        rw [if_neg (by omega), if_neg hl1, hsplit, List.take_left' (by simp),
          List.drop_left' (by simp), List.append_assoc, List.singleton_append]
    rw [hdrop, hplaced]
    by_cases hl1 : l1 = []
    · subst hl1
      exact ⟨fun _ => linkBehind_head h h0 hnew, fun _ hk0 => absurd rfl hk0⟩
    · have hlen := List.length_pos_iff.mpr hl1
      obtain ⟨hlinked, hqueue⟩ := linkBehind_middle h hl1 hnew
      rw [if_neg hl1]
      have hna : node ≠ a := by
        rintro rfl
        exact hnew (by simp)
      have h' : Represents s ((l1 ++ [a]) ++ r) := by rwa [List.append_assoc]
      have hlinked' : Linked id (linkBehind node a s).next (linkBehind node a s).queue.head
          ((l1 ++ [a]) ++ node :: r) := by rwa [List.append_assoc]
      refine ⟨fun hlast => ?_, fun hlast _ l' hl' => ?_⟩
      · have hr : r ≠ [] := by
          rintro rfl
          have hk0 := hlast (by simp)
          omega
        have hins := h'.insert h0 (by rwa [List.append_assoc]) (by rw [hqueue])
          (by rw [if_neg hr, hqueue]) hlinked'
        rwa [List.append_assoc] at hins
      · -- `tail` still points to `a`
        have hr : r = [] := by
          rw [List.length_append, List.length_cons] at hlast
          exact List.length_eq_zero_iff.mp (by omega)
        subst hr
        have hnull : 0 ∉ l1 ++ [a] ++ [node] := fun hm => by
          rcases List.mem_append.mp hm with hm | hm
          · exact h.nonnull hm
          · exact h0 (List.mem_singleton.mp hm).symm
        have heq : l' = l1 ++ [a] ++ [node] := hl'.linked.unique Function.injective_id hlinked'
          (fun b hb he => hl'.nonnull (he ▸ hb)) fun b hb he => hnull (he ▸ hb)
        have htail := hl'.tail node (by rw [heq]; simp)
        rw [hqueue, h.tail a (by simp)] at htail
        exact hna htail.symm

/-- `queue_dequeue` takes the first node. -/
theorem dequeue (h : Represents s (a :: l)) :
    (queueDequeue s).1 = a ∧ Represents (queueDequeue s).2 l := by
  have hsize : s.queue.size ≠ 0 := h.size_eq_zero_iff.not.mpr (List.cons_ne_nil a l)
  have hhead : s.queue.head = a := h.linked.1
  have hlen := h.size
  rw [List.length_cons] at hlen
  unfold queueDequeue
  rw [if_neg hsize]
  refine ⟨hhead, ?_⟩
  constructor
  · show Linked id s.next (s.next s.queue.head) l
    rw [hhead]
    exact h.linked.2
  · exact (List.nodup_cons.mp h.nodup).2
  · exact fun hm => h.nonnull (List.mem_cons_of_mem a hm)
  · show (s.queue.size - 1).toNat = l.length
    rw [BitVec.toNat_sub_of_le (by rw [BitVec.le_def, hlen]; simp), hlen]
    rfl
  · intro b hb
    refine h.tail b ?_
    cases l with
    | nil => simp at hb
    | cons c l => rwa [List.getLast?_cons_cons]

/-- An empty queue gives NULL. -/
lemma dequeue_nil (h : Represents s []) : queueDequeue s = (0, s) := by
  unfold queueDequeue
  rw [if_pos (h.size_eq_zero_iff.mpr rfl)]

end Represents

/-- More rounds do not change the outcome. -/
lemma skipNodes_mono {nodes : Word → QueueNode} {y p : Word} {r : Word × δ} {m : ℕ} (hnm : n ≤ m)
    (h : skipNodes cmp nodes y n p d = some r) : skipNodes cmp nodes y m p d = some r := by
  induction n generalizing m p d with
  | zero => simp [skipNodes] at h
  | succ n ih =>
    obtain ⟨m, rfl⟩ := Nat.exists_eq_add_of_le' (Nat.one_le_of_lt hnm)
    rw [skipNodes] at h ⊢
    split
    · rename_i hp
      rwa [if_pos hp] at h
    · rename_i hp
      rw [if_neg hp] at h
      dsimp only at h ⊢
      split
      · rename_i hc
        rw [if_pos hc] at h
        exact ih (by omega) h
      · rename_i hc
        rwa [if_neg hc] at h

/-- The new node comes after all but the last of at least two nodes in the queue, and not after
the last. -/
def MeetsLast (cmp : Cmp δ) (d : δ) (node : Word) (s : QueueMem) : Prop :=
  ∃ l, Linked id s.next s.queue.head l ∧ 0 ∉ l ∧ 2 ≤ l.length ∧
    StopsAtLast cmp (s.data node) (l.map s.data) d

/-- The tail goes stale when the search ends at the last of several nodes. -/
lemma meetsLast_iff (h : Represents s l) : MeetsLast cmp d node s ↔
    (passed cmp (s.data node) (l.map s.data) d).1 + 1 = l.length ∧
      (passed cmp (s.data node) (l.map s.data) d).1 ≠ 0 := by
  have hstop := stopsAtLast_iff cmp (s.data node) (l.map s.data) d
  rw [List.length_map] at hstop
  constructor
  · rintro ⟨l', hl', h0, hlen, hlast⟩
    obtain rfl : l' = l := hl'.unique Function.injective_id h.linked
      (fun b hb he => h0 (he ▸ hb)) fun b hb he => h.nonnull (he ▸ hb)
    have hpassed := hstop.mp hlast
    exact ⟨hpassed, by omega⟩
  · rintro ⟨hpassed, hk⟩
    exact ⟨l, h.linked, h.nonnull, by omega, hstop.mpr hpassed⟩

variable (cmp) in
/-- `queue_enqueue_prio` returns, and the queue is a queue afterwards unless the new node has met
the last one. -/
theorem Represents.enqueuePrio (h : Represents s l) (h0 : node ≠ 0) (hnew : node ∉ l)
    (hn : l.length < n) : ∃ s', queueEnqueuePrio cmp n node s d
        = some (s', (passed cmp (s.data node) (l.map s.data) d).2) ∧
      (¬ MeetsLast cmp d node s →
        Represents s' (placed (passed cmp (s.data node) (l.map s.data) d).1 l node)) ∧
      (MeetsLast cmp d node s → ∀ l', ¬ Represents s' l') := by
  rw [meetsLast_iff h]
  by_cases hsize : s.queue.size = 0
  · obtain rfl := h.size_eq_zero_iff.mp hsize
    refine ⟨queueEnqueue node s, ?_, fun _ => h.enqueue h0 hnew, fun hmeet => absurd rfl hmeet.2⟩
    rw [queueEnqueuePrio, if_pos hsize]
    rfl
  · set k := (passed cmp (s.data node) (l.map s.data) d).1 with hk
    have hkle : k ≤ l.length := by
      have hle := passed_le cmp (s.data node) (l.map s.data) d
      rwa [List.length_map] at hle
    obtain ⟨hgood, hbad⟩ := linkBehind_drop h (h.ne_nil hsize) h0 hnew hkle
    refine ⟨_, ?_, fun hmeet => hgood fun hlast => ?_, fun hmeet => hbad hmeet.1 hmeet.2⟩
    · have hskip := skipNodes_eq cmp h.linked h.nonnull hn (s.data node) d
      rw [queueEnqueuePrio, if_neg hsize]
      show (skipNodes cmp s.nodes (s.data node) n s.queue.head d).bind _ = _
      rw [hskip]
      rfl
    · by_contra hk0
      exact hmeet ⟨hlast, hk0⟩

end Bikeshed.DataStructures
