import Bikeshed.Lib.DeltaQueue
import Bikeshed.Scheduler.PanicFree

/-!
# The sleep queue as a queue of differences

When a process wakes is the sum of the `sleep_time` fields up to its own. Inserting at either
end of the queue keeps all these sums, inserting in between takes from the process before; and
`get_next_sleep` looks at the head only.
-/

namespace Bikeshed.Scheduler

open Lib

def sleepTimes (pcbs : ℕ → PCB) (p : ℕ) : ℕ := (pcbs p).sleepTime

/-- The milliseconds after which `p` is to wake. -/
def wakeTime (s : Sched) (p : ℕ) : ℕ := due (sleepTimes s.pcbs) p s.sleepQueue

/-- A time that comes at an end of the queue: not after the head's, or after everybody's. -/
def AtAnEnd (δ : ℕ → ℕ) (t : ℕ) : List ℕ → Prop
  | [] => True
  | h :: rest => t ≤ δ h ∨ ((h :: rest).map δ).sum < t

/-- `node` has been put in the queue where its time says. -/
structure Inserted (q : List ℕ) (pcbs : ℕ → PCB) (node : ℕ) (q' : List ℕ) (pcbs' : ℕ → PCB) :
    Prop where
  others : ∀ p ∈ q, due (sleepTimes pcbs') p q' = due (sleepTimes pcbs) p q
  new : due (sleepTimes pcbs') node q' = (pcbs node).sleepTime
  order : q.Sublist q'

variable {q rest : List ℕ} {pcbs f : ℕ → PCB} {node p t d : ℕ}

/-! ## Walking down the queue -/

lemma sleepTimes_update (p t : ℕ) (f : ℕ → PCB) :
    sleepTimes (Function.update f p { f p with sleepTime := t })
      = Function.update (sleepTimes f) p t := by
  funext y
  rw [sleepTimes]
  by_cases hy : y = p
  · rw [hy, Function.update_self, Function.update_self]
  · rw [Function.update_of_ne hy, Function.update_of_ne hy, sleepTimes]

/-- Where the walk has stopped, and what has been subtracted on the way. -/
structure Passed (node : ℕ) (q : List ℕ) (f f' : ℕ → PCB) (pre post : List ℕ) : Prop where
  split : q = pre ++ post
  passed : pre ≠ [] → (pre.map (sleepTimes f)).sum < sleepTimes f node
  own : sleepTimes f' node = sleepTimes f node - (pre.map (sleepTimes f)).sum
  stopped : ∀ h r, post = h :: r →
    sleepTimes f node ≤ (pre.map (sleepTimes f)).sum + sleepTimes f h ∧
    sleepTimes f' h = sleepTimes f h - (sleepTimes f node - (pre.map (sleepTimes f)).sum)
  others : ∀ y, y ≠ node → (∀ h r, post = h :: r → y ≠ h) → sleepTimes f' y = sleepTimes f y

lemma passOver_cons (node other : ℕ) (rest : List ℕ) (f : ℕ → PCB) :
    passOver sleepInsert node (other :: rest) f
      = if (f node).sleepTime ≤ (f other).sleepTime then (0, (sleepInsert node other f).2)
        else ((passOver sleepInsert node rest (sleepInsert node other f).2).1 + 1,
          (passOver sleepInsert node rest (sleepInsert node other f).2).2) := by
  rw [passOver]
  show (if 0 < (sleepInsert node other f).1 then _ else _ : ℕ × (ℕ → PCB)) = _
  by_cases h : (f node).sleepTime ≤ (f other).sleepTime
  · have hneg : ¬ 0 < (sleepInsert node other f).1 := by
      rw [sleepInsert, if_pos h]
      exact (Int.negSucc_not_pos 0).mp
    rw [if_neg hneg, if_pos h]
    rfl
  · have hpos : 0 < (sleepInsert node other f).1 := by
      rw [sleepInsert, if_neg h]
      exact Int.one_pos
    rw [if_pos hpos, if_neg h]
    rfl

theorem passOver_spec (node : ℕ) : ∀ (q : List ℕ) (f : ℕ → PCB), node ∉ q → q.Nodup →
    ∃ pre post, (passOver sleepInsert node q f).1 = pre.length ∧
      Passed node q f (passOver sleepInsert node q f).2 pre post
  | [], f, _, _ => by
    refine ⟨[], [], rfl, rfl, fun h => absurd rfl h, rfl, ?_, fun _ _ _ => rfl⟩
    intro h r hnil
    cases hnil
  | other :: rest, f, hnode, hnd => by
    rw [List.mem_cons, not_or] at hnode
    rw [List.nodup_cons] at hnd
    rw [passOver_cons]
    by_cases hle : (f node).sleepTime ≤ (f other).sleepTime
    · rw [if_pos hle]
      have hstop : sleepTimes (sleepInsert node other f).2
          = Function.update (sleepTimes f) other (sleepTimes f other - sleepTimes f node) := by
        rw [sleepInsert, if_pos hle, sleepTimes_update]
        rfl
      refine ⟨[], other :: rest, rfl, rfl, fun h => absurd rfl h, ?_, ?_, ?_⟩
      · rw [hstop, Function.update_of_ne hnode.1]
        rfl
      · rintro h r ⟨⟩
        rw [hstop, Function.update_self]
        exact ⟨by rw [List.map_nil, List.sum_nil, Nat.zero_add]; exact hle, rfl⟩
      · intro y _ hy
        rw [hstop, Function.update_of_ne (hy other rest rfl)]
    · rw [if_neg hle]
      have hpass : sleepTimes (sleepInsert node other f).2
          = Function.update (sleepTimes f) node (sleepTimes f node - sleepTimes f other) := by
        rw [sleepInsert, if_neg hle, sleepTimes_update]
        rfl
      have hlt : sleepTimes f other < sleepTimes f node := not_le.mp hle
      obtain ⟨pre, post, hk, hp⟩ := passOver_spec node rest
        (sleepInsert node other f).2 hnode.2 hnd.2
      have hpre : ∀ y ∈ pre, y ≠ node := by
        rintro y hy rfl
        exact hnode.2 (hp.split ▸ List.mem_append_left _ hy)
      have hsum : (pre.map (sleepTimes (sleepInsert node other f).2)).sum
          = (pre.map (sleepTimes f)).sum := by
        refine congrArg List.sum (List.map_congr_left fun y hy => ?_)
        rw [hpass, Function.update_of_ne (hpre y hy)]
      have hself : sleepTimes (sleepInsert node other f).2 node
          = sleepTimes f node - sleepTimes f other := by
        rw [hpass, Function.update_self]
      refine ⟨other :: pre, post, by rw [hk]; rfl, by rw [hp.split]; rfl, fun _ => ?_, ?_, ?_, ?_⟩
      · rw [List.map_cons, List.sum_cons]
        by_cases hnil : pre = []
        · rw [hnil, List.map_nil, List.sum_nil]
          exact hlt
        · have hpassed := hp.passed hnil
          rw [hsum, hself] at hpassed
          omega
      · rw [hp.own, hsum, hself, List.map_cons, List.sum_cons]
        omega
      · intro h r hpost
        obtain ⟨h1, h2⟩ := hp.stopped h r hpost
        have hh : h ≠ node := by
          rintro rfl
          exact hnode.2 (hp.split ▸ List.mem_append_right _ (hpost ▸ List.mem_cons_self))
        have hsame : sleepTimes (sleepInsert node other f).2 h = sleepTimes f h := by
          rw [hpass, Function.update_of_ne hh]
        rw [hsum, hself, hsame] at h1
        rw [hsum, hself, hsame] at h2
        rw [List.map_cons, List.sum_cons]
        refine ⟨by omega, ?_⟩
        rw [h2]
        omega
      · intro y hy hpost
        rw [hp.others y hy hpost, hpass, Function.update_of_ne hy]

/-! ## Inserting a process -/

section Insert

variable {δ : Type} {cmp : ℕ → ℕ → δ → ℤ × δ} {data : δ} {pre post r : List ℕ} {h : ℕ}

lemma queueEnqueuePrio_snd (hq : q ≠ []) :
    (queueEnqueuePrio cmp q node data).2 = (passOver cmp node q data).2 := by
  rw [queueEnqueuePrio, if_neg (fun h0 => hq (List.length_eq_zero_iff.mp h0))]
  simp only
  split
  · rfl
  · split <;> rfl

lemma queueEnqueuePrio_last (hq : q ≠ []) (hk : (passOver cmp node q data).1 = q.length) :
    (queueEnqueuePrio cmp q node data).1 = q ++ [node] := by
  rw [queueEnqueuePrio, if_neg (fun h0 => hq (List.length_eq_zero_iff.mp h0))]
  simp only [if_pos hk]

lemma queueEnqueuePrio_first (hq : q ≠ []) (hk : (passOver cmp node q data).1 = 0) :
    (queueEnqueuePrio cmp q node data).1 = node :: q := by
  have h0 : q.length ≠ 0 := fun h0 => hq (List.length_eq_zero_iff.mp h0)
  rw [queueEnqueuePrio, if_neg h0]
  simp only [hk, if_neg (Ne.symm h0), if_true]

/-- In between, the node comes after the one that was not passed over. -/
lemma queueEnqueuePrio_between (hpre : pre ≠ [])
    (hk : (passOver cmp node (pre ++ h :: r) data).1 = pre.length) :
    (queueEnqueuePrio cmp (pre ++ h :: r) node data).1 = pre ++ h :: node :: r := by
  have hlen : (pre ++ h :: r).length ≠ 0 := by
    rw [List.length_append, List.length_cons]
    omega
  have hlast : pre.length ≠ (pre ++ h :: r).length := by
    rw [List.length_append, List.length_cons]
    omega
  have hfirst : pre.length ≠ 0 := fun h0 => hpre (List.length_eq_zero_iff.mp h0)
  rw [queueEnqueuePrio, if_neg hlen]
  simp only [hk, if_neg hlast, if_neg hfirst]
  have hsplit : pre ++ h :: r = (pre ++ [h]) ++ r := by rw [List.append_assoc]; rfl
  have htake : pre.length + 1 = (pre ++ [h]).length := by rw [List.length_append]; rfl
  rw [hsplit, htake, List.take_left, List.drop_left, List.append_assoc]
  rfl

end Insert

namespace Passed

variable {pre post : List ℕ} {f' : ℕ → PCB}

lemma keep (hp : Passed node q f f' pre post) (hnode : node ∉ q) (hnd : q.Nodup) :
    ∀ y ∈ pre, sleepTimes f' y = sleepTimes f y := by
  intro y hy
  refine hp.others y ?_ ?_
  · rintro rfl
    exact hnode (hp.split ▸ List.mem_append_left _ hy)
  · rintro h r hpost rfl
    rw [hp.split, hpost] at hnd
    exact (List.nodup_append'.mp hnd).2.2 hy List.mem_cons_self

lemma keep_rest {h : ℕ} {r : List ℕ} (hp : Passed node q f f' pre (h :: r)) (hnode : node ∉ q)
    (hnd : q.Nodup) : ∀ y ∈ r, sleepTimes f' y = sleepTimes f y := by
  intro y hy
  refine hp.others y ?_ ?_
  · rintro rfl
    exact hnode (hp.split ▸ List.mem_append_right _ (List.mem_cons_of_mem _ hy))
  · rintro h' r' ⟨⟩ rfl
    rw [hp.split] at hnd
    exact (List.nodup_cons.mp (List.nodup_append'.mp hnd).2.1).1 hy

/-- A time is at an end of the queue if the walk stops at an end. -/
lemma atAnEnd_iff (hp : Passed node q f f' pre post) :
    AtAnEnd (sleepTimes f) (sleepTimes f node) q ↔ pre = [] ∨ post = [] := by
  have hsplit := hp.split
  cases hpost : post with
  | nil =>
    refine ⟨fun _ => .inr rfl, fun _ => ?_⟩
    rw [hpost, List.append_nil] at hsplit
    rw [hsplit]
    cases hpre : pre with
    | nil => trivial
    | cons x rest => exact .inr (hpre ▸ hp.passed (hpre ▸ List.cons_ne_nil x rest))
  | cons h r =>
    obtain ⟨hle, -⟩ := hp.stopped h r hpost
    rw [hpost] at hsplit
    cases hpre : pre with
    | nil =>
      rw [hpre, List.map_nil, List.sum_nil, Nat.zero_add] at hle
      rw [hsplit, hpre]
      exact ⟨fun _ => .inl rfl, fun _ => .inl hle⟩
    | cons x rest =>
      have hlt := hp.passed (hpre ▸ List.cons_ne_nil x rest)
      rw [hpre, List.map_cons, List.sum_cons] at hlt hle
      rw [hsplit, hpre]
      refine ⟨fun hend => ?_, fun hor => ?_⟩
      · exfalso
        rcases hend with hfirst | hlast
        · have hfirst' : sleepTimes f node ≤ sleepTimes f x := hfirst
          omega
        · have hlast' : ((x :: (rest ++ h :: r)).map (sleepTimes f)).sum < sleepTimes f node :=
            hlast
          rw [List.map_cons, List.sum_cons, List.map_append, List.sum_append, List.map_cons,
            List.sum_cons] at hlast'
          omega
      · rcases hor with hx | hx <;> cases hx

lemma inserted_last (hp : Passed node q f f' pre []) (hnode : node ∉ q) (hnd : q.Nodup)
    (hq : q ≠ []) : Inserted q f node (q ++ [node]) f' := by
  have hpre : q = pre := hp.split.trans (List.append_nil _)
  have hlt := hp.passed (hpre ▸ hq)
  obtain ⟨hnew, hothers⟩ := due_append_singleton (δ := sleepTimes f) (γ := sleepTimes f')
    (q := pre) (hpre ▸ hnode) (hp.keep hnode hnd) hlt.le hp.own
  rw [hpre]
  exact ⟨hothers, hnew, List.sublist_append_left _ _⟩

lemma inserted_first {h : ℕ} {r : List ℕ} (hp : Passed node q f f' [] (h :: r)) (hnode : node ∉ q)
    (hnd : q.Nodup) : Inserted q f node (node :: q) f' := by
  obtain ⟨hle, hδh⟩ := hp.stopped h r rfl
  have hsplit : q = h :: r := hp.split
  obtain ⟨hnew, hothers⟩ := due_insert (δ := sleepTimes f) (γ := sleepTimes f') (q := [])
    List.not_mem_nil (hsplit ▸ hnode) (hp.keep hnode hnd) (hp.keep_rest hnode hnd) (Nat.zero_le _)
    hle hp.own hδh
  rw [hsplit]
  exact ⟨hothers, hnew, List.sublist_cons_self _ _⟩

/-- The process at which the walk stops in between wakes too soon. -/
lemma early_between {h : ℕ} {r : List ℕ} (hp : Passed node q f f' pre (h :: r)) (hnode : node ∉ q)
    (hnd : q.Nodup) (hpre : pre ≠ []) :
    due (sleepTimes f') h (pre ++ h :: node :: r) < due (sleepTimes f) h q := by
  obtain ⟨hle, hδh⟩ := hp.stopped h r rfl
  have hlt := hp.passed hpre
  have hkeep := hp.keep hnode hnd
  rw [hp.split] at hnd ⊢
  have hhpre : h ∉ pre := fun hm => (List.nodup_append'.mp hnd).2.2 hm List.mem_cons_self
  rw [due_append_right hhpre, due_append_right hhpre, due_cons_self, due_cons_self,
    List.map_congr_left hkeep, hδh]
  omega

end Passed

lemma inserted_nil : Inserted [] f node (queueEnqueuePrio sleepInsert [] node f).1
    (queueEnqueuePrio sleepInsert [] node f).2 :=
  ⟨fun _ hp => absurd hp List.not_mem_nil, due_cons_self, List.nil_sublist _⟩

lemma inserted_of_atAnEnd (hnode : node ∉ q) (hnd : q.Nodup)
    (hend : AtAnEnd (sleepTimes f) (f node).sleepTime q) :
    Inserted q f node (queueEnqueuePrio sleepInsert q node f).1
      (queueEnqueuePrio sleepInsert q node f).2 := by
  by_cases hq : q = []
  · rw [hq]
    exact inserted_nil
  obtain ⟨pre, post, hk, hp⟩ := passOver_spec node q f hnode hnd
  rw [queueEnqueuePrio_snd hq]
  cases hpost : post with
  | nil =>
    rw [hpost] at hp
    have hlen : pre.length = q.length :=
      congrArg List.length (hp.split.trans (List.append_nil _)).symm
    rw [queueEnqueuePrio_last hq (hk.trans hlen)]
    exact hp.inserted_last hnode hnd hq
  | cons h r =>
    have hpre : pre = [] := (hp.atAnEnd_iff.mp hend).resolve_right (hpost ▸ List.cons_ne_nil h r)
    rw [hpre] at hk
    rw [hpost, hpre] at hp
    rw [queueEnqueuePrio_first hq hk]
    exact hp.inserted_first hnode hnd

/-- The process that is passed to `queue_enqueue_prio` wakes when it asked to and everybody else
when before, exactly if its time is at an end of the queue. -/
theorem inserted_iff (hnode : node ∉ q) (hnd : q.Nodup) :
    Inserted q f node (queueEnqueuePrio sleepInsert q node f).1
        (queueEnqueuePrio sleepInsert q node f).2
      ↔ AtAnEnd (sleepTimes f) (f node).sleepTime q := by
  refine ⟨fun hin => ?_, inserted_of_atAnEnd hnode hnd⟩
  obtain ⟨pre, post, hk, hp⟩ := passOver_spec node q f hnode hnd
  by_contra hend
  have hends : ¬ (pre = [] ∨ post = []) := fun hor => hend (hp.atAnEnd_iff.mpr hor)
  rw [not_or] at hends
  obtain ⟨h, r, hpost⟩ := List.exists_cons_of_ne_nil hends.2
  rw [hpost] at hp
  have hq : q ≠ [] := hp.split ▸ List.append_ne_nil_of_right_ne_nil _ (List.cons_ne_nil h r)
  have hearly := hp.early_between hnode hnd hends.1
  have hlist : (queueEnqueuePrio sleepInsert q node f).1 = pre ++ h :: node :: r := by
    have hsplit := hp.split
    rw [hsplit] at hk ⊢
    exact queueEnqueuePrio_between hends.1 hk
  rw [← queueEnqueuePrio_snd hq, ← hlist] at hearly
  exact absurd (hin.others h (hp.split ▸ List.mem_append_right _ List.mem_cons_self)) hearly.ne

/-- The processes 1, 2 and 3 with these times to sleep -/
def threeSleepers (t1 t2 t3 : ℕ) : ℕ → PCB
  | 1 => ⟨0, 0, t1, 0, 0, .sleeping, normal⟩
  | 2 => ⟨0, 0, t2, 0, 0, .sleeping, normal⟩
  | _ => ⟨0, 0, t3, 0, 0, .sleeping, normal⟩

/-- Between 10 and 20: the process that was to wake after 20 wakes after 15. -/
theorem not_inserted_between : ∃ q f node, node ∉ q ∧ q.Nodup ∧
    ¬ Inserted q f node (queueEnqueuePrio sleepInsert q node f).1
      (queueEnqueuePrio sleepInsert q node f).2 := by
  refine ⟨[1, 2], threeSleepers 10 10 15, 3, by decide, by decide, fun h => ?_⟩
  exact absurd (h.others 2 (by decide)) (by decide)

theorem inserted_before : Inserted [1, 2] (threeSleepers 10 10 5) 3
    (queueEnqueuePrio sleepInsert [1, 2] 3 (threeSleepers 10 10 5)).1
    (queueEnqueuePrio sleepInsert [1, 2] 3 (threeSleepers 10 10 5)).2 :=
  (inserted_iff (by decide) (by decide)).mpr (.inl (by decide))

/-! ## Waking those that are due -/

/-- The processes that are to wake within `tickSpan`. -/
def dueBy (tickSpan : ℕ) (s : Sched) : List ℕ :=
  s.sleepQueue.filter fun p => wakeTime s p ≤ tickSpan

/-- All that are due have been moved to the ready queues, and `tickSpan` has been taken off the
wake times of the others; `n` is the first of these. -/
structure Ticked (tickSpan : ℕ) (s : Sched) (n : ℕ) (s' : Sched) : Prop where
  ready : ∀ i, s'.queues i = s.queues i ++ (dueBy tickSpan s).filter fun p =>
    (s.pcbs p).priority = i
  state : ∀ p ∈ dueBy tickSpan s, (s'.pcbs p).state = .ready
  sleepers : s'.sleepQueue = s.sleepQueue.filter fun p => tickSpan < wakeTime s p
  times : ∀ p ∈ s'.sleepQueue, wakeTime s' p + tickSpan = wakeTime s p
  none : s'.sleepQueue = [] → n = 0
  next : s'.sleepQueue ≠ [] → 0 < n ∧ (∃ p ∈ s'.sleepQueue, wakeTime s' p = n) ∧
    ∀ p ∈ s'.sleepQueue, n ≤ wakeTime s' p

/-- At most the head is due; if it is and is not alone, just now. -/
def OneDue (δ : ℕ → ℕ) (tickSpan : ℕ) : List ℕ → Prop
  | [] => True
  | [_] => True
  | h :: x :: _ => tickSpan < δ h ∨ δ h = tickSpan ∧ 0 < δ x

variable {s : Sched} {h : ℕ}

lemma wakeTime_head (hq : s.sleepQueue = h :: rest) : wakeTime s h = (s.pcbs h).sleepTime := by
  rw [wakeTime, hq, due_cons_self]
  rfl

lemma head_le_wakeTime (hq : s.sleepQueue = h :: rest) (p : ℕ) :
    (s.pcbs h).sleepTime ≤ wakeTime s p := by
  rw [wakeTime, hq]
  by_cases hhp : h = p
  · rw [hhp, due_cons_self]
    exact le_rfl
  · rw [due_cons_of_ne hhp]
    exact Nat.le_add_right _ _

lemma second_le_wakeTime {x : ℕ} (hq : s.sleepQueue = h :: x :: rest) (hnd : s.sleepQueue.Nodup)
    (hp : p ∈ x :: rest) : (s.pcbs h).sleepTime + (s.pcbs x).sleepTime ≤ wakeTime s p := by
  rw [hq, List.nodup_cons] at hnd
  rw [wakeTime, hq, due_cons_of_ne (ne_of_mem_of_not_mem hp hnd.1).symm]
  refine Nat.add_le_add_left ?_ _
  by_cases hxp : x = p
  · rw [hxp, due_cons_self]
    exact le_rfl
  · rw [due_cons_of_ne hxp]
    exact Nat.le_add_right _ _

lemma wakeTime_wakeHead (hq : s.sleepQueue = h :: rest) (hnd : s.sleepQueue.Nodup) (hp : p ∈ rest) :
    wakeTime (wakeHead h s) p + (s.pcbs h).sleepTime = wakeTime s p := by
  rw [hq, List.nodup_cons] at hnd
  have htail : (wakeHead h s).sleepQueue = rest := by
    show s.sleepQueue.tail = rest
    rw [hq, List.tail_cons]
  have hsame : ∀ y ∈ rest, sleepTimes (wakeHead h s).pcbs y = sleepTimes s.pcbs y := by
    intro y hy
    rw [sleepTimes, wakeHead_pcbs, Function.update_of_ne (ne_of_mem_of_not_mem hy hnd.1)]
    rfl
  rw [wakeTime, wakeTime, htail, hq, due_congr hsame,
    due_cons_of_ne (ne_of_mem_of_not_mem hp hnd.1).symm, Nat.add_comm]
  rfl

lemma wakeTime_tickHead (hq : s.sleepQueue = h :: rest) (hnd : s.sleepQueue.Nodup)
    (hd : d ≤ (s.pcbs h).sleepTime) : wakeTime (tickHead d h s) p + d = wakeTime s p := by
  rw [hq, List.nodup_cons] at hnd
  rw [wakeTime, wakeTime]
  show due _ p s.sleepQueue + d = _
  rw [hq]
  refine due_tick hd ?_ fun y hy => ?_
  · rw [sleepTimes, tickHead, setPcb_self]
    rfl
  · rw [sleepTimes, tickHead, setPcb_of_ne _ (ne_of_mem_of_not_mem hy hnd.1)]
    rfl

/-- Nobody is due before the head is. -/
lemma ticked_tickHead (hq : s.sleepQueue = h :: rest) (hnd : s.sleepQueue.Nodup)
    (hd : d < (s.pcbs h).sleepTime) :
    Ticked d s ((s.pcbs h).sleepTime - d) (tickHead d h s) := by
  have hlate : ∀ p, d < wakeTime s p := fun p => hd.trans_le (head_le_wakeTime hq p)
  have hnone : dueBy d s = [] := by
    rw [dueBy, List.filter_eq_nil_iff]
    intro p _
    rw [decide_eq_true_eq, not_le]
    exact hlate p
  have htick : ∀ p, wakeTime (tickHead d h s) p + d = wakeTime s p :=
    fun p => wakeTime_tickHead hq hnd hd.le
  have hqueue : (tickHead d h s).sleepQueue = h :: rest := hq
  have hhead : wakeTime (tickHead d h s) h = (s.pcbs h).sleepTime - d := by
    have hh := htick h
    rw [wakeTime_head hq] at hh
    omega
  refine ⟨fun i => ?_, ?_, ?_, fun p _ => htick p, fun hnil => ?_,
    fun _ => ⟨?_, ⟨h, ?_, hhead⟩, ?_⟩⟩
  · rw [hnone, List.filter_nil, List.append_nil]
    rfl
  · rw [hnone]
    exact fun p hp => absurd hp List.not_mem_nil
  · rw [List.filter_eq_self.mpr fun p _ => decide_eq_true (hlate p)]
    rfl
  · rw [hqueue] at hnil
    cases hnil
  · exact Nat.sub_pos_of_lt hd
  · rw [hqueue]
    exact List.mem_cons_self
  · intro p _
    have hp := htick p
    have hp' := head_le_wakeTime hq p
    omega

/-- The head is woken. -/
lemma ticked_wakeHead (hq : s.sleepQueue = h :: rest) (hnd : s.sleepQueue.Nodup)
    (hd : (s.pcbs h).sleepTime ≤ d)
    (hone : ∀ x r, rest = x :: r → (s.pcbs h).sleepTime = d ∧ 0 < (s.pcbs x).sleepTime) :
    Ticked d s (headSleep (wakeHead h s)) (wakeHead h s) := by
  have htail : (wakeHead h s).sleepQueue = rest := by
    show s.sleepQueue.tail = rest
    rw [hq, List.tail_cons]
  have hlate : ∀ p ∈ rest, d < wakeTime s p := by
    intro p hp
    obtain ⟨x, r, hrest⟩ := List.exists_cons_of_ne_nil (List.ne_nil_of_mem hp)
    obtain ⟨h1, h2⟩ := hone x r hrest
    have hp' := second_le_wakeTime (hrest ▸ hq) hnd (hrest ▸ hp)
    omega
  have hdue : dueBy d s = [h] := by
    rw [dueBy, hq, List.filter_cons_of_pos (by simpa [wakeTime_head hq] using hd),
      List.filter_eq_nil_iff.mpr]
    intro p hp
    rw [decide_eq_true_eq, not_le]
    exact hlate p hp
  have hleft : ∀ p ∈ rest, wakeTime (wakeHead h s) p + (s.pcbs h).sleepTime = wakeTime s p :=
    fun p hp => wakeTime_wakeHead hq hnd hp
  have htimes : ∀ p ∈ rest, wakeTime (wakeHead h s) p + d = wakeTime s p := by
    intro p hp
    obtain ⟨x, r, hrest⟩ := List.exists_cons_of_ne_nil (List.ne_nil_of_mem hp)
    rw [← (hone x r hrest).1]
    exact hleft p hp
  refine ⟨fun i => ?_, ?_, ?_, ?_, fun hnil => ?_, fun hne => ?_⟩
  · rw [hdue]
    exact queues_wakeHead i
  · intro p hp
    rw [hdue, List.mem_singleton] at hp
    rw [hp, wakeHead_pcbs, Function.update_self]
  · rw [htail, hq, List.filter_cons_of_neg (by simpa [wakeTime_head hq] using hd),
      List.filter_eq_self.mpr fun p hp => decide_eq_true (hlate p hp)]
  · rw [htail]
    exact htimes
  · rw [headSleep, hnil]
  · rw [htail] at hne ⊢
    obtain ⟨x, r, hrest⟩ := List.exists_cons_of_ne_nil hne
    have hqueue : (wakeHead h s).sleepQueue = x :: r := htail.trans hrest
    have hhead : headSleep (wakeHead h s) = wakeTime (wakeHead h s) x := by
      rw [headSleep, hqueue, wakeTime_head hqueue]
    have hx : x ∈ rest := hrest ▸ List.mem_cons_self
    refine ⟨?_, ⟨x, hx, hhead.symm⟩, fun p hp => ?_⟩
    · rw [hhead]
      have h1 := htimes x hx
      have h2 := hlate x hx
      omega
    · rw [hhead, wakeTime_head hqueue]
      exact head_le_wakeTime hqueue p

/-- `get_next_sleep` wakes those that are due, and nobody else's wait changes, exactly if at most
the head is due and leaves nothing of the span to the others. -/
theorem getNextSleep_iff (hnd : s.sleepQueue.Nodup) (hnodes : s.baQnodes ≠ 0)
    (hprio : ∀ p ∈ s.sleepQueue, (s.pcbs p).priority < numQueues) :
    wp (getNextSleep d) (Ticked d s) (fun _ => False) s ↔
      OneDue (sleepTimes s.pcbs) d s.sleepQueue := by
  cases hq : s.sleepQueue with
  | nil =>
    rw [wp_getNextSleep_nil hq]
    refine ⟨fun _ => trivial,
      fun _ => ⟨fun i => ?_, ?_, ?_, ?_, fun _ => rfl, fun hne => absurd hq hne⟩⟩
    · rw [dueBy, hq, List.filter_nil, List.filter_nil, List.append_nil]
    · rw [dueBy, hq, List.filter_nil]
      exact fun p hp => absurd hp List.not_mem_nil
    · rw [hq, List.filter_nil]
    · rw [hq]
      exact fun p hp => absurd hp List.not_mem_nil
  | cons h rest =>
    rcases lt_or_ge d (s.pcbs h).sleepTime with hd | hd
    · refine ⟨fun _ => ?_, fun _ => (wp_getNextSleep_tick hq hd).mpr (ticked_tickHead hq hnd hd)⟩
      cases rest with
      | nil => trivial
      | cons x r => exact .inl hd
    · have hh : h ∈ s.sleepQueue := hq ▸ List.mem_cons_self
      have hrun : wp (getNextSleep d)
          (fun n s' => n = headSleep (wakeHead h s) ∧ s' = wakeHead h s) (fun _ => False) s :=
        wp_getNextSleep_wake hq hd ⟨fun h0 => hnodes h0, fun hp => hp (hprio h hh)⟩
          fun _ _ => ⟨rfl, rfl⟩
      obtain ⟨n, s', hok, rfl, rfl⟩ := hrun.returns
      constructor
      · intro hticked
        have ht := hticked.ok hok
        cases rest with
        | nil => trivial
        | cons x r =>
          have htail : (wakeHead h s).sleepQueue = x :: r := by
            show s.sleepQueue.tail = x :: r
            rw [hq, List.tail_cons]
          have hx : x ∈ (wakeHead h s).sleepQueue := htail ▸ List.mem_cons_self
          have hlate : d < wakeTime s x := by
            have hx' := hx
            rw [ht.sleepers] at hx'
            exact of_decide_eq_true (List.mem_filter.mp hx').2
          have h1 := ht.times x hx
          have h2 := wakeTime_wakeHead hq hnd (List.mem_cons_self (a := x) (l := r))
          have h3 := wakeTime_head htail
          have hne : x ≠ h := by
            rw [hq, List.nodup_cons] at hnd
            exact ne_of_mem_of_not_mem List.mem_cons_self hnd.1
          rw [wakeHead_pcbs, Function.update_of_ne hne] at h3
          refine .inr ⟨?_, ?_⟩
          · show (s.pcbs h).sleepTime = d
            omega
          · show 0 < (s.pcbs x).sleepTime
            omega
      · intro hone
        refine wp_of_ok hok (ticked_wakeHead hq hnd hd fun x r hrest => ?_)
        rw [hrest] at hone
        exact hone.resolve_left (not_lt.mpr hd)

/-- Two processes sleep for these times, the second after the first. -/
def twoAsleep (t1 t2 : ℕ) : Sched :=
  { schedulerInit [] (threeSleepers t1 t2 0) with sleepQueue := [1, 2] }

/-- Both are due after 5, and one is woken. -/
theorem not_ticked_together : ∃ s d, s.sleepQueue.Nodup ∧ s.baQnodes ≠ 0 ∧
    (∀ p ∈ s.sleepQueue, (s.pcbs p).priority < numQueues) ∧
    ¬ wp (getNextSleep d) (Ticked d s) (fun _ => False) s := by
  refine ⟨twoAsleep 5 0, 5, by decide, by decide, by decide, fun h => ?_⟩
  have hrun : wp (getNextSleep 5) (fun _ s' => s' = wakeHead 1 (twoAsleep 5 0)) (fun _ => False)
      (twoAsleep 5 0) :=
    wp_getNextSleep_wake rfl (by decide) ⟨fun h0 => absurd h0 (by decide),
      fun hp => absurd (by decide) hp⟩ fun _ _ => rfl
  obtain ⟨n, s', hok, rfl⟩ := hrun.returns
  exact absurd (h.ok hok).sleepers (by decide)

theorem ticked_one :
    wp (getNextSleep 5) (Ticked 5 (twoAsleep 5 3)) (fun _ => False) (twoAsleep 5 3) :=
  (getNextSleep_iff (by decide) (by decide) (by decide)).mpr (.inr ⟨rfl, by decide⟩)

end Bikeshed.Scheduler
