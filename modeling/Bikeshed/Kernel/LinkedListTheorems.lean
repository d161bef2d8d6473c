import Bikeshed.Kernel.LinkedList

/-!
# Which calls keep the lists of `linkedlist.c`
-/

namespace Bikeshed.Kernel

open Lib

/-- The call does not insert behind the tail, and it takes nothing out but the tail. The last of
the sizes that `size` can hold is not exceeded. -/
def Repairs (s : LinkedList) : ListCall → Prop
  | .insert newElement element _ =>
    newElement = 0 ∨ (element = 0 ∨ s.next element ≠ 0) ∧ s.size ≠ 0x7FFFFFFF
  | .remove element =>
    s.size = 0 ∨ element ≠ 0 ∧ s.next element = 0 ∨
      s.next (if element = 0 then s.head else s.next element) = 0

section
variable {l r : List Word} {s : LinkedList} {e new b x : Word}

/-! ## The sequences -/

/-- Behind the first occurrence -/
lemma insertAfter_append (he : e ∉ l) : insertAfter e new (l ++ e :: r) = l ++ e :: new :: r := by
  induction l with
  | nil => exact if_pos rfl
  | cons a l ih =>
    rw [List.mem_cons, not_or] at he
    exact (if_neg (Ne.symm he.1)).trans (congrArg (a :: ·) (ih he.2))

lemma removeAfter_append (he : e ∉ l) : removeAfter e (l ++ e :: r) = l ++ e :: r.tail := by
  induction l with
  | nil => exact if_pos rfl
  | cons a l ih =>
    rw [List.mem_cons, not_or] at he
    exact (if_neg (Ne.symm he.1)).trans (congrArg (a :: ·) (ih he.2))

/-- A member of the list, with what is before it and behind it. -/
lemma split_at (hnd : l.Nodup) (he : e ∈ l) :
    ∃ l1 r, l = l1 ++ e :: r ∧ e ∉ l1 ∧ (l1 ++ r).Nodup ∧ e ∉ r := by
  obtain ⟨l1, r, rfl⟩ := List.append_of_mem he
  obtain ⟨hnd', hni⟩ := List.nodup_middle.mp hnd |> List.nodup_cons.mp |> And.symm
  rw [List.mem_append, not_or] at hni
  exact ⟨l1, r, rfl, hni.1, hnd', hni.2⟩

/-! ## Insertion -/

/-- With NULL the element becomes the head. -/
lemma listInsertNext_head (hnew : new ≠ 0) (s : LinkedList) :
    ListCall.run (.insert new 0 x) s = some
      { size := s.size + 1
        head := new
        tail := if s.size = 0 then new else s.tail
        data := Function.update s.data new x
        next := Function.update s.next new s.head
        prev := Function.update (if s.head = 0 then s.prev else Function.update s.prev s.head new)
          new 0 } := by
  unfold ListCall.run listInsertNext LinkedList.setPrev LinkedList.setNext LinkedList.setData
  by_cases hsize : s.size = 0 <;> by_cases hhead : s.head = 0 <;>
    simp only [hnew, hsize, hhead, if_true, if_false, ne_eq, not_true_eq_false, not_false_eq_true,
      Option.map_some]

/-- In the middle both neighbours are linked to it. -/
lemma listInsertNext_after (hnew : new ≠ 0) (he : e ≠ 0) (hb : s.next e ≠ 0) :
    ListCall.run (.insert new e x) s = some
      { size := s.size + 1
        head := s.head
        tail := s.tail
        data := Function.update s.data new x
        next := Function.update (Function.update s.next new (s.next e)) e new
        prev := Function.update (Function.update s.prev new e) (s.next e) new } := by
  unfold ListCall.run listInsertNext LinkedList.setPrev LinkedList.setNext LinkedList.setData
  simp only [hnew, he, hb, if_false, Option.map_some]

/-- There is no element whose `prev` could be written. -/
lemma listInsertNext_tail (hnew : new ≠ 0) (he : e ≠ 0) (hb : s.next e = 0) :
    ListCall.run (.insert new e x) s = none := by
  unfold ListCall.run listInsertNext LinkedList.setPrev LinkedList.setNext LinkedList.setData
  simp only [hnew, he, hb, if_false, if_true, Option.map_none]

/-- The size counts up unless it wraps. -/
lemma toInt_succ {n : BitVec 32} {k : ℕ} (h : n.toInt = k) :
    (n + 1).toInt = (k + 1 : ℕ) ↔ n ≠ 0x7FFFFFFF := by
  constructor
  · rintro hk rfl
    have h0 : ((0x7FFFFFFF : BitVec 32) + 1).toInt = -2147483648 := by decide
    omega
  · intro hn
    have h1 : (1 : BitVec 32).toInt = 1 := by decide
    have hlt : n.toInt < 2147483648 := BitVec.toInt_lt
    have hne : n.toInt ≠ 2147483647 := fun he => hn (BitVec.eq_of_toInt_eq he)
    rw [BitVec.toInt_add, h1, Int.bmod_eq_of_le (by omega) (by omega)]
    omega

/-- The size counts down. -/
lemma toInt_pred {n : BitVec 32} {k : ℕ} (h : n.toInt = (k + 1 : ℕ)) : (n - 1).toInt = k := by
  have h1 : (1 : BitVec 32).toInt = 1 := by decide
  have hlt : n.toInt < 2147483648 := BitVec.toInt_lt
  rw [BitVec.toInt_sub, h1, Int.bmod_eq_of_le (by omega) (by omega)]
  omega

/-- The test for an empty list -/
lemma WellLinked.size_zero_iff (h : WellLinked l s) : s.size = 0 ↔ l = [] := by
  rw [← BitVec.toInt_inj, h.size_eq, ← List.length_eq_zero_iff]
  exact Int.natCast_eq_zero

/-- A new head: the links of the others are as before, but for `prev` of the old head. -/
lemma WellLinked.insert_head (h : WellLinked l s) (h0 : 0 ∉ l) (hnd : l.Nodup) (hnew : new ≠ 0)
    (hfresh : new ∉ l) (hsize : s.size ≠ 0x7FFFFFFF) :
    ∃ s', ListCall.run (.insert new 0 x) s = some s' ∧ WellLinked (new :: l) s' := by
  refine ⟨_, listInsertNext_head hnew s, (toInt_succ h.size_eq).mpr hsize, ?_, ?_, ?_⟩
  · refine ⟨rfl, ?_⟩
    dsimp only
    rw [Function.update_self]
    exact h.forward.update hfresh _
  · dsimp only
    cases l with
    | nil => rw [if_pos (h.size_zero_iff.mpr rfl)]; rfl
    | cons a l =>
      rw [if_neg (h.size_zero_iff.not.mpr (List.cons_ne_nil a l)), h.tail_eq,
        List.getLast?_cons_cons]
  · dsimp only
    rw [List.reverse_cons, Linked, segment_concat, Function.update_self]
    refine ⟨?_, rfl⟩
    cases l with
    | nil => exact if_pos (h.size_zero_iff.mpr rfl)
    | cons a l =>
      have ha : s.head = a := h.forward.1
      have ha0 : a ≠ 0 := fun he => h0 (he ▸ List.mem_cons_self)
      have hback := h.backward
      rw [List.reverse_cons, Linked, segment_concat] at hback
      have hal : a ∉ l.reverse := by
        rw [List.mem_reverse]
        exact (List.nodup_cons.mp hnd).1
      have hnew' : new ∉ l.reverse ++ [a] := by
        rw [← List.reverse_cons, List.mem_reverse]
        exact hfresh
      rw [if_neg (h.size_zero_iff.not.mpr (List.cons_ne_nil a l)), if_neg (ha ▸ ha0), ha,
        List.reverse_cons]
      refine Segment.update ?_ hnew' 0
      rw [segment_concat, Function.update_self]
      exact ⟨hback.1.update hal new, rfl⟩

/-- A new element between `e` and `b`: it is inserted behind `e` on the way from the head, and
behind `b` on the way back. -/
lemma WellLinked.insert_after (h : WellLinked (l ++ e :: b :: r) s) (h0 : 0 ∉ l ++ e :: b :: r)
    (hnd : (l ++ e :: b :: r).Nodup) (hnew : new ≠ 0) (hfresh : new ∉ l ++ e :: b :: r)
    (hsize : s.size ≠ 0x7FFFFFFF) :
    ∃ s', ListCall.run (.insert new e x) s = some s' ∧
      WellLinked (l ++ e :: new :: b :: r) s' := by
  have he0 : e ≠ 0 := fun he => h0 (by simp [he])
  have hb0 : b ≠ 0 := fun hb => h0 (by simp [hb])
  have hen : e ≠ new := fun he => hfresh (by simp [he])
  have hbn : b ≠ new := fun hb => hfresh (by simp [hb])
  have hnext : s.next e = b := h.forward.next_eq
  have hrev : (l ++ e :: b :: r).reverse = r.reverse ++ b :: e :: l.reverse := by simp
  have hrev' : (l ++ e :: new :: b :: r).reverse = r.reverse ++ b :: new :: e :: l.reverse := by
    simp
  have hback : Linked id s.prev s.tail (r.reverse ++ b :: e :: l.reverse) := hrev ▸ h.backward
  have he : e ∉ l ++ b :: r := (List.nodup_cons.mp (List.nodup_middle.mp hnd)).1
  have hb : b ∉ r.reverse ++ e :: l.reverse := by
    rw [← List.nodup_reverse, hrev] at hnd
    exact (List.nodup_cons.mp (List.nodup_middle.mp hnd)).1
  refine ⟨_, listInsertNext_after hnew he0 (hnext ▸ hb0), ?_, ?_, ?_, ?_⟩
  · have hlen := (toInt_succ h.size_eq).mpr hsize
    rw [hlen]
    simp only [List.length_append, List.length_cons]
    rfl
  · refine Segment.insert h.forward (Function.update_self ..) ?_ fun c hc => ?_ <;> dsimp only
    · rw [Function.update_of_ne hen.symm, Function.update_self]
    · have hcn : c ≠ new := fun hn => hfresh (by
        rw [← hn, List.mem_append, List.mem_cons]
        exact (List.mem_append.mp hc).imp_right .inr)
      rw [Function.update_of_ne (ne_of_mem_of_not_mem hc he), Function.update_of_ne hcn]
  · dsimp only
    rw [h.tail_eq]
    simp
  · rw [hrev', hnext]
    refine Segment.insert hback (Function.update_self ..) ?_ fun c hc => ?_ <;> dsimp only
    · rw [Function.update_of_ne hbn.symm, Function.update_self]
      exact hback.next_eq.symm
    · have hcn : c ≠ new := fun hn => hfresh (by
        rw [← List.mem_reverse, hrev, ← hn, List.mem_append, List.mem_cons]
        exact (List.mem_append.mp hc).imp_right .inr)
      rw [Function.update_of_ne (ne_of_mem_of_not_mem hc hb), Function.update_of_ne hcn]

/-! ## Removal -/

/-- An empty list stays as it is. -/
lemma listRemoveNext_empty (hsize : s.size = 0) : ListCall.run (.remove e) s = some s := by
  simp only [ListCall.run, listRemoveNext, hsize, if_true, Option.map_some]

/-- There is nothing behind the tail. -/
lemma listRemoveNext_tail (he : e ≠ 0) (hlast : s.next e = 0) :
    ListCall.run (.remove e) s = some s := by
  simp only [ListCall.run, listRemoveNext, he, hlast, if_true, if_false, ite_self,
    Option.map_some]

/-- With NULL the head is taken out. -/
lemma listRemoveNext_head (hsize : s.size ≠ 0) (hhead : s.head ≠ 0) :
    ListCall.run (.remove 0) s = some
      { s with
        size := s.size - 1
        head := s.next s.head
        tail := if s.size = 1 then 0 else s.tail } := by
  unfold ListCall.run listRemoveNext
  by_cases h1 : s.size = 1
  · simp only [hhead, h1, if_true, if_false]
    rfl
  · simp only [hsize, hhead, h1, if_true, if_false, Option.map_some]

/-- The element behind `e` is taken out. -/
lemma listRemoveNext_after (hsize : s.size ≠ 0) (he : e ≠ 0) (hb : s.next e ≠ 0) :
    ListCall.run (.remove e) s = some
      { s with
        size := s.size - 1
        tail := if s.next (s.next e) = 0 then e else s.tail
        next := Function.update s.next e (s.next (s.next e)) } := by
  unfold ListCall.run listRemoveNext LinkedList.setNext
  by_cases h1 : s.next (s.next e) = 0 <;>
    simp only [hsize, he, hb, h1, if_true, if_false, Function.update_self, Option.map_some]

/-- The node before `b`, on the way back. -/
lemma WellLinked.prev_eq (h : WellLinked (l ++ e :: b :: r) s) : s.prev b = e := by
  have hback := h.backward
  rw [List.reverse_append, List.reverse_cons, List.reverse_cons, List.append_assoc,
    List.append_assoc] at hback
  exact Segment.next_eq hback

/-- Nothing is in front of the head. -/
lemma WellLinked.prev_head (h : WellLinked (b :: r) s) : s.prev b = 0 := by
  have hback := h.backward
  rw [List.reverse_cons, Linked, segment_concat] at hback
  exact hback.2

/-- The list behind `e` is empty exactly when `e->next` is NULL. -/
lemma WellLinked.next_zero_iff (h : WellLinked (l ++ e :: r) s) (h0 : 0 ∉ l ++ e :: r) :
    s.next e = 0 ↔ r = [] := by
  obtain ⟨m, -, -, hright⟩ := segment_append.mp h.forward
  refine Segment.null_iff hright fun a ha hz => h0 ?_
  simp only [id] at hz
  simp [← hz, ha]

/-- The list gets empty. -/
lemma WellLinked.remove_only (h : WellLinked [b] s) (hb : b ≠ 0) :
    ∃ s', ListCall.run (.remove 0) s = some s' ∧ WellLinked [] s' := by
  have hhead : s.head = b := h.forward.1
  have hsize : s.size = 1 := BitVec.eq_of_toInt_eq h.size_eq
  have hne : s.size ≠ 0 := by rw [hsize]; decide
  refine ⟨_, listRemoveNext_head hne (hhead ▸ hb), toInt_pred (k := 0) h.size_eq, ?_, ?_, ?_⟩
  · exact hhead ▸ h.forward.2
  · exact if_pos hsize
  · exact if_pos hsize

/-- The tail moves back. -/
lemma WellLinked.remove_last (h : WellLinked (l ++ [e, b]) s) (h0 : 0 ∉ l ++ [e, b])
    (hnd : (l ++ [e, b]).Nodup) :
    ∃ s', ListCall.run (.remove e) s = some s' ∧ WellLinked (l ++ [e]) s' := by
  have he0 : e ≠ 0 := fun he => h0 (by simp [he])
  have hb0 : b ≠ 0 := fun hb => h0 (by simp [hb])
  have hnext : s.next e = b := h.forward.next_eq
  have hlast : s.next b = 0 := by
    rw [List.append_cons] at h h0
    exact (h.next_zero_iff h0).mpr rfl
  have hel : e ∉ l := fun hm => (List.nodup_append.mp hnd).2.2 e hm e List.mem_cons_self rfl
  have hsize : s.size ≠ 0 := h.size_zero_iff.not.mpr (by simp)
  refine ⟨_, listRemoveNext_after hsize he0 (hnext ▸ hb0), ?_, ?_, ?_, ?_⟩
  · have hlen : s.size.toInt = (l.length + 1 + 1 : ℕ) := by
      rw [h.size_eq, List.length_append]
      rfl
    rw [List.length_append]
    exact toInt_pred hlen
  · refine Segment.remove h.forward ?_ fun c hc => ?_ <;> dsimp only
    · rw [Function.update_self, hnext]
    · rw [List.append_nil] at hc
      exact Function.update_of_ne (ne_of_mem_of_not_mem hc hel) _ _
  · dsimp only
    rw [hnext, if_pos hlast]
    simp
  · have hback := h.backward
    have hprev : s.prev b = e := h.prev_eq
    rw [List.reverse_append] at hback ⊢
    dsimp only
    rw [hnext, if_pos hlast]
    obtain ⟨-, hback⟩ := hback
    rw [hprev] at hback
    exact hback

/-! ## Each call -/

/-- An insertion keeps the list in order exactly if the condition holds. -/
lemma insert_iff (h : WellLinked l s) (h0 : 0 ∉ l) (hnd : l.Nodup) (he : e = 0 ∨ e ∈ l)
    (hfresh : new ∉ l) :
    (∃ s', ListCall.run (.insert new e x) s = some s' ∧
      WellLinked (ListCall.intended (.insert new e x) l) s') ↔ Repairs s (.insert new e x) := by
  by_cases hnew : new = 0
  · refine iff_of_true ⟨s, ?_, ?_⟩ (.inl hnew)
    · simp only [ListCall.run, listInsertNext, if_pos hnew, Option.map_some]
    · rw [ListCall.intended, if_pos hnew]
      exact h
  rw [Repairs, or_iff_right hnew, ListCall.intended, if_neg hnew]
  by_cases he0 : e = 0
  · subst he0
    rw [if_pos rfl]
    refine ⟨?_, fun hr => h.insert_head h0 hnd hnew hfresh hr.2⟩
    rintro ⟨s', hrun, h'⟩
    rw [listInsertNext_head hnew] at hrun
    obtain rfl := Option.some.inj hrun
    exact ⟨.inl rfl, (toInt_succ h.size_eq).mp h'.size_eq⟩
  rw [if_neg he0, or_iff_right he0]
  obtain ⟨l1, r, rfl, hel, -, -⟩ := split_at hnd (he.resolve_left he0)
  rw [insertAfter_append hel]
  by_cases hlast : s.next e = 0
  · refine iff_of_false ?_ fun hr => hr.1 hlast
    rintro ⟨s', hrun, -⟩
    rw [listInsertNext_tail hnew he0 hlast] at hrun
    cases hrun
  · constructor
    · rintro ⟨s', hrun, h'⟩
      rw [listInsertNext_after hnew he0 hlast] at hrun
      obtain rfl := Option.some.inj hrun
      refine ⟨hlast, (toInt_succ h.size_eq).mp ?_⟩
      have hlen := h'.size_eq
      simp only [List.length_append, List.length_cons] at hlen ⊢
      exact hlen
    · rintro ⟨-, hsize⟩
      cases r with
      | nil => exact absurd ((h.next_zero_iff h0).mpr rfl) hlast
      | cons b r => exact h.insert_after h0 hnd hnew hfresh hsize

/-- So does a removal. -/
lemma remove_iff (h : WellLinked l s) (h0 : 0 ∉ l) (hnd : l.Nodup) (he : e = 0 ∨ e ∈ l) :
    (∃ s', ListCall.run (.remove e) s = some s' ∧
      WellLinked (ListCall.intended (.remove e) l) s') ↔ Repairs s (.remove e) := by
  rw [Repairs, ListCall.intended]
  by_cases hsize : s.size = 0
  · obtain rfl := h.size_zero_iff.mp hsize
    refine iff_of_true ⟨s, listRemoveNext_empty hsize, ?_⟩ (.inl hsize)
    simpa [removeAfter] using h
  rw [or_iff_right hsize]
  by_cases he0 : e = 0
  · subst he0
    obtain ⟨a, r, rfl⟩ := List.exists_cons_of_ne_nil (h.size_zero_iff.not.mp hsize)
    have hhead : s.head = a := h.forward.1
    have ha0 : a ≠ 0 := fun ha => h0 (by simp [ha])
    simp only [ne_eq, not_true_eq_false, false_and, false_or, if_true, List.tail_cons, hhead]
    constructor
    · rintro ⟨s', hrun, h'⟩
      rw [listRemoveNext_head hsize (hhead ▸ ha0)] at hrun
      obtain rfl := Option.some.inj hrun
      cases r with
      | nil => exact h.forward.2
      | cons b r => exact absurd (h.prev_eq (l := []) |>.symm.trans h'.prev_head) ha0
    · intro hnext
      have hnil : r = [] := (h.next_zero_iff (l := []) h0).mp hnext
      subst hnil
      exact h.remove_only ha0
  obtain ⟨l1, r, rfl, hel, -, her⟩ := split_at hnd (he.resolve_left he0)
  rw [if_neg he0, if_neg he0, removeAfter_append hel]
  by_cases hlast : s.next e = 0
  · have hnil : r = [] := (h.next_zero_iff h0).mp hlast
    subst hnil
    exact iff_of_true ⟨s, listRemoveNext_tail he0 hlast, h⟩ (.inl ⟨he0, hlast⟩)
  rw [or_iff_right fun hl => hlast hl.2]
  obtain ⟨b, r, rfl⟩ := List.exists_cons_of_ne_nil ((h.next_zero_iff h0).not.mp hlast)
  have hb : s.next e = b := h.forward.next_eq
  rw [hb, List.tail_cons]
  constructor
  · rintro ⟨s', hrun, h'⟩
    rw [listRemoveNext_after hsize he0 hlast] at hrun
    obtain rfl := Option.some.inj hrun
    cases r with
    | nil =>
      rw [List.append_cons] at h h0
      exact (h.next_zero_iff h0).mpr rfl
    | cons c r =>
      -- `prev` of the element behind is `b`, but it has to be `e`
      have hbc : s.prev c = b := by
        rw [List.append_cons] at h
        exact h.prev_eq
      have hbe : b = e := hbc.symm.trans h'.prev_eq
      exact absurd hbe fun he => her (by simp [he])
  · intro hnext
    have hnil : r = [] := by
      rw [List.append_cons] at h h0
      exact (h.next_zero_iff h0).mp hnext
    subst hnil
    exact h.remove_last h0 hnd

/-- Exactly the calls that meet the condition keep the list as it has to be. -/
theorem ListCall.run_iff {c : ListCall} (h : WellLinked l s) (h0 : 0 ∉ l) (hnd : l.Nodup)
    (hc : c.legal l) :
    (∃ s', c.run s = some s' ∧ WellLinked (c.intended l) s') ↔ Repairs s c := by
  cases c with
  | insert newElement element data => exact insert_iff h h0 hnd hc.1 hc.2
  | remove element => exact remove_iff h h0 hnd hc

/-! ## Runs -/

lemma mem_insertAfter (hx : x ∈ insertAfter e new l) : x = new ∨ x ∈ l := by
  induction l with
  | nil => cases hx
  | cons a l ih =>
    unfold insertAfter at hx
    split at hx
    · simp only [List.mem_cons] at hx ⊢
      tauto
    · rw [List.mem_cons] at hx ⊢
      rcases hx with hx | hx
      · exact .inr (.inl hx)
      · exact (ih hx).imp_right .inr

lemma removeAfter_sublist : (removeAfter e l).Sublist l := by
  induction l with
  | nil => exact .slnil
  | cons a l ih =>
    unfold removeAfter
    split
    · exact (List.tail_sublist l).cons_cons a
    · exact ih.cons_cons a

/-- No element comes in twice. -/
lemma intended_nodup {c : ListCall} (h0 : 0 ∉ l) (hnd : l.Nodup) (hc : c.legal l) :
    0 ∉ c.intended l ∧ (c.intended l).Nodup := by
  cases c with
  | insert newElement element data =>
    obtain ⟨he, hfresh⟩ := hc
    simp only [ListCall.intended]
    split
    next => exact ⟨h0, hnd⟩
    next hnew =>
      split
      next =>
        refine ⟨fun hm => ?_, List.nodup_cons.mpr ⟨hfresh, hnd⟩⟩
        exact (List.mem_cons.mp hm).elim (Ne.symm hnew) h0
      next he0 =>
        refine ⟨fun hm => (mem_insertAfter hm).elim (Ne.symm hnew) h0, ?_⟩
        obtain ⟨l1, r, rfl, hel, -, -⟩ := split_at hnd (he.resolve_left he0)
        rw [insertAfter_append hel, List.append_cons, List.nodup_middle, ← List.append_cons]
        exact List.nodup_cons.mpr ⟨hfresh, hnd⟩
  | remove element =>
    simp only [ListCall.intended]
    split
    next => exact ⟨fun hm => h0 (List.mem_of_mem_tail hm), hnd.tail⟩
    next =>
      exact ⟨fun hm => h0 (removeAfter_sublist.subset hm), hnd.sublist removeAfter_sublist⟩

lemma ListRun.nodup {P : LinkedList → ListCall → Prop} (h : ListRun P l s) : 0 ∉ l ∧ l.Nodup := by
  induction h with
  | init => exact ⟨List.not_mem_nil, List.nodup_nil⟩
  | call _ hc _ _ ih => exact intended_nodup ih.1 ih.2 hc
  | elsewhere _ _ ih => exact ih

/-- The links depend on the elements of the list alone. -/
lemma WellLinked.elsewhere {data next prev : Word → Word} (h : WellLinked l s)
    (hsame : ∀ e ∈ l, data e = s.data e ∧ next e = s.next e ∧ prev e = s.prev e) :
    WellLinked l { s with data := data, next := next, prev := prev } where
  size_eq := h.size_eq
  forward := h.forward.congr fun e he => (hsame e he).2.1
  tail_eq := h.tail_eq
  backward := h.backward.congr fun e he => (hsame e (List.mem_reverse.mp he)).2.2

/-- While all calls meet the condition, the list is as intended in both directions, and the next
such call dereferences no NULL. -/
theorem ListRun.wellLinked (h : ListRun Repairs l s) :
    WellLinked l s ∧ ∀ c : ListCall, c.legal l → Repairs s c → ∃ s', c.run s = some s' := by
  have hlinked : WellLinked l s := by
    induction h with
    | init => exact ⟨rfl, rfl, rfl, rfl⟩
    | call hrun hc hr hcall ih =>
      obtain ⟨h0, hnd⟩ := hrun.nodup
      obtain ⟨s', hcall', h'⟩ := (ListCall.run_iff ih h0 hnd hc).mpr hr
      rw [hcall] at hcall'
      exact Option.some.inj hcall' ▸ h'
    | elsewhere _ hsame ih => exact ih.elsewhere hsame
  obtain ⟨h0, hnd⟩ := h.nodup
  refine ⟨hlinked, fun c hc hr => ?_⟩
  obtain ⟨s', hcall, -⟩ := (ListCall.run_iff hlinked h0 hnd hc).mpr hr
  exact ⟨s', hcall⟩

end

/-- Two elements are inserted at the head and one between them, the tail is removed, and another
one is inserted behind the head. -/
theorem wellLinked_fiveCalls : ∃ s, WellLinked [0x20, 0x40, 0x30] s ∧
    (∀ c : ListCall, c.legal [0x20, 0x40, 0x30] → Repairs s c → ∃ s', c.run s = some s') ∧
    s.data 0x40 = 8 ∧ s.prev 0x30 = 0x40 ∧ s.tail = 0x30 := by
  have h1 : ListRun Repairs [0x10] _ :=
    .call (c := .insert 0x10 0 5) (.init (fun _ => 0) (fun _ => 0) fun _ => 0)
      ⟨.inl rfl, by decide⟩ (.inr ⟨.inl rfl, by decide⟩) rfl
  have h2 : ListRun Repairs [0x20, 0x10] _ :=
    .call (c := .insert 0x20 0 6) h1 ⟨.inl rfl, by decide⟩ (.inr ⟨.inl rfl, by decide⟩) rfl
  have h3 : ListRun Repairs [0x20, 0x30, 0x10] _ :=
    .call (c := .insert 0x30 0x20 7) h2 ⟨.inr (by decide), by decide⟩
      (.inr ⟨.inr (by decide), by decide⟩) rfl
  have h4 : ListRun Repairs [0x20, 0x30] _ :=
    .call (c := .remove 0x30) h3 (.inr (by decide)) (.inr (.inr (by decide))) rfl
  have h5 : ListRun Repairs [0x20, 0x40, 0x30] _ :=
    .call (c := .insert 0x40 0x20 8) h4 ⟨.inr (by decide), by decide⟩
      (.inr ⟨.inr (by decide), by decide⟩) rfl
  obtain ⟨hlinked, hcalls⟩ := h5.wellLinked
  exact ⟨_, hlinked, hcalls, by decide, by decide, by decide⟩

/-- One element, at `0x10`. -/
def single : LinkedList where
  size := 1
  head := 0x10
  tail := 0x10
  data := Function.update (fun _ => 0) 0x10 5
  next := Function.update (fun _ => 0) 0x10 0
  prev := Function.update (fun _ => 0) 0x10 0

lemma single_run {P : LinkedList → ListCall → Prop}
    (hP : P (listInit (fun _ => 0) (fun _ => 0) fun _ => 0) (.insert 0x10 0 5)) :
    ListRun P [0x10] single :=
  .call (c := .insert 0x10 0 5) (.init (fun _ => 0) (fun _ => 0) fun _ => 0)
    ⟨.inl rfl, List.not_mem_nil⟩ hP (listInsertNext_head (by decide) _)

/-- An element is inserted behind the only one. -/
theorem not_wellLinked_append : ¬∀ l s, ListRun (fun _ _ => True) l s →
    WellLinked l s ∧ ∀ c : ListCall, c.legal l → ∃ s', c.run s = some s' := by
  intro hall
  obtain ⟨-, hcall⟩ := hall _ _ (single_run trivial)
  obtain ⟨s', hrun⟩ := hcall (.insert 0x20 0x10 6) ⟨.inr (by simp), by simp⟩
  rw [listInsertNext_tail (by decide) (by decide) rfl] at hrun
  cases hrun

end Bikeshed.Kernel
