import Bikeshed.Lib.Word
import Mathlib.Data.List.Chain

/-!
# Linked lists in memory

A node `a` is found at `addr a` and holds the pointer `next a`. `Segment addr next p l q`: from
the pointer `p` the nodes `l` are met, one after the other, and after them the pointer `q`. A
list that ends in NULL is a segment that ends in 0.
-/

namespace Bikeshed.Lib

variable {α : Type} {addr next next' : α → Word} {p q : Word} {a b : α} {l r : List α}

def Segment (addr next : α → Word) : Word → List α → Word → Prop
  | p, [], q => p = q
  | p, a :: l, q => p = addr a ∧ Segment addr next (next a) l q

abbrev Linked (addr next : α → Word) (p : Word) (l : List α) : Prop := Segment addr next p l 0

@[simp] lemma segment_nil : Segment addr next p [] q ↔ p = q := Iff.rfl

@[simp] lemma segment_cons :
    Segment addr next p (a :: l) q ↔ p = addr a ∧ Segment addr next (next a) l q := Iff.rfl

@[simp] lemma linked_nil : Linked addr next p [] ↔ p = 0 := Iff.rfl

@[simp] lemma linked_cons :
    Linked addr next p (a :: l) ↔ p = addr a ∧ Linked addr next (next a) l := Iff.rfl

lemma segment_append :
    Segment addr next p (l ++ r) q ↔ ∃ m, Segment addr next p l m ∧ Segment addr next m r q := by
  induction l generalizing p with
  | nil => simp
  | cons a l ih =>
    rw [List.cons_append, segment_cons, ih]
    constructor
    · rintro ⟨h, m, h1, h2⟩
      exact ⟨m, ⟨h, h1⟩, h2⟩
    · rintro ⟨m, ⟨h, h1⟩, h2⟩
      exact ⟨h, m, h1, h2⟩

/-- The pointer in the last node is the end of the segment. -/
lemma segment_concat :
    Segment addr next p (l ++ [a]) q ↔ Segment addr next p l (addr a) ∧ next a = q := by
  rw [segment_append]
  constructor
  · rintro ⟨m, h1, h2, h3⟩
    exact ⟨h2 ▸ h1, h3⟩
  · rintro ⟨h1, h2⟩
    exact ⟨addr a, h1, rfl, h2⟩

/-- Only the pointers in the nodes themselves matter. -/
lemma Segment.congr (h : Segment addr next p l q) (hnext : ∀ a ∈ l, next' a = next a) :
    Segment addr next' p l q := by
  induction l generalizing p with
  | nil => exact h
  | cons a l ih =>
    refine ⟨h.1, ?_⟩
    rw [hnext a List.mem_cons_self]
    exact ih h.2 fun b hb => hnext b (List.mem_cons_of_mem _ hb)

lemma Segment.update [DecidableEq α] (h : Segment addr next p l q) (ha : a ∉ l) (x : Word) :
    Segment addr (Function.update next a x) p l q :=
  h.congr fun _ hb => Function.update_of_ne (ne_of_mem_of_not_mem hb ha) _ _

/-- The node `b` gets a new one behind it. -/
lemma Segment.insert (h : Segment addr next p (l ++ b :: r) q) (hb : next' b = addr a)
    (ha : next' a = next b) (hother : ∀ c ∈ l ++ r, next' c = next c) :
    Segment addr next' p (l ++ b :: a :: r) q := by
  obtain ⟨m, hleft, hm, hright⟩ := segment_append.mp h
  refine segment_append.mpr ⟨m, ?_, hm, hb, ?_⟩
  · exact hleft.congr fun c hc => hother c (List.mem_append_left _ hc)
  · rw [ha]
    exact hright.congr fun c hc => hother c (List.mem_append_right _ hc)

/-- The node behind `b` is taken out. -/
lemma Segment.remove (h : Segment addr next p (l ++ b :: a :: r) q) (hb : next' b = next a)
    (hother : ∀ c ∈ l ++ r, next' c = next c) : Segment addr next' p (l ++ b :: r) q := by
  obtain ⟨m, hleft, hm, -, hright⟩ := segment_append.mp h
  refine segment_append.mpr ⟨m, ?_, hm, ?_⟩
  · exact hleft.congr fun c hc => hother c (List.mem_append_left _ hc)
  · rw [hb]
    exact hright.congr fun c hc => hother c (List.mem_append_right _ hc)

/-- Where the pointer in the node `b` leads. -/
lemma Segment.next_eq (h : Segment addr next p (l ++ b :: a :: r) q) : next b = addr a := by
  obtain ⟨-, -, -, hb, -⟩ := segment_append.mp h
  exact hb

lemma Segment.null_iff (h : Linked addr next p l) (haddr : ∀ a ∈ l, addr a ≠ 0) :
    p = 0 ↔ l = [] := by
  cases l with
  | nil => exact iff_of_true h rfl
  | cons a l =>
    refine iff_of_false ?_ (List.cons_ne_nil a l)
    rw [h.1]
    exact haddr a List.mem_cons_self

/-- Where a list is, and so are its nodes. -/
lemma Segment.unique (haddr : Function.Injective addr) (h : Linked addr next p l)
    (h' : Linked addr next p r) (hl : ∀ a ∈ l, addr a ≠ 0) (hr : ∀ a ∈ r, addr a ≠ 0) : l = r := by
  induction l generalizing p r with
  | nil =>
    have hp : p = 0 := h
    exact ((h'.null_iff hr).mp hp).symm
  | cons a l ih =>
    have hp : p ≠ 0 := (h.null_iff hl).not.mpr (List.cons_ne_nil a l)
    cases r with
    | nil => exact absurd h' hp
    | cons b r =>
      obtain rfl : a = b := haddr (h.1.symm.trans h'.1)
      rw [ih h.2 h'.2 (fun c hc => hl c (List.mem_cons_of_mem _ hc))
        fun c hc => hr c (List.mem_cons_of_mem _ hc)]

/-- Distinct words are fewer than `2 ^ 64` if one is missing. -/
lemma length_lt_of_nodup {c : Word} {cs : List Word} (hnd : cs.Nodup) (hc : c ∉ cs) :
    cs.length < 2 ^ 64 := by
  have hmap : ((c :: cs).map BitVec.toNat).Nodup :=
    (List.nodup_cons.mpr ⟨hc, hnd⟩).map fun _ _ => word_ext
  have hsub : (c :: cs).map BitVec.toNat ⊆ List.range (2 ^ 64) := fun n hn => by
    obtain ⟨a, -, rfl⟩ := List.mem_map.mp hn
    exact List.mem_range.mpr a.isLt
  have hle := (hmap.subperm hsub).length_le
  rw [List.length_map, List.length_range, List.length_cons] at hle
  omega

/-! ## Links in both directions -/

variable {prev prev' : α → Word}

/-- The second link of each node but the first points to the node before it. What the first
node has there is left open. -/
structure Doubly (addr next prev : α → Word) (p : Word) (l : List α) : Prop where
  linked : Linked addr next p l
  chain : l.IsChain fun b c => prev c = addr b

namespace Doubly

lemma head_eq (h : Doubly addr next prev p (a :: l)) : p = addr a := h.linked.1

/-- Where a node in the list points to. -/
lemma next_linked (h : Doubly addr next prev p (l ++ a :: r)) : Linked addr next (next a) r := by
  obtain ⟨_, -, -, hr⟩ := segment_append.mp h.linked
  exact hr

lemma prev_eq (h : Doubly addr next prev p (l ++ b :: a :: r)) : prev a = addr b :=
  (List.isChain_append.mp h.chain).2.1.rel

/-- The node `a` is taken out: the node before it and the node after it point past it. -/
lemma unlink (h : Doubly addr next prev p (l ++ a :: r)) (hnd : (l ++ r).Nodup)
    (hlast : ∀ b ∈ l.getLast?, next' b = next a)
    (hnext : ∀ c ∈ l ++ r, c ∉ l.getLast? → next' c = next c)
    (hhead : ∀ c ∈ r.head?, ∀ b ∈ l.getLast?, prev' c = addr b)
    (hprev : ∀ c ∈ l ++ r, c ∉ r.head? → prev' c = prev c) :
    Doubly addr next' prev' (if l = [] then next a else p) (l ++ r) := by
  obtain ⟨hl, hr, hdis⟩ := List.nodup_append.mp hnd
  obtain ⟨hcl, hcr, -⟩ := List.isChain_append.mp h.chain
  constructor
  · -- the part behind `a` is as it was
    have hright : Linked addr next' (next a) r := h.next_linked.congr fun c hc =>
      hnext c (List.mem_append_right _ hc) fun hlc =>
        hdis c (List.mem_of_mem_getLast? hlc) c hc rfl
    rcases List.eq_nil_or_concat' l with rfl | ⟨l', b, rfl⟩
    · rw [if_pos rfl]
      exact hright
    · have hb : next' b = next a := hlast b (by simp)
      rw [if_neg (by simp)]
      refine segment_append.mpr ⟨next a, ?_, hright⟩
      obtain ⟨m, hleft, -⟩ := segment_append.mp h.linked
      rw [segment_concat] at hleft ⊢
      refine ⟨hleft.1.congr fun c hc => ?_, hb⟩
      refine hnext c (by simp [hc]) fun hlc => ?_
      rw [List.getLast?_concat, Option.mem_some_iff] at hlc
      exact (List.nodup_append.mp hl).2.2 c hc b (by simp) hlc.symm
  · rw [List.isChain_append]
    refine ⟨?_, ?_, fun b hb c hc => hhead c hc b hb⟩
    · refine hcl.imp_of_mem_imp fun b c _ hc hbc => ?_
      refine (hprev c (List.mem_append_left _ hc) fun hrc => ?_).trans hbc
      exact hdis c hc c (List.mem_of_mem_head? hrc) rfl
    · cases r with
      | nil => exact List.isChain_nil
      | cons c r =>
        have htail : (c :: r).IsChain fun b c => prev c = addr b := hcr.tail
        rw [List.isChain_cons] at htail ⊢
        refine ⟨fun d hd => ?_, htail.2.imp_of_mem_imp fun b d hb hd hbd => ?_⟩
        · have hdr : d ∈ r := List.mem_of_mem_head? hd
          refine (hprev d (by simp [hdr]) fun hdc => ?_).trans (htail.1 d hd)
          rw [List.head?_cons, Option.mem_some_iff] at hdc
          exact (List.nodup_cons.mp hr).1 (hdc ▸ hdr)
        · refine (hprev d (by simp [hd]) fun hdc => ?_).trans hbd
          rw [List.head?_cons, Option.mem_some_iff] at hdc
          exact (List.nodup_cons.mp hr).1 (hdc ▸ hd)

/-- The node `a` becomes the first. -/
lemma push (h : Doubly addr next prev p (b :: l)) (ha : next' a = p) (hb : prev' b = addr a)
    (hnext : ∀ c ∈ b :: l, next' c = next c) (hprev : ∀ c ∈ l, prev' c = prev c) :
    Doubly addr next' prev' (addr a) (a :: b :: l) := by
  constructor
  · refine ⟨rfl, ?_⟩
    rw [ha]
    exact h.linked.congr hnext
  · have hc := h.chain
    rw [List.isChain_cons] at hc
    rw [List.isChain_cons, List.isChain_cons]
    refine ⟨fun c hc => ?_, fun c hcl => ?_, hc.2.imp_of_mem_imp fun d c _ hcl hdc => ?_⟩
    · rw [List.head?_cons, Option.mem_some_iff] at hc
      rw [← hc, hb]
    · exact (hprev c (List.mem_of_mem_head? hcl)).trans (hc.1 c hcl)
    · exact (hprev c hcl).trans hdc

end Doubly

end Bikeshed.Lib
