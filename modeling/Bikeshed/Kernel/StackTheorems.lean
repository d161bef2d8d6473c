import Bikeshed.Kernel.Stack
import Bikeshed.Lib.Linked

/-!
# What is on a stack

`StackAt` says which free blocks a stack holds, the top one first. A push needs a block that
shares no byte of its first word with theirs.
-/

namespace Bikeshed

open Lib

variable {α σ : Type} {addr : α → Word} {m m' : Mem} {size top node : Word} {a : α}
  {nodes : List α} {stack : StackVar σ} {s : σ}

/-- The nodes of a stack are linked through their first word, the top first. -/
structure StackAt (addr : α → Word) (m : Mem) (size top : Word) (nodes : List α) : Prop where
  size : size.toNat = nodes.length
  linked : Linked addr (fun a => load64 m (addr a)) top nodes

namespace StackAt

/-- A stack after `stack_init` -/
lemma nil (addr : α → Word) (m : Mem) : StackAt addr m 0 0 [] := ⟨rfl, rfl⟩

lemma size_eq_zero_iff (h : StackAt addr m size top nodes) : size = 0 ↔ nodes = [] := by
  rw [← List.length_eq_zero_iff, ← h.size, ← BitVec.toNat_inj]
  rfl

/-- The top of an empty stack is NULL. -/
lemma top_eq_zero (h : StackAt addr m size top nodes) (h0 : size = 0) : top = 0 := by
  have hl := h.linked
  rwa [h.size_eq_zero_iff.mp h0] at hl

/-- Only the first words of the nodes matter. -/
lemma congr (h : StackAt addr m size top nodes)
    (hm : ∀ a ∈ nodes, load64 m' (addr a) = load64 m (addr a)) : StackAt addr m' size top nodes :=
  ⟨h.size, h.linked.congr hm⟩

/-- Nothing but the node is written. -/
lemma push (h : StackAt addr m size top nodes) (hlen : nodes.length + 1 < 2 ^ 64)
    (hapart : ∀ b ∈ nodes, Apart (addr b) (addr a)) :
    StackAt addr (store64 m (addr a) top) (size + 1) (addr a) (a :: nodes) := by
  constructor
  · have hs := h.size
    rw [BitVec.toNat_add, hs, List.length_cons]
    exact Nat.mod_eq_of_lt hlen
  · refine ⟨rfl, ?_⟩
    show Linked addr _ (load64 (store64 m (addr a) top) (addr a)) nodes
    rw [load64_store64_self]
    exact h.linked.congr fun b hb => load64_store64_apart m top (hapart b hb)

/-- Nothing is written. -/
lemma pop (h : StackAt addr m size top (a :: nodes)) :
    top = addr a ∧ StackAt addr m (size - 1) (load64 m top) nodes := by
  obtain ⟨htop, hrest⟩ := h.linked
  refine ⟨htop, ?_, ?_⟩
  · have hs := h.size
    rw [List.length_cons] at hs
    rw [BitVec.toNat_sub_of_le (by rw [BitVec.le_def, hs]; simp), hs]
    rfl
  · rwa [htop]

end StackAt

/-! ## The functions -/

/-- On an empty stack the old top is NULL, so that the two cases of `stack_push` agree. -/
lemma stackPush_eq (htop : stack.size s = 0 → stack.top s = 0)
    (hsame : stack.size (stack.setNext node (stack.top s) s) = stack.size s) :
    stackPush stack node s
      = stack.setTop node (stack.setSize (stack.size s + 1)
        (stack.setNext node (stack.top s) s)) := by
  unfold stackPush
  split
  · rename_i he
    have h0 : stack.size s = 0 := of_decide_eq_true he
    rw [htop h0, h0]
    rfl
  · dsimp only
    rw [hsame]

lemma stackPop_eq (h : stack.size s ≠ 0) :
    stackPop stack s = (stack.top s, stack.setSize
      (stack.size (stack.setTop (load64 (stack.mem s) (stack.top s)) s) - 1)
      (stack.setTop (load64 (stack.mem s) (stack.top s)) s)) := by
  rw [stackPop, if_neg]
  exact fun he => h (of_decide_eq_true he)

lemma stackPop_empty (h : stack.size s = 0) : stackPop stack s = (0, s) := by
  rw [stackPop, if_pos]
  exact decide_eq_true h

end Bikeshed
