import Bikeshed.Lib.Word
import Mathlib.Logic.Function.Basic

/-!
# `queue.c`

A queue points to its first and its last node, and each node to the next one. The nodes are
found at their addresses, which is all that is needed of memory: two nodes never overlap.
-/

namespace Bikeshed.DataStructures

open Lib

structure QueueNode where
  next : Word
  data : Word

structure Queue where
  size : Word
  head : Word
  tail : Word

/-- A queue, and what is found at each address taken for a node. -/
structure QueueMem where
  nodes : Word → QueueNode
  queue : Queue

/-- `node->next = next` -/
def QueueMem.setNext (node next : Word) (s : QueueMem) : QueueMem :=
  { s with nodes := Function.update s.nodes node { s.nodes node with next := next } }

def queueInit (s : QueueMem) : QueueMem := { s with queue := ⟨0, 0, 0⟩ }

def queueEnqueue (node : Word) (s : QueueMem) : QueueMem :=
  let s := s.setNext node 0
  if s.queue.size = 0 then { s with queue := ⟨s.queue.size + 1, node, node⟩ }
  else
    let s := s.setNext s.queue.tail node
    { s with queue := ⟨s.queue.size + 1, s.queue.head, node⟩ }

/-- A comparison function. It may change data of its own, `sleep_insert` does. -/
abbrev Cmp (δ : Type) := Word → Word → δ → ℤ × δ

/-- `while (other != NULL && cmp(node_data, other->data) > 0) { other = other->next; }`, for `n`
rounds at most; `none` if these are not enough. -/
def skipNodes {δ : Type} (cmp : Cmp δ) (nodes : Word → QueueNode) (nodeData : Word) :
    ℕ → Word → δ → Option (Word × δ)
  | 0, _, _ => none
  | n + 1, other, d =>
    if other = 0 then some (0, d)
    else
      let (c, d) := cmp nodeData (nodes other).data d
      if 0 < c then skipNodes cmp nodes nodeData n (nodes other).next d else some (other, d)

/-- The part of `queue_enqueue_prio` behind its loop. -/
def linkBehind (node other : Word) (s : QueueMem) : QueueMem :=
  let size := s.queue.size + 1
  if other = 0 then
    let s := s.setNext node 0
    let s := s.setNext s.queue.tail node
    { s with queue := ⟨size, s.queue.head, node⟩ }
  else if other = s.queue.head then
    let s := s.setNext node s.queue.head
    { s with queue := ⟨size, node, s.queue.tail⟩ }
  else
    let s := s.setNext node (s.nodes other).next
    let s := s.setNext other node
    { s with queue := ⟨size, s.queue.head, s.queue.tail⟩ }

def queueEnqueuePrio {δ : Type} (cmp : Cmp δ) (n : ℕ) (node : Word) (s : QueueMem) (d : δ) :
    Option (QueueMem × δ) :=
  if s.queue.size = 0 then some (queueEnqueue node s, d)
  else do
    let (other, d) ← skipNodes cmp s.nodes (s.nodes node).data n s.queue.head d
    pure (linkBehind node other s, d)

def queueDequeue (s : QueueMem) : Word × QueueMem :=
  if s.queue.size = 0 then (0, s)
  else
    let returnVal := s.queue.head
    (returnVal,
      { s with queue := ⟨s.queue.size - 1, (s.nodes returnVal).next, s.queue.tail⟩ })

end Bikeshed.DataStructures
