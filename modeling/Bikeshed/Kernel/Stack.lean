import Bikeshed.Lib.Memory

/-!
# The stack of free blocks

A node of the stack is a free block, whose first word is the pointer to the next node. The
`Stack` itself is a variable of the kernel or lies in memory, next to other data; `StackVar`
is where to find and how to change it in a state `σ`.
-/

namespace Bikeshed

open Lib

variable {σ : Type}

/-- How to get at the two fields of a `Stack` and at memory in the state `σ` -/
structure StackVar (σ : Type) where
  mem : σ → Mem
  setMem : Mem → σ → σ
  size : σ → Word
  setSize : Word → σ → σ
  top : σ → Word
  setTop : Word → σ → σ

/-- `node->next = next` -/
def StackVar.setNext (stack : StackVar σ) (node next : Word) (s : σ) : σ :=
  stack.setMem (store64 (stack.mem s) node next) s

def stackInit (stack : StackVar σ) (s : σ) : σ := stack.setTop 0 (stack.setSize 0 s)

def stackEmpty (stack : StackVar σ) (s : σ) : Bool := stack.size s = 0

def stackSize (stack : StackVar σ) (s : σ) : Word := stack.size s

/-- The old top is stored in the node itself. -/
def stackPush (stack : StackVar σ) (node : Word) (s : σ) : σ :=
  if stackEmpty stack s then stack.setTop node (stack.setSize 1 (stack.setNext node 0 s))
  else
    let s := stack.setNext node (stack.top s) s
    stack.setTop node (stack.setSize (stack.size s + 1) s)

/-- The new top is read from the node. -/
def stackPop (stack : StackVar σ) (s : σ) : Word × σ :=
  if stackEmpty stack s then (0, s)
  else
    let returnVal := stack.top s
    let s := stack.setTop (load64 (stack.mem s) returnVal) s
    (returnVal, stack.setSize (stack.size s - 1) s)

end Bikeshed
