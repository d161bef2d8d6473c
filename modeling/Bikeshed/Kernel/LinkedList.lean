import Bikeshed.Lib.Linked

/-!
# The doubly linked lists of `linkedlist.c`

The fields of all elements are part of the state, a function of their addresses. What `ram_alloc`
returns is an argument, and the element that `destroy` is called with is part of the result.
A function that dereferences NULL returns nothing.
-/

namespace Bikeshed.Kernel

open Lib

/-- `linked_list_t`, and the fields of the elements in memory. -/
structure LinkedList where
  size : BitVec 32
  head : Word
  tail : Word
  data : Word → Word
  next : Word → Word
  prev : Word → Word

namespace LinkedList

def setData (s : LinkedList) (e x : Word) : LinkedList :=
  { s with data := Function.update s.data e x }

def setNext (s : LinkedList) (e x : Word) : LinkedList :=
  { s with next := Function.update s.next e x }

def setPrev (s : LinkedList) (e x : Word) : LinkedList :=
  { s with prev := Function.update s.prev e x }

end LinkedList

/-- `list_init`: whatever the memory of the elements holds -/
def listInit (data next prev : Word → Word) : LinkedList where
  size := 0
  head := 0
  tail := 0
  data := data
  next := next
  prev := prev

/-- `list_insert_next`: the list after it and the value it returns -/
def listInsertNext (newElement element data : Word) (s : LinkedList) :
    Option (LinkedList × BitVec 32) :=
  if newElement = 0 then some (s, -1)
  else
    let s := s.setData newElement data
    if element = 0 then
      let s := if s.size = 0 then { s with tail := newElement } else s
      let s := if s.head ≠ 0 then s.setPrev s.head newElement else s
      let s := s.setNext newElement s.head
      let s := { s with head := newElement }
      let s := s.setPrev newElement 0
      some ({ s with size := s.size + 1 }, 0)
    else
      let s := if s.next element = 0 then { s with tail := newElement } else s
      let s := s.setPrev newElement element
      -- `element->next->prev`
      if s.next element = 0 then none
      else
        let s := s.setPrev (s.next element) newElement
        let s := s.setNext newElement (s.next element)
        let s := s.setNext element newElement
        some ({ s with size := s.size + 1 }, 0)

/-- What `list_remove_next` returns, what `*data` is set to if `data` is not NULL, and the element
that is destroyed. -/
structure Removal where
  ret : BitVec 32
  data : Option Word
  destroyed : Option Word

def listRemoveNext (element : Word) (s : LinkedList) : Option (LinkedList × Removal) :=
  if s.size = 0 then some (s, ⟨-1, none, none⟩)
  else if element = 0 then
    if s.head = 0 then none
    else
      let oldElement := s.head
      let s := { s with head := s.next s.head }
      let s := if s.size = 1 then { s with tail := 0 } else s
      some ({ s with size := s.size - 1 }, ⟨0, s.data oldElement, oldElement⟩)
  else if s.next element = 0 then some (s, ⟨-1, none, none⟩)
  else
    let oldElement := s.next element
    let s := s.setNext element (s.next oldElement)
    let s := if s.next element = 0 then { s with tail := element } else s
    some ({ s with size := s.size - 1 }, ⟨0, s.data oldElement, oldElement⟩)

inductive ListCall where
  /-- `list_insert_next`, with what the allocator returns -/
  | insert (newElement element data : Word)
  /-- `list_remove_next` -/
  | remove (element : Word)

/-- The list after a call. -/
def ListCall.run : ListCall → LinkedList → Option LinkedList
  | .insert newElement element data, s => (listInsertNext newElement element data s).map Prod.fst
  | .remove element, s => (listRemoveNext element s).map Prod.fst

/-! ## The intended sequence -/

/-- The element `e` of the list is followed by `new`. -/
def insertAfter (e new : Word) : List Word → List Word
  | [] => []
  | a :: l => if a = e then a :: new :: l else a :: insertAfter e new l

/-- The element after `e` is taken out. -/
def removeAfter (e : Word) : List Word → List Word
  | [] => []
  | a :: l => if a = e then a :: l.tail else a :: removeAfter e l

/-- The sequence after a call. An allocation may fail. -/
def ListCall.intended : ListCall → List Word → List Word
  | .insert newElement element _, l =>
    if newElement = 0 then l
    else if element = 0 then newElement :: l else insertAfter element newElement l
  | .remove element, l => if element = 0 then l.tail else removeAfter element l

/-- The element argument is NULL or in the list, and the allocator returns a fresh element. -/
def ListCall.legal (l : List Word) : ListCall → Prop
  | .insert newElement element _ => (element = 0 ∨ element ∈ l) ∧ newElement ∉ l
  | .remove element => element = 0 ∨ element ∈ l

/-- The links in both directions, and the fields of the list itself. -/
structure WellLinked (l : List Word) (s : LinkedList) : Prop where
  size_eq : s.size.toInt = l.length
  forward : Linked id s.next s.head l
  tail_eq : s.tail = l.getLast?.getD 0
  backward : Linked id s.prev s.tail l.reverse

/-- The states after `list_init` and any calls that meet `P`, with the sequences intended. Between
the calls memory changes, but not the elements of the list. -/
inductive ListRun (P : LinkedList → ListCall → Prop) : List Word → LinkedList → Prop
  | init (data next prev : Word → Word) : ListRun P [] (listInit data next prev)
  | call {l : List Word} {s s' : LinkedList} {c : ListCall} :
    ListRun P l s → c.legal l → P s c → c.run s = some s' → ListRun P (c.intended l) s'
  | elsewhere {l : List Word} {s : LinkedList} {data next prev : Word → Word} :
    ListRun P l s → (∀ e ∈ l, data e = s.data e ∧ next e = s.next e ∧ prev e = s.prev e) →
    ListRun P l { s with data := data, next := next, prev := prev }

end Bikeshed.Kernel
