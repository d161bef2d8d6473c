import Bikeshed.VirtMemory.Physical

/-!
# What a run tells the allocator

The machine's log records the calls of the allocator and the tables read. `freed` and
`allocated` are the blocks that it says were given back and handed out. `Releases` is what
a teardown is asked for: the blocks it gives back, and that no table is read after a block
it lies in has been given back, since the free writes into it.
-/

namespace Bikeshed

open Lib

/-- The block given back, by the base and the free function that the call names. -/
def Event.freed : Event → Option Block
  | .free4KIB p => some (page4KIB p)
  | .free2MIB p => some (page2MIB p)
  | _ => none

/-- The block that an event hands out -/
def Event.allocated : Event → Option Block
  | .alloc4KIB p => some (page4KIB p)
  | .alloc2MIB p => some (page2MIB p)
  | _ => none

/-- The blocks given back, in order -/
def freed (L : List Event) : List Block := L.filterMap Event.freed

/-- The blocks handed out, in order -/
def allocated (L : List Event) : List Block := L.filterMap Event.allocated

/-- No table is read once a block that overlaps it has been given back. -/
def ReadsLive (L : List Event) : Prop :=
  L.Pairwise fun e f => ∀ b ∈ e.freed, ∀ t, f = .read t → b.Disjoint (page4KIB t)

lemma freed_append (L L' : List Event) : freed (L ++ L') = freed L ++ freed L' :=
  List.filterMap_append

lemma allocated_append (L L' : List Event) :
    allocated (L ++ L') = allocated L ++ allocated L' := List.filterMap_append

/-- Out of the outstanding blocks `own` exactly `bs` are given back, and only tables that are
still outstanding are read. -/
structure Releases (own bs : List Block) (L : List Event) : Prop where
  freed : (freed L).Perm bs
  allocated : allocated L = []
  reads : ∀ t, .read t ∈ L → page4KIB t ∈ own
  live : ReadsLive L

namespace Releases

variable {own own' bs bs' : List Block} {L L' : List Event}

/-- Nothing happens. -/
lemma nil : Releases own [] [] :=
  ⟨.refl _, rfl, fun _ h => absurd h List.not_mem_nil, List.Pairwise.nil⟩

/-- A table may be read as long as its page is handed out. -/
lemma read {t : Word} (ht : page4KIB t ∈ own) : Releases own [] [.read t] := by
  refine ⟨.refl _, rfl, fun u hu => ?_, List.pairwise_singleton _ _⟩
  cases List.mem_singleton.mp hu
  exact ht

/-- A page is given back. -/
lemma free4KIB (p : Word) : Releases own [page4KIB p] [.free4KIB p] :=
  ⟨.refl _, rfl, fun _ h => absurd (List.mem_singleton.mp h) (by simp), List.pairwise_singleton _ _⟩

lemma free2MIB (p : Word) : Releases own [page2MIB p] [.free2MIB p] :=
  ⟨.refl _, rfl, fun _ h => absurd (List.mem_singleton.mp h) (by simp), List.pairwise_singleton _ _⟩

/-- More blocks may be handed out, and the order of frees does not matter. -/
lemma mono (h : Releases own bs L) (hown : ∀ b ∈ own, b ∈ own') (hbs : bs.Perm bs') :
    Releases own' bs' L :=
  ⟨h.freed.trans hbs, h.allocated, fun t ht => hown _ (h.reads t ht), h.live⟩

/-- One teardown after another: what the first gives back is apart from all that is left. -/
lemma trans (h : Releases own bs L) (hown : own.Perm (bs ++ own'))
    (hdis : own.Pairwise Block.Disjoint) (h' : Releases own' bs' L') :
    Releases own (bs ++ bs') (L ++ L') := by
  have hpair := (hown.pairwise_iff fun hd => Block.Disjoint.symm hd).mp hdis
  refine ⟨?_, ?_, fun t ht => ?_, ?_⟩
  · rw [freed_append]
    exact h.freed.append h'.freed
  · rw [allocated_append, h.allocated, h'.allocated, List.append_nil]
  · rcases List.mem_append.mp ht with ht | ht
    · exact h.reads t ht
    · exact hown.mem_iff.mpr (List.mem_append_right _ (h'.reads t ht))
  · refine List.pairwise_append.mpr ⟨h.live, h'.live, ?_⟩
    rintro e he f hf b hb t rfl
    have hbs : b ∈ bs := h.freed.mem_iff.mp (List.mem_filterMap.mpr ⟨e, he, hb⟩)
    exact (List.pairwise_append.mp hpair).2.2 b hbs _ (h'.reads t hf)

end Releases

/-- The blocks that have become outstanding are those that the log says were handed out. -/
def Allocates {α : Type} {A : PhysAllocator α} (H : PhysHeap A) (s s' : Machine α) : Prop :=
  ∃ L, s'.log = s.log ++ L ∧ freed L = [] ∧
    (H.own s'.heap).Perm (allocated L ++ H.own s.heap)

namespace Allocates

variable {α : Type} {A : PhysAllocator α} {H : PhysHeap A} {s s1 s' : Machine α}

lemma refl (H : PhysHeap A) (s : Machine α) : Allocates H s s :=
  ⟨[], (List.append_nil _).symm, rfl, .refl _⟩

/-- One block is handed out. -/
lemma of_alloc {e : Event} {b : Block} (hlog : s'.log = s.log ++ [e]) (hf : e.freed = none)
    (ha : e.allocated = some b) (hown : (H.own s'.heap).Perm (b :: H.own s.heap)) :
    Allocates H s s' := by
  refine ⟨[e], hlog, ?_, ?_⟩
  · rw [freed, List.filterMap_cons, hf]
    rfl
  · rw [allocated, List.filterMap_cons, ha]
    exact hown

/-- Blocks of both steps -/
lemma trans (h : Allocates H s s1) (h' : Allocates H s1 s') : Allocates H s s' := by
  obtain ⟨L, hL, hf, hown⟩ := h
  obtain ⟨L', hL', hf', hown'⟩ := h'
  refine ⟨L ++ L', ?_, ?_, ?_⟩
  · rw [hL', hL, List.append_assoc]
  · rw [freed_append, hf, hf', List.append_nil]
  · rw [allocated_append, List.append_assoc]
    exact hown'.trans ((hown.append_left _).trans (List.perm_append_comm_assoc _ _ _))

/-- Memory is not part of the account. -/
lemma write (h : Allocates H s s1) (hheap : s'.heap = s1.heap) (hlog : s'.log = s1.log) :
    Allocates H s s' := by
  rw [Allocates, hheap, hlog]
  exact h

/-- Reading a table on the way. -/
lemma read {t : Word} (h : Allocates H s s1) (hheap : s'.heap = s1.heap)
    (hlog : s'.log = s1.log ++ [.read t]) : Allocates H s s' := by
  refine h.trans ⟨[.read t], hlog, rfl, ?_⟩
  rw [hheap]
  exact .refl _

end Allocates

end Bikeshed
