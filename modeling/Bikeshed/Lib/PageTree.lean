import Bikeshed.Lib.Block
import Mathlib.Data.List.Perm.Basic

/-!
# x86-64 page tables as trees

Four levels of 512-entry tables in memory: level 3 is the PML4, 2 the PDPTs, 1 the page
directories, 0 the page tables. `decode` reads one entry as the processor does, `walk`
is the processor's translation of an address, `tree` lists every page met below a table,
table pages and mapped frames alike, in the order of the entries.

A tree is looked at through `top`, which says which of the 512 slots of the PML4 count
(the lower half, the upper half, or all of them).

The one structural result is about writing a single entry: `Reaches` names the table
found on the way to an address, and when one entry of that table changes, the pages of
the tree change by exactly that entry's pages (`reaches_exchange`), and the walk changes
for exactly the addresses that go through that entry (`walk_update`). Everything rests on no table
page occurring twice (`(tables _).Nodup`).
-/

namespace Bikeshed.Lib

/-! ## Entries -/

/-- What one present or absent entry means to the processor. -/
inductive Slot where
  | absent
  | leaf (frame : Word) (size : ℕ)
  | table (base : Word)
deriving DecidableEq

/-- Bit 0 of an entry: it is in use. -/
def presentBit : Word := 0x1
/-- Bit 7 of an entry: it is a large page. -/
def sizeBit : Word := 0x80

/-- The processor's reading of an entry of a level `l` table. -/
def decode (l : ℕ) (e : Word) : Slot :=
  if e &&& presentBit = 0 then .absent
  else match l with
    | 0 => .leaf (e &&& mask 12 52) (2 ^ 12)
    | 1 => if e &&& sizeBit = 0 then .table (e &&& mask 12 52)
           else .leaf (e &&& mask 21 52) (2 ^ 21)
    | 2 => if e &&& sizeBit = 0 then .table (e &&& mask 12 52)
           else .leaf (e &&& mask 30 52) (2 ^ 30)
    | _ => .table (e &&& mask 12 52)

/-- Entry `i` of the table whose physical base is `t`. -/
def entry (P : Mem) (t : Word) (i : ℕ) : Word := load64 P (t + BitVec.ofNat 64 (8 * i))

/-- The index into a level `l` table that the address `v` selects. -/
def index (l : ℕ) (v : Word) : ℕ := v.toNat / 2 ^ (12 + 9 * l) % 512

lemma index_lt (l : ℕ) (v : Word) : index l v < 512 := Nat.mod_lt _ (by norm_num)

/-! ## The walk -/

/-- The walk from an entry on -/
def slotWalk (P : Mem) : ℕ → Word → Word → Option (Word × ℕ)
  | 0, e, _ =>
    match decode 0 e with
    | .leaf a n => some (a, n)
    | _ => none
  | l + 1, e, v =>
    match decode (l + 1) e with
    | .absent => none
    | .leaf a n => some (a, n)
    | .table u => slotWalk P l (entry P u (index l v)) v

/-- Frame and size of the page that the level `l` table `t` maps `v` to. -/
def walk (P : Mem) (l : ℕ) (t v : Word) : Option (Word × ℕ) :=
  slotWalk P l (entry P t (index l v)) v

/-- The four-level translation of `v` under the PML4 at `cr3`. -/
def translation (P : Mem) (cr3 v : Word) : Option Word :=
  (walk P 3 cr3 v).map fun p => p.1 + BitVec.ofNat 64 (v.toNat % p.2)

/-! ## The pages of a tree -/

/-- A page that belongs to a tree: a table, or a frame that is mapped -/
structure Page where
  base : Word
  size : ℕ
  isTable : Bool
deriving DecidableEq

def Page.block (p : Page) : Block := ⟨p.base, p.size⟩

def tablePage (t : Word) : Page := ⟨t, 4096, true⟩

def framePage (a : Word) (n : ℕ) : Page := ⟨a, n, false⟩

/-- The slots of a level `l` table that count: `top` chooses those of the PML4. -/
def slots (top : ℕ → Bool) (l : ℕ) : List ℕ :=
  (List.range 512).filter fun i => l != 3 || top i

/-- The pages below an entry -/
def slotTree (P : Mem) (top : ℕ → Bool) : ℕ → Word → List Page
  | 0, e =>
    match decode 0 e with
    | .leaf a n => [framePage a n]
    | _ => []
  | l + 1, e =>
    match decode (l + 1) e with
    | .absent => []
    | .leaf a n => [framePage a n]
    | .table u =>
      tablePage u :: (slots top l).flatMap fun i => slotTree P top l (entry P u i)

/-- The level `l` table `t` and all pages below it. -/
def tree (P : Mem) (top : ℕ → Bool) (l : ℕ) (t : Word) : List Page :=
  tablePage t :: (slots top l).flatMap fun i => slotTree P top l (entry P t i)

/-- The bases of the table pages in a list of pages. -/
def tables (ps : List Page) : List Word := (ps.filter (·.isTable)).map (·.base)

/-- Every entry that counts, at every level, satisfies `φ`. -/
def SlotAll (φ : ℕ → Word → Prop) (P : Mem) (top : ℕ → Bool) : ℕ → Word → Prop
  | 0, e => φ 0 e
  | l + 1, e => φ (l + 1) e ∧
      ∀ u, decode (l + 1) e = .table u → ∀ i ∈ slots top l, SlotAll φ P top l (entry P u i)

/-- `φ` holds of the entries in all tables from `t` on. -/
def TableAll (φ : ℕ → Word → Prop) (P : Mem) (top : ℕ → Bool) (l : ℕ) (t : Word) : Prop :=
  ∀ i ∈ slots top l, SlotAll φ P top l (entry P t i)

variable {P P' : Mem} {top : ℕ → Bool} {l k : ℕ} {e e' t u v w : Word}

/-- `top` chooses the slots of the root only. -/
@[simp] lemma mem_slots {i : ℕ} : i ∈ slots top l ↔ i < 512 ∧ (l ≠ 3 ∨ top i = true) := by
  simp [slots]

lemma slots_nodup (top : ℕ → Bool) (l : ℕ) : (slots top l).Nodup :=
  List.nodup_range.filter _

@[simp] lemma tables_nil : tables [] = [] := rfl

@[simp] lemma tables_cons_table (t : Word) (ps : List Page) :
    tables (tablePage t :: ps) = t :: tables ps := rfl

@[simp] lemma tables_cons_frame (a : Word) (n : ℕ) (ps : List Page) :
    tables (framePage a n :: ps) = tables ps := rfl

@[simp] lemma tables_append (ps qs : List Page) : tables (ps ++ qs) = tables ps ++ tables qs := by
  simp [tables]

lemma tables_flatMap (is : List ℕ) (f : ℕ → List Page) :
    tables (is.flatMap f) = is.flatMap fun i => tables (f i) := by
  induction is with
  | nil => rfl
  | cons i is ih => simp [ih]

lemma tables_perm {ps qs : List Page} (h : ps.Perm qs) : (tables ps).Perm (tables qs) :=
  (h.filter _).map _

lemma mem_tables {ps : List Page} : t ∈ tables ps ↔ ∃ p ∈ ps, p.isTable = true ∧ p.base = t := by
  simp [tables, and_assoc]

/-! ## Unfolding one slot -/

/-- Entries of a page table are never tables. -/
lemma decode_zero_ne_table : decode 0 e ≠ .table u := by
  unfold decode
  split <;> simp

/-- An entry is absent if its present bit is clear, whatever the other bits are. -/
lemma decode_absent_iff : decode l e = .absent ↔ e &&& presentBit = 0 := by
  unfold decode
  split
  · simp_all
  · rename_i h
    simp only [h, iff_false]
    split <;> try split
    all_goals simp

lemma slotTree_absent (h : decode l e = .absent) : slotTree P top l e = [] := by
  cases l <;> simp [slotTree, h]

lemma slotTree_leaf {a : Word} {n : ℕ} (h : decode l e = .leaf a n) :
    slotTree P top l e = [framePage a n] := by
  cases l <;> simp [slotTree, h]

lemma slotTree_table (h : decode (l + 1) e = .table u) :
    slotTree P top (l + 1) e = tree P top l u := by
  simp [slotTree, h, tree]

lemma slotWalk_absent (h : decode l e = .absent) : slotWalk P l e v = none := by
  cases l <;> simp [slotWalk, h]

lemma slotWalk_leaf {a : Word} {n : ℕ} (h : decode l e = .leaf a n) :
    slotWalk P l e v = some (a, n) := by
  cases l <;> simp [slotWalk, h]

lemma slotWalk_table (h : decode (l + 1) e = .table u) :
    slotWalk P (l + 1) e v = walk P l u v := by
  simp [slotWalk, h, walk]

/-- The entry itself -/
lemma slotAll_head {φ : ℕ → Word → Prop} (h : SlotAll φ P top l e) : φ l e := by
  cases l with
  | zero => exact h
  | succ l => exact h.1

lemma slotAll_table {φ : ℕ → Word → Prop} (h : SlotAll φ P top (l + 1) e)
    (hd : decode (l + 1) e = .table u) : TableAll φ P top l u := h.2 u hd

/-- Below an absent entry or a page there are no further entries. -/
lemma slotAll_of_not_table {φ : ℕ → Word → Prop} (h : φ l e)
    (hd : ∀ u, decode l e ≠ .table u) : SlotAll φ P top l e := by
  cases l with
  | zero => exact h
  | succ l => exact ⟨h, fun u hu => absurd hu (hd u)⟩

lemma slotAll_of_table {φ : ℕ → Word → Prop} (h : φ (l + 1) e)
    (hd : decode (l + 1) e = .table u) (hu : TableAll φ P top l u) :
    SlotAll φ P top (l + 1) e := by
  refine ⟨h, fun u' hu' => ?_⟩
  rw [hd] at hu'
  cases hu'
  exact hu

/-! ## Frame: a tree depends on its own table pages only -/

/-- `P'` has the entries of `P` in every table of `ts`. -/
def SameEntries (ts : List Word) (P P' : Mem) : Prop :=
  ∀ t ∈ ts, ∀ i < 512, entry P' t i = entry P t i

lemma SameEntries.mono {ts ss : List Word} (h : SameEntries ts P P') (hs : ∀ t ∈ ss, t ∈ ts) :
    SameEntries ss P P' := fun t ht => h t (hs t ht)

lemma SameEntries.refl (ts : List Word) (P : Mem) : SameEntries ts P P := fun _ _ _ _ => rfl

/-- The tables below a slot are tables of the tree. -/
lemma tables_slot_subset_tree {i : ℕ} (hi : i ∈ slots top l) {s : Word}
    (hs : s ∈ tables (slotTree P top l (entry P t i))) : s ∈ tables (tree P top l t) := by
  rw [tree, tables_cons_table, tables_flatMap]
  exact List.mem_cons_of_mem _ (List.mem_flatMap.mpr ⟨i, hi, hs⟩)

/-- The root is a table itself. -/
lemma self_mem_tables_tree : t ∈ tables (tree P top l t) := by simp [tree]

/-- What every slot keeps, the whole table keeps. -/
lemma tree_congr_of_slots
    (hslot : ∀ e, SameEntries (tables (slotTree P top l e)) P P' →
      slotTree P' top l e = slotTree P top l e)
    (h : SameEntries (tables (tree P top l t)) P P') : tree P' top l t = tree P top l t := by
  have hslots : (slots top l).flatMap (fun i => slotTree P' top l (entry P' t i))
      = (slots top l).flatMap fun i => slotTree P top l (entry P t i) := by
    refine List.flatMap_congr fun i hi => ?_
    rw [h t self_mem_tables_tree i (mem_slots.mp hi).1]
    exact hslot _ (h.mono fun s hs => tables_slot_subset_tree hi hs)
  rw [tree, tree, hslots]

/-- The tables below an entry determine what lies below it. -/
lemma slotTree_congr : ∀ (l : ℕ) {e : Word},
    SameEntries (tables (slotTree P top l e)) P P' → slotTree P' top l e = slotTree P top l e
  | 0, e, _ => by simp [slotTree]
  | l + 1, e, h => by
    cases hd : decode (l + 1) e with
    | absent => rw [slotTree_absent hd, slotTree_absent hd]
    | leaf a n => rw [slotTree_leaf hd, slotTree_leaf hd]
    | table u =>
      rw [slotTree_table hd] at h ⊢
      rw [slotTree_table hd]
      exact tree_congr_of_slots (fun e' => slotTree_congr l) h

/-- The tables of a tree determine the tree. -/
lemma tree_congr (h : SameEntries (tables (tree P top l t)) P P') :
    tree P' top l t = tree P top l t :=
  tree_congr_of_slots (fun _ => slotTree_congr l) h

/-- The walk of an address whose PML4 slot counts. -/
lemma slotWalk_congr : ∀ (l : ℕ) {e : Word}, (∀ j, 3 ≤ j → j < l → top (index j v) = true) →
    SameEntries (tables (slotTree P top l e)) P P' → slotWalk P' l e v = slotWalk P l e v
  | 0, e, _, _ => by simp [slotWalk]
  | l + 1, e, hv, h => by
    cases hd : decode (l + 1) e with
    | absent => rw [slotWalk_absent hd, slotWalk_absent hd]
    | leaf a n => rw [slotWalk_leaf hd, slotWalk_leaf hd]
    | table u =>
      rw [slotTree_table hd] at h
      rw [slotWalk_table hd, slotWalk_table hd, walk, walk,
        h u self_mem_tables_tree _ (index_lt l v)]
      refine slotWalk_congr l (fun j h3 hj => hv j h3 (by omega)) (h.mono fun s hs => ?_)
      refine tables_slot_subset_tree (mem_slots.mpr ⟨index_lt l v, ?_⟩) hs
      rcases Nat.lt_or_ge l 3 with hl | hl
      · exact .inl (by omega)
      · exact .inr (hv l hl (by omega))

end Bikeshed.Lib
