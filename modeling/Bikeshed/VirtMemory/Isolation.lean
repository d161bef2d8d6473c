import Bikeshed.VirtMemory.CleanupTheorems
import Bikeshed.VirtMemory.CloneTheorems

/-!
# Address-space isolation

`Reach` are the states that cloning, mapping, unmapping, resetting and tearing down page
tables lead to, in any order. The invariant (`Inv`) accounts for every outstanding block: it
is a page of exactly one live page table, or it is a leftover, such as a page table that a
large page was put over. `Focused` is the same account with one page table singled out; each
operation is specified on it.
-/

namespace Bikeshed

open Lib

variable {α : Type} {A : PhysAllocator α} {H : PhysHeap A}

/-- The machine and the page tables in use. -/
structure World (α : Type) where
  machine : Machine α
  live : List Word

def userTree (m : Mem) (t : Word) : List Page := tree (phys m) userHalf 3 t

inductive Reach (A : PhysAllocator α) (H : PhysHeap A) (kernelTable : Word) : World α → Prop
  | start {s : Machine α} : H.Valid s.heap s.mem → 4096 ∣ kernelTable.toNat →
      page4KIB kernelTable ∈ H.own s.heap → (∀ i < 256, entry (phys s.mem) kernelTable i = 0) →
      Reach A H kernelTable ⟨s, [kernelTable]⟩
  | clone {s s' : Machine α} {live : List Word} {t p : Word} : Reach A H kernelTable ⟨s, live⟩ →
      t ∈ live → virtCloneMapping A t s = .ok (p, s') → Reach A H kernelTable ⟨s', p :: live⟩
  | map {s s' : Machine α} {live : List Word} {t v flags pageSize : Word} {ret : Byte × Word} :
      Reach A H kernelTable ⟨s, live⟩ → t ∈ live → v.toNat < 2 ^ 47 →
      virtMapPage A t v flags pageSize s = .ok (ret, s') → Reach A H kernelTable ⟨s', live⟩
  | unmap {s s' : Machine α} {live : List Word} {t v : Word} : Reach A H kernelTable ⟨s, live⟩ →
      t ∈ live → v.toNat < 2 ^ 47 → virtUnmapPage A t v s = .ok ((), s') →
      Reach A H kernelTable ⟨s', live⟩
  | reset {s s' : Machine α} {live : List Word} {t : Word} : Reach A H kernelTable ⟨s, live⟩ →
      t ∈ live → virtResetTable A kernelTable t s = .ok ((), s') → Reach A H kernelTable ⟨s', live⟩
  | cleanup {s s' : Machine α} {live : List Word} {t : Word} : Reach A H kernelTable ⟨s, live⟩ →
      t ∈ live → t ≠ kernelTable → virtCleanupTable A t s = .ok ((), s') →
      Reach A H kernelTable ⟨s', live.erase t⟩

/-! ## One page table singled out -/

/-- The outstanding blocks are the pages of the user half of `t` and `rest`. -/
structure Focused (H : PhysHeap A) (t : Word) (rest : List Block) (a : α) (m : Mem) : Prop where
  valid : H.Valid a m
  aligned : 4096 ∣ t.toNat
  form : TableAll EntryForm (phys m) userHalf 3 t
  own : (H.own a).Perm (blocks (userTree m t) ++ rest)

lemma user_index {v : Word} (h : v.toNat < 2 ^ 47) : userHalf (index 3 v) = true := by
  have hlt : index 3 v < 256 := by
    rw [index]
    norm_num
    omega
  exact decide_eq_true hlt

/-- A page of a tree that is marked as a table is one. -/
lemma tree_table_page {P : Mem} {top : ℕ → Bool} {l : ℕ} {t : Word} {p : Page}
    (hp : p ∈ tree P top l t) (ht : p.isTable = true) : p = tablePage p.base := by
  rw [tree, List.mem_cons, List.mem_flatMap] at hp
  rcases hp with rfl | ⟨i, -, hp⟩
  · rfl
  · exact slot_table_page l hp ht

/-- Tables in disjoint blocks are distinct. -/
lemma tables_nodup_of_disjoint {ps : List Page} (h : (blocks ps).Pairwise Block.Disjoint)
    (ht : ∀ p ∈ ps, p.isTable = true → p = tablePage p.base) : (tables ps).Nodup := by
  rw [tables, List.Nodup, List.pairwise_map, List.pairwise_filter]
  refine (List.pairwise_map.mp h).imp_of_mem fun {p q} hp hq hd htp htq he => ?_
  rw [ht p hp htp, ht q hq htq, he] at hd
  exact hd.ne (by show 0 < 4096; norm_num) rfl

namespace Focused

variable {t u v : Word} {rest : List Block} {a a' : α} {m m' : Mem}

lemma disjoint (h : Focused H t rest a m) :
    (blocks (userTree m t) ++ rest).Pairwise Block.Disjoint :=
  (h.own.pairwise_iff fun hd => Block.Disjoint.symm hd).mp (H.disjoint h.valid)

/-- Two pages of the tree. -/
lemma pages_disjoint (h : Focused H t rest a m) {p q : Page} (hp : p ∈ userTree m t)
    (hq : q ∈ userTree m t) (hne : p ≠ q) : p.block.Disjoint q.block := by
  have hsymm : Std.Symm fun p q : Page => p.block.Disjoint q.block := ⟨fun _ _ h => h.symm⟩
  exact (List.pairwise_map.mp (List.pairwise_append.mp h.disjoint).1).forall hp hq hne

lemma apart (h : Focused H t rest a m) {b c : Block} (hb : b ∈ blocks (userTree m t))
    (hc : c ∈ rest) : b.Disjoint c := (List.pairwise_append.mp h.disjoint).2.2 b hb c hc

lemma mem_own (h : Focused H t rest a m) {b : Block} (hb : b ∈ blocks (userTree m t)) :
    b ∈ H.own a := h.own.mem_iff.mpr (List.mem_append_left _ hb)

lemma rest_own (h : Focused H t rest a m) {b : Block} (hb : b ∈ rest) : b ∈ H.own a :=
  h.own.mem_iff.mpr (List.mem_append_right _ hb)

lemma rooted (h : Focused H t rest a m) : Rooted H userHalf t a m :=
  ⟨h.valid, h.aligned,
    tables_nodup_of_disjoint (List.pairwise_append.mp h.disjoint).1 fun _ => tree_table_page,
    fun _ hs => h.mem_own (table_mem_blocks hs), h.form⟩

/-- Keeping the blocks of the tree keeps the tree. -/
lemma same_tree (h : Focused H t rest a m) {bs : List Block}
    (hagree : AgreeOn bs (phys m) (phys m')) (hbs : ∀ b ∈ blocks (userTree m t), b ∈ bs) :
    userTree m' t = userTree m t ∧ TableAll EntryForm (phys m') userHalf 3 t :=
  ⟨tree_congr (tree_same hagree h.aligned hbs),
    tableAll_congr (tree_same hagree h.aligned hbs) h.form⟩

/-- A block handed out joins the rest. -/
lemma handed (h : Focused H t rest a m) (hv : H.Valid a' m') {b : Block}
    (hh : Handed (H.own a) (H.own a') (phys m) (phys m') b) : Focused H t (b :: rest) a' m' := by
  obtain ⟨htree, hform⟩ := h.same_tree hh.agree fun _ => h.mem_own
  refine ⟨hv, h.aligned, hform, ?_⟩
  rw [htree]
  exact hh.outstanding.trans ((h.own.cons b).trans List.perm_middle.symm)

end Focused

/-! ## The operations -/

section Operations

variable {t v : Word} {rest : List Block} {s : Machine α}

/-- What an operation on `t` may do: leave more behind, but not touch the rest. -/
def Kept (H : PhysHeap A) (t : Word) (rest : List Block) (m : Mem) (a' : α) (m' : Mem) : Prop :=
  ∃ more, Focused H t (more ++ rest) a' m' ∧ AgreeOn rest (phys m) (phys m')

/-- Entering a frame that was in the rest moves it into the tree. -/
lemma kept_of_maps {a a' : α} {m m' : Mem} {k : ℕ} {base : Word}
    (h : Focused H t (⟨base, 2 ^ (12 + 9 * k)⟩ :: rest) a m) (hv : v.toNat < 2 ^ 47)
    (hm : Maps H userHalf t v k base a m a' m') : Kept H t rest m a' m' := by
  obtain ⟨m1, new, u, e', he⟩ := hm
  obtain ⟨old, kept, h1, h2⟩ := he.pages (user_index hv)
  have hnew : blocks (new.map tablePage) = new.map page4KIB := List.map_map
  refine ⟨blocks old, ⟨he.after.valid, h.aligned, he.after.form, ?_⟩, fun b hb x hx => ?_⟩
  · calc (H.own a').Perm (new.map page4KIB ++ H.own a) := he.grown.own
      _ |>.Perm (new.map page4KIB ++ (blocks (userTree m t)
          ++ ⟨base, 2 ^ (12 + 9 * k)⟩ :: rest)) := h.own.append_left _
      _ |>.Perm (blocks (old ++ kept) ++ ⟨base, 2 ^ (12 + 9 * k)⟩ :: rest) := by
        rw [← hnew, ← List.append_assoc, ← blocks_append]
        exact (blocks_perm h1).append_right _
      _ |>.Perm (⟨base, 2 ^ (12 + 9 * k)⟩ :: (blocks (old ++ kept) ++ rest)) := List.perm_middle
      _ |>.Perm (⟨base, 2 ^ (12 + 9 * k)⟩ :: (blocks kept ++ (blocks old ++ rest))) := by
        rw [blocks_append, ← List.append_assoc]
        exact (List.perm_append_comm.append_right _).cons _
      _ |>.Perm (blocks (userTree m' t) ++ (blocks old ++ rest)) :=
        ((blocks_perm h2).append_right _).symm
  · exact he.others (user_index hv) (h.rest_own (List.mem_cons_of_mem _ hb))
      (fun s hs => h.apart (table_mem_blocks hs) (List.mem_cons_of_mem _ hb)) hx

theorem wp_virtMapPage_kept {flags pageSize : Word} (h : Focused H t rest s.heap s.mem)
    (hv : v.toNat < 2 ^ 47) :
    wp (virtMapPage A t v flags pageSize) (fun _ s' => Kept H t rest s.mem s'.heap s'.mem)
      (fun _ => True) s := by
  refine wp_mono (wp_virtMapPage h.rooted (user_index hv) flags pageSize
    (.inl fun _ => trivial)) ?_
  rintro ⟨ret, p⟩ s' (⟨-, -, hv1, hown, hagree⟩ | ⟨-, -, a1, m1, hv1, -, hh, hm⟩)
  · obtain ⟨htree, hform⟩ := h.same_tree hagree fun _ => h.mem_own
    refine ⟨[], ⟨hv1, h.aligned, hform, ?_⟩, hagree.mono fun _ => h.rest_own⟩
    rw [htree]
    exact hown.trans h.own
  · obtain ⟨more, h2, hagree⟩ := kept_of_maps (h.handed hv1 hh) hv hm
    exact ⟨more, h2, (hh.agree.mono fun _ => h.rest_own).trans hagree⟩

/-- Freeing an outstanding frame that is apart from the tables leaves them alone. -/
lemma Rooted.freeKeeps (hf : H.FreesReturn) {top : ℕ → Bool} {a : α} {m : Mem}
    (h : Rooted H top t a m) (hv : top (index 3 v) = true)
    (hframe : ∀ base n, walk (phys m) 3 t v = some (base, n) → Block.mk base n ∈ H.own a ∧
      ∀ s ∈ tables (tree (phys m) top 3 t), (page4KIB s).Disjoint ⟨base, n⟩) :
    FreeKeepsTables H top t v (fun a' m' => ∀ base n, walk (phys m) 3 t v = some (base, n) →
      Returned (H.own a) (H.own a') (phys m) (phys m') ⟨base, n⟩) a m := by
  intro base n hwalk a' m' hrun
  obtain ⟨hown, hdis⟩ := hframe base n hwalk
  have hn : n = 2 ^ 21 ∨ n = 2 ^ 12 := by
    obtain ⟨u, -, hc⟩ := h.walk_cases hv hwalk
    rcases hc with ⟨-, hn⟩ | ⟨_, -, -, hn⟩
    · exact .inl hn
    · exact .inr hn
  have hret : H.Valid a' m' ∧ Returned (H.own a) (H.own a') (phys m) (phys m') ⟨base, n⟩ := by
    rcases hn with rfl | rfl
    · rw [freeFrame, if_pos rfl] at hrun
      exact hf.free2MIB h.valid hown hrun
    · rw [freeFrame, if_neg (by norm_num)] at hrun
      exact hf.free4KIB h.valid hown hrun
  have htables : ∀ s ∈ tables (tree (phys m) top 3 t), page4KIB s ∈ H.own a' := by
    intro s hs
    have hs' := hret.2.outstanding.mem_iff.mp (h.owned s hs)
    exact (List.mem_cons.mp hs').resolve_left ((hdis s hs).ne (by norm_num))
  refine ⟨hret.1, fun b k hb => ?_, ?_, htables⟩
  · rw [hwalk] at hb
    cases hb
    exact hret.2
  · exact sameEntries_of_agreeOn hret.2.agree (fun _ => h.tables_aligned) htables

/-- The frame that `v` is mapped to is outstanding, and freeing it leaves the tables alone. -/
lemma Focused.freeKeeps (hf : H.FreesReturn) {a : α} {m : Mem} (h : Focused H t rest a m)
    (hv : v.toNat < 2 ^ 47) :
    FreeKeepsTables H userHalf t v (fun a' m' => ∀ base n, walk (phys m) 3 t v = some (base, n) →
      Returned (H.own a) (H.own a') (phys m) (phys m') ⟨base, n⟩) a m := by
  refine h.rooted.freeKeeps hf (user_index hv) fun base n hwalk => ?_
  have hmem : framePage base n ∈ userTree m t := walk_mem (by norm_num) (user_index hv) hwalk
  refine ⟨h.mem_own (List.mem_map_of_mem hmem), fun s hs => ?_⟩
  obtain ⟨p, hp, hpt, rfl⟩ := mem_tables.mp hs
  rw [tree_table_page hp hpt] at hp
  refine h.pages_disjoint hp hmem fun he => ?_
  cases congrArg Page.isTable he

theorem wp_virtUnmapPage_kept (hf : H.FreesReturn) (h : Focused H t rest s.heap s.mem)
    (hv : v.toNat < 2 ^ 47) :
    wp (virtUnmapPage A t v) (fun _ s' => Kept H t rest s.mem s'.heap s'.mem)
      (fun _ => True) s := by
  refine wp_mono (wp_virtUnmapPage h.rooted (user_index hv) (h.freeKeeps hf hv)) ?_
  rintro - s' ⟨k, base, m1, u, -, hc, hret⟩
  have hret := hret base _ hc.mapped
  have hpages := hc.pages (user_index hv)
  have hrest : (H.own s'.heap).Perm (blocks (userTree s'.mem t) ++ rest) := by
    refine (hret.outstanding.symm.trans (h.own.trans ?_)).cons_inv
    exact (blocks_perm hpages).append_right rest
  refine ⟨[], ⟨hc.after.valid, h.aligned, hc.after.form, hrest⟩, ?_⟩
  have hu : page4KIB u ∈ blocks (userTree s.mem t) := by
    have hmem := hc.reaches.mem_tables (user_index hv)
    rw [tree_congr hc.same] at hmem
    exact table_mem_blocks hmem
  refine (hret.agree.mono fun b hb => hrest.mem_iff.mpr (List.mem_append_right _ hb)).trans ?_
  rw [hc.stored]
  exact agreeOn_storeEntry m1 (hc.before.reached_aligned (user_index hv) hc.reaches)
    (index_lt k v) 0 fun b hb => h.apart hu hb

theorem wp_virtResetTable_kept (hf : H.FreesReturn) {kernelTable : Word}
    (h : Focused H t rest s.heap s.mem) :
    wp (virtResetTable A kernelTable t) (fun _ s' => Kept H t rest s.mem s'.heap s'.mem)
      (fun _ => True) s := by
  refine wp_mono (wp_virtResetTable hf h.aligned h.form h.valid h.own) ?_
  rintro - s' ⟨-, hr⟩
  obtain ⟨htree, hform⟩ := hr.tree_eq
  refine ⟨[], ⟨hr.valid, h.aligned, hform, ?_⟩, hr.agree.mono fun b hb =>
    List.mem_append_right _ hb⟩
  have hown := hr.own
  rw [slotsFrom_all] at hown
  rw [userTree, htree]
  exact hown

end Operations

/-! ## The invariant -/

structure Inv (H : PhysHeap A) (w : World α) : Prop where
  valid : H.Valid w.machine.heap w.machine.mem
  aligned : ∀ t ∈ w.live, 4096 ∣ t.toNat
  form : ∀ t ∈ w.live, TableAll EntryForm (phys w.machine.mem) userHalf 3 t
  own : ∃ rest, (H.own w.machine.heap).Perm
    (w.live.flatMap (fun t => blocks (userTree w.machine.mem t)) ++ rest)

/-- The pages of all live page tables but `t`. -/
def Inv.others (live : List Word) (m : Mem) (t : Word) : List Block :=
  (live.erase t).flatMap fun u => blocks (userTree m u)

/-- The invariant with what is left over given a name. -/
structure Accounts (H : PhysHeap A) (w : World α) (rest : List Block) : Prop where
  valid : H.Valid w.machine.heap w.machine.mem
  aligned : ∀ t ∈ w.live, 4096 ∣ t.toNat
  form : ∀ t ∈ w.live, TableAll EntryForm (phys w.machine.mem) userHalf 3 t
  own : (H.own w.machine.heap).Perm
    (w.live.flatMap (fun t => blocks (userTree w.machine.mem t)) ++ rest)

lemma Inv.account {w : World α} (h : Inv H w) : ∃ rest, Accounts H w rest := by
  obtain ⟨rest, hown⟩ := h.own
  exact ⟨rest, h.valid, h.aligned, h.form, hown⟩

namespace Accounts

variable {s s' : Machine α} {live : List Word} {t p : Word} {rest : List Block}

lemma inv {w : World α} (h : Accounts H w rest) : Inv H w :=
  ⟨h.valid, h.aligned, h.form, rest, h.own⟩

lemma focus (h : Accounts H ⟨s, live⟩ rest) (ht : t ∈ live) :
    Focused H t (Inv.others live s.mem t ++ rest) s.heap s.mem := by
  refine ⟨h.valid, h.aligned t ht, h.form t ht, ?_⟩
  rw [← List.append_assoc]
  exact h.own.trans (((List.perm_cons_erase ht).flatMap_right _).append_right _)

/-- What leaves the others' pages alone leaves the others alone. -/
lemma others_eq (h : Accounts H ⟨s, live⟩ rest) {m' : Mem}
    (hagree : AgreeOn (Inv.others live s.mem t ++ rest) (phys s.mem) (phys m')) :
    Inv.others live m' t = Inv.others live s.mem t ∧
      ∀ u ∈ live.erase t, TableAll EntryForm (phys m') userHalf 3 u := by
  have hsame : ∀ u ∈ live.erase t, SameEntries (tables (userTree s.mem u)) (phys s.mem) (phys m') :=
    fun u hu => tree_same hagree (h.aligned u (List.mem_of_mem_erase hu)) fun b hb =>
      List.mem_append_left _ (List.mem_flatMap.mpr ⟨u, hu, hb⟩)
  refine ⟨List.flatMap_congr fun u hu => ?_, fun u hu =>
    tableAll_congr (hsame u hu) (h.form u (List.mem_of_mem_erase hu))⟩
  rw [userTree, tree_congr (hsame u hu)]
  rfl

/-- An operation on `t` that keeps the rest adds to it. -/
lemma of_kept (h : Accounts H ⟨s, live⟩ rest) (ht : t ∈ live)
    (hk : Kept H t (Inv.others live s.mem t ++ rest) s.mem s'.heap s'.mem) :
    ∃ more, Accounts H ⟨s', live⟩ (more ++ rest) := by
  obtain ⟨more, hfoc, hagree⟩ := hk
  obtain ⟨hothers, hforms⟩ := h.others_eq hagree
  refine ⟨more, hfoc.valid, h.aligned, fun u hu => ?_, ?_⟩
  · by_cases hut : u = t
    · rw [hut]
      exact hfoc.form
    · exact hforms u ((List.mem_erase_of_ne hut).mpr hu)
  · have hlive : (live.flatMap fun u => blocks (userTree s'.mem u)).Perm
        (blocks (userTree s'.mem t) ++ Inv.others live s'.mem t) :=
      (List.perm_cons_erase ht).flatMap_right _
    rw [hothers] at hlive
    calc (H.own s'.heap).Perm
          (blocks (userTree s'.mem t) ++ (more ++ (Inv.others live s.mem t ++ rest))) := hfoc.own
      _ |>.Perm (blocks (userTree s'.mem t) ++ (Inv.others live s.mem t ++ (more ++ rest))) :=
        (List.perm_append_comm_assoc _ _ _).append_left _
      _ |>.Perm ((live.flatMap fun u => blocks (userTree s'.mem u)) ++ (more ++ rest)) := by
        rw [← List.append_assoc]
        exact hlive.symm.append_right _

/-- What keeps everything outstanding keeps the tables of a live page table. -/
lemma same (h : Accounts H ⟨s, live⟩ rest) (hagree : AgreeOn (H.own s.heap) (phys s.mem)
    (phys s'.mem)) (ht : t ∈ live) :
    SameEntries (tables (userTree s.mem t)) (phys s.mem) (phys s'.mem) :=
  tree_same hagree (h.aligned t ht) fun _ hb =>
    h.own.mem_iff.mpr (List.mem_append_left _ (List.mem_flatMap.mpr ⟨t, ht, hb⟩))

lemma clone (h : Accounts H ⟨s, live⟩ rest)
    (hc : MappingCloned H t p s.heap s.mem s'.heap s'.mem) : Accounts H ⟨s', p :: live⟩ rest := by
  have hlive : live.flatMap (fun u => blocks (userTree s'.mem u))
      = live.flatMap fun u => blocks (userTree s.mem u) := by
    refine List.flatMap_congr fun u hu => ?_
    rw [userTree, tree_congr (h.same hc.agree hu)]
    rfl
  refine ⟨hc.valid, fun u hu => ?_, fun u hu => ?_, ?_⟩
  · rcases List.mem_cons.mp hu with rfl | hu
    · exact hc.aligned
    · exact h.aligned u hu
  · rcases List.mem_cons.mp hu with rfl | hu
    · exact hc.form
    · exact tableAll_congr (h.same hc.agree hu) (h.form u hu)
  · rw [List.flatMap_cons, hlive, List.append_assoc]
    exact hc.own.trans (h.own.append_left _)

lemma cleanup (h : Accounts H ⟨s, live⟩ rest)
    (hfreed : Freed H (Inv.others live s.mem t ++ rest) s.mem s'.heap s'.mem) :
    Accounts H ⟨s', live.erase t⟩ rest := by
  obtain ⟨hothers, hforms⟩ := h.others_eq hfreed.agree
  refine ⟨hfreed.valid, fun u hu => h.aligned u (List.mem_of_mem_erase hu), hforms, ?_⟩
  refine hfreed.own.trans (.of_eq ?_)
  rw [← hothers]
  rfl

end Accounts

lemma Inv.focus {s : Machine α} {live : List Word} {t : Word} (h : Inv H ⟨s, live⟩)
    (ht : t ∈ live) : ∃ rest, Focused H t (others live s.mem t ++ rest) s.heap s.mem := by
  obtain ⟨rest, hacc⟩ := h.account
  exact ⟨rest, hacc.focus ht⟩

/-- The kernel's table, before anything is mapped for a user. -/
lemma accounts_start {s : Machine α} {kernelTable : Word} (hv : H.Valid s.heap s.mem)
    (hk : 4096 ∣ kernelTable.toNat) (hown : page4KIB kernelTable ∈ H.own s.heap)
    (hzero : ∀ i < 256, entry (phys s.mem) kernelTable i = 0) :
    Accounts H ⟨s, [kernelTable]⟩ ((H.own s.heap).erase (page4KIB kernelTable)) := by
  have habs : ∀ i ∈ slots userHalf 3, decode 3 (entry (phys s.mem) kernelTable i) = .absent := by
    intro i hi
    rw [slots_userHalf, List.mem_range] at hi
    rw [hzero i hi, decode_zero]
  refine ⟨hv, fun t ht => ?_, fun t ht => ?_, ?_⟩
  · rw [List.mem_singleton.mp ht]
    exact hk
  · rw [List.mem_singleton.mp ht]
    exact tableAll_of_absent (fun e he => entryForm_of_absent (decode_absent_iff.mp he)) habs
  · rw [List.flatMap_singleton, userTree, tree_of_absent habs]
    exact List.perm_cons_erase hown

/-- The invariant of every run. -/
theorem Reach.inv (hf : H.FreesReturn) {kernelTable : Word} {w : World α}
    (hr : Reach A H kernelTable w) : Inv H w := by
  induction hr with
  | start hv hk hown hzero => exact (accounts_start hv hk hown hzero).inv
  | clone _ ht hrun ih =>
    obtain ⟨rest, hacc⟩ := ih.account
    have hfoc := hacc.focus ht
    exact (hacc.clone ((wp_virtCloneMapping (E := fun _ => True) hfoc.aligned hfoc.valid hfoc.form
      (fun _ hb => .of_mem (hfoc.mem_own hb)) (.inl fun _ => trivial)).ok hrun)).inv
  | map _ ht hv hrun ih =>
    obtain ⟨rest, hacc⟩ := ih.account
    obtain ⟨more, h⟩ := hacc.of_kept ht ((wp_virtMapPage_kept (hacc.focus ht) hv).ok hrun)
    exact h.inv
  | unmap _ ht hv hrun ih =>
    obtain ⟨rest, hacc⟩ := ih.account
    obtain ⟨more, h⟩ := hacc.of_kept ht ((wp_virtUnmapPage_kept hf (hacc.focus ht) hv).ok hrun)
    exact h.inv
  | reset _ ht hrun ih =>
    obtain ⟨rest, hacc⟩ := ih.account
    obtain ⟨more, h⟩ := hacc.of_kept ht ((wp_virtResetTable_kept hf (hacc.focus ht)).ok hrun)
    exact h.inv
  | cleanup _ ht _ hrun ih =>
    obtain ⟨rest, hacc⟩ := ih.account
    have hfoc := hacc.focus ht
    exact (hacc.cleanup
      ((wp_virtCleanupTable hf hfoc.aligned hfoc.form hfoc.valid hfoc.own).ok hrun)).inv

/-! ## Isolation -/

/-- No page of a live page table, be it a table page or a frame, overlaps a page of another,
another page of its own, or free memory. -/
structure Isolated (H : PhysHeap A) (w : World α) : Prop where
  between : ∀ t ∈ w.live, ∀ u ∈ w.live, t ≠ u → ∀ p ∈ userTree w.machine.mem t,
    ∀ q ∈ userTree w.machine.mem u, p.block.Disjoint q.block
  within : ∀ t ∈ w.live, (userTree w.machine.mem t).Pairwise fun p q => p.block.Disjoint q.block
  outstanding : ∀ t ∈ w.live, ∀ p ∈ userTree w.machine.mem t, p.block ∈ H.own w.machine.heap

/-- Every state that the five operations lead to is isolated. -/
theorem isolation (hf : H.FreesReturn) {kernelTable : Word} {w : World α}
    (hr : Reach A H kernelTable w) : Isolated H w := by
  have h := hr.inv hf
  obtain ⟨rest, hown⟩ := h.own
  have hpair := (List.pairwise_append.mp ((hown.pairwise_iff fun hd => Block.Disjoint.symm hd).mp
    (H.disjoint h.valid))).1
  rw [List.pairwise_flatMap] at hpair
  refine ⟨fun t ht u hu hne p hp q hq => ?_, fun t ht => List.pairwise_map.mp (hpair.1 t ht),
    fun t ht p hp => ?_⟩
  · have hsymm : Std.Symm fun t u => ∀ b ∈ blocks (userTree w.machine.mem t),
        ∀ c ∈ blocks (userTree w.machine.mem u), b.Disjoint c :=
      ⟨fun _ _ h b hb c hc => (h c hc b hb).symm⟩
    exact hpair.2.forall ht hu hne _ (List.mem_map_of_mem hp) _ (List.mem_map_of_mem hq)
  · exact hown.mem_iff.mpr (List.mem_append_left _
      (List.mem_flatMap.mpr ⟨t, ht, List.mem_map_of_mem hp⟩))

/-- Two page tables are in use after a page has been mapped and the kernel's table cloned. -/
theorem Bump.isolation_clone : ∃ ret s1 p s2,
    virtMapPage (allocator release) 0x1000 0 pgFlagRw pageSmall start = .ok (ret, s1) ∧
    virtCloneMapping (allocator release) 0x1000 s1 = .ok (p, s2) ∧
    Isolated (heap release) ⟨s2, [p, 0x1000]⟩ := by
  obtain ⟨ret, s1, p, s2, hmap, -, -, -, hclone⟩ := clone_start
  have hr : Reach (allocator release) (heap release) 0x1000 ⟨start, [0x1000]⟩ :=
    .start valid_start (by decide) List.mem_cons_self fun i _ => load64_zero _
  exact ⟨ret, s1, p, s2, hmap, hclone, isolation freesReturn
    ((hr.map (List.mem_singleton_self _) (by decide) hmap).clone (List.mem_singleton_self _)
      hclone)⟩

end Bikeshed
