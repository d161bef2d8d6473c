import Mathlib.Data.Set.Lattice

/-!
# Drawing into an array

A state of type `σ` holds an array, `arr`, and code that draws may fail (an access out of range).
`Draws arr P S f c Q`: from a state with `P` the code `c` does not fail, overwrites the places in
`S` and no others, place `i` with `f i`, and ends in a state with `Q`. The rules follow the code:
one store, one drawing after another, a loop.
-/

namespace Bikeshed.Lib

variable {σ α ι : Type}

/-- `a'` is `a` with the places in `S` overwritten. -/
structure Painted (S : Set ℕ) (f : ℕ → α) (a a' : ℕ → α) : Prop where
  inside : ∀ i ∈ S, a' i = f i
  outside : ∀ i ∉ S, a' i = a i

def Draws (arr : σ → ℕ → α) (P : σ → Prop) (S : Set ℕ) (f : ℕ → α) (c : σ → Option σ)
    (Q : σ → Prop) : Prop :=
  ∀ s, P s → ∃ s', c s = some s' ∧ Q s' ∧ Painted S f (arr s) (arr s')

variable {arr : σ → ℕ → α} {P Q R I : σ → Prop} {S T : Set ℕ} {f g h : ℕ → α}
  {c d : σ → Option σ}

lemma Painted.none (a : ℕ → α) : Painted ∅ f a a := by
  apply Painted.mk
  · intro i hi
    cases hi
  · intro i _
    rfl

lemma Painted.congr {a b : ℕ → α} (hp : Painted S f a b) (hS : ∀ i, i ∈ T ↔ i ∈ S) :
    Painted T f a b :=
  ⟨fun i hi => hp.inside i ((hS i).mp hi), fun i hi => hp.outside i fun h => hi ((hS i).mpr h)⟩

/-- A later drawing covers an earlier one. -/
lemma Painted.trans {a b e : ℕ → α} (h1 : Painted S f a b) (h2 : Painted T g b e)
    (hf : ∀ i ∈ S, i ∉ T → f i = h i) (hg : ∀ i ∈ T, g i = h i) : Painted (S ∪ T) h a e := by
  apply Painted.mk
  · intro i hi
    by_cases hT : i ∈ T
    · rw [h2.inside i hT, hg i hT]
    · have hS : i ∈ S := hi.resolve_right hT
      rw [h2.outside i hT, h1.inside i hS, hf i hS hT]
  · intro i hi
    rw [h2.outside i fun hT => hi (.inr hT), h1.outside i fun hS => hi (.inl hS)]

/-- The same places and the same contents, said differently. -/
lemma Draws.congr (hc : Draws arr P S f c Q) (hS : ∀ i, i ∈ T ↔ i ∈ S)
    (hf : ∀ i ∈ S, f i = g i) : Draws arr P T g c Q := by
  intro s hs
  obtain ⟨s', hrun, hQ, hp⟩ := hc s hs
  refine ⟨s', hrun, hQ, ?_, ?_⟩
  · intro i hi
    have hi := (hS i).mp hi
    rw [hp.inside i hi, hf i hi]
  · intro i hi
    apply hp.outside
    rwa [← hS i]

lemma Draws.mono {P' Q' : σ → Prop} (hc : Draws arr P S f c Q) (hP : ∀ s, P' s → P s)
    (hQ : ∀ s, Q s → Q' s) : Draws arr P' S f c Q' := by
  intro s hs
  obtain ⟨s', hrun, hs', hp⟩ := hc s (hP s hs)
  exact ⟨s', hrun, hQ s' hs', hp⟩

/-- What is done before the drawing leaves the array alone. -/
lemma Draws.after {u : σ → σ} (hc : Draws arr Q S f c R) (hu : ∀ s, P s → Q (u s))
    (harr : ∀ s, arr (u s) = arr s) : Draws arr P S f (fun s => c (u s)) R := by
  intro s hs
  obtain ⟨s', hrun, hs', hp⟩ := hc (u s) (hu s hs)
  rw [harr s] at hp
  exact ⟨s', hrun, hs', hp⟩

/-! ## Sequences and loops -/

lemma Draws.nothing (f : ℕ → α) : Draws arr P ∅ f some P :=
  fun s hs => ⟨s, rfl, hs, .none (arr s)⟩

lemma Draws.bind (hc : Draws arr P S f c Q) (hd : Draws arr Q T g d R)
    (hf : ∀ i ∈ S, i ∉ T → f i = h i) (hg : ∀ i ∈ T, g i = h i) :
    Draws arr P (S ∪ T) h (fun s => c s >>= d) R := by
  intro s hs
  obtain ⟨s1, hrun1, h1, hp1⟩ := hc s hs
  obtain ⟨s2, hrun2, h2, hp2⟩ := hd s1 h1
  refine ⟨s2, ?_, h2, hp1.trans hp2 hf hg⟩
  change (c s >>= d) = some s2
  rw [hrun1]
  exact hrun2

/-- Two drawings of one picture. -/
lemma Draws.and (hc : Draws arr P S f c Q) (hd : Draws arr Q T f d R) :
    Draws arr P (S ∪ T) f (fun s => c s >>= d) R :=
  hc.bind hd (fun _ _ _ => rfl) fun _ _ => rfl

/-- The rounds of a loop draw parts of one picture. -/
theorem Draws.loop {body : σ → ι → Option σ} {part : ι → Set ℕ} {l : List ι}
    (hbody : ∀ j ∈ l, Draws arr I (part j) f (fun s => body s j) I) :
    Draws arr I {i | ∃ j ∈ l, i ∈ part j} f (fun s => l.foldlM body s) I := by
  induction l with
  | nil =>
    apply (Draws.nothing f).congr
    · intro i
      simp
    · intro i hi
      cases hi
  | cons j l ih =>
    have hhead := hbody j List.mem_cons_self
    have htail := ih fun j' hj' => hbody j' (List.mem_cons_of_mem j hj')
    apply (hhead.and htail).congr
    · intro i
      simp
    · intro i _
      rfl

end Bikeshed.Lib
