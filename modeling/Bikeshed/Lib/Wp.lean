import Mathlib.Tactic.Common

/-!
# Programs with a state that may panic

`Prog σ ε α` runs on a state `σ` and either returns a value with a new state or panics
with an `ε`. `wp c Q E s` says what one run of `c` from `s` does: a return satisfies `Q`,
a panic satisfies `E`. Partial correctness is `E := fun _ => True`, freedom from panics
`E := fun _ => False`. `wp_bind` and `wp_forRange` are the rules for sequencing and for
counted loops.
-/

namespace Bikeshed.Lib

/-- A program with a state `σ` that may stop with an error `ε` -/
abbrev Prog (σ ε : Type) (α : Type) := StateT σ (Except ε) α

variable {σ ε α β : Type}

def wp (c : Prog σ ε α) (Q : α → σ → Prop) (E : ε → Prop) (s : σ) : Prop :=
  match c s with
  | .ok (a, s') => Q a s'
  | .error e => E e

/-- `panic(message)`: the run ends here. -/
def panicWith (e : ε) : Prog σ ε α := fun _ => .error e

/-- `for (i = 0; i < n; ++i) body(i)`. -/
def forRange : ℕ → (ℕ → Prog σ ε Unit) → Prog σ ε Unit
  | 0, _ => pure ()
  | n + 1, body => do
    forRange n body
    body n

variable {Q R : α → σ → Prop} {E : ε → Prop} {s : σ}

/-! ## Reading a run off its `wp` -/

/-- The two ways in which a run may end -/
lemma wp_iff {c : Prog σ ε α} :
    wp c Q E s ↔ (∀ a s', c s = .ok (a, s') → Q a s') ∧ ∀ e, c s = .error e → E e := by
  rw [wp]
  cases h : c s with
  | ok r =>
    constructor
    · intro hq
      refine ⟨?_, ?_⟩
      · rintro a s' ⟨⟩
        exact hq
      · rintro e ⟨⟩
    · exact fun hq => hq.1 r.1 r.2 rfl
  | error e =>
    constructor
    · intro he
      refine ⟨?_, ?_⟩
      · rintro a s' ⟨⟩
      · rintro e' ⟨⟩
        exact he
    · exact fun hq => hq.2 e rfl

/-- A run that returns -/
lemma wp.ok {c : Prog σ ε α} (h : wp c Q E s) {a : α} {s' : σ} (hc : c s = .ok (a, s')) :
    Q a s' := (wp_iff.mp h).1 a s' hc

/-- A run that stops -/
lemma wp.error {c : Prog σ ε α} (h : wp c Q E s) {e : ε} (hc : c s = .error e) : E e :=
  (wp_iff.mp h).2 e hc

/-- Without panics a run returns. -/
lemma wp.returns {c : Prog σ ε α} (h : wp c Q (fun _ => False) s) :
    ∃ a s', c s = .ok (a, s') ∧ Q a s' := by
  rw [wp] at h
  split at h
  · rename_i a s' hc
    exact ⟨a, s', hc, h⟩
  · exact h.elim

/-- For a program that can be evaluated -/
lemma wp_iff_of_ok {c : Prog σ ε α} {a : α} {s' : σ} (hc : c s = .ok (a, s')) :
    wp c Q E s ↔ Q a s' := by
  rw [wp, hc]

lemma wp_of_ok {c : Prog σ ε α} {a : α} {s' : σ} (hc : c s = .ok (a, s')) (h : Q a s') :
    wp c Q E s := by
  rw [wp, hc]
  exact h

lemma wp_of_error {c : Prog σ ε α} {e : ε} (hc : c s = .error e) (h : E e) : wp c Q E s := by
  rw [wp, hc]
  exact h

/-! ## Structural rules -/

/-- The postcondition may be weakened. -/
lemma wp_mono {c : Prog σ ε α} (h : wp c Q E s) (hqr : ∀ a s', Q a s' → R a s') :
    wp c R E s := by
  rw [wp_iff] at h ⊢
  exact ⟨fun a s' he => hqr a s' (h.1 a s' he), h.2⟩

/-- Two things are known of one run. -/
lemma wp_and {c : Prog σ ε α} {F : ε → Prop} (h : wp c Q E s) (h' : wp c R F s) :
    wp c (fun a s' => Q a s' ∧ R a s') (fun e => E e ∧ F e) s := by
  rw [wp_iff] at h h' ⊢
  exact ⟨fun a s' he => ⟨h.1 a s' he, h'.1 a s' he⟩, fun e he => ⟨h.2 e he, h'.2 e he⟩⟩

/-- More errors may be allowed. -/
lemma wp_weaken {c : Prog σ ε α} {F : ε → Prop} (h : wp c Q E s) (hef : ∀ e, E e → F e) :
    wp c Q F s := by
  rw [wp_iff] at h ⊢
  exact ⟨h.1, fun e he => hef e (h.2 e he)⟩

/-- Nothing is asked of the run. -/
lemma wp_trivial (c : Prog σ ε α) (s : σ) : wp c (fun _ _ => True) (fun _ => True) s :=
  wp_iff.mpr ⟨fun _ _ _ => trivial, fun _ _ => trivial⟩

@[simp] lemma wp_pure {a : α} : wp (pure a : Prog σ ε α) Q E s ↔ Q a s := Iff.rfl

@[simp] lemma wp_panicWith {e : ε} : wp (panicWith e : Prog σ ε α) Q E s ↔ E e := Iff.rfl

/-- One step after the other -/
lemma wp_bind {c : Prog σ ε β} {f : β → Prog σ ε α} :
    wp (c >>= f) Q E s ↔ wp c (fun b s' => wp (f b) Q E s') E s := by
  simp only [wp, bind, StateT.bind, Except.bind]
  cases c s <;> rfl

@[simp] lemma wp_get {Q : σ → σ → Prop} : wp (get : Prog σ ε σ) Q E s ↔ Q s s := Iff.rfl

@[simp] lemma wp_modify {f : σ → σ} {Q : PUnit → σ → Prop} :
    wp (modify f : Prog σ ε PUnit) Q E s ↔ Q ⟨⟩ (f s) := Iff.rfl

/-- Both branches, each under its condition -/
lemma wp_ite {p : Prop} [Decidable p] {c d : Prog σ ε α} :
    wp (if p then c else d) Q E s ↔ (p → wp c Q E s) ∧ (¬ p → wp d Q E s) := by
  split <;> simp_all

/-! ## Counted loops -/

/-- An invariant that holds initially and is kept by each iteration holds at the end. -/
lemma wp_forRange {body : ℕ → Prog σ ε Unit} (I : ℕ → σ → Prop) :
    ∀ (n : ℕ) {s : σ}, I 0 s →
      (∀ i s, i < n → I i s → wp (body i) (fun _ s' => I (i + 1) s') E s) →
      wp (forRange n body) (fun _ s' => I n s') E s
  | 0, _, h0, _ => h0
  | n + 1, s, h0, hstep => by
    rw [forRange, wp_bind]
    refine wp_mono (wp_forRange I n h0 fun i s hi => hstep i s (by omega)) ?_
    intro _ s' hs'
    exact hstep n s' (by omega) hs'

-- a loop of 512 rounds is not to be unrolled by unification
attribute [irreducible] forRange

end Bikeshed.Lib
