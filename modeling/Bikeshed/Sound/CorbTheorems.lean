import Bikeshed.Lib.Lists
import Bikeshed.Sound.Corb

/-!
# What the controller reads

The invariant `InPlace` says where the two pointers are, that the pending commands are in the
cells behind `CORBRP` and, when a command is on its way, that there is room for it. The last is
what `Spacious` has to supply: `ring_buffer_size` never returns `0`, so the loop that waits for
space never runs.
-/

namespace Bikeshed.Sound

open Lib

variable {s s' s0 : Corb} {e : Event} {m : Word} {base : ℕ → BitVec 32}

/-- What is known where the function has come to. -/
def Pc.At (s : Corb) : Pc → Prop
  | .idle => True
  | .readRp _ corbWp => corbWp = s.wp
  | .store _ corbWp =>
    corbWp = nextPtr s.wp s.numEntries ∧ pending s + 1 < s.numEntries.toNat
  | .writeWp command corbWp =>
    (corbWp = nextPtr s.wp s.numEntries ∧ pending s + 1 < s.numEntries.toNat) ∧
      s.base corbWp.toNat = command

/-- The driver is where its program counter says, and the ring holds what is pending. -/
structure InPlace (s : Corb) : Prop where
  two_le : 2 ≤ s.numEntries.toNat
  le : s.numEntries.toNat ≤ 256
  rp_lt : s.rp.toNat < s.numEntries.toNat
  wp_lt : s.wp.toNat < s.numEntries.toNat
  inOrder : s.fetched ++ unfetched s = s.sent
  pcAt : s.pc.At s

/-! ## Counting -/

/-- The ring is never full. -/
lemma InPlace.pending_lt (h : InPlace s) : pending s < s.numEntries.toNat :=
  Nat.mod_lt _ (by have := h.two_le; omega)

/-- Pointers stay in the ring. -/
lemma nextPtr_lt {x : BitVec 16} (h : InPlace s) (hx : x.toNat < s.numEntries.toNat) :
    (nextPtr x s.numEntries).toNat < s.numEntries.toNat := by
  rw [toNat_nextPtr hx h.le]
  exact Nat.mod_lt _ (by omega)

/-- The slot of the next command is the cell behind the pending ones. -/
lemma InPlace.slot (h : InPlace s) :
    ((nextPtr s.rp s.numEntries).toNat + pending s) % s.numEntries.toNat
      = (nextPtr s.wp s.numEntries).toNat := by
  have hr := h.rp_lt
  rw [toNat_nextPtr h.rp_lt h.le, toNat_nextPtr h.wp_lt h.le, Nat.mod_add_mod, pending,
    Nat.add_mod_mod]
  have hsum : s.rp.toNat + 1 + (s.wp.toNat + s.numEntries.toNat - s.rp.toNat)
      = s.wp.toNat + 1 + s.numEntries.toNat := by omega
  rw [hsum, Nat.add_mod_right]

/-- The registers take eight bits of a pointer, which is all of it. -/
lemma InPlace.and_ff_wp (h : InPlace s) : s.wp &&& 0xFF = s.wp :=
  and_ff (h.wp_lt.trans_le h.le)

lemma InPlace.and_ff_next_wp (h : InPlace s) :
    nextPtr s.wp s.numEntries &&& 0xFF = nextPtr s.wp s.numEntries :=
  and_ff ((nextPtr_lt h h.wp_lt).trans_le h.le)

/-- Nothing is lost in such a state. -/
lemma InPlace.noLoss (h : InPlace s) : NoLoss s where
  inOrder := h.inOrder
  waits hpc := by
    have hat := h.pcAt
    cases hcase : s.pc with
    | idle => rw [hcase] at hpc; cases hpc
    | readRp command corbWp => rw [hcase] at hpc; cases hpc
    | store command corbWp => rw [hcase] at hat; exact hat.2
    | writeWp command corbWp => rw [hcase] at hat; exact hat.1.2

/-! ## Steps -/

/-- A call starts. -/
lemma InPlace.call (h : InPlace s) {command : BitVec 32} (hs : step (.call command) s = some s') :
    InPlace s' := by
  have hwp := h.and_ff_wp
  simp only [step] at hs
  split at hs
  · obtain rfl := Option.some.inj hs
    exact ⟨h.two_le, h.le, h.rp_lt, h.wp_lt, h.inOrder, hwp⟩
  · cases hs

/-- The function reads `CORBRP` and goes on, whatever it reads. -/
lemma InPlace.run_readRp (h : InPlace s) {command : BitVec 32} {corbWp : BitVec 16}
    (hpc : s.pc = .readRp command corbWp) :
    run s = some { s with pc := .store command (nextPtr s.wp s.numEntries) } := by
  have hat := h.pcAt
  rw [hpc] at hat
  obtain rfl : corbWp = s.wp := hat
  have hrp : s.rp &&& 0xFF = s.rp := and_ff (h.rp_lt.trans_le h.le)
  simp only [run, hpc, hrp]
  exact if_neg (ringBufferSize_ge h.rp_lt h.wp_lt h.le)

/-- The command is written behind those that are pending. -/
lemma InPlace.run_store (h : InPlace s) {command : BitVec 32} {corbWp : BitVec 16}
    (hpc : s.pc = .store command corbWp) (hs : run s = some s') : InPlace s' := by
  have hat := h.pcAt
  rw [hpc] at hat
  obtain ⟨rfl, hroom⟩ : corbWp = nextPtr s.wp s.numEntries ∧ _ := hat
  simp only [run, hpc] at hs
  obtain rfl := Option.some.inj hs
  refine ⟨h.two_le, h.le, h.rp_lt, h.wp_lt, ?_, ⟨rfl, hroom⟩, Function.update_self _ _ _⟩
  have hsame : ring _ (Function.update s.base _ command)
      (nextPtr s.rp s.numEntries).toNat (pending s) = unfetched s :=
    ring_update h.pending_lt command
  rw [h.slot] at hsame
  exact (congrArg (s.fetched ++ ·) hsame).trans h.inOrder

/-- From now on the controller sees it. -/
lemma InPlace.run_writeWp (h : InPlace s) {command : BitVec 32} {corbWp : BitVec 16}
    (hpc : s.pc = .writeWp command corbWp) (hs : run s = some s') : InPlace s' := by
  have hat := h.pcAt
  rw [hpc] at hat
  obtain ⟨⟨rfl, hroom⟩, hslot⟩ :
    (corbWp = nextPtr s.wp s.numEntries ∧ _) ∧ _ := hat
  have hr := h.rp_lt
  have hw := h.wp_lt
  simp only [run, hpc, h.and_ff_next_wp] at hs
  obtain rfl := Option.some.inj hs
  have hlt := nextPtr_lt h hw
  have hpending : pending { s with
      wp := nextPtr s.wp s.numEntries, pc := .idle, sent := s.sent ++ [command] }
        = pending s + 1 := by
    unfold pending at hroom ⊢
    rw [toNat_nextPtr hw h.le]
    exact ahead_push hr hw hroom
  refine ⟨h.two_le, h.le, hr, hlt, ?_, trivial⟩
  show s.fetched ++ ring _ _ _ (pending _) = s.sent ++ [command]
  rw [hpending, ring_succ]
  show s.fetched ++ (unfetched s ++
    [s.base (((nextPtr s.rp s.numEntries).toNat + pending s) % s.numEntries.toNat)]) = _
  rw [h.slot, hslot, ← List.append_assoc, h.inOrder]

/-- The first pending command is read. -/
lemma InPlace.fetch (h : InPlace s) (hs : step .fetch s = some s') : InPlace s' := by
  have hr := h.rp_lt
  have hw := h.wp_lt
  simp only [step] at hs
  split at hs
  · cases hs
  rename_i hne
  obtain rfl := Option.some.inj hs
  have hne' : s.rp.toNat ≠ s.wp.toNat := fun he => hne (BitVec.eq_of_toNat_eq he)
  have hlt := nextPtr_lt h hr
  have hpending : pending s = pending { s with
      rp := nextPtr s.rp s.numEntries
      fetched := s.fetched ++ [s.base (nextPtr s.rp s.numEntries).toNat] } + 1 := by
    unfold pending
    rw [toNat_nextPtr hr h.le]
    exact ahead_pop hr hw hne'
  refine ⟨h.two_le, h.le, hlt, hw, ?_, ?_⟩
  · show (s.fetched ++ [_]) ++ ring _ s.base
      (nextPtr (nextPtr s.rp s.numEntries) s.numEntries).toNat (pending _) = s.sent
    rw [toNat_nextPtr hlt h.le, List.append_assoc, List.singleton_append, ← ring_cons hlt,
      ← hpending]
    exact h.inOrder
  · have hat := h.pcAt
    show s.pc.At _
    cases hpc : s.pc with
    | idle => trivial
    | readRp command corbWp => rw [hpc] at hat; exact hat
    | store command corbWp =>
      rw [hpc] at hat
      exact ⟨hat.1, (Nat.lt_of_succ_lt (hpending ▸ hat.2))⟩
    | writeWp command corbWp =>
      rw [hpc] at hat
      exact ⟨⟨hat.1.1, (Nat.lt_of_succ_lt (hpending ▸ hat.1.2))⟩, hat.2⟩

/-- Any step of the driver or the controller -/
lemma InPlace.step (h : InPlace s) (hsp : Spacious s e) (hs : step e s = some s') : InPlace s' := by
  cases e with
  | call command => exact h.call hs
  | fetch => exact h.fetch hs
  | run =>
    change run s = some s' at hs
    cases hpc : s.pc with
    | idle => simp only [run, hpc] at hs; cases hs
    | readRp command corbWp =>
      rw [h.run_readRp hpc] at hs
      obtain rfl := Option.some.inj hs
      exact ⟨h.two_le, h.le, h.rp_lt, h.wp_lt, h.inOrder, rfl, hsp command corbWp hpc⟩
    | store command corbWp => exact h.run_store hpc hs
    | writeWp command corbWp => exact h.run_writeWp hpc hs

/-- The ring is empty at first. -/
lemma inPlace_setup (h2 : 2 ≤ m.toNat) (h256 : m.toNat ≤ 256) : InPlace (setup base m) := by
  have hpos : (setup base m).rp.toNat < (setup base m).numEntries.toNat := Nat.zero_lt_of_lt h2
  have hnone : pending (setup base m) = 0 := ahead_eq hpos hpos
  refine ⟨h2, h256, hpos, hpos, ?_, trivial⟩
  rw [unfetched, hnone]
  rfl

/-- All steps with room for the command -/
lemma Run.inPlace (h0 : InPlace s0) (h : Run Spacious s0 s) : InPlace s := by
  induction h with
  | start => exact h0
  | next _ hsp hs ih => exact ih.step hsp hs

/-- As long as `CORBRP` is read with space in the ring every command is read in its turn, and a
step without space is where it ends. -/
theorem corb_noLoss (hm : m = 2 ∨ m = 16 ∨ m = 256) (h : Run Spacious (setup base m) s) :
    NoLoss s ∧ ∀ e s', step e s = some s' → (NoLoss s' ↔ Spacious s e) := by
  have hsize : 2 ≤ m.toNat ∧ m.toNat ≤ 256 := by
    obtain rfl | rfl | rfl := hm <;> decide
  have hin := h.inPlace (inPlace_setup hsize.1 hsize.2)
  refine ⟨hin.noLoss, fun e s' hs => ⟨fun hno => ?_, fun hsp => (hin.step hsp hs).noLoss⟩⟩
  cases e with
  | call command => trivial
  | fetch => trivial
  | run =>
    intro command corbWp hpc
    change run s = some s' at hs
    rw [hin.run_readRp hpc] at hs
    obtain rfl := Option.some.inj hs
    exact hno.waits rfl

lemma Run.spaciousSteps {es : List Event} (h : Run Spacious s0 s)
    (hes : spaciousSteps es s = some s') : Run Spacious s0 s' := by
  refine foldlM_preserves (fun s e s' hr hs => ?_) h hes
  by_cases hsp : Spacious s e
  · rw [if_pos hsp] at hs
    exact hr.next hsp hs
  · rw [if_neg hsp] at hs
    cases hs

/-- Fourteen commands are fetched one by one; of three more the first is fetched while the second
is sent. -/
def seventeen : List Event :=
  (List.range 14).flatMap (fun c => [.call c, .run, .run, .run, .fetch]) ++
    [.call 14, .run, .run, .run, .call 15, .run, .run, .fetch, .run, .call 16, .run, .run, .run]

/-- Seventeen commands through a ring of sixteen slots: two are left, on both sides of its end. -/
theorem noLoss_seventeen : ∃ s, NoLoss s ∧ s.fetched = (List.range 15).map (BitVec.ofNat 32) ∧
    unfetched s = [15, 16] ∧ s.wp = 1 ∧ s.rp = 15 := by
  have hsteps : (spaciousSteps seventeen (setup (fun _ => 0) 16)).map
      (fun s => (s.fetched, unfetched s, s.wp, s.rp))
        = some ((List.range 15).map (BitVec.ofNat 32), [15, 16], 1, 15) := by
    decide +kernel
  obtain ⟨s, hs, hend⟩ := Option.map_eq_some_iff.mp hsteps
  simp only [Prod.mk.injEq] at hend
  obtain ⟨hfetched, hleft, hwp, hrp⟩ := hend
  have hrun : Run Spacious (setup (fun _ => 0) 16) s := Run.start.spaciousSteps hs
  exact ⟨s, (corb_noLoss (.inr (.inl rfl)) hrun).1, hfetched, hleft, hwp, hrp⟩

/-- Two commands in a ring of two slots: `CORBWP` is back at `CORBRP`, and neither is read. -/
theorem not_noLoss :
    ¬ ∀ (base : ℕ → BitVec 32) (m : Word) (s : Corb), m = 2 ∨ m = 16 ∨ m = 256 →
      Run (fun _ _ => True) (setup base m) s → NoLoss s := by
  intro hall
  have hrun : Run (fun _ _ => True) (setup (fun _ => 0) 2) _ :=
    .next (.next (.next (.next (.next (.next (.next (.next .start
      (e := .call 1) trivial rfl) (e := .run) trivial rfl) (e := .run) trivial rfl)
      (e := .run) trivial rfl) (e := .call 2) trivial rfl) (e := .run) trivial rfl)
      (e := .run) trivial rfl) (e := .run) trivial rfl
  have hlost := (hall _ _ _ (.inl rfl) hrun).inOrder
  exact absurd hlost (by decide)

end Bikeshed.Sound
