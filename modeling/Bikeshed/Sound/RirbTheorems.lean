import Bikeshed.Lib.Lists
import Bikeshed.Sound.Rirb

/-!
# What the driver returns

The invariant `RirbInPlace` says that the responses returned and those in the ring behind the read
pointer are together the ones written. Only the two steps that move a pointer change what is in the
ring, `advance` at its end and `ret` at its front.
-/

namespace Bikeshed.Sound

open Lib

variable {s s' s0 : Rirb} {m : Word} {base : ℕ → RirbResponse}

lemma unread_length (s : Rirb) : (unread s).length = ahead s := length_ring ..

/-- What the driver knows stays true when responses are added behind the others. -/
lemma RirbPc.At.of_prefix {pc : RirbPc} (hat : pc.At s) (hn : s'.numEntries = s.numEntries)
    (hr : s'.readPtr = s.readPtr) (hext : unread s <+: unread s') : pc.At s' := by
  cases pc with
  | idle => trivial
  | ready =>
    have hle := hext.length_le
    rw [unread_length, unread_length] at hle
    exact lt_of_lt_of_le (show 0 < ahead s from hat) hle
  | reading readPtr response =>
    obtain ⟨hptr, hhead⟩ := hat
    obtain ⟨rest, hrest⟩ := hext
    refine ⟨by rw [hn, hr]; exact hptr, ?_⟩
    rw [← hrest, List.head?_append, hhead]
    rfl

namespace RirbInPlace

lemma unreadCount_eq (h : RirbInPlace s) : unreadCount s = ahead s := by
  have hlen := congrArg List.length h.inOrder
  rw [List.length_append, unread_length] at hlen
  rw [unreadCount, ← hlen, Nat.add_sub_cancel_left]

lemma ahead_lt (h : RirbInPlace s) : ahead s < s.numEntries.toNat :=
  Nat.mod_lt _ (by have := h.two_le; omega)

/-- The size of the ring without the space in it is what is unread. -/
lemma hasResponses_iff (h : RirbInPlace s) : rirbHasResponses s = 1 ↔ 0 < ahead s := by
  have hread := h.read_lt
  have hwp := h.wp_lt
  have hle := h.le
  have hptr : (s.readPtr.setWidth 16).toNat = s.readPtr.toNat := by
    rw [BitVec.toNat_setWidth]
    omega
  have hsize : (s.numEntries.setWidth 16).toNat = s.numEntries.toNat := by
    rw [BitVec.toNat_setWidth]
    omega
  have hspace : (ringBufferSize (s.readPtr.setWidth 16) s.wp (s.numEntries.setWidth 16)).toNat
      = s.numEntries.toNat - ahead s := by
    rw [ahead, ahead_eq hread hwp, ringBufferSize]
    split
    next hlt =>
      rw [BitVec.lt_def, hptr] at hlt
      rw [BitVec.toNat_sub, hptr]
      split <;> omega
    next hlt =>
      rw [BitVec.lt_def, hptr] at hlt
      rw [BitVec.toNat_sub, BitVec.toNat_sub, hptr, hsize]
      split <;> omega
  have hahead := h.ahead_lt
  have hpending : (s.numEntries - (ringBufferSize (s.readPtr.setWidth 16) s.wp
      (s.numEntries.setWidth 16)).setWidth 64).toNat = ahead s := by
    rw [BitVec.toNat_sub, BitVec.toNat_setWidth, hspace]
    omega
  have hpos : s.numEntries - (ringBufferSize (s.readPtr.setWidth 16) s.wp
      (s.numEntries.setWidth 16)).setWidth 64 > 0 ↔ 0 < ahead s := by
    rw [gt_iff_lt, BitVec.lt_def, hpending]
    rfl
  unfold rirbHasResponses
  split
  next hp => exact iff_of_true rfl (hpos.mp hp)
  next hp => exact iff_of_false (by decide) (hpos.not.mp hp)

/-- The next slot of the controller is the cell behind the unread responses. -/
lemma slot (h : RirbInPlace s) :
    ((s.readPtr.toNat + 1) % s.numEntries.toNat + ahead s) % s.numEntries.toNat
      = (nextPtr s.wp s.numEntries).toNat := by
  have hr := h.read_lt
  rw [toNat_nextPtr h.wp_lt h.le, Nat.mod_add_mod, ahead, Nat.add_mod_mod]
  have hsum : s.readPtr.toNat + 1 + (s.wp.toNat + s.numEntries.toNat - s.readPtr.toNat)
      = s.wp.toNat + 1 + s.numEntries.toNat := by omega
  rw [hsum, Nat.add_mod_right]

/-! ## The controller -/

lemma store (h : RirbInPlace s) {response : RirbResponse}
    (hs : rirbStep (.store response) s = some s') : RirbInPlace s' := by
  simp only [rirbStep] at hs
  split at hs
  next => cases hs
  split at hs
  next hroom =>
    obtain rfl := Option.some.inj hs
    have hsame : ring s.numEntries.toNat
        (Function.update s.base (nextPtr s.wp s.numEntries).toNat response)
        ((s.readPtr.toNat + 1) % s.numEntries.toNat) (ahead s) = unread s := by
      rw [← h.slot]
      exact ring_update h.ahead_lt response
    rw [h.unreadCount_eq] at hroom
    refine ⟨h.two_le, h.le, h.read_lt, h.wp_lt, ?_, ?_, ?_⟩
    · exact (congrArg (s.returned ++ ·) hsame).trans h.inOrder
    · intro r hr
      obtain rfl := Option.some.inj hr
      have hlt : ahead s + 1 < s.numEntries.toNat := by omega
      exact ⟨Function.update_self .., hlt⟩
    · exact h.pcAt.of_prefix rfl rfl ⟨[], (List.append_nil _).trans hsame.symm⟩
  next => cases hs

lemma advance (h : RirbInPlace s) (hs : rirbStep .advance s = some s') : RirbInPlace s' := by
  simp only [rirbStep] at hs
  split at hs
  next => cases hs
  next response hstored =>
    obtain ⟨hslot, hroom⟩ := h.stored_at response hstored
    have hr := h.read_lt
    have hw := h.wp_lt
    have hnext := toNat_nextPtr hw h.le
    have hlt : (nextPtr s.wp s.numEntries).toNat < s.numEntries.toNat := by
      rw [hnext]
      exact Nat.mod_lt _ (by omega)
    obtain rfl := Option.some.inj hs
    have hahead : ahead { s with
        wp := nextPtr s.wp s.numEntries, stored := none, written := s.written ++ [response] }
          = ahead s + 1 := by
      unfold ahead at hroom ⊢
      rw [hnext]
      exact ahead_push hr hw hroom
    have hunread : unread { s with
        wp := nextPtr s.wp s.numEntries, stored := none, written := s.written ++ [response] }
          = unread s ++ [response] := by
      rw [unread, hahead, ring_succ]
      show unread s ++ [s.base (((s.readPtr.toNat + 1) % s.numEntries.toNat + ahead s)
        % s.numEntries.toNat)] = _
      rw [h.slot, hslot]
    refine ⟨h.two_le, h.le, hr, hlt, ?_, nofun, ?_⟩
    · rw [hunread, ← List.append_assoc, h.inOrder]
    · exact h.pcAt.of_prefix rfl rfl ⟨[response], hunread.symm⟩

/-! ## The driver -/

lemma poll (h : RirbInPlace s) (hs : rirbStep .poll s = some s') : RirbInPlace s' := by
  have hiff := h.hasResponses_iff
  simp only [rirbStep] at hs
  split at hs
  next => cases hs
  next =>
    obtain rfl := Option.some.inj hs
    refine ⟨h.two_le, h.le, h.read_lt, h.wp_lt, h.inOrder, h.stored_at, ?_⟩
    show RirbPc.At _ (if rirbHasResponses s = 1 then .ready else .idle)
    split
    next hone => exact hiff.mp hone
    next => trivial

/-- The next read pointer, as the driver computes it. -/
lemma next_readPtr (h : RirbInPlace s) :
    (((s.readPtr + 1).setWidth 64 % s.numEntries).setWidth 32).toNat
      = (s.readPtr.toNat + 1) % s.numEntries.toNat := by
  have hread := h.read_lt
  have hle := h.le
  have h1 : (1 : BitVec 32).toNat = 1 := rfl
  have hadd : ((s.readPtr + 1).setWidth 64 : Word).toNat = s.readPtr.toNat + 1 := by
    rw [BitVec.toNat_setWidth, BitVec.toNat_add, h1]
    omega
  have hlt : (s.readPtr.toNat + 1) % s.numEntries.toNat < s.numEntries.toNat :=
    Nat.mod_lt _ (by omega)
  rw [BitVec.toNat_setWidth, BitVec.toNat_umod, hadd]
  exact Nat.mod_eq_of_lt (by omega)

/-- The slot that is read holds the first of the unread responses. -/
lemma read (h : RirbInPlace s) (hs : rirbStep .read s = some s') : RirbInPlace s' := by
  have hpos := h.two_le
  simp only [rirbStep] at hs
  split at hs
  next hpc =>
    have hat := h.pcAt
    rw [hpc] at hat
    obtain rfl := Option.some.inj hs
    refine ⟨h.two_le, h.le, h.read_lt, h.wp_lt, h.inOrder, h.stored_at, h.next_readPtr, ?_⟩
    show (unread s).head? = _
    obtain ⟨k, hk⟩ := Nat.exists_eq_add_one.mpr (show 0 < ahead s from hat)
    rw [unread, hk, ring_cons (Nat.mod_lt _ (by omega)), h.next_readPtr]
    rfl
  next => cases hs

/-- The first of the unread responses is returned. -/
lemma ret (h : RirbInPlace s) (hs : rirbStep .ret s = some s') : RirbInPlace s' := by
  have hread := h.read_lt
  have hwp := h.wp_lt
  have htwo := h.two_le
  simp only [rirbStep] at hs
  split at hs
  next readPtr response hpc =>
    have hat := h.pcAt
    rw [hpc] at hat
    obtain ⟨hptr, hhead⟩ := hat
    obtain rfl := Option.some.inj hs
    have hlt : readPtr.toNat < s.numEntries.toNat := hptr ▸ Nat.mod_lt _ (by omega)
    have hpos : 0 < ahead s := by
      rw [← unread_length, List.length_pos_iff_exists_mem]
      exact ⟨response, List.mem_of_mem_head? hhead⟩
    have hahead : ahead s = ahead { s with
        readPtr := readPtr, pc := .idle, returned := s.returned ++ [response] } + 1 := by
      unfold ahead at hpos ⊢
      rw [hptr]
      exact ahead_pop hread hwp ((ahead_pos_iff hread hwp).mp hpos)
    have hunread : unread s = response :: unread { s with
        readPtr := readPtr, pc := .idle, returned := s.returned ++ [response] } := by
      have hring := hhead
      rw [unread, hahead, ring_cons (Nat.mod_lt _ (by omega))] at hring
      rw [unread, hahead, ring_cons (Nat.mod_lt _ (by omega)), Option.some.inj hring, ← hptr]
      rfl
    refine ⟨h.two_le, h.le, hlt, hwp, ?_, ?_, trivial⟩
    · show (s.returned ++ [response]) ++ _ = s.written
      rw [← h.inOrder, hunread, List.append_assoc]
      rfl
    · intro r hr
      obtain ⟨hslot, hroom⟩ := h.stored_at r hr
      exact ⟨hslot, lt_trans (Nat.lt_succ_self _) (hahead ▸ hroom)⟩
  next => cases hs

lemma step (h : RirbInPlace s) {e : RirbEvent} (hs : rirbStep e s = some s') :
    RirbInPlace s' := by
  cases e with
  | store response => exact h.store hs
  | advance => exact h.advance hs
  | poll => exact h.poll hs
  | read => exact h.read hs
  | ret => exact h.ret hs

end RirbInPlace

lemma rirbInPlace_setup (h2 : 2 ≤ m.toNat) (h256 : m.toNat ≤ 256) :
    RirbInPlace (rirbSetup base m) := by
  have hpos : 0 < m.toNat := by omega
  have hnone : ahead (rirbSetup base m) = 0 := ahead_eq hpos hpos
  refine ⟨h2, h256, hpos, hpos, ?_, nofun, trivial⟩
  rw [unread, hnone]
  rfl

lemma RirbRun.inPlace (h0 : RirbInPlace s0) (h : RirbRun s0 s) : RirbInPlace s := by
  induction h with
  | start => exact h0
  | next _ hs ih => exact ih.step hs

/-- In any order of steps the responses are returned in the order in which they are written, each
once, and `rirb_has_responses` tells whether some are left. -/
theorem rirb_delivers (hm : m = 2 ∨ m = 16 ∨ m = 256) (h : RirbRun (rirbSetup base m) s) :
    s.returned <+: s.written ∧
      (rirbHasResponses s = 1 ↔ s.returned.length < s.written.length) := by
  have hsize : 2 ≤ m.toNat ∧ m.toNat ≤ 256 := by
    obtain rfl | rfl | rfl := hm <;> decide
  have hin := h.inPlace (rirbInPlace_setup hsize.1 hsize.2)
  have hcount := hin.unreadCount_eq
  rw [unreadCount] at hcount
  refine ⟨⟨_, hin.inOrder⟩, ?_⟩
  rw [hin.hasResponses_iff]
  omega

lemma RirbRun.steps {es : List RirbEvent} (h : RirbRun s0 s)
    (hes : es.foldlM (fun s e => rirbStep e s) s = some s') : RirbRun s0 s' :=
  foldlM_preserves (fun _ _ _ hr hs => hr.next hs) h hes

/-- Fourteen responses are read one by one; of three more the first is read while the second is
stored. -/
def seventeenResponses : List RirbEvent :=
  (List.range 14).flatMap (fun r => [.store ⟨r, 0⟩, .advance, .poll, .read, .ret]) ++
    [.store ⟨14, 0⟩, .advance, .poll, .store ⟨15, 0⟩, .read, .advance, .ret, .store ⟨16, 0⟩,
      .advance]

/-- Seventeen responses through a ring of sixteen slots: two are left, on both sides of its end. -/
theorem rirb_seventeen : ∃ s, s.returned <+: s.written ∧
    (rirbHasResponses s = 1 ↔ s.returned.length < s.written.length) ∧
    s.returned.map RirbResponse.response = (List.range 15).map (BitVec.ofNat 32) ∧
    s.written.map RirbResponse.response = (List.range 17).map (BitVec.ofNat 32) ∧
    s.readPtr = 15 ∧ s.wp = 1 := by
  have hsteps : (seventeenResponses.foldlM (fun s e => rirbStep e s)
      (rirbSetup (fun _ => ⟨0, 0⟩) 16)).map (fun s => (s.returned.map RirbResponse.response,
        s.written.map RirbResponse.response, s.readPtr, s.wp))
      = some ((List.range 15).map (BitVec.ofNat 32), (List.range 17).map (BitVec.ofNat 32),
        15, 1) := by
    decide +kernel
  obtain ⟨s, hs, hend⟩ := Option.map_eq_some_iff.mp hsteps
  simp only [Prod.mk.injEq] at hend
  obtain ⟨hreturned, hwritten, hread, hwp⟩ := hend
  have hrun : RirbRun (rirbSetup (fun _ => ⟨0, 0⟩) 16) s := RirbRun.start.steps hs
  obtain ⟨hext, hiff⟩ := rirb_delivers (.inr (.inl rfl)) hrun
  exact ⟨s, hext, hiff, hreturned, hwritten, hread, hwp⟩

end Bikeshed.Sound
