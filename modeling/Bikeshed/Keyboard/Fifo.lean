import Bikeshed.Keyboard.Driver
import Bikeshed.Lib.Lists
import Bikeshed.Lib.Ring

/-!
# The keyboard buffer as a queue

A run delivers scan codes and reads characters. `typed` are the characters decoded so far and
`read` those that have been read. They are the same up to what is in the ring, as long as the
256th unread character does not arrive with `last_index` 0.
-/

namespace Bikeshed.Keyboard

open Lib

variable {s s' : Driver} {code c : Byte} {typed read : List Byte}

/-- The character that a scan code stands for. -/
def typedChar (code : Byte) (s : Driver) : Option Byte :=
  if code = 0x2A ∨ code = 0x36 ∨ code = 0xAA ∨ code = 0xB6 ∨ code = 0x1D then none
  else if code &&& 0x80 = 0 ∧ scanCodeTable s.shiftdown code ≠ 0 then
    some (scanCodeTable s.shiftdown code)
  else none

/-- The part of the driver's state that the buffer consists of. -/
structure SameBuffer (s s' : Driver) : Prop where
  buffer : s'.buffer = s.buffer
  nextIndex : s'.nextIndex = s.nextIndex
  lastIndex : s'.lastIndex = s.lastIndex
  bufferSize : s'.bufferSize = s.bufferSize

/-- A scan code stores its character, or leaves the buffer alone. -/
lemma checkScanCode_cases (code : Byte) (s : Driver) :
    (typedChar code s = none ∧ SameBuffer s (checkScanCode code s)) ∨
      ∃ c, typedChar code s = some c ∧ checkScanCode code s = storeChar c s := by
  unfold checkScanCode typedChar
  by_cases h1 : code = 0x2A ∨ code = 0x36
  · rw [if_pos h1, if_pos (by tauto)]
    exact .inl ⟨rfl, rfl, rfl, rfl, rfl⟩
  by_cases h2 : code = 0xAA ∨ code = 0xB6
  · rw [if_neg h1, if_pos h2, if_pos (by tauto)]
    exact .inl ⟨rfl, rfl, rfl, rfl, rfl⟩
  by_cases h3 : code = 0x1D
  · rw [if_neg h1, if_neg h2, if_pos h3, if_pos (by tauto)]
    exact .inl ⟨rfl, rfl, rfl, rfl, rfl⟩
  rw [if_neg h1, if_neg h2, if_neg h3, if_neg (by tauto)]
  by_cases h4 : code = 0x9D
  · -- a key that goes up
    rw [if_pos h4, h4, if_neg fun h => absurd h.1 (by decide)]
    exact .inl ⟨rfl, rfl, rfl, rfl, rfl⟩
  rw [if_neg h4, keyDown]
  by_cases h5 : code &&& 0x80 = 0
  · by_cases h6 : scanCodeTable s.shiftdown code ≠ 0
    · rw [if_pos h5, if_pos ⟨h5, h6⟩]
      exact .inr ⟨_, rfl, if_pos h6⟩
    · rw [if_pos h5, if_neg fun h => h6 h.2]
      dsimp only
      rw [if_neg h6]
      exact .inl ⟨rfl, rfl, rfl, rfl, rfl⟩
  · rw [if_neg h5, if_neg fun h => h5 h.1]
    exact .inl ⟨rfl, rfl, rfl, rfl, rfl⟩

/-! ## The ring -/

/-- The unread characters. -/
def unread (s : Driver) : List Byte :=
  ring bufferSize s.buffer s.lastIndex.toNat s.bufferSize.toNat

structure RingOk (s : Driver) : Prop where
  size : s.bufferSize.toNat ≤ bufferSize
  last : s.lastIndex.toNat < bufferSize
  next : s.nextIndex.toNat = (s.lastIndex.toNat + s.bufferSize.toNat) % bufferSize

/-- There is room for a character. With 255 unread characters the next one fills the buffer; when
`next_index` then comes back to `last_index`, at 0, the code takes this for an overrun. -/
def Room (s : Driver) : Prop :=
  s.bufferSize.toNat < 255 ∨ (s.bufferSize.toNat = 255 ∧ s.lastIndex ≠ 0)

instance Room.decidable (s : Driver) : Decidable (Room s) := inferInstanceAs (Decidable (_ ∨ _))

lemma SameBuffer.ringOk (h : SameBuffer s s') (hr : RingOk s) : RingOk s' := by
  obtain ⟨h1, h2, h3⟩ := hr
  refine ⟨?_, ?_, ?_⟩
  · rwa [h.bufferSize]
  · rwa [h.lastIndex]
  · rwa [h.nextIndex, h.lastIndex, h.bufferSize]

lemma SameBuffer.unread_eq (h : SameBuffer s s') : unread s' = unread s := by
  unfold unread
  rw [h.buffer, h.lastIndex, h.bufferSize]

lemma toNat_succ {x : BitVec 32} (h : x.toNat < 256) : (x + 1).toNat = x.toNat + 1 := by
  rw [BitVec.toNat_add]
  have h1 : (1 : BitVec 32).toNat = 1 := rfl
  rw [h1]
  omega

theorem storeChar_ring (h : RingOk s) (hroom : Room s) (c : Byte) :
    RingOk (storeChar c s) ∧ unread (storeChar c s) = unread s ++ [c] := by
  obtain ⟨hsize, hlast, hnext⟩ := h
  have hcap : bufferSize = 256 := rfl
  rw [hcap] at hsize hlast hnext
  have hlt : s.bufferSize.toNat < 256 := by
    rcases hroom with h | h <;> omega
  have hnlt : s.nextIndex.toNat < 256 := by omega
  have hn := toNat_succ hnlt
  have hs := toNat_succ hlt
  have hpush : ring 256 (Function.update s.buffer s.nextIndex.toNat c) s.lastIndex.toNat
      (s.bufferSize.toNat + 1) = unread s ++ [c] := by
    rw [hnext]
    exact ring_push hlt c
  unfold storeChar
  dsimp only
  split
  · -- `next_index` wraps
    rename_i hwrap
    have hne : ¬ (0 : BitVec 32) = s.lastIndex := by
      intro he
      rw [← he] at hnext hlast
      have h0 : (0 : BitVec 32).toNat = 0 := rfl
      rcases hroom with h | h
      · omega
      · exact h.2 he.symm
    rw [if_neg hne]
    rw [hcap] at hwrap
    refine ⟨⟨?_, hlast, ?_⟩, ?_⟩
    · show (s.bufferSize + 1).toNat ≤ 256
      omega
    · show (0 : BitVec 32).toNat = (s.lastIndex.toNat + (s.bufferSize + 1).toNat) % 256
      have h0 : (0 : BitVec 32).toNat = 0 := rfl
      omega
    · show ring _ _ _ (s.bufferSize + 1).toNat = _
      rw [hs]
      exact hpush
  · rename_i hwrap
    rw [hcap] at hwrap
    refine ⟨⟨?_, hlast, ?_⟩, ?_⟩
    · show (s.bufferSize + 1).toNat ≤ 256
      omega
    · show (s.nextIndex + 1).toNat = (s.lastIndex.toNat + (s.bufferSize + 1).toNat) % 256
      omega
    · show ring _ _ _ (s.bufferSize + 1).toNat = _
      rw [hs]
      exact hpush

theorem keyboardGetChar_ring (h : RingOk s) (hav : keyboardCharAvailable s = true) :
    RingOk (keyboardGetChar s).2 ∧
      unread s = (keyboardGetChar s).1 :: unread (keyboardGetChar s).2 := by
  obtain ⟨hsize, hlast, hnext⟩ := h
  have hcap : bufferSize = 256 := rfl
  rw [hcap] at hsize hlast hnext
  have hpos : 0 < s.bufferSize.toNat := of_decide_eq_true hav
  have hl := toNat_succ hlast
  have hs : (s.bufferSize - 1).toNat = s.bufferSize.toNat - 1 := by
    rw [BitVec.toNat_sub_of_le (by rw [BitVec.le_def]; exact hpos)]
    rfl
  obtain ⟨len, hlen⟩ : ∃ len, s.bufferSize.toNat = len + 1 := ⟨_, (Nat.sub_add_cancel hpos).symm⟩
  have hcons : unread s = s.buffer s.lastIndex.toNat ::
      ring 256 s.buffer ((s.lastIndex.toNat + 1) % 256) (s.bufferSize - 1).toNat := by
    rw [unread, hcap, hs, hlen]
    exact ring_cons hlast
  unfold keyboardGetChar
  rw [if_neg (not_not.mpr hav)]
  dsimp only
  split
  · rename_i hwrap
    rw [hcap] at hwrap
    have h0 : (0 : BitVec 32).toNat = 0 := rfl
    refine ⟨⟨?_, ?_, ?_⟩, ?_⟩
    · show (s.bufferSize - 1).toNat ≤ 256
      omega
    · show (0 : BitVec 32).toNat < 256
      omega
    · show s.nextIndex.toNat = ((0 : BitVec 32).toNat + (s.bufferSize - 1).toNat) % 256
      omega
    · rw [hcons]
      show _ = _ :: ring 256 s.buffer (0 : BitVec 32).toNat (s.bufferSize - 1).toNat
      rw [show (s.lastIndex.toNat + 1) % 256 = (0 : BitVec 32).toNat by omega]
  · rename_i hwrap
    rw [hcap] at hwrap
    refine ⟨⟨?_, ?_, ?_⟩, ?_⟩
    · show (s.bufferSize - 1).toNat ≤ 256
      omega
    · show (s.lastIndex + 1).toNat < 256
      omega
    · show s.nextIndex.toNat = ((s.lastIndex + 1).toNat + (s.bufferSize - 1).toNat) % 256
      omega
    · rw [hcons]
      show _ = _ :: ring 256 s.buffer (s.lastIndex + 1).toNat (s.bufferSize - 1).toNat
      rw [show (s.lastIndex.toNat + 1) % 256 = (s.lastIndex + 1).toNat by omega]

/-! ## Runs -/

/-- `s` is reached from the empty buffer; `typed` are the characters decoded so far, `read` those
read so far. Scan codes are subject to `ok`. -/
inductive KeyRun (ok : Driver → List Byte → List Byte → Byte → Prop) :
    Driver → List Byte → List Byte → Prop
  | start : KeyRun ok init [] []
  | scan {s : Driver} {typed read : List Byte} (code : Byte) :
      KeyRun ok s typed read → ok s typed read code →
      KeyRun ok (checkScanCode code s) (typed ++ (typedChar code s).toList) read
  | get {s : Driver} {typed read : List Byte} :
      KeyRun ok s typed read → keyboardCharAvailable s = true →
      KeyRun ok (keyboardGetChar s).2 typed (read ++ [(keyboardGetChar s).1])

/-- What holds in every reachable state of a queue of `BUFFER_SIZE` characters. -/
structure FifoOk (s : Driver) (typed read : List Byte) : Prop where
  size : s.bufferSize.toNat ≤ bufferSize
  order : read.Sublist typed

/-- The characters read are the first ones typed, and all others can still be read. -/
structure NothingDropped (s : Driver) (typed read : List Byte) : Prop where
  isPrefix : read <+: typed
  length : typed.length = read.length + s.bufferSize.toNat

/-- A character comes in only if there is room for it. -/
abbrev WithRoom : Driver → List Byte → List Byte → Byte → Prop := fun s _ _ code =>
  typedChar code s ≠ none → Room s

theorem KeyRun.inv (h : KeyRun WithRoom s typed read) :
    RingOk s ∧ typed = read ++ unread s := by
  induction h with
  | start => exact ⟨⟨by decide, by decide, by decide⟩, rfl⟩
  | @scan s typed read code _ hok ih =>
    obtain ⟨hring, rfl⟩ := ih
    rcases checkScanCode_cases code s with ⟨hnone, hsame⟩ | ⟨c, hsome, hstore⟩
    · rw [hnone, hsame.unread_eq]
      exact ⟨hsame.ringOk hring, List.append_nil _⟩
    · obtain ⟨hring', hunread⟩ := storeChar_ring hring (hok (by rw [hsome]; simp)) c
      rw [hsome, hstore, hunread]
      exact ⟨hring', List.append_assoc ..⟩
  | @get s typed read _ hav ih =>
    obtain ⟨hring, rfl⟩ := ih
    obtain ⟨hring', hunread⟩ := keyboardGetChar_ring hring hav
    refine ⟨hring', ?_⟩
    rw [hunread, List.append_assoc]
    rfl

/-- With room for every character that comes in, the buffer is a queue. -/
theorem keyboard_fifo (h : KeyRun WithRoom s typed read) :
    FifoOk s typed read ∧ NothingDropped s typed read := by
  obtain ⟨hring, rfl⟩ := h.inv
  have hpre : read <+: read ++ unread s := List.prefix_append _ _
  refine ⟨⟨hring.size, hpre.sublist⟩, hpre, ?_⟩
  rw [List.length_append, unread, length_ring]

/-- A scan code or, for `none`, a read, as long as there is room. -/
def press : Driver × List Byte × List Byte → Option Byte → Option (Driver × List Byte × List Byte)
  | (s, typed, read), some code =>
    if typedChar code s ≠ none → Room s then
      some (checkScanCode code s, typed ++ (typedChar code s).toList, read)
    else none
  | (s, typed, read), none =>
    if keyboardCharAvailable s = true then
      some ((keyboardGetChar s).2, typed, read ++ [(keyboardGetChar s).1])
    else none

lemma KeyRun.press {x y : Driver × List Byte × List Byte} {k : Option Byte}
    (h : KeyRun WithRoom x.1 x.2.1 x.2.2) (hp : press x k = some y) :
    KeyRun WithRoom y.1 y.2.1 y.2.2 := by
  cases k with
  | some code =>
    obtain ⟨hroom, hy⟩ := Option.ite_none_right_eq_some.mp hp
    obtain rfl := Option.some.inj hy
    exact h.scan code hroom
  | none =>
    obtain ⟨hav, hy⟩ := Option.ite_none_right_eq_some.mp hp
    obtain rfl := Option.some.inj hy
    exact h.get hav

/-- `b` is typed and read 254 times, then `A` and `b` are typed, `A` is read and `c` is typed. -/
def pastTheEnd : List (Option Byte) :=
  (List.replicate 254 [some 0x30, none]).flatten ++
    [some 0x2A, some 0x1E, some 0xAA, some 0x30, none, some 0x2E]

/-- Two characters are left, in the last slot and the first. -/
theorem keyboard_fifo_pastTheEnd : ∃ s,
    FifoOk s (List.replicate 254 0x62 ++ [0x41, 0x62, 0x63]) (List.replicate 254 0x62 ++ [0x41]) ∧
    NothingDropped s (List.replicate 254 0x62 ++ [0x41, 0x62, 0x63])
      (List.replicate 254 0x62 ++ [0x41]) ∧
    unread s = [0x62, 0x63] ∧ s.lastIndex = 255 ∧ s.nextIndex = 1 := by
  have hkeys : (pastTheEnd.foldlM press (init, [], [])).map
      (fun x => (x.2.1, x.2.2, unread x.1, x.1.lastIndex, x.1.nextIndex))
      = some (List.replicate 254 0x62 ++ [0x41, 0x62, 0x63], List.replicate 254 0x62 ++ [0x41],
        [0x62, 0x63], 255, 1) := by
    decide +kernel
  obtain ⟨⟨s, typed, read⟩, hs, hend⟩ := Option.map_eq_some_iff.mp hkeys
  simp only [Prod.mk.injEq] at hend
  obtain ⟨rfl, rfl, hleft, hlast, hnext⟩ := hend
  have hrun := foldlM_preserves (R := fun x => KeyRun WithRoom x.1 x.2.1 x.2.2)
    (fun _ _ _ h hp => h.press hp) KeyRun.start hs
  obtain ⟨hok, hkept⟩ := keyboard_fifo hrun
  exact ⟨s, hok, hkept, hleft, hlast, hnext⟩

/-! ## A full buffer -/

/-- At most `BUFFER_SIZE` characters are unread at any time. -/
abbrev WithinCapacity : Driver → List Byte → List Byte → Byte → Prop := fun s typed read code =>
  typedChar code s ≠ none → typed.length < read.length + bufferSize

lemma scan_b (hshift : s.shiftdown = 0) :
    typedChar 0x30 s = some 0x62 ∧ checkScanCode 0x30 s = storeChar 0x62 s := by
  have hchar : typedChar 0x30 s = some 0x62 := by
    unfold typedChar
    rw [hshift]
    decide
  refine ⟨hchar, ?_⟩
  rcases checkScanCode_cases 0x30 s with ⟨hnone, -⟩ | ⟨c, hsome, h⟩
  · rw [hchar] at hnone
    cases hnone
  · rw [hchar] at hsome
    rwa [← Option.some.inj hsome] at h

/-- `a` and `n` times `b` have been typed. -/
lemma keyRun_filling (n : ℕ) (hn : n < 255) : ∃ s,
    KeyRun WithinCapacity s (0x61 :: List.replicate n 0x62) [] ∧ s.shiftdown = 0 ∧
      s.nextIndex.toNat = n + 1 ∧ s.lastIndex = 0 ∧ s.bufferSize.toNat = n + 1 ∧
      (0 < n → s.buffer 1 = 0x62) := by
  induction n with
  | zero =>
    refine ⟨_, .scan 0x1E .start fun _ => by decide, ?_⟩
    decide
  | succ n ih =>
    obtain ⟨s, hrun, hshift, hnext, hlast, hsize, hbuf⟩ := ih (by omega)
    obtain ⟨hchar, hstore⟩ := scan_b hshift
    have hn := toNat_succ (x := s.nextIndex) (by omega)
    have hs := toNat_succ (x := s.bufferSize) (by omega)
    have hcap : bufferSize = 256 := rfl
    have hscan := hrun.scan 0x30 fun _ => by
      rw [List.length_cons, List.length_replicate, List.length_nil, hcap]
      omega
    rw [hchar, hstore, Option.toList_some, List.cons_append, ← List.replicate_succ'] at hscan
    have hstay : storeChar 0x62 s = { s with
        buffer := Function.update s.buffer s.nextIndex.toNat 0x62
        bufferSize := s.bufferSize + 1
        nextIndex := s.nextIndex + 1 } := by
      unfold storeChar
      dsimp only
      rw [if_neg (by rw [hcap]; omega)]
    rw [hstay] at hscan
    refine ⟨_, hscan, hshift, by dsimp only; omega, hlast, by dsimp only; omega, fun _ => ?_⟩
    show Function.update s.buffer s.nextIndex.toNat 0x62 1 = 0x62
    rw [Function.update_apply]
    split
    · rfl
    · exact hbuf (by omega)

/-- 256 characters fill the buffer without a read. The next read skips the first of them. -/
theorem not_keyboard_fifo :
    ¬ ((∀ s typed read, KeyRun (fun _ _ _ _ => True) s typed read → FifoOk s typed read) ∧
      ∀ s typed read, KeyRun WithinCapacity s typed read → NothingDropped s typed read) := by
  rintro ⟨-, hall⟩
  obtain ⟨s, hrun, hshift, hnext, hlast, hsize, hbuf⟩ := keyRun_filling 254 (by norm_num)
  obtain ⟨hchar, hstore⟩ := scan_b hshift
  have hn := toNat_succ (x := s.nextIndex) (by omega)
  have hs := toNat_succ (x := s.bufferSize) (by omega)
  have hcap : bufferSize = 256 := rfl
  have hscan := hrun.scan 0x30 fun _ => by
    rw [List.length_cons, List.length_replicate, List.length_nil, hcap]
    omega
  have hwrap : storeChar 0x62 s = { s with
      buffer := Function.update s.buffer s.nextIndex.toNat 0x62
      bufferSize := s.bufferSize + 1
      nextIndex := 0
      lastIndex := 1 } := by
    unfold storeChar
    dsimp only
    rw [if_pos (by rw [hcap]; omega), if_pos hlast.symm, hlast]
    rfl
  have hav : keyboardCharAvailable (storeChar 0x62 s) = true := by
    rw [hwrap]
    exact decide_eq_true (by dsimp only; omega)
  have hget : (keyboardGetChar (storeChar 0x62 s)).1 = 0x62 := by
    unfold keyboardGetChar
    rw [if_neg (not_not.mpr hav), hwrap]
    show Function.update s.buffer s.nextIndex.toNat 0x62 1 = 0x62
    rw [Function.update_of_ne (by omega)]
    exact hbuf (by norm_num)
  rw [hstore] at hscan
  have hpre := (hall _ _ _ (hscan.get hav)).isPrefix
  rw [hget, List.nil_append, List.cons_append, List.cons_prefix_cons] at hpre
  exact absurd hpre.1 (by decide)

end Bikeshed.Keyboard
