import Bikeshed.Sound.Corb

/-!
# The response ring of `sound.c`

The controller stores a response and then advances `RIRBWP`; the driver reads a slot and then
stores `hda_rirb.read_ptr`. Each of these is a step, and the two sides take theirs in any order.
The status register `RIRBSTS`, which the driver clears, decides nothing and is left out.
-/

namespace Bikeshed.Sound

open Lib

structure RirbResponse where
  response : BitVec 32
  respEx : BitVec 32

/-- Where the driver has come to. -/
inductive RirbPc where
  | idle
  /-- `rirb_has_responses` returned 1. -/
  | ready
  /-- `rirb_read_response` has read the slot `readPtr`. -/
  | reading (readPtr : BitVec 32) (response : RirbResponse)

/-- `hda_rirb`, the register `RIRBWP`, the response that the controller has stored without having
advanced `RIRBWP`, and the responses written and returned so far. -/
structure Rirb where
  base : ℕ → RirbResponse
  numEntries : Word
  readPtr : BitVec 32
  wp : BitVec 16
  stored : Option RirbResponse
  pc : RirbPc
  written : List RirbResponse
  returned : List RirbResponse

inductive RirbEvent where
  /-- The controller stores a response. -/
  | store (response : RirbResponse)
  /-- The controller advances `RIRBWP`. -/
  | advance
  /-- `rirb_has_responses` is called. -/
  | poll
  /-- `rirb_read_response` is called, and reads its slot. -/
  | read
  /-- It returns. -/
  | ret

def rirbHasResponses (s : Rirb) : Byte :=
  if s.numEntries - (ringBufferSize (s.readPtr.setWidth 16) s.wp
    (s.numEntries.setWidth 16)).setWidth 64 > 0 then 1 else 0

/-- How many responses have been written but not returned. -/
def unreadCount (s : Rirb) : ℕ := s.written.length - s.returned.length

def rirbStep : RirbEvent → Rirb → Option Rirb
  | .store response, s =>
    match s.stored with
    | some _ => none
    | none =>
      if unreadCount s < s.numEntries.toNat - 1 then
        some { s with
          base := Function.update s.base (nextPtr s.wp s.numEntries).toNat response
          stored := some response }
      else none
  | .advance, s =>
    match s.stored with
    | none => none
    | some response =>
      some { s with
        wp := nextPtr s.wp s.numEntries
        stored := none
        written := s.written ++ [response] }
  | .poll, s =>
    match s.pc with
    | .reading _ _ => none
    | _ => some { s with pc := if rirbHasResponses s = 1 then .ready else .idle }
  | .read, s =>
    match s.pc with
    | .ready =>
      let readPtr := ((s.readPtr + 1).setWidth 64 % s.numEntries).setWidth 32
      some { s with pc := .reading readPtr (s.base readPtr.toNat) }
    | _ => none
  | .ret, s =>
    match s.pc with
    | .reading readPtr response =>
      some { s with readPtr := readPtr, pc := .idle, returned := s.returned ++ [response] }
    | _ => none

/-- Both pointers are at 0, and the ring holds anything. -/
def rirbSetup (base : ℕ → RirbResponse) (numEntries : Word) : Rirb where
  base := base
  numEntries := numEntries
  readPtr := 0
  wp := 0
  stored := none
  pc := .idle
  written := []
  returned := []

/-- The states that are reached in any order of steps. -/
inductive RirbRun (s0 : Rirb) : Rirb → Prop
  | start : RirbRun s0 s0
  | next {s s' : Rirb} {e : RirbEvent} : RirbRun s0 s → rirbStep e s = some s' → RirbRun s0 s'

/-! ## What the ring holds -/

/-- How far `RIRBWP` is ahead of the read pointer. -/
def ahead (s : Rirb) : ℕ :=
  (s.wp.toNat + s.numEntries.toNat - s.readPtr.toNat) % s.numEntries.toNat

/-- The responses behind the read pointer. -/
def unread (s : Rirb) : List RirbResponse :=
  ring s.numEntries.toNat s.base ((s.readPtr.toNat + 1) % s.numEntries.toNat) (ahead s)

/-- What is known where the driver has come to. -/
def RirbPc.At (s : Rirb) : RirbPc → Prop
  | .idle => True
  | .ready => 0 < ahead s
  | .reading readPtr response =>
    readPtr.toNat = (s.readPtr.toNat + 1) % s.numEntries.toNat ∧ (unread s).head? = some response

structure RirbInPlace (s : Rirb) : Prop where
  two_le : 2 ≤ s.numEntries.toNat
  le : s.numEntries.toNat ≤ 256
  read_lt : s.readPtr.toNat < s.numEntries.toNat
  wp_lt : s.wp.toNat < s.numEntries.toNat
  inOrder : s.returned ++ unread s = s.written
  stored_at : ∀ response, s.stored = some response →
    s.base (nextPtr s.wp s.numEntries).toNat = response ∧ ahead s + 1 < s.numEntries.toNat
  pcAt : s.pc.At s

end Bikeshed.Sound
