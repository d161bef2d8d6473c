import Bikeshed.Lib.Ring
import Bikeshed.Lib.Word

/-!
# The command ring of `sound.c`

`corb_send_command` is a few reads and writes of registers and memory, and the controller may
fetch a command between any two of them. `Pc` is where the function has come to.
-/

namespace Bikeshed.Sound

open Lib

def ringBufferSize (readptr writeptr size : BitVec 16) : BitVec 16 :=
  if writeptr < readptr then readptr - writeptr else size - (writeptr - readptr)

/-- `(ptr + 1) % num_entries`, as a `uint16_t` -/
def nextPtr (ptr : BitVec 16) (numEntries : Word) : BitVec 16 :=
  ((ptr.setWidth 64 + 1) % numEntries).setWidth 16

inductive Pc where
  | idle
  /-- `CORBWP` has been read, `CORBRP` is read next. -/
  | readRp (command : BitVec 32) (corbWp : BitVec 16)
  /-- There is space for the command. -/
  | store (command : BitVec 32) (corbWp : BitVec 16)
  /-- The command is in its slot. -/
  | writeWp (command : BitVec 32) (corbWp : BitVec 16)

/-- `hda_corb`, the registers `CORBWP` and `CORBRP`, the commands for which a call has returned
and those that the controller has read. -/
structure Corb where
  base : ℕ → BitVec 32
  numEntries : Word
  wp : BitVec 16
  rp : BitVec 16
  pc : Pc
  sent : List (BitVec 32)
  fetched : List (BitVec 32)

inductive Event where
  /-- `corb_send_command` is called. -/
  | call (command : BitVec 32)
  /-- It goes on. -/
  | run
  /-- The controller reads a command. -/
  | fetch

/-- `corb_send_command` from one access to the next; the first read of `CORBRP` and those in the
loop go the same way. -/
def run (s : Corb) : Option Corb :=
  match s.pc with
  | .idle => none
  | .readRp command corbWp =>
    let corbRp := s.rp &&& 0xFF
    let spaceLeft := ringBufferSize corbRp corbWp (s.numEntries.setWidth 16)
    if spaceLeft < 1 then some s
    else some { s with pc := .store command (nextPtr corbWp s.numEntries) }
  | .store command corbWp =>
    some { s with
      base := Function.update s.base corbWp.toNat command
      pc := .writeWp command corbWp }
  | .writeWp command corbWp =>
    some { s with wp := corbWp &&& 0xFF, pc := .idle, sent := s.sent ++ [command] }

def step : Event → Corb → Option Corb
  | .call command, s =>
    match s.pc with
    | .idle => some { s with pc := .readRp command (s.wp &&& 0xFF) }
    | _ => none
  | .run, s => run s
  | .fetch, s =>
    if s.rp = s.wp then none
    else some { s with
      rp := nextPtr s.rp s.numEntries
      fetched := s.fetched ++ [s.base (nextPtr s.rp s.numEntries).toNat] }

/-- After `hda_setup_corb`, with whatever the memory of the ring holds. -/
def setup (base : ℕ → BitVec 32) (numEntries : Word) : Corb where
  base := base
  numEntries := numEntries
  wp := 0
  rp := 0
  pc := .idle
  sent := []
  fetched := []

/-- The states reached by steps that meet `P`. -/
inductive Run (P : Corb → Event → Prop) (s0 : Corb) : Corb → Prop
  | start : Run P s0 s0
  | next {s s' : Corb} {e : Event} : Run P s0 s → P s e → step e s = some s' → Run P s0 s'

/-- How many commands the controller has not read. -/
def pending (s : Corb) : ℕ :=
  (s.wp.toNat + s.numEntries.toNat - s.rp.toNat) % s.numEntries.toNat

/-- The commands that the controller is going to read. -/
def unfetched (s : Corb) : List (BitVec 32) :=
  ring s.numEntries.toNat s.base (nextPtr s.rp s.numEntries).toNat (pending s)

/-- The wait for space is over. -/
def Pc.waited : Pc → Bool
  | .idle => false
  | .readRp _ _ => false
  | .store _ _ => true
  | .writeWp _ _ => true

/-- The commands are read in order, each once, and `corb_send_command` waited for space. -/
structure NoLoss (s : Corb) : Prop where
  inOrder : s.fetched ++ unfetched s = s.sent
  waits : s.pc.waited = true → pending s + 1 < s.numEntries.toNat

/-- If `CORBRP` is read then fewer than `num_entries - 1` commands are pending. -/
def Spacious (s : Corb) : Event → Prop
  | .run => ∀ command corbWp, s.pc = .readRp command corbWp → pending s + 1 < s.numEntries.toNat
  | _ => True

instance Spacious.decidable (s : Corb) (e : Event) : Decidable (Spacious s e) :=
  match e, h : s.pc with
  | .call _, _ => .isTrue trivial
  | .fetch, _ => .isTrue trivial
  | .run, .readRp _ _ =>
    decidable_of_iff (pending s + 1 < s.numEntries.toNat)
      ⟨fun hsp _ _ _ => hsp, fun hall => hall _ _ h⟩
  | .run, .idle => .isTrue fun _ _ h' => by rw [h] at h'; cases h'
  | .run, .store _ _ => .isTrue fun _ _ h' => by rw [h] at h'; cases h'
  | .run, .writeWp _ _ => .isTrue fun _ _ h' => by rw [h] at h'; cases h'

/-- The steps of a list, as long as each meets `Spacious`. -/
def spaciousSteps (es : List Event) (s : Corb) : Option Corb :=
  es.foldlM (fun s e => if Spacious s e then step e s else none) s

/-! ## Pointers -/

variable {s s' s0 : Corb} {x y : BitVec 16} {e : Event} {m : Word}

lemma toNat_nextPtr (hx : x.toNat < m.toNat) (hm : m.toNat ≤ 256) :
    (nextPtr x m).toNat = (x.toNat + 1) % m.toNat := by
  have hadd : (x.setWidth 64 + 1 : Word).toNat = x.toNat + 1 := by
    rw [BitVec.toNat_add, BitVec.toNat_setWidth]
    have h1 : (1 : Word).toNat = 1 := rfl
    omega
  have hlt : (x.toNat + 1) % m.toNat < m.toNat := Nat.mod_lt _ (by omega)
  rw [nextPtr, BitVec.toNat_setWidth, BitVec.toNat_umod, hadd, Nat.mod_eq_of_lt (by omega)]

lemma and_ff (hx : x.toNat < 256) : x &&& 0xFF = x := by
  apply BitVec.eq_of_toNat_eq
  rw [BitVec.toNat_and]
  exact (Nat.and_two_pow_sub_one_eq_mod x.toNat 8).trans (Nat.mod_eq_of_lt hx)

/-- With both pointers in the ring there is always space. -/
lemma ringBufferSize_ge (hx : x.toNat < m.toNat) (hy : y.toNat < m.toNat) (hm : m.toNat ≤ 256) :
    ¬ ringBufferSize x y (m.setWidth 16) < 1 := by
  have h1 : (1 : BitVec 16).toNat = 1 := rfl
  have hw : (m.setWidth 16 : BitVec 16).toNat = m.toNat := by
    rw [BitVec.toNat_setWidth]
    omega
  rw [ringBufferSize, BitVec.lt_def, h1]
  split
  · rename_i h
    rw [BitVec.lt_def] at h
    rw [BitVec.toNat_sub]
    omega
  · rename_i h
    rw [BitVec.lt_def] at h
    rw [BitVec.toNat_sub, BitVec.toNat_sub, hw]
    omega

end Bikeshed.Sound
