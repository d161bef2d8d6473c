import Bikeshed.Lib.Word
import Mathlib.Logic.Function.Basic

/-!
# The keyboard driver

`check_scan_code` turns what the keyboard sends into characters and stores them in `buffer`,
where `keyboard_get_char` finds them. Scrolling the screen on the keys 1 and 2, a debugging aid,
is left out.
-/

namespace Bikeshed.Keyboard

open Lib

/-- The characters of the keys `0x00` to `0x7f`, as ASCII codes; 0 is no character. -/
def scanCodeTable0 : List Byte := [
  /- 00-0f -/ 0x00, 0x1b, 0x31, 0x32, 0x33, 0x34, 0x35, 0x36, 0x37, 0x38, 0x39, 0x30, 0x2d, 0x3d, 0x08, 0x09,
  /- 10-1f -/ 0x71, 0x77, 0x65, 0x72, 0x74, 0x79, 0x75, 0x69, 0x6f, 0x70, 0x5b, 0x5d, 0x0a, 0x00, 0x61, 0x73,
  /- 20-2f -/ 0x64, 0x66, 0x67, 0x68, 0x6a, 0x6b, 0x6c, 0x3b, 0x27, 0x60, 0x00, 0x5c, 0x7a, 0x78, 0x63, 0x76,
  /- 30-3f -/ 0x62, 0x6e, 0x6d, 0x2c, 0x2e, 0x2f, 0x00, 0x2a, 0x00, 0x20, 0x00, 0x00, 0x00, 0x00, 0x00, 0x00,
  /- 40-4f -/ 0x00, 0x00, 0x00, 0x00, 0x00, 0x00, 0x00, 0x37, 0x38, 0x39, 0x2d, 0x34, 0x35, 0x36, 0x2b, 0x31,
  /- 50-5f -/ 0x32, 0x33, 0x30, 0x2e, 0x00, 0x00, 0x00, 0x00, 0x00, 0x00, 0x00, 0x00, 0x00, 0x00, 0x00, 0x00,
  /- 60-6f -/ 0x00, 0x00, 0x00, 0x00, 0x00, 0x00, 0x00, 0x00, 0x00, 0x00, 0x00, 0x00, 0x00, 0x00, 0x00, 0x00,
  /- 70-7f -/ 0x00, 0x00, 0x00, 0x00, 0x00, 0x00, 0x00, 0x00, 0x00, 0x00, 0x00, 0x00, 0x00, 0x00, 0x00, 0x00]

/-- The same with shift. -/
def scanCodeTable1 : List Byte := [
  /- 00-0f -/ 0x00, 0x1b, 0x21, 0x40, 0x23, 0x24, 0x25, 0x5e, 0x26, 0x2a, 0x28, 0x29, 0x5f, 0x2b, 0x08, 0x09,
  /- 10-1f -/ 0x51, 0x57, 0x45, 0x52, 0x54, 0x59, 0x55, 0x49, 0x4f, 0x50, 0x7b, 0x7d, 0x0a, 0x00, 0x41, 0x53,
  /- 20-2f -/ 0x44, 0x46, 0x47, 0x48, 0x4a, 0x4b, 0x4c, 0x3a, 0x22, 0x7e, 0x00, 0x7c, 0x5a, 0x58, 0x43, 0x56,
  /- 30-3f -/ 0x42, 0x4e, 0x4d, 0x3c, 0x3e, 0x3f, 0x00, 0x2a, 0x00, 0x20, 0x00, 0x00, 0x00, 0x00, 0x00, 0x00,
  /- 40-4f -/ 0x00, 0x00, 0x00, 0x00, 0x00, 0x00, 0x00, 0x37, 0x38, 0x39, 0x2d, 0x34, 0x35, 0x36, 0x2b, 0x31,
  /- 50-5f -/ 0x32, 0x33, 0x30, 0x2e, 0x00, 0x00, 0x00, 0x00, 0x00, 0x00, 0x00, 0x00, 0x00, 0x00, 0x00, 0x00,
  /- 60-6f -/ 0x00, 0x00, 0x00, 0x00, 0x00, 0x00, 0x00, 0x00, 0x00, 0x00, 0x00, 0x00, 0x00, 0x00, 0x00, 0x00,
  /- 70-7f -/ 0x00, 0x00, 0x00, 0x00, 0x00, 0x00, 0x00, 0x00, 0x00, 0x00, 0x00, 0x00, 0x00, 0x00, 0x00, 0x00]

/-- `scan_code_table[shiftdown][code]`, for `shiftdown` 0 or 1 and `code < 128`. -/
def scanCodeTable (shiftdown code : Byte) : Byte :=
  (if shiftdown = 0 then scanCodeTable0 else scanCodeTable1).getD code.toNat 0

/-- `BUFFER_SIZE` -/
def bufferSize : ℕ := 256

/-- The static variables of the driver, those of `check_scan_code` included. The array is read and
written at indices below `BUFFER_SIZE`. -/
structure Driver where
  buffer : ℕ → Byte
  nextIndex : BitVec 32
  lastIndex : BitVec 32
  bufferSize : BitVec 32
  shiftdown : Byte
  ctrlMask : Byte

def init : Driver := ⟨fun _ => 0, 0, 0, 0, 0, 0xFF⟩

def keyboardCharAvailable (s : Driver) : Bool := decide (0 < s.bufferSize.toNat)

def keyboardGetChar (s : Driver) : Byte × Driver :=
  if ¬ keyboardCharAvailable s then (0, s)
  else
    let val := s.buffer s.lastIndex.toNat
    let s := { s with bufferSize := s.bufferSize - 1, lastIndex := s.lastIndex + 1 }
    (val, if bufferSize ≤ s.lastIndex.toNat then { s with lastIndex := 0 } else s)

/-- The end of `check_scan_code`: the character goes into the buffer. -/
def storeChar (code : Byte) (s : Driver) : Driver :=
  let s := { s with
    buffer := Function.update s.buffer s.nextIndex.toNat code
    bufferSize := s.bufferSize + 1
    nextIndex := s.nextIndex + 1 }
  if bufferSize ≤ s.nextIndex.toNat then
    let s := { s with nextIndex := 0 }
    if s.nextIndex = s.lastIndex then { s with lastIndex := (s.lastIndex + 1) % 256 } else s
  else s

/-- The `default` case: only a key that goes down counts. -/
def keyDown (code : Byte) (s : Driver) : Driver :=
  if code &&& 0x80 = 0 then
    let code := scanCodeTable s.shiftdown code
    if code ≠ 0 then storeChar code s else s
  else s

def checkScanCode (code : Byte) (s : Driver) : Driver :=
  if code = 0x2A ∨ code = 0x36 then { s with shiftdown := 1 }
  else if code = 0xAA ∨ code = 0xB6 then { s with shiftdown := 0 }
  else if code = 0x1D then { s with ctrlMask := 0x1F }
  -- no `break` after the next case
  else if code = 0x9D then keyDown code { s with ctrlMask := 0xFF }
  else keyDown code s

end Bikeshed.Keyboard
