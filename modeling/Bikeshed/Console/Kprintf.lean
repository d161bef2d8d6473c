import Bikeshed.Lib.Word

/-!
# Number formatting in `kprintf.c`

A number is written into the buffer from its end, and what is shown is the rest of the buffer
from the index returned. The text of a failed `ASSERT` names the file and the line in the source;
here it names the condition.
-/

namespace Bikeshed.Console

open Lib

def bufferLen : ℕ := 21

abbrev Buffer := Vector Byte bufferLen

/-- How a function ends other than by returning. -/
inductive Stop where
  | panic (message : String)
  /-- An access outside an object, or a division by zero. -/
  | fault

/-- `buf[index] = c` -/
def store (buf : Buffer) (index : ℤ) (c : Byte) : Except Stop Buffer :=
  if h : 0 ≤ index ∧ index < bufferLen then .ok (buf.set index.toNat c (by omega))
  else .error .fault

def hexdigits : List Byte := "0123456789ABCDEF".toList.map fun c => BitVec.ofNat 8 c.toNat

def hexdigit (i : Word) : Except Stop Byte :=
  match hexdigits[i.toNat]? with
  | some c => .ok c
  | none => .error .fault

/-- The loop of both functions: a digit is stored, and what is left of the value is divided. -/
def digitLoop (digit : Word → Except Stop Byte) (rest : Word → Word)
    (buf : Buffer) (index : ℤ) (value : Word) : Except Stop (Buffer × ℤ) :=
  match digit value with
  | .error e => .error e
  | .ok c =>
    match store buf index c with
    | .error e => .error e
    | .ok buf =>
      if 0 ≤ index - 1 ∧ rest value ≠ 0 then digitLoop digit rest buf (index - 1) (rest value)
      else .ok (buf, index - 1)
termination_by index.toNat

/-- `convert_radix`: the buffer after it and the index it returns -/
def convertRadix (buf : Buffer) (radix : Byte) (value : Word) : Except Stop (Buffer × ℤ) :=
  if ¬radix ≤ 16 then .error (.panic "ASSERT FAILED: radix <= 16")
  else if radix = 0 then .error .fault
  else
    match digitLoop (fun value => hexdigit (value % radix.setWidth 64))
        (fun value => value / radix.setWidth 64) buf (bufferLen - 1) value with
    | .error e => .error e
    | .ok (buf, index) => .ok (buf, index + 1)

/-- `convert_decimal`: the buffer after it and the index it returns -/
def convertDecimal (buf : Buffer) (value : Word) : Except Stop (Buffer × ℤ) :=
  let negative := value.slt 0
  let value := if negative then -value else value
  match digitLoop (fun value => .ok ((value.srem 10 + 0x30).setWidth 8))
      (fun value => value.sdiv 10) buf (bufferLen - 1) value with
  | .error e => .error e
  | .ok (buf, index) =>
    if negative then
      if 0 ≤ index then .error (.panic "convert_decimal: Bad index")
      else
        match store buf index 0x2D with
        | .error e => .error e
        | .ok buf => .ok (buf, index - 1 + 1)
    else .ok (buf, index + 1)

end Bikeshed.Console
