import Bikeshed.Console.Kprintf

/-!
# `kprintf`

A format is its bytes up to the NUL, and the arguments are the words that `va_arg` takes one by
one. `strings` is the string at an address, up to its NUL. What is written is the bytes that
`write_char` is called with, up to the end or a panic.
-/

namespace Bikeshed.Console

open Lib

def ascii (c : Char) : Byte := BitVec.ofNat 8 c.toNat

structure Written where
  text : List Byte
  stop : Option Stop

/-- `text` is written first. -/
def Written.after (text : List Byte) (w : Written) : Written := ⟨text ++ w.text, w.stop⟩

def pad (extra : Word) (padchar : Byte) : List Byte := List.replicate extra.toNat padchar

def padstr (str : List Byte) (len width : Word) (leftadjust : Bool) (padchar : Byte) :
    List Byte :=
  let extra := width - len
  (if (0 : Word).slt extra ∧ leftadjust = false then pad extra padchar else [])
    ++ str.take len.toInt.toNat
    ++ if (0 : Word).slt extra ∧ leftadjust = true then pad extra padchar else []

/-- What is read between `%` and the letter. -/
structure Spec where
  leftadjust : Bool
  padchar : Byte
  width : Word

def IsDigit (c : Byte) : Prop := ascii '0' ≤ c ∧ c ≤ ascii '9'

instance (c : Byte) : Decidable (IsDigit c) := inferInstanceAs (Decidable (_ ∧ _))

/-- The loop over the digits. -/
def readWidth : Word → List Byte → Word × List Byte
  | width, [] => (width, [])
  | width, ch :: fmt =>
    if IsDigit ch then readWidth (width * 10 + (ch - ascii '0').setWidth 64) fmt
    else (width, ch :: fmt)

/-- `if (ch == c) { ...; ch = *(++fmt); }` -/
def skipIf (c : Byte) (fmt : List Byte) : Bool × List Byte :=
  if fmt.head? = some c then (true, fmt.tail) else (false, fmt)

def readSpec (fmt : List Byte) : Spec × List Byte :=
  let (leftadjust, fmt) := skipIf (ascii '-') fmt
  let (zero, fmt) := skipIf (ascii '0') fmt
  let (width, fmt) := readWidth 0 fmt
  (⟨leftadjust, if zero then ascii '0' else ascii ' ', width⟩, fmt)

/-- The bytes written, and the arguments and the buffer after it. -/
abbrev Converted := List Byte × Except Stop (List Word × Buffer)

/-- `padstr(&buffer[idx], BUFFER_LEN-idx, width, leftadjust, padchar)` -/
def showNumber (spec : Spec) (args : List Word) : Except Stop (Buffer × ℤ) → Converted
  | .error e => ([], .error e)
  | .ok (buffer, idx) =>
    (padstr (buffer.toList.drop idx.toNat) (BitVec.ofInt 64 (bufferLen - idx)) spec.width
      spec.leftadjust spec.padchar, .ok (args, buffer))

/-- The cases of the `switch` that take an argument. -/
inductive Conv where
  | char | signed | unsigned | string | hex | binary | octal
deriving DecidableEq

/-- The `case` labels. -/
def Conv.letters : Conv → List Byte
  | .char => [ascii 'c', ascii 'C']
  | .signed => [ascii 'd', ascii 'D']
  | .unsigned => [ascii 'u', ascii 'U']
  | .string => [ascii 's', ascii 'S']
  | .hex => [ascii 'x', ascii 'X']
  | .binary => [ascii 'b', ascii 'B']
  | .octal => [ascii 'o', ascii 'O']

def caseOf (ch : Byte) : Option Conv :=
  [.char, .signed, .unsigned, .string, .hex, .binary, .octal].find? fun conv =>
    ch ∈ Conv.letters conv

def Conv.convert (strings : Word → List Byte) (spec : Spec) (arg : Word) (args : List Word)
    (buffer : Buffer) : Conv → Converted
  | .char =>
    match store buffer 0 (arg.setWidth 8) with
    | .error e => ([], .error e)
    | .ok buffer =>
      (padstr buffer.toList 1 spec.width spec.leftadjust spec.padchar, .ok (args, buffer))
  | .signed => showNumber spec args (convertDecimal buffer arg)
  | .unsigned => showNumber spec args (convertRadix buffer 10 arg)
  | .string =>
    (padstr (strings arg) (BitVec.ofNat 64 (strings arg).length) spec.width spec.leftadjust
      spec.padchar, .ok (args, buffer))
  | .hex => showNumber spec args (convertRadix buffer 16 arg)
  | .binary => showNumber spec args (convertRadix buffer 2 arg)
  | .octal => showNumber spec args (convertRadix buffer 8 arg)

/-- The `switch`. There is no telling what `va_arg` returns when the arguments run out. -/
def convert (strings : Word → List Byte) (spec : Spec) (ch : Byte) (args : List Word)
    (buffer : Buffer) : Converted :=
  match caseOf ch with
  | some conv =>
    match args with
    | [] => ([], .error .fault)
    | arg :: args => conv.convert strings spec arg args buffer
  | none =>
    if ch = ascii '%' then ([ascii '%'], .ok (args, buffer))
    else ([ascii 'B'], .error (.panic "kprintf: Bad format string"))

lemma readWidth_length_le (width : Word) (fmt : List Byte) :
    (readWidth width fmt).2.length ≤ fmt.length := by
  induction fmt generalizing width with
  | nil => exact le_rfl
  | cons ch fmt ih =>
    rw [readWidth]
    split
    · exact (ih _).trans (Nat.le_succ _)
    · exact le_rfl

lemma skipIf_length_le (c : Byte) (fmt : List Byte) : (skipIf c fmt).2.length ≤ fmt.length := by
  unfold skipIf
  split
  · rw [List.length_tail]
    exact Nat.sub_le _ _
  · exact le_rfl

lemma readSpec_length_le (fmt : List Byte) : (readSpec fmt).2.length ≤ fmt.length := by
  unfold readSpec
  exact (readWidth_length_le _ _).trans ((skipIf_length_le _ _).trans (skipIf_length_le _ _))

/-- `_kprintf`, from any contents of the buffer -/
def kprintf (strings : Word → List Byte) (fmt : List Byte) (args : List Word)
    (buffer : Buffer) : Written :=
  let text := fmt.takeWhile fun c => c ≠ ascii '%'
  match _hfmt : fmt.dropWhile fun c => c ≠ ascii '%' with
  | [] => ⟨text, none⟩
  | _ :: rest =>
    match _hspec : readSpec rest with
    | (_, []) => ⟨text, none⟩
    | (spec, ch :: rest') =>
      match convert strings spec ch args buffer with
      | (shown, .error e) => ⟨text ++ shown, some e⟩
      | (shown, .ok (args, buffer)) => (kprintf strings rest' args buffer).after (text ++ shown)
termination_by fmt.length
decreasing_by
  have h1 := readSpec_length_le rest
  have h2 : (fmt.dropWhile fun c => c ≠ ascii '%').length ≤ fmt.length :=
    (List.dropWhile_suffix _).length_le
  rw [_hspec] at h1
  rw [_hfmt] at h2
  simp only [List.length_cons] at h1 h2
  omega

end Bikeshed.Console
