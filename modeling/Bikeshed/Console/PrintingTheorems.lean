import Bikeshed.Console.KprintfTheorems
import Bikeshed.Console.Printing

/-!
# The language of `kprintf`

Every string of bytes is the format of some plain characters and directives, which end with the
string, inside a directive, or with a letter that is none. What is written is said directive by
directive.
-/

namespace Bikeshed.Console

open Lib

/-! ## Directives -/

/-- What stands between `%` and the letter, as it is written. -/
structure Directive where
  left : Bool
  zero : Bool
  digits : List Byte
  isDigit : ∀ c ∈ digits, IsDigit c
  /-- A first zero is the flag. -/
  first : zero = false → digits.head? ≠ some (ascii '0')

namespace Directive

variable (d : Directive)

def encode : List Byte :=
  (if d.left then [ascii '-'] else []) ++ ((if d.zero then [ascii '0'] else []) ++ d.digits)

/-- The flag 0 pads with zeros. -/
def padchar : Byte := if d.zero then ascii '0' else ascii ' '

/-- The number that the digits are the numeral of. -/
def width : ℕ := d.digits.foldl (fun n c => n * 10 + (c - ascii '0').toNat) 0

def spec : Spec := ⟨d.left, d.padchar, BitVec.ofNat 64 d.width⟩

/-- The text in its field. -/
def field (text : List Byte) : List Byte :=
  let fill := List.replicate (d.width - text.length) d.padchar
  if d.left then text ++ fill else fill ++ text

/-- The byte is not read as part of the directive. -/
def Stops (c : Byte) : Prop :=
  ¬ IsDigit c ∧ (c = ascii '-' → d.left = true ∨ d.zero = true ∨ d.digits ≠ [])

end Directive

variable {d : Directive} {fmt rest : List Byte} {c : Byte} {width : Word} {n : ℕ}

/-! ## Reading a directive -/

lemma isDigit_zero : IsDigit (ascii '0') := by decide

lemma not_isDigit_minus : ¬ IsDigit (ascii '-') := by decide

/-- Without a digit the width is what it was. -/
lemma readWidth_stop (h : ∀ c ∈ rest.head?, ¬ IsDigit c) :
    readWidth width rest = (width, rest) := by
  cases rest with
  | nil => rfl
  | cons c rest => rw [readWidth, if_neg (h c rfl)]

/-- The digits are read as a decimal numeral. -/
lemma readWidth_digits {digits : List Byte} (hd : ∀ c ∈ digits, IsDigit c)
    (h : ∀ c ∈ rest.head?, ¬ IsDigit c) (n : ℕ) :
    readWidth (BitVec.ofNat 64 n) (digits ++ rest)
      = (BitVec.ofNat 64 (digits.foldl (fun n c => n * 10 + (c - ascii '0').toNat) n), rest) := by
  induction digits generalizing n with
  | nil => exact readWidth_stop h
  | cons c digits ih =>
    have hnext : BitVec.ofNat 64 n * 10 + (c - ascii '0').setWidth 64
        = BitVec.ofNat 64 (n * 10 + (c - ascii '0').toNat) := by
      rw [BitVec.ofNat_add, BitVec.ofNat_mul, BitVec.ofNat_toNat]
      rfl
    rw [List.cons_append, readWidth, if_pos (hd c List.mem_cons_self), hnext, List.foldl_cons]
    exact ih (fun c hc => hd c (List.mem_cons_of_mem _ hc)) _

lemma skipIf_pos (c : Byte) (fmt : List Byte) : skipIf c (c :: fmt) = (true, fmt) := by
  simp [skipIf]

lemma skipIf_neg (h : fmt.head? ≠ some c) : skipIf c fmt = (false, fmt) := if_neg h

/-- The first byte behind the flags is a digit, or the one that the directive stops at. -/
lemma head_digits (h : (d.digits ++ rest).head? = some c) :
    c ∈ d.digits ∨ d.digits = [] ∧ rest.head? = some c := by
  cases hd : d.digits with
  | nil =>
    rw [hd, List.nil_append] at h
    exact .inr ⟨rfl, h⟩
  | cons x digits =>
    rw [hd, List.cons_append, List.head?_cons] at h
    rw [← Option.some.inj h]
    exact .inl List.mem_cons_self

/-- A directive is read back as it was written. -/
lemma readSpec_encode (h : ∀ c ∈ rest.head?, d.Stops c) :
    readSpec (d.encode ++ rest) = (d.spec, rest) := by
  have hstop : ∀ c ∈ rest.head?, ¬ IsDigit c := fun c hc => (h c hc).1
  have hminus : skipIf (ascii '-') (d.encode ++ rest)
      = (d.left, (if d.zero then [ascii '0'] else []) ++ (d.digits ++ rest)) := by
    rw [Directive.encode, List.append_assoc, List.append_assoc]
    cases hl : d.left with
    | true => exact skipIf_pos _ _
    | false =>
      apply skipIf_neg
      intro hhead
      cases hz : d.zero with
      | true =>
        rw [hz] at hhead
        exact absurd (Option.some.inj hhead) (by decide)
      | false =>
        rw [hz] at hhead
        rcases head_digits hhead with hmem | ⟨hnil, hrest⟩
        · exact not_isDigit_minus (d.isDigit _ hmem)
        · have hflag := (h _ hrest).2 rfl
          simp [hl, hz, hnil] at hflag
  have hzero : skipIf (ascii '0') ((if d.zero then [ascii '0'] else []) ++ (d.digits ++ rest))
      = (d.zero, d.digits ++ rest) := by
    cases hz : d.zero with
    | true => exact skipIf_pos _ _
    | false =>
      apply skipIf_neg
      intro hhead
      have hfirst := d.first hz
      cases hd : d.digits with
      | nil =>
        rw [hd] at hhead
        exact hstop _ hhead isDigit_zero
      | cons x digits =>
        rw [hd] at hhead hfirst
        exact hfirst hhead
  rw [readSpec, hminus]
  dsimp only
  rw [hzero]
  dsimp only
  rw [show (0 : Word) = BitVec.ofNat 64 0 from rfl, readWidth_digits d.isDigit hstop]
  rfl

/-- Nothing but the flag is skipped. -/
lemma skipIf_spec (c : Byte) (fmt : List Byte) :
    (if (skipIf c fmt).1 then [c] else []) ++ (skipIf c fmt).2 = fmt ∧
      ((skipIf c fmt).1 = false → (skipIf c fmt).2 = fmt ∧ fmt.head? ≠ some c) := by
  by_cases h : fmt.head? = some c
  · obtain ⟨rest, rfl⟩ := List.head?_eq_some_iff.mp h
    simp [skipIf]
  · simp [skipIf, h]

/-- Every text starts with some digits, maybe none. -/
lemma exists_digits (fmt : List Byte) : ∃ digits rest, digits ++ rest = fmt ∧
    (∀ c ∈ digits, IsDigit c) ∧ ∀ c ∈ rest.head?, ¬ IsDigit c := by
  refine ⟨fmt.takeWhile fun c => IsDigit c, fmt.dropWhile fun c => IsDigit c,
    List.takeWhile_append_dropWhile, fun c hc => ?_, fun c hc => ?_⟩
  · exact of_decide_eq_true (List.all_eq_true.mp List.all_takeWhile c hc)
  · have hnot := List.head?_dropWhile_not (fun c => decide (IsDigit c)) fmt
    rw [Option.mem_def.mp hc] at hnot
    exact of_decide_eq_false hnot

/-- Every string starts with a directive. -/
lemma exists_directive (fmt : List Byte) : ∃ (d : Directive) (rest : List Byte),
    d.encode ++ rest = fmt ∧ ∀ c ∈ rest.head?, d.Stops c := by
  obtain ⟨hleft, hminus⟩ := skipIf_spec (ascii '-') fmt
  obtain ⟨hzero, hfirst⟩ := skipIf_spec (ascii '0') (skipIf (ascii '-') fmt).2
  obtain ⟨digits, rest, hdigits, hd, hstop⟩ :=
    exists_digits (skipIf (ascii '0') (skipIf (ascii '-') fmt).2).2
  rw [← hdigits] at hzero hfirst
  refine ⟨⟨(skipIf (ascii '-') fmt).1, (skipIf (ascii '0') (skipIf (ascii '-') fmt).2).1, digits,
    hd, fun hz hhead => ?_⟩, rest, ?_, fun c hc => ⟨hstop c hc, ?_⟩⟩
  · obtain ⟨hsame, hne⟩ := hfirst hz
    apply hne
    rw [← hsame, List.head?_append, hhead, Option.some_or]
  · rw [Directive.encode, List.append_assoc, List.append_assoc]
    dsimp only
    rw [hzero, hleft]
  · -- a minus sign that comes first is the flag
    rintro rfl
    by_contra hbare
    simp only [not_or, Bool.not_eq_true, not_not] at hbare
    obtain ⟨hl, hz, hnil⟩ := hbare
    apply (hminus hl).2
    rw [← (hminus hl).1, ← (hfirst hz).1, hnil, List.nil_append]
    exact hc

/-! ## Writing a field -/

/-- How many characters are missing from the width -/
lemma toNat_fill {m n : ℕ} (hm : m < 2 ^ 63) (hn : n < 2 ^ 63) :
    (if (0 : Word).slt (BitVec.ofNat 64 m - BitVec.ofNat 64 n) then
      (BitVec.ofNat 64 m - BitVec.ofNat 64 n).toNat else 0) = m - n := by
  have hm' : (BitVec.ofNat 64 m).toNat = m := Nat.mod_eq_of_lt (by omega)
  have hn' : (BitVec.ofNat 64 n).toNat = n := Nat.mod_eq_of_lt (by omega)
  have hsub := BitVec.toNat_sub (BitVec.ofNat 64 m) (BitVec.ofNat 64 n)
  rw [hm', hn'] at hsub
  have hpos : (0 : Word).slt (BitVec.ofNat 64 m - BitVec.ofNat 64 n) = decide (n < m) := by
    rw [BitVec.slt, BitVec.toInt_eq_toNat_cond, BitVec.toInt_eq_toNat_cond, hsub]
    have h0 : (0 : Word).toNat = 0 := rfl
    rw [h0]
    apply decide_eq_decide.mpr
    split <;> split <;> omega
  rw [hpos]
  by_cases h : n < m
  · rw [decide_eq_true h, if_pos rfl, hsub]
    omega
  · rw [decide_eq_false h, if_neg Bool.false_ne_true]
    omega

/-- The text is written whole, in a field of the width asked for. -/
lemma padstr_field {text str : List Byte} (hstr : text <+: str) (ht : text.length < 2 ^ 63)
    (hd : d.width < 2 ^ 63) :
    padstr str (BitVec.ofNat 64 text.length) d.spec.width d.spec.leftadjust d.spec.padchar
      = d.field text := by
  have hfill := toNat_fill hd ht
  have hlen : (BitVec.ofNat 64 text.length).toInt.toNat = text.length := by
    rw [BitVec.toInt_eq_toNat_of_lt]
    · rw [BitVec.toNat_ofNat, Nat.mod_eq_of_lt (by omega), Int.toNat_natCast]
    · rw [BitVec.toNat_ofNat, Nat.mod_eq_of_lt (by omega)]
      omega
  have htake : str.take text.length = text := (List.prefix_iff_eq_take.mp hstr).symm
  unfold padstr Directive.field Directive.spec
  dsimp only
  rw [hlen, htake, ← hfill]
  cases (0 : Word).slt (BitVec.ofNat 64 d.width - BitVec.ofNat 64 text.length) with
  | false => cases d.left <;> simp
  | true => cases d.left <;> simp [pad]

/-- What `convert_radix` and `convert_decimal` leave in the buffer is shown in a field. -/
lemma showNumber_formats {r : Except Stop (Buffer × ℤ)} {text : List Byte} (h : Formats r text)
    (hd : d.width < 2 ^ 63) (args : List Word) :
    ∃ buffer, showNumber d.spec args r = (d.field text, .ok (args, buffer)) := by
  obtain ⟨buffer, idx, rfl, h0, hlt, rfl⟩ := h
  refine ⟨buffer, ?_⟩
  have hlen : (buffer.toList.drop idx.toNat).length = bufferLen - idx.toNat := by
    rw [List.length_drop, Vector.length_toList]
  have hrest : BitVec.ofInt 64 (bufferLen - idx)
      = BitVec.ofNat 64 (buffer.toList.drop idx.toNat).length := by
    rw [hlen, ← BitVec.ofInt_natCast]
    congr 1
    omega
  rw [showNumber, hrest, padstr_field (List.prefix_refl _) _ hd]
  rw [hlen]
  exact (Nat.sub_le _ _).trans_lt (by decide)

/-! ## Formats -/

/-- As much of the numeral as there is room for. -/
def shownNumeral (b m : ℕ) : List Byte := ((fitting b 20 m).map digitByte).reverse

/-- No negative number is shown. -/
def Conv.text (strings : Word → List Byte) : Conv → Word → Except Stop (List Byte)
  | .char, arg => .ok [arg.setWidth 8]
  | .signed, arg =>
    if arg.toInt < 0 then .error (.panic "convert_decimal: Bad index")
    else .ok (numeral 10 arg.toNat)
  | .unsigned, arg => .ok (numeral 10 arg.toNat)
  | .string, arg => .ok (strings arg)
  | .hex, arg => .ok (numeral 16 arg.toNat)
  | .binary, arg => .ok (shownNumeral 2 arg.toNat)
  | .octal, arg => .ok (shownNumeral 8 arg.toNat)

/-- A piece of a format: a plain character, `%%`, or a directive with a value -/
inductive Piece where
  | plain (c : Byte) (h : c ≠ ascii '%')
  | percent (d : Directive)
  | value (d : Directive) (conv : Conv) (letter : Byte) (h : letter ∈ conv.letters)

def Piece.encode : Piece → List Byte
  | .plain c _ => [c]
  | .percent d => ascii '%' :: (d.encode ++ [ascii '%'])
  | .value d _ letter _ => ascii '%' :: (d.encode ++ [letter])

/-- The letters that the switch knows -/
def IsLetter (c : Byte) : Prop := (∃ conv : Conv, c ∈ conv.letters) ∨ c = ascii '%'

/-- How a format ends: with a piece, inside a directive, or where it is no longer read. -/
inductive Ending where
  | done
  | cut (d : Directive)
  | bad (d : Directive) (letter : Byte) (rest : List Byte) (stops : d.Stops letter)
      (h : ¬ IsLetter letter)

def Ending.encode : Ending → List Byte
  | .done => []
  | .cut d => ascii '%' :: d.encode
  | .bad d letter rest _ _ => ascii '%' :: (d.encode ++ letter :: rest)

def encode (pieces : List Piece) (ending : Ending) : List Byte :=
  pieces.flatMap Piece.encode ++ ending.encode

/-- What the end of a format adds -/
def Ending.written : Ending → Written
  | .done => ⟨[], none⟩
  | .cut _ => ⟨[], none⟩
  | .bad .. => ⟨[ascii 'B'], some (.panic "kprintf: Bad format string")⟩

/-- What is written, piece by piece. -/
def render (strings : Word → List Byte) (ending : Ending) : List Piece → List Word → Written
  | [], _ => ending.written
  | .plain c _ :: pieces, args => (render strings ending pieces args).after [c]
  | .percent _ :: pieces, args => (render strings ending pieces args).after [ascii '%']
  | .value .. :: _, [] => ⟨[], some .fault⟩
  | .value d conv _ _ :: pieces, arg :: args =>
    match conv.text strings arg with
    | .error e => ⟨[], some e⟩
    | .ok text => (render strings ending pieces args).after (d.field text)

/-- No width is too large for 63 bits. -/
def Piece.Fits : Piece → Prop
  | .plain .. => True
  | .percent _ => True
  | .value d .. => d.width < 2 ^ 63

/-! ## Every string is a format -/

lemma encode_cons (piece : Piece) (pieces : List Piece) (ending : Ending) :
    encode (piece :: pieces) ending = piece.encode ++ encode pieces ending := by
  rw [encode, encode, List.flatMap_cons, List.append_assoc]

/-- By induction on the length: a directive takes away its `%` at least. -/
theorem exists_format (fmt : List Byte) : ∃ pieces ending, encode pieces ending = fmt := by
  induction hn : fmt.length using Nat.strongRecOn generalizing fmt with
  | _ n ih =>
    cases fmt with
    | nil => exact ⟨[], .done, rfl⟩
    | cons c fmt =>
      rw [List.length_cons] at hn
      by_cases hc : c = ascii '%'
      · obtain ⟨d, rest, hfmt, hstops⟩ := exists_directive fmt
        cases rest with
        | nil =>
          rw [List.append_nil] at hfmt
          exact ⟨[], .cut d, by rw [hc, ← hfmt]; rfl⟩
        | cons letter rest =>
          have hlen : rest.length < n := by
            have := congrArg List.length hfmt
            simp only [List.length_append, List.length_cons] at this
            omega
          obtain ⟨pieces, ending, hrest⟩ := ih _ hlen rest rfl
          by_cases hletter : IsLetter letter
          · rcases hletter with ⟨conv, hconv⟩ | hletter
            · refine ⟨.value d conv letter hconv :: pieces, ending, ?_⟩
              rw [encode_cons, hrest, Piece.encode, hc, ← hfmt]
              simp
            · refine ⟨.percent d :: pieces, ending, ?_⟩
              rw [encode_cons, hrest, Piece.encode, hc, ← hfmt, hletter]
              simp
          · exact ⟨[], .bad d letter rest (hstops letter rfl) hletter, by rw [hc, ← hfmt]; rfl⟩
      · obtain ⟨pieces, ending, hrest⟩ := ih _ (by omega) fmt rfl
        exact ⟨.plain c hc :: pieces, ending, by rw [encode_cons, hrest]; rfl⟩

/-! ## What is written -/

variable {strings : Word → List Byte} {args : List Word} {buffer : Buffer}

/-- The bytes up to the next `%`. -/
def plainPart (fmt : List Byte) : List Byte := fmt.takeWhile fun c => c ≠ ascii '%'

/-- The format from the next `%` on -/
def directivePart (fmt : List Byte) : List Byte := fmt.dropWhile fun c => c ≠ ascii '%'

section Equations

variable {x letter : Byte} {spec : Spec} {rest' : List Byte} {shown : List Byte}

/-- A format of plain characters -/
lemma kprintf_noDirective (h : directivePart fmt = []) :
    kprintf strings fmt args buffer = ⟨plainPart fmt, none⟩ := by
  rw [kprintf]
  split
  · rfl
  · rename_i h'
    cases h.symm.trans h'

lemma kprintf_nil : kprintf strings [] args buffer = ⟨[], none⟩ := kprintf_noDirective rfl

/-- A format that ends in a directive -/
lemma kprintf_cut (h : directivePart fmt = x :: rest) (hs : readSpec rest = (spec, [])) :
    kprintf strings fmt args buffer = ⟨plainPart fmt, none⟩ := by
  rw [kprintf]
  split
  · rfl
  · rename_i h'
    cases h.symm.trans h'
    split
    · rfl
    · rename_i hs'
      cases hs.symm.trans hs'

/-- A directive that stops the call -/
lemma kprintf_error {e : Stop} (h : directivePart fmt = x :: rest)
    (hs : readSpec rest = (spec, letter :: rest'))
    (hc : convert strings spec letter args buffer = (shown, .error e)) :
    kprintf strings fmt args buffer = ⟨plainPart fmt ++ shown, some e⟩ := by
  rw [kprintf]
  split
  · rename_i h'
    cases h.symm.trans h'
  · rename_i h'
    cases h.symm.trans h'
    split
    · rename_i hs'
      cases hs.symm.trans hs'
    · rename_i hs'
      cases hs.symm.trans hs'
      rw [hc]
      rfl

/-- A directive, and the rest of the format -/
lemma kprintf_ok {args' : List Word} {buffer' : Buffer} (h : directivePart fmt = x :: rest)
    (hs : readSpec rest = (spec, letter :: rest'))
    (hc : convert strings spec letter args buffer = (shown, .ok (args', buffer'))) :
    kprintf strings fmt args buffer
      = (kprintf strings rest' args' buffer').after (plainPart fmt ++ shown) := by
  rw [kprintf]
  split
  · rename_i h'
    cases h.symm.trans h'
  · rename_i h'
    cases h.symm.trans h'
    split
    · rename_i hs'
      cases hs.symm.trans hs'
    · rename_i hs'
      cases hs.symm.trans hs'
      rw [hc]
      rfl

end Equations

lemma plainPart_cons (fmt : List Byte) (hc : c ≠ ascii '%') :
    plainPart (c :: fmt) = c :: plainPart fmt :=
  List.takeWhile_cons_of_pos (decide_eq_true hc)

lemma directivePart_cons (fmt : List Byte) (hc : c ≠ ascii '%') :
    directivePart (c :: fmt) = directivePart fmt :=
  List.dropWhile_cons_of_pos (decide_eq_true hc)

/-- A plain character is written. -/
lemma kprintf_plain (hc : c ≠ ascii '%') : kprintf strings (c :: fmt) args buffer
    = (kprintf strings fmt args buffer).after [c] := by
  have hplain := plainPart_cons fmt hc
  have hdirective := directivePart_cons fmt hc
  cases h : directivePart fmt with
  | nil => rw [kprintf_noDirective h, kprintf_noDirective (hdirective.trans h), hplain]; rfl
  | cons x rest =>
    cases hs : readSpec rest with
    | mk spec rest' =>
      cases rest' with
      | nil => rw [kprintf_cut h hs, kprintf_cut (hdirective.trans h) hs, hplain]; rfl
      | cons letter rest' =>
        rcases hc : convert strings spec letter args buffer with ⟨shown, e | ⟨args', buffer'⟩⟩
        · rw [kprintf_error h hs hc, kprintf_error (hdirective.trans h) hs hc, hplain]
          rfl
        · rw [kprintf_ok h hs hc, kprintf_ok (hdirective.trans h) hs hc, hplain]
          rfl

/-! ## Directive by directive -/

/-- The letters of the conversions are all different. -/
lemma caseOf_of_mem {conv : Conv} (h : c ∈ conv.letters) : caseOf c = some conv := by
  have hall : ∀ c ∈ conv.letters, caseOf c = some conv := by cases conv <;> decide
  exact hall c h

lemma caseOf_eq_none (h : ¬ IsLetter c) : caseOf c = none := by
  rw [caseOf, List.find?_eq_none]
  intro conv _ hc
  exact h (.inl ⟨conv, of_decide_eq_true hc⟩)

lemma formats_radix {radix : Byte} (h2 : 2 ≤ radix) (h16 : radix ≤ 16) (buf : Buffer)
    (value : Word) :
    Formats (convertRadix buf radix value) (shownNumeral radix.toNat value.toNat) := by
  obtain ⟨buf', hcall, htext⟩ := convertRadix_eq h2 h16 buf value
  have hle := fitting_length_le (b := radix.toNat) 20 value.toNat
  have hpos : 0 < (fitting radix.toNat 20 value.toNat).length := by
    rw [fitting, List.length_take]
    have := digitsOf_length_pos (b := radix.toNat) (BitVec.le_def.mp h2) value.toNat
    omega
  refine ⟨buf', _, hcall, ?_, by omega, ?_⟩
  · simp only [bufferLen]
    omega
  · rw [shownNumeral, ← htext]
    congr 1
    omega

/-- A decimal or hexadecimal numeral is shown whole. -/
lemma shownNumeral_eq {b : ℕ} (hb : 10 ≤ b) (value : Word) :
    shownNumeral b value.toNat = numeral b value.toNat := by
  have hlt : value.toNat < b ^ 21 :=
    calc value.toNat < 2 ^ 64 := value.isLt
      _ ≤ 10 ^ 21 := by norm_num
      _ ≤ b ^ 21 := Nat.pow_le_pow_left hb 21
  rw [shownNumeral, numeral, fitting_eq (by omega) hlt]

variable {conv : Conv} {arg : Word}

/-- The argument is shown in its field, if it is shown. -/
lemma convert_value {text : List Byte} (args : List Word) (buffer : Buffer) (hd : d.width < 2 ^ 63)
    (hstr : (strings arg).length < 2 ^ 63) (htext : conv.text strings arg = .ok text) :
    ∃ buffer', conv.convert strings d.spec arg args buffer
      = (d.field text, .ok (args, buffer')) := by
  cases conv with
  | char =>
    cases htext
    have hstore : store buffer 0 (arg.setWidth 8) = .ok (buffer.set 0 (arg.setWidth 8)) :=
      store_eq (n := 0) (by decide) buffer _
    have hset := drop_set (n := 0) (by decide) buffer (arg.setWidth 8)
    rw [List.drop_zero] at hset
    have hfirst : [arg.setWidth 8] <+: (buffer.set 0 (arg.setWidth 8)).toList := by
      rw [hset]
      exact ⟨_, rfl⟩
    have hone : (1 : Word) = BitVec.ofNat 64 [BitVec.setWidth 8 arg].length := rfl
    rw [Conv.convert, hstore]
    dsimp only
    rw [hone, padstr_field hfirst (by rw [List.length_singleton]; norm_num) hd]
    exact ⟨_, rfl⟩
  | signed =>
    have hsign : arg.slt 0 = decide (arg.toInt < 0) :=
      BitVec.slt_zero_eq_msb.trans BitVec.msb_eq_toInt
    rw [Conv.text] at htext
    split at htext
    · cases htext
    · rename_i hneg
      cases htext
      rw [decide_eq_false hneg] at hsign
      exact showNumber_formats (convertDecimal_nonneg buffer hsign) hd args
  | unsigned =>
    cases htext
    rw [← shownNumeral_eq le_rfl]
    exact showNumber_formats (formats_radix (by decide) (by decide) buffer arg) hd args
  | string =>
    cases htext
    rw [Conv.convert, padstr_field (List.prefix_refl _) hstr hd]
    exact ⟨buffer, rfl⟩
  | hex =>
    cases htext
    rw [← shownNumeral_eq (by decide)]
    exact showNumber_formats (formats_radix (by decide) (by decide) buffer arg) hd args
  | binary =>
    cases htext
    exact showNumber_formats (formats_radix (by decide) (by decide) buffer arg) hd args
  | octal =>
    cases htext
    exact showNumber_formats (formats_radix (by decide) (by decide) buffer arg) hd args

/-- Nothing is shown of an argument that stops the kernel. -/
lemma convert_stops {e : Stop} {spec : Spec} (htext : conv.text strings arg = .error e) :
    conv.convert strings spec arg args buffer = ([], .error e) := by
  cases conv with
  | signed =>
    rw [Conv.text] at htext
    split at htext
    · rename_i hneg
      cases htext
      have hsign : arg.slt 0 = true :=
        (BitVec.slt_zero_eq_msb.trans BitVec.msb_eq_toInt).trans (decide_eq_true hneg)
      rw [Conv.convert, convertDecimal_neg buffer hsign, showNumber]
    · cases htext
  | char => cases htext
  | unsigned => cases htext
  | string => cases htext
  | hex => cases htext
  | binary => cases htext
  | octal => cases htext

/-- The directive is next. -/
lemma directive_starts : directivePart (ascii '%' :: fmt) = ascii '%' :: fmt ∧
    plainPart (ascii '%' :: fmt) = [] := by
  constructor
  · exact List.dropWhile_cons_of_neg (by decide)
  · exact List.takeWhile_cons_of_neg (by decide)

/-- What follows a letter is no longer part of the directive. -/
lemma stops_of_isLetter (h : IsLetter c) : d.Stops c := by
  have hall : (∀ conv : Conv, ∀ c ∈ conv.letters, ¬ IsDigit c ∧ c ≠ ascii '-') ∧
      ¬ IsDigit (ascii '%') ∧ ascii '%' ≠ ascii '-' :=
    ⟨fun conv => by cases conv <;> decide, by decide, by decide⟩
  have hc : ¬ IsDigit c ∧ c ≠ ascii '-' := by
    rcases h with ⟨conv, hconv⟩ | rfl
    · exact hall.1 conv c hconv
    · exact hall.2
  exact ⟨hc.1, fun he => absurd he hc.2⟩

/-- Reading a directive gives its flags and width. -/
lemma readSpec_letter (rest : List Byte) (h : d.Stops c) :
    readSpec (d.encode ++ c :: rest) = (d.spec, c :: rest) := by
  apply readSpec_encode
  intro x hx
  rw [← Option.some.inj hx]
  exact h

/-- The steps of the induction below. -/
lemma kprintf_percent (d : Directive) (rest : List Byte) (args : List Word) (buffer : Buffer) :
    kprintf strings ((Piece.percent d).encode ++ rest) args buffer
      = (kprintf strings rest args buffer).after [ascii '%'] := by
  have hspec := readSpec_letter rest (stops_of_isLetter (d := d) (.inr rfl))
  have hnone : caseOf (ascii '%') = none := by decide
  have hconvert : convert strings d.spec (ascii '%') args buffer
      = ([ascii '%'], .ok (args, buffer)) := by
    rw [convert, hnone]
    rfl
  have hencode : (Piece.percent d).encode ++ rest
      = ascii '%' :: (d.encode ++ ascii '%' :: rest) := by
    rw [Piece.encode, List.cons_append, List.append_assoc, List.singleton_append]
  rw [hencode, kprintf_ok directive_starts.1 hspec hconvert, directive_starts.2]
  rfl

/-- A letter that is none -/
lemma kprintf_bad {letter : Byte} (hstops : d.Stops letter) (h : ¬ IsLetter letter) :
    kprintf strings (ascii '%' :: (d.encode ++ letter :: rest)) args buffer
      = ⟨[ascii 'B'], some (.panic "kprintf: Bad format string")⟩ := by
  have hconvert : convert strings d.spec letter args buffer
      = ([ascii 'B'], .error (.panic "kprintf: Bad format string")) := by
    rw [convert, caseOf_eq_none h]
    exact if_neg fun he => h (.inr he)
  rw [kprintf_error directive_starts.1 (readSpec_letter _ hstops) hconvert, directive_starts.2]
  rfl

section Value

variable {letter : Byte} (hletter : letter ∈ conv.letters)
include hletter

lemma encode_value (rest : List Byte) : (Piece.value d conv letter hletter).encode ++ rest
    = ascii '%' :: (d.encode ++ letter :: rest) := by
  rw [Piece.encode, List.cons_append, List.append_assoc, List.singleton_append]

/-- The next argument is used. -/
lemma convert_cons (spec : Spec) : convert strings spec letter (arg :: args) buffer
    = conv.convert strings spec arg args buffer := by
  rw [convert, caseOf_of_mem hletter]

/-- A directive writes the text of its argument, padded. -/
lemma kprintf_value {text : List Byte} (rest : List Byte) (args : List Word) (buffer : Buffer)
    (hd : d.width < 2 ^ 63)
    (hstr : (strings arg).length < 2 ^ 63) (htext : conv.text strings arg = .ok text) :
    ∃ buffer', kprintf strings (ascii '%' :: (d.encode ++ letter :: rest)) (arg :: args) buffer
      = (kprintf strings rest args buffer').after (d.field text) := by
  obtain ⟨buffer', hconvert⟩ := convert_value args buffer hd hstr htext
  rw [← convert_cons hletter] at hconvert
  have hspec := readSpec_letter rest (stops_of_isLetter (d := d) (.inl ⟨conv, hletter⟩))
  refine ⟨buffer', ?_⟩
  rw [kprintf_ok directive_starts.1 hspec hconvert, directive_starts.2]
  rfl

/-- An argument that has no text -/
lemma kprintf_value_stops {e : Stop} (htext : conv.text strings arg = .error e) :
    kprintf strings (ascii '%' :: (d.encode ++ letter :: rest)) (arg :: args) buffer
      = ⟨[], some e⟩ := by
  have hconvert : convert strings d.spec letter (arg :: args) buffer = ([], .error e) := by
    rw [convert_cons hletter, convert_stops htext]
  have hspec := readSpec_letter rest (stops_of_isLetter (d := d) (.inl ⟨conv, hletter⟩))
  rw [kprintf_error directive_starts.1 hspec hconvert, directive_starts.2]
  rfl

/-- No argument is left. -/
lemma kprintf_value_missing :
    kprintf strings (ascii '%' :: (d.encode ++ letter :: rest)) [] buffer
      = ⟨[], some .fault⟩ := by
  have hconvert : convert strings d.spec letter [] buffer = ([], .error .fault) := by
    rw [convert, caseOf_of_mem hletter]
  have hspec := readSpec_letter rest (stops_of_isLetter (d := d) (.inl ⟨conv, hletter⟩))
  rw [kprintf_error directive_starts.1 hspec hconvert, directive_starts.2]
  rfl

end Value

/-- What `kprintf` writes is what its format says, whatever the buffer holds at first. -/
theorem kprintf_render (hstr : ∀ a, (strings a).length < 2 ^ 63) (pieces : List Piece)
    (ending : Ending) (hfit : ∀ piece ∈ pieces, piece.Fits) (args : List Word) (buffer : Buffer) :
    kprintf strings (encode pieces ending) args buffer = render strings ending pieces args := by
  induction pieces generalizing args buffer with
  | nil =>
    cases ending with
    | done => exact kprintf_nil
    | cut d =>
      have hspec : readSpec d.encode = (d.spec, []) := by
        have hread : readSpec (d.encode ++ []) = (d.spec, []) :=
          readSpec_encode fun c hc => by cases hc
        rwa [List.append_nil] at hread
      show kprintf strings (ascii '%' :: d.encode) args buffer = _
      rw [kprintf_cut directive_starts.1 hspec, directive_starts.2]
      rfl
    | bad d letter rest stops h => exact kprintf_bad stops h
  | cons piece pieces ih =>
    have ih := ih fun piece hp => hfit piece (List.mem_cons_of_mem _ hp)
    have hpiece := hfit piece List.mem_cons_self
    rw [encode_cons]
    cases piece with
    | plain c h =>
      show kprintf strings (c :: encode pieces ending) args buffer = _
      rw [kprintf_plain h, ih, render]
    | percent d => rw [kprintf_percent, ih, render]
    | value d conv letter h =>
      rw [encode_value]
      cases args with
      | nil => rw [kprintf_value_missing h, render]
      | cons arg args =>
        rw [render]
        cases htext : conv.text strings arg with
        | error e => rw [kprintf_value_stops h htext]
        | ok text =>
          obtain ⟨buffer', hrun⟩ := kprintf_value h (encode pieces ending) args buffer hpiece
            (hstr arg) htext
          rw [hrun, ih]

/-- Every string is a format in this sense, and what it makes `kprintf` write is known. -/
theorem kprintf_formats (hstr : ∀ a, (strings a).length < 2 ^ 63) :
    (∀ fmt, ∃ pieces ending, encode pieces ending = fmt) ∧
      ∀ pieces ending, (∀ piece ∈ pieces, piece.Fits) → ∀ args buffer,
        kprintf strings (encode pieces ending) args buffer = render strings ending pieces args :=
  ⟨exists_format, fun pieces ending hfit args buffer =>
    kprintf_render hstr pieces ending hfit args buffer⟩

/-- `%05x` -/
def fiveZeroes : Directive :=
  ⟨false, true, [ascii '5'], fun c hc => by rw [List.mem_singleton.mp hc]; decide, fun h => by
    cases h⟩

theorem kprintf_formats_hex : kprintf (fun _ => []) [ascii '%', ascii '0', ascii '5', ascii 'x']
      [255] (Vector.replicate bufferLen 0)
    = ⟨[ascii '0', ascii '0', ascii '0', ascii 'F', ascii 'F'], none⟩ := by
  have hnum : numeral 16 255 = [ascii 'F', ascii 'F'] := by
    simp [numeral, digitsOf, digitByte, ascii]
  have hstr : ∀ a : Word, ((fun _ => [] : Word → List Byte) a).length < 2 ^ 63 :=
    fun _ => Nat.two_pow_pos 63
  have h := (kprintf_formats hstr).2
    [.value fiveZeroes .hex (ascii 'x') (by decide)] .done
    (fun piece hp => by rw [List.mem_singleton.mp hp]; show 5 < 2 ^ 63; norm_num) [255]
    (Vector.replicate bufferLen 0)
  have hrender : render (fun _ => []) .done [.value fiveZeroes .hex (ascii 'x') (by decide)] [255]
      = Written.after (fiveZeroes.field (numeral 16 255)) ⟨[], none⟩ := rfl
  rw [hrender, hnum] at h
  exact h

end Bikeshed.Console
