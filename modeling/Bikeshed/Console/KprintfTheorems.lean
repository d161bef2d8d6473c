import Bikeshed.Console.Kprintf
import Bikeshed.Lib.Digits

/-!
# The numbers that `kprintf` shows
-/

namespace Bikeshed.Console

open Lib

/-- The character of a digit. -/
def digitByte (d : ℕ) : Byte :=
  if d < 10 then BitVec.ofNat 8 (0x30 + d) else BitVec.ofNat 8 (0x41 + (d - 10))

/-- The numeral of a number, its most significant digit first. -/
def numeral (b m : ℕ) : List Byte := ((digitsOf b m).map digitByte).reverse

/-- A decimal numeral, with a minus sign if it needs one -/
def signedNumeral (value : ℤ) : List Byte :=
  if value < 0 then 0x2D :: numeral 10 value.natAbs else numeral 10 value.natAbs

/-- The call returns an index into the buffer, and from there on the buffer holds the text. -/
def Formats (r : Except Stop (Buffer × ℤ)) (text : List Byte) : Prop :=
  ∃ buf index, r = .ok (buf, index) ∧ 0 ≤ index ∧ index < bufferLen ∧
    buf.toList.drop index.toNat = text

/-! ## The loop -/

variable {b : ℕ}

section
variable {digit : Word → Except Stop Byte} {rest : Word → Word} {P : Word → Prop}
  {v : Word → ℕ} {c : ℕ → Byte}

/-- On the words that meet `P` the loop takes the numbers `v` apart in base `b`. -/
structure Divides (digit : Word → Except Stop Byte) (rest : Word → Word) (b : ℕ)
    (P : Word → Prop) (v : Word → ℕ) (c : ℕ → Byte) : Prop where
  base : 1 < b
  digit_eq : ∀ x, P x → digit x = .ok (c (v x % b))
  rest_meets : ∀ x, P x → P (rest x)
  rest_eq : ∀ x, P x → v (rest x) = v x / b
  rest_zero : ∀ x, P x → (rest x = 0 ↔ v (rest x) = 0)

/-- The digits for which there is room from index `n` down. -/
def fitting (b n m : ℕ) : List ℕ := (digitsOf b m).take (n + 1)

/-- The last digit, or the last that there is room for -/
lemma fitting_of_last (hb : 1 < b) {n m : ℕ} (h : n = 0 ∨ m / b = 0) :
    fitting b n m = [m % b] := by
  rw [fitting, digitsOf_eq hb, List.take_succ_cons]
  rcases h with rfl | h
  · rw [List.take_zero]
  · rw [if_pos h, List.take_nil]

/-- One digit and those of the quotient -/
lemma fitting_succ (hb : 1 < b) {n m : ℕ} (h : m / b ≠ 0) :
    fitting b (n + 1) m = m % b :: fitting b n (m / b) := by
  rw [fitting, digitsOf_eq hb, List.take_succ_cons, if_neg h, fitting]

lemma fitting_length_le (n m : ℕ) : (fitting b n m).length ≤ n + 1 := List.length_take_le _ _

/-- A store inside the buffer -/
lemma store_eq {n : ℕ} (hn : n < bufferLen) (buf : Buffer) (x : Byte) :
    store buf n x = .ok (buf.set n x hn) := by
  have hin : 0 ≤ (n : ℤ) ∧ (n : ℤ) < bufferLen := ⟨by omega, by omega⟩
  rw [store, dif_pos hin]
  rfl

lemma drop_set {n : ℕ} (hn : n < bufferLen) (buf : Buffer) (x : Byte) :
    (buf.set n x hn).toList.drop n = x :: buf.toList.drop (n + 1) := by
  have hlen : n < (buf.toList.set n x).length := by
    rw [List.length_set, Vector.length_toList]
    exact hn
  rw [Vector.toList_set, List.drop_eq_getElem_cons hlen, List.getElem_set_self,
    List.drop_set_of_lt (Nat.lt_succ_self n)]

/-- One digit for each round, until there are no more or the buffer is full. -/
theorem digitLoop_eq (h : Divides digit rest b P v c) {n : ℕ} (hn : n < bufferLen) (buf : Buffer)
    (x : Word) (hx : P x) :
    ∃ buf', digitLoop digit rest buf n x = .ok (buf', n - (fitting b n (v x)).length) ∧
      buf'.toList.drop (n + 1 - (fitting b n (v x)).length)
        = ((fitting b n (v x)).map c).reverse ++ buf.toList.drop (n + 1) := by
  induction n generalizing buf x with
  | zero =>
    have hstop : ¬(0 ≤ ((0 : ℕ) : ℤ) - 1 ∧ rest x ≠ 0) := fun hgo => absurd hgo.1 (by omega)
    rw [digitLoop, h.digit_eq x hx]
    simp only [store_eq hn, if_neg hstop, fitting_of_last h.base (.inl rfl)]
    exact ⟨_, rfl, drop_set hn buf _⟩
  | succ n ih =>
    rw [digitLoop, h.digit_eq x hx]
    simp only [store_eq hn]
    by_cases h0 : v x / b = 0
    · have hzero : rest x = 0 := (h.rest_zero x hx).mpr ((h.rest_eq x hx).trans h0)
      rw [if_neg fun hgo => hgo.2 hzero, fitting_of_last h.base (.inr h0)]
      exact ⟨_, rfl, drop_set hn buf _⟩
    · have hgo : 0 ≤ ((n + 1 : ℕ) : ℤ) - 1 ∧ rest x ≠ 0 :=
        ⟨by omega, fun hz => h0 ((h.rest_eq x hx).symm.trans ((h.rest_zero x hx).mp hz))⟩
      have hindex : ((n + 1 : ℕ) : ℤ) - 1 = n := by omega
      obtain ⟨buf', hloop, htext⟩ := ih (by omega) (buf.set (n + 1) (c (v x % b)) hn) (rest x)
        (h.rest_meets x hx)
      rw [if_pos hgo, hindex, hloop, h.rest_eq x hx, fitting_succ h.base h0, List.length_cons]
      rw [h.rest_eq x hx, drop_set hn] at htext
      refine ⟨buf', by congr 2; omega, ?_⟩
      rw [Nat.add_sub_add_right, htext, List.map_cons, List.reverse_cons, List.append_assoc]
      rfl

end

/-- There is room for the whole numeral. -/
lemma fitting_eq (hb : 1 < b) {n m : ℕ} (hm : m < b ^ (n + 1)) : fitting b n m = digitsOf b m :=
  (take_digitsOf_eq_iff hb n.succ_pos).mpr hm

/-! ## Unsigned numbers -/

variable {radix : Byte}

lemma hexdigits_getElem? : ∀ d < 16, hexdigits[d]? = some (digitByte d) := by decide +kernel

lemma toNat_setWidth (radix : Byte) : (radix.setWidth 64).toNat = radix.toNat :=
  BitVec.toNat_setWidth_of_le (by decide)

/-- What the loop of `convert_radix` divides by -/
lemma divides_radix (h2 : 2 ≤ radix) (h16 : radix ≤ 16) :
    Divides (fun value => hexdigit (value % radix.setWidth 64))
      (fun value => value / radix.setWidth 64) radix.toNat (fun _ => True) BitVec.toNat
      digitByte where
  base := BitVec.le_def.mp h2
  digit_eq := by
    intro x _
    have hbase : 2 ≤ radix.toNat := BitVec.le_def.mp h2
    have hlt : x.toNat % radix.toNat < 16 :=
      (Nat.mod_lt _ (by omega)).trans_le (BitVec.le_def.mp h16)
    rw [hexdigit, BitVec.toNat_umod, toNat_setWidth, hexdigits_getElem? _ hlt]
  rest_meets := fun _ _ => trivial
  rest_eq := by
    intro x _
    rw [BitVec.toNat_udiv, toNat_setWidth]
  rest_zero := by
    intro x _
    rw [← BitVec.toNat_inj]
    rfl

/-- What `convert_radix` returns and shows, whether the numeral fits or not. -/
lemma convertRadix_eq (h2 : 2 ≤ radix) (h16 : radix ≤ 16) (buf : Buffer) (value : Word) :
    ∃ buf', convertRadix buf radix value
        = .ok (buf', bufferLen - (fitting radix.toNat 20 value.toNat).length) ∧
      buf'.toList.drop (bufferLen - (fitting radix.toNat 20 value.toNat).length)
        = ((fitting radix.toNat 20 value.toNat).map digitByte).reverse := by
  have h0 : radix ≠ 0 := by rintro rfl; exact absurd h2 (by decide)
  obtain ⟨buf', hloop, htext⟩ :=
    digitLoop_eq (divides_radix h2 h16) (n := 20) (by decide) buf value trivial
  have hlast : (bufferLen : ℤ) - 1 = (20 : ℕ) := rfl
  have hend : buf.toList.drop (20 + 1) = [] := List.drop_eq_nil_of_le Vector.length_toList.le
  rw [hend, List.append_nil] at htext
  refine ⟨buf', ?_, htext⟩
  rw [convertRadix, if_neg (not_not.mpr h16), if_neg h0, hlast, hloop]
  simp only [Except.ok.injEq, Prod.mk.injEq, true_and]
  rw [← hlast]
  ring

/-- The numeral is shown exactly when its digits fit into the buffer: in base 10 and base 16 those
of every word do, in base 2 and base 8 only the last 21 digits are shown. -/
theorem convertRadix_formats_iff (h2 : 2 ≤ radix) (h16 : radix ≤ 16) (buf : Buffer)
    (value : Word) :
    Formats (convertRadix buf radix value) (numeral radix.toNat value.toNat)
      ↔ value.toNat < radix.toNat ^ bufferLen := by
  have hb : 1 < radix.toNat := BitVec.le_def.mp h2
  have hpos : 0 < (fitting radix.toNat 20 value.toNat).length := by
    rw [fitting, List.length_take]
    have := digitsOf_length_pos hb value.toNat
    omega
  have hle := fitting_length_le (b := radix.toNat) 20 value.toNat
  obtain ⟨buf', hcall, htext⟩ := convertRadix_eq h2 h16 buf value
  have hindex : ((bufferLen : ℤ) - (fitting radix.toNat 20 value.toNat).length).toNat
      = bufferLen - (fitting radix.toNat 20 value.toNat).length := by omega
  rw [← take_digitsOf_eq_iff hb (by decide : 0 < bufferLen)]
  constructor
  · rintro ⟨buf1, index, hcall1, -, -, htext1⟩
    rw [hcall] at hcall1
    obtain ⟨rfl, rfl⟩ := Prod.mk.inj (Except.ok.inj hcall1)
    rw [hindex, htext, numeral, List.reverse_inj] at htext1
    have hlen := congrArg List.length htext1
    rw [List.length_map, List.length_map, fitting, List.length_take] at hlen
    rw [List.take_eq_self_iff]
    exact min_eq_right_iff.mp hlen
  · intro hall
    refine ⟨buf', _, hcall, ?_, ?_, ?_⟩
    · simp only [bufferLen]; omega
    · omega
    · rw [hindex, htext, fitting, numeral]
      exact congrArg (fun l => (l.map digitByte).reverse) hall

theorem convertRadix_formats_ff : Formats (convertRadix (Vector.replicate bufferLen 0) 16 255)
    [0x46, 0x46] := by
  have hnum : numeral 16 255 = [0x46, 0x46] := by simp [numeral, digitsOf, digitByte]
  have h := (convertRadix_formats_iff (show 2 ≤ (16 : Byte) by decide) (by decide)
    (Vector.replicate bufferLen 0) 255).mpr (by decide)
  exact hnum ▸ h

/-- `2 ^ 21` in base 2 is shown as 21 zeros. -/
theorem not_formats_binary :
    ¬Formats (convertRadix (Vector.replicate bufferLen 0) 2 0x200000) (numeral 2 0x200000) := by
  rintro ⟨buf, index, hcall, -, -, htext⟩
  obtain ⟨buf', hcall', htext'⟩ := convertRadix_eq (show 2 ≤ (2 : Byte) by decide) (by decide)
    (Vector.replicate bufferLen 0) 0x200000
  rw [hcall'] at hcall
  obtain ⟨rfl, rfl⟩ := Prod.mk.inj (Except.ok.inj hcall)
  have hshort : buf'.toList.length < (numeral 2 0x200000).length := by
    rw [Vector.length_toList]
    simp [numeral, digitsOf, bufferLen]
  have hlen := congrArg List.length htext
  rw [List.length_drop] at hlen
  omega

/-! ## Signed numbers -/

/-- The last character that the loop of `convert_decimal` puts for a value. -/
def lastByte (value : Word) : Byte := (value.srem 10 + 0x30).setWidth 8

lemma lastByte_of_lt : ∀ d < 10, ((BitVec.ofNat 64 d : Word) + 0x30).setWidth 8 = digitByte d := by
  decide +kernel

/-- Signed division is unsigned division for these numbers. -/
lemma sdiv_ten_nonneg {x : Word} (hx : x.msb = false) : x.sdiv 10 = x / 10 := by
  rw [BitVec.sdiv_eq, hx]
  rfl

/-- And on the absolute value for those -/
lemma sdiv_ten_neg {x : Word} (hx : x.msb = true) : x.sdiv 10 = -(-x / 10) := by
  rw [BitVec.sdiv_eq, hx]
  rfl

lemma umod_ten (x : Word) : x % 10 = BitVec.ofNat 64 (x.toNat % 10) := by
  apply BitVec.eq_of_toNat_eq
  rw [BitVec.toNat_umod, BitVec.toNat_ofNat]
  exact (Nat.mod_eq_of_lt ((Nat.mod_lt _ (by decide : 0 < 10)).trans (by decide))).symm

lemma srem_ten_nonneg {x : Word} (hx : x.msb = false) :
    x.srem 10 = BitVec.ofNat 64 (x.toNat % 10) := by
  rw [BitVec.srem_eq, hx]
  exact umod_ten x

/-- The remainder has the sign of the number. -/
lemma srem_ten_neg {x : Word} (hx : x.msb = true) :
    x.srem 10 = -BitVec.ofNat 64 ((-x).toNat % 10) := by
  rw [BitVec.srem_eq, hx]
  exact congrArg Neg.neg (umod_ten (-x))

/-- What the loop of `convert_decimal` divides by, as long as the number is not negative -/
lemma divides_nonneg :
    Divides (fun value => .ok (lastByte value)) (fun value => value.sdiv 10) 10
      (fun value => value.msb = false) BitVec.toNat digitByte where
  base := by decide
  digit_eq := by
    intro x hx
    rw [lastByte, srem_ten_nonneg hx, lastByte_of_lt _ (Nat.mod_lt _ (by decide))]
  rest_meets := by
    intro x hx
    rw [sdiv_ten_nonneg hx]
    rw [BitVec.msb_eq_false_iff_two_mul_lt] at hx ⊢
    rw [BitVec.toNat_udiv]
    exact lt_of_le_of_lt (Nat.mul_le_mul_left 2 (Nat.div_le_self _ _)) hx
  rest_eq := by
    intro x hx
    rw [sdiv_ten_nonneg hx, BitVec.toNat_udiv]
    rfl
  rest_zero := by
    intro x _
    rw [← BitVec.toNat_inj]
    rfl

/-- The most negative value stays negative, and so do its quotients until they are 0. -/
lemma divides_nonpos :
    Divides (fun value => .ok (lastByte value)) (fun value => value.sdiv 10) 10
      (fun value => value = 0 ∨ value.msb = true) (fun value => (-value).toNat)
      (fun d => (-(BitVec.ofNat 64 d : Word) + 0x30).setWidth 8) where
  base := by decide
  digit_eq := by
    rintro x (rfl | hx)
    · rfl
    · rw [lastByte, srem_ten_neg hx]
  rest_meets := by
    rintro x (rfl | hx)
    · exact .inl rfl
    · rw [sdiv_ten_neg hx]
      by_cases h0 : -x / 10 = 0
      · exact .inl (by rw [h0]; rfl)
      -- the magnitude is at most 2 ^ 63, so its quotient has the sign bit clear
      have hlt : (-x / 10).toNat < 2 ^ 63 := by
        rw [BitVec.toNat_udiv]
        exact Nat.div_lt_of_lt_mul (lt_of_lt_of_le (-x).isLt (by decide))
      have hmsb : (-x / 10).msb = false := by
        rw [BitVec.msb_eq_false_iff_two_mul_lt]
        omega
      have hmin : -x / 10 ≠ BitVec.intMin 64 := fun he => by
        rw [he] at hmsb
        exact absurd hmsb (by decide)
      exact .inr (by rw [BitVec.msb_neg_of_ne_intMin_of_ne_zero hmin h0, hmsb]; rfl)
  rest_eq := by
    rintro x (rfl | hx)
    · rfl
    · rw [sdiv_ten_neg hx, neg_neg, BitVec.toNat_udiv]
      rfl
  rest_zero := by
    intro x _
    have hneg : (-(x.sdiv 10)).toNat = 0 ↔ -(x.sdiv 10) = 0 := by
      rw [← BitVec.toNat_inj]
      rfl
    rw [hneg, neg_eq_zero]

/-- The loop of `convert_decimal` has room for all digits of a word, and for one character more. -/
lemma decimalLoop_eq {P : Word → Prop} {v : Word → ℕ} {c : ℕ → Byte}
    (h : Divides (fun value => .ok (lastByte value)) (fun value => value.sdiv 10) 10 P v c)
    (buf : Buffer) {x : Word} (hx : P x) (hv : v x < 2 ^ 64) :
    (digitsOf 10 (v x)).length ≤ 20 ∧
    ∃ buf', digitLoop (fun value => .ok (lastByte value)) (fun value => value.sdiv 10) buf
        (bufferLen - 1) x = .ok (buf', 20 - (digitsOf 10 (v x)).length) ∧
      buf'.toList.drop (bufferLen - (digitsOf 10 (v x)).length)
        = ((digitsOf 10 (v x)).map c).reverse := by
  have hlen : (digitsOf 10 (v x)).length ≤ 20 :=
    (digitsOf_length_le_iff h.base (by decide)).mpr (hv.trans (by norm_num))
  have hfit : fitting 10 20 (v x) = digitsOf 10 (v x) :=
    fitting_eq h.base (hv.trans (by norm_num))
  have hend : buf.toList.drop (20 + 1) = [] := List.drop_eq_nil_of_le Vector.length_toList.le
  obtain ⟨buf', hloop, htext⟩ := digitLoop_eq h (n := 20) (by decide) buf x hx
  rw [hfit, hend, List.append_nil] at htext
  rw [hfit] at hloop
  exact ⟨hlen, buf', hloop, htext⟩

/-- There is always room for the sign, and it is then that the function panics. -/
theorem convertDecimal_neg (buf : Buffer) {value : Word} (hneg : value.slt 0 = true) :
    convertDecimal buf value = .error (.panic "convert_decimal: Bad index") := by
  have hloop : ∃ buf' k, k ≤ 20 ∧ digitLoop (fun value => .ok (lastByte value))
      (fun value => value.sdiv 10) buf (bufferLen - 1) (-value) = .ok (buf', 20 - (k : ℕ)) := by
    rcases hmsb : (-value).msb
    · obtain ⟨hlen, buf', hloop, -⟩ := decimalLoop_eq divides_nonneg buf hmsb (-value).isLt
      exact ⟨buf', _, hlen, hloop⟩
    · obtain ⟨hlen, buf', hloop, -⟩ :=
        decimalLoop_eq divides_nonpos buf (.inr hmsb) (-(-value)).isLt
      exact ⟨buf', _, hlen, hloop⟩
  obtain ⟨buf', k, hk, hloop⟩ := hloop
  have hroom : (0 : ℤ) ≤ 20 - k := by omega
  unfold lastByte at hloop
  unfold convertDecimal
  simp only [hneg, if_true, hloop, if_pos hroom]

/-- Numbers that are not negative -/
lemma convertDecimal_nonneg (buf : Buffer) {value : Word} (hneg : value.slt 0 = false) :
    Formats (convertDecimal buf value) (numeral 10 value.toNat) := by
  have hmsb : value.msb = false := BitVec.slt_zero_eq_msb.symm.trans hneg
  obtain ⟨hlen, buf', hloop, htext⟩ := decimalLoop_eq divides_nonneg buf hmsb value.isLt
  have hpos := digitsOf_length_pos (b := 10) (by decide) value.toNat
  have hindex : ((20 : ℤ) - (digitsOf 10 value.toNat).length + 1).toNat
      = bufferLen - (digitsOf 10 value.toNat).length := by
    simp only [bufferLen]
    omega
  unfold lastByte at hloop
  unfold convertDecimal
  simp only [hneg, Bool.false_eq_true, if_false, hloop]
  refine ⟨buf', _, rfl, by omega, ?_, ?_⟩
  · simp only [bufferLen]
    omega
  · rw [hindex, htext, numeral]

/-- No negative number is shown: `convert_decimal` panics. -/
theorem convertDecimal_formats_iff (buf : Buffer) (value : Word) :
    Formats (convertDecimal buf value) (signedNumeral value.toInt) ↔ 0 ≤ value.toInt := by
  have hsign : value.slt 0 = decide (value.toInt < 0) :=
    BitVec.slt_zero_eq_msb.trans BitVec.msb_eq_toInt
  by_cases hneg : value.toInt < 0
  · rw [decide_eq_true hneg] at hsign
    refine iff_of_false ?_ (by omega)
    rintro ⟨buf1, index, hcall, -⟩
    rw [convertDecimal_neg buf hsign] at hcall
    cases hcall
  · rw [decide_eq_false hneg] at hsign
    refine iff_of_true ?_ (by omega)
    have habs : value.toInt.natAbs = value.toNat := by
      rw [BitVec.toInt_eq_toNat_of_msb (BitVec.slt_zero_eq_msb.symm.trans hsign)]
      rfl
    rw [signedNumeral, if_neg hneg, habs]
    exact convertDecimal_nonneg buf hsign

theorem not_formats_minusOne : ¬Formats (convertDecimal (Vector.replicate bufferLen 0) (-1))
    (signedNumeral (-1)) := by
  rintro ⟨buf, index, hcall, -⟩
  rw [convertDecimal_neg _ (by decide)] at hcall
  cases hcall

end Bikeshed.Console
