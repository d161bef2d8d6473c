import Bikeshed.Lib.Canvas
import Bikeshed.Lib.Word

/-!
# The text screen of the user programs

`vga.c` of `init`. A write to the video memory past its last cell ends the call.
-/

namespace Bikeshed.Vga

open Lib

def maxX : ℕ := 80
def maxY : ℕ := 25

/-- `color_t` -/
structure Color where
  fg : BitVec 4
  bg : BitVec 3
  blink : BitVec 1
deriving DecidableEq

structure VideoCell where
  c : Byte
  color : Color
deriving DecidableEq

/-- The video memory and `text_mode_info`. -/
structure Screen where
  video : ℕ → VideoCell
  x : BitVec 16
  y : BitVec 16
  color : Color

def fgBlack : BitVec 4 := 0x0
def fgRed : BitVec 4 := 0x4
def fgWhite : BitVec 4 := 0x7
def fgLightBlue : BitVec 4 := 0x9
def bgBlack : BitVec 3 := 0x0
def bgBlue : BitVec 3 := 0x1
def bgGreen : BitVec 3 := 0x2
def bgCyan : BitVec 3 := 0x3
def bgRed : BitVec 3 := 0x4
def bgMagenta : BitVec 3 := 0x5
def bgBrown : BitVec 3 := 0x6
def bgWhite : BitVec 3 := 0x7

/-- The cell that `clear_screen` writes, sixteen zero bits. -/
def cleared : VideoCell := ⟨0, ⟨0, 0, 0⟩⟩

/-- `video[i].c = c; video[i].color = color` -/
def setVideo (i : ℕ) (c : Byte) (color : Color) (s : Screen) : Option Screen :=
  if i < maxX * maxY then some { s with video := Function.update s.video i ⟨c, color⟩ } else none

/-- The position stays. -/
def clearScreen (s : Screen) : Option Screen :=
  (List.range (maxX * maxY)).foldlM (fun s i => setVideo i cleared.c cleared.color s) s

def textSetPos (x y : Byte) (s : Screen) : Screen :=
  { s with x := x.setWidth 16, y := y.setWidth 16 }

/-- `++y`, and back to the first line after the last one. -/
def nextLine (s : Screen) : Screen :=
  let s := { s with y := s.y + 1 }
  if s.y.toNat ≥ maxY then { s with y := 0 } else s

/-- `c` is put at the cursor. -/
def putCell (c : Byte) (s : Screen) : Option Screen :=
  setVideo (s.y.toNat * maxX + s.x.toNat) c s.color s

/-- The cursor goes back a cell, which is cleared. -/
def backspace (s : Screen) : Option Screen :=
  let s := if s.x = 0 then
      { s with
        x := 80
        y := if s.y > 0 then s.y - 1 else s.y }
    else s
  putCell 0x20 { s with x := s.x - 1 }

/-- Newline and backspace move the position, the rest is shown. -/
def textModeChar (c : Byte) (s : Screen) : Option Screen :=
  if c = 0x0D ∨ c = 0x0A then some (nextLine { s with x := 0 })
  else if c = 0x08 then backspace s
  else do
    let s ← putCell c s
    let s := { s with x := s.x + 1 }
    if s.x.toNat ≥ maxX then some (nextLine { s with x := 0 }) else some s

/-- The bytes of a string in the source, without the NUL at its end. -/
def text (cs : List Char) : List Byte := cs.map fun c => BitVec.ofNat 8 c.toNat

def textModeString (str : List Byte) (s : Screen) : Option Screen :=
  str.foldlM (fun s c => textModeChar c s) s

/-! ## What is written -/

/-- The cursor and the colour. -/
structure At (x y : ℕ) (color : Color) (s : Screen) : Prop where
  x_eq : s.x.toNat = x
  y_eq : s.y.toNat = y
  color_eq : s.color = color

/-- `text_mode_char` has no case of its own for it. -/
def Plain (c : Byte) : Prop := c ≠ 0x0D ∧ c ≠ 0x0A ∧ c ≠ 0x08

instance (c : Byte) : Decidable (Plain c) := inferInstanceAs (Decidable (_ ∧ _))

variable {P : Screen → Prop} {f : ℕ → VideoCell} {i x y : ℕ} {c : Byte} {color : Color}

lemma draws_setVideo (hi : i < maxX * maxY) (hf : f i = ⟨c, color⟩)
    (hP : ∀ s video, P s → P { s with video := video }) :
    Draws Screen.video P {i} f (setVideo i c color) P := by
  intro s hs
  refine ⟨_, if_pos hi, hP s _ hs, ?_, ?_⟩
  · intro j hj
    cases hj
    rw [hf]
    exact Function.update_self _ _ _
  · intro j hj
    exact Function.update_of_ne hj _ _

/-- A loop that puts one cell in several places. -/
lemma draws_setVideos {l : List ℕ} (hl : ∀ i ∈ l, i < maxX * maxY)
    (hf : ∀ i ∈ l, f i = ⟨c, color⟩) (hP : ∀ s video, P s → P { s with video := video }) :
    Draws Screen.video P {i | i ∈ l} f (fun s => l.foldlM (fun s i => setVideo i c color s) s)
      P := by
  have hloop : Draws Screen.video P {i | ∃ j ∈ l, i ∈ ({j} : Set ℕ)} f
      (fun s => l.foldlM (fun s i => setVideo i c color s) s) P :=
    .loop fun j hj => draws_setVideo (hl j hj) (hf j hj) hP
  apply hloop.congr
  · intro i
    simp
  · intro i _
    rfl

lemma draws_clearScreen (hP : ∀ s video, P s → P { s with video := video }) :
    Draws Screen.video P {i | i < maxX * maxY} (fun _ => cleared) clearScreen P := by
  have hloop := draws_setVideos (f := fun _ => cleared) (l := List.range (maxX * maxY))
    (fun i hi => List.mem_range.mp hi) (fun i _ => rfl) hP
  apply hloop.congr
  · intro i
    exact List.mem_range.symm
  · intro i _
    rfl

/-- A character that is not the last of its line. -/
lemma draws_textModeChar (hc : Plain c) (hx : x + 1 < maxX) (hy : y < maxY)
    (hf : f (y * maxX + x) = ⟨c, color⟩) :
    Draws Screen.video (At x y color) {y * maxX + x} f (textModeChar c) (At (x + 1) y color) := by
  simp only [maxX, maxY] at hx hy
  have hcell : y * maxX + x < maxX * maxY := by
    simp only [maxX, maxY]
    omega
  have hkeep : ∀ s video, At x y color s → At x y color { s with video := video } :=
    fun s video h => ⟨h.x_eq, h.y_eq, h.color_eq⟩
  intro s hs
  obtain ⟨s1, hrun, h1, hp⟩ := draws_setVideo hcell hf hkeep s hs
  have hput : putCell c s = some s1 := by
    rw [putCell, hs.x_eq, hs.y_eq, hs.color_eq]
    exact hrun
  have hnext : (s1.x + 1).toNat = x + 1 := by
    rw [BitVec.toNat_add, h1.x_eq]
    exact Nat.mod_eq_of_lt (by change x + 1 < 65536; omega)
  have hin : ¬ (s1.x + 1).toNat ≥ maxX := by
    rw [hnext, maxX]
    omega
  refine ⟨{ s1 with x := s1.x + 1 }, ?_, ⟨hnext, h1.y_eq, h1.color_eq⟩, hp⟩
  rw [textModeChar, if_neg (by rintro (h | h); exacts [hc.1 h, hc.2.1 h]), if_neg hc.2.2, hput]
  exact if_neg hin

/-- A string that does not reach the end of its line. -/
lemma draws_textModeString {str : List Byte} (hstr : ∀ c ∈ str, Plain c)
    (hx : x + str.length < maxX) (hy : y < maxY)
    (hf : ∀ k (hk : k < str.length), f (y * maxX + (x + k)) = ⟨str[k], color⟩) :
    Draws Screen.video (At x y color) {i | ∃ k < str.length, i = y * maxX + (x + k)} f
      (textModeString str) (At (x + str.length) y color) := by
  induction str generalizing x with
  | nil =>
    apply (Draws.nothing f).congr
    · intro i
      simp
    · intro i hi
      cases hi
  | cons c str ih =>
    rw [List.length_cons] at hx
    have hhead : Draws Screen.video (At x y color) {y * maxX + x} f (textModeChar c)
        (At (x + 1) y color) :=
      draws_textModeChar (hstr c List.mem_cons_self) (by omega) hy (hf 0 (Nat.succ_pos _))
    have htail := ih (x := x + 1) (fun c' hc' => hstr c' (List.mem_cons_of_mem c hc')) (by omega)
      fun k hk => by
        have hplace : x + 1 + k = x + (k + 1) := by omega
        rw [hplace]
        exact hf (k + 1) (Nat.succ_lt_succ hk)
    have hlen : x + 1 + str.length = x + (c :: str).length := by
      rw [List.length_cons]
      omega
    rw [hlen] at htail
    apply (hhead.and htail).congr
    · intro i
      constructor
      · rintro ⟨k, hk, rfl⟩
        cases k with
        | zero => exact .inl rfl
        | succ k => exact .inr ⟨k, Nat.lt_of_succ_lt_succ hk, by omega⟩
      · rintro (rfl | ⟨k, hk, rfl⟩)
        · exact ⟨0, Nat.succ_pos _, rfl⟩
        · exact ⟨k + 1, Nat.succ_lt_succ hk, by omega⟩
    · intro i _
      rfl

/-! ## The cursor -/

/-- The cursor is on the screen. -/
structure InRange (s : Screen) : Prop where
  x_lt : s.x.toNat < maxX
  y_lt : s.y.toNat < maxY

/-- The cell of the cursor, the cells of a line after those of the line before. -/
def pos (s : Screen) : ℕ := s.y.toNat * maxX + s.x.toNat

variable {s : Screen}

/-- The position is on the screen. -/
lemma InRange.pos_lt (h : InRange s) : pos s < maxX * maxY := by
  obtain ⟨hx, hy⟩ := h
  simp only [pos, maxX, maxY] at *
  omega

/-- The line after the last one is the first one. -/
lemma nextLine_spec (h : InRange s) : InRange (nextLine { s with x := 0 }) ∧
    pos (nextLine { s with x := 0 }) = (pos s / maxX + 1) % maxY * maxX ∧
    (nextLine { s with x := 0 }).video = s.video ∧
    (nextLine { s with x := 0 }).color = s.color := by
  obtain ⟨hx, hy⟩ := h
  simp only [maxX, maxY] at hx hy
  have hsucc : (s.y + 1).toNat = s.y.toNat + 1 := by
    rw [BitVec.toNat_add]
    exact Nat.mod_eq_of_lt (by change s.y.toNat + 1 < 65536; omega)
  have hline : (s.y.toNat * 80 + s.x.toNat) / 80 = s.y.toNat := by omega
  have hfirst : (0 : BitVec 16).toNat < maxX := by decide
  simp only [nextLine, hsucc, maxY]
  split
  case isTrue hlast =>
    refine ⟨⟨hfirst, (by decide : 0 < 25)⟩, ?_, rfl, rfl⟩
    simp only [pos, maxX, hline]
    have h24 : s.y.toNat = 24 := by omega
    rw [h24]
    rfl
  case isFalse hin =>
    have hlt : (s.y + 1).toNat < 25 := by omega
    refine ⟨⟨hfirst, hlt⟩, ?_, rfl, rfl⟩
    simp only [pos, maxX, hline, hsucc]
    have hzero : (0 : BitVec 16).toNat = 0 := rfl
    rw [hzero, Nat.mod_eq_of_lt (by omega)]
    omega

/-- One call of `text_mode_char`: the cell written, if any, and where the cursor goes. -/
structure Wrote (s : Screen) (written : Option (ℕ × Byte)) (next : ℕ) (s' : Screen) : Prop where
  inRange : InRange s'
  pos_eq : pos s' = next
  color : s'.color = s.color
  video : s'.video = written.elim s.video fun w => Function.update s.video w.1 ⟨w.2, s.color⟩

/-- From the last cell the cursor goes to the first one. -/
lemma textModeChar_plain (h : InRange s) (hc : Plain c) :
    ∃ s', textModeChar c s = some s' ∧ Wrote s (some (pos s, c)) ((pos s + 1) % (maxX * maxY)) s'
    := by
  have hlt := h.pos_lt
  obtain ⟨hx, hy⟩ := h
  have hput : putCell c s = some { s with video := Function.update s.video (pos s) ⟨c, s.color⟩ } :=
    if_pos hlt
  simp only [maxX, maxY] at hx hy
  have hsucc : (s.x + 1).toNat = s.x.toNat + 1 := by
    rw [BitVec.toNat_add]
    exact Nat.mod_eq_of_lt (by change s.x.toNat + 1 < 65536; omega)
  rw [textModeChar, if_neg (by rintro (h | h); exacts [hc.1 h, hc.2.1 h]), if_neg hc.2.2, hput]
  simp only [Option.bind_eq_bind, Option.bind_some]
  split
  case isTrue hend =>
    -- the last cell of a line
    rw [hsucc, maxX] at hend
    obtain ⟨hin, hpos, hvideo, hcolor⟩ := nextLine_spec
      (s := { s with video := Function.update s.video (pos s) ⟨c, s.color⟩ }) ⟨hx, hy⟩
    refine ⟨_, rfl, ⟨hin, hpos.trans ?_, hcolor, hvideo⟩⟩
    simp only [pos, maxX, maxY]
    omega
  case isFalse hmid =>
    rw [hsucc, maxX] at hmid
    refine ⟨_, rfl, ⟨⟨by simp only [hsucc, maxX]; omega, hy⟩, ?_, rfl, rfl⟩⟩
    simp only [pos, maxX, maxY, hsucc]
    omega

/-- The start of the next line, or of the first one behind the last -/
lemma textModeChar_newline (h : InRange s) :
    ∃ s', textModeChar 0x0A s = some s' ∧ Wrote s none ((pos s / maxX + 1) % maxY * maxX) s' := by
  obtain ⟨hin, hpos, hvideo, hcolor⟩ := nextLine_spec h
  exact ⟨_, rfl, hin, hpos, hcolor, hvideo⟩

/-- Before the first cell there is none: from there the cursor goes to the end of its line. -/
lemma textModeChar_backspace (h : InRange s) : ∃ s', textModeChar 0x08 s = some s' ∧
    Wrote s (some (if pos s = 0 then maxX - 1 else pos s - 1, 0x20))
      (if pos s = 0 then maxX - 1 else pos s - 1) s' := by
  obtain ⟨hx, hy⟩ := h
  simp only [maxX, maxY] at hx hy
  -- where the cell before the cursor is
  have hback : ∃ x y : BitVec 16, x.toNat < 80 ∧ y.toNat < 25 ∧
      y.toNat * 80 + x.toNat = (if pos s = 0 then maxX - 1 else pos s - 1) ∧
      textModeChar 0x08 s = putCell 0x20 { s with x := x, y := y } := by
    by_cases hx0 : s.x = 0
    · have hzero : s.x.toNat = 0 := by rw [hx0]; rfl
      by_cases hy0 : s.y > 0
      · have hpos : 0 < s.y.toNat := BitVec.lt_def.mp hy0
        have hsub : (s.y - 1).toNat = s.y.toNat - 1 := by bv_omega
        refine ⟨80 - 1, s.y - 1, by decide, by omega, ?_, ?_⟩
        · have h79 : (80 - 1 : BitVec 16).toNat = 79 := rfl
          rw [hsub, h79, pos, hzero, maxX, if_neg (by omega)]
          omega
        · rw [textModeChar, if_neg (by decide), if_pos rfl, backspace, if_pos hx0, if_pos hy0]
      · have hnone : s.y.toNat = 0 := by
          by_contra hne
          exact hy0 (BitVec.lt_def.mpr (Nat.pos_of_ne_zero hne))
        refine ⟨80 - 1, s.y, by decide, hy, ?_, ?_⟩
        · have h79 : (80 - 1 : BitVec 16).toNat = 79 := rfl
          rw [hnone, h79, pos, hzero, hnone, maxX, if_pos (by omega)]
        · rw [textModeChar, if_neg (by decide), if_pos rfl, backspace, if_pos hx0, if_neg hy0]
    · have hne : s.x.toNat ≠ 0 := fun h => hx0 (BitVec.eq_of_toNat_eq h)
      have hsub : (s.x - 1).toNat = s.x.toNat - 1 := by bv_omega
      refine ⟨s.x - 1, s.y, by omega, hy, ?_, ?_⟩
      · rw [hsub, pos, maxX, if_neg (by omega)]
        omega
      · rw [textModeChar, if_neg (by decide), if_pos rfl, backspace, if_neg hx0]
  obtain ⟨x, y, hx', hy', hat, hrun⟩ := hback
  refine ⟨{ s with
    x := x
    y := y
    video := Function.update s.video (y.toNat * maxX + x.toNat) ⟨0x20, s.color⟩ }, ?_, ?_⟩
  · rw [hrun]
    exact if_pos (by simp only [maxX, maxY]; omega)
  · rw [← hat]
    exact ⟨⟨hx', hy'⟩, rfl, rfl, rfl⟩

end Bikeshed.Vga
