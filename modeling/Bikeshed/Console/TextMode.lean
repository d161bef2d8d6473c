import Bikeshed.Lib.Lists
import Bikeshed.Lib.Word

/-!
# The text console of `textmode.c`

Every access to `text` and to the video memory is checked: one out of range ends the call.
-/

namespace Bikeshed.Console

open Lib

def maxX : ℕ := 80
def maxY : ℕ := 25
def numPages : ℕ := 100
/-- The lines of text that are kept -/
def numLines : ℕ := maxY * numPages

structure VideoCell where
  c : Byte
  color : Byte

/-- The static variables of `textmode.c`, and the video memory. -/
structure TextMode where
  text : ℕ → Byte
  video : ℕ → VideoCell
  pageOffset : BitVec 32
  writeX : BitVec 16
  writeY : BitVec 16

/-- `text[i]` -/
def textAt (i : ℕ) (s : TextMode) : Option Byte :=
  if i < maxX * numLines then some (s.text i) else none

/-- `text[i] = c` -/
def setText (i : ℕ) (c : Byte) (s : TextMode) : Option TextMode :=
  if i < maxX * numLines then some { s with text := Function.update s.text i c } else none

/-- `video[i].c = c; video[i].color = color` -/
def setVideo (i : ℕ) (c color : Byte) (s : TextMode) : Option TextMode :=
  if i < maxX * maxY then some { s with video := Function.update s.video i ⟨c, color⟩ } else none

def initTextMode (s : TextMode) : TextMode := { s with writeX := 0, writeY := 0 }

def clearScreen (s : TextMode) : Option TextMode :=
  (List.range (maxX * maxY)).foldlM (fun s i => setVideo i 0 0 s) s

/-- The body of the loops of `display_page`. -/
def displayCell (pageOffset : BitVec 32) (dispY dispX : ℕ) (s : TextMode) : Option TextMode := do
  let textY := pageOffset * 25 + BitVec.ofNat 32 dispY
  let textOffset := textY * 80 + BitVec.ofNat 32 dispX
  let offset := BitVec.ofNat 32 dispY * 80 + BitVec.ofNat 32 dispX
  let c ← textAt textOffset.toNat s
  setVideo offset.toNat c 0x9 s

/-- A page of the text is copied to the video memory. -/
def displayPage (pageOffset : BitVec 32) (s : TextMode) : Option TextMode := do
  let s ← clearScreen s
  (List.range maxY).foldlM (fun s dispY =>
    (List.range maxX).foldlM (fun s dispX => displayCell pageOffset dispY dispX s) s) s

/-- The first page has none above it. -/
def pageUp (s : TextMode) : Option TextMode :=
  let s := if s.pageOffset > 0 then { s with pageOffset := s.pageOffset - 1 } else s
  displayPage s.pageOffset s

/-- The page with the cursor has none below it. -/
def pageDown (s : TextMode) : Option TextMode :=
  let maxPageOffset := s.writeY.setWidth 32 / 25
  let s := if s.pageOffset < maxPageOffset then { s with pageOffset := s.pageOffset + 1 } else s
  displayPage s.pageOffset s

/-- `++write_y`, and back to the first line after the last one. -/
def nextLine (s : TextMode) : TextMode :=
  let s := { s with writeY := s.writeY + 1 }
  if s.writeY.toNat ≥ numLines then { s with writeY := 0 } else s

/-- `c` is put at the cursor, into `text` and into the video memory. -/
def putCell (c : Byte) (s : TextMode) : Option TextMode := do
  let s ← setText (s.writeY.toNat * maxX + s.writeX.toNat) c s
  let offset := s.writeY.toNat % maxY * maxX + s.writeX.toNat
  setVideo offset c 0x9 s

/-- The page of the cursor is the one shown. -/
def scrollToBottom (s : TextMode) : Option TextMode :=
  let currentPage := s.writeY.setWidth 32 / 25
  if currentPage ≠ s.pageOffset then clearScreen { s with pageOffset := currentPage } else some s

/-- The cursor goes back a cell, which is cleared. -/
def backspace (s : TextMode) : Option TextMode :=
  let s := if s.writeX = 0 then
      { s with
        writeX := 80
        writeY := if s.writeY > 0 then s.writeY - 1 else s.writeY }
    else s
  putCell 0x20 { s with writeX := s.writeX - 1 }

/-- A character of the kernel, or one that is typed -/
def textModeChar (c : Byte) (s : TextMode) : Option TextMode := do
  let s ← scrollToBottom s
  if c = 0x0D ∨ c = 0x0A then some { nextLine s with writeX := 0 }
  else if c = 0x08 then backspace s
  else
    let s ← putCell c s
    let s := { s with writeX := s.writeX + 1 }
    if s.writeX.toNat ≥ maxX then some (nextLine { s with writeX := 0 }) else some s

/-- What can come from the keyboard -/
inductive Key where
  | char (c : Byte)
  | up
  | down

def Key.act : Key → TextMode → Option TextMode
  | .char c => textModeChar c
  | .up => pageUp
  | .down => pageDown

/-- The console before anything is shown: the variables are zero. -/
def poweredOn (video : ℕ → VideoCell) : TextMode where
  text := fun _ => 0
  video := video
  pageOffset := 0
  writeX := 0
  writeY := 0

/-- The states after `init_text_mode` and any calls. -/
inductive Reachable : TextMode → Prop
  | init (video : ℕ → VideoCell) : Reachable (initTextMode (poweredOn video))
  | act {s s' : TextMode} (key : Key) : Reachable s → key.act s = some s' → Reachable s'

/-! ## Bounds -/

/-- The cursor is on a line of `text`, and the page shown is one of its pages. -/
structure InRange (s : TextMode) : Prop where
  x_lt : s.writeX.toNat < maxX
  y_lt : s.writeY.toNat < numLines
  page_lt : s.pageOffset.toNat < numPages

/-- Nothing but the video memory differs. -/
def SameText (s s' : TextMode) : Prop := ∃ video, s' = { s with video := video }

lemma SameText.refl {s : TextMode} : SameText s s := ⟨s.video, rfl⟩

/-- Only the video memory differs. -/
lemma SameText.trans {s1 s2 s3 : TextMode} (h1 : SameText s1 s2) (h2 : SameText s2 s3) :
    SameText s1 s3 := by
  obtain ⟨v1, rfl⟩ := h1
  obtain ⟨v2, rfl⟩ := h2
  exact ⟨v2, rfl⟩

/-- The bounds are about the text. -/
lemma InRange.of_sameText {s s' : TextMode} (h : InRange s) (hsame : SameText s s') :
    InRange s' := by
  obtain ⟨v, rfl⟩ := hsame
  exact ⟨h.x_lt, h.y_lt, h.page_lt⟩

/-- A loop all of whose rounds only write video memory does so itself. -/
lemma foldlM_sameText {f : TextMode → ℕ → Option TextMode} {n : ℕ}
    (hf : ∀ s i, i < n → ∃ s', f s i = some s' ∧ SameText s s') (s : TextMode) :
    ∃ s', (List.range n).foldlM f s = some s' ∧ SameText s s' := by
  induction n with
  | zero => exact ⟨s, rfl, .refl⟩
  | succ n ih =>
    obtain ⟨s1, hrun, hsame1⟩ := ih fun s i hi => hf s i (by omega)
    obtain ⟨s2, hlast, hsame2⟩ := hf s1 n (by omega)
    refine ⟨s2, ?_, hsame1.trans hsame2⟩
    rw [List.range_succ, List.foldlM_append, hrun]
    simpa using hlast

lemma setVideo_some {i : ℕ} (hi : i < maxX * maxY) (c color : Byte) (s : TextMode) :
    ∃ s', setVideo i c color s = some s' ∧ SameText s s' :=
  ⟨_, if_pos hi, ⟨_, rfl⟩⟩

lemma clearScreen_some (s : TextMode) : ∃ s', clearScreen s = some s' ∧ SameText s s' :=
  foldlM_sameText (fun s _ hi => setVideo_some hi 0 0 s) s

/-- A cell of the page and the one on the screen exist. -/
lemma displayCell_some {p : BitVec 32} (hp : p.toNat < numPages) {dispY dispX : ℕ}
    (hy : dispY < maxY) (hx : dispX < maxX) (s : TextMode) :
    ∃ s', displayCell p dispY dispX s = some s' ∧ SameText s s' := by
  simp only [numPages, maxY, maxX] at hp hy hx
  have h25 : (25 : BitVec 32).toNat = 25 := rfl
  have h80 : (80 : BitVec 32).toNat = 80 := rfl
  have htext : ((p * 25 + BitVec.ofNat 32 dispY) * 80 + BitVec.ofNat 32 dispX).toNat
      = (p.toNat * 25 + dispY) * 80 + dispX := by
    simp only [BitVec.toNat_add, BitVec.toNat_mul, BitVec.toNat_ofNat, h25, h80]
    omega
  have hvideo : (BitVec.ofNat 32 dispY * 80 + BitVec.ofNat 32 dispX).toNat
      = dispY * 80 + dispX := by
    simp only [BitVec.toNat_add, BitVec.toNat_mul, BitVec.toNat_ofNat, h80]
    omega
  have hread : textAt ((p.toNat * 25 + dispY) * 80 + dispX) s
      = some (s.text ((p.toNat * 25 + dispY) * 80 + dispX)) :=
    if_pos (by simp only [maxX, maxY, numLines, numPages]; omega)
  unfold displayCell
  simp only [htext, hvideo, hread]
  exact setVideo_some (by simp only [maxX, maxY]; omega) _ _ s

/-- A page of `text` is shown without an access out of range. -/
lemma displayPage_some {p : BitVec 32} (hp : p.toNat < numPages) (s : TextMode) :
    ∃ s', displayPage p s = some s' ∧ SameText s s' := by
  obtain ⟨s1, hclear, hsame1⟩ := clearScreen_some s
  obtain ⟨s2, hloop, hsame2⟩ := foldlM_sameText (n := maxY) (fun s dispY hy =>
    foldlM_sameText (n := maxX) (fun s dispX hx => displayCell_some hp hy hx s) s) s1
  refine ⟨s2, ?_, hsame1.trans hsame2⟩
  rw [displayPage, hclear]
  exact hloop

/-! ## What the calls keep -/

variable {s : TextMode}

/-- The page that is shown is one of the text. -/
lemma displayPage_inRange (h : InRange s) :
    ∃ s', displayPage s.pageOffset s = some s' ∧ InRange s' := by
  obtain ⟨s', hshow, hsame⟩ := displayPage_some h.page_lt s
  exact ⟨s', hshow, h.of_sameText hsame⟩

lemma pageUp_some (h : InRange s) : ∃ s', pageUp s = some s' ∧ InRange s' := by
  have hpage := h.page_lt
  apply displayPage_inRange
  split
  next hup =>
    have hpos : 0 < s.pageOffset.toNat := BitVec.lt_def.mp hup
    have hsub : (s.pageOffset - 1).toNat < numPages := by bv_omega
    exact ⟨h.x_lt, h.y_lt, hsub⟩
  next => exact h

/-- The page of the cursor is one of the pages. -/
lemma cursorPage_toNat (h : InRange s) :
    (s.writeY.setWidth 32 / 25).toNat = s.writeY.toNat / 25 ∧ s.writeY.toNat / 25 < numPages := by
  have hy := h.y_lt
  simp only [numLines, numPages, maxY] at hy ⊢
  rw [BitVec.toNat_udiv, BitVec.toNat_setWidth_of_le (by decide)]
  exact ⟨rfl, by omega⟩

lemma pageDown_some (h : InRange s) : ∃ s', pageDown s = some s' ∧ InRange s' := by
  obtain ⟨hpage, hmax⟩ := cursorPage_toNat h
  apply displayPage_inRange
  split
  next hdown =>
    have hlt := BitVec.lt_def.mp hdown
    rw [hpage] at hlt
    simp only [numPages] at hmax
    have hadd : (s.pageOffset + 1).toNat < numPages := by
      simp only [numPages]
      bv_omega
    exact ⟨h.x_lt, h.y_lt, hadd⟩
  next => exact h

lemma putCell_some (h : InRange s) (c : Byte) : ∃ s', putCell c s = some s' ∧ InRange s' := by
  obtain ⟨hx, hy, hpage⟩ := h
  have htext : s.writeY.toNat * maxX + s.writeX.toNat < maxX * numLines := by
    simp only [maxX, numLines, maxY, numPages] at *
    omega
  have hvideo : s.writeY.toNat % maxY * maxX + s.writeX.toNat < maxX * maxY := by
    simp only [maxX, maxY] at *
    omega
  unfold putCell setText
  rw [if_pos htext]
  exact ⟨_, if_pos hvideo, ⟨hx, hy, hpage⟩⟩

/-- The line after the last one is the first one. -/
lemma nextLine_eq (s : TextMode) :
    ∃ y : BitVec 16, nextLine s = { s with writeY := y } ∧ y.toNat < numLines := by
  simp only [nextLine]
  split
  next => exact ⟨0, rfl, (by decide : 0 < numLines)⟩
  next hlt => exact ⟨s.writeY + 1, rfl, not_le.mp hlt⟩

/-- The page with the cursor is shown. -/
lemma scrollToBottom_some (h : InRange s) : ∃ s', scrollToBottom s = some s' ∧ InRange s' := by
  obtain ⟨hcurrent, hmax⟩ := cursorPage_toNat h
  have hpage : (s.writeY.setWidth 32 / 25).toNat < numPages := by omega
  simp only [scrollToBottom]
  split
  next =>
    obtain ⟨s1, hclear, hsame⟩ :=
      clearScreen_some { s with pageOffset := s.writeY.setWidth 32 / 25 }
    have hscrolled : InRange { s with pageOffset := s.writeY.setWidth 32 / 25 } :=
      ⟨h.x_lt, h.y_lt, hpage⟩
    exact ⟨s1, hclear, hscrolled.of_sameText hsame⟩
  next => exact ⟨s, rfl, h⟩

/-- From the start of a line the cursor goes to the end of the line before it, and from the very
first cell to the end of the first line. -/
lemma backspace_some (h : InRange s) : ∃ s', backspace s = some s' ∧ InRange s' := by
  obtain ⟨hx, hy, hpage⟩ := h
  apply putCell_some
  split
  next hx0 =>
    refine ⟨(by decide : (80 - 1 : BitVec 16).toNat < maxX), ?_, hpage⟩
    dsimp only
    split
    next hpos =>
      have := BitVec.lt_def.mp hpos
      bv_omega
    next => exact hy
  next hx0 =>
    have hsub : (s.writeX - 1).toNat < maxX := by bv_omega
    exact ⟨hsub, hy, hpage⟩

/-- Any character keeps the bounds. -/
lemma textModeChar_some (h : InRange s) (c : Byte) :
    ∃ s', textModeChar c s = some s' ∧ InRange s' := by
  obtain ⟨s1, hscroll, h1⟩ := scrollToBottom_some h
  have hzero : (0 : BitVec 16).toNat < maxX := by decide
  unfold textModeChar
  simp only [hscroll, Option.bind_eq_bind, Option.bind_some]
  split
  next =>
    obtain ⟨y, hline, hy⟩ := nextLine_eq s1
    rw [hline]
    exact ⟨_, rfl, hzero, hy, h1.page_lt⟩
  split
  next => exact backspace_some h1
  next =>
    obtain ⟨s2, hput, h2⟩ := putCell_some h1 c
    simp only [hput, Option.bind_some]
    split
    next =>
      obtain ⟨y, hline, hy⟩ := nextLine_eq { s2 with writeX := 0 }
      rw [hline]
      exact ⟨_, rfl, hzero, hy, h2.page_lt⟩
    next hlt => exact ⟨_, rfl, not_le.mp hlt, h2.y_lt, h2.page_lt⟩

/-- So does any key. -/
lemma Key.act_some (key : Key) (h : InRange s) : ∃ s', key.act s = some s' ∧ InRange s' := by
  cases key with
  | char c => exact textModeChar_some h c
  | up => exact pageUp_some h
  | down => exact pageDown_some h

/-- Everything is at the start. -/
lemma init_inRange (video : ℕ → VideoCell) : InRange (initTextMode (poweredOn video)) :=
  ⟨(by decide : 0 < maxX), (by decide : 0 < numLines), (by decide : 0 < numPages)⟩

/-- After any calls the cursor and the page are in range, and the next call, whichever it is,
accesses nothing out of range. -/
theorem Reachable.inRange {s : TextMode} (h : Reachable s) :
    InRange s ∧ ∀ key : Key, ∃ s', key.act s = some s' := by
  have hrange : InRange s := by
    induction h with
    | init video => exact init_inRange video
    | act key _ hact ih =>
      obtain ⟨s', hact', h'⟩ := key.act_some ih
      rw [hact] at hact'
      exact Option.some.inj hact' ▸ h'
  refine ⟨hrange, fun key => ?_⟩
  obtain ⟨s', hact, -⟩ := key.act_some hrange
  exact ⟨s', hact⟩

/-- Thirty newlines, two characters of which the second is erased, and the pages are turned. -/
def turning : List Key :=
  List.replicate 30 (.char 0x0A) ++ [.char 0x61, .char 0x62, .char 0x08, .up, .down, .up]

/-- The cursor is on the second page and the first one is shown. -/
theorem turning_inRange : ∃ s, turning.foldlM (fun s (key : Key) => key.act s)
      (initTextMode (poweredOn fun _ => ⟨0, 0⟩)) = some s ∧
    s.writeY = 30 ∧ s.writeX = 1 ∧ s.pageOffset = 0 ∧ s.text (30 * maxX) = 0x61 ∧
    InRange s ∧ ∀ key : Key, ∃ s', key.act s = some s' := by
  have hkeys : (turning.foldlM (fun s (key : Key) => key.act s)
      (initTextMode (poweredOn fun _ => ⟨0, 0⟩))).map
      (fun s => (s.writeY, s.writeX, s.pageOffset, s.text (30 * maxX)))
      = some (30, 1, 0, 0x61) := by
    decide +kernel
  obtain ⟨s, hs, hend⟩ := Option.map_eq_some_iff.mp hkeys
  simp only [Prod.mk.injEq] at hend
  obtain ⟨hy, hx, hpage, htext⟩ := hend
  have hreach : Reachable s := foldlM_preserves (fun _ key _ h hact => h.act key hact)
    (Reachable.init fun _ => ⟨0, 0⟩) hs
  obtain ⟨hrange, hnext⟩ := hreach.inRange
  exact ⟨s, hs, hy, hx, hpage, htext, hrange, hnext⟩

end Bikeshed.Console
