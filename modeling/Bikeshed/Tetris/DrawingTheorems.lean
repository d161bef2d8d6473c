import Bikeshed.Tetris.Picture

/-!
# What each drawing function writes

One lemma for each: which cells are overwritten, and with what. None of them touches the text
colour but the two that set it.
-/

namespace Bikeshed.Tetris

open Lib Vga

variable {g g' : Game} {f : ℕ → VideoCell} {i n : ℕ} {ink color : Color} {l : List ℕ}
  {off1 off2 : ℕ → ℕ}

/-- The text colour. -/
def Inked (ink : Color) (s : Screen) : Prop := s.color = ink

lemma Inked.video (s : Screen) (video : ℕ → VideoCell) (h : Inked ink s) :
    Inked ink { s with video := video } := h

/-! ## Blanks -/

lemma draws_setBlank {off : ℤ} (hoff : off = i) (hi : i < maxX * maxY) (hf : f i = blank color) :
    Draws Screen.video (Inked ink) {i} f (setBlank off color) (Inked ink) := by
  have hset : Draws Screen.video (Inked ink) {i} f (setVideo i 0x20 color) (Inked ink) :=
    draws_setVideo hi hf Inked.video
  intro s hs
  rw [setBlank, hoff, if_pos (Int.natCast_nonneg i), Int.toNat_natCast]
  exact hset s hs

lemma draws_setBlanks (h1 : ∀ x ∈ l, off1 x < maxX * maxY) (h2 : ∀ x ∈ l, off2 x < maxX * maxY) :
    Draws Screen.video (Inked ink) {i | ∃ x ∈ l, i = off1 x ∨ i = off2 x} (fun _ => blank color)
      (setBlanks l off1 off2 color) (Inked ink) :=
  .loop fun x hx =>
    (draws_setVideo (h1 x hx) rfl Inked.video).and (draws_setVideo (h2 x hx) rfl Inked.video)

/-! ## A piece -/

/-- The first cell on the screen of a block of a piece. -/
def blockAt (ox oy : ℤ) (c : ℤ × ℤ) : ℤ := (c.2 + oy) * 80 + (c.1 * 2 + ox)

/-- The cells of a piece on the screen, two for each block. -/
def PieceAt (ox oy : ℤ) (cells : List (ℤ × ℤ)) (i : ℕ) : Prop :=
  ∃ c ∈ cells, (i : ℤ) = blockAt ox oy c ∨ (i : ℤ) = blockAt ox oy c + 1

lemma draws_drawPiece {ox oy : ℤ} {rotation : Fin 4} {piece : Piece}
    (hin : ∀ c ∈ (blockOffsets rotation piece).cells,
      0 ≤ blockAt ox oy c ∧ blockAt ox oy c + 1 < 2000) :
    Draws Screen.video (Inked ink) {i | PieceAt ox oy (blockOffsets rotation piece).cells i}
      (fun _ => blank color) (drawPiece ox oy rotation piece color) (Inked ink) := by
  have hloop : Draws Screen.video (Inked ink)
      {i | ∃ c ∈ (blockOffsets rotation piece).cells,
        i ∈ ({(blockAt ox oy c).toNat} ∪ {(blockAt ox oy c + 1).toNat} : Set ℕ)}
      (fun _ => blank color) (drawPiece ox oy rotation piece color) (Inked ink) := by
    apply Draws.loop
    intro c hc
    obtain ⟨h0, hlt⟩ := hin c hc
    have hbound : maxX * maxY = 2000 := rfl
    apply Draws.and
    · have hat : blockAt ox oy c = (blockAt ox oy c).toNat := by omega
      exact draws_setBlank hat (by omega) rfl
    · have hat : blockAt ox oy c + 1 = (blockAt ox oy c + 1).toNat := by omega
      exact draws_setBlank hat (by omega) rfl
  apply hloop.congr
  · intro i
    refine exists_congr fun c => and_congr_right fun hc => ?_
    obtain ⟨h0, -⟩ := hin c hc
    simp only [Set.mem_union, Set.mem_singleton_iff]
    omega
  · intro i _
    rfl

/-- The block on the board that a cell of the screen belongs to. -/
def boardCell (i : ℕ) : ℤ × ℤ :=
  (((i % maxX - originX) / 2 : ℕ), (i / maxX - originY : ℕ))

/-- A piece on the board is drawn on its blocks. -/
lemma pieceAt_blocks (ha : Aligned g) (hin : ∀ c ∈ g.blocks, InBoard c.1 c.2) :
    PieceAt g.pieceOriginX g.pieceOriginY (blockOffsets g.currentRotation g.currentPiece).cells i ↔
      OnBoard i ∧ boardCell i ∈ g.blocks := by
  obtain ⟨n, hn⟩ := ha
  have hblocks : g.blocks = (blockOffsets g.currentRotation g.currentPiece).cells.map fun c =>
      (c.1 + n, c.2 + (g.pieceOriginY - 2)) := by
    rw [Game.blocks, hn, screenXToBoardX_eq]
    rfl
  rw [hblocks] at hin ⊢
  have hin' : ∀ c ∈ (blockOffsets g.currentRotation g.currentPiece).cells,
      InBoard (c.1 + n) (c.2 + (g.pieceOriginY - 2)) := fun c hc =>
    hin _ (List.mem_map.mpr ⟨c, hc, rfl⟩)
  simp only [InBoard, boardX, boardY] at hin'
  have hX : originX = 30 := rfl
  have hY : originY = 2 := rfl
  have hB : boardOriginX = 30 := rfl
  simp only [PieceAt, OnBoard, boardCell, List.mem_map, Prod.mk.injEq, blockAt, hn, hX, hY, hB,
    maxX, boardX, maxVgaY, boardY]
  constructor
  · rintro ⟨c, hc, hi⟩
    have := hin' c hc
    refine ⟨by omega, c, hc, by omega, by omega⟩
  · rintro ⟨hboard, c, hc, h1, h2⟩
    have := hin' c hc
    exact ⟨c, hc, by omega⟩

/-- The piece that falls. -/
lemma draws_drawPiece_board (ha : Aligned g) (hin : ∀ c ∈ g.blocks, InBoard c.1 c.2) :
    Draws Screen.video (Inked ink) {i | OnBoard i ∧ boardCell i ∈ g.blocks}
      (fun _ => blank color)
      (drawPiece g.pieceOriginX g.pieceOriginY g.currentRotation g.currentPiece color)
      (Inked ink) := by
  have hpiece : Draws Screen.video (Inked ink)
      {i | PieceAt g.pieceOriginX g.pieceOriginY
        (blockOffsets g.currentRotation g.currentPiece).cells i}
      (fun _ => blank color)
      (drawPiece g.pieceOriginX g.pieceOriginY g.currentRotation g.currentPiece color)
      (Inked ink) := by
    apply draws_drawPiece
    intro c hc
    obtain ⟨n, hn⟩ := ha
    have hblock : (c.1 + n, c.2 + (g.pieceOriginY - 2)) ∈ g.blocks := by
      rw [Game.blocks, hn, screenXToBoardX_eq]
      exact List.mem_map.mpr ⟨c, hc, rfl⟩
    have hboard := hin _ hblock
    have hB : boardOriginX = 30 := rfl
    simp only [InBoard, boardX, boardY] at hboard
    rw [blockAt, hn, hB]
    omega
  apply hpiece.congr
  · intro i
    exact (pieceAt_blocks ha hin).symm
  · intro i _
    rfl

/-! ## Lines of the board -/

/-- One line of the board on the screen. -/
def OnLine (line i : ℕ) : Prop := OnBoard i ∧ i / maxX - originY = line

lemma draws_drawGameboardLine {b : ℕ → ℕ → Cell} {line : ℕ} {solid : Bool} (hline : line < boardY)
    (hf : ∀ i, OnLine line i → f i = blank
      (if solid = true then color else pieceColors (b line ((i % maxX - originX) / 2)))) :
    Draws Screen.video (Inked ink) {i | OnLine line i} f
      (drawGameboardLine b line solid color) (Inked ink) := by
  have hX : originX = 30 := rfl
  have hY : originY = 2 := rfl
  rw [boardY] at hline
  have hplace : ∀ x < boardX, ∀ i, i = (originY + line) * maxX + (originX + x * 2) ∨
      i = (originY + line) * maxX + (originX + x * 2) + 1 →
      i < maxX * maxY ∧ OnLine line i ∧ (i % maxX - originX) / 2 = x := by
    intro x hx i hi
    simp only [OnLine, OnBoard, maxX, maxY, maxVgaY, boardX, boardY, hX, hY] at *
    omega
  have hloop : Draws Screen.video (Inked ink)
      {i | ∃ x ∈ List.range boardX, i ∈ ({(originY + line) * maxX + (originX + x * 2)} ∪
        {(originY + line) * maxX + (originX + x * 2) + 1} : Set ℕ)}
      f (drawGameboardLine b line solid color) (Inked ink) := by
    apply Draws.loop
    intro x hx
    have hx := List.mem_range.mp hx
    obtain ⟨hlt1, hon1, hx1⟩ := hplace x hx _ (.inl rfl)
    obtain ⟨hlt2, hon2, hx2⟩ := hplace x hx _ (.inr rfl)
    have hf1 := hf _ hon1
    have hf2 := hf _ hon2
    rw [hx1] at hf1
    rw [hx2] at hf2
    exact (draws_setVideo hlt1 hf1 Inked.video).and (draws_setVideo hlt2 hf2 Inked.video)
  apply hloop.congr
  · intro i
    constructor
    · rintro ⟨hon, hline'⟩
      refine ⟨(i % maxX - originX) / 2, ?_, ?_⟩
      · rw [List.mem_range]
        simp only [OnBoard, maxX, boardX, hX] at *
        omega
      · simp only [Set.mem_union, Set.mem_singleton_iff]
        simp only [OnBoard, maxX, boardX, hX, hY] at *
        omega
    · rintro ⟨x, hx, hi⟩
      exact (hplace x (List.mem_range.mp hx) i hi).2.1
  · intro i _
    rfl

lemma draws_drawFlashLines (hf : ∀ i, OnBoard i → g.fullLines (i / maxX - originY) = true →
      f i = blank (if g.flashCount.getLsbD 0 = true then borderColor
        else pieceColors (g.gameboard (i / maxX - originY) ((i % maxX - originX) / 2)))) :
    Draws Screen.video (Inked ink) {i | OnBoard i ∧ g.fullLines (i / maxX - originY) = true} f
      (drawFlashLines g) (Inked ink) := by
  have hloop : Draws Screen.video (Inked ink)
      {i | ∃ line ∈ List.range boardY, i ∈ {i | OnLine line i ∧ g.fullLines line = true}} f
      (drawFlashLines g) (Inked ink) := by
    apply Draws.loop
    intro line hline
    by_cases hfull : g.fullLines line = true
    · simp only [hfull, if_true, and_true]
      apply draws_drawGameboardLine (List.mem_range.mp hline)
      rintro i ⟨hon, rfl⟩
      exact hf i hon hfull
    · simp only [hfull]
      apply (Draws.nothing f).congr
      · intro i
        simp
      · intro i hi
        cases hi
  apply hloop.congr
  · intro i
    constructor
    · rintro ⟨hon, hfull⟩
      refine ⟨i / maxX - originY, ?_, ⟨hon, rfl⟩, hfull⟩
      have hY : originY = 2 := rfl
      rw [List.mem_range]
      simp only [OnBoard, maxVgaY, maxX, boardY, hY] at *
      omega
    · rintro ⟨line, -, ⟨hon, rfl⟩, hfull⟩
      exact ⟨hon, hfull⟩
  · intro i _
    rfl

/-! ## Clearing lines -/

/-- The lines that `copyLines` copies are those of the loop without the drawing, and the screen
shows them. -/
lemma copyLines_spec (drop : ℕ → Bool) (y c : ℕ) (rows : ℕ → ℕ → Cell) (hc : c ≤ y)
    (hy : y ≤ boardY) (s : Screen) : ∃ s', copyLines drop y c rows s
        = some ((compactDown drop y c rows).1, (compactDown drop y c rows).2, s') ∧
      s'.color = s.color ∧
      Painted {i | OnBoard i ∧ (compactDown drop y c rows).1 ≤ i / maxX - originY ∧
          i / maxX - originY < y}
        (fun i => blank (pieceColors
          ((compactDown drop y c rows).2 (i / maxX - originY) ((i % maxX - originX) / 2))))
        s.video s'.video := by
  induction y generalizing c rows s with
  | zero =>
    refine ⟨s, rfl, rfl, ?_, fun i _ => rfl⟩
    rintro i ⟨-, -, hlt⟩
    exact absurd hlt (Nat.not_lt_zero _)
  | succ y ih =>
    have hle := (skipDown_spec drop c).1
    rw [copyLines, compactDown]
    cases hskip : skipDown drop c with
    | zero =>
      refine ⟨s, rfl, rfl, ?_, fun i _ => rfl⟩
      rintro i ⟨-, h1, h2⟩
      exact absurd h1 (not_le.mpr h2)
    | succ c' =>
      rw [hskip] at hle
      have hcomp := compacted drop y c' (Function.update rows y (rows c')) (by omega)
      -- a line that was drawn is not changed any more
      have htop := hcomp.above y le_rfl
      have hline : Draws Screen.video (Inked s.color) {i | OnLine y i}
          (fun i => blank (pieceColors
            ((compactDown drop y c' (Function.update rows y (rows c'))).2 (i / maxX - originY)
              ((i % maxX - originX) / 2))))
          (drawGameboardLine (Function.update rows y (rows c')) y false backgroundColor)
          (Inked s.color) := by
        apply draws_drawGameboardLine (by omega)
        intro i hi
        rw [hi.2, htop]
        rfl
      obtain ⟨s1, hrun1, hink1, hp1⟩ := hline s rfl
      obtain ⟨s2, hrun2, hink2, hp2⟩ := ih c' (Function.update rows y (rows c')) (by omega)
        (by omega) s1
      refine ⟨s2, ?_, hink2.trans hink1, ?_⟩
      · change (drawGameboardLine _ y false backgroundColor s >>= _) = _
        rw [hrun1]
        exact hrun2
      · have hz := hcomp.le
        apply (hp1.trans hp2 (fun i _ _ => rfl) fun i _ => rfl).congr
        intro i
        change OnBoard i ∧ (compactDown drop y c' _).1 ≤ _ ∧ _ ↔ OnBoard i ∧ _ ∨ OnBoard i ∧ _
        rw [← and_or_left]
        exact and_congr_right fun _ => by omega

lemma emptyLines_spec (y : ℕ) (rows : ℕ → ℕ → Cell) (hy : y ≤ boardY) (s : Screen) :
    ∃ s', emptyLines y rows s = some (blankDown (fun _ => none) y rows, s') ∧
      s'.color = s.color ∧
      Painted {i | OnBoard i ∧ i / maxX - originY < y} (fun _ => blank backgroundColor)
        s.video s'.video := by
  induction y generalizing rows s with
  | zero =>
    refine ⟨s, rfl, rfl, ?_, fun i _ => rfl⟩
    rintro i ⟨-, hlt⟩
    exact absurd hlt (Nat.not_lt_zero _)
  | succ y ih =>
    have hline : Draws Screen.video (Inked s.color) {i | OnLine y i}
        (fun _ => blank backgroundColor)
        (drawGameboardLine (Function.update rows y fun _ => none) y true backgroundColor)
        (Inked s.color) := by
      apply draws_drawGameboardLine (by omega)
      intro i _
      rfl
    obtain ⟨s1, hrun1, hink1, hp1⟩ := hline s rfl
    obtain ⟨s2, hrun2, hink2, hp2⟩ := ih (Function.update rows y fun _ => none) (by omega) s1
    refine ⟨s2, ?_, hink2.trans hink1, ?_⟩
    · rw [emptyLines, blankDown, hrun1]
      exact hrun2
    · apply (hp1.trans hp2 (fun i _ _ => rfl) fun i _ => rfl).congr
      intro i
      change OnBoard i ∧ _ ↔ OnBoard i ∧ _ ∨ OnBoard i ∧ _
      rw [← and_or_left]
      exact and_congr_right fun _ => by omega

/-- `clear_lines` leaves the board of the game, and all of it on the screen. -/
lemma clearLinesDrawn_spec (g : Game) (s : Screen) :
    ∃ s', clearLinesDrawn g s = some ((clearLines g).gameboard, s') ∧ s'.color = s.color ∧
      Painted {i | OnBoard i}
        (fun i => blank (pieceColors
          ((clearLines g).gameboard (i / maxX - originY) ((i % maxX - originX) / 2))))
        s.video s'.video := by
  obtain ⟨s1, hrun1, hink1, hp1⟩ := copyLines_spec g.fullLines boardY boardY g.gameboard le_rfl
    le_rfl s
  have hle := (compacted g.fullLines boardY boardY g.gameboard le_rfl).le
  have hrows : ∀ y, (clearLines g).gameboard y
      = if y < (compactDown g.fullLines boardY boardY g.gameboard).1 then fun _ => none
        else (compactDown g.fullLines boardY boardY g.gameboard).2 y :=
    fun y => blankDown_eq (fun _ => none) _ _ y
  have hboard : (clearLines g).gameboard
      = blankDown (fun _ => none) (compactDown g.fullLines boardY boardY g.gameboard).1
        (compactDown g.fullLines boardY boardY g.gameboard).2 := rfl
  generalize compactDown g.fullLines boardY boardY g.gameboard = r at hrun1 hp1 hle hrows hboard
  obtain ⟨s2, hrun2, hink2, hp2⟩ := emptyLines_spec r.1 r.2 hle s1
  refine ⟨s2, ?_, hink2.trans hink1, ?_⟩
  · rw [clearLinesDrawn, hrun1, hboard]
    exact hrun2
  · have hall := hp1.trans hp2 (h := fun i => blank (pieceColors
        ((clearLines g).gameboard (i / maxX - originY) ((i % maxX - originX) / 2))))
      (fun i hi _ => by rw [hrows, if_neg (not_lt.mpr hi.2.1)])
      fun i hi => by rw [hrows, if_pos hi.2]; rfl
    apply hall.congr
    intro i
    change OnBoard i ↔ OnBoard i ∧ _ ∨ OnBoard i ∧ _
    rw [← and_or_left, iff_self_and]
    intro hon
    have hY : originY = 2 := rfl
    simp only [OnBoard, maxVgaY] at hon
    omega

/-! ## The score -/

/-- The line of the cursor and the text colour. -/
structure OnRow (row : ℕ) (ink : Color) (s : Screen) : Prop where
  row_eq : s.y.toNat = row
  ink_eq : s.color = ink

/-- A character in a given column of the line. -/
lemma draws_charAt {c : Byte} {row col : ℕ} (hc : Plain c) (hcol : col + 1 < maxX)
    (hrow : row < maxY) (hf : f (row * maxX + col) = ⟨c, ink⟩) :
    Draws Screen.video (OnRow row ink) {row * maxX + col} f
      (fun s => textModeChar c { s with x := BitVec.ofNat 16 col }) (OnRow row ink) := by
  have hchar := (draws_textModeChar hc hcol hrow hf).mono (fun _ h => h)
    fun s (h : At (col + 1) row ink s) => OnRow.mk h.y_eq h.color_eq
  apply hchar.after (u := fun s => { s with x := BitVec.ofNat 16 col })
  · intro s hs
    have hx : (BitVec.ofNat 16 col).toNat = col := by
      rw [maxX] at hcol
      rw [BitVec.toNat_ofNat]
      exact Nat.mod_eq_of_lt (by omega)
    exact ⟨hx, hs.row_eq, hs.ink_eq⟩
  · intro s
    rfl

/-- The columns of the score that are still to be written, the last one first. -/
def Places (n i : ℕ) : Prop := i / maxX = 2 ∧ 54 ≤ i % maxX ∧ i % maxX < 54 + n

lemma places_succ (hn : n < 10) :
    Places (n + 1) i ↔ i = 2 * maxX + (53 + (n + 1)) ∨ Places n i := by
  simp only [Places, maxX]
  omega

lemma draws_drawZeros (hn : n ≤ 10) (hf : ∀ i, Places n i → f i = ⟨0x30, ink⟩) :
    Draws Screen.video (OnRow 2 ink) {i | Places n i} f (drawZeros n (53 + n)) (OnRow 2 ink) := by
  induction n with
  | zero =>
    apply (Draws.nothing f).congr
    · rintro i
      simp only [Places, Set.mem_ofPred_eq, Set.mem_empty_iff_false, iff_false]
      omega
    · intro i hi
      cases hi
  | succ n ih =>
    have hhead : Draws Screen.video (OnRow 2 ink) {2 * maxX + (53 + (n + 1))} f
        (fun s => textModeChar 0x30 { s with x := BitVec.ofNat 16 (53 + (n + 1)) })
        (OnRow 2 ink) :=
      draws_charAt (by decide) (by rw [maxX]; omega) (by decide)
        (hf _ ((places_succ hn).mpr (.inl rfl)))
    have htail := ih (by omega) fun i hi => hf i ((places_succ hn).mpr (.inr hi))
    apply (hhead.and htail).congr
    · intro i
      exact places_succ hn
    · intro i _
      rfl

lemma plain_digit : ∀ d < 10, Plain (0x30 + BitVec.ofNat 8 d) := by decide

lemma lastDigit_eq (v : BitVec 64) : (v % 10).setWidth 8 = BitVec.ofNat 8 (v.toNat % 10) := by
  apply BitVec.eq_of_toNat_eq
  rw [BitVec.toNat_setWidth, BitVec.toNat_umod, BitVec.toNat_ofNat]
  rfl

lemma draws_drawDigits {scoreTemp : BitVec 64} (hn : n ≤ 10)
    (hf : ∀ i, Places n i → f i
      = ⟨0x30 + BitVec.ofNat 8 (scoreTemp.toNat / 10 ^ (53 + n - i % maxX) % 10), ink⟩) :
    Draws Screen.video (OnRow 2 ink) {i | Places n i} f (drawDigits n scoreTemp (53 + n))
      (OnRow 2 ink) := by
  induction n generalizing scoreTemp with
  | zero =>
    apply (Draws.nothing f).congr
    · rintro i
      simp only [Places, Set.mem_ofPred_eq, Set.mem_empty_iff_false, iff_false]
      omega
    · intro i hi
      cases hi
  | succ n ih =>
    by_cases hzero : scoreTemp = 0
    · -- what is left is filled with zeros
      have hzeros : Draws Screen.video (OnRow 2 ink) {i | Places (n + 1) i} f
          (drawZeros (n + 1) (53 + (n + 1))) (OnRow 2 ink) := by
        apply draws_drawZeros hn
        intro i hi
        have hnone : (0 : BitVec 64).toNat = 0 := rfl
        rw [hf i hi, hzero, hnone, Nat.zero_div]
        rfl
      intro s hs
      rw [drawDigits, if_neg (not_not.mpr hzero)]
      exact hzeros s hs
    · have hdigit : Plain (0x30 + (scoreTemp % 10).setWidth 8) := by
        rw [lastDigit_eq]
        exact plain_digit _ (Nat.mod_lt _ (by norm_num))
      have hhere : 53 + (n + 1) - (2 * maxX + (53 + (n + 1))) % maxX = 0 := by
        rw [maxX]
        omega
      have hfirst := hf _ ((places_succ hn).mpr (.inl rfl))
      rw [hhere, Nat.pow_zero, Nat.div_one, ← lastDigit_eq] at hfirst
      have hhead := draws_charAt hdigit (by rw [maxX]; omega) (by decide) hfirst
      have htail : Draws Screen.video (OnRow 2 ink) {i | Places n i} f
          (drawDigits n (scoreTemp / 10) (53 + n)) (OnRow 2 ink) := by
        apply ih (by omega)
        intro i hi
        have hexp : 53 + (n + 1) - i % maxX = (53 + n - i % maxX) + 1 := by
          obtain ⟨-, h1, h2⟩ := hi
          omega
        rw [hf i ((places_succ hn).mpr (.inr hi)), BitVec.toNat_udiv, hexp, Nat.pow_succ',
          ← Nat.div_div_eq_div_mul]
        rfl
      intro s hs
      rw [drawDigits, if_pos hzero]
      apply (hhead.and htail).congr _ _ s hs
      · intro i
        exact places_succ hn
      · intro i _
        rfl

lemma draws_drawScore (hf : ∀ i, InScore i → f i = ⟨scoreDigit g.score (i % maxX), ink⟩) :
    Draws Screen.video (Inked ink) {i | InScore i} f (drawScore g) (Inked ink) := by
  have hplaces : ∀ i, InScore i ↔ Places scoreLen i := by
    intro i
    have hX : scoreLocX = 54 := rfl
    have hY : scoreLocY = 2 := rfl
    simp only [InScore, Places, hX, hY]
    tauto
  have hdigits : Draws Screen.video (OnRow 2 ink) {i | Places scoreLen i} f
      (drawDigits scoreLen g.score (53 + scoreLen)) (OnRow 2 ink) :=
    draws_drawDigits le_rfl fun i hi => hf i ((hplaces i).mpr hi)
  have hscore : Draws Screen.video (Inked ink) {i | Places scoreLen i} f (drawScore g)
      (Inked ink) := by
    have hrow := hdigits.mono (fun _ h => h) fun s (h : OnRow 2 ink s) => (h.ink_eq : Inked ink s)
    apply hrow.after (u := fun s => { s with y := BitVec.ofNat 16 scoreLocY })
    · intro s hs
      exact ⟨rfl, hs⟩
    · intro s
      rfl
  apply hscore.congr hplaces
  intro i _
  rfl

/-! ## The frame, the box and the captions -/

lemma mem_between {lo hi x : ℕ} (h : lo ≤ hi) : x ∈ between lo hi ↔ lo ≤ x ∧ x < hi := by
  rw [between, List.mem_range'_1]
  omega

lemma draws_drawRim {x1 y1 x2 y2 : ℕ} (hx : x1 ≤ x2) (hy : y1 ≤ y2) (hx2 : x2 < maxX)
    (hy2 : y2 < maxY) :
    Draws Screen.video (Inked ink) {i | Rim x1 y1 x2 y2 i} (fun _ => blank color)
      (drawRim x1 y1 x2 y2 color) (Inked ink) := by
  simp only [maxX, maxY] at hx2 hy2
  have hrows : Draws Screen.video (Inked ink)
      {i | ∃ x ∈ between x1 (x2 + 1), i = y1 * maxX + x ∨ i = y2 * maxX + x} (fun _ => blank color)
      (setBlanks (between x1 (x2 + 1)) (fun x => y1 * maxX + x) (fun x => y2 * maxX + x) color)
      (Inked ink) := by
    apply draws_setBlanks
    · intro x hin
      rw [mem_between (by omega)] at hin
      simp only [maxX, maxY]
      omega
    · intro x hin
      rw [mem_between (by omega)] at hin
      simp only [maxX, maxY]
      omega
  have hcols : Draws Screen.video (Inked ink)
      {i | ∃ y ∈ between y1 (y2 + 1), i = y * maxX + x1 ∨ i = y * maxX + x2} (fun _ => blank color)
      (setBlanks (between y1 (y2 + 1)) (fun y => y * maxX + x1) (fun y => y * maxX + x2) color)
      (Inked ink) := by
    apply draws_setBlanks
    · intro y hin
      rw [mem_between (by omega)] at hin
      simp only [maxX, maxY]
      omega
    · intro y hin
      rw [mem_between (by omega)] at hin
      simp only [maxX, maxY]
      omega
  apply (hrows.and hcols).congr
  · intro i
    constructor
    · rintro ⟨h1, h2, h3, h4, hside⟩
      simp only [maxX] at *
      have hsplit : i % 80 = x1 ∨ i % 80 = x2 ∨ i / 80 = y1 ∨ i / 80 = y2 := hside
      by_cases hrow : i / 80 = y1 ∨ i / 80 = y2
      · exact .inl ⟨i % 80, (mem_between (by omega)).mpr (by omega), by omega⟩
      · exact .inr ⟨i / 80, (mem_between (by omega)).mpr (by omega), by omega⟩
    · rintro (⟨x, hin, hi⟩ | ⟨y, hin, hi⟩)
      · rw [mem_between (by omega)] at hin
        simp only [Rim, maxX, Set.mem_ofPred_eq] at *
        omega
      · rw [mem_between (by omega)] at hin
        simp only [Rim, maxX, Set.mem_ofPred_eq] at *
        omega
  · intro i _
    rfl

/-- A text within one line, on any screen. -/
lemma draws_textAt {str : List Byte} {x y : ℕ} (hstr : ∀ c ∈ str, Plain c)
    (hx : x + str.length < maxX) (hy : y < maxY) :
    Draws Screen.video (fun _ => True)
      {i | x ≤ i % maxX ∧ i % maxX < x + str.length ∧ i / maxX = y}
      (fun i => ⟨str.getD (i % maxX - x) 0, color⟩)
      (fun s => textModeString str
        { s with x := BitVec.ofNat 16 x, y := BitVec.ofNat 16 y, color := color })
      (Inked color) := by
  have h80 : maxX = 80 := rfl
  have h25 : maxY = 25 := rfl
  have htext : Draws Screen.video (At x y color)
      {i | ∃ k < str.length, i = y * maxX + (x + k)} (fun i => ⟨str.getD (i % maxX - x) 0, color⟩)
      (textModeString str) (At (x + str.length) y color) := by
    apply draws_textModeString hstr hx hy
    intro k hk
    have hcol : (y * maxX + (x + k)) % maxX - x = k := by
      rw [h80] at hx ⊢
      omega
    rw [hcol, List.getD_eq_getElem?_getD, List.getElem?_eq_getElem hk]
    rfl
  have hset := (htext.mono (fun _ h => h) fun s h => (h.color_eq : Inked color s)).after
    (P := fun _ => True)
    (u := fun s => { s with x := BitVec.ofNat 16 x, y := BitVec.ofNat 16 y, color := color })
    (fun s _ => ⟨Nat.mod_eq_of_lt (by omega), Nat.mod_eq_of_lt (by omega), rfl⟩) fun s => rfl
  apply hset.congr
  · intro i
    constructor
    · rintro ⟨h1, h2, h3⟩
      rw [h80] at *
      exact ⟨i % 80 - x, by omega, by omega⟩
    · rintro ⟨k, hk, hi⟩
      simp only [Set.mem_ofPred_eq, h80] at *
      omega
  · intro i _
    rfl

/-- What `draw_game_borders` writes, on any screen. -/
def border (g : Game) (i : ℕ) : VideoCell :=
  if InScore i then ⟨scoreDigit g.score (i % maxX), scoreColor⟩ else stillCell i

/-- The label is above the score. -/
lemma border_label (hi : InLabel i) :
    border g i = ⟨scoreText.getD (i % maxX - scoreLocX) 0, scoreColor⟩ := by
  have hout : ¬ InScore i := by
    rintro ⟨-, -, hrow⟩
    rw [hi.2.2] at hrow
    cases hrow
  rw [border, if_neg hout, stillCell, if_pos hi]

/-- The frame goes through neither. -/
lemma border_frame (hi : OnFrame i) : border g i = blank borderColor := by
  have hX : originX = 30 := rfl
  have hY : originY = 2 := rfl
  have hS : scoreText.length = 6 := rfl
  have hscore : ¬ InScore i := by
    simp only [OnFrame, Rim, InScore, scoreLocX, scoreLocY, scoreLen, nextPieceOriginX,
      nextPieceOriginY, nextPieceSizeX, nextPieceSizeY, maxVgaY, hX, hY, boardX, boardY] at *
    omega
  have hlabel : ¬ InLabel i := by
    simp only [OnFrame, Rim, InLabel, hS, scoreLocX, scoreLocY, nextPieceOriginX,
      nextPieceOriginY, nextPieceSizeX, nextPieceSizeY, maxVgaY, hX, hY, boardX, boardY] at *
    omega
  rw [border, if_neg hscore, stillCell, if_neg hlabel, if_pos hi]

lemma draws_drawGameBorders : Draws Screen.video (fun _ => True)
    {i | InLabel i ∨ InScore i ∨ OnFrame i} (border g) (drawGameBorders g) (Inked scoreColor) := by
  have hlabel : Draws Screen.video (fun _ => True) {i | InLabel i} (border g)
      (fun s => textModeString scoreText { s with
        x := BitVec.ofNat 16 scoreLocX
        y := BitVec.ofNat 16 (scoreLocY - 1)
        color := scoreColor }) (Inked scoreColor) := by
    apply (draws_textAt (by decide) (by decide) (by decide)).congr (fun _ => Iff.rfl)
    intro i hi
    exact (border_label hi).symm
  have hscore : Draws Screen.video (Inked scoreColor) {i | InScore i} (border g) (drawScore g)
      (Inked scoreColor) := draws_drawScore fun i hi => if_pos hi
  have hrim {x1 y1 x2 y2 : ℕ} (hx : x1 ≤ x2) (hy : y1 ≤ y2) (hx2 : x2 < maxX) (hy2 : y2 < maxY)
      (hon : ∀ i, Rim x1 y1 x2 y2 i → OnFrame i) :
      Draws Screen.video (Inked scoreColor) {i | Rim x1 y1 x2 y2 i} (border g)
        (drawRim x1 y1 x2 y2 borderColor) (Inked scoreColor) :=
    (draws_drawRim hx hy hx2 hy2).congr (fun _ => Iff.rfl)
      fun i hi => (border_frame (hon i hi)).symm
  apply hlabel.and
  apply hscore.and
  apply Draws.and
  · exact hrim (by decide) (by decide) (by decide) (by decide) fun i hi => .inl hi
  · exact hrim (by decide) (by decide) (by decide) (by decide) fun i hi => .inr hi

lemma draws_drawGameOver : Draws Screen.video (fun _ => True) {i | InCaption i}
    (fun i => ⟨gameOverText.getD (i % maxX - (originX + (boardX * 2 - 8) / 2)) 0, gameOverColor⟩)
    drawGameOver (Inked gameOverColor) :=
  draws_textAt (by decide) (by decide) (by decide)

lemma draws_clearNextPieceBox : Draws Screen.video (Inked ink) {i | InBox i}
    (fun _ => blank backgroundColor) clearNextPieceBox (Inked ink) := by
  have hX : nextPieceOriginX = 13 := rfl
  have hY : nextPieceOriginY = 2 := rfl
  have hloop : Draws Screen.video (Inked ink) {i | ∃ y ∈ List.range nextPieceSizeY,
        i ∈ {i | ∃ x ∈ List.range nextPieceSizeX,
          i ∈ ({(y + nextPieceOriginY) * maxX + (x + nextPieceOriginX)} : Set ℕ)}}
      (fun _ => blank backgroundColor) clearNextPieceBox (Inked ink) := by
    apply Draws.loop
    intro y hy
    apply Draws.loop
    intro x hx
    rw [List.mem_range] at hx hy
    refine draws_setVideo ?_ rfl Inked.video
    simp only [nextPieceSizeX, nextPieceSizeY, maxX, maxY, hX, hY] at *
    omega
  apply hloop.congr
  · intro i
    simp only [InBox, nextPieceSizeX, nextPieceSizeY, maxX, hX, hY, Set.mem_ofPred_eq,
      Set.mem_singleton_iff, List.mem_range]
    constructor
    · intro h
      exact ⟨i / 80 - 2, by omega, i % 80 - 13, by omega, by omega⟩
    · rintro ⟨y, hy, x, hx, hi⟩
      omega
  · intro i _
    rfl

/-- A next piece fits into the box. -/
lemma nextPiece_cells : ∀ piece, ∀ c ∈ (blockOffsets 0 piece).cells,
    -1 ≤ c.1 ∧ c.1 ≤ 2 ∧ 0 ≤ c.2 ∧ c.2 ≤ 1 := by
  intro piece
  cases piece <;> decide

lemma draws_drawNextPiece : Draws Screen.video (Inked ink)
    {i | InBox i ∧ (((i % maxX : ℕ) - 18 : ℤ) / 2, ((i / maxX : ℕ) - 4 : ℤ))
      ∈ (blockOffsets 0 g.nextPiece).cells}
    (fun _ => blank (pieceColors (some g.nextPiece))) (drawNextPiece g) (Inked ink) := by
  have hcells := nextPiece_cells g.nextPiece
  have hpiece : Draws Screen.video (Inked ink)
      {i | PieceAt 18 4 (blockOffsets 0 g.nextPiece).cells i}
      (fun _ => blank (pieceColors (some g.nextPiece))) (drawNextPiece g) (Inked ink) := by
    apply draws_drawPiece
    intro c hc
    have := hcells c hc
    rw [blockAt]
    omega
  have hX : nextPieceOriginX = 13 := rfl
  have hY : nextPieceOriginY = 2 := rfl
  apply hpiece.congr
  · intro i
    simp only [PieceAt, blockAt, InBox, nextPieceSizeX, nextPieceSizeY, maxX, hX, hY,
      Set.mem_ofPred_eq]
    constructor
    · rintro ⟨hbox, hmem⟩
      exact ⟨_, hmem, by dsimp only; omega⟩
    · rintro ⟨c, hc, hi⟩
      have := hcells c hc
      refine ⟨by omega, ?_⟩
      have hcell : (((i % 80 : ℕ) - 18 : ℤ) / 2, ((i / 80 : ℕ) - 4 : ℤ)) = c :=
        Prod.ext (by dsimp only; omega) (by dsimp only; omega)
      rw [hcell]
      exact hc
  · intro i _
    rfl

end Bikeshed.Tetris
