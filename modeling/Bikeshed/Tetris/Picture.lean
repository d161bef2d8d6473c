import Bikeshed.Tetris.Accounts
import Bikeshed.Tetris.Drawing

/-!
# The picture of a game

What the screen is to show, cell by cell, as a function of the game: the board with the piece that
falls, the next piece in its box, the last ten digits of the score, and the frame around them.
-/

namespace Bikeshed.Tetris

open Lib Vga

variable {g g' : Game} {i col row x y : ℕ} {color : Color}

/-- A cell that is nothing but its background. -/
def blank (color : Color) : VideoCell := ⟨0x20, color⟩

/-- The byte 0 looks like a blank. -/
def Looks (a b : VideoCell) : Prop :=
  a.color = b.color ∧ (a.c = b.c ∨ a.c = 0 ∧ b.c = 0x20)

lemma Looks.refl (a : VideoCell) : Looks a a := ⟨rfl, .inl rfl⟩

/-! ## The parts of the screen -/

/-- The board is 20 cells wide on the screen. -/
def OnBoard (i : ℕ) : Prop :=
  originX ≤ i % maxX ∧ i % maxX < originX + boardX * 2 ∧ originY ≤ i / maxX ∧ i / maxX < maxVgaY

def InBox (i : ℕ) : Prop :=
  nextPieceOriginX ≤ i % maxX ∧ i % maxX < nextPieceOriginX + nextPieceSizeX ∧
    nextPieceOriginY ≤ i / maxX ∧ i / maxX < nextPieceOriginY + nextPieceSizeY

def InScore (i : ℕ) : Prop :=
  scoreLocX ≤ i % maxX ∧ i % maxX < scoreLocX + scoreLen ∧ i / maxX = scoreLocY

def InLabel (i : ℕ) : Prop :=
  scoreLocX ≤ i % maxX ∧ i % maxX < scoreLocX + scoreText.length ∧ i / maxX = scoreLocY - 1

/-- A rectangle from its first cell to its last. -/
def Rim (x1 y1 x2 y2 : ℕ) (i : ℕ) : Prop :=
  x1 ≤ i % maxX ∧ i % maxX ≤ x2 ∧ y1 ≤ i / maxX ∧ i / maxX ≤ y2 ∧
    (i % maxX = x1 ∨ i % maxX = x2 ∨ i / maxX = y1 ∨ i / maxX = y2)

/-- One rectangle around the board and one around the box. -/
def OnFrame (i : ℕ) : Prop :=
  Rim (originX - 1) (originY - 1) (originX + boardX * 2) maxVgaY i ∨
    Rim (nextPieceOriginX - 1) (nextPieceOriginY - 1) (nextPieceOriginX + nextPieceSizeX + 1)
      (nextPieceOriginY + nextPieceSizeY + 1) i

/-- Where `draw_game_over` writes, over the board. -/
def InCaption (i : ℕ) : Prop :=
  originX + (boardX * 2 - 8) / 2 ≤ i % maxX ∧
    i % maxX < originX + (boardX * 2 - 8) / 2 + gameOverText.length ∧
    i / maxX = originY + boardY / 2

instance : DecidablePred OnBoard := fun _ => inferInstanceAs (Decidable (_ ∧ _))
instance : DecidablePred InBox := fun _ => inferInstanceAs (Decidable (_ ∧ _))
instance : DecidablePred InScore := fun _ => inferInstanceAs (Decidable (_ ∧ _))
instance : DecidablePred InLabel := fun _ => inferInstanceAs (Decidable (_ ∧ _))
instance (x1 y1 x2 y2 : ℕ) : DecidablePred (Rim x1 y1 x2 y2) :=
  fun _ => inferInstanceAs (Decidable (_ ∧ _))
instance : DecidablePred OnFrame := fun _ => inferInstanceAs (Decidable (_ ∨ _))
instance : DecidablePred InCaption := fun _ => inferInstanceAs (Decidable (_ ∧ _))

/-! ## What they show -/

/-- There are four rotations. -/
local instance pieceRotations_neZero : NeZero 4 := inferInstance

/-- Two cells are the same when their coordinates are. -/
local instance cell_lawfulBEq : LawfulBEq (ℤ × ℤ) := inferInstance

/-- The colour of a cell of the board. Full lines flash before they are cleared. -/
def boardColor (g : Game) (x y : ℕ) : Color :=
  if g.phase = .shiftDownBlocks ∧ ((x : ℤ), (y : ℤ)) ∈ g.blocks then
    pieceColors (some g.currentPiece)
  else if g.phase = .lineCheckFlash ∧ g.fullLines y = true ∧ g.flashCount.getLsbD 0 = true then
    borderColor
  else pieceColors (g.gameboard y x)

/-- The next piece stands with its origin in the middle of the box. -/
def boxColor (piece : Piece) (col row : ℕ) : Color :=
  if (((col : ℤ) - (nextPieceOriginX + nextPieceSizeX / 2 - 1 : ℕ)) / 2,
      (row : ℤ) - (nextPieceOriginY + nextPieceSizeY / 2 : ℕ)) ∈ (blockOffsets 0 piece).cells then
    pieceColors (some piece)
  else backgroundColor

/-- The digit of the score in this column. -/
def scoreDigit (score : BitVec 64) (col : ℕ) : Byte :=
  0x30 + BitVec.ofNat 8 (score.toNat / 10 ^ (scoreLocX + scoreLen - 1 - col) % 10)

/-- What `draw_game_borders` has drawn, the score apart. -/
def stillCell (i : ℕ) : VideoCell :=
  if InLabel i then ⟨scoreText.getD (i % maxX - scoreLocX) 0, scoreColor⟩
  else if OnFrame i then blank borderColor
  else blank backgroundColor

/-- The box is empty before the first piece falls. -/
def Game.started (g : Game) (pieces : ℕ) : Bool := decide (0 < pieces ∨ g.phase ≠ .spawnBlock)

def picture (g : Game) (pieces : ℕ) (i : ℕ) : VideoCell :=
  if OnBoard i then blank (boardColor g ((i % maxX - originX) / 2) (i / maxX - originY))
  else if InBox i then
    if g.started pieces = true then blank (boxColor g.nextPiece (i % maxX) (i / maxX))
    else blank backgroundColor
  else if InScore i then ⟨scoreDigit g.score (i % maxX), scoreColor⟩
  else stillCell i

/-- The screen shows the game. A game that is over shows its last picture, with the caption over
it from the next tick on. -/
structure Shows (g : Game) (pieces : ℕ) (s : Screen) : Prop where
  cells : ∀ i < maxX * maxY, (g.phase = .gameOver → ¬ InCaption i) →
    Looks (s.video i) (picture g pieces i)
  color : g.phase ≠ .gameOver → s.color = scoreColor
  caption : g.phase = .gameOver → (∀ i, InCaption i → Looks (s.video i) (picture g pieces i)) ∨
    ∀ i, InCaption i → s.video i
      = ⟨gameOverText.getD (i % maxX - (originX + (boardX * 2 - 8) / 2)) 0, gameOverColor⟩

end Bikeshed.Tetris
