import Bikeshed.Shell.Vga
import Bikeshed.Tetris.Tetris

/-!
# What `tetris.c` draws

The game of `Bikeshed.Tetris.Tetris` with the screen it is drawn on. The parts of `update` that
draw nothing are those of the game itself (`playing`).
-/

namespace Bikeshed.Tetris

open Lib Vga

/-- `BOARD_ORIGIN_X` and `BOARD_ORIGIN_Y`, where the source counts without a sign. -/
def originX : ℕ := boardOriginX.toNat
/-- The board is drawn from here on. -/
def originY : ℕ := boardOriginY.toNat
def scoreLocX : ℕ := originX + boardX * 2 + 4
def scoreLocY : ℕ := originY
def scoreLen : ℕ := 10
def nextPieceOriginX : ℕ := originX - 17
def nextPieceOriginY : ℕ := originY
def nextPieceSizeX : ℕ := 12
def nextPieceSizeY : ℕ := 4
def maxVgaY : ℕ := originY + boardY

/-- `piece_colors` -/
def pieceColors : Cell → Color
  | some .i => ⟨fgBlack, bgGreen, 0⟩
  | some .j => ⟨fgBlack, bgCyan, 0⟩
  | some .l => ⟨fgBlack, bgBlue, 0⟩
  | some .o => ⟨fgBlack, bgRed, 0⟩
  | some .s => ⟨fgBlack, bgMagenta, 0⟩
  | some .t => ⟨fgBlack, bgGreen, 0⟩
  | some .z => ⟨fgBlack, bgBrown, 0⟩
  | none => ⟨fgBlack, bgBlack, 0⟩

def backgroundColor : Color := ⟨fgBlack, bgBlack, 0⟩
def borderColor : Color := ⟨fgBlack, bgWhite, 0⟩
def scoreColor : Color := ⟨fgWhite, bgBlack, 0⟩
def gameOverColor : Color := ⟨fgRed, bgWhite, 0⟩

/-- `for (x = lo; x < hi; ++x)` -/
def between (lo hi : ℕ) : List ℕ := List.range' lo (hi - lo)

/-- `video[off].c = ' '; video[off].color = color`, where `off` has a sign. -/
def setBlank (off : ℤ) (color : Color) (s : Screen) : Option Screen :=
  if 0 ≤ off then setVideo off.toNat 0x20 color s else none

/-- Two blanks in each round. -/
def setBlanks (l : List ℕ) (off1 off2 : ℕ → ℕ) (color : Color) (s : Screen) : Option Screen :=
  l.foldlM (fun s x => do
    let s ← setVideo (off1 x) 0x20 color s
    setVideo (off2 x) 0x20 color s) s

/-! ## The score -/

/-- The second loop of `draw_score`, for the `n` places that are left. -/
def drawZeros : ℕ → ℕ → Screen → Option Screen
  | 0, _, s => some s
  | n + 1, screenX, s => do
    let s ← textModeChar 0x30 { s with x := BitVec.ofNat 16 screenX }
    drawZeros n (screenX - 1) s

/-- The first loop of `draw_score`, and the second after it. -/
def drawDigits : ℕ → BitVec 64 → ℕ → Screen → Option Screen
  | 0, _, _, s => some s
  | n + 1, scoreTemp, screenX, s =>
    if scoreTemp ≠ 0 then do
      let s ← textModeChar (0x30 + (scoreTemp % 10).setWidth 8)
        { s with x := BitVec.ofNat 16 screenX }
      drawDigits n (scoreTemp / 10) (screenX - 1) s
    else drawZeros (n + 1) screenX s

/-- Ten digits, from the right -/
def drawScore (g : Game) (s : Screen) : Option Screen :=
  drawDigits scoreLen g.score (scoreLocX + scoreLen - 1) { s with y := BitVec.ofNat 16 scoreLocY }

/-! ## The frame -/

def gameOverText : List Byte := text ['G', 'a', 'm', 'e', ' ', 'O', 'v', 'e', 'r', '!']

def scoreText : List Byte := text ['S', 'c', 'o', 'r', 'e', ':']

def drawGameOver (s : Screen) : Option Screen :=
  textModeString gameOverText { s with
    x := BitVec.ofNat 16 (originX + (boardX * 2 - 8) / 2)
    y := BitVec.ofNat 16 (originY + boardY / 2)
    color := gameOverColor }

/-- Two loops of `draw_game_borders`: the top and the bottom, then the sides. -/
def drawRim (x1 y1 x2 y2 : ℕ) (color : Color) (s : Screen) : Option Screen := do
  let s ← setBlanks (between x1 (x2 + 1)) (fun x => y1 * maxX + x) (fun x => y2 * maxX + x) color s
  setBlanks (between y1 (y2 + 1)) (fun y => y * maxX + x1) (fun y => y * maxX + x2) color s

def drawGameBorders (g : Game) (s : Screen) : Option Screen := do
  let s ← textModeString scoreText { s with
    x := BitVec.ofNat 16 scoreLocX
    y := BitVec.ofNat 16 (scoreLocY - 1)
    color := scoreColor }
  let s ← drawScore g s
  let s ← drawRim (originX - 1) (originY - 1) (originX + boardX * 2) maxVgaY borderColor s
  drawRim (nextPieceOriginX - 1) (nextPieceOriginY - 1) (nextPieceOriginX + nextPieceSizeX + 1)
    (nextPieceOriginY + nextPieceSizeY + 1) borderColor s

/-! ## Pieces and lines -/

/-- Each block of a piece is two cells wide. -/
def drawPiece (ox oy : ℤ) (rotation : Fin 4) (piece : Piece) (color : Color) (s : Screen) :
    Option Screen :=
  (blockOffsets rotation piece).cells.foldlM (fun s c => do
    let px := c.1 * 2 + ox
    let py := c.2 + oy
    let off1 := py * 80 + px
    let s ← setBlank off1 color s
    setBlank (off1 + 1) color s) s

def drawCurrentPiece (g : Game) (s : Screen) : Option Screen :=
  drawPiece g.pieceOriginX g.pieceOriginY g.currentRotation g.currentPiece
    (pieceColors (some g.currentPiece)) s

/-- A line in one colour, or in those of its blocks -/
def drawGameboardLine (board : ℕ → ℕ → Cell) (line : ℕ) (solid : Bool) (color : Color)
    (s : Screen) : Option Screen :=
  (List.range boardX).foldlM (fun s x => do
    let whichColor := if solid = true then color else pieceColors (board line x)
    let off1 := (originY + line) * maxX + (originX + x * 2)
    let s ← setVideo off1 0x20 whichColor s
    setVideo (off1 + 1) 0x20 whichColor s) s

/-- The lines that are marked, in one colour at every other count -/
def drawFlashLines (g : Game) (s : Screen) : Option Screen :=
  (List.range boardY).foldlM (fun s i =>
    if g.fullLines i = true then
      drawGameboardLine g.gameboard i (g.flashCount.getLsbD 0) borderColor s
    else some s) s

/-- All cells of the box are blank. -/
def clearNextPieceBox (s : Screen) : Option Screen :=
  (List.range nextPieceSizeY).foldlM (fun s y =>
    (List.range nextPieceSizeX).foldlM (fun s x =>
      setVideo ((y + nextPieceOriginY) * maxX + (x + nextPieceOriginX)) 0x20 backgroundColor s)
      s) s

/-- There are four rotations. -/
local instance rotations_neZero : NeZero 4 := inferInstance

/-- The piece in the middle of the box -/
def drawNextPiece (g : Game) (s : Screen) : Option Screen :=
  drawPiece (nextPieceOriginX + nextPieceSizeX / 2 - 1 : ℕ)
    (nextPieceOriginY + nextPieceSizeY / 2 : ℕ) 0 g.nextPiece (pieceColors (some g.nextPiece)) s

/-- The first loop of `clear_lines`, which draws each line that it has copied. -/
def copyLines (drop : ℕ → Bool) : ℕ → ℕ → (ℕ → ℕ → Cell) → Screen →
    Option (ℕ × (ℕ → ℕ → Cell) × Screen)
  | 0, _, rows, s => some (0, rows, s)
  | y + 1, copyLine, rows, s =>
    match skipDown drop copyLine with
    | 0 => some (y + 1, rows, s)
    | c + 1 => do
      let rows := Function.update rows y (rows c)
      let s ← drawGameboardLine rows y false backgroundColor s
      copyLines drop y c rows s

/-- The second loop of `clear_lines`. -/
def emptyLines : ℕ → (ℕ → ℕ → Cell) → Screen → Option ((ℕ → ℕ → Cell) × Screen)
  | 0, rows, s => some (rows, s)
  | y + 1, rows, s => do
    let rows := Function.update rows y fun _ => none
    let s ← drawGameboardLine rows y true backgroundColor s
    emptyLines y rows s

/-- `clear_lines`, the new board and the screen. -/
def clearLinesDrawn (g : Game) (s : Screen) : Option ((ℕ → ℕ → Cell) × Screen) := do
  let (y, rows, s) ← copyLines g.fullLines boardY boardY g.gameboard s
  emptyLines y rows s

/-! ## One tick -/

/-- A game with its screen -/
structure Shown where
  game : Game
  screen : Screen

abbrev Draw (α : Type) := Prog Shown Fault α

/-- Code that draws nothing. -/
def playing {α : Type} (c : Play α) : Draw α := fun p =>
  match c p.game with
  | .ok (a, g) => .ok (a, { p with game := g })
  | .error e => .error e

/-- Code that only draws. -/
def drawing (d : Game → Screen → Option Screen) : Draw Unit := fun p =>
  match d p.game p.screen with
  | some s => .ok ((), { p with screen := s })
  | none => .error .outOfBounds

/-- `clear_lines` does both. -/
def clearing : Draw Unit := fun p =>
  match clearLinesDrawn p.game p.screen with
  | some (rows, s) => .ok ((), ⟨{ p.game with gameboard := rows }, s⟩)
  | none => .error .outOfBounds

/-- The state is set before the pieces are drawn here; `draw_piece` does not read it. -/
def spawnBlockShown : Draw Unit := do
  playing (modify spawnBlock)
  drawing fun _ => clearNextPieceBox
  drawing drawNextPiece
  let p ← get
  if p.game.state = .shiftDownBlocks then drawing drawCurrentPiece else pure ()

/-- The falling piece is cleared, moved and drawn again. -/
def shiftDownBlocksShown (k : Pressed) : Draw Unit := do
  let old ← get
  playing (shiftDownBlocks k)
  let p ← get
  if old.game.pieceOriginX ≠ p.game.pieceOriginX ∨ old.game.pieceOriginY ≠ p.game.pieceOriginY ∨
      old.game.currentRotation ≠ p.game.currentRotation then do
    drawing fun g => drawPiece old.game.pieceOriginX old.game.pieceOriginY
      old.game.currentRotation g.currentPiece backgroundColor
    drawing drawCurrentPiece
  else pure ()

/-- The first `if` of the state. -/
def toggleFlash : Draw Unit := do
  let p ← get
  if ticksPerFlash < p.game.flashTicks then do
    playing (modify fun g => { g with flashTicks := 0, flashCount := g.flashCount + 1 })
    drawing drawFlashLines
  else pure ()

/-- The second `if` of the state. -/
def endFlash : Draw Unit := do
  let p ← get
  if numFlashes ≤ p.game.flashCount then do
    clearing
    playing (modify updateScore)
    drawing drawScore
    playing (modify fun g => { g with state := .spawnBlock })
  else pure ()

def lineCheckFlashShown : Draw Unit := do
  playing (modify fun g => { g with flashTicks := g.flashTicks + 1 })
  toggleFlash
  endFlash

/-- The `switch` of `update`. -/
def switchStateShown (k : Pressed) : Draw Unit := do
  let p ← get
  match p.game.state with
  | .spawnBlock => spawnBlockShown
  | .shiftDownBlocks => shiftDownBlocksShown k
  | .lineCheck => playing (modify lineCheck)
  | .lineCheckFlash => lineCheckFlashShown
  | .pause => pure ()
  | .gameOver => drawing fun _ => drawGameOver

/-- `update`, with what it draws. -/
def updateShown (keys : List Byte) : Draw Unit :=
  let k := updateKeys keys
  if k.quit = true then
    playing (modify fun g => { g with quit := true })
  else do
    playing (modify fun g => if k.pause = true then pauseGame g else g)
    switchStateShown k

/-- `tetris` before the first round of its loop, called with any screen. -/
def tetrisShown (g : Game) (s : Screen) (key1 key2 key3 key4 : Byte) : Option Shown := do
  let s ← clearScreen s
  let s ← drawGameBorders (resetTetris g) s
  some ⟨tetris g key1 key2 key3 key4, s⟩

/-- A game with its screen, in which so many pieces have come to rest and so many lines were
cleared. -/
inductive Plays : Shown → ℕ → ℕ → Prop
  | start {g : Game} {s : Screen} {key1 key2 key3 key4 : Byte} {p : Shown} :
      tetrisShown g s key1 key2 key3 key4 = some p → Plays p 0 0
  | tick {p p' : Shown} {pieces lines : ℕ} {keys : List Byte} : Plays p pieces lines →
      p.game.quit = false → updateShown keys p = .ok ((), p') →
      Plays p' (pieces + if p'.game.placed = p.game.placed then 0 else 1)
        (lines + (p'.game.linesCleared - p.game.linesCleared).toNat)

end Bikeshed.Tetris
