import Bikeshed.Lib.Wp
import Bikeshed.Lib.Compact
import Bikeshed.Lib.Word

/-!
# The game of `tetris.c`

The static variables of `tetris.c` and `rand.c` and one call of `update`, the body of the game
loop. What is drawn is in `Bikeshed.Tetris.Drawing`: nothing of it is read back. `gameboard[x][y]`
is `gameboard y x` here, so that a line of the board is one value; only the cells with
`x < BOARD_X` and `y < BOARD_Y` exist, and a write to any other is the fault `outOfBounds`.
-/

namespace Bikeshed.Tetris

open Lib

def boardX : ℕ := 10
def boardY : ℕ := 20
def boardOriginX : ℤ := 30
def boardOriginY : ℤ := 2
def numFlashes : BitVec 32 := 6
def ticksPerFlash : BitVec 32 := 1
def ticksPerSecDefault : BitVec 32 := 1000 / 16

/-- `SCREEN_X_TO_BOARD_X(SCREEN_X)`; a division in C rounds towards zero. -/
def screenXToBoardX (x : ℤ) : ℤ := (x - boardOriginX).tdiv 2

/-- `SCREEN_Y_TO_BOARD_Y(SCREEN_Y)` -/
def screenYToBoardY (y : ℤ) : ℤ := y - boardOriginY

/-- The values of `piece_t` that a piece can have. -/
inductive Piece where
  | i | j | l | o | s | t | z
deriving DecidableEq

/-- A cell of the board; `none` is `P_E`. -/
abbrev Cell := Option Piece

structure BlockMap where
  arrX : List ℤ
  arrY : List ℤ

/-- The offsets of the four blocks. -/
def BlockMap.cells (b : BlockMap) : List (ℤ × ℤ) := b.arrX.zip b.arrY

def blockOffsets : Fin 4 → Piece → BlockMap
  | 0, .i => ⟨[-1, 0, 1, 2], [0, 0, 0, 0]⟩
  | 0, .j => ⟨[-1, 0, 1, 1], [0, 0, 0, 1]⟩
  | 0, .l => ⟨[-1, -1, 0, 1], [0, 1, 0, 0]⟩
  | 0, .o => ⟨[0, 1, 0, 1], [0, 0, 1, 1]⟩
  | 0, .s => ⟨[-1, 0, 0, 1], [1, 1, 0, 0]⟩
  | 0, .t => ⟨[-1, 0, 0, 1], [0, 0, 1, 0]⟩
  | 0, .z => ⟨[-1, 0, 0, 1], [0, 0, 1, 1]⟩
  | 1, .i => ⟨[0, 0, 0, 0], [-1, 0, 1, 2]⟩
  | 1, .j => ⟨[0, 0, 0, -1], [-1, 0, 1, 1]⟩
  | 1, .l => ⟨[-1, 0, 0, 0], [-1, -1, 0, 1]⟩
  | 1, .o => ⟨[0, 1, 0, 1], [0, 0, 1, 1]⟩
  | 1, .s => ⟨[-1, -1, 0, 0], [-1, 0, 0, 1]⟩
  | 1, .t => ⟨[0, 0, -1, 0], [-1, 0, 0, 1]⟩
  | 1, .z => ⟨[0, 0, 1, 1], [1, 0, 0, -1]⟩
  | 2, .i => ⟨[-1, 0, 1, 2], [0, 0, 0, 0]⟩
  | 2, .j => ⟨[1, 0, -1, -1], [0, 0, 0, -1]⟩
  | 2, .l => ⟨[1, 1, 0, -1], [0, -1, 0, 0]⟩
  | 2, .o => ⟨[0, 1, 0, 1], [0, 0, 1, 1]⟩
  | 2, .s => ⟨[-1, 0, 0, 1], [1, 1, 0, 0]⟩
  | 2, .t => ⟨[-1, 0, 0, 1], [0, 0, -1, 0]⟩
  | 2, .z => ⟨[-1, 0, 0, 1], [0, 0, 1, 1]⟩
  | 3, .i => ⟨[0, 0, 0, 0], [-1, 0, 1, 2]⟩
  | 3, .j => ⟨[0, 0, 0, 1], [1, 0, -1, -1]⟩
  | 3, .l => ⟨[1, 0, 0, 0], [1, 1, 0, -1]⟩
  | 3, .o => ⟨[0, 1, 0, 1], [0, 0, 1, 1]⟩
  | 3, .s => ⟨[-1, -1, 0, 0], [-1, 0, 0, 1]⟩
  | 3, .t => ⟨[0, 0, 1, 0], [-1, 0, 0, 1]⟩
  | 3, .z => ⟨[0, 0, 1, 1], [1, 0, 0, -1]⟩

inductive GameState where
  | spawnBlock | shiftDownBlocks | lineCheck | lineCheckFlash | pause | gameOver
deriving DecidableEq

structure Game where
  gameboard : ℕ → ℕ → Cell
  currentPiece : Piece
  nextPiece : Piece
  state : GameState
  statePausePrev : GameState
  quit : Bool
  fullLines : ℕ → Bool
  currentRotation : Fin 4
  pieceOriginX : ℤ
  pieceOriginY : ℤ
  ticks : BitVec 32
  flashTicks : BitVec 32
  flashCount : BitVec 32
  ticksPerDrop : BitVec 32
  linesCleared : BitVec 64
  score : BitVec 64
  /-- `next` of `rand.c` -/
  next : BitVec 32
  /-- Ghost state: the cells that `place_current_block_on_board` has written so far. -/
  placed : List (ℤ × ℤ)

/-- The variables before the first game. -/
def zeroed : Game where
  gameboard := fun _ _ => some .i
  currentPiece := .i
  nextPiece := .i
  state := .spawnBlock
  statePausePrev := .spawnBlock
  quit := false
  fullLines := fun _ => false
  currentRotation := 0
  pieceOriginX := 0
  pieceOriginY := 0
  ticks := 0
  flashTicks := 0
  flashCount := 0
  ticksPerDrop := ticksPerSecDefault
  linesCleared := 0
  score := 0
  next := 0xC001C0DE
  placed := []

inductive Fault where
  | outOfBounds
  | diverges
deriving DecidableEq

abbrev Play (α : Type) := Prog Game Fault α

/-! ## The random numbers -/

/-- `seed`, on the variable `next`. -/
def seed (s : BitVec 64) : BitVec 32 := s.setWidth 32

/-- What `random32` makes of `next`. -/
def nextRandom (next : BitVec 32) : BitVec 32 := next * 1103515245 + 12345

/-- What `random32` returns for the new `next`. -/
def random32 (next : BitVec 32) : BitVec 32 := next / 65536 % 32768

/-- The value of `piece_t` that a remainder modulo `NUM_PIECES` is. -/
def pieceOfRemainder : ℕ → Piece
  | 0 => .i
  | 1 => .j
  | 2 => .l
  | 3 => .o
  | 4 => .s
  | 5 => .t
  | _ => .z

def choosePiece (g : Game) : Game :=
  let next := nextRandom g.next
  { g with next, nextPiece := pieceOfRemainder ((random32 next).toNat % 7) }

/-! ## The falling piece -/

/-- The cells that `gameboard` has. -/
def InBoard (x y : ℤ) : Prop := 0 ≤ x ∧ x < boardX ∧ 0 ≤ y ∧ y < boardY

instance (x y : ℤ) : Decidable (InBoard x y) := inferInstanceAs (Decidable (_ ∧ _))

def checkCollision (gameboard : ℕ → ℕ → Cell) (ox oy : ℤ) (rotation : Fin 4) (piece : Piece) :
    Bool :=
  (blockOffsets rotation piece).cells.any fun c =>
    decide (¬ InBoard (c.1 + ox) (c.2 + oy)) ||
      (gameboard (c.2 + oy).toNat (c.1 + ox).toNat).isSome

/-- Whether the piece at this offset from its place collides. -/
def Game.collides (g : Game) (dx dy : ℤ) (rotation : Fin 4) : Bool :=
  checkCollision g.gameboard (screenXToBoardX g.pieceOriginX + dx)
    (screenYToBoardY g.pieceOriginY + dy) rotation g.currentPiece

/-- Returns 1 if the piece cannot move down. -/
def shiftDown : Play Bool := do
  let g ← get
  if g.collides 0 1 g.currentRotation then
    pure true
  else do
    modify fun g => { g with pieceOriginY := g.pieceOriginY + 1 }
    pure false

structure Pressed where
  quit : Bool
  rotate : Bool
  left : Bool
  right : Bool
  drop : Bool
  pause : Bool
  down : Bool

/-- The flags after the keys that were available have been read. -/
def updateKeys (keys : List Byte) : Pressed :=
  let hit (c : Char) : Bool := keys.any fun key => key.toNat == c.toNat
  { quit := hit 'q' || hit 'Q'
    rotate := hit 'w' || hit 'W'
    left := hit 'a' || hit 'A'
    right := hit 'd' || hit 'D'
    drop := hit ' '
    pause := hit 'p' || hit 'P'
    down := hit 's' || hit 'S' }

/-- The loop that finds how far the piece can drop, for at most `fuel` rounds. -/
def dropLoop (g : Game) : ℕ → ℤ → Option ℤ
  | 0, _ => none
  | fuel + 1, dropAmount =>
    if g.collides 0 dropAmount g.currentRotation then some dropAmount
    else dropLoop g fuel (dropAmount + 1)

/-- Returns 1 if the piece was dropped. -/
def handleActions (k : Pressed) : Play Bool := do
  let g ← get
  if k.left = true ∧ g.collides (-1) 0 g.currentRotation = false then do
    modify fun g => { g with pieceOriginX := g.pieceOriginX - 2 }
    pure false
  else if k.right = true ∧ g.collides 1 0 g.currentRotation = false then do
    modify fun g => { g with pieceOriginX := g.pieceOriginX + 2 }
    pure false
  else if k.down = true ∧ g.collides 0 1 g.currentRotation = false then do
    modify fun g => { g with pieceOriginY := g.pieceOriginY + 1 }
    pure false
  else if k.rotate = true ∧ g.collides 0 0 (g.currentRotation + 1) = false then do
    modify fun g => { g with currentRotation := g.currentRotation + 1 }
    pure false
  else if k.drop = true then
    match dropLoop g boardY 1 with
    | none => panicWith .diverges
    | some dropAmount => do
      modify fun g => { g with pieceOriginY := g.pieceOriginY + (dropAmount - 1) }
      pure true
  else pure false

/-- `gameboard[x][y] = p` -/
def writeCell (p : Piece) (x y : ℤ) : Play Unit :=
  if InBoard x y then
    modify fun g => { g with
      gameboard := Function.update g.gameboard y.toNat
        (Function.update (g.gameboard y.toNat) x.toNat (some p))
      placed := g.placed ++ [(x, y)] }
  else panicWith .outOfBounds

def writeCells (p : Piece) (ox oy : ℤ) : List (ℤ × ℤ) → Play Unit
  | [] => pure ()
  | c :: cs => do
    writeCell p (c.1 + ox) (c.2 + oy)
    writeCells p ox oy cs

def placeCurrentBlockOnBoard : Play Unit := do
  let g ← get
  writeCells g.currentPiece (screenXToBoardX g.pieceOriginX) (screenYToBoardY g.pieceOriginY)
    (blockOffsets g.currentRotation g.currentPiece).cells

/-! ## The lines -/

/-- The loop over one line in `check_for_lines`. -/
def lineFound (line : ℕ → Cell) : Bool := (List.range boardX).all fun x => (line x).isSome

def checkForLines (g : Game) : Bool × Game :=
  ((List.range boardY).any fun y => lineFound (g.gameboard y),
    { g with fullLines := fun y => decide (y < boardY) && lineFound (g.gameboard y) })

def clearLines (g : Game) : Game :=
  { g with gameboard := removeRows g.fullLines (fun _ => none) boardY g.gameboard }

/-- `num_lines` of `update_score` -/
def numLines (g : Game) : BitVec 32 :=
  BitVec.ofNat 32 ((List.range boardY).filter g.fullLines).length

def updateScore (g : Game) : Game :=
  let linesCleared := g.linesCleared + (numLines g).setWidth 64
  let ticksPerDrop :=
    if 10 ≤ linesCleared then
      if g.ticksPerDrop - 1 < 10 then 10 else g.ticksPerDrop - 1
    else g.ticksPerDrop
  { g with linesCleared, ticksPerDrop, score := g.score + (numLines g * 100).setWidth 64 }

/-! ## One tick -/

def pauseGame (g : Game) : Game :=
  if g.state = .pause then { g with state := g.statePausePrev }
  else { g with statePausePrev := g.state, state := .pause }

def spawnBlock (g : Game) : Game :=
  let g := choosePiece { g with currentPiece := g.nextPiece }
  let g := { g with
    pieceOriginX := boardOriginX + boardX
    pieceOriginY := boardOriginY
    currentRotation := 0 }
  if g.collides 0 0 g.currentRotation then { g with state := .gameOver }
  else { g with state := .shiftDownBlocks, ticks := 0 }

/-- The piece comes to rest. -/
def lockIf (b : Bool) : Play Unit :=
  if b = true then do
    placeCurrentBlockOnBoard
    modify fun g => { g with state := .lineCheck }
  else pure ()

def shiftDownBlocks (k : Pressed) : Play Unit := do
  let dropped ← handleActions k
  lockIf dropped
  modify fun g => { g with ticks := g.ticks + 1 }
  let g ← get
  if g.ticksPerDrop ≤ g.ticks then do
    modify fun g => { g with ticks := 0 }
    let collided ← shiftDown
    lockIf collided
  else pure ()

def lineCheck (g : Game) : Game :=
  let (found, g) := checkForLines g
  if found = true then { g with flashCount := 0, flashTicks := 0, state := .lineCheckFlash }
  else { g with state := .spawnBlock }

def lineCheckFlash (g : Game) : Game :=
  let g := { g with flashTicks := g.flashTicks + 1 }
  let g :=
    if ticksPerFlash < g.flashTicks then { g with flashTicks := 0, flashCount := g.flashCount + 1 }
    else g
  if numFlashes ≤ g.flashCount then { updateScore (clearLines g) with state := .spawnBlock }
  else g

/-- The `switch` of `update`. -/
def switchState (k : Pressed) : Play Unit := do
  let g ← get
  match g.state with
  | .spawnBlock => modify spawnBlock
  | .shiftDownBlocks => shiftDownBlocks k
  | .lineCheck => modify lineCheck
  | .lineCheckFlash => modify lineCheckFlash
  | .pause => pure ()
  | .gameOver => pure ()

def update (keys : List Byte) : Play Unit :=
  let k := updateKeys keys
  if k.quit = true then
    modify fun g => { g with quit := true }
  else do
    modify fun g => if k.pause = true then pauseGame g else g
    switchState k

/-! ## The game loop -/

def resetTetris (g : Game) : Game :=
  { g with
    quit := false
    state := .spawnBlock
    statePausePrev := .spawnBlock
    currentPiece := .i
    currentRotation := 0
    nextPiece := .i
    pieceOriginX := 0
    pieceOriginY := 0
    ticks := 0
    flashTicks := 0
    flashCount := 0
    ticksPerDrop := ticksPerSecDefault
    linesCleared := 0
    score := 0 }

def gameSeed (key1 key2 key3 key4 : Byte) : BitVec 64 :=
  (key1.setWidth 32 <<< 24 ||| key2.setWidth 32 <<< 16 ||| key3.setWidth 32 <<< 8 |||
    key4.setWidth 32 : BitVec 32).signExtend 64

/-- The variables before the first round of the game loop; `g` are those of the game before. -/
def tetris (g : Game) (key1 key2 key3 key4 : Byte) : Game :=
  let g := choosePiece { resetTetris g with next := seed (gameSeed key1 key2 key3 key4) }
  { g with gameboard := fun _ _ => none }

/-- A game in which so many pieces have come to rest and so many lines were cleared. -/
inductive Reach : Game → ℕ → ℕ → Prop
  | start (g : Game) (key1 key2 key3 key4 : Byte) : Reach (tetris g key1 key2 key3 key4) 0 0
  | tick {g g' : Game} {pieces lines : ℕ} {keys : List Byte} : Reach g pieces lines →
      g.quit = false → update keys g = .ok ((), g') →
      Reach g' (pieces + if g'.placed = g.placed then 0 else 1)
        (lines + (g'.linesCleared - g.linesCleared).toNat)

end Bikeshed.Tetris
