import Bikeshed.Tetris.Board

/-!
# Clearing lines

The board read from top to bottom, before and after `clear_lines`.
-/

namespace Bikeshed.Tetris

open Lib

variable {g : Game}

/-- The cells of the board, line by line from the top. -/
def boardLines (b : ℕ → ℕ → Cell) : List (List Cell) :=
  (List.range boardY).map fun y => (List.range boardX).map (b y)

/-- No cell of the line is empty. -/
def fullLine (line : List Cell) : Bool := line.all Option.isSome

def emptyLine : List Cell := List.replicate boardX none

lemma fullLine_map (line : ℕ → Cell) :
    fullLine ((List.range boardX).map line) = lineFound line := by
  rw [fullLine, List.all_map, lineFound]
  rfl

/-- The lines that were not full, below as many empty ones as there were full ones. -/
theorem clearLines_lines (hmark : ∀ y < boardY, g.fullLines y = lineFound (g.gameboard y)) :
    boardLines (clearLines g).gameboard
      = List.replicate ((boardLines g.gameboard).filter fullLine).length emptyLine
        ++ (boardLines g.gameboard).filter (!fullLine ·) := by
  have hmarked : ∀ p : Bool → Bool, (List.range boardY).filter (fun y => p (g.fullLines y))
      = (List.range boardY).filter fun y =>
          p (fullLine ((List.range boardX).map (g.gameboard y))) :=
    fun p => List.filter_congr fun y hy => by
      rw [hmark y (List.mem_range.mp hy), fullLine_map]
  have hrows := congrArg (List.map fun line => (List.range boardX).map line)
    (map_removeRows g.fullLines (fun _ => none) boardY g.gameboard)
  rw [List.map_append, List.map_map, List.map_replicate, List.map_map] at hrows
  have hblank : (List.range boardX).map (fun _ => (none : Cell)) = emptyLine := rfl
  have hfull := hmarked id
  have hrest := hmarked (!·)
  simp only [id] at hfull
  rw [boardLines, boardLines, List.filter_map, List.filter_map, List.length_map]
  rw [hblank, hfull, hrest] at hrows
  exact hrows

/-- Two full lines, with a line that is not full between them and nothing else. -/
def twoFull : Game :=
  { zeroed with
    gameboard := fun y x => if y = 17 ∨ y = 19 ∨ y = 18 ∧ x = 0 then some .t else none
    fullLines := fun y => y = 17 ∨ y = 19 }

theorem clearLines_twoFull : boardLines (clearLines twoFull).gameboard
    = List.replicate 19 emptyLine ++ [some .t :: List.replicate 9 none] := by
  rw [clearLines_lines (g := twoFull) (by decide)]
  rfl

end Bikeshed.Tetris
