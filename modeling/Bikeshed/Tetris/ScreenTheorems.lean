import Bikeshed.Tetris.DrawingTheorems

/-!
# The screen shows the game

Over a whole game, pauses and the end of it included, the video memory is the picture of the
variables: every tick redraws what it has changed, and nothing else.
-/

namespace Bikeshed.Tetris

open Lib Vga

variable {α : Type} {E : Fault → Prop} {Q : Unit → Shown → Prop} {P R : Screen → Prop}
  {g g' g1 : Game} {s s' : Screen} {S : Set ℕ} {f : ℕ → VideoCell} {i pieces pieces' lines : ℕ}
  {k : Pressed}

/-! ## Rules for what is shown -/

lemma wp_playing {c : Play α} {Q : α → Shown → Prop} {p : Shown} :
    wp (playing c) Q E p ↔ wp c (fun a g => Q a { p with game := g }) E p.game := by
  simp only [wp, playing]
  cases c p.game <;> rfl

lemma wp_drawing {d : Game → Screen → Option Screen}
    (hd : Draws Screen.video P S f (d g) R) (hs : P s)
    (hQ : ∀ s', R s' → Painted S f s.video s'.video → Q () ⟨g, s'⟩) :
    wp (drawing d) Q E ⟨g, s⟩ := by
  obtain ⟨s', hrun, hR, hp⟩ := hd s hs
  simp only [wp, drawing, hrun]
  exact hQ s' hR hp

-- what is drawn is not to be computed by unification
attribute [local irreducible] drawing

lemma looks_painted {a b p p' : ℕ → VideoCell} (h : ∀ i < maxX * maxY, Looks (a i) (p i))
    (hp : Painted S p' a b) (hout : ∀ i ∉ S, p' i = p i) :
    ∀ i < maxX * maxY, Looks (b i) (p' i) := by
  intro i hi
  by_cases hS : i ∈ S
  · rw [hp.inside i hS]
    exact Looks.refl _
  · rw [hp.outside i hS, hout i hS]
    exact h i hi

/-! ## The parts of the picture -/

lemma picture_onBoard (hi : OnBoard i) :
    picture g pieces i = blank (boardColor g ((i % maxX - originX) / 2) (i / maxX - originY)) :=
  if_pos hi

lemma not_onBoard_of_inBox (hi : InBox i) : ¬ OnBoard i := by
  have hX : originX = 30 := rfl
  simp only [InBox, OnBoard, nextPieceOriginX, nextPieceSizeX, hX] at *
  omega

lemma not_onBoard_of_inScore (hi : InScore i) : ¬ OnBoard i := by
  have hX : originX = 30 := rfl
  simp only [InScore, OnBoard, scoreLocX, hX, boardX] at *
  omega

lemma not_inBox_of_inScore (hi : InScore i) : ¬ InBox i := by
  have hX : originX = 30 := rfl
  simp only [InScore, InBox, scoreLocX, nextPieceOriginX, nextPieceSizeX, hX, boardX] at *
  omega

lemma picture_inBox (hi : InBox i) (hst : g.started pieces = true) :
    picture g pieces i = blank (boxColor g.nextPiece (i % maxX) (i / maxX)) := by
  rw [picture, if_neg (not_onBoard_of_inBox hi), if_pos hi, if_pos hst]

lemma picture_inScore (hi : InScore i) :
    picture g pieces i = ⟨scoreDigit g.score (i % maxX), scoreColor⟩ := by
  rw [picture, if_neg (not_onBoard_of_inScore hi), if_neg (not_inBox_of_inScore hi), if_pos hi]

/-- Off the board, the picture depends on the next piece and the score only. -/
lemma picture_offBoard (hi : ¬ OnBoard i) (hnext : InBox i → g'.nextPiece = g.nextPiece)
    (hstart : InBox i → g'.started pieces' = g.started pieces)
    (hscore : InScore i → g'.score = g.score) : picture g' pieces' i = picture g pieces i := by
  rw [picture, picture, if_neg hi, if_neg hi]
  by_cases hbox : InBox i
  · rw [if_pos hbox, if_pos hbox, hnext hbox, hstart hbox]
  · rw [if_neg hbox, if_neg hbox]
    by_cases hsc : InScore i
    · rw [if_pos hsc, if_pos hsc, hscore hsc]
    · rw [if_neg hsc, if_neg hsc]

lemma picture_congr (hboard : ∀ x y, boardColor g' x y = boardColor g x y)
    (hnext : g'.nextPiece = g.nextPiece) (hscore : g'.score = g.score)
    (hstart : g'.started pieces' = g.started pieces) :
    picture g' pieces' = picture g pieces := by
  funext i
  by_cases hi : OnBoard i
  · rw [picture_onBoard hi, picture_onBoard hi, hboard]
  · exact picture_offBoard hi (fun _ => hnext) (fun _ => hstart) fun _ => hscore

/-- No piece falls and no line flashes. -/
lemma boardColor_still (h1 : g.phase ≠ .shiftDownBlocks) (h2 : g.phase ≠ .lineCheckFlash)
    (x y : ℕ) : boardColor g x y = pieceColors (g.gameboard y x) := by
  rw [boardColor, if_neg fun h => h1 h.1, if_neg fun h => h2 h.1]

/-! ## The invariant -/

/-- The screen shows the game, and a piece has come to rest before lines are looked for. -/
structure Drawn (g : Game) (pieces : ℕ) (s : Screen) : Prop where
  shows : Shows g pieces s
  locked : g.phase = .lineCheck ∨ g.phase = .lineCheckFlash → 0 < pieces

/-- A game that is not over is shown as it is. -/
lemma Drawn.all (h : Drawn g pieces s) (hne : g.phase ≠ .gameOver) :
    (∀ i < maxX * maxY, Looks (s.video i) (picture g pieces i)) ∧ Inked scoreColor s :=
  ⟨fun i hi => h.shows.cells i hi fun hover => absurd hover hne, h.shows.color hne⟩

lemma Drawn.of_all (h : ∀ i < maxX * maxY, Looks (s.video i) (picture g pieces i))
    (hink : Inked scoreColor s)
    (hlocked : g.phase = .lineCheck ∨ g.phase = .lineCheckFlash → 0 < pieces) :
    Drawn g pieces s := by
  refine ⟨⟨fun i hi _ => h i hi, fun _ => hink, fun _ => .inl fun i hi => h i ?_⟩, hlocked⟩
  have hX : originX = 30 := rfl
  have hY : originY = 2 := rfl
  have hlen : gameOverText.length = 10 := rfl
  simp only [InCaption, hX, hY, hlen, boardX, boardY, maxX, maxY] at *
  omega

/-- The picture is the same. -/
lemma Drawn.congr (h : Drawn g pieces s) (hphase : g'.phase = g.phase)
    (hpic : picture g' pieces = picture g pieces) : Drawn g' pieces s := by
  refine ⟨⟨?_, ?_, ?_⟩, ?_⟩
  · rw [hphase, hpic]
    exact h.shows.cells
  · rw [hphase]
    exact h.shows.color
  · rw [hphase, hpic]
    exact h.shows.caption
  · rw [hphase]
    exact h.locked

/-- A change of what the picture does not depend on. -/
lemma Drawn.same (h : Drawn g pieces s) (hphase : g'.phase = g.phase)
    (hboard : g'.gameboard = g.gameboard) (hblocks : g'.blocks = g.blocks)
    (hcurrent : g'.currentPiece = g.currentPiece) (hfull : g'.fullLines = g.fullLines)
    (hflash : g'.flashCount = g.flashCount) (hnext : g'.nextPiece = g.nextPiece)
    (hscore : g'.score = g.score) : Drawn g' pieces s := by
  apply h.congr hphase
  apply picture_congr _ hnext hscore
  · rw [Game.started, Game.started, hphase]
  · intro x y
    simp only [boardColor, hphase, hboard, hblocks, hcurrent, hfull, hflash]

/-! ## A new piece -/

lemma started_of_phase (h : g.phase ≠ .spawnBlock) : g.started pieces = true :=
  decide_eq_true (.inr h)

/-- The box is cleared and the next piece drawn over it. -/
lemma painted_box {a b c : ℕ → VideoCell} {piece : Piece}
    (h1 : Painted {i | InBox i} (fun _ => blank backgroundColor) a b)
    (h2 : Painted {i | InBox i ∧ (((i % maxX : ℕ) - 18 : ℤ) / 2, ((i / maxX : ℕ) - 4 : ℤ))
      ∈ (blockOffsets 0 piece).cells} (fun _ => blank (pieceColors (some piece))) b c) :
    Painted {i | InBox i} (fun i => blank (boxColor piece (i % maxX) (i / maxX))) a c := by
  have hcolor : ∀ i, boxColor piece (i % maxX) (i / maxX)
      = if (((i % maxX : ℕ) - 18 : ℤ) / 2, ((i / maxX : ℕ) - 4 : ℤ)) ∈ (blockOffsets 0 piece).cells
        then pieceColors (some piece) else backgroundColor := fun i => rfl
  apply (h1.trans h2 (fun i hbox hout => ?_) fun i hin => ?_).congr
  · intro i
    simp only [Set.mem_union, Set.mem_ofPred_eq, iff_self_or, and_imp]
    exact fun hbox _ => hbox
  · rw [hcolor, if_neg fun hcell => hout ⟨hbox, hcell⟩]
  · rw [hcolor, if_pos hin.2]

/-- The picture after a spawn, where the board is. -/
lemma picture_spawned (hi : ¬ InBox i) (hboard : g'.gameboard = g.gameboard)
    (hscore : g'.score = g.score) (hphase : g.phase = .spawnBlock)
    (hcell : OnBoard i → boardColor g' ((i % maxX - originX) / 2) (i / maxX - originY)
      = pieceColors (g'.gameboard (i / maxX - originY) ((i % maxX - originX) / 2))) :
    picture g' pieces i = picture g pieces i := by
  by_cases hon : OnBoard i
  · rw [picture_onBoard hon, picture_onBoard hon, hcell hon, hboard,
      boardColor_still (by rw [hphase]; decide) (by rw [hphase]; decide)]
  · exact picture_offBoard hon (fun hbox => absurd hbox hi) (fun hbox => absurd hbox hi)
      fun _ => hscore

/-- The box shows the next piece and the board the new one, if there is room for it. -/
lemma Drawn.spawns (h : Drawn g pieces s) (hs : g.state = .spawnBlock) :
    wp spawnBlockShown (fun _ p' => p'.game = spawnBlock g ∧ Drawn p'.game pieces p'.screen) E
      ⟨g, s⟩ := by
  have hphase := phase_of_state hs (by decide)
  obtain ⟨hall, hink⟩ := h.all (by rw [hphase]; decide)
  have hboard : (spawnBlock g).gameboard = g.gameboard := by
    rw [spawnBlock]
    dsimp only
    split <;> rfl
  have hscore : (spawnBlock g).score = g.score := by
    rw [spawnBlock]
    dsimp only
    split <;> rfl
  -- the game is over, or the new piece stands on empty cells
  have hend : (spawnBlock g).state = .gameOver ∨
      (spawnBlock g).state = .shiftDownBlocks ∧ Falls (spawnBlock g) := by
    rw [spawnBlock]
    dsimp only
    split
    case isTrue => exact .inl rfl
    case isFalse hfree =>
      rw [Bool.not_eq_true, collides_eq_false, add_zero, add_zero] at hfree
      exact .inr ⟨rfl, ⟨5, rfl⟩, hfree⟩
  rw [spawnBlockShown, wp_bind, wp_playing, wp_modify, wp_bind]
  dsimp only
  generalize spawnBlock g = g' at *
  apply wp_drawing draws_clearNextPieceBox hink
  intro s1 hink1 hp1
  rw [wp_bind]
  apply wp_drawing draws_drawNextPiece hink1
  intro s2 hink2 hp2
  rw [wp_bind, wp_get]
  have hbox (hne : g'.phase ≠ .spawnBlock) :
      Painted {i | InBox i} (picture g' pieces) s.video s2.video := by
    obtain ⟨hin, hout⟩ := painted_box hp1 hp2
    refine ⟨fun i hi => ?_, hout⟩
    rw [hin i hi]
    exact (picture_inBox hi (started_of_phase hne)).symm
  rcases hend with hover | ⟨hdown, hfalls⟩
  · -- nothing more is drawn
    have hphase' := phase_of_state hover (by decide)
    rw [if_neg (by rw [hover]; decide), wp_pure]
    refine ⟨rfl, .of_all ?_ hink2 (by rw [hphase']; simp)⟩
    apply looks_painted hall (hbox (by rw [hphase']; decide))
    intro i hi
    apply picture_spawned hi hboard hscore hphase
    intro _
    exact boardColor_still (by rw [hphase']; decide) (by rw [hphase']; decide) _ _
  · have hphase' := phase_of_state hdown (by decide)
    rw [if_pos hdown]
    have hblocks : ∀ c ∈ g'.blocks, InBoard c.1 c.2 := fun c hc => (hfalls.blocks hc).1
    apply wp_drawing (draws_drawPiece_board hfalls.aligned hblocks) hink2
    intro s3 hink3 hp3
    refine ⟨rfl, .of_all ?_ hink3 (by rw [hphase']; simp)⟩
    have hpiece : ∀ i, OnBoard i ∧ boardCell i ∈ g'.blocks →
        blank (pieceColors (some g'.currentPiece)) = picture g' pieces i := by
      rintro i ⟨hon, hmem⟩
      rw [picture_onBoard hon, boardColor, if_pos ⟨hphase', hmem⟩]
    apply looks_painted hall
      ((hbox (by rw [hphase']; decide)).trans hp3 (fun i _ _ => rfl) hpiece)
    intro i hi
    apply picture_spawned (fun hin => hi (.inl hin)) hboard hscore hphase
    intro hon
    rw [boardColor, if_neg fun hmem => hi (.inr ⟨hon, hmem.2⟩), if_neg]
    rw [hphase']
    simp

/-! ## The piece that falls -/

/-- An empty cell on which a piece stands. -/
lemma Falls.empty (h : Falls g) (hmem : boardCell i ∈ g.blocks) :
    g.gameboard (i / maxX - originY) ((i % maxX - originX) / 2) = none := by
  have hnone := (h.blocks hmem).2
  simp only [boardCell, Int.toNat_natCast] at hnone
  exact hnone

/-- A piece that has come to rest looks as it did when it fell. -/
lemma picture_rested {cells : List (ℤ × ℤ)} (hr : Rested g g1 g' cells)
    (hphase : g1.phase = .shiftDownBlocks) :
    picture g' pieces' = picture g1 pieces := by
  have hphase' : g'.phase = .lineCheck := by
    rw [hr.eq]
    rfl
  have hboard : g'.gameboard = occupy g1.gameboard g1.currentPiece g1.blocks := by rw [hr.eq]
  apply picture_congr
  · intro x y
    rw [boardColor_still (by rw [hphase']; decide) (by rw [hphase']; decide), hboard, occupy,
      boardColor]
    by_cases hmem : ((x : ℤ), (y : ℤ)) ∈ g1.blocks
    · rw [if_pos hmem, if_pos ⟨hphase, hmem⟩]
    · rw [if_neg hmem, if_neg fun hm => hmem hm.2, if_neg]
      rw [hphase]
      simp
  · rw [hr.eq]
  · rw [hr.eq]
  · rw [started_of_phase (by rw [hphase']; decide), started_of_phase (by rw [hphase]; decide)]

/-- The piece is erased where it was and drawn where it is. -/
lemma looks_moved (hm : Moved g g1) (hf : Falls g) (hphase : g.phase = .shiftDownBlocks)
    {a b c : ℕ → VideoCell} (hall : ∀ i < maxX * maxY, Looks (a i) (picture g pieces i))
    (hp1 : Painted {i | OnBoard i ∧ boardCell i ∈ g.blocks} (fun _ => blank backgroundColor) a b)
    (hp2 : Painted {i | OnBoard i ∧ boardCell i ∈ g1.blocks}
      (fun _ => blank (pieceColors (some g1.currentPiece))) b c) :
    ∀ i < maxX * maxY, Looks (c i) (picture g1 pieces i) := by
  obtain ⟨x, y, rotation, t, heq⟩ := hm.eq
  have hphase1 : g1.phase = .shiftDownBlocks := by
    rw [heq]
    exact hphase
  have hboard : g1.gameboard = g.gameboard := by rw [heq]
  -- off the pieces both pictures show the board
  have hoff {g : Game} (hphase : g.phase = .shiftDownBlocks) {i : ℕ} (hon : OnBoard i)
      (hi : boardCell i ∉ g.blocks) : picture g pieces i
        = blank (pieceColors (g.gameboard (i / maxX - originY) ((i % maxX - originX) / 2))) := by
    rw [picture_onBoard hon, boardColor, if_neg fun hmem => hi hmem.2, if_neg]
    rw [hphase]
    simp
  have hpainted := hp1.trans hp2 (h := picture g1 pieces)
    (fun i hi hout => by
      rw [hoff hphase1 hi.1 fun hmem => hout ⟨hi.1, hmem⟩, hboard, hf.empty hi.2]
      rfl)
    fun i hi => by rw [picture_onBoard hi.1, boardColor, if_pos ⟨hphase1, hi.2⟩]
  apply looks_painted hall hpainted
  intro i hi
  by_cases hon : OnBoard i
  · rw [hoff hphase1 hon fun hmem => hi (.inr ⟨hon, hmem⟩),
      hoff hphase hon fun hmem => hi (.inl ⟨hon, hmem⟩), hboard]
  · apply picture_offBoard hon
    · intro _
      rw [heq]
    · intro _
      rw [started_of_phase (by rw [hphase1]; decide), started_of_phase (by rw [hphase]; decide)]
    · intro _
      rw [heq]

/-- What a tick of a falling piece comes to: it is where `g1` has it, at rest or not. -/
structure Fallen (g g1 g' : Game) (pieces pieces' : ℕ) : Prop where
  moved : Moved g g1
  blocks : g'.blocks = g1.blocks
  x_eq : g'.pieceOriginX = g1.pieceOriginX
  y_eq : g'.pieceOriginY = g1.pieceOriginY
  rotation : g'.currentRotation = g1.currentRotation
  current : g'.currentPiece = g1.currentPiece
  picture_eq : picture g' pieces' = picture g1 pieces
  not_over : g'.phase ≠ .gameOver
  locked : g'.phase = .lineCheck ∨ g'.phase = .lineCheckFlash → 0 < pieces'

lemma Moved.fallen (h : Moved g g') (hphase : g.phase = .shiftDownBlocks) :
    Fallen g g' g' pieces (pieces + if g'.placed = g.placed then 0 else 1) := by
  obtain ⟨x, y, rotation, t, heq⟩ := h.eq
  have hphase' : g'.phase = .shiftDownBlocks := by
    rw [heq]
    exact hphase
  have hplaced : g'.placed = g.placed := by rw [heq]
  rw [if_pos hplaced]
  refine ⟨h, rfl, rfl, rfl, rfl, rfl, rfl, ?_, ?_⟩
  · rw [hphase']
    decide
  · rw [hphase']
    simp

lemma Rests.fallen (h : Rests g g') (hphase : g.phase = .shiftDownBlocks) :
    ∃ g1, Fallen g g1 g' pieces (pieces + if g'.placed = g.placed then 0 else 1) := by
  obtain ⟨g1, cells, hr⟩ := h
  obtain ⟨x, y, rotation, t, heq⟩ := hr.moved.eq
  have hphase1 : g1.phase = .shiftDownBlocks := by
    rw [heq]
    exact hphase
  have hphase' : g'.phase = .lineCheck := by
    rw [hr.eq]
    rfl
  have hplaced : ¬ g'.placed = g.placed := by
    have hcells : g'.placed = g.placed ++ cells := by
      rw [hr.eq, heq]
    rw [hcells, List.append_right_eq_self]
    exact hr.ne_nil
  have hpic : picture g' (pieces + 1) = picture g1 pieces := picture_rested hr hphase1
  rw [if_neg hplaced]
  refine ⟨g1, hr.moved, ?_, ?_, ?_, ?_, ?_, hpic, ?_, ?_⟩
  · rw [hr.eq]
    rfl
  · rw [hr.eq]
  · rw [hr.eq]
  · rw [hr.eq]
  · rw [hr.eq]
  · rw [hphase']
    decide
  · intro _
    exact Nat.succ_pos pieces

lemma Drawn.falls (h : Drawn g pieces s) (hs : g.state = .shiftDownBlocks) (hf : Falls g) :
    wp (shiftDownBlocksShown k) (fun _ p' => shiftDownBlocks k g = .ok ((), p'.game) ∧
      Drawn p'.game (pieces + if p'.game.placed = g.placed then 0 else 1) p'.screen) E ⟨g, s⟩ := by
  have hphase := phase_of_state hs (by decide)
  obtain ⟨hall, hink⟩ := h.all (by rw [hphase]; decide)
  obtain ⟨⟨⟩, g', hrun, hend⟩ := (wp_shiftDownBlocks (k := k) (E := fun _ => False) hf).returns
  obtain ⟨g1, hfall⟩ : ∃ g1,
      Fallen g g1 g' pieces (pieces + if g'.placed = g.placed then 0 else 1) := by
    rcases hend with hm | hr
    · exact ⟨g', hm.fallen hphase⟩
    · exact hr.fallen hphase
  have hpic := hfall.picture_eq
  rw [shiftDownBlocksShown, wp_bind, wp_get, wp_bind, wp_playing]
  apply wp_of_ok hrun
  rw [wp_bind, wp_get]
  dsimp only
  rw [wp_ite]
  constructor
  · -- the old place is erased and the new one drawn
    intro _
    have hold : ∀ c ∈ g.blocks, InBoard c.1 c.2 := fun c hc => (hf.blocks hc).1
    have hnew : ∀ c ∈ g1.blocks, InBoard c.1 c.2 := fun c hc => (hfall.moved.falls.blocks hc).1
    have hsame : g'.currentPiece = g.currentPiece := by
      obtain ⟨x, y, rotation, t, heq⟩ := hfall.moved.eq
      rw [hfall.current, heq]
    rw [wp_bind]
    apply wp_drawing (S := {i | OnBoard i ∧ boardCell i ∈ g.blocks})
      (f := fun _ => blank backgroundColor) (R := Inked scoreColor) _ hink
    · intro s1 hink1 hp1
      apply wp_drawing (S := {i | OnBoard i ∧ boardCell i ∈ g1.blocks})
        (f := fun _ => blank (pieceColors (some g1.currentPiece))) (R := Inked scoreColor) _ hink1
      · intro s2 hink2 hp2
        refine ⟨hrun, .of_all ?_ hink2 hfall.locked⟩
        rw [hpic]
        exact looks_moved hfall.moved hf hphase hall hp1 hp2
      · have hdraw : Draws Screen.video (Inked scoreColor)
            {i | OnBoard i ∧ boardCell i ∈ g1.blocks}
            (fun _ => blank (pieceColors (some g1.currentPiece)))
            (drawPiece g1.pieceOriginX g1.pieceOriginY g1.currentRotation g1.currentPiece
              (pieceColors (some g1.currentPiece))) (Inked scoreColor) :=
          draws_drawPiece_board hfall.moved.falls.aligned hnew
        rw [← hfall.x_eq, ← hfall.y_eq, ← hfall.rotation, ← hfall.current] at hdraw
        rw [← hfall.current]
        exact hdraw
    · rw [hsame]
      exact draws_drawPiece_board hf.aligned hold
  · -- the piece is where it was
    intro hstill
    push Not at hstill
    obtain ⟨hx, hy, hrot⟩ := hstill
    refine ⟨hrun, .of_all ?_ hink hfall.locked⟩
    rw [hpic]
    obtain ⟨x, y, rotation, t, heq⟩ := hfall.moved.eq
    rw [hfall.x_eq, heq] at hx
    rw [hfall.y_eq, heq] at hy
    rw [hfall.rotation, heq] at hrot
    dsimp only at hx hy hrot
    rw [heq, ← hx, ← hy, ← hrot]
    exact hall

/-! ## The lines -/

/-- Nothing is drawn and nothing was to be. -/
lemma Drawn.recolor (h : Drawn g pieces s) (hne : g.phase ≠ .gameOver) (hpos : 0 < pieces)
    (hboard : ∀ x y, boardColor g' x y = boardColor g x y) (hnext : g'.nextPiece = g.nextPiece)
    (hscore : g'.score = g.score) : Drawn g' pieces s := by
  obtain ⟨hall, hink⟩ := h.all hne
  refine .of_all ?_ hink fun _ => hpos
  have hstart : g'.started pieces = g.started pieces :=
    (decide_eq_true (.inl hpos)).trans (decide_eq_true (.inl hpos)).symm
  rw [picture_congr hboard hnext hscore hstart]
  exact hall

/-- Looking for lines draws nothing; the flash begins with its lines as they are. -/
lemma Drawn.checks (h : Drawn g pieces s) (hs : g.state = .lineCheck) :
    Drawn (lineCheck g) pieces s := by
  have hphase := phase_of_state hs (by decide)
  have hpos := h.locked (.inl hphase)
  have hne : g.phase ≠ .gameOver := by
    rw [hphase]
    decide
  have hold : ∀ x y, boardColor g x y = pieceColors (g.gameboard y x) :=
    boardColor_still (by rw [hphase]; decide) (by rw [hphase]; decide)
  rw [lineCheck, checkForLines]
  dsimp only
  split
  case isTrue =>
    refine h.recolor hne hpos (fun x y => ?_) rfl rfl
    rw [hold, boardColor, if_neg, if_neg]
    · rintro ⟨-, -, hodd⟩
      change (0 : BitVec 32).getLsbD 0 = true at hodd
      exact absurd hodd (by decide)
    · rintro ⟨hp, -⟩
      cases hp
  case isFalse =>
    refine h.recolor hne hpos (fun x y => ?_) rfl rfl
    rw [hold]
    apply boardColor_still
    · intro hp
      cases hp
    · intro hp
      cases hp

/-- While lines flash. -/
lemma boardColor_flash (hphase : g.phase = .lineCheckFlash) (x y : ℕ) :
    boardColor g x y = if g.fullLines y = true ∧ g.flashCount.getLsbD 0 = true then borderColor
      else pieceColors (g.gameboard y x) := by
  rw [boardColor, if_neg]
  · simp only [hphase, true_and]
  · rw [hphase]
    simp

/-- The flashing lines change between white and their own colours. -/
lemma Drawn.toggles (h : Drawn g pieces s) (hs : g.state = .lineCheckFlash) :
    wp toggleFlash (fun _ p' => p'.game = (if ticksPerFlash < g.flashTicks then
        { g with flashTicks := 0, flashCount := g.flashCount + 1 } else g) ∧
      Drawn p'.game pieces p'.screen) E ⟨g, s⟩ := by
  have hphase := phase_of_state hs (by decide)
  have hpos := h.locked (.inr hphase)
  obtain ⟨hall, hink⟩ := h.all (by rw [hphase]; decide)
  rw [toggleFlash, wp_bind, wp_get, wp_ite]
  constructor
  · intro hticks
    rw [wp_bind, wp_playing, wp_modify]
    dsimp only
    have hgame : (if ticksPerFlash < g.flashTicks then
        { g with flashTicks := 0, flashCount := g.flashCount + 1 } else g)
          = { g with flashTicks := 0, flashCount := g.flashCount + 1 } := if_pos hticks
    rw [hgame]
    have hphase' : Game.phase { g with flashTicks := 0, flashCount := g.flashCount + 1 }
        = .lineCheckFlash := hphase
    have hfull : Game.fullLines { g with flashTicks := 0, flashCount := g.flashCount + 1 }
        = g.fullLines := rfl
    have hboard : Game.gameboard { g with flashTicks := 0, flashCount := g.flashCount + 1 }
        = g.gameboard := rfl
    have hoff {i : ℕ} (hon : ¬ OnBoard i) :
        picture { g with flashTicks := 0, flashCount := g.flashCount + 1 } pieces i
          = picture g pieces i :=
      picture_offBoard hon (fun _ => rfl) (fun _ => rfl) fun _ => rfl
    generalize ({ g with flashTicks := 0, flashCount := g.flashCount + 1 } : Game) = g' at *
    apply wp_drawing (draws_drawFlashLines (f := picture g' pieces) _) hink
    · intro s' hink' hp
      refine ⟨rfl, .of_all (looks_painted hall hp ?_) hink' fun _ => hpos⟩
      intro i hi
      by_cases hon : OnBoard i
      · have hline : ¬ g.fullLines (i / maxX - originY) = true := by
          rw [← hfull]
          exact fun hline => hi ⟨hon, hline⟩
        rw [picture_onBoard hon, picture_onBoard hon, boardColor_flash hphase',
          boardColor_flash hphase, hfull, hboard, if_neg fun hl => hline hl.1,
          if_neg fun hl => hline hl.1]
      · exact hoff hon
    · intro i hon hline
      rw [picture_onBoard hon, boardColor_flash hphase']
      simp only [hline, true_and]
  · intro hticks
    rw [wp_pure, if_neg hticks]
    exact ⟨rfl, h⟩

/-- The lines are taken off the board, and the score goes up. -/
lemma Drawn.ends (h : Drawn g pieces s) (hs : g.state = .lineCheckFlash) :
    wp endFlash (fun _ p' => p'.game = (if numFlashes ≤ g.flashCount then
        { updateScore (clearLines g) with state := .spawnBlock } else g) ∧
      Drawn p'.game pieces p'.screen) E ⟨g, s⟩ := by
  have hphase := phase_of_state hs (by decide)
  have hpos := h.locked (.inr hphase)
  obtain ⟨hall, hink⟩ := h.all (by rw [hphase]; decide)
  rw [endFlash, wp_bind, wp_get, wp_ite]
  constructor
  · intro hcount
    rw [if_pos hcount, wp_bind]
    obtain ⟨s1, hclear, hink1, hp1⟩ := clearLinesDrawn_spec g s
    have hcleared : clearing ⟨g, s⟩ = .ok ((), ⟨clearLines g, s1⟩) := by
      simp only [clearing, hclear]
      rfl
    apply wp_of_ok hcleared
    have hboard : Game.gameboard { updateScore (clearLines g) with state := .spawnBlock }
        = (clearLines g).gameboard := rfl
    have hscore : Game.score { updateScore (clearLines g) with state := .spawnBlock }
        = (updateScore (clearLines g)).score := rfl
    have hphase' : Game.phase { updateScore (clearLines g) with state := .spawnBlock }
        = .spawnBlock := rfl
    have hnext : Game.nextPiece { updateScore (clearLines g) with state := .spawnBlock }
        = g.nextPiece := rfl
    rw [wp_bind, wp_playing, wp_modify, wp_bind]
    dsimp only
    have hink1 : Inked scoreColor s1 := hink1.trans hink
    apply wp_drawing (draws_drawScore (f := picture
      { updateScore (clearLines g) with state := .spawnBlock } pieces) _) hink1
    · intro s2 hink2 hp2
      rw [wp_playing, wp_modify]
      dsimp only
      refine ⟨rfl, .of_all ?_ hink2 fun _ => hpos⟩
      generalize ({ updateScore (clearLines g) with state := .spawnBlock } : Game) = g' at *
      have hpainted := hp1.trans hp2 (h := picture g' pieces)
        (fun i hi _ => by
          rw [picture_onBoard hi, boardColor_still (by rw [hphase']; decide)
            (by rw [hphase']; decide), hboard])
        fun i _ => rfl
      apply looks_painted hall hpainted
      intro i hi
      apply picture_offBoard (fun hon => hi (.inl hon)) (fun _ => hnext)
      · intro _
        exact (decide_eq_true (.inl hpos)).trans (decide_eq_true (.inl hpos)).symm
      · exact fun hin => absurd (.inr hin) hi
    · intro i hi
      rw [picture_inScore hi, hscore]
  · intro hcount
    rw [wp_pure, if_neg hcount]
    exact ⟨rfl, h⟩

lemma Drawn.flashes (h : Drawn g pieces s) (hs : g.state = .lineCheckFlash) :
    wp lineCheckFlashShown (fun _ p' => p'.game = lineCheckFlash g ∧
      Drawn p'.game pieces p'.screen) E ⟨g, s⟩ := by
  have hticked : Drawn { g with flashTicks := g.flashTicks + 1 } pieces s :=
    h.same rfl rfl rfl rfl rfl rfl rfl rfl
  rw [lineCheckFlashShown, wp_bind, wp_playing, wp_modify, wp_bind]
  refine wp_mono (hticked.toggles hs) ?_
  rintro - ⟨g1, s1⟩ ⟨hgame1, hdrawn1⟩
  dsimp only at hgame1 hdrawn1
  have hs1 : g1.state = .lineCheckFlash := by
    rw [hgame1]
    split
    · exact hs
    · exact hs
  refine wp_mono (hdrawn1.ends hs1) ?_
  rintro - ⟨g2, s2⟩ ⟨hgame2, hdrawn2⟩
  dsimp only at hgame2 hdrawn2
  refine ⟨?_, hdrawn2⟩
  rw [hgame2, hgame1]
  rfl

/-! ## A tick and a game -/

/-- What a tick with its drawing comes to: the tick of the game, and its picture. -/
def Redrawn (c : Play Unit) (g : Game) (pieces : ℕ) (p' : Shown) : Prop :=
  c g = .ok ((), p'.game) ∧
    Drawn p'.game (pieces + if p'.game.placed = g.placed then 0 else 1) p'.screen

lemma Drawn.redrawn {c : Play Unit} (hrun : c g = .ok ((), g')) (hplaced : g'.placed = g.placed)
    (h : Drawn g' pieces s) : Redrawn c g pieces ⟨g', s⟩ := by
  refine ⟨hrun, ?_⟩
  rw [if_pos hplaced]
  exact h

lemma placed_spawnBlock (g : Game) : (spawnBlock g).placed = g.placed := by
  rw [spawnBlock]
  dsimp only
  split <;> rfl

lemma placed_lineCheck (g : Game) : (lineCheck g).placed = g.placed := by
  rw [lineCheck]
  dsimp only
  split <;> rfl

lemma placed_lineCheckFlash (g : Game) : (lineCheckFlash g).placed = g.placed := by
  rw [lineCheckFlash]
  dsimp only
  split <;> split <;> rfl

/-- The caption covers a part of the board. -/
lemma Drawn.over {c : Play Unit} {d : Game → Screen → Option Screen} (h : Drawn g pieces s)
    (hphase : g.phase = .gameOver) (hrun : c g = .ok ((), g))
    (hd : Draws Screen.video (fun _ => True) {i | InCaption i}
      (fun i => ⟨gameOverText.getD (i % maxX - (originX + (boardX * 2 - 8) / 2)) 0, gameOverColor⟩)
      (d g) R) : wp (drawing d) (fun _ p' => Redrawn c g pieces p') E ⟨g, s⟩ := by
  apply wp_drawing hd True.intro
  intro s' _ hp
  refine Drawn.redrawn hrun rfl ⟨⟨?_, fun hne => absurd hphase hne, fun _ => .inr ?_⟩, h.locked⟩
  · intro i hi hout
    rw [hp.outside i (hout hphase)]
    exact h.shows.cells i hi hout
  · intro i hi
    exact hp.inside i hi

lemma Inv.wp_switchStateShown (h : Inv g pieces lines) (hd : Drawn g pieces s) :
    wp (switchStateShown k) (fun _ p' => Redrawn (switchState k) g pieces p') (fun _ => False)
      ⟨g, s⟩ := by
  rw [switchStateShown, wp_bind, wp_get]
  dsimp only
  cases hs : g.state with
  | spawnBlock =>
    have hswitch : switchState k g = (modify spawnBlock : Play Unit) g := by
      cases g
      cases hs
      rfl
    refine wp_mono (hd.spawns hs) ?_
    rintro - ⟨g', s'⟩ ⟨rfl, hd'⟩
    exact hd'.redrawn hswitch (placed_spawnBlock g)
  | shiftDownBlocks =>
    have hswitch : switchState k g = (shiftDownBlocks k : Play Unit) g := by
      cases g
      cases hs
      rfl
    refine wp_mono (hd.falls hs (h.falls (phase_of_state hs (by decide)))) ?_
    rintro - ⟨g', s'⟩ ⟨hrun, hd'⟩
    exact ⟨hswitch.trans hrun, hd'⟩
  | lineCheck =>
    have hswitch : switchState k g = (modify lineCheck : Play Unit) g := by
      cases g
      cases hs
      rfl
    exact (hd.checks hs).redrawn hswitch (placed_lineCheck g)
  | lineCheckFlash =>
    have hswitch : switchState k g = (modify lineCheckFlash : Play Unit) g := by
      cases g
      cases hs
      rfl
    refine wp_mono (hd.flashes hs) ?_
    rintro - ⟨g', s'⟩ ⟨rfl, hd'⟩
    exact hd'.redrawn hswitch (placed_lineCheckFlash g)
  | pause =>
    have hswitch : switchState k g = (pure () : Play Unit) g := by
      cases g
      cases hs
      rfl
    exact hd.redrawn hswitch rfl
  | gameOver =>
    have hswitch : switchState k g = (pure () : Play Unit) g := by
      cases g
      cases hs
      rfl
    have hphase := phase_of_state hs (by decide)
    exact hd.over hphase hswitch draws_drawGameOver

/-- A tick draws the picture of the game that it leaves. -/
lemma Inv.wp_updateShown (h : Inv g pieces lines) (hd : Drawn g pieces s) (keys : List Byte) :
    wp (updateShown keys) (fun _ p' => Redrawn (update keys) g pieces p') (fun _ => False)
      ⟨g, s⟩ := by
  rw [updateShown, wp_ite]
  constructor
  · intro hquit
    rw [wp_playing, wp_modify]
    have hd' : Drawn { g with quit := true } pieces s :=
      hd.same rfl rfl rfl rfl rfl rfl rfl rfl
    have hrun : update keys g = .ok ((), { g with quit := true }) := by
      rw [update, if_pos hquit]
      rfl
    exact Drawn.redrawn (g := g) hrun rfl hd'
  · intro hquit
    rw [wp_bind, wp_playing, wp_modify]
    dsimp only
    have hupdate : update keys g = switchState (updateKeys keys)
        (if (updateKeys keys).pause = true then pauseGame g else g) := by
      rw [update, if_neg hquit]
      rfl
    by_cases hp : (updateKeys keys).pause = true
    · rw [if_pos hp] at hupdate ⊢
      have hpaused : Drawn (pauseGame g) pieces s := by
        have hphase := phase_pauseGame g
        obtain ⟨s1, s2, heq⟩ := pauseGame_eq g
        rw [heq] at hphase ⊢
        exact hd.same hphase rfl rfl rfl rfl rfl rfl rfl
      refine wp_mono (h.pauses.wp_switchStateShown hpaused) ?_
      rintro - p' ⟨hrun, hd'⟩
      have hplaced : (pauseGame g).placed = g.placed := by
        obtain ⟨s1, s2, heq⟩ := pauseGame_eq g
        rw [heq]
      rw [hplaced] at hd'
      exact ⟨hupdate.trans hrun, hd'⟩
    · rw [if_neg hp] at hupdate ⊢
      refine wp_mono (h.wp_switchStateShown hd) ?_
      rintro - p' ⟨hrun, hd'⟩
      exact ⟨hupdate.trans hrun, hd'⟩

lemma border_still (hi : ¬ InScore i) : border g i = stillCell i := if_neg hi

/-- The frame is around the board and around the box. -/
lemma not_still_of_onBoard (hi : OnBoard i) : ¬ (InLabel i ∨ InScore i ∨ OnFrame i) := by
  have hX : originX = 30 := rfl
  have hY : originY = 2 := rfl
  simp only [OnBoard, InLabel, InScore, OnFrame, Rim, scoreLocX, nextPieceOriginX, nextPieceSizeX,
    maxVgaY, hX, hY, boardX, boardY] at *
  omega

lemma not_still_of_inBox (hi : InBox i) : ¬ (InLabel i ∨ InScore i ∨ OnFrame i) := by
  have hX : originX = 30 := rfl
  have hY : originY = 2 := rfl
  simp only [InBox, InLabel, InScore, OnFrame, Rim, scoreLocX, nextPieceOriginX, nextPieceOriginY,
    nextPieceSizeX, nextPieceSizeY, maxVgaY, hX, hY, boardX, boardY] at *
  omega

/-- What is nothing but black. -/
lemma looks_cleared : Looks cleared (blank backgroundColor) := ⟨rfl, .inr ⟨rfl, rfl⟩⟩

/-- A cleared screen with the frame is the picture of a game that begins. -/
lemma looks_begun {a : ℕ → VideoCell} (hb : ∀ x y, g'.gameboard y x = none)
    (hphase : g'.phase = .spawnBlock) (hscore : g'.score = g.score)
    (hin : ∀ i, InLabel i ∨ InScore i ∨ OnFrame i → a i = border g i)
    (hout : ∀ i < maxX * maxY, ¬ (InLabel i ∨ InScore i ∨ OnFrame i) → a i = cleared) :
    ∀ i < maxX * maxY, Looks (a i) (picture g' 0 i) := by
  intro i hi
  by_cases hon : OnBoard i
  · rw [hout i hi (not_still_of_onBoard hon), picture_onBoard hon,
      boardColor_still (by rw [hphase]; decide) (by rw [hphase]; decide), hb]
    exact looks_cleared
  rw [picture, if_neg hon]
  by_cases hbox : InBox i
  · have hstart : ¬ g'.started 0 = true := by
      simp [Game.started, hphase]
    rw [hout i hi (not_still_of_inBox hbox), if_pos hbox, if_neg hstart]
    exact looks_cleared
  rw [if_neg hbox]
  by_cases hsc : InScore i
  · rw [hin i (.inr (.inl hsc)), if_pos hsc, border, if_pos hsc, hscore]
    exact Looks.refl _
  rw [if_neg hsc]
  by_cases hstill : InLabel i ∨ InScore i ∨ OnFrame i
  · rw [hin i hstill, border_still hsc]
    exact Looks.refl _
  · rw [hout i hi hstill, stillCell, if_neg fun h => hstill (.inl h),
      if_neg fun h => hstill (.inr (.inr h))]
    exact looks_cleared

/-- A game begins with an empty board, whatever was on the screen. -/
lemma drawn_tetrisShown (g : Game) (s : Screen) (key1 key2 key3 key4 : Byte) :
    ∃ s', tetrisShown g s key1 key2 key3 key4 = some ⟨tetris g key1 key2 key3 key4, s'⟩ ∧
      Drawn (tetris g key1 key2 key3 key4) 0 s' := by
  obtain ⟨s1, hrun1, -, hp1⟩ :=
    draws_clearScreen (P := fun _ => True) (fun _ _ _ => trivial) s trivial
  obtain ⟨s2, hrun2, hink2, hp2⟩ := draws_drawGameBorders (g := resetTetris g) s1 trivial
  refine ⟨s2, ?_, .of_all ?_ hink2 fun hl => ?_⟩
  · simp only [tetrisShown, hrun1, hrun2, Option.bind_eq_bind, Option.bind_some]
  · refine looks_begun (g := resetTetris g) (fun _ _ => rfl) rfl rfl hp2.inside ?_
    intro i hi hout
    rw [hp2.outside i hout, hp1.inside i hi]
  · rcases hl with hl | hl <;> cases hl

/-- The game that is drawn is the game, and what is drawn is its picture. -/
lemma Plays.drawn {p : Shown} (h : Plays p pieces lines) :
    Reach p.game pieces lines ∧ Drawn p.game pieces p.screen := by
  induction h with
  | start hstart =>
    rename_i g s key1 key2 key3 key4 p
    obtain ⟨s', hrun, hd⟩ := drawn_tetrisShown g s key1 key2 key3 key4
    rw [hstart] at hrun
    cases hrun
    exact ⟨.start g key1 key2 key3 key4, hd⟩
  | tick _ hquit hrun ih =>
    obtain ⟨hreach, hd⟩ := ih
    obtain ⟨hgame, hd'⟩ := (hreach.inv.wp_updateShown hd _).ok hrun
    exact ⟨.tick hreach hquit hgame, hd'⟩

/-- Every tick of the game can be drawn. -/
lemma Plays.next {p : Shown} (h : Plays p pieces lines) (keys : List Byte) :
    ∃ s', update keys p.game = .ok ((), s'.game) ∧ updateShown keys p = .ok ((), s') := by
  obtain ⟨hreach, hd⟩ := h.drawn
  obtain ⟨⟨⟩, p', hrun, hgame, -⟩ := (hreach.inv.wp_updateShown hd keys).returns
  exact ⟨p', hgame, hrun⟩

end Bikeshed.Tetris
