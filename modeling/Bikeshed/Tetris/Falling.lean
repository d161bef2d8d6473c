import Bikeshed.Tetris.Board

/-!
# One tick of a falling piece

Whatever the keys, the piece moves to empty cells of the board (`Moved`). It comes to rest
(`Rests`) when it was dropped or cannot move down. Both can happen in one tick; the second call
of `place_current_block_on_board` then writes the cells of the first.
-/

namespace Bikeshed.Tetris

open Lib

variable {E : Fault → Prop} {g g' g1 : Game} {k : Pressed} {d : ℤ} {fuel : ℕ}

/-! ## The drop -/

/-- The loop stops at the first collision. -/
lemma dropLoop_spec (hfree : g.collides 0 (d - 1) g.currentRotation = false)
    (hstop : ∃ j < fuel, g.collides 0 (d + j) g.currentRotation = true) :
    ∃ d', dropLoop g fuel d = some d' ∧ g.collides 0 d' g.currentRotation = true ∧
      g.collides 0 (d' - 1) g.currentRotation = false := by
  induction fuel generalizing d with
  | zero =>
    obtain ⟨j, hj, -⟩ := hstop
    exact absurd hj (Nat.not_lt_zero j)
  | succ fuel ih =>
    rw [dropLoop]
    split
    case isTrue hd => exact ⟨d, rfl, hd, hfree⟩
    case isFalse hd =>
      rw [Bool.not_eq_true] at hd
      refine ih (by rwa [add_sub_cancel_right]) ?_
      -- the collision that is ahead is not this one
      obtain ⟨j, hj, hc⟩ := hstop
      cases j with
      | zero =>
        rw [Nat.cast_zero, add_zero, hd] at hc
        cases hc
      | succ j =>
        refine ⟨j, by omega, ?_⟩
        rw [← hc]
        congr 1
        push_cast
        ring

/-- More rounds change nothing. -/
lemma dropLoop_mono {d' : ℤ} (h : dropLoop g fuel d = some d') {n : ℕ} (hn : fuel ≤ n) :
    dropLoop g n d = some d' := by
  induction fuel generalizing d n with
  | zero => cases h
  | succ fuel ih =>
    obtain ⟨n, rfl⟩ : ∃ m, n = m + 1 := ⟨n - 1, by omega⟩
    rw [dropLoop] at h ⊢
    split
    case isTrue hd =>
      rw [if_pos hd] at h
      exact h
    case isFalse hd =>
      rw [if_neg hd] at h
      exact ih h (by omega)

lemma Falls.free (h : Falls g) : g.collides 0 0 g.currentRotation = false := by
  rw [collides_eq_false, add_zero, add_zero]
  exact h.fits

/-- A drop ends within the height of the board. -/
lemma Falls.drop (h : Falls g) : ∃ d, dropLoop g boardY 1 = some d ∧
    g.collides 0 d g.currentRotation = true ∧
    g.collides 0 (d - 1) g.currentRotation = false := by
  refine dropLoop_spec h.free ⟨19, by decide, ?_⟩
  by_contra hc
  rw [Bool.not_eq_true, collides_eq_false, add_zero] at hc
  exact not_fits_below h.fits (by decide) hc

/-! ## The keys -/

/-- The piece has moved to empty cells; nothing else has changed but the clock. -/
structure Moved (g g1 : Game) : Prop where
  eq : ∃ x y rotation t, g1 = { g with
    pieceOriginX := x, pieceOriginY := y, currentRotation := rotation, ticks := t }
  falls : Falls g1

/-- A step that was checked for a collision. -/
lemma Falls.step (h : Falls g) (dx dy : ℤ) (rotation : Fin 4)
    (hfree : g.collides dx dy rotation = false) : Moved g { g with
      pieceOriginX := g.pieceOriginX + 2 * dx, pieceOriginY := g.pieceOriginY + dy,
      currentRotation := rotation } := by
  refine ⟨⟨_, _, _, g.ticks, rfl⟩, ?_, ?_⟩
  · obtain ⟨n, hn⟩ := h.aligned
    exact ⟨n + dx, by dsimp only; rw [hn, mul_add, add_assoc]⟩
  · rw [collides_eq_false] at hfree
    dsimp only
    rw [h.aligned.shift, screenYToBoardY, add_sub_right_comm]
    exact hfree

lemma wp_handleActions (h : Falls g) : wp (handleActions k) (fun r g1 => Moved g g1 ∧
    (r = true → g1.collides 0 1 g1.currentRotation = true)) E g := by
  have hno : false = true → g.collides 0 1 g.currentRotation = true := fun hf => by cases hf
  rw [handleActions, wp_bind, wp_get, wp_ite]
  constructor
  · -- one column to the left
    rintro ⟨-, hc⟩
    have hm := h.step (-1) 0 _ hc
    rw [mul_neg_one, add_zero] at hm
    exact ⟨hm, fun hf => by cases hf⟩
  · intro _
    rw [wp_ite]
    constructor
    · -- one column to the right
      rintro ⟨-, hc⟩
      have hm := h.step 1 0 _ hc
      rw [mul_one, add_zero] at hm
      exact ⟨hm, fun hf => by cases hf⟩
    · intro _
      rw [wp_ite]
      constructor
      · -- one line down
        rintro ⟨-, hc⟩
        have hm := h.step 0 1 _ hc
        rw [mul_zero, add_zero] at hm
        exact ⟨hm, fun hf => by cases hf⟩
      · intro _
        rw [wp_ite]
        constructor
        · -- a turn on the spot
          rintro ⟨-, hc⟩
          have hm := h.step 0 0 _ hc
          rw [mul_zero, add_zero, add_zero] at hm
          exact ⟨hm, fun hf => by cases hf⟩
        · intro _
          rw [wp_ite]
          constructor
          · -- a drop to the line above the first collision
            intro _
            obtain ⟨d, hd, hstop, hfree⟩ := h.drop
            have hm := h.step 0 (d - 1) _ hfree
            rw [mul_zero, add_zero] at hm
            rw [hd]
            refine ⟨hm, fun _ => ?_⟩
            rw [Game.collides] at hstop ⊢
            rw [← hstop]
            congr 1
            simp only [screenYToBoardY]
            ring
          · intro _
            rw [wp_pure]
            exact ⟨⟨⟨_, _, _, _, rfl⟩, h⟩, fun hf => by cases hf⟩

/-! ## Coming to rest -/

/-- The piece has moved once more and then filled its cells. -/
structure Rested (g g1 g' : Game) (cells : List (ℤ × ℤ)) : Prop where
  moved : Moved g g1
  eq : g' = { g1 with
    gameboard := occupy g1.gameboard g1.currentPiece g1.blocks
    placed := g1.placed ++ cells
    state := .lineCheck }
  ne_nil : cells ≠ []
  mem : ∀ c ∈ cells, c ∈ g1.blocks

def Rests (g g' : Game) : Prop := ∃ g1 cells, Rested g g1 g' cells

lemma Falls.wp_place (h : Falls g) :
    wp placeCurrentBlockOnBoard (fun _ g' => g' = g.write g.currentPiece g.blocks) E g :=
  wp_placeCurrentBlockOnBoard fun _ hc => (h.blocks hc).1

lemma blocks_ne_nil (g : Game) : g.blocks ≠ [] := by
  intro h
  have hlen := blocks_length g
  rw [h] at hlen
  cases hlen

/-- The clock may be set at any time. -/
lemma Moved.setTicks (h : Moved g g1) (t : BitVec 32) : Moved g { g1 with ticks := t } := by
  obtain ⟨x, y, rotation, t', heq⟩ := h.eq
  exact ⟨⟨x, y, rotation, t, by rw [heq]⟩, h.falls.aligned, h.falls.fits⟩

/-- The second half of the tick for a piece that is at rest already. -/
lemma wp_secondLock {cells : List (ℤ × ℤ)} (h : Rested g g1 g' cells)
    (hstop : g1.collides 0 1 g1.currentRotation = true) (t : BitVec 32) :
    wp (do
      let collided ← shiftDown
      lockIf collided) (fun _ g'' => Rests g g'') E { g' with ticks := t } := by
  obtain ⟨hm, rfl, -, hmem⟩ := h
  -- the cells filled are still in the way
  have hstop' : Game.collides { g1 with
      gameboard := occupy g1.gameboard g1.currentPiece g1.blocks, placed := g1.placed ++ cells,
      state := .lineCheck, ticks := t } 0 1 g1.currentRotation = true := by
    by_contra hc
    rw [Bool.not_eq_true, collides_eq_false] at hc
    have hfree : g1.collides 0 1 g1.currentRotation = false :=
      collides_eq_false.mpr hc.of_occupy
    rw [hstop] at hfree
    cases hfree
  rw [wp_bind, shiftDown, wp_bind, wp_get, if_pos hstop', wp_pure, lockIf, if_pos rfl, wp_bind]
  refine wp_mono (wp_placeCurrentBlockOnBoard fun c hc => (hm.falls.blocks hc).1) ?_
  rintro - g'' rfl
  refine ⟨{ g1 with ticks := t }, cells ++ g1.blocks, hm.setTicks t, ?_, ?_, ?_⟩
  · simp only [Game.write, List.append_assoc]
    exact congrArg (fun b => { g1 with
      gameboard := b, placed := g1.placed ++ (cells ++ g1.blocks), state := .lineCheck,
      ticks := t }) (occupy_occupy g1.blocks)
  · exact List.append_ne_nil_of_right_ne_nil _ (blocks_ne_nil g1)
  · intro c hc
    rcases List.mem_append.mp hc with hc | hc
    · exact hmem c hc
    · exact hc

lemma wp_shiftDownBlocks (h : Falls g) :
    wp (shiftDownBlocks k) (fun _ g' => Moved g g' ∨ Rests g g') E g := by
  rw [shiftDownBlocks, wp_bind]
  refine wp_mono (wp_handleActions h) ?_
  rintro r g1 ⟨hm, hstop⟩
  rw [wp_bind]
  cases r with
  | true =>
    -- after a drop the piece is at rest, and the clock may run out in the same tick
    rw [lockIf, if_pos rfl, wp_bind]
    refine wp_mono hm.falls.wp_place ?_
    rintro - g2 rfl
    have hrest (t : BitVec 32) : Rested g { g1 with ticks := t } { g1 with
        gameboard := occupy g1.gameboard g1.currentPiece g1.blocks
        placed := g1.placed ++ g1.blocks, state := .lineCheck, ticks := t } g1.blocks :=
      ⟨hm.setTicks t, rfl, blocks_ne_nil g1, fun c hc => hc⟩
    rw [wp_modify, wp_bind, wp_modify, wp_bind, wp_get, wp_ite]
    constructor
    · intro _
      rw [wp_bind, wp_modify]
      exact wp_mono (wp_secondLock (hrest 0) (hstop rfl) 0) fun _ _ hr => .inr hr
    · intro _
      exact .inr ⟨_, _, hrest _⟩
  | false =>
    -- only when the clock runs out does the piece go down a line or come to rest
    rw [lockIf, if_neg (by simp), wp_pure, wp_bind, wp_modify, wp_bind, wp_get, wp_ite]
    constructor
    · intro _
      rw [wp_bind, wp_modify, wp_bind, shiftDown, wp_bind, wp_get, wp_ite]
      have hm0 := hm.setTicks 0
      constructor
      · intro _
        rw [wp_pure, lockIf, if_pos rfl, wp_bind]
        refine wp_mono hm0.falls.wp_place ?_
        rintro - g2 rfl
        exact .inr ⟨_, _, hm0, rfl, blocks_ne_nil _, fun c hc => hc⟩
      · intro hc
        rw [wp_bind, wp_modify, wp_pure, lockIf, if_neg (by simp), wp_pure]
        rw [Bool.not_eq_true] at hc
        have hdown := hm0.falls.step 0 1 _ hc
        rw [mul_zero, add_zero] at hdown
        obtain ⟨x, y, rotation, t, heq⟩ := hm0.eq
        exact .inl ⟨⟨x, y + 1, rotation, t, by rw [heq]⟩, hdown.falls⟩
    · intro _
      exact .inl (hm.setTicks _)

end Bikeshed.Tetris
