import Bikeshed.Tetris.Falling

/-!
# What holds in every game

The invariant of the game loop (`Inv`), kept by every tick whatever the keys are. `phase` looks
through a pause, which can begin and end in any state.
-/

namespace Bikeshed.Tetris

open Lib

variable {g g' g0 : Game} {pieces lines : ℕ} {k : Pressed}

/-- The state, or the state that was paused. -/
def Game.phase (g : Game) : GameState := if g.state = .pause then g.statePausePrev else g.state

structure Inv (g : Game) (pieces lines : ℕ) : Prop where
  falls : g.phase = .shiftDownBlocks → Falls g
  score : g.score = 100 * g.linesCleared
  cleared : g.linesCleared = BitVec.ofNat 64 lines
  cells : filled g.gameboard + boardX * lines = 4 * pieces
  no_line : g.phase = .spawnBlock ∨ g.phase = .shiftDownBlocks →
    ∀ y < boardY, lineFound (g.gameboard y) = false
  flash : g.phase = .lineCheckFlash →
    ∀ y < boardY, g.fullLines y = lineFound (g.gameboard y)

/-- A tick from `g` to `g'`: the accounts are kept, and only empty cells have been written. -/
structure Ticked (g g' : Game) (pieces lines : ℕ) : Prop where
  inv : Inv g' (pieces + if g'.placed = g.placed then 0 else 1)
    (lines + (g'.linesCleared - g.linesCleared).toNat)
  writes : ∃ cells, g'.placed = g.placed ++ cells ∧
    ∀ c ∈ cells, InBoard c.1 c.2 ∧ g.gameboard c.2.toNat c.1.toNat = none

/-- Nothing was placed and no line cleared. -/
lemma Inv.ticked (h : Inv g' pieces lines) (hp : g'.placed = g.placed)
    (hl : g'.linesCleared = g.linesCleared) : Ticked g g' pieces lines := by
  refine ⟨?_, [], by rw [hp, List.append_nil], fun c hc => absurd hc List.not_mem_nil⟩
  rw [if_pos hp, hl, BitVec.sub_self]
  exact h

/-! ## Pauses -/

@[simp] lemma phase_pauseGame (g : Game) : (pauseGame g).phase = g.phase := by
  unfold pauseGame
  by_cases hs : g.state = .pause
  · rw [if_pos hs, Game.phase, Game.phase, if_pos hs]
    dsimp only
    split <;> rfl
  · rw [if_neg hs, Game.phase, Game.phase, if_neg hs]
    exact if_pos rfl

/-- A pause changes nothing but the state. -/
lemma pauseGame_eq (g : Game) :
    ∃ s s', pauseGame g = { g with state := s, statePausePrev := s' } := by
  unfold pauseGame
  split
  · exact ⟨_, _, rfl⟩
  · exact ⟨_, _, rfl⟩

lemma Inv.pauses (h : Inv g pieces lines) : Inv (pauseGame g) pieces lines := by
  have hphase := phase_pauseGame g
  obtain ⟨s, s', heq⟩ := pauseGame_eq g
  rw [heq] at hphase ⊢
  refine ⟨fun hs => ?_, h.score, h.cleared, h.cells, fun hs => h.no_line ?_, fun hs => h.flash ?_⟩
  · obtain ⟨ha, hf⟩ := h.falls (hphase ▸ hs)
    exact ⟨ha, hf⟩
  · rwa [hphase] at hs
  · rwa [hphase] at hs

/-! ## The states -/

lemma phase_of_state {s : GameState} (hs : g.state = s) (hne : s ≠ .pause) : g.phase = s := by
  rw [Game.phase, if_neg (hs ▸ hne), hs]

/-- A new piece only falls where it fits. -/
lemma Inv.spawns (h : Inv g pieces lines) (hs : g.state = .spawnBlock) :
    Ticked g (spawnBlock g) pieces lines := by
  have hno := h.no_line (.inl (phase_of_state hs (by decide)))
  rw [Tetris.spawnBlock]
  dsimp only
  split
  case isTrue =>
    -- the new piece collides: the game is over
    refine Inv.ticked
      ⟨fun hp => ?_, h.score, h.cleared, h.cells, fun _ => hno, fun hp => ?_⟩ rfl rfl
    · cases hp
    · cases hp
  case isFalse hfree =>
    rw [Bool.not_eq_true, collides_eq_false, add_zero, add_zero] at hfree
    refine Inv.ticked ⟨fun _ => ⟨⟨5, rfl⟩, hfree⟩, h.score, h.cleared, h.cells, fun _ => hno,
      fun hp => ?_⟩ rfl rfl
    cases hp

/-- A piece that came to rest fills four more cells. -/
lemma Inv.rests (h : Inv g pieces lines) (hr : Rests g g') : Ticked g g' pieces lines := by
  obtain ⟨g1, cells, ⟨⟨x, y, rotation, t, heq⟩, hfalls⟩, rfl, hne, hmem⟩ := hr
  have hboard : g1.gameboard = g.gameboard := by rw [heq]
  have hplaced : g1.placed = g.placed := by rw [heq]
  have hlines : g1.linesCleared = g.linesCleared := by rw [heq]
  have hscore : g1.score = g.score := by rw [heq]
  refine ⟨?_, cells, by rw [← hplaced], fun c hc => ?_⟩
  · -- one piece more, and so the ghost list has grown
    have hnot : ¬ g1.placed ++ cells = g.placed := by
      rw [hplaced, List.append_right_eq_self]
      exact hne
    dsimp only
    rw [if_neg hnot, hlines, BitVec.sub_self]
    change Inv _ _ lines
    refine ⟨fun hp => ?_, hscore.trans h.score, h.cleared, ?_, fun hp => ?_, fun hp => ?_⟩
    · cases hp
    · have hfill := filled_occupy (p := g1.currentPiece) (blocks_nodup g1) fun c hc =>
        hfalls.blocks hc
      have hcells := h.cells
      rw [blocks_length, hboard] at hfill
      dsimp only
      rw [hboard]
      change _ + boardX * lines = _
      omega
    · rcases hp with hp | hp <;> cases hp
    · cases hp
  · rw [← hboard]
    exact hfalls.blocks (hmem c hc)

lemma Inv.moved (h : Inv g pieces lines) (hs : g.state = .shiftDownBlocks) (hm : Moved g g') :
    Ticked g g' pieces lines := by
  have hno := h.no_line (.inr (phase_of_state hs (by decide)))
  obtain ⟨⟨x, y, rotation, t, heq⟩, hfalls⟩ := hm
  subst heq
  refine Inv.ticked
    ⟨fun _ => hfalls, h.score, h.cleared, h.cells, fun _ => hno, fun hp => ?_⟩ rfl rfl
  change g.phase = _ at hp
  rw [phase_of_state hs (by decide)] at hp
  cases hp

/-- The lines that are full are marked. -/
lemma Inv.checks (h : Inv g pieces lines) : Ticked g (lineCheck g) pieces lines := by
  rw [Tetris.lineCheck, checkForLines]
  dsimp only
  split
  case isTrue hfound =>
    refine Inv.ticked ⟨fun hp => ?_, h.score, h.cleared, h.cells, fun hp => ?_, fun _ y hy => ?_⟩
      rfl rfl
    · cases hp
    · rcases hp with hp | hp <;> cases hp
    · dsimp only
      rw [decide_eq_true hy, Bool.true_and]
  case isFalse hfound =>
    rw [Bool.not_eq_true, List.any_eq_false] at hfound
    refine Inv.ticked ⟨fun hp => ?_, h.score, h.cleared, h.cells, fun _ y hy => ?_, fun hp => ?_⟩
      rfl rfl
    · cases hp
    · have hline := hfound y (List.mem_range.mpr hy)
      rwa [Bool.not_eq_true] at hline
    · cases hp

/-! ## Clearing lines -/

/-- The lines that are marked. -/
def marked (g : Game) : ℕ := ((List.range boardY).filter g.fullLines).length

lemma marked_le (g : Game) : marked g ≤ boardY := by
  have hle := List.length_filter_le g.fullLines (List.range boardY)
  rwa [List.length_range] at hle

lemma numLines_widen (g : Game) :
    (numLines g).setWidth 64 = BitVec.ofNat 64 (marked g) ∧
      (numLines g * 100).setWidth 64 = 100 * BitVec.ofNat 64 (marked g) := by
  have hle := marked_le g
  rw [numLines]
  change (BitVec.ofNat 32 (marked g)).setWidth 64 = _ ∧
    (BitVec.ofNat 32 (marked g) * 100).setWidth 64 = _
  rw [boardY] at hle
  generalize marked g = n at hle
  constructor
  · apply BitVec.eq_of_toNat_eq
    rw [BitVec.toNat_setWidth, BitVec.toNat_ofNat, BitVec.toNat_ofNat]
    omega
  · have h32 : (100 : BitVec 32).toNat = 100 := rfl
    have h64 : (100 : BitVec 64).toNat = 100 := rfl
    apply BitVec.eq_of_toNat_eq
    rw [BitVec.toNat_setWidth, BitVec.toNat_mul, BitVec.toNat_mul, BitVec.toNat_ofNat,
      BitVec.toNat_ofNat, h32, h64, Nat.mod_eq_of_lt (show n < 2 ^ 32 by omega),
      Nat.mod_eq_of_lt (show n < 2 ^ 64 by omega), mul_comm 100 n,
      Nat.mod_eq_of_lt (show n * 100 < 2 ^ 32 by omega)]

/-- Clearing the full lines takes their cells away. -/
lemma filled_clearLines (hflash : ∀ y < boardY, g.fullLines y = lineFound (g.gameboard y)) :
    filled (clearLines g).gameboard + boardX * marked g = filled g.gameboard := by
  have hcard : marked g = ((Finset.range boardY).filter (g.fullLines · = true)).card := by
    simp only [marked, Finset.card, Finset.filter_val, Finset.range_val, Multiset.range,
      Multiset.filter_coe, Multiset.coe_card, Bool.decide_eq_true]
  -- every line that is dropped was full
  have hfull : ∑ y ∈ (Finset.range boardY).filter (g.fullLines · = true), lineFilled (g.gameboard y)
      = boardX * marked g := by
    rw [hcard, Finset.sum_congr rfl fun y hy => ?_, Finset.sum_const, nsmul_eq_mul, mul_comm]
    · rfl
    obtain ⟨hy, hline⟩ := Finset.mem_filter.mp hy
    rw [hflash y (Finset.mem_range.mp hy)] at hline
    exact lineFilled_of_found hline
  rw [filled_eq_sum, filled_eq_sum, ← hfull, clearLines, sum_removeRows _ lineFilled_blank]
  exact sum_kept_add g.fullLines boardY fun y => lineFilled (g.gameboard y)

lemma no_line_clearLines (hflash : ∀ y < boardY, g.fullLines y = lineFound (g.gameboard y))
    {y : ℕ} (hy : y < boardY) : lineFound ((clearLines g).gameboard y) = false := by
  rw [clearLines]
  dsimp only
  -- a line of the new board is blank or one of those that stayed
  have hrows : removeRows g.fullLines (fun _ => none) boardY g.gameboard y = (fun _ => none) ∨
      ∃ j ∈ kept g.fullLines boardY,
        removeRows g.fullLines (fun _ => none) boardY g.gameboard y = g.gameboard j :=
    removeRows_mem hy
  rcases hrows with hrow | ⟨j, hj, hrow⟩
  · rw [hrow]
    exact lineFound_blank
  · obtain ⟨hlt, hstay⟩ := mem_kept.mp hj
    rw [hrow, ← hflash j hlt]
    exact hstay

/-- The score goes up by what the lines are worth. -/
lemma Inv.clear (h : Inv g pieces lines)
    (hflash : ∀ y < boardY, g.fullLines y = lineFound (g.gameboard y)) :
    Ticked g { updateScore (clearLines g) with state := .spawnBlock } pieces lines := by
  obtain ⟨hnum, hscore⟩ := numLines_widen g
  have hle := marked_le g
  have hdiff : (g.linesCleared + BitVec.ofNat 64 (marked g) - g.linesCleared).toNat = marked g := by
    rw [add_sub_cancel_left, BitVec.toNat_ofNat]
    rw [boardY] at hle
    omega
  refine ⟨?_, [], (List.append_nil _).symm, fun c hc => absurd hc List.not_mem_nil⟩
  change Inv _ (pieces + if g.placed = g.placed then 0 else 1)
    (lines + (g.linesCleared + (numLines g).setWidth 64 - g.linesCleared).toNat)
  rw [if_pos rfl, hnum, hdiff]
  refine ⟨fun hp => ?_, ?_, ?_, ?_, fun _ y hy => no_line_clearLines hflash hy, fun hp => ?_⟩
  · cases hp
  · change g.score + (numLines g * 100).setWidth 64 =
      100 * (g.linesCleared + (numLines g).setWidth 64)
    rw [hnum, hscore, h.score, mul_add]
  · change g.linesCleared + (numLines g).setWidth 64 = _
    rw [hnum, h.cleared, BitVec.ofNat_add]
  · have hfill := filled_clearLines hflash
    have hcells := h.cells
    change filled (clearLines g).gameboard + boardX * (lines + marked g) = 4 * (pieces + 0)
    rw [mul_add]
    omega
  · cases hp

lemma Inv.flashes (h : Inv g pieces lines) (hs : g.state = .lineCheckFlash) :
    Ticked g (lineCheckFlash g) pieces lines := by
  have hflash := h.flash (phase_of_state hs (by decide))
  -- the counters of the flashes are in no equation
  have hcount (t c : BitVec 32) :
      Inv { g with flashTicks := t, flashCount := c } pieces lines := by
    refine ⟨fun hp => ?_, h.score, h.cleared, h.cells, h.no_line, h.flash⟩
    exact ⟨(h.falls hp).aligned, (h.falls hp).fits⟩
  -- what follows the counting of ticks and flashes
  have hend (t c : BitVec 32) : Ticked g
      (if numFlashes ≤ c then
        { updateScore (clearLines { g with flashTicks := t, flashCount := c }) with
          state := .spawnBlock }
      else { g with flashTicks := t, flashCount := c }) pieces lines := by
    split
    · obtain ⟨hinv, hwrites⟩ := (hcount t c).clear hflash
      exact ⟨hinv, hwrites⟩
    · exact (hcount t c).ticked rfl rfl
  rw [Tetris.lineCheckFlash]
  dsimp only
  by_cases ht : ticksPerFlash < g.flashTicks + 1
  · simp only [ht, if_true]
    exact hend 0 (g.flashCount + 1)
  · simp only [ht, if_false]
    exact hend (g.flashTicks + 1) g.flashCount

/-! ## A tick and a run -/

/-- Whether or not the pause key was pressed first. -/
lemma Inv.wp_switchState (h : Inv g pieces lines) :
    wp (switchState k) (fun _ g' => Ticked g g' pieces lines) (fun _ => False) g := by
  rw [switchState, wp_bind, wp_get]
  cases hs : g.state with
  | spawnBlock => exact h.spawns hs
  | shiftDownBlocks =>
    refine wp_mono (wp_shiftDownBlocks (h.falls (phase_of_state hs (by decide)))) ?_
    rintro - g' (hm | hr)
    · exact h.moved hs hm
    · exact h.rests hr
  | lineCheck => exact h.checks
  | lineCheckFlash => exact h.flashes hs
  | pause => exact h.ticked rfl rfl
  | gameOver => exact h.ticked rfl rfl

/-- No tick is at fault, and each keeps the invariant. -/
theorem Inv.wp_update (h : Inv g pieces lines) (keys : List Byte) :
    wp (update keys) (fun _ g' => Ticked g g' pieces lines) (fun _ => False) g := by
  rw [update, wp_ite]
  constructor
  · intro _
    refine Inv.ticked ⟨fun hp => ?_, h.score, h.cleared, h.cells, h.no_line, h.flash⟩ rfl rfl
    exact ⟨(h.falls hp).aligned, (h.falls hp).fits⟩
  · intro _
    rw [wp_bind, wp_modify]
    by_cases hp : (updateKeys keys).pause = true
    · rw [if_pos hp]
      refine wp_mono h.pauses.wp_switchState fun _ g' ht => ?_
      obtain ⟨s, s', heq⟩ := pauseGame_eq g
      rw [heq] at ht
      exact ⟨ht.inv, ht.writes⟩
    · rw [if_neg hp]
      exact h.wp_switchState

lemma inv_tetris (g : Game) (key1 key2 key3 key4 : Byte) :
    Inv (tetris g key1 key2 key3 key4) 0 0 := by
  refine ⟨fun hp => ?_, rfl, rfl, ?_, fun _ y _ => lineFound_blank, fun hp => ?_⟩
  · cases hp
  · change filled (fun _ _ => none) + _ = _
    simp [filled]
  · cases hp

theorem Reach.inv (h : Reach g pieces lines) : Inv g pieces lines := by
  induction h with
  | start g key1 key2 key3 key4 => exact inv_tetris g key1 key2 key3 key4
  | tick _ _ hrun ih => exact ((ih.wp_update _).ok hrun).inv

/-! ## Games -/

/-- The piece that falls, in a game that may be paused, stands on empty cells of the board, and a
drop comes to an end. A tick only writes cells of the board that were empty before it. -/
theorem piece_safe (h : Reach g pieces lines) :
    (g.phase = .shiftDownBlocks →
      Fits g.gameboard (screenXToBoardX g.pieceOriginX) (screenYToBoardY g.pieceOriginY)
        g.currentRotation g.currentPiece ∧
      ∃ d, ∀ fuel, boardY ≤ fuel → dropLoop g fuel 1 = some d) ∧
    ∀ keys, ∃ g', update keys g = .ok ((), g') ∧ ∃ cells, g'.placed = g.placed ++ cells ∧
      ∀ c ∈ cells, InBoard c.1 c.2 ∧ g.gameboard c.2.toNat c.1.toNat = none := by
  constructor
  · intro hp
    have hfalls := h.inv.falls hp
    obtain ⟨d, hd, -⟩ := hfalls.drop
    exact ⟨hfalls.fits, d, fun fuel hfuel => dropLoop_mono hd hfuel⟩
  · intro keys
    obtain ⟨⟨⟩, g', hrun, ht⟩ := (h.inv.wp_update keys).returns
    exact ⟨g', hrun, ht.writes⟩

/-- The first tick of a game with an empty seed. -/
def firstTick : Game := spawnBlock (tetris zeroed 0 0 0 0)

lemma reach_firstTick : Reach firstTick 0 0 :=
  .tick (.start zeroed 0 0 0 0) rfl (show update [] _ = .ok ((), firstTick) from rfl)

theorem piece_safe_firstTick : firstTick.state = .shiftDownBlocks ∧
    Fits firstTick.gameboard 5 0 0 firstTick.currentPiece ∧
    ∃ g', update [32] firstTick = .ok ((), g') := by
  obtain ⟨hfalls, hticks⟩ := piece_safe reach_firstTick
  obtain ⟨g', hrun, -⟩ := hticks [32]
  exact ⟨rfl, (hfalls rfl).1, g', hrun⟩

/-- What the score and the board say about a game in which so many pieces have come to rest and so
many lines were cleared; `lines_cleared` counts modulo `2^64`. -/
structure Accounts (g : Game) (pieces lines : ℕ) : Prop where
  score : g.score = 100 * g.linesCleared
  cleared : g.linesCleared.toNat = lines % 2 ^ 64
  cells : (filled g.gameboard : ℤ) = 4 * pieces - boardX * lines
  no_line : g.state = .spawnBlock ∨ g.state = .shiftDownBlocks →
    ∀ y < boardY, ∃ x < boardX, g.gameboard y x = none
  flash : g.phase = .lineCheckFlash →
    ∀ y < boardY, (g.fullLines y = true ↔ ∀ x < boardX, g.gameboard y x ≠ none)

theorem accounts (h : Reach g pieces lines) : Accounts g pieces lines := by
  obtain ⟨-, hscore, hcleared, hcells, hno, hflash⟩ := h.inv
  refine ⟨hscore, ?_, ?_, fun hs y hy => ?_, fun hp y hy => ?_⟩
  · rw [hcleared, BitVec.toNat_ofNat]
  · rw [eq_sub_iff_add_eq]
    exact_mod_cast hcells
  · have hphase : g.phase = .spawnBlock ∨ g.phase = .shiftDownBlocks :=
      hs.imp (fun hs => phase_of_state hs (by decide)) fun hs => phase_of_state hs (by decide)
    have hline := hno hphase y hy
    by_contra hfull
    push Not at hfull
    rw [lineFound_iff.mpr hfull] at hline
    cases hline
  · rw [hflash hp y hy]
    exact lineFound_iff

/-- The game after the first piece has been dropped. -/
def dropped : Game :=
  match update [32] firstTick with
  | .ok (_, g) => g
  | .error _ => firstTick

lemma reach_dropped : Reach dropped 1 0 :=
  .tick reach_firstTick rfl (show update [32] _ = .ok ((), dropped) from rfl)

theorem accounts_dropped : Accounts dropped 1 0 ∧ filled dropped.gameboard = 4 := by
  have h := accounts reach_dropped
  refine ⟨h, ?_⟩
  have hcells := h.cells
  omega

end Bikeshed.Tetris
