import Bikeshed.Tetris.Tetris

/-!
# Pieces on the board

`Fits`: the cells of a piece are on the board and empty. `occupy` is the board after the
piece has come to rest, and `filled` counts the cells that are not empty.
-/

namespace Bikeshed.Tetris

open Lib Finset

variable {b : ℕ → ℕ → Cell} {ox oy dx dy : ℤ} {rotation : Fin 4} {piece p : Piece} {g g' : Game}

/-- No collision: the cells of the piece are on the board and empty. -/
def Fits (b : ℕ → ℕ → Cell) (ox oy : ℤ) (rotation : Fin 4) (piece : Piece) : Prop :=
  ∀ c ∈ (blockOffsets rotation piece).cells,
    InBoard (c.1 + ox) (c.2 + oy) ∧ b (c.2 + oy).toNat (c.1 + ox).toNat = none

instance : Decidable (Fits b ox oy rotation piece) :=
  inferInstanceAs (Decidable (∀ c ∈ (blockOffsets rotation piece).cells, _))

lemma checkCollision_eq_false :
    checkCollision b ox oy rotation piece = false ↔ Fits b ox oy rotation piece := by
  rw [checkCollision, List.any_eq_false, Fits]
  refine forall₂_congr fun c _ => ?_
  rw [Bool.or_eq_true, decide_eq_true_eq, not_or, not_not, Option.not_isSome_iff_eq_none]

lemma collides_eq_false : g.collides dx dy rotation = false ↔
    Fits g.gameboard (screenXToBoardX g.pieceOriginX + dx) (screenYToBoardY g.pieceOriginY + dy)
      rotation g.currentPiece := checkCollision_eq_false

/-- The four blocks are different cells. -/
lemma cells_nodup (rotation : Fin 4) (piece : Piece) :
    (blockOffsets rotation piece).cells.Nodup := by
  revert rotation
  cases piece <;> decide

lemma cells_length (rotation : Fin 4) (piece : Piece) :
    (blockOffsets rotation piece).cells.length = 4 := by
  revert rotation
  cases piece <;> decide

/-- Below the board everything collides. -/
lemma not_fits_below (h : Fits b ox oy rotation piece) (hdy : (boardY : ℤ) ≤ dy) :
    ¬ Fits b ox (oy + dy) rotation piece := by
  intro hfits
  obtain ⟨c, hc⟩ := List.exists_mem_of_length_pos (l := (blockOffsets rotation piece).cells) (by
    rw [cells_length]
    norm_num)
  obtain ⟨⟨-, -, h0, -⟩, -⟩ := h c hc
  obtain ⟨⟨-, -, -, hlt⟩, -⟩ := hfits c hc
  omega

/-! ## Screen and board -/

/-- The piece stands on a column of the board. -/
def Aligned (g : Game) : Prop := ∃ n : ℤ, g.pieceOriginX = boardOriginX + 2 * n

lemma screenXToBoardX_eq (n : ℤ) : screenXToBoardX (boardOriginX + 2 * n) = n := by
  rw [screenXToBoardX, add_sub_cancel_left, Int.mul_tdiv_cancel_left n (by norm_num)]

/-- One column to the side is two characters. -/
lemma Aligned.shift (h : Aligned g) (d : ℤ) :
    screenXToBoardX (g.pieceOriginX + 2 * d) = screenXToBoardX g.pieceOriginX + d := by
  obtain ⟨n, hn⟩ := h
  rw [hn, add_assoc, ← mul_add, screenXToBoardX_eq, screenXToBoardX_eq]

/-- The cells that the current piece stands on. -/
def Game.blocks (g : Game) : List (ℤ × ℤ) :=
  (blockOffsets g.currentRotation g.currentPiece).cells.map fun c =>
    (c.1 + screenXToBoardX g.pieceOriginX, c.2 + screenYToBoardY g.pieceOriginY)

lemma blocks_nodup (g : Game) : g.blocks.Nodup := by
  refine (cells_nodup _ _).map fun c d h => ?_
  rw [Prod.mk.injEq] at h
  exact Prod.ext (add_right_cancel h.1) (add_right_cancel h.2)

lemma blocks_length (g : Game) : g.blocks.length = 4 := by
  rw [Game.blocks, List.length_map, cells_length]

/-- The current piece stands on empty cells of the board. -/
structure Falls (g : Game) : Prop where
  aligned : Aligned g
  fits : Fits g.gameboard (screenXToBoardX g.pieceOriginX) (screenYToBoardY g.pieceOriginY)
    g.currentRotation g.currentPiece

lemma Falls.blocks (h : Falls g) {c : ℤ × ℤ} (hc : c ∈ g.blocks) :
    InBoard c.1 c.2 ∧ g.gameboard c.2.toNat c.1.toNat = none := by
  obtain ⟨d, hd, rfl⟩ := List.mem_map.mp hc
  exact h.fits d hd

/-! ## The piece at rest -/

/-- The board with the cells `cs` filled. -/
def occupy (b : ℕ → ℕ → Cell) (p : Piece) (cs : List (ℤ × ℤ)) : ℕ → ℕ → Cell := fun y x =>
  if ((x : ℤ), (y : ℤ)) ∈ cs then some p else b y x

@[simp] lemma occupy_nil : occupy b p [] = b := by
  funext y x
  exact if_neg List.not_mem_nil

lemma occupy_occupy (cs : List (ℤ × ℤ)) : occupy (occupy b p cs) p cs = occupy b p cs := by
  funext y x
  unfold occupy
  split <;> rfl

/-- What collides still does when more cells are filled. -/
lemma Fits.of_occupy {cs : List (ℤ × ℤ)} (h : Fits (occupy b p cs) ox oy rotation piece) :
    Fits b ox oy rotation piece := by
  intro c hc
  obtain ⟨hin, hnone⟩ := h c hc
  refine ⟨hin, ?_⟩
  unfold occupy at hnone
  split at hnone
  · cases hnone
  · exact hnone

/-- A write to a cell of the board. -/
lemma update_cell {x y : ℤ} (h : InBoard x y) (cs : List (ℤ × ℤ)) :
    occupy (Function.update b y.toNat (Function.update (b y.toNat) x.toNat (some p))) p cs
      = occupy b p ((x, y) :: cs) := by
  obtain ⟨hx, -, hy, -⟩ := h
  funext j i
  unfold occupy
  by_cases hmem : ((i : ℤ), (j : ℤ)) ∈ cs
  · rw [if_pos hmem, if_pos (List.mem_cons_of_mem _ hmem)]
  · rw [if_neg hmem]
    by_cases hj : j = y.toNat
    · subst hj
      rw [Function.update_self]
      by_cases hi : i = x.toNat
      · subst hi
        rw [Function.update_self, if_pos]
        rw [Int.toNat_of_nonneg hx, Int.toNat_of_nonneg hy]
        exact List.mem_cons_self
      · rw [Function.update_of_ne hi, if_neg]
        simp only [List.mem_cons, hmem, or_false, Prod.mk.injEq]
        omega
    · -- another line of the board
      rw [Function.update_of_ne hj, if_neg]
      simp only [List.mem_cons, hmem, or_false, Prod.mk.injEq]
      omega

/-- The game after cells have been written. -/
def Game.write (g : Game) (p : Piece) (cs : List (ℤ × ℤ)) : Game :=
  { g with gameboard := occupy g.gameboard p cs, placed := g.placed ++ cs }

lemma wp_writeCells {E : Fault → Prop} (cs : List (ℤ × ℤ))
    (h : ∀ c ∈ cs, InBoard (c.1 + ox) (c.2 + oy)) :
    wp (writeCells p ox oy cs)
      (fun _ g' => g' = g.write p (cs.map fun c => (c.1 + ox, c.2 + oy))) E g := by
  induction cs generalizing g with
  | nil =>
    rw [writeCells, wp_pure, List.map_nil, Game.write, occupy_nil, List.append_nil]
  | cons c cs ih =>
    have hc := h c List.mem_cons_self
    rw [writeCells, wp_bind, writeCell, if_pos hc, wp_modify]
    refine wp_mono (ih fun d hd => h d (List.mem_cons_of_mem _ hd)) ?_
    rintro - g' rfl
    rw [Game.write, Game.write, List.map_cons, update_cell hc, List.append_assoc,
      List.singleton_append]

/-- Nothing is written outside of the board. -/
lemma wp_placeCurrentBlockOnBoard {E : Fault → Prop} (h : ∀ c ∈ g.blocks, InBoard c.1 c.2) :
    wp placeCurrentBlockOnBoard (fun _ g' => g' = g.write g.currentPiece g.blocks) E g := by
  rw [placeCurrentBlockOnBoard, wp_bind, wp_get]
  exact wp_writeCells _ fun c hc => h _ (List.mem_map_of_mem hc)

/-! ## Counting -/

/-- The cells of a line that are not empty. -/
def lineFilled (line : ℕ → Cell) : ℕ := ((range boardX).filter fun x => line x ≠ none).card

/-- The cells of the board that are not empty. -/
def filled (b : ℕ → ℕ → Cell) : ℕ :=
  ((range boardY ×ˢ range boardX).filter fun c => b c.1 c.2 ≠ none).card

lemma filled_eq_sum (b : ℕ → ℕ → Cell) : filled b = ∑ y ∈ range boardY, lineFilled (b y) := by
  simp only [filled, lineFilled, card_filter, sum_product]

lemma lineFound_iff {line : ℕ → Cell} : lineFound line = true ↔ ∀ x < boardX, line x ≠ none := by
  simp only [lineFound, List.all_eq_true, List.mem_range, Option.isSome_iff_ne_none]

lemma lineFilled_of_found {line : ℕ → Cell} (h : lineFound line = true) :
    lineFilled line = boardX := by
  rw [lineFilled, filter_true_of_mem fun x hx => lineFound_iff.mp h x (mem_range.mp hx),
    card_range]

lemma lineFilled_blank : lineFilled (fun _ => none) = 0 := by simp [lineFilled]

lemma lineFound_blank : lineFound (fun _ => none) = false := rfl

/-- Filling empty cells of the board. -/
lemma filled_occupy {cs : List (ℤ × ℤ)} (hnd : cs.Nodup)
    (h : ∀ c ∈ cs, InBoard c.1 c.2 ∧ b c.2.toNat c.1.toNat = none) :
    filled (occupy b p cs) = filled b + cs.length := by
  -- the cells of before and those of `cs`, with none in common
  have hset : (range boardY ×ˢ range boardX).filter (fun c => occupy b p cs c.1 c.2 ≠ none)
      = (range boardY ×ˢ range boardX).filter (fun c => b c.1 c.2 ≠ none) ∪
        (cs.map fun c => (c.2.toNat, c.1.toNat)).toFinset := by
    ext ⟨y, x⟩
    rw [mem_union, List.mem_toFinset, List.mem_map]
    constructor
    · intro hmem
      obtain ⟨hin, hne⟩ := mem_filter.mp hmem
      unfold occupy at hne
      split at hne
      case isTrue hc => exact .inr ⟨_, hc, rfl⟩
      case isFalse => exact .inl (mem_filter.mpr ⟨hin, hne⟩)
    · unfold occupy
      rintro (hmem | ⟨c, hc, heq⟩)
      · obtain ⟨hin, hne⟩ := mem_filter.mp hmem
        refine mem_filter.mpr ⟨hin, ?_⟩
        split
        · exact Option.some_ne_none _
        · exact hne
      · obtain ⟨⟨h1, h2, h3, h4⟩, -⟩ := h c hc
        obtain ⟨rfl, rfl⟩ := Prod.mk.injEq .. ▸ heq
        refine mem_filter.mpr ⟨mem_product.mpr ⟨mem_range.mpr (by omega), mem_range.mpr (by omega)⟩,
          ?_⟩
        rw [if_pos]
        · exact Option.some_ne_none _
        · rwa [Int.toNat_of_nonneg h1, Int.toNat_of_nonneg h3]
  have hdisj : Disjoint ((range boardY ×ˢ range boardX).filter fun c => b c.1 c.2 ≠ none)
      (cs.map fun c => (c.2.toNat, c.1.toNat)).toFinset := by
    rw [disjoint_left]
    intro c hc hmem
    obtain ⟨d, hd, rfl⟩ := List.mem_map.mp (List.mem_toFinset.mp hmem)
    exact (mem_filter.mp hc).2 (h d hd).2
  have hinj : (cs.map fun c => (c.2.toNat, c.1.toNat)).Nodup := by
    refine hnd.map_on fun c hc d hd heq => ?_
    obtain ⟨⟨h1, -, h3, -⟩, -⟩ := h c hc
    obtain ⟨⟨k1, -, k3, -⟩, -⟩ := h d hd
    rw [Prod.mk.injEq] at heq
    exact Prod.ext (by omega) (by omega)
  rw [filled, hset, card_union_of_disjoint hdisj, List.toFinset_card_of_nodup hinj,
    List.length_map, filled]

end Bikeshed.Tetris
