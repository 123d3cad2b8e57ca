/-
One filter, described three ways: by its tile, by the phase of a row that is looked up, and by a phase that is carried
from row to row. All three show the same colours at every site.
- `nextRow_iterate`: carrying the phase of the first row down comes to the phase that is looked up;
- `describes_atRow`: that phase says which sites of its row are green, which colour the others have, and which colours
  stand around each of them (`Describes`);
- `colourAt_walk`: moving the origin of a tile, by steps to the right and down in any order, shows the filter from the
  new origin on.
-/
import Imaging.Proofs.Filter.Pattern

namespace Imaging

/-! ## Rows -/

/-- one column, or row, beside another -/
def Adjacent (a b : Nat) : Prop := b = a + 1 ∨ a = b + 1

/-- an adjacent column or row is an odd offset away -/
theorem Adjacent.exists_offset {a b : Nat} (h : Adjacent a b) : ∃ d : Int, (b : Int) = a + d ∧ d % 2 = 1 := by
  rcases h with rfl | rfl
  · exact ⟨1, by omega, by decide⟩
  · exact ⟨-1, by omega, by decide⟩

namespace Phase

/-- the phase `p` tells the colours of row `y` of a filter, and of what stands around its sites -/
structure Describes (p : Phase) (t : Tile) (y : Nat) : Prop where
  green : ∀ x, p.isGreen x = true ↔ t.colourAt x y = .green
  /-- a site that is not green has the colour of the row -/
  own : ∀ x, p.isGreen x = false → t.colourAt x y = p.rowChannel
  /-- left and right of a green site the colour is that of the row -/
  beside : ∀ x x', p.isGreen x = true → Adjacent x x' → t.colourAt x' y = p.rowChannel
  /-- above and below a green site the colour is that of the column -/
  stacked : ∀ x y', p.isGreen x = true → Adjacent y y' → t.colourAt x y' = p.columnChannel
  /-- at the corners of a site that is not green the colour is that of the column as well -/
  diagonal : ∀ x x' y', p.isGreen x = false → Adjacent x x' → Adjacent y y' → t.colourAt x' y' = p.columnChannel

/-- **Looked up,** a row's phase describes the row. -/
theorem describes_atRow (t : Tile) (y : Nat) : (atRow t y).Describes t y where
  green x := isGreen_atRow t x y
  own x hx := by
    rw [← channelAt_atRow, channelAt, hx]
    rfl
  beside x x' hx hx' := by
    obtain ⟨dx, ha, hdx⟩ := hx'.exists_offset
    rw [colourAt_of_offset t ha (show (y : Int) = y + 0 by omega)]
    simp [channelAround, hx, hdx]
  stacked x y' hx hy' := by
    obtain ⟨dy, hb, hdy⟩ := hy'.exists_offset
    rw [colourAt_of_offset t (show (x : Int) = x + 0 by omega) hb]
    simp [channelAround, hx, hdy]
  diagonal x x' y' hx hx' hy' := by
    obtain ⟨dx, ha, hdx⟩ := hx'.exists_offset
    obtain ⟨dy, hb, hdy⟩ := hy'.exists_offset
    rw [colourAt_of_offset t ha hb]
    simp [channelAround, hx, hdx, hdy]

/-- **Carried down,** the phase of the first row is the phase of every row. -/
theorem nextRow_iterate (t : Tile) (y : Nat) : nextRow^[y] (ofTile t) = atRow t y := by
  induction y with
  | zero => rfl
  | succ y ih => rw [Function.iterate_succ_apply', ih, atRow_succ]

end Phase

/-! ## Walks -/

namespace Tile

/-- a step of a filter's origin -/
inductive Step where
  | right
  | down
  deriving DecidableEq, Repr

/-- the tile seen after a step -/
def after (t : Tile) : Step → Tile
  | .right => t.nextX
  | .down => t.nextY

/-- the tile seen after a walk, its steps in their order -/
def walk (t : Tile) (steps : List Step) : Tile := steps.foldl after t

/-- **After a walk** a site shows the colour that the filter has as many columns to the right and rows down as the walk
has steps that way. -/
theorem colourAt_walk (t : Tile) (steps : List Step) (x y : Nat) :
    (t.walk steps).colourAt x y = t.colourAt (x + steps.count .right) (y + steps.count .down) := by
  induction steps generalizing t with
  | nil => rfl
  | cons step steps ih =>
    rw [walk, List.foldl_cons, ← walk, ih]
    cases step with
    | right =>
      rw [after, colourAt_nextX, List.count_cons_self, List.count_cons_of_ne (by decide)]
      rfl
    | down =>
      rw [after, colourAt_nextY, List.count_cons_self, List.count_cons_of_ne (by decide)]
      rfl

end Tile

/-- **Rows and tiles agree everywhere.** The phase that is carried to a row is the one that is looked up, it describes
the row, and a filter looks from another origin as the tile does that was moved there by any walk. -/
theorem rows_describe_filter (t : Tile) :
    (∀ y, Phase.nextRow^[y] (.ofTile t) = .atRow t y ∧ (Phase.atRow t y).Describes t y) ∧
      ∀ (steps : List Tile.Step) (x y : Nat),
        t.colourAt (x + steps.count .right) (y + steps.count .down) = (t.walk steps).colourAt x y := by
  refine ⟨fun y => ⟨Phase.nextRow_iterate t y, Phase.describes_atRow t y⟩, ?_⟩
  intro steps x y
  exact (t.colourAt_walk steps x y).symm

end Imaging
