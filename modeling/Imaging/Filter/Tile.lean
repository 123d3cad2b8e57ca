/-
Colour filters of single-plane sensors. A filter repeats a tile of two by two sites, one red, one blue and two green;
the name of a tile reads its colours row by row. Moving the origin by one column or one row gives another of the four
tiles (`colourAt_nextX`, `colourAt_nextY`), so a crop of a mosaic is a mosaic again.
-/
namespace Imaging

inductive Channel where
  | red
  | green
  | blue
  deriving DecidableEq, Repr

/-- the place of a channel in an interleaved pixel -/
def Channel.index : Channel → Nat
  | red => 0
  | green => 1
  | blue => 2

theorem Channel.index_lt (c : Channel) : c.index < 3 := by
  cases c <;> decide

theorem Channel.index_inj {c d : Channel} : c.index = d.index ↔ c = d := by
  cases c <;> cases d <;> decide

inductive Tile where
  | rggb
  | gbrg
  | grbg
  | bggr
  deriving DecidableEq, Repr

namespace Tile

def all : List Tile := [rggb, gbrg, grbg, bggr]

theorem mem_all (t : Tile) : t ∈ all := by
  cases t <;> decide

/-- the tile seen one column to the right -/
def nextX : Tile → Tile
  | rggb => grbg
  | grbg => rggb
  | bggr => gbrg
  | gbrg => bggr

/-- the tile seen one row down -/
def nextY : Tile → Tile
  | rggb => gbrg
  | gbrg => rggb
  | bggr => grbg
  | grbg => bggr

/-- the colour of the tile's first site -/
def corner : Tile → Channel
  | rggb => .red
  | bggr => .blue
  | gbrg | grbg => .green

/-- the colour that the sensor takes at a site -/
def colourAt (t : Tile) (x y : Nat) : Channel :=
  let row := if y % 2 = 1 then t.nextY else t
  let site := if x % 2 = 1 then row.nextX else row
  site.corner

theorem nextX_nextX (t : Tile) : t.nextX.nextX = t := by
  cases t <;> rfl

theorem nextY_nextY (t : Tile) : t.nextY.nextY = t := by
  cases t <;> rfl

theorem nextX_nextY (t : Tile) : t.nextX.nextY = t.nextY.nextX := by
  cases t <;> rfl

theorem colourAt_mod (t : Tile) (x y : Nat) : t.colourAt (x % 2) (y % 2) = t.colourAt x y := by
  simp [colourAt]

theorem colourAt_nextX (t : Tile) (x y : Nat) : t.nextX.colourAt x y = t.colourAt (x + 1) y := by
  rcases Nat.mod_two_eq_zero_or_one x with hx | hx <;> rcases Nat.mod_two_eq_zero_or_one y with hy | hy
  all_goals simp [colourAt, Nat.add_mod, hx, hy, nextX_nextY, nextX_nextX]

theorem colourAt_nextY (t : Tile) (x y : Nat) : t.nextY.colourAt x y = t.colourAt x (y + 1) := by
  rcases Nat.mod_two_eq_zero_or_one x with hx | hx <;> rcases Nat.mod_two_eq_zero_or_one y with hy | hy
  all_goals simp [colourAt, Nat.add_mod, hx, hy, nextY_nextY]

end Tile

end Imaging
