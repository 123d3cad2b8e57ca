/-
A row of a colour filter. A row alternates green with one other colour, so two facts describe it: which other colour
that is, and whether the row opens with green. `channelAt_atRow` says that rows and tiles describe the same filter.
-/
import Imaging.Filter.Tile

namespace Imaging

structure Phase where
  /-- the sites of the row that are not green are blue -/
  blue : Bool
  /-- the first site of the row is green -/
  startsGreen : Bool
  deriving DecidableEq, Repr

namespace Phase

/-- the first row of a tile -/
def ofTile : Tile → Phase
  | .rggb => { blue := false, startsGreen := false }
  | .grbg => { blue := false, startsGreen := true }
  | .bggr => { blue := true, startsGreen := false }
  | .gbrg => { blue := true, startsGreen := true }

/-- the row below -/
def nextRow (p : Phase) : Phase := { blue := !p.blue, startsGreen := !p.startsGreen }

/-- row `y` of a filter -/
def atRow (t : Tile) (y : Nat) : Phase :=
  if y % 2 = 1 then (ofTile t).nextRow else ofTile t

/-- whether column `x` of the row is a green site -/
def isGreen (p : Phase) (x : Nat) : Bool := p.startsGreen != decide (x % 2 = 1)

/-- the colour of the row's other sites -/
def rowChannel (p : Phase) : Channel := if p.blue then .blue else .red

/-- the colour of the other sites of the rows above and below -/
def columnChannel (p : Phase) : Channel := if p.blue then .red else .blue

def channelAt (p : Phase) (x : Nat) : Channel := if p.isGreen x then .green else p.rowChannel

theorem nextRow_nextRow (p : Phase) : p.nextRow.nextRow = p := by
  simp [nextRow]

theorem ofTile_nextY (t : Tile) : ofTile t.nextY = (ofTile t).nextRow := by
  cases t <;> rfl

theorem atRow_succ (t : Tile) (y : Nat) : atRow t (y + 1) = (atRow t y).nextRow := by
  rcases Nat.mod_two_eq_zero_or_one y with h | h <;> simp [atRow, Nat.add_mod, h, nextRow_nextRow]

theorem rowChannel_ne_green (p : Phase) : p.rowChannel ≠ .green := by
  unfold rowChannel
  split <;> decide

theorem columnChannel_ne_green (p : Phase) : p.columnChannel ≠ .green := by
  unfold columnChannel
  split <;> decide

theorem rowChannel_ne_columnChannel (p : Phase) : p.rowChannel ≠ p.columnChannel := by
  unfold rowChannel columnChannel
  split <;> decide

theorem channelAt_atRow (t : Tile) (x y : Nat) : (atRow t y).channelAt x = t.colourAt x y := by
  rcases Nat.mod_two_eq_zero_or_one x with hx | hx <;> rcases Nat.mod_two_eq_zero_or_one y with hy | hy
  all_goals
    simp only [channelAt, isGreen, rowChannel, atRow, Tile.colourAt, hx, hy]
    cases t <;> rfl

end Phase

end Imaging
