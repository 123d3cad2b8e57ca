/-
Demosaicing along edges, in passes over one raster, each of which reads what the passes before it left.

1. Every sample is stored in its own channel, the other channels are zero.
2. Green is estimated at the sites of another colour, along the direction in which that colour is smoother: where its
   second difference is smaller. Where both are equal, all four green neighbours count.
3. Red, then blue, is filled in from green and the mean difference to green of the nearest samples of that colour.

The frame of three pixels, in which some pass had no full window, is cleared.
-/
import Imaging.Filter.Phase
import Imaging.Raster.Border

namespace Imaging

namespace EdgeSense

/-! ## Estimates at one site -/

section Estimates

variable {α : Type} [Add α] [Sub α] [Div α] [∀ n, OfNat α n]

def meanOfTwo (a b : α) : α := (a + b) / 2

def meanOfFour (a b c d : α) : α := (a + b + c + d) / 4

/-- how far the mean of the row's neighbours of the same colour stands from the sample -/
def secondDifferenceAlongRow (s : Window α) : α := meanOfTwo (s (-2) 0) (s 2 0) - s 0 0

/-- how far the mean of the column's neighbours of the same colour stands from the sample -/
def secondDifferenceAlongColumn (s : Window α) : α := meanOfTwo (s 0 (-2)) (s 0 2) - s 0 0

/-- the mean of green along the smoother direction: `dh` and `dv` say how rough row and column are -/
def greenAlong (dh dv : Nat) (g : Window α) : α :=
  if dh < dv then meanOfTwo (g (-1) 0) (g 1 0)
  else if dv < dh then meanOfTwo (g 0 (-1)) (g 0 1)
  else meanOfFour (g (-1) 0) (g 1 0) (g 0 (-1)) (g 0 1)

/-- the mean difference to green of the nearest samples of colour `c`, where the site is not one of them -/
def meanDifference? (p : Phase) (c : Channel) (x : Nat) (d : Window α) : Option α :=
  if p.isGreen x then
    if p.rowChannel = c then some (meanOfTwo (d (-1) 0) (d 1 0)) else some (meanOfTwo (d 0 (-1)) (d 0 1))
  else if p.rowChannel = c then none
  else some (meanOfFour (d (-1) (-1)) (d 1 (-1)) (d (-1) 1) (d 1 1))

end Estimates

/-! ## Passes -/

/-- store each sample in its own channel -/
def scatter (m : Mosaic) (t : Tile) (r : Raster) : Raster :=
  r.clear.sweep (.whole m.width m.height) fun x y r => r.put x y ((Phase.atRow t y).channelAt x) (m.get x y)

/-- green at a site, from its own colour `s` and the green values `g` around it -/
def greenEstimate (s g : Window Int) : Int :=
  greenAlong (secondDifferenceAlongRow s).natAbs (secondDifferenceAlongColumn s).natAbs g

/-- estimate green at the sites of another colour -/
def fillGreen (t : Tile) (r : Raster) : Raster :=
  r.sweep (.inside 2 r.width r.height) fun x y r =>
    let p := Phase.atRow t y
    if p.isGreen x then r else r.put x y .green (greenEstimate (r.window p.rowChannel x y) (r.window .green x y))

/-- the difference of a colour to green around a site -/
def difference (r : Raster) (c : Channel) (x y : Nat) : Window Int :=
  fun dx dy => r.window c x y dx dy - r.window .green x y dx dy

/-- fill in colour `c` where it was not sampled -/
def fillColour (t : Tile) (c : Channel) (r : Raster) : Raster :=
  r.sweep (.inside 1 r.width r.height) fun x y r =>
    match meanDifference? (Phase.atRow t y) c x (difference r c x y) with
    | some v => r.put x y c (r.window .green x y 0 0 + v)
    | none => r

theorem sameShape_scatter (m : Mosaic) (t : Tile) (r : Raster) : (scatter m t r).SameShape r :=
  (Raster.sameShape_sweep _ fun x y s => s.sameShape_put x y _ _).trans r.sameShape_clear

theorem sameShape_fillGreen (t : Tile) (r : Raster) : (fillGreen t r).SameShape r := by
  refine r.sameShape_sweep fun x y s => ?_
  by_cases h : (Phase.atRow t y).isGreen x
  · simp only [h, if_true]
    exact Raster.SameShape.refl s
  · simp only [h, if_false, Bool.false_eq_true]
    exact s.sameShape_put x y _ _

theorem sameShape_fillColour (t : Tile) (c : Channel) (r : Raster) : (fillColour t c r).SameShape r := by
  refine r.sameShape_sweep fun x y s => ?_
  cases meanDifference? (Phase.atRow t y) c x (difference s c x y) with
  | none => exact Raster.SameShape.refl s
  | some v => exact s.sameShape_put x y c _

end EdgeSense

namespace Raster

open EdgeSense

def alongEdges (m : Mosaic) (t : Tile) (r : Raster) : Raster :=
  (fillColour t .blue (fillColour t .red (fillGreen t (scatter m t r)))).clearBorders 3

theorem sameShape_alongEdges (m : Mosaic) (t : Tile) (r : Raster) : SameShape (r.alongEdges m t) r :=
  (sameShape_clearBorders _ 3).trans ((sameShape_fillColour t .blue _).trans
    ((sameShape_fillColour t .red _).trans ((sameShape_fillGreen t _).trans (sameShape_scatter m t r))))

end Raster

end Imaging
