/-
Loops that hand the phase on from row to row. A sweep looks up the phase of the row that it works in. A loop over whole
rows can do without: it looks up the first one, and each row gives the phase of the row below.
- `sweepRows_eq_foldl`: after any number of rows that is the phase of the filter at the row;
- `sweep_eq_sweepRows`: so the loop is the sweep that looks it up;
- `fromCorners_eq_byRows`, `alongEdges_eq_byRows`: two methods read squares of four in such a loop, and edge-sensing
  stores each sample in its own channel in one.
-/
import Imaging.Demosaic.Decode

namespace Imaging

namespace Raster

variable (step : Phase → Nat → Nat → Raster → Raster)

/-- work through `rows` rows of `columns` sites, the first of which is row `y` and has the phase `p` -/
def sweepRows (columns : Nat) : (rows : Nat) → (p : Phase) → (y : Nat) → Raster → Raster
  | 0, _, _, r => r
  | rows + 1, p, y, r =>
    sweepRows columns rows p.nextRow (y + 1) ((List.range columns).foldl (fun r x => step p x y r) r)

theorem sweepRows_eq_foldl (t : Tile) (columns rows y : Nat) (r : Raster) :
    sweepRows step columns rows (.atRow t y) y r =
      (List.range' y rows).foldl
        (fun r y => (List.range columns).foldl (fun r x => step (.atRow t y) x y r) r) r := by
  -- the rows below start one row on and from another raster, so both are general
  induction rows generalizing y r with
  | zero => rfl
  | succ rows ih => rw [sweepRows, ← Phase.atRow_succ, ih, List.range'_succ, List.foldl_cons]

/-- **The phase handed from row to row** is the one that a sweep looks up. -/
theorem sweep_eq_sweepRows (t : Tile) (columns rows : Nat) (r : Raster) :
    r.sweep (.whole columns rows) (fun x y r => step (.atRow t y) x y r) =
      sweepRows step columns rows (.ofTile t) 0 r := by
  rw [sweep, Region.sites, List.foldl_flatMap, show Phase.ofTile t = .atRow t 0 from rfl, sweepRows_eq_foldl]
  simp only [List.foldl_map, Region.whole, Nat.sub_zero, List.range_eq_range']

/-- interpolation from squares of four, row by row -/
def fromCornersByRows (k : Kernel Int) (m : Mosaic) (t : Tile) (r : Raster) : Raster :=
  sweepRows (fun p x y r => r.store p x y (k.estimate p x (m.window x y))) (m.width - 1) (m.height - 1) (.ofTile t) 0
    r.clearLastRowColumn

theorem fromCorners_eq_byRows (k : Kernel Int) (m : Mosaic) (t : Tile) (r : Raster) :
    r.fromCorners k m t = r.fromCornersByRows k m t := by
  rw [fromCornersByRows, ← sweep_eq_sweepRows]
  rfl

end Raster

namespace EdgeSense

/-- the samples in their own channels, row by row -/
def scatterByRows (m : Mosaic) (t : Tile) (r : Raster) : Raster :=
  Raster.sweepRows (fun p x y r => r.put x y (p.channelAt x) (m.get x y)) m.width m.height (.ofTile t) 0 r.clear

theorem scatter_eq_byRows (m : Mosaic) (t : Tile) (r : Raster) : scatter m t r = scatterByRows m t r := by
  rw [scatterByRows, ← Raster.sweep_eq_sweepRows]
  rfl

end EdgeSense

theorem Raster.alongEdges_eq_byRows (m : Mosaic) (t : Tile) (r : Raster) :
    r.alongEdges m t =
      (EdgeSense.fillColour t .blue
        (EdgeSense.fillColour t .red (EdgeSense.fillGreen t (EdgeSense.scatterByRows m t r)))).clearBorders 3 := by
  rw [alongEdges, EdgeSense.scatter_eq_byRows]

end Imaging
