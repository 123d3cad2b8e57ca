/-
Demosaicing by reduction: each tile of the mosaic becomes one pixel. Red and blue are the tile's samples, green is the
mean of its two green samples, rounded down. The result is half as wide and half as high as the mosaic.
-/
import Imaging.Filter.Tile
import Imaging.Raster.Basic

namespace Imaging

/-- the sum of a tile's samples of one colour -/
def Mosaic.tileSum (m : Mosaic) (t : Tile) (x y : Nat) (c : Channel) : Int :=
  ((Region.tile x y).sites.filter fun site => t.colourAt site.1 site.2 = c).foldr
    (fun site sum => (m.get site.1 site.2 : Int) + sum) 0

/-- write a pixel for each tile -/
def Raster.fromTiles (m : Mosaic) (t : Tile) (r : Raster) : Raster :=
  r.sweep (.whole r.width r.height) fun x y r =>
    ((r.put x y .red (m.tileSum t x y .red)).put x y .green (m.tileSum t x y .green / 2)).put x y .blue
      (m.tileSum t x y .blue)

theorem Raster.sameShape_fromTiles (m : Mosaic) (t : Tile) (r : Raster) : SameShape (r.fromTiles m t) r :=
  r.sameShape_sweep fun x y s =>
    (sameShape_put _ x y .blue _).trans ((sameShape_put _ x y .green _).trans (s.sameShape_put x y .red _))

theorem Mosaic.tileSum_eq (m : Mosaic) (t : Tile) (x y : Nat) (c : Channel) :
    m.tileSum t x y c =
      (if t.colourAt 0 0 = c then (m.get (2 * x) (2 * y) : Int) else 0) +
        ((if t.colourAt 1 0 = c then (m.get (2 * x + 1) (2 * y) : Int) else 0) +
          ((if t.colourAt 0 1 = c then (m.get (2 * x) (2 * y + 1) : Int) else 0) +
            if t.colourAt 1 1 = c then (m.get (2 * x + 1) (2 * y + 1) : Int) else 0)) := by
  have he (n : Nat) : 2 * n % 2 = 0 := by omega
  have ho (n : Nat) : (2 * n + 1) % 2 = 1 := by omega
  have h₀₀ : t.colourAt (2 * x) (2 * y) = t.colourAt 0 0 := by rw [← Tile.colourAt_mod, he, he]
  have h₁₀ : t.colourAt (2 * x + 1) (2 * y) = t.colourAt 1 0 := by rw [← Tile.colourAt_mod, he, ho]
  have h₀₁ : t.colourAt (2 * x) (2 * y + 1) = t.colourAt 0 1 := by rw [← Tile.colourAt_mod, he, ho]
  have h₁₁ : t.colourAt (2 * x + 1) (2 * y + 1) = t.colourAt 1 1 := by rw [← Tile.colourAt_mod, ho, ho]
  simp only [tileSum, Region.sites_tile, List.filter_cons, List.filter_nil, decide_eq_true_eq, h₀₀, h₁₀, h₀₁, h₁₁]
  repeat' split
  all_goals simp

end Imaging
