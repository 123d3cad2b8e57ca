/-
Interpolation from a window with the site in its middle. The bilinear method takes the rounded mean of the nearest
samples of each colour, in a window of three by three. The high-quality linear method adds to such a mean the curvature
of the site's own colour, in a window of five by five; its weights are eighths. Sites too close to an edge for a window
are cleared.
-/
import Imaging.Demosaic.Corner

namespace Imaging

namespace Kernel

variable {α : Type} [Add α] [Div α] [∀ n, OfNat α n]

/-- the sum of the four samples that touch the site at its sides -/
def beside (s : Window α) : α := s (-1) 0 + s 1 0 + s 0 (-1) + s 0 1

/-- the sum of the four samples that touch the site at its corners -/
def diagonal (s : Window α) : α := s (-1) (-1) + s 1 (-1) + s (-1) 1 + s 1 1

def bilinear : Kernel α where
  atGreen s :=
    { row := roundedMean (s (-1) 0) (s 1 0)
      green := s 0 0
      column := roundedMean (s 0 (-1)) (s 0 1) }
  atColour s :=
    { row := s 0 0
      green := (beside s + 2) / 4
      column := (diagonal s + 2) / 4 }

variable [Sub α] [Mul α]

/-- the sum of the four samples two steps to the sides of the site -/
def twoBeside (s : Window α) : α := s 0 (-2) + s (-2) 0 + s 2 0 + s 0 2

/-- eight times the colour whose samples stand left and right of a green site -/
def alongRow (s : Window α) : α :=
  s 0 0 * 5 + (s (-1) 0 + s 1 0) * 4 - s (-2) 0 - s 2 0 - diagonal s + roundedMean (s 0 (-2)) (s 0 2)

/-- eight times the colour whose samples stand above and below a green site -/
def alongColumn (s : Window α) : α :=
  s 0 0 * 5 + (s 0 (-1) + s 0 1) * 4 - s 0 (-2) - s 0 2 - diagonal s + roundedMean (s (-2) 0) (s 2 0)

/-- eight times green at a site of another colour -/
def greenBeside (s : Window α) : α := beside s * 2 - twoBeside s + s 0 0 * 4

/-- eight times the colour whose samples stand at the corners of the site -/
def colourDiagonal (s : Window α) : α := diagonal s * 2 - (twoBeside s * 3 + 1) / 2 + s 0 0 * 6

def hqLinear : Kernel α where
  atGreen s :=
    { row := (alongRow s + 4) / 8
      green := s 0 0
      column := (alongColumn s + 4) / 8 }
  atColour s :=
    { row := s 0 0
      green := (greenBeside s + 4) / 8
      column := (colourDiagonal s + 4) / 8 }

end Kernel

/-- clear a frame of `n` pixels and interpolate inside it -/
def Raster.fromCentres (n : Nat) (k : Kernel Int) (m : Mosaic) (t : Tile) (r : Raster) : Raster :=
  (r.clearBorders n).interpolate m t k (.inside n m.width m.height)

theorem Raster.sameShape_fromCentres (n : Nat) (k : Kernel Int) (m : Mosaic) (t : Tile) (r : Raster) :
    SameShape (r.fromCentres n k m t) r :=
  (sameShape_interpolate _ m t k _).trans (sameShape_clearBorders r n)

end Imaging
