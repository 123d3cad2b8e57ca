/-
Interpolation from the square of four whose upper left corner the site is. The square holds one red, one blue and two
green samples. The nearest method copies: at a green site green comes from the diagonal sample, at another site from the
right one. The simple method takes the rounded mean of the two greens. The last row and the last column have no square.
-/
import Imaging.Demosaic.Kernel

namespace Imaging

namespace Kernel

variable {α : Type}

def nearest : Kernel α where
  atGreen s := { row := s 1 0, green := s 1 1, column := s 0 1 }
  atColour s := { row := s 0 0, green := s 1 0, column := s 1 1 }

variable [Add α] [Div α] [∀ n, OfNat α n]

/-- the mean of two samples, a half rounded up -/
def roundedMean (a b : α) : α := (a + b + 1) / 2

def simple : Kernel α where
  atGreen s := { row := s 1 0, green := roundedMean (s 0 0) (s 1 1), column := s 0 1 }
  atColour s := { row := s 0 0, green := roundedMean (s 1 0) (s 0 1), column := s 1 1 }

end Kernel

/-- interpolate from squares of four and clear what has none -/
def Raster.fromCorners (k : Kernel Int) (m : Mosaic) (t : Tile) (r : Raster) : Raster :=
  r.clearLastRowColumn.interpolate m t k (.corners m.width m.height)

theorem Raster.sameShape_fromCorners (k : Kernel Int) (m : Mosaic) (t : Tile) (r : Raster) :
    SameShape (r.fromCorners k m t) r :=
  (sameShape_interpolate _ m t k _).trans (sameShape_clearLastRowColumn r)

end Imaging
