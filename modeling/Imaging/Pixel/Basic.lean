/-
A pixel as a coding carries it: a grey level, luma with chroma, or a colour. Every pixel can be read in each of the
three forms; a form that the pixel already has is returned unchanged.
-/
import Imaging.Colour

namespace Imaging

inductive Pixel where
  /-- a grey level alone -/
  | luma (y : UInt8)
  | yuv (p : Yuv UInt8)
  | rgb (p : Rgb UInt8)
  deriving DecidableEq, Repr

namespace Pixel

def toYuv : Pixel → Yuv UInt8
  | luma y => Yuv.grey y
  | yuv p => p
  | rgb p => p.toYuv

def toRgb : Pixel → Rgb UInt8
  | luma y => Rgb.grey y
  | yuv p => p.toRgb
  | rgb p => p

/-- the grey level of a pixel -/
def level (p : Pixel) : UInt8 := p.toYuv.y

end Pixel

end Imaging
