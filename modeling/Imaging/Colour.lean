/-
Colours of one pixel and the fixed-point transforms between them. The coefficients are the ITU-R BT.601 weights scaled
by 1024; every division rounds towards minus infinity. The sums are stated over any number type with the five
operations, so the same formulas can be read in exact integers or in an arithmetic that records overflow; `Rgb.toYuv`
and `Yuv.toRgb` run them in integers and clamp each channel into a byte.
-/
import Imaging.Sample.Basic

namespace Imaging

/-- red, green and blue -/
structure Rgb (α : Type) where
  r : α
  g : α
  b : α
  deriving DecidableEq, Repr

/-- luma and the two chroma channels; a byte of chroma is neutral at 128 -/
structure Yuv (α : Type) where
  y : α
  u : α
  v : α
  deriving DecidableEq, Repr

def Rgb.map {α β : Type} (f : α → β) (p : Rgb α) : Rgb β := ⟨f p.r, f p.g, f p.b⟩

def Yuv.map {α β : Type} (f : α → β) (p : Yuv α) : Yuv β := ⟨f p.y, f p.u, f p.v⟩

/-! ## Weights -/

section Weights

variable {α : Type} [Neg α] [Add α] [Sub α] [Mul α] [Div α] [∀ n, OfNat α n]

/-- luma and chroma of a colour, before clamping -/
def Rgb.weigh (p : Rgb α) : Yuv α where
  y := (306 * p.r + 601 * p.g + 117 * p.b) / 1024
  u := (-172 * p.r - 340 * p.g + 512 * p.b) / 1024 + 128
  v := (512 * p.r - 429 * p.g - 83 * p.b) / 1024 + 128

/-- the chroma of a pixel as signed differences -/
def Yuv.centre (p : Yuv α) : Yuv α := ⟨p.y, p.u - 128, p.v - 128⟩

/-- colour of a luma and two centred chroma channels, before clamping -/
def Yuv.weigh (p : Yuv α) : Rgb α where
  r := p.y + 1436 * p.v / 1024
  g := p.y - (352 * p.u + 731 * p.v) / 1024
  b := p.y + 1814 * p.u / 1024

end Weights

/-! ## Transforms of bytes -/

def widen (c : UInt8) : Int := c.toNat

def Rgb.toYuv (p : Rgb UInt8) : Yuv UInt8 := (p.map widen).weigh.map fun c => clip8 c 255

def Yuv.toRgb (p : Yuv UInt8) : Rgb UInt8 := (p.map widen).centre.weigh.map fun c => clip8 c 255

/-- a grey level as a pixel of neutral chroma -/
def Yuv.grey (y : UInt8) : Yuv UInt8 := ⟨y, 128, 128⟩

/-- a grey level as a colour of equal channels -/
def Rgb.grey (y : UInt8) : Rgb UInt8 := ⟨y, y, y⟩

theorem widen_nonneg (c : UInt8) : 0 ≤ widen c := Int.natCast_nonneg _

theorem widen_le (c : UInt8) : widen c ≤ 255 := by
  have := c.toNat_lt
  unfold widen
  omega

theorem clip8_widen (c : UInt8) : clip8 (widen c) 255 = c := by
  apply UInt8.toNat_inj.mp
  have := c.toNat_lt
  rw [toNat_clip8 (by decide), widen, clamp_natCast]
  omega

/-- neutral chroma adds no colour -/
theorem toRgb_grey (y : UInt8) : (Yuv.grey y).toRgb = Rgb.grey y := by
  have h : widen 128 = 128 := rfl
  simp [Yuv.toRgb, Yuv.grey, Rgb.grey, Yuv.map, Rgb.map, Yuv.centre, Yuv.weigh, h, clip8_widen]

/-- the three luma weights add up to 1024 and each row of chroma weights to 0 -/
theorem toYuv_grey (y : UInt8) : (Rgb.grey y).toYuv = Yuv.grey y := by
  have hy : (306 * widen y + 601 * widen y + 117 * widen y) / 1024 = widen y := by omega
  have hu : (-172 * widen y - 340 * widen y + 512 * widen y) / 1024 + 128 = widen 128 := by
    rw [show widen 128 = 128 from rfl]
    omega
  have hv : (512 * widen y - 429 * widen y - 83 * widen y) / 1024 + 128 = widen 128 := by
    rw [show widen 128 = 128 from rfl]
    omega
  simp only [Rgb.toYuv, Yuv.grey, Rgb.grey, Yuv.map, Rgb.map, Rgb.weigh, hy, hu, hv, clip8_widen]

end Imaging
