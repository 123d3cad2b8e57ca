/-
What demosaicing leaves in each pixel. Whatever a method does to its raster, and in which order, a channel of a pixel
ends as one of two things: inside the method's interior the clamped estimate of the method's kernel from the samples
around the pixel's site, outside the interior zero (`Method.pixel`).
- `get_run`: that is what a run leaves in every channel of every pixel, for all six methods;
- `run_eq_run`: nothing of what the raster held before a run is left after it.
-/
import Imaging.Demosaic.Decode
import Imaging.Proofs.Demosaic.Edges

namespace Imaging

namespace Method

def kernel : Method → Kernel Int
  | nearest => .nearest
  | simple => .simple
  | bilinear => .bilinear
  | hqLinear => .hqLinear
  | downsample => .tilewise
  | edgeSense => .edgeSense

/-- how many columns and rows of the mosaic lie between two pixels of the image -/
def stride : Method → Nat
  | downsample => 2
  | nearest | simple | bilinear | hqLinear | edgeSense => 1

/-- the pixels of the image that the method estimates -/
def interior (k : Method) (w h : Nat) : Region :=
  match k with
  | nearest | simple => .corners w h
  | bilinear => .inside 1 w h
  | hqLinear => .inside 2 w h
  | downsample => .whole (w / 2) (h / 2)
  | edgeSense => .inside 3 w h

theorem stride_of_ne {k : Method} (hk : k ≠ downsample) : k.stride = 1 := by
  cases k with
  | downsample => exact absurd rfl hk
  | nearest | simple | bilinear | hqLinear | edgeSense => rfl

theorem outputSize_of_ne {k : Method} (hk : k ≠ downsample) (w h : Nat) : k.outputSize w h = (w, h) := by
  cases k with
  | downsample => exact absurd rfl hk
  | nearest | simple | bilinear | hqLinear | edgeSense => rfl

theorem lt_outputSize {k : Method} {w h x y : Nat} (hin : (k.interior w h).Contains x y) :
    x < (k.outputSize w h).1 ∧ y < (k.outputSize w h).2 := by
  cases k <;>
    simp only [interior, outputSize, Region.Contains, Region.corners, Region.inside, Region.whole] at hin ⊢ <;>
    omega

/-- the samples that the method works on; edge-sensing stores them before it reads them -/
def source (k : Method) (m : Mosaic) (ceiling : Nat) : Mosaic :=
  match k with
  | edgeSense => m.limit ceiling
  | nearest | simple | bilinear | hqLinear | downsample => m

theorem width_source (k : Method) (m : Mosaic) (ceiling : Nat) : (k.source m ceiling).width = m.width := by
  cases k <;> rfl

theorem height_source (k : Method) (m : Mosaic) (ceiling : Nat) : (k.source m ceiling).height = m.height := by
  cases k <;> rfl

/-- only edge-sensing limits its samples first -/
theorem source_of_ne {k : Method} (hk : k ≠ edgeSense) (m : Mosaic) (ceiling : Nat) : k.source m ceiling = m := by
  cases k with
  | edgeSense => exact absurd rfl hk
  | nearest | simple | bilinear | hqLinear | downsample => rfl

/-- and where they are within the ceiling, it changes none of them -/
theorem source_of_le (k : Method) {m : Mosaic} {ceiling : Nat} (h : ∀ v ∈ m.samples, v ≤ ceiling) : k.source m ceiling = m := by
  cases k with
  | edgeSense => exact Mosaic.limit_of_le h
  | nearest | simple | bilinear | hqLinear | downsample => rfl

/-- the estimate of a pixel's channel, before it is clamped -/
def estimate (k : Method) (m : Mosaic) (t : Tile) (ceiling x y : Nat) (c : Channel) : Int :=
  k.kernel.colour t (k.stride * x) (k.stride * y) ((k.source m ceiling).window (k.stride * x) (k.stride * y)) c

/-- a channel of a pixel of the image -/
def pixel (k : Method) (m : Mosaic) (t : Tile) (ceiling x y : Nat) (c : Channel) : Nat :=
  if (k.interior m.width m.height).Contains x y then clamp (k.estimate m t ceiling x y c) ceiling else 0

theorem pixel_le (k : Method) (m : Mosaic) (t : Tile) (ceiling x y : Nat) (c : Channel) :
    k.pixel m t ceiling x y c ≤ ceiling := by
  unfold pixel
  split
  · exact clamp_le _ ceiling
  · exact Nat.zero_le ceiling

variable {m : Mosaic} {r : Raster}

theorem estimate_of_ne {k : Method} (hk : k ≠ downsample) (t : Tile) (ceiling x y : Nat) (c : Channel) :
    k.estimate m t ceiling x y c = k.kernel.colour t x y ((k.source m ceiling).window x y) c := by
  rw [estimate, stride_of_ne hk, Nat.one_mul, Nat.one_mul]

/-- **Every pixel of a run,** for a raster of the method's output size. -/
theorem get_run (k : Method) (hw : r.width = (k.outputSize m.width m.height).1)
    (hh : r.height = (k.outputSize m.width m.height).2) (t : Tile) (x y : Nat) (c : Channel) :
    (k.run m t r).get x y c = k.pixel m t r.ceiling x y c := by
  cases k with
  | nearest =>
    rw [run, Raster.get_fromCorners hw hh]
    simp only [pixel, interior, estimate, kernel, stride, source, Nat.one_mul]
  | simple =>
    rw [run, Raster.get_fromCorners hw hh]
    simp only [pixel, interior, estimate, kernel, stride, source, Nat.one_mul]
  | bilinear =>
    rw [run, Raster.get_fromCentres hw hh]
    simp only [pixel, interior, estimate, kernel, stride, source, Nat.one_mul]
  | hqLinear =>
    rw [run, Raster.get_fromCentres hw hh]
    simp only [pixel, interior, estimate, kernel, stride, source, Nat.one_mul]
  | downsample =>
    rw [run, Raster.get_fromTiles, hw, hh]
    rfl
  | edgeSense =>
    rw [run, Raster.alongEdges_eq hw hh, Raster.get_fromCentres (m := m.limit r.ceiling) hw hh]
    simp only [pixel, interior, estimate, kernel, stride, source, Nat.one_mul]
    rfl

theorem get_run_pixel (k : Method) (hw : r.width = (k.outputSize m.width m.height).1)
    (hh : r.height = (k.outputSize m.width m.height).2) (t : Tile) (x y : Nat) :
    (k.run m t r).get x y = k.pixel m t r.ceiling x y :=
  funext fun c => k.get_run hw hh t x y c

/-- **Nothing is left of the prior raster.** -/
theorem run_eq_run (k : Method) (hw : r.width = (k.outputSize m.width m.height).1)
    (hh : r.height = (k.outputSize m.width m.height).2) {s : Raster} (h : r.SameShape s) (t : Tile) :
    k.run m t r = k.run m t s := by
  refine Raster.eq_of_get ((k.sameShape_run m t r).trans (h.trans (k.sameShape_run m t s).symm)) ?_
  intro x y c _ _
  rw [k.get_run hw hh, k.get_run (h.width ▸ hw) (h.height ▸ hh), h.ceiling]

end Method

end Imaging
