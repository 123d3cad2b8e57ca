/-
Clearing parts of a raster. Interpolation needs neighbours on all sides, so the sites near an edge have no estimate and
are set to zero: a frame of `n` pixels, or the last row and the last column. Both are cleared row by row in spans.
-/
import Imaging.Raster.Basic

namespace Imaging.Raster

def clearPixel (x y : Nat) (r : Raster) : Raster :=
  ((r.put x y .red 0).put x y .green 0).put x y .blue 0

/-- zero the pixels of a row from column `a` up to column `b` -/
def clearSpan (r : Raster) (y a b : Nat) : Raster :=
  r.sweep { left := a, top := y, right := b, bottom := y + 1 } clearPixel

def clear (r : Raster) : Raster := r.sweep (.whole r.width r.height) clearPixel

/-- zero the part of one row that lies within `n` pixels of an edge -/
def clearRowEnds (n y : Nat) (r : Raster) : Raster :=
  if y < n ∨ r.height ≤ y + n then r.clearSpan y 0 r.width
  else (r.clearSpan y 0 (min n r.width)).clearSpan y (r.width - min n r.width) r.width

/-- zero a frame of `n` pixels; where the image is too small for a frame, all of it -/
def clearBorders (r : Raster) (n : Nat) : Raster :=
  (List.range r.height).foldl (fun r y => r.clearRowEnds n y) r

/-- zero the last row and the last column -/
def clearLastRowColumn (r : Raster) : Raster :=
  (List.range r.height).foldl
    (fun r y => if y + 1 = r.height then r.clearSpan y 0 r.width else r.clearSpan y (r.width - 1) r.width) r

/-! ## Shape -/

theorem sameShape_clearPixel (x y : Nat) (r : Raster) : SameShape (clearPixel x y r) r :=
  (sameShape_put _ x y .blue 0).trans ((sameShape_put _ x y .green 0).trans (r.sameShape_put x y .red 0))

theorem sameShape_clearSpan (r : Raster) (y a b : Nat) : SameShape (r.clearSpan y a b) r :=
  r.sameShape_sweep sameShape_clearPixel

theorem sameShape_clear (r : Raster) : SameShape r.clear r := r.sameShape_sweep sameShape_clearPixel

theorem sameShape_clearRowEnds (n y : Nat) (r : Raster) : SameShape (r.clearRowEnds n y) r := by
  unfold clearRowEnds
  split
  · exact sameShape_clearSpan r y 0 r.width
  · exact (sameShape_clearSpan _ y _ _).trans (sameShape_clearSpan r y 0 _)

theorem sameShape_foldl {step : Raster → Nat → Raster} (h : ∀ s y, SameShape (step s y) s) (r : Raster)
    (rows : List Nat) : SameShape (rows.foldl step r) r := by
  induction rows generalizing r with
  | nil => exact SameShape.refl r
  | cons y rows ih => exact (ih (step r y)).trans (h r y)

theorem sameShape_clearBorders (r : Raster) (n : Nat) : SameShape (r.clearBorders n) r :=
  sameShape_foldl (fun s y => sameShape_clearRowEnds n y s) r _

theorem sameShape_clearLastRowColumn (r : Raster) : SameShape r.clearLastRowColumn r := by
  refine sameShape_foldl (fun s y => ?_) r _
  split
  · exact sameShape_clearSpan s y 0 s.width
  · exact sameShape_clearSpan s y (s.width - 1) s.width

/-! ## Values -/

theorem get_clearPixel {x y : Nat} {r : Raster} (hx : x < r.width) (hy : y < r.height) (x' y' : Nat) (c : Channel) :
    (clearPixel x y r).get x' y' c = if x = x' ∧ y = y' then 0 else r.get x' y' c := by
  have h₁ := r.sameShape_put x y .red 0
  have h₂ := (sameShape_put (r.put x y .red 0) x y .green 0).trans h₁
  rw [clearPixel, get_put _ (h₂.width ▸ hx) (h₂.height ▸ hy), get_put _ (h₁.width ▸ hx) (h₁.height ▸ hy),
    get_put _ hx hy, clamp_zero, clamp_zero, clamp_zero]
  by_cases h : x = x' ∧ y = y'
  · cases c <;> simp [h]
  · simp [h]

end Imaging.Raster
