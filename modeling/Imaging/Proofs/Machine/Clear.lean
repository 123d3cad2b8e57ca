/-
Clearing, element by element. `Raster.Clears` says of two rasters that the second is the first one with some pixels set
to zero: their three channels are zero, and no other element of the buffer has changed. Borders, and the last row and
column, are cleared in this sense and by row slices that stay inside the buffer (`clears_exactly`), also where the image
is narrower or lower than the frame, or than two of them, so that the two ends of a row overlap.
-/
import Imaging.Proofs.Machine.Raster

namespace Imaging

/-- `s` is `r` with the pixels that `Z` holds of set to zero -/
structure Raster.Clears (r s : Raster) (Z : Nat → Nat → Prop) : Prop where
  shape : s.SameShape r
  /-- every channel of a pixel that is to be cleared is zero -/
  cleared : ∀ x y c, x < r.width → y < r.height → Z x y → s.data[r.offset x y c]? = some 0
  /-- an element that is no channel of such a pixel is as it was -/
  kept : ∀ i < r.data.size, (∀ x y c, x < r.width → y < r.height → Z x y → i ≠ r.offset x y c) →
    s.data[i]? = r.data[i]?

/-- what clearing does to every pixel, it does to every element -/
theorem Raster.Clears.of_get {r s : Raster} {Z : Nat → Nat → Prop} [∀ x y, Decidable (Z x y)] (hshape : s.SameShape r)
    (hget : ∀ x y c, x < r.width → y < r.height → s.get x y c = if Z x y then 0 else r.get x y c) : r.Clears s Z := by
  have hdata {x y : Nat} (c : Channel) (hx : x < r.width) (hy : y < r.height) :
      s.data[r.offset x y c]? = some (if Z x y then 0 else r.get x y c) := by
    have hoffset : r.offset x y c = s.offset x y c := by rw [offset, offset, hshape.width]
    rw [hoffset, s.getElem?_offset (hshape.width ▸ hx) (hshape.height ▸ hy), hget x y c hx hy]
  refine ⟨hshape, ?_, ?_⟩
  · intro x y c hx hy hz
    rw [hdata c hx hy, if_pos hz]
  · intro i hi hother
    obtain ⟨x, y, c, ⟨hx, hy⟩, rfl⟩ := r.exists_offset hi
    have hz : ¬Z x y := fun hz => hother x y c hx hy hz rfl
    rw [hdata c hx hy, if_neg hz, r.getElem?_offset hx hy]

namespace Machine

/-- **Clearing is exact.** Over every buffer that a raster can stand over, whatever it holds, clearing a frame of `n`
pixels zeroes the pixels closer than `n` to an edge, and clearing the last row and column zeroes these; nothing else
changes, and no row slice leaves the buffer. -/
theorem clears_exactly {w h ceiling : Nat} {buffer : Array Nat} {r : Raster} (hw : 1 ≤ w)
    (hr : Raster.ofBuffer w h ceiling buffer = .ok r) :
    (∀ n, clearBorders r n = .ok (r.clearBorders n) ∧
      r.Clears (r.clearBorders n) fun x y => x < n ∨ x + n ≥ w ∨ y < n ∨ y + n ≥ h) ∧
      clearLastRowColumn r = .ok r.clearLastRowColumn ∧
        r.Clears r.clearLastRowColumn fun x y => x + 1 = w ∨ y + 1 = h := by
  obtain ⟨hlimit, rfl, rfl, _, _⟩ := Raster.ofBuffer_eq_ok_iff.mp hr
  have haddressable : r.Addressable := ⟨hw, hlimit⟩
  refine ⟨fun n => ⟨clearBorders_eq haddressable n, ?_⟩, clearLastRowColumn_eq haddressable, ?_⟩
  · exact .of_get (r.sameShape_clearBorders n) fun x y c _ _ => Raster.get_clearBorders n x y c
  · refine .of_get r.sameShape_clearLastRowColumn fun x y c hx hy => ?_
    have hlast : (r.width ≤ x + 1 ∨ r.height ≤ y + 1) ↔ (x + 1 = r.width ∨ y + 1 = r.height) := by omega
    rw [Raster.get_clearLastRowColumn]
    exact if_congr hlast rfl rfl

/-- three rows of three pixels, whose rows have ends of two pixels each -/
theorem clears_exactly_square :
    let r : Raster :=
      { width := 3, height := 3, ceiling := 255, data := .ofFn fun i : Fin 27 => i + 1, size_eq := Array.size_ofFn }
    1 ≤ 3 ∧ Raster.ofBuffer 3 3 255 r.data = .ok r ∧
      (clearBorders r 2 = .ok (r.clearBorders 2) ∧
        r.Clears (r.clearBorders 2) fun x y => x < 2 ∨ x + 2 ≥ 3 ∨ y < 2 ∨ y + 2 ≥ 3) ∧
      clearLastRowColumn r = .ok r.clearLastRowColumn ∧
        r.Clears r.clearLastRowColumn fun x y => x + 1 = 3 ∨ y + 1 = 3 := by
  intro r
  have hr : Raster.ofBuffer 3 3 255 r.data = .ok r := rfl
  obtain ⟨hborders, hlast⟩ := clears_exactly (by decide) hr
  exact ⟨by decide, hr, hborders 2, hlast⟩

-- a frame of one pixel leaves the middle, a frame of two leaves nothing
example :
    let r : Raster :=
      { width := 3, height := 3, ceiling := 255, data := .ofFn fun i : Fin 27 => i + 1, size_eq := Array.size_ofFn }
    (r.clearBorders 1).data = .replicate 12 0 ++ #[13, 14, 15] ++ .replicate 12 0 ∧
      (r.clearBorders 2).data = .replicate 27 0 := by
  decide +kernel

end Machine

end Imaging
