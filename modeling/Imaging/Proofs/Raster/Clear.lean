/-
What the clearing loops leave in a raster. A frame of `n` pixels is the sites closer than `n` to an edge (`InFrame`); it
is the whole image where the image is narrower or lower than two frames.
- `get_clear`: clearing an image leaves zeros alone;
- `get_clearBorders`: clearing the borders zeroes the frame and nothing else, for every size and every `n`;
- `get_clearLastRowColumn`: the same for the last row and the last column.
-/
import Imaging.Proofs.Raster.Sweep
import Imaging.Raster.Border
import Mathlib.Logic.Basic

namespace Imaging.Raster

/-- the site is closer than `n` pixels to an edge of the image -/
def InFrame (n w h x y : Nat) : Prop := x < n ∨ w ≤ x + n ∨ y < n ∨ h ≤ y + n

instance (n w h x y : Nat) : Decidable (InFrame n w h x y) :=
  inferInstanceAs (Decidable (x < n ∨ w ≤ x + n ∨ y < n ∨ h ≤ y + n))

variable {r : Raster}

/-- a sweep of cleared pixels inside the image zeroes its region and nothing else -/
theorem get_sweep_clearPixel {g : Region} (hright : g.right ≤ r.width) (hbottom : g.bottom ≤ r.height) (x y : Nat)
    (c : Channel) : (r.sweep g clearPixel).get x y c = if g.Contains x y then 0 else r.get x y c := by
  refine get_sweep_pixels (v := fun _ _ _ => 0) sameShape_clearPixel ?_ x y c
  intro a b s hg hs x' y' c'
  have ha : a < s.width := by rw [hs.width]; exact Nat.lt_of_lt_of_le hg.1.2 hright
  have hb : b < s.height := by rw [hs.height]; exact Nat.lt_of_lt_of_le hg.2.2 hbottom
  exact get_clearPixel ha hb x' y' c'

theorem get_clear (x y : Nat) (c : Channel) : r.clear.get x y c = 0 := by
  rw [clear, get_sweep_clearPixel (Nat.le_refl _) (Nat.le_refl _)]
  by_cases h : x < r.width ∧ y < r.height
  · rw [if_pos ⟨⟨Nat.zero_le x, h.1⟩, Nat.zero_le y, h.2⟩]
  · rw [get_of_outside h, ite_self]

theorem get_clearSpan {y a b : Nat} (hy : y < r.height) (hb : b ≤ r.width) (x' y' : Nat) (c : Channel) :
    (r.clearSpan y a b).get x' y' c = if y' = y ∧ a ≤ x' ∧ x' < b then 0 else r.get x' y' c := by
  let g : Region := { left := a, top := y, right := b, bottom := y + 1 }
  have hg : g.Contains x' y' ↔ y' = y ∧ a ≤ x' ∧ x' < b := by
    simp only [g, Region.Contains]
    omega
  exact (r.get_sweep_clearPixel (g := g) hb hy x' y' c).trans (if_congr hg rfl rfl)

/-- a loop over the rows, each of which zeroes the sites of its own row that `Z` holds of -/
theorem get_foldl_rows {step : Raster → Nat → Raster} {Z : Nat → Nat → Prop} [∀ x y, Decidable (Z x y)]
    (hshape : ∀ s y, SameShape (step s y) s)
    (hstep : ∀ y < r.height, ∀ s, SameShape s r → ∀ x' y' c,
      (step s y).get x' y' c = if y' = y ∧ Z x' y' then 0 else s.get x' y' c) (x y : Nat) (c : Channel) :
    ((List.range r.height).foldl step r).get x y c = if Z x y then 0 else r.get x y c := by
  let owns (row x y : Nat) (_ : Channel) : Prop := y = row ∧ Z x y
  have hstores : Stores r (List.range r.height) step owns fun _ _ _ => 0 :=
    ⟨hshape, fun row hrow s hs => hstep row (List.mem_range.mp hrow) s hs.shape⟩
  rw [get_foldl hstores]
  by_cases hz : Z x y
  · by_cases hy : y < r.height
    · rw [if_pos ⟨y, List.mem_range.mpr hy, rfl, hz⟩, if_pos hz]
    · -- the row lies below the image, where every read gives zero
      rw [get_of_outside fun h => hy h.2, ite_self, ite_self]
  · rw [if_neg hz, if_neg]
    intro hrow
    obtain ⟨row, _, _, h⟩ := hrow
    exact hz h

theorem get_clearRowEnds {n y : Nat} (hy : y < r.height) (x' y' : Nat) (c : Channel) :
    (r.clearRowEnds n y).get x' y' c = if y' = y ∧ InFrame n r.width r.height x' y' then 0 else r.get x' y' c := by
  by_cases hx : x' < r.width
  · unfold clearRowEnds InFrame
    split
    · rename_i hrow
      rw [get_clearSpan hy (Nat.le_refl _)]
      exact if_congr (by omega) rfl rfl
    · rename_i hrow
      have hs := r.sameShape_clearSpan y 0 (min n r.width)
      rw [get_clearSpan (by rw [hs.height]; exact hy) (Nat.le_of_eq hs.width.symm),
        get_clearSpan hy (Nat.min_le_right _ _), ← ite_or]
      exact if_congr (by omega) rfl rfl
  · have hs := r.sameShape_clearRowEnds n y
    rw [get_of_outside fun h => hx (hs.width ▸ h.1), get_of_outside fun h => hx h.1, ite_self]

/-- **Clearing the borders** zeroes the frame and leaves every other pixel as it was. -/
theorem get_clearBorders (n x y : Nat) (c : Channel) :
    (r.clearBorders n).get x y c = if InFrame n r.width r.height x y then 0 else r.get x y c := by
  refine get_foldl_rows (fun s y => s.sameShape_clearRowEnds n y) ?_ x y c
  intro row hrow s hs x' y' c'
  rw [get_clearRowEnds (by rw [hs.height]; exact hrow), hs.width, hs.height]

/-- **Clearing the last row and the last column** leaves every other pixel as it was. -/
theorem get_clearLastRowColumn (x y : Nat) (c : Channel) :
    r.clearLastRowColumn.get x y c = if r.width ≤ x + 1 ∨ r.height ≤ y + 1 then 0 else r.get x y c := by
  have hshape (s : Raster) (y : Nat) :
      SameShape (if y + 1 = s.height then s.clearSpan y 0 s.width else s.clearSpan y (s.width - 1) s.width) s := by
    split
    · exact s.sameShape_clearSpan y 0 s.width
    · exact s.sameShape_clearSpan y (s.width - 1) s.width
  refine get_foldl_rows (Z := fun x y => r.width ≤ x + 1 ∨ r.height ≤ y + 1) hshape ?_ x y c
  intro row hrow s hs x' y' c'
  have hw : s.width = r.width := hs.width
  have hh : s.height = r.height := hs.height
  by_cases hx : x' < r.width
  · split
    · rw [get_clearSpan (by omega) (Nat.le_refl _)]
      exact if_congr (by omega) rfl rfl
    · rw [get_clearSpan (by omega) (Nat.le_refl _)]
      exact if_congr (by omega) rfl rfl
  · have hs' := (hshape s row).trans hs
    rw [get_of_outside fun h => hx (hs'.width ▸ h.1), get_of_outside fun h => hx (hw ▸ h.1), ite_self]

end Imaging.Raster
