/-
How far a method looks. The colours of a site depend on the samples of a small rectangle around it, `Method.reach`, and
on nothing else (`colour_congr`). The interior of a method is made for this: around each of its pixels the rectangle
stays in the mosaic (`exists_of_reaches`), so an estimate never meets the zeros outside.
-/
import Imaging.Proofs.Demosaic.Pixel

namespace Imaging

namespace Method

/-- how many columns to the left and rows above the site a method reads -/
def reachBack : Method → Nat
  | nearest | simple | downsample => 0
  | bilinear => 1
  | hqLinear => 2
  | edgeSense => 3

/-- how many columns to the right and rows below the site a method reads -/
def reachAhead : Method → Nat
  | nearest | simple | downsample | bilinear => 1
  | hqLinear => 2
  | edgeSense => 3

/-- the offsets at which a method may read -/
def Reaches (k : Method) (dx dy : Int) : Prop :=
  (-(k.reachBack : Int) ≤ dx ∧ dx ≤ k.reachAhead) ∧ -(k.reachBack : Int) ≤ dy ∧ dy ≤ k.reachAhead

instance (k : Method) (dx dy : Int) : Decidable (k.Reaches dx dy) :=
  inferInstanceAs (Decidable ((_ ∧ _) ∧ _ ∧ _))

variable {s s' : Window Int}

theorem moved_zero (s : Window Int) : s.moved 0 0 = s := by
  funext dx dy
  rw [Window.moved, Int.zero_add, Int.zero_add]

/-- green at an offset is read within two steps of it -/
theorem edgeGreen_congr (h : ∀ dx dy, edgeSense.Reaches dx dy → s dx dy = s' dx dy) {a b : Int}
    (ha : -1 ≤ a ∧ a ≤ 1) (hb : -1 ≤ b ∧ b ≤ 1) : Kernel.edgeGreen (s.moved a b) = Kernel.edgeGreen (s'.moved a b) := by
  have hread (dx dy : Int) (hx : -2 ≤ dx ∧ dx ≤ 2) (hy : -2 ≤ dy ∧ dy ≤ 2) : s.moved a b dx dy = s'.moved a b dx dy := by
    refine h _ _ ?_
    simp only [Reaches, reachBack, reachAhead]
    omega
  refine EdgeSense.greenEstimate_congr ?_ ?_
  · intro dx dy _ _ hx hy
    exact hread dx dy hx hy
  · intro dx dy _ hx hy
    exact hread dx dy (by omega) (by omega)

/-- and so is the difference to green -/
theorem edgeDifference_congr (h : ∀ dx dy, edgeSense.Reaches dx dy → s dx dy = s' dx dy) {a b : Int}
    (ha : -1 ≤ a ∧ a ≤ 1) (hb : -1 ≤ b ∧ b ≤ 1) : Kernel.edgeDifference s a b = Kernel.edgeDifference s' a b := by
  have hab : edgeSense.Reaches a b := by
    simp only [Reaches, reachBack, reachAhead]
    omega
  rw [Kernel.edgeDifference, Kernel.edgeDifference, edgeGreen_congr h ha hb, h a b hab]

theorem kernel_congr (k : Method) (h : ∀ dx dy, k.Reaches dx dy → s dx dy = s' dx dy) :
    k.kernel.atGreen s = k.kernel.atGreen s' ∧ k.kernel.atColour s = k.kernel.atColour s' := by
  cases k with
  | nearest => simp (disch := decide) only [kernel, Kernel.nearest, h, and_self]
  | simple => simp (disch := decide) only [kernel, Kernel.simple, h, and_self]
  | bilinear => simp (disch := decide) only [kernel, Kernel.bilinear, Kernel.beside, Kernel.diagonal, h, and_self]
  | hqLinear =>
    simp (disch := decide) only [kernel, Kernel.hqLinear, Kernel.alongRow, Kernel.alongColumn, Kernel.greenBeside,
      Kernel.colourDiagonal, Kernel.beside, Kernel.diagonal, Kernel.twoBeside, h, and_self]
  | downsample => simp (disch := decide) only [kernel, Kernel.tilewise, h, and_self]
  | edgeSense =>
    have h₀ := h 0 0 (by decide)
    have hd {a b : Int} := edgeDifference_congr h (a := a) (b := b)
    have hgreen := edgeGreen_congr h (a := 0) (b := 0) (by decide) (by decide)
    rw [moved_zero, moved_zero] at hgreen
    simp (disch := decide) only [kernel, Kernel.edgeSense, h₀, hd, hgreen, and_self]

/-- **Locality.** A colour of a site depends on the samples within the method's reach alone. -/
theorem colour_congr (k : Method) (h : ∀ dx dy, k.Reaches dx dy → s dx dy = s' dx dy) (t : Tile) (x y : Nat)
    (c : Channel) : k.kernel.colour t x y s c = k.kernel.colour t x y s' c := by
  obtain ⟨hgreen, hcolour⟩ := k.kernel_congr h
  rw [Kernel.colour, Kernel.colour, Kernel.estimate, Kernel.estimate, hgreen, hcolour]

/-- around a pixel of the interior, what is within reach is a site of the mosaic -/
theorem exists_of_reaches {k : Method} {w h x y : Nat} (hin : (k.interior w h).Contains x y) {dx dy : Int}
    (hreach : k.Reaches dx dy) :
    ∃ a b : Nat, ((a : Int) = ↑(k.stride * x) + dx ∧ a < w) ∧ (b : Int) = ↑(k.stride * y) + dy ∧ b < h := by
  refine ⟨(↑(k.stride * x) + dx).toNat, (↑(k.stride * y) + dy).toNat, ?_⟩
  cases k <;>
    simp only [Reaches, reachBack, reachAhead, stride, interior, Region.Contains, Region.corners, Region.inside,
      Region.whole] at hreach hin ⊢ <;>
    omega

end Method

end Imaging
