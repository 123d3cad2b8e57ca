/-
The high-quality linear method by its weights. The method is described by three masks of five by five, whose weights are
eighths and halves of eighths: in sixteenths they are whole numbers (`Mask`). Its kernel divides in two steps, first the
half weights and then the whole sum, and rounds in both. `colour_hqLinear` says that the two roundings are one: every
estimate is the weighted sum of its mask, divided by sixteen and rounded once, and the bias of that rounding depends on
the kind of site alone. `decode_masks` says so of the requests.
-/
import Mathlib.Algebra.BigOperators.Fin
import Mathlib.LinearAlgebra.Matrix.Notation
import Imaging.Proofs.Demosaic.Depth

namespace Imaging

/-! ## Masks -/

/-- the weights of the samples in a window of five by five, in sixteenths: rows from above, columns from the left -/
abbrev Mask := Matrix (Fin 5) (Fin 5) Int

namespace Mask

/-- the weighted sum of the samples around a site -/
def weigh (k : Mask) (s : Window Int) : Int := ∑ i : Fin 5, ∑ j : Fin 5, k i j * s ((j : Nat) - 2) ((i : Nat) - 2)

/-- the colour whose samples stand left and right of a green site -/
def alongRow : Mask :=
  !![ 0,  0,  1,  0,  0;
      0, -2,  0, -2,  0;
     -2,  8, 10,  8, -2;
      0, -2,  0, -2,  0;
      0,  0,  1,  0,  0]

/-- the colour whose samples stand above and below a green site -/
def alongColumn : Mask := alongRow.transpose

/-- green at a site of another colour -/
def green : Mask :=
  !![ 0,  0, -2,  0,  0;
      0,  0,  4,  0,  0;
     -2,  4,  8,  4, -2;
      0,  0,  4,  0,  0;
      0,  0, -2,  0,  0]

/-- the colour whose samples stand at the corners of a site of another colour -/
def opposite : Mask :=
  !![ 0,  0, -3,  0,  0;
      0,  4,  0,  4,  0;
     -3,  0, 12,  0, -3;
      0,  4,  0,  4,  0;
      0,  0, -3,  0,  0]

/-- the mask of a colour that a site did not take: at a green site it is told by the neighbour in the row -/
def ofSite (t : Tile) (x y : Nat) (c : Channel) : Mask :=
  if t.colourAt x y = .green then if t.colourAt (x + 1) y = c then alongRow else alongColumn
  else if c = .green then green else opposite

theorem weigh_transpose (k : Mask) (s : Window Int) : weigh k.transpose s = k.weigh fun dx dy => s dy dx := by
  rw [weigh, weigh, Finset.sum_comm]
  rfl

/-! ## Sums and their roundings -/

open Kernel

variable (s : Window Int)

theorem weigh_alongRow :
    alongRow.weigh s =
      2 * (s 0 0 * 5 + (s (-1) 0 + s 1 0) * 4 - s (-2) 0 - s 2 0 - diagonal s) + (s 0 (-2) + s 0 2) := by
  simp [weigh, alongRow, Fin.sum_univ_five, diagonal]
  omega

theorem weigh_green : green.weigh s = 2 * greenBeside s := by
  simp [weigh, green, Fin.sum_univ_five, greenBeside, beside, twoBeside]
  omega

theorem weigh_opposite : opposite.weigh s = 2 * (diagonal s * 2 + s 0 0 * 6) - twoBeside s * 3 := by
  simp [weigh, opposite, Fin.sum_univ_five, diagonal, twoBeside]
  omega

/-- a half that is rounded up and added, inside a rounded eighth -/
theorem add_half_ediv (a b : Int) : (a + (b + 1) / 2 + 4) / 8 = (2 * a + b + 9) / 16 := by omega

theorem sub_half_ediv (a b : Int) : (a - (b + 1) / 2 + 4) / 8 = (2 * a - b + 8) / 16 := by omega

theorem alongRow_rounded : (Kernel.alongRow s + 4) / 8 = (alongRow.weigh s + 9) / 16 := by
  rw [weigh_alongRow, Kernel.alongRow, roundedMean, add_half_ediv]

/-- the kernel along the column is the kernel along the row of the transposed window -/
theorem alongColumn_eq_transpose : Kernel.alongColumn s = Kernel.alongRow fun dx dy => s dy dx := by
  simp only [Kernel.alongColumn, Kernel.alongRow, diagonal]
  omega

theorem alongColumn_rounded : (Kernel.alongColumn s + 4) / 8 = (alongColumn.weigh s + 9) / 16 := by
  rw [alongColumn_eq_transpose, alongRow_rounded, alongColumn, weigh_transpose]

/-- there are no half weights in the mask of green -/
theorem green_rounded : (greenBeside s + 4) / 8 = (green.weigh s + 8) / 16 := by
  rw [weigh_green]
  omega

theorem opposite_rounded : (colourDiagonal s + 4) / 8 = (opposite.weigh s + 8) / 16 := by
  have hsum : colourDiagonal s = diagonal s * 2 + s 0 0 * 6 - (twoBeside s * 3 + 1) / 2 := by
    rw [colourDiagonal]
    omega
  rw [weigh_opposite, hsum, sub_half_ediv]

end Mask

namespace Kernel

/-- what is added to a sum of sixteenths before it is divided -/
def bias (t : Tile) (x y : Nat) : Int := if t.colourAt x y = .green then 9 else 8

/-- **One rounding.** The kernel keeps the sample of a site in its own channel, and gives each other channel the weighted
sum of its mask, rounded once. -/
theorem colour_hqLinear (t : Tile) (x y : Nat) (s : Window Int) (c : Channel) :
    Kernel.hqLinear.colour t x y s c =
      if t.colourAt x y = c then s 0 0 else ((Mask.ofSite t x y c).weigh s + bias t x y) / 16 := by
  by_cases hown : t.colourAt x y = c
  · rw [if_pos hown, ← hown]
    exact colour_own rfl rfl t x y
  rw [if_neg hown]
  by_cases hsite : t.colourAt x y = .green
  · have hc : c ≠ .green := fun h => hown (hsite.trans h.symm)
    rw [colour_at_green hsite, Mask.ofSite, if_pos hsite, (Phase.colourAt_square_of_green hsite).1, bias, if_pos hsite]
    by_cases hr : (Phase.atRow t y).rowChannel = c
    · rw [if_pos hr, ← hr, Estimate.channel_rowChannel, ← Mask.alongRow_rounded]
      rfl
    · rw [if_neg hr, ← Phase.columnChannel_eq hc hr, Estimate.channel_columnChannel, ← Mask.alongColumn_rounded]
      rfl
  · have hr : (Phase.atRow t y).rowChannel ≠ c := (Phase.colourAt_square_of_ne hsite).1 ▸ hown
    rw [colour_at_other hsite, Mask.ofSite, if_neg hsite, bias, if_neg hsite]
    by_cases hc : c = .green
    · rw [if_pos hc, hc, Estimate.channel_green, ← Mask.green_rounded]
      rfl
    · rw [if_neg hc, ← Phase.columnChannel_eq hc hr, Estimate.channel_columnChannel, ← Mask.opposite_rounded]
      rfl

/-- what the bias and the division change is at most nine sixteenths -/
theorem bias_near (t : Tile) (x y : Nat) (sum : Int) : (16 * ((sum + bias t x y) / 16) - sum).natAbs ≤ 9 := by
  unfold bias
  split
  · omega
  · omega

end Kernel

/-- **The high-quality linear method by its masks.** Two pixels inside the image a site keeps its sample in its own
channel. Each other channel is the weighted sum of its mask in sixteenths, rounded once, which is within nine sixteenths
of the exact value, and then clamped. All other pixels are black; where no pixel is two pixels inside, all are. -/
theorem decode_masks {α : Type} (d : Depth α) (t : Tile) {w h : Nat} {src dst : Array α}
    (hfit : Fits .hqLinear w h src dst) :
    let out := d.decode t .hqLinear w h src dst
    let s := (d.mosaic w h src hfit.src_size).window
    out.result = .ok () ∧
      (∀ x y c, x < w → y < h → ∃ v, channelAt? w out.dst x y c = some v ∧
        if (Region.inside 2 w h).Contains x y then
          (t.colourAt x y = c → d.toNat v = clamp (s x y 0 0) d.ceiling) ∧
            (t.colourAt x y ≠ c →
              let sum := (Mask.ofSite t x y c).weigh (s x y)
              let estimate := (sum + if t.colourAt x y = .green then 9 else 8) / 16
              (16 * estimate - sum).natAbs ≤ 9 ∧ d.toNat v = clamp estimate d.ceiling)
        else d.toNat v = 0) ∧
      (w ≤ 4 ∨ h ≤ 4 → ∀ v ∈ out.dst, d.toNat v = 0) := by
  intro out s
  refine ⟨(d.result_eq_ok_iff t .hqLinear w h src dst).mpr hfit, ?_, ?_⟩
  · intro x y c hx hy
    obtain ⟨v, hv, hvalue⟩ := d.exists_channelAt?_decode (by decide) hfit t hx hy c
    refine ⟨v, hv, ?_⟩
    rw [hvalue, Method.interior, Method.kernel, Method.source, Kernel.colour_hqLinear]
    by_cases hin : (Region.inside 2 w h).Contains x y
    · rw [if_pos hin, if_pos hin]
      refine ⟨fun hown => ?_, fun hother => ?_⟩
      · rw [if_pos hown]
      · intro sum estimate
        rw [if_neg hother]
        exact ⟨Kernel.bias_near t x y sum, rfl⟩
    · rw [if_neg hin, if_neg hin]
  · intro hsmall
    have hborder (x y : Nat) : ¬(Region.inside 2 w h).Contains x y := by
      simp only [Region.Contains, Region.inside]
      omega
    simp only [out, d.decode_of_fits t hfit, Outcome.written]
    refine d.forall_mem_rebuild fun x y c => ?_
    have hblack : Method.hqLinear.pixel (d.mosaic w h src hfit.src_size) t d.ceiling x y c = 0 := if_neg (hborder x y)
    rw [hblack, d.toNat_ofNat (Nat.zero_le _)]

/-- a bright red sample in a flat field: it stays in its own channel and lifts green by half of its height, and two
columns on it lowers green by an eighth and blue by three sixteenths, both rounded; and a mosaic without an inside -/
theorem decode_masks_peak :
    (let image := (decode8 .rggb .hqLinear 8 8 ((Array.replicate 64 100).setIfInBounds 18 200) (.replicate 192 7)).dst;
      (∃ v, channelAt? 8 image 2 2 .red = some v ∧ v.toNat = 200) ∧
        (∃ v, channelAt? 8 image 2 2 .green = some v ∧ v.toNat = 150) ∧
        (∃ v, channelAt? 8 image 4 2 .green = some v ∧ v.toNat = 88) ∧
        (∃ v, channelAt? 8 image 4 2 .blue = some v ∧ v.toNat = 81) ∧
        ∃ v, channelAt? 8 image 1 2 .red = some v ∧ v.toNat = 0) ∧
      ∀ v ∈ (decode16 .gbrg .hqLinear 4 6 10 (.replicate 24 900) (.replicate 72 7)).dst, v.toNat = 0 := by
  refine ⟨?_, ?_⟩
  · obtain ⟨_, hpixels, _⟩ := decode_masks .byte .rggb
      (show Fits .hqLinear 8 8 ((Array.replicate 64 100).setIfInBounds 18 200) (.replicate 192 7) by decide +kernel)
    refine ⟨?_, ?_, ?_, ?_, ?_⟩
    · obtain ⟨v, hv, hvalue⟩ := hpixels 2 2 .red (by decide) (by decide)
      rw [if_pos (by decide)] at hvalue
      exact ⟨v, hv, (hvalue.1 rfl).trans (by decide +kernel)⟩
    · obtain ⟨v, hv, hvalue⟩ := hpixels 2 2 .green (by decide) (by decide)
      rw [if_pos (by decide)] at hvalue
      exact ⟨v, hv, (hvalue.2 (by decide)).2.trans (by decide +kernel)⟩
    · obtain ⟨v, hv, hvalue⟩ := hpixels 4 2 .green (by decide) (by decide)
      rw [if_pos (by decide)] at hvalue
      exact ⟨v, hv, (hvalue.2 (by decide)).2.trans (by decide +kernel)⟩
    · obtain ⟨v, hv, hvalue⟩ := hpixels 4 2 .blue (by decide) (by decide)
      rw [if_pos (by decide)] at hvalue
      exact ⟨v, hv, (hvalue.2 (by decide)).2.trans (by decide +kernel)⟩
    · obtain ⟨v, hv, hvalue⟩ := hpixels 1 2 .red (by decide) (by decide)
      rw [if_neg (by decide)] at hvalue
      exact ⟨v, hv, hvalue⟩
  · have hfit : Fits .hqLinear 4 6 (.replicate 24 900 : Array UInt16) (.replicate 72 7) := by decide +kernel
    exact (decode_masks (.word 10 (by decide)) .gbrg hfit).2.2 (.inl (by decide))

end Imaging
