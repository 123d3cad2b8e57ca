/-
Demosaicing before or after a reduction to bytes. Both clamp and divide, in opposite orders around the estimate, and the
two operations commute: the ceiling of a depth becomes the ceiling of a byte (`clamp_ceiling_ediv`). So the two orders
differ in no more than the rounding of means:
- `pixel_reduced_of_copies`: not at all where a channel is one sample, whatever the samples;
- `pixel_reduced_near`: by one at most where it is a mean of samples of the depth;
- `pixel_reduced_eight`: not at all at 8 significant bits.
-/
import Imaging.Proofs.Demosaic.Depth
import Imaging.Proofs.Demosaic.Means

namespace Imaging

/-! ## Clamping and dividing -/

/-- how many samples of a depth are reduced to one byte -/
def quantum (bits : Nat) : Int := 2 ^ (bits - 8)

theorem quantum_pos (bits : Nat) : 0 < quantum bits := Int.pow_pos (by decide)

theorem shiftRight_eq_ediv (v bits : Nat) : ((v >>> (bits - 8) : Nat) : Int) = v / quantum bits := by
  rw [Nat.shiftRight_eq_div_pow, Int.natCast_ediv, quantum, Int.natCast_pow]
  rfl

theorem ceiling_eq {bits : Nat} (hdepth : ValidDepth bits) : (ceiling bits : Int) = quantum bits * 256 - 1 := by
  have hpow := hdepth.two_pow_eq
  have hpos : 0 < 2 ^ bits := Nat.pow_pos (by decide)
  have hquantum : quantum bits = (2 ^ (bits - 8) : Nat) := by rw [quantum, Int.natCast_pow]; rfl
  rw [ceiling_eq_pow, hquantum]
  omega

/-- **Clamping and dividing commute.** -/
theorem clamp_ceiling_ediv {bits : Nat} (hdepth : ValidDepth bits) (v : Int) :
    (clamp v (ceiling bits) : Int) / quantum bits = clamp (v / quantum bits) 255 := by
  have hN := quantum_pos bits
  have hceiling := ceiling_eq hdepth
  have htop : (quantum bits * 256 - 1) / quantum bits = 255 := by
    rw [show quantum bits * 256 - 1 = quantum bits - 1 + quantum bits * 255 by omega,
      Int.add_mul_ediv_left _ _ (Int.ne_of_gt hN), Int.ediv_eq_zero_of_lt (by omega) (by omega)]
    rfl
  by_cases hneg : v < 0
  · have hquotient : v / quantum bits < 0 := Int.ediv_neg_of_neg_of_pos hneg hN
    have hzero : clamp v (ceiling bits) = 0 := by unfold clamp; omega
    rw [hzero, Int.natCast_zero, Int.zero_ediv, clamp]
    omega
  · by_cases hlarge : v ≤ ceiling bits
    · have hquotient : v / quantum bits ≤ 255 := htop ▸ Int.ediv_le_ediv hN (hceiling ▸ hlarge)
      have hquotient₀ : 0 ≤ v / quantum bits := Int.ediv_nonneg (by omega) (by omega)
      rw [clamp_of_mem (by omega) hlarge, clamp_of_mem hquotient₀ hquotient]
    · have hquotient : 255 ≤ v / quantum bits := htop ▸ Int.ediv_le_ediv hN (by omega)
      have htopped : (clamp v (ceiling bits) : Int) = ceiling bits := by unfold clamp; omega
      rw [htopped, hceiling, htop, clamp]
      omega

theorem clamp_near {v w : Int} (h : (v - w).natAbs ≤ 1) (ceiling : Nat) :
    ((clamp v ceiling : Int) - clamp w ceiling).natAbs ≤ 1 := by
  unfold clamp
  omega

/-! ## Reduced mosaics -/

namespace Mosaic

/-- the mosaic with every sample reduced to a byte -/
def reduced (m : Mosaic) (bits : Nat) : Mosaic where
  width := m.width
  height := m.height
  samples := m.samples.map fun v => min (v >>> (bits - 8)) 255
  size_eq := by rw [Array.size_map, m.size_eq]

theorem get_reduced (m : Mosaic) (bits x y : Nat) :
    (m.reduced bits).get x y = min (m.get x y >>> (bits - 8)) 255 :=
  get_of_map (l := m.reduced bits) (m := m) (f := fun v => min (v >>> (bits - 8)) 255) rfl rfl rfl (by simp) x y

theorem window_reduced (m : Mosaic) (bits x y : Nat) (dx dy : Int) :
    (m.reduced bits).window x y dx dy = clamp (m.window x y dx dy / quantum bits) 255 := by
  rw [window, window, sample, sample]
  split
  · rw [get_reduced, ← shiftRight_eq_ediv, clamp_natCast]
  · rw [Int.zero_ediv, clamp_zero]
    rfl

theorem window_le {m : Mosaic} {ceiling : Nat} (h : ∀ v ∈ m.samples, v ≤ ceiling) (x y : Nat) (dx dy : Int) :
    m.window x y dx dy ≤ ceiling := by
  rw [← limit_of_le h]
  exact EdgeSense.window_limit_le m ceiling x y dx dy

end Mosaic

/-! ## Pixels -/

namespace Method

variable {k : Method} {m : Mosaic} {bits : Nat}

theorem ne_edgeSense_of_blends {means : Estimate Blend × Estimate Blend} (h : k.blends? = some means) :
    k ≠ edgeSense := by
  rintro rfl
  cases h

/-- a channel that is reduced after demosaicing -/
def reducedPixel (k : Method) (m : Mosaic) (t : Tile) (bits x y : Nat) (c : Channel) : Nat :=
  min (k.pixel m t (ceiling bits) x y c >>> (bits - 8)) 255

theorem reducedPixel_le (k : Method) (m : Mosaic) (t : Tile) (bits x y : Nat) (c : Channel) :
    k.reducedPixel m t bits x y c ≤ 255 := Nat.min_le_right _ 255

/-- inside the interior it is the quotient of the estimate -/
theorem reducedPixel_eq (hdepth : ValidDepth bits) (k : Method) (m : Mosaic) (t : Tile) (x y : Nat) (c : Channel) :
    k.reducedPixel m t bits x y c =
      if (k.interior m.width m.height).Contains x y then
        clamp (k.estimate m t (ceiling bits) x y c / quantum bits) 255
      else 0 := by
  rw [reducedPixel, pixel]
  split
  · have hquotient := clamp_ceiling_ediv hdepth (k.estimate m t (ceiling bits) x y c)
    have hle := clamp_le (k.estimate m t (ceiling bits) x y c / quantum bits) 255
    rw [← shiftRight_eq_ediv] at hquotient
    omega
  · rw [Nat.zero_shiftRight, Nat.zero_min]

/-- **Copied channels.** Where a channel is one sample, reducing before or after is the same, whatever the samples. -/
theorem pixel_reduced_of_copies (hdepth : ValidDepth bits) (hk : k ≠ edgeSense) {t : Tile} {x y : Nat} {c : Channel}
    (h : k.Copies t x y c) : k.pixel (m.reduced bits) t 255 x y c = k.reducedPixel m t bits x y c := by
  obtain ⟨dx, dy, hcopies⟩ := h
  have hidem (v : Int) : clamp (clamp v 255) 255 = clamp v 255 := by
    rw [clamp_natCast, Nat.min_eq_left (clamp_le v 255)]
  rw [reducedPixel_eq hdepth, pixel, estimate, estimate, source_of_ne hk, source_of_ne hk, hcopies, hcopies,
    Mosaic.window_reduced, hidem]
  rfl

/-- **Means.** Reducing before or after demosaicing differs by one at most, for samples of the depth. -/
theorem pixel_reduced_near (hdepth : ValidDepth bits) {green colour : Estimate Blend}
    (h : k.blends? = some (green, colour)) (hle : ∀ v ∈ m.samples, v ≤ ceiling bits) (t : Tile) (x y : Nat)
    (c : Channel) : ((k.reducedPixel m t bits x y c : Int) - k.pixel (m.reduced bits) t 255 x y c).natAbs ≤ 1 := by
  have hk := ne_edgeSense_of_blends h
  -- within its depth no sample saturates
  have hwindow : (m.reduced bits).window (k.stride * x) (k.stride * y) =
      fun dx dy => m.window (k.stride * x) (k.stride * y) dx dy / quantum bits := by
    funext dx dy
    have h₀ := EdgeSense.window_nonneg m (k.stride * x) (k.stride * y) dx dy
    have hquotient := clamp_ceiling_ediv hdepth (m.window (k.stride * x) (k.stride * y) dx dy)
    rw [clamp_of_mem h₀ (Mosaic.window_le hle _ _ dx dy)] at hquotient
    rw [Mosaic.window_reduced, ← hquotient]
  rw [reducedPixel_eq hdepth, pixel, estimate, estimate, source_of_ne hk, source_of_ne hk, hwindow,
    (averages_kernel h).colour_eq, (averages_kernel h).colour_eq]
  have hshape : k.interior (m.reduced bits).width (m.reduced bits).height = k.interior m.width m.height := rfl
  rw [hshape]
  by_cases hin : (k.interior m.width m.height).Contains x y
  · rw [if_pos hin, if_pos hin]
    exact clamp_near (Blend.value_ediv_near _ (quantum_pos bits) _) 255
  · rw [if_neg hin, if_neg hin]
    decide

/-- **Bytes in 16 bits.** At 8 significant bits there is nothing to reduce. -/
theorem pixel_reduced_eight (k : Method) (hle : ∀ v ∈ m.samples, v ≤ ceiling 8) (t : Tile) (x y : Nat) (c : Channel) :
    k.pixel (m.reduced 8) t 255 x y c = k.reducedPixel m t 8 x y c := by
  have hreduced : m.reduced 8 = m.limit (ceiling 8) := rfl
  rw [hreduced, Mosaic.limit_of_le hle]
  exact (Nat.min_eq_left (k.pixel_le m t 255 x y c)).symm

end Method

/-! ## Images -/

namespace Depth

variable {w h bits : Nat} {src : Array UInt16}

theorem mosaic_reduce (hdepth : ValidDepth bits) (hsrc : src.size = w * h)
    (hbytes : (src.map (reduce bits)).size = w * h) :
    byte.mosaic w h (src.map (reduce bits)) hbytes = ((word bits hdepth).mosaic w h src hsrc).reduced bits := by
  simp only [mosaic, Mosaic.reduced, Mosaic.mk.injEq, true_and, Array.map_map]
  refine Array.map_congr_left fun v _ => ?_
  exact reduce_eq bits v

theorem reduce_ofNat_pixel (hdepth : ValidDepth bits) (k : Method) (m : Mosaic) (t : Tile) (x y : Nat) (c : Channel) :
    reduce bits ((word bits hdepth).ofNat (k.pixel m t (Imaging.ceiling bits) x y c)) =
      UInt8.ofNat (k.reducedPixel m t bits x y c) := by
  have hvalue : ((word bits hdepth).ofNat (k.pixel m t (Imaging.ceiling bits) x y c)).toNat = k.pixel m t _ x y c :=
    (word bits hdepth).toNat_ofNat (k.pixel_le m t _ x y c)
  apply UInt8.toNat_inj.mp
  rw [reduce_eq, hvalue]
  exact (byte.toNat_ofNat (k.reducedPixel_le m t bits x y c)).symm

/-- every channel of the image that is rebuilt first and then reduced -/
theorem channelAt?_reduce (hdepth : ValidDepth bits) (k : Method) (t : Tile) (m : Mosaic) {x y : Nat}
    (hx : x < (k.outputSize m.width m.height).1) (hy : y < (k.outputSize m.width m.height).2) (c : Channel) :
    channelAt? (k.outputSize m.width m.height).1 (((word bits hdepth).rebuild k t m).map (reduce bits)) x y c =
      some (UInt8.ofNat (k.reducedPixel m t bits x y c)) := by
  have hchannel := (word bits hdepth).channelAt?_rebuild k t m hx hy c
  rw [channelAt?] at hchannel ⊢
  rw [Array.getElem?_map, hchannel, Option.map_some]
  exact congrArg some (reduce_ofNat_pixel hdepth k m t x y c)

/-- **Images of copied samples** are the same, reduced before or after. -/
theorem rebuild_reduced_of_copies (hdepth : ValidDepth bits) {k : Method} (hk : k ≠ .edgeSense) {t : Tile}
    (h : ∀ x y c, k.Copies t x y c) (m : Mosaic) :
    byte.rebuild k t (m.reduced bits) = ((word bits hdepth).rebuild k t m).map (reduce bits) := by
  obtain ⟨r, ⟨hw, hh⟩, hdata, hget⟩ := byte.exists_raster k t (m.reduced bits)
  obtain ⟨s, ⟨hw', hh'⟩, hdata', hget'⟩ := (word bits hdepth).exists_raster k t m
  rw [hdata, hdata', Array.map_map]
  refine Raster.map_data_eq (hw.trans hw'.symm) (hh.trans hh'.symm) fun x y c => ?_
  have hpixel := Method.pixel_reduced_of_copies (m := m) hdepth hk (h x y c)
  rw [hget, hget', Function.comp_apply]
  exact (congrArg UInt8.ofNat hpixel).trans (reduce_ofNat_pixel hdepth k m t x y c).symm

end Depth

end Imaging
