/-
Demosaicing a part of a mosaic. A rectangle of a mosaic is a mosaic behind a filter whose origin has moved, and no
estimate looks beyond its method's reach. So inside the part, less the method's margin, the image of the part is a part
of the image:
- `Method.pixel_part`: pixel by pixel, for every method and any shift;
- `decode_crop`: for the requests, at every depth.
-/
import Imaging.Proofs.Demosaic.Depth
import Imaging.Proofs.Demosaic.Reach

namespace Imaging

/-- one mosaic is the part of another that starts at column `i` and row `j` -/
structure Mosaic.IsPart (part m : Mosaic) (i j : Nat) : Prop where
  right : i + part.width ≤ m.width
  bottom : j + part.height ≤ m.height
  get : ∀ x y, x < part.width → y < part.height → part.get x y = m.get (i + x) (j + y)

namespace Mosaic.IsPart

variable {part m : Mosaic} {i j : Nat}

theorem limit (h : part.IsPart m i j) (ceiling : Nat) : (part.limit ceiling).IsPart (m.limit ceiling) i j := by
  refine ⟨h.right, h.bottom, ?_⟩
  intro x y hx hy
  rw [get_limit, get_limit, h.get x y hx hy]

theorem source (h : part.IsPart m i j) (k : Method) (ceiling : Nat) :
    (k.source part ceiling).IsPart (k.source m ceiling) i j := by
  cases k with
  | edgeSense => exact h.limit ceiling
  | nearest | simple | bilinear | hqLinear | downsample => exact h

theorem window_eq (h : part.IsPart m i j) {x y a b : Nat} {dx dy : Int} (ha : (a : Int) = x + dx) (ha' : a < part.width)
    (hb : (b : Int) = y + dy) (hb' : b < part.height) :
    part.window x y dx dy = m.window (i + x) (j + y) dx dy := by
  have hai : ((i + a : Nat) : Int) = (i + x : Nat) + dx := by omega
  have hbj : ((j + b : Nat) : Int) = (j + y : Nat) + dy := by omega
  rw [part.window_eq_get ha hb, m.window_eq_get hai hbj, h.get a b ha' hb']

end Mosaic.IsPart

namespace Method

variable {part m : Mosaic} {i j : Nat}

/-- the interior of a part lies in the interior of the whole -/
theorem contains_of_part {k : Method} {w h w' h' x y x' y' : Nat} (hright : i + w' ≤ w) (hbottom : j + h' ≤ h)
    (hx : k.stride * x' = i + k.stride * x) (hy : k.stride * y' = j + k.stride * y)
    (hin : (k.interior w' h').Contains x y) : (k.interior w h).Contains x' y' := by
  cases k <;>
    simp only [stride, interior, Region.Contains, Region.corners, Region.inside, Region.whole] at hx hy hin ⊢ <;>
    omega

/-- **Pixels of a part.** Where pixel `(x, y)` of the part and pixel `(x', y')` of the whole stand for one site, the
part's interior pixel is the whole's. -/
theorem pixel_part (k : Method) (hpart : part.IsPart m i j) {x y x' y' : Nat} (hx : k.stride * x' = i + k.stride * x)
    (hy : k.stride * y' = j + k.stride * y) (hin : (k.interior part.width part.height).Contains x y) (t : Tile)
    (ceiling : Nat) (c : Channel) :
    k.pixel part (t.shift i j) ceiling x y c = k.pixel m t ceiling x' y' c := by
  have hin' := contains_of_part hpart.right hpart.bottom hx hy hin
  have hestimate : k.estimate part (t.shift i j) ceiling x y c = k.estimate m t ceiling x' y' c := by
    rw [estimate, estimate, Kernel.colour_shift, hx, hy]
    refine k.colour_congr ?_ t _ _ c
    intro dx dy hreach
    obtain ⟨a, b, ⟨ha, ha'⟩, hb, hb'⟩ := exists_of_reaches hin hreach
    rw [← k.width_source part ceiling] at ha'
    rw [← k.height_source part ceiling] at hb'
    exact (hpart.source k ceiling).window_eq ha ha' hb hb'
  calc
    k.pixel part (t.shift i j) ceiling x y c = clamp (k.estimate part (t.shift i j) ceiling x y c) ceiling := if_pos hin
    _ = clamp (k.estimate m t ceiling x' y' c) ceiling := by rw [hestimate]
    _ = k.pixel m t ceiling x' y' c := (if_pos hin').symm

end Method

/-! ## Buffers -/

section Buffers

variable {α : Type} [Inhabited α]

/-- the rectangle of `w'` by `h'` samples at column `i` and row `j` of a mosaic `w` sites wide -/
def crop (w i j w' h' : Nat) (src : Array α) : Array α :=
  tabulate w' h' fun x y => src[(j + y) * w + (i + x)]!

variable {w h i j w' h' : Nat} {src : Array α}

theorem size_crop : (crop w i j w' h' src).size = w' * h' := size_tabulate

theorem getElem?_crop (hsrc : src.size = w * h) (hright : i + w' ≤ w) (hbottom : j + h' ≤ h) {x y : Nat} (hx : x < w')
    (hy : y < h') : (crop w i j w' h' src)[y * w' + x]? = src[(j + y) * w + (i + x)]? := by
  have hsite : (j + y) * w + (i + x) < src.size := by
    rw [hsrc]
    exact Raster.place_lt (by omega) (by omega)
  rw [crop, getElem?_tabulate hx hy, getElem!_pos src ((j + y) * w + (i + x)) hsite, Array.getElem?_eq_getElem hsite]

theorem Depth.isPart_crop (d : Depth α) (hsrc : src.size = w * h) (hright : i + w' ≤ w) (hbottom : j + h' ≤ h) :
    (d.mosaic w' h' (crop w i j w' h' src) size_crop).IsPart (d.mosaic w h src hsrc) i j := by
  refine ⟨hright, hbottom, ?_⟩
  intro x y (hx : x < w') (hy : y < h')
  rw [d.get_mosaic size_crop hx hy, d.get_mosaic hsrc (x := i + x) (y := j + y) (by omega) (by omega),
    getElem?_crop hsrc hright hbottom hx hy]

theorem Fits.crop {k : Method} {dst dst' : Array α} (hfit : Fits k w h src dst) (htiles : WholeTiles w' h')
    (hright : i + w' ≤ w) (hbottom : j + h' ≤ h)
    (hdst' : dst'.size = 3 * ((k.outputSize w' h').1 * (k.outputSize w' h').2)) :
    Fits k w' h' (crop w i j w' h' src) dst' := by
  have hw : w' ≤ w := by omega
  have hh : h' ≤ h := by omega
  have hsrc : w' * h' ≤ src.size := hfit.src_size ▸ Nat.mul_le_mul hw hh
  have hdst : dst'.size ≤ dst.size := by
    rw [hdst', hfit.dst_size]
    refine Nat.mul_le_mul_left 3 (Nat.mul_le_mul ?_ ?_)
    · cases k <;> simp only [Method.outputSize] <;> omega
    · cases k <;> simp only [Method.outputSize] <;> omega
  refine ⟨htiles, size_crop, hdst', ?_, Nat.lt_of_le_of_lt hdst hfit.dst_lt⟩
  rw [size_crop]
  exact Nat.lt_of_le_of_lt hsrc hfit.src_lt

/-- the image of a rectangle and the image of the mosaic, at pixels that stand for one site -/
theorem Depth.channelAt?_crop (d : Depth α) (t : Tile) {k : Method} {dst dst' : Array α} (hfit : Fits k w h src dst)
    (hfit' : Fits k w' h' (crop w i j w' h' src) dst') (hright : i + w' ≤ w) (hbottom : j + h' ≤ h) {x y x' y' : Nat}
    (hx : k.stride * x' = i + k.stride * x) (hy : k.stride * y' = j + k.stride * y)
    (hin : (k.interior w' h').Contains x y) (c : Channel) :
    ∃ v, channelAt? (k.outputSize w' h').1 (d.decode (t.shift i j) k w' h' (crop w i j w' h' src) dst').dst x y c =
        some v ∧
      channelAt? (k.outputSize w h).1 (d.decode t k w h src dst).dst x' y' c = some v := by
  have hpart := d.isPart_crop hfit.src_size hright hbottom
  have hpixel := k.pixel_part hpart hx hy hin t d.ceiling c
  have hin' := Method.contains_of_part hright hbottom hx hy hin
  have hlt := Method.lt_outputSize hin
  have hlt' := Method.lt_outputSize hin'
  have hcrop := d.channelAt?_decode hfit' (t.shift i j) hlt.1 hlt.2 c
  have hwhole := d.channelAt?_decode hfit t hlt'.1 hlt'.2 c
  rw [hpixel] at hcrop
  exact ⟨_, hcrop, hwhole⟩

/-- **Demosaicing commutes with cropping.** The image of a rectangle, seen through the filter with its origin moved, is
the rectangle of the image inside the method's margin. Where tiles become pixels and the rectangle is made of whole
tiles, there is no margin and the filter is the same. -/
theorem decode_crop (d : Depth α) (t : Tile) (k : Method) (w h i j w' h' : Nat) (src dst dst' : Array α)
    (hfit : Fits k w h src dst) (htiles : WholeTiles w' h') (hright : i + w' ≤ w) (hbottom : j + h' ≤ h)
    (hdst' : dst'.size = 3 * ((k.outputSize w' h').1 * (k.outputSize w' h').2)) :
    (d.decode t k w h src dst).result = .ok () ∧
      (d.decode (t.shift i j) k w' h' (crop w i j w' h' src) dst').result = .ok () ∧
      (k ≠ .downsample → ∀ x y c, (k.interior w' h').Contains x y → ∃ v,
        channelAt? w' (d.decode (t.shift i j) k w' h' (crop w i j w' h' src) dst').dst x y c = some v ∧
          channelAt? w (d.decode t k w h src dst).dst (i + x) (j + y) c = some v) ∧
      (k = .downsample → i % 2 = 0 → j % 2 = 0 → ∀ x y c, x < w' / 2 → y < h' / 2 → ∃ v,
        channelAt? (w' / 2) (d.decode t k w' h' (crop w i j w' h' src) dst').dst x y c = some v ∧
          channelAt? (w / 2) (d.decode t k w h src dst).dst (i / 2 + x) (j / 2 + y) c = some v) := by
  have hfit' := hfit.crop htiles hright hbottom hdst'
  refine ⟨(d.result_eq_ok_iff t k w h src dst).mpr hfit, (d.result_eq_ok_iff _ k w' h' _ dst').mpr hfit', ?_, ?_⟩
  · intro hk x y c hin
    have hcolumn : k.stride * (i + x) = i + k.stride * x := by rw [k.stride_of_ne hk, Nat.one_mul, Nat.one_mul]
    have hrow : k.stride * (j + y) = j + k.stride * y := by rw [k.stride_of_ne hk, Nat.one_mul, Nat.one_mul]
    have hpixels := d.channelAt?_crop t hfit hfit' hright hbottom hcolumn hrow hin c
    rwa [k.outputSize_of_ne hk, k.outputSize_of_ne hk] at hpixels
  · intro hk hi hj x y c hx hy
    subst hk
    have hin : (Method.interior .downsample w' h').Contains x y := ⟨⟨Nat.zero_le x, hx⟩, Nat.zero_le y, hy⟩
    have hcolumn : Method.stride .downsample * (i / 2 + x) = i + Method.stride .downsample * x := by
      simp only [Method.stride]
      omega
    have hrow : Method.stride .downsample * (j / 2 + y) = j + Method.stride .downsample * y := by
      simp only [Method.stride]
      omega
    have hpixels := d.channelAt?_crop t hfit hfit' hright hbottom hcolumn hrow hin c
    rwa [t.shift_of_even hi hj] at hpixels

/-- a ramp of bytes cut one column and three rows in, and a ramp of 12-bit samples cut at a tile -/
theorem decode_crop_ramp :
    (let ramp : Array UInt8 := .ofFn fun n : Fin 120 => .ofNat (2 * n)
      ∀ x y c, (Method.interior .edgeSense 8 8).Contains x y → ∃ v,
        channelAt? 8 (decode8 (Tile.shift .grbg 1 3) .edgeSense 8 8 (crop 10 1 3 8 8 ramp) (.replicate 192 7)).dst x y c =
            some v ∧
          channelAt? 10 (decode8 .grbg .edgeSense 10 12 ramp (.replicate 360 9)).dst (1 + x) (3 + y) c = some v) ∧
      (let ramp : Array UInt16 := .ofFn fun n : Fin 24 => .ofNat (100 * n)
        ∀ x y c, x < 1 → y < 1 → ∃ v,
          channelAt? 1 (decode16 .bggr .downsample 2 2 12 (crop 6 4 2 2 2 ramp) (.replicate 3 7)).dst x y c = some v ∧
            channelAt? 3 (decode16 .bggr .downsample 6 4 12 ramp (.replicate 18 9)).dst (2 + x) (1 + y) c = some v) := by
  refine ⟨?_, ?_⟩
  · intro ramp
    exact (decode_crop .byte .grbg .edgeSense 10 12 1 3 8 8 ramp (.replicate 360 9) (.replicate 192 7)
      (by decide +kernel) (by decide) (by decide) (by decide) (by decide +kernel)).2.2.1 (by decide)
  · intro ramp
    exact (decode_crop (.word 12 (by decide)) .bggr .downsample 6 4 4 2 2 2 ramp (.replicate 18 9) (.replicate 3 7)
      (by decide +kernel) (by decide) (by decide) (by decide) (by decide +kernel)).2.2.2 rfl rfl rfl

end Buffers

end Imaging
