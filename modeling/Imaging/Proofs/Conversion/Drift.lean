/-
How far colours drift that go into packed pairs and come back. A pair holds a luma for each of its pixels and one chroma
for both, so a row whose colours agree two by two loses nothing by sharing, and what is lost is lost in rounding. The
two tables of weights are each other's inverse but for less than a level, and each of their divisions rounds down. The
loss adds up to a few levels of a byte (`Rgb.Drifts`):
- `Rgb.drifts_weigh`: before anything is clamped;
- `Rgb.drifts_toRgb_toYuv`: for bytes; luma and chroma need no clamp at all, and the last clamp brings colours closer;
- `convert_drift`: for images, converted to packed pairs and back in either order.
-/
import Imaging.Proofs.Conversion.Lossless

namespace Imaging

/-! ## One colour -/

namespace Rgb

/-- how a colour may come back: red and blue lose some levels and gain none, green moves by less in both directions -/
structure Drifts (p q : Rgb Int) : Prop where
  red : p.r - 3 ≤ q.r ∧ q.r ≤ p.r
  green : p.g - 1 ≤ q.g ∧ q.g ≤ p.g + 2
  blue : p.b - 4 ≤ q.b ∧ q.b ≤ p.b

structure IsLevel (p : Rgb Int) : Prop where
  red : 0 ≤ p.r ∧ p.r ≤ 255
  green : 0 ≤ p.g ∧ p.g ≤ 255
  blue : 0 ≤ p.b ∧ p.b ≤ 255

theorem isLevel_widen (p : Rgb UInt8) : (p.map widen).IsLevel :=
  ⟨⟨widen_nonneg _, widen_le _⟩, ⟨widen_nonneg _, widen_le _⟩, ⟨widen_nonneg _, widen_le _⟩⟩

variable {p q : Rgb Int}

/-- five divisions, each of them rounded down, between a colour and the same colour -/
theorem drifts_weigh (h : p.IsLevel) : p.Drifts p.weigh.centre.weigh := by
  obtain ⟨hr, hg, hb⟩ := h
  refine ⟨?_, ?_, ?_⟩
  · simp only [weigh, Yuv.centre, Yuv.weigh]
    omega
  · simp only [weigh, Yuv.centre, Yuv.weigh]
    omega
  · simp only [weigh, Yuv.centre, Yuv.weigh]
    omega

/-- a colour of bytes has a luma and a chroma within a byte -/
theorem weigh_mem (h : p.IsLevel) :
    (0 ≤ p.weigh.y ∧ p.weigh.y ≤ 255) ∧ (0 ≤ p.weigh.u ∧ p.weigh.u ≤ 255) ∧ 0 ≤ p.weigh.v ∧ p.weigh.v ≤ 255 := by
  obtain ⟨hr, hg, hb⟩ := h
  simp only [weigh]
  omega

/-- a clamp moves no channel away from a level of a byte -/
theorem Drifts.clamped (h : p.Drifts q) (hp : p.IsLevel) : p.Drifts (q.map withinByte) := by
  obtain ⟨hr, hg, hb⟩ := h
  obtain ⟨hr', hg', hb'⟩ := hp
  refine ⟨?_, ?_, ?_⟩
  all_goals
    simp only [map, withinByte]
    omega

end Rgb

/-- luma and chroma of bytes are the weighted sums as they stand -/
theorem Rgb.widen_toYuv (p : Rgb UInt8) : p.toYuv.map widen = (p.map widen).weigh := by
  obtain ⟨⟨hy, hy'⟩, ⟨hu, hu'⟩, hv, hv'⟩ := weigh_mem (isLevel_widen p)
  have hclamp {v : Int} (h₀ : 0 ≤ v) (h : v ≤ 255) : withinByte v = v := by
    rw [withinByte, Int.min_eq_right h, Int.max_eq_right h₀]
  simp only [toYuv, Yuv.map, widen_clip8, hclamp hy hy', hclamp hu hu', hclamp hv hv']

theorem Yuv.widen_toRgb (p : Yuv UInt8) :
    p.toRgb.map widen = (p.map widen).centre.weigh.map withinByte := by
  simp only [toRgb, Rgb.map, widen_clip8]

/-- **One colour:** what becomes of it in luma and chroma. -/
theorem Rgb.drifts_toRgb_toYuv (p : Rgb UInt8) : (p.map widen).Drifts (p.toYuv.toRgb.map widen) := by
  have hlevel := isLevel_widen p
  rw [Yuv.widen_toRgb, widen_toYuv]
  exact (drifts_weigh hlevel).clamped hlevel

-- red loses all that it may lose, and green gains what neither of the others can
example : (⟨3, 0, 69⟩ : Rgb UInt8).toYuv.toRgb = ⟨0, 1, 66⟩ := by decide

/-! ## Images -/

namespace Pixel

/-- the two pixels of each pair are the same -/
def Paired (pixels : List Pixel) : Prop :=
  ∀ k p q, pixels[2 * k]? = some p → pixels[2 * k + 1]? = some q → p = q

theorem paired_ofRgb {bytes : List UInt8}
    (hbytes : ∀ k, 6 * k < bytes.length → ∀ j < 3, bytes[6 * k + j]? = bytes[6 * k + 3 + j]?) :
    Paired (ofRgb bytes) := by
  intro k p q hp hq
  obtain ⟨r, g, b, hr, hg, hb, rfl⟩ := getElem?_ofRgb hp
  obtain ⟨r', g', b', hr', hg', hb', rfl⟩ := getElem?_ofRgb hq
  have hfirst : 3 * (2 * k) = 6 * k := by omega
  have hsecond : 3 * (2 * k + 1) = 6 * k + 3 := by omega
  rw [hfirst] at hr hg hb
  rw [hsecond] at hr' hg' hb'
  have hsame := hbytes k (List.getElem?_eq_some_iff.mp hr).1
  have hred := hsame 0 (by decide)
  have hgreen := hsame 1 (by decide)
  have hblue := hsame 2 (by decide)
  rw [Nat.add_zero, Nat.add_zero, hr, hr'] at hred
  rw [hg, hg'] at hgreen
  rw [hb, hb'] at hblue
  rw [Option.some.inj hred, Option.some.inj hgreen, Option.some.inj hblue]

theorem Paired.shared_toYuv {pixels : List Pixel} (h : Paired pixels) (heven : pixels.length % 2 = 0) :
    shared (pixels.map toYuv) = pixels.map fun p => yuv p.toYuv := by
  refine shared_map_toYuv heven ?_
  intro k p q hp hq
  rw [h k p q hp hq]
  exact ⟨rfl, rfl⟩

end Pixel

namespace Request

variable {r : Request} {bytes : List UInt8} {n m k : Nat}

theorem check_next_rgb8 (htarget : r.target = .yuv422) (hcheck : r.check n m = .ok ()) (order : ByteOrder) (bits : Nat)
    (hlength : Coding.rgb8.bufferLength? r.paddedWidth r.height = some k) :
    (r.next .rgb8 order bits).check m k = .ok () := by
  have haccepts : Target.rgb8.Accepts r.target.coding := by
    rw [htarget]
    decide
  have hreads := Reads.next hcheck haccepts order bits
  obtain ⟨_, ⟨hw, hh, _⟩, _⟩ := check_eq_ok_iff.mp hcheck
  have hpadded : r.paddedWidth = evenWidth r.width := by rw [paddedWidth, htarget]
  have hsize : (r.next .rgb8 order bits).SizeFits := by
    simp only [SizeFits, next, htarget, hpadded, Target.coding]
    exact ⟨Nat.lt_of_lt_of_le hw (Nat.le_add_right ..), hh, (by rintro ⟨⟩), fun _ => evenWidth_even _,
      (by rintro ⟨⟩)⟩
  exact check_eq_ok_iff.mpr ⟨hreads.accepts, hsize, hreads.depth, hreads.length, hlength⟩

/-- pixels that agree two by two come back as their luma and chroma make them -/
theorem output_next_of_paired (htarget : r.target = .yuv422) (heven : r.width % 2 = 0)
    (hcheck : r.check bytes.length m = .ok ()) (hpaired : Pixel.Paired (Pixel.unpack r.source .uyvy r.bits bytes))
    (bits : Nat) :
    (r.next .rgb8 r.order bits).output (r.output bytes) =
      Pixel.packRgb8 ((Pixel.unpack r.source .uyvy r.bits bytes).map fun p => .yuv p.toYuv) := by
  have hpixels := length_pixels hcheck
  rw [sourceOrder, htarget] at hpixels
  have hlength : (Pixel.unpack r.source .uyvy r.bits bytes).length % 2 = 0 := by
    rw [hpixels]
    exact area_mod heven r.height
  rw [output_next_rgb8 htarget, paddedPixels, padRows_of_even heven hpixels, hpaired.shared_toYuv hlength]

end Request

theorem convert_next_of_paired {r : Request} {src mid : Array UInt8} (htarget : r.target = .yuv422)
    (heven : r.width % 2 = 0) (hcheck : r.check src.size mid.size = .ok ())
    (hpaired : Pixel.Paired (Pixel.unpack r.source .uyvy r.bits src.toList)) (bits : Nat)
    (dst : Array UInt8) (hdst : Coding.rgb8.bufferLength? r.paddedWidth r.height = some dst.size) :
    convert (r.next .rgb8 r.order bits) (convert r src mid).dst dst =
      .written (Pixel.packRgb8 ((Pixel.unpack r.source .uyvy r.bits src.toList).map fun p => .yuv p.toYuv)).toArray := by
  have hmid : (r.output src.toList).toArray.size = mid.size := Request.length_output hcheck
  have hnext : (r.next .rgb8 r.order bits).check (r.output src.toList).toArray.size dst.size = .ok () := by
    rw [hmid]
    exact Request.check_next_rgb8 htarget hcheck r.order bits hdst
  rw [Request.dst_convert hcheck, Request.convert_of_check hnext]
  exact congrArg (Outcome.written ·.toArray) (Request.output_next_of_paired htarget heven hcheck hpaired bits)

/-- colours that agree in the pairs of every row -/
theorem Pixel.paired_of_rows {w h : Nat} (heven : w % 2 = 0) {src : Array UInt8} (hsize : src.size = 3 * (w * h))
    (hpairs : ∀ y < h, ∀ k < w / 2, ∀ j < 3,
      let i := 3 * (y * w + 2 * k)
      src[i + j]? = src[i + 3 + j]?) : Paired (ofRgb src.toList) := by
  refine paired_ofRgb ?_
  intro k hk j hj
  rw [Array.length_toList] at hk
  have hpair := forall_pairs_of_rows (P := fun i => ∀ j < 3, src[3 * i + j]? = src[3 * i + 3 + j]?) heven hpairs k
    (by omega) j hj
  have hplace : 3 * (2 * k) = 6 * k := by omega
  rw [hplace] at hpair
  simpa only [Array.getElem?_toList] using hpair

/-- **Colours drift by a few levels** between an image whose colours agree two by two and the image that is read back
from its packed pairs, in either order and for every accepted size. -/
theorem convert_drift {w h : Nat} (hw : 0 < w) (heven : w % 2 = 0) (hh : 0 < h) (order : ByteOrder) (bits bits' : Nat)
    (src mid dst : Array UInt8) (hsrc : Coding.rgb8.bufferLength? w h = some src.size)
    (hmid : Coding.yuv422.bufferLength? w h = some mid.size) (hdst : dst.size = src.size)
    (hpairs : ∀ y < h, ∀ k < w / 2, ∀ j < 3,
      let i := 3 * (y * w + 2 * k)
      src[i + j]? = src[i + 3 + j]?) :
    let there : Request := { source := .rgb8, target := .yuv422, width := w, height := h, order := order, bits := bits }
    let back : Request := { source := .yuv422, target := .rgb8, width := w, height := h, order := order, bits := bits' }
    let packed := convert there src mid
    let image := convert back packed.dst dst
    packed.result = .ok () ∧ image.result = .ok () ∧ ∀ x y, x < w → y < h → ∃ p q : Rgb UInt8,
      let i := 3 * (y * w + x)
      (∀ j < 3, src[i + j]? = [p.r, p.g, p.b][j]?) ∧ (∀ j < 3, image.dst[i + j]? = [q.r, q.g, q.b][j]?) ∧
        (p.map widen).Drifts (q.map widen) := by
  intro there back packed image
  have hpadded : there.paddedWidth = w := evenWidth_of_even heven
  have hnext : there.next .rgb8 order bits' = back := by
    rw [Request.next, hpadded]
    rfl
  have haccepts : Target.yuv422.Accepts .rgb8 := by decide
  have hcheck : there.check src.size mid.size = .ok () := by
    have hsize : there.SizeFits := ⟨hw, hh, (by rintro ⟨⟩), (by rintro ⟨⟩), fun _ _ => heven⟩
    refine Request.check_eq_ok_iff.mpr ⟨haccepts, hsize, (by rintro ⟨⟩), hsrc, ?_⟩
    rw [hpadded]
    exact hmid
  have hsize : src.size = 3 * (w * h) := by
    have hbits := (Coding.bufferLength?_eq_some_iff.mp hsrc).2
    rw [Coding.bitsPerPixel] at hbits
    omega
  have himage : image = .written (Pixel.packRgb8 ((Pixel.ofRgb src.toList).map fun p => .yuv p.toYuv)).toArray := by
    have hwritten := convert_next_of_paired (r := there) rfl heven hcheck (Pixel.paired_of_rows heven hsize hpairs)
      bits' dst (by rw [hpadded, hdst]; exact hsrc)
    rwa [hnext] at hwritten
  have hbytes : Pixel.packRgb8 (Pixel.ofRgb src.toList) = src.toList := Pixel.packRgb8_ofRgb hsize
  refine ⟨Request.result_eq_ok_iff.mpr hcheck, by rw [himage]; rfl, ?_⟩
  intro x y hx hy
  obtain ⟨c, hpixel⟩ := Request.exists_pixel hcheck hx hy
  obtain ⟨r, g, b, _, _, _, rfl⟩ := Pixel.getElem?_ofRgb hpixel
  let p : Rgb UInt8 := ⟨r, g, b⟩
  refine ⟨p, p.toYuv.toRgb, ?_, ?_, p.drifts_toRgb_toYuv⟩
  · intro j hj
    rw [← Array.getElem?_toList, ← hbytes]
    exact Pixel.getElem?_packRgb8 hpixel hj
  · intro j hj
    have hback : ((Pixel.ofRgb src.toList).map fun p => Pixel.yuv p.toYuv)[y * w + x]? = some (.yuv p.toYuv) := by
      rw [List.getElem?_map, show (Pixel.ofRgb src.toList)[y * w + x]? = some (.rgb p) from hpixel]
      rfl
    rw [himage, Outcome.written, List.getElem?_toArray]
    exact Pixel.getElem?_packRgb8 hback hj

/-- saturated colours, in pairs that are written luma first -/
theorem convert_drift_patches :
    let src : Array UInt8 := #[255, 0, 0, 255, 0, 0, 0, 0, 255, 0, 0, 255]
    let there : Request :=
      { source := .rgb8, target := .yuv422, width := 2, height := 2, order := .yuyv, bits := 8 }
    let back : Request := { source := .yuv422, target := .rgb8, width := 2, height := 2, order := .yuyv, bits := 8 }
    let packed := convert there src (.replicate 8 7)
    let image := convert back packed.dst (.replicate 12 7)
    packed.result = .ok () ∧ image.result = .ok () ∧ ∀ x y, x < 2 → y < 2 → ∃ p q : Rgb UInt8,
      let i := 3 * (y * 2 + x)
      (∀ j < 3, src[i + j]? = [p.r, p.g, p.b][j]?) ∧ (∀ j < 3, image.dst[i + j]? = [q.r, q.g, q.b][j]?) ∧
        (p.map widen).Drifts (q.map widen) := by
  intro src there back packed image
  exact convert_drift (by decide) (by decide) (by decide) .yuyv 8 8 src (.replicate 8 7) (.replicate 12 7) (by decide)
    (by decide) (by decide) (by decide)

end Imaging
