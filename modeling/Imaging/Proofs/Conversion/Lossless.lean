/-
Images that packed pairs carry without loss. A pair has one chroma for two pixels, and a pixel in it has a luma and a
chroma; an image comes back from its packed pairs with the colours it had where both are enough for it (`Lossless`):
- of subsampled images, where neighbours share their chroma to begin with (`convert_subsampled`);
- of grey images, whose chroma is neutral everywhere (`convert_grey`), grey levels and grey colours alike; odd rows come
  back as the padding left them.

`convert_lossless` turns this into outcomes of requests: colours that were made through packed pairs are those of a
direct conversion.
-/
import Imaging.Proofs.Conversion.Stages

namespace Imaging

namespace Pixel

/-- neighbours of one chroma, and colours that a luma and a chroma can express -/
structure Lossless (pixels : List Pixel) : Prop where
  colour : ∀ p ∈ pixels, p.toYuv.toRgb = p.toRgb
  chroma : ∀ k p q, pixels[2 * k]? = some p → pixels[2 * k + 1]? = some q →
    p.toYuv.u = q.toYuv.u ∧ p.toYuv.v = q.toYuv.v

/-- pixels whose chroma agrees two by two keep their luma and chroma in packed pairs -/
theorem shared_map_toYuv {pixels : List Pixel} (heven : pixels.length % 2 = 0)
    (hchroma : ∀ k p q, pixels[2 * k]? = some p → pixels[2 * k + 1]? = some q →
      p.toYuv.u = q.toYuv.u ∧ p.toYuv.v = q.toYuv.v) :
    shared (pixels.map toYuv) = pixels.map fun p => yuv p.toYuv := by
  rw [shared_of_sameChroma (by rwa [List.length_map]), List.map_map]
  · rfl
  · intro k p q hp hq
    rw [List.getElem?_map, Option.map_eq_some_iff] at hp hq
    obtain ⟨p, hp, rfl⟩ := hp
    obtain ⟨q, hq, rfl⟩ := hq
    exact hchroma k p q hp hq

theorem Lossless.packRgb8_shared {pixels : List Pixel} (h : Lossless pixels) (heven : pixels.length % 2 = 0) :
    packRgb8 (shared (pixels.map toYuv)) = packRgb8 pixels := by
  rw [shared_map_toYuv heven h.chroma]
  refine packRgb8_congr ?_
  rw [List.map_map]
  exact List.map_congr_left h.colour

/-! ## Subsampled images -/

/-- four pixels in a row share their chroma -/
theorem lossless_ofYuv411 (bytes : List UInt8) : Lossless (ofYuv411 bytes) where
  colour p hp := by
    obtain ⟨i, hi⟩ := List.mem_iff_getElem?.mp hp
    obtain ⟨u, y, v, _, _, _, rfl⟩ := getElem?_ofYuv411 hi
    rfl
  chroma k p q hp hq := by
    have hgroup : (2 * k + 1) / 4 = 2 * k / 4 := by omega
    obtain ⟨u, y, v, hu, _, hv, rfl⟩ := getElem?_ofYuv411 hp
    obtain ⟨u', y', v', hu', _, hv', rfl⟩ := getElem?_ofYuv411 hq
    rw [hgroup] at hu' hv'
    exact ⟨Option.some.inj (hu.symm.trans hu'), Option.some.inj (hv.symm.trans hv')⟩

/-- groups U Y V whose chroma bytes agree two by two -/
theorem lossless_ofYuv444 {bytes : List UInt8}
    (hbytes : ∀ k, 6 * k < bytes.length → bytes[6 * k]? = bytes[6 * k + 3]? ∧ bytes[6 * k + 2]? = bytes[6 * k + 5]?) :
    Lossless (ofYuv444 bytes) where
  colour p hp := by
    obtain ⟨i, hi⟩ := List.mem_iff_getElem?.mp hp
    obtain ⟨u, y, v, _, _, _, rfl⟩ := getElem?_ofYuv444 hi
    rfl
  chroma k p q hp hq := by
    obtain ⟨u, y, v, hu, _, hv, rfl⟩ := getElem?_ofYuv444 hp
    obtain ⟨u', y', v', hu', _, hv', rfl⟩ := getElem?_ofYuv444 hq
    have hfirst : 3 * (2 * k) = 6 * k := by omega
    have hsecond : 3 * (2 * k + 1) = 6 * k + 3 := by omega
    rw [hfirst] at hu hv
    rw [hsecond] at hu' hv'
    obtain ⟨hu₂, hv₂⟩ := hbytes k (List.getElem?_eq_some_iff.mp hu).1
    rw [hu, hu'] at hu₂
    rw [hv, hv'] at hv₂
    exact ⟨Option.some.inj hu₂, Option.some.inj hv₂⟩

/-! ## Grey images -/

/-- a pixel is grey in both of its readings -/
def IsGrey (p : Pixel) : Prop := ∃ y, p.toYuv = Yuv.grey y ∧ p.toRgb = Rgb.grey y

theorem isGrey_luma (y : UInt8) : (luma y).IsGrey := ⟨y, rfl, rfl⟩

theorem isGrey_rgb (y : UInt8) : (rgb (Rgb.grey y)).IsGrey := ⟨y, toYuv_grey y, rfl⟩

theorem lossless_of_isGrey {pixels : List Pixel} (h : ∀ p ∈ pixels, p.IsGrey) : Lossless pixels where
  colour p hp := by
    obtain ⟨y, hyuv, hrgb⟩ := h p hp
    rw [hyuv, hrgb, toRgb_grey]
  chroma k p q hp hq := by
    obtain ⟨y, hyuv, _⟩ := h p (List.mem_of_getElem? hp)
    obtain ⟨y', hyuv', _⟩ := h q (List.mem_of_getElem? hq)
    rw [hyuv, hyuv']
    exact ⟨rfl, rfl⟩

theorem isGrey_of_mem_ofLuma {bytes : List UInt8} {p : Pixel} (hp : p ∈ ofLuma bytes) : p.IsGrey := by
  obtain ⟨y, _, rfl⟩ := List.mem_map.mp hp
  exact isGrey_luma y

theorem isGrey_of_mem_ofRgb {bytes : List UInt8}
    (hbytes : ∀ i, 3 * i < bytes.length → bytes[3 * i]? = bytes[3 * i + 1]? ∧ bytes[3 * i + 1]? = bytes[3 * i + 2]?)
    {p : Pixel} (hp : p ∈ ofRgb bytes) : p.IsGrey := by
  obtain ⟨i, hi⟩ := List.mem_iff_getElem?.mp hp
  obtain ⟨r, g, b, hr, hg, hb, rfl⟩ := getElem?_ofRgb hi
  obtain ⟨hrg, hgb⟩ := hbytes i (List.getElem?_eq_some_iff.mp hr).1
  rw [hr, hg] at hrg
  rw [hg, hb] at hgb
  obtain rfl : r = g := Option.some.inj hrg
  obtain rfl : r = b := Option.some.inj hgb
  exact isGrey_rgb r

theorem map_toYuv_ofRgb_packRgb8 {pixels : List Pixel} (h : ∀ p ∈ pixels, p.IsGrey) :
    (ofRgb (packRgb8 pixels)).map toYuv = pixels.map toYuv := by
  rw [ofRgb_packRgb8, List.map_map]
  refine List.map_congr_left ?_
  intro p hp
  obtain ⟨y, hyuv, hrgb⟩ := h p hp
  rw [Function.comp_apply, hyuv, hrgb]
  exact toYuv_grey y

end Pixel

/-! ## Requests through packed pairs -/

/-- **Colours made through packed pairs** of a lossless image are those of a direct conversion of its padded rows. -/
theorem convert_lossless {first : Request} (direct : Request) {src mid src' dst : Array UInt8}
    (hpairs : first.target = .yuv422) (hfirst : (convert first src mid).result = .ok ())
    (hcolours : direct.target = .rgb8) (hdirect : direct.Reads src'.size) (hsize : direct.SizeFits)
    (hwidth : evenWidth first.width = direct.width) (hheight : first.height = direct.height)
    (hpixels : padRows first.width first.height (Pixel.unpack first.source .uyvy first.bits src.toList) =
      Pixel.unpack direct.source direct.order direct.bits src'.toList)
    (hlossless : Pixel.Lossless (Pixel.unpack direct.source direct.order direct.bits src'.toList)) (bits : Nat) :
    convert (first.next .rgb8 first.order bits) (convert first src mid).dst dst = convert direct src' dst := by
  have hcheck := Request.result_eq_ok_iff.mp hfirst
  have hpadded : first.paddedWidth = direct.width := by rw [Request.paddedWidth, hpairs, hwidth]
  have haccepts : direct.target.Accepts first.target.coding := by
    rw [hcolours, hpairs]
    decide
  have hnext : (first.next direct.target first.order bits).SizeFits := by
    obtain ⟨hw, hh, _⟩ := hsize
    simp only [Request.SizeFits, Request.next, hpairs, hcolours, hpadded, hheight, Target.coding]
    exact ⟨hw, hh, by simp, fun _ => hwidth ▸ evenWidth_even _, by simp⟩
  have hpadding : first.paddedPixels src.toList =
      (Pixel.unpack direct.source direct.order direct.bits src'.toList).map Pixel.toYuv := by
    rw [Request.paddedPixels, hpixels]
  -- no two pixels of different rows share their chroma, since padded rows hold whole pairs
  have heven : (Pixel.unpack direct.source direct.order direct.bits src'.toList).length % 2 = 0 := by
    rw [← List.length_map Pixel.toYuv, ← hpadding, Request.length_paddedPixels hpairs hcheck]
    exact area_mod (evenWidth_even _) _
  rw [← hcolours]
  refine convert_next direct hfirst haccepts hdirect hpadded hheight (iff_of_true hnext hsize) ?_
  calc (first.next direct.target first.order bits).output (first.output src.toList)
      = Pixel.packRgb8 (Pixel.shared (first.paddedPixels src.toList)) := by
        rw [hcolours]
        exact Request.output_next_rgb8 hpairs bits src.toList
    _ = Pixel.packRgb8 (Pixel.unpack direct.source direct.order direct.bits src'.toList) := by
        rw [hpadding, hlossless.packRgb8_shared heven]
    _ = direct.output src'.toList := by rw [Request.output, Request.sourceOrder, hcolours]

/-- what holds of the pairs of every row holds of the pairs of the image -/
theorem forall_pairs_of_rows {P : Nat → Prop} {w h : Nat} (hw : w % 2 = 0)
    (hrows : ∀ y < h, ∀ k < w / 2, P (y * w + 2 * k)) (j : Nat) (hj : 2 * j < w * h) : P (2 * j) := by
  obtain ⟨n, rfl⟩ : ∃ n, w = 2 * n := ⟨w / 2, by omega⟩
  have hj : j < n * h := by
    rw [Nat.mul_assoc] at hj
    omega
  have hn : 0 < n := Nat.pos_of_mul_pos_right (Nat.zero_lt_of_lt hj)
  -- even rows hold whole pairs: pair j of the image is pair j % n of row j / n
  have hplace : j / n * (2 * n) + 2 * (j % n) = 2 * j := by
    calc j / n * (2 * n) + 2 * (j % n)
        = 2 * (n * (j / n)) + 2 * (j % n) := by rw [Nat.mul_left_comm, Nat.mul_comm (j / n)]
      _ = 2 * j := by rw [← Nat.mul_add, Nat.div_add_mod]
  have hcolumn : j % n < 2 * n / 2 := by
    rw [Nat.mul_div_cancel_left n (by decide)]
    exact Nat.mod_lt j hn
  rw [← hplace]
  exact hrows (j / n) (Nat.div_lt_of_lt_mul hj) (j % n) hcolumn

namespace Request

variable {r : Request} (hsource : r.source = .yuv411 ∨ r.source = .yuv444) {src : Array UInt8}

include hsource

/-- groups of one layout, whatever the order asked for -/
theorem unpack_of_subsampled (order order' : ByteOrder) (bytes : List UInt8) :
    Pixel.unpack r.source order r.bits bytes = Pixel.unpack r.source order' r.bits bytes := by
  rcases hsource with h | h <;> rw [h] <;> rfl

/-- an image of chroma for every four pixels, or for every pixel and the same for each pair in a row -/
theorem lossless_of_subsampled (heven : r.width % 2 = 0)
    (hlength : r.source.bufferLength? r.width r.height = some src.size)
    (hchroma : r.source = .yuv444 → ∀ y < r.height, ∀ k < r.width / 2,
      let i := 3 * (y * r.width + 2 * k)
      src[i]? = src[i + 3]? ∧ src[i + 2]? = src[i + 5]?) (order : ByteOrder) :
    Pixel.Lossless (Pixel.unpack r.source order r.bits src.toList) := by
  rcases hsource with h | h
  · rw [h]
    exact Pixel.lossless_ofYuv411 src.toList
  · have hbits := (Coding.bufferLength?_eq_some_iff.mp hlength).2
    rw [h, Coding.bitsPerPixel] at hbits
    rw [h]
    refine Pixel.lossless_ofYuv444 ?_
    intro k hk
    rw [Array.length_toList] at hk
    have hpair := forall_pairs_of_rows
      (P := fun i => src[3 * i]? = src[3 * i + 3]? ∧ src[3 * i + 2]? = src[3 * i + 5]?) heven (hchroma h) k (by omega)
    have hplace : 3 * (2 * k) = 6 * k := by omega
    simp only [hplace] at hpair
    simpa only [Array.getElem?_toList] using hpair

end Request

/-- **Subsampled images** give the colours of a direct conversion through packed pairs, in either order: always where
four pixels share their chroma, and where every pixel has its own if those of each pair in a row agree. -/
theorem convert_subsampled (first : Request) (hsource : first.source = .yuv411 ∨ first.source = .yuv444)
    (hpairs : first.target = .yuv422) (src mid dst : Array UInt8)
    (hchroma : first.source = .yuv444 → ∀ y < first.height, ∀ k < first.width / 2,
      let i := 3 * (y * first.width + 2 * k)
      src[i]? = src[i + 3]? ∧ src[i + 2]? = src[i + 5]?)
    (hfirst : (convert first src mid).result = .ok ()) (order : ByteOrder) (bits : Nat) :
    convert (first.next .rgb8 first.order bits) (convert first src mid).dst dst =
      convert { first with target := .rgb8, order := order } src dst := by
  have hcheck := Request.result_eq_ok_iff.mp hfirst
  have hreads := Request.reads_of_check hcheck
  obtain ⟨_, ⟨hw, hh, hgroups, hnative, heven⟩, _, _, _⟩ := Request.check_eq_ok_iff.mp hcheck
  have heven : first.width % 2 = 0 := heven hpairs (by rcases hsource with h | h <;> rw [h] <;> rfl)
  have hcolours : Target.rgb8.Accepts first.source := by rcases hsource with h | h <;> rw [h] <;> decide
  have hpixels := Request.length_pixels hcheck
  rw [Request.sourceOrder, hpairs] at hpixels
  have hrows : padRows first.width first.height (Pixel.unpack first.source .uyvy first.bits src.toList) =
      Pixel.unpack first.source order first.bits src.toList := by
    rw [padRows_of_even heven hpixels, Request.unpack_of_subsampled hsource .uyvy order]
  exact convert_lossless { first with target := .rgb8, order := order } hpairs hfirst rfl
    ⟨hcolours, hreads.depth, hreads.length⟩ ⟨hw, hh, hgroups, hnative, by simp⟩ (evenWidth_of_even heven) rfl hrows
    (Request.lossless_of_subsampled hsource heven hreads.length hchroma order) bits

/-- a group of four pixels, and pairs of neighbours of one chroma -/
theorem convert_subsampled_pairs :
    (let first : Request := { source := .yuv411, target := .yuv422, width := 4, height := 1, order := .yuyv, bits := 8 }
      let direct : Request := { first with target := .rgb8, order := .uyvy }
      let src : Array UInt8 := #[30, 1, 2, 200, 3, 4]
      convert (first.next .rgb8 .yuyv 8) (convert first src (.replicate 8 7)).dst (.replicate 12 7) =
        convert direct src (.replicate 12 7)) ∧
      (let first : Request :=
          { source := .yuv444, target := .yuv422, width := 2, height := 2, order := .uyvy, bits := 8 }
        let direct : Request := { first with target := .rgb8, order := .uyvy }
        let src : Array UInt8 := #[30, 1, 200, 30, 2, 200, 90, 3, 17, 90, 4, 17]
        convert (first.next .rgb8 .uyvy 8) (convert first src (.replicate 8 7)).dst (.replicate 12 7) =
          convert direct src (.replicate 12 7)) := by
  refine ⟨?_, ?_⟩
  · intro first direct src
    exact convert_subsampled first (.inl rfl) rfl src (.replicate 8 7) (.replicate 12 7) (by rintro ⟨⟩)
      (Request.accepted_iff.mpr (by decide)) .uyvy 8
  · intro first direct src
    exact convert_subsampled first (.inr rfl) rfl src (.replicate 8 7) (.replicate 12 7) (fun _ => by decide)
      (Request.accepted_iff.mpr (by decide)) .uyvy 8

/-! ## Requests for grey images -/

namespace Request

variable {r : Request} (hsource : r.source = .mono8 ∨ r.source = .raw8)

include hsource

theorem unpack_of_bytes (order : ByteOrder) (bytes : List UInt8) :
    Pixel.unpack r.source order r.bits bytes = Pixel.ofLuma bytes := by
  rcases hsource with h | h <;> rw [h] <;> rfl

theorem reads_of_bytes_iff {n : Nat} : r.Reads n ↔ r.width * r.height * 8 < sizeLimit ∧ n = r.width * r.height := by
  have haccepts : r.target.Accepts r.source := by
    rcases hsource with h | h <;> rw [h] <;> cases r.target <;> decide
  have hdepth : r.source.sampleBits ≠ 16 := by
    rcases hsource with h | h <;> rw [h] <;> decide
  have hlength : r.source.bufferLength? r.width r.height = some n ↔
      r.width * r.height * 8 < sizeLimit ∧ n = r.width * r.height := by
    have hbits : r.source.bitsPerPixel = 8 := by
      rcases hsource with h | h <;> rw [h] <;> rfl
    rw [Coding.bufferLength?_eq_some_iff, hbits]
    omega
  exact ⟨fun h => hlength.mp h.length, fun h => ⟨haccepts, fun hwide => absurd hwide hdepth, hlength.mpr h⟩⟩

theorem sizeFits_of_bytes_iff : r.SizeFits ↔ 0 < r.width ∧ 0 < r.height := by
  rcases hsource with h | h <;> simp [SizeFits, h, Coding.isColour]

end Request

theorem Request.check_copy {r : Request} (hsource : r.source = .rgb8) (htarget : r.target = .rgb8) {n : Nat}
    (hw : 0 < r.width) (hh : 0 < r.height) (hlength : r.source.bufferLength? r.width r.height = some n) :
    r.check n n = .ok () := by
  have haccepts : r.target.Accepts r.source := by
    rw [htarget, hsource]
    decide
  have hsize : r.SizeFits := ⟨hw, hh, by simp [hsource], by simp [hsource], by simp [htarget]⟩
  have hdepth : r.source.sampleBits = 16 → ValidDepth r.bits := by simp [hsource, Coding.sampleBits]
  have hpadded : r.paddedWidth = r.width := by rw [paddedWidth, htarget]
  have hcoding : r.target.coding = r.source := by rw [htarget, hsource, Target.coding]
  refine check_eq_ok_iff.mpr ⟨haccepts, hsize, hdepth, hlength, ?_⟩
  rw [hpadded, hcoding, hlength]

theorem convert_copy {r : Request} (hsource : r.source = .rgb8) (htarget : r.target = .rgb8) {src dst : Array UInt8}
    (hcheck : r.check src.size dst.size = .ok ()) : convert r src dst = .written src := by
  obtain ⟨_, _, _, hlength, _⟩ := Request.check_eq_ok_iff.mp hcheck
  have hbits := (Coding.bufferLength?_eq_some_iff.mp hlength).2
  rw [hsource, Coding.bitsPerPixel] at hbits
  have hbytes : src.toList.length = 3 * (r.width * r.height) := by
    rw [Array.length_toList]
    omega
  have houtput : r.output src.toList = src.toList := by
    rw [Request.output, htarget, hsource]
    exact Pixel.packRgb8_ofRgb hbytes
  rw [Request.convert_of_check hcheck, houtput, Array.toArray_toList]

section Grey

variable (colours pairs : Request) {src mid dst : Array UInt8}

/-- packed pairs of the colours of grey levels in even rows -/
theorem convert_next_of_colours (hcolours : colours.target = .rgb8) (hpairs : pairs.target = .yuv422)
    (hsource : colours.source = .mono8 ∨ colours.source = .raw8) (hsame : pairs.source = colours.source)
    (hwidth : colours.width = pairs.width) (hheight : colours.height = pairs.height) (heven : pairs.width % 2 = 0)
    (hok : (convert colours src mid).result = .ok ()) (bits : Nat) :
    convert (colours.next .yuv422 pairs.order bits) (convert colours src mid).dst dst = convert pairs src dst := by
  have hcheck := Request.result_eq_ok_iff.mp hok
  have hsource' : pairs.source = .mono8 ∨ pairs.source = .raw8 := by rwa [hsame]
  obtain ⟨_, ⟨hw, hh, _⟩, _, _, _⟩ := Request.check_eq_ok_iff.mp hcheck
  have hreads := (Request.reads_of_bytes_iff hsource).mp (Request.reads_of_check hcheck)
  rw [hwidth, hheight] at hreads
  have hpadded : colours.paddedWidth = pairs.width := by rw [Request.paddedWidth, hcolours, hwidth]
  have haccepts : pairs.target.Accepts colours.target.coding := by
    rw [hpairs, hcolours]
    decide
  have hnext : (colours.next pairs.target pairs.order bits).SizeFits := by
    simp only [Request.SizeFits, Request.next, hcolours, hpadded, Target.coding]
    exact ⟨hwidth ▸ hw, hh, by simp, by simp, fun _ _ => heven⟩
  have hsize : pairs.SizeFits := (Request.sizeFits_of_bytes_iff hsource').mpr ⟨hwidth ▸ hw, hheight ▸ hh⟩
  have houtput : colours.output src.toList = Pixel.packRgb8 (Pixel.ofLuma src.toList) := by
    rw [Request.output, hcolours, Request.unpack_of_bytes hsource]
  have hpixels : (colours.next pairs.target pairs.order bits).paddedPixels (colours.output src.toList) =
      pairs.paddedPixels src.toList := by
    calc (colours.next pairs.target pairs.order bits).paddedPixels (colours.output src.toList)
        = padRows pairs.width pairs.height
            ((Pixel.ofRgb (Pixel.packRgb8 (Pixel.ofLuma src.toList))).map Pixel.toYuv) := by
          rw [houtput, Request.paddedPixels, map_padRows, Request.next, hpadded, hheight, hcolours]
          rfl
      _ = pairs.paddedPixels src.toList := by
          rw [Pixel.map_toYuv_ofRgb_packRgb8 fun p hp => Pixel.isGrey_of_mem_ofLuma hp, Request.paddedPixels,
            map_padRows, Request.unpack_of_bytes hsource']
  rw [← hpairs]
  refine convert_next pairs hok haccepts ((Request.reads_of_bytes_iff hsource').mpr hreads) hpadded hheight
    (iff_of_true hnext hsize) ?_
  rw [Request.output_yuv422 hpairs, Request.output_yuv422 (r := colours.next _ _ _) hpairs, hpixels]
  rfl

theorem convert_next_of_levels (hcolours : colours.target = .rgb8) (hpairs : pairs.target = .yuv422)
    (hsource : pairs.source = .mono8 ∨ pairs.source = .raw8) (hsame : colours.source = pairs.source)
    (hwidth : evenWidth pairs.width = colours.width) (hheight : pairs.height = colours.height)
    (hok : (convert pairs src mid).result = .ok ()) (bits : Nat) :
    convert (pairs.next .rgb8 pairs.order bits) (convert pairs src mid).dst dst =
      convert colours (padRows pairs.width pairs.height src.toList).toArray dst := by
  have hcheck := Request.result_eq_ok_iff.mp hok
  have hsource' : colours.source = .mono8 ∨ colours.source = .raw8 := by rwa [hsame]
  obtain ⟨_, ⟨hw, hh, _⟩, _, _, hdst⟩ := Request.check_eq_ok_iff.mp hcheck
  have hreads := (Request.reads_of_bytes_iff hsource).mp (Request.reads_of_check hcheck)
  have hsrc : src.toList.length = pairs.width * pairs.height := hreads.2
  -- the pairs of a padded image take twice its bytes, so their size bounds that of the padded levels
  have hlimit : colours.width * colours.height * 8 < sizeLimit := by
    have hpadded : pairs.paddedWidth = colours.width := by rw [Request.paddedWidth, hpairs, hwidth]
    have hlimit := (Coding.bufferLength?_eq_some_iff.mp hdst).1
    rw [hpadded, hheight, hpairs, Target.coding, Coding.bitsPerPixel] at hlimit
    omega
  have hlength : (padRows pairs.width pairs.height src.toList).toArray.size = colours.width * colours.height := by
    rw [List.size_toArray, length_padRows hsrc, hwidth, hheight]
  have hsize : colours.SizeFits := by
    refine (Request.sizeFits_of_bytes_iff hsource').mpr ⟨?_, hheight ▸ hh⟩
    rw [← hwidth, evenWidth]
    omega
  have hpixels : Pixel.unpack colours.source colours.order colours.bits
      (padRows pairs.width pairs.height src.toList).toArray.toList =
        Pixel.ofLuma (padRows pairs.width pairs.height src.toList) := Request.unpack_of_bytes hsource' _ _
  refine convert_lossless colours hpairs hok hcolours ((Request.reads_of_bytes_iff hsource').mpr ⟨hlimit, hlength⟩)
    hsize hwidth hheight ?_ ?_ bits
  · rw [hpixels, Request.unpack_of_bytes hsource, Pixel.ofLuma, Pixel.ofLuma, map_padRows]
  · rw [hpixels]
    exact Pixel.lossless_of_isGrey fun p hp => Pixel.isGrey_of_mem_ofLuma hp

theorem convert_next_of_greyColours (hcolours : colours.target = .rgb8) (hpairs : pairs.target = .yuv422)
    (hsource : pairs.source = .rgb8) (hsame : colours.source = .rgb8) (hwidth : pairs.width = colours.width)
    (hheight : pairs.height = colours.height)
    (hgrey : ∀ i < pairs.width * pairs.height, src[3 * i]? = src[3 * i + 1]? ∧ src[3 * i + 1]? = src[3 * i + 2]?)
    (hok : (convert pairs src mid).result = .ok ()) (bits : Nat) :
    convert (pairs.next .rgb8 pairs.order bits) (convert pairs src mid).dst dst = convert colours src dst := by
  have hcheck := Request.result_eq_ok_iff.mp hok
  have hpixels := Request.length_pixels hcheck
  obtain ⟨_, ⟨hw, hh, _, _, heven⟩, _, hsrc, _⟩ := Request.check_eq_ok_iff.mp hcheck
  have heven : pairs.width % 2 = 0 := heven hpairs (by rw [hsource]; rfl)
  rw [Request.sourceOrder, hpairs, hsource] at hpixels
  rw [hsource] at hsrc
  have hcopy : colours.check src.size src.size = .ok () := by
    refine Request.check_copy hsame hcolours (hwidth ▸ hw) (hheight ▸ hh) ?_
    rw [hsame, ← hwidth, ← hheight, hsrc]
  have hsize : colours.SizeFits := (Request.check_eq_ok_iff.mp hcopy).2.1
  have hread : Pixel.unpack colours.source colours.order colours.bits src.toList = Pixel.ofRgb src.toList := by
    rw [hsame]
    rfl
  refine convert_lossless colours hpairs hok hcolours (Request.reads_of_check hcopy) hsize
    ((evenWidth_of_even heven).trans hwidth) hheight ?_ ?_ bits
  · rw [hread, hsource]
    exact padRows_of_even heven hpixels
  · have hbits := (Coding.bufferLength?_eq_some_iff.mp hsrc).2
    rw [Coding.bitsPerPixel] at hbits
    rw [hread]
    refine Pixel.lossless_of_isGrey fun p hp => Pixel.isGrey_of_mem_ofRgb ?_ hp
    intro i hi
    rw [Array.length_toList] at hi
    simpa only [Array.getElem?_toList] using hgrey i (by omega)

end Grey

/-- **Grey images.** The colours and the packed pairs of an image of grey levels are also made of each other: its packed
pairs from its colours, where rows are even, and its colours from its packed pairs, where those of odd rows are the
colours of the rows with their last level repeated. Colours of equal channels come back from their packed pairs. -/
theorem convert_grey (c : Coding) (hc : c = .mono8 ∨ c = .raw8) (w h : Nat) (order order' : ByteOrder)
    (bits bits' : Nat) (src mid dst : Array UInt8) :
    let colours : Request := { source := c, target := .rgb8, width := w, height := h, order := order', bits := bits' }
    let pairs : Request := { source := c, target := .yuv422, width := w, height := h, order := order, bits := bits }
    let rgbPairs : Request := { pairs with source := .rgb8 }
    (w % 2 = 0 → (convert colours src mid).result = .ok () →
      convert (colours.next .yuv422 order bits) (convert colours src mid).dst dst = convert pairs src dst) ∧
    (w % 2 = 0 → (convert pairs src mid).result = .ok () →
      convert (pairs.next .rgb8 order bits') (convert pairs src mid).dst dst = convert colours src dst) ∧
    (w % 2 = 1 → (convert pairs src mid).result = .ok () →
      let padded := (rows w h src.toList).flatMap fun row => row ++ row.getLast?.toList
      convert (pairs.next .rgb8 order bits') (convert pairs src mid).dst dst =
        convert { colours with width := w + 1 } padded.toArray dst) ∧
    ((∀ i < w * h, src[3 * i]? = src[3 * i + 1]? ∧ src[3 * i + 1]? = src[3 * i + 2]?) →
      (convert rgbPairs src mid).result = .ok () → dst.size = src.size →
      convert (rgbPairs.next .rgb8 order bits') (convert rgbPairs src mid).dst dst = .written src) := by
  intro colours pairs rgbPairs
  have hsrc (hok : (convert pairs src mid).result = .ok ()) : src.toList.length = w * h :=
    ((Request.reads_of_bytes_iff hc).mp (Request.reads_of_check (Request.result_eq_ok_iff.mp hok))).2
  refine ⟨?_, ?_, ?_, ?_⟩
  · intro heven hok
    exact convert_next_of_colours colours pairs rfl rfl hc rfl rfl rfl heven hok bits
  · intro heven hok
    have hnext : convert (pairs.next .rgb8 order bits') (convert pairs src mid).dst dst =
        convert colours (padRows w h src.toList).toArray dst :=
      convert_next_of_levels colours pairs rfl rfl hc rfl (evenWidth_of_even heven) rfl hok bits'
    rwa [padRows_of_even heven (hsrc hok), Array.toArray_toList] at hnext
  · intro hodd hok padded
    have hwidth : evenWidth w = w + 1 := by rw [evenWidth, hodd]
    have hpadded : padRows w h src.toList = padded := padRows_of_odd hodd (hsrc hok)
    rw [← hpadded]
    exact convert_next_of_levels { colours with width := w + 1 } pairs rfl rfl hc rfl hwidth rfl hok bits'
  · intro hgrey hok hdst
    obtain ⟨_, ⟨hw, hh, _⟩, _, hlength, _⟩ := Request.accepted_iff.mp hok
    have hcheck : { colours with source := .rgb8 }.check src.size dst.size = .ok () := by
      rw [hdst]
      exact Request.check_copy rfl rfl hw hh hlength
    calc convert (rgbPairs.next .rgb8 order bits') (convert rgbPairs src mid).dst dst
        = convert { colours with source := .rgb8 } src dst :=
          convert_next_of_greyColours { colours with source := .rgb8 } rgbPairs rfl rfl rfl rfl rfl rfl hgrey hok bits'
      _ = .written src := convert_copy rfl rfl hcheck

/-- even and odd rows, and colours of equal channels, all of them written luma first -/
theorem convert_grey_levels :
    (let colours : Request := { source := .mono8, target := .rgb8, width := 2, height := 2, order := .uyvy, bits := 8 }
      let pairs : Request := { colours with target := .yuv422, order := .yuyv }
      let src : Array UInt8 := #[0, 100, 200, 255]
      convert (colours.next .yuv422 .yuyv 8) (convert colours src (.replicate 12 7)).dst (.replicate 8 7) =
          convert pairs src (.replicate 8 7) ∧
        convert (pairs.next .rgb8 .yuyv 8) (convert pairs src (.replicate 8 7)).dst (.replicate 12 7) =
          convert colours src (.replicate 12 7)) ∧
      (let pairs : Request := { source := .raw8, target := .yuv422, width := 3, height := 1, order := .yuyv, bits := 8 }
        let colours : Request := { source := .raw8, target := .rgb8, width := 4, height := 1, order := .uyvy, bits := 8 }
        convert (pairs.next .rgb8 .yuyv 8) (convert pairs #[10, 20, 30] (.replicate 8 7)).dst (.replicate 12 7) =
          convert colours #[10, 20, 30, 30] (.replicate 12 7)) ∧
      (let pairs : Request := { source := .rgb8, target := .yuv422, width := 2, height := 1, order := .yuyv, bits := 8 }
        let src : Array UInt8 := #[9, 9, 9, 77, 77, 77]
        convert (pairs.next .rgb8 .yuyv 8) (convert pairs src (.replicate 4 7)).dst (.replicate 6 7) =
          .written src) := by
  refine ⟨?_, ?_, ?_⟩
  · intro colours pairs src
    obtain ⟨hpairs, _⟩ :=
      convert_grey .mono8 (.inl rfl) 2 2 .yuyv .uyvy 8 8 src (.replicate 12 7) (.replicate 8 7)
    obtain ⟨_, hcolours, _⟩ :=
      convert_grey .mono8 (.inl rfl) 2 2 .yuyv .uyvy 8 8 src (.replicate 8 7) (.replicate 12 7)
    exact ⟨hpairs rfl (Request.accepted_iff.mpr (by decide)),
      hcolours rfl (Request.accepted_iff.mpr (by decide))⟩
  · intro pairs colours
    obtain ⟨_, _, hodd, _⟩ :=
      convert_grey .raw8 (.inr rfl) 3 1 .yuyv .uyvy 8 8 #[10, 20, 30] (.replicate 8 7) (.replicate 12 7)
    exact hodd rfl (Request.accepted_iff.mpr (by decide))
  · intro pairs src
    obtain ⟨_, _, _, hgrey⟩ :=
      convert_grey .mono8 (.inl rfl) 2 1 .yuyv .uyvy 8 8 src (.replicate 4 7) (.replicate 6 7)
    exact hgrey (by decide) (Request.accepted_iff.mpr (by decide)) rfl

end Imaging
