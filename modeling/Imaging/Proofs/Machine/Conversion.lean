/-
Pixel conversion in machine words is pixel conversion. `Pairs` has the loops that write YUV 4:2:2; here are the loops
that write grey and colours, and the requests. What lengths the loops are handed comes from the checks that a request
has passed, and so do the bounds of the strides: an accepted source has fewer than `2 ^ 64` bits, so its rows can be
measured and padded (`pack_eq`). Stereo splitting is a loop of the same kind.
-/
import Imaging.Proofs.Conversion.Validation
import Imaging.Proofs.Machine.Pairs

namespace Imaging.Machine

/-! ## Grey -/

variable {src dst : List UInt8} {q : Nat}

theorem reduceEach_eq {c : Coding} (hc : c.sampleBits = 16) {bits : Nat} (hbits : ValidDepth bits)
    (hsrc : src.length = 2 * q) (hdst : dst.length = q) : reduceEach bits src dst = .ok (narrow c bits src) := by
  have hsamples := samples_word hc hbits
  rw [reduceEach, chunksExact_eq (by decide) hsrc, ok_bind, ← hsamples.chunkwise.flatMap_rows (Nat.le_of_eq hsrc)]
  exact fill_eq (by rw [length_rows, hdst]) fun s hs => hsamples.read s (length_of_mem_rows hsrc hs)

/-! ## Colours -/

theorem putRgb_eq (p : Rgb UInt8) {d : List UInt8} (hd : d.length = 3) : putRgb p d = .ok [p.r, p.g, p.b] := copy_eq hd

theorem putYuv_eq (p : Yuv UInt8) : putYuv p = putRgb p.toRgb := by
  funext d
  rw [putYuv, toRgb_eq, ok_bind]

theorem coloursFromYuv444_eq (hsrc : src.length = 3 * q) (hdst : dst.length = 3 * q) :
    coloursFromYuv444 src dst = .ok (Pixel.packRgb8 (Pixel.ofYuv444 src)) := by
  refine eachChunk_eq (by decide) (by decide) hsrc hdst (Pixel.chunkwise_packRgb8 Pixel.chunkwise_ofYuv444) fun s d hs hd => ?_
  match s, hs with
  | [u, y, v], _ => exact (congrFun (putYuv_eq ⟨y, u, v⟩) d).trans (putRgb_eq _ hd)

theorem coloursFromYuv422_eq (order : ByteOrder) (hsrc : src.length = 4 * q) (hdst : dst.length = 6 * q) :
    coloursFromYuv422 order src dst = .ok (Pixel.packRgb8 (Pixel.ofYuv422 order src)) := by
  have hvalue := Pixel.chunkwise_packRgb8 (Pixel.chunkwise_ofYuv422 order)
  refine eachChunk_eq (by decide) (by decide) hsrc hdst hvalue fun s d hs hd => ?_
  match s, d, hs, hd with
  | [a, b, c, e], [_, _, _, _, _, _], _, _ =>
    have hpair : fetchPair order [a, b, c, e] = .ok (order.pair a b c e) := by
      cases order <;> rfl
    rw [hpair, ok_bind, putYuv_eq, putYuv_eq]
    rfl

theorem coloursFromYuv411_eq (hsrc : src.length = 6 * q) (hdst : dst.length = 12 * q) :
    coloursFromYuv411 src dst = .ok (Pixel.packRgb8 (Pixel.ofYuv411 src)) := by
  have hvalue := Pixel.chunkwise_packRgb8 Pixel.chunkwise_ofYuv411
  refine eachChunk_eq (by decide) (by decide) hsrc hdst hvalue fun s d hs hd => ?_
  match s, d, hs, hd with
  | [u, y0, y1, v, y2, y3], [_, _, _, _, _, _, _, _, _, _, _, _], _, _ =>
    simp only [fetch, List.getElem?_cons_zero, List.getElem?_cons_succ, ok_bind, putYuv_eq]
    rfl

theorem coloursFromBytes_eq (hsrc : src.length = q) (hdst : dst.length = 3 * q) :
    coloursFromBytes src dst = .ok (Pixel.packRgb8 (Pixel.ofLuma src)) := by
  rw [Pixel.packRgb8, Pixel.ofLuma, List.flatMap_map]
  exact fillChunks_eq (by decide) (by rw [hsrc, hdst]) fun y _ d hd => putRgb_eq (.grey y) hd

theorem coloursFromWords_eq {c : Coding} (hc : c.sampleBits = 16) {bits : Nat} (hbits : ValidDepth bits)
    (hsrc : src.length = 2 * q) (hdst : dst.length = 3 * q) :
    coloursFromWords bits src dst = .ok (Pixel.packRgb8 (Pixel.ofLuma (narrow c bits src))) := by
  have hsamples := samples_word hc hbits
  have hvalue := Pixel.chunkwise_packRgb8 (hsamples.chunkwise.map Pixel.luma)
  refine eachChunk_eq (by decide) (by decide) hsrc hdst hvalue fun s d hs hd => ?_
  obtain ⟨y, hread, hy⟩ := hsamples.read s hs
  rw [hread, ok_bind, putRgb_eq (.grey y) hd, hy]
  rfl

/-! ## Requests -/

variable {r : Request}

/-- colours in even rows, which are written as one long row -/
theorem pack422_of_colour (hsigned : r.source.isSigned = false) (hcolour : r.source.isColour = true)
    (hdepth : r.source.sampleBits = 16 → ValidDepth r.bits) (hquads : r.source = .yuv411 → r.width % 4 = 0)
    (heven : r.width % 2 = 0) (hsrc : 8 * src.length = r.width * r.height * r.source.bitsPerPixel)
    (hdst : dst.length = 2 * (r.width * r.height)) :
    pack422 r src dst = .ok (pairs r.order (Pixel.unpack r.source .uyvy r.bits src)) := by
  have harea := area_mod heven r.height
  cases hc : r.source with
  | yuv422 =>
    rw [hc, Coding.bitsPerPixel] at hsrc
    simp only [pack422, hc]
    exact pairsFromYuv422_eq (q := r.width * r.height / 2) (by omega) (by omega)
  | yuv411 =>
    have hgroups := area_mod (hquads hc) r.height
    rw [hc, Coding.bitsPerPixel] at hsrc
    simp only [pack422, hc]
    exact pairsFromYuv411_eq (q := r.width * r.height / 4) (by omega) (by omega)
  | yuv444 =>
    rw [hc, Coding.bitsPerPixel] at hsrc
    simp only [pack422, hc]
    exact pairsFromYuv444_eq (q := r.width * r.height / 2) (by omega) (by omega)
  | rgb8 =>
    rw [hc, Coding.bitsPerPixel] at hsrc
    simp only [pack422, hc]
    exact pairsFromRgb_eq (samples_byte (c := .rgb8) (by decide) r.bits) (by decide) (by decide)
      (q := r.width * r.height / 2) (by omega) (by omega)
  | rgb16 =>
    rw [hc, Coding.bitsPerPixel] at hsrc
    simp only [pack422, hc]
    exact pairsFromRgb_eq (samples_word (c := .rgb16) rfl (hdepth (by rw [hc]; rfl))) (by decide) (by decide)
      (q := r.width * r.height / 2) (by omega) (by omega)
  | mono8 | raw8 | mono16 | raw16 | mono16s =>
    rw [hc] at hcolour
    cases hcolour
  | rgb16s =>
    rw [hc] at hsigned
    cases hsigned

/-- grey, in rows that are padded where they are odd -/
theorem pack422_of_grey (hsigned : r.source.isSigned = false) (hgrey : r.source.isColour = false)
    (hdepth : r.source.sampleBits = 16 → ValidDepth r.bits) (hw : 0 < r.width) (hlimit : 4 * r.width < sizeLimit)
    (hpadded : paddedWidth r = .ok (evenWidth r.width))
    (hsrc : 8 * src.length = r.width * r.height * r.source.bitsPerPixel)
    (hdst : dst.length = 2 * evenWidth r.width * r.height) :
    pack422 r src dst =
      .ok (Pixel.packRows r.order r.width r.height (Pixel.unpack r.source .uyvy r.bits src)) := by
  have hstride : 2 * evenWidth r.width < sizeLimit := by
    unfold evenWidth
    omega
  cases hc : r.source with
  | mono8 | raw8 =>
    rw [hc, Coding.bitsPerPixel] at hsrc
    simp only [pack422, hc]
    exact pairsFromMono_eq (samples_byte (by decide) r.bits) (by decide) (by decide) hw hpadded (by omega) hstride
      (by rw [Nat.mul_assoc]; omega) hdst
  | mono16 | raw16 =>
    rw [hc, Coding.bitsPerPixel] at hsrc
    simp only [pack422, hc]
    exact pairsFromMono_eq (samples_word rfl (hdepth (by rw [hc]; rfl))) (by decide) (by decide) hw hpadded (by omega)
      hstride (by rw [Nat.mul_assoc]; omega) hdst
  | yuv422 | yuv411 | yuv444 | rgb8 | rgb16 | rgb16s =>
    rw [hc] at hgrey
    cases hgrey
  | mono16s =>
    rw [hc] at hsigned
    cases hsigned

/-- **The YUV 4:2:2 target.** -/
theorem pack422_eq (htarget : r.target = .yuv422) (hcheck : r.check src.length dst.length = .ok ()) :
    pack422 r src dst = .ok (r.output src) := by
  have hpixels := Request.length_pixels hcheck
  obtain ⟨⟨hsigned, _⟩, hsize, hdepth, hsrc, hdst⟩ := Request.check_eq_ok_iff.mp hcheck
  obtain ⟨hlimit, hsrc⟩ := Coding.bufferLength?_eq_some_iff.mp hsrc
  obtain ⟨_, hdst⟩ := Coding.bufferLength?_eq_some_iff.mp hdst
  have hwidth := width_le (r := r) hsize.2.1
  have hpadded : paddedWidth r = .ok (evenWidth r.width) := by
    rw [paddedWidth_eq hsize (by omega), Request.paddedWidth, htarget]
  simp only [Request.paddedWidth, Request.sourceOrder, htarget, Target.coding, Coding.bitsPerPixel] at hdst hpixels
  simp only [Request.output, Request.sourceOrder, htarget]
  obtain ⟨hw, _, hquads, _, heven⟩ := hsize
  cases hcolour : r.source.isColour with
  | true =>
    have hmod := heven htarget hcolour
    rw [evenWidth_of_even hmod] at hdst
    rw [Pixel.packRows_of_even r.order hmod hpixels]
    exact pack422_of_colour hsigned hcolour hdepth hquads hmod hsrc (by omega)
  | false =>
    exact pack422_of_grey hsigned hcolour hdepth hw (by omega) hpadded hsrc (by rw [Nat.mul_assoc]; omega)

/-- **The grey target.** -/
theorem packMono8_eq (htarget : r.target = .mono8) (hcheck : r.check src.length dst.length = .ok ()) :
    packMono8 r src dst = .ok (r.output src) := by
  obtain ⟨hsource, _, hdepth, hsrc, hdst⟩ := Request.check_eq_ok_iff.mp hcheck
  obtain ⟨_, hsrc⟩ := Coding.bufferLength?_eq_some_iff.mp hsrc
  obtain ⟨_, hdst⟩ := Coding.bufferLength?_eq_some_iff.mp hdst
  simp only [Request.paddedWidth, htarget, Target.coding, Coding.bitsPerPixel] at hdst
  simp only [Request.output, htarget]
  cases hc : r.source with
  | mono8 | raw8 =>
    rw [hc, Coding.bitsPerPixel] at hsrc
    simp only [packMono8, hc]
    rw [Pixel.unpack, narrow_of_bytes (by decide), Pixel.packMono8_ofLuma]
    exact copy_eq (by omega)
  | mono16 | raw16 =>
    rw [hc, Coding.bitsPerPixel] at hsrc
    simp only [packMono8, hc]
    rw [Pixel.unpack, Pixel.packMono8_ofLuma]
    exact reduceEach_eq rfl (hdepth (by rw [hc]; rfl)) (q := r.width * r.height) (by omega) (by omega)
  | yuv422 | yuv411 | yuv444 | rgb8 | rgb16 =>
    have hgrey := hsource.2 htarget
    rw [hc] at hgrey
    cases hgrey
  | mono16s | rgb16s =>
    rw [hc] at hsource
    cases hsource.1

/-- **The RGB target.** -/
theorem packRgb8_eq (htarget : r.target = .rgb8) (hcheck : r.check src.length dst.length = .ok ()) :
    packRgb8 r src dst = .ok (r.output src) := by
  obtain ⟨hsource, ⟨_, _, hquads, heven, _⟩, hdepth, hsrc, hdst⟩ := Request.check_eq_ok_iff.mp hcheck
  obtain ⟨_, hsrc⟩ := Coding.bufferLength?_eq_some_iff.mp hsrc
  obtain ⟨_, hdst⟩ := Coding.bufferLength?_eq_some_iff.mp hdst
  simp only [Request.paddedWidth, htarget, Target.coding, Coding.bitsPerPixel] at hdst
  simp only [Request.output, Request.sourceOrder, htarget]
  cases hc : r.source with
  | rgb8 =>
    rw [hc, Coding.bitsPerPixel] at hsrc
    simp only [packRgb8, hc]
    rw [Pixel.unpack, narrow_of_bytes (by decide), Pixel.packRgb8_ofRgb (q := r.width * r.height) (by omega)]
    exact copy_eq (by omega)
  | rgb16 =>
    rw [hc, Coding.bitsPerPixel] at hsrc
    simp only [packRgb8, hc]
    rw [Pixel.unpack, Pixel.packRgb8_ofRgb (q := r.width * r.height) (by rw [length_narrow rfl]; omega)]
    exact reduceEach_eq rfl (hdepth (by rw [hc]; rfl)) (q := 3 * (r.width * r.height)) (by omega) (by omega)
  | yuv444 =>
    rw [hc, Coding.bitsPerPixel] at hsrc
    simp only [packRgb8, hc]
    exact coloursFromYuv444_eq (q := r.width * r.height) (by omega) (by omega)
  | yuv422 =>
    have hpairs := area_mod (heven hc) r.height
    rw [hc, Coding.bitsPerPixel] at hsrc
    simp only [packRgb8, hc]
    exact coloursFromYuv422_eq r.order (q := r.width * r.height / 2) (by omega) (by omega)
  | yuv411 =>
    have hgroups := area_mod (hquads hc) r.height
    rw [hc, Coding.bitsPerPixel] at hsrc
    simp only [packRgb8, hc]
    exact coloursFromYuv411_eq (q := r.width * r.height / 4) (by omega) (by omega)
  | mono8 | raw8 =>
    rw [hc, Coding.bitsPerPixel] at hsrc
    simp only [packRgb8, hc]
    rw [Pixel.unpack, narrow_of_bytes (by decide)]
    exact coloursFromBytes_eq (q := r.width * r.height) (by omega) (by omega)
  | mono16 | raw16 =>
    rw [hc, Coding.bitsPerPixel] at hsrc
    simp only [packRgb8, hc]
    exact coloursFromWords_eq rfl (hdepth (by rw [hc]; rfl)) (q := r.width * r.height) (by omega) (by omega)
  | mono16s | rgb16s =>
    rw [hc] at hsource
    cases hsource.1

theorem pack_eq (hcheck : r.check src.length dst.length = .ok ()) : pack r src dst = .ok (r.output src) := by
  cases htarget : r.target with
  | yuv422 => simpa only [pack, htarget] using pack422_eq htarget hcheck
  | mono8 => simpa only [pack, htarget] using packMono8_eq htarget hcheck
  | rgb8 => simpa only [pack, htarget] using packRgb8_eq htarget hcheck

/-- **Conversion** runs without a fault and is exact. -/
theorem convert_eq (r : Request) (src dst : Array UInt8) : convert r src dst = .ok (Imaging.convert r src dst) := by
  rw [convert, check_eq, ok_bind, Imaging.convert]
  cases hcheck : r.check src.size dst.size with
  | error e => rfl
  | ok _ =>
    have hlength : (r.output src.toList).length = dst.size := Request.length_output hcheck
    simp only
    rw [pack_eq hcheck, ok_bind, Outcome.guarded_ok, overwrite_eq hlength]

/-! ## Stereo -/

theorem chunkwise_first : Chunkwise 2 (Stereo.first : List UInt8 → List UInt8) where
  nil := rfl
  append {s rest} hs := by
    match s, hs with
    | [_, _], _ => rfl

theorem chunkwise_second : Chunkwise 2 (Stereo.second : List UInt8 → List UInt8) where
  nil := rfl
  append {s rest} hs := by
    match s, hs with
    | [_, _], _ => rfl

theorem splitPairs_eq {n : Nat} (hsrc : src.length = 2 * n) (hdst : dst.length = 2 * n) :
    splitPairs n src dst = .ok (Stereo.first src ++ Stereo.second src) := by
  let value (s : List UInt8) : UInt8 × UInt8 := ((Stereo.first s).headD 0, (Stereo.second s).headD 0)
  have htop : ((dst.take n).drop 0).length = n := by
    rw [List.drop_zero, List.length_take]
    omega
  have hbottom : ((dst.take dst.length).drop n).length = n := by
    rw [List.take_length, List.length_drop]
    omega
  have hplaces : (rows 2 n src).length ≤ (((dst.take n).drop 0).zip ((dst.take dst.length).drop n)).length := by
    rw [length_rows, List.length_zip, htop, hbottom]
    omega
  have hrun : ∀ s ∈ rows 2 n src, ∀ p ∈ ((dst.take n).drop 0).zip ((dst.take dst.length).drop n),
      (do
        let first ← fetch (s, p).1 0
        let second ← fetch (s, p).1 1
        .ok (first, second) : Run (UInt8 × UInt8)) = .ok (value s) := by
    intro s hs _ _
    match s, length_of_mem_rows hsrc hs with
    | [_, _], _ => rfl
  have hfirst : ((rows 2 n src).map value).map Prod.fst = Stereo.first src := by
    rw [List.map_map, ← chunkwise_first.flatMap_rows (Nat.le_of_eq hsrc)]
    exact map_headD 0 fun s hs => by rw [Stereo.length_first, length_of_mem_rows hsrc hs]
  have hsecond : ((rows 2 n src).map value).map Prod.snd = Stereo.second src := by
    rw [List.map_map, ← chunkwise_second.flatMap_rows (Nat.le_of_eq hsrc)]
    exact map_headD 0 fun s hs => by rw [Stereo.length_second, length_of_mem_rows hsrc hs]
  rw [splitPairs, slice_eq (by omega) (by omega), ok_bind, slice_eq (by omega) (by omega), ok_bind,
    chunksExact_eq (by decide) hsrc, ok_bind, mapM_zip_eq hplaces hrun, ok_bind, hfirst, hsecond, List.length_map,
    length_rows, List.drop_eq_nil_of_le (Nat.le_of_eq htop), List.drop_eq_nil_of_le (Nat.le_of_eq hbottom),
    List.append_nil, List.append_nil]

theorem stereoLength_eq (w h srcLength dstLength : Nat) :
    stereoLength w h srcLength dstLength = (Stereo.check w h srcLength dstLength).map fun _ => w * h := by
  unfold stereoLength Stereo.check
  cases require (0 < w ∧ 0 < h) (.dimensions w h) with
  | error e => rfl
  | ok _ =>
    by_cases hlimit : 2 * (w * h) < sizeLimit
    · have harea : mul? w h = some (w * h) := if_pos (by omega)
      have hlength : mul? (w * h) 2 = some (2 * (w * h)) := by
        rw [Nat.mul_comm 2]
        exact if_pos (by omega)
      simp only [requireSome, harea, require_of hlimit, hlength, ok_bind]
      cases requireLength (2 * (w * h)) srcLength with
      | error e => rfl
      | ok _ => cases requireLength (2 * (w * h)) dstLength <;> rfl
    · rw [require_of_not hlimit]
      by_cases hsmall : w * h < sizeLimit
      · have harea : mul? w h = some (w * h) := if_pos hsmall
        have hlength : mul? (w * h) 2 = none := if_neg (by omega)
        simp only [requireSome, harea, hlength, ok_bind]
        rfl
      · have harea : mul? w h = none := if_neg hsmall
        rw [harea]
        rfl

/-- **Stereo splitting** runs without a fault and is exact. -/
theorem splitStereo_eq (w h : Nat) (src dst : Array UInt8) :
    splitStereo w h src dst = .ok (Imaging.splitStereo w h src dst) := by
  rw [splitStereo, stereoLength_eq, Imaging.splitStereo]
  cases hcheck : Stereo.check w h src.size dst.size with
  | error e => rfl
  | ok _ =>
    obtain ⟨_, _, hsrc, hdst⟩ := Stereo.check_eq_ok_iff.mp hcheck
    simp only [Except.map]
    rw [splitPairs_eq (n := w * h) hsrc hdst, ok_bind, Outcome.guarded_ok, overwrite_eq (Stereo.length_views hcheck)]

end Imaging.Machine
