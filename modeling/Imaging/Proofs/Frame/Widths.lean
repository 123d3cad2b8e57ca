/-
The four ways between sample widths. A raw frame of 8 or 16 bits becomes an image of 8 or 16 bits; from bytes to bytes
there is a direct way, the other three go through 16-bit buffers. `debayer_eq` says that the direct way makes no
difference: all four rebuild the same 16-bit colours and write them in the width of the target. Two facts carry it:
- `Depth.rebuild_eight`: at 8 significant bits the two sample types are clamped alike;
- `reduce_toUInt16`: a byte that was widened is narrowed to itself.
`debayer_coherent` compares the ways with each other.
-/
import Imaging.Proofs.Frame.Debayer

namespace Imaging

theorem toNat_toUInt16_map (image : Array UInt8) : (image.map UInt8.toUInt16).map UInt16.toNat = image.map UInt8.toNat := by
  rw [Array.map_map]
  rfl

theorem reduce_toUInt16 (b : UInt8) : reduce 8 b.toUInt16 = b := by
  apply UInt8.toNat_inj.mp
  rw [reduce_eq, UInt8.toNat_toUInt16, Nat.shiftRight_zero, Nat.min_eq_left (Nat.le_of_lt_succ b.toNat_lt)]

theorem map_reduce_toUInt16 (bytes : List UInt8) : (bytes.map UInt8.toUInt16).map (reduce 8) = bytes := by
  rw [List.map_map]
  exact List.map_id'' reduce_toUInt16 bytes

theorem toUInt16_ofNat {n : Nat} (h : n ≤ 255) : (UInt8.ofNat n).toUInt16 = UInt16.ofNat n := by
  apply UInt16.toNat_inj.mp
  rw [UInt8.toNat_toUInt16, UInt8.toNat_ofNat', UInt16.toNat_ofNat']
  omega

/-- 16-bit samples of 8 significant bits are rebuilt as bytes are -/
theorem Depth.rebuild_eight (hbits : ValidDepth 8) (k : Method) (t : Tile) (m : Mosaic) :
    (Depth.word 8 hbits).rebuild k t m = (Depth.byte.rebuild k t m).map UInt8.toUInt16 := by
  obtain ⟨r, ⟨hw, hh⟩, hdata, hget⟩ := (Depth.word 8 hbits).exists_raster k t m
  obtain ⟨s, ⟨hw', hh'⟩, hdata', hget'⟩ := Depth.byte.exists_raster k t m
  rw [hdata, hdata', Array.map_map]
  refine Raster.map_data_eq (hw.trans hw'.symm) (hh.trans hh'.symm) fun x y c => ?_
  rw [hget, hget', Function.comp_apply]
  exact (toUInt16_ofNat (k.pixel_le m t 255 x y c)).symm

namespace Frame

/-- a frame of a raw coding behind a filter -/
def ofRaw (coding : Coding) (t : Tile) (w h depth : Nat) (image : Array UInt8) : Frame where
  image := image
  width := w
  height := h
  coding := coding
  depth := depth
  filter := some t

/-- buffers of `n` and `m` bytes have exactly the lengths that a raw frame of `w` by `h` samples and its image ask for,
and fewer than `2 ^ 64` bits -/
def Sized (source target : Coding) (k : Method) (w h n m : Nat) : Prop :=
  source.bufferLength? w h = some n ∧ target.bufferLength? (k.outputSize w h).1 (k.outputSize w h).2 = some m

instance (source target : Coding) (k : Method) (w h n m : Nat) : Decidable (Sized source target k w h n m) :=
  inferInstanceAs (Decidable (_ ∧ _))

variable {f : Frame} {t : Tile} {target : Coding} {k : Method}

/-- the direct way leaves in bytes the colours that the way through 16-bit buffers rebuilds -/
theorem rebuilt_of_bytes (hcoding : f.coding = .raw8) {dst : Array UInt8}
    (hcheck : f.checkWide .rgb8 k dst.size = .ok ()) (t : Tile) :
    ∃ rgb : Array UInt8, decode8 t k f.width f.height f.image dst = .written rgb ∧
      f.rebuilt t k = rgb.map UInt8.toUInt16 := by
  have hraw : f.coding.isRaw = true := by rw [hcoding]; rfl
  have hbits : f.bits = 8 := by rw [bits, hcoding]; rfl
  have hsamples : f.samples = f.image.map UInt8.toUInt16 := by rw [samples, hcoding]; rfl
  have hfit₁₆ := fits_samples hraw (show Coding.rgb8.isRgb = true from rfl) hcheck
  have hsize : f.image.size = f.width * f.height := by
    rw [← hfit₁₆.src_size, hsamples, Array.size_map]
  have hdst : dst.size = 3 * ((k.outputSize f.width f.height).1 * (k.outputSize f.width f.height).2) := by
    have hlength := (Coding.bufferLength?_eq_some_iff.mp (checkWide_eq_ok_iff.mp hcheck).2.2.2).2
    simp only [Coding.bitsPerPixel] at hlength
    omega
  have hfit₈ : Fits k f.width f.height f.image dst := by
    refine ⟨hfit₁₆.tiles, hsize, hdst, ?_, ?_⟩
    · rw [hsize, ← hfit₁₆.src_size]
      exact hfit₁₆.src_lt
    · rw [hdst, ← hfit₁₆.dst_size]
      exact hfit₁₆.dst_lt
  refine ⟨_, Depth.byte.decode_of_fits t hfit₈, ?_⟩
  let d : Depth UInt16 := .word 8 (by decide)
  have hmosaic : d.mosaic f.width f.height f.samples hfit₁₆.src_size =
      Depth.byte.mosaic f.width f.height f.image hsize := by
    simp only [Depth.mosaic, Mosaic.mk.injEq, true_and]
    rw [hsamples]
    exact toNat_toUInt16_map f.image
  have hdecode := d.decode_of_fits t hfit₁₆
  rw [hmosaic, Depth.rebuild_eight] at hdecode
  rw [rebuilt, hbits]
  exact congrArg Outcome.dst hdecode

/-- **One rebuilt image for all ways.** Where the checks of the way through 16-bit buffers pass, every way writes its
colours, in the sample width of the target. -/
theorem debayer_eq (hfilter : f.filter = some t) (hraw : f.coding.isRaw = true) (hrgb : target.isRgb = true)
    {dst : Array UInt8} (hcheck : f.checkWide target k dst.size = .ok ()) :
    f.debayer target k dst = .written (wideBytes f.bits target (f.rebuilt t k)).toArray := by
  rw [debayer_of_codings hfilter hraw hrgb]
  split
  · rename_i hbytes
    obtain ⟨hcoding, rfl⟩ := hbytes
    obtain ⟨rgb, hdecode, hrebuilt⟩ := rebuilt_of_bytes hcoding hcheck t
    have hbits : f.bits = 8 := by rw [bits, hcoding]; rfl
    have hbytes : wideBytes f.bits .rgb8 (f.rebuilt t k) = rgb.toList := by
      rw [wideBytes, if_neg (by decide), hbits, hrebuilt, Array.toList_map, map_reduce_toUInt16]
    rw [hdecode, hbytes, Array.toArray_toList]
  · exact debayerWide_of_check hraw hrgb hcheck t

theorem bytes_of_words (hfilter : f.filter = some t) (hraw : f.coding.isRaw = true) {dst₈ dst₁₆ : Array UInt8}
    (hcheck₈ : f.checkWide .rgb8 k dst₈.size = .ok ()) (hcheck₁₆ : f.checkWide .rgb16 k dst₁₆.size = .ok ()) :
    (f.debayer .rgb8 k dst₈).dst.toList =
      (BigEndian.decode (f.debayer .rgb16 k dst₁₆).dst.toList).map (reduce f.bits) := by
  rw [debayer_eq hfilter hraw rfl hcheck₈, debayer_eq hfilter hraw rfl hcheck₁₆]
  change (f.rebuilt t k).toList.map (reduce f.bits) =
    (BigEndian.decode (BigEndian.encode (f.rebuilt t k).toList)).map (reduce f.bits)
  rw [BigEndian.decode_encode]

theorem words_of_bytes (hfilter : f.filter = some t) (hcoding : f.coding = .raw8) {dst₈ dst₁₆ : Array UInt8}
    (hcheck₈ : f.checkWide .rgb8 k dst₈.size = .ok ()) (hcheck₁₆ : f.checkWide .rgb16 k dst₁₆.size = .ok ()) :
    (f.debayer .rgb16 k dst₁₆).dst.toList =
      BigEndian.encode ((f.debayer .rgb8 k dst₈).dst.toList.map UInt8.toUInt16) := by
  have hraw : f.coding.isRaw = true := by rw [hcoding]; rfl
  obtain ⟨rgb, hdecode, hrebuilt⟩ := rebuilt_of_bytes hcoding hcheck₈ t
  rw [debayer_of_codings hfilter hraw rfl k dst₈, if_pos ⟨hcoding, rfl⟩, hdecode,
    debayer_eq hfilter hraw rfl hcheck₁₆, hrebuilt]
  change BigEndian.encode (rgb.map UInt8.toUInt16).toList = BigEndian.encode (rgb.toList.map UInt8.toUInt16)
  rw [Array.toList_map]

/-! ## Frames of the right lengths -/

theorem checkWide_ofRaw {source : Coding} {w h depth : Nat} {image : Array UInt8} {m : Nat} (htiles : WholeTiles w h)
    (hdepth : source.sampleBits = 16 → ValidDepth depth) (hsized : Sized source target k w h image.size m) :
    (ofRaw source t w h depth image).checkWide target k m = .ok () := by
  refine checkWide_eq_ok_iff.mpr ⟨htiles, ?_, hsized⟩
  by_cases hwide : source.sampleBits = 16
  · simp only [bits, ofRaw, hwide, if_true]
    exact hdepth hwide
  · simp only [bits, ofRaw, hwide, if_false]
    decide

theorem Sized.of_widened {w h m : Nat} {bytes image : Array UInt8}
    (himage : image.toList = BigEndian.encode (bytes.toList.map UInt8.toUInt16))
    (hsized : Sized .raw16 target k w h image.size m) : Sized .raw8 target k w h bytes.size m := by
  have hsize : image.size = 2 * bytes.size := by
    rw [← Array.length_toList, himage, BigEndian.length_encode, List.length_map, Array.length_toList]
  have hbits := Coding.bufferLength?_eq_some_iff.mp hsized.1
  refine ⟨Coding.bufferLength?_eq_some_iff.mpr ?_, hsized.2⟩
  simp only [Coding.bitsPerPixel] at hbits ⊢
  omega

/-- a frame of widened bytes has the samples of the frame of these bytes -/
theorem samples_of_widened {w h depth₁₆ : Nat} (depth₈ : Nat) {bytes image : Array UInt8}
    (himage : image.toList = BigEndian.encode (bytes.toList.map UInt8.toUInt16)) :
    (ofRaw .raw16 t w h depth₁₆ image).samples = (ofRaw .raw8 t w h depth₈ bytes).samples := by
  change (BigEndian.decode image.toList).toArray = bytes.map UInt8.toUInt16
  rw [himage, BigEndian.decode_encode, ← Array.toList_map, Array.toArray_toList]

/-- demosaicing at the depth of the frame gives its rebuilt image, whatever the buffer for the colours held -/
theorem decode16_eq_rebuilt (hraw : f.coding.isRaw = true) (hrgb : target.isRgb = true) {dstLength : Nat}
    (hcheck : f.checkWide target k dstLength = .ok ()) (t : Tile) {rgb : Array UInt16}
    (hsize : rgb.size = 3 * ((k.outputSize f.width f.height).1 * (k.outputSize f.width f.height).2)) :
    decode16 t k f.width f.height f.bits f.samples rgb = .written (f.rebuilt t k) := by
  obtain ⟨_, hbits, _, _⟩ := checkWide_eq_ok_iff.mp hcheck
  have hblank := fits_samples hraw hrgb hcheck
  have hfit : Fits k f.width f.height f.samples rgb :=
    ⟨hblank.tiles, hblank.src_size, hsize, hblank.src_lt, hsize.trans hblank.dst_size.symm ▸ hblank.dst_lt⟩
  have hdecode := (Depth.word f.bits hbits).decode_of_fits t hfit
  have hrebuilt := (Depth.word f.bits hbits).decode_of_fits t hblank
  rw [rebuilt]
  exact hdecode.trans (hrebuilt.symm.trans (decode16_samples hraw hrgb hcheck t).1)

end Frame

open Imaging.Frame in
/-- **The four ways are coherent,** for frames of even sizes and buffers of exactly the right lengths. All requests are
accepted. The bytes from a 16-bit frame are the samples of its 16-bit image, reduced; the 16-bit image of an 8-bit frame
is its image in bytes, widened; a 16-bit frame of widened bytes and depth 8 gives what these bytes give; and from 16 to
16 bits a frame is read, demosaiced at its depth and written, whatever the buffers in between held. -/
theorem debayer_coherent (t : Tile) (k : Method) {w h : Nat} (htiles : WholeTiles w h) :
    (∀ (image dst₈ dst₁₆ : Array UInt8) (depth : Nat), ValidDepth depth →
      Sized .raw16 .rgb8 k w h image.size dst₈.size → Sized .raw16 .rgb16 k w h image.size dst₁₆.size →
        let f := ofRaw .raw16 t w h depth image
        (f.debayer .rgb8 k dst₈).result = .ok () ∧ (f.debayer .rgb16 k dst₁₆).result = .ok () ∧
          (f.debayer .rgb8 k dst₈).dst.toList =
            (BigEndian.decode (f.debayer .rgb16 k dst₁₆).dst.toList).map (reduce depth)) ∧
    (∀ (image dst₈ dst₁₆ : Array UInt8) (depth : Nat),
      Sized .raw8 .rgb8 k w h image.size dst₈.size → Sized .raw8 .rgb16 k w h image.size dst₁₆.size →
        let f := ofRaw .raw8 t w h depth image
        (f.debayer .rgb8 k dst₈).result = .ok () ∧ (f.debayer .rgb16 k dst₁₆).result = .ok () ∧
          (f.debayer .rgb16 k dst₁₆).dst.toList =
            BigEndian.encode ((f.debayer .rgb8 k dst₈).dst.toList.map UInt8.toUInt16)) ∧
    (∀ (bytes image dst : Array UInt8) (depth : Nat) (target : Coding), target = .rgb8 ∨ target = .rgb16 →
      image.toList = BigEndian.encode (bytes.toList.map UInt8.toUInt16) →
      Sized .raw16 target k w h image.size dst.size →
        ((ofRaw .raw8 t w h depth bytes).debayer target k dst).result = .ok () ∧
          (ofRaw .raw16 t w h 8 image).debayer target k dst = (ofRaw .raw8 t w h depth bytes).debayer target k dst) ∧
    ∀ (image dst : Array UInt8) (samples rgb : Array UInt16) (depth : Nat), ValidDepth depth →
      Sized .raw16 .rgb16 k w h image.size dst.size → samples.size = w * h →
      rgb.size = 3 * ((k.outputSize w h).1 * (k.outputSize w h).2) →
        let read := readSamples image samples
        let decoded := decode16 t k w h depth read.dst rgb
        read.result = .ok () ∧ decoded.result = .ok () ∧ (writeSamples decoded.dst dst).result = .ok () ∧
          (ofRaw .raw16 t w h depth image).debayer .rgb16 k dst = writeSamples decoded.dst dst := by
  refine ⟨?_, ?_, ?_, ?_⟩
  · intro image dst₈ dst₁₆ depth hdepth hsized₈ hsized₁₆ f
    have hcheck₈ : f.checkWide .rgb8 k dst₈.size = .ok () := checkWide_ofRaw htiles (fun _ => hdepth) hsized₈
    have hcheck₁₆ : f.checkWide .rgb16 k dst₁₆.size = .ok () := checkWide_ofRaw htiles (fun _ => hdepth) hsized₁₆
    refine ⟨?_, ?_, bytes_of_words rfl rfl hcheck₈ hcheck₁₆⟩
    · rw [debayer_eq rfl rfl rfl hcheck₈]; rfl
    · rw [debayer_eq rfl rfl rfl hcheck₁₆]; rfl
  · intro image dst₈ dst₁₆ depth hsized₈ hsized₁₆ f
    have hcheck₈ : f.checkWide .rgb8 k dst₈.size = .ok () := checkWide_ofRaw htiles nofun hsized₈
    have hcheck₁₆ : f.checkWide .rgb16 k dst₁₆.size = .ok () := checkWide_ofRaw htiles nofun hsized₁₆
    refine ⟨?_, ?_, words_of_bytes rfl rfl hcheck₈ hcheck₁₆⟩
    · rw [debayer_eq rfl rfl rfl hcheck₈]; rfl
    · rw [debayer_eq rfl rfl rfl hcheck₁₆]; rfl
  · intro bytes image dst depth target htarget himage hsized
    have hrgb : target.isRgb = true := by rcases htarget with rfl | rfl <;> rfl
    have hcheck₈ : (ofRaw .raw8 t w h depth bytes).checkWide target k dst.size = .ok () :=
      checkWide_ofRaw htiles nofun (hsized.of_widened himage)
    have hcheck₁₆ : (ofRaw .raw16 t w h 8 image).checkWide target k dst.size = .ok () :=
      checkWide_ofRaw htiles (fun _ => by decide) hsized
    have hrebuilt : (ofRaw .raw16 t w h 8 image).rebuilt t k = (ofRaw .raw8 t w h depth bytes).rebuilt t k := by
      rw [rebuilt, samples_of_widened depth himage]
      rfl
    rw [debayer_eq rfl rfl hrgb hcheck₈, debayer_eq rfl rfl hrgb hcheck₁₆, hrebuilt]
    exact ⟨rfl, rfl⟩
  · intro image dst samples rgb depth hdepth hsized hsamples hrgb read decoded
    let f := ofRaw .raw16 t w h depth image
    have hcheck : f.checkWide .rgb16 k dst.size = .ok () := checkWide_ofRaw htiles (fun _ => hdepth) hsized
    have hbits := (Coding.bufferLength?_eq_some_iff.mp hsized.1).2
    simp only [Coding.bitsPerPixel] at hbits
    have hread : read = .written f.samples := readSamples_eq (by omega)
    have hdecoded : decoded = .written (f.rebuilt t k) := by
      simp only [decoded, hread]
      exact decode16_eq_rebuilt (f := f) rfl rfl hcheck t hrgb
    have hlength : (wideBytes depth .rgb16 (f.rebuilt t k)).length = dst.size :=
      length_wideBytes rfl hsized.2 (decode16_samples rfl rfl hcheck t).2 depth
    have hwide : writeWide depth .rgb16 (f.rebuilt t k) dst =
        .written (wideBytes depth .rgb16 (f.rebuilt t k)).toArray := writeWide_eq hlength
    have hwrite : writeSamples (f.rebuilt t k) dst = .written (wideBytes depth .rgb16 (f.rebuilt t k)).toArray := hwide
    rw [hread, hdecoded]
    refine ⟨rfl, rfl, ?_, ?_⟩
    · exact congrArg Outcome.result hwrite
    · exact (debayer_eq (f := f) rfl rfl rfl hcheck).trans hwrite.symm

/-- a ramp of 16-bit samples and a ramp of bytes, by the edge-sensing method -/
theorem debayer_coherent_ramp :
    let bytes : Array UInt8 := .ofFn fun place : Fin 64 => UInt8.ofNat (37 * place)
    let image : Array UInt8 := (BigEndian.encode (bytes.toList.map UInt8.toUInt16)).toArray
    let f := Frame.ofRaw .raw16 .gbrg 8 8 12 image
    let g := Frame.ofRaw .raw8 .gbrg 8 8 0 bytes
    (f.debayer .rgb8 .edgeSense (.replicate 192 7)).dst.toList =
        (BigEndian.decode (f.debayer .rgb16 .edgeSense (.replicate 384 9)).dst.toList).map (reduce 12) ∧
      (g.debayer .rgb16 .edgeSense (.replicate 384 9)).dst.toList =
        BigEndian.encode ((g.debayer .rgb8 .edgeSense (.replicate 192 7)).dst.toList.map UInt8.toUInt16) ∧
      (Frame.ofRaw .raw16 .gbrg 8 8 8 image).debayer .rgb8 .edgeSense (.replicate 192 7) =
        g.debayer .rgb8 .edgeSense (.replicate 192 7) ∧
      f.debayer .rgb16 .edgeSense (.replicate 384 9) =
        writeSamples (decode16 .gbrg .edgeSense 8 8 12 (readSamples image (.replicate 64 1)).dst (.replicate 192 5)).dst
          (.replicate 384 9) := by
  intro bytes image f g
  obtain ⟨hreduced, hwidened, hbytes, hsamples⟩ := debayer_coherent .gbrg .edgeSense (w := 8) (h := 8) (by decide)
  refine ⟨(hreduced image _ _ 12 (by decide) ?_ ?_).2.2, (hwidened bytes _ _ 0 ?_ ?_).2.2,
    (hbytes bytes image _ 0 .rgb8 (.inl rfl) ?_ ?_).2, (hsamples image _ _ _ 12 (by decide) ?_ ?_ ?_).2.2.2⟩
  all_goals decide +kernel

end Imaging
