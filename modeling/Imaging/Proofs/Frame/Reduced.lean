/-
Two ways from 16-bit samples behind a filter to colours in bytes: the frame is demosaiced at its depth and the colours
are reduced, or its samples are converted to grey bytes first and these are demosaiced. `debayer_reduced` says how far
the images are apart: not at all where channels are copied, and one level at most where they are means of samples of the
depth. Both images are rebuilt from one mosaic, so what is left of the two ways are their pixels.
-/
import Imaging.Proofs.Conversion.Stages
import Imaging.Proofs.Demosaic.Reduced
import Imaging.Proofs.Frame.Widths

namespace Imaging

theorem widen_ofNat {n : Nat} (h : n ≤ 255) : widen (UInt8.ofNat n) = n := by
  rw [widen, UInt8.toNat_ofNat', Nat.mod_eq_of_lt (Nat.lt_succ_of_le h)]

namespace Frame

variable {k : Method} {w h depth : Nat} {image dst : Array UInt8}

def words (image : Array UInt8) : Array UInt16 := (BigEndian.decode image.toList).toArray

def wordMosaic (hdepth : ValidDepth depth) (hwords : (words image).size = w * h) : Mosaic :=
  (Depth.word depth hdepth).mosaic w h (words image) hwords

theorem size_words (hsized : Sized .raw16 .rgb8 k w h image.size dst.size) : (words image).size = w * h := by
  have hlength := Coding.bufferLength?_eq_some_iff.mp hsized.1
  simp only [Coding.bitsPerPixel] at hlength
  rw [words, List.size_toArray, BigEndian.length_decode, Array.length_toList]
  omega

theorem debayer_rgb8_eq (htiles : WholeTiles w h) (hdepth : ValidDepth depth)
    (hsized : Sized .raw16 .rgb8 k w h image.size dst.size) (t : Tile) :
    (ofRaw .raw16 t w h depth image).debayer .rgb8 k dst = .written
      (((Depth.word depth hdepth).rebuild k t (wordMosaic hdepth (size_words hsized))).map (reduce depth)) := by
  have hcheck : (ofRaw .raw16 t w h depth image).checkWide .rgb8 k dst.size = .ok () :=
    checkWide_ofRaw htiles (fun _ => hdepth) hsized
  have hfit := fits_samples rfl (show Coding.rgb8.isRgb = true from rfl) hcheck
  have hrebuilt : (ofRaw .raw16 t w h depth image).rebuilt t k =
      (Depth.word depth hdepth).rebuild k t (wordMosaic hdepth (size_words hsized)) :=
    congrArg Outcome.dst ((Depth.word depth hdepth).decode_of_fits t hfit)
  have hbytes (rgb : Array UInt16) : (wideBytes depth .rgb8 rgb).toArray = rgb.map (reduce depth) := by
    rw [wideBytes, if_neg (by decide), ← Array.toList_map, Array.toArray_toList]
  rw [debayer_eq rfl rfl rfl hcheck, hrebuilt]
  exact congrArg Outcome.written (hbytes _)

theorem convert_grey_words (htiles : WholeTiles w h) (hdepth : ValidDepth depth)
    (hsized : Sized .raw16 .rgb8 k w h image.size dst.size) (order : ByteOrder) {mid : Array UInt8}
    (hmid : mid.size = w * h) :
    Imaging.convert (.grey .raw16 w h depth order) image mid = .written ((words image).map (reduce depth)) := by
  have hlength := Coding.bufferLength?_eq_some_iff.mp hsized.1
  simp only [Coding.bitsPerPixel] at hlength
  have hpos : 0 < w ∧ 0 < h := ⟨Nat.lt_of_lt_of_le (by decide) htiles.1, Nat.lt_of_lt_of_le (by decide) htiles.2.1⟩
  exact convert_words rfl (.inr rfl) (Request.accepted_grey (.inr rfl) hpos hdepth (by omega) (by omega) hmid order)

theorem decode8_grey (htiles : WholeTiles w h) (hdepth : ValidDepth depth)
    (hsized : Sized .raw16 .rgb8 k w h image.size dst.size) {dst' : Array UInt8} (hdst' : dst'.size = dst.size)
    (t : Tile) :
    decode8 t k w h ((words image).map (reduce depth)) dst' =
      .written (Depth.byte.rebuild k t ((wordMosaic hdepth (size_words hsized)).reduced depth)) := by
  have hlength := Coding.bufferLength?_eq_some_iff.mp hsized.1
  have hlength' := Coding.bufferLength?_eq_some_iff.mp hsized.2
  simp only [Coding.bitsPerPixel] at hlength hlength'
  have hwords := size_words hsized
  have hfit : Fits k w h ((words image).map (reduce depth)) dst' := by
    refine ⟨htiles, ?_, ?_, ?_, ?_⟩
    · rw [Array.size_map, hwords]
    · omega
    · rw [Array.size_map, hwords]
      omega
    · omega
  have hdecode := Depth.byte.decode_of_fits t hfit
  rw [Depth.mosaic_reduce hdepth hwords] at hdecode
  exact hdecode

end Frame

open Imaging.Frame in
/-- **Reducing before or after demosaicing.** Both ways are accepted. By the nearest method they give one image, also of
samples above the depth. By the methods that average, an image of samples of the depth comes out with differences of one
level at most, and with none in channels that are copied, nor at 8 significant bits. -/
theorem debayer_reduced (t : Tile) (k : Method) {w h depth : Nat} (htiles : WholeTiles w h) (hdepth : ValidDepth depth)
    (order : ByteOrder) (image dst mid dst' : Array UInt8) (hsized : Sized .raw16 .rgb8 k w h image.size dst.size)
    (hmid : mid.size = w * h) (hdst' : dst'.size = dst.size) :
    let late := (ofRaw .raw16 t w h depth image).debayer .rgb8 k dst
    let grey := convert (.grey .raw16 w h depth order) image mid
    let early := decode8 t k w h grey.dst dst'
    (late.result = .ok () ∧ grey.result = .ok () ∧ early.result = .ok ()) ∧
      (k = .nearest → early.dst = late.dst) ∧
      (k = .simple ∨ k = .bilinear ∨ k = .downsample →
        (∀ v ∈ BigEndian.decode image.toList, v.toNat ≤ ceiling depth) →
        let W := (k.outputSize w h).1
        let H := (k.outputSize w h).2
        ∀ x y c, x < W → y < H → ∃ a b,
          channelAt? W late.dst x y c = some a ∧ channelAt? W early.dst x y c = some b ∧
            (widen a - widen b).natAbs ≤ 1 ∧ (k.Copies t x y c ∨ depth = 8 → a = b)) := by
  intro late grey early
  let m := wordMosaic hdepth (size_words hsized)
  have hlate : late = .written (((Depth.word depth hdepth).rebuild k t m).map (reduce depth)) :=
    debayer_rgb8_eq htiles hdepth hsized t
  have hgrey : grey = .written ((words image).map (reduce depth)) := convert_grey_words htiles hdepth hsized order hmid
  have hearly : early = .written (Depth.byte.rebuild k t (m.reduced depth)) := by
    rw [← decode8_grey htiles hdepth hsized hdst' t]
    simp only [early, hgrey, Outcome.written]
  rw [hlate, hgrey, hearly]
  refine ⟨⟨rfl, rfl, rfl⟩, ?_, ?_⟩
  · rintro rfl
    exact Depth.rebuild_reduced_of_copies hdepth (by decide) (Method.copies_nearest t) m
  · intro hmethod hle W H x y c hx hy
    obtain ⟨⟨green, colour⟩, hblends⟩ : ∃ means, k.blends? = some means := by
      rcases hmethod with rfl | rfl | rfl
      · exact ⟨_, rfl⟩
      · exact ⟨_, rfl⟩
      · exact ⟨_, rfl⟩
    have hsamples : ∀ v ∈ m.samples, v ≤ ceiling depth := by
      intro v hv
      obtain ⟨a, ha, rfl⟩ := Array.mem_map.mp hv
      exact hle a (List.mem_toArray.mp ha)
    refine ⟨_, _, Depth.channelAt?_reduce hdepth k t m hx hy c,
      Depth.byte.channelAt?_rebuild k t (m.reduced depth) hx hy c, ?_, ?_⟩
    · have hlate := widen_ofNat (k.reducedPixel_le m t depth x y c)
      have hearly := widen_ofNat (k.pixel_le (m.reduced depth) t 255 x y c)
      have hnear := Method.pixel_reduced_near hdepth hblends hsamples t x y c
      rw [← hlate, ← hearly] at hnear
      exact hnear
    · rintro (hcopies | rfl)
      · exact congrArg UInt8.ofNat
          (Method.pixel_reduced_of_copies hdepth (Method.ne_edgeSense_of_blends hblends) hcopies).symm
      · exact congrArg UInt8.ofNat (k.pixel_reduced_eight hsamples t x y c).symm

/-- bright samples copied, some of them above their 12 bits, and samples of 12 bits averaged -/
theorem debayer_reduced_patches :
    (let image : Array UInt8 := .ofFn fun place : Fin 32 => UInt8.ofNat (37 * place)
      let grey := convert (.grey .raw16 4 4 12 .uyvy) image (.replicate 16 7)
      (decode8 .grbg .nearest 4 4 grey.dst (.replicate 48 5)).dst =
        ((Frame.ofRaw .raw16 .grbg 4 4 12 image).debayer .rgb8 .nearest (.replicate 48 9)).dst) ∧
      (let image : Array UInt8 := .ofFn fun place : Fin 32 =>
          UInt8.ofNat (if place % 2 = 0 then place / 2 else 51 * place)
        let late := (Frame.ofRaw .raw16 .rggb 4 4 12 image).debayer .rgb8 .bilinear (.replicate 48 9)
        let grey := convert (.grey .raw16 4 4 12 .uyvy) image (.replicate 16 7)
        let early := decode8 .rggb .bilinear 4 4 grey.dst (.replicate 48 5)
        ∀ x y c, x < 4 → y < 4 → ∃ a b,
          channelAt? 4 late.dst x y c = some a ∧ channelAt? 4 early.dst x y c = some b ∧
            (widen a - widen b).natAbs ≤ 1 ∧ (Method.Copies .bilinear .rggb x y c ∨ 12 = 8 → a = b)) := by
  refine ⟨?_, ?_⟩
  · intro image grey
    exact (debayer_reduced .grbg .nearest (by decide) (by decide) .uyvy image (.replicate 48 9) (.replicate 16 7)
      (.replicate 48 5) (by decide) (by decide) (by decide)).2.1 rfl
  · intro image late grey early
    have hle : (BigEndian.decode image.toList).all (fun v => v.toNat ≤ ceiling 12) = true := by decide +kernel
    exact (debayer_reduced .rggb .bilinear (by decide) (by decide) .uyvy image (.replicate 48 9) (.replicate 16 7)
      (.replicate 48 5) (by decide) (by decide) (by decide)).2.2 (.inr (.inl rfl))
        fun v hv => of_decide_eq_true (List.all_eq_true.mp hle v hv)

end Imaging
