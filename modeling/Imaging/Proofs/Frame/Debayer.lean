/-
Demosaicing between sample widths. A frame of 16-bit samples, or one that is to become an image of such, is read into a
buffer, demosaiced there and written out again: three inner requests, each with checks of its own. The frame's own
checks leave these nothing to refuse (`debayerWide_of_check`), so no request fails after it has begun to write, and the
frame's checks alone decide (`result_debayerWide`).
-/
import Imaging.Frame
import Imaging.Proofs.Demosaic.Depth

namespace Imaging

/-! ## Samples in byte buffers -/

theorem readSamples_eq {src : Array UInt8} {dst : Array UInt16} (h : 2 * dst.size = src.size) :
    readSamples src dst = .written (BigEndian.decode src.toList).toArray := by
  have hlength : (BigEndian.decode src.toList).length = dst.size := by
    rw [BigEndian.length_decode, Array.length_toList]
    omega
  rw [readSamples, requireLength, require_of h, Outcome.guarded_ok, overwrite_eq hlength]

theorem writeSamples_eq {src : Array UInt16} {dst : Array UInt8} (h : 2 * src.size = dst.size) :
    writeSamples src dst = .written (BigEndian.encode src.toList).toArray := by
  have hlength : (BigEndian.encode src.toList).length = dst.size := by
    rw [BigEndian.length_encode, Array.length_toList, h]
  rw [writeSamples, requireLength, require_of h, Outcome.guarded_ok, overwrite_eq hlength]

/-! ## Through 16-bit buffers -/

namespace Coding

theorem bitsPerPixel_of_isRaw {c : Coding} (h : c.isRaw = true) : c.bitsPerPixel = c.sampleBits := by
  cases c <;> first | rfl | cases h

theorem bitsPerPixel_of_isRgb {c : Coding} (h : c.isRgb = true) : c.bitsPerPixel = 3 * c.sampleBits := by
  cases c <;> first | rfl | cases h

theorem sampleBits_of_ne {c : Coding} (h : c.sampleBits ≠ 16) : c.sampleBits = 8 := by
  cases c <;> first | rfl | exact absurd rfl h

end Coding

namespace Frame

variable {f : Frame} {t : Tile} {target : Coding} {k : Method}

theorem checkWide_eq_ok_iff {dstLength : Nat} :
    f.checkWide target k dstLength = .ok () ↔
      WholeTiles f.width f.height ∧ ValidDepth f.bits ∧
        f.coding.bufferLength? f.width f.height = some f.image.size ∧
          target.bufferLength? (k.outputSize f.width f.height).1 (k.outputSize f.width f.height).2 = some dstLength := by
  simp only [checkWide, requireDepth, bind_eq_ok_iff, require_eq_ok_iff, requireSome_eq_ok_iff, requireLength_eq_ok_iff]
  constructor
  · intro hchecks
    obtain ⟨_, htiles, _, hbits, src, hsrc, dst, hdst, _, rfl, rfl⟩ := hchecks
    exact ⟨htiles, hbits, hsrc, hdst⟩
  · intro hfacts
    obtain ⟨htiles, hbits, hsrc, hdst⟩ := hfacts
    exact ⟨(), htiles, (), hbits, _, hsrc, _, hdst, (), rfl, rfl⟩

/-- the samples of a raw frame, 16 bits wide -/
def samples (f : Frame) : Array UInt16 :=
  if f.coding.sampleBits = 16 then (BigEndian.decode f.image.toList).toArray else f.image.map UInt8.toUInt16

/-- colour samples in the sample width of a coding -/
def wideBytes (bits : Nat) (target : Coding) (rgb : Array UInt16) : List UInt8 :=
  if target.sampleBits = 16 then BigEndian.encode rgb.toList else rgb.toList.map (reduce bits)

/-- a buffer for the colour samples of a frame -/
def blank (f : Frame) (k : Method) : Array UInt16 :=
  .replicate (3 * ((k.outputSize f.width f.height).1 * (k.outputSize f.width f.height).2)) 0

theorem size_samples (hraw : f.coding.isRaw = true)
    (hsrc : f.coding.bufferLength? f.width f.height = some f.image.size) : f.samples.size = f.width * f.height := by
  have hbits := (Coding.bufferLength?_eq_some_iff.mp hsrc).2
  rw [Coding.bitsPerPixel_of_isRaw hraw] at hbits
  by_cases hwide : f.coding.sampleBits = 16
  · rw [samples, if_pos hwide, List.size_toArray, BigEndian.length_decode, Array.length_toList]
    rw [hwide] at hbits
    omega
  · rw [samples, if_neg hwide, Array.size_map]
    rw [Coding.sampleBits_of_ne hwide] at hbits
    omega

theorem wideSamples_eq (hraw : f.coding.isRaw = true)
    (hsrc : f.coding.bufferLength? f.width f.height = some f.image.size) : f.wideSamples = .written f.samples := by
  have hbits := (Coding.bufferLength?_eq_some_iff.mp hsrc).2
  rw [Coding.bitsPerPixel_of_isRaw hraw] at hbits
  by_cases hwide : f.coding.sampleBits = 16
  · rw [hwide] at hbits
    have hlength : 2 * (Array.replicate (f.width * f.height) (0 : UInt16)).size = f.image.size := by
      rw [Array.size_replicate]
      omega
    rw [wideSamples, if_pos hwide, readSamples_eq hlength, samples, if_pos hwide]
  · rw [wideSamples, if_neg hwide, samples, if_neg hwide]

/-- demosaicing its samples is not refused -/
theorem fits_samples (hraw : f.coding.isRaw = true) (hrgb : target.isRgb = true) {dstLength : Nat}
    (hcheck : f.checkWide target k dstLength = .ok ()) : Fits k f.width f.height f.samples (f.blank k) := by
  obtain ⟨htiles, _, hsrc, hdst⟩ := checkWide_eq_ok_iff.mp hcheck
  have hsize := size_samples hraw hsrc
  have hsrc_lt := (Coding.bufferLength?_eq_some_iff.mp hsrc).1
  have hdst_lt := (Coding.bufferLength?_eq_some_iff.mp hdst).1
  rw [Coding.bitsPerPixel_of_isRaw hraw] at hsrc_lt
  rw [Coding.bitsPerPixel_of_isRgb hrgb] at hdst_lt
  refine ⟨htiles, hsize, Array.size_replicate, ?_, ?_⟩
  · rw [hsize]
    by_cases hwide : f.coding.sampleBits = 16
    · rw [hwide] at hsrc_lt
      omega
    · rw [Coding.sampleBits_of_ne hwide] at hsrc_lt
      omega
  · rw [blank, Array.size_replicate]
    by_cases hwide : target.sampleBits = 16
    · rw [hwide] at hdst_lt
      omega
    · rw [Coding.sampleBits_of_ne hwide] at hdst_lt
      omega

/-- the colour samples that it gives -/
def rebuilt (f : Frame) (t : Tile) (k : Method) : Array UInt16 :=
  (decode16 t k f.width f.height f.bits f.samples (f.blank k)).dst

theorem decode16_samples (hraw : f.coding.isRaw = true) (hrgb : target.isRgb = true) {dstLength : Nat}
    (hcheck : f.checkWide target k dstLength = .ok ()) (t : Tile) :
    decode16 t k f.width f.height f.bits f.samples (f.blank k) = .written (f.rebuilt t k) ∧
      (f.rebuilt t k).size = 3 * ((k.outputSize f.width f.height).1 * (k.outputSize f.width f.height).2) := by
  obtain ⟨_, hbits, _, _⟩ := checkWide_eq_ok_iff.mp hcheck
  have hfit := fits_samples hraw hrgb hcheck
  have hdecode := (Depth.word f.bits hbits).decode_of_fits t hfit
  rw [Depth.decode] at hdecode
  rw [rebuilt, hdecode]
  exact ⟨rfl, Depth.size_rebuild _ k t _⟩

theorem length_wideBytes (hrgb : target.isRgb = true) {w h n : Nat} (hdst : target.bufferLength? w h = some n)
    {rgb : Array UInt16} (hsize : rgb.size = 3 * (w * h)) (bits : Nat) : (wideBytes bits target rgb).length = n := by
  have hbits := (Coding.bufferLength?_eq_some_iff.mp hdst).2
  rw [Coding.bitsPerPixel_of_isRgb hrgb] at hbits
  by_cases hwide : target.sampleBits = 16
  · rw [wideBytes, if_pos hwide, BigEndian.length_encode, Array.length_toList]
    rw [hwide] at hbits
    omega
  · rw [wideBytes, if_neg hwide, List.length_map, Array.length_toList]
    rw [Coding.sampleBits_of_ne hwide] at hbits
    omega

theorem writeWide_eq {bits : Nat} {rgb : Array UInt16} {dst : Array UInt8}
    (hlength : (wideBytes bits target rgb).length = dst.size) :
    writeWide bits target rgb dst = .written (wideBytes bits target rgb).toArray := by
  by_cases hwide : target.sampleBits = 16
  · rw [wideBytes, if_pos hwide] at hlength ⊢
    have hdst : 2 * rgb.size = dst.size := by
      rw [← hlength, BigEndian.length_encode, Array.length_toList]
    rw [writeWide, if_pos hwide, writeSamples_eq hdst]
  · rw [wideBytes, if_neg hwide] at hlength ⊢
    rw [writeWide, if_neg hwide, overwrite_eq hlength]

/-- **Nothing is refused late.** Once the frame's own checks have passed, the destination becomes the rebuilt image. -/
theorem debayerWide_of_check (hraw : f.coding.isRaw = true) (hrgb : target.isRgb = true) {dst : Array UInt8}
    (hcheck : f.checkWide target k dst.size = .ok ()) (t : Tile) :
    f.debayerWide t target k dst = .written (wideBytes f.bits target (f.rebuilt t k)).toArray := by
  obtain ⟨_, _, hsrc, hdst⟩ := checkWide_eq_ok_iff.mp hcheck
  obtain ⟨hdecode, hsize⟩ := decode16_samples hraw hrgb hcheck t
  have hlength := length_wideBytes hrgb hdst hsize f.bits
  rw [debayerWide, hcheck, Outcome.provided_ok, wideSamples_eq hraw hsrc, Outcome.andThen_written]
  change (decode16 t k f.width f.height f.bits f.samples (f.blank k)).andThen dst _ = _
  rw [hdecode, Outcome.andThen_written, writeWide_eq hlength]

/-- the direct way is taken from bytes to bytes, and the way through 16-bit buffers by all other pairs -/
theorem debayer_of_codings (hfilter : f.filter = some t) (hraw : f.coding.isRaw = true) (hrgb : target.isRgb = true)
    (k : Method) (dst : Array UInt8) :
    f.debayer target k dst =
      if f.coding = .raw8 ∧ target = .rgb8 then decode8 t k f.width f.height f.image dst
      else f.debayerWide t target k dst := by
  rw [debayer, hfilter]
  exact if_neg fun h => h ⟨hraw, hrgb⟩

/-- the frame's own checks decide whether a request is refused, and why -/
theorem result_debayerWide (hraw : f.coding.isRaw = true) (hrgb : target.isRgb = true) (t : Tile) (dst : Array UInt8) :
    (f.debayerWide t target k dst).result = f.checkWide target k dst.size := by
  cases hcheck : f.checkWide target k dst.size with
  | error e => rw [debayerWide, hcheck, Outcome.provided_error]; rfl
  | ok _ => rw [debayerWide_of_check hraw hrgb hcheck t]; rfl

end Frame

end Imaging
