/-
Sample buffers and whole frames in machine words. What a frame's checks have passed bounds every product that follows
them: the sites of the mosaic, the samples of the colours, and the bytes that either is read from or written to. So the
requests between the buffers run as they do in exact arithmetic (`debayerFrame_eq`), and a frame is converted as it
should be (`convertFrame_eq`). Only a buffer of samples that a caller passes has a bound of its own: its bytes must be
countable.
-/
import Imaging.Machine.Frame
import Imaging.Proofs.Frame.Widths
import Imaging.Proofs.Machine.Conversion
import Imaging.Proofs.Machine.Demosaic

namespace Imaging.Machine

/-! ## Sample buffers -/

theorem readSamples_eq {src : Array UInt8} {dst : Array UInt16} (hlimit : 2 * dst.size < sizeLimit) :
    readSamples src dst = .ok (Imaging.readSamples src dst) := by
  rw [readSamples, mul_eq hlimit, ok_bind]
  by_cases hlength : 2 * dst.size = src.size
  · have hinto : decodeInto src.toList dst.toList = .ok (BigEndian.decode src.toList) := if_pos hlength.symm
    rw [if_neg (not_not_intro hlength.symm), hinto, ok_bind, Imaging.readSamples_eq hlength]
  · rw [if_pos (Ne.symm hlength), Imaging.readSamples, requireLength, require_of_not hlength, Outcome.guarded_error]

theorem writeSamples_eq {src : Array UInt16} {dst : Array UInt8} (hlimit : 2 * src.size < sizeLimit) :
    writeSamples src dst = .ok (Imaging.writeSamples src dst) := by
  rw [writeSamples, mul_eq hlimit, ok_bind]
  by_cases hlength : 2 * src.size = dst.size
  · have hinto : encodeInto src.toList dst.toList = .ok (BigEndian.encode src.toList) := if_pos hlength.symm
    rw [if_neg (not_not_intro hlength.symm), hinto, ok_bind, Imaging.writeSamples_eq hlength]
  · rw [if_pos (Ne.symm hlength), Imaging.writeSamples, requireLength, require_of_not hlength, Outcome.guarded_error]

/-! ## Demosaicing -/

variable {f : Frame} {target : Coding} {k : Method}

theorem checkWide_eq (f : Frame) (target : Coding) (k : Method) (dstLength : Nat) :
    checkWide f target k dstLength = f.checkWide target k dstLength := by
  simp only [checkWide, Frame.checkWide, bufferLength?_eq]

theorem wideSamples_eq (hraw : f.coding.isRaw = true)
    (hsrc : f.coding.bufferLength? f.width f.height = some f.image.size) :
    wideSamples f (.replicate (f.width * f.height) 0) = .ok f.wideSamples := by
  obtain ⟨hlimit, hbits⟩ := Coding.bufferLength?_eq_some_iff.mp hsrc
  rw [Coding.bitsPerPixel_of_isRaw hraw] at hlimit hbits
  by_cases hwide : f.coding.sampleBits = 16
  · rw [hwide] at hlimit
    rw [wideSamples, Frame.wideSamples, if_pos hwide, if_pos hwide]
    exact readSamples_eq (by rw [Array.size_replicate]; omega)
  · rw [Coding.sampleBits_of_ne hwide] at hbits
    have hlength : (Array.replicate (f.width * f.height) (0 : UInt16)).toList.length = f.image.toList.length := by
      rw [Array.length_toList, Array.size_replicate, Array.length_toList]
      omega
    have hfill : fill f.image.toList (Array.replicate (f.width * f.height) 0).toList (fun b => .ok b.toUInt16) =
        .ok (f.image.toList.flatMap fun b => [b.toUInt16]) := fill_eq hlength fun b _ => ⟨b.toUInt16, rfl, rfl⟩
    rw [wideSamples, Frame.wideSamples, if_neg hwide, if_neg hwide, hfill, ok_bind, ← List.map_eq_flatMap,
      ← Array.toList_map]

theorem writeWide_eq {bits : Nat} (hbits : ValidDepth bits) {rgb : Array UInt16} {dst : Array UInt8}
    (hlimit : 2 * rgb.size < sizeLimit) (hlength : (Frame.wideBytes bits target rgb).length = dst.size) :
    writeWide bits target rgb dst = .ok (Frame.writeWide bits target rgb dst) := by
  by_cases hwide : target.sampleBits = 16
  · rw [writeWide, Frame.writeWide, if_pos hwide, if_pos hwide]
    exact writeSamples_eq hlimit
  · have hplaces : dst.toList.length = rgb.toList.length := by
      rw [Frame.wideBytes, if_neg hwide, List.length_map] at hlength
      exact hlength.symm
    have hfill : fill rgb.toList dst.toList (reduce bits) = .ok (rgb.toList.flatMap fun v => [Imaging.reduce bits v]) :=
      fill_eq hplaces fun v _ => ⟨_, reduce_eq hbits v, rfl⟩
    rw [Frame.writeWide_eq hlength, Frame.wideBytes, if_neg hwide, writeWide, if_neg hwide, hfill, ok_bind,
      ← List.map_eq_flatMap]

theorem andThen_written {α β : Type} (buffer : Array β) (dst : Array α) (next : Array β → Run (Outcome α)) :
    andThen (.written buffer) dst next = next buffer := rfl

theorem outputSize_pos {w h : Nat} (htiles : WholeTiles w h) (k : Method) : 0 < (k.outputSize w h).2 := by
  obtain ⟨_, hh, _, _⟩ := htiles
  cases k <;> simp only [Method.outputSize] <;> omega

theorem throughSamples_eq (hraw : f.coding.isRaw = true) (hrgb : target.isRgb = true) {dst : Array UInt8}
    (hcheck : f.checkWide target k dst.size = .ok ()) (t : Tile) :
    throughSamples f t target k dst = .ok (f.debayerWide t target k dst) := by
  obtain ⟨htiles, hbits, hsrc, hdst⟩ := Frame.checkWide_eq_ok_iff.mp hcheck
  obtain ⟨hdecode, hsize⟩ := Frame.decode16_samples hraw hrgb hcheck t
  have hlength := Frame.length_wideBytes hrgb hdst hsize f.bits
  have hfit := Frame.fits_samples hraw hrgb hcheck
  have hsites : f.width * f.height < sizeLimit := hfit.src_size ▸ hfit.src_lt
  have hcolours : 6 * ((k.outputSize f.width f.height).1 * (k.outputSize f.width f.height).2) < sizeLimit := by
    have hlimit := (Coding.bufferLength?_eq_some_iff.mp hdst).1
    rw [Coding.bitsPerPixel_of_isRgb hrgb] at hlimit
    by_cases hwide : target.sampleBits = 16
    · rw [hwide] at hlimit
      omega
    · rw [Coding.sampleBits_of_ne hwide] at hlimit
      omega
  have hrow := Nat.le_mul_of_pos_right (3 * (k.outputSize f.width f.height).1) (outputSize_pos htiles k)
  rw [Nat.mul_assoc] at hrow
  have hblank : Array.replicate (3 * (k.outputSize f.width f.height).1 * (k.outputSize f.width f.height).2) 0 =
      f.blank k := by
    rw [Nat.mul_assoc, Frame.blank]
  simp only [throughSamples]
  rw [mul_eq hsites, ok_bind, wideSamples_eq hraw hsrc, ok_bind, Frame.wideSamples_eq hraw hsrc, andThen_written,
    mul_eq (by omega), ok_bind, mul_eq (by rw [Nat.mul_assoc]; omega), ok_bind, hblank, decode16_eq, ok_bind, hdecode,
    andThen_written, writeWide_eq hbits (by omega) hlength, Frame.writeWide_eq hlength,
    Frame.debayerWide_of_check hraw hrgb hcheck]

/-- **Demosaicing a frame** runs without a fault and is exact. -/
theorem debayerFrame_eq (f : Frame) (target : Coding) (k : Method) (dst : Array UInt8) :
    debayerFrame f target k dst = .ok (f.debayer target k dst) := by
  unfold debayerFrame Frame.debayer
  cases f.filter with
  | none => rfl
  | some t =>
    by_cases hcodings : f.coding.isRaw = true ∧ target.isRgb = true
    · simp only [hcodings, and_self, not_true_eq_false, if_false]
      by_cases hdirect : f.coding = .raw8 ∧ target = .rgb8
      · rw [if_pos hdirect, if_pos hdirect, decode8_eq]
      · rw [if_neg hdirect, if_neg hdirect, checkWide_eq]
        cases hcheck : f.checkWide target k dst.size with
        | error e => simp only [Frame.debayerWide, hcheck, Outcome.provided_error]
        | ok _ => exact throughSamples_eq hcodings.1 hcodings.2 hcheck t
    · simp only [hcodings, not_false_eq_true, if_true]

/-! ## Choosing the way -/

/-- **Conversion of a frame** runs without a fault and is exact. -/
theorem convertFrame_eq (f : Frame) (target : Coding) (o : Options) (dst : Array UInt8) :
    convertFrame f target o dst = .ok (f.convert target o dst) := by
  unfold convertFrame Frame.convert
  split
  · exact debayerFrame_eq f target o.method dst
  · cases Target.ofCoding? target with
    | some t => exact convert_eq (f.request t o.order) f.image dst
    | none => rfl

/-- **Splitting a stereo frame** runs without a fault and is exact. -/
theorem splitStereoFrame_eq (f : Frame) (target : Coding) (dst : Array UInt8) :
    splitStereoFrame f target dst = .ok (f.splitStereo target dst) := by
  unfold splitStereoFrame Frame.splitStereo
  split
  · exact splitStereo_eq f.width f.height f.image dst
  · rfl

end Imaging.Machine
