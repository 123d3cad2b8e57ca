/-
How many pixels and bytes a conversion handles. A source of an accepted size holds a whole number of groups and is read
without a remainder, so it gives one pixel for each place of the image (`length_unpack`), and writing these fills a
destination of the expected length exactly (`length_output`).
-/
import Imaging.Conversion

namespace Imaging

/-- rows of whole groups make an image of whole groups -/
theorem area_mod {w n : Nat} (hw : w % n = 0) (h : Nat) : w * h % n = 0 := by
  rw [Nat.mul_mod, hw, Nat.zero_mul, Nat.zero_mod]

theorem length_narrow {c : Coding} (hc : c.sampleBits = 16) (bits : Nat) (bytes : List UInt8) :
    (narrow c bits bytes).length = bytes.length / 2 := by
  rw [narrow, if_pos hc, List.length_map, BigEndian.length_decode]

theorem narrow_of_bytes {c : Coding} (hc : c.sampleBits ≠ 16) (bits : Nat) (bytes : List UInt8) :
    narrow c bits bytes = bytes := if_neg hc

theorem Pixel.length_unpack {c : Coding} (hc : c.isSigned = false) {w h : Nat} {bytes : List UInt8}
    (hlength : c.bufferLength? w h = some bytes.length) (h₄ : c = .yuv411 → w % 4 = 0) (h₂ : c = .yuv422 → w % 2 = 0)
    (order : ByteOrder) (bits : Nat) : (unpack c order bits bytes).length = w * h := by
  have hbits := (Coding.bufferLength?_eq_some_iff.mp hlength).2
  cases c with
  | mono8 | raw8 =>
    rw [unpack, length_ofLuma, narrow_of_bytes (by decide)]
    simp only [Coding.bitsPerPixel] at hbits
    omega
  | mono16 | raw16 =>
    rw [unpack, length_ofLuma, length_narrow rfl]
    simp only [Coding.bitsPerPixel] at hbits
    omega
  | rgb8 =>
    rw [unpack, length_ofRgb, narrow_of_bytes (by decide)]
    simp only [Coding.bitsPerPixel] at hbits
    omega
  | rgb16 =>
    rw [unpack, length_ofRgb, length_narrow rfl]
    simp only [Coding.bitsPerPixel] at hbits
    omega
  | yuv444 =>
    rw [unpack, length_ofYuv444]
    simp only [Coding.bitsPerPixel] at hbits
    omega
  | yuv422 =>
    have hpairs := area_mod (h₂ rfl) h
    rw [unpack, length_ofYuv422]
    simp only [Coding.bitsPerPixel] at hbits
    omega
  | yuv411 =>
    have hgroups := area_mod (h₄ rfl) h
    rw [unpack, length_ofYuv411]
    simp only [Coding.bitsPerPixel] at hbits
    omega
  | mono16s | rgb16s => cases hc

namespace Request

/-- an accepted source has one pixel for each place -/
theorem length_pixels {r : Request} {dstLength : Nat} {bytes : List UInt8}
    (hcheck : r.check bytes.length dstLength = .ok ()) :
    (Pixel.unpack r.source r.sourceOrder r.bits bytes).length = r.width * r.height := by
  obtain ⟨htarget, ⟨_, _, h₄, h₂, _⟩, _, hsrc, _⟩ := check_eq_ok_iff.mp hcheck
  exact Pixel.length_unpack htarget.1 hsrc h₄ h₂ r.sourceOrder r.bits

/-- **An accepted request fills its destination:** the converted image has the length of the buffer. -/
theorem length_output {r : Request} {dstLength : Nat} {bytes : List UInt8}
    (hcheck : r.check bytes.length dstLength = .ok ()) : (r.output bytes).length = dstLength := by
  obtain ⟨_, _, _, _, hdst⟩ := check_eq_ok_iff.mp hcheck
  have hpixels := length_pixels hcheck
  have hbits := (Coding.bufferLength?_eq_some_iff.mp hdst).2
  rw [output]
  cases ht : r.target with
  | yuv422 =>
    simp only [Target.coding, Coding.bitsPerPixel, paddedWidth, ht] at hbits
    rw [Pixel.length_packRows hpixels]
    omega
  | mono8 =>
    simp only [Target.coding, Coding.bitsPerPixel, paddedWidth, ht] at hbits
    rw [Pixel.length_packMono8, hpixels]
    omega
  | rgb8 =>
    simp only [Target.coding, Coding.bitsPerPixel, paddedWidth, ht] at hbits
    rw [Pixel.length_packRgb8, hpixels]
    omega

end Request

end Imaging
