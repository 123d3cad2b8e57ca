/-
No request faults. A run in machine words returns a value only if every operation on its way kept within bounds: places
and ranges within slices, copies between slices of one length, chunks that are not empty, products, sums and differences
of sizes within 64 bits, shifts by fewer bits than a word has, and colour arithmetic within 32 bits. `runs_without_fault`
says that each of these functions returns one, whatever its arguments, and that it is the one of exact arithmetic:
- `convert`, for its three targets, and the transforms of one colour, `toYuv` and `toRgb`;
- `decode8` and `decode16`, for all six methods;
- `splitStereo`;
- `readSamples` and `writeSamples`;
- `convertFrame`, `debayerFrame` and `splitStereoFrame`.

What protects a run is the order of its steps: every request makes its checks first, and these leave nothing for an
operation to find. The helpers for single samples check nothing, and no statement here covers them by themselves. Called
directly, `maxValue` faults above 30 bits and `reduce` below 8 or above 39; a clamp would fault at a negative ceiling,
which a natural number leaves out.
-/
import Imaging.Proofs.Machine.Frame

namespace Imaging.Machine

/-- one more than the bytes that a buffer in memory can have, whatever its elements -/
def memoryLimit : Nat := sizeLimit / 2

/-- **Without a fault.** Conversion, both colour transforms, demosaicing of bytes and of 16-bit samples, splitting of a
stereo image, reading and writing of sample buffers, and the three requests for frames run to their end for all
arguments: all widths, heights, depths and buffers that memory can hold. The helpers for single samples, `reduce`,
`maxValue` and the clamp, are covered as these functions call them and not by themselves. -/
theorem runs_without_fault :
    (∀ r src dst, convert r src dst = .ok (Imaging.convert r src dst)) ∧
      (∀ p, toYuv p = .ok p.toYuv) ∧
      (∀ p, toRgb p = .ok p.toRgb) ∧
      (∀ t k w h src dst, decode8 t k w h src dst = .ok (Imaging.decode8 t k w h src dst)) ∧
      (∀ t k w h bits src dst, decode16 t k w h bits src dst = .ok (Imaging.decode16 t k w h bits src dst)) ∧
      (∀ w h src dst, splitStereo w h src dst = .ok (Imaging.splitStereo w h src dst)) ∧
      (∀ src (dst : Array UInt16), 2 * dst.size < memoryLimit → readSamples src dst = .ok (Imaging.readSamples src dst)) ∧
      (∀ (src : Array UInt16) dst, 2 * src.size < memoryLimit → writeSamples src dst = .ok (Imaging.writeSamples src dst)) ∧
      (∀ f target o dst, convertFrame f target o dst = .ok (f.convert target o dst)) ∧
      (∀ f target k dst, debayerFrame f target k dst = .ok (f.debayer target k dst)) ∧
      ∀ f target dst, splitStereoFrame f target dst = .ok (f.splitStereo target dst) := by
  have hmemory {n : Nat} (h : n < memoryLimit) : n < sizeLimit := Nat.lt_trans h (by decide)
  refine ⟨convert_eq, toYuv_eq, toRgb_eq, decode8_eq, decode16_eq, splitStereo_eq, ?_, ?_, convertFrame_eq, debayerFrame_eq,
    splitStereoFrame_eq⟩
  · intro src dst hlength
    exact readSamples_eq (hmemory hlength)
  · intro src dst hlength
    exact writeSamples_eq (hmemory hlength)

/-- samples of all their bits, read and written -/
theorem runs_without_fault_samples :
    2 * (#[0, 0] : Array UInt16).size < memoryLimit ∧
      readSamples #[1, 35, 255, 255] #[0, 0] = .ok (.written #[291, 65535]) ∧
      writeSamples #[291, 65535] #[0, 0, 0, 0] = .ok (.written #[1, 35, 255, 255]) := by
  obtain ⟨_, _, _, _, _, _, hread, hwrite, _⟩ := runs_without_fault
  refine ⟨by decide, ?_, ?_⟩
  · rw [hread #[1, 35, 255, 255] #[0, 0] (by decide)]
    rfl
  · rw [hwrite #[291, 65535] #[0, 0, 0, 0] (by decide)]
    rfl

-- a negative shift, and a shift past the sign bit: depths that every request refuses before
example : reduce 7 291 = .error .overflow ∧ (maxValue 31).run = .error .overflow := ⟨rfl, rfl⟩

end Imaging.Machine
