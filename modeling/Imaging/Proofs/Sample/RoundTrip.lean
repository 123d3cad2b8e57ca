/-
16-bit samples between buffers. Written and read again they come back, and so do bytes that are read and written again;
buffers of lengths that do not match are refused, and no others. A sample is the number that its two bytes form, the
first one counting 256 times, and that is also the number which a conversion reduces: its loop over pairs of bytes and
the reading of a whole buffer come to the same samples (`convert_words`).
-/
import Imaging.Proofs.Conversion.ReadBack
import Imaging.Proofs.Machine.Frame

namespace Imaging

theorem Outcome.result_requireLength_eq_error_iff {α : Type} {dst : Array α} {expected received : Nat}
    {write : Unit → Array α} {e : Refusal} :
    (guarded dst (requireLength expected received) write).result = .error e ↔
      received ≠ expected ∧ e = .length expected received := by
  by_cases h : expected = received
  · rw [requireLength, require_of h, guarded_ok]
    simp [written, h]
  · rw [requireLength, require_of_not h, guarded_error]
    simp [refused, Ne.symm h, eq_comm]

/-! ## Samples and their bytes -/

theorem BigEndian.toNat_decode {bytes : List UInt8} {i : Nat} (hi : 2 * i + 1 < bytes.length) :
    (decode bytes)[i]?.map UInt16.toNat = some (256 * bytes[2 * i].toNat + bytes[2 * i + 1].toNat) := by
  rw [getElem?_decode, List.getElem?_eq_getElem (show 2 * i < bytes.length by omega), List.getElem?_eq_getElem hi]
  exact congrArg some (toNat_join _ _)

section Buffers

variable {bytes : Array UInt8} {samples : Array UInt16}

theorem readSamples_writeSamples (hbytes : bytes.size = 2 * samples.size) {back : Array UInt16}
    (hback : back.size = samples.size) : readSamples (writeSamples samples bytes).dst back = .written samples := by
  have hlength : 2 * back.size = (BigEndian.encode samples.toList).toArray.size := by
    simp only [hback, List.size_toArray, BigEndian.length_encode, Array.length_toList]
  rw [writeSamples_eq hbytes.symm]
  change readSamples (BigEndian.encode samples.toList).toArray back = .written samples
  rw [readSamples_eq hlength, BigEndian.decode_encode, Array.toArray_toList]

theorem writeSamples_readSamples (hbytes : bytes.size = 2 * samples.size) {back : Array UInt8}
    (hback : back.size = bytes.size) : writeSamples (readSamples bytes samples).dst back = .written bytes := by
  have heven : bytes.toList.length % 2 = 0 := by
    rw [Array.length_toList]
    omega
  have hlength : 2 * (BigEndian.decode bytes.toList).toArray.size = back.size := by
    rw [List.size_toArray, BigEndian.length_decode, Array.length_toList]
    omega
  rw [readSamples_eq hbytes.symm]
  change writeSamples (BigEndian.decode bytes.toList).toArray back = .written bytes
  rw [writeSamples_eq hlength, BigEndian.encode_decode heven, Array.toArray_toList]

end Buffers

/-- **16-bit samples lose nothing in bytes.** Between buffers of matching lengths, writing and reading succeed and each
undoes the other, whatever the buffers that they write over held. Sample `i` is made of bytes `2 * i` and `2 * i + 1`, and
an accepted conversion to grey writes these very samples, reduced, also as a loop that fetches the two bytes by their
places. Buffers are refused where the bytes are not twice as many as the samples, and only there; doubling a number of
samples that memory can hold does not overflow. -/
theorem samples_roundTrip :
    (∀ (samples : Array UInt16) (bytes : Array UInt8), bytes.size = 2 * samples.size →
      let written := writeSamples samples bytes
      written.result = .ok () ∧
        ∀ back, back.size = samples.size → readSamples written.dst back = .written samples) ∧
    (∀ (bytes : Array UInt8) (samples : Array UInt16), bytes.size % 2 = 0 → samples.size = bytes.size / 2 →
      let read := readSamples bytes samples
      read.result = .ok () ∧
        (∀ back, back.size = bytes.size → writeSamples read.dst back = .written bytes) ∧
        (∀ i (_ : 2 * i + 1 < bytes.size),
          read.dst[i]?.map UInt16.toNat = some (256 * bytes[2 * i].toNat + bytes[2 * i + 1].toNat)) ∧
        ∀ (r : Request) mono, r.target = .mono8 → r.source = .mono16 ∨ r.source = .raw16 →
          (convert r bytes mono).result = .ok () →
            convert r bytes mono = .written (read.dst.map (reduce r.bits)) ∧
              Machine.convert r bytes mono = .ok (.written (read.dst.map (reduce r.bits)))) ∧
    ∀ (bytes : Array UInt8) (samples : Array UInt16),
      (∀ e, (readSamples bytes samples).result = .error e ↔
        bytes.size ≠ 2 * samples.size ∧ e = .length (2 * samples.size) bytes.size) ∧
      (∀ e, (writeSamples samples bytes).result = .error e ↔
        bytes.size ≠ 2 * samples.size ∧ e = .length (2 * samples.size) bytes.size) ∧
      (2 * samples.size < sizeLimit →
        Machine.readSamples bytes samples = .ok (readSamples bytes samples) ∧
          Machine.writeSamples samples bytes = .ok (writeSamples samples bytes)) := by
  refine ⟨?_, ?_, ?_⟩
  · intro samples bytes hbytes written
    refine ⟨?_, fun back hback => readSamples_writeSamples hbytes hback⟩
    exact congrArg Outcome.result (writeSamples_eq hbytes.symm)
  · intro bytes samples heven hsamples read
    have hbytes : bytes.size = 2 * samples.size := by omega
    have hread : read = .written (BigEndian.decode bytes.toList).toArray := readSamples_eq hbytes.symm
    refine ⟨by rw [hread]; rfl, fun back hback => writeSamples_readSamples hbytes hback, ?_, ?_⟩
    · intro i hi
      rw [hread]
      change (BigEndian.decode bytes.toList).toArray[i]?.map UInt16.toNat = _
      rw [List.getElem?_toArray, BigEndian.toNat_decode (by rw [Array.length_toList]; exact hi)]
      rfl
    · intro r mono htarget hsource hok
      have hconvert : convert r bytes mono = .written (read.dst.map (reduce r.bits)) := by
        rw [hread]
        exact convert_words htarget hsource hok
      exact ⟨hconvert, by rw [Machine.convert_eq, hconvert]⟩
  · intro bytes samples
    refine ⟨fun e => Outcome.result_requireLength_eq_error_iff, fun e => Outcome.result_requireLength_eq_error_iff, ?_⟩
    intro hlimit
    exact ⟨Machine.readSamples_eq hlimit, Machine.writeSamples_eq hlimit⟩

/-- two samples of sixteen bits, there and back, and as grey levels of twelve -/
theorem samples_roundTrip_pair :
    let samples : Array UInt16 := #[291, 65280]
    let bytes : Array UInt8 := #[1, 35, 255, 0]
    let read := readSamples bytes (.replicate 2 5)
    let r : Request := { source := .raw16, target := .mono8, width := 2, height := 1, order := .uyvy, bits := 12 }
    readSamples (writeSamples samples (.replicate 4 9)).dst (.replicate 2 5) = .written samples ∧
      writeSamples read.dst (.replicate 4 9) = .written bytes ∧
      read.dst[1]?.map UInt16.toNat = some (256 * 255 + 0) ∧
      convert r bytes (.replicate 2 7) = .written (read.dst.map (reduce 12)) ∧
      (readSamples #[1, 35, 255] samples).result = .error (.length 4 3) ∧
      Machine.writeSamples samples bytes = .ok (writeSamples samples bytes) := by
  intro samples bytes read r
  obtain ⟨hwrite, hread, hlengths⟩ := samples_roundTrip
  obtain ⟨_, hbytes, hvalues, hreduced⟩ := hread bytes (.replicate 2 5) (by decide) (by decide)
  have haccepted : (convert r bytes (.replicate 2 7)).result = .ok () := Request.accepted_iff.mpr (by decide)
  refine ⟨(hwrite samples (.replicate 4 9) rfl).2 _ rfl, hbytes _ rfl, hvalues 1 (by decide), ?_, ?_, ?_⟩
  · exact (hreduced r _ rfl (.inr rfl) haccepted).1
  · exact ((hlengths #[1, 35, 255] samples).1 _).mpr ⟨by decide, rfl⟩
  · exact ((hlengths bytes samples).2.2 (by decide)).2

end Imaging
