/-
The range of 16-bit colours. Every store of a pass clamps, and every channel of every pixel is stored or cleared, so a
decoded image of `bits` significant bits has no sample above `2 ^ bits - 1`, also where the mosaic itself is far above
(`Depth.rebuild_le`). A reduction to bytes saturates above that ceiling alone (`toNat_reduce_of_le`), so where it
follows a decoding it is a plain division: `decode_range`.
-/
import Imaging.Proofs.Frame.Widths

namespace Imaging

theorem toNat_reduce_of_le {bits : Nat} (hdepth : ValidDepth bits) {v : UInt16} (h : v.toNat ≤ ceiling bits) :
    (reduce bits v).toNat = v.toNat / 2 ^ (bits - 8) := by
  have hpow := hdepth.two_pow_eq
  have hpos : 0 < 2 ^ bits := Nat.pow_pos (by decide)
  have hquotient : v.toNat / 2 ^ (bits - 8) < 256 := by
    refine Nat.div_lt_of_lt_mul ?_
    rw [ceiling_eq_pow] at h
    omega
  rw [reduce_eq, Nat.shiftRight_eq_div_pow]
  exact Nat.min_eq_left (Nat.le_of_lt_succ hquotient)

/-- a request for 16-bit colours succeeds at the depths that samples have, where its buffers fit -/
theorem decode16_eq_ok_iff {t : Tile} {k : Method} {w h bits : Nat} {src dst : Array UInt16} :
    (decode16 t k w h bits src dst).result = .ok () ↔ ValidDepth bits ∧ Fits k w h src dst := by
  by_cases hdepth : ValidDepth bits
  · refine ((Depth.word bits hdepth).result_eq_ok_iff t k w h src dst).trans ?_
    exact ⟨fun hfit => ⟨hdepth, hfit⟩, fun hboth => hboth.2⟩
  · rw [decode16, requireDepth, require_of_not hdepth, Outcome.provided_error]
    constructor
    · rintro ⟨⟩
    · intro hboth
      exact absurd hboth.1 hdepth

theorem decode16_le {t : Tile} {k : Method} {w h bits : Nat} {src dst : Array UInt16}
    (hok : (decode16 t k w h bits src dst).result = .ok ()) :
    ∀ v ∈ (decode16 t k w h bits src dst).dst, v.toNat ≤ ceiling bits := by
  obtain ⟨hdepth, hfit⟩ := decode16_eq_ok_iff.mp hok
  have hdecode := (Depth.word bits hdepth).decode_of_fits t hfit
  rw [Depth.decode] at hdecode
  rw [hdecode]
  exact (Depth.word bits hdepth).rebuild_le k t _

namespace Frame

variable {f : Frame} {t : Tile} {k : Method} {dst : Array UInt8}

/-- a frame of 16-bit samples that is demosaiced into bytes: its colours are decoded at its depth and each is reduced -/
theorem debayer_bytes (hcoding : f.coding = .raw16) (hfilter : f.filter = some t)
    (hok : (f.debayer .rgb8 k dst).result = .ok ()) {rgb : Array UInt16} (hsize : rgb.size = dst.size) :
    (decode16 t k f.width f.height f.depth f.samples rgb).result = .ok () ∧
      (f.debayer .rgb8 k dst).dst =
        (decode16 t k f.width f.height f.depth f.samples rgb).dst.map (reduce f.depth) := by
  have hraw : f.coding.isRaw = true := by rw [hcoding]; rfl
  have hrgb : Coding.rgb8.isRgb = true := rfl
  have hbits : f.bits = f.depth := by rw [bits, hcoding]; rfl
  have hway : f.debayer .rgb8 k dst = f.debayerWide t .rgb8 k dst := by
    rw [debayer_of_codings hfilter hraw hrgb, if_neg]
    rintro ⟨hbytes, _⟩
    rw [hcoding] at hbytes
    cases hbytes
  have hcheck : f.checkWide .rgb8 k dst.size = .ok () := by
    rw [← result_debayerWide hraw hrgb t, ← hway]
    exact hok
  have hpixels : rgb.size = 3 * ((k.outputSize f.width f.height).1 * (k.outputSize f.width f.height).2) := by
    have hlength := (Coding.bufferLength?_eq_some_iff.mp (checkWide_eq_ok_iff.mp hcheck).2.2.2).2
    simp only [Coding.bitsPerPixel] at hlength
    omega
  have hdecode := decode16_eq_rebuilt hraw hrgb hcheck t hpixels
  rw [hbits] at hdecode
  have hbytes : (wideBytes f.depth .rgb8 (f.rebuilt t k)).toArray = (f.rebuilt t k).map (reduce f.depth) := by
    rw [wideBytes, if_neg (by decide), ← Array.toList_map, Array.toArray_toList]
  rw [hway, debayerWide_of_check hraw hrgb hcheck t, hdecode, hbits]
  exact ⟨rfl, hbytes⟩

end Frame

/-- **The range of decoded colours.** Decoding at a depth succeeds where depth and buffers fit, and then leaves no
sample above the largest one of the depth, whatever the mosaic and the destination held. So the reduction that follows
it, in a frame of 16-bit samples that becomes an image of bytes, never saturates: each byte is the decoded sample
divided by the power of two that the depth has above a byte, rounded down. -/
theorem decode_range (t : Tile) (k : Method) :
    (∀ (w h bits : Nat) (src dst : Array UInt16),
      let decoded := decode16 t k w h bits src dst
      (decoded.result = .ok () ↔ ValidDepth bits ∧ Fits k w h src dst) ∧
        (decoded.result = .ok () → ∀ v ∈ decoded.dst, v.toNat ≤ 2 ^ bits - 1)) ∧
    ∀ (f : Frame) (dst : Array UInt8) (rgb : Array UInt16), f.coding = .raw16 → f.filter = some t →
      (f.debayer .rgb8 k dst).result = .ok () → rgb.size = dst.size →
        let decoded := decode16 t k f.width f.height f.depth f.samples rgb
        decoded.result = .ok () ∧
          (f.debayer .rgb8 k dst).dst.map UInt8.toNat = decoded.dst.map fun v => v.toNat / 2 ^ (f.depth - 8) := by
  refine ⟨?_, ?_⟩
  · intro w h bits src dst decoded
    refine ⟨decode16_eq_ok_iff, fun hok v hv => ?_⟩
    rw [← ceiling_eq_pow]
    exact decode16_le hok v hv
  · intro f dst rgb hcoding hfilter hok hsize decoded
    obtain ⟨hdecoded, hbytes⟩ := Frame.debayer_bytes hcoding hfilter hok hsize
    have hdepth := (decode16_eq_ok_iff.mp hdecoded).1
    refine ⟨hdecoded, ?_⟩
    rw [hbytes, Array.map_map]
    refine Array.map_congr_left fun v hv => ?_
    exact toNat_reduce_of_le hdepth (decode16_le hdecoded v hv)

/-- samples of 16 bits, most of them far above a depth of 10, decoded at that depth and reduced -/
theorem decode_range_bright :
    let f : Frame :=
      { image := .ofFn fun place : Fin 72 => UInt8.ofNat (37 * place)
        width := 6
        height := 6
        coding := .raw16
        depth := 10
        filter := some .gbrg }
    let decoded := decode16 .gbrg .hqLinear 6 6 10 f.samples (.replicate 108 9)
    (∀ v ∈ decoded.dst, v.toNat ≤ 2 ^ 10 - 1) ∧
      (f.debayer .rgb8 .hqLinear (.replicate 108 7)).dst.map UInt8.toNat =
        decoded.dst.map fun v => v.toNat / 2 ^ (10 - 8) := by
  intro f decoded
  have hok : (f.debayer .rgb8 .hqLinear (.replicate 108 7)).result = .ok () := by
    rw [Frame.debayer_of_codings rfl rfl rfl, if_neg (by decide), Frame.result_debayerWide rfl rfl]
    exact Frame.checkWide_eq_ok_iff.mpr (by decide +kernel)
  obtain ⟨hrange, hreduced⟩ := decode_range .gbrg .hqLinear
  obtain ⟨hdecoded, hbytes⟩ := hreduced f (.replicate 108 7) (.replicate 108 9) rfl rfl hok rfl
  exact ⟨(hrange 6 6 10 f.samples (.replicate 108 9)).2 hdecoded, hbytes⟩

end Imaging
