/-
Which frames can be demosaiced, and what the others are told. `Frame.requirements` lists the conditions in exact
arithmetic, in the order in which they are checked; the direct way, from bytes to bytes, and the way through 16-bit
buffers look at lengths in different orders and units, and the list says where. `debayer_validation` says that the list
decides every request, and that past the frame's own checks none of the inner requests is refused.
-/
import Imaging.Proofs.Frame.Debayer
import Imaging.Proofs.Verdict

namespace Imaging

namespace DecidedBy

variable {reqs : List Requirement} {w h : Nat} {buffer : Array Nat}

/-- a view over a buffer in front of the rest: the length that its size asks for, then the length of the buffer -/
theorem view {α : Type} {small fits : Prop} [Decidable small] [Decidable fits] {large mismatch : Refusal}
    {view : fits → α} {next : α → Except Refusal Unit} (hnext : ∀ a, DecidedBy (next a) reqs) :
    DecidedBy ((if ¬small then .error large else if h : fits then .ok (view h) else .error mismatch) >>= next)
      ({ holds := small, refusal := large } :: { holds := fits, refusal := mismatch } :: reqs) := by
  refine cons (fun hsmall => ?_) fun hsmall => cons (fun hfits => ?_) fun hfits => ?_
  · change ¬small at hsmall
    rw [if_pos hsmall]
    rfl
  · change small at hsmall
    change ¬fits at hfits
    rw [if_neg (not_not_intro hsmall), dif_neg hfits]
    rfl
  · change small at hsmall
    change fits at hfits
    rw [if_neg (not_not_intro hsmall), dif_pos hfits]
    exact hnext _

theorem mosaic {next : Mosaic → Except Refusal Unit} (hnext : ∀ m, DecidedBy (next m) reqs) :
    DecidedBy (Mosaic.ofBuffer w h buffer >>= next)
      ({ holds := w * h < sizeLimit, refusal := .dimensions w h } ::
        { holds := buffer.size = w * h, refusal := .length (w * h) buffer.size } :: reqs) := view hnext

theorem raster {ceiling : Nat} {next : Raster → Except Refusal Unit} (hnext : ∀ r, DecidedBy (next r) reqs) :
    DecidedBy (Raster.ofBuffer w h ceiling buffer >>= next)
      ({ holds := 3 * (w * h) < sizeLimit, refusal := .dimensions w h } ::
        { holds := buffer.size = 3 * (w * h), refusal := .length (3 * (w * h)) buffer.size } :: reqs) := view hnext

end DecidedBy

/-- the bytes of a raw sample or of a sample of a colour image -/
def Coding.sampleBytes (c : Coding) : Nat := if c = .raw16 ∨ c = .rgb16 then 2 else 1

namespace Frame

variable {f : Frame} {t : Tile} {target : Coding} {k : Method} {dst : Array UInt8}

/-- what is asked of the sides of a mosaic -/
def wholeTiles (f : Frame) : Requirement where
  holds := (2 ≤ f.width ∧ 2 ∣ f.width) ∧ 2 ≤ f.height ∧ 2 ∣ f.height
  refusal := .dimensions f.width f.height

/-- what is asked of the depth, of 16-bit samples alone -/
def knownDepth (f : Frame) : Requirement where
  holds := f.coding = .raw16 → 8 ≤ f.depth ∧ f.depth ≤ 16
  refusal := .parameter .bitDepth

/-- what the direct way asks of the lengths: each sum is looked at, and then the buffer that it is the length of -/
def directLengths (f : Frame) (k : Method) (dstLength : Nat) : List Requirement :=
  let w := f.width
  let h := f.height
  let out := k.outputSize w h
  [{ holds := w * h < sizeLimit
     refusal := .dimensions w h },
   { holds := f.image.size = w * h
     refusal := .length (w * h) f.image.size },
   { holds := 3 * (out.1 * out.2) < sizeLimit
     refusal := .dimensions out.1 out.2 },
   { holds := dstLength = 3 * (out.1 * out.2)
     refusal := .length (3 * (out.1 * out.2)) dstLength }]

/-- what the way through 16-bit buffers asks of the lengths: first both sums, which count bits, then both buffers -/
def wideLengths (f : Frame) (target : Coding) (k : Method) (dstLength : Nat) : List Requirement :=
  let w := f.width
  let h := f.height
  let out := k.outputSize w h
  [{ holds := w * h * f.coding.bitsPerPixel < sizeLimit
     refusal := .dimensions w h },
   { holds := out.1 * out.2 * target.bitsPerPixel < sizeLimit
     refusal := .dimensions w h },
   { holds := f.image.size = w * h * f.coding.sampleBytes
     refusal := .length (w * h * f.coding.sampleBytes) f.image.size },
   { holds := dstLength = 3 * (out.1 * out.2) * target.sampleBytes
     refusal := .length (3 * (out.1 * out.2) * target.sampleBytes) dstLength }]

/-- what demosaicing a frame asks for, in the order in which it is checked -/
def requirements (f : Frame) (target : Coding) (k : Method) (dstLength : Nat) : List Requirement :=
  { holds := f.filter.isSome = true
    refusal := .parameter .colourFilter } ::
  { holds := (f.coding = .raw8 ∨ f.coding = .raw16) ∧ (target = .rgb8 ∨ target = .rgb16)
    refusal := .unsupported f.coding target } ::
  f.wholeTiles ::
  f.knownDepth ::
  if f.coding = .raw8 ∧ target = .rgb8 then f.directLengths k dstLength else f.wideLengths target k dstLength

theorem isRaw_iff {c : Coding} : c.isRaw = true ↔ c = .raw8 ∨ c = .raw16 := by
  cases c <;> decide

theorem isRgb_iff {c : Coding} : c.isRgb = true ↔ c = .rgb8 ∨ c = .rgb16 := by
  cases c <;> decide

theorem wholeTiles_iff {w h : Nat} : WholeTiles w h ↔ (2 ≤ w ∧ 2 ∣ w) ∧ 2 ≤ h ∧ 2 ∣ h := by
  simp only [WholeTiles, Nat.dvd_iff_mod_eq_zero]
  omega

/-- the depth that counts is that of the frame, for 16-bit samples alone -/
theorem validDepth_bits_iff (hraw : f.coding.isRaw = true) :
    ValidDepth f.bits ↔ (f.coding = .raw16 → 8 ≤ f.depth ∧ f.depth ≤ 16) := by
  rcases isRaw_iff.mp hraw with h | h <;> simp [bits, h, Coding.sampleBits, ValidDepth]

theorem bytes_raw {c : Coding} (hraw : c.isRaw = true) (n : Nat) : 8 * (n * c.sampleBytes) = n * c.bitsPerPixel := by
  rcases isRaw_iff.mp hraw with rfl | rfl <;> simp only [Coding.sampleBytes, Coding.bitsPerPixel] <;> simp <;> omega

theorem bytes_rgb {c : Coding} (hrgb : c.isRgb = true) (n : Nat) :
    8 * (3 * n * c.sampleBytes) = n * c.bitsPerPixel := by
  rcases isRgb_iff.mp hrgb with rfl | rfl <;> simp only [Coding.sampleBytes, Coding.bitsPerPixel] <;> simp <;> omega

theorem result_decode8 (t : Tile) (k : Method) (w h : Nat) (src dst : Array UInt8) :
    (decode8 t k w h src dst).result =
      (do
        require (WholeTiles w h) (.dimensions w h)
        let _ ← Mosaic.ofBuffer w h (src.map UInt8.toNat)
        let _ ← Raster.ofBuffer (k.outputSize w h).1 (k.outputSize w h).2 255 (dst.map UInt8.toNat)
        .ok ()) := by
  rw [decode8, Outcome.map, Demosaic.decode, Outcome.guarded_result, Demosaic.views]
  cases require (WholeTiles w h) (.dimensions w h) with
  | error e => rfl
  | ok _ =>
    cases Mosaic.ofBuffer w h (src.map UInt8.toNat) with
    | error e => rfl
    | ok m =>
      change Except.map _ (Raster.ofBuffer .. >>= _) = Raster.ofBuffer .. >>= _
      cases Raster.ofBuffer (k.outputSize w h).1 (k.outputSize w h).2 255 (dst.map UInt8.toNat) <;> rfl

/-- the direct way, for a frame of bytes: no depth is asked for -/
theorem decidedBy_direct (hcoding : f.coding = .raw8) (t : Tile) (k : Method) (dst : Array UInt8) :
    DecidedBy (decode8 t k f.width f.height f.image dst).result
      (f.wholeTiles :: f.knownDepth :: f.directLengths k dst.size) := by
  rw [result_decode8]
  refine .require wholeTiles_iff rfl fun _ => ?_
  refine .cons (fun hdepth => absurd (fun h => ?_) hdepth) fun _ => ?_
  · rw [hcoding] at h
    cases h
  have hsrc : (f.image.map UInt8.toNat).size = f.image.size := Array.size_map
  have hdst : (dst.map UInt8.toNat).size = dst.size := Array.size_map
  rw [directLengths, ← hsrc, ← hdst]
  exact .mosaic fun _ => .raster fun _ => .nil

theorem decidedBy_wide (hraw : f.coding.isRaw = true) (hrgb : target.isRgb = true) (k : Method) (dstLength : Nat) :
    DecidedBy (f.checkWide target k dstLength) (f.wholeTiles :: f.knownDepth :: f.wideLengths target k dstLength) := by
  rw [checkWide, wideLengths]
  refine .require wholeTiles_iff rfl fun _ => ?_
  refine .require (validDepth_bits_iff hraw) rfl fun _ => ?_
  refine .bufferLength rfl (bytes_raw hraw _) ?_
  refine .bufferLength rfl (bytes_rgb hrgb _) ?_
  refine .require eq_comm rfl fun _ => ?_
  exact .require_last eq_comm rfl

/-- **Validation of frames is exact.** -/
theorem decidedBy_requirements (f : Frame) (target : Coding) (k : Method) (dst : Array UInt8) :
    DecidedBy (f.debayer target k dst).result (f.requirements target k dst.size) := by
  have hpair : (f.coding = .raw8 ∨ f.coding = .raw16) ∧ (target = .rgb8 ∨ target = .rgb16) ↔
      f.coding.isRaw = true ∧ target.isRgb = true := and_congr isRaw_iff.symm isRgb_iff.symm
  refine .cons (fun hnone => ?_) fun hsome => .cons (fun hother => ?_) fun hcodings => ?_
  · rw [debayer, Option.not_isSome_iff_eq_none.mp hnone]
    rfl
  · obtain ⟨t, hfilter⟩ := Option.isSome_iff_exists.mp hsome
    rw [debayer, hfilter]
    exact congrArg Outcome.result (if_pos (mt hpair.mpr hother))
  · obtain ⟨t, hfilter⟩ := Option.isSome_iff_exists.mp hsome
    obtain ⟨hraw, hrgb⟩ := hpair.mp hcodings
    rw [debayer_of_codings hfilter hraw hrgb]
    by_cases hbytes : f.coding = .raw8 ∧ target = .rgb8
    · rw [if_pos hbytes, if_pos hbytes]
      exact decidedBy_direct hbytes.1 t k dst
    · rw [if_neg hbytes, if_neg hbytes, result_debayerWide hraw hrgb]
      exact decidedBy_wide hraw hrgb k dst.size

end Frame

open Imaging.Frame in
/-- **Validation of frames is exact and final.** A request is accepted where every requirement holds in exact
arithmetic, and is else refused for the first one that does not. Past the frame's own checks the inner requests, which
read its samples, demosaic them and write the image, are all accepted. -/
theorem debayer_validation (f : Frame) (target : Coding) (k : Method) (dst : Array UInt8) :
    DecidedBy (f.debayer target k dst).result (f.requirements target k dst.size) ∧
      ∀ t, f.coding.isRaw = true → target.isRgb = true → f.checkWide target k dst.size = .ok () →
        let decoded := decode16 t k f.width f.height f.bits f.wideSamples.dst (f.blank k)
        (f.coding = .raw16 → (readSamples f.image (.replicate (f.width * f.height) 0)).result = .ok ()) ∧
          decoded.result = .ok () ∧
            (target = .rgb16 → (writeSamples decoded.dst dst).result = .ok ()) := by
  refine ⟨f.decidedBy_requirements target k dst, ?_⟩
  intro t hraw hrgb hcheck decoded
  obtain ⟨_, _, hsrc, hdst⟩ := checkWide_eq_ok_iff.mp hcheck
  obtain ⟨hdecode, hsize⟩ := decode16_samples hraw hrgb hcheck t
  have hread := wideSamples_eq hraw hsrc
  have hdecoded : decoded = .written (f.rebuilt t k) := by
    simp only [decoded, hread]
    exact hdecode
  refine ⟨?_, ?_, ?_⟩
  · intro hcoding
    have hwide : f.coding.sampleBits = 16 := by rw [hcoding]; rfl
    rw [wideSamples, if_pos hwide] at hread
    rw [hread]
    rfl
  · rw [hdecoded]
    rfl
  · intro htarget
    have hwide : target.sampleBits = 16 := by rw [htarget]; rfl
    have hwrite := writeWide_eq (length_wideBytes hrgb hdst hsize f.bits)
    rw [writeWide, if_pos hwide] at hwrite
    rw [hdecoded]
    exact congrArg Outcome.result hwrite

/-- a frame of 16-bit samples whose tiles become pixels: its samples are read, demosaiced and written -/
theorem debayer_validation_tiles :
    let f : Frame :=
      { image := .replicate 16 3, width := 4, height := 2, coding := .raw16, depth := 12, filter := some .bggr }
    let decoded := decode16 .bggr .downsample 4 2 12 f.wideSamples.dst (f.blank .downsample)
    (readSamples f.image (.replicate 8 0)).result = .ok () ∧ decoded.result = .ok () ∧
      (writeSamples decoded.dst (.replicate 12 0)).result = .ok () := by
  intro f decoded
  have h := (debayer_validation f .rgb16 .downsample (.replicate 12 0)).2 .bggr rfl rfl
    (Frame.checkWide_eq_ok_iff.mpr (by decide))
  exact ⟨h.1 rfl, h.2.1, h.2.2 rfl⟩

end Imaging
