/-
Which conversions are accepted, and what the others are told. The requirements of a request are listed here without the
code that checks them: a table of the supported pairs, and conditions on sizes, depth and lengths in exact arithmetic
(`Request.requirements`). `convert_validation` says that a conversion is decided by that list, and that the checks come
to the same verdict in words of 64 bits.

The code looks at a length only after it has formed it, and forms it in two ways that the list does not mention: it
gives up on sizes whose bits do not fill whole bytes (`dvd_sourceBits`, `dvd_targetBits`: past the checks before, they
always do), and it widens every row of packed pairs, of grey or not (`paddedWidth_eq`: rows of colour are even already).
-/
import Imaging.Machine.Conversion
import Imaging.Proofs.Conversion.Length
import Imaging.Proofs.Verdict

namespace Imaging

/-- the codings that lead to a target -/
def Target.sources : Target → List Coding
  | yuv422 => [.yuv422, .yuv411, .yuv444, .rgb8, .rgb16, .mono8, .raw8, .mono16, .raw16]
  | mono8 => [.mono8, .raw8, .mono16, .raw16]
  | rgb8 => [.rgb8, .rgb16, .yuv444, .yuv422, .yuv411, .mono8, .raw8, .mono16, .raw16]

theorem Target.accepts_iff (t : Target) (c : Coding) : t.Accepts c ↔ c ∈ t.sources := by
  cases t <;> cases c <;> decide

namespace Request

variable {r : Request}

/-- the pixels of a row of the result: rows of grey that are written in pairs are made even -/
def rowWidth (r : Request) : Nat :=
  if r.target = .yuv422 ∧ r.source.isColour = false then evenWidth r.width else r.width

/-- the bits of the source image -/
def sourceBits (r : Request) : Nat := r.width * r.height * r.source.bitsPerPixel

/-- the bits of the result -/
def targetBits (r : Request) : Nat := r.rowWidth * r.height * r.target.coding.bitsPerPixel

/-- what a conversion asks for, in the order in which it is checked -/
def requirements (r : Request) (srcLength dstLength : Nat) : List Requirement :=
  [{ holds := r.source ∈ r.target.sources
     refusal := .unsupported r.source r.target.coding },
   { holds := 1 ≤ r.width ∧ 1 ≤ r.height ∧ (r.source = .yuv411 → 4 ∣ r.width) ∧ (r.source = .yuv422 → 2 ∣ r.width) ∧
       (r.target = .yuv422 → r.source.isColour = true → 2 ∣ r.width)
     refusal := .dimensions r.width r.height },
   { holds := r.source.sampleBits = 16 → 8 ≤ r.bits ∧ r.bits ≤ 16
     refusal := .parameter .bitDepth },
   { holds := r.sourceBits < sizeLimit
     refusal := .dimensions r.width r.height },
   { holds := r.targetBits < sizeLimit
     refusal := .dimensions r.width r.height },
   { holds := 8 * srcLength = r.sourceBits
     refusal := .length (r.sourceBits / 8) srcLength },
   { holds := 8 * dstLength = r.targetBits
     refusal := .length (r.targetBits / 8) dstLength }]

theorem sizeFits_iff :
    r.SizeFits ↔ 1 ≤ r.width ∧ 1 ≤ r.height ∧ (r.source = .yuv411 → 4 ∣ r.width) ∧ (r.source = .yuv422 → 2 ∣ r.width) ∧
      (r.target = .yuv422 → r.source.isColour = true → 2 ∣ r.width) := by
  simp only [SizeFits, Nat.dvd_iff_mod_eq_zero, Nat.succ_le_iff]

/-- a row of colour that is written in pairs is even without padding -/
theorem paddedWidth_eq (hsize : r.SizeFits) : r.paddedWidth = r.rowWidth := by
  obtain ⟨_, _, _, _, heven⟩ := hsize
  cases htarget : r.target with
  | mono8 | rgb8 => simp [paddedWidth, rowWidth, htarget]
  | yuv422 =>
    cases hcolour : r.source.isColour with
    | false => simp [paddedWidth, rowWidth, htarget, hcolour]
    | true => simp [paddedWidth, rowWidth, htarget, hcolour, evenWidth_of_even (heven htarget hcolour)]

theorem dvd_sourceBits (hsize : r.SizeFits) : 8 ∣ r.sourceBits := by
  obtain ⟨_, _, hgroups, _, _⟩ := hsize
  by_cases hsource : r.source = .yuv411
  · have harea := area_mod (hgroups hsource) r.height
    simp only [sourceBits, hsource, Coding.bitsPerPixel]
    omega
  · have hbits : 8 ∣ r.source.bitsPerPixel := by
      cases hc : r.source <;> first | exact absurd hc hsource | decide
    exact Nat.dvd_mul_left_of_dvd hbits _

theorem dvd_targetBits (r : Request) : 8 ∣ r.targetBits := by
  have hbits : 8 ∣ r.target.coding.bitsPerPixel := by
    cases r.target <;> decide
  exact Nat.dvd_mul_left_of_dvd hbits _

end Request

/-! ## In machine words -/

namespace Machine

variable {r : Request}

theorem bufferLength?_eq (c : Coding) (w h : Nat) : bufferLength? c w h = c.bufferLength? w h := by
  have hbits : 0 < c.bitsPerPixel := by
    cases c <;> decide
  have harea := Nat.le_mul_of_pos_right (w * h) hbits
  simp only [bufferLength?, Coding.bufferLength?, mul?]
  by_cases hlimit : w * h * c.bitsPerPixel < sizeLimit
  · rw [if_pos (show w * h < sizeLimit by omega), Option.bind_eq_bind, Option.bind_some, if_pos hlimit]
    by_cases hbytes : w * h * c.bitsPerPixel % 8 = 0 <;> simp [hlimit, hbytes]
  · by_cases hsmall : w * h < sizeLimit <;> simp [hlimit, hsmall]

/-- a row of an image takes no more bits than the image -/
theorem width_le (hh : 0 < r.height) : 8 * r.width ≤ r.width * r.height * r.source.bitsPerPixel := by
  have hbits : 8 ≤ r.source.bitsPerPixel := by
    cases r.source <;> decide
  calc 8 * r.width = r.width * 1 * 8 := by rw [Nat.mul_one, Nat.mul_comm]
    _ ≤ r.width * r.height * r.source.bitsPerPixel := Nat.mul_le_mul (Nat.mul_le_mul_left _ hh) hbits

theorem paddedWidth_eq (hsize : r.SizeFits) (hlimit : 2 * r.width < sizeLimit) : paddedWidth r = .ok r.paddedWidth := by
  rw [Request.paddedWidth_eq hsize]
  unfold paddedWidth Request.rowWidth
  split
  · exact add_eq (by omega)
  · rfl

/-- **Checks** wrap nothing: the width is padded only where it is a small part of what fits. -/
theorem check_eq (r : Request) (srcLength dstLength : Nat) :
    check r srcLength dstLength = .ok (r.check srcLength dstLength) := by
  have hstages : r.check srcLength dstLength =
      checkSource r >>= fun src => checkLengths r r.paddedWidth src srcLength dstLength := by
    simp only [Request.check, checkSource, checkLengths, bufferLength?_eq, bind_assoc]
  rw [hstages, check]
  cases hsource : checkSource r with
  | error e => rfl
  | ok src =>
    simp only [checkSource, bufferLength?_eq, bind_eq_ok_iff, require_eq_ok_iff, requireSome_eq_ok_iff,
      Coding.bufferLength?_eq_some_iff] at hsource
    obtain ⟨_, _, _, hsize, _, _, hlimit, _⟩ := hsource
    have hwidth := width_le (r := r) hsize.2.1
    simp only [paddedWidth_eq hsize (by omega), ok_bind]

-- padding a row of 2 ^ 64 - 1 pixels would overflow, and such a row is refused before it is padded
example :
    let r : Request :=
      { source := .mono8, target := .yuv422, width := sizeLimit - 1, height := 1, order := .uyvy, bits := 8 }
    paddedWidth r = .error .overflow ∧ check r 0 0 = .ok (.error (.dimensions (sizeLimit - 1) 1)) := ⟨rfl, rfl⟩

end Machine

/-- **Validation of conversions is exact.** A conversion is accepted where every requirement of its request holds in
exact arithmetic, and is else refused for the first one that does not. The checks reach this verdict in words of 64 bits
as well: no product that they compare with a length is a wrapped one, and the width is padded without overflow. -/
theorem convert_validation (r : Request) (src dst : Array UInt8) :
    DecidedBy (convert r src dst).result (r.requirements src.size dst.size) ∧
      Machine.check r src.size dst.size = .ok (convert r src dst).result := by
  have hresult : (convert r src dst).result = r.check src.size dst.size := by
    rw [convert, Outcome.guarded_result]
    cases r.check src.size dst.size <;> rfl
  rw [hresult]
  refine ⟨?_, Machine.check_eq r src.size dst.size⟩
  rw [Request.check, Request.requirements]
  refine .require (r.target.accepts_iff r.source) rfl fun _ => ?_
  refine .require Request.sizeFits_iff rfl fun hsize => ?_
  have hwidth : r.paddedWidth * r.height * r.target.coding.bitsPerPixel = r.targetBits := by
    rw [Request.targetBits, Request.paddedWidth_eq hsize]
  have hsource := Request.dvd_sourceBits hsize
  have htarget := r.dvd_targetBits
  refine .require Iff.rfl rfl fun _ => ?_
  refine .bufferLength rfl (Nat.mul_div_cancel' hsource) ?_
  refine .bufferLength hwidth (Nat.mul_div_cancel' htarget) ?_
  refine .require (Nat.div_eq_iff_eq_mul_right (by decide) hsource |>.trans eq_comm) rfl fun _ => ?_
  exact .require_last (Nat.div_eq_iff_eq_mul_right (by decide) htarget |>.trans eq_comm) rfl

end Imaging
