/-
Conversions one after the other. A conversion that goes on from the result of another one (`Request.next`) is compared
with a direct conversion of the first source. Once the first stage is accepted, its result is a source that the second
stage can read (`Reads.next`), so both ways ask for the same sizes and the same destination, are refused alike, and
write the same image where their pixels are the same (`convert_next`). What is left to show is about pixels alone.

The first use is a stage that makes bytes of 16-bit samples (`convert_reduced`): what follows it sees the reduced
samples and nothing else, so reducing first or last makes no difference.
-/
import Imaging.Proofs.Conversion.ReadBack

namespace Imaging

namespace Request

/-- a request on the result of another one -/
def next (r : Request) (t : Target) (order : ByteOrder) (bits : Nat) : Request where
  source := r.target.coding
  target := t
  width := r.paddedWidth
  height := r.height
  order := order
  bits := bits

/-- a source of `n` bytes that meets what a request asks of its source -/
structure Reads (r : Request) (n : Nat) : Prop where
  accepts : r.target.Accepts r.source
  depth : r.source.sampleBits = 16 → ValidDepth r.bits
  length : r.source.bufferLength? r.width r.height = some n

variable {r r' : Request} {n n' m : Nat}

theorem reads_of_check (hcheck : r.check n m = .ok ()) : r.Reads n := by
  obtain ⟨haccepts, _, hdepth, hlength, _⟩ := check_eq_ok_iff.mp hcheck
  exact ⟨haccepts, hdepth, hlength⟩

/-- what an accepted request has written can be read -/
theorem Reads.next (hcheck : r.check n m = .ok ()) {t : Target} (haccepts : t.Accepts r.target.coding)
    (order : ByteOrder) (bits : Nat) : (r.next t order bits).Reads m := by
  refine ⟨haccepts, fun hwide => ?_, (check_eq_ok_iff.mp hcheck).2.2.2.2⟩
  have hbytes : r.target.coding.sampleBits ≠ 16 := by
    cases r.target <;> decide
  exact absurd hwide hbytes

/-- with such a source, a request is decided by its size and its destination -/
theorem Reads.check_eq (h : r.Reads n) (m : Nat) :
    r.check n m = (do
      require r.SizeFits (.dimensions r.width r.height)
      let dst ← requireSome (r.target.coding.bufferLength? r.paddedWidth r.height) (.dimensions r.width r.height)
      requireLength dst m) := by
  have hlength : requireLength n n = .ok () := require_of rfl
  rw [check, require_of h.accepts, require_of h.depth, h.length]
  change (do
    require r.SizeFits (.dimensions r.width r.height)
    let dst ← requireSome (r.target.coding.bufferLength? r.paddedWidth r.height) (.dimensions r.width r.height)
    requireLength n n
    requireLength dst m) = _
  rw [hlength]
  rfl

theorem Reads.check_congr (h : r.Reads n) (h' : r'.Reads n') (htarget : r.target = r'.target)
    (hwidth : r.width = r'.width) (hheight : r.height = r'.height) (hsize : r.SizeFits ↔ r'.SizeFits) (m : Nat) :
    r.check n m = r'.check n' m := by
  have hpadded : r.paddedWidth = r'.paddedWidth := by rw [paddedWidth, paddedWidth, htarget, hwidth]
  rw [h.check_eq, h'.check_eq, hpadded, htarget, hwidth, hheight]
  simp only [hsize]

end Request

theorem convert_congr {r r' : Request} {src src' dst : Array UInt8}
    (hcheck : r.check src.size dst.size = r'.check src'.size dst.size)
    (houtput : r'.check src'.size dst.size = .ok () → r.output src.toList = r'.output src'.toList) :
    convert r src dst = convert r' src' dst := by
  rw [convert, convert, hcheck]
  cases hverdict : r'.check src'.size dst.size with
  | error e => rfl
  | ok _ => rw [houtput hverdict]

/-- **Two stages or one.** After an accepted first stage, a second one has the outcome of a direct request for the same
image: the same verdict on every destination, and the same bytes. -/
theorem convert_next {first : Request} (direct : Request) {src mid src' dst : Array UInt8} {order : ByteOrder}
    {bits : Nat} (hfirst : (convert first src mid).result = .ok ())
    (haccepts : direct.target.Accepts first.target.coding) (hdirect : direct.Reads src'.size)
    (hwidth : first.paddedWidth = direct.width) (hheight : first.height = direct.height)
    (hsize : (first.next direct.target order bits).SizeFits ↔ direct.SizeFits)
    (houtput : (first.next direct.target order bits).output (first.output src.toList) = direct.output src'.toList) :
    convert (first.next direct.target order bits) (convert first src mid).dst dst = convert direct src' dst := by
  have hcheck := Request.result_eq_ok_iff.mp hfirst
  have hreads := Request.Reads.next hcheck haccepts order bits
  have hmid : (first.output src.toList).toArray.size = mid.size := Request.length_output hcheck
  rw [Request.dst_convert hcheck]
  refine convert_congr ?_ fun _ => houtput
  -- the first stage filled its destination, whose length is the one that the second stage asks of its source
  rw [hmid]
  exact hreads.check_congr hdirect rfl hwidth hheight hsize dst.size

/-! ## Packed pairs between two stages -/

namespace Request

variable {r : Request} {bytes : List UInt8} {m : Nat}

/-- the pixels that a request for packed pairs writes, in rows made even -/
def paddedPixels (r : Request) (bytes : List UInt8) : List (Yuv UInt8) :=
  (padRows r.width r.height (Pixel.unpack r.source .uyvy r.bits bytes)).map Pixel.toYuv

theorem output_yuv422 (htarget : r.target = .yuv422) (bytes : List UInt8) :
    r.output bytes = Pixel.packRow r.order (r.paddedPixels bytes) := by
  rw [output, htarget, sourceOrder, htarget]
  exact Pixel.packRows_eq_packRow r.order r.width r.height _

theorem length_paddedPixels (htarget : r.target = .yuv422) (hcheck : r.check bytes.length m = .ok ()) :
    (r.paddedPixels bytes).length = evenWidth r.width * r.height := by
  have hpixels := length_pixels hcheck
  rw [sourceOrder, htarget] at hpixels
  rw [paddedPixels, List.length_map, length_padRows hpixels]

/-- colours that come out of packed pairs, read in the order that they were written in -/
theorem output_next_rgb8 (htarget : r.target = .yuv422) (bits : Nat) (bytes : List UInt8) :
    (r.next .rgb8 r.order bits).output (r.output bytes) = Pixel.packRgb8 (Pixel.shared (r.paddedPixels bytes)) := by
  rw [output_yuv422 htarget, ← Pixel.ofYuv422_packRow r.order]
  simp only [output, next, sourceOrder, htarget, Target.coding, Pixel.unpack]

end Request

/-! ## Reduced samples -/

namespace Request

/-- a request for the bytes of 16-bit samples, in the same layout -/
def Reduces (r : Request) : Prop :=
  r.source = .rgb16 ∧ r.target = .rgb8 ∨ (r.source = .mono16 ∨ r.source = .raw16) ∧ r.target = .mono8

instance (r : Request) : Decidable r.Reduces := by
  unfold Reduces
  infer_instance

variable {r : Request} (h : r.Reduces)

include h

/-- the layout of the result is that of the source -/
theorem Reduces.layout : r.paddedWidth = r.width ∧ r.target.coding.isColour = r.source.isColour := by
  obtain ⟨hsource, htarget⟩ | ⟨hsource | hsource, htarget⟩ := h <;>
    simp [paddedWidth, hsource, htarget, Target.coding, Coding.isColour]

theorem Reduces.sizeFits_iff (t : Target) (order : ByteOrder) (bits : Nat) :
    (r.next t order bits).SizeFits ↔ { r with target := t, order := order }.SizeFits := by
  obtain ⟨hpadded, hcolour⟩ := h.layout
  simp only [SizeFits, next, hpadded, hcolour]
  obtain ⟨hsource, htarget⟩ | ⟨hsource | hsource, htarget⟩ := h <;> simp [hsource, htarget, Target.coding]

/-- the result is the reduced samples as they stand -/
theorem Reduces.output {bytes : List UInt8} {m : Nat} (hcheck : r.check bytes.length m = .ok ()) :
    r.output bytes = narrow r.source r.bits bytes := by
  obtain ⟨_, _, _, hlength, _⟩ := check_eq_ok_iff.mp hcheck
  have hbits := (Coding.bufferLength?_eq_some_iff.mp hlength).2
  obtain ⟨hsource, htarget⟩ | ⟨hsource | hsource, htarget⟩ := h
  · simp only [hsource, Coding.bitsPerPixel] at hbits
    simp only [Request.output, htarget, hsource, Pixel.unpack]
    refine Pixel.packRgb8_ofRgb (q := r.width * r.height) ?_
    rw [length_narrow rfl]
    omega
  · simp only [Request.output, htarget, hsource, Pixel.unpack, Pixel.packMono8_ofLuma]
  · simp only [Request.output, htarget, hsource, Pixel.unpack, Pixel.packMono8_ofLuma]

/-- and it is read as the samples themselves are -/
theorem Reduces.unpack (order order' : ByteOrder) (bits : Nat) (bytes : List UInt8) :
    Pixel.unpack r.target.coding order bits (narrow r.source r.bits bytes) =
      Pixel.unpack r.source order' r.bits bytes := by
  obtain ⟨hsource, htarget⟩ | ⟨hsource | hsource, htarget⟩ := h <;>
    simp [hsource, htarget, Target.coding, Pixel.unpack, narrow, Coding.sampleBits]

end Request

/-- **Reducing first or last.** A second stage on the bytes of 16-bit samples has the outcome of a direct request on the
samples, for every target that they lead to, every depth, and samples above their depth. -/
theorem convert_reduced (first : Request) (hreduces : first.Reduces) (t : Target) (ht : t.Accepts first.source)
    (order : ByteOrder) (bits : Nat) (src mid dst : Array UInt8) (hfirst : (convert first src mid).result = .ok ()) :
    convert (first.next t order bits) (convert first src mid).dst dst =
      convert { first with target := t, order := order } src dst := by
  have hcheck := Request.result_eq_ok_iff.mp hfirst
  have hreads := Request.reads_of_check hcheck
  obtain ⟨hpadded, hcolour⟩ := hreduces.layout
  have haccepts : t.Accepts first.target.coding := by
    refine ⟨?_, fun hgrey => hcolour.trans (ht.2 hgrey)⟩
    cases first.target <;> rfl
  refine convert_next { first with target := t, order := order } hfirst haccepts ⟨ht, hreads.depth, hreads.length⟩
    hpadded rfl (hreduces.sizeFits_iff t order bits) ?_
  rw [hreduces.output hcheck]
  simp only [Request.output, Request.next, hpadded]
  rw [hreduces.unpack]

/-- colours of 12 bits with a sample above their depth, and an odd row of samples of 10 bits -/
theorem convert_reduced_samples :
    (let first : Request := { source := .rgb16, target := .rgb8, width := 2, height := 1, order := .uyvy, bits := 12 }
      let direct : Request := { first with target := .yuv422, order := .yuyv }
      let src : Array UInt8 := #[255, 255, 8, 0, 3, 32, 0, 15, 15, 255, 6, 64]
      convert (first.next .yuv422 .yuyv 8) (convert first src (.replicate 6 7)).dst (.replicate 4 7) =
        convert direct src (.replicate 4 7)) ∧
      (let first : Request :=
          { source := .mono16, target := .mono8, width := 3, height := 1, order := .uyvy, bits := 10 }
        let direct : Request := { first with target := .yuv422 }
        let src : Array UInt8 := #[0, 40, 4, 0, 2, 10]
        convert (first.next .yuv422 .uyvy 8) (convert first src (.replicate 3 7)).dst (.replicate 8 7) =
          convert direct src (.replicate 8 7)) := by
  refine ⟨?_, ?_⟩
  · intro first direct src
    exact convert_reduced first (by decide) .yuv422 (by decide) .yuyv 8 src (.replicate 6 7) (.replicate 4 7)
      (Request.accepted_iff.mpr (by decide))
  · intro first direct src
    exact convert_reduced first (by decide) .yuv422 (by decide) .uyvy 8 src (.replicate 3 7) (.replicate 8 7)
      (Request.accepted_iff.mpr (by decide))

end Imaging
