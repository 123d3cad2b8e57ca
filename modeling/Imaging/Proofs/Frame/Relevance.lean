/-
Which parameters of a frame conversion count. A call carries the significant bits of a sample, a byte order, a method
and a filter whatever way it takes, and each way reads some of them only. `Frame.Alike` says what two calls have to
agree in: everything that the way to the target reads, and nothing more. `convert_alike` says that such calls cannot be
told apart, by their verdicts, their refusals or the images that they write.

A request is treated as it runs. Reading pixels needs the depth of 16-bit samples alone, and the order of packed pairs
alone (`Pixel.unpack_congr`); the checks of a request need no order (`Request.Alike.check_eq`); and a frame of bytes
is demosaiced at 8 significant bits, whatever depth it claims (`Frame.bits_congr`).
-/
import Imaging.Proofs.Conversion.Stages
import Imaging.Proofs.Frame.Validation

namespace Imaging

/-! ## Pixel conversions -/

/-- the byte order of a call counts: packed pairs are written, or they are read into colours -/
def OrderCounts (source target : Coding) : Prop := target = .yuv422 ∨ source = .yuv422 ∧ target = .rgb8

/-- pixels are read in an order where they come in packed pairs, and at a depth where their samples have one -/
theorem Pixel.unpack_congr {c : Coding} {order order' : ByteOrder} {bits bits' : Nat}
    (horder : c = .yuv422 → order = order') (hbits : c.sampleBits = 16 → bits = bits') (bytes : List UInt8) :
    unpack c order bits bytes = unpack c order' bits' bytes := by
  cases c with
  | yuv422 => rw [horder rfl]; rfl
  | mono16 | rgb16 | raw16 | mono16s | rgb16s => rw [hbits rfl]; rfl
  | mono8 | raw8 | rgb8 | yuv444 | yuv411 => rfl

namespace Request

/-- requests that agree in all that is read on the way from the source to the target -/
structure Alike (r s : Request) : Prop where
  source : r.source = s.source
  target : r.target = s.target
  width : r.width = s.width
  height : r.height = s.height
  order : OrderCounts r.source r.target.coding → r.order = s.order
  bits : r.source.sampleBits = 16 → r.bits = s.bits

namespace Alike

variable {r s : Request} (h : r.Alike s)

include h

theorem paddedWidth_eq : r.paddedWidth = s.paddedWidth := by
  rw [paddedWidth, paddedWidth, h.target, h.width]

/-- the checks look at the depth of 16-bit samples alone, and at no order -/
theorem check_eq (n m : Nat) : r.check n m = s.check n m := by
  have hsize : r.SizeFits ↔ s.SizeFits := by
    rw [SizeFits, SizeFits, h.source, h.target, h.width, h.height]
  have hdepth : (s.source.sampleBits = 16 → ValidDepth r.bits) ↔ (s.source.sampleBits = 16 → ValidDepth s.bits) := by
    refine forall_congr' fun hwide => ?_
    rw [h.bits (h.source ▸ hwide)]
  rw [check, check, h.paddedWidth_eq, h.source, h.target, h.width, h.height]
  simp only [hsize, hdepth]

/-- an accepted request reads its packed pairs in the order of the call where that counts, and else has none to read -/
theorem output_eq (haccepts : r.target.Accepts r.source) (bytes : List UInt8) : r.output bytes = s.output bytes := by
  have hunpack : Pixel.unpack r.source r.sourceOrder r.bits bytes = Pixel.unpack s.source s.sourceOrder s.bits bytes := by
    rw [← h.source]
    refine Pixel.unpack_congr (fun hsource => ?_) h.bits bytes
    rw [sourceOrder, sourceOrder, ← h.target]
    cases htarget : r.target with
    | yuv422 => rfl
    | mono8 =>
      -- grey is made from grey, never from packed pairs
      have hgrey := haccepts.2 htarget
      rw [hsource] at hgrey
      cases hgrey
    | rgb8 => exact h.order (.inr ⟨hsource, congrArg Target.coding htarget⟩)
  rw [output, output, hunpack, ← h.target, ← h.width, ← h.height]
  cases htarget : r.target with
  | yuv422 => rw [h.order (.inl (congrArg Target.coding htarget))]
  | mono8 => rfl
  | rgb8 => rfl

/-- **Alike requests** have one outcome. -/
theorem convert_eq (src dst : Array UInt8) : Imaging.convert r src dst = Imaging.convert s src dst := by
  refine convert_congr (h.check_eq src.size dst.size) fun hcheck => ?_
  rw [← h.check_eq] at hcheck
  exact h.output_eq (check_eq_ok_iff.mp hcheck).1 src.toList

end Alike

end Request

namespace Frame

/-! ## Demosaicing -/

/-- the filter of a frame counts: one plane of samples is to become a colour image -/
def FilterCounts (source target : Coding) : Prop :=
  (source = .raw8 ∨ source = .raw16) ∧ (target = .rgb8 ∨ target = .rgb16)

variable {f g : Frame} {target : Coding}

theorem mosaicked_iff : f.Mosaicked target ↔ FilterCounts f.coding target ∧ f.filter.isSome = true := by
  rw [Mosaicked, FilterCounts, ← isRaw_iff, ← isRgb_iff]
  constructor
  · rintro ⟨hraw, hsome, hrgb⟩
    exact ⟨⟨hraw, hrgb⟩, hsome⟩
  · rintro ⟨⟨hraw, hrgb⟩, hsome⟩
    exact ⟨hraw, hsome, hrgb⟩

/-- a frame of bytes has 8 significant bits, whatever depth it claims -/
theorem bits_congr (hcoding : f.coding = g.coding) (hdepth : f.coding.sampleBits = 16 → f.depth = g.depth) :
    f.bits = g.bits := by
  rw [bits, bits, ← hcoding]
  by_cases hwide : f.coding.sampleBits = 16
  · rw [if_pos hwide, if_pos hwide, hdepth hwide]
  · rw [if_neg hwide, if_neg hwide]

/-- frames that agree but for a depth that does not count are demosaiced alike -/
theorem debayer_congr (himage : f.image = g.image) (hwidth : f.width = g.width) (hheight : f.height = g.height)
    (hcoding : f.coding = g.coding) (hfilter : f.filter = g.filter)
    (hdepth : f.coding.sampleBits = 16 → f.depth = g.depth) (target : Coding) (k : Method) (dst : Array UInt8) :
    f.debayer target k dst = g.debayer target k dst := by
  have hbits := bits_congr hcoding hdepth
  have hcheck : f.checkWide target k dst.size = g.checkWide target k dst.size := by
    rw [checkWide, checkWide, hbits, himage, hwidth, hheight, hcoding]
  have hsamples : f.wideSamples = g.wideSamples := by
    rw [wideSamples, wideSamples, himage, hwidth, hheight, hcoding]
  have hwide (t : Tile) : f.debayerWide t target k dst = g.debayerWide t target k dst := by
    rw [debayerWide, debayerWide, hcheck, hsamples, hbits, hwidth, hheight]
  rw [debayer, debayer, ← hfilter]
  cases f.filter with
  | none => rw [hcoding]
  | some t => simp only [hwide, himage, hwidth, hheight, hcoding]

/-! ## Calls -/

/-- calls that agree in all that is read on the way from the frame to the target -/
structure Alike (target : Coding) (f g : Frame) (o p : Options) : Prop where
  image : f.image = g.image
  width : f.width = g.width
  height : f.height = g.height
  coding : f.coding = g.coding
  /-- the depth counts for 16-bit samples -/
  depth : f.coding.sampleBits = 16 → f.depth = g.depth
  order : OrderCounts f.coding target → o.order = p.order
  filter : FilterCounts f.coding target → f.filter = g.filter
  /-- the method counts where the frame is demosaiced -/
  method : FilterCounts f.coding target → f.filter.isSome = true → o.method = p.method

namespace Alike

variable {o p : Options}

/-- calls that have to agree in the filter take the same way, and others never demosaic -/
theorem mosaicked_iff (h : Alike target f g o p) : f.Mosaicked target ↔ g.Mosaicked target := by
  rw [Frame.mosaicked_iff, Frame.mosaicked_iff, ← h.coding]
  refine and_congr_right fun hcounts => ?_
  rw [h.filter hcounts]

theorem request (h : Alike target f g o p) {t : Target} (ht : t.coding = target) :
    (f.request t o.order).Alike (g.request t p.order) where
  source := h.coding
  target := rfl
  width := h.width
  height := h.height
  order := fun hcounts => h.order (ht ▸ hcounts)
  bits := h.depth

end Alike

/-- **What does not count does not matter.** Two calls on one image that agree in all that is read on the way to the
target have one outcome on every destination: the same verdict, for the same reason where it is a refusal, and the same
bytes. They may differ in the depth of a frame of bytes, in the order where no packed pairs are written or read into
colours, in the method where no frame behind a filter becomes a colour image, and in the filter where no raw frame
does. -/
theorem convert_alike {target : Coding} {f g : Frame} {o p : Options} (h : Alike target f g o p) (dst : Array UInt8) :
    f.convert target o dst = g.convert target p dst := by
  rw [convert, convert]
  by_cases hway : f.Mosaicked target
  · obtain ⟨hcounts, hsome⟩ := mosaicked_iff.mp hway
    rw [if_pos hway, if_pos (h.mosaicked_iff.mp hway), h.method hcounts hsome]
    exact debayer_congr h.image h.width h.height h.coding (h.filter hcounts) h.depth target p.method dst
  · rw [if_neg hway, if_neg (mt h.mosaicked_iff.mpr hway)]
    cases ht : Target.ofCoding? target with
    | none => rw [h.coding]
    | some t =>
      have hrequest := h.request (Target.ofCoding?_eq_some_iff.mp ht)
      simp only [← h.image]
      exact hrequest.convert_eq f.image dst

/-- bytes behind a filter that become 16-bit colours, at two depths and in two orders; and grey of 12 bits made from
frames with and without a filter, by two methods and in two orders -/
theorem convert_alike_calls :
    (let f : Frame :=
        { image := #[10, 20, 30, 40], width := 2, height := 2, coding := .raw8, depth := 8, filter := some .grbg };
      f.convert .rgb16 { order := .uyvy, method := .simple } (.replicate 24 7) =
        { f with depth := 99 }.convert .rgb16 { order := .yuyv, method := .simple } (.replicate 24 7)) ∧
      (let f : Frame :=
          { image := #[1, 2, 3, 4], width := 2, height := 1, coding := .raw16, depth := 12, filter := some .grbg };
        f.convert .mono8 { order := .uyvy, method := .simple } (.replicate 2 7) =
          { f with filter := none }.convert .mono8 { order := .yuyv, method := .edgeSense } (.replicate 2 7)) := by
  refine ⟨?_, ?_⟩
  · intro f
    refine convert_alike ⟨rfl, rfl, rfl, rfl, ?_, ?_, fun _ => rfl, fun _ _ => rfl⟩ (.replicate 24 7)
    · intro hwide
      cases hwide
    · rintro (htarget | ⟨hsource, _⟩)
      · cases htarget
      · cases hsource
  · intro f
    refine convert_alike ⟨rfl, rfl, rfl, rfl, fun _ => rfl, ?_, ?_, ?_⟩ (.replicate 2 7)
    · rintro (htarget | ⟨hsource, _⟩)
      · cases htarget
      · cases hsource
    · rintro ⟨_, htarget | htarget⟩
      · cases htarget
      · cases htarget
    · rintro ⟨_, htarget | htarget⟩
      · cases htarget
      · cases htarget

end Frame

end Imaging
