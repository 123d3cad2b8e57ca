/-
The byte order of packed pairs. An order says where the bytes of a pair stand and nothing else (`convert_order`):
- the results of one request in the two orders are each other's bytes, exchanged two by two;
- packed pairs that are written in the order that is not native to them are exchanged, whatever their order was, so that
  each result is made of the other one in this way;
- colours that are read from a result in the order that it was written in do not tell which order that was.
-/
import Imaging.Proofs.Conversion.Stages

namespace Imaging

namespace Request

variable {r : Request} {bytes : List UInt8} {n m : Nat}

theorem check_next_yuv422 (htarget : r.target = .yuv422) (hcheck : r.check n m = .ok ()) (order : ByteOrder)
    (bits : Nat) : (r.next .yuv422 order bits).check m m = .ok () := by
  have haccepts : Target.yuv422.Accepts r.target.coding := by
    rw [htarget]
    decide
  have hreads := Reads.next hcheck haccepts order bits
  have hpadded : r.paddedWidth = evenWidth r.width := by rw [paddedWidth, htarget]
  have heven : r.paddedWidth % 2 = 0 := by rw [hpadded, evenWidth_even]
  obtain ⟨_, ⟨hw, hh, _⟩, _, _, hlength⟩ := check_eq_ok_iff.mp hcheck
  have hsize : (r.next .yuv422 order bits).SizeFits := by
    refine ⟨?_, hh, ?_, fun _ => heven, fun _ _ => heven⟩
    · change 0 < r.paddedWidth
      rw [hpadded, evenWidth]
      omega
    · intro hsource
      rw [next, htarget] at hsource
      cases hsource
  have hwidth : (r.next .yuv422 order bits).paddedWidth = r.paddedWidth := evenWidth_of_even heven
  refine check_eq_ok_iff.mpr ⟨hreads.accepts, hsize, hreads.depth, hreads.length, ?_⟩
  rw [htarget] at hlength
  rw [hwidth]
  exact hlength

/-- packed pairs that are written in the second order have their bytes exchanged, in whichever order they were -/
theorem output_next_yuv422 (htarget : r.target = .yuv422) (hcheck : r.check bytes.length m = .ok ()) (bits : Nat) :
    (r.next .yuv422 .yuyv bits).output (r.output bytes) = exchange (r.output bytes) := by
  obtain rfl := length_output hcheck
  have hnext := check_next_yuv422 htarget hcheck .yuyv bits
  have heven : (r.next .yuv422 .yuyv bits).width % 2 = 0 := by
    rw [next, paddedWidth, htarget, evenWidth_even]
  have hpixels : (Pixel.unpack r.target.coding .uyvy bits (r.output bytes)).length =
      (r.next .yuv422 .yuyv bits).width * (r.next .yuv422 .yuyv bits).height := length_pixels hnext
  have hlength : (r.output bytes).length = 4 * (evenWidth (r.paddedPixels bytes).length / 2) := by
    have hpairs := evenWidth_even (r.paddedPixels bytes).length
    rw [output_yuv422 htarget, Pixel.length_packRow]
    omega
  calc (r.next .yuv422 .yuyv bits).output (r.output bytes)
      = Pixel.packRow .yuyv ((Pixel.unpack r.target.coding .uyvy bits (r.output bytes)).map Pixel.toYuv) :=
        Pixel.packRows_of_even .yuyv heven hpixels
    _ = exchange (r.output bytes) := by
        rw [htarget]
        exact Pixel.packRow_yuyv_ofYuv422 hlength

end Request

/-- **Orders differ in the places of bytes alone.** -/
theorem convert_order (r : Request) (htarget : r.target = .yuv422) (src : Array UInt8) (dst : ByteOrder → Array UInt8)
    (hok : ∀ o, (convert { r with order := o } src (dst o)).result = .ok ()) :
    let out o := (convert { r with order := o } src (dst o)).dst
    (∀ o : ByteOrder, (out o.other).toList = exchange (out o).toList) ∧
      (∀ (o : ByteOrder) bits back, back.size = (dst o).size →
        convert (r.next .yuv422 .yuyv bits) (out o) back = .written (out o.other)) ∧
      ∀ bits image, convert (r.next .rgb8 .uyvy bits) (out .uyvy) image =
        convert (r.next .rgb8 .yuyv bits) (out .yuyv) image := by
  intro out
  have hcheck o : { r with order := o }.check src.size (dst o).size = .ok () := Request.result_eq_ok_iff.mp (hok o)
  have hout o : out o = ({ r with order := o }.output src.toList).toArray := Request.dst_convert (hcheck o)
  have hrow o : { r with order := o }.output src.toList = Pixel.packRow o (r.paddedPixels src.toList) :=
    Request.output_yuv422 (r := { r with order := o }) htarget src.toList
  have hother (o : ByteOrder) : (out o.other).toList = exchange (out o).toList := by
    rw [hout, hout, hrow, hrow, Pixel.packRow_other]
  refine ⟨hother, ?_, ?_⟩
  · intro o bits back hback
    have hsize : (out o).size = (dst o).size := by
      rw [hout]
      exact Request.length_output (hcheck o)
    have hagain : (r.next .yuv422 .yuyv bits).check (out o).size back.size = .ok () := by
      rw [hsize, hback]
      exact Request.check_next_yuv422 (r := { r with order := o }) htarget (hcheck o) .yuyv bits
    have himage : (r.next .yuv422 .yuyv bits).output (out o).toList = (out o.other).toList := by
      rw [hother, hout]
      exact Request.output_next_yuv422 (r := { r with order := o }) htarget (hcheck o) bits
    rw [Request.convert_of_check hagain, himage, Array.toArray_toList]
  · intro bits image
    have hsize : (out .uyvy).size = (out .yuyv).size := by
      rw [hout, hout, List.size_toArray, List.size_toArray, hrow, hrow, Pixel.length_packRow, Pixel.length_packRow]
    have hcolours o : (r.next .rgb8 o bits).output (out o).toList =
        Pixel.packRgb8 (Pixel.shared (r.paddedPixels src.toList)) := by
      rw [hout]
      exact Request.output_next_rgb8 (r := { r with order := o }) htarget bits src.toList
    refine convert_congr ?_ fun _ => (hcolours .uyvy).trans (hcolours .yuyv).symm
    rw [hsize]
    rfl

/-- odd rows of grey levels -/
theorem convert_order_rows :
    let r : Request := { source := .mono8, target := .yuv422, width := 3, height := 2, order := .uyvy, bits := 8 }
    let src : Array UInt8 := #[10, 20, 30, 40, 50, 60]
    let out o := (convert { r with order := o } src (.replicate 16 7)).dst
    (∀ o : ByteOrder, (out o.other).toList = exchange (out o).toList) ∧
      (∀ (o : ByteOrder) bits back, back.size = (Array.replicate 16 (7 : UInt8)).size →
        convert (r.next .yuv422 .yuyv bits) (out o) back = .written (out o.other)) ∧
      ∀ bits image, convert (r.next .rgb8 .uyvy bits) (out .uyvy) image =
        convert (r.next .rgb8 .yuyv bits) (out .yuyv) image := by
  intro r src out
  have hok (o : ByteOrder) : (convert { r with order := o } src (.replicate 16 7)).result = .ok () := by
    cases o <;> exact Request.accepted_iff.mpr (by decide)
  exact convert_order r rfl src (fun _ => .replicate 16 7) hok

end Imaging
