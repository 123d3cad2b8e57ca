/-
What splitting a stereo frame leaves where. The two views are the bytes at even and at odd places, in their order
(`getElem?_first`, `getElem?_second`), so the halves, taking turns again, are the frame. The first view is also what
narrowing makes of the frame's 16-bit samples, of which it keeps the upper byte (`first_eq_map_decode`): splitting and
the conversion to grey agree on the upper half.
-/
import Imaging.Frame
import Imaging.Proofs.Conversion.ReadBack

namespace Imaging

namespace Stereo

/-! ## The two views -/

theorem getElem?_first {α : Type} : ∀ {s : List α} {i : Nat}, 2 * i + 1 < s.length → (first s)[i]? = s[2 * i]?
  | _ :: _ :: _, 0, _ => rfl
  | a :: b :: rest, i + 1, h => by
    have hrest : 2 * i + 1 < rest.length := by
      simp only [List.length_cons] at h
      omega
    calc (first (a :: b :: rest))[i + 1]? = (first rest)[i]? := rfl
      _ = rest[2 * i]? := getElem?_first hrest
      _ = (a :: b :: rest)[2 * (i + 1)]? := rfl

theorem getElem?_second {α : Type} : ∀ {s : List α} {i : Nat}, 2 * i + 1 < s.length → (second s)[i]? = s[2 * i + 1]?
  | _ :: _ :: _, 0, _ => rfl
  | a :: b :: rest, i + 1, h => by
    have hrest : 2 * i + 1 < rest.length := by
      simp only [List.length_cons] at h
      omega
    calc (second (a :: b :: rest))[i + 1]? = (second rest)[i]? := rfl
      _ = rest[2 * i + 1]? := getElem?_second hrest
      _ = (a :: b :: rest)[2 * (i + 1) + 1]? := rfl

/-! ## The first view as grey levels -/

/-- a sample of sixteen significant bits is narrowed to its upper byte -/
theorem reduce_join (hi lo : UInt8) : reduce 16 (BigEndian.join hi lo) = hi := by
  have hhi := hi.toNat_lt
  have hlo := lo.toNat_lt
  apply UInt8.toNat_inj.mp
  rw [reduce_eq, BigEndian.toNat_join, Nat.shiftRight_eq_div_pow]
  omega

theorem first_eq_map_decode : ∀ bytes : List UInt8, first bytes = (BigEndian.decode bytes).map (reduce 16)
  | [] => rfl
  | [_] => rfl
  | hi :: lo :: rest => by
    rw [first, BigEndian.decode, List.map_cons, reduce_join, first_eq_map_decode rest]

end Stereo

section Split

variable {w h : Nat} {src dst : Array UInt8}

theorem splitStereo_of_sizes (hpos : 0 < w ∧ 0 < h) (hlimit : 2 * (w * h) < sizeLimit) (hsrc : src.size = 2 * (w * h))
    (hdst : dst.size = 2 * (w * h)) :
    splitStereo w h src dst = .written (Stereo.first src.toList ++ Stereo.second src.toList).toArray := by
  have hcheck : Stereo.check w h src.size dst.size = .ok () :=
    Stereo.check_eq_ok_iff.mpr ⟨hpos, hlimit, hsrc, hdst⟩
  rw [splitStereo, hcheck, Outcome.guarded_ok, overwrite_eq (Stereo.length_views hcheck)]

theorem convert_grey_first (hpos : 0 < w ∧ 0 < h) (hlimit : 16 * (w * h) < sizeLimit) (hsrc : src.size = 2 * (w * h))
    (order : ByteOrder) {mono : Array UInt8} (hmono : mono.size = w * h) :
    convert (.grey .mono16 w h 16 order) src mono = .written (Stereo.first src.toList).toArray := by
  rw [Stereo.first_eq_map_decode, ← List.map_toArray]
  exact convert_words rfl (.inl rfl) (Request.accepted_grey (.inl rfl) hpos (by decide) hlimit hsrc hmono order)

end Split

/-- **Splitting a stereo frame loses nothing.** A request for a frame of `n` two-byte pixels, between buffers of their
lengths, succeeds and leaves the first byte of pixel `i` at place `i` and the second at place `n + i`, so the halves
taking turns are the frame again. The upper half is what conversion makes of the frame as a grey image of sixteen
significant bits, and a frame of either 16-bit coding is split in the same way. -/
theorem splitStereo_lossless {w h : Nat} {src dst : Array UInt8} (hpos : 0 < w ∧ 0 < h)
    (hlimit : 2 * (w * h) < sizeLimit) (hsrc : src.size = 2 * (w * h)) (hdst : dst.size = 2 * (w * h)) :
    let n := w * h
    let out := splitStereo w h src dst
    (out.result = .ok () ∧ out.dst.size = 2 * n) ∧
      (∀ i < n, out.dst[i]? = src[2 * i]? ∧ out.dst[n + i]? = src[2 * i + 1]?) ∧
      Stereo.interleave (out.dst.toList.take n) (out.dst.toList.drop n) = src.toList ∧
      (16 * n < sizeLimit → ∀ order (mono : Array UInt8), mono.size = n →
        convert (.grey .mono16 w h 16 order) src mono = .written (out.dst.extract 0 n)) ∧
      ∀ (f : Frame) (target : Coding), f.image = src → f.width = w → f.height = h →
        f.coding = .mono16 ∨ f.coding = .raw16 → target = .mono8 ∨ target = .raw8 → f.splitStereo target dst = out := by
  intro n out
  let first := Stereo.first src.toList
  let second := Stereo.second src.toList
  have hout : out = .written (first ++ second).toArray := splitStereo_of_sizes hpos hlimit hsrc hdst
  have hlength : src.toList.length = 2 * n := by rw [Array.length_toList, hsrc]
  have hfirst : first.length = n := by
    rw [Stereo.length_first, hlength]
    omega
  have hsecond : second.length = n := by
    rw [Stereo.length_second, hlength]
    omega
  rw [hout]
  refine ⟨⟨rfl, ?_⟩, fun i hi => ⟨?_, ?_⟩, ?_, fun hbits order mono hmono => ?_, ?_⟩
  · change (first ++ second).toArray.size = 2 * n
    rw [List.size_toArray, List.length_append, hfirst, hsecond]
    omega
  · change (first ++ second).toArray[i]? = src[2 * i]?
    rw [List.getElem?_toArray, List.getElem?_append_left (by omega), Stereo.getElem?_first (by omega),
      Array.getElem?_toList]
  · change (first ++ second).toArray[n + i]? = src[2 * i + 1]?
    rw [List.getElem?_toArray, List.getElem?_append_right (by omega), hfirst, Nat.add_sub_cancel_left,
      Stereo.getElem?_second (by omega), Array.getElem?_toList]
  · change Stereo.interleave ((first ++ second).take n) ((first ++ second).drop n) = src.toList
    rw [← hfirst, List.take_left, List.drop_left]
    exact Stereo.interleave_split (by omega)
  · have htop : (first ++ second).toArray.extract 0 n = first.toArray := by
      rw [List.extract_toArray, List.extract_eq_take_drop, List.drop_zero, Nat.sub_zero, ← hfirst, List.take_left]
    rw [convert_grey_first hpos hbits hsrc order hmono]
    exact congrArg Outcome.written htop.symm
  · intro f target himage hwidth hheight hcoding htarget
    rw [Frame.splitStereo, if_pos ⟨hcoding, htarget⟩, himage, hwidth, hheight]
    exact hout

/-- two rows of two pixels: where their bytes go, in a request and in that of a frame -/
theorem splitStereo_lossless_rows :
    let rows : Array UInt8 := #[1, 11, 2, 12, 3, 13, 4, 14]
    let out := splitStereo 2 2 rows (.replicate 8 0)
    out.result = .ok () ∧ (out.dst[1]? = some 2 ∧ out.dst[4 + 1]? = some 12) ∧
      Stereo.interleave (out.dst.toList.take 4) (out.dst.toList.drop 4) = [1, 11, 2, 12, 3, 13, 4, 14] ∧
      convert (.grey .mono16 2 2 16 .uyvy) rows (.replicate 4 9) = .written (out.dst.extract 0 4) ∧
      Frame.splitStereo ⟨rows, 2, 2, .raw16, 12, some .rggb⟩ .mono8 (.replicate 8 0) = out := by
  intro rows out
  obtain ⟨⟨hok, _⟩, hbytes, hlossless, hgrey, hframe⟩ :=
    splitStereo_lossless (show 0 < 2 ∧ 0 < 2 by decide) (by decide) (show rows.size = 2 * (2 * 2) from rfl)
      (show (Array.replicate 8 (0 : UInt8)).size = 2 * (2 * 2) from rfl)
  refine ⟨hok, ?_, hlossless, ?_, ?_⟩
  · obtain ⟨hupper, hlower⟩ := hbytes 1 (by decide)
    exact ⟨hupper, hlower⟩
  · exact hgrey (by decide) .uyvy _ rfl
  · exact hframe ⟨rows, 2, 2, .raw16, 12, some .rggb⟩ .mono8 rfl rfl rfl (.inr rfl) (.inl rfl)

end Imaging
