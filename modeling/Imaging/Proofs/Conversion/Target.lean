/-
What a conversion leaves in its destination, byte by byte, in plain numbers. `Coding.yuv?` and `Coding.rgb?` say what a
pixel of each coding is, so one statement for each target covers all its sources:
- `getElem?_packRows`: a packed pair holds two neighbours of one row with the mean of their chromas, and the last column
  of an odd row stands in for the missing one;
- `convert_yuv422`, `convert_rgb8`: the requests, for every accepted source, size, order and depth.
-/
import Imaging.Proofs.Conversion.Place
import Imaging.Raster.Basic

namespace Imaging

/-! ## Groups and rows -/

section Lists

variable {α β : Type}

/-- in a list of groups of `n`, element `j` of group `i` stands at `n * i + j` -/
theorem getElem?_flatMap_of_length {f : α → List β} {n : Nat} {xs : List α} (hf : ∀ a ∈ xs, (f a).length = n) {i : Nat}
    {a : α} (ha : xs[i]? = some a) {j : Nat} (hj : j < n) : (xs.flatMap f)[n * i + j]? = (f a)[j]? := by
  induction xs generalizing i with
  | nil => simp at ha
  | cons b xs ih =>
    have hb : (f b).length = n := hf b List.mem_cons_self
    cases i with
    | zero =>
      obtain rfl : b = a := Option.some.inj ha
      rw [List.flatMap_cons, Nat.mul_zero, Nat.zero_add, List.getElem?_append_left (by omega)]
    | succ i =>
      have hplace : n * (i + 1) + j - n = n * i + j := by rw [Nat.mul_succ]; omega
      rw [List.flatMap_cons, List.getElem?_append_right (by rw [hb, Nat.mul_succ]; omega), hb, hplace]
      exact ih (fun a ha => hf a (List.mem_cons_of_mem b ha)) ha

theorem getElem?_rows {w h y : Nat} (hy : y < h) (pixels : List α) :
    (rows w h pixels)[y]? = some ((pixels.drop (w * y)).take w) := by
  induction h generalizing y pixels with
  | zero => cases hy
  | succ h ih =>
    cases y with
    | zero => rfl
    | succ y =>
      rw [rows, List.getElem?_cons_succ, ih (Nat.lt_of_succ_lt_succ hy), List.drop_drop, Nat.mul_succ, Nat.add_comm]

/-- a row of a whole image is a whole row -/
theorem length_of_mem_rows {w h : Nat} {pixels row : List α} (hl : pixels.length = w * h)
    (hrow : row ∈ rows w h pixels) : row.length = w := by
  obtain ⟨y, hy, hget⟩ := List.getElem_of_mem hrow
  rw [length_rows] at hy
  have hsome := getElem?_rows (w := w) hy pixels
  rw [List.getElem?_eq_getElem (by rw [length_rows]; exact hy), hget] at hsome
  have hplace : w * y + w ≤ w * h := by
    rw [← Nat.mul_succ]
    exact Nat.mul_le_mul_left w hy
  rw [Option.some.inj hsome, List.length_take, List.length_drop, hl]
  omega

end Lists

namespace Pixel

/-! ## Packed pairs -/

/-- pair `k` of a row: its second pixel is the next one or, at the end of an odd row, the first one again -/
theorem getElem?_packRow (order : ByteOrder) {row : List (Yuv UInt8)} {k : Nat} {p q : Yuv UInt8}
    (hp : row[2 * k]? = some p) (hq : row[min (2 * k + 1) (row.length - 1)]? = some q) {j : Nat} (hj : j < 4) :
    (packRow order row)[4 * k + j]? = (order.bytes (share p q))[j]? := by
  fun_induction packRow order row generalizing k with
  | case1 p' q' rest ih =>
    cases k with
    | zero =>
      obtain rfl : p' = p := Option.some.inj hp
      obtain rfl : q' = q := Option.some.inj (by simpa using hq)
      rw [Nat.mul_zero, Nat.zero_add, List.getElem?_append_left (by rw [order.length_bytes]; exact hj)]
    | succ k =>
      have hk : 2 * (k + 1) < (p' :: q' :: rest).length := (List.getElem?_eq_some_iff.mp hp).1
      have hlast : min (2 * (k + 1) + 1) ((p' :: q' :: rest).length - 1) =
          min (2 * k + 1) (rest.length - 1) + 1 + 1 := by
        simp only [List.length_cons] at hk ⊢
        omega
      have hplace : 4 * (k + 1) + j - 4 = 4 * k + j := by omega
      rw [hlast, List.getElem?_cons_succ, List.getElem?_cons_succ] at hq
      rw [List.getElem?_append_right (by rw [order.length_bytes]; omega), order.length_bytes, hplace]
      exact ih hp hq
  | case2 p' =>
    cases k with
    | zero =>
      obtain rfl : p' = p := Option.some.inj hp
      obtain rfl : p' = q := Option.some.inj (by simpa using hq)
      rw [Nat.mul_zero, Nat.zero_add]
    | succ k => simp [Nat.mul_succ] at hp
  | case3 => simp at hp

/-- **Packed pairs of an image.** Pair `k` of row `y` holds the pixels of columns `2 * k` and `2 * k + 1`, the last
column twice where the row is odd. -/
theorem getElem?_packRows (order : ByteOrder) {w h : Nat} {pixels : List Pixel} (hl : pixels.length = w * h) {y k : Nat}
    (hy : y < h) (hk : k < evenWidth w / 2) {p q : Pixel} (hp : pixels[y * w + 2 * k]? = some p)
    (hq : pixels[y * w + min (2 * k + 1) (w - 1)]? = some q) {j : Nat} (hj : j < 4) :
    (packRows order w h pixels)[4 * (y * (evenWidth w / 2) + k) + j]? = (order.bytes (share p.toYuv q.toYuv))[j]? := by
  have heven := evenWidth_even w
  have hpadded : evenWidth w = w + w % 2 := rfl
  let row := ((pixels.drop (w * y)).take w).map toYuv
  have hrows := getElem?_rows (w := w) hy pixels
  have hlength : row.length = w := by
    rw [List.length_map, length_of_mem_rows hl (List.mem_of_getElem? hrows)]
  have hrow {x : Nat} {p : Pixel} (hx : x < w) (hp : pixels[y * w + x]? = some p) : row[x]? = some p.toYuv := by
    rw [List.getElem?_map, List.getElem?_take_of_lt hx, List.getElem?_drop, Nat.mul_comm w y, hp, Option.map_some]
  have hbytes : ∀ r ∈ rows w h pixels, (packRow order (r.map toYuv)).length = 2 * evenWidth w := by
    intro r hr
    rw [length_packRow, List.length_map, length_of_mem_rows hl hr]
  have hplace : 4 * (y * (evenWidth w / 2) + k) + j = 2 * evenWidth w * y + (4 * k + j) := by
    have hfour : 4 * (evenWidth w / 2) = 2 * evenWidth w := by omega
    rw [Nat.mul_add, Nat.mul_left_comm, hfour, Nat.mul_comm y, Nat.add_assoc]
  have hp' := hrow (by omega) hp
  have hq' := hrow (by omega) hq
  rw [hplace, packRows, getElem?_flatMap_of_length hbytes hrows (by omega)]
  exact getElem?_packRow order hp' (by rw [hlength]; exact hq') hj

theorem getElem?_packRgb8 {pixels : List Pixel} {i : Nat} {p : Pixel} (hp : pixels[i]? = some p) {j : Nat} (hj : j < 3) :
    (packRgb8 pixels)[3 * i + j]? = [p.toRgb.r, p.toRgb.g, p.toRgb.b][j]? := by
  have hbytes : ∀ p ∈ pixels, [p.toRgb.r, p.toRgb.g, p.toRgb.b].length = 3 := fun _ _ => rfl
  exact getElem?_flatMap_of_length hbytes hp hj

end Pixel

/-! ## Requests -/

namespace Request

variable {r : Request} {src dst : Array UInt8}

theorem result_eq_ok_iff : (convert r src dst).result = .ok () ↔ r.check src.size dst.size = .ok () := by
  rw [convert, Outcome.guarded_result]
  cases r.check src.size dst.size with
  | error e => simp [Except.map]
  | ok _ => simp [Except.map]

/-- the conditions that a request has to meet -/
theorem accepted_iff : (convert r src dst).result = .ok () ↔
    r.target.Accepts r.source ∧ r.SizeFits ∧ (r.source.sampleBits = 16 → ValidDepth r.bits) ∧
      r.source.bufferLength? r.width r.height = some src.size ∧
        r.target.coding.bufferLength? r.paddedWidth r.height = some dst.size :=
  result_eq_ok_iff.trans check_eq_ok_iff

/-- an accepted request leaves the converted image and nothing else -/
theorem convert_of_check (hcheck : r.check src.size dst.size = .ok ()) :
    convert r src dst = .written (r.output src.toList).toArray := by
  rw [convert, hcheck, Outcome.guarded_ok]
  exact congrArg Outcome.written (overwrite_eq (length_output hcheck))

theorem dst_convert (hcheck : r.check src.size dst.size = .ok ()) :
    (convert r src dst).dst = (r.output src.toList).toArray := by
  rw [convert_of_check hcheck, Outcome.written]

theorem exists_pixel (hcheck : r.check src.size dst.size = .ok ()) {x y : Nat} (hx : x < r.width) (hy : y < r.height) :
    ∃ p, (Pixel.unpack r.source r.sourceOrder r.bits src.toList)[y * r.width + x]? = some p := by
  have hplace : y * r.width + x < (Pixel.unpack r.source r.sourceOrder r.bits src.toList).length := by
    rw [length_pixels hcheck]
    exact Raster.place_lt hx hy
  exact ⟨_, List.getElem?_eq_getElem hplace⟩

end Request

theorem widen_mean (a b : UInt8) : widen (mean a b) = (widen a + widen b) / 2 := by
  have := a.toNat_lt
  have := b.toNat_lt
  rw [widen, mean, UInt8.toNat_ofNat', widen, widen]
  omega

theorem ByteOrder.map_widen_bytes (order : ByteOrder) (p q : Yuv UInt8) :
    (order.bytes (Pixel.share p q)).map widen =
      match order with
      | .uyvy => [(widen p.u + widen q.u) / 2, widen p.y, (widen p.v + widen q.v) / 2, widen q.y]
      | .yuyv => [widen p.y, (widen p.u + widen q.u) / 2, widen q.y, (widen p.v + widen q.v) / 2] := by
  cases order <;> simp [bytes, Pixel.share, widen_mean]

/-- **The YUV 4:2:2 target.** The four bytes of pair `k` of row `y` are the lumas of its two columns and the means of
their chromas, rounded down, in the order asked for. The second column of the last pair of an odd row is the first one
again, and a YUV 4:2:2 source is read as U Y0 V Y1 whatever the order. -/
theorem convert_yuv422 (r : Request) (src dst : Array UInt8) (htarget : r.target = .yuv422)
    (hok : (convert r src dst).result = .ok ()) :
    let image := (convert r src dst).dst
    let pairs := (r.width + r.width % 2) / 2
    ∀ y k, y < r.height → k < pairs → ∃ p q : Yuv Int,
      r.source.yuv? r.bits src.toList (y * r.width + 2 * k) = some p ∧
      r.source.yuv? r.bits src.toList (y * r.width + min (2 * k + 1) (r.width - 1)) = some q ∧
      let u := (p.u + q.u) / 2
      let v := (p.v + q.v) / 2
      ∀ j < 4, image[4 * (y * pairs + k) + j]?.map (fun byte => (byte.toNat : Int)) =
        (match r.order with
          | .uyvy => [u, p.y, v, q.y]
          | .yuyv => [p.y, u, q.y, v])[j]? := by
  intro image pairs y k hy hk
  have hcheck := Request.result_eq_ok_iff.mp hok
  have himage : image = (r.output src.toList).toArray := Request.dst_convert hcheck
  have hhalf : 2 * pairs = r.width + r.width % 2 := by omega
  have horder : r.sourceOrder = .uyvy := by rw [Request.sourceOrder, htarget]
  obtain ⟨p, hp⟩ := Request.exists_pixel hcheck (show 2 * k < r.width by omega) hy
  obtain ⟨q, hq⟩ := Request.exists_pixel hcheck (show min (2 * k + 1) (r.width - 1) < r.width by omega) hy
  refine ⟨p.toYuv.map widen, q.toYuv.map widen, ?_, ?_, ?_⟩
  · rw [horder] at hp
    exact Coding.yuv?_eq_of_unpack hp
  · rw [horder] at hq
    exact Coding.yuv?_eq_of_unpack hq
  · intro u v j hj
    have hbyte : image[4 * (y * pairs + k) + j]? = (r.order.bytes (Pixel.share p.toYuv q.toYuv))[j]? := by
      rw [himage, List.getElem?_toArray, Request.output, htarget]
      exact Pixel.getElem?_packRows r.order (Request.length_pixels hcheck) hy hk hp hq hj
    rw [hbyte, ← List.getElem?_map]
    exact congrArg (·[j]?) (r.order.map_widen_bytes p.toYuv q.toYuv)

/-- pure red, 12-bit colours, the second pair of a group of four, means of odd sums, a source that is packed already,
the lone last pixel of an odd row, and a grey sample above its depth -/
theorem convert_yuv422_pairs :
    let holds (r : Request) (src : Array UInt8) (n place : Nat) (bytes : List Int) : Prop :=
      ∀ j < 4, (convert r src (.replicate n 7)).dst[place + j]?.map (fun byte => (byte.toNat : Int)) = bytes[j]?
    holds ⟨.rgb8, .yuv422, 2, 2, .yuyv, 8⟩ #[100, 100, 100, 50, 50, 50, 255, 0, 0, 255, 0, 0] 8 4
        [76, 85, 76, 255] ∧
      holds ⟨.rgb16, .yuv422, 2, 1, .uyvy, 12⟩ #[6, 64, 6, 64, 6, 64, 3, 32, 3, 32, 3, 47] 4 0
        [128, 100, 128, 50] ∧
      holds ⟨.yuv411, .yuv422, 4, 1, .yuyv, 8⟩ #[1, 2, 3, 4, 5, 6] 8 4 [5, 1, 6, 4] ∧
      holds ⟨.yuv444, .yuv422, 2, 1, .uyvy, 8⟩ #[10, 20, 30, 41, 50, 61] 4 0 [25, 20, 45, 50] ∧
      holds ⟨.yuv422, .yuv422, 2, 1, .yuyv, 8⟩ #[1, 2, 3, 4] 4 0 [2, 1, 4, 3] ∧
      holds ⟨.mono8, .yuv422, 3, 2, .uyvy, 8⟩ #[10, 20, 30, 40, 50, 60] 16 12 [128, 60, 128, 60] ∧
      holds ⟨.mono16, .yuv422, 2, 1, .yuyv, 12⟩ #[1, 35, 255, 255] 4 0 [18, 128, 255, 128] := by
  intro holds
  -- the numbers of the two pixels determine the bytes of their pair
  have pair {r : Request} {src : Array UInt8} {n : Nat} (htarget : r.target = .yuv422)
      (hok : (convert r src (.replicate n 7)).result = .ok ()) (y k : Nat) (p q : Yuv Int)
      (hin : y < r.height ∧ k < (r.width + r.width % 2) / 2)
      (hp : r.source.yuv? r.bits src.toList (y * r.width + 2 * k) = some p)
      (hq : r.source.yuv? r.bits src.toList (y * r.width + min (2 * k + 1) (r.width - 1)) = some q) :
      holds r src n (4 * (y * ((r.width + r.width % 2) / 2) + k))
        (match r.order with
          | .uyvy => [(p.u + q.u) / 2, p.y, (p.v + q.v) / 2, q.y]
          | .yuyv => [p.y, (p.u + q.u) / 2, q.y, (p.v + q.v) / 2]) := by
    obtain ⟨p', q', hp', hq', hbytes⟩ := convert_yuv422 r src _ htarget hok y k hin.1 hin.2
    cases hp.symm.trans hp'
    cases hq.symm.trans hq'
    exact hbytes
  refine ⟨?_, ?_, ?_, ?_, ?_, ?_, ?_⟩
  · exact pair rfl (Request.accepted_iff.mpr (by decide)) 1 0 ⟨76, 85, 255⟩ ⟨76, 85, 255⟩ (by decide) rfl rfl
  · exact pair rfl (Request.accepted_iff.mpr (by decide)) 0 0 ⟨100, 128, 128⟩ ⟨50, 128, 128⟩ (by decide) rfl rfl
  · exact pair rfl (Request.accepted_iff.mpr (by decide)) 0 1 ⟨5, 1, 4⟩ ⟨6, 1, 4⟩ (by decide) rfl rfl
  · exact pair rfl (Request.accepted_iff.mpr (by decide)) 0 0 ⟨20, 10, 30⟩ ⟨50, 41, 61⟩ (by decide) rfl rfl
  · exact pair rfl (Request.accepted_iff.mpr (by decide)) 0 0 ⟨2, 1, 3⟩ ⟨4, 1, 3⟩ (by decide) rfl rfl
  · exact pair rfl (Request.accepted_iff.mpr (by decide)) 1 1 ⟨60, 128, 128⟩ ⟨60, 128, 128⟩ (by decide) rfl rfl
  · exact pair rfl (Request.accepted_iff.mpr (by decide)) 0 0 ⟨18, 128, 128⟩ ⟨255, 128, 128⟩ (by decide) rfl rfl

/-- **The RGB target.** The three bytes of pixel `(x, y)` are the colour of the source's pixel, and the transform of a
luma with chroma is given by the three fixed-point sums, each division rounded down, within `0 … 255`. -/
theorem convert_rgb8 (r : Request) (src dst : Array UInt8) (htarget : r.target = .rgb8)
    (hok : (convert r src dst).result = .ok ()) :
    let image := (convert r src dst).dst
    (∀ x y, x < r.width → y < r.height → ∃ p : Rgb Int,
      r.source.rgb? r.order r.bits src.toList (y * r.width + x) = some p ∧
      ∀ j < 3, image[3 * (y * r.width + x) + j]?.map (fun byte => (byte.toNat : Int)) = [p.r, p.g, p.b][j]?) ∧
    ∀ p : Yuv UInt8,
      let colour := Yuv.colour { y := p.y.toNat, u := p.u.toNat, v := p.v.toNat }
      p.toRgb.r.toNat = colour.r ∧ p.toRgb.g.toNat = colour.g ∧ p.toRgb.b.toNat = colour.b := by
  intro image
  refine ⟨?_, fun p => Rgb.mk.inj p.colour_widen.symm⟩
  intro x y hx hy
  have hcheck := Request.result_eq_ok_iff.mp hok
  have himage : image = (r.output src.toList).toArray := Request.dst_convert hcheck
  have horder : r.sourceOrder = r.order := by rw [Request.sourceOrder, htarget]
  obtain ⟨p, hp⟩ := Request.exists_pixel hcheck hx hy
  refine ⟨p.toRgb.map widen, ?_, fun j hj => ?_⟩
  · rw [horder] at hp
    exact Coding.rgb?_eq_of_unpack hp
  · have hbyte : image[3 * (y * r.width + x) + j]? = [p.toRgb.r, p.toRgb.g, p.toRgb.b][j]? := by
      rw [himage, List.getElem?_toArray, Request.output, htarget]
      exact Pixel.getElem?_packRgb8 hp hj
    rw [hbyte, ← List.getElem?_map]
    rfl

/-- packed pairs in both orders, a colour that is clipped, a chroma of its own, the third pixel of a group of four, and
samples of 16 and of 8 bits -/
theorem convert_rgb8_pixels :
    let holds (r : Request) (src : Array UInt8) (n place : Nat) (bytes : List Int) : Prop :=
      ∀ j < 3, (convert r src (.replicate n 7)).dst[place + j]?.map (fun byte => (byte.toNat : Int)) = bytes[j]?
    holds ⟨.yuv422, .rgb8, 2, 1, .yuyv, 8⟩ #[100, 128, 50, 200] 6 0 [200, 49, 100] ∧
      holds ⟨.yuv422, .rgb8, 2, 1, .uyvy, 8⟩ #[128, 100, 200, 50] 6 3 [150, 0, 50] ∧
      holds ⟨.yuv444, .rgb8, 2, 1, .uyvy, 8⟩ #[128, 100, 200, 200, 100, 128] 6 3 [100, 76, 227] ∧
      holds ⟨.yuv411, .rgb8, 4, 1, .uyvy, 8⟩ #[128, 10, 20, 128, 30, 40] 12 6 [30, 30, 30] ∧
      holds ⟨.rgb16, .rgb8, 1, 1, .uyvy, 16⟩ #[16, 0, 0, 128, 255, 255] 3 0 [16, 0, 255] ∧
      holds ⟨.mono8, .rgb8, 2, 1, .uyvy, 8⟩ #[7, 9] 6 3 [9, 9, 9] ∧
      holds ⟨.raw16, .rgb8, 1, 1, .uyvy, 10⟩ #[3, 255] 3 0 [255, 255, 255] := by
  intro holds
  have pixel {r : Request} {src : Array UInt8} {n : Nat} (htarget : r.target = .rgb8)
      (hok : (convert r src (.replicate n 7)).result = .ok ()) (x y : Nat) (p : Rgb Int)
      (hin : x < r.width ∧ y < r.height)
      (hp : r.source.rgb? r.order r.bits src.toList (y * r.width + x) = some p) :
      holds r src n (3 * (y * r.width + x)) [p.r, p.g, p.b] := by
    obtain ⟨p', hp', hbytes⟩ := (convert_rgb8 r src _ htarget hok).1 x y hin.1 hin.2
    cases hp.symm.trans hp'
    exact hbytes
  refine ⟨?_, ?_, ?_, ?_, ?_, ?_, ?_⟩
  · exact pixel rfl (Request.accepted_iff.mpr (by decide)) 0 0 ⟨200, 49, 100⟩ (by decide) rfl
  · exact pixel rfl (Request.accepted_iff.mpr (by decide)) 1 0 ⟨150, 0, 50⟩ (by decide) rfl
  · exact pixel rfl (Request.accepted_iff.mpr (by decide)) 1 0 ⟨100, 76, 227⟩ (by decide) rfl
  · exact pixel rfl (Request.accepted_iff.mpr (by decide)) 2 0 ⟨30, 30, 30⟩ (by decide) rfl
  · exact pixel rfl (Request.accepted_iff.mpr (by decide)) 0 0 ⟨16, 0, 255⟩ (by decide) rfl
  · exact pixel rfl (Request.accepted_iff.mpr (by decide)) 1 0 ⟨9, 9, 9⟩ (by decide) rfl
  · exact pixel rfl (Request.accepted_iff.mpr (by decide)) 0 0 ⟨255, 255, 255⟩ (by decide) rfl

end Imaging
