/-
Images that are written and read again, or read and written.
- Grey levels and colours come back as they were: `packMono8_ofLuma`, `packRgb8_ofRgb`, `ofRgb_packRgb8`.
- The bytes of packed pairs come back as they were, or exchanged two by two where they are written in the other order:
  `packRow_ofYuv422`, `packRow_other`.
- The pixels of packed pairs come back in the same way for both orders, with one chroma for every two neighbours:
  `ofYuv422_packRow`. What is lost is the difference of two chromas, so nothing is lost where there is none:
  `shared_of_sameChroma`.
Grey levels of 16-bit samples are those samples, reduced (`convert_words`).
-/
import Imaging.Proofs.Conversion.Groups

namespace Imaging

def ByteOrder.other : ByteOrder → ByteOrder
  | uyvy => yuyv
  | yuyv => uyvy

/-- the bytes of every two neighbours exchanged -/
def exchange : List UInt8 → List UInt8
  | a :: b :: rest => b :: a :: exchange rest
  | _ => []

theorem chunkwise_exchange : Chunkwise 2 exchange where
  nil := rfl
  append {s rest} hs := by
    match s, hs with
    | [a, b], _ => rfl

theorem exchange_bytes (order : ByteOrder) (p : PixelPair) (rest : List UInt8) :
    exchange (order.bytes p ++ rest) = order.other.bytes p ++ exchange rest := by
  cases order <;> rfl

namespace Pixel

/-! ## Grey levels and colours -/

theorem packMono8_ofLuma (bytes : List UInt8) : packMono8 (ofLuma bytes) = bytes := by
  rw [packMono8, ofLuma, List.map_map]
  exact List.map_id bytes

theorem chunkwise_packRgb8 {n : Nat} {read : List UInt8 → List Pixel} (hread : Chunkwise n read) :
    Chunkwise n fun s => packRgb8 (read s) := hread.flatMap _

theorem packRgb8_ofRgb {bytes : List UInt8} {q : Nat} (hbytes : bytes.length = 3 * q) :
    packRgb8 (ofRgb bytes) = bytes := by
  refine (chunkwise_packRgb8 chunkwise_ofRgb).ext .id hbytes fun s hs => ?_
  match s, hs with
  | [_, _, _], _ => rfl

theorem ofRgb_packRgb8 (pixels : List Pixel) : ofRgb (packRgb8 pixels) = pixels.map fun p => rgb p.toRgb := by
  induction pixels with
  | nil => rfl
  | cons p pixels ih =>
    rw [List.map_cons, ← ih]
    rfl

theorem packRgb8_congr {pixels pixels' : List Pixel} (h : pixels.map toRgb = pixels'.map toRgb) :
    packRgb8 pixels = packRgb8 pixels' := by
  have hmap (pixels : List Pixel) : packRgb8 pixels = (pixels.map toRgb).flatMap fun c => [c.r, c.g, c.b] := by
    rw [List.flatMap_map, packRgb8]
  rw [hmap, hmap, h]

/-! ## Bytes of packed pairs -/

theorem share_ofPair (p : PixelPair) : share ⟨p.y0, p.u, p.v⟩ ⟨p.y1, p.u, p.v⟩ = p := by
  rw [share, mean_self, mean_self]

theorem packRow_ofYuv422 (order : ByteOrder) {bytes : List UInt8} {q : Nat} (hbytes : bytes.length = 4 * q) :
    packRow order ((ofYuv422 order bytes).map toYuv) = bytes := by
  have hread : Chunkwise 4 fun s => packRow order ((ofYuv422 order s).map toYuv) :=
    ((chunkwise_ofYuv422 order).map toYuv).comp ((chunkwise_packRow order).mul 1) fun s hs => by
      rw [List.length_map, length_ofYuv422, hs]
  refine hread.ext .id hbytes fun s hs => ?_
  match s, hs with
  | [a, b, c, d], _ =>
    have hpair : packRow order ((ofPair (order.pair a b c d)).map toYuv) = order.bytes (order.pair a b c d) ++ [] :=
      congrArg (order.bytes · ++ []) (share_ofPair _)
    exact hpair.trans (by rw [List.append_nil, order.bytes_pair, id])

/-- **The other order** exchanges the bytes. -/
theorem packRow_other (order : ByteOrder) (row : List (Yuv UInt8)) :
    packRow order.other row = exchange (packRow order row) := by
  fun_induction packRow order row with
  | case1 p q rest ih => rw [exchange_bytes, ← ih, packRow]
  | case2 p =>
    rw [← List.append_nil (order.bytes _), exchange_bytes]
    exact (List.append_nil _).symm
  | case3 => rfl

theorem packRow_yuyv_ofYuv422 {bytes : List UInt8} {q : Nat} (hbytes : bytes.length = 4 * q) :
    packRow .yuyv ((ofYuv422 .uyvy bytes).map toYuv) = exchange bytes :=
  (packRow_other .uyvy _).trans (congrArg exchange (packRow_ofYuv422 .uyvy hbytes))

/-! ## Pixels of packed pairs -/

/-- a row as its packed pairs hold it: every two neighbours have one chroma -/
def shared : List (Yuv UInt8) → List Pixel
  | p :: q :: rest => ofPair (share p q) ++ shared rest
  | [p] => ofPair (share p p)
  | [] => []

theorem ofYuv422_bytes (order : ByteOrder) (p : PixelPair) (rest : List UInt8) :
    ofYuv422 order (order.bytes p ++ rest) = ofPair p ++ ofYuv422 order rest := by
  cases order <;> rfl

/-- **Packed pairs read back** are the row with its chroma shared, in either order. -/
theorem ofYuv422_packRow (order : ByteOrder) (row : List (Yuv UInt8)) :
    ofYuv422 order (packRow order row) = shared row := by
  fun_induction packRow order row with
  | case1 p q rest ih => rw [ofYuv422_bytes, ih, shared]
  | case2 p =>
    rw [← List.append_nil (order.bytes _), ofYuv422_bytes]
    exact List.append_nil _
  | case3 => rfl

/-- the mean of equal chromas is exact -/
theorem shared_of_sameChroma {row : List (Yuv UInt8)} (heven : row.length % 2 = 0)
    (hchroma : ∀ k p q, row[2 * k]? = some p → row[2 * k + 1]? = some q → p.u = q.u ∧ p.v = q.v) :
    shared row = row.map yuv := by
  fun_induction shared row with
  | case1 p q rest ih =>
    obtain ⟨y, u, v⟩ := p
    obtain ⟨y', u', v'⟩ := q
    obtain ⟨rfl, rfl⟩ : u = u' ∧ v = v' := hchroma 0 _ _ rfl rfl
    have hpair : ofPair (share ⟨y, u, v⟩ ⟨y', u, v⟩) = [yuv ⟨y, u, v⟩, yuv ⟨y', u, v⟩] := by
      rw [share, mean_self, mean_self, ofPair]
    simp only [List.length_cons] at heven
    rw [hpair, ih (by omega) fun k => hchroma (k + 1)]
    rfl
  | case2 p => simp at heven
  | case3 => rfl

end Pixel

/-! ## Grey levels of 16-bit samples -/

/-- **The samples that a conversion reduces** are those that are read from its source. -/
theorem convert_words {r : Request} {src mono : Array UInt8} (htarget : r.target = .mono8)
    (hsource : r.source = .mono16 ∨ r.source = .raw16) (hok : (convert r src mono).result = .ok ()) :
    convert r src mono = .written ((BigEndian.decode src.toList).toArray.map (reduce r.bits)) := by
  have houtput : r.output src.toList = (BigEndian.decode src.toList).map (reduce r.bits) := by
    rw [Request.output, htarget]
    rcases hsource with h | h <;> rw [h] <;> exact Pixel.packMono8_ofLuma _
  rw [Request.convert_of_check (Request.result_eq_ok_iff.mp hok), houtput, List.map_toArray]

/-- the request for the grey levels of an image of 16-bit samples -/
def Request.grey (source : Coding) (w h bits : Nat) (order : ByteOrder) : Request where
  source := source
  target := .mono8
  width := w
  height := h
  order := order
  bits := bits

theorem Request.accepted_grey {source : Coding} (hsource : source = .mono16 ∨ source = .raw16) {w h bits : Nat}
    (hpos : 0 < w ∧ 0 < h) (hdepth : ValidDepth bits) (hlimit : 16 * (w * h) < sizeLimit) {src mono : Array UInt8}
    (hsrc : src.size = 2 * (w * h)) (hmono : mono.size = w * h) (order : ByteOrder) :
    (convert (grey source w h bits order) src mono).result = .ok () := by
  have hgrey : Coding.mono8.bufferLength? w h = some mono.size := by
    refine Coding.bufferLength?_eq_some_iff.mpr ?_
    simp only [Coding.bitsPerPixel]
    omega
  have hsamples : source.bufferLength? w h = some src.size := by
    refine Coding.bufferLength?_eq_some_iff.mpr ?_
    rcases hsource with rfl | rfl
    all_goals
      simp only [Coding.bitsPerPixel]
      omega
  have haccepts : Target.mono8.Accepts source := by
    rcases hsource with rfl | rfl <;> decide
  have hsize : (grey source w h bits order).SizeFits := by
    rcases hsource with rfl | rfl
    · exact ⟨hpos.1, hpos.2, (by rintro ⟨⟩), (by rintro ⟨⟩), (by rintro ⟨⟩)⟩
    · exact ⟨hpos.1, hpos.2, (by rintro ⟨⟩), (by rintro ⟨⟩), (by rintro ⟨⟩)⟩
  exact accepted_iff.mpr ⟨haccepts, hsize, fun _ => hdepth, hsamples, hgrey⟩

end Imaging
