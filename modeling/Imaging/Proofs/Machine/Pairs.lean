/-
Packed pairs in machine words. The sums of the colour transforms stay within 20 of 32 bits (`toYuv_eq`, `toRgb_eq`), a
sample is read from as many bytes as it has (`Samples`), and each loop over chunks of the source writes, chunk by chunk,
the pairs that its pixels make. Rows matter for grey alone: `pairsFromMono_eq` is the only loop over rows, and the one
whose last chunk may be half as long as the others.
-/
import Imaging.Machine.Conversion
import Imaging.Proofs.Conversion.ReadBack
import Imaging.Proofs.Machine.Slice

namespace Imaging.Machine

/-! ## Colours and samples -/

theorem weigh_eq (p : Rgb UInt8) : (p.map fun c => I32.of (widen c)).weigh = (p.map widen).weigh.map .of := by
  have hr := widen_nonneg p.r
  have hr' := widen_le p.r
  have hg := widen_nonneg p.g
  have hg' := widen_le p.g
  have hb := widen_nonneg p.b
  have hb' := widen_le p.b
  simp (disch := first | omega | decide) only [Rgb.map, Rgb.weigh, Yuv.map, I32.add_eq, I32.ofNat_eq, I32.mul_eq,
    I32.sub_eq, I32.neg_eq, I32.div_eq]

theorem centre_weigh_eq (p : Yuv UInt8) :
    (p.map fun c => I32.of (widen c)).centre.weigh = (p.map widen).centre.weigh.map .of := by
  have hy := widen_nonneg p.y
  have hy' := widen_le p.y
  have hu := widen_nonneg p.u
  have hu' := widen_le p.u
  have hv := widen_nonneg p.v
  have hv' := widen_le p.v
  simp (disch := first | omega | decide) only [Rgb.map, Yuv.weigh, Yuv.centre, Yuv.map, I32.add_eq, I32.ofNat_eq,
    I32.mul_eq, I32.sub_eq, I32.div_eq]

theorem toYuv_eq (p : Rgb UInt8) : toYuv p = .ok p.toYuv := by
  rw [toYuv, weigh_eq]
  rfl

theorem toRgb_eq (p : Yuv UInt8) : toRgb p = .ok p.toRgb := by
  rw [toRgb, centre_weigh_eq]
  rfl

theorem mean_eq (a b : UInt8) : mean a b = .ok (Imaging.mean a b) := by
  have ha := a.toNat_lt
  have hb := b.toNat_lt
  rw [mean, if_pos (by omega)]
  rfl

theorem reduce_eq {bits : Nat} (hbits : ValidDepth bits) (v : UInt16) : reduce bits v = .ok (Imaging.reduce bits v) := by
  obtain ⟨hmin, hmax⟩ := hbits
  rw [reduce, sub_eq hmin, ok_bind, if_pos (by omega)]
  rfl

/-- a reader takes one sample from `k` bytes, as an image is read -/
structure Samples (k : Nat) (read : List UInt8 → Run UInt8) (value : List UInt8 → List UInt8) : Prop where
  chunkwise : Chunkwise k value
  read : ∀ s, s.length = k → ∃ v, read s = .ok v ∧ value s = [v]

theorem samples_byte {c : Coding} (hc : c.sampleBits ≠ 16) (bits : Nat) : Samples 1 byteSample (narrow c bits) where
  chunkwise := by
    have hnarrow : narrow c bits = id := funext fun s => narrow_of_bytes hc bits s
    rw [hnarrow]
    exact .id
  read s hs := by
    match s, hs with
    | [v], _ => exact ⟨v, rfl, narrow_of_bytes hc bits _⟩

theorem samples_word {c : Coding} (hc : c.sampleBits = 16) {bits : Nat} (hbits : ValidDepth bits) :
    Samples 2 (wordSample bits) (narrow c bits) where
  chunkwise := by
    have hchunk := chunkwise_narrow c bits
    rwa [hc] at hchunk
  read s hs := by
    match s, hs with
    | [hi, lo], _ =>
      refine ⟨_, reduce_eq hbits (BigEndian.join hi lo), ?_⟩
      rw [narrow, if_pos hc]
      rfl

/-! ## Packed pairs -/

theorem putPair_eq (order : ByteOrder) (p : PixelPair) {d : List UInt8} (hd : d.length = 4) :
    putPair order p d = .ok (order.bytes p) := by
  match d, hd with
  | [_, _, _, _], _ => cases order <;> rfl

/-- pixels that are written in pairs without regard to rows -/
abbrev pairs (order : ByteOrder) (pixels : List Pixel) : List UInt8 := Pixel.packRow order (pixels.map Pixel.toYuv)

variable {order : ByteOrder} {src dst : List UInt8} {q : Nat}

theorem pairs_cons (p q : Pixel) (rest : List Pixel) :
    pairs order (p :: q :: rest) = order.bytes (Pixel.share p.toYuv q.toYuv) ++ pairs order rest := rfl

theorem pairs_ofPair (order : ByteOrder) (p : PixelPair) (rest : List Pixel) :
    pairs order (Pixel.ofPair p ++ rest) = order.bytes p ++ pairs order rest :=
  (pairs_cons _ _ rest).trans (by rw [Pixel.toYuv, Pixel.toYuv, Pixel.share_ofPair])

/-- pixels that are read in chunks, an even number from each, are written in chunks -/
theorem chunkwise_pairs {n : Nat} {read : List UInt8 → List Pixel} (hread : Chunkwise n read) (k : Nat)
    (hlength : ∀ s, s.length = n → (read s).length = k * 2) : Chunkwise n fun s => pairs order (read s) :=
  (hread.map Pixel.toYuv).comp ((Pixel.chunkwise_packRow order).mul k) fun s hs => by rw [List.length_map, hlength s hs]

theorem pairsFromYuv422_eq (hsrc : src.length = 4 * q) (hdst : dst.length = 4 * q) :
    pairsFromYuv422 order src dst = .ok (pairs order (Pixel.ofYuv422 .uyvy src)) := by
  cases order with
  | uyvy => rw [pairsFromYuv422, copy_eq (by omega), pairs, Pixel.packRow_ofYuv422 .uyvy hsrc]
  | yuyv =>
    rw [pairs, Pixel.packRow_yuyv_ofYuv422 hsrc]
    refine eachChunk_eq (q := 2 * q) (by decide) (by decide) (by omega) (by omega) chunkwise_exchange fun s d hs hd => ?_
    match s, d, hs, hd with
    | [_, _], [_, _], _, _ => rfl

theorem pairsFromYuv411_eq (hsrc : src.length = 6 * q) (hdst : dst.length = 8 * q) :
    pairsFromYuv411 order src dst = .ok (pairs order (Pixel.ofYuv411 src)) := by
  have hpairs : Chunkwise 6 fun s => pairs order (Pixel.ofYuv411 s) :=
    chunkwise_pairs Pixel.chunkwise_ofYuv411 2 fun s hs => by rw [Pixel.length_ofYuv411, hs]
  refine eachChunk_eq (by decide) (by decide) hsrc hdst hpairs fun s d hs hd => ?_
  match s, d, hs, hd with
  | [u, y0, y1, v, y2, y3], [_, _, _, _, _, _, _, _], _, _ =>
    let p : PixelPair := { y0 := y0, y1 := y1, u := u, v := v }
    let p' : PixelPair := { y0 := y2, y1 := y3, u := u, v := v }
    have hvalue : pairs order (Pixel.ofYuv411 [u, y0, y1, v, y2, y3]) = order.bytes p ++ order.bytes p' := by
      change pairs order (Pixel.ofPair p ++ (Pixel.ofPair p' ++ [])) = _
      rw [pairs_ofPair, pairs_ofPair]
      exact congrArg _ (List.append_nil _)
    rw [hvalue]
    cases order <;> rfl

theorem pairsFromYuv444_eq (hsrc : src.length = 6 * q) (hdst : dst.length = 4 * q) :
    pairsFromYuv444 order src dst = .ok (pairs order (Pixel.ofYuv444 src)) := by
  have hpairs : Chunkwise 6 fun s => pairs order (Pixel.ofYuv444 s) :=
    chunkwise_pairs (Pixel.chunkwise_ofYuv444.mul 2) 1 fun s hs => by rw [Pixel.length_ofYuv444, hs]
  refine eachChunk_eq (by decide) (by decide) hsrc hdst hpairs fun s d hs hd => ?_
  match s, hs with
  | [u₀, y₀, v₀, u₁, y₁, v₁], _ =>
    have hvalue : pairs order (Pixel.ofYuv444 [u₀, y₀, v₀, u₁, y₁, v₁]) =
        order.bytes { y0 := y₀, y1 := y₁, u := Imaging.mean u₀ u₁, v := Imaging.mean v₀ v₁ } := List.append_nil _
    rw [hvalue]
    simp only [fetch, List.getElem?_cons_zero, List.getElem?_cons_succ, ok_bind, mean_eq, putPair_eq _ _ hd]

/-! ## Samples in a row -/

section Samples

variable {k : Nat} {read : List UInt8 → Run UInt8} {value : List UInt8 → List UInt8} (h : Samples k read value)
  {s : List UInt8}

include h

theorem Samples.cons (hs : k ≤ s.length) : ∃ v, read (s.take k) = .ok v ∧ value s = v :: value (s.drop k) := by
  have hfirst : (s.take k).length = k := by rw [List.length_take]; omega
  obtain ⟨v, hread, hvalue⟩ := h.read _ hfirst
  refine ⟨v, hread, ?_⟩
  have happend : value (s.take k ++ s.drop k) = value (s.take k) ++ value (s.drop k) := h.chunkwise.append hfirst
  rwa [List.take_append_drop, hvalue] at happend

theorem Samples.length_value {w : Nat} (hs : s.length = k * w) : (value s).length = w := by
  induction w generalizing s with
  | zero =>
    obtain rfl := List.eq_nil_of_length_eq_zero (by rw [hs, Nat.mul_zero])
    rw [h.chunkwise.nil]
    rfl
  | succ w ih =>
    rw [Nat.mul_succ] at hs
    obtain ⟨v, _, hvalue⟩ := h.cons (s := s) (by omega)
    have hrest := ih (s := s.drop k) (by rw [List.length_drop]; omega)
    rw [hvalue, List.length_cons, hrest]

theorem pixelFromRgb_eq (hlimit : 2 * k < sizeLimit) (hs : s.length = 3 * k) :
    ∃ p : Rgb UInt8, pixelFromRgb k read s = .ok p.toYuv ∧ value s = [p.r, p.g, p.b] := by
  obtain ⟨r, hr, hvr⟩ := h.cons (s := s) (by omega)
  obtain ⟨g, hg, hvg⟩ := h.cons (s := s.drop k) (by rw [List.length_drop]; omega)
  obtain ⟨b, hb, hvb⟩ := h.cons (s := (s.drop k).drop k) (by rw [List.length_drop, List.length_drop]; omega)
  have hend : ((s.drop k).drop k).drop k = [] := by
    rw [List.drop_drop, List.drop_drop]
    exact List.drop_eq_nil_of_le (by omega)
  refine ⟨⟨r, g, b⟩, ?_, by rw [hvr, hvg, hvb, hend, h.chunkwise.nil]⟩
  -- the three slices are the first samples of what is left each time
  have hmiddle : (s.take (2 * k)).drop k = (s.drop k).take k := by
    rw [List.drop_take]
    congr 1
    omega
  have hlast : (s.take s.length).drop (2 * k) = ((s.drop k).drop k).take k := by
    rw [List.take_length, List.drop_drop, List.take_of_length_le (by rw [List.length_drop]; omega)]
    congr 1
    omega
  rw [pixelFromRgb, slice_eq (by omega) (by omega), ok_bind, List.drop_zero, hr, ok_bind, mul_eq hlimit, ok_bind,
    slice_eq (by omega) (by omega), ok_bind, hmiddle, hg, ok_bind, slice_eq (by omega) (by omega), ok_bind, hlast, hb,
    ok_bind, toYuv_eq]

theorem pairsFromRgb_eq (hk : 0 < k) (hlimit : 6 * k < sizeLimit) (hsrc : src.length = 6 * k * q)
    (hdst : dst.length = 4 * q) :
    pairsFromRgb order (3 * k) read src dst = .ok (pairs order (Pixel.ofRgb (value src))) := by
  have hcolours : Chunkwise (2 * (3 * k)) fun s => Pixel.ofRgb (value s) := by
    refine ((h.chunkwise.mul 3).mul 2).comp (Pixel.chunkwise_ofRgb.mul 2) fun s hs => ?_
    exact h.length_value (by omega)
  have hpairs : Chunkwise (2 * (3 * k)) fun s => pairs order (Pixel.ofRgb (value s)) := by
    refine chunkwise_pairs hcolours 1 fun s hs => ?_
    rw [Pixel.length_ofRgb, h.length_value (w := 6) (by omega)]
  have hsrc' : src.length = 2 * (3 * k) * q := by
    rw [hsrc, ← Nat.mul_assoc 2 3 k]
  rw [pairsFromRgb, mul_eq (by omega), ok_bind]
  refine eachChunk_eq (by omega) (by decide) hsrc' hdst hpairs fun s d hs hd => ?_
  have hfirst : (s.take (3 * k)).length = 3 * k := by rw [List.length_take]; omega
  obtain ⟨p, hp, hvp⟩ := pixelFromRgb_eq h (by omega) hfirst
  obtain ⟨q, hq, hvq⟩ := pixelFromRgb_eq h (s := s.drop (3 * k)) (by omega) (by rw [List.length_drop]; omega)
  have hvalue : value s = [p.r, p.g, p.b, q.r, q.g, q.b] := by
    have happend : value (s.take (3 * k) ++ s.drop (3 * k)) = value (s.take (3 * k)) ++ value (s.drop (3 * k)) :=
      (h.chunkwise.mul 3).append hfirst
    rwa [List.take_append_drop, hvp, hvq] at happend
  have hbytes : pairs order (Pixel.ofRgb (value s)) = order.bytes (Pixel.share p.toYuv q.toYuv) := by
    rw [hvalue]
    exact List.append_nil _
  rw [hbytes, Nat.mul_div_cancel_left k (by decide), slice_eq (by omega) (by omega), ok_bind, List.drop_zero, hp, ok_bind,
    slice_eq (by omega) (by omega), ok_bind, List.take_length, hq, ok_bind, mean_eq, ok_bind, mean_eq, ok_bind,
    putPair_eq _ _ hd]
  rfl

/-! ## Rows of grey -/

/-- the samples of a chunk, which is a pair or one alone -/
theorem grey_pair (order : ByteOrder) (hs : s.length = 2 * k ∨ s.length = k) :
    ∃ a b, read (s.take k) = .ok a ∧ read (s.drop (s.length - k)) = .ok b ∧
      pairs order (Pixel.ofLuma (value s)) = order.bytes { y0 := a, y1 := b, u := 128, v := 128 } := by
  obtain ⟨a, ha, hva⟩ := h.cons (s := s) (by omega)
  have hneutral : Imaging.mean 128 128 = 128 := mean_self 128
  rcases hs with hs | hs
  · have hrest : (s.drop k).length = k := by rw [List.length_drop]; omega
    obtain ⟨b, hb, hvb⟩ := h.read _ hrest
    refine ⟨a, b, ha, ?_, ?_⟩
    · rwa [show s.length - k = k by omega]
    · rw [hva, hvb]
      exact (List.append_nil _).trans (by rw [Pixel.share, Pixel.toYuv, Pixel.toYuv, Yuv.grey, Yuv.grey, hneutral])
  · refine ⟨a, a, ha, ?_, ?_⟩
    · rwa [hs, Nat.sub_self, List.drop_zero, ← List.take_of_length_le (Nat.le_of_eq hs)]
    · rw [hva, List.drop_eq_nil_of_le (by omega), h.chunkwise.nil, Pixel.ofLuma, List.map_cons, List.map_nil, pairs]
      simp only [List.map_cons, List.map_nil, Pixel.packRow, Pixel.share, Pixel.toYuv, Yuv.grey, hneutral]

omit h in
/-- the chunks of a row of pairs: the last of an odd row is half as long -/
theorem length_of_mem_chunks {row : List UInt8} {w : Nat} (hrow : row.length = k * w)
    (hs : s ∈ rows (2 * k) ((w + 1) / 2) row) : s.length = 2 * k ∨ s.length = k := by
  obtain ⟨y, hget⟩ := List.getElem?_of_mem hs
  have hy : y < (w + 1) / 2 := by
    have hlt := (List.getElem?_eq_some_iff.mp hget).1
    rwa [length_rows] at hlt
  have hrest : row.length - 2 * k * y = k * (w - 2 * y) := by
    rw [hrow, Nat.mul_sub, Nat.mul_comm 2 k, Nat.mul_assoc]
  rw [getElem?_rows hy] at hget
  rw [← Option.some.inj hget, List.length_take, List.length_drop, hrest]
  rcases (by omega : w - 2 * y = 1 ∨ 2 ≤ w - 2 * y) with hlast | hmore
  · right
    rw [hlast]
    omega
  · left
    have := Nat.mul_le_mul_left k hmore
    omega

omit h in
theorem chunks_eq {row : List UInt8} {w : Nat} (hk : 0 < k) (hrow : row.length = k * w) :
    chunks (2 * k) row = .ok (rows (2 * k) ((w + 1) / 2) row) := by
  -- half a chunk at the end counts as one: `k * w` lies within `k` of that many chunks
  have hlow := Nat.mul_le_mul_left k (show (w + 1) / 2 * 2 ≤ w + 1 by omega)
  have hhigh := Nat.mul_le_mul_left k (show w + 2 ≤ ((w + 1) / 2 + 1) * 2 by omega)
  have hcount : (row.length + (2 * k - 1)) / (2 * k) = (w + 1) / 2 := by
    apply Nat.div_eq_of_lt_le
    · rw [hrow, Nat.mul_comm 2 k, Nat.mul_left_comm]
      rw [Nat.mul_add] at hlow
      omega
    · rw [hrow, Nat.mul_comm 2 k, Nat.mul_left_comm]
      rw [Nat.mul_add] at hhigh
      omega
  rw [chunks, if_neg (by omega), hcount]

theorem pairsFromMonoRow_eq (hk : 0 < k) (hlimit : 2 * k < sizeLimit) {row : List UInt8} {w : Nat}
    (hrow : row.length = k * w) (hdst : dst.length = 2 * evenWidth w) :
    pairsFromMonoRow order k read row dst = .ok (pairs order (Pixel.ofLuma (value row))) := by
  have hpairs : Chunkwise (2 * k) fun s => pairs order (Pixel.ofLuma (value s)) := by
    refine chunkwise_pairs ((h.chunkwise.mul 2).map Pixel.luma) 1 fun s hs => ?_
    rw [Pixel.length_ofLuma, h.length_value (w := 2) (by omega)]
  -- the last chunk may be short, so the chunks cover the row without making it up
  have hcover : row.length ≤ 2 * k * ((w + 1) / 2) := by
    have := Nat.mul_le_mul_left k (show w ≤ 2 * ((w + 1) / 2) by omega)
    rwa [← Nat.mul_assoc, Nat.mul_comm k 2, ← hrow] at this
  have hplaces : dst.length = 4 * (rows (2 * k) ((w + 1) / 2) row).length := by
    rw [length_rows, hdst, evenWidth]
    omega
  rw [pairsFromMonoRow, mul_eq hlimit, ok_bind, chunks_eq hk hrow, ok_bind, ← hpairs.flatMap_rows hcover]
  refine fillChunks_eq (by decide) hplaces fun s hs d hd => ?_
  have hlength := length_of_mem_chunks hrow hs
  obtain ⟨a, b, ha, hb, hvalue⟩ := grey_pair h order hlength
  rw [hvalue, slice_eq (by omega) (by omega), ok_bind, List.drop_zero, ha, ok_bind, sub_eq (by omega), ok_bind,
    slice_eq (by omega) (by omega), ok_bind, List.take_length, hb, ok_bind, putPair_eq _ _ hd]

theorem pairsFromMono_eq (hk : 0 < k) (hk₂ : 2 * k < sizeLimit) {r : Request} (hw : 0 < r.width)
    (hpadded : paddedWidth r = .ok (evenWidth r.width)) (hsrcStride : k * r.width < sizeLimit)
    (hdstStride : 2 * evenWidth r.width < sizeLimit) (hsrc : src.length = k * r.width * r.height)
    (hdst : dst.length = 2 * evenWidth r.width * r.height) :
    pairsFromMono r k read src dst = .ok (Pixel.packRows r.order r.width r.height (Pixel.ofLuma (value src))) := by
  have hread : Chunkwise (k * r.width) fun s => Pixel.ofLuma (value s) := by
    rw [Nat.mul_comm]
    exact (h.chunkwise.mul r.width).map Pixel.luma
  have hrows : Pixel.packRows r.order r.width r.height (Pixel.ofLuma (value src)) =
      (rows (k * r.width) r.height src).flatMap fun row => pairs r.order (Pixel.ofLuma (value row)) := by
    rw [Pixel.packRows, hread.rows_eq hsrc fun s hs => (Pixel.length_ofLuma _).trans (h.length_value hs),
      List.flatMap_map]
  have hpositive := Nat.mul_pos hk hw
  have heven : 0 < 2 * evenWidth r.width := by
    unfold evenWidth
    omega
  -- rows are independent, their pairs are not: an odd row ends where a pair does not
  rw [hrows, pairsFromMono, mul_eq hsrcStride, ok_bind, hpadded, ok_bind, mul_eq hdstStride, ok_bind]
  exact eachChunk_rows hpositive heven hsrc hdst fun row d hrow hd => pairsFromMonoRow_eq h hk hk₂ hrow hd

end Samples

end Imaging.Machine
