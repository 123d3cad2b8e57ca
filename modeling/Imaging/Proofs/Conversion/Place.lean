/-
What the pixels of an image are, told by its bytes alone. Reading an image from the front, group by group, says nothing
of where a given pixel comes from. Here each coding names the bytes that stand for pixel `i`, and its luma and chroma
(`Coding.yuv?`) or its colour (`Coding.rgb?`) are worked out from them in plain numbers. The pixels that are read group
by group have these numbers (`Coding.yuv?_eq_of_unpack`, `Coding.rgb?_eq_of_unpack`), because every group is as long as
the bytes that its pixels take.
-/
import Mathlib.Algebra.Order.Ring.Int
import Imaging.Proofs.Conversion.Length

namespace Imaging

/-! ## Numbers -/

/-- the nearest number within a byte -/
def withinByte (n : Int) : Int := max 0 (min 255 n)

theorem widen_clip8 (v : Int) : widen (clip8 v 255) = withinByte v := by
  rw [widen, toNat_clip8 (by decide), clamp, withinByte]
  omega

/-- luma and chroma of a colour: sums in 1024ths, rounded down -/
def Rgb.lumaChroma (p : Rgb Int) : Yuv Int where
  y := withinByte ((306 * p.r + 601 * p.g + 117 * p.b) / 1024)
  u := withinByte ((-172 * p.r - 340 * p.g + 512 * p.b) / 1024 + 128)
  v := withinByte ((512 * p.r - 429 * p.g - 83 * p.b) / 1024 + 128)

/-- the colour of a luma with chroma: sums in 1024ths, rounded down -/
def Yuv.colour (p : Yuv Int) : Rgb Int where
  r := withinByte (p.y + 1436 * (p.v - 128) / 1024)
  g := withinByte (p.y - (352 * (p.u - 128) + 731 * (p.v - 128)) / 1024)
  b := withinByte (p.y + 1814 * (p.u - 128) / 1024)

theorem Rgb.lumaChroma_widen (p : Rgb UInt8) : (p.map widen).lumaChroma = p.toYuv.map widen := by
  simp only [toYuv, Yuv.map, widen_clip8]
  rfl

theorem Yuv.colour_widen (p : Yuv UInt8) : (p.map widen).colour = p.toRgb.map widen := by
  simp only [toRgb, Rgb.map, widen_clip8]
  rfl

theorem widen_reduce (bits : Nat) (v : UInt16) : widen (reduce bits v) = min (v.toNat / 2 ^ (bits - 8)) 255 := by
  rw [widen, reduce_eq, Nat.shiftRight_eq_div_pow]

/-! ## Samples -/

theorem BigEndian.getElem?_decode (bytes : List UInt8) (j : Nat) :
    (decode bytes)[j]? = do
      let hi ← bytes[2 * j]?
      let lo ← bytes[2 * j + 1]?
      return join hi lo := by
  fun_induction decode bytes generalizing j with
  | case1 hi lo rest ih =>
    cases j with
    | zero => rfl
    | succ j => exact ih j
  | case2 bytes h =>
    match bytes, h with
    | [], _ => rfl
    | [_], _ => cases j <;> rfl
    | hi :: lo :: rest, h => exact absurd rfl (h hi lo rest)

namespace Coding

/-- sample `j` of an image as a number within a byte: its byte or, of two bytes, the upper eight of the significant
bits -/
def sample? (c : Coding) (bits : Nat) (bytes : List UInt8) (j : Nat) : Option Int :=
  match c with
  | .mono8 | .raw8 | .rgb8 | .yuv444 | .yuv422 | .yuv411 => do return (← bytes[j]?).toNat
  | .mono16 | .raw16 | .rgb16 | .mono16s | .rgb16s => do
    let hi ← bytes[2 * j]?
    let lo ← bytes[2 * j + 1]?
    return (min ((256 * hi.toNat + lo.toNat) / 2 ^ (bits - 8)) 255 : Nat)

theorem sample?_eq_map_narrow (c : Coding) (bits : Nat) (bytes : List UInt8) (j : Nat) :
    c.sample? bits bytes j = (narrow c bits bytes)[j]?.map widen := by
  cases c with
  | mono8 | raw8 | rgb8 | yuv444 | yuv422 | yuv411 => cases h : bytes[j]? <;> simp [sample?, narrow, sampleBits, h, widen]
  | mono16 | raw16 | rgb16 | mono16s | rgb16s =>
    rw [narrow, if_pos (by decide), List.getElem?_map, BigEndian.getElem?_decode]
    cases h : bytes[2 * j]? with
    | none => simp [sample?, h]
    | some hi =>
      cases h' : bytes[2 * j + 1]? with
      | none => simp [sample?, h, h']
      | some lo => simp [sample?, h, h', widen_reduce, BigEndian.toNat_join]

end Coding

/-! ## Pixels -/

/-- where in a group U Y0 Y1 V Y2 Y3 the luma of its pixel `j` stands -/
def lumaPlace : Nat → Nat
  | 0 => 1
  | 1 => 2
  | 2 => 4
  | _ => 5

namespace Coding

/-- luma and chroma of pixel `i` where the coding stores them, in groups for one, two or four pixels -/
def stored? (c : Coding) (order : ByteOrder) (bits : Nat) (bytes : List UInt8) (i : Nat) : Option (Yuv Int) :=
  let s := c.sample? bits bytes
  match c with
  -- U Y V
  | .yuv444 => do return { u := ← s (3 * i), y := ← s (3 * i + 1), v := ← s (3 * i + 2) }
  -- U Y0 V Y1, or Y0 U Y1 V
  | .yuv422 =>
    let pair := 4 * (i / 2)
    match order with
    | .uyvy => do return { u := ← s pair, y := ← s (pair + 1 + 2 * (i % 2)), v := ← s (pair + 2) }
    | .yuyv => do return { y := ← s (pair + 2 * (i % 2)), u := ← s (pair + 1), v := ← s (pair + 3) }
  -- U Y0 Y1 V Y2 Y3
  | .yuv411 =>
    let group := 6 * (i / 4)
    do return { u := ← s group, y := ← s (group + lumaPlace (i % 4)), v := ← s (group + 3) }
  | .mono8 | .raw8 | .rgb8 | .mono16 | .raw16 | .rgb16 | .mono16s | .rgb16s => none

/-- luma and chroma of pixel `i`: stored (a packed pair as U Y0 V Y1), made of its colour, or grey -/
def yuv? (c : Coding) (bits : Nat) (bytes : List UInt8) (i : Nat) : Option (Yuv Int) :=
  let s := c.sample? bits bytes
  match c with
  | .yuv444 | .yuv422 | .yuv411 => c.stored? .uyvy bits bytes i
  | .rgb8 | .rgb16 => do return Rgb.lumaChroma { r := ← s (3 * i), g := ← s (3 * i + 1), b := ← s (3 * i + 2) }
  | .mono8 | .raw8 | .mono16 | .raw16 => do return { y := ← s i, u := 128, v := 128 }
  | .mono16s | .rgb16s => none

/-- the colour of pixel `i`: stored, made of luma and chroma, or grey -/
def rgb? (c : Coding) (order : ByteOrder) (bits : Nat) (bytes : List UInt8) (i : Nat) : Option (Rgb Int) :=
  let s := c.sample? bits bytes
  match c with
  | .yuv444 | .yuv422 | .yuv411 => do return Yuv.colour (← c.stored? order bits bytes i)
  | .rgb8 | .rgb16 => do return { r := ← s (3 * i), g := ← s (3 * i + 1), b := ← s (3 * i + 2) }
  | .mono8 | .raw8 | .mono16 | .raw16 => do
    let grey ← s i
    return { r := grey, g := grey, b := grey }
  | .mono16s | .rgb16s => none

end Coding

namespace Pixel

variable {bytes : List UInt8} {i : Nat} {p : Pixel}

theorem getElem?_ofRgb (h : (ofRgb bytes)[i]? = some p) :
    ∃ r g b, bytes[3 * i]? = some r ∧ bytes[3 * i + 1]? = some g ∧ bytes[3 * i + 2]? = some b ∧ p = rgb ⟨r, g, b⟩ := by
  fun_induction ofRgb bytes generalizing i with
  | case1 r g b rest ih =>
    cases i with
    | zero => exact ⟨r, g, b, rfl, rfl, rfl, (Option.some.inj h).symm⟩
    | succ i => exact ih h
  | case2 => simp at h

theorem getElem?_ofYuv444 (h : (ofYuv444 bytes)[i]? = some p) :
    ∃ u y v, bytes[3 * i]? = some u ∧ bytes[3 * i + 1]? = some y ∧ bytes[3 * i + 2]? = some v ∧ p = yuv ⟨y, u, v⟩ := by
  fun_induction ofYuv444 bytes generalizing i with
  | case1 u y v rest ih =>
    cases i with
    | zero => exact ⟨u, y, v, rfl, rfl, rfl, (Option.some.inj h).symm⟩
    | succ i => exact ih h
  | case2 => simp at h

/-- the four bytes of a pair and which of its two pixels it is -/
theorem getElem?_ofYuv422 {order : ByteOrder} (h : (ofYuv422 order bytes)[i]? = some p) :
    ∃ a b c d, bytes[4 * (i / 2)]? = some a ∧ bytes[4 * (i / 2) + 1]? = some b ∧ bytes[4 * (i / 2) + 2]? = some c ∧
      bytes[4 * (i / 2) + 3]? = some d ∧ (ofPair (order.pair a b c d))[i % 2]? = some p := by
  fun_induction ofYuv422 order bytes generalizing i with
  | case1 a b c d rest ih =>
    rcases i with _ | _ | i
    · exact ⟨a, b, c, d, rfl, rfl, rfl, rfl, h⟩
    · exact ⟨a, b, c, d, rfl, rfl, rfl, rfl, h⟩
    · have hdiv : (i + 2) / 2 = i / 2 + 1 := Nat.add_div_right i (by decide)
      have hmod : (i + 2) % 2 = i % 2 := Nat.add_mod_right i 2
      rw [hdiv, hmod]
      exact ih h
  | case2 => simp at h

theorem getElem?_ofYuv411 (h : (ofYuv411 bytes)[i]? = some p) :
    ∃ u y v, bytes[6 * (i / 4)]? = some u ∧ bytes[6 * (i / 4) + lumaPlace (i % 4)]? = some y ∧
      bytes[6 * (i / 4) + 3]? = some v ∧ p = yuv ⟨y, u, v⟩ := by
  fun_induction ofYuv411 bytes generalizing i with
  | case1 u y0 y1 v y2 y3 rest ih =>
    rcases i with _ | _ | _ | _ | i
    · exact ⟨u, y0, v, rfl, rfl, rfl, (Option.some.inj h).symm⟩
    · exact ⟨u, y1, v, rfl, rfl, rfl, (Option.some.inj h).symm⟩
    · exact ⟨u, y2, v, rfl, rfl, rfl, (Option.some.inj h).symm⟩
    · exact ⟨u, y3, v, rfl, rfl, rfl, (Option.some.inj h).symm⟩
    · obtain ⟨u', y', v', hu, hy, hv, rfl⟩ := ih h
      have hdiv : (i + 4) / 4 = i / 4 + 1 := Nat.add_div_right i (by decide)
      have hmod : (i + 4) % 4 = i % 4 := Nat.add_mod_right i 4
      have hluma : 6 * (i / 4 + 1) + lumaPlace (i % 4) = 6 * (i / 4) + lumaPlace (i % 4) + 6 := by omega
      rw [hdiv, hmod]
      refine ⟨u', y', v', hu, ?_, hv, rfl⟩
      rw [hluma, ← hy]
      rfl
  | case2 => simp at h

end Pixel

namespace Coding

variable {c : Coding} {order : ByteOrder} {bits : Nat} {bytes : List UInt8} {i : Nat} {p : Pixel}

theorem stored?_eq_of_unpack (hc : c = .yuv444 ∨ c = .yuv422 ∨ c = .yuv411)
    (h : (Pixel.unpack c order bits bytes)[i]? = some p) :
    ∃ q, p = .yuv q ∧ c.stored? order bits bytes i = some (q.map widen) := by
  rcases hc with rfl | rfl | rfl
  · obtain ⟨u, y, v, hu, hy, hv, rfl⟩ := Pixel.getElem?_ofYuv444 h
    exact ⟨_, rfl, by simp [stored?, sample?, hu, hy, hv, Yuv.map, widen]⟩
  · obtain ⟨a, b, c, d, ha, hb, hc, hd, hp⟩ := Pixel.getElem?_ofYuv422 h
    rcases Nat.mod_two_eq_zero_or_one i with hi | hi
    · rw [hi] at hp
      refine ⟨_, (Option.some.inj hp).symm, ?_⟩
      cases order <;> simp [stored?, sample?, ByteOrder.pair, hi, ha, hb, hc, hd, Yuv.map, widen]
    · rw [hi] at hp
      refine ⟨_, (Option.some.inj hp).symm, ?_⟩
      cases order <;> simp [stored?, sample?, ByteOrder.pair, hi, ha, hb, hc, hd, Yuv.map, widen]
  · obtain ⟨u, y, v, hu, hy, hv, rfl⟩ := Pixel.getElem?_ofYuv411 h
    exact ⟨_, rfl, by simp [stored?, sample?, hu, hy, hv, Yuv.map, widen]⟩

theorem sample?_of_ofLuma (h : (Pixel.ofLuma (narrow c bits bytes))[i]? = some p) :
    ∃ y, p = .luma y ∧ c.sample? bits bytes i = some (widen y) := by
  rw [Pixel.ofLuma, List.getElem?_map] at h
  obtain ⟨y, hy, rfl⟩ := Option.map_eq_some_iff.mp h
  exact ⟨y, rfl, by rw [sample?_eq_map_narrow, hy, Option.map_some]⟩

theorem sample?_of_ofRgb (h : (Pixel.ofRgb (narrow c bits bytes))[i]? = some p) :
    ∃ q, p = .rgb q ∧ c.sample? bits bytes (3 * i) = some (widen q.r) ∧
      c.sample? bits bytes (3 * i + 1) = some (widen q.g) ∧ c.sample? bits bytes (3 * i + 2) = some (widen q.b) := by
  obtain ⟨r, g, b, hr, hg, hb, rfl⟩ := Pixel.getElem?_ofRgb h
  refine ⟨⟨r, g, b⟩, rfl, ?_, ?_, ?_⟩
  · rw [sample?_eq_map_narrow, hr, Option.map_some]
  · rw [sample?_eq_map_narrow, hg, Option.map_some]
  · rw [sample?_eq_map_narrow, hb, Option.map_some]

/-- **Luma and chroma** of the pixels read group by group. -/
theorem yuv?_eq_of_unpack (h : (Pixel.unpack c .uyvy bits bytes)[i]? = some p) :
    c.yuv? bits bytes i = some (p.toYuv.map widen) := by
  cases c with
  | yuv444 | yuv422 | yuv411 =>
    obtain ⟨q, rfl, hq⟩ := stored?_eq_of_unpack (by simp) h
    exact hq
  | rgb8 | rgb16 =>
    obtain ⟨q, rfl, hr, hg, hb⟩ := sample?_of_ofRgb h
    simp only [yuv?, hr, hg, hb]
    exact congrArg some q.lumaChroma_widen
  | mono8 | raw8 | mono16 | raw16 =>
    obtain ⟨y, rfl, hy⟩ := sample?_of_ofLuma h
    simp only [yuv?, hy]
    rfl
  | mono16s | rgb16s => simp [Pixel.unpack] at h

/-- **The colours** of the pixels read group by group. -/
theorem rgb?_eq_of_unpack (h : (Pixel.unpack c order bits bytes)[i]? = some p) :
    c.rgb? order bits bytes i = some (p.toRgb.map widen) := by
  cases c with
  | yuv444 | yuv422 | yuv411 =>
    obtain ⟨q, rfl, hq⟩ := stored?_eq_of_unpack (by simp) h
    simp only [rgb?, hq]
    exact congrArg some q.colour_widen
  | rgb8 | rgb16 =>
    obtain ⟨q, rfl, hr, hg, hb⟩ := sample?_of_ofRgb h
    simp only [rgb?, hr, hg, hb]
    rfl
  | mono8 | raw8 | mono16 | raw16 =>
    obtain ⟨y, rfl, hy⟩ := sample?_of_ofLuma h
    simp only [rgb?, hy]
    rfl
  | mono16s | rgb16s => simp [Pixel.unpack] at h

end Coding

end Imaging
