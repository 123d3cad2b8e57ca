/-
Reading the bytes of an image as pixels, in row-major order. 16-bit samples are first narrowed to 8 bits (`narrow`); a
coding then groups the bytes: one per grey pixel, three per YUV 4:4:4 or RGB pixel, four per pair of YUV 4:2:2 and six
per four pixels of YUV 4:1:1. Bytes that do not fill a last group are not read; the length lemmas count the pixels.
-/
import Imaging.Format.ByteOrder
import Imaging.Pixel.Basic
import Imaging.Sample.BigEndian

namespace Imaging

/-- the bytes of an image with each 16-bit sample reduced to a byte -/
def narrow (c : Coding) (bits : Nat) (bytes : List UInt8) : List UInt8 :=
  if c.sampleBits = 16 then (BigEndian.decode bytes).map (reduce bits) else bytes

namespace Pixel

def ofLuma (bytes : List UInt8) : List Pixel := bytes.map luma

def ofRgb : List UInt8 → List Pixel
  | r :: g :: b :: rest => rgb ⟨r, g, b⟩ :: ofRgb rest
  | _ => []

/-- groups U Y V -/
def ofYuv444 : List UInt8 → List Pixel
  | u :: y :: v :: rest => yuv ⟨y, u, v⟩ :: ofYuv444 rest
  | _ => []

def ofPair (p : PixelPair) : List Pixel := [yuv ⟨p.y0, p.u, p.v⟩, yuv ⟨p.y1, p.u, p.v⟩]

def ofYuv422 (order : ByteOrder) : List UInt8 → List Pixel
  | a :: b :: c :: d :: rest => ofPair (order.pair a b c d) ++ ofYuv422 order rest
  | _ => []

/-- groups U Y0 Y1 V Y2 Y3: four pixels share their chroma -/
def ofYuv411 : List UInt8 → List Pixel
  | u :: y0 :: y1 :: v :: y2 :: y3 :: rest =>
    yuv ⟨y0, u, v⟩ :: yuv ⟨y1, u, v⟩ :: yuv ⟨y2, u, v⟩ :: yuv ⟨y3, u, v⟩ :: ofYuv411 rest
  | _ => []

/-- the pixels of an image; the signed codings have no reading -/
def unpack (c : Coding) (order : ByteOrder) (bits : Nat) (bytes : List UInt8) : List Pixel :=
  match c with
  | .mono8 | .raw8 | .mono16 | .raw16 => ofLuma (narrow c bits bytes)
  | .rgb8 | .rgb16 => ofRgb (narrow c bits bytes)
  | .yuv444 => ofYuv444 bytes
  | .yuv422 => ofYuv422 order bytes
  | .yuv411 => ofYuv411 bytes
  | .mono16s | .rgb16s => []

/-! ## Lengths -/

theorem length_ofLuma (bytes : List UInt8) : (ofLuma bytes).length = bytes.length := List.length_map _

theorem length_ofRgb (bytes : List UInt8) : (ofRgb bytes).length = bytes.length / 3 := by
  fun_induction ofRgb bytes with
  | case1 r g b rest ih =>
    simp only [List.length_cons, ih]
    omega
  | case2 bytes h =>
    match bytes, h with
    | [], _ => rfl
    | [_], _ => simp
    | [_, _], _ => simp
    | r :: g :: b :: rest, h => exact absurd rfl (h r g b rest)

theorem length_ofYuv444 (bytes : List UInt8) : (ofYuv444 bytes).length = bytes.length / 3 := by
  fun_induction ofYuv444 bytes with
  | case1 u y v rest ih =>
    simp only [List.length_cons, ih]
    omega
  | case2 bytes h =>
    match bytes, h with
    | [], _ => rfl
    | [_], _ => simp
    | [_, _], _ => simp
    | u :: y :: v :: rest, h => exact absurd rfl (h u y v rest)

theorem length_ofYuv422 (order : ByteOrder) (bytes : List UInt8) :
    (ofYuv422 order bytes).length = 2 * (bytes.length / 4) := by
  fun_induction ofYuv422 order bytes with
  | case1 a b c d rest ih =>
    simp only [ofPair, List.length_append, List.length_cons, List.length_nil, ih]
    omega
  | case2 bytes h =>
    match bytes, h with
    | [], _ => rfl
    | [_], _ => simp
    | [_, _], _ => simp
    | [_, _, _], _ => simp
    | a :: b :: c :: d :: rest, h => exact absurd rfl (h a b c d rest)

theorem length_ofYuv411 (bytes : List UInt8) : (ofYuv411 bytes).length = 4 * (bytes.length / 6) := by
  fun_induction ofYuv411 bytes with
  | case1 u y0 y1 v y2 y3 rest ih =>
    simp only [List.length_cons, ih]
    omega
  | case2 bytes h =>
    match bytes, h with
    | [], _ => rfl
    | [_], _ => simp
    | [_, _], _ => simp
    | [_, _, _], _ => simp
    | [_, _, _, _], _ => simp
    | [_, _, _, _, _], _ => simp
    | u :: y0 :: y1 :: v :: y2 :: y3 :: rest, h => exact absurd rfl (h u y0 y1 v y2 y3 rest)

end Pixel

end Imaging
