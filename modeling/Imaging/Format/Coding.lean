/-
Colour codings of an IIDC camera: how the pixels of a frame are packed into bytes. Sizes are kept in bits, because
YUV 4:1:1 packs four pixels into six bytes. `bufferLength?_eq_some_iff` says which images have an exact byte length.
-/
import Imaging.Size

namespace Imaging

inductive Coding where
  | mono8
  | yuv411
  | yuv422
  | yuv444
  | rgb8
  | mono16
  | rgb16
  | mono16s
  | rgb16s
  | raw8
  | raw16
  deriving DecidableEq, Repr

namespace Coding

/-- every coding, in the order of the camera's codes -/
def all : List Coding :=
  [mono8, yuv411, yuv422, yuv444, rgb8, mono16, rgb16, mono16s, rgb16s, raw8, raw16]

theorem mem_all (c : Coding) : c ∈ all := by
  cases c <;> decide

/-- the name that messages use -/
def name : Coding → String
  | mono8 => "Mono8"
  | yuv411 => "Yuv411"
  | yuv422 => "Yuv422"
  | yuv444 => "Yuv444"
  | rgb8 => "Rgb8"
  | mono16 => "Mono16"
  | rgb16 => "Rgb16"
  | mono16s => "Mono16s"
  | rgb16s => "Rgb16s"
  | raw8 => "Raw8"
  | raw16 => "Raw16"

/-- storage of one pixel, in bits -/
def bitsPerPixel : Coding → Nat
  | mono8 | raw8 => 8
  | yuv411 => 12
  | yuv422 | mono16 | mono16s | raw16 => 16
  | yuv444 | rgb8 => 24
  | rgb16 | rgb16s => 48

/-- storage of one sample, in bits -/
def sampleBits : Coding → Nat
  | mono16 | rgb16 | mono16s | rgb16s | raw16 => 16
  | mono8 | yuv411 | yuv422 | yuv444 | rgb8 | raw8 => 8

/-- whether a pixel carries colour; the raw codings hold one plane until they are demosaiced -/
def isColour : Coding → Bool
  | yuv411 | yuv422 | yuv444 | rgb8 | rgb16 | rgb16s => true
  | mono8 | mono16 | mono16s | raw8 | raw16 => false

def isSigned : Coding → Bool
  | mono16s | rgb16s => true
  | mono8 | yuv411 | yuv422 | yuv444 | rgb8 | mono16 | rgb16 | raw8 | raw16 => false

/-- whether an image is one plane of filtered samples -/
def isRaw : Coding → Bool
  | raw8 | raw16 => true
  | mono8 | yuv411 | yuv422 | yuv444 | rgb8 | mono16 | rgb16 | mono16s | rgb16s => false

/-- whether pixels are unsigned red, green and blue -/
def isRgb : Coding → Bool
  | rgb8 | rgb16 => true
  | mono8 | yuv411 | yuv422 | yuv444 | mono16 | mono16s | rgb16s | raw8 | raw16 => false

/-- the byte length of an image, where its bits are fewer than `2 ^ 64` and fill whole bytes -/
def bufferLength? (c : Coding) (w h : Nat) : Option Nat :=
  let bits := w * h * c.bitsPerPixel
  if bits < sizeLimit ∧ bits % 8 = 0 then some (bits / 8) else none

theorem bufferLength?_eq_some_iff {c : Coding} {w h n : Nat} :
    c.bufferLength? w h = some n ↔ w * h * c.bitsPerPixel < sizeLimit ∧ 8 * n = w * h * c.bitsPerPixel := by
  simp only [bufferLength?]
  split
  · rename_i hb
    simp only [Option.some.injEq]
    omega
  · rename_i hb
    simp only [reduceCtorEq, false_iff]
    omega

end Coding

end Imaging
