/-
Whole frames. A frame is what a camera delivers: the bytes, their coding and size, the significant bits of a sample, and
the colour filter where the sensor has one. `Frame.convert` chooses the way from the frame to the wanted coding: raw
frames behind a known filter are demosaiced into colour, all others are converted pixel by pixel. `Frame.debayer` and
`Frame.splitStereo` are the two ways that a caller can also take on purpose.
-/
import Imaging.Conversion
import Imaging.Demosaic.Decode
import Imaging.Stereo

namespace Imaging

structure Frame where
  image : Array UInt8
  width : Nat
  height : Nat
  coding : Coding
  /-- significant bits of a sample, of a 16-bit coding -/
  depth : Nat
  /-- the colour filter of the sensor, where it is known -/
  filter : Option Tile
  deriving DecidableEq, Repr

/-- what a whole-frame conversion leaves to the caller -/
structure Options where
  /-- the order of packed pairs, read or written -/
  order : ByteOrder := .uyvy
  /-- the way in which raw frames are demosaiced -/
  method : Method := .bilinear
  deriving DecidableEq, Repr

/-- the conversion target of a coding, where it is one -/
def Target.ofCoding? : Coding → Option Target
  | .yuv422 => some .yuv422
  | .mono8 => some .mono8
  | .rgb8 => some .rgb8
  | .yuv411 | .yuv444 | .mono16 | .rgb16 | .mono16s | .rgb16s | .raw8 | .raw16 => none

theorem Target.ofCoding?_eq_some_iff {c : Coding} {t : Target} : ofCoding? c = some t ↔ t.coding = c := by
  cases c <;> cases t <;> decide

namespace Frame

/-! ## Demosaicing -/

/-- the significant bits of a sample: all of them in an 8-bit coding -/
def bits (f : Frame) : Nat := if f.coding.sampleBits = 16 then f.depth else 8

/-- the checks of a request whose samples are 16 bits wide on one side at least -/
def checkWide (f : Frame) (target : Coding) (k : Method) (dstLength : Nat) : Except Refusal Unit := do
  require (WholeTiles f.width f.height) (.dimensions f.width f.height)
  requireDepth f.bits
  let src ← requireSome (f.coding.bufferLength? f.width f.height) (.dimensions f.width f.height)
  let size := k.outputSize f.width f.height
  let dst ← requireSome (target.bufferLength? size.1 size.2) (.dimensions f.width f.height)
  requireLength src f.image.size
  requireLength dst dstLength

/-- the samples of a raw frame, 16 bits wide -/
def wideSamples (f : Frame) : Outcome UInt16 :=
  if f.coding.sampleBits = 16 then readSamples f.image (Array.replicate (f.width * f.height) 0)
  else .written (f.image.map UInt8.toUInt16)

/-- write 16-bit samples in the sample width of a coding -/
def writeWide (bits : Nat) (target : Coding) (rgb : Array UInt16) (dst : Array UInt8) : Outcome UInt8 :=
  if target.sampleBits = 16 then writeSamples rgb dst
  else .written (overwrite dst (rgb.toList.map (reduce bits)))

/-- demosaic at 16 bits, whatever the widths of the frame and of the target -/
def debayerWide (f : Frame) (t : Tile) (target : Coding) (k : Method) (dst : Array UInt8) : Outcome UInt8 :=
  .provided dst (f.checkWide target k dst.size) fun _ =>
    f.wideSamples.andThen dst fun samples =>
      let size := k.outputSize f.width f.height
      let blank := Array.replicate (3 * (size.1 * size.2)) 0
      (decode16 t k f.width f.height f.bits samples blank).andThen dst fun rgb => writeWide f.bits target rgb dst

/-- demosaic a raw frame behind a known filter into RGB -/
def debayer (f : Frame) (target : Coding) (k : Method) (dst : Array UInt8) : Outcome UInt8 :=
  match f.filter with
  | none => .refused (.parameter .colourFilter) dst
  | some t =>
    if ¬(f.coding.isRaw = true ∧ target.isRgb = true) then .refused (.unsupported f.coding target) dst
    else if f.coding = .raw8 ∧ target = .rgb8 then decode8 t k f.width f.height f.image dst
    else f.debayerWide t target k dst

/-! ## Choosing the way -/

/-- the way to the target is demosaicing -/
def Mosaicked (f : Frame) (target : Coding) : Prop :=
  f.coding.isRaw = true ∧ f.filter.isSome = true ∧ target.isRgb = true

instance (f : Frame) (target : Coding) : Decidable (f.Mosaicked target) := by
  unfold Mosaicked
  infer_instance

def request (f : Frame) (target : Target) (order : ByteOrder) : Request where
  source := f.coding
  target := target
  width := f.width
  height := f.height
  order := order
  bits := f.depth

/-- bring a frame into another coding -/
def convert (f : Frame) (target : Coding) (o : Options) (dst : Array UInt8) : Outcome UInt8 :=
  if f.Mosaicked target then f.debayer target o.method dst
  else
    match Target.ofCoding? target with
    | some t => Imaging.convert (f.request t o.order) f.image dst
    | none => .refused (.unsupported f.coding target) dst

/-! ## Stereo -/

/-- a frame of two-byte pixels can be split into views of one-byte pixels -/
def Splits (source target : Coding) : Prop :=
  (source = .mono16 ∨ source = .raw16) ∧ (target = .mono8 ∨ target = .raw8)

instance (source target : Coding) : Decidable (Splits source target) := by
  unfold Splits
  infer_instance

/-- split a stereo frame into its two views, one above the other -/
def splitStereo (f : Frame) (target : Coding) (dst : Array UInt8) : Outcome UInt8 :=
  if Splits f.coding target then Imaging.splitStereo f.width f.height f.image dst
  else .refused (.unsupported f.coding target) dst

end Frame

end Imaging
