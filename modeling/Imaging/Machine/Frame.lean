/-
Sample buffers and whole frames in machine words. The lengths of the buffers that a frame is demosaiced through are
products of its size, formed after the checks have passed; the requests between these buffers are the ones of
`Machine.Demosaic` with all their own checks. Decoding and encoding of 16-bit samples (`decodeInto`, `encodeInto`) stand
for a codec that is not modelled itself: that it is big-endian, and faults where the lengths of its slices do not match,
is its documented behaviour, taken as given.
-/
import Imaging.Frame
import Imaging.Machine.Conversion
import Imaging.Machine.Demosaic

namespace Imaging.Machine

/-! ## Sample buffers -/

/-- decode a slice of bytes into a slice of half as many samples -/
def decodeInto (src : List UInt8) (dst : List UInt16) : Run (List UInt16) :=
  if src.length = 2 * dst.length then .ok (BigEndian.decode src) else .error .length

/-- encode a slice of samples into a slice of twice as many bytes -/
def encodeInto (src : List UInt16) (dst : List UInt8) : Run (List UInt8) :=
  if dst.length = 2 * src.length then .ok (BigEndian.encode src) else .error .length

def readSamples (src : Array UInt8) (dst : Array UInt16) : Run (Outcome UInt16) := do
  let expected ← mul 2 dst.size
  if src.size ≠ expected then .ok (.refused (.length expected src.size) dst)
  else
    let out ← decodeInto src.toList dst.toList
    .ok (.written out.toArray)

def writeSamples (src : Array UInt16) (dst : Array UInt8) : Run (Outcome UInt8) := do
  let expected ← mul 2 src.size
  if dst.size ≠ expected then .ok (.refused (.length expected dst.size) dst)
  else
    let out ← encodeInto src.toList dst.toList
    .ok (.written out.toArray)

/-! ## Demosaicing -/

/-- the checks of a request whose samples are 16 bits wide on one side at least -/
def checkWide (f : Frame) (target : Coding) (k : Method) (dstLength : Nat) : Except Refusal Unit := do
  require (WholeTiles f.width f.height) (.dimensions f.width f.height)
  requireDepth f.bits
  let src ← requireSome (bufferLength? f.coding f.width f.height) (.dimensions f.width f.height)
  let size := k.outputSize f.width f.height
  let dst ← requireSome (bufferLength? target size.1 size.2) (.dimensions f.width f.height)
  requireLength src f.image.size
  requireLength dst dstLength

def wideSamples (f : Frame) (buffer : Array UInt16) : Run (Outcome UInt16) :=
  if f.coding.sampleBits = 16 then readSamples f.image buffer
  else do
    let samples ← fill f.image.toList buffer.toList fun b => .ok b.toUInt16
    .ok (.written samples.toArray)

def writeWide (bits : Nat) (target : Coding) (rgb : Array UInt16) (dst : Array UInt8) : Run (Outcome UInt8) :=
  if target.sampleBits = 16 then writeSamples rgb dst
  else do
    let bytes ← fill rgb.toList dst.toList (reduce bits)
    .ok (.written bytes.toArray)

/-- go on from a buffer that an inner request wrote; its refusal refuses the whole request -/
def andThen {α β : Type} (inner : Outcome β) (dst : Array α) (next : Array β → Run (Outcome α)) : Run (Outcome α) :=
  match inner.result with
  | .error e => .ok (.refused e dst)
  | .ok () => next inner.dst

/-- the way from a checked frame to its destination, through a buffer of samples and one of colours -/
def throughSamples (f : Frame) (t : Tile) (target : Coding) (k : Method) (dst : Array UInt8) : Run (Outcome UInt8) := do
  let size := k.outputSize f.width f.height
  let area ← mul f.width f.height
  let samples ← wideSamples f (.replicate area 0)
  andThen samples dst fun samples => do
    let row ← mul 3 size.1
    let length ← mul row size.2
    let rgb ← decode16 t k f.width f.height f.bits samples (.replicate length 0)
    andThen rgb dst fun rgb => writeWide f.bits target rgb dst

def debayerFrame (f : Frame) (target : Coding) (k : Method) (dst : Array UInt8) : Run (Outcome UInt8) :=
  match f.filter with
  | none => .ok (.refused (.parameter .colourFilter) dst)
  | some t =>
    if ¬(f.coding.isRaw = true ∧ target.isRgb = true) then .ok (.refused (.unsupported f.coding target) dst)
    else if f.coding = .raw8 ∧ target = .rgb8 then decode8 t k f.width f.height f.image dst
    else
      match checkWide f target k dst.size with
      | .error e => .ok (.refused e dst)
      | .ok _ => throughSamples f t target k dst

/-! ## Choosing the way -/

def convertFrame (f : Frame) (target : Coding) (o : Options) (dst : Array UInt8) : Run (Outcome UInt8) :=
  if f.Mosaicked target then debayerFrame f target o.method dst
  else
    match Target.ofCoding? target with
    | some t => convert (f.request t o.order) f.image dst
    | none => .ok (.refused (.unsupported f.coding target) dst)

def splitStereoFrame (f : Frame) (target : Coding) (dst : Array UInt8) : Run (Outcome UInt8) :=
  if Frame.Splits f.coding target then splitStereo f.width f.height f.image dst
  else .ok (.refused (.unsupported f.coding target) dst)

end Imaging.Machine
