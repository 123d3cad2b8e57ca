/-
Conversion of an image between codings, pixel by pixel. A request names the source coding, one of three targets, the
size, a byte order and the significant bits of 16-bit samples. `Request.check` makes every check before a byte is
written; `Request.output` is the converted image: the source is read as pixels and the pixels are written in the target.
`check_eq_ok_iff` says exactly which requests are accepted.
-/
import Imaging.Outcome
import Imaging.Pixel.Pack
import Imaging.Pixel.Unpack

namespace Imaging

/-- the codings that a conversion can produce -/
inductive Target where
  | yuv422
  | mono8
  | rgb8
  deriving DecidableEq, Repr

namespace Target

def coding : Target → Coding
  | yuv422 => .yuv422
  | mono8 => .mono8
  | rgb8 => .rgb8

/-- a source leads to the target: nothing is made from signed samples, and grey is made from grey alone -/
def Accepts (t : Target) (c : Coding) : Prop := c.isSigned = false ∧ (t = mono8 → c.isColour = false)

instance (t : Target) (c : Coding) : Decidable (t.Accepts c) := by
  unfold Accepts
  infer_instance

end Target

structure Request where
  source : Coding
  target : Target
  width : Nat
  height : Nat
  /-- the order of the packed pairs: those written, for a YUV 4:2:2 target; those read, for an RGB target -/
  order : ByteOrder
  /-- significant bits of a 16-bit sample -/
  bits : Nat
  deriving DecidableEq, Repr

namespace Request

/-- the sizes that source and target can have: no side is empty, rows are made of whole groups of shared chroma, and a
colour row has whole pairs where pairs are written -/
def SizeFits (r : Request) : Prop :=
  0 < r.width ∧ 0 < r.height ∧ (r.source = .yuv411 → r.width % 4 = 0) ∧ (r.source = .yuv422 → r.width % 2 = 0) ∧
    (r.target = .yuv422 → r.source.isColour = true → r.width % 2 = 0)

instance (r : Request) : Decidable r.SizeFits := by
  unfold SizeFits
  infer_instance

/-- the width of a row of the result: packed pairs fill an even row -/
def paddedWidth (r : Request) : Nat :=
  match r.target with
  | .yuv422 => evenWidth r.width
  | .mono8 | .rgb8 => r.width

/-- the order in which packed source pairs are read; a conversion to YUV 4:2:2 reads the native order -/
def sourceOrder (r : Request) : ByteOrder :=
  match r.target with
  | .yuv422 => .uyvy
  | .mono8 | .rgb8 => r.order

def check (r : Request) (srcLength dstLength : Nat) : Except Refusal Unit := do
  require (r.target.Accepts r.source) (.unsupported r.source r.target.coding)
  require r.SizeFits (.dimensions r.width r.height)
  require (r.source.sampleBits = 16 → ValidDepth r.bits) (.parameter .bitDepth)
  let src ← requireSome (r.source.bufferLength? r.width r.height) (.dimensions r.width r.height)
  let dst ← requireSome (r.target.coding.bufferLength? r.paddedWidth r.height) (.dimensions r.width r.height)
  requireLength src srcLength
  requireLength dst dstLength

def output (r : Request) (bytes : List UInt8) : List UInt8 :=
  let pixels := Pixel.unpack r.source r.sourceOrder r.bits bytes
  match r.target with
  | .yuv422 => Pixel.packRows r.order r.width r.height pixels
  | .mono8 => Pixel.packMono8 pixels
  | .rgb8 => Pixel.packRgb8 pixels

end Request

def convert (r : Request) (src dst : Array UInt8) : Outcome UInt8 :=
  .guarded dst (r.check src.size dst.size) fun _ => overwrite dst (r.output src.toList)

namespace Request

theorem check_eq_ok_iff {r : Request} {srcLength dstLength : Nat} :
    r.check srcLength dstLength = .ok () ↔
      r.target.Accepts r.source ∧ r.SizeFits ∧ (r.source.sampleBits = 16 → ValidDepth r.bits) ∧
        r.source.bufferLength? r.width r.height = some srcLength ∧
          r.target.coding.bufferLength? r.paddedWidth r.height = some dstLength := by
  simp only [check, bind_eq_ok_iff, require_eq_ok_iff, requireSome_eq_ok_iff, requireLength_eq_ok_iff]
  constructor
  · rintro ⟨_, ht, _, hs, _, hb, n, hn, m, hm, _, rfl, rfl⟩
    exact ⟨ht, hs, hb, hn, hm⟩
  · rintro ⟨ht, hs, hb, hn, hm⟩
    exact ⟨(), ht, (), hs, (), hb, _, hn, _, hm, (), rfl, rfl⟩

end Request

end Imaging
