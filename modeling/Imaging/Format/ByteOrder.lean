/-
The two byte orders of packed YUV 4:2:2. Two neighbouring pixels share their chroma and take four bytes; `pair_bytes`
says that reading in an order undoes writing in that order.
-/
namespace Imaging

/-- where the luma and the chroma bytes of a packed pair stand -/
inductive ByteOrder where
  /-- chroma first: U Y0 V Y1, the native layout of IIDC cameras -/
  | uyvy
  /-- luma first: Y0 U Y1 V -/
  | yuyv
  deriving DecidableEq, Repr

/-- two neighbouring pixels of a row that share their chroma -/
structure PixelPair where
  y0 : UInt8
  y1 : UInt8
  u : UInt8
  v : UInt8
  deriving DecidableEq, Repr

namespace ByteOrder

def all : List ByteOrder := [uyvy, yuyv]

theorem mem_all (o : ByteOrder) : o ∈ all := by
  cases o <;> decide

def bytes : ByteOrder → PixelPair → List UInt8
  | uyvy, p => [p.u, p.y0, p.v, p.y1]
  | yuyv, p => [p.y0, p.u, p.y1, p.v]

def pair : ByteOrder → UInt8 → UInt8 → UInt8 → UInt8 → PixelPair
  | uyvy, a, b, c, d => { y0 := b, y1 := d, u := a, v := c }
  | yuyv, a, b, c, d => { y0 := a, y1 := c, u := b, v := d }

theorem pair_bytes (o : ByteOrder) (p : PixelPair) :
    ∃ a b c d, o.bytes p = [a, b, c, d] ∧ o.pair a b c d = p := by
  cases o <;> exact ⟨_, _, _, _, rfl, rfl⟩

theorem bytes_pair (o : ByteOrder) (a b c d : UInt8) : o.bytes (o.pair a b c d) = [a, b, c, d] := by
  cases o <;> rfl

theorem length_bytes (o : ByteOrder) (p : PixelPair) : (o.bytes p).length = 4 := by
  cases o <;> rfl

end ByteOrder

end Imaging
