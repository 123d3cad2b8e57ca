/-
Rebuilding colour from a mosaic. A method is one of six ways to estimate the colours that a site did not take. All work
on whole tiles: both sides are even. `decode8` works on bytes, `decode16` on samples of 8 to 16 significant bits; they
differ in the ceiling that every stored value is clamped to, and in nothing else.
-/
import Imaging.Demosaic.Centred
import Imaging.Demosaic.EdgeSense
import Imaging.Demosaic.Tilewise

namespace Imaging

/-- how missing colours are estimated -/
inductive Method where
  | nearest
  | simple
  | bilinear
  | hqLinear
  | downsample
  | edgeSense
  deriving DecidableEq, Repr

namespace Method

def all : List Method := [nearest, simple, bilinear, hqLinear, downsample, edgeSense]

theorem mem_all (k : Method) : k ∈ all := by
  cases k <;> decide

/-- the size of the image that a mosaic of `w` by `h` sites gives -/
def outputSize (k : Method) (w h : Nat) : Nat × Nat :=
  match k with
  | downsample => (w / 2, h / 2)
  | nearest | simple | bilinear | hqLinear | edgeSense => (w, h)

/-- rebuild the image of a mosaic over a raster of the method's size -/
def run (k : Method) (m : Mosaic) (t : Tile) (r : Raster) : Raster :=
  match k with
  | nearest => r.fromCorners .nearest m t
  | simple => r.fromCorners .simple m t
  | bilinear => r.fromCentres 1 .bilinear m t
  | hqLinear => r.fromCentres 2 .hqLinear m t
  | downsample => r.fromTiles m t
  | edgeSense => r.alongEdges m t

theorem sameShape_run (k : Method) (m : Mosaic) (t : Tile) (r : Raster) : (k.run m t r).SameShape r := by
  cases k with
  | nearest => exact r.sameShape_fromCorners .nearest m t
  | simple => exact r.sameShape_fromCorners .simple m t
  | bilinear => exact r.sameShape_fromCentres 1 .bilinear m t
  | hqLinear => exact r.sameShape_fromCentres 2 .hqLinear m t
  | downsample => exact r.sameShape_fromTiles m t
  | edgeSense => exact r.sameShape_alongEdges m t

end Method

namespace Demosaic

/-- the mosaic and the raster of a request, over buffers of their exact sizes -/
def views (k : Method) (w h ceiling : Nat) (src dst : Array Nat) : Except Refusal (Mosaic × Raster) := do
  require (WholeTiles w h) (.dimensions w h)
  let m ← Mosaic.ofBuffer w h src
  let r ← Raster.ofBuffer (k.outputSize w h).1 (k.outputSize w h).2 ceiling dst
  return (m, r)

def decode (t : Tile) (k : Method) (w h ceiling : Nat) (src dst : Array Nat) : Outcome Nat :=
  .guarded dst (views k w h ceiling src dst) fun v => (k.run v.1 t v.2).data

theorem views_eq_ok_iff {k : Method} {w h ceiling : Nat} {src dst : Array Nat} {m : Mosaic} {r : Raster} :
    views k w h ceiling src dst = .ok (m, r) ↔
      WholeTiles w h ∧ Mosaic.ofBuffer w h src = .ok m ∧
        Raster.ofBuffer (k.outputSize w h).1 (k.outputSize w h).2 ceiling dst = .ok r := by
  simp only [views, bind_eq_ok_iff, require_eq_ok_iff, pure, Except.pure, Except.ok.injEq, Prod.mk.injEq]
  constructor
  · intro hv
    obtain ⟨_, hw, m', hm, r', hr, rfl, rfl⟩ := hv
    exact ⟨hw, hm, hr⟩
  · intro hv
    obtain ⟨hw, hm, hr⟩ := hv
    exact ⟨(), hw, m, hm, r, hr, rfl, rfl⟩

theorem size_decode (t : Tile) (k : Method) (w h ceiling : Nat) (src dst : Array Nat) :
    (decode t k w h ceiling src dst).dst.size = dst.size := by
  unfold decode
  cases hv : views k w h ceiling src dst with
  | error e => rfl
  | ok v =>
    obtain ⟨m, r⟩ := v
    have hr := (Raster.ofBuffer_eq_ok_iff.mp (views_eq_ok_iff.mp hv).2.2).2.2.2.2
    rw [Outcome.guarded_ok, Outcome.written, (k.sameShape_run m t r).size, hr]

end Demosaic

/-- demosaic bytes into an 8-bit colour image -/
def decode8 (t : Tile) (k : Method) (w h : Nat) (src dst : Array UInt8) : Outcome UInt8 :=
  (Demosaic.decode t k w h 255 (src.map UInt8.toNat) (dst.map UInt8.toNat)).map UInt8.ofNat

/-- demosaic samples of `bits` significant bits into a colour image of the same depth -/
def decode16 (t : Tile) (k : Method) (w h bits : Nat) (src dst : Array UInt16) : Outcome UInt16 :=
  .provided dst (requireDepth bits) fun _ =>
    (Demosaic.decode t k w h (ceiling bits) (src.map UInt16.toNat) (dst.map UInt16.toNat)).map UInt16.ofNat

end Imaging
