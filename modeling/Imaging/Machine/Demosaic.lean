/-
The demosaicing methods in machine words. The window kernels are the kernels of `Demosaic.Corner` and
`Demosaic.Centred`, read in 32-bit arithmetic; each sample of a window is fetched by a checked access. The passes of the
edge-sensing method read the raster that they write. `decode8` and `decode16` are the whole requests: their checks
refuse, their runs must not fault.
-/
import Imaging.Demosaic.Decode
import Imaging.Machine.Raster

namespace Imaging.Machine

/-! ## Fixed windows -/

def store (r : Raster) (p : Phase) (x y : Nat) (e : Estimate I32) : Run Raster := do
  let r ← put r x y p.rowChannel e.row
  let r ← put r x y .green e.green
  put r x y p.columnChannel e.column

def interpolate (r : Raster) (m : Mosaic) (t : Tile) (k : Kernel I32) (g : Region) : Run Raster :=
  sweep r g fun x y r =>
    let p := Phase.atRow t y
    store r p x y (k.estimate p x (around m x y))

def fromCorners (k : Kernel I32) (m : Mosaic) (t : Tile) (r : Raster) : Run Raster := do
  let r ← clearLastRowColumn r
  let bottom ← sub m.height 1
  let right ← sub m.width 1
  interpolate r m t k { left := 0, top := 0, right := right, bottom := bottom }

/-- interpolate at the sites that are `n` from every edge -/
def interpolateInside (n : Nat) (k : Kernel I32) (m : Mosaic) (t : Tile) (r : Raster) : Run Raster := do
  let bottom ← sub m.height n
  let right ← sub m.width n
  interpolate r m t k { left := n, top := n, right := right, bottom := bottom }

def bilinear (m : Mosaic) (t : Tile) (r : Raster) : Run Raster := do
  let r ← clearBorders r 1
  interpolateInside 1 .bilinear m t r

/-- a mosaic that is all border has nothing to interpolate -/
def hqLinear (m : Mosaic) (t : Tile) (r : Raster) : Run Raster := do
  let r ← clearBorders r 2
  if m.width ≤ 4 ∨ m.height ≤ 4 then .ok r else interpolateInside 2 .hqLinear m t r

/-! ## Tiles -/

/-- count the sample of a site for its colour -/
def addSample (m : Mosaic) (t : Tile) (sums : Channel → I32) (site : Nat × Nat) : Channel → I32 := fun c =>
  if t.colourAt site.1 site.2 = c then sums c + sample m site.1 site.2 else sums c

/-- write the pixel of a tile -/
def storeTile (m : Mosaic) (t : Tile) (x y : Nat) (r : Raster) : Run Raster := do
  let left ← mul 2 x
  let top ← mul 2 y
  let bottom ← add top 2
  let right ← add left 2
  let tile : Region := { left := left, top := top, right := right, bottom := bottom }
  let sums := tile.sites.foldl (addSample m t) fun _ => 0
  let r ← put r x y .red (sums .red)
  let r ← put r x y .green (sums .green / 2)
  put r x y .blue (sums .blue)

def fromTiles (m : Mosaic) (t : Tile) (r : Raster) : Run Raster :=
  sweep r (.whole r.width r.height) (storeTile m t)

/-! ## Edges -/

def scatter (m : Mosaic) (t : Tile) (r : Raster) : Run Raster :=
  sweep (clear r) (.whole m.width m.height) fun x y r =>
    put r x y ((Phase.atRow t y).channelAt x) (sample m x y)

/-- green at a site from its own colour and the green values around it, all of which are read -/
def greenEstimate (s g : Window I32) : I32 where
  run := do
    let dh ← (EdgeSense.secondDifferenceAlongRow s).abs
    let dv ← (EdgeSense.secondDifferenceAlongColumn s).abs
    let _ ← (g (-1) 0).run
    let _ ← (g 1 0).run
    let _ ← (g 0 (-1)).run
    let _ ← (g 0 1).run
    (EdgeSense.greenAlong dh dv g).run

/-- estimate green at the sites of another colour; where an image has no inside, subtraction stops at zero -/
def fillGreen (t : Tile) (r : Raster) : Run Raster :=
  sweep r (.inside 2 r.width r.height) fun x y r =>
    let p := Phase.atRow t y
    if p.isGreen x then .ok r
    else put r x y .green (greenEstimate (channelAround r p.rowChannel x y) (channelAround r .green x y))

def difference (r : Raster) (c : Channel) (x y : Nat) : Window I32 :=
  fun dx dy => channelAround r c x y dx dy - channelAround r .green x y dx dy

def fillColour (t : Tile) (c : Channel) (r : Raster) : Run Raster :=
  sweep r (.inside 1 r.width r.height) fun x y r => do
    let g ← (channel r .green x y).run
    match EdgeSense.meanDifference? (Phase.atRow t y) c x (difference r c x y) with
    | some v => put r x y c (.of g + v)
    | none => .ok r

def alongEdges (m : Mosaic) (t : Tile) (r : Raster) : Run Raster := do
  let r ← scatter m t r
  let r ← fillGreen t r
  let r ← fillColour t .red r
  let r ← fillColour t .blue r
  clearBorders r 3

/-! ## Requests -/

def run (k : Method) (m : Mosaic) (t : Tile) (r : Raster) : Run Raster :=
  match k with
  | .nearest => fromCorners .nearest m t r
  | .simple => fromCorners .simple m t r
  | .bilinear => bilinear m t r
  | .hqLinear => hqLinear m t r
  | .downsample => fromTiles m t r
  | .edgeSense => alongEdges m t r

/-- the largest sample of a depth -/
def maxValue (bits : Nat) : I32 where
  run := if bits < 32 then (I32.word (1 <<< bits : Nat) - 1).run else .error .shift

def views (k : Method) (w h ceiling : Nat) (src dst : Array Nat) : Except Refusal (Mosaic × Raster) := do
  require (WholeTiles w h) (.dimensions w h)
  let m ← mosaic w h src
  let r ← raster (k.outputSize w h).1 (k.outputSize w h).2 ceiling dst
  return (m, r)

def decode (t : Tile) (k : Method) (w h ceiling : Nat) (src dst : Array Nat) : Run (Outcome Nat) :=
  match views k w h ceiling src dst with
  | .error e => .ok (.refused e dst)
  | .ok (m, r) => do
    let r ← run k m t r
    .ok (.written r.data)

def decode8 (t : Tile) (k : Method) (w h : Nat) (src dst : Array UInt8) : Run (Outcome UInt8) := do
  let o ← decode t k w h 255 (src.map UInt8.toNat) (dst.map UInt8.toNat)
  .ok (o.map UInt8.ofNat)

def decode16 (t : Tile) (k : Method) (w h bits : Nat) (src dst : Array UInt16) : Run (Outcome UInt16) :=
  match requireDepth bits with
  | .error e => .ok (.refused e dst)
  | .ok _ => do
    let ceiling ← (maxValue bits).run
    let o ← decode t k w h ceiling.toNat (src.map UInt16.toNat) (dst.map UInt16.toNat)
    .ok (o.map UInt16.ofNat)

end Imaging.Machine
