/-
Mosaics and rasters in machine words: every coordinate is moved with a checked addition or subtraction, every place in a
buffer is formed with checked products, and every access is checked against the buffer. Clearing works on rows, which are
slices of the buffer, and on parts of rows. What these runs compute is what `Mosaic.window`, `Raster.put` and the
clearing loops of `Raster.Border` compute, as long as the raster fits the machine.
-/
import Imaging.Machine.Word
import Imaging.Raster.Border

namespace Imaging

namespace Machine

/-- a coordinate moved by an offset -/
def move (a : Nat) (d : Int) : Run Nat := if 0 ≤ d then add a d.toNat else sub a (-d).toNat

/-! ## Samples of a mosaic -/

def mosaic (w h : Nat) (buffer : Array Nat) : Except Refusal Mosaic :=
  match hlength : mul? w h with
  | none => .error (.dimensions w h)
  | some n =>
    if hsize : buffer.size = n then .ok ⟨w, h, buffer, hsize.trans (mul?_eq_some_iff.mp hlength).2.symm⟩
    else .error (.length n buffer.size)

def sample (m : Mosaic) (x y : Nat) : I32 where
  run := do
    let row ← mul y m.width
    let place ← add row x
    let v ← index m.samples place
    .ok v

def around (m : Mosaic) (x y : Nat) : Window I32 := fun dx dy =>
  { run := do
      let x ← move x dx
      let y ← move y dy
      (sample m x y).run }

/-! ## Channels of a raster -/

/-- three channels for each pixel, by checked products -/
def rasterLength? (w h : Nat) : Option Nat := (mul? w h).bind fun n => mul? n 3

theorem rasterLength?_eq_some_iff {w h n : Nat} :
    rasterLength? w h = some n ↔ 3 * (w * h) < sizeLimit ∧ 3 * (w * h) = n := by
  simp only [rasterLength?, Option.bind_eq_some_iff, mul?_eq_some_iff]
  constructor
  · rintro ⟨_, ⟨_, rfl⟩, hlt, rfl⟩
    exact ⟨by omega, Nat.mul_comm _ _⟩
  · rintro ⟨hlt, rfl⟩
    exact ⟨_, ⟨by omega, rfl⟩, by omega, Nat.mul_comm _ _⟩

def raster (w h ceiling : Nat) (buffer : Array Nat) : Except Refusal Raster :=
  match hlength : rasterLength? w h with
  | none => .error (.dimensions w h)
  | some n =>
    if hsize : buffer.size = n then
      .ok ⟨w, h, ceiling, buffer, hsize.trans (rasterLength?_eq_some_iff.mp hlength).2.symm⟩
    else .error (.length n buffer.size)

/-- where a channel of a pixel is stored -/
def offset (r : Raster) (x y : Nat) (c : Channel) : Run Nat := do
  let row ← mul y r.width
  let pixel ← add row x
  let first ← mul 3 pixel
  add first c.index

def channel (r : Raster) (c : Channel) (x y : Nat) : I32 where
  run := do
    let place ← offset r x y c
    let v ← index r.data place
    .ok v

/-- a channel around a pixel -/
def channelAround (r : Raster) (c : Channel) (x y : Nat) : Window I32 := fun dx dy =>
  { run := do
      let x ← move x dx
      let y ← move y dy
      (channel r c x y).run }

def put (r : Raster) (x y : Nat) (c : Channel) (v : I32) : Run Raster := do
  let v ← v.run
  let place ← offset r x y c
  if place < r.data.size then
    .ok
      { r with
        data := r.data.setIfInBounds place (clamp v r.ceiling)
        size_eq := by rw [Array.size_setIfInBounds, r.size_eq] }
  else .error .bounds

/-- run a step at each site of a region, in row-major order -/
def sweep (r : Raster) (g : Region) (step : Nat → Nat → Raster → Run Raster) : Run Raster :=
  g.sites.foldlM (fun r site => step site.1 site.2 r) r

end Machine

/-! ## Clearing -/

/-- a raster with the places from `start` up to `stop` set to zero -/
def Raster.zeroed (r : Raster) (start stop : Nat) : Raster :=
  { r with
    data := r.data.mapIdx fun i v => if start ≤ i ∧ i < stop then 0 else v
    size_eq := by rw [Array.size_mapIdx, r.size_eq] }

namespace Machine

/-- a row as a slice of the buffer: its first place and the place after its last -/
def row (r : Raster) (y : Nat) : Run (Nat × Nat) := do
  let stride ← mul 3 r.width
  let start ← mul stride y
  let next ← add y 1
  let stop ← mul stride next
  if start ≤ stop ∧ stop ≤ r.data.size then .ok (start, stop) else .error .bounds

/-- zero a row from its place `a` up to its place `b` -/
def zero (r : Raster) (row : Nat × Nat) (a b : Nat) : Run Raster :=
  if a ≤ b ∧ b ≤ row.2 - row.1 then .ok (r.zeroed (row.1 + a) (row.1 + b)) else .error .bounds

/-- zero a row from its place `a` on -/
def zeroFrom (r : Raster) (row : Nat × Nat) (a : Nat) : Run Raster := zero r row a (row.2 - row.1)

def clear (r : Raster) : Raster := r.zeroed 0 r.data.size

/-- zero the part of one row that lies within `n` pixels of an edge -/
def clearRowEnds (n y : Nat) (r : Raster) : Run Raster := do
  let part ← row r y
  if y < n then zeroFrom r part 0
  else
    let reach ← add y n
    if r.height ≤ reach then zeroFrom r part 0
    else
      let left ← mul 3 (min n r.width)
      let cleared ← zero r part 0 left
      let rest ← sub r.width (min n r.width)
      let right ← mul 3 rest
      zeroFrom cleared part right

def clearBorders (r : Raster) (n : Nat) : Run Raster :=
  (List.range r.height).foldlM (fun r y => clearRowEnds n y r) r

/-- zero what the last row and the last column take of one row -/
def clearRowEnd (y : Nat) (r : Raster) : Run Raster := do
  let part ← row r y
  let next ← add y 1
  if next = r.height then zeroFrom r part 0
  else
    let last ← sub r.width 1
    let start ← mul 3 last
    zeroFrom r part start

def clearLastRowColumn (r : Raster) : Run Raster := (List.range r.height).foldlM (fun r y => clearRowEnd y r) r

end Machine

end Imaging
