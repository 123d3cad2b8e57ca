/-
Shaded colours. Where red, green and blue are affine functions of column and row, a mosaic shows one of the three planes
at each site, and the methods whose windows lie evenly around the site give all three back, without an error in the last
place (`Kernel.Reproduces`): rounding biases and shifts meet only sums that they divide exactly. The methods that look
to one side alone give back constant planes.
- `colour_planes`: a kernel that reproduces the planes of a site gives the site their values;
- `decode_planes`: the requests, at every depth.
-/
import Imaging.Proofs.Demosaic.Depth
import Imaging.Proofs.Demosaic.Reach

namespace Imaging

/-- an affine function of column and row -/
structure Plane where
  alongRow : Int
  alongColumn : Int
  base : Int
  deriving DecidableEq, Repr

namespace Plane

def value (p : Plane) (x y : Int) : Int := p.alongRow * x + p.alongColumn * y + p.base

def Flat (p : Plane) : Prop := p.alongRow = 0 ∧ p.alongColumn = 0

/-- the plane around another site -/
def moved (p : Plane) (a b : Int) : Plane := { p with base := p.value a b }

theorem value_moved (p : Plane) (a b dx dy : Int) : (p.moved a b).value dx dy = p.value (a + dx) (b + dy) := by
  simp only [value, moved, Int.mul_add]
  omega

theorem base_moved (p : Plane) (a b : Int) : (p.moved a b).base = p.value a b := rfl

theorem value_zero (p : Plane) : p.value 0 0 = p.base := by
  rw [value, Int.mul_zero, Int.mul_zero, Int.zero_add, Int.zero_add]

theorem value_of_flat {p : Plane} (h : p.Flat) (x y : Int) : p.value x y = p.base := by
  rw [value, h.1, h.2, Int.zero_mul, Int.zero_mul, Int.zero_add, Int.zero_add]

end Plane

/-! ## Patterns of planes -/

namespace Estimate

/-- what a green site sees of the planes of its row, of green and of its column -/
def aroundGreen (e : Estimate Plane) : Window Int := fun dx dy =>
  if dy % 2 = 0 then if dx % 2 = 0 then e.green.value dx dy else e.row.value dx dy
  else if dx % 2 = 0 then e.column.value dx dy else e.green.value dx dy

/-- what a site of the row's colour sees of the same planes -/
def aroundColour (e : Estimate Plane) : Window Int := fun dx dy =>
  if dy % 2 = 0 then if dx % 2 = 0 then e.row.value dx dy else e.green.value dx dy
  else if dx % 2 = 0 then e.green.value dx dy else e.column.value dx dy

def Flat (e : Estimate Plane) : Prop := e.row.Flat ∧ e.green.Flat ∧ e.column.Flat

end Estimate

/-- a kernel gives a site the values of the planes around it, whether the site is green or not -/
structure Kernel.Reproduces (k : Kernel Int) (e : Estimate Plane) : Prop where
  atGreen : k.atGreen e.aroundGreen = e.map Plane.base
  atColour : k.atColour e.aroundColour = e.map Plane.base

/-! ## Kernels that reproduce planes -/

namespace Kernel

open EdgeSense

variable {e : Estimate Plane}

theorem reproduces_nearest (h : e.Flat) : Kernel.nearest.Reproduces e := by
  obtain ⟨hrow, hgreen, hcolumn⟩ := h
  refine ⟨?_, ?_⟩
  · simp [nearest, Estimate.map, Estimate.aroundGreen, Plane.value_of_flat, *]
  · simp [nearest, Estimate.map, Estimate.aroundColour, Plane.value_of_flat, *]

theorem reproduces_simple (h : e.Flat) : Kernel.simple.Reproduces e := by
  obtain ⟨hrow, hgreen, hcolumn⟩ := h
  have hmean (v : Int) : roundedMean v v = v := by
    unfold roundedMean
    omega
  refine ⟨?_, ?_⟩
  · simp [simple, Estimate.map, Estimate.aroundGreen, Plane.value_of_flat, *]
  · simp [simple, Estimate.map, Estimate.aroundColour, Plane.value_of_flat, *]

theorem reproduces_tilewise (h : e.Flat) : Kernel.tilewise.Reproduces e := by
  obtain ⟨hrow, hgreen, hcolumn⟩ := h
  have hmean (v : Int) : (v + v) / 2 = v := by omega
  refine ⟨?_, ?_⟩
  · simp [tilewise, Estimate.map, Estimate.aroundGreen, Plane.value_of_flat, *]
  · simp [tilewise, Estimate.map, Estimate.aroundColour, Plane.value_of_flat, *]

theorem reproduces_bilinear (e : Estimate Plane) : Kernel.bilinear.Reproduces e := by
  refine ⟨?_, ?_⟩
  · simp only [bilinear, roundedMean, Estimate.map, Estimate.mk.injEq, Estimate.aroundGreen, Plane.value, Int.reduceNeg,
      Int.reduceMod, Int.reduceEq, reduceIte]
    omega
  · simp only [bilinear, beside, diagonal, Estimate.map, Estimate.mk.injEq, Estimate.aroundColour, Plane.value,
      Int.reduceNeg, Int.reduceMod, Int.reduceEq, reduceIte]
    omega

/-- every weighted sum of this kernel is eight times the value, so the bias of four changes nothing -/
theorem reproduces_hqLinear (e : Estimate Plane) : Kernel.hqLinear.Reproduces e := by
  refine ⟨?_, ?_⟩
  · simp only [hqLinear, alongRow, alongColumn, diagonal, roundedMean, Estimate.map, Estimate.mk.injEq,
      Estimate.aroundGreen, Plane.value, Int.reduceNeg, Int.reduceMod, Int.reduceEq, reduceIte]
    omega
  · simp only [hqLinear, greenBeside, colourDiagonal, beside, diagonal, twoBeside, Estimate.map, Estimate.mk.injEq,
      Estimate.aroundColour, Plane.value, Int.reduceNeg, Int.reduceMod, Int.reduceEq, reduceIte]
    omega

/-- in a plane no direction is smoother than the other, and the mean of four is exact -/
theorem edgeGreen_planes (colour : Plane) {green : Plane} {s : Window Int}
    (hs : ∀ dx dy : Int, dx % 2 = 0 → dy % 2 = 0 → s dx dy = colour.value dx dy)
    (hg : ∀ dx dy : Int, (dx + dy) % 2 ≠ 0 → s dx dy = green.value dx dy) : edgeGreen s = green.base := by
  have hplanes : edgeGreen s = greenEstimate colour.value green.value :=
    greenEstimate_congr (fun dx dy hx hy _ _ => hs dx dy hx hy) fun dx dy hodd _ _ => hg dx dy hodd
  have hrow : secondDifferenceAlongRow colour.value = 0 := by
    simp only [secondDifferenceAlongRow, meanOfTwo, Plane.value]
    omega
  have hcolumn : secondDifferenceAlongColumn colour.value = 0 := by
    simp only [secondDifferenceAlongColumn, meanOfTwo, Plane.value]
    omega
  calc
    edgeGreen s = greenAlong (0 : Int).natAbs (0 : Int).natAbs green.value := by
      rw [hplanes, greenEstimate, hrow, hcolumn]
    _ = meanOfFour (green.value (-1) 0) (green.value 1 0) (green.value 0 (-1)) (green.value 0 1) := by
      rw [greenAlong, if_neg (Nat.lt_irrefl _), if_neg (Nat.lt_irrefl _)]
    _ = green.base := by
      simp only [meanOfFour, Plane.value]
      omega

/-- around a site that carries a colour other than green, the difference is that of the two planes -/
theorem edgeDifference_planes {s : Window Int} {colour green : Plane} {a b : Int}
    (hs : ∀ dx dy : Int, dx % 2 = 0 → dy % 2 = 0 → s (a + dx) (b + dy) = colour.value (a + dx) (b + dy))
    (hg : ∀ dx dy : Int, (dx + dy) % 2 ≠ 0 → s (a + dx) (b + dy) = green.value (a + dx) (b + dy)) :
    edgeDifference s a b = colour.value a b - green.value a b := by
  have hgreen : edgeGreen (s.moved a b) = (green.moved a b).base := by
    refine edgeGreen_planes (colour.moved a b) ?_ ?_
    · intro dx dy hx hy
      rw [Plane.value_moved, Window.moved, hs dx dy hx hy]
    · intro dx dy hodd
      rw [Plane.value_moved, Window.moved, hg dx dy hodd]
  have hcentre := hs 0 0 rfl rfl
  rw [Int.add_zero, Int.add_zero] at hcentre
  rw [edgeDifference, hgreen, hcentre, Plane.base_moved]

theorem edgeDifference_row {a : Int} (ha : a % 2 = 1) :
    edgeDifference e.aroundGreen a 0 = e.row.value a 0 - e.green.value a 0 := by
  refine edgeDifference_planes ?_ ?_
  · intro dx dy hx hy
    rw [Estimate.aroundGreen, if_pos (by omega), if_neg (by omega)]
  · intro dx dy hodd
    by_cases hy : dy % 2 = 0
    · rw [Estimate.aroundGreen, if_pos (by omega), if_pos (by omega)]
    · rw [Estimate.aroundGreen, if_neg (by omega), if_neg (by omega)]

theorem edgeDifference_column {b : Int} (hb : b % 2 = 1) :
    edgeDifference e.aroundGreen 0 b = e.column.value 0 b - e.green.value 0 b := by
  refine edgeDifference_planes ?_ ?_
  · intro dx dy hx hy
    rw [Estimate.aroundGreen, if_neg (by omega), if_pos (by omega)]
  · intro dx dy hodd
    by_cases hy : dy % 2 = 0
    · rw [Estimate.aroundGreen, if_neg (by omega), if_neg (by omega)]
    · rw [Estimate.aroundGreen, if_pos (by omega), if_pos (by omega)]

theorem edgeDifference_diagonal {a b : Int} (ha : a % 2 = 1) (hb : b % 2 = 1) :
    edgeDifference e.aroundColour a b = e.column.value a b - e.green.value a b := by
  refine edgeDifference_planes ?_ ?_
  · intro dx dy hx hy
    rw [Estimate.aroundColour, if_neg (by omega), if_neg (by omega)]
  · intro dx dy hodd
    by_cases hy : dy % 2 = 0
    · rw [Estimate.aroundColour, if_neg (by omega), if_pos (by omega)]
    · rw [Estimate.aroundColour, if_pos (by omega), if_neg (by omega)]

theorem reproduces_edgeSense (e : Estimate Plane) : Kernel.edgeSense.Reproduces e := by
  have hl := edgeDifference_row (e := e) (a := -1) rfl
  have hr := edgeDifference_row (e := e) (a := 1) rfl
  have hu := edgeDifference_column (e := e) (b := -1) rfl
  have hd := edgeDifference_column (e := e) (b := 1) rfl
  have hdiagonal {a b : Int} := edgeDifference_diagonal (e := e) (a := a) (b := b)
  have hgreen : edgeGreen e.aroundColour = e.green.base := by
    refine edgeGreen_planes e.row ?_ ?_
    · intro dx dy hx hy
      rw [Estimate.aroundColour, if_pos hy, if_pos hx]
    · intro dx dy hodd
      by_cases hy : dy % 2 = 0
      · rw [Estimate.aroundColour, if_pos hy, if_neg (by omega)]
      · rw [Estimate.aroundColour, if_neg hy, if_pos (by omega)]
  have hcentre : e.aroundGreen 0 0 = e.green.base := e.green.value_zero
  have hcentre' : e.aroundColour 0 0 = e.row.base := e.row.value_zero
  refine ⟨?_, ?_⟩
  · simp only [edgeSense, hl, hr, hu, hd, hcentre, meanOfTwo, Estimate.map, Estimate.mk.injEq, Plane.value, true_and]
    omega
  · simp (disch := decide) only [edgeSense, hdiagonal, hgreen, hcentre', meanOfFour, Estimate.map, Estimate.mk.injEq,
      Plane.value, true_and]
    omega

end Kernel

/-! ## Sites of a shaded mosaic -/

/-- the planes of a row's other colour, of green and of the column's colour -/
def Phase.planes (p : Phase) (P : Channel → Plane) : Estimate Plane := ⟨P p.rowChannel, P .green, P p.columnChannel⟩

theorem Phase.channel_planes {α : Type} (p : Phase) (P : Channel → Plane) (f : Plane → α) (c : Channel) :
    ((p.planes P).map f).channel p c = f (P c) := by
  by_cases hg : c = .green
  · rw [hg, Estimate.channel_green]
    rfl
  · by_cases hr : p.rowChannel = c
    · rw [← hr, Estimate.channel_rowChannel]
      rfl
    · rw [← Phase.columnChannel_eq hg hr, Estimate.channel_columnChannel]
      rfl

theorem Phase.value_around (p : Phase) (P : Channel → Plane) (x : Nat) (dx dy : Int) :
    (P (p.channelAround x dx dy)).value dx dy =
      if p.isGreen x = true then (p.planes P).aroundGreen dx dy else (p.planes P).aroundColour dx dy := by
  by_cases hg : p.isGreen x = true
  · by_cases hx : dx % 2 = 0 <;> by_cases hy : dy % 2 = 0 <;>
      simp [Phase.channelAround, Estimate.aroundGreen, Phase.planes, hg, hx, hy]
  · by_cases hx : dx % 2 = 0 <;> by_cases hy : dy % 2 = 0 <;>
      simp [Phase.channelAround, Estimate.aroundColour, Phase.planes, hg, hx, hy]

namespace Method

variable {k : Method} {t : Tile} {x y : Nat} {P : Channel → Plane} {s : Window Int}

/-- the methods whose windows lie evenly around the site reproduce planes, all methods reproduce constant ones -/
theorem reproduces (hk : k ∈ [bilinear, hqLinear, edgeSense] ∨ ∀ c, (P c).Flat) (p : Phase) :
    k.kernel.Reproduces (p.planes P) := by
  have hflat (h : ∀ c, (P c).Flat) : (p.planes P).Flat := ⟨h _, h _, h _⟩
  cases k with
  | bilinear => exact Kernel.reproduces_bilinear _
  | hqLinear => exact Kernel.reproduces_hqLinear _
  | edgeSense => exact Kernel.reproduces_edgeSense _
  | nearest => exact Kernel.reproduces_nearest (hflat (hk.resolve_left (by decide)))
  | simple => exact Kernel.reproduces_simple (hflat (hk.resolve_left (by decide)))
  | downsample => exact Kernel.reproduces_tilewise (hflat (hk.resolve_left (by decide)))

/-- **The colours of a shaded site** are the values of the planes at the site. -/
theorem colour_planes (hk : k.kernel.Reproduces ((Phase.atRow t y).planes P))
    (hs : ∀ dx dy, k.Reaches dx dy → s dx dy = (P ((Phase.atRow t y).channelAround x dx dy)).value dx dy)
    (c : Channel) : k.kernel.colour t x y s c = (P c).base := by
  by_cases hg : (Phase.atRow t y).isGreen x = true
  · have hs' : ∀ dx dy, k.Reaches dx dy → s dx dy = ((Phase.atRow t y).planes P).aroundGreen dx dy := by
      intro dx dy h
      rw [hs dx dy h, Phase.value_around, if_pos hg]
    rw [k.colour_congr hs', Kernel.colour_of_green hg, hk.atGreen, Phase.channel_planes]
  · have hs' : ∀ dx dy, k.Reaches dx dy → s dx dy = ((Phase.atRow t y).planes P).aroundColour dx dy := by
      intro dx dy h
      rw [hs dx dy h, Phase.value_around, if_neg hg]
    rw [k.colour_congr hs', Kernel.colour_of_not_green hg, hk.atColour, Phase.channel_planes]

end Method

/-! ## Shaded mosaics -/

/-- every value of the plane over an image is a sample -/
def Plane.Within (p : Plane) (w h ceiling : Nat) : Prop :=
  ∀ x y : Nat, x < w → y < h → 0 ≤ p.value x y ∧ p.value x y ≤ ceiling

/-- every site of the mosaic shows the plane of its colour -/
def Mosaic.Shows (m : Mosaic) (t : Tile) (P : Channel → Plane) : Prop :=
  ∀ x y, x < m.width → y < m.height → (m.get x y : Int) = (P (t.colourAt x y)).value x y

namespace Method

variable {k : Method} {m : Mosaic} {t : Tile} {P : Channel → Plane} {ceiling x y : Nat}

/-- around a pixel of the interior the samples are values of the planes -/
theorem window_of_shows (hshow : m.Shows t P) (hin : (k.interior m.width m.height).Contains x y) {dx dy : Int}
    (hreach : k.Reaches dx dy) :
    m.window (k.stride * x) (k.stride * y) dx dy =
      ((P ((Phase.atRow t (k.stride * y)).channelAround (k.stride * x) dx dy)).moved ↑(k.stride * x) ↑(k.stride * y)).value
        dx dy := by
  obtain ⟨a, b, ⟨ha, ha'⟩, hb, hb'⟩ := exists_of_reaches hin hreach
  rw [m.window_eq_get ha hb, hshow a b ha' hb', Phase.colourAt_of_offset t ha hb, Plane.value_moved, ha, hb]

/-- **The pixels of a shaded mosaic** inside the method's margin. -/
theorem pixel_planes (hk : k ∈ [bilinear, hqLinear, edgeSense] ∨ ∀ c, (P c).Flat) (hshow : m.Shows t P)
    (hsamples : ∀ v ∈ m.samples, v ≤ ceiling) (hin : (k.interior m.width m.height).Contains x y) {c : Channel}
    (hmem : 0 ≤ (P c).value ↑(k.stride * x) ↑(k.stride * y) ∧ (P c).value ↑(k.stride * x) ↑(k.stride * y) ≤ ceiling) :
    (k.pixel m t ceiling x y c : Int) = (P c).value ↑(k.stride * x) ↑(k.stride * y) := by
  have hk' : k ∈ [bilinear, hqLinear, edgeSense] ∨ ∀ c, ((P c).moved ↑(k.stride * x) ↑(k.stride * y)).Flat := hk
  have hestimate : k.estimate m t ceiling x y c = (P c).value ↑(k.stride * x) ↑(k.stride * y) := by
    rw [estimate, k.source_of_le hsamples]
    exact colour_planes (reproduces hk' _) (fun dx dy hreach => window_of_shows hshow hin hreach) c
  rw [pixel, if_pos hin, hestimate, clamp_of_mem hmem.1 hmem.2]

end Method

namespace Depth

variable {α : Type} {k : Method} {w h : Nat} {P : Channel → Plane}

/-- the mosaic that a sensor behind the filter takes of three planes -/
def shade (d : Depth α) (t : Tile) (P : Channel → Plane) (w h : Nat) : Array α :=
  tabulate w h fun x y => d.ofNat ((P (t.colourAt x y)).value x y).toNat

theorem size_shade (d : Depth α) (t : Tile) : (d.shade t P w h).size = w * h := size_tabulate

theorem toNat_shade (d : Depth α) {x y : Nat} {p : Plane} (hp : p.Within w h d.ceiling) (hx : x < w) (hy : y < h) :
    d.toNat (d.ofNat (p.value x y).toNat) = (p.value x y).toNat := by
  obtain ⟨h₀, h₁⟩ := hp x y hx hy
  exact d.toNat_ofNat (by omega)

theorem shows_shade (d : Depth α) (t : Tile) (hP : ∀ c, (P c).Within w h d.ceiling) :
    (d.mosaic w h (d.shade t P w h) (d.size_shade t)).Shows t P := by
  intro x y (hx : x < w) (hy : y < h)
  have hvalue := (hP (t.colourAt x y) x y hx hy).1
  rw [d.get_mosaic (d.size_shade t) hx hy, shade, getElem?_tabulate hx hy, Option.map_some, Option.getD_some,
    d.toNat_shade (hP _) hx hy, Int.toNat_of_nonneg hvalue]

theorem shade_le (d : Depth α) (t : Tile) (hP : ∀ c, (P c).Within w h d.ceiling) :
    ∀ v ∈ (d.mosaic w h (d.shade t P w h) (d.size_shade t)).samples, v ≤ d.ceiling := by
  intro v hv
  obtain ⟨a, ha, rfl⟩ := Array.mem_map.mp hv
  obtain ⟨x, y, hx, hy, rfl⟩ := exists_of_mem_tabulate ha
  have hvalue := (hP (t.colourAt x y) x y hx hy).2
  rw [d.toNat_shade (hP _) hx hy]
  omega

theorem channelAt?_shade (d : Depth α) (t : Tile) {dst : Array α} (hfit : Fits k w h (d.shade t P w h) dst)
    (hP : ∀ c, (P c).Within w h d.ceiling) (hk : k ∈ [.bilinear, .hqLinear, .edgeSense] ∨ ∀ c, (P c).Flat) {x y : Nat}
    (hin : (k.interior w h).Contains x y) (c : Channel) :
    ∃ v, channelAt? (k.outputSize w h).1 (d.decode t k w h (d.shade t P w h) dst).dst x y c = some v ∧
      (d.toNat v : Int) = (P c).value ↑(k.stride * x) ↑(k.stride * y) := by
  have hsite : k.stride * x < w ∧ k.stride * y < h := by
    cases k <;>
      simp only [Method.stride, Method.interior, Region.Contains, Region.corners, Region.inside, Region.whole] at hin ⊢ <;>
      omega
  have hlt := Method.lt_outputSize hin
  have hpixel := Method.pixel_planes (m := d.mosaic w h _ hfit.src_size) hk (d.shows_shade t hP) (d.shade_le t hP) hin
    (hP c _ _ hsite.1 hsite.2)
  refine ⟨_, d.channelAt?_decode hfit t hlt.1 hlt.2 c, ?_⟩
  rw [d.toNat_ofNat (k.pixel_le _ t _ x y c), hpixel]

end Depth

/-- **Exact reconstruction of shaded colours.** The mosaic of three affine planes within the range of samples gives back
the planes, channel by channel, inside the margin of the bilinear, the high-quality linear and the edge-sensing method.
Constant planes come back from every method, from the one that reduces in every pixel. -/
theorem decode_planes {α : Type} (d : Depth α) (t : Tile) (k : Method) {w h : Nat} (P : Channel → Plane) {dst : Array α}
    (hfit : Fits k w h (d.shade t P w h) dst) (hP : ∀ c, (P c).Within w h d.ceiling) :
    (d.decode t k w h (d.shade t P w h) dst).result = .ok () ∧
      (k ∈ [.bilinear, .hqLinear, .edgeSense] → ∀ x y c, (k.interior w h).Contains x y → ∃ v,
        channelAt? w (d.decode t k w h (d.shade t P w h) dst).dst x y c = some v ∧
          (d.toNat v : Int) = (P c).value x y) ∧
      ((∀ c, (P c).Flat) → ∀ x y c, (k.interior w h).Contains x y → ∃ v,
        channelAt? (k.outputSize w h).1 (d.decode t k w h (d.shade t P w h) dst).dst x y c = some v ∧
          (d.toNat v : Int) = (P c).base) := by
  refine ⟨(d.result_eq_ok_iff t k w h _ dst).mpr hfit, ?_, ?_⟩
  · intro hk x y c hin
    have hne : k ≠ .downsample := by
      rintro rfl
      exact absurd hk (by decide)
    have hchannel := d.channelAt?_shade t hfit hP (.inl hk) hin c
    rwa [k.outputSize_of_ne hne, k.stride_of_ne hne, Nat.one_mul, Nat.one_mul] at hchannel
  · intro hflat x y c hin
    obtain ⟨v, hv, hvalue⟩ := d.channelAt?_shade t hfit hP (.inr hflat) hin c
    exact ⟨v, hv, hvalue.trans (Plane.value_of_flat (hflat c) _ _)⟩

/-- three ramps rebuilt along edges, and one colour of 10-bit samples reduced to a pixel for each tile -/
theorem decode_planes_ramps :
    (let P : Channel → Plane := fun
        | .red => ⟨3, -2, 40⟩
        | .green => ⟨1, 2, 10⟩
        | .blue => ⟨-1, 1, 100⟩
      ∀ x y c, (Method.interior .edgeSense 8 8).Contains x y → ∃ v,
        channelAt? 8 (decode8 .grbg .edgeSense 8 8 (Depth.byte.shade .grbg P 8 8) (.replicate 192 7)).dst x y c =
            some v ∧
          (v.toNat : Int) = (P c).value x y) ∧
      (let d : Depth UInt16 := .word 10 (by decide)
        let P : Channel → Plane := fun c => ⟨0, 0, 500 + c.index⟩
        ∀ x y c, (Method.interior .downsample 4 2).Contains x y → ∃ v,
          channelAt? 2 (decode16 .bggr .downsample 4 2 10 (d.shade .bggr P 4 2) (.replicate 6 7)).dst x y c = some v ∧
            (v.toNat : Int) = (P c).base) := by
  refine ⟨?_, ?_⟩
  · intro P
    refine (decode_planes .byte .grbg .edgeSense P ?_ ?_).2.1 (by decide)
    · decide +kernel
    · intro c x y hx hy
      cases c <;> simp only [P, Plane.value, Depth.ceiling] <;> omega
  · intro d P
    refine (decode_planes d .bggr .downsample P ?_ ?_).2.2 fun c => ⟨rfl, rfl⟩
    · decide +kernel
    · intro c x y hx hy
      have hceiling : d.ceiling = 1023 := rfl
      have hc := c.index_lt
      simp only [P, Plane.value, hceiling]
      omega

end Imaging
